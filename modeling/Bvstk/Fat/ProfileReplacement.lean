import Bvstk.Fat.DeviceNames

/-! # Replacing a profile

In every state of `write_device_file` the canonical file holds the old or the new content, or
it is absent and the backup holds the old one.
-/
namespace Bvstk.Fat
open Bvstk.Fs Bvstk.Config CrashRun

/-! ## The four objects -/

def bundleKey (root : Path) (device : Name) : Key := key root ++ [device.map toLower]
def profileKey (root : Path) (device : Name) : Key := bundleKey root device ++ [device.map toLower ++ jsonExtension]
def backupKey (root : Path) (device : Name) : Key :=
  bundleKey root device ++ [device.map toLower ++ jsonExtension ++ bakEnding]

/-- No dot in the last name of the directory of the profiles. -/
def Plain (root : Path) : Prop := ∀ name, (key root).getLast? = some name → 46 ∉ name

theorem plain_profileRoot (drive : UInt8) (fallback mdio : Bool) : Plain (profileRoot drive fallback mdio) := by
  intro name h
  have hbus : IsName (busDirName mdio) := by cases mdio <;> decide
  rw [profileRoot, key_child _ hbus, List.getLast?_concat, Option.some.injEq] at h
  subst h
  cases mdio <;> decide

section
variable {root : Path} {device : Name} (hd : WordName device)
include hd

theorem key_in_bundle {ending : Name} (hending : ∀ c ∈ ending, isSeparator c = false) :
    key ((root ++ slash :: device) ++ slash :: (device ++ ending)) =
      bundleKey root device ++ [(device ++ ending).map toLower] := by
  rw [key_child _ (hd.isName hending), key_child _ hd.name, bundleKey]

theorem key_profilePath : key (profilePath root device) = profileKey root device := by
  rw [profilePath, key_in_bundle hd jsonExtension_no_separator, profileKey, List.map_append]
  rfl

theorem key_tmpPath : key (profilePath root device ++ tmpEnding) =
    bundleKey root device ++ [device.map toLower ++ jsonExtension ++ tmpEnding] := by
  have hpath : profilePath root device ++ tmpEnding =
      (root ++ slash :: device) ++ slash :: (device ++ (jsonExtension ++ tmpEnding)) := by
    simp [profilePath]
  rw [hpath, key_in_bundle hd (json_append_no_separator tmpEnding_isName.2), List.map_append, List.append_assoc]
  rfl

theorem key_backupPath : key (profilePath root device ++ bakEnding) = backupKey root device := by
  have hpath : profilePath root device ++ bakEnding =
      (root ++ slash :: device) ++ slash :: (device ++ (jsonExtension ++ bakEnding)) := by
    simp [profilePath]
  rw [hpath, key_in_bundle hd (json_append_no_separator bakEnding_no_separator), backupKey, List.map_append, List.append_assoc]
  rfl

/-- A name with a dot is neither the directory of the profiles nor that of the device. -/
theorem not_directory (k : Key) {n : Name} (hroot : Plain root) (hdot : 46 ∈ n) :
    k ++ [n] ≠ key root ∧ k ++ [n] ≠ bundleKey root device := by
  constructor
  · intro heq
    exact hroot n (by rw [← heq, List.getLast?_concat]) hdot
  · intro heq
    obtain ⟨-,hname⟩ := List.append_inj' heq rfl
    rw [List.cons.injEq] at hname
    rw [hname.1] at hdot
    obtain ⟨c,hc,hlower⟩ := List.mem_map.mp hdot
    have hword := hd.2 c hc
    rw [← isWord_toLower, hlower] at hword
    exact absurd hword (by decide)

end

/-- Names that end differently. -/
theorem snoc_ne {k k' : Key} {a b : Name} (h : a.getLast? ≠ b.getLast?) : k ++ [a] ≠ k' ++ [b] := by
  intro heq
  obtain ⟨-,hname⟩ := List.append_inj' heq rfl
  rw [List.cons.injEq] at hname
  exact h (by rw [hname.1])

theorem getLast?_json (a : Name) : (a ++ jsonExtension).getLast? = some 110 := by
  simp [jsonExtension]

theorem getLast?_bak (a : Name) : (a ++ bakEnding).getLast? = some 107 := by
  simp [bakEnding]

theorem getLast?_tmp (a : Name) : (a ++ tmpEnding).getLast? = some 112 := by
  simp [tmpEnding]

/-- An object that is none of the four. -/
structure Foreign (root : Path) (device : Name) (k : Key) : Prop where
  rootDir : k ≠ key root
  bundleDir : k ≠ bundleKey root device
  profile : k ≠ profileKey root device
  backup : k ≠ backupKey root device

theorem foreign_tmp {root : Path} {device : Name} (hd : WordName device) (hroot : Plain root) (k : Key) (name : Name) :
    Foreign root device (k ++ [name ++ tmpEnding]) := by
  obtain ⟨hr,hb⟩ := not_directory hd k hroot (n := name ++ tmpEnding) (by simp [tmpEnding])
  refine ⟨hr,hb,snoc_ne ?_,snoc_ne ?_⟩
  · rw [getLast?_tmp, getLast?_json]
    decide
  · rw [getLast?_tmp, getLast?_bak]
    decide

theorem profileKey_ne_backupKey (root : Path) (device : Name) : profileKey root device ≠ backupKey root device := by
  refine snoc_ne ?_
  rw [getLast?_json, getLast?_bak]
  decide

/-! ## The invariant -/

section
variable {σ : Type} (F : FatFs σ) (root : Path) (device : Name) (old data : List UInt8)

/-- The canonical file holds one of the two contents. -/
def Present (s : σ) : Prop :=
  Safe F s (profilePath root device) old ∨ Safe F s (profilePath root device) data

/-- The canonical file is away, and the backup holds the old content. -/
structure BackedUp (s : σ) : Prop where
  absent : F.node s (profileKey root device) = none
  backup : F.node s (backupKey root device) = some ⟨device ++ jsonBakEnding,.file old true⟩

structure Recoverable (s : σ) : Prop where
  rootDir : ∃ f, F.node s (key root) = some ⟨f,.dir⟩
  bundleDir : ∃ f, F.node s (bundleKey root device) = some ⟨f,.dir⟩
  profile : Present F root device old data s ∨ BackedUp F root device old s

/-- What a part of a run keeps. -/
structure Keeps (r r' : Run σ) : Prop where
  always : Always (Recoverable F root device old data) r → Always (Recoverable F root device old data) r'
  present : Always (Recoverable F root device old data) r → Present F root device old data r.state →
    Present F root device old data r'.state

end

section
variable {σ : Type} {F : FatFs σ} {root : Path} {device : Name} {old data : List UInt8} {s t : σ} {r r' r'' : Run σ}

theorem keeps_refl (r : Run σ) : Keeps F root device old data r r := ⟨id,fun _ => id⟩

theorem Keeps.trans (h : Keeps F root device old data r r') (h' : Keeps F root device old data r' r'') :
    Keeps F root device old data r r'' :=
  ⟨fun hr => h'.always (h.always hr),fun hr hp => h'.present (h.always hr) (h.present hr hp)⟩

/-- A call that changes nothing. -/
theorem Keeps.look {α : Type} {f : σ → α × σ} (h : Keeps F root device old data r r')
    (hf : F.node (f r'.state).2 = F.node r'.state) : Keeps F root device old data r (r'.call f).2 := by
  have hpresent : ∀ s t, F.node t = F.node s → Present F root device old data s → Present F root device old data t := by
    intro s t hnode hs
    simpa only [Present, Safe, hnode] using hs
  refine h.trans ⟨fun hr => hr.call fun hs => ?_,fun _ hs => hpresent _ _ hf hs⟩
  refine ⟨by simpa only [hf] using hs.rootDir,by simpa only [hf] using hs.bundleDir,?_⟩
  rcases hs.profile with hp | hb
  · exact Or.inl (hpresent _ _ hf hp)
  · exact Or.inr ⟨by rw [hf, hb.absent],by rw [hf, hb.backup]⟩

variable (hd : WordName device)
include hd

theorem Present.congr (h : Present F root device old data s)
    (hk : F.node t (profileKey root device) = F.node s (profileKey root device)) :
    Present F root device old data t := by
  simpa only [Present, Safe, key_profilePath hd, hk] using h

theorem Present.node (h : Present F root device old data s) : F.node s (profileKey root device) ≠ none := by
  rcases h with ⟨f,hf⟩ | ⟨f,hf⟩ <;> rw [key_profilePath hd] at hf <;> simp [hf]

/-- Whatever a step changes elsewhere. -/
theorem Recoverable.congr (h : Recoverable F root device old data s) (hroot : F.node t (key root) = F.node s (key root))
    (hbundle : F.node t (bundleKey root device) = F.node s (bundleKey root device))
    (hprofile : F.node t (profileKey root device) = F.node s (profileKey root device))
    (hbackup : F.node s (profileKey root device) = none →
      F.node t (backupKey root device) = F.node s (backupKey root device)) :
    Recoverable F root device old data t := by
  refine ⟨by rw [hroot]; exact h.rootDir,by rw [hbundle]; exact h.bundleDir,?_⟩
  rcases h.profile with hp | hb
  · exact Or.inl (hp.congr hd hprofile)
  · exact Or.inr ⟨by rw [hprofile, hb.absent],by rw [hbackup hb.absent, hb.backup]⟩

omit hd in
theorem Recoverable.reset (hF : F.Documented) (h : Recoverable F root device old data s) (ht : F.Reset s t) :
    Recoverable F root device old data t := by
  have hsame : ∀ k n, F.node s k = some n → (∀ f data, n ≠ ⟨f,.file data false⟩) → F.node t k = some n := by
    intro k n hn hsafe
    rcases hF.reset_node s t ht k with hk | ⟨f,data,hk⟩
    · rw [hk, hn]
    · exact absurd (Option.some.inj (hn.symm.trans hk)) (hsafe f data)
  obtain ⟨f,hf⟩ := h.rootDir
  obtain ⟨g,hg⟩ := h.bundleDir
  refine ⟨⟨f,hsame _ _ hf (by simp)⟩,⟨g,hsame _ _ hg (by simp)⟩,?_⟩
  rcases h.profile with (hp | hp) | hb
  · exact Or.inl (Or.inl (hp.reset hF ht))
  · exact Or.inl (Or.inr (hp.reset hF ht))
  · refine Or.inr ⟨?_,hsame _ _ hb.backup (by simp)⟩
    rcases hF.reset_node s t ht (profileKey root device) with hk | ⟨f,data,hk⟩
    · rw [hk, hb.absent]
    · exact absurd (hb.absent.symm.trans hk) (by simp)

theorem Recoverable.foreign {k : Key} (h : Recoverable F root device old data s) (hk : Foreign root device k)
    (hframe : ∀ k', k' ≠ k → F.node t k' = F.node s k') : Recoverable F root device old data t :=
  h.congr hd (hframe _ hk.rootDir.symm) (hframe _ hk.bundleDir.symm) (hframe _ hk.profile.symm)
    fun _ => hframe _ hk.backup.symm

end

/-! ## The replacement -/

section
variable {σ : Type} (F : FatFs σ) (root : Path) (device : Name) (old : List UInt8)

/-- The profile as it was. -/
structure Intact (s : σ) : Prop where
  rootDir : ∃ f, F.node s (key root) = some ⟨f,.dir⟩
  bundleDir : ∃ f, F.node s (bundleKey root device) = some ⟨f,.dir⟩
  profile : Safe F s (profilePath root device) old

end

section
variable {σ : Type} {F : FatFs σ} {root : Path} {device : Name} {old data : List UInt8} {s t : σ} {r : Run σ}

theorem Intact.recoverable (h : Intact F root device old s) : Recoverable F root device old data s :=
  ⟨h.rootDir,h.bundleDir,Or.inl (Or.inl h.profile)⟩

variable (hF : F.Documented) (hd : WordName device) (hroot : Plain root)
include hd

theorem Intact.congr (h : Intact F root device old s) (hr : F.node t (key root) = F.node s (key root))
    (hb : F.node t (bundleKey root device) = F.node s (bundleKey root device))
    (hp : F.node t (profileKey root device) = F.node s (profileKey root device)) : Intact F root device old t := by
  refine ⟨by rw [hr]; exact h.rootDir,by rw [hb]; exact h.bundleDir,?_⟩
  simpa only [Safe, key_profilePath hd, hp] using h.profile

theorem Intact.foreign {k : Key} (h : Intact F root device old s) (hk : Foreign root device k)
    (hframe : ∀ k', k' ≠ k → F.node t k' = F.node s k') : Intact F root device old t :=
  h.congr hd (hframe _ hk.rootDir.symm) (hframe _ hk.bundleDir.symm) (hframe _ hk.profile.symm)

include hroot

theorem foreign_tmpPath : Foreign root device (key (profilePath root device ++ tmpEnding)) := by
  rw [key_tmpPath hd]
  exact foreign_tmp hd hroot _ _

theorem directories_ne : (key root ≠ profileKey root device ∧ key root ≠ backupKey root device) ∧
    bundleKey root device ≠ profileKey root device ∧ bundleKey root device ≠ backupKey root device := by
  obtain ⟨hp,hp'⟩ := not_directory hd (bundleKey root device) hroot
    (n := device.map toLower ++ jsonExtension) (by simp [jsonExtension])
  obtain ⟨hb,hb'⟩ := not_directory hd (bundleKey root device) hroot
    (n := device.map toLower ++ jsonExtension ++ bakEnding) (by simp [bakEnding])
  exact ⟨⟨hp.symm,hb.symm⟩,hp'.symm,hb'.symm⟩

include hF

/-- Whatever becomes of the rename, the profile is still recoverable. -/
theorem Recoverable.install (h : Recoverable F root device old data s)
    (htmp : Safe F s (profilePath root device ++ tmpEnding) data) :
    Recoverable F root device old data (F.rename s (profilePath root device ++ tmpEnding) (profilePath root device)).2 := by
  have hforeign := foreign_tmpPath hd hroot
  obtain ⟨⟨hr,-⟩,hb,-⟩ := directories_ne hd hroot
  obtain ⟨f,hf⟩ := htmp
  cases hok : (F.rename s (profilePath root device ++ tmpEnding) (profilePath root device)).1 with
  | error e => exact h.foreign hd hforeign fun k _ => by rw [hF.rename_error _ _ _ e hok]
  | ok =>
    have hnode := (hF.rename_ok _ _ _ _ _ _ hf hok).2
    rw [key_profilePath hd] at hnode
    refine ⟨?_,?_,Or.inl (Or.inr ⟨leaf (profilePath root device),?_⟩)⟩
    · rw [hnode, if_neg hr, if_neg hforeign.rootDir.symm]
      exact h.rootDir
    · rw [hnode, if_neg hb, if_neg hforeign.bundleDir.symm]
      exact h.bundleDir
    · rw [key_profilePath hd, hnode, if_pos rfl]

/-- The backup may be put back. -/
theorem Recoverable.putBack (h : Recoverable F root device old data s) (hback : BackedUp F root device old s) :
    Recoverable F root device old data (F.rename s (profilePath root device ++ bakEnding) (profilePath root device)).2 := by
  obtain ⟨⟨hr,hr'⟩,hb,hb'⟩ := directories_ne hd hroot
  have hbackup := hback.backup
  rw [← key_backupPath hd] at hbackup
  cases hok : (F.rename s (profilePath root device ++ bakEnding) (profilePath root device)).1 with
  | error e =>
    have hnode := hF.rename_error _ _ _ e hok
    exact h.congr hd (by rw [hnode]) (by rw [hnode]) (by rw [hnode]) fun _ => by rw [hnode]
  | ok =>
    have hnode := (hF.rename_ok _ _ _ _ _ _ hbackup hok).2
    rw [key_profilePath hd, key_backupPath hd] at hnode
    refine ⟨?_,?_,Or.inl (Or.inl ⟨leaf (profilePath root device),?_⟩)⟩
    · rw [hnode, if_neg hr, if_neg hr']
      exact h.rootDir
    · rw [hnode, if_neg hb, if_neg hb']
      exact h.bundleDir
    · rw [key_profilePath hd, hnode, if_pos rfl]

theorem Intact.removeBackup (h : Intact F root device old s) :
    Intact F root device old (F.unlink s (profilePath root device ++ bakEnding)).2 := by
  obtain ⟨⟨-,hr⟩,-,hb⟩ := directories_ne hd hroot
  have hframe : ∀ k, k ≠ backupKey root device →
      F.node (F.unlink s (profilePath root device ++ bakEnding)).2 k = F.node s k := by
    intro k hk
    rw [← key_backupPath hd] at hk
    exact unlink_frame hF hk
  exact h.congr hd (hframe _ hr) (hframe _ hb) (hframe _ (profileKey_ne_backupKey root device))

variable (data) in
/-- The present file becomes the backup. -/
theorem Intact.backUp (h : Intact F root device old s)
    (hok : (F.rename s (profilePath root device) (profilePath root device ++ bakEnding)).1 = .ok ()) :
    Recoverable F root device old data (F.rename s (profilePath root device) (profilePath root device ++ bakEnding)).2 ∧
      BackedUp F root device old (F.rename s (profilePath root device) (profilePath root device ++ bakEnding)).2 := by
  obtain ⟨⟨hr,hr'⟩,hb,hb'⟩ := directories_ne hd hroot
  obtain ⟨f,hf⟩ := h.profile
  have hnode := (hF.rename_ok _ _ _ _ _ _ hf hok).2
  have hleaf : leaf (profilePath root device ++ bakEnding) = device ++ jsonBakEnding := by
    have hpath : profilePath root device ++ bakEnding = (root ++ slash :: device) ++ slash :: (device ++ jsonBakEnding) := by
      simp [profilePath, jsonBakEnding]
    rw [hpath, leaf_child _ (hd.isName jsonBakEnding_no_separator)]
  rw [key_profilePath hd, key_backupPath hd, hleaf] at hnode
  have hbacked : BackedUp F root device old
      (F.rename s (profilePath root device) (profilePath root device ++ bakEnding)).2 := by
    refine ⟨?_,by rw [hnode, if_pos rfl]⟩
    rw [hnode, if_neg (profileKey_ne_backupKey root device), if_pos rfl]
  refine ⟨⟨?_,?_,Or.inr hbacked⟩,hbacked⟩
  · rw [hnode, if_neg hr', if_neg hr]
    exact h.rootDir
  · rw [hnode, if_neg hb', if_neg hb]
    exact h.bundleDir

/-- Making room for the new file, which is left alone. -/
theorem moveToBackup_recoverable (hr : Always (Recoverable F root device old data) r)
    (hi : Intact F root device old r.state) (htmp : Safe F r.state (profilePath root device ++ tmpEnding) data) :
    Always (Recoverable F root device old data)
        (moveToBackup F (profilePath root device) (profilePath root device ++ bakEnding) r).2 ∧
      ((moveToBackup F (profilePath root device) (profilePath root device ++ bakEnding) r).1 = true →
        BackedUp F root device old (moveToBackup F (profilePath root device) (profilePath root device ++ bakEnding) r).2.state ∧
        Safe F (moveToBackup F (profilePath root device) (profilePath root device ++ bakEnding) r).2.state
          (profilePath root device ++ tmpEnding) data) := by
  have hremoved := hi.removeBackup hF hd hroot
  have hforeign := foreign_tmpPath hd hroot
  have hr₁ := hr.call (f := fun s => F.unlink s (profilePath root device ++ bakEnding)) fun _ => hremoved.recoverable
  have htmp₁ : Safe F (F.unlink r.state (profilePath root device ++ bakEnding)).2 (profilePath root device ++ tmpEnding) data := by
    obtain ⟨f,hf⟩ := htmp
    have hne := hforeign.backup
    rw [← key_backupPath hd] at hne
    exact ⟨f,by rw [unlink_frame hF hne, hf]⟩
  unfold moveToBackup
  dsimp only
  split_ifs with hbad
  · exact ⟨hr₁,fun h => absurd h (by simp)⟩
  cases hok : (F.rename (F.unlink r.state (profilePath root device ++ bakEnding)).2 (profilePath root device)
      (profilePath root device ++ bakEnding)).1 with
  | error e =>
    have hnode := hF.rename_error _ _ _ e hok
    refine ⟨hr₁.call (f := fun s => F.rename s (profilePath root device) (profilePath root device ++ bakEnding))
      fun h => h.congr hd (by rw [call_state, hnode]) (by rw [call_state, hnode]) (by rw [call_state, hnode])
        fun _ => by rw [call_state, hnode],fun h => ?_⟩
    rw [decide_eq_true_eq] at h
    exact absurd (hok.symm.trans h) (by simp)
  | ok =>
    obtain ⟨hrec,hbacked⟩ := hremoved.backUp data hF hd hroot hok
    refine ⟨hr₁.call (f := fun s => F.rename s (profilePath root device) (profilePath root device ++ bakEnding))
      fun _ => hrec,fun _ => ⟨hbacked,?_⟩⟩
    obtain ⟨f,hf⟩ := hremoved.profile
    obtain ⟨g,hg⟩ := htmp₁
    have hnode := (hF.rename_ok _ _ _ _ _ _ hf hok).2
    have hb := hforeign.backup
    have hp := hforeign.profile
    rw [← key_backupPath hd] at hb
    rw [← key_profilePath hd] at hp
    exact ⟨g,by rw [call_state, call_state, hnode, if_neg hb, if_neg hp, hg]⟩

theorem installTemporary_recoverable (hr : Always (Recoverable F root device old data) r)
    (htmp : Safe F r.state (profilePath root device ++ tmpEnding) data) (hadFile : Bool)
    (hback : hadFile = true → BackedUp F root device old r.state) :
    Always (Recoverable F root device old data) (installTemporary F (profilePath root device)
      (profilePath root device ++ tmpEnding) (profilePath root device ++ bakEnding) hadFile r).2 := by
  have hinstalled := hr.call
    (f := fun s => F.rename s (profilePath root device ++ tmpEnding) (profilePath root device))
    fun h => h.install hF hd hroot htmp
  unfold installTemporary
  dsimp only
  split_ifs with hok hhad
  · exact hinstalled
  · refine hinstalled.call (f := fun s => F.rename s (profilePath root device ++ bakEnding) (profilePath root device)) ?_
    intro h
    refine h.putBack hF hd hroot ?_
    cases herr : (F.rename r.state (profilePath root device ++ tmpEnding) (profilePath root device)).1 with
    | ok => exact absurd herr hok
    | error e =>
      have hnode := hF.rename_error _ _ _ e herr
      exact ⟨by rw [call_state, hnode, (hback hhad).absent],by rw [call_state, hnode, (hback hhad).backup]⟩
  · exact hinstalled

variable (data) in
/-- In every state of the replacement the profile can be recovered. -/
theorem writeDeviceFile_recoverable (hs : Intact F root device old s) :
    Always (Recoverable F root device old data) (writeDeviceFile F (profilePath root device) data (start s)).2 := by
  have hforeign := foreign_tmpPath hd hroot
  have hweak : ∀ t, Intact F root device old t → Recoverable F root device old data t := fun t ht => ht.recoverable
  have hstart : Always (Intact F root device old) (start s) := always_start.mpr hs
  have hstat := hstart.call (f := fun s => F.stat s (profilePath root device)) fun h =>
    h.congr hd (by rw [hF.stat_node]) (by rw [hF.stat_node]) (by rw [hF.stat_node])
  have hcreated := hstat.call (f := fun s => F.create s (profilePath root device ++ tmpEnding)) fun h =>
    h.foreign hd hforeign (hF.create_frame _ _)
  have hwritten := hcreated.call (f := fun s => F.write s (profilePath root device ++ tmpEnding) data) fun h =>
    h.foreign hd hforeign (hF.write_frame _ _ _)
  unfold writeDeviceFile fileExists
  dsimp only
  have hsynced := hwritten.call (f := fun s => F.sync s (profilePath root device ++ tmpEnding)) fun h =>
    h.foreign hd hforeign (hF.sync_frame _ _)
  have hclosed := hsynced.call (f := fun s => F.close s (profilePath root device ++ tmpEnding)) fun h =>
    h.foreign hd hforeign (hF.close_frame _ _)
  have htemporary := fun h : WritesTemporary F (profilePath root device ++ tmpEnding) data
    (F.stat s (profilePath root device)).2 =>
      WritesTemporary.node hF (r := ((start s).call fun s => F.stat s (profilePath root device)).2) h
  split_ifs with hlong hopened hfull hbad hhad hbad' hhad'
  · exact hstat.mono hweak
  · exact hcreated.mono hweak
  · exact hclosed.mono hweak
  · obtain ⟨hsync,hclose,-⟩ := not_or.mp hbad |>.imp_right not_or.mp
    have htmp := htemporary ⟨not_not.mp hopened,hfull,not_not.mp hsync,not_not.mp hclose⟩
    obtain ⟨hmoved,hbacked⟩ := moveToBackup_recoverable hF hd hroot (hclosed.mono hweak) hclosed.state htmp
    split
    · rename_i r hm
      rw [hm] at hmoved
      exact hmoved
    · rename_i r hm
      rw [hm] at hmoved hbacked
      obtain ⟨hback,htmp'⟩ := hbacked rfl
      exact installTemporary_recoverable hF hd hroot hmoved htmp' true fun _ => hback
  · obtain ⟨hsync,hclose,-⟩ := not_or.mp hbad |>.imp_right not_or.mp
    have htmp := htemporary ⟨not_not.mp hopened,hfull,not_not.mp hsync,not_not.mp hclose⟩
    exact installTemporary_recoverable hF hd hroot (hclosed.mono hweak) htmp false fun h => absurd h (by simp)
  · refine (hwritten.call (f := fun s => F.close s (profilePath root device ++ tmpEnding)) fun h => ?_).mono hweak
    exact h.foreign hd hforeign (hF.close_frame _ _)
  · exact absurd (Or.inr (Or.inr hfull)) hbad'
  · exact absurd (Or.inr (Or.inr hfull)) hbad'

end

end Bvstk.Fat
