import Bvstk.Fat.ProfileReplacement

/-! # Replaced profiles survive resets

During every recovery the profile stays recoverable, and one that completes brings the
backup back, unless it takes the profile for a register map.
-/
namespace Bvstk.Fat
open Bvstk.Fs Bvstk.Config CrashRun

section
variable {σ : Type} (F : FatFs σ) (root : Path) (device : Name)

/-- The four objects are as before; a backup beside a present profile may be another. -/
structure Unchanged (s t : σ) : Prop where
  rootDir : F.node t (key root) = F.node s (key root)
  bundleDir : F.node t (bundleKey root device) = F.node s (bundleKey root device)
  profile : F.node t (profileKey root device) = F.node s (profileKey root device)
  backup : F.node s (profileKey root device) = none →
    F.node t (backupKey root device) = F.node s (backupKey root device)

end

section
variable {σ : Type} {F : FatFs σ} {root : Path} {device : Name} {old data : List UInt8} {s t u : σ} {r r' : Run σ}

theorem unchanged_refl (s : σ) : Unchanged F root device s s := ⟨rfl,rfl,rfl,fun _ => rfl⟩

theorem Unchanged.trans (h : Unchanged F root device s t) (h' : Unchanged F root device t u) :
    Unchanged F root device s u where
  rootDir := h'.rootDir.trans h.rootDir
  bundleDir := h'.bundleDir.trans h.bundleDir
  profile := h'.profile.trans h.profile
  backup := fun hnone => (h'.backup (h.profile.trans hnone)).trans (h.backup hnone)

variable (hd : WordName device)
include hd

theorem Unchanged.recoverable (h : Unchanged F root device s t) (hs : Recoverable F root device old data s) :
    Recoverable F root device old data t :=
  hs.congr hd h.rootDir h.bundleDir h.profile h.backup

theorem Keeps.of_passes (h : Always (Recoverable F root device old data) r → Passes (Unchanged F root device r.state) r r') :
    Keeps F root device old data r r' where
  always := fun hr => hr.of_passes (h hr) fun _ ht => ht.recoverable hd hr.state
  present := fun hr hp => hp.congr hd (h hr).state.profile

variable (hroot : Plain root)
include hroot

/-! ## The files of a recovery -/

/-- Reading a backup changes nothing that matters. -/
theorem Reads.unchanged {path : Path} {k : Key} (start : Name) (hs : Recoverable F root device old data s)
    (hpath : key path = k ++ [start ++ jsonExtension ++ bakEnding]) (h : Reads F path s t) : Unchanged F root device s t := by
  obtain ⟨hr,hb⟩ := not_directory hd k hroot (n := start ++ jsonExtension ++ bakEnding) (by simp [bakEnding])
  rw [← hpath] at hr hb
  have hprofile : key path ≠ profileKey root device := by
    rw [hpath]
    refine snoc_ne ?_
    rw [getLast?_bak, getLast?_json]
    decide
  refine ⟨h.others _ hr.symm,h.others _ hb.symm,h.others _ hprofile.symm,?_⟩
  intro hnone
  by_cases hsame : key path = backupKey root device
  · have hbacked := hs.profile.resolve_left fun hp => hp.node hd hnone
    rw [← hsame]
    exact h.source _ _ (hsame ▸ hbacked.backup)
  · exact h.others _ (Ne.symm hsame)

/-- Replacing another profile changes nothing that matters. -/
theorem Replaces.unchanged {path : Path} {content : List UInt8} {k : Key} {start : Name}
    (hpath : key path = k ++ [start ++ jsonExtension]) (htmp : key (path ++ tmpEnding) = k ++ [start ++ jsonExtension ++ tmpEnding])
    (hother : key path ≠ profileKey root device) (h : Replaces F path content s t) : Unchanged F root device s t := by
  obtain ⟨hr,hb⟩ := not_directory hd k hroot (n := start ++ jsonExtension) (by simp [jsonExtension])
  rw [← hpath] at hr hb
  have hbackup : key path ≠ backupKey root device := by
    rw [hpath]
    refine snoc_ne ?_
    rw [getLast?_json, getLast?_bak]
    decide
  have hforeign : Foreign root device (key (path ++ tmpEnding)) := by
    rw [htmp]
    exact foreign_tmp hd hroot _ _
  exact ⟨h.others _ hforeign.rootDir.symm hr.symm,h.others _ hforeign.bundleDir.symm hb.symm,
    h.others _ hforeign.profile.symm hother.symm,fun _ => h.others _ hforeign.backup.symm hbackup.symm⟩

end

/-- The paths `recover_device_configs_level` makes of the name of a backup. -/
theorem backup_keys (path : Path) {fname : Name} (hname : IsName fname) (hlen : 10 ≤ fname.length)
    (hbak : endsInJsonBak fname = true) :
    ∃ start, fname.map toLower = start ++ jsonExtension ++ bakEnding ∧
      key (path ++ slash :: fname) = key path ++ [start ++ jsonExtension ++ bakEnding] ∧
      key (path ++ slash :: fname.take (fname.length - 4)) = key path ++ [start ++ jsonExtension] ∧
      key (path ++ slash :: fname.take (fname.length - 4) ++ tmpEnding) = key path ++ [start ++ jsonExtension ++ tmpEnding] := by
  obtain ⟨start,hfname,-,hstem⟩ := endsInJsonBak_split hlen hbak
  have hno : ∀ c ∈ fname.take (fname.length - 4), isSeparator c = false := fun c hc => hname.2 c (List.mem_of_mem_take hc)
  have hne : fname.take (fname.length - 4) ≠ [] := by
    rw [Ne, List.take_eq_nil_iff, not_or]
    exact ⟨by omega,hname.1⟩
  have htmp : IsName (fname.take (fname.length - 4) ++ tmpEnding) := by
    refine ⟨by simp [tmpEnding],?_⟩
    intro c hc
    rcases List.mem_append.mp hc with hc | hc
    · exact hno c hc
    · exact tmpEnding_isName.2 c hc
  refine ⟨start,hfname,by rw [key_child _ hname, hfname],by rw [key_child _ ⟨hne,hno⟩, hstem],?_⟩
  rw [List.append_assoc, List.cons_append, key_child _ htmp, List.map_append, hstem]
  rfl

theorem canonical_of_backup (path : Path) {fname : Name} (hlen : 10 ≤ fname.length) :
    (path ++ slash :: fname).take ((path ++ slash :: fname).length - 4) = path ++ slash :: fname.take (fname.length - 4) := by
  have hl : (path ++ slash :: fname).length - 4 = path.length + ((fname.length - 4) + 1) := by
    simp
    omega
  rw [hl, List.take_length_add_append, List.take_succ_cons]

section
variable {σ : Type} {F : FatFs σ} {root : Path} {device : Name} {old data : List UInt8} {s t : σ} {r r' : Run σ}
variable (hF : F.Documented) (hd : WordName device) (hroot : Plain root)
include hF hd hroot

/-- Restoring another profile. -/
theorem copyFileAtomic_keeps {source target : Path} {k : Key} {start : Name} (n : ℕ)
    (hsource : key source = k ++ [start ++ jsonExtension ++ bakEnding]) (htarget : key target = k ++ [start ++ jsonExtension])
    (htmp : key (target ++ tmpEnding) = k ++ [start ++ jsonExtension ++ tmpEnding])
    (hother : key target ≠ profileKey root device) :
    Keeps F root device old data r (copyFileAtomic F source target n r).2 := by
  obtain ⟨hreads,-⟩ := readFileToBuf_reads hF source n r
  have hread : Keeps F root device old data r (readFileToBuf F source n r).2 := by
    refine Keeps.of_passes hd fun hr => ?_
    exact (passes_refl (unchanged_refl r.state)).trans hreads fun t ht => ht.unchanged hd hroot _ hr.state hsource
  unfold copyFileAtomic
  split
  · rename_i r₁ hr₁
    rw [hr₁] at hread
    exact hread
  · rename_i content r₁ hr₁
    rw [hr₁] at hread
    refine hread.trans (Keeps.of_passes hd fun _ => ?_)
    exact (passes_refl (unchanged_refl r₁.state)).trans (writeFileAtomic_replaces hF target content r₁).1
      fun t ht => ht.unchanged hd hroot htarget htmp hother

/-- Restoring the profile itself, from the backup. -/
theorem copyFileAtomic_restores {source target : Path} (n : ℕ) (hr : Always (Recoverable F root device old data) r)
    (hback : BackedUp F root device old r.state) (hsource : key source = backupKey root device)
    (htarget : key target = profileKey root device)
    (htmp : key (target ++ tmpEnding) = bundleKey root device ++ [device.map toLower ++ jsonExtension ++ tmpEnding]) :
    Always (Recoverable F root device old data) (copyFileAtomic F source target n r).2 ∧
      ((copyFileAtomic F source target n r).1 = true →
        Present F root device old data (copyFileAtomic F source target n r).2.state) := by
  obtain ⟨hreads,hcontent⟩ := readFileToBuf_reads hF source n r
  have hunchanged : Passes (Unchanged F root device r.state) r (readFileToBuf F source n r).2 :=
    (passes_refl (unchanged_refl r.state)).trans hreads
      fun t ht => ht.unchanged hd hroot (device.map toLower) hr.state hsource
  have hread := hr.of_passes hunchanged fun t ht => ht.recoverable hd hr.state
  unfold copyFileAtomic
  split
  · rename_i r₁ hr₁
    rw [hr₁] at hread
    exact ⟨hread,fun h => absurd h (by simp)⟩
  · rename_i content r₁ hr₁
    rw [hr₁] at hread hunchanged hcontent
    obtain ⟨-,-,f,synced,hf⟩ := hcontent content rfl
    obtain rfl : content = old := by
      rw [hsource, hback.backup] at hf
      simp at hf
      exact hf.2.1.symm
    have habsent : F.node r₁.state (profileKey root device) = none := hunchanged.state.profile.trans hback.absent
    have hbackup := (hunchanged.state.backup hback.absent).trans hback.backup
    obtain ⟨hreplaces,hdone⟩ := writeFileAtomic_replaces hF target content r₁
    refine ⟨hread.of_passes hreplaces fun t ht => ?_,fun h => ?_⟩
    · have hforeign : Foreign root device (key (target ++ tmpEnding)) := by
        rw [htmp]
        exact foreign_tmp hd hroot _ _
      obtain ⟨⟨hr₀,-⟩,hb₀,-⟩ := directories_ne hd hroot
      have hothers := ht.others
      rw [htarget] at hothers
      refine ⟨?_,?_,?_⟩
      · rw [hothers _ hforeign.rootDir.symm hr₀]
        exact hread.state.rootDir
      · rw [hothers _ hforeign.bundleDir.symm hb₀]
        exact hread.state.bundleDir
      · have hbak : F.node t (backupKey root device) = some ⟨device ++ jsonBakEnding,.file content true⟩ := by
          rw [hothers _ hforeign.backup.symm (profileKey_ne_backupKey root device).symm, hbackup]
        have htarget' := ht.target
        rw [htarget, habsent] at htarget'
        rcases htarget' with hnone | hnone | hsome
        · exact Or.inr ⟨hnone,hbak⟩
        · exact Or.inr ⟨hnone,hbak⟩
        · exact Or.inl (Or.inl ⟨leaf target,by rw [key_profilePath hd, hsome]⟩)
    · obtain ⟨f,hf⟩ := hdone h
      exact Or.inl ⟨f,by rw [key_profilePath hd, ← htarget, hf]⟩

omit hd hroot in
variable (root device old data) in
/-- The question whether a profile is there. -/
theorem profileFilePresent_keeps (path : Path) :
    Keeps F root device old data r (profileFilePresent F path r).2 ∧
      F.node (profileFilePresent F path r).2.state = F.node r.state ∧
      ((profileFilePresent F path r).1 = some false → F.node r.state (key path) = none) ∧
      ((profileFilePresent F path r).1 = some true → F.node r.state (key path) ≠ none) := by
  have hlook : Keeps F root device old data r (r.call fun s => F.stat s path).2 :=
    (keeps_refl r).look (hF.stat_node r.state path)
  have hnode := hF.stat_node r.state path
  have habsent := hF.stat_absent r.state path
  have hok := hF.stat_ok r.state path
  unfold profileFilePresent
  split
  · rename_i r₁ hr₁
    obtain ⟨hanswer,rfl⟩ := Prod.ext_iff.mp hr₁
    exact ⟨hlook,hnode,fun _ => habsent (Or.inl hanswer),fun h => absurd h (by simp)⟩
  · rename_i r₁ hr₁
    obtain ⟨hanswer,rfl⟩ := Prod.ext_iff.mp hr₁
    exact ⟨hlook,hnode,fun _ => habsent (Or.inr hanswer),fun h => absurd h (by simp)⟩
  · rename_i r₁ _ _ hr₁
    obtain ⟨-,rfl⟩ := Prod.ext_iff.mp hr₁
    exact ⟨hlook,hnode,fun h => absurd h (by simp),fun h => absurd h (by simp)⟩
  · rename_i directory r₁ hr₁
    obtain ⟨hanswer,rfl⟩ := Prod.ext_iff.mp hr₁
    refine ⟨hlook,hnode,fun h => ?_,fun _ hnone => ?_⟩
    · cases directory <;> simp at h
    · obtain ⟨n,hn,-⟩ := hok directory hanswer
      exact absurd (hnone.symm.trans hn) (by simp)

variable (old data) in
/-- A file of a directory, whatever it is. -/
theorem recoverFile_keeps (bundles : Bool) (path : Path) {fname : Name} (hname : IsName fname) :
    Keeps F root device old data r (recoverFile F bundles path fname r).2 := by
  unfold recoverFile
  split_ifs with hskip
  · exact keeps_refl r
  simp only [not_or, not_lt, Bool.not_eq_false] at hskip
  obtain ⟨hlen,hbak⟩ := hskip
  obtain ⟨start,-,hsource,htarget,htmp⟩ := backup_keys path hname hlen hbak
  dsimp only
  rw [canonical_of_backup path hlen]
  split_ifs with hlong hmap hpath
  · exact keeps_refl r
  · exact keeps_refl r
  · exact keeps_refl r
  obtain ⟨hlook,hnode,habsent,-⟩ := profileFilePresent_keeps root device old data
    hF (r := r) (path ++ slash :: fname.take (fname.length - 4))
  split
  · rename_i r₁ hr₁
    rw [hr₁] at hlook
    exact hlook
  · rename_i r₁ hr₁
    rw [hr₁] at hlook
    exact hlook
  · rename_i r₁ hr₁
    rw [hr₁] at hlook hnode habsent
    have hgone := habsent rfl
    by_cases hother : key (path ++ slash :: fname.take (fname.length - 4)) = profileKey root device
    · -- The profile itself is away: it is restored, or stays away.
      obtain ⟨hk,hstart⟩ := List.append_inj' (htarget.symm.trans hother) rfl
      obtain rfl : start = device.map toLower := by simpa using hstart
      rw [hk] at hsource htmp
      refine hlook.trans ⟨fun hr => ?_,fun hr hp => ?_⟩
      · have hback := hr.state.profile.resolve_left fun hp => hp.node hd (by rw [hnode, ← hother, hgone])
        exact (copyFileAtomic_restores hF hd hroot _ hr hback hsource hother htmp).1
      · exact absurd (by rw [hnode, ← hother, hgone]) (hp.node hd)
    · exact hlook.trans (copyFileAtomic_keeps hF hd hroot _ hsource htarget htmp hother)

omit hF hroot in
/-- What is done with the backup that a replacement has left. -/
theorem recoverFile_backup (bundles : Bool) (path : Path) (r : Run σ) :
    recoverFile F bundles path (device ++ jsonBakEnding) r =
      if devicePathBuffer ≤ (path ++ slash :: (device ++ jsonBakEnding)).length then (false,r)
      else if isRegisterMap (device ++ jsonExtension) = true then (true,r)
      else if bundles = false ∧ (fileNameMax ≤ (afterLastSlash path ++ slash :: (device ++ jsonExtension)).length ∨
          devicePathValid (afterLastSlash path ++ slash :: (device ++ jsonExtension)) = false) then (true,r)
      else
        match profileFilePresent F (path ++ slash :: (device ++ jsonExtension)) r with
        | (none,r) => (false,r)
        | (some true,r) => (true,r)
        | (some false,r) => copyFileAtomic F (path ++ slash :: (device ++ jsonBakEnding))
            (path ++ slash :: (device ++ jsonExtension)) configBufferSize r := by
  have hpos := List.length_pos_of_ne_nil hd.1
  have h9 : jsonBakEnding.length = 9 := rfl
  have hlen : 10 ≤ (device ++ jsonBakEnding).length := by
    rw [List.length_append, h9]
    omega
  have hbak : endsInJsonBak (device ++ jsonBakEnding) = true := by
    rw [endsInJsonBak, List.length_append, Nat.add_sub_cancel, List.drop_left]
    decide
  have hstem : (device ++ jsonBakEnding).take ((device ++ jsonBakEnding).length - 4) = device ++ jsonExtension := by
    have hsplit : device ++ jsonBakEnding = (device ++ jsonExtension) ++ bakEnding := by
      simp [jsonBakEnding]
    rw [hsplit, List.length_append, show bakEnding.length = 4 from rfl, Nat.add_sub_cancel, List.take_left]
  have hleaf : afterLastSlash (path ++ slash :: (device ++ jsonExtension)) = device ++ jsonExtension := by
    refine afterLastSlash_child path ?_
    simp [hd.no_slash, jsonExtension]
  unfold recoverFile
  rw [if_neg (by rw [not_or]; exact ⟨by omega,by simp [hbak]⟩)]
  dsimp only
  rw [canonical_of_backup path hlen, hstem, hleaf] <;> rfl

/-- The backup of the profile, in the directory of the device. -/
theorem recoverFile_restores {path : Path} {bundle : Name} (hpath : key path = bundleKey root device)
    (hbundle : afterLastSlash path = bundle) (hlower : bundle.map toLower = device.map toLower)
    (hvalid : devicePathValid (canonicalProfileName device) = true) (hmap : isRegisterMap (device ++ jsonExtension) = false)
    (hr : Always (Recoverable F root device old data) r)
    (hok : (recoverFile F false path (device ++ jsonBakEnding) r).1 = true) :
    Present F root device old data (recoverFile F false path (device ++ jsonBakEnding) r).2.state := by
  have hrelative : devicePathValid (bundle ++ slash :: (device ++ jsonExtension)) = true :=
    devicePathValid_of_lower hvalid hlower
  have hshort : (bundle ++ slash :: (device ++ jsonExtension)).length < fileNameMax := by
    have hlength : bundle.length = device.length := by simpa using congrArg List.length hlower
    simpa [canonicalProfileName, hlength] using (devicePathValid_word hvalid).2.2
  have hjson : IsName (device ++ jsonExtension) := hd.isName jsonExtension_no_separator
  have hsource : key (path ++ slash :: (device ++ jsonBakEnding)) = backupKey root device := by
    rw [key_child _ (hd.isName jsonBakEnding_no_separator), hpath, backupKey, List.map_append, List.append_assoc]
    rfl
  have htarget : key (path ++ slash :: (device ++ jsonExtension)) = profileKey root device := by
    rw [key_child _ hjson, hpath, profileKey, List.map_append]
    rfl
  have htmp : key (path ++ slash :: (device ++ jsonExtension) ++ tmpEnding) =
      bundleKey root device ++ [device.map toLower ++ jsonExtension ++ tmpEnding] := by
    rw [List.append_assoc, List.cons_append, List.append_assoc, key_child _ (hd.isName (json_append_no_separator tmpEnding_isName.2)), hpath,
      List.map_append, List.append_assoc]
    rfl
  rw [recoverFile_backup hd] at hok ⊢
  split_ifs at hok ⊢ with hlong hregister hrejected
  · exact absurd (hregister.symm.trans hmap) (by simp)
  · rw [hbundle, hrelative] at hrejected
    exact absurd hrejected.2 (not_or.mpr ⟨not_le.mpr hshort,by simp⟩)
  obtain ⟨hlook,hnode,habsent,hthere⟩ := profileFilePresent_keeps root device old data
    hF (r := r) (path ++ slash :: (device ++ jsonExtension))
  split at hok
  · exact absurd hok (by simp)
  · rename_i r₁ hr₁
    rw [hr₁] at hlook hthere
    refine hlook.present hr (hr.state.profile.resolve_right fun hback => ?_)
    exact hthere rfl (by rw [htarget]; exact hback.absent)
  · rename_i r₁ hr₁
    rw [hr₁] at hlook hnode habsent
    have hr₁ := hlook.always hr
    have habsent := habsent rfl
    rw [htarget] at habsent
    have hback := hr₁.state.profile.resolve_left fun hp => hp.node hd (by rw [hnode]; exact habsent)
    exact (copyFileAtomic_restores hF hd hroot _ hr₁ hback hsource htarget htmp).2 hok

/-! ## The directories -/

/-- The loop over the entries of a directory. -/
theorem recoverEntries_keeps (bundles : Bool) {recurse : Path → Run σ → Bool × Run σ}
    (hrecurse : ∀ path r, Keeps F root device old data r (recurse path r).2) (path : Path) {entries : List FilInfo}
    (hnames : ∀ e ∈ entries, IsName e.fname) (r : Run σ) :
    Keeps F root device old data r (recoverEntries F bundles recurse path entries r).2 := by
  induction entries generalizing r with
  | nil =>
    have hlook : Keeps F root device old data r (r.call fun s => F.readdir s path).2 :=
      (keeps_refl r).look (hF.readdir_node r.state path)
    unfold recoverEntries
    split
    · rename_i r₁ hr₁
      obtain ⟨-,rfl⟩ := Prod.ext_iff.mp hr₁
      exact hlook
    · rename_i r₁ hr₁
      obtain ⟨-,rfl⟩ := Prod.ext_iff.mp hr₁
      exact hlook
  | cons entry entries ih =>
    have hlook : Keeps F root device old data r (r.call fun s => F.readdir s path).2 :=
      (keeps_refl r).look (hF.readdir_node r.state path)
    have hrest := ih fun e he => hnames e (List.mem_cons_of_mem _ he)
    unfold recoverEntries
    split
    · rename_i r₁ hr₁
      obtain ⟨-,rfl⟩ := Prod.ext_iff.mp hr₁
      exact hlook
    rename_i r₁ hr₁
    obtain ⟨-,rfl⟩ := Prod.ext_iff.mp hr₁
    dsimp only
    split_ifs with hdots hdir hlong hother
    · exact hlook.trans (hrest _)
    · exact hlook
    · have hinner := hrecurse (path ++ slash :: entry.fname) (r.call fun s => F.readdir s path).2
      split
      · rename_i r₂ hr₂
        rw [hr₂] at hinner
        exact hlook.trans hinner
      · rename_i r₂ hr₂
        rw [hr₂] at hinner
        exact (hlook.trans hinner).trans (hrest r₂)
    · exact hlook.trans (hrest _)
    · have hfile := recoverFile_keeps old data hF hd hroot
        (r := (r.call fun s => F.readdir s path).2) bundles path (hnames entry List.mem_cons_self)
      split
      · rename_i r₂ hr₂
        rw [hr₂] at hfile
        exact hlook.trans hfile
      · rename_i r₂ hr₂
        rw [hr₂] at hfile
        exact (hlook.trans hfile).trans (hrest r₂)

/-- Once an entry has brought the profile back, the rest of the loop keeps it. -/
theorem recoverEntries_restores (bundles : Bool) {recurse : Path → Run σ → Bool × Run σ}
    (hrecurse : ∀ path r, Keeps F root device old data r (recurse path r).2) (path : Path) {entries : List FilInfo}
    (hnames : ∀ e ∈ entries, IsName e.fname) {entry : FilInfo} (hentry : entry ∈ entries)
    (hdots : entry.fname ≠ [46] ∧ entry.fname ≠ [46,46])
    (hinner : bundles = true → entry.directory = true → ∀ r, Always (Recoverable F root device old data) r →
      (recurse (path ++ slash :: entry.fname) r).1 = true →
      Present F root device old data (recurse (path ++ slash :: entry.fname) r).2.state)
    (hfile : entry.directory = false → ∀ r, Always (Recoverable F root device old data) r →
      (recoverFile F bundles path entry.fname r).1 = true →
      Present F root device old data (recoverFile F bundles path entry.fname r).2.state)
    (hkind : entry.directory = true → bundles = true)
    (hr : Always (Recoverable F root device old data) r)
    (hok : (recoverEntries F bundles recurse path entries r).1 = true) :
    Present F root device old data (recoverEntries F bundles recurse path entries r).2.state := by
  induction entries generalizing r with
  | nil => exact absurd hentry List.not_mem_nil
  | cons first entries ih =>
    have hlook : Keeps F root device old data r (r.call fun s => F.readdir s path).2 :=
      (keeps_refl r).look (hF.readdir_node r.state path)
    have hnames' := fun e he => hnames e (List.mem_cons_of_mem first he)
    have hkeeps := recoverEntries_keeps hF hd hroot bundles hrecurse path hnames'
    have hthrough : ∀ {r r'}, Keeps F root device old data r r' → Always (Recoverable F root device old data) r →
        (entry = first → Present F root device old data r'.state) →
        (recoverEntries F bundles recurse path entries r').1 = true →
        Present F root device old data (recoverEntries F bundles recurse path entries r').2.state := by
      intro r r' hk hr hfirst hok
      rcases List.mem_cons.mp hentry with heq | hmem
      · exact (hkeeps r').present (hk.always hr) (hfirst heq)
      · exact ih hnames' hmem (hk.always hr) hok
    have hr₀ := hlook.always hr
    unfold recoverEntries at hok ⊢
    split at hok
    · exact absurd hok (by simp)
    rename_i r₁ hr₁
    obtain ⟨-,rfl⟩ := Prod.ext_iff.mp hr₁
    dsimp only at hok ⊢
    split_ifs at hok ⊢ with hdot hdir hlong hother
    · refine hthrough hlook hr (fun heq => ?_) hok
      exact absurd hdot (by rw [← heq]; exact not_or.mpr hdots)
    · have hk := hrecurse (path ++ slash :: first.fname) (r.call fun s => F.readdir s path).2
      split at hok
      · exact absurd hok (by simp)
      · rename_i r₂ hr₂
        rw [hr₂] at hk
        refine hthrough hk hr₀ (fun heq => ?_) hok
        have hpresent := hinner hdir.1 (heq ▸ hdir.2) _ hr₀
        rw [heq, hr₂] at hpresent
        exact hpresent rfl
    · refine hthrough hlook hr (fun heq => ?_) hok
      exact absurd ⟨hkind (heq ▸ hother),hother⟩ hdir
    · have hk := recoverFile_keeps old data hF hd hroot
        (r := (r.call fun s => F.readdir s path).2) bundles path (hnames first List.mem_cons_self)
      split at hok
      · exact absurd hok (by simp)
      · rename_i r₂ hr₂
        rw [hr₂] at hk
        refine hthrough hk hr₀ (fun heq => ?_) hok
        have hpresent := hfile (by simpa [heq] using hother) _ hr₀
        rw [heq, hr₂] at hpresent
        exact hpresent rfl

theorem recoverLevel_keeps (bundles : Bool) {recurse : Path → Run σ → Bool × Run σ}
    (hrecurse : ∀ path r, Keeps F root device old data r (recurse path r).2) (path : Path) (r : Run σ) :
    Keeps F root device old data r (recoverLevel F bundles recurse path r).2 := by
  have hlook : Keeps F root device old data r (r.call fun s => F.opendir s path).2 :=
    (keeps_refl r).look (hF.opendir_node r.state path)
  unfold recoverLevel
  split
  · rename_i r₁ hr₁
    obtain ⟨-,rfl⟩ := Prod.ext_iff.mp hr₁
    exact hlook
  · rename_i r₁ hr₁
    obtain ⟨-,rfl⟩ := Prod.ext_iff.mp hr₁
    exact hlook
  · rename_i r₁ _ _ hr₁
    obtain ⟨-,rfl⟩ := Prod.ext_iff.mp hr₁
    exact hlook
  · rename_i entries r₁ hr₁
    obtain ⟨hentries,rfl⟩ := Prod.ext_iff.mp hr₁
    have hloop := recoverEntries_keeps hF hd hroot bundles hrecurse path
      (hF.opendir_names r.state path entries hentries) (r.call fun s => F.opendir s path).2
    exact (hlook.trans hloop).look (f := fun s => F.closedir s path) (hF.closedir_node _ path)

variable (old data) in
theorem recoverBundle_keeps (path : Path) (r : Run σ) :
    Keeps F root device old data r (recoverBundle F path r).2 :=
  recoverLevel_keeps hF hd hroot false (fun _ r => keeps_refl r) path r

theorem recoverDeviceConfigs_keeps (path : Path) (r : Run σ) :
    Keeps F root device old data r (recoverDeviceConfigs F path r).2 :=
  recoverLevel_keeps hF hd hroot true (recoverBundle_keeps old data hF hd hroot) path r

/-- A completed recovery of the device's directory leaves the profile in place. -/
theorem recoverBundle_restores {path : Path} {bundle : Name} (hpath : key path = bundleKey root device)
    (hbundle : afterLastSlash path = bundle) (hlower : bundle.map toLower = device.map toLower)
    (hvalid : devicePathValid (canonicalProfileName device) = true) (hmap : isRegisterMap (device ++ jsonExtension) = false)
    (r : Run σ) (hr : Always (Recoverable F root device old data) r) (hok : (recoverBundle F path r).1 = true) :
    Present F root device old data (recoverBundle F path r).2.state := by
  have hlook : Keeps F root device old data r (r.call fun s => F.opendir s path).2 :=
    (keeps_refl r).look (hF.opendir_node r.state path)
  have hkeeps := recoverBundle_keeps old data hF hd hroot path r
  rcases hr.state.profile with hpresent | hback
  · exact hkeeps.present hr hpresent
  obtain ⟨f,hf⟩ := hr.state.bundleDir
  rw [← hpath] at hf
  unfold recoverBundle recoverLevel at hok ⊢
  split at hok
  · rename_i r₁ hr₁
    exact absurd hf (hF.opendir_absent r.state path (Or.inr (Prod.ext_iff.mp hr₁).1) f)
  · rename_i r₁ hr₁
    exact absurd hf (hF.opendir_absent r.state path (Or.inl (Prod.ext_iff.mp hr₁).1) f)
  · exact absurd hok (by simp)
  rename_i entries r₁ hr₁
  obtain ⟨hentries,rfl⟩ := Prod.ext_iff.mp hr₁
  have hbackup := hback.backup
  rw [backupKey, ← hpath] at hbackup
  obtain ⟨⟨fname,directory⟩,hentry,hfname,hdirectory⟩ := hF.opendir_complete r.state path entries _ _ hentries hbackup
  obtain rfl : fname = device ++ jsonBakEnding := hfname
  obtain rfl : directory = false := by simpa using hdirectory
  have hlen : (device ++ jsonBakEnding).length = device.length + 9 := by
    simp [jsonBakEnding, jsonExtension, bakEnding]
  have hdots : device ++ jsonBakEnding ≠ [46] ∧ device ++ jsonBakEnding ≠ [46,46] := by
    constructor
    · exact ne_of_apply_ne List.length (by rw [hlen, List.length_singleton]; omega)
    · exact ne_of_apply_ne List.length (by rw [hlen, List.length_cons, List.length_singleton]; omega)
  have hloop := recoverEntries_restores hF hd hroot false (fun _ r => keeps_refl r) path
    (hF.opendir_names r.state path entries hentries) hentry
    hdots (fun h => absurd h (by simp))
    (fun _ r hr hok => recoverFile_restores hF hd hroot hpath hbundle hlower hvalid hmap hr hok)
    (fun h => absurd h (by simp)) (hlook.always hr) hok
  exact hloop.congr hd (by rw [call_state, hF.closedir_node])

/-- A completed recovery leaves the profile in place. -/
theorem recoverDeviceConfigs_restores (hvalid : devicePathValid (canonicalProfileName device) = true)
    (hmap : isRegisterMap (device ++ jsonExtension) = false) (r : Run σ)
    (hr : Always (Recoverable F root device old data) r) (hok : (recoverDeviceConfigs F root r).1 = true) :
    Present F root device old data (recoverDeviceConfigs F root r).2.state := by
  have hlook : Keeps F root device old data r (r.call fun s => F.opendir s root).2 :=
    (keeps_refl r).look (hF.opendir_node r.state root)
  obtain ⟨f,hf⟩ := hr.state.rootDir
  obtain ⟨g,hg⟩ := hr.state.bundleDir
  unfold recoverDeviceConfigs recoverLevel at hok ⊢
  split at hok
  · rename_i r₁ hr₁
    exact absurd hf (hF.opendir_absent r.state root (Or.inr (Prod.ext_iff.mp hr₁).1) f)
  · rename_i r₁ hr₁
    exact absurd hf (hF.opendir_absent r.state root (Or.inl (Prod.ext_iff.mp hr₁).1) f)
  · exact absurd hok (by simp)
  rename_i entries r₁ hr₁
  obtain ⟨hentries,rfl⟩ := Prod.ext_iff.mp hr₁
  obtain ⟨⟨fname,directory⟩,hentry,hfname,hdirectory⟩ := hF.opendir_complete r.state root entries _ _ hentries hg
  obtain rfl : fname = g := hfname
  obtain rfl : directory = true := by simpa using hdirectory
  obtain ⟨hname,hlast⟩ := hF.named _ _ _ hg
  have hlower : fname.map toLower = device.map toLower := by
    rw [bundleKey, List.getLast?_concat, Option.some.injEq] at hlast
    exact hlast.symm
  have hword := hd.of_lower hlower
  have hdots : fname ≠ [46] ∧ fname ≠ [46,46] := by
    constructor
    · rintro rfl
      exact hword.no_dot (by simp)
    · rintro rfl
      exact hword.no_dot (by simp)
  have hloop := recoverEntries_restores hF hd hroot true (recoverBundle_keeps old data hF hd hroot) root
    (hF.opendir_names r.state root entries hentries) hentry
    hdots
    (fun _ _ r hr hok => recoverBundle_restores hF hd hroot (by rw [key_child _ hname, hlower, bundleKey])
      (afterLastSlash_child root hword.no_slash) hlower hvalid hmap r hr hok)
    (fun h => absurd h (by simp)) (fun _ => rfl) (hlook.always hr) hok
  exact hloop.congr hd (by rw [call_state, hF.closedir_node])

end

end Bvstk.Fat
