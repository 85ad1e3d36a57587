import Bvstk.Fat.FatFs
import Bvstk.Library.CrashRun

/-! # Replacing a file

`write_file_atomic`, `read_file_to_buf` and `copy_file_atomic` of `config_store.c`. The new
content is written under another name, then the target is removed and the new file renamed.
-/
namespace Bvstk.Fat
open Bvstk.Fs Bvstk.Config CrashRun

/-- `.tmp` and `.bak`. -/
def tmpEnding : Name := [46,116,109,112]
def bakEnding : Name := [46,98,97,107]

/-- `BVSTK_PROFILE_JSON_MAX`, and `sizeof(s_cfg_buf)`. -/
def profileJsonMax : ℕ := 65536
def configBufferSize : ℕ := profileJsonMax + 1

theorem tmpEnding_isName : IsName tmpEnding := by decide

section
variable {σ : Type} (F : FatFs σ)

/-- `write_file_atomic`; the temporary name has to fit into 128 bytes. -/
def writeFileAtomic (finalPath : Path) (data : List UInt8) (r : Run σ) : Bool × Run σ :=
  if 128 ≤ finalPath.length + 5 then (false,r)
  else
    let tmp := finalPath ++ tmpEnding
    let (opened,r) := r.call fun s => F.create s tmp
    if opened ≠ .ok () then (false,r)
    else
      let (written,r) := r.call fun s => F.write s tmp data
      let (synced,r) := r.call fun s => F.sync s tmp
      let (closed,r) := r.call fun s => F.close s tmp
      if written ≠ .ok data.length ∨ synced ≠ .ok () ∨ closed ≠ .ok () then
        (false,(r.call fun s => F.unlink s tmp).2)
      else
        -- The result of the first unlink is not looked at.
        let (_,r) := r.call fun s => F.unlink s finalPath
        let (renamed,r) := r.call fun s => F.rename s tmp finalPath
        if renamed ≠ .ok () then (false,(r.call fun s => F.unlink s tmp).2) else (true,r)

/-- `read_file_to_buf`: the whole file, if it fits and holds no NUL. -/
def readFileToBuf (path : Path) (bufSize : ℕ) (r : Run σ) : Option (List UInt8) × Run σ :=
  match r.call fun s => F.openRead s path with
  | (.error _,r) => (none,r)
  | (.ok size,r) =>
    if bufSize ≤ size then (none,(r.call fun s => F.close s path).2)
    else
      let (got,r) := r.call fun s => F.read s path 0 size
      let (closed,r) := r.call fun s => F.close s path
      match got with
      | .error _ => (none,r)
      | .ok bytes =>
        if closed ≠ .ok () ∨ bytes.length ≠ size ∨ 0 ∈ bytes then (none,r) else (some bytes,r)

/-- `copy_file_atomic`. -/
def copyFileAtomic (source target : Path) (bufSize : ℕ) (r : Run σ) : Bool × Run σ :=
  match readFileToBuf F source bufSize r with
  | (none,r) => (false,r)
  | (some data,r) => writeFileAtomic F target data r

/-! ## The temporary file -/

/-- The run after the four calls on the temporary file. -/
def writeTemporary (tmp : Path) (data : List UInt8) (r : Run σ) : Run σ :=
  let r := (r.call fun s => F.create s tmp).2
  let r := (r.call fun s => F.write s tmp data).2
  let r := (r.call fun s => F.sync s tmp).2
  (r.call fun s => F.close s tmp).2

/-- All four calls succeed, and the file takes all of the data. -/
def WritesTemporary (tmp : Path) (data : List UInt8) (s : σ) : Prop :=
  (F.create s tmp).1 = .ok () ∧
  (F.write (F.create s tmp).2 tmp data).1 = .ok data.length ∧
  (F.sync (F.write (F.create s tmp).2 tmp data).2 tmp).1 = .ok () ∧
  (F.close (F.sync (F.write (F.create s tmp).2 tmp data).2 tmp).2 tmp).1 = .ok ()

/-- The target has been removed and the new file is refused its name. -/
def RenameRefused (finalPath : Path) (data : List UInt8) (s : σ) : Prop :=
  let tmp := finalPath ++ tmpEnding
  let removed := F.unlink (writeTemporary F tmp data (start s)).state finalPath
  finalPath.length + 5 < 128 ∧ WritesTemporary F tmp data s ∧ removed.1 = .ok () ∧
    (F.rename removed.2 tmp finalPath).1 ≠ .ok ()

end

section
variable {σ : Type} {F : FatFs σ} (hF : F.Documented)
include hF

/-- The states on the way to the temporary file touch nothing else. -/
theorem writeTemporary_frame {P : σ → Prop} {tmp : Path} {data : List UInt8} {r : Run σ} (hr : Always P r)
    (hP : ∀ s t, P s → (∀ k, k ≠ key tmp → F.node t k = F.node s k) → P t) :
    Always P (writeTemporary F tmp data r) := by
  have hcreated := hr.call (f := fun s => F.create s tmp) fun h => hP _ _ h (hF.create_frame _ tmp)
  have hwritten := hcreated.call (f := fun s => F.write s tmp data) fun h => hP _ _ h (hF.write_frame _ tmp data)
  have hsynced := hwritten.call (f := fun s => F.sync s tmp) fun h => hP _ _ h (hF.sync_frame _ tmp)
  exact hsynced.call fun h => hP _ _ h (hF.close_frame _ tmp)

theorem WritesTemporary.node {tmp : Path} {data : List UInt8} {r : Run σ} (h : WritesTemporary F tmp data r.state) :
    ∃ f, F.node (writeTemporary F tmp data r).state (key tmp) = some ⟨f,.file data true⟩ := by
  obtain ⟨hcreate,hwrite,hsync,hclose⟩ := h
  obtain ⟨f,hcreated⟩ := hF.create_ok _ _ hcreate
  have hwritten := (hF.write_ok _ _ _ _ _ _ _ hcreated hwrite).2
  rw [List.take_length, List.nil_append] at hwritten
  have hsynced := hF.sync_ok _ _ _ _ _ hwritten hsync
  exact ⟨f,hF.close_ok _ _ _ _ _ hsynced hclose⟩

/-- Removing the temporary file touches nothing else, and may fail. -/
theorem unlink_frame {p : Path} {s : σ} {k : Key} (hk : k ≠ key p) : F.node (F.unlink s p).2 k = F.node s k := by
  cases h : (F.unlink s p).1 with
  | error e => rw [hF.unlink_error s p e h]
  | ok =>
    have hnode := hF.unlink_ok s p h k
    rwa [if_neg hk] at hnode

end

/-! ## What a replacement can do -/

section
variable {σ : Type} (F : FatFs σ)

/-- The runs of `write_file_atomic`, by where they end. -/
inductive Replacement (finalPath : Path) (data : List UInt8) (r : Run σ) : Bool × Run σ → Prop
  | tooLong (h : 128 ≤ finalPath.length + 5) : Replacement finalPath data r (false,r)
  | notOpened (h : (F.create r.state (finalPath ++ tmpEnding)).1 ≠ .ok ()) :
      Replacement finalPath data r (false,(r.call fun s => F.create s (finalPath ++ tmpEnding)).2)
  | notWritten (h : ¬WritesTemporary F (finalPath ++ tmpEnding) data r.state) : Replacement finalPath data r
      (false,((writeTemporary F (finalPath ++ tmpEnding) data r).call fun s => F.unlink s (finalPath ++ tmpEnding)).2)
  | refused (h : RenameRefused F finalPath data r.state ∨
        (F.unlink (writeTemporary F (finalPath ++ tmpEnding) data r).state finalPath).1 ≠ .ok ())
      (hwrites : WritesTemporary F (finalPath ++ tmpEnding) data r.state)
      (hrename : (F.rename (F.unlink (writeTemporary F (finalPath ++ tmpEnding) data r).state finalPath).2
        (finalPath ++ tmpEnding) finalPath).1 ≠ .ok ()) :
      Replacement finalPath data r (false,
        ((((writeTemporary F (finalPath ++ tmpEnding) data r).call fun s => F.unlink s finalPath).2.call
          fun s => F.rename s (finalPath ++ tmpEnding) finalPath).2.call fun s => F.unlink s (finalPath ++ tmpEnding)).2)
  | renamed (hwrites : WritesTemporary F (finalPath ++ tmpEnding) data r.state)
      (hrename : (F.rename (F.unlink (writeTemporary F (finalPath ++ tmpEnding) data r).state finalPath).2
        (finalPath ++ tmpEnding) finalPath).1 = .ok ()) :
      Replacement finalPath data r (true,
        (((writeTemporary F (finalPath ++ tmpEnding) data r).call fun s => F.unlink s finalPath).2.call
          fun s => F.rename s (finalPath ++ tmpEnding) finalPath).2)

theorem writeTemporary_state (tmp : Path) (data : List UInt8) (r : Run σ) :
    (writeTemporary F tmp data r).state = (writeTemporary F tmp data (start r.state)).state := rfl

theorem writeFileAtomic_cases (finalPath : Path) (data : List UInt8) (r : Run σ) :
    Replacement F finalPath data r (writeFileAtomic F finalPath data r) := by
  unfold writeFileAtomic
  by_cases hlong : 128 ≤ finalPath.length + 5
  · rw [if_pos hlong]
    exact .tooLong hlong
  rw [if_neg hlong]
  dsimp only
  by_cases hopened : (F.create r.state (finalPath ++ tmpEnding)).1 = .ok ()
  swap
  · rw [if_pos (by exact hopened)]
    exact .notOpened hopened
  rw [if_neg (by exact not_not.mpr hopened)]
  by_cases hwrites : WritesTemporary F (finalPath ++ tmpEnding) data r.state
  swap
  · rw [if_pos]
    · exact .notWritten hwrites
    · by_contra hall
      simp only [not_or, not_not] at hall
      exact hwrites ⟨hopened,hall.1,hall.2.1,hall.2.2⟩
  obtain ⟨-,hwrite,hsync,hclose⟩ := hwrites
  rw [if_neg (by simp only [not_or, not_not]; exact ⟨hwrite,hsync,hclose⟩)]
  by_cases hrename : (F.rename (F.unlink (writeTemporary F (finalPath ++ tmpEnding) data r).state finalPath).2
      (finalPath ++ tmpEnding) finalPath).1 = .ok ()
  · rw [if_neg (by exact not_not.mpr hrename)]
    exact .renamed ⟨hopened,hwrite,hsync,hclose⟩ hrename
  · rw [if_pos (by exact hrename)]
    refine .refused ?_ ⟨hopened,hwrite,hsync,hclose⟩ hrename
    by_cases hunlink : (F.unlink (writeTemporary F (finalPath ++ tmpEnding) data r).state finalPath).1 = .ok ()
    · exact Or.inl ⟨by omega,⟨hopened,hwrite,hsync,hclose⟩,hunlink,hrename⟩
    · exact Or.inr hunlink

end

/-! ## What a replacement touches -/

section
variable {σ : Type} (F : FatFs σ)

/-- From `s` to `t` only the target and the temporary file may have changed, and what is
found under the target's name is what was there, nothing, or all of the data. -/
structure Replaces (finalPath : Path) (data : List UInt8) (s t : σ) : Prop where
  others : ∀ k, k ≠ key (finalPath ++ tmpEnding) → k ≠ key finalPath → F.node t k = F.node s k
  target : F.node t (key finalPath) = F.node s (key finalPath) ∨ F.node t (key finalPath) = none ∨
    F.node t (key finalPath) = some ⟨leaf finalPath,.file data true⟩

/-- From `s` to `t` the file `path` was read: a synced one is as before. -/
structure Reads (path : Path) (s t : σ) : Prop where
  others : ∀ k, k ≠ key path → F.node t k = F.node s k
  source : ∀ f data, F.node s (key path) = some ⟨f,.file data true⟩ → F.node t (key path) = F.node s (key path)

end

section
variable {σ : Type} {F : FatFs σ} {finalPath path : Path} {data : List UInt8} {s t : σ}

theorem replaces_refl (s : σ) : Replaces F finalPath data s s := ⟨fun _ _ _ => rfl,Or.inl rfl⟩

theorem reads_refl (s : σ) : Reads F path s s := ⟨fun _ _ => rfl,fun _ _ _ => rfl⟩

theorem Reads.of_node (h : Reads F path s t) {u : σ} (hu : F.node u = F.node t) : Reads F path s u :=
  ⟨fun k hk => by rw [hu, h.others k hk],fun f data hf => by rw [hu, h.source f data hf]⟩

theorem Replaces.frame (h : Replaces F finalPath data s t) {u : σ}
    (hu : ∀ k, k ≠ key (finalPath ++ tmpEnding) → F.node u k = F.node t k) : Replaces F finalPath data s u := by
  have htarget := hu _ (key_append_ne finalPath tmpEnding_isName).symm
  exact ⟨fun k htmp hk => by rw [hu k htmp, h.others k htmp hk],by rw [htarget]; exact h.target⟩

variable (hF : F.Documented)
include hF

theorem Reads.close (h : Reads F path s t) : Reads F path s (F.close t path).2 := by
  refine ⟨fun k hk => by rw [hF.close_frame _ _ _ hk, h.others k hk],?_⟩
  intro f data hf
  have ht := (h.source f data hf).trans hf
  rw [hF.close_synced _ _ _ _ ht, h.source f data hf]

theorem writeTemporary_replaces (finalPath : Path) (data : List UInt8) (r : Run σ) :
    Passes (Replaces F finalPath data r.state) r (writeTemporary F (finalPath ++ tmpEnding) data r) := by
  have hcreated := (passes_refl (P := Replaces F finalPath data r.state) (replaces_refl r.state)).call
    (f := fun s => F.create s (finalPath ++ tmpEnding)) fun h => h.frame (hF.create_frame _ _)
  have hwritten := hcreated.call (f := fun s => F.write s (finalPath ++ tmpEnding) data)
    fun h => h.frame (hF.write_frame _ _ _)
  have hsynced := hwritten.call (f := fun s => F.sync s (finalPath ++ tmpEnding))
    fun h => h.frame (hF.sync_frame _ _)
  exact hsynced.call (f := fun s => F.close s (finalPath ++ tmpEnding)) fun h => h.frame (hF.close_frame _ _)

theorem Replaces.unlink (h : Replaces F finalPath data s t) : Replaces F finalPath data s (F.unlink t finalPath).2 := by
  refine ⟨fun k htmp hk => by rw [unlink_frame hF hk, h.others k htmp hk],?_⟩
  cases hu : (F.unlink t finalPath).1 with
  | ok => exact Or.inr (Or.inl (by rw [hF.unlink_ok t finalPath hu, if_pos rfl]))
  | error e => rw [hF.unlink_error t finalPath e hu]; exact h.target

/-- Once the temporary file is written, the unlink leaves it and the rename moves it. -/
theorem WritesTemporary.unlinked (h : WritesTemporary F (finalPath ++ tmpEnding) data s) :
    Safe F (F.unlink (writeTemporary F (finalPath ++ tmpEnding) data (start s)).state finalPath).2
      (finalPath ++ tmpEnding) data := by
  obtain ⟨f,hf⟩ := WritesTemporary.node hF (r := start s) h
  exact ⟨f,by rw [unlink_frame hF (key_append_ne finalPath tmpEnding_isName), hf]⟩

theorem Safe.renamed {p : Path} (h : Safe F s p data) (hrename : (F.rename s p finalPath).1 = .ok ()) :
    Safe F (F.rename s p finalPath).2 finalPath data := by
  obtain ⟨f,hf⟩ := h
  exact ⟨leaf finalPath,by rw [(hF.rename_ok s p finalPath f data true hf hrename).2, if_pos rfl]⟩

theorem Replaces.rename (h : Replaces F finalPath data s t) (ht : Safe F t (finalPath ++ tmpEnding) data) :
    Replaces F finalPath data s (F.rename t (finalPath ++ tmpEnding) finalPath).2 := by
  obtain ⟨f,hf⟩ := ht
  cases hr : (F.rename t (finalPath ++ tmpEnding) finalPath).1 with
  | error e =>
    exact h.frame fun k _ => by rw [hF.rename_error _ _ _ e hr]
  | ok =>
    have hnode := (hF.rename_ok _ _ _ _ _ _ hf hr).2
    refine ⟨?_,Or.inr (Or.inr (by rw [hnode, if_pos rfl]))⟩
    intro k htmp hk
    rw [hnode, if_neg hk, if_neg htmp, h.others k htmp hk]

/-- In no state of `write_file_atomic` has it touched more than it may; a success leaves the data. -/
theorem writeFileAtomic_replaces (finalPath : Path) (data : List UInt8) (r : Run σ) :
    Passes (Replaces F finalPath data r.state) r (writeFileAtomic F finalPath data r).2 ∧
      ((writeFileAtomic F finalPath data r).1 = true →
        Safe F (writeFileAtomic F finalPath data r).2.state finalPath data) := by
  have hcases := writeFileAtomic_cases F finalPath data r
  have hwritten := writeTemporary_replaces hF finalPath data r
  have hstart : Passes (Replaces F finalPath data r.state) r r := passes_refl (replaces_refl r.state)
  have hunlink : ∀ t, Replaces F finalPath data r.state t →
      Replaces F finalPath data r.state (F.unlink t (finalPath ++ tmpEnding)).2 :=
    fun t h => h.frame fun k hk => unlink_frame hF hk
  have hrenamed : WritesTemporary F (finalPath ++ tmpEnding) data r.state →
      Passes (Replaces F finalPath data r.state) r
        (((writeTemporary F (finalPath ++ tmpEnding) data r).call fun s => F.unlink s finalPath).2.call
          fun s => F.rename s (finalPath ++ tmpEnding) finalPath).2 := by
    intro hwrites
    have hremoved := hwritten.call (f := fun s => F.unlink s finalPath) fun h => h.unlink hF
    exact hremoved.call (f := fun s => F.rename s (finalPath ++ tmpEnding) finalPath)
      fun h => h.rename hF (hwrites.unlinked hF)
  generalize writeFileAtomic F finalPath data r = w at hcases ⊢
  cases hcases with
  | tooLong => exact ⟨hstart,fun h => absurd h (by simp)⟩
  | notOpened =>
    refine ⟨?_,fun h => absurd h (by simp)⟩
    exact hstart.call (f := fun s => F.create s (finalPath ++ tmpEnding)) fun h => h.frame (hF.create_frame _ _)
  | notWritten =>
    refine ⟨?_,fun h => absurd h (by simp)⟩
    exact hwritten.call (f := fun s => F.unlink s (finalPath ++ tmpEnding)) (hunlink _)
  | refused _ hwrites =>
    refine ⟨?_,fun h => absurd h (by simp)⟩
    exact (hrenamed hwrites).call (f := fun s => F.unlink s (finalPath ++ tmpEnding)) (hunlink _)
  | renamed hwrites hrename => exact ⟨hrenamed hwrites,fun _ => (hwrites.unlinked hF).renamed hF hrename⟩

/-- What `read_file_to_buf` gives is the file's content, and it changes nothing that is synced. -/
theorem readFileToBuf_reads (path : Path) (bufSize : ℕ) (r : Run σ) :
    Passes (Reads F path r.state) r (readFileToBuf F path bufSize r).2 ∧
      ∀ bytes, (readFileToBuf F path bufSize r).1 = some bytes → bytes.length < bufSize ∧ 0 ∉ bytes ∧
        Holds F r.state path bytes := by
  have hopened : Reads F path r.state (F.openRead r.state path).2 :=
    (reads_refl r.state).of_node (hF.openRead_node r.state path)
  have hpassed := (passes_refl (P := Reads F path r.state) (reads_refl r.state)).call
    (f := fun s => F.openRead s path) fun _ => hopened
  unfold readFileToBuf
  rcases hsize : (F.openRead r.state path).1 with e | size
  · have hcall : r.call (fun s => F.openRead s path) = (.error e,(r.call fun s => F.openRead s path).2) :=
      Prod.ext hsize rfl
    rw [hcall]
    exact ⟨hpassed,fun bytes h => by simp at h⟩
  have hcall : r.call (fun s => F.openRead s path) = (.ok size,(r.call fun s => F.openRead s path).2) :=
    Prod.ext hsize rfl
  rw [hcall]
  dsimp only
  by_cases hbig : bufSize ≤ size
  · rw [if_pos hbig]
    exact ⟨hpassed.call (f := fun s => F.close s path) fun h => h.close hF,fun bytes h => by simp at h⟩
  rw [if_neg hbig]
  have hread := hpassed.call (f := fun s => F.read s path 0 size) fun h => h.of_node (hF.read_node _ _ _ _)
  have hclosed := hread.call (f := fun s => F.close s path) fun h => h.close hF
  split
  · exact ⟨hclosed,fun bytes h => by simp at h⟩
  · rename_i bytes hbytes
    split_ifs with hbad
    · exact ⟨hclosed,fun bytes h => by simp at h⟩
    · refine ⟨hclosed,?_⟩
      intro bytes' heq
      obtain rfl := Option.some.inj heq
      obtain ⟨f,content,synced,hnode,hlen⟩ := hF.openRead_ok _ _ _ hsize
      have hnode' : F.node (F.openRead r.state path).2 (key path) = some ⟨f,.file content synced⟩ := by
        rw [hF.openRead_node, hnode]
      have hall := hF.read_ok _ _ _ _ _ _ _ _ hnode' hbytes
      rw [List.drop_zero, hlen, List.take_length] at hall
      simp only [not_or, not_not] at hbad
      exact ⟨by omega,hbad.2.2,f,synced,by rw [hall, hnode]⟩

end

end Bvstk.Fat
