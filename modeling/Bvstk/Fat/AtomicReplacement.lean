import Bvstk.Fat.AtomicWrite
import Bvstk.Fat.MemoryFat

/-! # When a replacement is atomic

After `write_file_atomic`, and after a reset anywhere on its way, the old or the new content
is under the target's name or the temporary one. What spoils this is a rename that is
refused after the target was removed: the temporary file is then removed too.
-/
namespace Bvstk.Fat
open Bvstk.Fs Bvstk.Config CrashRun

section
variable {σ : Type} (F : FatFs σ)

/-- The old or the new content is there under one of the two names. -/
def Kept (finalPath : Path) (old data : List UInt8) (s : σ) : Prop :=
  Holds F s finalPath old ∨ Holds F s finalPath data ∨
    Holds F s (finalPath ++ tmpEnding) old ∨ Holds F s (finalPath ++ tmpEnding) data

/-- Replacing `old` by `data`, from the state `s`. -/
structure Atomic (finalPath : Path) (old data : List UInt8) (s : σ) : Prop where
  kept : Always (Kept F finalPath old data) (writeFileAtomic F finalPath data (start s)).2
  reset : ∀ t, Cut F.Reset (writeFileAtomic F finalPath data (start s)).2 t → Kept F finalPath old data t
  failed : (writeFileAtomic F finalPath data (start s)).1 = false →
    Holds F (writeFileAtomic F finalPath data (start s)).2.state finalPath old

/-- What holds on the way when no rename is refused. -/
def SafeOnTheWay (finalPath : Path) (old data : List UInt8) (s : σ) : Prop :=
  Safe F s finalPath old ∨ Safe F s finalPath data ∨ Safe F s (finalPath ++ tmpEnding) data

end

section
variable {σ : Type} {F : FatFs σ} {finalPath : Path} {old data : List UInt8} {s t : σ}

theorem SafeOnTheWay.kept (h : SafeOnTheWay F finalPath old data s) : Kept F finalPath old data s := by
  rcases h with h | h | h
  · exact Or.inl h.holds
  · exact Or.inr (Or.inl h.holds)
  · exact Or.inr (Or.inr (Or.inr h.holds))

variable (hF : F.Documented)
include hF

theorem SafeOnTheWay.reset (h : SafeOnTheWay F finalPath old data s) (ht : F.Reset s t) :
    SafeOnTheWay F finalPath old data t := by
  rcases h with h | h | h
  · exact Or.inl (h.reset hF ht)
  · exact Or.inr (Or.inl (h.reset hF ht))
  · exact Or.inr (Or.inr (h.reset hF ht))

variable (data) in
/-- Calls on the temporary name leave the target alone. -/
theorem Safe.writeTemporary (h : Safe F s finalPath old) :
    Always (fun t => Safe F t finalPath old) (writeTemporary F (finalPath ++ tmpEnding) data (start s)) := by
  have hne := key_append_ne finalPath tmpEnding_isName
  refine writeTemporary_frame hF (always_start.mpr h) ?_
  rintro s t ⟨f,hf⟩ hframe
  exact ⟨f,by rw [hframe _ hne.symm, hf]⟩

theorem Safe.unlinkTemporary (h : Safe F s finalPath old) :
    Safe F (F.unlink s (finalPath ++ tmpEnding)).2 finalPath old := by
  obtain ⟨f,hf⟩ := h
  exact ⟨f,by rw [unlink_frame hF (key_append_ne finalPath tmpEnding_isName).symm, hf]⟩

theorem Safe.notRenamed {p q : Path} (h : Safe F s finalPath data) (hrename : (F.rename s p q).1 ≠ .ok ()) :
    Safe F (F.rename s p q).2 finalPath data := by
  obtain ⟨f,hf⟩ := h
  cases hr : (F.rename s p q).1 with
  | ok => exact absurd hr hrename
  | error e => exact ⟨f,by rw [hF.rename_error s p q e hr, hf]⟩

theorem Safe.notRemoved (h : Safe F s finalPath data) (hunlink : (F.unlink s finalPath).1 ≠ .ok ()) :
    Safe F (F.unlink s finalPath).2 finalPath data := by
  obtain ⟨f,hf⟩ := h
  cases hu : (F.unlink s finalPath).1 with
  | ok => exact absurd hu hunlink
  | error e => exact ⟨f,by rw [hF.unlink_error s finalPath e hu, hf]⟩

/-- Nothing brings the target back. -/
theorem absent_of_refused {s₁ : σ} (hunlink : (F.unlink s₁ finalPath).1 = .ok ())
    (hrename : (F.rename (F.unlink s₁ finalPath).2 (finalPath ++ tmpEnding) finalPath).1 ≠ .ok ()) :
    F.node (F.unlink (F.rename (F.unlink s₁ finalPath).2 (finalPath ++ tmpEnding) finalPath).2
      (finalPath ++ tmpEnding)).2 (key finalPath) = none := by
  rw [unlink_frame hF (key_append_ne finalPath tmpEnding_isName).symm]
  cases hr : (F.rename (F.unlink s₁ finalPath).2 (finalPath ++ tmpEnding) finalPath).1 with
  | ok => exact absurd hr hrename
  | error e => rw [hF.rename_error _ _ _ e hr, hF.unlink_ok s₁ finalPath hunlink, if_pos rfl]

/-- Along a run whose rename is not refused. -/
theorem safeOnTheWay (hs : Safe F s finalPath old) (hnot : ¬RenameRefused F finalPath data s) :
    Always (SafeOnTheWay F finalPath old data) (writeFileAtomic F finalPath data (start s)).2 ∧
      ((writeFileAtomic F finalPath data (start s)).1 = false →
        Safe F (writeFileAtomic F finalPath data (start s)).2.state finalPath old) := by
  have hcases := writeFileAtomic_cases F finalPath data (start s)
  have hwritten := hs.writeTemporary data hF
  have hway : ∀ t, Safe F t finalPath old → SafeOnTheWay F finalPath old data t := fun t ht => Or.inl ht
  generalize writeFileAtomic F finalPath data (start s) = w at hcases ⊢
  cases hcases with
  | tooLong => exact ⟨always_start.mpr (hway _ hs),fun _ => hs⟩
  | notOpened =>
    have hstart : Always (fun t => Safe F t finalPath old) (start s) := always_start.mpr hs
    have hcreated := hstart.call (f := fun s => F.create s (finalPath ++ tmpEnding)) (by
      rintro ⟨f,hf⟩
      exact ⟨f,by rw [hF.create_frame _ _ _ (key_append_ne finalPath tmpEnding_isName).symm, hf]⟩)
    exact ⟨hcreated.mono hway,fun _ => hcreated.state⟩
  | notWritten =>
    have hremoved := hwritten.call (f := fun s => F.unlink s (finalPath ++ tmpEnding))
      fun h => h.unlinkTemporary hF
    exact ⟨hremoved.mono hway,fun _ => hremoved.state⟩
  | refused h hwrites hrename =>
    -- The target is still there: it could not be removed.
    have hunlink := h.resolve_left hnot
    have hthere := hwritten.call (f := fun s => F.unlink s finalPath) fun h => h.notRemoved hF hunlink
    have hrefused := hthere.call (f := fun s => F.rename s (finalPath ++ tmpEnding) finalPath)
      fun h => h.notRenamed hF hrename
    have hremoved := hrefused.call (f := fun s => F.unlink s (finalPath ++ tmpEnding))
      fun h => h.unlinkTemporary hF
    exact ⟨hremoved.mono hway,fun _ => hremoved.state⟩
  | renamed hwrites hrename =>
    have hsafe := hwrites.unlinked hF
    refine ⟨?_,fun h => absurd h (by simp)⟩
    have hremoved := (hwritten.mono hway).call (f := fun s => F.unlink s finalPath) fun _ => Or.inr (Or.inr hsafe)
    exact hremoved.call (f := fun s => F.rename s (finalPath ++ tmpEnding) finalPath)
      fun _ => Or.inr (Or.inl (hsafe.renamed hF hrename))

end

/-- `write_file_atomic` is atomic exactly when FatFs does not refuse the rename after it has
removed the target. -/
theorem write_file_atomic_iff {σ : Type} {F : FatFs σ} (hF : F.Documented) {finalPath : Path} {old : List UInt8}
    {s : σ} (hs : Safe F s finalPath old) (data : List UInt8) :
    Atomic F finalPath old data s ↔ ¬RenameRefused F finalPath data s := by
  constructor
  · rintro ⟨-,-,hfailed⟩ ⟨hshort,hwrites,hunlink,hrename⟩
    have hcases := writeFileAtomic_cases F finalPath data (start s)
    generalize writeFileAtomic F finalPath data (start s) = w at hcases hfailed
    cases hcases with
    | tooLong hlong => omega
    | notOpened hopened => exact hopened hwrites.1
    | notWritten hnot => exact hnot hwrites
    | refused _ _ hrefused =>
      obtain ⟨f,synced,hf⟩ := hfailed rfl
      have hgone := absent_of_refused hF hunlink hrename
      exact absurd (hgone.symm.trans hf) (by simp)
    | renamed _ hrenamed => exact hrename hrenamed
  · intro hnot
    obtain ⟨hway,hfailed⟩ := safeOnTheWay hF hs hnot
    refine ⟨hway.mono fun t h => h.kept,?_,fun h => (hfailed h).holds⟩
    intro t ht
    exact (ht.of_always hway fun s t hs hst => hs.reset hF hst).kept

/-- `0:/config/network.json`. -/
def networkPath : Path :=
  [48,58,47,99,111,110,102,105,103,47,110,101,116,119,111,114,107,46,106,115,111,110]

/-- A disk with that file, its content the byte 1. -/
def networkDisk (faults : List Bool) : Disk where
  objects := [([[48,58],[99,111,110,102,105,103]],⟨networkPath.drop 10,.file [1] true⟩)]
  faults := faults

theorem networkDisk_safe (faults : List Bool) : Safe memoryFat (networkDisk faults) networkPath [1] :=
  ⟨networkPath.drop 10,by rfl⟩

theorem write_file_atomic_iff_network : Safe memoryFat (networkDisk []) networkPath [1] ∧
    (Atomic memoryFat networkPath [1] [2] (networkDisk []) ↔
      ¬RenameRefused memoryFat networkPath [2] (networkDisk [])) :=
  ⟨networkDisk_safe [],write_file_atomic_iff memoryFat_documented (networkDisk_safe []) [2]⟩

/-- The sixth call is the rename. -/
theorem write_file_atomic_loses_target :
    Safe memoryFat (networkDisk [false,false,false,false,false,true]) networkPath [1] ∧
      ¬Atomic memoryFat networkPath [1] [2] (networkDisk [false,false,false,false,false,true]) := by
  refine ⟨networkDisk_safe _,fun hatomic => ?_⟩
  obtain ⟨f,synced,hf⟩ := hatomic.failed (by decide)
  have hgone : memoryFat.node (writeFileAtomic memoryFat networkPath [2]
      (start (networkDisk [false,false,false,false,false,true]))).2.state (key networkPath) = none := by decide
  exact absurd (hgone.symm.trans hf) (by simp)

end Bvstk.Fat
