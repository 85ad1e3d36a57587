import Bvstk.Fs.Tar

/-! # The headers of an entry

What `tarEntry` writes depends on the name, the type and the size under which an entry is
archived and on nothing else.
-/
namespace Bvstk.Fs

/-- A directory is archived with a slash after its name. -/
def archiveName (relative : Path) (info : FsInfo) : Path :=
  relative ++ (if info.type = entryDir then [slash] else [])

def archiveType (info : FsInfo) : UInt8 := if info.type = entryDir then typeDir else typeFile

def archiveSize (info : FsInfo) : ℕ := if info.type = entryFile then info.size.toNat else 0

/-- Whether an entry needs PAX records. -/
abbrev NeedsPax (name : Path) (size : ℕ) : Prop := 100 ≤ name.length ∨ octalMax < size ∨ name.any (128 ≤ ·) = true

/-- The headers of an entry with this name, type and size. -/
def archiveHeaders (name : Path) (type : UInt8) (size : ℕ) : Option (List UInt8) :=
  if NeedsPax name size then
    (paxRecords name size).map fun records =>
      tarHeader paxHeaderName typePax records.length ++ blocks records ++
        tarHeader paxEntryName type (if octalMax < size then 0 else size)
  else some (tarHeader name type size)

theorem tarEntry_eq (relative : Path) (info : FsInfo) :
    tarEntry relative info = archiveHeaders (archiveName relative info) (archiveType info) (archiveSize info) := by
  unfold tarEntry archiveHeaders
  by_cases hpax : NeedsPax (archiveName relative info) (archiveSize info)
  · rw [if_pos hpax]
    unfold NeedsPax archiveName archiveSize at hpax
    rw [if_pos hpax]
    unfold archiveName archiveType archiveSize
    cases paxRecords (relative ++ if info.type = entryDir then [slash] else [])
      (if info.type = entryFile then info.size.toNat else 0) with
    | none => rfl
    | some records => rfl
  · have hsmall : ¬octalMax < archiveSize info := fun h => hpax (.inr (.inl h))
    rw [if_neg hpax]
    unfold NeedsPax archiveName archiveSize at hpax
    unfold archiveSize at hsmall
    rw [if_neg hpax, if_neg hsmall]
    rfl

theorem tarHeader_ne_nil (name : Path) (type : UInt8) (size : ℕ) : tarHeader name type size ≠ [] := by
  simp [tarHeader, tarFields]

theorem tarEntry_ne_nil {relative : Path} {info : FsInfo} {header : List UInt8}
    (h : tarEntry relative info = some header) : header ≠ [] := by
  rw [tarEntry_eq, archiveHeaders] at h
  split at h
  · simp only [Option.map_eq_some_iff] at h
    obtain ⟨records,_,rfl⟩ := h
    simp [tarHeader_ne_nil]
  · cases h
    exact tarHeader_ne_nil _ _ _

end Bvstk.Fs
