import Bvstk.Fs.Reader

/-! # What a reader keeps

What a reader was opened for stays as it is while it is read and when it is closed.
-/
namespace Bvstk.Fs

/-- What a reader was opened for. -/
@[ext] structure FsSource where
  slot : ℕ
  root : Path
  relativeOffset : ℕ
  totalSize : UInt64
  kind : UInt8
  flags : UInt8
  deriving DecidableEq

section
variable {β H : Type}

def FsReader.source (r : FsReader H) : FsSource :=
  ⟨r.slot,r.root,r.relativeOffset,r.totalSize,r.kind,r.flags⟩

variable (P : FsBackend β H) (r : FsReader H) (w : FsWorld β H)

theorem source_readerClose : (readerClose P r w).1.source = r.source := rfl

theorem source_openFile : (openFile P r w).2.1.source = r.source := by
  unfold openFile
  split
  · rfl
  · dsimp only
    split
    · rfl
    · rfl

/-- A reader is opened for the request. -/
theorem source_readerOpen {slot : ℕ} {path : Path} {kind flags : UInt8} {w' : FsWorld β H}
    (hopen : readerOpen P w slot path kind flags = (.ok r,w')) :
    r.slot = slot ∧ r.root = path ∧ r.kind = kind ∧ r.flags = flags := by
  unfold readerOpen at hopen
  split at hopen
  · cases hopen
  · split at hopen
    · cases hopen
    · split at hopen
      · cases hopen
      · split at hopen
        · cases hopen
        · rename_i info w₁ _
          by_cases htype : info.type ≠ if kind = kindFile then entryFile else entryDir
          · rw [if_pos htype] at hopen
            cases hopen
          · rw [if_neg htype] at hopen
            dsimp only at hopen
            split at hopen
            · have hsource := source_openFile P (newReader slot path info kind flags) w₁
              generalize openFile P (newReader slot path info kind flags) w₁ = out at hopen hsource
              obtain ⟨error,r',w₂⟩ := out
              cases error with
              | some e => cases hopen
              | none =>
                cases hopen
                rw [FsSource.ext_iff] at hsource
                exact ⟨hsource.1,hsource.2.1,hsource.2.2.2.2.1,hsource.2.2.2.2.2⟩
            · split at hopen
              · cases hopen
                exact ⟨rfl,rfl,rfl,rfl⟩
              · cases hopen

theorem source_enterEntry (name : Path) : (enterEntry P r name w).2.1.source = r.source := by
  unfold enterEntry
  dsimp only
  split
  · rfl
  · split
    · rfl
    · generalize (if r.path = [] ∨ r.path.getLast? = some slash then r.path else r.path ++ [slash]) = parent
      split
      · rfl
      · split
        · split
          · rfl
          · split
            · rfl
            · rfl
        · split
          · rfl
          · rfl

theorem source_nextEntry (dirs : List (FsDir H)) : (nextEntry P dirs r w).2.1.source = r.source := by
  induction dirs generalizing r w with
  | nil => rfl
  | cons dir dirs ih =>
    unfold nextEntry
    dsimp only
    split
    · rfl
    · rename_i name info w₁ _
      split
      · exact ih _ _
      · have hentered := source_enterEntry P
          { r with path := r.path.take dir.pathLen, dirs := dir :: dirs, info := info } w₁ name
        generalize enterEntry P { r with path := r.path.take dir.pathLen, dirs := dir :: dirs, info := info } name w₁
          = out at hentered ⊢
        obtain ⟨error,r',w'⟩ := out
        cases error with
        | some e => exact hentered
        | none => exact hentered

theorem source_stageEntry : (stageEntry P r w).2.1.source = r.source := by
  unfold stageEntry
  split
  · rfl
  · have hopened := source_openFile P r w
    by_cases htype : r.info.type = entryFile
    · rw [if_pos htype]
      generalize openFile P r w = out at hopened ⊢
      obtain ⟨error,r',w'⟩ := out
      cases error with
      | some e => exact hopened
      | none =>
        dsimp only
        split
        · exact hopened
        · exact hopened
    · rw [if_neg htype]
      dsimp only
      split
      · rfl
      · rfl

theorem source_finishFile : (finishFile P r w).2.1.source = r.source := by
  unfold finishFile
  generalize w.stat P r.path = out
  obtain ⟨current,w₁⟩ := out
  cases current with
  | error e => rfl
  | ok current =>
    dsimp only
    split
    · rfl
    · split
      · rfl
      · rfl

theorem source_readTurn (available : ℕ) : (readTurn P available r w).2.1.source = r.source := by
  unfold readTurn
  split
  · rfl
  · cases hphase : r.phase with
    | fileData =>
      dsimp only
      split
      · exact source_finishFile P r w
      · cases hfile : r.file with
        | none => rfl
        | some file =>
          dsimp only
          generalize w.fileRead P file (min r.remaining available) = out
          obtain ⟨result,w'⟩ := out
          cases result with
          | error e => rfl
          | ok data =>
            dsimp only
            split
            · rfl
            · rfl
    | filePadding =>
      dsimp only
      split
      · rfl
      · rfl
    | walk =>
      have hwalk := source_nextEntry P r w r.dirs
      dsimp only
      generalize nextEntry P r.dirs r w = out at hwalk ⊢
      obtain ⟨result,r',w'⟩ := out
      cases result with
      | error e => exact hwalk
      | ok done =>
        cases done with
        | true => exact hwalk
        | false => exact (source_stageEntry P r' w').trans hwalk
    | finished => rfl

theorem source_readLoop (fuel available : ℕ) : (readLoop P fuel available r w).2.1.source = r.source := by
  induction fuel generalizing available r w with
  | zero => rfl
  | succ fuel ih =>
    unfold readLoop
    split
    · rfl
    · have hturn := source_readTurn P r w available
      generalize readTurn P available r w = out at hturn ⊢
      obtain ⟨⟨turn,data⟩,r',w'⟩ := out
      cases turn with
      | stop => exact hturn
      | failed e => exact hturn
      | again => exact (ih r' w' (available - data.length)).trans hturn

theorem source_finishBlock : (finishBlock P r w).2.1.source = r.source := by
  unfold finishBlock
  split
  · exact source_finishFile P r w
  · rfl

theorem source_readerRead (capacity : ℕ) : (readerRead P r w capacity).2.1.source = r.source := by
  unfold readerRead
  split
  · rfl
  · have hloop := source_readLoop P r w (readFuel capacity) capacity
    generalize readLoop P (readFuel capacity) capacity r w = out at hloop ⊢
    obtain ⟨⟨error,data⟩,r₁,w₁⟩ := out
    dsimp only at hloop ⊢
    by_cases herror : error = none
    · have hfinished := source_finishBlock P r₁ w₁
      rw [if_pos herror]
      generalize finishBlock P r₁ w₁ = out at hfinished ⊢
      obtain ⟨error',r',w'⟩ := out
      cases error' with
      | some e => exact hfinished.trans hloop
      | none => exact hfinished.trans hloop
    · rw [if_neg herror]
      dsimp only
      split
      · exact hloop
      · exact hloop

end

end Bvstk.Fs
