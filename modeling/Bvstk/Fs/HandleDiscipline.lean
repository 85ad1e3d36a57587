import Bvstk.Fs.Reader
import Bvstk.Library.Lifetime
import Mathlib.Logic.Function.Basic

/-! # What a reader holds open

The handles a reader has open are those in its record, no matter which call of the backend
fails: each of its operations opens, uses and closes them in a disciplined way.
-/
namespace Bvstk.Fs
open Lifetime
variable {β H : Type}

/-- An open file or directory. -/
inductive FsObject (H : Type) where
  | file (handle : FsHandle H) | dir (handle : FsHandle H)

def FsObject.handle : FsObject H → FsHandle H
  | .file handle => handle
  | .dir handle => handle

def FsCall.action : FsCall H → Action (FsObject H)
  | .fileOpen _ (some file) => .opens (.file file)
  | .dirOpen _ (some dir) => .opens (.dir dir)
  | .fileRead file _ => .uses (.file file)
  | .dirRead dir => .uses (.dir dir)
  | .fileClose file => .closes (.file file)
  | .dirClose dir => .closes (.dir dir)
  | _ => .nothing

/-- The handles a reader has open, the innermost directory first. -/
@[ext] structure Holding (H : Type) where
  dirs : List (FsHandle H)
  file : Option (FsHandle H)

def Holding.empty (H : Type) : Holding H := ⟨[],none⟩

def FsReader.holding (r : FsReader H) : Holding H := ⟨r.dirs.map FsDir.handle,r.file⟩

/-- `held` is what the reader in `slot` has open: a file and as many directories as the walk
is deep, at most. -/
structure Holds (calls : List (FsCall H)) (slot : ℕ) (held : Holding H) : Prop where
  dirs : ∀ handle, handle ∈ held.dirs ↔ handle.owner = slot ∧ Live FsCall.action calls (.dir handle)
  file : ∀ handle, held.file = some handle ↔ handle.owner = slot ∧ Live FsCall.action calls (.file handle)
  nodup : held.dirs.Nodup
  depth : held.dirs.length ≤ maxDepth

/-- The log is disciplined, `t` is what the readers hold now, and they never held too much. -/
structure Kept (t : ℕ → Holding H) (w : FsWorld β H) : Prop where
  disciplined : Disciplined FsCall.action w.calls
  numbered : ∀ x, Opened FsCall.action w.calls x → x.handle.opened < w.calls.length
  bounded : ∀ pre post, w.calls = pre ++ post → ∀ slot, ∃ held, Holds pre slot held
  holds : ∀ slot, Holds w.calls slot (t slot)

section
variable {t t' : ℕ → Holding H} {w : FsWorld β H} {env : β} {call : FsCall H} {slot : ℕ} {held : Holding H}

/-- One more call that keeps the discipline, and what is held after it. -/
theorem Kept.snoc (h : Kept t w) (hopens : ∀ x, call.action = .opens x → x.handle.opened = w.calls.length)
    (hlive : ∀ x, call.action = .uses x ∨ call.action = .closes x → Live FsCall.action w.calls x)
    (hholds : ∀ slot, Holds (w.calls ++ [call]) slot (t' slot)) :
    Kept t' (⟨env,w.calls ++ [call]⟩ : FsWorld β H) where
  disciplined := by
    refine h.disciplined.snoc (fun x hx hopened => ?_) hlive
    exact Nat.ne_of_lt (h.numbered x hopened) (hopens x hx)
  numbered := by
    intro x hx
    rw [List.length_append, List.length_singleton]
    rcases opened_snoc.mp hx with hx | hx
    · exact Nat.lt_succ_of_lt (h.numbered x hx)
    · exact Nat.lt_succ_of_le (Nat.le_of_eq (hopens x hx))
  bounded := by
    intro pre post hsplit slot
    rcases List.eq_nil_or_concat post with rfl | ⟨post',last,rfl⟩
    · rw [List.append_nil] at hsplit
      exact ⟨t' slot,hsplit ▸ hholds slot⟩
    · rw [List.concat_eq_append, ← List.append_assoc] at hsplit
      exact h.bounded pre post' (List.append_inj' hsplit rfl).1 slot
  holds := hholds

theorem Kept.fresh (h : Kept t w) {x : FsObject H} (hx : x.handle.opened = w.calls.length) :
    ¬Opened FsCall.action w.calls x := fun hopened => Nat.ne_of_lt (h.numbered x hopened) hx

/-- What stays live for a slot stays held. -/
theorem Holds.congr {calls calls' : List (FsCall H)} (h : Holds calls slot held)
    (hlive : ∀ x : FsObject H, x.handle.owner = slot → (Live FsCall.action calls' x ↔ Live FsCall.action calls x)) :
    Holds calls' slot held where
  dirs := by
    intro handle
    rw [h.dirs]
    exact and_congr_right fun howner => (hlive (.dir handle) howner).symm
  file := by
    intro handle
    rw [h.file]
    exact and_congr_right fun howner => (hlive (.file handle) howner).symm
  nodup := h.nodup
  depth := h.depth

/-- A call that opens and closes nothing, on a handle that is held. -/
theorem Kept.idle (h : Kept t w) (hopens : ∀ x, call.action ≠ .opens x) (hcloses : ∀ x, call.action ≠ .closes x)
    (huses : ∀ x, call.action = .uses x → Live FsCall.action w.calls x) :
    Kept t (⟨env,w.calls ++ [call]⟩ : FsWorld β H) := by
  refine h.snoc (fun x hx => absurd hx (hopens x)) (fun x hx => ?_) fun slot => (h.holds slot).congr fun x _ => ?_
  · exact hx.elim (huses x) fun hc => absurd hc (hcloses x)
  · exact live_of_idle hopens hcloses

/-- A call that opens `x`. -/
theorem Kept.opens (h : Kept t w) (slot : ℕ) (held : Holding H) {x : FsObject H} (hcall : call.action = .opens x)
    (hx : x.handle.opened = w.calls.length) (howner : x.handle.owner = slot)
    (hholds : (∀ y, Live FsCall.action (w.calls ++ [call]) y ↔ Live FsCall.action w.calls y ∨ y = x) →
      Holds (w.calls ++ [call]) slot held) :
    Kept (Function.update t slot held) (⟨env,w.calls ++ [call]⟩ : FsWorld β H) := by
  have hlive : ∀ y, Live FsCall.action (w.calls ++ [call]) y ↔ Live FsCall.action w.calls y ∨ y = x :=
    fun y => live_of_opens h.disciplined hcall (h.fresh hx)
  refine h.snoc (fun y hy => ?_) (fun y hy => ?_) fun slot' => ?_
  · rw [hcall, Action.opens.injEq] at hy
    exact hy ▸ hx
  · rw [hcall] at hy
    rcases hy with hy | hy
    · cases hy
    · cases hy
  · by_cases hslot : slot' = slot
    · subst hslot
      rw [Function.update_self]
      exact hholds hlive
    · rw [Function.update_of_ne hslot]
      refine (h.holds slot').congr fun y hy => (hlive y).trans (or_iff_left ?_)
      rintro rfl
      exact hslot (hy.symm.trans howner)

/-- A call that closes `x`. -/
theorem Kept.closes (h : Kept t w) (held : Holding H) {x : FsObject H} (hcall : call.action = .closes x)
    (hx : Live FsCall.action w.calls x) (howner : x.handle.owner = slot)
    (hholds : (∀ y, Live FsCall.action (w.calls ++ [call]) y ↔ Live FsCall.action w.calls y ∧ y ≠ x) →
      Holds (w.calls ++ [call]) slot held) :
    Kept (Function.update t slot held) (⟨env,w.calls ++ [call]⟩ : FsWorld β H) := by
  have hlive : ∀ y, Live FsCall.action (w.calls ++ [call]) y ↔ Live FsCall.action w.calls y ∧ y ≠ x :=
    fun y => live_of_closes hcall
  refine h.snoc (fun y hy => ?_) (fun y hy => ?_) fun slot' => ?_
  · rw [hcall] at hy
    cases hy
  · rw [hcall] at hy
    rcases hy with hy | hy
    · cases hy
    · cases hy
      exact hx
  · by_cases hslot : slot' = slot
    · subst hslot
      rw [Function.update_self]
      exact hholds hlive
    · rw [Function.update_of_ne hslot]
      refine (h.holds slot').congr fun y hy => (hlive y).trans (and_iff_left ?_)
      rintro rfl
      exact hslot (hy.symm.trans howner)

end

/-! ## One reader -/

/-- What is live is what the other readers hold by `t`, and what `r` holds. -/
def Keeps (t : ℕ → Holding H) (r : FsReader H) (w : FsWorld β H) : Prop :=
  Kept (Function.update t r.slot r.holding) w

section
variable {t : ℕ → Holding H} {r r' : FsReader H} {w : FsWorld β H} (P : FsBackend β H)

theorem Keeps.holds (h : Keeps t r w) : Holds w.calls r.slot r.holding := by
  have hholds := Kept.holds h r.slot
  rwa [Function.update_self] at hholds

theorem Keeps.congr (h : Keeps t r w) (hslot : r'.slot = r.slot) (hdirs : r'.dirs = r.dirs) (hfile : r'.file = r.file) :
    Keeps t r' w := by
  unfold Keeps FsReader.holding
  rw [hslot, hdirs, hfile]
  exact h

theorem Keeps.depth (h : Keeps t r w) : r.dirs.length ≤ maxDepth := by
  have hdepth := h.holds.depth
  rwa [FsReader.holding, List.length_map] at hdepth

theorem Keeps.live_dir (h : Keeps t r w) {dir : FsDir H} {dirs : List (FsDir H)} (hdirs : r.dirs = dir :: dirs) :
    dir.handle.owner = r.slot ∧ Live FsCall.action w.calls (.dir dir.handle) := by
  refine (h.holds.dirs dir.handle).mp ?_
  rw [FsReader.holding, hdirs]
  exact List.mem_cons_self

theorem Keeps.live_file (h : Keeps t r w) {file : FsHandle H} (hfile : r.file = some file) :
    file.owner = r.slot ∧ Live FsCall.action w.calls (.file file) := (h.holds.file file).mp hfile

theorem Keeps.stat (h : Keeps t r w) (path : Path) : Keeps t r (w.stat P path).2 :=
  Kept.idle h (fun _ hx => nomatch hx) (fun _ hx => nomatch hx) fun _ hx => nomatch hx

theorem Keeps.fileRead (h : Keeps t r w) {file : FsHandle H} (hfile : r.file = some file) (capacity : ℕ) :
    Keeps t r (w.fileRead P file capacity).2 := by
  refine Kept.idle h (fun _ hx => nomatch hx) (fun _ hx => nomatch hx) fun x hx => ?_
  cases hx
  exact (h.live_file hfile).2

theorem Keeps.dirRead (h : Keeps t r w) {dir : FsDir H} {dirs : List (FsDir H)} (hdirs : r.dirs = dir :: dirs) :
    Keeps t r (w.dirRead P dir.handle).2 := by
  refine Kept.idle h (fun _ hx => nomatch hx) (fun _ hx => nomatch hx) fun x hx => ?_
  cases hx
  exact (h.live_dir hdirs).2

theorem Keeps.fileClose (h : Keeps t r w) {file : FsHandle H} (hfile : r.file = some file) :
    Keeps t { r with file := none } (w.fileClose P file) := by
  obtain ⟨howner,hlive⟩ := h.live_file hfile
  have hclosed : Kept _ (w.fileClose P file) := Kept.closes h ⟨r.dirs.map FsDir.handle,none⟩ rfl hlive howner ?_
  · rwa [Function.update_idem] at hclosed
  · intro hafter
    have hdir : ∀ handle, Live FsCall.action (w.calls ++ [.fileClose file]) (.dir handle) ↔
        Live FsCall.action w.calls (.dir handle) := fun handle => (hafter _).trans (and_iff_left (by simp))
    refine ⟨fun handle => ?_,fun handle => ?_,h.holds.nodup,h.holds.depth⟩
    · rw [hdir]
      exact h.holds.dirs handle
    · rw [hafter, ← and_assoc, ← h.holds.file handle]
      simp only [FsReader.holding, hfile, Option.some.injEq, ne_eq, FsObject.file.injEq, reduceCtorEq, false_iff]
      exact fun hboth => hboth.2 hboth.1.symm

theorem Keeps.dirClose (h : Keeps t r w) {dir : FsDir H} {dirs : List (FsDir H)} (hdirs : r.dirs = dir :: dirs) :
    Keeps t { r with dirs := dirs } (w.dirClose P dir.handle) := by
  obtain ⟨howner,hlive⟩ := h.live_dir hdirs
  have hholds := h.holds
  rw [FsReader.holding, hdirs, List.map_cons] at hholds
  obtain ⟨hnew,hnodup⟩ := List.nodup_cons.mp hholds.nodup
  have hclosed : Kept _ (w.dirClose P dir.handle) :=
    Kept.closes h ⟨dirs.map FsDir.handle,r.file⟩ rfl hlive howner ?_
  · rwa [Function.update_idem] at hclosed
  · intro hafter
    have hfile : ∀ handle, Live FsCall.action (w.calls ++ [.dirClose dir.handle]) (.file handle) ↔
        Live FsCall.action w.calls (.file handle) := fun handle => (hafter _).trans (and_iff_left (by simp))
    refine ⟨fun handle => ?_,fun handle => ?_,hnodup,Nat.le_of_succ_le hholds.depth⟩
    · rw [hafter, ← and_assoc, ← hholds.dirs handle, List.mem_cons]
      simp only [ne_eq, FsObject.dir.injEq]
      constructor
      · exact fun hmem => ⟨Or.inr hmem,fun heq => hnew (heq ▸ hmem)⟩
      · exact fun hmem => hmem.1.resolve_left hmem.2
    · rw [hfile]
      exact hholds.file handle

/-- An open that fails leaves everything as it is. -/
theorem Keeps.fileOpen_error (h : Keeps t r w) {path : Path} {e : FsError} {w' : FsWorld β H}
    (hopen : w.fileOpen P r.slot path = (.error e,w')) : Keeps t r w' := by
  unfold FsWorld.fileOpen at hopen
  split at hopen
  · cases hopen
    exact Kept.idle h (fun _ hx => nomatch hx) (fun _ hx => nomatch hx) fun _ hx => nomatch hx
  · cases hopen

theorem Keeps.fileOpen (h : Keeps t r w) (hnone : r.file = none) {path : Path} {file : FsHandle H} {size : UInt64}
    {w' : FsWorld β H} (hopen : w.fileOpen P r.slot path = (.ok (file,size),w')) :
    Keeps t { r with file := some file } w' := by
  unfold FsWorld.fileOpen at hopen
  split at hopen
  · cases hopen
  · rename_i value size' env _
    cases hopen
    have hopened : Kept _ (⟨env,w.calls ++ [.fileOpen path (some ⟨r.slot,w.calls.length,value⟩)]⟩ : FsWorld β H) :=
      Kept.opens h r.slot ⟨r.dirs.map FsDir.handle,some ⟨r.slot,w.calls.length,value⟩⟩ rfl rfl rfl ?_
    · rwa [Function.update_idem] at hopened
    · intro hafter
      refine ⟨fun handle => ?_,fun handle => ?_,h.holds.nodup,h.holds.depth⟩
      · rw [hafter, or_iff_left (by simp)]
        exact h.holds.dirs handle
      · have hbefore := h.holds.file handle
        rw [FsReader.holding, hnone] at hbefore
        rw [hafter, and_or_left, ← hbefore]
        simp only [Option.some.injEq, FsObject.file.injEq, reduceCtorEq, false_or]
        constructor
        · rintro rfl
          exact ⟨rfl,rfl⟩
        · exact fun hboth => hboth.2.symm

theorem Keeps.dirOpen_error (h : Keeps t r w) {path : Path} {e : FsError} {w' : FsWorld β H}
    (hopen : w.dirOpen P r.slot path = (.error e,w')) : Keeps t r w' := by
  unfold FsWorld.dirOpen at hopen
  split at hopen
  · cases hopen
    exact Kept.idle h (fun _ hx => nomatch hx) (fun _ hx => nomatch hx) fun _ hx => nomatch hx
  · cases hopen

theorem Keeps.dirOpen (h : Keeps t r w) (hroom : r.dirs.length < maxDepth) {path : Path} {dir : FsHandle H}
    {w' : FsWorld β H} (hopen : w.dirOpen P r.slot path = (.ok dir,w')) (pathLen : ℕ) :
    Keeps t { r with dirs := ⟨dir,pathLen⟩ :: r.dirs } w' := by
  unfold FsWorld.dirOpen at hopen
  split at hopen
  · cases hopen
  · rename_i value env _
    cases hopen
    obtain ⟨dir,hdir⟩ : ∃ dir : FsHandle H, dir = ⟨r.slot,w.calls.length,value⟩ := ⟨_,rfl⟩
    have hopened : Kept _ (⟨env,w.calls ++ [.dirOpen path (some dir)]⟩ : FsWorld β H) :=
      Kept.opens h r.slot ⟨dir :: r.dirs.map FsDir.handle,r.file⟩ rfl (hdir ▸ rfl) (hdir ▸ rfl) ?_
    · rw [Function.update_idem] at hopened
      rw [← hdir]
      exact hopened
    · intro hafter
      have hfresh : dir ∉ r.dirs.map FsDir.handle := by
        intro hmem
        have hopened := ((h.holds.dirs dir).mp hmem).2.1
        exact Nat.ne_of_lt (Kept.numbered h _ hopened) (hdir ▸ rfl)
      have howner : dir.owner = r.slot := hdir ▸ rfl
      refine ⟨fun handle => ?_,fun handle => ?_,List.nodup_cons.mpr ⟨hfresh,h.holds.nodup⟩,?_⟩
      · rw [hafter, and_or_left, ← h.holds.dirs handle, List.mem_cons, or_comm]
        refine or_congr_right ⟨fun heq => ⟨heq ▸ howner,congrArg FsObject.dir heq⟩,fun hboth => ?_⟩
        exact FsObject.dir.inj hboth.2
      · rw [hafter, or_iff_left (by simp)]
        exact h.holds.file handle
      · rw [List.length_cons, List.length_map]
        exact hroom

/-! ## Operations -/

/-- A file is open while it is being read. -/
def FsReader.Ready (r : FsReader H) : Prop := r.phase = .fileData ↔ r.file ≠ none

theorem Keeps.closeDirs {dirs : List (FsDir H)} (h : Keeps t r w) (hdirs : r.dirs = dirs) :
    Keeps t { r with dirs := [] } (closeDirs P dirs w) := by
  induction dirs generalizing r w with
  | nil => exact h.congr rfl hdirs.symm rfl
  | cons dir dirs ih =>
    have hrest := ih (h.dirClose P hdirs) rfl
    exact hrest

theorem Keeps.close (h : Keeps t r w) : Keeps t (readerClose P r w).1 (readerClose P r w).2 := by
  unfold readerClose
  cases hfile : r.file with
  | none => exact (h.closeDirs P rfl).congr rfl rfl hfile.symm
  | some file =>
    have hclosed := h.fileClose P hfile
    exact (Keeps.closeDirs P hclosed rfl).congr rfl rfl rfl

theorem Keeps.openFile (h : Keeps t r w) (hnone : r.file = none) :
    Keeps t (openFile P r w).2.1 (openFile P r w).2.2 ∧ (openFile P r w).2.1.slot = r.slot ∧
      (openFile P r w).2.1.phase = r.phase ∧ ((openFile P r w).1 = none → (openFile P r w).2.1.file ≠ none) := by
  unfold Fs.openFile
  cases hopen : w.fileOpen P r.slot r.path with
  | mk result w' =>
    cases result with
    | error e => exact ⟨h.fileOpen_error P hopen,rfl,rfl,fun hok => nomatch hok⟩
    | ok opened =>
      obtain ⟨file,size⟩ := opened
      have hopened := h.fileOpen P hnone hopen
      dsimp only
      split
      · exact ⟨hopened,rfl,rfl,fun _ => Option.some_ne_none file⟩
      · exact ⟨hopened.congr rfl rfl rfl,rfl,rfl,fun _ => Option.some_ne_none file⟩

/-- A reader that is opened holds what it has opened; one that is not leaves nothing. -/
def Opens (t : ℕ → Holding H) (slot : ℕ) (out : Except FsError (FsReader H) × FsWorld β H) : Prop :=
  match out.1 with
  | .error _ => Kept t out.2
  | .ok r => r.slot = slot ∧ r.Ready ∧ Keeps t r out.2

theorem opens_readerOpen {slot : ℕ} (h : Kept t w) (hnone : t slot = Holding.empty H) (path : Path)
    (kind flags : UInt8) : Opens t slot (readerOpen P w slot path kind flags) := by
  -- a reader without handles
  have hempty : ∀ r : FsReader H, r.slot = slot → r.dirs = [] → r.file = none → ∀ w' : FsWorld β H,
      Keeps t r w' ↔ Kept t w' := by
    intro r hslot hdirs hfile w'
    have hholding : r.holding = Holding.empty H := by
      rw [FsReader.holding, hdirs, hfile]
      rfl
    rw [Keeps, hslot, hholding, ← hnone, Function.update_eq_self]
  have hclosed : ∀ (r : FsReader H) (w' : FsWorld β H), r.slot = slot → Keeps t r w' → Kept t (readerClose P r w').2 :=
    fun r w' hslot hr => (hempty (readerClose P r w').1 hslot rfl rfl _).mp (hr.close P)
  have hnew : ∀ (info : FsInfo) (w' : FsWorld β H), Kept t w' → Keeps t (newReader slot path info kind flags) w' :=
    fun info w' hw' => (hempty _ rfl rfl rfl w').mpr hw'
  unfold readerOpen
  split
  · exact h
  · split
    · exact h
    · split
      · exact h
      · have hstat : Kept t (w.stat P path).2 :=
          Kept.idle h (fun _ hx => nomatch hx) (fun _ hx => nomatch hx) fun _ hx => nomatch hx
        generalize w.stat P path = out at hstat ⊢
        obtain ⟨result,w₁⟩ := out
        cases result with
        | error e => exact hstat
        | ok info =>
          have hkeeps := hnew info w₁ hstat
          by_cases htype : info.type ≠ if kind = kindFile then entryFile else entryDir
          · dsimp only
            rw [if_pos htype]
            exact hstat
          · dsimp only
            rw [if_neg htype]
            by_cases hkind : kind = kindFile
            · have hphase : (newReader (H := H) slot path info kind flags).phase = .fileData := if_pos hkind
              have hopen := Keeps.openFile P hkeeps rfl
              rw [if_pos hkind]
              generalize openFile P (newReader slot path info kind flags) w₁ = out at hopen ⊢
              obtain ⟨error,r',w'⟩ := out
              obtain ⟨hkeeps',hslot,hphase',hfile⟩ := hopen
              cases error with
              | some e => exact hclosed r' w' hslot hkeeps'
              | none => exact ⟨hslot,⟨fun _ => hfile rfl,fun _ => hphase'.trans hphase⟩,hkeeps'⟩
            · have hphase : (newReader (H := H) slot path info kind flags).phase = .walk := if_neg hkind
              rw [if_neg hkind]
              cases hopen : w₁.dirOpen P slot path with
              | mk result w' =>
                cases result with
                | error e => exact hclosed _ w' rfl (hkeeps.dirOpen_error P hopen)
                | ok dir =>
                  have hopened := hkeeps.dirOpen P (by decide : 0 < maxDepth) hopen path.length
                  refine ⟨rfl,?_,hopened⟩
                  rw [FsReader.Ready, hphase]
                  exact ⟨fun hdata => (nomatch hdata),fun hfile => absurd rfl hfile⟩

/-- A part of the walk: the file is not touched. -/
structure Walks (t : ℕ → Holding H) (r r' : FsReader H) (w' : FsWorld β H) : Prop where
  keeps : Keeps t r' w'
  slot : r'.slot = r.slot
  phase : r'.phase = r.phase
  file : r'.file = r.file

theorem walks_enterEntry (h : Keeps t r w) (name : Path) :
    Walks t r (enterEntry P r name w).2.1 (enterEntry P r name w).2.2 := by
  unfold enterEntry
  dsimp only
  split
  · exact ⟨h,rfl,rfl,rfl⟩
  · split
    · exact ⟨h,rfl,rfl,rfl⟩
    · generalize (if r.path = [] ∨ r.path.getLast? = some slash then r.path else r.path ++ [slash]) = parent
      split
      · exact ⟨h,rfl,rfl,rfl⟩
      · have hnamed : Keeps t { r with path := parent ++ name } w := h.congr rfl rfl rfl
        split
        · split
          · exact ⟨hnamed,rfl,rfl,rfl⟩
          · rename_i hdepth
            cases hopen : w.dirOpen P r.slot (parent ++ name) with
            | mk result w' =>
              cases result with
              | error e => exact ⟨hnamed.dirOpen_error P hopen,rfl,rfl,rfl⟩
              | ok dir =>
                have hroom : r.dirs.length < maxDepth := Nat.lt_of_le_of_ne h.depth hdepth
                exact ⟨hnamed.dirOpen P hroom hopen (parent ++ name).length,rfl,rfl,rfl⟩
        · split
          · exact ⟨hnamed,rfl,rfl,rfl⟩
          · exact ⟨hnamed,rfl,rfl,rfl⟩

/-- What is left of the walk, by the directories still open. -/
theorem walks_nextEntry (dirs : List (FsDir H)) (h : Keeps t { r with dirs := dirs } w) :
    Walks t r (nextEntry P dirs r w).2.1 (nextEntry P dirs r w).2.2 := by
  induction dirs generalizing r w with
  | nil => exact ⟨h,rfl,rfl,rfl⟩
  | cons dir dirs ih =>
    unfold nextEntry
    have htop : Keeps t { r with path := r.path.take dir.pathLen, dirs := dir :: dirs } w := h.congr rfl rfl rfl
    have hread := htop.dirRead P rfl
    dsimp only
    generalize w.dirRead P dir.handle = out at hread ⊢
    obtain ⟨result,w₁⟩ := out
    cases result with
    | error e => exact ⟨hread,rfl,rfl,rfl⟩
    | ok entry =>
      obtain ⟨name,info⟩ := entry
      dsimp only at hread ⊢
      split
      · -- the end of the directory
        have hclosed := hread.dirClose P rfl
        have hrest := ih (r := { r with path := r.path.take dir.pathLen, dirs := dir :: dirs, info := info })
          (hclosed.congr rfl rfl rfl)
        exact ⟨hrest.keeps,hrest.slot,hrest.phase,hrest.file⟩
      · have hinfo : Keeps t { r with path := r.path.take dir.pathLen, dirs := dir :: dirs, info := info } w₁ :=
          hread.congr rfl rfl rfl
        have hentered := walks_enterEntry P hinfo name
        generalize enterEntry P { r with path := r.path.take dir.pathLen, dirs := dir :: dirs, info := info } name w₁
          = out at hentered ⊢
        obtain ⟨error,r',w'⟩ := out
        cases error with
        | some e => exact ⟨hentered.keeps,hentered.slot,hentered.phase,hentered.file⟩
        | none => exact ⟨hentered.keeps,hentered.slot,hentered.phase,hentered.file⟩

/-- An operation of the reader `r`, which is ready for the next one unless it has failed. -/
structure Keeping (t : ℕ → Holding H) (r : FsReader H) (error : Option FsError) (r' : FsReader H) (w' : FsWorld β H) :
    Prop where
  keeps : Keeps t r' w'
  slot : r'.slot = r.slot
  ready : error = none → r'.Ready

theorem keeping_stageEntry (h : Keeps t r w) (hnone : r.file = none) (hphase : r.phase = .walk) :
    Keeping t r (stageEntry P r w).1 (stageEntry P r w).2.1 (stageEntry P r w).2.2 := by
  have hready : r.Ready := by simp [FsReader.Ready, hnone, hphase]
  unfold stageEntry
  split
  · exact ⟨h.congr rfl rfl rfl,rfl,fun _ => hready⟩
  · generalize hout : (ite (r.info.type = entryFile) _ _ : Option FsError × FsReader H × FsWorld β H) = out
    have hopened : Keeping t r out.1 out.2.1 out.2.2 := by
      rw [← hout]
      split
      · have hopen := h.openFile P hnone
        generalize openFile P r w = out at hopen ⊢
        obtain ⟨error,r',w'⟩ := out
        obtain ⟨hkeeps,hslot,-,hfile⟩ := hopen
        cases error with
        | some e => exact ⟨hkeeps,hslot,fun hok => by cases hok⟩
        | none => exact ⟨hkeeps.congr rfl rfl rfl,hslot,fun _ => ⟨fun _ => hfile rfl,fun _ => rfl⟩⟩
      · exact ⟨h,rfl,fun _ => hready⟩
    obtain ⟨error,r',w'⟩ := out
    dsimp only at hopened ⊢
    cases error with
    | some e => exact ⟨hopened.keeps,hopened.slot,fun hok => by cases hok⟩
    | none =>
      dsimp only
      split
      · exact ⟨hopened.keeps,hopened.slot,fun hok => by cases hok⟩
      · exact ⟨hopened.keeps.congr rfl rfl rfl,hopened.slot,fun _ => hopened.ready rfl⟩

theorem keeping_finishFile (h : Keeps t r w) :
    Keeping t r (finishFile P r w).1 (finishFile P r w).2.1 (finishFile P r w).2.2 := by
  unfold finishFile
  have hstat := h.stat P r.path
  generalize w.stat P r.path = out at hstat ⊢
  obtain ⟨current,w₁⟩ := out
  dsimp only at hstat ⊢
  have hchecked : ∀ w₂ : FsWorld β H, Keeps t { r with file := none } w₂ → ∀ phase padding, phase ≠ .fileData →
      Keeping t r none { r with file := none, phase := phase, padding := padding } w₂ := by
    intro w₂ hclosed phase padding hphase
    exact ⟨hclosed.congr rfl rfl rfl,rfl,fun _ => ⟨fun hdata => absurd hdata hphase,fun hfile => absurd rfl hfile⟩⟩
  have hfailed : ∀ w₂ : FsWorld β H, Keeps t { r with file := none } w₂ → ∀ e,
      Keeping t r (some e) { r with file := none } w₂ := fun w₂ hclosed e => ⟨hclosed,rfl,fun hok => nomatch hok⟩
  cases hfile : r.file with
  | none =>
    have hclosed : Keeps t { r with file := none } w₁ := hstat.congr rfl rfl hfile.symm
    cases current with
    | error e => exact hfailed _ hclosed _
    | ok current =>
      dsimp only
      split
      · exact hfailed _ hclosed _
      · split
        · exact hchecked _ hclosed _ _ (by decide)
        · exact hchecked _ hclosed _ _ (by decide)
  | some file =>
    have hclosed := hstat.fileClose P hfile
    cases current with
    | error e => exact hfailed _ hclosed _
    | ok current =>
      dsimp only
      split
      · exact hfailed _ hclosed _
      · split
        · exact hchecked _ hclosed _ _ (by decide)
        · exact hchecked _ hclosed _ _ (by decide)

def Turn.error : Turn → Option FsError
  | .failed e => some e
  | _ => none

theorem Turn.error_of (error : Option FsError) : (Turn.of error).error = error := by
  cases error with
  | none => rfl
  | some e => rfl

theorem keeping_readTurn (h : Keeps t r w) (hready : r.Ready) (available : ℕ) :
    Keeping t r (readTurn P available r w).1.1.error (readTurn P available r w).2.1 (readTurn P available r w).2.2 := by
  unfold readTurn
  split
  · exact ⟨h.congr rfl rfl rfl,rfl,fun _ => hready⟩
  · cases hphase : r.phase with
    | fileData =>
      dsimp only
      split
      · have hfinished := keeping_finishFile P h
        generalize finishFile P r w = out at hfinished ⊢
        obtain ⟨error,r',w'⟩ := out
        dsimp only
        rw [Turn.error_of]
        exact hfinished
      · cases hfile : r.file with
        | none => exact ⟨h,rfl,fun hok => nomatch hok⟩
        | some file =>
          have hread := h.fileRead P hfile (min r.remaining available)
          dsimp only
          generalize w.fileRead P file (min r.remaining available) = out at hread ⊢
          obtain ⟨result,w'⟩ := out
          cases result with
          | error e => exact ⟨hread,rfl,fun hok => nomatch hok⟩
          | ok data =>
            dsimp only
            split
            · exact ⟨hread,rfl,fun hok => nomatch hok⟩
            · exact ⟨hread.congr rfl rfl hfile.symm,rfl,fun _ => ⟨fun _ => Option.some_ne_none file,fun _ => rfl⟩⟩
    | filePadding =>
      have hnone : r.file = none := by
        by_contra hfile
        cases hphase.symm.trans (hready.mpr hfile)
      dsimp only
      refine ⟨?_,?_,fun _ => ?_⟩
      · split
        · exact h.congr rfl rfl rfl
        · exact h.congr rfl rfl rfl
      · split
        · rfl
        · rfl
      · split
        · simp [FsReader.Ready, hnone]
        · simp [FsReader.Ready, hnone]
    | walk =>
      have hnone : r.file = none := by
        by_contra hfile
        cases hphase.symm.trans (hready.mpr hfile)
      have hwalk := walks_nextEntry P r.dirs (h.congr rfl rfl rfl)
      dsimp only
      generalize nextEntry P r.dirs r w = out at hwalk ⊢
      obtain ⟨result,r',w'⟩ := out
      have hnone' := hwalk.file.trans hnone
      have hphase' := hwalk.phase.trans hphase
      cases result with
      | error e => exact ⟨hwalk.keeps,hwalk.slot,fun hok => nomatch hok⟩
      | ok done =>
        cases done with
        | true =>
          refine ⟨hwalk.keeps.congr rfl rfl rfl,hwalk.slot,fun _ => ?_⟩
          exact ⟨fun hdata => (nomatch hdata),fun hfile => absurd hnone' hfile⟩
        | false =>
          have hstaged := keeping_stageEntry P hwalk.keeps hnone' hphase'
          dsimp only at hstaged ⊢
          rw [Turn.error_of]
          exact ⟨hstaged.keeps,hstaged.slot.trans hwalk.slot,hstaged.ready⟩
    | finished => exact ⟨h,rfl,fun _ => hready⟩

theorem keeping_readLoop (fuel available : ℕ) (h : Keeps t r w) (hready : r.Ready) :
    Keeping t r (readLoop P fuel available r w).1.1 (readLoop P fuel available r w).2.1
      (readLoop P fuel available r w).2.2 := by
  induction fuel generalizing available r w with
  | zero => exact ⟨h,rfl,fun _ => hready⟩
  | succ fuel ih =>
    unfold readLoop
    split
    · exact ⟨h,rfl,fun _ => hready⟩
    · have hturn := keeping_readTurn P h hready available
      generalize readTurn P available r w = out at hturn ⊢
      obtain ⟨⟨turn,data⟩,r',w'⟩ := out
      cases turn with
      | stop => exact hturn
      | failed e => exact hturn
      | again =>
        have hrest := ih (available - data.length) hturn.keeps (hturn.ready rfl)
        exact ⟨hrest.keeps,hrest.slot.trans hturn.slot,hrest.ready⟩

theorem keeping_finishBlock (h : Keeps t r w) (hready : r.Ready) :
    Keeping t r (finishBlock P r w).1 (finishBlock P r w).2.1 (finishBlock P r w).2.2 := by
  unfold finishBlock
  split
  · exact keeping_finishFile P h
  · exact ⟨h,rfl,fun _ => hready⟩

/-- Reading a block: a reader that fails is closed. -/
theorem keeps_readerRead (h : Keeps t r w) (hready : r.Ready) (capacity : ℕ) :
    Keeps t (readerRead P r w capacity).2.1 (readerRead P r w capacity).2.2 ∧
      (readerRead P r w capacity).2.1.slot = r.slot ∧ (readerRead P r w capacity).2.1.Ready := by
  unfold readerRead
  split
  · exact ⟨h,rfl,hready⟩
  · have hloop := keeping_readLoop P (readFuel capacity) capacity h hready
    generalize readLoop P (readFuel capacity) capacity r w = out at hloop ⊢
    obtain ⟨⟨error,data⟩,r₁,w₁⟩ := out
    dsimp only at hloop ⊢
    have hend : Keeping t r (if error = none then finishBlock P r₁ w₁ else (error,r₁,w₁)).1
        (if error = none then finishBlock P r₁ w₁ else (error,r₁,w₁)).2.1
        (if error = none then finishBlock P r₁ w₁ else (error,r₁,w₁)).2.2 := by
      split
      · have hfinished := keeping_finishBlock P hloop.keeps (hloop.ready ‹_›)
        exact ⟨hfinished.keeps,hfinished.slot.trans hloop.slot,hfinished.ready⟩
      · exact hloop
    generalize (if error = none then finishBlock P r₁ w₁ else (error,r₁,w₁)) = out at hend ⊢
    obtain ⟨error',r',w'⟩ := out
    cases error' with
    | some e =>
      refine ⟨hend.keeps.close P,hend.slot,?_⟩
      exact ⟨fun hdata => (nomatch hdata),fun hfile => absurd rfl hfile⟩
    | none => exact ⟨hend.keeps,hend.slot,hend.ready rfl⟩

end

end Bvstk.Fs
