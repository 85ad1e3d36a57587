import Bvstk.Library.Machine
import Bvstk.Sd.ServiceEffect

/-! # Writes to the card are safe

Whatever the driver and the lock answer, over any run of operations: a write that succeeds was sent
once and read back, an abort keeps commands away from the card until it is initialised again, and
a card that the file system has claimed is out of reach for raw operations.
-/
namespace Bvstk.Sd
open CallLog

/-! ## What is asked for -/

/-- The card is told to move data or to tell its status. -/
def dataOrStatus : SdCall → Bool
  | .init .. => false
  | .command command .. => command == 13 || command == 17 || command == 24

/-- Operations that initialise the card. -/
def SdOp.initializes : SdOp → Bool
  | .init _ => true
  | .diskClaim => true
  | _ => false

/-- Operations of the console. -/
def SdOp.raw : SdOp → Bool
  | .diskClaim => false
  | .diskRead _ => false
  | .diskWrite .. => false
  | _ => true

section
variable {ε : Type} (P : SdPlatform ε)

/-- Between the two worlds no data and no status were asked for. -/
def Quiet (w w' : SdWorld ε) : Prop := ∃ new, asked w' = asked w ++ new ∧ ∀ c ∈ new, dataOrStatus c = false

/-- No initialization of the run succeeds. -/
def NotInitialized (w : SdWorld ε) (ops : List SdOp) : Prop :=
  ∀ pre op, pre ++ [op] <+: ops → op.initializes = true → (SdWorld.step P (Machine.final (SdWorld.step P) w pre) op).2.status ≠ .ok

/-- A sector was sent to its address once, and the same was read from there. -/
def WrittenOnce (w w' : SdWorld ε) (lba : UInt32) (block : Sector) : Prop :=
  ∃ first second ocr argument read, asked w' = asked w ++ first ++ [.command 24 argument (some block) .ok read] ++
      second ++ [.command 17 argument none .ok block] ∧
    (∀ c ∈ first ++ second, (initResult c).isSome = true) ∧
    lastInit (asked w ++ first) = some (.ok,ocr) ∧ cardAddress ocr lba = some argument

/-- What holds of a state that is reached. -/
structure WriteSafe (w : SdWorld ε) : Prop where
  written : ∀ op lba block, op = .writeVerify lba block ∨ op = .diskWrite lba block → (w.step P op).2.status = .ok →
    WrittenOnce w (w.step P op).1 lba block
  aborts : ∀ op, (P.lock w.env).1 = .ok → aborted (w.step P op).2.status = true →
    (w.step P op).1.state.ready = false ∧ ∀ ops op', NotInitialized P (w.step P op).1 ops →
      Quiet (Machine.final (SdWorld.step P) (w.step P op).1 ops)
        (SdWorld.step P (Machine.final (SdWorld.step P) (w.step P op).1 ops) op').1
  claims : (P.lock w.env).1 = .ok → (w.step P .diskClaim).1.state.filesystemOwned = true
  claimed : w.state.filesystemOwned = true → ∀ ops op, op.raw = true →
    asked (SdWorld.step P (Machine.final (SdWorld.step P) w ops) op).1 = asked (Machine.final (SdWorld.step P) w ops)

end

section
variable {ε : Type} {P : SdPlatform ε} {w w' : SdWorld ε} {r : SdResult}

/-! ## Operations that do not get the card -/

theorem begin_refused (P : SdPlatform ε) (requireReady filesystem : Bool) (w : SdWorld ε)
    (h : w.state.filesystemOwned ≠ filesystem ∨ requireReady = true ∧ w.state.ready = false) :
    ∃ r, begin P requireReady filesystem w = (some r,{ w with env := (P.lock w.env).2 }) := by
  unfold begin
  dsimp only
  split
  · exact ⟨_,rfl⟩
  split
  · exact ⟨_,rfl⟩
  rename_i howner
  rw [if_pos (h.resolve_left howner)]
  exact ⟨_,rfl⟩

theorem quiet_of_asked (h : asked w' = asked w) : Quiet w w' := ⟨[],by simp [h],by simp⟩

/-- An operation that needs the card to be ready, or to be its own. -/
theorem step_refused {op : SdOp}
    (h : w.state.filesystemOwned = true ∧ op.raw = true ∨ w.state.ready = false ∧ op.initializes = false) :
    (w.step P op).1 = { w with env := (P.lock w.env).2 } := by
  have hraw : w.state.filesystemOwned ≠ false ∨ true = true ∧ w.state.ready = false :=
    h.imp (fun h => by simpa using h.1) fun h => ⟨rfl,h.1⟩
  cases op with
  | init timeoutMs =>
    have howned : w.state.filesystemOwned = true := h.elim And.left fun h => by cases h.2
    obtain ⟨r,hr⟩ := begin_refused P false false w (Or.inl (by simp [howned]))
    simp only [SdWorld.step, serviceInitialize, hr]
  | diskClaim => exact h.elim (fun h => by cases h.2) fun h => by cases h.2
  | read lba =>
    obtain ⟨r,hr⟩ := begin_refused P true false w hraw
    simp only [SdWorld.step, readBlock, hr]
  | writeVerify lba block =>
    obtain ⟨r,hr⟩ := begin_refused P true false w hraw
    simp only [SdWorld.step, writeBlock, hr]
  | diskRead lba =>
    obtain ⟨r,hr⟩ := begin_refused P true true w (Or.inr ⟨rfl,h.elim (fun h => by cases h.2) And.left⟩)
    simp only [SdWorld.step, readBlock, hr]
  | diskWrite lba block =>
    obtain ⟨r,hr⟩ := begin_refused P true true w (Or.inr ⟨rfl,h.elim (fun h => by cases h.2) And.left⟩)
    simp only [SdWorld.step, writeBlock, hr]
  | cardStatus =>
    obtain ⟨r,hr⟩ := begin_refused P true false w hraw
    simp only [SdWorld.step, simpleCommand, hr]
  | blockLength =>
    obtain ⟨r,hr⟩ := begin_refused P true false w hraw
    simp only [SdWorld.step, simpleCommand, hr]
  | test lba count seed =>
    obtain ⟨r,hr⟩ := begin_refused P true false w hraw
    simp only [SdWorld.step, serviceTest, hr]

/-! ## Initializations -/

theorem quiet_init (w : SdWorld ε) (timeoutMs : UInt32) : Quiet w (masterInitialize P w timeoutMs).2 :=
  ⟨[.init timeoutMs (P.init w.env timeoutMs).1.1 (P.init w.env timeoutMs).1.2.ocr],by simp [asked, masterInitialize, World.call],
    by simp [dataOrStatus]⟩

theorem Quiet.trans {w'' : SdWorld ε} (h : Quiet w w') (h' : Quiet w' w'') : Quiet w w'' := by
  obtain ⟨new,hnew,hquiet⟩ := h
  obtain ⟨new',hnew',hquiet'⟩ := h'
  refine ⟨new ++ new',by rw [hnew', hnew, List.append_assoc],fun c hc => ?_⟩
  exact (List.mem_append.mp hc).elim (hquiet c) (hquiet' c)

/-- An initialization asks for no data and no status, and gets a card ready only by succeeding. -/
theorem initializeLocked_quiet (timeoutMs : UInt32) (r : SdResult) (h : w.state.ready = false) :
    Quiet w (initializeLocked P timeoutMs r w).2 ∧
      ((initializeLocked P timeoutMs r w).2.state.ready = true → (initializeLocked P timeoutMs r w).1.status = .ok) := by
  unfold initializeLocked
  split
  · refine ⟨quiet_of_asked rfl,fun hready => ?_⟩
    rw [(finish_ready _ _ _ hready).2] at h
    cases h
  dsimp only
  have hinit : Quiet w (masterInitialize P (w.modify fun s =>
      { s with ready := false, ocr := 0, blockAddressed := false, commandSinceInit := false }) timeoutMs).2 :=
    quiet_init (w.modify _) timeoutMs
  split
  · exact ⟨hinit,fun hready => absurd (finish_ready _ _ _ hready).2 (by simp [masterInitialize])⟩
  split
  · exact ⟨hinit,fun _ => rfl⟩
  split
  · exact ⟨hinit,fun hready => absurd (finish_ready _ _ _ hready).2 (by simp [masterInitialize])⟩
  · refine ⟨hinit.trans ⟨[_],asked_command _ 16 512 none,?_⟩,fun hready => ?_⟩
    · simp [dataOrStatus]
    · exact beq_iff_eq.mp (finish_ready _ _ _ hready).2

theorem step_quiet {op : SdOp} (h : w.state.ready = false) :
    Quiet w (w.step P op).1 ∧
      ((w.step P op).1.state.ready = true → op.initializes = true ∧ (w.step P op).2.status = .ok) := by
  by_cases hop : op.initializes = false
  · rw [step_refused (Or.inr ⟨h,hop⟩)]
    refine ⟨quiet_of_asked rfl,fun hready => ?_⟩
    rw [show w.state.ready = true from hready] at h
    cases h
  rw [Bool.not_eq_false] at hop
  cases op with
  | init timeoutMs =>
    change Quiet w (serviceInitialize P timeoutMs w).2 ∧ ((serviceInitialize P timeoutMs w).2.state.ready = true → _ ∧
      (serviceInitialize P timeoutMs w).1.status = .ok)
    unfold serviceInitialize
    split
    · rename_i r w' hbegin
      obtain ⟨rfl,-⟩ := begin_some hbegin
      refine ⟨quiet_of_asked rfl,fun hready => ?_⟩
      rw [show w.state.ready = true from hready] at h
      cases h
    · rename_i w' hbegin
      obtain ⟨-,rfl,-⟩ := begin_none hbegin
      obtain ⟨hquiet,hok⟩ := initializeLocked_quiet (P := P) (w := { w with env := (P.lock w.env).2 }) timeoutMs SdResult.start h
      exact ⟨(quiet_of_asked rfl).trans hquiet,fun hready => ⟨rfl,hok hready⟩⟩
  | diskClaim =>
    change Quiet w (serviceDiskClaim P w).2 ∧ ((serviceDiskClaim P w).2.state.ready = true → _ ∧
      (serviceDiskClaim P w).1.status = .ok)
    unfold serviceDiskClaim
    split
    · rename_i r w' hbegin
      obtain ⟨rfl,-⟩ := begin_some hbegin
      refine ⟨quiet_of_asked rfl,fun hready => ?_⟩
      rw [show w.state.ready = true from hready] at h
      cases h
    · rename_i w' hbegin
      obtain ⟨-,rfl,-⟩ := begin_none hbegin
      obtain ⟨hquiet,hok⟩ := initializeLocked_quiet (P := P) (w := World.modify { w with env := (P.lock w.env).2 } fun s =>
        { s with filesystemOwned := true }) 20000 SdResult.start h
      exact ⟨(quiet_of_asked rfl).trans hquiet,fun hready => ⟨rfl,hok hready⟩⟩
  | _ => cases hop

/-- A card that is not ready stays so while no initialization succeeds. -/
theorem final_idle (h : w.state.ready = false) {ops : List SdOp} (hops : NotInitialized P w ops) :
    (Machine.final (SdWorld.step P) w ops).state.ready = false := by
  have hstep : ∀ (w : SdWorld ε) (op : SdOp), w.state.ready = false →
      (op.initializes = true → (w.step P op).2.status ≠ .ok) → (w.step P op).1.state.ready = false := by
    intro w op hw hfits
    refine Bool.eq_false_iff.mpr fun hready => ?_
    obtain ⟨hop,hok⟩ := (step_quiet (P := P) hw).2 hready
    exact hfits hop hok
  exact Machine.final_of_fits hstep h fun pre op hpre => hops pre op hpre

/-! ## Writes -/

/-- A comparison that finds nothing. -/
theorem compare_ok {expected received : Sector} (h : (compare expected received r).1 = .ok) : expected = received := by
  unfold compare at h
  split at h
  · rename_i hnone
    rw [List.find?_eq_none] at hnone
    refine Vector.ext fun i hi => ?_
    have hsame := hnone ⟨i,hi⟩ (List.mem_finRange _)
    simpa using hsame
  · cases h

theorem address_card (hw : Known w) (lba : UInt32) : address w.state lba = cardAddress w.state.ocr lba := by
  unfold address cardAddress
  rw [hw.addressed]

theorem asked_finish (r : SdResult) (status : Status) (w : SdWorld ε) : asked (finish r status w).2 = asked w := rfl

theorem readBack_ok {lba : UInt32} {block : Sector} (h : (readBack P lba block r w).1.status = .ok) :
    ∃ inits argument, address w.state lba = some argument ∧ (∀ c ∈ inits, (initResult c).isSome = true) ∧
      asked (readBack P lba block r w).2 = asked w ++ inits ++ [.command 17 argument none .ok block] := by
  unfold readBack at h ⊢
  dsimp only at h ⊢
  split at h
  · rename_i hbad
    exact absurd h hbad
  rename_i hok
  rw [not_ne_iff] at hok
  rw [if_neg (not_ne_iff.mpr hok)]
  obtain ⟨inits,argument,hargument,hinits,hasked,-⟩ := transfer_ok hok
  simp only [finish] at h
  refine ⟨inits,argument,hargument,hinits,?_⟩
  rw [asked_finish, hasked, ← compare_ok h]
  rfl

theorem writeBlock_ok {lba : UInt32} {block : Sector} {filesystem : Bool} (hw : w.state.ready = true → Known w)
    (h : (writeBlock P lba block filesystem w).1.status = .ok) : WrittenOnce w (writeBlock P lba block filesystem w).2 lba block := by
  unfold writeBlock at h ⊢
  split
  · rename_i r w' hbegin
    rw [hbegin] at h
    exact absurd h (begin_some hbegin).2.2
  rename_i w' hbegin
  rw [hbegin] at h
  obtain ⟨-,rfl,-,hready⟩ := begin_none hbegin
  have hknown : Known { w with env := (P.lock w.env).2 } := ⟨(hw (hready rfl)).addressed,(hw (hready rfl)).last⟩
  dsimp only at h ⊢
  split at h
  · rename_i hbad
    exact absurd h hbad
  rename_i hok
  rw [not_ne_iff] at hok
  rw [if_neg (not_ne_iff.mpr hok)]
  obtain ⟨first,argument,hargument,hfirst,hwrite,hlast⟩ := transfer_ok hok
  obtain ⟨second,argument',hargument',hsecond,hread⟩ := readBack_ok h
  obtain ⟨hkept,hafter⟩ := transfer_effect (P := P) lba (some block) SdResult.start { w with env := (P.lock w.env).2 }
  rw [address_card (hafter hknown), hkept.ocr] at hargument'
  rw [address_card hknown] at hargument
  obtain rfl : argument = argument' := Option.some.inj (hargument.symm.trans hargument')
  refine ⟨first,second,w.state.ocr,argument,
    (transfer P lba (some block) SdResult.start { w with env := (P.lock w.env).2 }).1.2.1,?_,?_,hlast hknown,hargument⟩
  · rw [hread, hwrite]
    rfl
  · intro c hc
    exact (List.mem_append.mp hc).elim (hfirst c) (hsecond c)

/-! ## Runs -/

/-- In every state that is reached, a card that is ready is known. -/
theorem final_known (reinitializeBetweenCommands : Bool) (env : ε) (ops : List SdOp) :
    (Machine.final (SdWorld.step P) ⟨SdState.attach reinitializeBetweenCommands,env,[]⟩ ops).state.ready = true →
      Known (Machine.final (SdWorld.step P) ⟨SdState.attach reinitializeBetweenCommands,env,[]⟩ ops) := by
  have hstep : ∀ (w : SdWorld ε) (op : SdOp), (w.state.ready = true → Known w) → (w.step P op).1.state.ready = true →
      Known (w.step P op).1 := fun w op hw => (step_effect w op).known hw
  refine Machine.final_invariant hstep ?_ ops
  intro hready
  cases hready

theorem final_owned (h : w.state.filesystemOwned = true) (ops : List SdOp) :
    (Machine.final (SdWorld.step P) w ops).state.filesystemOwned = true := by
  have hstep : ∀ (w : SdWorld ε) (op : SdOp), w.state.filesystemOwned = true → (w.step P op).1.state.filesystemOwned = true :=
    fun w op hw => (step_effect w op).owned hw
  exact Machine.final_invariant hstep h ops

theorem initializeLocked_owned (timeoutMs : UInt32) (r : SdResult) (h : w.state.filesystemOwned = true) :
    (initializeLocked P timeoutMs r w).2.state.filesystemOwned = true := (initializeLocked_ends timeoutMs r w).owned h

/-- The only thing that keeps a claim from the card is that it is claimed. -/
theorem begin_claimed (hlock : (P.lock w.env).1 = .ok) (h : begin P false false w = (some r,w')) :
    w'.state.filesystemOwned = true := by
  obtain ⟨rfl,-⟩ := begin_some h
  unfold begin at h
  dsimp only at h
  rw [if_neg (not_ne_iff.mpr hlock)] at h
  split at h
  · rename_i howner
    exact (Bool.not_eq_false _).mp howner
  · simp at h

theorem diskClaim_claims (hlock : (P.lock w.env).1 = .ok) : (serviceDiskClaim P w).2.state.filesystemOwned = true := by
  unfold serviceDiskClaim
  split
  · rename_i r w' hbegin
    exact begin_claimed hlock hbegin
  · exact initializeLocked_owned _ _ rfl

/-- Writes to the card are safe in every state that a run reaches. -/
theorem sd_write_safe (P : SdPlatform ε) (reinitializeBetweenCommands : Bool) (env : ε) (ops : List SdOp) :
    WriteSafe P (Machine.final (SdWorld.step P) ⟨SdState.attach reinitializeBetweenCommands,env,[]⟩ ops) where
  written op lba block hop hok := by
    have hknown := final_known (P := P) reinitializeBetweenCommands env ops
    rcases hop with rfl | rfl
    · exact writeBlock_ok hknown hok
    · exact writeBlock_ok hknown hok
  aborts op hlock habort := by
    have hidle := (step_effect _ op).aborts hlock habort
    exact ⟨hidle,fun ops op' hops => (step_quiet (final_idle hidle hops)).1⟩
  claims := diskClaim_claims
  claimed howned ops op hraw := by
    rw [step_refused (Or.inl ⟨final_owned howned ops,hraw⟩)]
    rfl

end

end Bvstk.Sd
