import Bvstk.Sd.Service

/-! # What the SD service does to the card

Every operation starts with a look at the lock, the owner and the card, and ends by taking over
its status. In between there are transfers, each after a preparation.
-/
namespace Bvstk.Sd
open CallLog

section
variable {ε : Type} {P : SdPlatform ε} {r : SdResult} {w w' : SdWorld ε}

/-! ## What was asked -/

/-- What the driver was asked for so far. -/
def asked (w : SdWorld ε) : List SdCall := w.calls.map (·.2)

def initResult : SdCall → Option (Status × UInt32)
  | .init _ status ocr => some (status,ocr)
  | .command .. => none

/-- The answer to the last initialization. -/
def lastInit (calls : List SdCall) : Option (Status × UInt32) := (calls.filterMap initResult).getLast?

@[simp] theorem lastInit_init (calls : List SdCall) (timeoutMs : UInt32) (status : Status) (ocr : UInt32) :
    lastInit (calls ++ [.init timeoutMs status ocr]) = some (status,ocr) := by
  simp [lastInit, initResult]

@[simp] theorem lastInit_command (calls : List SdCall) (command : UInt8) (argument : UInt32) (write : Option Sector)
    (status : Status) (read : Sector) : lastInit (calls ++ [.command command argument write status read]) = lastInit calls := by
  simp [lastInit, initResult]

/-- The card says that it is addressed by blocks. -/
def ocrBlocks (ocr : UInt32) : Bool := ocr &&& 0x40000000 != 0

/-- The address of a block, as the card wants it. -/
def cardAddress (ocr lba : UInt32) : Option UInt32 :=
  if ocrBlocks ocr = false ∧ 0xFFFFFFFF / 512 < lba then none else some (if ocrBlocks ocr then lba else lba * 512)

/-- What the service has to know before it sends a command: how the card wants its addresses,
from the last initialization. -/
structure Known (w : SdWorld ε) : Prop where
  addressed : w.state.blockAddressed = ocrBlocks w.state.ocr
  last : w.state.reinitializeBetweenCommands = false ∨ w.state.commandSinceInit = false →
    lastInit (asked w) = some (.ok,w.state.ocr)

/-- What transfers leave as it is. -/
structure Kept (s s' : SdState) : Prop where
  ready : s'.ready = s.ready
  blockAddressed : s'.blockAddressed = s.blockAddressed
  filesystemOwned : s'.filesystemOwned = s.filesystemOwned
  ocr : s'.ocr = s.ocr
  reinitialize : s'.reinitializeBetweenCommands = s.reinitializeBetweenCommands

theorem kept_refl (s : SdState) : Kept s s := ⟨rfl,rfl,rfl,rfl,rfl⟩

theorem Kept.trans {s s' s'' : SdState} (h : Kept s s') (h' : Kept s' s'') : Kept s s'' :=
  ⟨h'.ready.trans h.ready,h'.blockAddressed.trans h.blockAddressed,h'.filesystemOwned.trans h.filesystemOwned,
    h'.ocr.trans h.ocr,h'.reinitialize.trans h.reinitialize⟩

/-! ## Preparation -/

/-- A preparation asks for an initialization at most. -/
theorem prepareCommand_effect (r : SdResult) (w : SdWorld ε) :
    Kept w.state (prepareCommand P r w).2.state ∧
    (∃ inits, asked (prepareCommand P r w).2 = asked w ++ inits ∧ ∀ c ∈ inits, (initResult c).isSome = true) ∧
    (Known w → Known (prepareCommand P r w).2) ∧
    ((prepareCommand P r w).1.1 = .ok → (prepareCommand P r w).2.state.reinitializeBetweenCommands = false ∨
      (prepareCommand P r w).2.state.commandSinceInit = false) := by
  unfold prepareCommand
  split
  · rename_i hskip
    exact ⟨kept_refl _,⟨[],by simp,by simp⟩,id,fun _ => hskip⟩
  rename_i hneed
  rw [not_or, Bool.not_eq_false, Bool.not_eq_false] at hneed
  have hcalls : ∀ status ocr, asked (World.call { w with env := (P.init w.env 20000).2 } (.init 20000 status ocr)) =
      asked w ++ [.init 20000 status ocr] := fun status ocr => by simp [asked, World.call]
  dsimp only [masterInitialize]
  split
  · rename_i hbad
    refine ⟨kept_refl _,⟨_,hcalls _ _,by simp [initResult]⟩,fun h => ⟨h.addressed,fun hidle => ?_⟩,fun hok => absurd hok hbad⟩
    exact absurd hidle (by simp [hneed])
  rename_i hok
  rw [not_ne_iff] at hok
  split
  · refine ⟨kept_refl _,⟨_,hcalls _ _,by simp [initResult]⟩,fun h => ⟨h.addressed,fun hidle => ?_⟩,fun hok => by cases hok⟩
    exact absurd hidle (by simp [hneed])
  · rename_i hsame
    rw [not_ne_iff] at hsame
    refine ⟨⟨rfl,rfl,rfl,rfl,rfl⟩,⟨_,hcalls _ _,by simp [initResult]⟩,fun h => ⟨h.addressed,fun _ => ?_⟩,fun _ => Or.inr rfl⟩
    change lastInit (asked (World.call { w with env := (P.init w.env 20000).2 } _)) = some (.ok,w.state.ocr)
    rw [hcalls, lastInit_init, hok]
    exact congrArg (fun ocr => some (Status.ok,ocr)) hsame

/-! ## Transfers -/

theorem asked_command (w : SdWorld ε) (command : UInt8) (argument : UInt32) (write : Option Sector) :
    asked (masterCommand P w command argument write).2 =
      asked w ++ [.command command argument write (masterCommand P w command argument write).1.1
        (masterCommand P w command argument write).1.2.2] := by
  simp [asked, masterCommand, World.call]

/-- A command is no initialization. -/
theorem known_command (h : Known w) (hidle : lastInit (asked w) = some (.ok,w.state.ocr)) (command : UInt8) (argument : UInt32)
    (write : Option Sector) :
    Known (masterCommand P (w.modify fun s => { s with commandSinceInit := true }) command argument write).2 := by
  refine ⟨h.addressed,fun _ => ?_⟩
  rw [asked_command, lastInit_command]
  exact hidle

theorem transfer_effect (lba : UInt32) (write : Option Sector) (r : SdResult) (w : SdWorld ε) :
    Kept w.state (transfer P lba write r w).2.state ∧ (Known w → Known (transfer P lba write r w).2) := by
  unfold transfer
  dsimp only
  split
  · exact ⟨kept_refl _,id⟩
  obtain ⟨hkept,-,hknown,hready⟩ := prepareCommand_effect (P := P) { r with lba := lba } w
  split
  · rename_i r' w' hprepare
    rw [hprepare] at hkept hknown hready
    exact ⟨hkept.trans ⟨rfl,rfl,rfl,rfl,rfl⟩,fun h => known_command (hknown h) ((hknown h).last (hready rfl)) _ _ _⟩
  · rename_i status r' w' _ hprepare
    rw [hprepare] at hkept hknown
    exact ⟨hkept,hknown⟩

/-- A transfer that goes well is one command, after a preparation at most. -/
theorem transfer_ok {lba : UInt32} {write : Option Sector} (hok : (transfer P lba write r w).1.1 = .ok) :
    ∃ inits argument, address w.state lba = some argument ∧ (∀ c ∈ inits, (initResult c).isSome = true) ∧
      asked (transfer P lba write r w).2 = asked w ++ inits ++
        [.command (if write.isSome then 24 else 17) argument write .ok (transfer P lba write r w).1.2.1] ∧
      (Known w → lastInit (asked w ++ inits) = some (.ok,w.state.ocr)) := by
  revert hok
  unfold transfer
  dsimp only
  split
  · intro hok
    cases hok
  rename_i argument hargument
  obtain ⟨hkept,⟨inits,hinits,honly⟩,hknown,hready⟩ := prepareCommand_effect (P := P) { r with lba := lba } w
  split
  · rename_i r' w' hprepare
    rw [hprepare] at hkept hinits hknown hready
    intro hok
    refine ⟨inits,argument,hargument,honly,?_,fun h => ?_⟩
    · dsimp only at hinits hok
      rw [asked_command, hok, ← hinits]
      rfl
    · dsimp only at hinits
      rw [← hinits, ← hkept.ocr]
      exact (hknown h).last (hready rfl)
  · rename_i status r' w' hbad hprepare
    intro hok
    exact absurd hok hbad

/-! ## Starts and ends -/

theorem begin_none {requireReady filesystem : Bool} (h : begin P requireReady filesystem w = (none,w')) :
    (P.lock w.env).1 = .ok ∧ w' = { w with env := (P.lock w.env).2 } ∧ w.state.filesystemOwned = filesystem ∧
      (requireReady = true → w.state.ready = true) := by
  unfold begin at h
  dsimp only at h
  split at h
  · cases h
  rename_i hlock
  split at h
  · cases h
  rename_i howner
  split at h
  · cases h
  rename_i hready
  rw [not_ne_iff] at hlock howner
  refine ⟨hlock,(Prod.mk.inj h).2.symm,howner,fun hrequired => ?_⟩
  rw [not_and, Bool.not_eq_false] at hready
  exact hready hrequired

theorem begin_some {requireReady filesystem : Bool} (h : begin P requireReady filesystem w = (some r,w')) :
    w' = { w with env := (P.lock w.env).2 } ∧ ((P.lock w.env).1 = .ok → aborted r.status = false) ∧ r.status ≠ .ok := by
  unfold begin at h
  dsimp only at h
  split at h
  · rename_i hlock
    obtain ⟨hr,rfl⟩ := Prod.mk.inj h
    cases hr
    exact ⟨rfl,fun hok => absurd hok hlock,hlock⟩
  split at h
  · obtain ⟨hr,rfl⟩ := Prod.mk.inj h
    cases hr
    exact ⟨rfl,fun _ => rfl,by simp [SdResult.stage]⟩
  split at h
  · obtain ⟨hr,rfl⟩ := Prod.mk.inj h
    cases hr
    exact ⟨rfl,fun _ => rfl,by simp [SdResult.start]⟩
  · cases h

/-- What an operation does once it has the card. -/
structure Ends (w : SdWorld ε) (out : SdResult × SdWorld ε) : Prop where
  aborts : aborted out.1.status = true → out.2.state.ready = false
  known : (w.state.ready = true → Known w) → out.2.state.ready = true → Known out.2
  owned : w.state.filesystemOwned = true → out.2.state.filesystemOwned = true

theorem finish_ready (r : SdResult) (status : Status) (w : SdWorld ε) : (finish r status w).2.state.ready = true →
    aborted status = false ∧ w.state.ready = true := by
  change (if aborted status = true then false else w.state.ready) = true → _
  split
  · intro h
    cases h
  · rename_i hnot
    exact fun h => ⟨Bool.eq_false_iff.mpr hnot,h⟩

theorem finish_aborts (r : SdResult) (status : Status) (w : SdWorld ε) (h : aborted (finish r status w).1.status = true) :
    (finish r status w).2.state.ready = false := by
  refine Bool.eq_false_iff.mpr fun hready => ?_
  exact Bool.eq_false_iff.mp (finish_ready r status w hready).1 h

theorem finish_known {status : Status} (h : Known w) : Known (finish r status w).2 := ⟨h.addressed,h.last⟩

/-- The end of an operation made of transfers. -/
theorem finish_ends {status : Status} (hkept : Kept w.state w'.state) (hknown : Known w → Known w') : Ends w (finish r status w') where
  aborts := finish_aborts r status w'
  known h hready := finish_known (hknown (h (hkept.ready.symm.trans (finish_ready r status w' hready).2)))
  owned h := hkept.filesystemOwned.trans h

/-- An operation as a whole: it may not get the card. -/
structure Effect (P : SdPlatform ε) (w : SdWorld ε) (out : SdResult × SdWorld ε) : Prop where
  aborts : (P.lock w.env).1 = .ok → aborted out.1.status = true → out.2.state.ready = false
  known : (w.state.ready = true → Known w) → out.2.state.ready = true → Known out.2
  owned : w.state.filesystemOwned = true → out.2.state.filesystemOwned = true

/-- An operation that does not get the card. -/
theorem effect_of_begin {requireReady filesystem : Bool} (h : begin P requireReady filesystem w = (some r,w')) : Effect P w (r,w') := by
  obtain ⟨rfl,hstatus,-⟩ := begin_some h
  refine ⟨fun hlock habort => ?_,fun hknown hready => ?_,id⟩
  · exact absurd habort (Bool.eq_false_iff.mp (hstatus hlock))
  · obtain ⟨haddressed,hlast⟩ := hknown hready
    exact ⟨haddressed,hlast⟩

/-- One that gets it. -/
theorem effect_of_ends {requireReady filesystem : Bool} {out : SdResult × SdWorld ε}
    (h : begin P requireReady filesystem w = (none,w')) (hends : Ends w' out) : Effect P w out := by
  obtain ⟨-,rfl,-⟩ := begin_none h
  refine ⟨fun _ => hends.aborts,fun hknown => hends.known fun hready => ?_,hends.owned⟩
  obtain ⟨haddressed,hlast⟩ := hknown hready
  exact ⟨haddressed,hlast⟩

/-! ## Operations -/

theorem initializeLocked_ends (timeoutMs : UInt32) (r : SdResult) (w : SdWorld ε) : Ends w (initializeLocked P timeoutMs r w) := by
  unfold initializeLocked
  split
  · exact finish_ends (kept_refl _) id
  dsimp only
  split
  · exact ⟨finish_aborts _ _ _,fun _ hready => absurd (finish_ready _ _ _ hready).2 (by simp [masterInitialize]),id⟩
  rename_i hok
  rw [not_ne_iff] at hok
  have hinit : lastInit (asked (masterInitialize P (w.modify fun s =>
      { s with ready := false, ocr := 0, blockAddressed := false, commandSinceInit := false }) timeoutMs).2) =
        some (.ok,(masterInitialize P (w.modify fun s =>
          { s with ready := false, ocr := 0, blockAddressed := false, commandSinceInit := false }) timeoutMs).1.2.ocr) := by
    rw [← hok]
    simp [asked, masterInitialize, World.call]
  split
  · exact ⟨finish_aborts _ _ _,fun _ _ => finish_known ⟨rfl,fun _ => hinit⟩,id⟩
  split
  · exact ⟨finish_aborts _ _ _,fun _ hready => absurd (finish_ready _ _ _ hready).2 (by simp [masterInitialize]),id⟩
  · refine ⟨finish_aborts _ _ _,fun _ _ => finish_known ⟨rfl,fun _ => ?_⟩,id⟩
    change lastInit (asked (masterCommand P _ 16 512 none).2) = _
    rw [asked_command, lastInit_command]
    exact hinit

theorem serviceInitialize_effect (timeoutMs : UInt32) : Effect P w (serviceInitialize P timeoutMs w) := by
  unfold serviceInitialize
  split
  · rename_i hbegin
    exact effect_of_begin hbegin
  · rename_i hbegin
    exact effect_of_ends hbegin (initializeLocked_ends _ _ _)

theorem serviceDiskClaim_effect : Effect P w (serviceDiskClaim P w) := by
  unfold serviceDiskClaim
  split
  · rename_i hbegin
    exact effect_of_begin hbegin
  · rename_i w' hbegin
    refine effect_of_ends hbegin ?_
    obtain ⟨haborts,hknown,howned⟩ := initializeLocked_ends (P := P) 20000 SdResult.start
      (w'.modify fun s => { s with filesystemOwned := true })
    refine ⟨haborts,fun h => hknown fun hready => ?_,fun _ => howned rfl⟩
    obtain ⟨haddressed,hlast⟩ := h hready
    exact ⟨haddressed,hlast⟩

theorem readBlock_effect (lba : UInt32) (filesystem : Bool) :
    Effect P w ((readBlock P lba filesystem w).1.1,(readBlock P lba filesystem w).2) := by
  unfold readBlock
  split
  · rename_i hbegin
    exact effect_of_begin hbegin
  · rename_i w' hbegin
    obtain ⟨hkept,hknown⟩ := transfer_effect (P := P) lba none SdResult.start w'
    exact effect_of_ends hbegin (finish_ends hkept hknown)

theorem readBack_ends (lba : UInt32) (block : Sector) (r : SdResult) (w : SdWorld ε) : Ends w (readBack P lba block r w) := by
  obtain ⟨hkept,hknown⟩ := transfer_effect (P := P) lba none r w
  unfold readBack
  dsimp only
  split
  · exact finish_ends hkept hknown
  · exact finish_ends hkept hknown

/-- What follows transfers, after them. -/
theorem Ends.after {out : SdResult × SdWorld ε} (h : Ends w' out) (hkept : Kept w.state w'.state) (hknown : Known w → Known w') :
    Ends w out where
  aborts := h.aborts
  known hw := h.known fun hready => hknown (hw (hkept.ready.symm.trans hready))
  owned hw := h.owned (hkept.filesystemOwned.trans hw)

theorem writeBlock_effect (lba : UInt32) (block : Sector) (filesystem : Bool) : Effect P w (writeBlock P lba block filesystem w) := by
  unfold writeBlock
  split
  · rename_i hbegin
    exact effect_of_begin hbegin
  · rename_i w' hbegin
    obtain ⟨hkept,hknown⟩ := transfer_effect (P := P) lba (some block) SdResult.start w'
    refine effect_of_ends hbegin ?_
    dsimp only
    split
    · exact finish_ends hkept hknown
    · exact (readBack_ends lba block _ _).after hkept hknown

theorem simpleCommand_effect (cmd : UInt8) : Effect P w (simpleCommand P cmd w) := by
  unfold simpleCommand
  split
  · rename_i hbegin
    exact effect_of_begin hbegin
  · rename_i w' hbegin
    obtain ⟨hkept,-,hknown,hready⟩ := prepareCommand_effect (P := P) SdResult.start w'
    refine effect_of_ends hbegin ?_
    split
    · rename_i r' w'' hprepare
      rw [hprepare] at hkept hknown hready
      exact finish_ends (hkept.trans ⟨rfl,rfl,rfl,rfl,rfl⟩) fun h => known_command (hknown h) ((hknown h).last (hready rfl)) _ _ _
    · rename_i status r' w'' _ hprepare
      rw [hprepare] at hkept hknown
      exact finish_ends hkept hknown

theorem testWrites_effect (lba seed : UInt32) (left i : ℕ) (r : SdResult) (w : SdWorld ε) :
    Kept w.state (testWrites P lba seed left i r w).2.state ∧ (Known w → Known (testWrites P lba seed left i r w).2) := by
  induction left generalizing i r w with
  | zero => exact ⟨kept_refl _,id⟩
  | succ left ih =>
    obtain ⟨hkept,hknown⟩ := transfer_effect (P := P) (lba + UInt32.ofNat i) (some (pattern (lba + UInt32.ofNat i) seed)) r w
    unfold testWrites
    dsimp only
    split
    · exact ⟨hkept,hknown⟩
    · obtain ⟨hkept',hknown'⟩ := ih (i + 1) _ _
      exact ⟨hkept.trans hkept',fun h => hknown' (hknown h)⟩

theorem testReads_effect (lba seed : UInt32) (left i : ℕ) (r : SdResult) (w : SdWorld ε) :
    Kept w.state (testReads P lba seed left i r w).2.state ∧ (Known w → Known (testReads P lba seed left i r w).2) := by
  induction left generalizing i r w with
  | zero => exact ⟨kept_refl _,id⟩
  | succ left ih =>
    obtain ⟨hkept,hknown⟩ := transfer_effect (P := P) (lba + UInt32.ofNat i) none r w
    unfold testReads
    dsimp only
    split
    · exact ⟨hkept,hknown⟩
    split
    · exact ⟨hkept,hknown⟩
    · obtain ⟨hkept',hknown'⟩ := ih (i + 1) _ _
      exact ⟨hkept.trans hkept',fun h => hknown' (hknown h)⟩

theorem serviceTest_effect (lba count seed : UInt32) : Effect P w (serviceTest P lba count seed w) := by
  unfold serviceTest
  split
  · rename_i hbegin
    exact effect_of_begin hbegin
  rename_i w' hbegin
  refine effect_of_ends hbegin ?_
  split
  · exact finish_ends (kept_refl _) id
  obtain ⟨hkept,hknown⟩ := testWrites_effect (P := P) lba seed count.toNat 0 SdResult.start w'
  split
  · rename_i hwrites
    rw [hwrites] at hkept hknown
    exact finish_ends hkept hknown
  rename_i r' w'' hwrites
  rw [hwrites] at hkept hknown
  obtain ⟨hkept',hknown'⟩ := testReads_effect (P := P) lba seed count.toNat 0 r' w''
  split
  · rename_i hreads
    rw [hreads] at hkept' hknown'
    exact finish_ends (hkept.trans hkept') fun h => hknown' (hknown h)
  · rename_i hreads
    rw [hreads] at hkept' hknown'
    exact finish_ends (hkept.trans hkept') fun h => hknown' (hknown h)

/-- Every operation keeps what the service knows, and gives up the card after an abort. -/
theorem step_effect (w : SdWorld ε) (op : SdOp) : Effect P w ((w.step P op).2,(w.step P op).1) := by
  cases op with
  | init timeoutMs => exact serviceInitialize_effect timeoutMs
  | diskClaim => exact serviceDiskClaim_effect
  | read lba => exact readBlock_effect lba false
  | writeVerify lba block => exact writeBlock_effect lba block false
  | diskRead lba => exact readBlock_effect lba true
  | diskWrite lba block => exact writeBlock_effect lba block true
  | cardStatus => exact simpleCommand_effect 13
  | blockLength => exact simpleCommand_effect 16
  | test lba count seed => exact serviceTest_effect lba count seed

end

end Bvstk.Sd
