import Bvstk.Library.Rotation
import Bvstk.Mdio.MirrorCoherence

/-! # The schedule of the MDIO worker

The worker goes round the mailboxes and the PHYs. Whatever is done to the service between two of its
steps, and whatever the clock and the bus say, a register that is polled is on the list of its PHY, a PHY
that can be probed is polled after it has been found, and the mailboxes are looked into in turn.
-/
namespace Bvstk.Mdio
open Config Events CallLog Audit Machine
open Rotation (positions positions_add)
variable {ε : Type}

/-! ## The start of the service -/

/-- Two PHYs with the same address or, whatever the case of its letters, the same name. -/
def alike (a b : MdioPhyConfig) : Bool := a.phyAddr == b.phyAddr || sameIgnoringCase a.name b.name

/-- The configurations that `bvstk_mdio_service_init` takes. -/
def Acceptable (devices : List MdioPhyConfig) : Prop :=
  devices.length ≤ mdioMaxDevices ∧ (∀ c ∈ devices, mdioConfigValidate c = .ok) ∧
    devices.Pairwise fun a b => alike b a = false

instance (devices : List MdioPhyConfig) : Decidable (Acceptable devices) := inferInstanceAs (Decidable (_ ∧ _))

def Acceptable.phys {devices : List MdioPhyConfig} (h : Acceptable devices) : MdioPhys where
  items := devices
  fits := h.1
  valid c hc := mdioConfigValidate_eq_ok.mp (h.2.1 c hc)
  distinct := by
    apply List.pairwise_map.mpr
    apply h.2.2.imp
    intro a b hab heq
    simp [alike,heq] at hab

/-- The service after the `memset`, with its PHYs. -/
def MdioState.zeroed (devices : MdioPhys) : MdioState where
  devices := devices
  cache := fun _ _ => MdioCacheEntry.zero
  stats := MdioStats.zero
  pollDue := fun _ => 0
  probeDue := fun _ => 0
  pollIndex := fun _ => 0
  online := fun _ => false
  scanIndex := 0
  pollDevice := 0

/-- Seeds the PHYs from `d` on. -/
def seedAll (P : MdioPlatform ε) : (d : ℕ) → List MdioPhyConfig → MdioWorld ε → Status × MdioWorld ε
  | _, [], w => (.ok,w)
  | d, c :: devices, w =>
    let (status,w) := seed P d c.phyAddr c.settings w
    if status ≠ .ok then (.io,w) else seedAll P (d + 1) devices w

/-- `bvstk_mdio_service_init`; `prepareSlave` is what the core does. -/
def serviceInit (P : MdioPlatform ε) (prepareSlave : ε → Status × ε) (devices : List MdioPhyConfig) (env : ε) :
    Except Status (MdioWorld ε) :=
  if h : Acceptable devices then
    let (status,env) := prepareSlave env
    if status ≠ .ok then .error .io
    else
      let (status,w) := seedAll P 0 devices ((MdioState.zeroed h.phys).start env)
      if status ≠ .ok then .error .io else .ok w
  else .error .malformed

/-! ## What is looked into -/

/-- A look into a mailbox, and what was there. -/
structure Take where
  mailbox : ℕ × ℕ
  result : Except Status UInt16

/-- A write was captured. -/
def Take.Captured (t : Take) : Prop := ∃ v, t.result = .ok v

/-- The bus could not tell. -/
def Take.Failed (t : Take) : Prop := ∃ status, t.result = .error status ∧ status ≠ .notFound

instance : DecidablePred Take.Captured := fun t =>
  match h : t.result with
  | .ok v => .isTrue ⟨v,h⟩
  | .error _ => .isFalse fun ⟨_,hv⟩ => nomatch h.symm.trans hv

def MdioCall.take : MdioCall → Option Take
  | .takeWrite phy reg result => some ⟨(phy.toNat,reg.toNat),result⟩
  | _ => none

/-- The looks into the mailboxes, in their order. -/
def takes (w : MdioWorld ε) : List Take := w.calls.filterMap fun p => p.2.take

/-- The mailbox at a position of the scan: a PHY address and a register. -/
def mailboxAt (i : ℕ) : ℕ × ℕ := (i / 32,i % 32)

theorem takes_call (w : MdioWorld ε) (c : MdioCall) : takes (w.call c) = takes w ++ c.take.toList := by
  simp only [takes,World.call,List.filterMap_append]
  cases c <;> exact Eq.refl _

/-! ## What is left alone -/

/-- From `w` to `w'` the PHYs stayed, no mailbox was looked into, and no list was begun but from its front. -/
structure Steady (w w' : MdioWorld ε) : Prop where
  devices : w'.state.devices = w.state.devices
  pollIndex : ∀ d, w'.state.pollIndex d = w.state.pollIndex d ∨ w'.state.pollIndex d = 0
  scanIndex : w'.state.scanIndex = w.state.scanIndex
  takes : takes w' = takes w

section Kept
variable {w w' w'' : MdioWorld ε}

theorem steady_refl (w : MdioWorld ε) : Steady w w := ⟨Eq.refl _,fun _ => Or.inl (Eq.refl _),Eq.refl _,Eq.refl _⟩

theorem Steady.trans (h : Steady w w') (h' : Steady w' w'') : Steady w w'' := by
  refine ⟨h'.devices.trans h.devices,fun d => ?_,h'.scanIndex.trans h.scanIndex,h'.takes.trans h.takes⟩
  rcases h'.pollIndex d with hsame | hzero
  · rw [hsame]
    exact h.pollIndex d
  · exact Or.inr hzero

/-- A change of the rest of the state. -/
theorem steady_of_eq (hdevices : w'.state.devices = w.state.devices) (hindex : w'.state.pollIndex = w.state.pollIndex)
    (hscan : w'.state.scanIndex = w.state.scanIndex) (hcalls : w'.calls = w.calls) : Steady w w' :=
  ⟨hdevices,fun d => Or.inl (congrFun hindex d),hscan,by rw [takes,takes,hcalls]⟩

/-- A call that is no look into a mailbox. -/
theorem steady_call (h : Steady w w') {c : MdioCall} (hc : c.take = none) : Steady w (w'.call c) := by
  refine ⟨h.devices,h.pollIndex,h.scanIndex,?_⟩
  rw [takes_call,hc]
  exact (List.append_nil _).trans h.takes

theorem Steady.modify (h : Steady w w') (f : MdioState → MdioState) (hdevices : (f w'.state).devices = w'.state.devices)
    (hindex : (f w'.state).pollIndex = w'.state.pollIndex) (hscan : (f w'.state).scanIndex = w'.state.scanIndex) :
    Steady w (w'.modify f) := h.trans (steady_of_eq hdevices hindex hscan rfl)

/-- Only the statistics change. -/
theorem Steady.count (h : Steady w w') (f : MdioStats → MdioStats) : Steady w (w'.modify (·.countStats f)) :=
  h.modify (·.countStats f) rfl rfl rfl

theorem steady_env (w : MdioWorld ε) (env : ε) : Steady w { w with env := env } := steady_of_eq rfl rfl rfl rfl

theorem steady_schedule (w : MdioWorld ε) (d : ℕ) (due : UInt64) : Steady w (w.modify (·.schedule d due 0)) := by
  refine ⟨Eq.refl _,fun d' => ?_,Eq.refl _,Eq.refl _⟩
  by_cases hd : d' = d
  · rw [hd]
    exact Or.inr (Function.update_self _ _ _)
  · exact Or.inl (Function.update_of_ne hd _ _)

variable (P : MdioPlatform ε)

theorem steady_publish (w : MdioWorld ε) (phy reg : UInt8) (value : UInt16) : Steady w (publish P w phy reg value).2 :=
  steady_call (steady_env w _) rfl

theorem steady_emitFlags (w : MdioWorld ε) (type : EventType) (status : Status) (source : EventSource) (phy reg : UInt8)
    (value : UInt16) (flags : ℕ) : Steady w (emitFlags P w type status source phy reg value flags) :=
  steady_call (steady_env w _) rfl

theorem steady_emit (w : MdioWorld ε) (type : EventType) (status : Status) (source : EventSource) (phy reg : UInt8)
    (value : UInt16) : Steady w (emit P w type status source phy reg value) :=
  steady_emitFlags P w type status source phy reg value eventFlagNone

theorem steady_cacheChanged (w : MdioWorld ε) (d : ℕ) (r : UInt8) : Steady w (cacheChanged w d r) :=
  steady_call (steady_refl w) (Eq.refl _)

theorem steady_cacheChangedFrom (d left r : ℕ) (w : MdioWorld ε) : Steady w (cacheChangedFrom d left r w) := by
  induction left generalizing r w with
  | zero => exact steady_refl w
  | succ left ih => exact (steady_cacheChanged w d _).trans (ih _ _)

theorem steady_publishOnes (phy : UInt8) (left r : ℕ) (result : Status) (w : MdioWorld ε) :
    Steady w (publishOnes P phy left r result w).2 := by
  induction left generalizing r result w with
  | zero => exact steady_refl w
  | succ left ih => exact (steady_publish P w phy _ 0xFFFF).trans (ih _ _ _)

theorem steady_invalidate (w : MdioWorld ε) (d : ℕ) (c : MdioPhyConfig) : Steady w (invalidate P w d c).2 := by
  have hforget : Steady w (w.modify (·.forget d)) := steady_of_eq rfl rfl rfl rfl
  have hchanged := hforget.trans (steady_cacheChangedFrom d c.regCount.toNat 0 _)
  exact (steady_call hchanged (Eq.refl _)).trans (steady_publishOnes P c.phyAddr 32 0 .ok _)

theorem steady_storeRead (w : MdioWorld ε) (d : ℕ) (phy r : UInt8) (status : Status) (value : UInt16) (probe : Bool) :
    Steady w (storeRead P w d phy r status value probe).2 := by
  unfold storeRead
  have hmirror : Steady w (if status = .ok then publish P w phy r value else (status,w)).2 := by
    split
    · exact steady_publish P w phy r value
    · exact steady_refl w
  generalize (if status = .ok then publish P w phy r value else (status,w)) = out at hmirror ⊢
  dsimp only
  split
  · exact hmirror.trans (steady_of_eq rfl rfl rfl rfl)
  · have hdrop : Steady out.2 (out.2.modify fun s => s.setEntry d r { s.cache d r with valid := false }) :=
      steady_of_eq rfl rfl rfl rfl
    have hones := (hmirror.trans hdrop).trans (steady_publish P _ phy r 0xFFFF)
    split
    · exact hones
    · exact hones.trans (steady_of_eq rfl rfl rfl rfl)

theorem steady_readPhy (w : MdioWorld ε) (d : ℕ) (c : MdioPhyConfig) (r : UInt8) (source : EventSource) (timeoutMs : ℕ)
    (probe : Bool) : Steady w (readPhy P w d c r source timeoutMs probe).2 := by
  unfold readPhy
  have hbus : Steady w (busRead P w c.phyAddr r timeoutMs).2 :=
    steady_call (steady_env w _) rfl
  generalize busRead P w c.phyAddr r timeoutMs = out at hbus ⊢
  obtain ⟨⟨status,value⟩,w₁⟩ := out
  dsimp only at hbus ⊢
  have hevent := hbus.trans (steady_emitFlags P w₁ .masterRead status source c.phyAddr r
    (if status = .ok then value else 0)
    (telemetryFlags w₁.state d .masterRead status (if status = .ok then value else 0) probe))
  have hcount := hevent.count fun t => { t with reads := t.reads + 1 }
  have hstore := hcount.trans (steady_storeRead P _ d c.phyAddr r status value probe)
  split
  · exact hstore
  · exact hstore.trans (steady_cacheChanged _ d r)

theorem steady_dropBeforeWrite (w : MdioWorld ε) (d : ℕ) (c : MdioPhyConfig) (r : UInt8) (v : UInt16) :
    Steady w (dropBeforeWrite P w d c r v) := by
  unfold dropBeforeWrite
  split
  · exact steady_invalidate P w d c
  · have hdrop : Steady w (w.modify fun s => s.setEntry d r { s.cache d r with valid := false }) :=
      steady_of_eq rfl rfl rfl rfl
    exact (hdrop.trans (steady_cacheChanged _ d r)).trans (steady_publish P _ c.phyAddr r 0xFFFF)

theorem steady_forwardWrite (w : MdioWorld ε) (d : ℕ) (c : MdioPhyConfig) (r : UInt8) (v : UInt16) (source : EventSource)
    (timeoutMs : ℕ) (wasOnline : Bool) : Steady w (forwardWrite P w d c r v source timeoutMs wasOnline).2 := by
  unfold forwardWrite
  dsimp only
  have hdrop := steady_dropBeforeWrite P w d c r v
  generalize dropBeforeWrite P w d c r v = w₁ at hdrop ⊢
  have hbus : Steady w (busWrite P w₁ c.phyAddr r v source timeoutMs).2 :=
    steady_call (hdrop.trans (steady_env w₁ _)) rfl
  generalize busWrite P w₁ c.phyAddr r v source timeoutMs = out at hbus ⊢
  obtain ⟨status,w₂⟩ := out
  dsimp only at hbus ⊢
  have hevent := hbus.trans (steady_emitFlags P w₂ .masterWrite status source c.phyAddr r v
    (if wasOnline = true then eventFlagNone else eventFlagTelemetryUnconfirmed))
  generalize emitFlags P w₂ .masterWrite status source c.phyAddr r v
    (if wasOnline = true then eventFlagNone else eventFlagTelemetryUnconfirmed) = w₃ at hevent ⊢
  split
  · have hcount := hevent.count fun t => { t with writes := t.writes + 1 }
    have hread := hcount.trans (steady_readPhy P _ d c r source timeoutMs false)
    exact (hread.trans (steady_schedule _ d 0)).trans (steady_emit P _ .regCommit .ok source c.phyAddr r v)
  · have hcount := hevent.count fun t => { t with errors := t.errors + 1 }
    exact hcount.trans (steady_emit P _ .fault status source c.phyAddr r v)

theorem steady_writePhy (w : MdioWorld ε) (d : ℕ) (c : MdioPhyConfig) (r : UInt8) (v : UInt16) (source : EventSource)
    (timeoutMs : ℕ) : Steady w (writePhy P w d c r v source timeoutMs).2 := by
  unfold writePhy
  dsimp only
  have hlast := (steady_refl w).count fun t =>
    { t with lastPhy := c.phyAddr, lastReg := r, lastValue := v, lastSource := source }
  have hattempt := hlast.trans (steady_emit P _ .regAttempt .ok source c.phyAddr r v)
  generalize emit P (w.modify (·.countStats fun t =>
    { t with lastPhy := c.phyAddr, lastReg := r, lastValue := v, lastSource := source })) .regAttempt .ok source
    c.phyAddr r v = w₁ at hattempt ⊢
  split
  · have hcount := hattempt.count fun t => { t with denied := t.denied + 1 }
    exact (hcount.trans (steady_emit P _ .regDenied .denied source c.phyAddr r v)).count _
  · exact (hattempt.trans (steady_forwardWrite P w₁ d c r v source timeoutMs (w.state.online d))).count _

theorem steady_handleCapture (w : MdioWorld ε) (phy reg : UInt8) (v : UInt16) (timeoutMs : ℕ) :
    Steady w (handleCapture P w phy reg v timeoutMs).2 := by
  unfold handleCapture
  dsimp only
  have hcount := (steady_refl w).count fun t => { t with observed := t.observed + 1 }
  generalize w.modify (·.countStats fun t => { t with observed := t.observed + 1 }) = w₁ at hcount ⊢
  have hevent := hcount.trans (steady_emitFlags P w₁ .captureWrite .ok .host phy reg v
    (if w₁.state.devices.findPhy phy < w₁.state.devices.count ∧ w₁.state.online (w₁.state.devices.findPhy phy) = true
      then eventFlagNone else eventFlagTelemetryUnconfirmed))
  generalize emitFlags P w₁ .captureWrite .ok .host phy reg v
    (if w₁.state.devices.findPhy phy < w₁.state.devices.count ∧ w₁.state.online (w₁.state.devices.findPhy phy) = true
      then eventFlagNone else eventFlagTelemetryUnconfirmed) = w₂ at hevent ⊢
  split
  · have hdenied := hevent.count fun t => { t with unknownPhy := t.unknownPhy + 1, denied := t.denied + 1 }
    have hattempt := hdenied.trans (steady_emit P _ .regAttempt .ok .host phy reg v)
    exact hattempt.trans (steady_emit P _ .regDenied .notFound .host phy reg v)
  · exact hevent.trans (steady_writePhy P w₂ _ _ reg v .host timeoutMs)

theorem steady_acknowledge (w : MdioWorld ε) (result : Status) : Steady w (acknowledge P w result).2 := by
  unfold acknowledge
  dsimp only
  have hcall : Steady w (World.call { w with env := (P.ackSlave w.env).2 } (.ackSlave (P.ackSlave w.env).1)) :=
    steady_call (steady_env w _) rfl
  split
  · exact hcall.trans (steady_of_eq rfl rfl rfl rfl)
  · exact hcall

theorem steady_probe (w : MdioWorld ε) (d : ℕ) (c : MdioPhyConfig) (now : UInt64) (timeoutMs : ℕ) (result : Status) :
    Steady w (probe P w d c now timeoutMs result).2 := by
  unfold probe
  have hfirst := steady_readPhy P w d c 2 .internal timeoutMs true
  generalize readPhy P w d c 2 .internal timeoutMs true = out at hfirst ⊢
  obtain ⟨⟨status,id1⟩,w₁⟩ := out
  dsimp only at hfirst ⊢
  have hboth : Steady w (if status = .ok then readPhy P w₁ d c 3 .internal timeoutMs true else ((status,0),w₁)).2 := by
    split
    · exact hfirst.trans (steady_readPhy P w₁ d c 3 .internal timeoutMs true)
    · exact hfirst
  generalize (if status = .ok then readPhy P w₁ d c 3 .internal timeoutMs true else ((status,0),w₁)) = out at hboth ⊢
  split
  · have hcached := (hboth.trans (steady_cacheChanged _ d 2)).trans (steady_cacheChanged _ d 3)
    have honline := hcached.modify (fun s : MdioState =>
      { s with
        pollDue := if s.online d = true then s.pollDue else Function.update s.pollDue d 0
        online := Function.update s.online d true }) rfl rfl rfl
    exact (steady_call honline (c := .presence d 1) rfl).modify _ rfl rfl rfl
  · exact (hboth.trans (steady_invalidate P _ d c)).trans
      (steady_of_eq rfl rfl rfl rfl)

theorem steady_seed (d : ℕ) (phy : UInt8) (settings : List MdioSetting) (w : MdioWorld ε) :
    Steady w (seed P d phy settings w).2 := by
  induction settings generalizing w with
  | nil => exact steady_refl w
  | cons v settings ih =>
    unfold seed
    have hpublish := steady_publish P w phy v.reg v.val
    generalize publish P w phy v.reg v.val = out at hpublish ⊢
    dsimp only
    split
    · exact hpublish
    · have hentry := (hpublish.trans (steady_env out.2 (P.nowMs out.2.env).2)).modify
        (·.setEntry d v.reg ⟨v.val,true,true,(P.nowMs out.2.env).1⟩) rfl rfl rfl
      exact (hentry.trans (steady_cacheChanged _ d v.reg)).trans (ih _)

theorem steady_seedAll (d : ℕ) (devices : List MdioPhyConfig) (w : MdioWorld ε) : Steady w (seedAll P d devices w).2 := by
  induction devices generalizing d w with
  | nil => exact steady_refl w
  | cons c devices ih =>
    unfold seedAll
    have hseed := steady_seed P d c.phyAddr c.settings w
    generalize seed P d c.phyAddr c.settings w = out at hseed ⊢
    dsimp only
    split
    · exact hseed
    · exact hseed.trans (ih _ _)

end Kept

/-! ## The mailboxes -/

/-- What a step may leave out of the round: it captured all the writes it may, or the bus failed. -/
def CutShort (taken : ℕ) (new : List Take) : Prop := taken + new.countP (·.Captured) = 4 ∨ ∃ t ∈ new, t.Failed

/-- From `w` to `w'` the mailboxes from the scan index on were looked into, one after the other. -/
structure Scanned (left taken : ℕ) (w w' : MdioWorld ε) (new : List Take) : Prop where
  devices : w'.state.devices = w.state.devices
  pollIndex : ∀ d, w'.state.pollIndex d = w.state.pollIndex d ∨ w'.state.pollIndex d = 0
  takes : takes w' = takes w ++ new
  scanIndex : w'.state.scanIndex = (w.state.scanIndex + new.length) % mailboxCount
  mailboxes : new.map Take.mailbox = (positions mailboxCount w.state.scanIndex new.length).map mailboxAt
  few : new.length ≤ left
  captured : taken + new.countP (·.Captured) ≤ 4
  whole : new.length < left → CutShort taken new

/-- From `w` to `w'` one mailbox was looked into, the one at the scan index. -/
structure Looked (w w' : MdioWorld ε) (t : Take) : Prop where
  devices : w'.state.devices = w.state.devices
  pollIndex : ∀ d, w'.state.pollIndex d = w.state.pollIndex d ∨ w'.state.pollIndex d = 0
  takes : takes w' = takes w ++ [t]
  scanIndex : w'.state.scanIndex = (w.state.scanIndex + 1) % mailboxCount
  mailbox : t.mailbox = mailboxAt w.state.scanIndex

section Scan
variable {w w' w'' : MdioWorld ε} {t : Take} {new : List Take} {left taken taken' : ℕ}

theorem Looked.steady (h : Looked w w' t) (h' : Steady w' w'') : Looked w w'' t := by
  refine ⟨h'.devices.trans h.devices,fun d => ?_,h'.takes.trans h.takes,h'.scanIndex.trans h.scanIndex,h.mailbox⟩
  rcases h'.pollIndex d with hsame | hzero
  · rw [hsame]
    exact h.pollIndex d
  · exact Or.inr hzero

theorem Scanned.steady (h : Scanned left taken w w' new) (h' : Steady w' w'') : Scanned left taken w w'' new := by
  refine ⟨h'.devices.trans h.devices,fun d => ?_,h'.takes.trans h.takes,h'.scanIndex.trans h.scanIndex,h.mailboxes,
    h.few,h.captured,h.whole⟩
  rcases h'.pollIndex d with hsame | hzero
  · rw [hsame]
    exact h.pollIndex d
  · exact Or.inr hzero

theorem scanned_none (hscan : w.state.scanIndex < mailboxCount) (htaken : taken ≤ 4)
    (hwhole : 0 < left → CutShort taken []) : Scanned left taken w w [] := by
  refine ⟨Eq.refl _,fun _ => Or.inl (Eq.refl _),(List.append_nil _).symm,?_,Eq.refl _,Nat.zero_le _,htaken,hwhole⟩
  exact (Nat.mod_eq_of_lt hscan).symm

/-- A scan that is cut short has room left. -/
theorem Scanned.widen {room : ℕ} (h : Scanned left taken w w' new) (hcut : CutShort taken new) (hroom : left ≤ room) :
    Scanned room taken w w' new :=
  ⟨h.devices,h.pollIndex,h.takes,h.scanIndex,h.mailboxes,Nat.le_trans h.few hroom,h.captured,fun _ => hcut⟩

/-- One look, and then the rest of the scan. -/
theorem Looked.scan (hscan : w.state.scanIndex < mailboxCount) (h : Looked w w' t) (h' : Scanned left taken' w' w'' new)
    (htaken : taken' + new.countP (·.Captured) = taken + (t :: new).countP (·.Captured)) :
    Scanned (left + 1) taken w w'' (t :: new) := by
  refine ⟨h'.devices.trans h.devices,fun d => ?_,?_,?_,?_,Nat.succ_le_succ h'.few,htaken ▸ h'.captured,fun hshort => ?_⟩
  · rcases h'.pollIndex d with hsame | hzero
    · rw [hsame]
      exact h.pollIndex d
    · exact Or.inr hzero
  · rw [h'.takes,h.takes,List.append_assoc]
    exact Eq.refl _
  · rw [h'.scanIndex,h.scanIndex,Nat.mod_add_mod,List.length_cons,Nat.add_assoc,Nat.add_comm 1]
  · have hfirst : positions mailboxCount w.state.scanIndex 1 = [w.state.scanIndex % mailboxCount] := Eq.refl _
    have hmod : mailboxAt (w.state.scanIndex % mailboxCount) = mailboxAt w.state.scanIndex := by
      rw [Nat.mod_eq_of_lt hscan]
    rw [List.map_cons,h.mailbox,h'.mailboxes,h.scanIndex,List.length_cons,Nat.add_comm new.length,positions_add,hfirst,
      List.map_append,List.map_singleton,hmod]
    exact Eq.refl _
  · rcases h'.whole (Nat.lt_of_succ_lt_succ hshort) with hfour | ⟨f,hf,hfailed⟩
    · exact Or.inl (htaken ▸ hfour)
    · exact Or.inr ⟨f,List.mem_cons_of_mem t hf,hfailed⟩

variable (P : MdioPlatform ε)

theorem looked_takeWrite (hscan : w.state.scanIndex < mailboxCount) :
    Looked w (takeWrite P (w.modify fun s => { s with scanIndex := (s.scanIndex + 1) % mailboxCount })
      (UInt8.ofNat (w.state.scanIndex / 32)) (UInt8.ofNat (w.state.scanIndex % 32))).2
      ⟨mailboxAt w.state.scanIndex,
        (takeWrite P (w.modify fun s => { s with scanIndex := (s.scanIndex + 1) % mailboxCount })
          (UInt8.ofNat (w.state.scanIndex / 32)) (UInt8.ofNat (w.state.scanIndex % 32))).1⟩ := by
  have hphy : (UInt8.ofNat (w.state.scanIndex / 32)).toNat = w.state.scanIndex / 32 :=
    UInt8.toNat_ofNat_of_lt' (show w.state.scanIndex / 32 < 256 by unfold mailboxCount at hscan; omega)
  have hreg : (UInt8.ofNat (w.state.scanIndex % 32)).toNat = w.state.scanIndex % 32 :=
    UInt8.toNat_ofNat_of_lt' (show w.state.scanIndex % 32 < 256 by omega)
  refine ⟨Eq.refl _,fun _ => Or.inl (Eq.refl _),?_,Eq.refl _,Eq.refl _⟩
  rw [takeWrite]
  dsimp only
  rw [takes_call,MdioCall.take,hphy,hreg]
  exact Eq.refl _

/-- The scan looks into the mailboxes in turn, up to its fourth captured write. -/
theorem scanned_scanMailboxes (timeoutMs left taken : ℕ) (result : Status) (w : MdioWorld ε)
    (hscan : w.state.scanIndex < mailboxCount) (htaken : taken ≤ 4) :
    ∃ new, Scanned left taken w (scanMailboxes P timeoutMs left taken result w).2 new := by
  induction left generalizing taken result w with
  | zero => exact ⟨[],scanned_none hscan htaken fun h => absurd h (Nat.lt_irrefl 0)⟩
  | succ left ih =>
    unfold scanMailboxes
    split
    · rename_i hfour
      exact ⟨[],scanned_none hscan htaken fun _ => Or.inl (Nat.le_antisymm htaken hfour)⟩
    · rename_i hroom
      dsimp only
      have hlook := looked_takeWrite P hscan
      generalize takeWrite P (w.modify fun s => { s with scanIndex := (s.scanIndex + 1) % mailboxCount })
        (UInt8.ofNat (w.state.scanIndex / 32)) (UInt8.ofNat (w.state.scanIndex % 32)) = out at hlook ⊢
      obtain ⟨looked,w₁⟩ := out
      have hbound (w₂ : MdioWorld ε) (h : Looked w w₂ ⟨mailboxAt w.state.scanIndex,looked⟩) :
          w₂.state.scanIndex < mailboxCount := by
        rw [h.scanIndex]
        exact Nat.mod_lt _ (by decide)
      split
      · rename_i hempty
        cases hempty
        obtain ⟨new,hrest⟩ := ih taken result w₁ (hbound w₁ hlook) htaken
        refine ⟨_,Looked.scan hscan hlook hrest ?_⟩
        rw [List.countP_cons_of_neg (by simp [Take.Captured])]
      · rename_i status w₂ hnotFound hfailed
        cases hfailed
        have hcounted := hlook.steady ((steady_refl w₁).count fun t => { t with errors := t.errors + 1 })
        have hone := Looked.scan hscan hcounted (scanned_none (hbound _ hcounted) htaken (absurd · (Nat.lt_irrefl 0)))
          (by rw [List.countP_cons_of_neg (by simp [Take.Captured])])
        have hcut : CutShort taken [⟨mailboxAt w.state.scanIndex,.error status⟩] :=
          Or.inr ⟨_,List.mem_singleton_self _,status,Eq.refl _,hnotFound⟩
        exact ⟨_,hone.widen hcut (Nat.succ_le_succ (Nat.zero_le left))⟩
      · rename_i v w₂ hcaptured
        cases hcaptured
        have hhandled := hlook.steady (steady_handleCapture P w₁ (UInt8.ofNat (w.state.scanIndex / 32))
          (UInt8.ofNat (w.state.scanIndex % 32)) v timeoutMs)
        obtain ⟨new,hrest⟩ := ih (taken + 1) _ _ (hbound _ hhandled) (by omega)
        refine ⟨_,Looked.scan hscan hhandled hrest ?_⟩
        rw [List.countP_cons_of_pos (by simp [Take.Captured])]
        omega

end Scan

/-! ## The turn of a PHY -/

/-- The schedule: the next autopoll item of a PHY is on its list or at its front, and the mailboxes were
looked into in turn from the first on. -/
structure Scheduled (w : MdioWorld ε) : Prop where
  pollIndex : ∀ d c, w.state.devices.items[d]? = some c →
    w.state.pollIndex d = 0 ∨ (w.state.pollIndex d).toNat < c.autopollRegs.length
  scanIndex : w.state.scanIndex = (takes w).length % mailboxCount
  inTurn : (takes w).map Take.mailbox = (positions mailboxCount 0 (takes w).length).map mailboxAt

/-- What the worker does when it has looked into the mailboxes: at most one probe or autopoll item, of a PHY
whose turn it is. -/
inductive Polled (P : MdioPlatform ε) (now : UInt64) (timeoutMs : ℕ) (result : Status) (w : MdioWorld ε) :
    Status × MdioWorld ε → Prop where
  | nothing (turn : ℕ) : Polled P now timeoutMs result w (result,w.modify fun s => { s with pollDevice := turn })
  | probe {d : ℕ} {c : MdioPhyConfig} (turn : ℕ) (hknown : w.state.devices.items[d]? = some c) (hregs : 4 ≤ c.regCount)
      (hdue : w.state.probeDue d ≤ now) :
      Polled P now timeoutMs result w
        (probe P (w.modify fun s => { s with pollDevice := turn }) d c now timeoutMs result)
  | autopoll {d : ℕ} {c : MdioPhyConfig} (turn : ℕ) (hknown : w.state.devices.items[d]? = some c)
      (hindex : (w.state.pollIndex d).toNat < c.autopollRegs.length)
      (hreg : c.autopollRegs.getD (w.state.pollIndex d).toNat 0 < c.regCount) (hdue : w.state.pollDue d ≤ now)
      (honline : 4 ≤ c.regCount → w.state.online d = true) :
      Polled P now timeoutMs result w
        (autopoll P (w.modify fun s => { s with pollDevice := turn }) d c now timeoutMs result)

section Turns
variable {w w' : MdioWorld ε} {new : List Take} {left taken : ℕ}

theorem Scheduled.scan_lt (h : Scheduled w) : w.state.scanIndex < mailboxCount := by
  rw [h.scanIndex]
  exact Nat.mod_lt _ (by decide)

theorem Scheduled.steady (h : Scheduled w) (hsteady : Steady w w') : Scheduled w' := by
  refine ⟨fun d c hknown => ?_,by rw [hsteady.takes,hsteady.scanIndex,h.scanIndex],by rw [hsteady.takes,h.inTurn]⟩
  rw [hsteady.devices] at hknown
  rcases hsteady.pollIndex d with hsame | hzero
  · rw [hsame]
    exact h.pollIndex d c hknown
  · exact Or.inl hzero

theorem Scheduled.scanned (h : Scheduled w) (hscanned : Scanned left taken w w' new) : Scheduled w' := by
  refine ⟨fun d c hknown => ?_,?_,?_⟩
  · rw [hscanned.devices] at hknown
    rcases hscanned.pollIndex d with hsame | hzero
    · rw [hsame]
      exact h.pollIndex d c hknown
    · exact Or.inl hzero
  · rw [hscanned.scanIndex,h.scanIndex,Nat.mod_add_mod,hscanned.takes,List.length_append]
  · rw [hscanned.takes,List.map_append,h.inTurn,hscanned.mailboxes,h.scanIndex,List.length_append,positions_add,
      Nat.zero_add,List.map_append]

/-- Every item of an autopoll list is a register. -/
theorem autopoll_lt {c : MdioPhyConfig} (h : c.Valid) {i : ℕ} (hi : i < c.autopollRegs.length) :
    c.autopollRegs.getD i 0 < c.regCount := by
  have hmem : c.autopollRegs.getD i 0 ∈ c.autopollRegs := by
    rw [List.getD_eq_getElem?_getD,List.getElem?_eq_getElem hi,Option.getD_some]
    exact List.getElem_mem hi
  exact regsCheck_below h.autopoll _ hmem

variable (P : MdioPlatform ε) {now : UInt64} {timeoutMs : ℕ} {result : Status}

/-- The turn itself changes nothing. -/
theorem Polled.turned {turn : ℕ} {out : Status × MdioWorld ε}
    (h : Polled P now timeoutMs result (w.modify fun s => { s with pollDevice := turn }) out) :
    Polled P now timeoutMs result w out := by
  cases h with
  | nothing turn => exact .nothing turn
  | probe turn hknown hregs hdue => exact .probe turn hknown hregs hdue
  | autopoll turn hknown hindex hreg hdue honline => exact .autopoll turn hknown hindex hreg hdue honline

/-- What is polled is on the list of a PHY that is there. -/
theorem polled_pollNext (now : UInt64) (timeoutMs left : ℕ) (result : Status) (h : Scheduled w) :
    Polled P now timeoutMs result w (pollNext P now timeoutMs left result w) := by
  induction left generalizing w with
  | zero => exact .nothing w.state.pollDevice
  | succ left ih =>
    unfold pollNext
    dsimp only
    have hturn : Scheduled (w.modify fun s => { s with pollDevice := s.pollDevice + 1 }) :=
      h.steady ((steady_refl w).modify _ rfl rfl rfl)
    have hrest := Polled.turned P (ih hturn)
    split
    · exact .nothing _
    · rename_i c hknown
      split
      · rename_i hprobe
        exact .probe _ hknown hprobe.2 hprobe.1
      · split
        · exact hrest
        · rename_i hlisted
          obtain ⟨-,hlisted⟩ := not_or.mp hlisted
          obtain ⟨hne,hdue⟩ := not_or.mp hlisted
          split
          · exact hrest
          · rename_i honline
            have hindex : (w.state.pollIndex (w.state.pollDevice % w.state.devices.count)).toNat < c.autopollRegs.length := by
              rcases h.pollIndex _ c hknown with hzero | hlt
              · rw [hzero]
                exact List.length_pos_iff.mpr hne
              · exact hlt
            refine .autopoll _ hknown hindex (autopoll_lt (w.state.devices.valid c (List.mem_of_getElem? hknown)) hindex)
              (UInt64.not_lt.mp hdue) fun hregs => ?_
            exact Bool.of_not_eq_false fun hoff => honline ⟨hregs,hoff⟩

theorem scheduled_probe {d : ℕ} {c : MdioPhyConfig} (h : Scheduled w) :
    Scheduled (probe P w d c now timeoutMs result).2 := h.steady (steady_probe P w d c now timeoutMs result)

/-- After its item a PHY goes on with the next one, or begins its list again. -/
theorem autopoll_parts (w : MdioWorld ε) (d : ℕ) (c : MdioPhyConfig) (now : UInt64) (timeoutMs : ℕ) (result : Status) :
    ∃ w' due index, Steady w w' ∧ (autopoll P w d c now timeoutMs result).2 = w'.modify (·.schedule d due index) ∧
      (index = 0 ∨ index.toNat < c.autopollRegs.length) := by
  unfold autopoll
  dsimp only
  have hread := steady_readPhy P w d c (c.autopollRegs.getD (w.state.pollIndex d).toNat 0) .internal timeoutMs false
  generalize readPhy P w d c (c.autopollRegs.getD (w.state.pollIndex d).toNat 0) .internal timeoutMs false = out
    at hread ⊢
  have hfailed : Steady w (if out.1.1 ≠ .ok then
      (out.1.1,(invalidate P out.2 d c).2.modify fun s =>
        { s with probeDue := Function.update s.probeDue d (now + 1000) })
      else (result,out.2)).2 := by
    split
    · exact (hread.trans (steady_invalidate P _ d c)).modify
        (fun s => { s with probeDue := Function.update s.probeDue d (now + 1000) }) rfl rfl rfl
    · exact hread
  generalize (if out.1.1 ≠ .ok then
      (out.1.1,(invalidate P out.2 d c).2.modify fun s =>
        { s with probeDue := Function.update s.probeDue d (now + 1000) })
      else (result,out.2)) = out' at hfailed ⊢
  split
  · exact ⟨out'.2,_,0,hfailed,Eq.refl _,Or.inl (Eq.refl _)⟩
  · rename_i hnext
    exact ⟨out'.2,_,_,hfailed,Eq.refl _,Or.inr (Nat.not_le.mp hnext)⟩

theorem scheduled_autopoll {d : ℕ} {c : MdioPhyConfig} (h : Scheduled w) (hknown : w.state.devices.items[d]? = some c) :
    Scheduled (autopoll P w d c now timeoutMs result).2 := by
  obtain ⟨w',due,index,hsteady,hout,hindex⟩ := autopoll_parts P w d c now timeoutMs result
  have hkept := h.steady hsteady
  rw [hout]
  refine ⟨fun d' c' hknown' => ?_,hkept.scanIndex,hkept.inTurn⟩
  by_cases hd : d' = d
  · subst hd
    have hsame : c' = c := Option.some.inj (hknown'.symm.trans (hsteady.devices ▸ hknown))
    simp only [World.modify,MdioState.schedule,Function.update_self]
    rw [hsame]
    exact hindex
  · simp only [World.modify,MdioState.schedule,Function.update_of_ne hd]
    exact hkept.pollIndex d' c' hknown'

theorem Polled.scheduled {out : Status × MdioWorld ε} (h : Scheduled w) (hpolled : Polled P now timeoutMs result w out) :
    Scheduled out.2 := by
  have hturn (turn : ℕ) : Scheduled (w.modify fun s => { s with pollDevice := turn }) :=
    h.steady ((steady_refl w).modify _ rfl rfl rfl)
  cases hpolled with
  | nothing turn => exact hturn turn
  | probe turn hknown _ _ => exact scheduled_probe P (hturn turn)
  | autopoll turn hknown _ _ _ _ => exact scheduled_autopoll P (hturn turn) hknown

end Turns

/-! ## A step of the worker -/

/-- The world at which the worker has looked into the mailboxes and goes on to the PHYs. -/
def afterMailboxes (P : MdioPlatform ε) (timeoutMs : ℕ) (w : MdioWorld ε) : Status × MdioWorld ε :=
  let (result,w) := scanMailboxes P timeoutMs mailboxCount 0 .ok w
  acknowledge P w result

/-- What a step did: nothing without the lock, else a scan and then at most one PHY. -/
inductive Stepped (P : MdioPlatform ε) (now : UInt64) (timeoutMs : ℕ) (w : MdioWorld ε) : Status × MdioWorld ε → Prop where
  | refused (hlock : (P.lock w.env).1 ≠ .ok) :
      Stepped P now timeoutMs w ((P.lock w.env).1,{ w with env := (P.lock w.env).2 })
  | worked {new : List Take} {out : Status × MdioWorld ε} (hlock : (P.lock w.env).1 = .ok)
      (hscanned : Scanned mailboxCount 0 w (afterMailboxes P timeoutMs { w with env := (P.lock w.env).2 }).2 new)
      (hpolled : Polled P now timeoutMs (afterMailboxes P timeoutMs { w with env := (P.lock w.env).2 }).1
        (afterMailboxes P timeoutMs { w with env := (P.lock w.env).2 }).2 out)
      (htakes : takes out.2 = takes w ++ new) : Stepped P now timeoutMs w out

section Steps
variable (P : MdioPlatform ε) {w w' : MdioWorld ε}

theorem Polled.takes {now : UInt64} {timeoutMs : ℕ} {result : Status} {out : Status × MdioWorld ε}
    (h : Polled P now timeoutMs result w out) : takes out.2 = takes w := by
  cases h with
  | nothing turn => exact Eq.refl _
  | probe turn _ _ _ => exact (steady_probe P _ _ _ now timeoutMs result).takes
  | @autopoll d c turn _ _ _ _ _ =>
    obtain ⟨w',due,index,hsteady,hout,-⟩ :=
      autopoll_parts P (w.modify fun s => { s with pollDevice := turn }) d c now timeoutMs result
    rw [hout]
    exact hsteady.takes

theorem stepped (now : UInt64) (timeoutMs : ℕ) (h : Scheduled w) : Stepped P now timeoutMs w (serviceStep P w now timeoutMs) := by
  unfold serviceStep
  by_cases hlock : (P.lock w.env).1 = .ok
  · rw [locked_ok P hlock]
    have henv : Scheduled { w with env := (P.lock w.env).2 } := h.steady (steady_env w _)
    obtain ⟨new,hscan⟩ := scanned_scanMailboxes P timeoutMs mailboxCount 0 .ok { w with env := (P.lock w.env).2 }
      henv.scan_lt (Nat.zero_le 4)
    have hscanned := hscan.steady (steady_acknowledge P _ (scanMailboxes P timeoutMs mailboxCount 0 .ok
      { w with env := (P.lock w.env).2 }).1)
    have hpolled := polled_pollNext P now timeoutMs
      (afterMailboxes P timeoutMs { w with env := (P.lock w.env).2 }).2.state.devices.count
      (afterMailboxes P timeoutMs { w with env := (P.lock w.env).2 }).1 (henv.scanned hscanned)
    have hwhole : Scanned mailboxCount 0 w (afterMailboxes P timeoutMs { w with env := (P.lock w.env).2 }).2 new :=
      ⟨hscanned.devices,hscanned.pollIndex,hscanned.takes,hscanned.scanIndex,hscanned.mailboxes,hscanned.few,
        hscanned.captured,hscanned.whole⟩
    exact .worked hlock hwhole hpolled ((Polled.takes P hpolled).trans hscanned.takes)
  · have hout : locked P w id (work P now timeoutMs mailboxCount) =
        ((P.lock w.env).1,{ w with env := (P.lock w.env).2 }) := if_pos hlock
    rw [hout]
    exact .refused hlock

theorem Stepped.scheduled {now : UInt64} {timeoutMs : ℕ} {out : Status × MdioWorld ε} (h : Scheduled w)
    (hstepped : Stepped P now timeoutMs w out) : Scheduled out.2 := by
  cases hstepped with
  | refused _ => exact h.steady (steady_env w _)
  | worked _ hscanned hpolled _ => exact hpolled.scheduled P (h.scanned hscanned)

/-! ## The other operations -/

theorem scheduled_locked {α : Type} (refuse : Status → α) (f : MdioWorld ε → α × MdioWorld ε) (h : Scheduled w)
    (hf : ∀ w', Scheduled w' → Scheduled (f w').2) : Scheduled (locked P w refuse f).2 := by
  have henv : Scheduled { w with env := (P.lock w.env).2 } := h.steady (steady_env w _)
  unfold locked
  dsimp only
  split
  · exact henv
  · exact hf _ henv

/-- An edit that leaves the autopoll list alone. -/
def MdioEdit.KeepsPolling (edit : MdioEdit) : Prop := ∀ c, (edit.apply c).2.autopollRegs = c.autopollRegs

theorem setRules_autopollRegs (c : MdioPhyConfig) (list : PolicyMode) (rules : List MdioRule) :
    (c.setRules list rules).autopollRegs = c.autopollRegs := by
  cases list with
  | whitelist => exact Eq.refl _
  | blacklist => exact Eq.refl _

theorem addRuleEdit_polling (list : PolicyMode) (reg : UInt8) (value mask : UInt16) :
    (addRuleEdit list reg value mask).KeepsPolling := by
  intro c
  simp only [addRuleEdit,addRule]
  split
  · exact Eq.refl _
  · split
    · exact Eq.refl _
    · split
      · exact Eq.refl _
      · exact setRules_autopollRegs _ _ _

theorem removeRuleEdit_polling (list : PolicyMode) (reg : UInt8) (value mask : UInt16) :
    (removeRuleEdit list reg value mask).KeepsPolling := by
  intro c
  simp only [removeRuleEdit,removeRule]
  split
  · exact Eq.refl _
  · split
    · exact Eq.refl _
    · exact setRules_autopollRegs _ _ _

theorem scheduled_editPhy (d : ℕ) (edit : MdioEdit) (hedit : edit.KeepsPolling) (h : Scheduled w) :
    Scheduled (editPhy w d edit).2 := by
  unfold editPhy
  split
  · exact h
  · rename_i c hknown
    refine ⟨fun d' c' hknown' => ?_,h.scanIndex,h.inTurn⟩
    by_cases hd : d = d'
    · subst hd
      have hlt := (List.getElem?_eq_some_iff.mp hknown).1
      have hset : (w.state.devices.items.set d (edit.apply c).2)[d]? = some c' := hknown'
      rw [List.getElem?_set_self hlt] at hset
      rw [← Option.some.inj hset,hedit c]
      exact h.pollIndex d c hknown
    · have hset : (w.state.devices.items.set d (edit.apply c).2)[d']? = some c' := hknown'
      rw [List.getElem?_set_ne hd] at hset
      exact h.pollIndex d' c' hset

theorem scheduled_editList (d list : ℕ) (edit : PolicyMode → MdioEdit) (hedit : ∀ list, (edit list).KeepsPolling)
    (h : Scheduled w) : Scheduled (editList w d list edit).2 := by
  unfold editList
  split
  · exact h
  · split
    · exact h
    · exact scheduled_editPhy d _ (hedit _) h

/-- A new configuration begins its list from the front. -/
theorem scheduled_applyConfig {d : ℕ} {old c : MdioPhyConfig} {devices : MdioPhys}
    (hitems : devices.items = w.state.devices.items.set d c) (h : Scheduled w) :
    Scheduled (applyConfig P w d old c devices).2 := by
  unfold applyConfig
  dsimp only
  have hdrop : Steady w (if busChanged old c = true then invalidate P w d old else (.ok,w)).2 := by
    split
    · exact steady_invalidate P w d old
    · exact steady_refl w
  generalize (if busChanged old c = true then invalidate P w d old else (.ok,w)) = out at hdrop ⊢
  have hkept := h.steady hdrop
  split
  · exact hkept
  · have hstart : Scheduled (((out.2.modify fun s => { s with devices := devices }).call (.configChanged d c)).modify
        (·.schedule d 0 0)) := by
      have htakes : takes (((out.2.modify fun s => { s with devices := devices }).call (.configChanged d c)).modify
          (·.schedule d 0 0)) = takes out.2 := (takes_call _ _).trans (List.append_nil _)
      refine ⟨fun d' c' hknown' => ?_,by rw [htakes]; exact hkept.scanIndex,by rw [htakes]; exact hkept.inTurn⟩
      by_cases hd : d' = d
      · subst hd
        exact Or.inl (Function.update_self _ _ _)
      · have hset : devices.items[d']? = some c' := hknown'
        rw [hitems,List.getElem?_set_ne (Ne.symm hd),← hdrop.devices] at hset
        simp only [World.modify,MdioState.schedule,Function.update_of_ne hd]
        exact hkept.pollIndex d' c' hset
    unfold startConfig
    dsimp only
    split
    · have hinvalid := hstart.steady (steady_invalidate P _ d c)
      split
      · exact hinvalid
      · exact hinvalid.steady (steady_seed P d c.phyAddr c.settings _)
    · exact hstart

theorem scheduled_setConfig (d : ℕ) (c : MdioPhyConfig) (h : Scheduled w) : Scheduled (serviceSetConfig P w d c).2 := by
  unfold serviceSetConfig
  split
  · refine scheduled_locked P id _ h fun w' h' => ?_
    split
    · split
      · exact h'
      · split
        · exact h'
        · exact scheduled_applyConfig P (Eq.refl _) h'
    · exact h'
  · exact h

/-- Every operation keeps the schedule. -/
theorem scheduled_step (op : MdioOp) (h : Scheduled w) : Scheduled (mdioStep P w op).1 := by
  cases op with
  | read d r source timeoutMs =>
    refine scheduled_locked P _ _ h fun w' h' => ?_
    split
    · exact h'
    · split
      · exact h'
      · exact h'.steady (steady_readPhy P w' d _ r source timeoutMs false)
  | write d r v source timeoutMs =>
    refine scheduled_locked P _ _ h fun w' h' => ?_
    split
    · exact h'
    · split
      · exact h'
      · exact h'.steady (steady_writePhy P w' d _ r v source timeoutMs)
  | invalidate d =>
    refine scheduled_locked P _ _ h fun w' h' => ?_
    split
    · exact h'
    · exact h'.steady (steady_invalidate P w' d _)
  | setPolicy d mode =>
    refine scheduled_locked P _ _ h fun w' h' => ?_
    split
    · exact h'
    · exact scheduled_editPhy d _ (fun _ => Eq.refl _) h'
  | ruleAdd d list reg value mask =>
    exact scheduled_locked P _ _ h fun w' h' =>
      scheduled_editList d list _ (fun list => addRuleEdit_polling list reg value mask) h'
  | ruleRemove d list reg value mask =>
    exact scheduled_locked P _ _ h fun w' h' =>
      scheduled_editList d list _ (fun list => removeRuleEdit_polling list reg value mask) h'
  | ruleClearList d list =>
    exact scheduled_locked P _ _ h fun w' h' =>
      scheduled_editList d list _ (fun list c => setRules_autopollRegs c list []) h'
  | setConfig d c => exact scheduled_setConfig P d c h
  | step now timeoutMs => exact (stepped P now timeoutMs h).scheduled P h

/-- So does every run of operations. -/
theorem scheduled_run (ops : List MdioOp) (h : Scheduled w) : Scheduled (final (mdioStep P) w ops) :=
  final_invariant (P := Scheduled) (fun _ op hw => scheduled_step P op hw) h ops

theorem scheduled_init {prepareSlave : ε → Status × ε} {devices : List MdioPhyConfig} {env : ε} {w : MdioWorld ε}
    (h : serviceInit P prepareSlave devices env = .ok w) : Scheduled w := by
  unfold serviceInit at h
  split at h
  · rename_i haccept
    dsimp only at h
    split at h
    · cases h
    · have hseed := steady_seedAll P 0 devices ((MdioState.zeroed haccept.phys).start (prepareSlave env).2)
      have hstart : Scheduled ((MdioState.zeroed haccept.phys).start (prepareSlave env).2) :=
        ⟨fun _ _ _ => Or.inl (Eq.refl _),Eq.refl _,Eq.refl _⟩
      generalize seedAll P 0 devices ((MdioState.zeroed haccept.phys).start (prepareSlave env).2) = out at h hseed
      split at h
      · cases h
      · obtain rfl := Except.ok.inj h
        exact hstart.steady hseed
  · cases h

end Steps

theorem mailboxAt_injective : Function.Injective mailboxAt := by
  intro i j h
  obtain ⟨hphy,hreg⟩ := Prod.mk.inj h
  omega

/-- A round of the mailboxes has each of them once. -/
theorem Scheduled.round {w : MdioWorld ε} (h : Scheduled w) {pre window post : List Take}
    (htakes : takes w = pre ++ window ++ post) (hround : window.length = mailboxCount) {phy reg : ℕ} (hphy : phy < 32)
    (hreg : reg < 32) : (window.map Take.mailbox).count (phy,reg) = 1 := by
  have hturn := h.inTurn
  rw [htakes,List.map_append,List.map_append] at hturn
  have hlength : (window.map Take.mailbox).length = mailboxCount := (List.length_map _).trans hround
  have hwindow := Rotation.positions_infix hturn.symm
  have hperm := Rotation.positions_perm (Nat.mod_lt (0 + (pre.map Take.mailbox).length) (show 0 < mailboxCount by decide))
  have hmem : phy * 32 + reg ∈ List.range mailboxCount := List.mem_range.mpr (by unfold mailboxCount; omega)
  have hmailbox : mailboxAt (phy * 32 + reg) = (phy,reg) := by
    rw [mailboxAt,Prod.mk.injEq]
    omega
  rw [hwindow,hlength,(hperm.map mailboxAt).count_eq,← hmailbox]
  exact List.count_eq_one_of_mem (List.nodup_range.map mailboxAt_injective) (List.mem_map_of_mem hmem)

/-! ## The worker -/

/-- In every run from the start of the service on, whatever the clock, the bus and the configurations: a step
polls at most one item, which is on the list of its PHY and one of its registers, of a PHY that is online if
it can be probed; what is captured is handled once, at most four writes in a step; and the mailboxes are
looked into in turn, a step stopping early only for its fourth write or an error. -/
theorem worker_schedule (P : MdioPlatform ε) (prepareSlave : ε → Status × ε) (devices : List MdioPhyConfig) (env : ε)
    (start : MdioWorld ε) (ops : List MdioOp) (hstart : serviceInit P prepareSlave devices env = .ok start) :
    let w := final (mdioStep P) start ops
    (∀ now timeoutMs, Stepped P now timeoutMs w (serviceStep P w now timeoutMs)) ∧
    (∀ op, ∃ new, (mdioStep P w op).1.calls = w.calls ++ new ∧ Accounted P w op (marks new)) ∧
    (∀ pre window post, takes w = pre ++ window ++ post → window.length = mailboxCount →
      ∀ phy reg, phy < 32 → reg < 32 → (window.map Take.mailbox).count (phy,reg) = 1) := by
  intro w
  have hscheduled : Scheduled w := scheduled_run P ops (scheduled_init P hstart)
  refine ⟨fun now timeoutMs => stepped P now timeoutMs hscheduled,fun op => ?_,
    fun pre window post htakes hround phy reg hphy hreg => hscheduled.round htakes hround hphy hreg⟩
  obtain ⟨l,haccounted,new,hnew,hmarks,-⟩ := accounted P w op
  exact ⟨new,hnew,by rw [marks,hmarks]; exact haccounted⟩

/-- A PHY with four registers and two of them to poll. -/
def pollingPhy : MdioPhyConfig := { plainPhy 4 [] with autopollEnabled := true, autopollRegs := [0,1] }

theorem pollingPhy_acceptable : Acceptable [pollingPhy] := by decide

/-- A configuration with a shorter list, put in between two steps. -/
theorem worker_schedule_one : ∃ start, serviceInit countingPlatform (.ok,·) [pollingPhy] 1 = .ok start ∧
    Stepped countingPlatform 2000 10
      (final (mdioStep countingPlatform) start [.step 0 10,.step 1 10,.setConfig 0 (plainPhy 4 [])])
      (serviceStep countingPlatform
        (final (mdioStep countingPlatform) start [.step 0 10,.step 1 10,.setConfig 0 (plainPhy 4 [])]) 2000 10) := by
  have hstart : serviceInit countingPlatform (.ok,·) [pollingPhy] 1 =
      .ok ((MdioState.zeroed pollingPhy_acceptable.phys).start 1) := dif_pos pollingPhy_acceptable
  exact ⟨_,hstart,(worker_schedule countingPlatform (.ok,·) [pollingPhy] 1 _
    [.step 0 10,.step 1 10,.setConfig 0 (plainPhy 4 [])] hstart).1 2000 10⟩

end Bvstk.Mdio
