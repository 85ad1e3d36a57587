import Bvstk.Library.Audit
import Bvstk.Mdio.Service

/-! # What the MDIO service writes and reports

The bus writes and audit events of each operation: a write is attempted, goes out at most
once, and has one outcome; what else an operation does shows in neither.
-/
namespace Bvstk.Mdio
open Config Events CallLog Audit
variable {ε : Type}

/-! ## What is seen -/

/-- A register write, as it is requested, captured, forwarded and reported. -/
structure MdioWrite where
  phy : ℕ
  reg : ℕ
  value : ℕ
  deriving DecidableEq, Repr

def mdioWrite (phy reg : UInt8) (value : UInt16) : MdioWrite := ⟨phy.toNat,reg.toNat,value.toNat⟩

/-- The audit events among all events. -/
def eventMark (e : Event) : Option (Mark MdioWrite) :=
  let x : MdioWrite := ⟨e.arg0,e.arg1,e.arg2⟩
  if e.type = EventType.regAttempt.code then some (.attempt x)
  else if e.type = EventType.regCommit.code then some (.outcome .commit x)
  else if e.type = EventType.regDenied.code then some (.outcome .denied x)
  else if e.type = EventType.fault.code then some (.outcome .fault x)
  else none

def MdioCall.mark : MdioCall → Option (Mark MdioWrite)
  | .takeWrite phy reg (.ok v) => some (.captured (mdioWrite phy reg v))
  | .write phy reg v _ _ => some (.forward (mdioWrite phy reg v))
  | .event e => eventMark e
  | _ => none

/-- A bus write goes to a configured PHY whose policy allows it now. -/
def Permitted (s : MdioState) : MdioCall → Prop
  | .write phy reg v _ _ => 
    ∃ (d : ℕ) (c : MdioPhyConfig), s.devices.items[d]? = some c ∧ c.phyAddr = phy ∧ mdioPolicyAllows c reg v = true
  | _ => True

/-- From `w` to `w'` the devices stayed, and exactly `marks` were seen. -/
structure Does (marks : List (Mark MdioWrite)) (w w' : MdioWorld ε) : Prop where
  devices : w'.state.devices = w.state.devices
  log : Logs Permitted MdioCall.mark marks w w'

section
variable {marks marks' : List (Mark MdioWrite)} {w w' w'' : MdioWorld ε}

theorem does_refl (w : MdioWorld ε) : Does [] w w := ⟨rfl,logs_refl w⟩

theorem Does.trans (h : Does marks w w') (h' : Does marks' w' w'') : Does (marks ++ marks') w w'' :=
  ⟨h'.devices.trans h.devices,h.log.trans h'.log⟩

theorem Does.after (h : Does [] w w') (h' : Does marks w' w'') : Does marks w w'' := h.trans h'

theorem Does.before (h : Does marks w w') (h' : Does [] w' w'') : Does marks w w'' :=
  ⟨h'.devices.trans h.devices,h.log.before h'.log⟩

/-- Nothing of the record or the devices is touched. -/
theorem does_of_eq (hdevices : w'.state.devices = w.state.devices) (hcalls : w'.calls = w.calls) : Does [] w w' :=
  ⟨hdevices,logs_of_calls hcalls⟩

theorem does_modify (f : MdioState → MdioState) (hdevices : (f w.state).devices = w.state.devices) :
    Does [] w (w.modify f) := does_of_eq hdevices rfl

/-- One call that is permitted. -/
theorem does_call {c : MdioCall} (hdevices : w'.state.devices = w.state.devices) (hcalls : w'.calls = w.calls)
    (hmarks : c.mark.toList = marks) (hc : Permitted w'.state c) : Does marks w (w'.call c) := by
  rw [← hmarks]
  exact ⟨hdevices,Logs.after (logs_of_calls hcalls) (logs_call hc)⟩

variable (P : MdioPlatform ε)

theorem does_publish (w : MdioWorld ε) (phy reg : UInt8) (value : UInt16) :
    Does [] w (publish P w phy reg value).2 := does_call rfl rfl rfl trivial

theorem does_cacheChanged (w : MdioWorld ε) (d : ℕ) (r : UInt8) : Does [] w (cacheChanged w d r) :=
  does_call rfl rfl rfl trivial

/-- An event that is no audit event. -/
theorem does_emitFlags (w : MdioWorld ε) (type : EventType) (status : Status) (source : EventSource)
    (phy reg : UInt8) (value : UInt16) (flags : ℕ) (htype : type = .masterRead ∨ type = .masterWrite ∨
      type = .captureWrite) : Does [] w (emitFlags P w type status source phy reg value flags) := by
  rcases htype with rfl | rfl | rfl
  · exact does_call rfl rfl rfl trivial
  · exact does_call rfl rfl rfl trivial
  · exact does_call rfl rfl rfl trivial

theorem does_attempt (w : MdioWorld ε) (source : EventSource) (phy reg : UInt8) (value : UInt16) :
    Does [.attempt (mdioWrite phy reg value)] w (emit P w .regAttempt .ok source phy reg value) :=
  does_call rfl rfl rfl trivial

theorem does_commit (w : MdioWorld ε) (source : EventSource) (phy reg : UInt8) (value : UInt16) :
    Does [.outcome .commit (mdioWrite phy reg value)] w (emit P w .regCommit .ok source phy reg value) :=
  does_call rfl rfl rfl trivial

theorem does_denied (w : MdioWorld ε) (status : Status) (source : EventSource) (phy reg : UInt8) (value : UInt16) :
    Does [.outcome .denied (mdioWrite phy reg value)] w (emit P w .regDenied status source phy reg value) :=
  does_call rfl rfl rfl trivial

theorem does_fault (w : MdioWorld ε) (status : Status) (source : EventSource) (phy reg : UInt8) (value : UInt16) :
    Does [.outcome .fault (mdioWrite phy reg value)] w (emit P w .fault status source phy reg value) :=
  does_call rfl rfl rfl trivial

/-! ## Cache and bus -/

theorem does_cacheChangedFrom (d left r : ℕ) (w : MdioWorld ε) : Does [] w (cacheChangedFrom d left r w) := by
  induction left generalizing r w with
  | zero => exact does_refl w
  | succ left ih => exact Does.after (does_cacheChanged w d (UInt8.ofNat r)) (ih _ _)

theorem does_publishOnes (phy : UInt8) (left r : ℕ) (result : Status) (w : MdioWorld ε) :
    Does [] w (publishOnes P phy left r result w).2 := by
  induction left generalizing r result w with
  | zero => exact does_refl w
  | succ left ih => exact Does.after (does_publish P w phy (UInt8.ofNat r) 0xFFFF) (ih _ _ _)

theorem does_invalidate (w : MdioWorld ε) (d : ℕ) (c : MdioPhyConfig) : Does [] w (invalidate P w d c).2 := by
  have hforget : Does [] w (w.modify (·.forget d)) := does_of_eq rfl rfl
  have hchanged := hforget.after (does_cacheChangedFrom d c.regCount.toNat 0 _)
  have hpresence := hchanged.after (does_call (c := .presence d 2) rfl rfl rfl trivial)
  exact hpresence.after (does_publishOnes P c.phyAddr 32 0 .ok _)

theorem does_storeRead (w : MdioWorld ε) (d : ℕ) (phy r : UInt8) (status : Status) (value : UInt16) (probe : Bool) :
    Does [] w (storeRead P w d phy r status value probe).2 := by
  unfold storeRead
  have hmirror : Does [] w (if status = .ok then publish P w phy r value else (status,w)).2 := by
    split
    · exact does_publish P w phy r value
    · exact does_refl w
  generalize (if status = .ok then publish P w phy r value else (status,w)) = out at hmirror ⊢
  dsimp only
  split
  · exact hmirror.after (does_of_eq rfl rfl)
  · have hdrop : Does [] out.2
        (out.2.modify fun s => s.setEntry d r { s.cache d r with valid := false }) := does_of_eq rfl rfl
    have hones := (hmirror.after hdrop).after (does_publish P _ phy r 0xFFFF)
    split
    · exact hones
    · exact hones.after (does_of_eq rfl rfl)

theorem does_readPhy (w : MdioWorld ε) (d : ℕ) (c : MdioPhyConfig) (r : UInt8) (source : EventSource)
    (timeoutMs : ℕ) (probe : Bool) : Does [] w (readPhy P w d c r source timeoutMs probe).2 := by
  unfold readPhy
  have hread : Does [] w (busRead P w c.phyAddr r timeoutMs).2 := does_call rfl rfl rfl trivial
  generalize busRead P w c.phyAddr r timeoutMs = out at hread ⊢
  obtain ⟨⟨status,value⟩,w₁⟩ := out
  dsimp only at hread ⊢
  have hevent := hread.after (does_emitFlags P w₁ .masterRead status source c.phyAddr r
    (if status = .ok then value else 0)
    (telemetryFlags w₁.state d .masterRead status (if status = .ok then value else 0) probe) (Or.inl rfl))
  have hcount := hevent.after (does_modify (·.countStats fun t => { t with reads := t.reads + 1 }) rfl)
  have hstore := hcount.after (does_storeRead P _ d c.phyAddr r status value probe)
  split
  · exact hstore
  · exact hstore.after (does_cacheChanged _ d r)

theorem does_dropBeforeWrite (w : MdioWorld ε) (d : ℕ) (c : MdioPhyConfig) (r : UInt8) (v : UInt16) :
    Does [] w (dropBeforeWrite P w d c r v) := by
  unfold dropBeforeWrite
  split
  · exact does_invalidate P w d c
  · have hdrop : Does [] w (w.modify fun s => s.setEntry d r { s.cache d r with valid := false }) :=
      does_of_eq rfl rfl
    exact (hdrop.after (does_cacheChanged _ d r)).after (does_publish P _ c.phyAddr r 0xFFFF)

/-! ## Writes -/

/-- A write that the policy allows goes out once and is then reported. -/
theorem does_forwardWrite {d : ℕ} {c : MdioPhyConfig} {r : UInt8} {v : UInt16}
    (hknown : w.state.devices.items[d]? = some c) (hallows : mdioPolicyAllows c r v = true) (source : EventSource)
    (timeoutMs : ℕ) (wasOnline : Bool) :
    ∃ o : Outcome, o ≠ .denied ∧ Does [.forward (mdioWrite c.phyAddr r v),.outcome o (mdioWrite c.phyAddr r v)] w
      (forwardWrite P w d c r v source timeoutMs wasOnline).2 := by
  have hdrop := does_dropBeforeWrite P w d c r v
  unfold forwardWrite
  dsimp only
  generalize dropBeforeWrite P w d c r v = w₁ at hdrop ⊢
  have hwrite : Does [.forward (mdioWrite c.phyAddr r v)] w₁
      (busWrite P w₁ c.phyAddr r v source timeoutMs).2 :=
    does_call rfl rfl rfl ⟨d,c,hdrop.devices ▸ hknown,rfl,hallows⟩
  have hsent := hdrop.after hwrite
  generalize busWrite P w₁ c.phyAddr r v source timeoutMs = out at hsent ⊢
  obtain ⟨status,w₂⟩ := out
  dsimp only at hsent ⊢
  have hevent := hsent.before (does_emitFlags P w₂ .masterWrite status source c.phyAddr r v
    (if wasOnline = true then eventFlagNone else eventFlagTelemetryUnconfirmed) (Or.inr (Or.inl rfl)))
  generalize emitFlags P w₂ .masterWrite status source c.phyAddr r v
    (if wasOnline = true then eventFlagNone else eventFlagTelemetryUnconfirmed) = w₃ at hevent ⊢
  split
  · have hcount := hevent.before (does_modify (·.countStats fun t => { t with writes := t.writes + 1 }) rfl)
    have hread := hcount.before (does_readPhy P _ d c r source timeoutMs false)
    have hschedule := hread.before (does_modify (·.schedule d 0 0) rfl)
    exact ⟨.commit,by simp,hschedule.trans (does_commit P _ source c.phyAddr r v)⟩
  · have hcount := hevent.before (does_modify (·.countStats fun t => { t with errors := t.errors + 1 }) rfl)
    exact ⟨.fault,by simp,hcount.trans (does_fault P _ status source c.phyAddr r v)⟩

/-- What was seen of a write is one episode. -/
theorem does_writePhy {d : ℕ} {c : MdioPhyConfig} (hknown : w.state.devices.items[d]? = some c) (r : UInt8)
    (v : UInt16) (source : EventSource) (timeoutMs : ℕ) :
    ∃ l, Episode (mdioWrite c.phyAddr r v) l ∧ Does l w (writePhy P w d c r v source timeoutMs).2 := by
  unfold writePhy
  dsimp only
  have hlast : Does [] w (w.modify (·.countStats fun t =>
    { t with lastPhy := c.phyAddr, lastReg := r, lastValue := v, lastSource := source })) := does_of_eq rfl rfl
  have hattempt := hlast.after (does_attempt P _ source c.phyAddr r v)
  generalize emit P (w.modify (·.countStats fun t =>
    { t with lastPhy := c.phyAddr, lastReg := r, lastValue := v, lastSource := source })) .regAttempt .ok source
    c.phyAddr r v = w₁ at hattempt ⊢
  split
  · have hcount := hattempt.before (does_modify (·.countStats fun t => { t with denied := t.denied + 1 }) rfl)
    have hdenied := hcount.trans (does_denied P _ .denied source c.phyAddr r v)
    exact ⟨_,.refused _ (by simp),hdenied.before (does_of_eq rfl rfl)⟩
  · rename_i hallows
    obtain ⟨o,ho,hforward⟩ := does_forwardWrite P (hattempt.devices ▸ hknown) (by simpa using hallows) source
      timeoutMs (w.state.online d)
    exact ⟨_,.forwarded _ ho,(hattempt.trans hforward).before (does_of_eq rfl rfl)⟩

/-! ## Captured writes -/

/-- The trail of `n` captured writes; one to a PHY that is not configured is denied. -/
inductive Captured (ps : MdioPhys) : ℕ → List (Mark MdioWrite) → Prop where
  | nil : Captured ps 0 []
  | cons {phy reg : UInt8} {v : UInt16} {n : ℕ} {l rest : List (Mark MdioWrite)}
      (h : Episode (mdioWrite phy reg v) l)
      (hunknown : (∀ c ∈ ps.items, c.phyAddr ≠ phy) →
        l = [.attempt (mdioWrite phy reg v),.outcome .denied (mdioWrite phy reg v)])
      (hrest : Captured ps n rest) : Captured ps (n + 1) (.captured (mdioWrite phy reg v) :: (l ++ rest))

theorem Captured.bracketed {ps : MdioPhys} {n : ℕ} (h : Captured ps n marks) : Bracketed marks := by
  induction h with
  | nil => exact .nil
  | cons hepisode _ _ ih => exact .captured hepisode ih

theorem phyAddr_of_findPhy {ps : MdioPhys} {phy : UInt8} {c : MdioPhyConfig}
    (h : ps.items[ps.findPhy phy]? = some c) : c.phyAddr = phy := by
  obtain ⟨hlt,hc⟩ := List.getElem?_eq_some_iff.mp h
  have hfound := List.findIdx_getElem (w := hlt)
  rw [← hc]
  exact beq_iff_eq.mp hfound

theorem does_handleCapture (w : MdioWorld ε) (phy reg : UInt8) (v : UInt16) (timeoutMs : ℕ) :
    ∃ l, Episode (mdioWrite phy reg v) l ∧
      ((∀ c ∈ w.state.devices.items, c.phyAddr ≠ phy) →
        l = [.attempt (mdioWrite phy reg v),.outcome .denied (mdioWrite phy reg v)]) ∧
      Does l w (handleCapture P w phy reg v timeoutMs).2 := by
  unfold handleCapture
  dsimp only
  have hcount : Does [] w (w.modify (·.countStats fun t => { t with observed := t.observed + 1 })) :=
    does_of_eq rfl rfl
  generalize w.modify (·.countStats fun t => { t with observed := t.observed + 1 }) = w₁ at hcount ⊢
  have hevent := hcount.after (does_emitFlags P w₁ .captureWrite .ok .host phy reg v
    (if w₁.state.devices.findPhy phy < w₁.state.devices.count ∧ w₁.state.online (w₁.state.devices.findPhy phy) = true
      then eventFlagNone else eventFlagTelemetryUnconfirmed) (Or.inr (Or.inr rfl)))
  have hsame := hcount.devices
  generalize emitFlags P w₁ .captureWrite .ok .host phy reg v
    (if w₁.state.devices.findPhy phy < w₁.state.devices.count ∧ w₁.state.online (w₁.state.devices.findPhy phy) = true
      then eventFlagNone else eventFlagTelemetryUnconfirmed) = w₂ at hevent ⊢
  rw [hsame, ← hevent.devices]
  cases hfind : w₂.state.devices.items[w₂.state.devices.findPhy phy]? with
  | none =>
    have hdenied := hevent.after (does_modify
      (·.countStats fun t => { t with unknownPhy := t.unknownPhy + 1, denied := t.denied + 1 }) rfl)
    have hattempt := hdenied.after (does_attempt P _ .host phy reg v)
    exact ⟨_,.refused _ (by simp),fun _ => rfl,hattempt.trans (does_denied P _ .notFound .host phy reg v)⟩
  | some c =>
    have haddr := phyAddr_of_findPhy hfind
    obtain ⟨l,hepisode,hwrite⟩ := does_writePhy P hfind reg v .host timeoutMs
    rw [haddr] at hepisode
    exact ⟨l,hepisode,fun hunknown => absurd haddr (hunknown c (List.mem_of_getElem? hfind)),hevent.after hwrite⟩

theorem does_takeWrite (w : MdioWorld ε) (phy reg : UInt8) :
    Does (MdioCall.mark (.takeWrite phy reg (takeWrite P w phy reg).1)).toList w (takeWrite P w phy reg).2 :=
  does_call rfl rfl rfl trivial

theorem does_scanMailboxes (timeoutMs left taken : ℕ) (result : Status) (w : MdioWorld ε) :
    ∃ n l, n ≤ 4 - taken ∧ Captured w.state.devices n l ∧
      Does l w (scanMailboxes P timeoutMs left taken result w).2 := by
  induction left generalizing taken result w with
  | zero => exact ⟨0,[],Nat.zero_le _,.nil,does_refl w⟩
  | succ left ih =>
    unfold scanMailboxes
    split
    · exact ⟨0,[],Nat.zero_le _,.nil,does_refl w⟩
    · rename_i hroom
      dsimp only
      have hscan : Does [] w (w.modify fun s => { s with scanIndex := (s.scanIndex + 1) % mailboxCount }) :=
        does_of_eq rfl rfl
      have htake := hscan.after (does_takeWrite P _ (UInt8.ofNat (w.state.scanIndex / 32))
        (UInt8.ofNat (w.state.scanIndex % 32)))
      generalize takeWrite P (w.modify fun s => { s with scanIndex := (s.scanIndex + 1) % mailboxCount })
        (UInt8.ofNat (w.state.scanIndex / 32)) (UInt8.ofNat (w.state.scanIndex % 32)) = out at htake ⊢
      obtain ⟨taking,w₁⟩ := out
      split
      · rename_i hempty
        cases hempty
        obtain ⟨n,l,hn,hcaptured,hrest⟩ := ih taken result w₁
        rw [htake.devices] at hcaptured
        exact ⟨n,l,hn,hcaptured,htake.after hrest⟩
      · rename_i hempty
        cases hempty
        exact ⟨0,[],Nat.zero_le _,.nil,htake.before (does_of_eq rfl rfl)⟩
      · rename_i hempty
        cases hempty
        obtain ⟨l,hepisode,hunknown,hcapture⟩ := does_handleCapture P w₁ (UInt8.ofNat (w.state.scanIndex / 32))
          (UInt8.ofNat (w.state.scanIndex % 32)) _ timeoutMs
        obtain ⟨n,rest,hn,hcaptured,hrest⟩ := ih (taken + 1) _ _
        have hdevices := htake.devices
        rw [hcapture.devices, hdevices] at hcaptured
        rw [hdevices] at hunknown
        exact ⟨n + 1,_,by omega,.cons hepisode hunknown hcaptured,htake.trans (hcapture.trans hrest)⟩

/-! ## Polling -/

theorem does_probe (w : MdioWorld ε) (d : ℕ) (c : MdioPhyConfig) (now : UInt64) (timeoutMs : ℕ) (result : Status) :
    Does [] w (probe P w d c now timeoutMs result).2 := by
  unfold probe
  have hfirst := does_readPhy P w d c 2 .internal timeoutMs true
  generalize readPhy P w d c 2 .internal timeoutMs true = out at hfirst ⊢
  obtain ⟨⟨status,id1⟩,w₁⟩ := out
  dsimp only at hfirst ⊢
  have hboth : Does [] w (if status = .ok then readPhy P w₁ d c 3 .internal timeoutMs true
      else ((status,0),w₁)).2 := by
    split
    · exact hfirst.after (does_readPhy P w₁ d c 3 .internal timeoutMs true)
    · exact hfirst
  generalize (if status = .ok then readPhy P w₁ d c 3 .internal timeoutMs true else ((status,0),w₁)) = out at hboth ⊢
  split
  · have hcached := (hboth.after (does_cacheChanged _ d 2)).after (does_cacheChanged _ d 3)
    have honline := hcached.after (does_modify (fun s : MdioState =>
      { s with
        pollDue := if s.online d = true then s.pollDue else Function.update s.pollDue d 0
        online := Function.update s.online d true }) rfl)
    exact (honline.after (does_call (c := .presence d 1) rfl rfl rfl trivial)).after (does_of_eq rfl rfl)
  · exact (hboth.after (does_invalidate P _ d c)).after (does_of_eq rfl rfl)

theorem does_autopoll (w : MdioWorld ε) (d : ℕ) (c : MdioPhyConfig) (now : UInt64) (timeoutMs : ℕ)
    (result : Status) : Does [] w (autopoll P w d c now timeoutMs result).2 := by
  unfold autopoll
  dsimp only
  have hread := does_readPhy P w d c (c.autopollRegs.getD (w.state.pollIndex d).toNat 0) .internal timeoutMs false
  generalize readPhy P w d c (c.autopollRegs.getD (w.state.pollIndex d).toNat 0) .internal timeoutMs false = out
    at hread ⊢
  have hfailed : Does [] w (if out.1.1 ≠ .ok then
      (out.1.1,(invalidate P out.2 d c).2.modify fun s =>
        { s with probeDue := Function.update s.probeDue d (now + 1000) })
      else (result,out.2)).2 := by
    split
    · exact (hread.after (does_invalidate P _ d c)).after (does_of_eq rfl rfl)
    · exact hread
  generalize (if out.1.1 ≠ .ok then
      (out.1.1,(invalidate P out.2 d c).2.modify fun s =>
        { s with probeDue := Function.update s.probeDue d (now + 1000) })
      else (result,out.2)) = out' at hfailed ⊢
  split
  · exact hfailed.after (does_of_eq rfl rfl)
  · exact hfailed.after (does_of_eq rfl rfl)

theorem does_pollNext (now : UInt64) (timeoutMs left : ℕ) (result : Status) (w : MdioWorld ε) :
    Does [] w (pollNext P now timeoutMs left result w).2 := by
  induction left generalizing result w with
  | zero => exact does_refl w
  | succ left ih =>
    unfold pollNext
    have hturn : Does [] w (w.modify fun s => { s with pollDevice := s.pollDevice + 1 }) := does_of_eq rfl rfl
    dsimp only
    split
    · exact hturn
    · split
      · exact hturn.after (does_probe P _ _ _ now timeoutMs result)
      · split
        · exact hturn.after (ih _ _)
        · split
          · exact hturn.after (ih _ _)
          · exact hturn.after (does_autopoll P _ _ _ now timeoutMs result)

theorem does_acknowledge (w : MdioWorld ε) (result : Status) : Does [] w (acknowledge P w result).2 := by
  unfold acknowledge
  dsimp only
  split
  · exact Does.after (does_call (c := .ackSlave _) rfl rfl rfl trivial) (does_of_eq rfl rfl)
  · exact does_call rfl rfl rfl trivial

/-! ## Configuration -/

theorem logs_editPhy (w : MdioWorld ε) (d : ℕ) (edit : MdioEdit) :
    Logs Permitted MdioCall.mark [] w (editPhy w d edit).2 := by
  unfold editPhy
  split
  · exact logs_refl w
  · exact logs_of_calls rfl

theorem logs_editList (w : MdioWorld ε) (d list : ℕ) (edit : PolicyMode → MdioEdit) :
    Logs Permitted MdioCall.mark [] w (editList w d list edit).2 := by
  unfold editList
  split
  · exact logs_refl w
  · split
    · exact logs_refl w
    · exact logs_editPhy w d _

theorem does_seed (d : ℕ) (phy : UInt8) (settings : List MdioSetting) (w : MdioWorld ε) :
    Does [] w (seed P d phy settings w).2 := by
  induction settings generalizing w with
  | nil => exact does_refl w
  | cons v settings ih =>
    unfold seed
    have hpublish := does_publish P w phy v.reg v.val
    generalize publish P w phy v.reg v.val = out at hpublish ⊢
    dsimp only
    split
    · exact hpublish
    · have hentry : Does [] out.2 (World.modify { out.2 with env := (P.nowMs out.2.env).2 }
          (·.setEntry d v.reg ⟨v.val,true,true,(P.nowMs out.2.env).1⟩)) := does_of_eq rfl rfl
      exact ((hpublish.after hentry).after (does_cacheChanged _ d v.reg)).after (ih _)

theorem does_startConfig (w : MdioWorld ε) (d : ℕ) (c : MdioPhyConfig) (changed : Bool) :
    Does [] w (startConfig P w d c changed).2 := by
  unfold startConfig
  have hreport : Does [] w (w.call (.configChanged d c)) := does_call rfl rfl rfl trivial
  have hstart := hreport.after (does_modify (·.schedule d 0 0) rfl)
  dsimp only
  split
  · have hdrop := hstart.after (does_invalidate P _ d c)
    split
    · exact hdrop
    · exact hdrop.after (does_seed P d c.phyAddr c.settings _)
  · exact hstart

theorem logs_applyConfig (w : MdioWorld ε) (d : ℕ) (old c : MdioPhyConfig) (devices : MdioPhys) :
    Logs Permitted MdioCall.mark [] w (applyConfig P w d old c devices).2 := by
  unfold applyConfig
  dsimp only
  have hold : Does [] w (if busChanged old c = true then invalidate P w d old else (.ok,w)).2 := by
    split
    · exact does_invalidate P w d old
    · exact does_refl w
  generalize (if busChanged old c = true then invalidate P w d old else (.ok,w)) = out at hold ⊢
  split
  · exact hold.log
  · have hdevices : Logs Permitted MdioCall.mark [] out.2
        (out.2.modify fun s => { s with devices := devices }) := logs_of_calls rfl
    exact (hold.log.after hdevices).after (does_startConfig P _ d c (busChanged old c)).log

/-- The worker shows the episodes of at most four captured writes. -/
theorem does_work (now : UInt64) (timeoutMs limit : ℕ) (w : MdioWorld ε) :
    ∃ n l, n ≤ 4 ∧ Captured w.state.devices n l ∧ Does l w (work P now timeoutMs limit w).2 := by
  obtain ⟨n,l,hn,hcaptured,hscan⟩ := does_scanMailboxes P timeoutMs limit 0 .ok w
  have hack := hscan.before (does_acknowledge P _ (scanMailboxes P timeoutMs limit 0 .ok w).1)
  exact ⟨n,l,hn,hcaptured,hack.before (does_pollNext P now timeoutMs _ _ _)⟩

/-! ## The lock -/

theorem locked_ok {α : Type} {w : MdioWorld ε} (hlock : (P.lock w.env).1 = .ok) (refuse : Status → α)
    (f : MdioWorld ε → α × MdioWorld ε) : locked P w refuse f = f { w with env := (P.lock w.env).2 } := by
  unfold locked
  simp only [hlock, ne_eq, not_true, if_false]

theorem does_unlocked {α : Type} {w : MdioWorld ε} (hlock : (P.lock w.env).1 ≠ .ok) (refuse : Status → α)
    (f : MdioWorld ε → α × MdioWorld ε) : Does [] w (locked P w refuse f).2 := by
  unfold locked
  simp only [hlock, ne_eq, not_false_eq_true, if_true]
  exact does_of_eq rfl rfl

/-- An operation that shows nothing, whether or not it gets the lock. -/
theorem logs_silent {α : Type} (w : MdioWorld ε) (refuse : Status → α) (f : MdioWorld ε → α × MdioWorld ε)
    (h : ∀ w', Logs Permitted MdioCall.mark [] w' (f w').2) :
    Logs Permitted MdioCall.mark [] w (locked P w refuse f).2 := by
  by_cases hlock : (P.lock w.env).1 = .ok
  · rw [locked_ok P hlock]
    exact Logs.after (logs_of_calls rfl) (h _)
  · exact (does_unlocked P hlock refuse f).log

end

end Bvstk.Mdio
