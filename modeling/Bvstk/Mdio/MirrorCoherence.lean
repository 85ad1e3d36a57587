import Bvstk.Cache.RegistryStructure
import Bvstk.Mdio.Bridge
import Bvstk.Mdio.PolicySafety

/-! # The registry mirrors the MDIO service

Each operation of the service leaves the registry showing what the service holds: a
register that changes is stale until it is reported, a PHY that is forgotten is stale as a
whole until its registers and its presence are.
-/
namespace Bvstk.Mdio
open Config Events Cache CallLog Machine
variable {ε : Type}

/-! ## Steps of the service -/

/-- A call on which the bridge does nothing. -/
def MdioCall.Unseen : MdioCall → Prop
  | .entry .. => False
  | .presence .. => False
  | .configChanged .. => False
  | _ => True

/-- From `w` to `w'` nothing changed that the bridge exports, and nothing was reported. -/
structure Quiet (w w' : MdioWorld ε) : Prop where
  devices : w'.state.devices = w.state.devices
  cache : w'.state.cache = w.state.cache
  online : w'.state.online = w.state.online
  calls : Makes (fun _ c => c.Unseen) w w'

section
variable {w w' w'' : MdioWorld ε}

theorem quiet_refl (w : MdioWorld ε) : Quiet w w := ⟨rfl,rfl,rfl,makes_refl w⟩

theorem Quiet.trans (h : Quiet w w') (h' : Quiet w' w'') : Quiet w w'' :=
  ⟨h'.devices.trans h.devices,h'.cache.trans h.cache,h'.online.trans h.online,h.calls.trans h'.calls⟩

/-- The environment and the parts of the state that are not exported. -/
theorem quiet_of_eq (hdevices : w'.state.devices = w.state.devices) (hcache : w'.state.cache = w.state.cache)
    (honline : w'.state.online = w.state.online) (hcalls : w'.calls = w.calls) : Quiet w w' :=
  ⟨hdevices,hcache,honline,makes_of_calls hcalls⟩

theorem quiet_modify (f : MdioState → MdioState) (hdevices : (f w.state).devices = w.state.devices)
    (hcache : (f w.state).cache = w.state.cache) (honline : (f w.state).online = w.state.online) :
    Quiet w (w.modify f) := quiet_of_eq hdevices hcache honline rfl

theorem quiet_call {c : MdioCall} (hc : c.Unseen) (hdevices : w'.state.devices = w.state.devices)
    (hcache : w'.state.cache = w.state.cache) (honline : w'.state.online = w.state.online)
    (hcalls : w'.calls = w.calls) : Quiet w (w'.call c) :=
  ⟨hdevices,hcache,honline,(makes_of_calls hcalls).trans (makes_call hc)⟩

variable (P : MdioPlatform ε)

theorem quiet_publish (w : MdioWorld ε) (phy reg : UInt8) (value : UInt16) :
    Quiet w (publish P w phy reg value).2 := quiet_call trivial rfl rfl rfl rfl

theorem quiet_emitFlags (w : MdioWorld ε) (type : EventType) (status : Status) (source : EventSource)
    (phy reg : UInt8) (value : UInt16) (flags : ℕ) :
    Quiet w (emitFlags P w type status source phy reg value flags) := quiet_call trivial rfl rfl rfl rfl

theorem quiet_emit (w : MdioWorld ε) (type : EventType) (status : Status) (source : EventSource)
    (phy reg : UInt8) (value : UInt16) : Quiet w (emit P w type status source phy reg value) :=
  quiet_emitFlags P w type status source phy reg value eventFlagNone

theorem quiet_busRead (w : MdioWorld ε) (phy reg : UInt8) (timeoutMs : ℕ) :
    Quiet w (busRead P w phy reg timeoutMs).2 := quiet_call trivial rfl rfl rfl rfl

theorem quiet_busWrite (w : MdioWorld ε) (phy reg : UInt8) (v : UInt16) (source : EventSource) (timeoutMs : ℕ) :
    Quiet w (busWrite P w phy reg v source timeoutMs).2 := quiet_call trivial rfl rfl rfl rfl

theorem quiet_takeWrite (w : MdioWorld ε) (phy reg : UInt8) : Quiet w (takeWrite P w phy reg).2 :=
  quiet_call trivial rfl rfl rfl rfl

theorem quiet_publishOnes (phy : UInt8) (left r : ℕ) (result : Status) (w : MdioWorld ε) :
    Quiet w (publishOnes P phy left r result w).2 := by
  induction left generalizing r result w with
  | zero => exact quiet_refl w
  | succ left ih => exact (quiet_publish P w phy (UInt8.ofNat r) 0xFFFF).trans (ih _ _ _)

theorem quiet_acknowledge (w : MdioWorld ε) (result : Status) : Quiet w (acknowledge P w result).2 := by
  unfold acknowledge
  dsimp only
  split
  · exact Quiet.trans (quiet_call (c := .ackSlave _) trivial rfl rfl rfl rfl) (quiet_of_eq rfl rfl rfl rfl)
  · exact quiet_call trivial rfl rfl rfl rfl

end

/-! ## Coherence -/

/-- The registry shows the service in the world `w`, but for the exceptions. -/
def Coherent (now : ℕ → UInt64) (b : Bridge) (stale : ℕ → ℕ → Prop) (doubt : ℕ → Prop) (w : MdioWorld ε) :
    Prop := Mirrors stale doubt w.state (bridgeAt now b w)

/-- Register `r` of PHY `d`, and all of PHY `d`, besides what is stale already. -/
def orAt (stale : ℕ → ℕ → Prop) (d r : ℕ) (d' i : ℕ) : Prop := stale d' i ∨ d' = d ∧ i = r
def orAll (stale : ℕ → ℕ → Prop) (d : ℕ) (d' i : ℕ) : Prop := stale d' i ∨ d' = d

section
variable {now : ℕ → UInt64} {b : Bridge} {stale stale' : ℕ → ℕ → Prop} {doubt doubt' : ℕ → Prop}
  {w w' : MdioWorld ε}

theorem Coherent.mono (h : Coherent now b stale doubt w)
    (hstale : ∀ d c, w.state.devices.items[d]? = some c → ∀ i < c.regCount.toNat, stale d i → stale' d i)
    (hdoubt : ∀ d, doubt d → doubt' d) : Coherent now b stale' doubt' w := Mirrors.mono h hstale hdoubt

theorem Coherent.quiet (h : Coherent now b stale doubt w) (hquiet : Quiet w w') :
    Coherent now b stale doubt w' := by
  obtain ⟨new,hnew,hunseen⟩ := hquiet.calls
  have hsame : ∀ calls : List (MdioState × MdioCall), (∀ p ∈ calls, p.2.Unseen) → ∀ b, calls.foldl (observe now) b = b := by
    intro calls
    induction calls with
    | nil => exact fun _ _ => rfl
    | cons p calls ih =>
      intro hcalls b
      obtain ⟨s,c⟩ := p
      have hp := hcalls _ List.mem_cons_self
      have hone : observe now b (s,c) = b := by
        cases c with
        | entry d r e => exact absurd hp not_false
        | presence d presence => exact absurd hp not_false
        | configChanged d c => exact absurd hp not_false
        | _ => rfl
      rw [List.foldl_cons, hone]
      exact ih (fun q hq => hcalls q (List.mem_cons_of_mem _ hq)) b
  have hbridge : bridgeAt now b w' = bridgeAt now b w := by
    rw [bridgeAt, hnew, List.foldl_append]
    exact hsame new hunseen _
  unfold Coherent
  rw [hbridge]
  refine Mirrors.congr h (congrArg MdioPhys.count hquiet.devices) (fun d => ?_) (fun d c _ i _ _ => ?_) fun d _ => by
    rw [hquiet.online]
  · rw [MdioState.catalog, MdioState.catalog, hquiet.devices]
  · rw [MdioState.samples, MdioState.samples, hquiet.cache]

theorem coherent_setEntry (h : Coherent now b stale doubt w) (d : ℕ) (r : UInt8) (e : MdioCacheEntry) :
    Coherent now b (orAt stale d r.toNat) doubt (w.modify (·.setEntry d r e)) := by
  have hmore : Coherent now b (orAt stale d r.toNat) doubt w := h.mono (fun _ _ _ _ _ => Or.inl) fun _ hd => hd
  refine Mirrors.congr hmore rfl (fun _ => rfl) ?_ fun _ _ => rfl
  intro d' c hknown i hi hcurrent
  have hsmall := regCount_le (w.state.devices.valid c (List.mem_of_getElem? hknown))
  simp only [modify_state, MdioState.samples, MdioState.setEntry]
  by_cases hd : d' = d
  · subst hd
    have hne : UInt8.ofNat i ≠ r := by
      rintro rfl
      have hi' : (UInt8.ofNat i).toNat = i := by
        rw [UInt8.toNat_ofNat']
        exact Nat.mod_eq_of_lt (by omega)
      exact hcurrent (Or.inr ⟨rfl,hi'.symm⟩)
    rw [Function.update_self, Function.update_of_ne hne]
  · rw [Function.update_of_ne hd]

theorem coherent_cacheChanged (h : Coherent now b stale doubt w) (d : ℕ) (r : UInt8) :
    Coherent now b (fun d' i => stale d' i ∧ ¬(d' = d ∧ i = r.toNat)) doubt (cacheChanged w d r) := by
  have hbridge : bridgeAt now b (cacheChanged w d r) =
      mdioEntry now (bridgeAt now b w) w.state d r (w.state.cache d r) := by
    rw [bridgeAt, cacheChanged, World.call, List.foldl_append]
    rfl
  unfold Coherent
  rw [hbridge]
  exact mirrors_entry now h d r

/-- A register that is reported as soon as it has changed. -/
theorem coherent_report {d : ℕ} {r : UInt8} (h : Coherent now b (orAt stale d r.toNat) doubt w) :
    Coherent now b stale doubt (cacheChanged w d r) := by
  refine (coherent_cacheChanged h d r).mono ?_ fun _ hd => hd
  rintro d' c hknown i hi ⟨hstale | hat,hnot⟩
  · exact hstale
  · exact absurd hat hnot

theorem coherent_cacheChangedFrom (d left r : ℕ) (hr : r + left ≤ 256) (h : Coherent now b stale doubt w) :
    Coherent now b (fun d' i => stale d' i ∧ ¬(d' = d ∧ r ≤ i ∧ i < r + left)) doubt
      (cacheChangedFrom d left r w) := by
  induction left generalizing r stale w with
  | zero => exact h.mono (fun _ _ _ i _ hstale => ⟨hstale,by omega⟩) fun _ hd => hd
  | succ left ih =>
    have hfirst : (UInt8.ofNat r).toNat = r := by
      rw [UInt8.toNat_ofNat']
      exact Nat.mod_eq_of_lt (by omega)
    refine (ih (r + 1) (by omega) (coherent_cacheChanged h d (UInt8.ofNat r))).mono ?_ fun _ hd => hd
    rintro d' c hknown i hi ⟨⟨hstale,hne⟩,hrest⟩
    rw [hfirst] at hne
    refine ⟨hstale,fun hin => ?_⟩
    by_cases hi' : i = r
    · exact hne ⟨hin.1,hi'⟩
    · exact hrest ⟨hin.1,by omega,by omega⟩

theorem coherent_forget (h : Coherent now b stale doubt w) (d : ℕ) :
    Coherent now b (orAll stale d) (fun d' => doubt d' ∨ d' = d) (w.modify (·.forget d)) := by
  have hmore : Coherent now b (orAll stale d) (fun d' => doubt d' ∨ d' = d) w :=
    h.mono (fun _ _ _ _ _ => Or.inl) fun _ => Or.inl
  refine Mirrors.congr hmore rfl (fun _ => rfl) ?_ ?_
  · intro d' c _ i _ hcurrent
    simp only [modify_state, MdioState.samples, MdioState.forget]
    rw [Function.update_of_ne fun hd => hcurrent (Or.inr hd)]
  · intro d' hsure
    simp only [modify_state, MdioState.forget]
    rw [Function.update_of_ne fun hd => hsure (Or.inr hd)]

theorem coherent_presence (h : Coherent now b stale doubt w) {d presence : ℕ} {c : MdioPhyConfig}
    (hknown : w.state.devices.items[d]? = some c) (hpresence : presence ≤ presenceUnavailable)
    (honline : presence = presenceReady ↔ w.state.online d = true) :
    Coherent now b stale (fun d' => doubt d' ∧ d' ≠ d) (w.call (.presence d presence)) := by
  have hbridge : bridgeAt now b (w.call (.presence d presence)) =
      mdioPresence now (bridgeAt now b w) d presence := by
    rw [bridgeAt, World.call, List.foldl_append]
    rfl
  unfold Coherent
  rw [hbridge]
  exact Bridge.Mirrors.presence now h (lt_count hknown) hpresence honline

/-! ## Cache and bus -/

variable (P : MdioPlatform ε)

theorem cacheChangedFrom_state (d left r : ℕ) (w : MdioWorld ε) : (cacheChangedFrom d left r w).state = w.state := by
  induction left generalizing r w with
  | zero => rfl
  | succ left ih => exact ih (r + 1) _

/-- Forgetting a PHY leaves nothing of it stale, whatever was. -/
theorem coherent_invalidate {d : ℕ} {c : MdioPhyConfig} (hknown : w.state.devices.items[d]? = some c)
    (h : Coherent now b stale doubt w) :
    Coherent now b (fun d' i => stale d' i ∧ d' ≠ d) (fun d' => doubt d' ∧ d' ≠ d) (invalidate P w d c).2 := by
  have hsmall := regCount_le (w.state.devices.valid c (List.mem_of_getElem? hknown))
  have hreported := coherent_cacheChangedFrom d c.regCount.toNat 0 (by omega) (coherent_forget h d)
  have hstate := cacheChangedFrom_state d c.regCount.toNat 0 (w.modify (·.forget d))
  have hpresence := coherent_presence hreported (d := d) (c := c) (hstate ▸ hknown) (Nat.le_refl 2)
    (by
      rw [hstate, modify_state, MdioState.forget]
      simp [presenceReady])
  refine Coherent.mono (hpresence.quiet (quiet_publishOnes P c.phyAddr 32 0 .ok _)) ?_ ?_
  · rintro d' c' hknown' i hi ⟨hstale | rfl,hout⟩
    · refine ⟨hstale,fun hd => ?_⟩
      subst hd
      have hdevices := (does_invalidate P w d' c).devices
      have hknown'' : w.state.devices.items[d']? = some c' := by rw [← hdevices]; exact hknown'
      cases hknown.symm.trans hknown''
      exact hout ⟨rfl,Nat.zero_le i,by omega⟩
    · have hdevices := (does_invalidate P w d' c).devices
      have hknown'' : w.state.devices.items[d']? = some c' := by rw [← hdevices]; exact hknown'
      cases hknown.symm.trans hknown''
      exact absurd ⟨rfl,Nat.zero_le i,by omega⟩ hout
  · rintro d' ⟨hdoubt | hd,hne⟩
    · exact ⟨hdoubt,hne⟩
    · exact absurd hd hne

theorem coherent_storeRead (d : ℕ) (phy r : UInt8) (status : Status) (value : UInt16) (probe : Bool)
    (h : Coherent now b stale doubt w) :
    Coherent now b (orAt stale d r.toNat) doubt (storeRead P w d phy r status value probe).2 := by
  unfold storeRead
  have hmirror : Quiet w (if status = .ok then publish P w phy r value else (status,w)).2 := by
    split
    · exact quiet_publish P w phy r value
    · exact quiet_refl w
  generalize (if status = .ok then publish P w phy r value else (status,w)) = out at hmirror ⊢
  have hout := h.quiet hmirror
  dsimp only
  split
  · have hclock : Coherent now b stale doubt { out.2 with env := (P.nowMs out.2.env).2 } :=
      hout.quiet (quiet_of_eq rfl rfl rfl rfl)
    exact coherent_setEntry hclock d r _
  · have hdrop := coherent_setEntry hout d r { out.2.state.cache d r with valid := false }
    have hones := hdrop.quiet (quiet_publish P _ phy r 0xFFFF)
    split
    · exact hones
    · exact hones.quiet (quiet_of_eq rfl rfl rfl rfl)

/-- A read that is reported, and one that is a probe. -/
theorem coherent_readPhy (d : ℕ) (c : MdioPhyConfig) (r : UInt8) (source : EventSource) (timeoutMs : ℕ)
    (probe : Bool) (h : Coherent now b stale doubt w) :
    Coherent now b (if probe = true then orAt stale d r.toNat else stale) doubt
      (readPhy P w d c r source timeoutMs probe).2 := by
  unfold readPhy
  have hread := quiet_busRead P w c.phyAddr r timeoutMs
  generalize busRead P w c.phyAddr r timeoutMs = out at hread ⊢
  obtain ⟨⟨status,value⟩,w₁⟩ := out
  dsimp only at hread ⊢
  have hevent := hread.trans (quiet_emitFlags P w₁ .masterRead status source c.phyAddr r
    (if status = .ok then value else 0)
    (telemetryFlags w₁.state d .masterRead status (if status = .ok then value else 0) probe))
  have hcount := hevent.trans (quiet_modify (·.countStats fun t => { t with reads := t.reads + 1 }) rfl rfl rfl)
  have hstore := coherent_storeRead P d c.phyAddr r status value probe (h.quiet hcount)
  split
  · exact hstore
  · exact coherent_report hstore

theorem coherent_read (d : ℕ) (c : MdioPhyConfig) (r : UInt8) (source : EventSource) (timeoutMs : ℕ)
    (h : Coherent now b stale doubt w) :
    Coherent now b stale doubt (readPhy P w d c r source timeoutMs false).2 :=
  coherent_readPhy P d c r source timeoutMs false h

theorem coherent_forgotten {d : ℕ} {c : MdioPhyConfig} (hknown : w.state.devices.items[d]? = some c)
    (h : Coherent now b Fresh Sure w) : Coherent now b Fresh Sure (invalidate P w d c).2 :=
  (coherent_invalidate P hknown h).mono (fun _ _ _ _ _ hstale => hstale.1) fun _ hdoubt => hdoubt.1

/-! ## Writes -/

theorem coherent_dropBeforeWrite {d : ℕ} {c : MdioPhyConfig} (hknown : w.state.devices.items[d]? = some c)
    (r : UInt8) (v : UInt16) (h : Coherent now b Fresh Sure w) :
    Coherent now b Fresh Sure (dropBeforeWrite P w d c r v) := by
  unfold dropBeforeWrite
  split
  · exact coherent_forgotten P hknown h
  · have hdrop := coherent_setEntry h d r { w.state.cache d r with valid := false }
    exact Coherent.quiet (coherent_report hdrop) (quiet_publish P _ c.phyAddr r 0xFFFF)

theorem coherent_forwardWrite {d : ℕ} {c : MdioPhyConfig} (hknown : w.state.devices.items[d]? = some c) (r : UInt8)
    (v : UInt16) (source : EventSource) (timeoutMs : ℕ) (wasOnline : Bool) (h : Coherent now b Fresh Sure w) :
    Coherent now b Fresh Sure (forwardWrite P w d c r v source timeoutMs wasOnline).2 := by
  have hdrop := coherent_dropBeforeWrite P hknown r v h
  unfold forwardWrite
  dsimp only
  generalize dropBeforeWrite P w d c r v = w₁ at hdrop ⊢
  have hsent := quiet_busWrite P w₁ c.phyAddr r v source timeoutMs
  generalize busWrite P w₁ c.phyAddr r v source timeoutMs = out at hsent ⊢
  obtain ⟨status,w₂⟩ := out
  dsimp only at hsent ⊢
  have hevent := hsent.trans (quiet_emitFlags P w₂ .masterWrite status source c.phyAddr r v
    (if wasOnline = true then eventFlagNone else eventFlagTelemetryUnconfirmed))
  split
  · have hcount := hevent.trans (quiet_modify (·.countStats fun t => { t with writes := t.writes + 1 }) rfl rfl rfl)
    have hread := coherent_read P d c r source timeoutMs (hdrop.quiet hcount)
    have hschedule := Coherent.quiet hread (quiet_modify (·.schedule d 0 0) rfl rfl rfl)
    exact hschedule.quiet (quiet_emit P _ .regCommit .ok source c.phyAddr r v)
  · have hcount := hevent.trans (quiet_modify (·.countStats fun t => { t with errors := t.errors + 1 }) rfl rfl rfl)
    exact (hdrop.quiet hcount).quiet (quiet_emit P _ .fault status source c.phyAddr r v)

theorem coherent_writePhy {d : ℕ} {c : MdioPhyConfig} (hknown : w.state.devices.items[d]? = some c) (r : UInt8)
    (v : UInt16) (source : EventSource) (timeoutMs : ℕ) (h : Coherent now b Fresh Sure w) :
    Coherent now b Fresh Sure (writePhy P w d c r v source timeoutMs).2 := by
  unfold writePhy
  dsimp only
  have hlast : Quiet w (w.modify (·.countStats fun t =>
    { t with lastPhy := c.phyAddr, lastReg := r, lastValue := v, lastSource := source })) :=
    quiet_of_eq rfl rfl rfl rfl
  have hattempt := hlast.trans (quiet_emit P _ .regAttempt .ok source c.phyAddr r v)
  generalize emit P (w.modify (·.countStats fun t =>
    { t with lastPhy := c.phyAddr, lastReg := r, lastValue := v, lastSource := source })) .regAttempt .ok source
    c.phyAddr r v = w₁ at hattempt ⊢
  have hw₁ := h.quiet hattempt
  split
  · have hcount := Coherent.quiet hw₁ (quiet_modify (·.countStats fun t => { t with denied := t.denied + 1 }) rfl rfl rfl)
    exact (hcount.quiet (quiet_emit P _ .regDenied .denied source c.phyAddr r v)).quiet
      (quiet_of_eq rfl rfl rfl rfl)
  · have hforward := coherent_forwardWrite P (hattempt.devices ▸ hknown) r v source timeoutMs (w.state.online d) hw₁
    exact Coherent.quiet hforward (quiet_of_eq rfl rfl rfl rfl)

/-! ## The worker -/

theorem coherent_handleCapture (phy reg : UInt8) (v : UInt16) (timeoutMs : ℕ) (h : Coherent now b Fresh Sure w) :
    Coherent now b Fresh Sure (handleCapture P w phy reg v timeoutMs).2 := by
  unfold handleCapture
  dsimp only
  have hcount : Quiet w (w.modify (·.countStats fun t => { t with observed := t.observed + 1 })) :=
    quiet_of_eq rfl rfl rfl rfl
  generalize w.modify (·.countStats fun t => { t with observed := t.observed + 1 }) = w₁ at hcount ⊢
  have hevent := hcount.trans (quiet_emitFlags P w₁ .captureWrite .ok .host phy reg v
    (if w₁.state.devices.findPhy phy < w₁.state.devices.count ∧ w₁.state.online (w₁.state.devices.findPhy phy) = true
      then eventFlagNone else eventFlagTelemetryUnconfirmed))
  generalize w₁.state.devices.findPhy phy = d at hevent ⊢
  generalize emitFlags P w₁ .captureWrite .ok .host phy reg v
    (if d < w₁.state.devices.count ∧ w₁.state.online d = true
      then eventFlagNone else eventFlagTelemetryUnconfirmed) = w₂ at hevent ⊢
  cases hknown : w₂.state.devices.items[d]? with
  | none =>
    have hdenied := hevent.trans (quiet_modify
      (·.countStats fun t => { t with unknownPhy := t.unknownPhy + 1, denied := t.denied + 1 }) rfl rfl rfl)
    have hattempt := hdenied.trans (quiet_emit P _ .regAttempt .ok .host phy reg v)
    exact h.quiet (hattempt.trans (quiet_emit P _ .regDenied .notFound .host phy reg v))
  | some c => exact coherent_writePhy P hknown reg v .host timeoutMs (h.quiet hevent)

theorem coherent_scanMailboxes (timeoutMs left taken : ℕ) (result : Status) (h : Coherent now b Fresh Sure w) :
    Coherent now b Fresh Sure (scanMailboxes P timeoutMs left taken result w).2 := by
  induction left generalizing taken result w with
  | zero => exact h
  | succ left ih =>
    unfold scanMailboxes
    split
    · exact h
    · dsimp only
      have hscan : Quiet w (w.modify fun s => { s with scanIndex := (s.scanIndex + 1) % mailboxCount }) :=
        quiet_of_eq rfl rfl rfl rfl
      have htake := hscan.trans (quiet_takeWrite P _ (UInt8.ofNat (w.state.scanIndex / 32))
        (UInt8.ofNat (w.state.scanIndex % 32)))
      generalize takeWrite P (w.modify fun s => { s with scanIndex := (s.scanIndex + 1) % mailboxCount })
        (UInt8.ofNat (w.state.scanIndex / 32)) (UInt8.ofNat (w.state.scanIndex % 32)) = out at htake ⊢
      obtain ⟨taking,w₁⟩ := out
      have hw₁ := h.quiet htake
      split
      · rename_i hempty
        cases hempty
        exact ih taken result hw₁
      · rename_i hempty
        cases hempty
        exact Coherent.quiet hw₁ (quiet_of_eq rfl rfl rfl rfl)
      · rename_i hempty
        cases hempty
        exact ih (taken + 1) _ (coherent_handleCapture P _ _ _ timeoutMs hw₁)

/-- A probe publishes what it has read once both registers are accepted, and otherwise
forgets the PHY. -/
theorem coherent_probe {d : ℕ} {c : MdioPhyConfig} (hknown : w.state.devices.items[d]? = some c) (due : UInt64)
    (timeoutMs : ℕ) (result : Status) (h : Coherent now b Fresh Sure w) :
    Coherent now b Fresh Sure (probe P w d c due timeoutMs result).2 := by
  unfold probe
  have hfirst := coherent_readPhy P d c 2 .internal timeoutMs true h
  have hdevices := (does_readPhy P w d c 2 .internal timeoutMs true).devices
  generalize readPhy P w d c 2 .internal timeoutMs true = out at hfirst hdevices ⊢
  obtain ⟨⟨status,id1⟩,w₁⟩ := out
  dsimp only at hfirst hdevices ⊢
  have hboth : Coherent now b (orAt (orAt Fresh d 2) d 3) Sure
      (if status = .ok then readPhy P w₁ d c 3 .internal timeoutMs true else ((status,0),w₁)).2 ∧
      (if status = .ok then readPhy P w₁ d c 3 .internal timeoutMs true else ((status,0),w₁)).2.state.devices =
        w.state.devices := by
    split
    · exact ⟨coherent_readPhy P d c 3 .internal timeoutMs true hfirst,
        (does_readPhy P w₁ d c 3 .internal timeoutMs true).devices.trans hdevices⟩
    · exact ⟨hfirst.mono (fun _ _ _ _ _ => Or.inl) fun _ hd => hd,hdevices⟩
  generalize (if status = .ok then readPhy P w₁ d c 3 .internal timeoutMs true else ((status,0),w₁)) = out at hboth ⊢
  obtain ⟨hstale,hsame⟩ := hboth
  have hknown' : out.2.state.devices.items[d]? = some c := hsame ▸ hknown
  split
  · have hreported : Coherent now b Fresh Sure (cacheChanged (cacheChanged out.2 d 2) d 3) := by
      refine (coherent_cacheChanged (coherent_cacheChanged hstale d 2) d 3).mono ?_ fun _ hd => hd
      rintro d' c' _ i _ ⟨⟨(hfresh | htwo) | hthree,hnot⟩,hnot'⟩
      · exact hfresh
      · exact hnot htwo
      · exact hnot' hthree
    -- the PHY goes online and is reported so
    have honline : Coherent now b Fresh (fun d' => d' = d) ((cacheChanged (cacheChanged out.2 d 2) d 3).modify
        fun s : MdioState => { s with
          pollDue := if s.online d = true then s.pollDue else Function.update s.pollDue d 0
          online := Function.update s.online d true }) := by
      have hdoubt : Coherent now b Fresh (fun d' => d' = d) (cacheChanged (cacheChanged out.2 d 2) d 3) :=
        hreported.mono (fun _ _ _ _ _ hs => hs) fun _ hd => absurd hd not_false
      refine Mirrors.congr hdoubt rfl (fun _ => rfl) (fun _ _ _ _ _ _ => rfl) fun d' hd' => ?_
      simp only [modify_state]
      rw [Function.update_of_ne hd']
    have hpresence := coherent_presence honline (d := d) hknown' (by decide : 1 ≤ presenceUnavailable) (by simp [presenceReady])
    exact (hpresence.mono (fun _ _ _ _ _ hs => hs) fun _ hd => absurd hd.1 hd.2).quiet (quiet_of_eq rfl rfl rfl rfl)
  · refine ((coherent_invalidate P hknown' hstale).mono ?_ fun _ hd => hd.1).quiet (quiet_of_eq rfl rfl rfl rfl)
    rintro d' c' _ i _ ⟨(hfresh | htwo) | hthree,hne⟩
    · exact hfresh
    · exact hne htwo.1
    · exact hne hthree.1

theorem coherent_autopoll {d : ℕ} {c : MdioPhyConfig} (hknown : w.state.devices.items[d]? = some c) (due : UInt64)
    (timeoutMs : ℕ) (result : Status) (h : Coherent now b Fresh Sure w) :
    Coherent now b Fresh Sure (autopoll P w d c due timeoutMs result).2 := by
  unfold autopoll
  dsimp only
  have hread := coherent_read P d c (c.autopollRegs.getD (w.state.pollIndex d).toNat 0) .internal timeoutMs h
  have hdevices := (does_readPhy P w d c (c.autopollRegs.getD (w.state.pollIndex d).toNat 0) .internal timeoutMs
    false).devices
  generalize readPhy P w d c (c.autopollRegs.getD (w.state.pollIndex d).toNat 0) .internal timeoutMs false = out
    at hread hdevices ⊢
  have hfailed : Coherent now b Fresh Sure (if out.1.1 ≠ .ok then
      (out.1.1,(invalidate P out.2 d c).2.modify fun s =>
        { s with probeDue := Function.update s.probeDue d (due + 1000) })
      else (result,out.2)).2 := by
    split
    · have hforgotten := coherent_forgotten P (hdevices ▸ hknown) hread
      generalize (invalidate P out.2 d c).2 = w₂ at hforgotten ⊢
      exact hforgotten.quiet (quiet_of_eq rfl rfl rfl rfl)
    · exact hread
  generalize (if out.1.1 ≠ .ok then
      (out.1.1,(invalidate P out.2 d c).2.modify fun s =>
        { s with probeDue := Function.update s.probeDue d (due + 1000) })
      else (result,out.2)) = out' at hfailed ⊢
  split
  · exact Coherent.quiet hfailed (quiet_of_eq rfl rfl rfl rfl)
  · exact Coherent.quiet hfailed (quiet_of_eq rfl rfl rfl rfl)

theorem coherent_pollNext (due : UInt64) (timeoutMs left : ℕ) (result : Status) (h : Coherent now b Fresh Sure w) :
    Coherent now b Fresh Sure (pollNext P due timeoutMs left result w).2 := by
  induction left generalizing result w with
  | zero => exact h
  | succ left ih =>
    unfold pollNext
    have hturn : Coherent now b Fresh Sure (w.modify fun s => { s with pollDevice := s.pollDevice + 1 }) :=
      h.quiet (quiet_of_eq rfl rfl rfl rfl)
    dsimp only
    split
    · exact hturn
    · rename_i hknown
      split
      · exact coherent_probe P hknown due timeoutMs result hturn
      · split
        · exact ih _ hturn
        · split
          · exact ih _ hturn
          · exact coherent_autopoll P hknown due timeoutMs result hturn

theorem coherent_work (due : UInt64) (timeoutMs limit : ℕ) (h : Coherent now b Fresh Sure w) :
    Coherent now b Fresh Sure (work P due timeoutMs limit w).2 := by
  have hscan := coherent_scanMailboxes P timeoutMs limit 0 .ok h
  have hack := Coherent.quiet hscan (quiet_acknowledge P _ (scanMailboxes P timeoutMs limit 0 .ok w).1)
  exact coherent_pollNext P due timeoutMs _ _ hack

/-! ## Configuration -/

/-- An edit that the bridge does not export. -/
def MdioEdit.KeepsCatalog (edit : MdioEdit) : Prop := ∀ c, mdioCatalog (edit.apply c).2 = mdioCatalog c

theorem setRules_catalog (c : MdioPhyConfig) (list : PolicyMode) (rules : List MdioRule) :
    mdioCatalog (c.setRules list rules) = mdioCatalog c := by
  cases list with
  | whitelist => rfl
  | blacklist => rfl

theorem setPolicyEdit_catalog (mode : PolicyMode) : (setPolicyEdit mode).KeepsCatalog := fun _ => rfl

theorem addRuleEdit_catalog (list : PolicyMode) (reg : UInt8) (value mask : UInt16) :
    (addRuleEdit list reg value mask).KeepsCatalog := by
  intro c
  simp only [addRuleEdit, addRule]
  split
  · rfl
  · split
    · rfl
    · split
      · rfl
      · exact setRules_catalog ..

theorem removeRuleEdit_catalog (list : PolicyMode) (reg : UInt8) (value mask : UInt16) :
    (removeRuleEdit list reg value mask).KeepsCatalog := by
  intro c
  simp only [removeRuleEdit, removeRule]
  split
  · rfl
  · split
    · rfl
    · exact setRules_catalog ..

theorem clearListEdit_catalog (list : PolicyMode) : (clearListEdit list).KeepsCatalog :=
  fun c => setRules_catalog c list []

theorem coherent_editPhy (d : ℕ) (edit : MdioEdit) (hedit : edit.KeepsCatalog) (h : Coherent now b Fresh Sure w) :
    Coherent now b Fresh Sure (editPhy w d edit).2 := by
  unfold editPhy
  split
  · exact h
  · rename_i c hknown
    refine Mirrors.congr h List.length_set (fun d' => ?_) (fun _ _ _ _ _ _ => rfl) fun _ _ => rfl
    simp only [MdioState.catalog, MdioPhys.set, List.getElem?_set]
    by_cases hd : d = d'
    · subst hd
      have hlt : d < w.state.devices.items.length := lt_count hknown
      rw [if_pos rfl, if_pos hlt, hknown]
      exact hedit c
    · rw [if_neg hd]

theorem coherent_editList (d list : ℕ) (edit : PolicyMode → MdioEdit) (hedit : ∀ list, (edit list).KeepsCatalog)
    (h : Coherent now b Fresh Sure w) : Coherent now b Fresh Sure (editList w d list edit).2 := by
  unfold editList
  split
  · exact h
  · split
    · exact h
    · exact coherent_editPhy d _ (hedit _) h

theorem coherent_seed (d : ℕ) (phy : UInt8) (settings : List MdioSetting) (h : Coherent now b Fresh Sure w) :
    Coherent now b Fresh Sure (seed P d phy settings w).2 := by
  induction settings generalizing w with
  | nil => exact h
  | cons v settings ih =>
    unfold seed
    have hpublish := quiet_publish P w phy v.reg v.val
    generalize publish P w phy v.reg v.val = out at hpublish ⊢
    dsimp only
    have hout := h.quiet hpublish
    split
    · exact hout
    · have hclock : Coherent now b Fresh Sure { out.2 with env := (P.nowMs out.2.env).2 } :=
        hout.quiet (quiet_of_eq rfl rfl rfl rfl)
      have hentry := coherent_setEntry hclock d v.reg ⟨v.val,true,true,(P.nowMs out.2.env).1⟩
      exact ih (coherent_report hentry)

/-- The new configuration is exported before anything else is done with it. -/
theorem coherent_startConfig {d : ℕ} {old c : MdioPhyConfig} (hold : w.state.devices.items[d]? = some old)
    (hc : c.Valid) (hname : c.name = old.name) {devices : MdioPhys}
    (hdevices : devices.items = w.state.devices.items.set d c) (changed : Bool) (h : Coherent now b Fresh Sure w) :
    Coherent now b Fresh Sure (startConfig P (w.modify fun s => { s with devices := devices }) d c changed).2 := by
  have hknown : devices.items[d]? = some c := by
    rw [hdevices, List.getElem?_set_self (lt_count hold)]
  have hconfigured : Coherent now b Fresh Sure
      ((w.modify fun s => { s with devices := devices }).call (.configChanged d c)) := by
    have hbridge : bridgeAt now b ((w.modify fun s => { s with devices := devices }).call (.configChanged d c)) =
        configureMdio (bridgeAt now b w) { w.state with devices := devices } d c := by
      rw [bridgeAt, World.call, List.foldl_append]
      rfl
    unfold Coherent
    rw [hbridge]
    exact mirrors_configure h hold hc hname hdevices rfl rfl
  have hstart : Coherent now b Fresh Sure (((w.modify fun s => { s with devices := devices }).call
      (.configChanged d c)).modify (·.schedule d 0 0)) := hconfigured.quiet (quiet_of_eq rfl rfl rfl rfl)
  unfold startConfig
  dsimp only
  split
  · have hdrop := coherent_forgotten P (c := c) (d := d) hknown hstart
    split
    · exact hdrop
    · exact coherent_seed P d c.phyAddr c.settings hdrop
  · exact hstart

theorem coherent_applyConfig {d : ℕ} {old c : MdioPhyConfig} (hold : w.state.devices.items[d]? = some old)
    (hc : c.Valid) (hname : c.name = old.name) {devices : MdioPhys}
    (hdevices : devices.items = w.state.devices.items.set d c) (h : Coherent now b Fresh Sure w) :
    Coherent now b Fresh Sure (applyConfig P w d old c devices).2 := by
  unfold applyConfig
  dsimp only
  have hfirst : Coherent now b Fresh Sure (if busChanged old c = true then invalidate P w d old else (.ok,w)).2 ∧
      (if busChanged old c = true then invalidate P w d old else (.ok,w)).2.state.devices = w.state.devices := by
    split
    · exact ⟨coherent_forgotten P hold h,(does_invalidate P w d old).devices⟩
    · exact ⟨h,rfl⟩
  generalize (if busChanged old c = true then invalidate P w d old else (.ok,w)) = out at hfirst ⊢
  obtain ⟨hcoherent,hsame⟩ := hfirst
  split
  · exact hcoherent
  · exact coherent_startConfig P (hsame ▸ hold) hc hname (hsame ▸ hdevices) (busChanged old c) hcoherent

/-! ## Operations -/

theorem coherent_locked {α : Type} (refuse : Status → α) (f : MdioWorld ε → α × MdioWorld ε)
    (h : Coherent now b Fresh Sure w) (hf : ∀ w', Coherent now b Fresh Sure w' → Coherent now b Fresh Sure (f w').2) :
    Coherent now b Fresh Sure (locked P w refuse f).2 := by
  unfold locked
  have henv : Coherent now b Fresh Sure { w with env := (P.lock w.env).2 } := h.quiet (quiet_of_eq rfl rfl rfl rfl)
  dsimp only
  split
  · exact henv
  · exact hf _ henv

theorem coherent_setConfig (d : ℕ) (c : MdioPhyConfig) (h : Coherent now b Fresh Sure w) :
    Coherent now b Fresh Sure (serviceSetConfig P w d c).2 := by
  unfold serviceSetConfig
  split
  · rename_i hvalid
    refine coherent_locked P id _ h fun w' h' => ?_
    split
    · split
      · exact h'
      · rename_i hold
        split
        · exact h'
        · rename_i hname
          rw [not_or, not_not, not_not] at hname
          exact coherent_applyConfig P hold (mdioConfigValidate_eq_ok.mp hvalid) hname.1 rfl h'
    · exact h'
  · exact h

/-- Every operation leaves the registry showing the service. -/
theorem coherent_step (op : MdioOp) (h : Coherent now b Fresh Sure w) : Coherent now b Fresh Sure (mdioStep P w op).1 := by
  cases op with
  | read d r source timeoutMs =>
    refine coherent_locked P _ _ h fun w' h' => ?_
    split
    · exact h'
    · split
      · exact h'
      · exact coherent_read P d _ r source timeoutMs h'
  | write d r v source timeoutMs =>
    refine coherent_locked P _ _ h fun w' h' => ?_
    split
    · exact h'
    · split
      · exact h'
      · exact coherent_writePhy P ‹_› r v source timeoutMs h'
  | invalidate d =>
    refine coherent_locked P _ _ h fun w' h' => ?_
    split
    · exact h'
    · exact coherent_forgotten P ‹_› h'
  | setPolicy d mode =>
    refine coherent_locked P _ _ h fun w' h' => ?_
    split
    · exact h'
    · exact coherent_editPhy d _ (setPolicyEdit_catalog _) h'
  | ruleAdd d list reg value mask =>
    exact coherent_locked P _ _ h fun w' h' =>
      coherent_editList d list _ (fun list => addRuleEdit_catalog list reg value mask) h'
  | ruleRemove d list reg value mask =>
    exact coherent_locked P _ _ h fun w' h' =>
      coherent_editList d list _ (fun list => removeRuleEdit_catalog list reg value mask) h'
  | ruleClearList d list =>
    exact coherent_locked P _ _ h fun w' h' => coherent_editList d list _ clearListEdit_catalog h'
  | setConfig d c => exact coherent_setConfig P d c h
  | step due timeoutMs => exact coherent_locked P _ _ h fun w' h' => coherent_work P due timeoutMs mailboxCount h'

/-- Every run of operations does. -/
theorem coherent_run (ops : List MdioOp) (h : Coherent now b Fresh Sure w) :
    Coherent now b Fresh Sure (final (mdioStep P) w ops) :=
  final_invariant (P := fun w : MdioWorld ε => Coherent now b Fresh Sure w) (fun _ op hw => coherent_step P op hw) h ops

end

/-! ## The registry against the service -/

/-- Once the bridge is attached, after every run of operations, whatever the bus, the
mirror and the clock do, the registry device of each PHY lists its registers, each as the
service has it, and is ready exactly if the PHY is online. -/
theorem mdio_mirror_coherent (P : MdioPlatform ε) (requests : List RegistryRequest) (now : ℕ → UInt64)
    (s : MdioState) (env : ε) (ops : List MdioOp)
    (hattached : (attachMdio (final registryStep cacheHistoryInit requests).registry s).status = .ok) :
    let w := final (mdioStep P) (s.start env) ops
    let b := bridgeAt now (attachMdio (final registryStep cacheHistoryInit requests).registry s) w
    ∀ d c, w.state.devices.items[d]? = some c → ∃ dev, device b.registry (b.handles d) = some dev ∧
      dev.subsystem = mdioSubsystem ∧ dev.device = c.name ∧ dev.entries.length = c.regCount.toNat ∧
      (∀ r < c.regCount, ∃ e, dev.entries[r.toNat]? = some e ∧ e.Agrees (w.state.cache d r).sample) ∧
      (dev.presence.toNat = presenceReady ↔ w.state.online d = true) := by
  intro w b d c hknown
  have hregistry : (final registryStep cacheHistoryInit requests).Kept :=
    final_invariant (P := CacheHistory.Kept) kept_step kept_init requests
  have hstart : Coherent now (attachMdio (final registryStep cacheHistoryInit requests).registry s) Fresh Sure
      (s.start env) := attachMdio_mirrors hregistry.wellFormed hattached
  have hrun : Mirrors Fresh Sure w.state b := coherent_run P ops hstart
  obtain ⟨dev,hdev,hshown,hpresence⟩ := Bridge.Mirrors.shows hrun d (lt_count hknown)
  have hcatalog : (w.state.exports d).catalog = mdioCatalog c := catalog_of_known hknown
  rw [hcatalog] at hshown
  refine ⟨dev,hdev,hshown.subsystem,hshown.device,hshown.count,?_,hpresence not_false⟩
  intro r hr
  have hsample : w.state.samples d r.toNat = (w.state.cache d r).sample := by
    rw [MdioState.samples, UInt8.ofNat_toNat]
  exact ⟨_,hshown.current r.toNat (UInt8.lt_iff_toNat_lt.mp hr) not_false,hsample ▸ agrees_entry _ _ _⟩

/-! ## A service with one PHY -/

/-- A PHY named `p0` at address 0 with `regCount` registers, without rules. -/
def plainPhy (regCount : UInt8) (settings : List MdioSetting) : MdioPhyConfig where
  name := [112,48]
  fileName := []
  phyAddr := 0
  regCount := regCount
  policy := 1
  autopollEnabled := false
  autopollRegs := []
  autopollRegDelayMs := 0
  autopollCycleDelayMs := 0
  whitelist := []
  blacklist := []
  settings := settings
  settingsSpare := []
  profile := .zero

def onePhy : MdioPhys where
  items := [plainPhy 4 []]
  fits := by decide
  valid c hc := List.mem_singleton.mp hc ▸ mdioConfigValidate_eq_ok.mp (by decide)
  distinct := List.nodup_singleton _

/-- The service right after `bvstk_mdio_service_init`: there are no settings to seed. -/
def onePhyState : MdioState where
  devices := onePhy
  cache := fun _ _ => MdioCacheEntry.zero
  stats := MdioStats.zero
  pollDue := fun _ => 0
  probeDue := fun _ => 0
  pollIndex := fun _ => 0
  online := fun _ => false
  scanIndex := 0
  pollDevice := 0

/-- Each register reads 7, and the mirror takes as many words as the environment counts. -/
def countingPlatform : MdioPlatform ℕ where
  lock left := (.ok,left)
  nowMs left := (5,left)
  read left _ _ _ := ((.ok,7),left)
  write left _ _ _ _ _ := (.ok,left)
  takeWrite left _ _ := (.error .notFound,left)
  publish left _ _ _ := if left = 0 then (.io,0) else (.ok,left - 1)
  ackSlave left := (.ok,left)

theorem mdio_mirror_coherent_one :
    let w := final (mdioStep countingPlatform) (onePhyState.start 1) [.read 0 2 .internal 10,.invalidate 0]
    let b := bridgeAt (fun _ => 0) (attachMdio (final registryStep cacheHistoryInit []).registry onePhyState) w
    ∃ dev, device b.registry (b.handles 0) = some dev ∧ dev.device = [112,48] ∧ dev.entries.length = 4 ∧
      (dev.presence.toNat = presenceReady ↔ w.state.online 0 = true) := by
  intro w b
  obtain ⟨dev,hdev,-,hname,hcount,-,hpresence⟩ := mdio_mirror_coherent countingPlatform [] (fun _ => 0) onePhyState 1
    [.read 0 2 .internal 10,.invalidate 0] (by decide) 0 (plainPhy 4 []) rfl
  exact ⟨dev,hdev,hname,hcount,hpresence⟩

end Bvstk.Mdio
