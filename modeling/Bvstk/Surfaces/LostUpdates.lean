import Bvstk.Library.Machine
import Bvstk.Surfaces.Interleaving
import Bvstk.Surfaces.LiveConfig

/-! # Are updates of a policy lost between the surfaces?

A console applies a copy that may be out of date by then, and a configuration may be put into
the store when the policy has changed again. Where neither happens every acknowledged change
stays in effect until another one takes it back, and the store has the policy in force
whenever nothing is in progress.
-/
namespace Bvstk.Surfaces
open Config I2c Console RuleSets CallLog
open Web (Text)

variable {ε : Type}

/-! ## The two policies of a device -/

def liveEntry (x : Runtime ε) (deviceId : ℕ) : Option I2cPolicyEntry := masterServiceGetPolicy x.world.state deviceId

def storedEntry (x : Runtime ε) (deviceId : ℕ) : Option I2cPolicyEntry :=
  (x.store[deviceId]?).bind fun c => policyEntryOf c.toI2cDeviceConfig

section
variable {w : I2cWorld ε} {x : Runtime ε} {deviceId : ℕ} {opcode : ℕ} {body : List UInt8} {edit : Edit I2cRule}

theorem dcp2Edit_cases (h : dcp2Edit opcode body = some edit) :
    opcode = opPolicySet ∧ edit = .setMode (bodySide body) ∨ opcode = opPolicyRuleAdd ∧ edit = .add (bodySide body) (bodyRule body) ∨
      opcode = opPolicyRuleDelete ∧ edit = .remove (bodySide body) (bodyRule body) ∨
        opcode = opPolicyClear ∧ edit = .clear (bodySide body) := by
  unfold dcp2Edit at h
  split_ifs at h with hset hadd hdelete hclear
  all_goals
    cases h
    simp [*]

/-- The rest of a request is the operation of the service for the edit. -/
theorem policyCall_run {list : UInt8} {rest : List UInt8} {address : UInt8} (hlist : list ≤ 1)
    (hedit : dcp2Edit opcode (address :: list :: rest) = some edit) (w : I2cWorld ε) (deviceId : ℕ) :
    (policyCall opcode list rest).run w deviceId = serviceEdit deviceId w edit := by
  have hcode : list = 0 ∨ list = 1 := by
    rw [UInt8.le_iff_toNat_le] at hlist
    have hone : (1 : UInt8).toNat = 1 := rfl
    rcases Nat.le_one_iff_eq_zero_or_eq_one.mp (hone ▸ hlist) with h | h
    · exact Or.inl (UInt8.toNat_inj.mp h)
    · exact Or.inr (UInt8.toNat_inj.mp h)
  rcases hcode with rfl | rfl
  all_goals
    rcases dcp2Edit_cases hedit with ⟨rfl,rfl⟩ | ⟨rfl,rfl⟩ | ⟨rfl,rfl⟩ | ⟨rfl,rfl⟩
    all_goals rfl

theorem policyStatus_ok {status : Status} : policyStatus status = .ok ↔ status = .ok := by
  cases status with
  | ok => exact Iff.rfl
  | _ => simp [policyStatus]

/-- A request for an edit is refused before anything is done, or it is the edit of the service. -/
theorem processPolicy_edit (hfind : masterServiceFindByAddr w.state (body.headD 0) = some deviceId)
    (hedit : dcp2Edit opcode body = some edit) :
    ((processPolicy w opcode body).1.1 ≠ .ok ∧ (processPolicy w opcode body).2 = w) ∨
      processPolicy w opcode body = ((policyStatus (serviceEdit deviceId w edit).1,[]),(serviceEdit deviceId w edit).2) := by
  have hget : opcode ≠ opPolicyGet := by
    rcases dcp2Edit_cases hedit with ⟨rfl,-⟩ | ⟨rfl,-⟩ | ⟨rfl,-⟩ | ⟨rfl,-⟩
    all_goals decide
  unfold processPolicy
  split
  · exact Or.inl ⟨by simp,rfl⟩
  · split
    · exact Or.inl ⟨by simp,rfl⟩
    · rename_i hsize
      split
      · exact Or.inl ⟨by simp,rfl⟩
      · rename_i address rest
        split
        · exact Or.inl ⟨by simp,rfl⟩
        · rename_i hlist
          split
          · exact Or.inl ⟨by simp,rfl⟩
          · rw [List.headD_cons] at hfind
            rw [hfind]
            right
            cases rest with
            | nil =>
              rw [not_ne_iff] at hsize
              unfold policyBodySize at hsize
              rw [if_neg hget] at hsize
              split_ifs at hsize
              all_goals cases hsize
            | cons list rest =>
              rw [not_and] at hlist
              have hle := UInt8.not_lt.mp (hlist hget)
              exact congrArg (fun out : Status × I2cWorld ε => ((policyStatus out.1,([] : List UInt8)),out.2))
                (policyCall_run hle hedit w deviceId)

/-- What a task leaves of the policy of the device. -/
theorem serviceEdit_refused (h : (serviceEdit deviceId w edit).1 ≠ .ok) :
    (serviceEdit deviceId w edit).2.state.devices = w.state.devices ∧
      (serviceEdit deviceId w edit).2.state.policy.items[deviceId]? = w.state.policy.items[deviceId]? := by
  cases hdevice : w.state.devices.items[deviceId]? with
  | none =>
    rw [serviceEdit_unknown hdevice]
    exact ⟨rfl,rfl⟩
  | some device =>
    obtain ⟨entry,hentry⟩ : ∃ entry, w.state.policy.items[deviceId]? = some entry :=
      ⟨_,List.getElem?_eq_getElem (w.state.policySize.symm ▸ (List.getElem?_eq_some_iff.mp hdevice).1)⟩
    obtain ⟨hstatus,hdevices,hitems⟩ := serviceEdit_known hdevice hentry edit
    rw [hstatus] at h
    refine ⟨hdevices,?_⟩
    rw [hitems, hentry, (entryEdit_faithful device entry edit).2 h]

theorem livePolicy_congr {s s' : I2cState} (hdevices : s'.devices = s.devices)
    (hentry : s'.policy.items[deviceId]? = s.policy.items[deviceId]?) : livePolicy s' deviceId = livePolicy s deviceId := by
  unfold livePolicy
  rw [hdevices, hentry]

/-- An acknowledged edit of the service is the edit of the policy in force. -/
theorem serviceEdit_live (h : (serviceEdit deviceId w edit).1 = .ok) :
    livePolicy (serviceEdit deviceId w edit).2.state deviceId = edit.apply (livePolicy w.state deviceId) := by
  have hfaithful : (i2cServiceEditor ε deviceId).Faithful w edit := serviceEdit_faithful w edit
  have hstep : (i2cServiceEditor ε deviceId).step w edit =
      ((serviceEdit deviceId w edit).2,true) := by
    simp [i2cServiceEditor, h]
  exact (Editor.faithful_acknowledged hstep rfl).mp hfaithful

end

section
variable {x : Runtime ε} {deviceId : ℕ} {stored next : I2cFileConfig}

theorem entryPolicy_of {entry : I2cPolicyEntry} (h : policyEntryOf next.toI2cDeviceConfig = some entry) :
    entryPolicy entry (deviceOf next.toI2cDeviceConfig) = configPolicy next := by
  unfold policyEntryOf at h
  split at h
  · cases h
  · rename_i mode hmode
    split at h
    · cases h
    · cases h
      refine policy_ext ?_ rfl rfl rfl
      simp only [entryPolicy, configPolicy, hmode]

/-- After an application the policy in force is the one of the configuration. -/
theorem apply_live (hx : Linked x) (hstored : x.store[deviceId]? = some stored)
    (hname : next.name.map toLower = stored.name.map toLower) (hshaped : next.Shaped) :
    ∃ w, runtimeI2cApplyConfig x.world next = (true,w) ∧ livePolicy w.state deviceId = configPolicy next ∧
      masterServiceGetPolicy w.state deviceId = policyEntryOf next.toI2cDeviceConfig := by
  obtain ⟨w,entry,happlied,hentry,hitems,hentries⟩ := runtimeApply_done hx.paired hstored hname hshaped
  obtain ⟨device,hdevice,-⟩ := hx.paired.deviceAt hstored
  have hlt : deviceId < x.world.state.devices.items.length := (List.getElem?_eq_some_iff.mp hdevice).1
  have hlt' : deviceId < x.world.state.policy.items.length := by
    rw [x.world.state.policySize]
    exact hlt
  have hlive : w.state.policy.items[deviceId]? = some entry := by
    rw [hentries]
    exact List.getElem?_set_self hlt'
  refine ⟨w,happlied,?_,hlive.trans hentry.symm⟩
  have hnext : w.state.devices.items[deviceId]? = some (deviceOf next.toI2cDeviceConfig) := by
    rw [hitems, List.getElem?_set_self hlt]
  rw [livePolicy_known hnext hlive]
  exact entryPolicy_of hentry

theorem storedEntry_modify (hstored : x.store[deviceId]? = some stored) :
    storedEntry { x with store := x.store.modify deviceId (replaced next) } deviceId =
      policyEntryOf next.toI2cDeviceConfig := by
  unfold storedEntry
  dsimp only
  rw [List.getElem?_modify_eq, hstored]
  rfl

theorem policyEntryOf_mirrored {s : I2cState} {values : Bool} {device : I2cDevice} {entry : I2cPolicyEntry}
    (hfits : EntryFits device entry) :
    policyEntryOf (mirroredConfig s deviceId values device entry stored).toI2cDeviceConfig = some entry := by
  unfold policyEntryOf mirroredConfig
  dsimp only
  rw [ofCode_code]
  exact if_neg (by rw [not_or]; exact ⟨Nat.not_lt.mpr hfits.whitelist.1,Nat.not_lt.mpr hfits.blacklist.1⟩)

/-- The mirror succeeds, and the store has the policy in force. -/
theorem sync_done (hx : Linked x) (hstored : x.store[deviceId]? = some stored) (values : Bool) :
    ∃ store, syncI2cDeviceConfig x.world.state x.store deviceId values = some store ∧
      storedEntry { x with store := store } deviceId = liveEntry x deviceId := by
  obtain ⟨device,hdevice,hshape⟩ := hx.paired.deviceAt hstored
  obtain ⟨entry,hentry⟩ : ∃ entry, x.world.state.policy.items[deviceId]? = some entry :=
    ⟨_,List.getElem?_eq_getElem (x.world.state.policySize.symm ▸ (List.getElem?_eq_some_iff.mp hdevice).1)⟩
  have hget : devicesGet x.world.state.devices deviceId = .ok device := by
    unfold devicesGet
    rw [hdevice]
  have hfind := (hx.paired.findByName hstored (Prod.mk.inj hshape).1).1
  have hset : configStoreSet x.store (mirroredConfig x.world.state deviceId values device entry stored) =
      some (x.store.modify deviceId (replaced (mirroredConfig x.world.state deviceId values device entry stored))) :=
    configStoreSet_found hfind hstored rfl
  refine ⟨x.store.modify deviceId (replaced (mirroredConfig x.world.state deviceId values device entry stored)),?_,?_⟩
  · unfold syncI2cDeviceConfig
    rw [hget, masterServiceGetPolicy, hentry]
    dsimp only
    rw [hfind, Option.bind_some, hstored]
    exact hset
  · rw [storedEntry_modify hstored, policyEntryOf_mirrored (hx.live deviceId device entry hdevice hentry)]
    exact hentry.symm

/-- The mirror of an edit whose address still leads to the device. -/
theorem mirror_done (hx : Linked x) (hstored : x.store[deviceId]? = some stored) {opcode : ℕ} {body : List UInt8}
    {edit : Edit I2cRule} (hedit : dcp2Edit opcode body = some edit)
    (hfind : masterServiceFindByAddr x.world.state (body.headD 0) = some deviceId) :
    ∃ store, dcp2MirrorPolicy x opcode body .ok = (.ok,{ x with store := store }) ∧
      storedEntry { x with store := store } deviceId = liveEntry x deviceId := by
  obtain ⟨store,hsync,hsame⟩ := sync_done hx hstored true
  obtain ⟨store',hsync',hsame'⟩ := sync_done hx hstored false
  have hmode : dcp2MirrorPolicy x opPolicySet body .ok = (.ok,{ x with store := store }) := by
    unfold dcp2MirrorPolicy syncDevice runtimeI2cSyncDevice
    simp only [hfind, hsync, if_true]
  have hother : ∀ op, op ≠ opPolicySet → opPolicyRuleAdd ≤ op → op ≤ opPolicyClear →
      dcp2MirrorPolicy x op body .ok = (.ok,{ x with store := store' }) := by
    intro op hset hadd hclear
    unfold dcp2MirrorPolicy syncPolicy runtimeI2cSyncPolicy
    simp only [hfind, hsync', hset, hadd, hclear, if_false, if_true, and_self]
  rcases dcp2Edit_cases hedit with ⟨rfl,-⟩ | ⟨rfl,-⟩ | ⟨rfl,-⟩ | ⟨rfl,-⟩
  · exact ⟨store,hmode,hsame⟩
  · exact ⟨store',hother _ (by decide) (by decide) (by decide),hsame'⟩
  · exact ⟨store',hother _ (by decide) (by decide) (by decide),hsame'⟩
  · exact ⟨store',hother _ (by decide) (by decide) (by decide),hsame'⟩

end

/-! ## Steps that fit -/

/-- No change of another task took effect before that of this one and still waits. -/
def Oldest (n : Node ε) (task : Task) : Prop := ∀ p ∈ n.effective.head?, p.1 = task

/-- A console deletes no rule that is listed twice, and applies its edit while the policy in
force is still the one that it copied. Changes are acknowledged in the order in which they took
effect, and an address still leads to the device when its edit is copied to the store. -/
def StepFits (deviceId : ℕ) (n : Node ε) (s : Task × Action) : Prop :=
  match n.progress s.1, s.2 with
  | .idle, .copy token words => ∀ id config, selectDevice n.runtime token = some (id,config) → DeletesSingle config words
  | .ready copy _ (.edit _), .proceed => livePolicy n.runtime.world.state deviceId = configPolicy copy
  | .applied _ _, .proceed => Oldest n s.1
  | .edited _ body _, .proceed =>
    Oldest n s.1 ∧ masterServiceFindByAddr n.runtime.world.state (body.headD 0) = some deviceId
  | _, _ => True

/-! ## The invariant -/

/-- A configuration that can be applied to the device. -/
def Prepared (shapes : List (Name × ℕ × UInt8)) (deviceId : ℕ) (next : I2cFileConfig) : Prop :=
  next.Valid ∧ shapes[deviceId]? = some (storedShape next)

def ProgressOk (shapes : List (Name × ℕ × UInt8)) (deviceId : ℕ) : Progress → Prop
  | .edited opcode body _ => ∃ edit, dcp2Edit opcode body = some edit
  | .ready copy next (.edit e) => Prepared shapes deviceId next ∧ configPolicy next = e.apply (configPolicy copy)
  | .ready _ next (.replace p) => Prepared shapes deviceId next ∧ p = configPolicy next
  | .applied next _ => Prepared shapes deviceId next
  | .opened name _ => ∃ size, shapes[deviceId]? = some (name.map toLower,size)
  | .idle => True

def shapesOf (n : Node ε) : List (Name × ℕ × UInt8) := n.runtime.store.map storedShape

/-- The policy in force is what the changes have made of the first one, in the order in which
they took effect; the histories agree with what the tasks are doing. -/
structure Coherent (deviceId : ℕ) (start : Policy I2cRule I2cRequest) (n : Node ε) : Prop where
  linked : Linked n.runtime
  history : livePolicy n.runtime.world.state deviceId =
    (n.acked ++ n.effective.map (·.2)).foldl (fun p c => c.apply p) start
  nodup : (n.effective.map (·.1)).Nodup
  pending : ∀ task c, (task,c) ∈ n.effective ↔ (n.progress task).effect = some c
  prepared : ∀ task, ProgressOk (shapesOf n) deviceId (n.progress task)
  last : ∀ task c next, n.effective.getLast? = some (task,c) → n.progress task = .applied next c →
    liveEntry n.runtime deviceId = policyEntryOf next.toI2cDeviceConfig
  quiet : n.effective = [] → storedEntry n.runtime deviceId = liveEntry n.runtime deviceId

section
variable {deviceId : ℕ} {start : Policy I2cRule I2cRequest} {n : Node ε} {task : Task} {p : Progress} {change : PolicyChange}

theorem effect_update (hbefore : (n.progress task).effect = none) (hafter : p.effect = none) (other : Task) :
    (Function.update n.progress task p other).effect = (n.progress other).effect := by
  by_cases hother : other = task
  · subst hother
    rw [Function.update_self, hafter, hbefore]
  · rw [Function.update_of_ne hother]

theorem prepared_update {shapes : List (Name × ℕ × UInt8)} (hall : ∀ task, ProgressOk shapes deviceId (n.progress task))
    (hp : ProgressOk shapes deviceId p) (other : Task) :
    ProgressOk shapes deviceId (Function.update n.progress task p other) := by
  by_cases hother : other = task
  · subst hother
    rwa [Function.update_self]
  · rw [Function.update_of_ne hother]
    exact hall other

/-- A task that has changed nothing goes on without a change. -/
theorem Coherent.setProgress (h : Coherent deviceId start n) (hbefore : (n.progress task).effect = none)
    (hafter : p.effect = none) (hp : ProgressOk (shapesOf n) deviceId p) : Coherent deviceId start (n.setProgress task p) := by
  refine ⟨h.linked,h.history,h.nodup,fun other c => ?_,prepared_update h.prepared hp,?_,h.quiet⟩
  · exact (h.pending other c).trans (by rw [Node.setProgress, effect_update hbefore hafter])
  · intro other c next hlast happlied
    refine h.last other c next hlast ?_
    by_cases hother : other = task
    · subst hother
      simp only [Node.setProgress, Function.update_self] at happlied
      rw [happlied] at hafter
      cases hafter
    · simpa only [Node.setProgress, Function.update_of_ne hother] using happlied

/-- The service changes, but not the policy of the device. -/
theorem Coherent.withWorld (h : Coherent deviceId start n) {w : I2cWorld ε} (hlinked : Linked { n.runtime with world := w })
    (hdevices : w.state.devices = n.runtime.world.state.devices)
    (hentry : w.state.policy.items[deviceId]? = n.runtime.world.state.policy.items[deviceId]?) :
    Coherent deviceId start { n with runtime := { n.runtime with world := w } } := by
  have hlive : liveEntry { n.runtime with world := w } deviceId = liveEntry n.runtime deviceId := hentry
  refine ⟨hlinked,?_,h.nodup,h.pending,h.prepared,?_,?_⟩
  · exact (livePolicy_congr hdevices hentry).trans h.history
  · intro other c next hlast happlied
    exact hlive.trans (h.last other c next hlast happlied)
  · intro hnil
    exact (h.quiet hnil).trans hlive.symm

/-- A change takes effect. -/
theorem Coherent.takesEffect (h : Coherent deviceId start n) {w : I2cWorld ε} (hbefore : (n.progress task).effect = none)
    (hafter : p.effect = some change) (hp : ProgressOk (shapesOf n) deviceId p)
    (hlinked : Linked { n.runtime with world := w })
    (hlive : livePolicy w.state deviceId = change.apply (livePolicy n.runtime.world.state deviceId))
    (happlied : ∀ next, p = .applied next change → masterServiceGetPolicy w.state deviceId = policyEntryOf next.toI2cDeviceConfig) :
    Coherent deviceId start (n.takesEffect task w p change) := by
  have hnew : ∀ c, (task,c) ∉ n.effective := by
    intro c hc
    rw [h.pending, hbefore] at hc
    cases hc
  refine ⟨hlinked,?_,?_,fun other c => ?_,prepared_update h.prepared hp,?_,?_⟩
  · simp only [Node.takesEffect, Node.setProgress, List.map_append, List.map_cons, List.map_nil]
    rw [← List.append_assoc, List.foldl_append, ← h.history]
    exact hlive
  · simp only [Node.takesEffect, List.map_append, List.map_cons, List.map_nil]
    refine List.nodup_append.mpr ⟨h.nodup,by simp,fun t ht t' ht' => ?_⟩
    obtain ⟨⟨_,c⟩,hc,rfl⟩ := List.mem_map.mp ht
    rintro rfl
    obtain rfl := List.mem_singleton.mp ht'
    exact hnew c hc
  · simp only [Node.takesEffect, Node.setProgress, List.mem_append, List.mem_singleton, Prod.mk.injEq]
    by_cases hother : other = task
    · subst hother
      rw [Function.update_self, hafter, Option.some.injEq]
      simp [hnew, eq_comm]
    · rw [Function.update_of_ne hother, h.pending]
      simp [hother]
  · intro other c next hlast hprogress
    simp only [Node.takesEffect, List.getLast?_append, List.getLast?_singleton, Option.some_or, Option.some.injEq,
      Prod.mk.injEq] at hlast
    obtain ⟨rfl,rfl⟩ := hlast
    simp only [Node.takesEffect, Node.setProgress, Function.update_self] at hprogress
    exact happlied next hprogress
  · intro hnil
    simp [Node.takesEffect] at hnil

/-- The oldest change is acknowledged, with a new store. -/
theorem Coherent.finish (h : Coherent deviceId start n) (heffect : (n.progress task).effect = some change)
    (holdest : Oldest n task) {store : ConfigStore} (hlinked : Linked { n.runtime with store := store })
    (hstore : n.effective = [(task,change)] →
      storedEntry { n.runtime with store := store } deviceId = liveEntry n.runtime deviceId) :
    Coherent deviceId start (n.finish task { n.runtime with store := store } change true) := by
  obtain ⟨rest,heff⟩ : ∃ rest, n.effective = (task,change) :: rest := by
    have hmem := (h.pending task change).mpr heffect
    cases hsplit : n.effective with
    | nil => simp [hsplit] at hmem
    | cons first rest =>
      have hfirst : first.1 = task := holdest first (by simp [hsplit])
      refine ⟨rest,?_⟩
      obtain ⟨t,c⟩ := first
      dsimp only at hfirst
      subst hfirst
      have hc : (n.progress t).effect = some c := (h.pending t c).mp (by simp [hsplit])
      rw [heffect] at hc
      rw [Option.some.inj hc]
  have hnodup := h.nodup
  rw [heff, List.map_cons, List.nodup_cons] at hnodup
  have hgone : ∀ c, (task,c) ∉ rest := fun c hc => hnodup.1 (List.mem_map.mpr ⟨_,hc,rfl⟩)
  have hrest : (n.finish task { n.runtime with store := store } change true).effective = rest := by
    simp [Node.finish, heff]
  have hshapes : store.map storedShape = shapesOf n := hlinked.shape.symm.trans h.linked.shape
  refine ⟨hlinked,?_,?_,fun other c => ?_,?_,?_,?_⟩
  · rw [hrest]
    have hhistory := h.history
    rw [heff] at hhistory
    simpa [Node.finish] using hhistory
  · rw [hrest]
    exact hnodup.2
  · rw [hrest]
    simp only [Node.finish]
    by_cases hother : other = task
    · subst hother
      simp [hgone, Progress.effect]
    · rw [Function.update_of_ne hother, ← h.pending, heff]
      simp [hother]
  · intro other
    have hall : ProgressOk (shapesOf n) deviceId (Function.update n.progress task .idle other) :=
      prepared_update (p := .idle) h.prepared trivial other
    rw [← hshapes] at hall
    exact hall
  · intro other c next hlast hprogress
    rw [hrest] at hlast
    have hother : other ≠ task := by
      rintro rfl
      exact hgone c (List.mem_of_getLast? hlast)
    simp only [Node.finish, Function.update_of_ne hother] at hprogress
    refine h.last other c next ?_ hprogress
    rw [heff, List.getLast?_cons, hlast]
    rfl
  · intro hnil
    rw [hrest] at hnil
    exact hstore (by rw [heff, hnil])

/-! ## Each step -/

theorem Prepared.storedAt {next : I2cFileConfig} (h : Prepared (shapesOf n) deviceId next) :
    ∃ stored, n.runtime.store[deviceId]? = some stored ∧ storedShape next = storedShape stored := by
  have hshape := h.2
  rw [shapesOf, List.getElem?_map] at hshape
  obtain ⟨stored,hstored,hsame⟩ := Option.map_eq_some_iff.mp hshape
  exact ⟨stored,hstored,hsame.symm⟩

theorem shapesOf_known {stored : I2cFileConfig} (hstored : n.runtime.store[deviceId]? = some stored) :
    (shapesOf n)[deviceId]? = some (storedShape stored) := by
  rw [shapesOf, List.getElem?_map, hstored]
  rfl

theorem dcp2Step_coherent (h : Coherent deviceId start n) (hidle : n.progress task = .idle) (opcode : ℕ) (body : List UInt8) :
    Coherent deviceId start (n.dcp2Step deviceId task opcode body).1 := by
  have hbefore : (n.progress task).effect = none := by
    rw [hidle]
    rfl
  unfold Node.dcp2Step
  split
  · exact h
  · rename_i hfind
    rw [not_ne_iff] at hfind
    cases hedit : dcp2Edit opcode body with
    | none => exact h
    | some edit =>
      dsimp only
      have hlinked := linked_processPolicy h.linked opcode body
      rcases processPolicy_edit hfind hedit with ⟨hrefused,hsame⟩ | hdone
      · rw [if_neg hrefused, hsame]
        exact h
      · rw [hdone] at hlinked ⊢
        dsimp only at hlinked ⊢
        split
        · rename_i hok
          exact h.takesEffect hbefore rfl ⟨edit,hedit⟩ hlinked (serviceEdit_live (policyStatus_ok.mp hok)) fun next hnext => by cases hnext
        · rename_i hrefused
          obtain ⟨hdevices,hentry⟩ := serviceEdit_refused (fun hok => hrefused (policyStatus_ok.mpr hok))
          exact h.withWorld hlinked hdevices hentry

theorem copyStep_coherent (h : Coherent deviceId start n) (hidle : n.progress task = .idle) {token : Word} {words : List Word}
    (hsingle : ∀ id config, selectDevice n.runtime token = some (id,config) → DeletesSingle config words) :
    Coherent deviceId start (n.copyStep deviceId task token words).1 := by
  have hbefore : (n.progress task).effect = none := by
    rw [hidle]
    rfl
  unfold Node.copyStep
  split
  · exact h
  · rename_i id config hselect
    split
    · exact h
    · rename_i hfind
      rw [not_ne_iff] at hfind
      split
      · exact h
      · rename_i edit hwords
        split
        · rename_i hok
          obtain ⟨i,hi⟩ := selectDevice_stored hselect
          obtain rfl : deviceId = i := Option.some.inj (hfind.symm.trans (h.linked.paired.findByName hi rfl).1)
          have hcmd : cmdPolicy config words = editRules config edit := by
            unfold cmdPolicy
            rw [hwords]
          have hvalid := cmdPolicy_valid (h.linked.validAt hi) words
          rw [hcmd] at hvalid
          have hfaithful := (cmdPolicy_faithful_iff config words).mpr (hsingle id config hselect)
          have hstep : i2cConsoleEditor.step config words = ((editRules config edit).2,true) := by
            simp [i2cConsoleEditor, hcmd, hok]
          have hasks : i2cConsoleEditor.asks config words = some edit := by
            simp [i2cConsoleEditor, hwords, Except.toOption]
          refine h.setProgress hbefore rfl ⟨⟨hvalid,?_⟩,(Editor.faithful_acknowledged hstep hasks).mp hfaithful⟩
          rw [storedShape_editRules]
          exact shapesOf_known hi
        · exact h

theorem openStep_coherent (h : Coherent deviceId start n) (hidle : n.progress task = .idle) (name revision : Text) :
    Coherent deviceId start (n.openStep deviceId task name revision).1 := by
  have hbefore : (n.progress task).effect = none := by
    rw [hidle]
    rfl
  unfold Node.openStep
  split
  · exact h
  · rename_i hfind
    rw [not_ne_iff] at hfind
    split
    · refine h.setProgress hbefore rfl ?_
      unfold masterServiceFindByName at hfind
      split_ifs at hfind
      obtain ⟨hlt,hname,-⟩ := List.findIdx?_eq_some_iff_getElem.mp hfind
      obtain ⟨stored,hstored,hshape⟩ := h.linked.storedAt (List.getElem?_eq_getElem hlt)
      have hlower : (storedShape stored).1 = name.map toLower := by
        rw [← hshape]
        exact sameIgnoringCase_iff.mp hname
      exact ⟨(storedShape stored).2,by rw [shapesOf_known hstored, ← hlower]⟩
    · exact h

/-- What a snapshot is made of. -/
theorem snapshot_parts {x : Runtime ε} (hx : Linked x) {current : I2cFileConfig} (h : snapshot x deviceId = some current) :
    ∃ stored, x.store[deviceId]? = some stored ∧ current.regCount = stored.regCount ∧
      current.maxValueCode = stored.maxValueCode ∧ current.profile = stored.profile := by
  unfold snapshot masterServiceGetConfig at h
  cases hdevice : x.world.state.devices.items[deviceId]? with
  | none => simp [hdevice] at h
  | some device =>
    cases hentry : x.world.state.policy.items[deviceId]? with
    | none => simp [hdevice, hentry] at h
    | some entry =>
      obtain ⟨stored,hstored,hshape⟩ := hx.storedAt hdevice
      simp only [liveShape, storedShape, Prod.mk.injEq] at hshape
      obtain ⟨hname,hregs,hcode⟩ := hshape
      rw [hdevice, hentry] at h
      dsimp only at h
      rw [(hx.paired.findByName hstored hname).1, Option.bind_some, hstored] at h
      cases h
      exact ⟨stored,hstored,hregs,hcode,rfl⟩

theorem uiPrepare_prepared {admits : Text → Bool} (h : Coherent deviceId start n) {name revision body : Text}
    (hname : ∃ size, (shapesOf n)[deviceId]? = some (name.map toLower,size)) {current next : I2cFileConfig}
    (hprepare : uiPrepare admits n.runtime deviceId name revision body = some (current,next)) :
    Prepared (shapesOf n) deviceId next := by
  unfold uiPrepare at hprepare
  split at hprepare
  · cases hprepare
  · split at hprepare
    · rename_i parsed current' hparse hsnapshot
      have hvalid := I2cJson.parseJson_valid hparse
      obtain ⟨stored,hstored,hregs,hcode,hprofile⟩ := snapshot_parts h.linked hsnapshot
      split at hprepare
      · cases hprepare
      · rename_i hsame
        simp only [not_or, not_not] at hsame
        obtain ⟨hsameName,-,hsameRegs,hsameCode,-⟩ := hsame
        have hnext : next = ⟨{ parsed.toI2cDeviceConfig with profile := current'.profile },current'.fileName,parsed.settings⟩ := by
          split at hprepare
          · cases hprepare
            rfl
          · split at hprepare
            · cases hprepare
            · cases hprepare
              rfl
        have hmetadata : metadataValidate current'.profile parsed.regCount = .ok := by
          rw [hprofile, hsameRegs, hregs]
          exact (h.linked.validAt hstored).profile
        obtain ⟨size,hshape⟩ := hname
        have hknown := (shapesOf_known hstored).symm.trans hshape
        rw [hnext]
        refine ⟨⟨hvalid.shaped,hvalid.whitelist,hvalid.blacklist,hvalid.settings,hmetadata⟩,?_⟩
        rw [shapesOf_known hstored]
        simp only [storedShape, Option.some.injEq, Prod.mk.injEq] at hknown ⊢
        exact ⟨by rw [hknown.1, hsameName],by rw [hsameRegs, hregs],by rw [hsameCode, hcode]⟩
    · cases hprepare

theorem prepareStep_coherent (admits : Text → Bool) (h : Coherent deviceId start n) {name revision : Text}
    (hopened : n.progress task = .opened name revision) (body : Text) :
    Coherent deviceId start (n.prepareStep admits deviceId task name revision body).1 := by
  have hbefore : (n.progress task).effect = none := by
    rw [hopened]
    rfl
  have hname := h.prepared task
  rw [hopened] at hname
  unfold Node.prepareStep
  split
  · exact h.setProgress hbefore rfl trivial
  · rename_i current next hprepare
    exact h.setProgress hbefore rfl ⟨uiPrepare_prepared h hname hprepare,rfl⟩

theorem applyStep_coherent (h : Coherent deviceId start n) {copy next : I2cFileConfig}
    (hready : n.progress task = .ready copy next change)
    (hfresh : ∀ e, change = .edit e → livePolicy n.runtime.world.state deviceId = configPolicy copy) :
    Coherent deviceId start (n.applyStep task next change).1 := by
  have hbefore : (n.progress task).effect = none := by
    rw [hready]
    rfl
  have hok := h.prepared task
  rw [hready] at hok
  obtain ⟨hprepared,hpolicy⟩ : Prepared (shapesOf n) deviceId next ∧
      configPolicy next = change.apply (livePolicy n.runtime.world.state deviceId) := by
    cases change with
    | edit e =>
      refine ⟨hok.1,?_⟩
      rw [hfresh e rfl]
      exact hok.2
    | replace p => exact ⟨hok.1,hok.2.symm⟩
  obtain ⟨stored,hstored,hshape⟩ := hprepared.storedAt
  obtain ⟨w,happlied,hlive,hentry⟩ := apply_live h.linked hstored (Prod.mk.inj hshape).1 hprepared.1.shaped
  unfold Node.applyStep
  rw [happlied]
  refine h.takesEffect hbefore rfl hprepared (linked_applied h.linked hstored hshape hprepared.1 happlied) (hlive.trans hpolicy) ?_
  rintro _ ⟨⟩
  exact hentry

theorem storeStep_coherent (h : Coherent deviceId start n) {next : I2cFileConfig}
    (happlied : n.progress task = .applied next change) (holdest : Oldest n task) :
    Coherent deviceId start (n.storeStep task next change).1 := by
  have hprepared := h.prepared task
  rw [happlied] at hprepared
  obtain ⟨stored,hstored,hshape⟩ := hprepared.storedAt
  unfold Node.storeStep
  rw [storeSet_done h.linked.paired hstored (Prod.mk.inj hshape).1]
  refine h.finish (by rw [happlied]; rfl) holdest (linked_modify h.linked hstored hshape hprepared.1) fun halone => ?_
  rw [storedEntry_modify hstored]
  exact (h.last task change next (by rw [halone]; rfl) happlied).symm

theorem mirrorStep_coherent (h : Coherent deviceId start n) {opcode : ℕ} {body : List UInt8}
    (hedited : n.progress task = .edited opcode body change) (holdest : Oldest n task)
    (hfind : masterServiceFindByAddr n.runtime.world.state (body.headD 0) = some deviceId) :
    Coherent deviceId start (n.mirrorStep task opcode body change).1 := by
  have hok := h.prepared task
  rw [hedited] at hok
  obtain ⟨edit,hedit⟩ := hok
  unfold masterServiceFindByAddr at hfind
  have hlt := (List.findIdx?_eq_some_iff_getElem.mp hfind).1
  obtain ⟨stored,hstored,-⟩ := h.linked.storedAt (List.getElem?_eq_getElem hlt)
  obtain ⟨store,hdone,hsame⟩ := mirror_done h.linked hstored hedit hfind
  have hlinked := linked_dcp2MirrorPolicy h.linked opcode body .ok
  rw [hdone] at hlinked
  unfold Node.mirrorStep
  rw [hdone]
  exact h.finish (by rw [hedited]; rfl) holdest hlinked fun _ => hsame

theorem step_coherent (admits : Text → Bool) (h : Coherent deviceId start n) (s : Task × Action)
    (hfits : StepFits deviceId n s) : Coherent deviceId start (n.step admits deviceId s).1 := by
  obtain ⟨task,action⟩ := s
  unfold StepFits at hfits
  unfold Node.step
  dsimp only at hfits ⊢
  split
  · rename_i hidle
    exact dcp2Step_coherent h hidle _ _
  · rename_i hidle
    rw [hidle] at hfits
    exact copyStep_coherent h hidle hfits
  · rename_i hidle
    exact openStep_coherent h hidle _ _
  · rename_i hopened
    exact prepareStep_coherent admits h hopened _
  · rename_i copy next change hready
    rw [hready] at hfits
    refine applyStep_coherent h hready ?_
    rintro e rfl
    exact hfits
  · rename_i happlied
    rw [happlied] at hfits
    exact storeStep_coherent h happlied hfits
  · rename_i hedited
    rw [hedited] at hfits
    exact mirrorStep_coherent h hedited hfits.1 hfits.2
  · exact h

/-! ## Runs -/

/-- Every acknowledged change is in effect, or a change that took effect later took it back; and
when nothing is in progress the store has the policy in force. -/
structure UpdatesKept (deviceId : ℕ) (n : Node ε) : Prop where
  kept : ∀ pre c post, n.acked = pre ++ c :: post → c.Holds (livePolicy n.runtime.world.state deviceId) ∨
    ∃ c' ∈ post ++ n.effective.map (·.2), c'.Undoes c
  settled : (∀ task, n.progress task = .idle) →
    n.effective = [] ∧ storedEntry n.runtime deviceId = liveEntry n.runtime deviceId

theorem Coherent.updatesKept (h : Coherent deviceId start n) : UpdatesKept deviceId n := by
  refine ⟨fun pre c post hacked => ?_,fun hidle => ?_⟩
  · rw [h.history]
    have hlog : n.acked ++ n.effective.map (·.2) = pre ++ c :: (post ++ n.effective.map (·.2)) := by
      rw [hacked, List.append_assoc, List.cons_append]
    exact Change.in_effect hlog start
  · have hnone : n.effective = [] := by
      refine List.eq_nil_iff_forall_not_mem.mpr fun ⟨task,c⟩ hc => ?_
      rw [h.pending, hidle] at hc
      cases hc
    exact ⟨hnone,h.quiet hnone⟩

theorem start_coherent {P : I2cPlatform ε} {store : ConfigStore} {env : ε} {x : Runtime ε}
    (hvalid : ∀ c ∈ store, i2cConfigValidate c = .ok) (hnames : (store.map fun c => c.name.map toLower).Nodup)
    (hstart : initializeI2c P store env = some x) (deviceId : ℕ) :
    Coherent deviceId (livePolicy x.world.state deviceId) (Node.start x) := by
  obtain ⟨hstore,-,hentries⟩ := initializeI2c_parts hstart
  refine ⟨initializeI2c_linked hvalid hnames hstart,rfl,by simp [Node.start],?_,fun _ => trivial,?_,fun _ => ?_⟩
  · intro task c
    simp [Node.start, Progress.effect]
  · intro task c next hlast
    simp [Node.start] at hlast
  · change (x.store[deviceId]?).bind _ = x.world.state.policy.items[deviceId]?
    rw [policyItems_getElem? hentries, hstore, List.getElem?_map, Option.bind_map]
    rfl

end

/-! ## A stale copy -/

def warmRuntime : Runtime Unit := (initializeI2c stillPlatform [warmConfig []] ()).get (by decide)

theorem warmRuntime_started : initializeI2c stillPlatform [warmConfig []] () = some warmRuntime :=
  (Option.some_get _).symm

/-- A rule added over DCP2. -/
def addTwoThree : Action := .edit opPolicyRuleAdd [0x20,0,2,3]

def mirrorRun : List (Task × Action) := [(.dcp2,addTwoThree),(.dcp2,.proceed)]

/-- `whitelist add 1 2`, from a copy of before. -/
def addOneTwo : Action := .copy [97] [wordWhitelist,wordAdd,[49],[50]]

def staleRun : List (Task × Action) :=
  [(.console 0,addOneTwo),(.dcp2,addTwoThree),(.dcp2,.proceed),(.console 0,.proceed),(.console 0,.proceed)]

end Bvstk.Surfaces
