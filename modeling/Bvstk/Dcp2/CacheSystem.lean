import Bvstk.Dcp2.CacheInvariant

/-! # One session and its registry

Requests and event polls of one session interleave with registry operations in
any order. What a client can tell apart is read off the bytes it is answered.
-/
namespace Bvstk.Dcp2
open Wire Cache Machine

structure CacheSystem where
  registry : CacheRegistry
  session : CacheSession

def cacheSystemInit : CacheSystem := ⟨cacheInit,cacheSessionInit⟩

inductive CacheOp where
  | registry (op : RegistryOp)
  | request (opcode : ℕ) (body : Bytes) (now : UInt64) (capacity : ℕ)
  | event (now : UInt64) (capacity : ℕ)

inductive CacheAnswer where
  | registry (status : Status)
  | reply (status : ℕ) (bytes : Bytes)
  | event (bytes : Bytes)

def CacheSystem.step (y : CacheSystem) : CacheOp → CacheSystem × CacheAnswer
  | .registry op =>
    let out := op.run y.registry
    ({ y with registry := out.2 },.registry out.1)
  | .request opcode body now capacity =>
    let out := cacheRequest y.registry y.session opcode body now capacity
    ({ y with session := out.2.1 },.reply out.1 out.2.2)
  | .event now capacity =>
    let out := cacheEvent y.registry y.session now capacity
    ({ y with session := out.1 },.event out.2)

/-- A SUBSCRIBE was answered with a page of subscription `id`. -/
def Restarts (id : ℕ) (op : CacheOp) (answer : CacheAnswer) : Prop :=
  ∃ body now capacity bytes pg, op = .request opCacheSubscribe body now capacity ∧
    answer = .reply statusOk bytes ∧ decodePage bytes = some pg ∧ pg.sub = id

/-- An UNSUBSCRIBE of `id` was accepted. -/
def Ends (id : ℕ) (op : CacheOp) (answer : CacheAnswer) : Prop :=
  ∃ tag now capacity bytes, op = .request opCacheUnsubscribe (cacheVersion :: tag) now capacity ∧
    answer = .reply statusOk bytes ∧ readBE tag = id

/-- A poll was answered with the RESYNC of `id`. -/
def Resyncs (id : ℕ) (op : CacheOp) (answer : CacheAnswer) : Prop :=
  ∃ now capacity bytes ev, op = .event now capacity ∧ answer = .event bytes ∧
    decodeEvent bytes = some ev ∧ ev.kind = recordResync ∧ ev.sub = id

/-- A poll with room for a maximal event. -/
def CacheOp.isPoll : CacheOp → Bool
  | .event _ capacity => decide (cacheEventHeader + cacheNameMax - 1 + 20 ≤ capacity)
  | _ => false

/-! ## Invariants of a run -/

structure CacheSystem.Sound (y : CacheSystem) : Prop where
  registry : y.registry.WellFormed
  session : y.session.Sound

theorem CacheSystem.Sound.step {y : CacheSystem} (h : y.Sound) (op : CacheOp) : (y.step op).1.Sound := by
  cases op with
  | registry op => exact ⟨(run_effect h.registry op).wellFormed h.registry,h.session⟩
  | request opcode body now capacity =>
    exact ⟨h.registry,(h.session.expire now).request h.registry
      (request_effect h.registry y.session opcode body now capacity)⟩
  | event now capacity => exact ⟨h.registry,h.session.event y.registry now capacity⟩

theorem cacheSystem_sound (ops : List CacheOp) : (final CacheSystem.step cacheSystemInit ops).Sound :=
  final_invariant (fun _ op h => h.step op) ⟨init_wellFormed,init_sound⟩ ops

/-! ## Identifiers over time -/

/-- Nothing but pending flags, cursors and the like has changed. -/
def CacheSession.SameIds (s s' : CacheSession) : Prop :=
  s'.nextSub = s.nextSub ∧ ∀ j, (s'.subscriptions j).id = (s.subscriptions j).id ∧
    (s'.subscriptions j).handle = (s.subscriptions j).handle

/-- Later, a slot has its old subscription or one with a new identifier. -/
def CacheSession.Evolves (s s' : CacheSession) : Prop :=
  s.nextSub ≤ s'.nextSub ∧ ∀ j, s'.Active j →
    (s'.subscriptions j).id = (s.subscriptions j).id ∧
      (s'.subscriptions j).handle = (s.subscriptions j).handle ∨
    s.nextSub < (s'.subscriptions j).id

theorem CacheSession.SameIds.trans {s s' s'' : CacheSession} (h : s.SameIds s') (h' : s'.SameIds s'') :
    s.SameIds s'' :=
  ⟨h'.1.trans h.1,fun j => ⟨(h'.2 j).1.trans (h.2 j).1,(h'.2 j).2.trans (h.2 j).2⟩⟩

theorem CacheSession.SameIds.evolves {s s' : CacheSession} (h : s.SameIds s') : s.Evolves s' :=
  ⟨h.1.ge,fun j _ => Or.inl (h.2 j)⟩

theorem CacheSession.Evolves.refl (s : CacheSession) : s.Evolves s :=
  ⟨le_rfl,fun _ _ => Or.inl ⟨rfl,rfl⟩⟩

theorem CacheSession.Evolves.trans {s s' s'' : CacheSession} (h : s.Evolves s') (h' : s'.Evolves s'') :
    s.Evolves s'' := by
  refine ⟨h.1.trans h'.1,?_⟩
  intro j hj
  rcases h'.2 j hj with ⟨hid,hhandle⟩ | hnew
  · rcases h.2 j ⟨hj.1,hid ▸ hj.2⟩ with ⟨hid',hhandle'⟩ | hnew
    · exact Or.inl ⟨hid.trans hid',hhandle.trans hhandle'⟩
    · exact Or.inr (hid ▸ hnew)
  · exact Or.inr (h.1.trans_lt hnew)

section
variable {s : CacheSession}

theorem expire_sameIds (s : CacheSession) (now : UInt64) : s.SameIds (expire s now) := by
  unfold expire
  split
  · rw [pauseOwner_eq]
    refine ⟨rfl,fun j => ?_⟩
    dsimp only
    split <;> exact ⟨rfl,rfl⟩
  · exact ⟨rfl,fun _ => ⟨rfl,rfl⟩⟩

theorem advance_sameIds (s : CacheSession) (first count : ℕ) : s.SameIds (s.advance first count) := by
  rw [advance_eq]
  refine ⟨rfl,fun j => ?_⟩
  dsimp only
  split <;> exact ⟨rfl,rfl⟩

theorem setSub_sameIds {i : ℕ} {sub : CacheSubscription} (hid : sub.id = (s.subscriptions i).id)
    (hhandle : sub.handle = (s.subscriptions i).handle) : s.SameIds (s.setSub i sub) := by
  refine ⟨rfl,fun j => ?_⟩
  by_cases hj : j = i
  · subst hj
    exact ⟨by simpa using hid,by simpa using hhandle⟩
  · rw [setSub_of_ne s sub hj]
    exact ⟨rfl,rfl⟩

theorem VisitEffect.sameIds {r : CacheRegistry} {i : ℕ} {now : UInt64} {out : CacheSession × Bytes}
    (h : VisitEffect r s i now out) : s.SameIds out.1 := by
  cases h with
  | passed => exact ⟨rfl,fun _ => ⟨rfl,rfl⟩⟩
  | drained => exact setSub_sameIds rfl rfl
  | ended => exact setSub_sameIds rfl rfl
  | delivered => exact setSub_sameIds rfl rfl

theorem subscribe_evolves {v : CacheSnapshot} {handle cursor i : ℕ}
    (hslot : subscribeSlot s handle = some i) (now : UInt64) :
    s.Evolves (((s.freeze v).adopt i handle cursor).start now) := by
  obtain ⟨hi,hkind⟩ := subscribeSlot_spec hslot
  have hself : (((s.freeze v).adopt i handle cursor).start now).subscriptions i =
      ⟨cursor,v.revision,v.generation,s.subId i,handle,true,0⟩ := Function.update_self _ _ _
  refine ⟨?_,?_⟩
  · change s.nextSub ≤ if (s.subscriptions i).id = 0 then s.nextSub + 1 else s.nextSub
    split <;> omega
  · intro j hj
    by_cases hji : j = i
    · subst hji
      rw [hself]
      rcases hkind with ⟨h0,hsame⟩ | ⟨h0,-⟩
      · exact Or.inl ⟨if_neg h0,hsame.symm⟩
      · exact Or.inr ((Nat.lt_succ_self _).trans_eq (if_pos h0).symm)
    · have hother : (((s.freeze v).adopt i handle cursor).start now).subscriptions j = s.subscriptions j :=
        Function.update_of_ne hji _ _
      rw [hother]
      exact Or.inl ⟨rfl,rfl⟩

theorem RequestEffect.evolves {r : CacheRegistry} {opcode : ℕ} {body : Bytes} {now : UInt64} {capacity : ℕ}
    {out : ℕ × CacheSession × Bytes} (h : RequestEffect r s opcode body now capacity out) :
    s.Evolves out.2.1 := by
  cases h with
  | refused => exact .refl s
  | @released tag i hop hbody hi =>
    refine ⟨le_rfl,fun j hj => Or.inl ?_⟩
    have hji : j ≠ i := by
      rintro rfl
      exact hj.2 (by simp [CacheSession.release, CacheSubscription.zero])
    have hsame : (s.release i).subscriptions j = s.subscriptions j := Function.update_of_ne hji _ _
    exact ⟨congrArg _ hsame,congrArg _ hsame⟩
  | paged hop hbody hlive hpage => exact (advance_sameIds s _ _).evolves
  | dropped => exact .refl s
  | got hop hbody hfree hsnap hpage => exact (advance_sameIds ((s.freeze _).start now) _ _).evolves
  | subscribed hop hbody hfree hsnap hslot hroom hpage =>
    exact (subscribe_evolves hslot now).trans (advance_sameIds _ _ _).evolves

theorem event_sameIds (r : CacheRegistry) (s : CacheSession) (now : UInt64) (capacity : ℕ) :
    s.SameIds (cacheEvent r s now capacity).1 := by
  have hexpire := expire_sameIds s now
  unfold cacheEvent
  dsimp only
  split
  · exact hexpire
  · refine eventLoop_rule (P := fun s' => s.SameIds s') (Q := fun out => s.SameIds out.1) ?_
      (fun _ hs => hs) _ hexpire
    intro s' hs out
    have hout := (visit_effect r s'.turn (Nat.mod_lt s'.roundRobin (by decide)) now).sameIds
    have hnext : s.SameIds out.1 := hs.trans hout
    exact ⟨fun _ => hnext,fun _ => hnext⟩

end

theorem CacheSystem.Sound.evolves {y : CacheSystem} (h : y.Sound) (op : CacheOp) :
    y.session.Evolves (y.step op).1.session := by
  cases op with
  | registry op => exact .refl _
  | request opcode body now capacity =>
    exact (expire_sameIds y.session now).evolves.trans
      (request_effect h.registry y.session opcode body now capacity).evolves
  | event now capacity => exact (event_sameIds y.registry y.session now capacity).evolves

theorem CacheSystem.Sound.run {y : CacheSystem} (h : y.Sound) (ops : List CacheOp) :
    (final CacheSystem.step y ops).Sound ∧ y.session.Evolves (final CacheSystem.step y ops).session := by
  refine final_invariant (P := fun z : CacheSystem => z.Sound ∧ y.session.Evolves z.session) ?_ ⟨h,.refl _⟩ ops
  exact fun z op hz => ⟨hz.1.step op,hz.2.trans (hz.1.evolves op)⟩

end Bvstk.Dcp2
