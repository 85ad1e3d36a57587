import Bvstk.Dcp2.CacheSimulation

/-! # A client that watches the session

The strict client sees every exchange of a session while the registry changes under it.
It never has to stop, it is up to date once a poll has nothing to say, and after a RESYNC
it hears nothing of that subscription until it subscribes again.
-/
namespace Bvstk.Dcp2
open Wire Cache Machine

/-! ## The observed system -/

/-- A session with the past of its registry and a client; no client once it has had to stop. -/
structure CacheObserved where
  history : CacheHistory
  session : CacheSession
  client : Option Client

def cacheObservedInit : CacheObserved := ⟨cacheHistoryInit,cacheSessionInit,some fun _ => .idle⟩

def CacheObserved.system (o : CacheObserved) : CacheSystem := ⟨o.history.registry,o.session⟩

/-- The history after an operation; only registry operations make history. -/
def observe (y : CacheHistory) : CacheOp → CacheHistory
  | .registry op => y.run op
  | _ => y

def CacheObserved.step (o : CacheObserved) (op : CacheOp) : CacheObserved × CacheAnswer :=
  let out := o.system.step op
  ({ history := observe o.history op
     session := out.1.session
     client := o.client.bind fun c => c.receive op out.2 },out.2)

theorem observed_step (o : CacheObserved) (op : CacheOp) :
    (o.step op).1.system = (o.system.step op).1 ∧ (o.step op).2 = (o.system.step op).2 := by
  cases op <;> exact ⟨rfl,rfl⟩

/-- Watching changes nothing. -/
theorem observed_run (o : CacheObserved) (ops : List CacheOp) :
    (final CacheObserved.step o ops).system = final CacheSystem.step o.system ops ∧
      trace CacheObserved.step o ops = trace CacheSystem.step o.system ops := by
  induction ops generalizing o with
  | nil => exact ⟨rfl,rfl⟩
  | cons op ops ih =>
    obtain ⟨hsystem,hanswer⟩ := observed_step o op
    obtain ⟨hfinal,htrace⟩ := ih (o.step op).1
    simp only [final_cons, trace_cons, hfinal, htrace, hsystem, hanswer, and_self]

theorem bounded_back (o : CacheObserved) (op : CacheOp) (h : (o.step op).1.history.Bounded) : o.history.Bounded := by
  cases op with
  | registry op => exact CacheHistory.Bounded.of_run h
  | request => exact h
  | event => exact h

theorem bounded_of_final {o : CacheObserved} {ops : List CacheOp}
    (h : (final CacheObserved.step o ops).history.Bounded) : o.history.Bounded :=
  of_final (B := fun o : CacheObserved => o.history.Bounded) bounded_back h

structure CacheObserved.Sound (o : CacheObserved) : Prop where
  history : o.history.Sound
  simulated : ∃ c, o.client = some c ∧ Sim o.history o.session c

theorem CacheObserved.Sound.step {o : CacheObserved} (h : o.Sound) (op : CacheOp)
    (hb : (o.step op).1.history.Bounded) : (o.step op).1.Sound := by
  obtain ⟨c,hc,hsim⟩ := h.simulated
  cases op with
  | registry op =>
    refine ⟨h.history.run op hb,c,?_,hsim.run h.history op hb⟩
    rw [CacheObserved.step, hc]
    rfl
  | request opcode body now capacity =>
    obtain ⟨c',hreceive,hnext⟩ := hsim.request h.history opcode body now capacity
    refine ⟨h.history,c',?_,hnext⟩
    rw [CacheObserved.step, hc]
    exact hreceive
  | event now capacity =>
    obtain ⟨c',hreceive,hnext⟩ := hsim.event h.history now capacity
    refine ⟨h.history,c',?_,hnext⟩
    rw [CacheObserved.step, hc]
    exact hreceive

theorem CacheObserved.Sound.run {o : CacheObserved} (h : o.Sound) {ops : List CacheOp}
    (hb : (final CacheObserved.step o ops).history.Bounded) : (final CacheObserved.step o ops).Sound :=
  final_invariant_while (B := fun o : CacheObserved => o.history.Bounded) bounded_back
    (fun _ op hb h => h.step op hb) h hb

theorem cacheObserved_init_sound : cacheObservedInit.Sound where
  history := cacheHistory_init_sound
  simulated := ⟨fun _ => .idle,rfl,init_sound,fun _ hi => absurd rfl hi.2,fun _ _ => rfl,fun h => absurd rfl h⟩

theorem CacheObserved.Sound.system {o : CacheObserved} (h : o.Sound) : o.system.Sound := by
  obtain ⟨c,-,hsim⟩ := h.simulated
  exact ⟨h.history.wellFormed,hsim.session⟩

/-! ## A silent poll -/

section
variable {y : CacheHistory} {s : CacheSession} {c : Client} {i : ℕ}

/-- The client's copy in slot `i` is the current state of the device. -/
def UpToDate (y : CacheHistory) (s : CacheSession) (c : Client) (i : ℕ) : Prop :=
  ∃ d, device y.registry (s.subscriptions i).handle = some d ∧
    c (s.subscriptions i).id = .live d.subsystem d.device d.copy

/-- A silent visit leaves a slot delivering only if it has delivered everything. -/
theorem Sim.drained (hy : y.Sound) (h : Sim y s c) (hd : s.Delivering i) {now : UInt64}
    {out : CacheSession × Bytes} (hout : VisitEffect y.registry s i now out) (hsilent : out.2 = []) :
    UpToDate y s c i := by
  cases hout with
  | passed hpassed =>
    rcases hpassed with h0 | h0 | ⟨hp,-⟩
    · exact absurd h0 hd.active.2
    · exact absurd (hd.running.symm.trans h0) (by decide)
    · exact absurd (hd.started.symm.trans hp) (by decide)
  | ended => exact absurd hsilent (by simp [resyncBytes])
  | delivered => exact absurd hsilent (by simp [changeBytes])
  | @drained cursor _ hnext =>
    have hslot := h.slots i hd.active
    generalize hc : c (s.subscriptions i).id = st at hslot
    cases hslot with
    | @live bus name copy hp h0 hf =>
      have heffect := hf.follower.next hy
      rw [hnext] at heffect
      cases heffect with
      | caughtUp hdev hcopy hnames hs =>
        refine ⟨_,hdev,?_⟩
        rw [hc, hcopy, hnames.1, hnames.2]
    | loading hp => exact absurd (hd.started.symm.trans hp) (by decide)
    | loaded hp => exact absurd (hd.started.symm.trans hp) (by decide)
    | expiredLoading hp => exact absurd (hd.running.symm.trans hp) (by decide)
    | expiredLive hp => exact absurd (hd.running.symm.trans hp) (by decide)
    | ended hp => exact absurd (hd.running.symm.trans hp) (by decide)

/-- A silent visit changes at most the cursor of a slot. -/
theorem VisitEffect.quiet {r : CacheRegistry} {k : ℕ} {now : UInt64} {out : CacheSession × Bytes}
    (h : VisitEffect r s k now out) (hsilent : out.2 = []) (i : ℕ) :
    out.1.subscriptions i = { s.subscriptions i with cursor := (out.1.subscriptions i).cursor } := by
  by_cases hik : i = k
  · subst hik
    cases h with
    | passed => rfl
    | drained => simp only [setSub_self]
    | ended => exact absurd hsilent (by simp [resyncBytes])
    | delivered => exact absurd hsilent (by simp [changeBytes])
  · rw [h.frame.2 i hik]

theorem delivering_congr {s s' : CacheSession} {cursor : ℕ}
    (h : s'.subscriptions i = { s.subscriptions i with cursor := cursor }) : s'.Delivering i ↔ s.Delivering i := by
  constructor
  · rintro ⟨⟨hi,hid⟩,hp,h0⟩
    rw [h] at hid hp h0
    exact ⟨⟨hi,hid⟩,hp,h0⟩
  · rintro ⟨⟨hi,hid⟩,hp,h0⟩
    refine ⟨⟨hi,?_⟩,?_,?_⟩ <;> rwa [h]

/-- A silent poll changes at most the cursor of a slot. -/
theorem eventLoop_quiet {r : CacheRegistry} {now : UInt64} (left : ℕ)
    (hsilent : (eventLoop r now left s).2 = []) (i : ℕ) :
    ∃ cursor, (eventLoop r now left s).1.subscriptions i = { s.subscriptions i with cursor := cursor } := by
  refine eventLoop_rule (r := r)
    (P := fun s' => ∃ cursor, s'.subscriptions i = { s.subscriptions i with cursor := cursor })
    (Q := fun out => out.2 = [] → ∃ cursor, out.1.subscriptions i = { s.subscriptions i with cursor := cursor })
    ?_ (fun _ hs _ => hs) left ⟨_,rfl⟩ hsilent
  rintro s' ⟨cursor,hcursor⟩ out
  have hout := visit_effect r s'.turn (Nat.mod_lt s'.roundRobin (by decide)) now
  refine ⟨fun hquiet => ?_,fun hspeaks hquiet => absurd hquiet hspeaks⟩
  have hsub := hout.quiet hquiet i
  rw [show s'.turn.subscriptions i = { s.subscriptions i with cursor := cursor } from hcursor] at hsub
  exact ⟨_,hsub⟩

/-- A poll that stays silent has visited every slot. -/
theorem silent_loop (hy : y.Sound) (now : UInt64) (left : ℕ) (h : Sim y s c) (hleft : s.turns i < left)
    (hd : s.Delivering i) (hsilent : (eventLoop y.registry now left s).2 = []) : UpToDate y s c i := by
  induction left generalizing s with
  | zero => exact absurd hleft (Nat.not_lt_zero _)
  | succ left ih =>
    have hout := visit_effect y.registry s.turn (Nat.mod_lt s.roundRobin (by decide)) now
    by_cases hquiet : (visit y.registry s.turn (s.roundRobin % cacheSubscriptions) now).2 = []
    · rw [eventLoop_silent left hquiet] at hsilent
      by_cases hturn : s.roundRobin % cacheSubscriptions = i
      · rw [hturn] at hout hquiet
        have hd' : s.turn.Delivering i := ⟨hd.active,hd.started,hd.running⟩
        have hdone := h.turn.drained hy hd' hout hquiet
        exact hdone
      · obtain ⟨hrr,hframe⟩ := hout.frame
        have hsub := hframe i (Ne.symm hturn)
        have hnear : (visit y.registry s.turn (s.roundRobin % cacheSubscriptions) now).1.turns i < left := by
          have hturns := turn_turns hd.active.1 hturn
          rw [CacheSession.turns_of_roundRobin hrr]
          omega
        have hd' : (visit y.registry s.turn (s.roundRobin % cacheSubscriptions) now).1.Delivering i :=
          (delivering_congr hsub).mpr hd
        have hnext := ih (h.turn.silent_visit hy hout hquiet) hnear hd' hsilent
        rw [UpToDate, hsub] at hnext
        exact hnext
    · rw [eventLoop_speaks left hquiet] at hsilent
      exact absurd hsilent hquiet

theorem silent_poll (hy : y.Sound) (h : Sim y s c) {now : UInt64} {capacity : ℕ}
    (hroom : cacheEventHeader + cacheNameMax - 1 + 20 ≤ capacity)
    (hsilent : (cacheEvent y.registry s now capacity).2 = [])
    (hd : (cacheEvent y.registry s now capacity).1.Delivering i) :
    UpToDate y (cacheEvent y.registry s now capacity).1 c i := by
  have hevent : cacheEvent y.registry s now capacity = eventLoop y.registry now cacheSubscriptions (expire s now) :=
    if_neg (not_lt.mpr hroom)
  rw [hevent] at hsilent hd ⊢
  obtain ⟨cursor,hsub⟩ := eventLoop_quiet cacheSubscriptions hsilent i
  have hstart := silent_loop hy now cacheSubscriptions (h.expire now) (turns_lt _ i) ((delivering_congr hsub).mp hd)
    hsilent
  rw [UpToDate, hsub]
  exact hstart

end

/-! ## Events, one after the other -/

/-- What an event does to a client: it ends a subscription, or it is the very next
change of a live copy. -/
inductive TakesEvent (c : Client) (ev : CacheEvent) : Client → Prop where
  | ended (hkind : ev.kind = recordResync) (hidle : c ev.sub ≠ .idle) (hended : c ev.sub ≠ .ended) :
      TakesEvent c ev (Function.update c ev.sub .ended)
  | applied {bus name : Name} {copy : CacheCopy} (hlive : c ev.sub = .live bus name copy)
      (hkind : ev.kind = kindChange ∨ ev.kind = kindPresence) (hgeneration : ev.generation = copy.generation)
      (hrevision : ev.revision = copy.revision + 1) :
      TakesEvent c ev (Function.update c ev.sub (.live bus name (applyEvent copy ev)))

theorem ClientSub.event_cases {st st' : ClientSub} {ev : CacheEvent} (h : st.event ev = some st') :
    ev.kind = recordResync ∧ st ≠ .idle ∧ st ≠ .ended ∧ st' = .ended ∨
      ∃ bus name copy, st = .live bus name copy ∧ (ev.kind = kindChange ∨ ev.kind = kindPresence) ∧
        ev.generation = copy.generation ∧ ev.revision = copy.revision + 1 ∧
        st' = .live bus name (applyEvent copy ev) := by
  cases st with
  | idle => exact absurd h (by simp [ClientSub.event])
  | ended => exact absurd h (by simp [ClientSub.event])
  | loading d =>
    simp only [ClientSub.event] at h
    split at h
    · rename_i hkind
      exact Or.inl ⟨hkind,ClientSub.noConfusion,ClientSub.noConfusion,(Option.some.inj h).symm⟩
    · contradiction
  | live bus name copy =>
    simp only [ClientSub.event] at h
    split at h
    · rename_i hkind
      exact Or.inl ⟨hkind,ClientSub.noConfusion,ClientSub.noConfusion,(Option.some.inj h).symm⟩
    · split at h
      · rename_i hnext
        obtain ⟨hshape,hgeneration,hrevision⟩ := hnext
        exact Or.inr ⟨bus,name,copy,rfl,hshape.imp And.left And.left,hgeneration,hrevision,(Option.some.inj h).symm⟩
      · contradiction

theorem receive_takes {c c' : Client} {now : UInt64} {capacity : ℕ} {bytes : Bytes} (hne : bytes ≠ [])
    (h : c.receive (.event now capacity) (.event bytes) = some c') :
    ∃ ev, decodeEvent bytes = some ev ∧ TakesEvent c ev c' := by
  simp only [Client.receive, if_neg hne, Option.bind_eq_bind, Option.bind_eq_some_iff] at h
  obtain ⟨ev,hdecode,st,hst,hc'⟩ := h
  obtain rfl := Option.some.inj hc'
  refine ⟨ev,hdecode,?_⟩
  rcases ClientSub.event_cases hst with ⟨hkind,hidle,hended,rfl⟩ | ⟨bus,name,copy,hlive,hkind,hg,hrev,rfl⟩
  · exact .ended hkind hidle hended
  · exact .applied hlive hkind hg hrev

/-- A poll was answered with an event of `id`. -/
def Tells (id : ℕ) (op : CacheOp) (answer : CacheAnswer) : Prop :=
  ∃ now capacity bytes ev, op = .event now capacity ∧ answer = .event bytes ∧ decodeEvent bytes = some ev ∧ ev.sub = id

/-- The client does not hold anything of `id` any more. -/
def Client.Over (c : Client) (id : ℕ) : Prop := c id = .ended ∨ c id = .idle

theorem Client.Over.update {c : Client} {id k : ℕ} {st : ClientSub} (h : c.Over id)
    (hst : k = id → st = .ended ∨ st = .idle) : Client.Over (Function.update c k st) id := by
  by_cases hk : k = id
  · subst hk
    simpa [Client.Over] using hst rfl
  · simpa only [Client.Over, Function.update_of_ne (Ne.symm hk)] using h

theorem Client.Over.event {c : Client} {id : ℕ} (h : c.Over id) (ev : CacheEvent) : (c id).event ev = none := by
  rcases h with h | h <;> rw [h] <;> rfl

/-- Only a new SUBSCRIBE brings a subscription back. -/
theorem Client.Over.receive {c c' : Client} {id : ℕ} (h : c.Over id) {op : CacheOp} {answer : CacheAnswer}
    (hreceive : c.receive op answer = some c') (hrestart : ¬Restarts id op answer) :
    c'.Over id ∧ ¬Tells id op answer := by
  cases op with
  | registry op =>
    refine ⟨?_,by rintro ⟨_,_,_,_,hop,-⟩; exact CacheOp.noConfusion hop⟩
    cases answer with
    | registry status =>
      obtain rfl := Option.some.inj hreceive
      exact h
    | reply => exact absurd hreceive (by simp [Client.receive])
    | event => exact absurd hreceive (by simp [Client.receive])
  | request opcode body now capacity =>
    refine ⟨?_,by rintro ⟨_,_,_,_,hop,-⟩; exact CacheOp.noConfusion hop⟩
    cases answer with
    | registry => exact absurd hreceive (by simp [Client.receive])
    | event => exact absurd hreceive (by simp [Client.receive])
    | reply status bytes =>
      simp only [Client.receive] at hreceive
      split at hreceive
      · obtain rfl := Option.some.inj hreceive
        exact h
      · rename_i hok
        have hok := not_not.mp hok
        subst hok
        split at hreceive
        · obtain rfl := Option.some.inj hreceive
          exact h.update fun _ => Or.inr rfl
        · simp only [Option.bind_eq_bind, Option.bind_eq_some_iff] at hreceive
          obtain ⟨pg,hpg,hreceive⟩ := hreceive
          split at hreceive
          · rename_i hop
            simp only [Option.bind_eq_some_iff] at hreceive
            obtain ⟨⟨bus,name⟩,hnames,hreceive⟩ := hreceive
            dsimp only at hreceive
            split at hreceive
            · contradiction
            · obtain rfl := Option.some.inj hreceive
              refine h.update fun hid => absurd ?_ hrestart
              exact ⟨body,now,capacity,bytes,pg,by rw [hop],rfl,hpg,hid⟩
          · split at hreceive
            · obtain rfl := Option.some.inj hreceive
              exact h
            · simp only [Option.bind_eq_some_iff] at hreceive
              obtain ⟨st,hst,hreceive⟩ := hreceive
              obtain rfl := Option.some.inj hreceive
              refine h.update fun hid => ?_
              rw [hid] at hst
              rcases h with h | h
              · rw [h] at hst
                exact Or.inl (Option.some.inj hst).symm
              · rw [h] at hst
                contradiction
  | event now capacity =>
    cases answer with
    | registry => exact absurd hreceive (by simp [Client.receive])
    | reply => exact absurd hreceive (by simp [Client.receive])
    | event bytes =>
      simp only [Client.receive] at hreceive
      split at hreceive
      · rename_i hnil
        obtain rfl := Option.some.inj hreceive
        refine ⟨h,?_⟩
        rintro ⟨_,_,_,ev,-,hanswer,hdecode,-⟩
        simp only [CacheAnswer.event.injEq] at hanswer
        subst hanswer hnil
        exact absurd hdecode (by simp [decodeEvent, readByte])
      · simp only [Option.bind_eq_bind, Option.bind_eq_some_iff] at hreceive
        obtain ⟨ev,hdecode,st,hst,hreceive⟩ := hreceive
        obtain rfl := Option.some.inj hreceive
        have hne : ev.sub ≠ id := by
          intro hid
          rw [hid, h.event] at hst
          contradiction
        refine ⟨h.update fun hid => absurd hid hne,?_⟩
        rintro ⟨_,_,_,ev',-,hanswer,hdecode',hid⟩
        simp only [CacheAnswer.event.injEq] at hanswer
        subst hanswer
        rw [hdecode, Option.some.injEq] at hdecode'
        exact hne (hdecode' ▸ hid)

/-- After its RESYNC the client holds nothing of a subscription. -/
theorem over_of_resyncs {c c' : Client} {id : ℕ} {op : CacheOp} {answer : CacheAnswer}
    (hres : Resyncs id op answer) (h : c.receive op answer = some c') : c'.Over id := by
  obtain ⟨now,capacity,bytes,ev,rfl,rfl,hdecode,hkind,rfl⟩ := hres
  have hne : bytes ≠ [] := by
    rintro rfl
    exact absurd hdecode (by simp [decodeEvent, readByte])
  obtain ⟨ev',hdecode',htakes⟩ := receive_takes hne h
  rw [hdecode, Option.some.injEq] at hdecode'
  subst hdecode'
  cases htakes with
  | ended => exact Or.inl (Function.update_self _ _ _)
  | applied _ hkind' =>
    rcases hkind' with hk | hk
    · exact absurd (hk.symm.trans hkind) (by decide)
    · exact absurd (hk.symm.trans hkind) (by decide)

theorem Tells.not_restarts {id : ℕ} {op : CacheOp} {answer : CacheAnswer} (h : Tells id op answer) :
    ¬Restarts id op answer := by
  obtain ⟨now,capacity,bytes,ev,rfl,-⟩ := h
  rintro ⟨_,_,_,_,_,hop,-⟩
  exact CacheOp.noConfusion hop

/-- The client's side of a step. -/
theorem CacheObserved.Sound.receives {o : CacheObserved} (h : o.Sound) {op : CacheOp}
    (hb : (o.step op).1.history.Bounded) :
    ∃ c c', o.client = some c ∧ (o.step op).1.client = some c' ∧ c.receive op (o.step op).2 = some c' := by
  obtain ⟨c,hc,-⟩ := h.simulated
  obtain ⟨c',hc',-⟩ := (h.step op hb).simulated
  refine ⟨c,c',hc,hc',?_⟩
  rw [CacheObserved.step, hc] at hc'
  exact hc'

/-- Without a new SUBSCRIBE nothing more is said of a subscription that is over. -/
theorem CacheObserved.Sound.over_silent {o : CacheObserved} (h : o.Sound) {id : ℕ} {ops : List CacheOp}
    (hb : (final CacheObserved.step o ops).history.Bounded) (hover : ∀ c, o.client = some c → c.Over id)
    {mid after : List (CacheOp × CacheAnswer)} {q : CacheOp × CacheAnswer}
    (hsplit : trace CacheObserved.step o ops = mid ++ q :: after) (hno : ∀ m ∈ mid, ¬Restarts id m.1 m.2) :
    ¬Tells id q.1 q.2 := by
  induction mid generalizing o ops with
  | nil =>
    cases ops with
    | nil => exact absurd hsplit (by simp)
    | cons op ops =>
      simp only [trace_cons, List.nil_append, List.cons.injEq] at hsplit
      obtain ⟨rfl,-⟩ := hsplit
      intro htells
      obtain ⟨c,c',hc,-,hreceive⟩ := h.receives (bounded_of_final hb)
      exact ((hover c hc).receive hreceive htells.not_restarts).2 htells
  | cons m mid ih =>
    cases ops with
    | nil => exact absurd hsplit (by simp)
    | cons op ops =>
      simp only [trace_cons, List.cons_append, List.cons.injEq] at hsplit
      obtain ⟨rfl,hsplit⟩ := hsplit
      have hnext : (o.step op).1.history.Bounded := bounded_of_final hb
      obtain ⟨c,c',hc,hc',hreceive⟩ := h.receives hnext
      have hover' := ((hover c hc).receive hreceive (hno _ List.mem_cons_self)).1
      refine ih (h.step op hnext) hb ?_ hsplit fun m hm => hno m (List.mem_cons_of_mem _ hm)
      intro c'' hc''
      rwa [← Option.some.inj (hc'.symm.trans hc'')]

/-- Nothing is said of a subscription between its RESYNC and its next SUBSCRIBE. -/
theorem CacheObserved.Sound.resync_once {o : CacheObserved} (h : o.Sound) {id : ℕ} {ops : List CacheOp}
    (hb : (final CacheObserved.step o ops).history.Bounded) {before mid after : List (CacheOp × CacheAnswer)}
    {p q : CacheOp × CacheAnswer} (hsplit : trace CacheObserved.step o ops = before ++ p :: (mid ++ q :: after))
    (hp : Resyncs id p.1 p.2) (hq : Tells id q.1 q.2) : ∃ m ∈ mid, Restarts id m.1 m.2 := by
  obtain ⟨pre,post,rfl,hanswer,-,hpost⟩ := trace_eq_append_cons CacheObserved.step hsplit
  simp only [final_append, final_cons] at hb
  have hnext := bounded_of_final hb
  have hpre : (final CacheObserved.step o pre).Sound := h.run (bounded_back _ _ hnext)
  obtain ⟨c,c',-,hc',hreceive⟩ := hpre.receives hnext
  rw [← hanswer] at hreceive
  by_contra hno
  push Not at hno
  refine (hpre.step p.1 hnext).over_silent hb ?_ hpost.symm hno hq
  intro c'' hc''
  rw [← Option.some.inj (hc'.symm.trans hc'')]
  exact over_of_resyncs hp hreceive

end Bvstk.Dcp2
