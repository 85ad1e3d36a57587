import Bvstk.Dcp2.CacheObserver

/-! # Cache subscriptions converge

A subscription that cannot be continued stays so until its RESYNC, which comes once.
With that, the client of a session converges: what it holds is always a state of the
registry, and the current one whenever a poll stays silent.
-/
namespace Bvstk.Dcp2
open Wire Cache Machine

/-! ## Subscriptions that cannot be continued -/

/-- The device has been redefined, or the journal no longer has all of its changes. -/
def CacheSubscription.Lost (r : CacheRegistry) (sub : CacheSubscription) : Prop :=
  (∀ d, device r sub.handle = some d → d.generation ≠ sub.generation) ∨
    cacheJournalSize < r.head - sub.cursor

/-- Its snapshot has expired, or it has lost track of its device. -/
def CacheSubscription.Doomed (r : CacheRegistry) (sub : CacheSubscription) : Prop :=
  sub.paused = reasonExpired ∨ sub.paused = 0 ∧ sub.Lost r

/-- It still waits for pages. -/
def CacheSubscription.Waiting (sub : CacheSubscription) : Prop := sub.pending = true ∧ sub.paused = 0

theorem CacheSubscription.Lost.next {r : CacheRegistry} {sub : CacheSubscription} (h : sub.Lost r) :
    ∃ reason, cacheNext r sub.handle sub.generation sub.cursor = (.resync reason,sub.cursor) := by
  unfold cacheNext
  cases hd : device r sub.handle with
  | none => exact ⟨_,rfl⟩
  | some d =>
    dsimp only
    by_cases hg : d.generation = sub.generation
    · have hover := h.resolve_left fun hgone => hgone d hd hg
      rw [if_neg (not_not.mpr hg), if_pos (Or.inr hover)]
      exact ⟨_,rfl⟩
    · exact ⟨_,if_pos hg⟩

/-- What is lost stays lost: generations are never reused and the journal only moves on. -/
theorem CacheSubscription.Lost.run {y : CacheHistory} (hy : y.Sound) {sub : CacheSubscription}
    (h : sub.Lost y.registry) (hissued : sub.generation ≤ y.definitions) (op : RegistryOp)
    (hb : (y.run op).Bounded) : sub.Lost (y.run op).registry := by
  have heffect := history_effect hy op hb
  generalize y.run op = z at heffect ⊢
  cases heffect with
  | same => exact h
  | @changed k d d' c hd hc hhead hrevision =>
    rcases h with hgone | hover
    · refine Or.inl fun e he => ?_
      rw [device_record hd hc] at he
      split at he
      · rename_i hk
        obtain rfl := Option.some.inj he
        rw [hc.generation_eq]
        exact hgone d (hk ▸ hd)
      · exact hgone e he
    · refine Or.inr ?_
      rw [hy.head] at hover
      rw [hhead]
      omega
  | @defined slot d hslot hgeneration hrevision =>
    rcases h with hgone | hover
    · refine Or.inl fun e he => ?_
      rw [device_install hslot (hgeneration ▸ Nat.succ_ne_zero _)] at he
      split at he
      · obtain rfl := Option.some.inj he
        omega
      · exact hgone e he
    · exact Or.inr hover

theorem CacheSubscription.Doomed.run {y : CacheHistory} (hy : y.Sound) {sub : CacheSubscription}
    (h : sub.Doomed y.registry) (hissued : sub.paused = 0 → sub.generation ≤ y.definitions) (op : RegistryOp)
    (hb : (y.run op).Bounded) : sub.Doomed (y.run op).registry :=
  h.imp_right fun ⟨h0,hlost⟩ => ⟨h0,hlost.run hy (hissued h0) op hb⟩

theorem Sim.issued {y : CacheHistory} {s : CacheSession} {c : Client} (h : Sim y s c) {i : ℕ} (hi : s.Active i)
    (h0 : (s.subscriptions i).paused = 0) : (s.subscriptions i).generation ≤ y.definitions := by
  have hslot := h.slots i hi
  generalize c (s.subscriptions i).id = st at hslot
  cases hslot with
  | live hp _ hf => exact hf.follower.issued
  | loading hp _ hf hd => exact hf.follower.issued
  | loaded hp _ hf => exact hf.follower.issued
  | expiredLoading hp => exact absurd (h0.symm.trans hp) (by decide)
  | expiredLive hp => exact absurd (h0.symm.trans hp) (by decide)
  | ended hp => exact absurd (h0.symm.trans hp) (by decide)

theorem CacheSubscription.Kept.doomed {r : CacheRegistry} {sub sub' : CacheSubscription} (hk : sub.Kept sub')
    (h : sub.Doomed r) : sub'.Doomed r := by
  rcases hk with rfl | rfl
  · exact h
  · exact h

/-- Doomed and done waiting: the next visit sends the RESYNC. -/
theorem doomed_owing : Owing fun r sub => sub.Doomed r ∧ ¬sub.Waiting where
  said := by
    rintro r s i now hid ⟨hexpired | ⟨h0,hlost⟩,hwaiting⟩
    · exact ⟨(s.subscriptions i).paused,by simp [visit, hid, hexpired, resyncSub, reasonExpired, pausedSent]⟩
    · obtain ⟨reason,hnext⟩ := hlost.next
      have hp : (s.subscriptions i).pending = false := Bool.eq_false_iff.mpr fun hp => hwaiting ⟨hp,h0⟩
      exact ⟨reason,by simp [visit, hid, h0, hp, hnext, resyncSub, resyncBytes, pausedSent]⟩
  kept := by
    rintro r sub sub' hk ⟨hdoomed,hwaiting⟩
    refine ⟨hk.doomed hdoomed,?_⟩
    rcases hk with rfl | rfl
    · exact hwaiting
    · exact fun hw => absurd hw.1 Bool.false_ne_true
  expired := by
    rintro r sub hp -
    exact ⟨Or.inl rfl,fun hw => absurd hw.2 (show reasonExpired ≠ 0 by decide)⟩

theorem CacheSubscription.Doomed.lost {r : CacheRegistry} {sub : CacheSubscription} (h : sub.Doomed r)
    (h0 : sub.paused = 0) : sub.Lost r := by
  rcases h with hexpired | ⟨-,hlost⟩
  · exact absurd (h0.symm.trans hexpired) (by decide)
  · exact hlost

/-- A visit leaves a doomed subscription as it is, or sends its RESYNC. -/
theorem CacheSession.Sound.visit_doomed {s : CacheSession} (hs : s.Sound) {r : CacheRegistry} {i : ℕ}
    {now : UInt64} {out : CacheSession × Bytes} (hout : VisitEffect r s i now out)
    (h : (s.subscriptions i).Doomed r) :
    (out.2 ≠ [] ∧ ∀ capacity, Resyncs (s.subscriptions i).id (.event now capacity) (.event out.2)) ∨
      (out.1.subscriptions i).Doomed r := by
  cases hout with
  | passed => exact Or.inr h
  | drained hd hnext =>
    obtain ⟨reason,hlost⟩ := (h.lost hd.running).next
    rw [hnext] at hlost
    exact absurd hlost (by simp)
  | ended ha => exact Or.inl ⟨by simp [resyncBytes],fun capacity => hs.resyncs ha _ now capacity⟩
  | delivered hd hnext =>
    obtain ⟨reason,hlost⟩ := (h.lost hd.running).next
    rw [hnext] at hlost
    exact absurd hlost (by simp)

theorem expire_doomed {s : CacheSession} {r : CacheRegistry} {i : ℕ} (h : (s.subscriptions i).Doomed r)
    (now : UInt64) : ((expire s now).subscriptions i).Doomed r := by
  rcases expire_slot s now i with hsame | ⟨-,hsame⟩
  · rwa [hsame]
  · rw [hsame]
    exact Or.inl rfl

/-- A poll leaves a doomed subscription as it is, or sends its RESYNC. -/
theorem event_doomed {s : CacheSession} (hs : s.Sound) (r : CacheRegistry) (now : UInt64) (capacity : ℕ) {i : ℕ}
    (h : (s.subscriptions i).Doomed r) :
    Resyncs (s.subscriptions i).id (.event now capacity) (.event (cacheEvent r s now capacity).2) ∨
      ((cacheEvent r s now capacity).1.subscriptions i).Doomed r := by
  have hids := (expire_sameIds s now).2 i
  unfold cacheEvent
  dsimp only
  split
  · exact Or.inr (expire_doomed h now)
  · refine eventLoop_rule (r := r)
      (P := fun s' => s'.Sound ∧ (s'.subscriptions i).id = (s.subscriptions i).id ∧ (s'.subscriptions i).Doomed r)
      (Q := fun out => Resyncs (s.subscriptions i).id (.event now capacity) (.event out.2) ∨
        (out.1.subscriptions i).Doomed r)
      ?_ (fun _ hs => Or.inr hs.2.2) _ ⟨hs.expire now,hids.1,expire_doomed h now⟩
    rintro s' ⟨hs',hid,hd⟩ out
    have hout := visit_effect r s'.turn (Nat.mod_lt s'.roundRobin (by decide)) now
    have hkeep : (out.2 ≠ [] ∧ Resyncs (s.subscriptions i).id (.event now capacity) (.event out.2)) ∨
        (out.1.subscriptions i).Doomed r := by
      by_cases hturn : i = s'.roundRobin % cacheSubscriptions
      · subst hturn
        rw [← hid]
        exact (hs'.turn.visit_doomed hout hd).imp_left fun hres => ⟨hres.1,hres.2 capacity⟩
      · exact Or.inr ((hout.frame.2 i hturn) ▸ hd)
    refine ⟨fun hsilent => ⟨hs'.turn.visit hout,(hout.sameIds.2 i).1.trans hid,?_⟩,fun _ => hkeep.imp_left And.right⟩
    exact hkeep.resolve_left fun hres => hres.1 hsilent

/-- A doomed subscription stays so until its RESYNC, unless its client gives it up. -/
theorem CacheObserved.Sound.doomed_step {o : CacheObserved} (h : o.Sound) (op : CacheOp)
    (hb : (o.step op).1.history.Bounded) {i : ℕ} (hi : o.session.Active i)
    (hd : (o.session.subscriptions i).Doomed o.history.registry) :
    Settles (o.session.subscriptions i).id op (o.step op).2 ∨
      ((o.step op).1.session.subscriptions i).id = (o.session.subscriptions i).id ∧
      ((o.step op).1.session.subscriptions i).Doomed (o.step op).1.history.registry := by
  obtain ⟨c,-,hsim⟩ := h.simulated
  cases op with
  | registry op => exact Or.inr ⟨rfl,hd.run h.history (hsim.issued hi) op hb⟩
  | request opcode body now capacity =>
    have hid := ((expire_sameIds o.session now).2 i).1
    have hout := request_effect h.history.wellFormed o.session opcode body now capacity
    have hslot := hout.slot h.history.wellFormed (hsim.session.expire now) ⟨hi.1,hid ▸ hi.2⟩
    rw [hid] at hslot
    rcases hslot with hends | hrestarts | hkept
    · exact Or.inl (Or.inr (Or.inl hends))
    · exact Or.inl (Or.inr (Or.inr hrestarts))
    · exact Or.inr ⟨hkept.id_eq.trans hid,hkept.doomed (expire_doomed hd now)⟩
  | event now capacity =>
    rcases event_doomed hsim.session o.history.registry now capacity hd with hres | hkeep
    · exact Or.inl (Or.inl hres)
    · exact Or.inr ⟨((event_sameIds o.history.registry o.session now capacity).2 i).1,hkeep⟩

/-- Slot `i` has subscription `id`, which cannot be continued. -/
structure CacheObserved.DoomedAt (o : CacheObserved) (i id : ℕ) : Prop where
  active : o.session.Active i
  named : (o.session.subscriptions i).id = id
  doomed : (o.session.subscriptions i).Doomed o.history.registry

theorem CacheObserved.Sound.doomed_stays {o : CacheObserved} (h : o.Sound) {i id : ℕ} (hd : o.DoomedAt i id)
    {ops : List CacheOp} (hb : (final CacheObserved.step o ops).history.Bounded) :
    (∃ p ∈ trace CacheObserved.step o ops, Settles id p.1 p.2) ∨ (final CacheObserved.step o ops).DoomedAt i id := by
  have hrun := final_unless (B := fun o : CacheObserved => o.history.Bounded)
    (P := fun o : CacheObserved => o.Sound ∧ o.DoomedAt i id) (D := Settles id) bounded_back ?_ ⟨h,hd⟩ hb
  · exact hrun.imp_right And.right
  · rintro o op hb ⟨h,hd⟩
    have hstep := h.doomed_step op hb hd.active hd.doomed
    rw [hd.named] at hstep
    rcases hstep with hdone | ⟨hid,hkeep⟩
    · exact Or.inl hdone
    · refine Or.inr ⟨h.step op hb,⟨hd.active.1,?_⟩,hid,hkeep⟩
      rw [hid, ← hd.named]
      exact hd.active.2

/-- Once it no longer waits for pages, its RESYNC takes at most eight polls. -/
theorem CacheObserved.Sound.doomed_settles {o : CacheObserved} (h : o.Sound) {i id : ℕ} (hd : o.DoomedAt i id)
    (hwaiting : ¬(o.session.subscriptions i).Waiting) {ops : List CacheOp}
    (hpolls : cacheSubscriptions ≤ ops.countP CacheOp.isPoll)
    (hb : (final CacheObserved.step o ops).history.Bounded) :
    ∃ p ∈ trace CacheObserved.step o ops, Settles id p.1 p.2 := by
  refine discharged_while (B := fun o : CacheObserved => o.history.Bounded)
    (W := fun o : CacheObserved => o.Sound ∧ o.DoomedAt i id ∧ ¬(o.session.subscriptions i).Waiting)
    (d := fun o : CacheObserved => o.session.turns i) bounded_back ?_ ⟨h,hd,hwaiting⟩ hb
    ((turns_lt _ i).trans_le hpolls)
  rintro o op hb ⟨h,hd,hwaiting⟩
  obtain ⟨c,-,hsim⟩ := h.simulated
  have hstep := h.system.owing_step doomed_owing hd.active ⟨hd.doomed,hwaiting⟩ op ?_
  · rw [← (observed_step o op).1, ← (observed_step o op).2] at hstep
    rcases hstep with hdone | ⟨⟨hid,hdoomed,hwaiting'⟩,hrank⟩
    · exact Or.inl (hd.named ▸ hdone)
    · have hnamed := hid.trans hd.named
      refine Or.inr ⟨⟨h.step op hb,⟨⟨hd.active.1,?_⟩,hnamed,hdoomed⟩,hwaiting'⟩,hrank⟩
      intro h0
      exact hd.active.2 (hid.symm.trans h0)
  · rintro change rfl
    exact ⟨hd.doomed.run h.history (hsim.issued hd.active) change hb,hwaiting⟩

/-- The same for a snapshot that the next poll finds expired. -/
theorem CacheObserved.Sound.overdue_settles {o : CacheObserved} (h : o.Sound) {i : ℕ} (hi : o.session.Active i)
    (hwaiting : (o.session.subscriptions i).Waiting) {now : UInt64} (hnow : o.session.overdue now = true)
    {capacity : ℕ} {ops : List CacheOp}
    (hpolls : cacheSubscriptions ≤ (CacheOp.event now capacity :: ops).countP CacheOp.isPoll)
    (hb : (final CacheObserved.step o (.event now capacity :: ops)).history.Bounded) :
    ∃ p ∈ trace CacheObserved.step o (.event now capacity :: ops),
      Settles (o.session.subscriptions i).id p.1 p.2 := by
  obtain ⟨c,hc,hsim⟩ := h.simulated
  let z : CacheObserved := { o with session := expire o.session now }
  have hz : z.Sound := ⟨h.history,c,hc,hsim.expire now⟩
  have hw := overdue_awaiting hsim.session hi hwaiting.1 hwaiting.2 hnow
  have hpaused : (z.session.subscriptions i).paused = reasonExpired := by
    rcases expire_slot o.session now i with hsame | ⟨-,hsame⟩
    · exact absurd (hsame ▸ hwaiting.2) hw.paused
    · exact congrArg CacheSubscription.paused hsame
  have hdoomed : z.DoomedAt i (o.session.subscriptions i).id := ⟨hw.active,hw.named,Or.inl hpaused⟩
  have hstep : z.step (.event now capacity) = o.step (.event now capacity) := by
    simp only [CacheObserved.step, CacheObserved.system, CacheSystem.step, cacheEvent, z, expire_expire]
  have hrest := hz.doomed_settles hdoomed (fun hw' => absurd (hw'.2.symm.trans hpaused) (by decide)) hpolls
  simp only [trace_cons, final_cons, hstep] at hrest hb ⊢
  exact hrest hb

/-! ## The main result -/

/-- What the client holds are states of the registry: a live copy is the state of the
subscribed device as of its generation and revision, and there is one for every
subscription that is being delivered. -/
structure CacheObserved.Faithful (o : CacheObserved) (c : Client) : Prop where
  exact : ∀ id bus name copy, c id = .live bus name copy → ∃ i, o.session.Active i ∧
    (o.session.subscriptions i).id = id ∧
    o.history.Known (o.session.subscriptions i).handle bus name copy ∧
    ∀ R ∈ o.history.past, ∀ d, device R (o.session.subscriptions i).handle = some d →
      d.generation = copy.generation → d.revision = copy.revision →
      d.copy = copy ∧ d.subsystem = bus ∧ d.device = name
  live : ∀ i, o.session.Delivering i → ∃ bus name copy, c (o.session.subscriptions i).id = .live bus name copy ∧
    copy.generation = (o.session.subscriptions i).generation ∧ copy.revision = (o.session.subscriptions i).revision

theorem Sim.faithful {o : CacheObserved} {c : Client} (hy : o.history.Sound) (h : Sim o.history o.session c) :
    o.Faithful c := by
  refine ⟨?_,?_⟩
  · intro id bus name copy hc
    have hhas : o.session.Has id := by
      by_contra hno
      rw [h.idle id hno] at hc
      exact ClientSub.noConfusion hc
    obtain ⟨i,hi,rfl⟩ := hhas
    have hslot := h.slots i hi
    rw [hc] at hslot
    have hknown : o.history.Known (o.session.subscriptions i).handle bus name copy := by
      cases hslot with
      | live hp h0 hf => exact hf.follower.known
      | loaded hp h0 hf => exact hf.follower.known
      | expiredLive hp hk => exact hk
    exact ⟨i,hi,rfl,hknown,fun R hR d hd hg hrev => hy.known_unique hknown hR hd hg hrev⟩
  · intro i hd
    have hslot := h.slots i hd.active
    generalize c (o.session.subscriptions i).id = st at hslot
    cases hslot with
    | @live bus name copy hp h0 hf => exact ⟨bus,name,copy,rfl,hf.follower.generation,hf.revision⟩
    | loading hp => exact absurd (hd.started.symm.trans hp) (by decide)
    | loaded hp => exact absurd (hd.started.symm.trans hp) (by decide)
    | expiredLoading hp => exact absurd (hd.running.symm.trans hp) (by decide)
    | expiredLive hp => exact absurd (hd.running.symm.trans hp) (by decide)
    | ended hp => exact absurd (hd.running.symm.trans hp) (by decide)

/-- For every interleaving in which the counters do not wrap: the strict client never stops;
its copies are the registry's states and its events consecutive; after a silent poll it is
up to date; and a subscription that cannot be continued gets one RESYNC and then nothing
until it is subscribed again. -/
theorem cache_subscription_converges (ops : List CacheOp)
    (hb : (final CacheObserved.step cacheObservedInit ops).history.Bounded) :
    let o := final CacheObserved.step cacheObservedInit ops
    o.system = final CacheSystem.step cacheSystemInit ops ∧
    (∃ c, o.client = some c ∧ o.Faithful c ∧
      (∀ now capacity bytes, (o.step (.event now capacity)).2 = .event bytes → bytes ≠ [] →
        ∃ ev c', decodeEvent bytes = some ev ∧ (o.step (.event now capacity)).1.client = some c' ∧
          TakesEvent c ev c' ∧ (o.step (.event now capacity)).1.Faithful c') ∧
      (∀ now capacity, cacheEventHeader + cacheNameMax - 1 + 20 ≤ capacity →
        (o.step (.event now capacity)).2 = .event [] →
        ∀ i, (o.step (.event now capacity)).1.session.Delivering i →
          UpToDate o.history (o.step (.event now capacity)).1.session c i)) ∧
    (∀ id before p mid q after, trace CacheSystem.step cacheSystemInit ops = before ++ p :: (mid ++ q :: after) →
      Resyncs id p.1 p.2 → Tells id q.1 q.2 → ∃ m ∈ mid, Restarts id m.1 m.2) ∧
    (∀ i id more, o.DoomedAt i id → (final CacheObserved.step o more).history.Bounded →
      ((∃ p ∈ trace CacheSystem.step o.system more, Settles id p.1 p.2) ∨
        (final CacheObserved.step o more).DoomedAt i id) ∧
      (¬(o.session.subscriptions i).Waiting → cacheSubscriptions ≤ more.countP CacheOp.isPoll →
        ∃ p ∈ trace CacheSystem.step o.system more, Settles id p.1 p.2)) ∧
    (∀ i now capacity more, o.session.Active i → (o.session.subscriptions i).Waiting →
      o.session.overdue now = true →
      (final CacheObserved.step o (.event now capacity :: more)).history.Bounded →
      cacheSubscriptions ≤ (CacheOp.event now capacity :: more).countP CacheOp.isPoll →
      ∃ p ∈ trace CacheSystem.step o.system (.event now capacity :: more),
        Settles (o.session.subscriptions i).id p.1 p.2) := by
  have h : (final CacheObserved.step cacheObservedInit ops).Sound := cacheObserved_init_sound.run hb
  obtain ⟨c,hc,hsim⟩ := h.simulated
  refine ⟨(observed_run _ ops).1,⟨c,hc,hsim.faithful h.history,?_,?_⟩,?_,?_,?_⟩
  · intro now capacity bytes hanswer hne
    have hnext := h.step (.event now capacity) hb
    obtain ⟨c₁,c',hc₁,hc',hreceive⟩ := @CacheObserved.Sound.receives _ h (.event now capacity) hb
    obtain rfl := Option.some.inj (hc.symm.trans hc₁)
    rw [hanswer] at hreceive
    obtain ⟨ev,hdecode,htakes⟩ := receive_takes hne hreceive
    obtain ⟨c₂,hc₂,hsim'⟩ := hnext.simulated
    obtain rfl := Option.some.inj (hc'.symm.trans hc₂)
    exact ⟨ev,c',hdecode,hc',htakes,hsim'.faithful hnext.history⟩
  · intro now capacity hroom hanswer i hd
    exact silent_poll h.history hsim hroom (CacheAnswer.event.inj hanswer) hd
  · intro id before p mid q after hsplit hp hq
    exact cacheObserved_init_sound.resync_once hb ((observed_run _ ops).2.trans hsplit) hp hq
  · intro i id more hd hbmore
    rw [← (observed_run _ more).2]
    exact ⟨h.doomed_stays hd hbmore,fun hw hpolls => h.doomed_settles hd hw hpolls hbmore⟩
  · intro i now capacity more hi hw hnow hbmore hpolls
    rw [← (observed_run _ _).2]
    exact h.overdue_settles hi hw hnow hpolls hbmore

/-- The device of two entries, subscribed to, changed and polled. -/
def changedTwo : List CacheOp := twoEntries ++
  [.request opCacheSubscribe (subscribeRequest [105,50,99] [97]) 9 256,
    .registry (.put 1 1 6 true sourceDevice 20 21),.event 22 128]

set_option maxRecDepth 2000 in
theorem cache_subscription_converges_two :
    let o := final CacheObserved.step cacheObservedInit changedTwo
    ∃ c, o.client = some c ∧ o.Faithful c ∧ c 1 = .live [105,50,99] [97]
      ⟨1,1,1,[⟨[98,48],5,7,8,1,2⟩,⟨[98,49],6,20,8,1,2⟩]⟩ := by
  obtain ⟨-,⟨c,hc,hfaithful,-⟩,-⟩ := cache_subscription_converges changedTwo ⟨by decide,by decide⟩
  refine ⟨c,hc,hfaithful,?_⟩
  have hrun : (final CacheObserved.step cacheObservedInit changedTwo).client.map (fun c => c 1) =
      some (.live [105,50,99] [97] ⟨1,1,1,[⟨[98,48],5,7,8,1,2⟩,⟨[98,49],6,20,8,1,2⟩]⟩) := by rfl
  rw [hc, Option.map_some] at hrun
  exact Option.some.inj hrun

end Bvstk.Dcp2
