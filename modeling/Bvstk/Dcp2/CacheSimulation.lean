import Bvstk.Cache.RegistryHistory
import Bvstk.Dcp2.CacheClient
import Bvstk.Dcp2.CachePaging

/-! # The session simulates its client

What the session knows of a subscription determines what the client holds of it:
a copy the registry has been in, the part of a snapshot that was paged out, or
nothing any more. Every request, poll and registry operation keeps it so.
-/
namespace Bvstk.Dcp2
open Wire Cache Machine

/-! ## The simulation -/

/-- What the client holds, `copy`, is what the session assumes it holds. -/
structure Following (y : CacheHistory) (sub : CacheSubscription) (bus name : Name) (copy : CacheCopy) :
    Prop where
  follower : y.Follower sub.handle bus name sub.generation sub.cursor copy
  revision : copy.revision = sub.revision

/-- A download in progress has the right entries in the right places. -/
structure Downloads (v : CacheSnapshot) (token progress : ℕ) (d : Download) : Prop where
  token : d.token = token
  generation : d.generation = v.generation
  revision : d.revision = v.revision
  presence : d.presence = v.presence
  slots : Partial v.entries d.slots
  filled : Filled d.slots progress

/-- One active subscription, against the frozen device `v`, its token and its progress. -/
inductive SlotSim (y : CacheHistory) (v : CacheSnapshot) (token progress : ℕ) (sub : CacheSubscription) :
    ClientSub → Prop where
  | live {bus name : Name} {copy : CacheCopy} (hp : sub.pending = false) (h0 : sub.paused = 0)
      (hf : Following y sub bus name copy) : SlotSim y v token progress sub (.live bus name copy)
  | loading {d : Download} (hp : sub.pending = true) (h0 : sub.paused = 0)
      (hf : Following y sub d.bus d.name v.copy) (hd : Downloads v token progress d) :
      SlotSim y v token progress sub (.loading d)
  /-- The client asked for pages out of turn and has them all before the session knows. -/
  | loaded {bus name : Name} (hp : sub.pending = true) (h0 : sub.paused = 0)
      (hf : Following y sub bus name v.copy) : SlotSim y v token progress sub (.live bus name v.copy)
  | expiredLoading {d : Download} (h : sub.paused = reasonExpired) : SlotSim y v token progress sub (.loading d)
  | expiredLive {bus name : Name} {copy : CacheCopy} (h : sub.paused = reasonExpired)
      (hk : y.Known sub.handle bus name copy) : SlotSim y v token progress sub (.live bus name copy)
  | ended (h : sub.paused = pausedSent) : SlotSim y v token progress sub .ended

structure Sim (y : CacheHistory) (s : CacheSession) (c : Client) : Prop where
  session : s.Sound
  slots : ∀ i, s.Active i → SlotSim y s.snapshot s.snapshotId s.snapshotProgress (s.subscriptions i)
    (c (s.subscriptions i).id)
  idle : ∀ id, ¬s.Has id → c id = .idle
  owner : s.snapshotId ≠ 0 → s.snapshotSub ≠ 0 → s.Has s.snapshotSub

section
variable {y : CacheHistory} {s : CacheSession} {c : Client} {v : CacheSnapshot} {token progress : ℕ}
  {sub : CacheSubscription} {st : ClientSub}

theorem Following.run (hy : y.Sound) {bus name : Name} {copy : CacheCopy} (h : Following y sub bus name copy)
    (op : RegistryOp) (hb : (y.run op).Bounded) : Following (y.run op) sub bus name copy :=
  ⟨h.follower.run hy op hb,h.revision⟩

theorem SlotSim.run (hy : y.Sound) (h : SlotSim y v token progress sub st) (op : RegistryOp)
    (hb : (y.run op).Bounded) : SlotSim (y.run op) v token progress sub st := by
  cases h with
  | live hp h0 hf => exact .live hp h0 (hf.run hy op hb)
  | loading hp h0 hf hd => exact .loading hp h0 (hf.run hy op hb) hd
  | loaded hp h0 hf => exact .loaded hp h0 (hf.run hy op hb)
  | expiredLoading hp => exact .expiredLoading hp
  | expiredLive hp hk => exact .expiredLive hp (hk.run op)
  | ended hp => exact .ended hp

/-- Only a subscription that waits for pages depends on the snapshot. -/
theorem SlotSim.reframe (h : SlotSim y v token progress sub st)
    (hfree : ¬(sub.pending = true ∧ sub.paused = 0)) (v' : CacheSnapshot) (token' progress' : ℕ) :
    SlotSim y v' token' progress' sub st := by
  cases h with
  | live hp h0 hf => exact .live hp h0 hf
  | loading hp h0 => exact absurd ⟨hp,h0⟩ hfree
  | loaded hp h0 => exact absurd ⟨hp,h0⟩ hfree
  | expiredLoading hp => exact .expiredLoading hp
  | expiredLive hp hk => exact .expiredLive hp hk
  | ended hp => exact .ended hp

theorem Sim.run (hy : y.Sound) (h : Sim y s c) (op : RegistryOp) (hb : (y.run op).Bounded) :
    Sim (y.run op) s c :=
  ⟨h.session,fun i hi => (h.slots i hi).run hy op hb,h.idle,h.owner⟩

theorem Sim.turn (h : Sim y s c) : Sim y s.turn c := ⟨h.session.turn,h.slots,h.idle,h.owner⟩

theorem Sim.touch (h : Sim y s c) (now : UInt64) : Sim y { s with snapshotActivity := now } c :=
  ⟨h.session.touch now,h.slots,h.idle,h.owner⟩

theorem has_setSub {i : ℕ} (hid : sub.id = (s.subscriptions i).id) (id : ℕ) : (s.setSub i sub).Has id ↔ s.Has id := by
  have hids : ∀ j, ((s.setSub i sub).subscriptions j).id = (s.subscriptions j).id := by
    intro j
    by_cases hj : j = i
    · subst hj
      simpa using hid
    · rw [setSub_of_ne s sub hj]
  simp only [CacheSession.Has, CacheSession.Active, hids]

/-- One slot and the client's view of it move together. -/
theorem Sim.setSub (h : Sim y s c) {i : ℕ} (hi : s.Active i) (sub : CacheSubscription) (st : ClientSub)
    (hid : sub.id = (s.subscriptions i).id) (hsound : (s.setSub i sub).Sound)
    (hslot : SlotSim y s.snapshot s.snapshotId s.snapshotProgress sub st) :
    Sim y (s.setSub i sub) (Function.update c (s.subscriptions i).id st) := by
  refine ⟨hsound,?_,?_,?_⟩
  · intro j hj
    by_cases hji : j = i
    · subst hji
      rw [setSub_self, hid, Function.update_self]
      exact hslot
    · rw [CacheSession.Active, setSub_of_ne s sub hji] at hj
      have hne : (s.subscriptions j).id ≠ (s.subscriptions i).id := fun heq => hji (h.session.ids j i hj hi heq)
      rw [setSub_of_ne s sub hji, Function.update_of_ne hne]
      exact h.slots j hj
  · intro id hno
    rw [has_setSub hid] at hno
    have hne : id ≠ (s.subscriptions i).id := fun heq => hno ⟨i,hi,heq.symm⟩
    rw [Function.update_of_ne hne]
    exact h.idle id hno
  · intro hlive hown
    exact (has_setSub hid _).mpr (h.owner hlive hown)

/-! ## Events -/

theorem applyEvent_change (copy : CacheCopy) (ch : CacheChange) (sub : ℕ) :
    applyEvent copy ⟨ch.kind,sub,copy.generation,ch.revision,ch.timeMs.toNat,ch.presence,0,
      if ch.kind = kindChange then [ch.entry] else []⟩ = copy.apply ch := by
  unfold applyEvent CacheCopy.apply
  by_cases hk : ch.kind = kindChange
  · simp only [if_pos hk, List.foldl_cons, List.foldl_nil]
  · simp only [if_neg hk, List.foldl_nil]

theorem receive_event {bytes : Bytes} {ev : CacheEvent} (hne : bytes ≠ []) (hdecode : decodeEvent bytes = some ev)
    (htaken : (c ev.sub).event ev = some st) (now : UInt64) (capacity : ℕ) :
    c.receive (.event now capacity) (.event bytes) = some (Function.update c ev.sub st) := by
  simp only [Client.receive, if_neg hne, hdecode, Option.bind_eq_bind, Option.bind_some, htaken]

/-- A live client takes the next change, and applies it. -/
theorem event_change {bus name : Name} {copy : CacheCopy} {ch : CacheChange} (hr : ch.Recorded)
    (hrevision : ch.revision = copy.revision + 1) (sub : ℕ) :
    (ClientSub.live bus name copy).event ⟨ch.kind,sub,copy.generation,ch.revision,ch.timeMs.toNat,ch.presence,0,
      if ch.kind = kindChange then [ch.entry] else []⟩ = some (.live bus name (copy.apply ch)) := by
  have hkind : ch.kind ≠ recordResync := by
    rcases hr.kind with ⟨hk,-⟩ | hk
    · exact hk ▸ by decide
    · exact hk ▸ by decide
  have hshape : (ch.kind = kindChange ∧ (if ch.kind = kindChange then [ch.entry] else []).length = 1 ∨
      ch.kind = kindPresence ∧ (if ch.kind = kindChange then [ch.entry] else []) = []) := by
    rcases hr.kind with ⟨hk,-⟩ | hk
    · exact Or.inl ⟨hk,by rw [if_pos hk]; rfl⟩
    · exact Or.inr ⟨hk,if_neg (hk ▸ by decide)⟩
  rw [ClientSub.event, if_neg hkind, if_pos ⟨hshape,rfl,hrevision⟩, applyEvent_change]

/-- Whatever a visit says, the client takes it. -/
theorem Sim.visit (hy : y.Sound) (h : Sim y s c) {i : ℕ} {now : UInt64} {out : CacheSession × Bytes}
    (hout : VisitEffect y.registry s i now out) (capacity : ℕ) :
    ∃ c', c.receive (.event now capacity) (.event out.2) = some c' ∧ Sim y out.1 c' := by
  have hsound := h.session.visit hout
  cases hout with
  | passed => exact ⟨c,rfl,h⟩
  | @drained cursor hd hnext =>
    have hslot := h.slots i hd.active
    generalize hc : c (s.subscriptions i).id = st at hslot
    cases hslot with
    | @live bus name copy hp h0 hf =>
      have heffect := hf.follower.next hy
      rw [hnext] at heffect
      cases heffect with
      | caughtUp hdev hcopy hnames hs =>
        have hkeep := h.setSub hd.active { s.subscriptions i with cursor := y.log.length } (.live bus name copy)
          rfl hsound (.live hp h0 ⟨hs,hf.revision⟩)
        rw [← hc, Function.update_eq_self] at hkeep
        exact ⟨c,rfl,hkeep⟩
    | loading hp => exact absurd (hd.started.symm.trans hp) (by decide)
    | loaded hp => exact absurd (hd.started.symm.trans hp) (by decide)
    | expiredLoading hp => exact absurd (hd.running.symm.trans hp) (by decide)
    | expiredLive hp => exact absurd (hd.running.symm.trans hp) (by decide)
    | ended hp => exact absurd (hd.running.symm.trans hp) (by decide)
  | @ended reason cursor ha hsent hwhy =>
    have hsub := h.session.subs i ha
    have hdecode := decodeEvent_resyncBytes ((hsub.issued.trans_lt h.session.nextSub).trans_le (by decide))
      (hsub.generation.trans_le (by decide)) (hsub.revision.trans_le (by decide)) reason now
    have htaken : ∀ ev : CacheEvent, ev.kind = recordResync →
        (c (s.subscriptions i).id).event ev = some .ended := by
      intro ev hkind
      have hslot := h.slots i ha
      generalize c (s.subscriptions i).id = st at hslot
      cases hslot with
      | ended hp => exact absurd hp hsent
      | _ => exact if_pos hkind
    exact ⟨_,receive_event (by simp [resyncBytes]) hdecode (htaken _ rfl) now capacity,
      h.setSub ha _ .ended rfl hsound (.ended rfl)⟩
  | @delivered ch cursor hd hnext hrevision =>
    have hsub := h.session.subs i hd.active
    have hslot := h.slots i hd.active
    generalize hc : c (s.subscriptions i).id = st at hslot
    cases hslot with
    | @live bus name copy hp h0 hf =>
      have heffect := hf.follower.next hy
      rw [hnext] at heffect
      cases heffect with
      | @change _ j hnextrev hrecorded hs =>
        have hentry : ch.kind = kindChange → ch.entry.id.length < 256 := by
          intro hk
          rcases hrecorded.kind with ⟨-,hv⟩ | hpres
          · exact (nameValid_length hv.name).2.trans (by decide)
          · exact absurd (hk.symm.trans hpres) (by decide)
        have hdecode := decodeEvent_changeBytes ((hsub.issued.trans_lt h.session.nextSub).trans_le (by decide))
          (hsub.generation.trans_le (by decide)) (hrecorded.revision.trans_le (by decide)) hentry
        have htaken : (c (s.subscriptions i).id).event ⟨ch.kind,(s.subscriptions i).id,
            (s.subscriptions i).generation,ch.revision,ch.timeMs.toNat,ch.presence,0,
            if ch.kind = kindChange then [ch.entry] else []⟩ = some (.live bus name (copy.apply ch)) := by
          rw [hc, ← hf.follower.generation]
          exact event_change hrecorded hnextrev _
        exact ⟨_,receive_event (by simp [changeBytes]) hdecode htaken now capacity,
          h.setSub hd.active _ _ rfl hsound (.live hp h0 ⟨hs,rfl⟩)⟩
    | loading hp => exact absurd (hd.started.symm.trans hp) (by decide)
    | loaded hp => exact absurd (hd.started.symm.trans hp) (by decide)
    | expiredLoading hp => exact absurd (hd.running.symm.trans hp) (by decide)
    | expiredLive hp => exact absurd (hd.running.symm.trans hp) (by decide)
    | ended hp => exact absurd (hd.running.symm.trans hp) (by decide)

/-- A silent visit goes unnoticed. -/
theorem Sim.silent_visit (hy : y.Sound) (h : Sim y s c) {i : ℕ} {now : UInt64} {out : CacheSession × Bytes}
    (hout : VisitEffect y.registry s i now out) (hsilent : out.2 = []) : Sim y out.1 c := by
  obtain ⟨c',hreceive,hnext⟩ := h.visit hy hout 0
  have hsame : c.receive (.event now 0) (.event out.2) = some c := if_pos hsilent
  obtain rfl := Option.some.inj (hsame.symm.trans hreceive)
  exact hnext

/-! ## Expiry -/

theorem has_of_sameIds {s' : CacheSession} (h : s.SameIds s') (id : ℕ) : s'.Has id ↔ s.Has id := by
  simp only [CacheSession.Has, CacheSession.Active, h.2]

theorem SlotSim.expired (h : SlotSim y v token progress sub st) (hp : sub.pending = true)
    (hwaiting : sub.paused = 0 ∨ sub.paused = reasonExpired) :
    SlotSim y v 0 progress { sub with paused := reasonExpired } st := by
  cases h with
  | live hp' => exact absurd (hp.symm.trans hp') (by decide)
  | loading hp' h0 hf hd => exact .expiredLoading rfl
  | loaded hp' h0 hf => exact .expiredLive rfl hf.follower.known
  | expiredLoading hp' => exact .expiredLoading rfl
  | expiredLive hp' hk => exact .expiredLive rfl hk
  | ended hp' =>
    rw [hp'] at hwaiting
    exact absurd hwaiting (by decide)

theorem Sim.expire (h : Sim y s c) (now : UInt64) : Sim y (expire s now) c := by
  have hids := expire_sameIds s now
  have hsound := h.session.expire now
  have hhas := has_of_sameIds hids
  refine ⟨hsound,?_,fun id hno => h.idle id (fun hh => hno ((hhas id).mpr hh)),?_⟩
  · intro i hi
    have hi' : s.Active i := ⟨hi.1,(hids.2 i).1 ▸ hi.2⟩
    have hslot := h.slots i hi'
    rw [(hids.2 i).1]
    unfold Dcp2.expire
    split
    · rename_i hover
      rw [pauseOwner_eq]
      dsimp only
      split
      · rename_i hown
        exact hslot.expired hown.2 ((h.session.subs i hi').waiting hown.2)
      · rename_i hother
        refine hslot.reframe ?_ _ _ _
        rintro ⟨hp,h0⟩
        exact hother ⟨h.session.owner_slot hi' (((h.session.subs i hi').owner hp).mp h0).1,hp⟩
    · exact hslot
  · intro hlive hown
    rw [hhas]
    unfold Dcp2.expire at hlive hown ⊢
    split at hlive
    · exact absurd rfl hlive
    · rename_i hover
      rw [if_neg hover] at hown ⊢
      exact h.owner hlive hown

/-- Whatever a poll says, the client takes it. -/
theorem Sim.event (hy : y.Sound) (h : Sim y s c) (now : UInt64) (capacity : ℕ) :
    ∃ c', c.receive (.event now capacity) (.event (cacheEvent y.registry s now capacity).2) = some c' ∧
      Sim y (cacheEvent y.registry s now capacity).1 c' := by
  unfold cacheEvent
  dsimp only
  split
  · exact ⟨c,rfl,h.expire now⟩
  · refine eventLoop_rule (P := fun s' => Sim y s' c)
      (Q := fun out => ∃ c', c.receive (.event now capacity) (.event out.2) = some c' ∧ Sim y out.1 c')
      ?_ (fun s' hs => ⟨c,rfl,hs⟩) _ (h.expire now)
    intro s' hs out
    have hout := visit_effect y.registry s'.turn (Nat.mod_lt s'.roundRobin (by decide)) now
    exact ⟨hs.turn.silent_visit hy hout,fun _ => hs.turn.visit hy hout capacity⟩

/-! ## Requests -/

/-- How a page changes the subscription that owns the snapshot. -/
def CacheSubscription.paged (sub : CacheSubscription) (progress count : ℕ) : CacheSubscription :=
  if progress = count then { sub with pending := false } else sub

theorem Following.paged {bus name : Name} {copy : CacheCopy} (h : Following y sub bus name copy)
    (progress count : ℕ) : Following y (sub.paged progress count) bus name copy := by
  unfold CacheSubscription.paged
  split
  · exact ⟨h.follower,h.revision⟩
  · exact h

/-- A page of the frozen device completes the download, or leaves it open on both sides. -/
theorem Downloads.page {d : Download} (h : Downloads v token progress d) {id : ℕ} {pg : CachePage}
    (hpg : ExactPage v id token pg) (hp : sub.pending = true) (h0 : sub.paused = 0)
    (hf : Following y sub d.bus d.name v.copy) {progress' : ℕ}
    (hprogress : progress' = if pg.first = progress then pg.first + pg.entries.length else progress) :
    SlotSim y v token progress' (sub.paged progress' v.count) (d.fill pg).finish := by
  have hslots : Partial v.entries (d.fill pg).slots := h.slots.fill hpg.entries
  have hfilled : Filled (d.fill pg).slots progress' := by
    rw [hprogress]
    split
    · rename_i hfirst
      refine Filled.extend (hfirst ▸ h.filled) ?_
      exact h.slots.size ▸ hpg.fits
    · exact h.filled.fill _ _
  have hfollow := hf.paged progress' v.count
  unfold Download.finish
  cases hall : allSome (d.fill pg).slots with
  | none =>
    have hopen : progress' ≠ v.count := by
      intro hdone
      rw [hdone] at hfilled
      rw [hslots.allSome_of_filled hfilled] at hall
      contradiction
    rw [CacheSubscription.paged, if_neg hopen] at hfollow ⊢
    exact .loading hp h0 hfollow ⟨h.token,h.generation,h.revision,h.presence,hslots,hfilled⟩
  | some entries =>
    obtain rfl := hslots.eq_of_allSome hall
    have hcopy : (⟨(d.fill pg).generation,(d.fill pg).revision,(d.fill pg).presence,v.entries⟩ : CacheCopy) =
        v.copy := by
      simp only [Download.fill, h.generation, h.revision, h.presence, CacheSnapshot.copy]
    dsimp only
    rw [hcopy]
    by_cases hdone : progress' = v.count
    · rw [CacheSubscription.paged, if_pos hdone] at hfollow ⊢
      exact .live rfl h0 hfollow
    · rw [CacheSubscription.paged, if_neg hdone] at hfollow ⊢
      exact .loaded hp h0 hfollow

/-- Whatever the client holds, it takes a page of its live snapshot. -/
theorem SlotSim.page (h : SlotSim y v token progress sub st) {id : ℕ} {pg : CachePage}
    (hpg : ExactPage v id token pg) (hlive : sub.paused ≠ reasonExpired) {progress' : ℕ}
    (hprogress : progress' = if pg.first = progress then pg.first + pg.entries.length else progress) :
    ∃ st', st.page pg = some st' ∧ SlotSim y v token progress' (sub.paged progress' v.count) st' := by
  cases h with
  | live hp h0 hf =>
    refine ⟨_,rfl,.live ?_ ?_ (hf.paged progress' v.count)⟩
    · unfold CacheSubscription.paged
      split
      · rfl
      · exact hp
    · unfold CacheSubscription.paged
      split <;> exact h0
  | loading hp h0 hf hd =>
    have hmatch := And.intro (hpg.token.trans hd.token.symm) (And.intro (hpg.generation.trans hd.generation.symm)
      (And.intro (hpg.revision.trans hd.revision.symm) (And.intro (hpg.presence.trans hd.presence.symm)
        (hpg.total.trans hd.slots.size.symm))))
    exact ⟨_,if_pos hmatch,hd.page hpg hp h0 hf hprogress⟩
  | loaded hp h0 hf =>
    have hfollow := hf.paged progress' v.count
    by_cases hdone : progress' = v.count
    · rw [CacheSubscription.paged, if_pos hdone] at hfollow ⊢
      exact ⟨_,rfl,.live rfl h0 hfollow⟩
    · rw [CacheSubscription.paged, if_neg hdone] at hfollow ⊢
      exact ⟨_,rfl,.loaded hp h0 hfollow⟩
  | expiredLoading hp => exact absurd hp hlive
  | expiredLive hp => exact absurd hp hlive
  | ended hp =>
    refine ⟨_,rfl,.ended ?_⟩
    unfold CacheSubscription.paged
    split <;> exact hp

/-- A page goes to the subscription that owns the snapshot, if there is one. -/
theorem Sim.page (h : Sim y s c) (hlive : s.snapshotId ≠ 0) {first capacity : ℕ} {taken : List CacheEntry}
    (hpage : Paged s first capacity taken) :
    ∃ c', (s.snapshotSub = 0 ∧ c' = c ∨ s.snapshotSub ≠ 0 ∧ ∃ st,
        (c s.snapshotSub).page (pageOf s first taken) = some st ∧ c' = Function.update c s.snapshotSub st) ∧
      Sim y (s.advance first taken.length) c' := by
  have hsound := h.session.advance hlive hpage.eq_take.2
  have hids := advance_sameIds s first taken.length
  have hhas := has_of_sameIds hids
  have hother : ∀ i, s.Active i → (s.subscriptions i).id ≠ s.snapshotSub →
      SlotSim y (s.advance first taken.length).snapshot (s.advance first taken.length).snapshotId
        (s.advance first taken.length).snapshotProgress ((s.advance first taken.length).subscriptions i)
        (c (s.subscriptions i).id) := by
    intro i hi hne
    have hnot : ¬(subscription s s.snapshotSub = some i ∧
        s.progressAfter first taken.length = s.snapshot.count) :=
      fun hh => hne (subscription_eq_some hh.1).2
    rw [advance_eq]
    dsimp only
    rw [if_neg hnot]
    refine (h.slots i hi).reframe ?_ _ _ _
    rintro ⟨hp,h0⟩
    exact hne (((h.session.subs i hi).owner hp).mp h0).1.symm
  have howner : (s.advance first taken.length).snapshotId ≠ 0 →
      (s.advance first taken.length).snapshotSub ≠ 0 →
      (s.advance first taken.length).Has (s.advance first taken.length).snapshotSub := by
    intro _ hown
    rw [hhas]
    rw [advance_eq] at hown ⊢
    exact h.owner hlive hown
  by_cases hnone : s.snapshotSub = 0
  · refine ⟨c,Or.inl ⟨hnone,rfl⟩,hsound,?_,fun id hno => h.idle id fun hh => hno ((hhas id).mpr hh),howner⟩
    intro i hi
    have hi' : s.Active i := ⟨hi.1,(hids.2 i).1 ▸ hi.2⟩
    rw [(hids.2 i).1]
    exact hother i hi' (hnone ▸ hi'.2)
  · obtain ⟨j,hj,hjid⟩ := h.owner hlive hnone
    have hlook := h.session.owner_slot hj hjid.symm
    have hslot := h.slots j hj
    rw [hjid] at hslot
    have hrunning : (s.subscriptions j).paused ≠ reasonExpired := by
      intro hexp
      cases hp : (s.subscriptions j).pending with
      | true =>
        have h0 := ((h.session.subs j hj).owner hp).mpr ⟨hjid.symm,hlive⟩
        exact absurd (h0.symm.trans hexp) (by decide)
      | false =>
        rcases (h.session.subs j hj).idle hp with h0 | h0
        · exact absurd (h0.symm.trans hexp) (by decide)
        · exact absurd (h0.symm.trans hexp) (by decide)
    obtain ⟨st,htaken,hnext⟩ := hslot.page (exactPage_pageOf hpage) hrunning rfl
    refine ⟨_,Or.inr ⟨hnone,st,htaken,rfl⟩,hsound,?_,?_,howner⟩
    · intro i hi
      have hi' : s.Active i := ⟨hi.1,(hids.2 i).1 ▸ hi.2⟩
      rw [(hids.2 i).1]
      by_cases hij : i = j
      · subst hij
        rw [hjid, Function.update_self, advance_eq]
        dsimp only
        simp only [hlook, true_and]
        exact hnext
      · have hne : (s.subscriptions i).id ≠ s.snapshotSub :=
          fun heq => hij (h.session.ids i j hi' hj (heq.trans hjid.symm))
        rw [Function.update_of_ne hne]
        exact hother i hi' hne
    · intro id hno
      rw [hhas] at hno
      have hne : id ≠ s.snapshotSub := fun heq => hno ⟨j,hj,hjid.trans heq.symm⟩
      rw [Function.update_of_ne hne]
      exact h.idle id hno

/-- Dropping the token touches nobody while no pending subscription owns it. -/
theorem Sim.reframe (h : Sim y s c) (hfree : s.busy = false) {s' : CacheSession} (hsound : s'.Sound)
    (hsubs : s'.subscriptions = s.subscriptions) (hown : s'.snapshotSub = 0) : Sim y s' c := by
  have hactive : ∀ i, s'.Active i ↔ s.Active i := by
    intro i
    rw [CacheSession.Active, hsubs]
    rfl
  refine ⟨hsound,?_,?_,fun _ hne => absurd hown hne⟩
  · intro i hi
    have hi' := (hactive i).mp hi
    rw [hsubs]
    refine (h.slots i hi').reframe ?_ _ _ _
    rintro ⟨hp,h0⟩
    exact h.session.paused_of_free hfree hi' hp h0
  · rintro id hno
    refine h.idle id fun hhas => hno ?_
    obtain ⟨i,hi,hid⟩ := hhas
    exact ⟨i,(hactive i).mpr hi,by rw [hsubs, hid]⟩

/-- A slot that is given up takes its snapshot with it. -/
theorem Sim.release (h : Sim y s c) {i : ℕ} (hi : s.Active i) :
    Sim y (s.release i) (Function.update c (s.subscriptions i).id .idle) := by
  have hother : ∀ j, j ≠ i → (s.release i).subscriptions j = s.subscriptions j :=
    fun j hj => Function.update_of_ne hj _ _
  have hgone : ∀ j, (s.release i).Active j → j ≠ i ∧ s.Active j := by
    intro j hj
    have hji : j ≠ i := by
      rintro rfl
      exact hj.2 (by simp [CacheSession.release, CacheSubscription.zero])
    exact ⟨hji,hj.1,hother j hji ▸ hj.2⟩
  refine ⟨h.session.release hi,?_,?_,?_⟩
  · intro j hj
    obtain ⟨hji,hj'⟩ := hgone j hj
    have hne : (s.subscriptions j).id ≠ (s.subscriptions i).id := fun heq => hji (h.session.ids j i hj' hi heq)
    rw [hother j hji, Function.update_of_ne hne]
    by_cases hown : s.snapshotSub = (s.subscriptions i).id
    · refine (h.slots j hj').reframe ?_ _ _ _
      rintro ⟨hp,h0⟩
      exact hne ((((h.session.subs j hj').owner hp).mp h0).1.symm.trans hown)
    · have hkeep := h.slots j hj'
      simpa only [CacheSession.release, if_neg hown] using hkeep
  · intro id hno
    by_cases hid : id = (s.subscriptions i).id
    · rw [hid, Function.update_self]
    · rw [Function.update_of_ne hid]
      refine h.idle id ?_
      rintro ⟨j,hj,hjid⟩
      have hji : j ≠ i := fun hji => hid (hjid.symm.trans (hji ▸ rfl))
      exact hno ⟨j,⟨hj.1,(hother j hji).symm ▸ hj.2⟩,(hother j hji).symm ▸ hjid⟩
  · intro hlive hown
    dsimp only [CacheSession.release] at hlive hown
    by_cases hmine : s.snapshotSub = (s.subscriptions i).id
    · rw [if_pos hmine] at hlive
      exact absurd rfl hlive
    · rw [if_neg hmine] at hlive hown
      obtain ⟨j,hj,hjid⟩ := h.owner hlive hown
      have hji : j ≠ i := by
        rintro rfl
        exact hmine hjid.symm
      refine ⟨j,⟨hj.1,(hother j hji).symm ▸ hj.2⟩,?_⟩
      rw [hother j hji, hjid]
      exact (if_neg hmine).symm

/-- A download that has not begun. -/
def Download.begin (bus name : Name) (token : ℕ) (v : CacheSnapshot) : Download :=
  ⟨bus,name,token,v.generation,v.revision,v.presence,List.replicate v.count none⟩

theorem downloads_begin (bus name : Name) (token : ℕ) (v : CacheSnapshot) :
    Downloads v token 0 (Download.begin bus name token v) := by
  refine ⟨rfl,rfl,rfl,rfl,⟨by simp [Download.begin, CacheSnapshot.count],?_⟩,fun j hj => absurd hj (Nat.not_lt_zero j)⟩
  intro j e hj
  simp [Download.begin, List.getElem?_replicate] at hj

/-- A SUBSCRIBE is simulated by a download that has not begun. -/
theorem Sim.subscribe (hy : y.Sound) (h : Sim y s c) (hfree : s.busy = false) {d : CacheSnapshot}
    {handle i : ℕ} (hd : device y.registry handle = some d) (hslot : subscribeSlot s handle = some i)
    {now : UInt64} (hsound : (((s.freeze { d with capturedMs := now }).adopt i handle
      y.registry.head).start now).Sound) :
    Sim y (((s.freeze { d with capturedMs := now }).adopt i handle y.registry.head).start now)
      (Function.update c (s.subId i) (.loading (Download.begin d.subsystem d.device
        (nextNonzero s.nextSnapshot) { d with capturedMs := now }))) := by
  have hself : (((s.freeze { d with capturedMs := now }).adopt i handle y.registry.head).start now).subscriptions i =
      ⟨y.registry.head,d.revision,d.generation,s.subId i,handle,true,0⟩ := Function.update_self _ _ _
  have hother : ∀ j, j ≠ i → (((s.freeze { d with capturedMs := now }).adopt i handle
      y.registry.head).start now).subscriptions j = s.subscriptions j := fun j hj => Function.update_of_ne hj _ _
  have hactive : (((s.freeze { d with capturedMs := now }).adopt i handle y.registry.head).start now).Active i := by
    refine ⟨(subscribeSlot_spec hslot).1,?_⟩
    rw [hself]
    exact subId_ne_zero s i
  have hhas : (((s.freeze { d with capturedMs := now }).adopt i handle y.registry.head).start now).Has (s.subId i) :=
    ⟨i,hactive,by rw [hself]⟩
  refine ⟨hsound,?_,?_,fun _ _ => hhas⟩
  · intro j hj
    by_cases hji : j = i
    · subst hji
      rw [hself, Function.update_self]
      have hfollow := hy.follower hd
      rw [← hy.head] at hfollow
      exact .loading rfl rfl ⟨hfollow,rfl⟩ (downloads_begin _ _ _ _)
    · have hne : (s.subscriptions j).id ≠ s.subId i := by
        intro heq
        refine hji (hsound.ids j i hj hactive ?_)
        rw [hother j hji, hself, heq]
      rw [CacheSession.Active, hother j hji] at hj
      rw [hother j hji, Function.update_of_ne hne]
      refine (h.slots j hj).reframe ?_ _ _ _
      rintro ⟨hp,h0⟩
      exact h.session.paused_of_free hfree hj hp h0
  · intro id hno
    have hne : id ≠ s.subId i := fun heq => hno (heq ▸ hhas)
    rw [Function.update_of_ne hne]
    refine h.idle id ?_
    rintro ⟨j,hj,hjid⟩
    by_cases hji : j = i
    · subst hji
      exact hne (hjid.symm.trans (if_neg hj.2).symm)
    · exact hno ⟨j,⟨hj.1,(hother j hji).symm ▸ hj.2⟩,(hother j hji).symm ▸ hjid⟩

theorem requestNames_subscribeRequest {bus name : Name} (hbus : nameValid bus = true)
    (hname : nameValid name = true) : requestNames (subscribeRequest bus name) = some (bus,name) := by
  have hread := readName_encode hname []
  rw [List.append_nil] at hread
  simp only [requestNames, subscribeRequest, List.cons_append, List.drop_succ_cons, List.drop_zero]
  rw [← List.cons_append, readName_encode hbus]
  simp only [Option.bind_eq_bind, Option.bind_some, hread]
  rfl

theorem subscribe_page (bus name : Name) (token : ℕ) (v : CacheSnapshot) {pg : CachePage}
    (htoken : pg.token = token) (hg : pg.generation = v.generation) (hrev : pg.revision = v.revision)
    (hpres : pg.presence = v.presence) (htotal : pg.total = v.count) :
    (ClientSub.loading (Download.begin bus name token v)).page pg = some (.restart bus name pg) := by
  subst htoken
  simp only [ClientSub.page, Download.begin, hg, hrev, hpres, htotal, List.length_replicate, and_self, ↓reduceIte,
    ClientSub.restart]

theorem receive_refused {status : ℕ} (h : status ≠ statusOk) {opcode : ℕ} {body : Bytes} {now : UInt64}
    {capacity : ℕ} (c : Client) (bytes : Bytes) :
    c.receive (.request opcode body now capacity) (.reply status bytes) = some c := if_pos h

/-- An answered page, as the client takes it. -/
theorem receive_page {opcode : ℕ} {body bytes : Bytes} {pg : CachePage} {now : UInt64} {capacity : ℕ}
    (hop : opcode = opCacheGet) (hdecode : decodePage bytes = some pg) {c' : Client}
    (htaken : pg.sub = 0 ∧ c' = c ∨ pg.sub ≠ 0 ∧ ∃ st, (c pg.sub).page pg = some st ∧
      c' = Function.update c pg.sub st) :
    c.receive (.request opcode body now capacity) (.reply statusOk bytes) = some c' := by
  subst hop
  simp only [Client.receive, ne_eq, not_true_eq_false, ↓reduceIte, opCacheGet, opCacheUnsubscribe,
    opCacheSubscribe, Nat.reduceEqDiff, hdecode, Option.bind_eq_bind, Option.bind_some]
  rcases htaken with ⟨h0,rfl⟩ | ⟨h0,st,hst,rfl⟩
  · rw [if_pos h0]
  · rw [if_neg h0, hst, Option.bind_some]

theorem receive_subscribe {opcode : ℕ} {bytes : Bytes} {bus name : Name} {pg : CachePage} {now : UInt64}
    {capacity : ℕ} (hop : opcode = opCacheSubscribe) (hbus : nameValid bus = true) (hname : nameValid name = true)
    (hdecode : decodePage bytes = some pg) (hsub : pg.sub ≠ 0) (hfirst : pg.first = 0) :
    c.receive (.request opcode (subscribeRequest bus name) now capacity) (.reply statusOk bytes) =
      some (Function.update c pg.sub (.restart bus name pg)) := by
  subst hop
  have hok : ¬(pg.sub = 0 ∨ pg.first ≠ 0) := fun hh => hh.elim hsub fun hne => hne hfirst
  simp only [Client.receive, ne_eq, not_true_eq_false, ↓reduceIte, opCacheUnsubscribe, opCacheSubscribe,
    Nat.reduceEqDiff, hdecode, Option.bind_eq_bind, Option.bind_some, requestNames_subscribeRequest hbus hname]
  exact if_neg hok

/-- Whatever a request does, the client takes its answer. -/
theorem Sim.requestEffect (hy : y.Sound) (h : Sim y s c) {opcode : ℕ} {body : Bytes} {now : UInt64}
    {capacity : ℕ} {out : ℕ × CacheSession × Bytes}
    (hout : RequestEffect y.registry s opcode body now capacity out) :
    ∃ c', c.receive (.request opcode body now capacity) (.reply out.1 out.2.2) = some c' ∧ Sim y out.2.1 c' := by
  have hsound := h.session.request hy.wellFormed hout
  cases hout with
  | refused hstatus => exact ⟨c,receive_refused hstatus _ _,h⟩
  | @released tag i hop hbody hi =>
    obtain ⟨hactive,hid⟩ := subscription_eq_some hi
    refine ⟨_,?_,h.release hactive⟩
    subst hop hbody
    simp only [Client.receive, ne_eq, not_true_eq_false, ↓reduceIte, List.drop_succ_cons, List.drop_zero, hid]
  | @paged first taken hop hbody hlive hpage =>
    obtain ⟨c',htaken,hnext⟩ := h.page hlive hpage
    exact ⟨c',receive_page hop (h.session.decode_page hlive hpage) htaken,hnext.touch now⟩
  | @dropped bus name v handle cursor hop hfree hsnap =>
    exact ⟨c,receive_refused (show statusBusy ≠ statusOk by decide) _ _,h.reframe hfree hsound rfl rfl⟩
  | @got bus name v handle cursor taken hop hbody hfree hsnap hpage =>
    have hstart := h.session.start hfree (captured_of_snapshot hy.wellFormed hsnap).1 now
    have hlive : ((s.freeze v).start now).snapshotId ≠ 0 := nextNonzero_ne_zero _
    have hfrozen : Sim y ((s.freeze v).start now) c := h.reframe hfree hstart rfl rfl
    obtain ⟨c',htaken,hnext⟩ := hfrozen.page hlive hpage
    exact ⟨c',receive_page hop (hstart.decode_page hlive hpage) htaken,hnext⟩
  | @subscribed bus name v handle cursor i taken hop hbody hfree hsnap hslot hroom hpage =>
    obtain ⟨hv,hhandle⟩ := captured_of_snapshot hy.wellFormed hsnap
    obtain ⟨d,hd,rfl,rfl,rfl,rfl⟩ := snapshot_spec hsnap
    have hstart : (((s.freeze { d with capturedMs := now }).adopt i handle y.registry.head).start now).Sound :=
      h.session.subscribe hfree hv hhandle hslot hroom now
    have hlive : (((s.freeze { d with capturedMs := now }).adopt i handle y.registry.head).start now).snapshotId ≠ 0 :=
      nextNonzero_ne_zero _
    have hdecode := hstart.decode_page hlive hpage
    obtain ⟨c',htaken,hnext⟩ := (h.subscribe hy hfree hd hslot hstart).page hlive hpage
    rcases htaken with ⟨h0,-⟩ | ⟨hsub,st,hst,rfl⟩
    · exact absurd h0 (subId_ne_zero s i)
    · have hself : ((((s.freeze { d with capturedMs := now }).adopt i handle y.registry.head).start
          now).snapshotSub) = s.subId i := rfl
      have hfirst := @subscribe_page d.subsystem d.device (nextNonzero s.nextSnapshot) { d with capturedMs := now }
        (pageOf (((s.freeze { d with capturedMs := now }).adopt i handle y.registry.head).start now) 0 taken)
        rfl rfl rfl rfl rfl
      rw [hself, Function.update_self] at hst
      obtain rfl := Option.some.inj (hfirst.symm.trans hst)
      rw [hself, Function.update_idem] at hnext
      subst hbody
      exact ⟨_,receive_subscribe hop hv.1.subsystem hv.1.device hdecode hsub rfl,hnext⟩

theorem Sim.request (hy : y.Sound) (h : Sim y s c) (opcode : ℕ) (body : Bytes) (now : UInt64) (capacity : ℕ) :
    ∃ c', c.receive (.request opcode body now capacity)
        (.reply (cacheRequest y.registry s opcode body now capacity).1
          (cacheRequest y.registry s opcode body now capacity).2.2) = some c' ∧
      Sim y (cacheRequest y.registry s opcode body now capacity).2.1 c' :=
  (h.expire now).requestEffect hy (request_effect hy.wellFormed s opcode body now capacity)

end

end Bvstk.Dcp2
