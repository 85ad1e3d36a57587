import Bvstk.Dcp2.CacheEffect
import Bvstk.Library.Machine

/-! # No subscription is silently stuck

The invariant of a cache session, over any mix of requests, event polls and
registry operations: a pending subscription that is not paused owns the live
snapshot. Everything else about progress follows from it.
-/
namespace Bvstk.Dcp2
open Wire Cache Machine

/-! ## The invariant -/

/-- One active subscription, against the identifiers handed out so far and the
owner and token of the snapshot. -/
structure CacheSubscription.Sound (nextSub owner token : ℕ) (sub : CacheSubscription) : Prop where
  issued : sub.id ≤ nextSub
  handle : sub.handle ≠ 0
  generation : sub.generation < 2^32
  revision : sub.revision < 2^64
  idle : sub.pending = false → sub.paused = 0 ∨ sub.paused = pausedSent
  waiting : sub.pending = true → sub.paused = 0 ∨ sub.paused = reasonExpired
  owner : sub.pending = true → (sub.paused = 0 ↔ owner = sub.id ∧ token ≠ 0)

structure CacheSession.Sound (s : CacheSession) : Prop where
  nextSub : s.nextSub < 2^16
  token : s.snapshotId < 2^32
  owned : s.snapshotSub ≤ s.nextSub
  snapshot : s.snapshotId ≠ 0 →
    s.snapshot.Valid ∧ s.snapshot.generation < 2^32 ∧ s.snapshot.revision < 2^64
  progress : s.snapshotId ≠ 0 → s.snapshotProgress ≤ s.snapshot.count
  subs : ∀ i, s.Active i → (s.subscriptions i).Sound s.nextSub s.snapshotSub s.snapshotId
  ids : ∀ i j, s.Active i → s.Active j → (s.subscriptions i).id = (s.subscriptions j).id → i = j
  handles : ∀ i j, s.Active i → s.Active j →
    (s.subscriptions i).handle = (s.subscriptions j).handle → i = j

theorem init_sound : cacheSessionInit.Sound where
  nextSub := by decide
  token := by decide
  owned := le_rfl
  snapshot := fun h => absurd rfl h
  progress := fun h => absurd rfl h
  subs := fun _ h => absurd rfl h.2
  ids := fun _ _ h => absurd rfl h.2
  handles := fun _ _ h => absurd rfl h.2

section
variable {s : CacheSession}

/-- Identifiers are distinct, so a lookup finds the slot it is asked for. -/
theorem CacheSession.Sound.subscription_id (h : s.Sound) {i : ℕ} (hi : s.Active i) :
    subscription s (s.subscriptions i).id = some i := by
  obtain ⟨j,hj⟩ := subscription_isSome hi
  obtain ⟨hja,hid⟩ := subscription_eq_some hj
  rw [hj, h.ids j i hja hi hid]

theorem CacheSession.Sound.owner_slot (h : s.Sound) {i : ℕ} (hi : s.Active i)
    (hown : s.snapshotSub = (s.subscriptions i).id) : subscription s s.snapshotSub = some i :=
  hown ▸ h.subscription_id hi

theorem CacheSession.Sound.encodable (h : s.Sound) (hlive : s.snapshotId ≠ 0) : s.Encodable where
  sub := h.owned.trans_lt h.nextSub
  token := h.token
  generation := (h.snapshot hlive).2.1
  revision := (h.snapshot hlive).2.2
  count := (h.snapshot hlive).1.count
  entries := fun e he =>
    (nameValid_length ((h.snapshot hlive).1.entries e he).name).2.trans (by decide)

/-- Every page served decodes to the slice it was cut from. -/
theorem CacheSession.Sound.decode_page (h : s.Sound) (hlive : s.snapshotId ≠ 0) {first capacity : ℕ}
    {taken : List CacheEntry} (hpage : Paged s first capacity taken) :
    decodePage (pageBytes s first taken) = some (pageOf s first taken) := by
  refine decodePage_pageBytes (h.encodable hlive) ?_ hpage.eq_take.2
  intro e he
  rw [hpage.eq_take.1] at he
  exact List.mem_of_mem_drop (List.mem_of_mem_take he)

/-- While no pending subscription owns the snapshot, every pending one is paused. -/
theorem CacheSession.Sound.paused_of_free (h : s.Sound) (hfree : s.busy = false) {i : ℕ} (hi : s.Active i)
    (hp : (s.subscriptions i).pending = true) : (s.subscriptions i).paused ≠ 0 := by
  intro h0
  obtain ⟨hown,hlive⟩ := ((h.subs i hi).owner hp).mp h0
  have hbusy : s.busy = true := by
    simp [CacheSession.busy, h.owner_slot hi hown, hp, hlive]
  simp [hfree] at hbusy

theorem CacheSession.Sound.turn (h : s.Sound) : s.turn.Sound :=
  ⟨h.nextSub,h.token,h.owned,h.snapshot,h.progress,h.subs,h.ids,h.handles⟩

/-- Rewriting one slot keeps the session sound when the subscription keeps its identity. -/
theorem CacheSession.Sound.setSub (h : s.Sound) {i : ℕ} {sub : CacheSubscription}
    (hid : sub.id = (s.subscriptions i).id) (hhandle : sub.handle = (s.subscriptions i).handle)
    (hsub : s.Active i → sub.Sound s.nextSub s.snapshotSub s.snapshotId) :
    (s.setSub i sub).Sound := by
  have hids : ∀ j, ((s.setSub i sub).subscriptions j).id = (s.subscriptions j).id ∧
      ((s.setSub i sub).subscriptions j).handle = (s.subscriptions j).handle := by
    intro j
    by_cases hj : j = i
    · subst hj
      simp [hid, hhandle]
    · simp [setSub_of_ne s sub hj]
  have hactive : ∀ j, (s.setSub i sub).Active j ↔ s.Active j := by
    intro j
    simp [CacheSession.Active, hids]
  refine ⟨h.nextSub,h.token,h.owned,h.snapshot,h.progress,?_,?_,?_⟩
  · intro j hj
    have hj' := (hactive j).mp hj
    by_cases hji : j = i
    · subst hji
      rw [setSub_self]
      exact hsub hj'
    · rw [setSub_of_ne s sub hji]
      exact h.subs j hj'
  · intro j k hj hk heq
    rw [(hids j).1, (hids k).1] at heq
    exact h.ids j k ((hactive j).mp hj) ((hactive k).mp hk) heq
  · intro j k hj hk heq
    rw [(hids j).2, (hids k).2] at heq
    exact h.handles j k ((hactive j).mp hj) ((hactive k).mp hk) heq

/-- A subscription that is no longer pending is sound if it was and its state is a final or a live one. -/
theorem CacheSubscription.Sound.settled {nextSub owner token : ℕ} {sub sub' : CacheSubscription}
    (h : sub.Sound nextSub owner token) (hid : sub'.id = sub.id) (hhandle : sub'.handle = sub.handle)
    (hgeneration : sub'.generation = sub.generation) (hrevision : sub'.revision < 2^64)
    (hpending : sub'.pending = false) (hpaused : sub'.paused = 0 ∨ sub'.paused = pausedSent) :
    sub'.Sound nextSub owner token where
  issued := hid ▸ h.issued
  handle := hhandle ▸ h.handle
  generation := hgeneration ▸ h.generation
  revision := hrevision
  idle := fun _ => hpaused
  waiting := fun hp => absurd (hpending.symm.trans hp) Bool.false_ne_true
  owner := fun hp => absurd (hpending.symm.trans hp) Bool.false_ne_true

theorem CacheSession.Sound.visit (h : s.Sound) {r : CacheRegistry} {i : ℕ} {now : UInt64}
    {out : CacheSession × Bytes} (hout : VisitEffect r s i now out) : out.1.Sound := by
  cases hout with
  | passed => exact h
  | drained hd hnext =>
    refine h.setSub rfl rfl fun hi => ?_
    apply (h.subs i hi).settled
    · rfl
    · rfl
    · rfl
    · exact (h.subs i hi).revision
    · exact hd.started
    · exact Or.inl hd.running
  | ended ha hsent hwhy =>
    refine h.setSub rfl rfl fun hi => ?_
    apply (h.subs i hi).settled
    · rfl
    · rfl
    · rfl
    · exact (h.subs i hi).revision
    · rfl
    · exact Or.inr rfl
  | delivered hd hnext hrevision =>
    refine h.setSub rfl rfl fun hi => ?_
    apply (h.subs i hi).settled
    · rfl
    · rfl
    · rfl
    · exact hrevision ▸ Nat.mod_lt _ (by decide)
    · exact hd.started
    · exact Or.inl hd.running

theorem CacheSession.Sound.expire (h : s.Sound) (now : UInt64) : (expire s now).Sound := by
  unfold Dcp2.expire
  split
  · rename_i hover
    have hlive : s.snapshotId ≠ 0 := (of_decide_eq_true hover).1
    rw [pauseOwner_eq]
    -- only the paused flag of the owner changes
    have hkeep : ∀ j, (if subscription s s.snapshotSub = some j ∧ (s.subscriptions j).pending = true then
        { s.subscriptions j with paused := reasonExpired } else s.subscriptions j).id = (s.subscriptions j).id ∧
        (if subscription s s.snapshotSub = some j ∧ (s.subscriptions j).pending = true then
        { s.subscriptions j with paused := reasonExpired } else s.subscriptions j).handle =
          (s.subscriptions j).handle := by
      intro j
      split <;> exact ⟨rfl,rfl⟩
    refine ⟨h.nextSub,Nat.two_pow_pos 32,h.owned,fun h0 => absurd rfl h0,fun h0 => absurd rfl h0,?_,?_,?_⟩
    · intro j hj
      have hj' : s.Active j := ⟨hj.1,by simpa only [(hkeep j).1] using hj.2⟩
      have hsub := h.subs j hj'
      dsimp only
      split
      · rename_i hown
        have hne : reasonExpired ≠ 0 := by decide
        exact ⟨hsub.issued,hsub.handle,hsub.generation,hsub.revision,
          fun hp => absurd (hown.2.symm.trans hp).symm Bool.false_ne_true,fun _ => Or.inr rfl,
          fun _ => ⟨fun h0 => absurd h0 hne,fun hz => absurd rfl hz.2⟩⟩
      · rename_i hother
        have hnot : (s.subscriptions j).pending = true → (s.subscriptions j).paused ≠ 0 := by
          intro hp h0
          exact hother ⟨h.owner_slot hj' ((hsub.owner hp).mp h0).1,hp⟩
        exact ⟨hsub.issued,hsub.handle,hsub.generation,hsub.revision,hsub.idle,hsub.waiting,
          fun hp => ⟨fun h0 => absurd h0 (hnot hp),fun hz => absurd rfl hz.2⟩⟩
    · intro j k hj hk heq
      simp only [CacheSession.Active, (hkeep _).1] at hj hk heq
      exact h.ids j k hj hk heq
    · intro j k hj hk heq
      simp only [CacheSession.Active, (hkeep _).1, (hkeep _).2] at hj hk heq
      exact h.handles j k hj hk heq
  · exact h

theorem CacheSession.Sound.touch (h : s.Sound) (now : UInt64) :
    CacheSession.Sound { s with snapshotActivity := now } :=
  ⟨h.nextSub,h.token,h.owned,h.snapshot,h.progress,h.subs,h.ids,h.handles⟩

theorem CacheSession.Sound.advance (h : s.Sound) (hlive : s.snapshotId ≠ 0) {first count : ℕ}
    (hfit : first + count ≤ s.snapshot.count) : (s.advance first count).Sound := by
  rw [advance_eq]
  have hkeep : ∀ j, (if subscription s s.snapshotSub = some j ∧
        s.progressAfter first count = s.snapshot.count then
      { s.subscriptions j with pending := false } else s.subscriptions j).id = (s.subscriptions j).id ∧
      (if subscription s s.snapshotSub = some j ∧ s.progressAfter first count = s.snapshot.count then
      { s.subscriptions j with pending := false } else s.subscriptions j).handle =
        (s.subscriptions j).handle := by
    intro j
    split <;> exact ⟨rfl,rfl⟩
  refine ⟨h.nextSub,h.token,h.owned,h.snapshot,?_,?_,?_,?_⟩
  · intro _
    unfold CacheSession.progressAfter
    split
    · exact hfit
    · exact h.progress hlive
  · intro j hj
    have hj' : s.Active j := ⟨hj.1,by simpa only [(hkeep j).1] using hj.2⟩
    have hsub := h.subs j hj'
    dsimp only
    split
    · rename_i hdone
      have hown := (subscription_eq_some hdone.1).2
      -- the owner was not paused, so it goes live
      have hpaused : (s.subscriptions j).paused = 0 ∨ (s.subscriptions j).paused = pausedSent := by
        cases hp : (s.subscriptions j).pending with
        | false => exact hsub.idle hp
        | true => exact Or.inl ((hsub.owner hp).mpr ⟨hown.symm,hlive⟩)
      apply hsub.settled
      · rfl
      · rfl
      · rfl
      · exact hsub.revision
      · rfl
      · exact hpaused
    · exact hsub
  · intro j k hj hk heq
    simp only [CacheSession.Active, (hkeep _).1] at hj hk heq
    exact h.ids j k hj hk heq
  · intro j k hj hk heq
    simp only [CacheSession.Active, (hkeep _).1, (hkeep _).2] at hj hk heq
    exact h.handles j k hj hk heq

theorem CacheSession.Sound.release (h : s.Sound) {i : ℕ} (hi : s.Active i) : (s.release i).Sound := by
  have hother : ∀ j, (s.release i).Active j → j ≠ i ∧ s.Active j ∧
      (s.release i).subscriptions j = s.subscriptions j := by
    intro j hj
    have hji : j ≠ i := by
      rintro rfl
      exact hj.2 (by simp [CacheSession.release, CacheSubscription.zero])
    have hsame : (s.release i).subscriptions j = s.subscriptions j := Function.update_of_ne hji _ _
    exact ⟨hji,⟨hj.1,hsame ▸ hj.2⟩,hsame⟩
  refine ⟨h.nextSub,?_,?_,?_,?_,?_,?_,?_⟩
  · dsimp only [CacheSession.release]
    split
    · exact Nat.two_pow_pos 32
    · exact h.token
  · dsimp only [CacheSession.release]
    split
    · exact Nat.zero_le _
    · exact h.owned
  · dsimp only [CacheSession.release]
    split
    · exact fun h0 => absurd rfl h0
    · exact h.snapshot
  · dsimp only [CacheSession.release]
    split
    · exact fun h0 => absurd rfl h0
    · exact h.progress
  · intro j hj
    obtain ⟨hji,hja,hsame⟩ := hother j hj
    have hsub := h.subs j hja
    rw [hsame]
    refine ⟨hsub.issued,hsub.handle,hsub.generation,hsub.revision,hsub.idle,hsub.waiting,?_⟩
    intro hp
    dsimp only [CacheSession.release]
    by_cases hown : s.snapshotSub = (s.subscriptions i).id
    · simp only [if_pos hown, ne_eq, not_true_eq_false, and_false, iff_false]
      intro h0
      exact hji (h.ids j i hja hi (((hsub.owner hp).mp h0).1.symm.trans hown))
    · simpa only [if_neg hown] using hsub.owner hp
  · intro j k hj hk heq
    obtain ⟨_,hja,hjs⟩ := hother j hj
    obtain ⟨_,hka,hks⟩ := hother k hk
    rw [hjs, hks] at heq
    exact h.ids j k hja hka heq
  · intro j k hj hk heq
    obtain ⟨_,hja,hjs⟩ := hother j hj
    obtain ⟨_,hka,hks⟩ := hother k hk
    rw [hjs, hks] at heq
    exact h.handles j k hja hka heq

/-- With no owner and no token, every pending subscription has to be a paused one. -/
theorem CacheSession.Sound.freeze (h : s.Sound) (hfree : s.busy = false) (v : CacheSnapshot) :
    (s.freeze v).Sound := by
  refine ⟨h.nextSub,Nat.two_pow_pos 32,Nat.zero_le _,fun h0 => absurd rfl h0,fun h0 => absurd rfl h0,
    ?_,h.ids,h.handles⟩
  intro j hj
  have hsub := h.subs j hj
  exact ⟨hsub.issued,hsub.handle,hsub.generation,hsub.revision,hsub.idle,hsub.waiting,
    fun hp => ⟨fun h0 => absurd h0 (h.paused_of_free hfree hj hp),fun hz => absurd rfl hz.2⟩⟩

/-- A frozen device with its ranges. -/
def Captured (v : CacheSnapshot) : Prop := v.Valid ∧ v.generation < 2^32 ∧ v.revision < 2^64

theorem CacheSession.Sound.start (h : s.Sound) (hfree : s.busy = false) {v : CacheSnapshot}
    (hv : Captured v) (now : UInt64) : ((s.freeze v).start now).Sound := by
  have hf := h.freeze hfree v
  refine ⟨hf.nextSub,nextNonzero_lt _,hf.owned,fun _ => hv,fun _ => Nat.zero_le _,?_,hf.ids,hf.handles⟩
  intro j hj
  have hsub := hf.subs j hj
  exact ⟨hsub.issued,hsub.handle,hsub.generation,hsub.revision,hsub.idle,hsub.waiting,
    fun hp => ⟨fun h0 => absurd h0 (h.paused_of_free hfree hj hp),fun hz => absurd hz.1.symm hj.2⟩⟩

/-- SUBSCRIBE takes the slot of its device, or a free one when there is none. -/
theorem subscribeSlot_spec {handle i : ℕ} (h : subscribeSlot s handle = some i) :
    i < cacheSubscriptions ∧
      ((s.subscriptions i).id ≠ 0 ∧ (s.subscriptions i).handle = handle ∨
        (s.subscriptions i).id = 0 ∧ ∀ j, s.Active j → (s.subscriptions j).handle ≠ handle) := by
  rw [subscribeSlot, Option.or_eq_some_iff] at h
  rcases h with h | ⟨hnone,h⟩
  · have hmatch := List.find?_some h
    simp only [decide_eq_true_eq] at hmatch
    exact ⟨List.mem_range.mp (List.mem_of_find?_eq_some h),Or.inl hmatch⟩
  · have hzero := List.find?_some h
    simp only [beq_iff_eq] at hzero
    refine ⟨List.mem_range.mp (List.mem_of_find?_eq_some h),Or.inr ⟨hzero,?_⟩⟩
    intro j hj hhandle
    have hno := List.find?_eq_none.mp hnone j (List.mem_range.mpr hj.1)
    exact hno (decide_eq_true ⟨hj.2,hhandle⟩)

theorem CacheSession.Sound.subscribe (h : s.Sound) (hfree : s.busy = false) {v : CacheSnapshot}
    (hv : Captured v) {handle cursor i : ℕ} (hhandle : handle ≠ 0)
    (hslot : subscribeSlot s handle = some i)
    (hroom : (s.subscriptions i).id = 0 → s.nextSub ≠ 2^16 - 1) (now : UInt64) :
    (((s.freeze v).adopt i handle cursor).start now).Sound := by
  obtain ⟨hi,hkind⟩ := subscribeSlot_spec hslot
  have hnext := h.nextSub
  have hself : (((s.freeze v).adopt i handle cursor).start now).subscriptions i =
      ⟨cursor,v.revision,v.generation,s.subId i,handle,true,0⟩ := Function.update_self _ _ _
  have hother : ∀ j, j ≠ i →
      (((s.freeze v).adopt i handle cursor).start now).subscriptions j = s.subscriptions j :=
    fun j hj => Function.update_of_ne hj _ _
  have hissued : ∀ j, s.Active j → (s.subscriptions j).id ≤
      (if (s.subscriptions i).id = 0 then s.nextSub + 1 else s.nextSub) := by
    intro j hj
    have hle := (h.subs j hj).issued
    split <;> omega
  have hid : s.subId i ≠ 0 ∧
      s.subId i ≤ (if (s.subscriptions i).id = 0 then s.nextSub + 1 else s.nextSub) := by
    unfold CacheSession.subId
    split
    · exact ⟨Nat.succ_ne_zero _,le_rfl⟩
    · rename_i h0
      exact ⟨h0,(h.subs i ⟨hi,h0⟩).issued⟩
  have hfresh : ∀ j, s.Active j → j ≠ i → (s.subscriptions j).id ≠ s.subId i ∧
      (s.subscriptions j).handle ≠ handle := by
    intro j hj hji
    rcases hkind with ⟨h0,hsame⟩ | ⟨h0,hnone⟩
    · rw [CacheSession.subId, if_neg h0]
      exact ⟨fun heq => hji (h.ids j i hj ⟨hi,h0⟩ heq),
        fun heq => hji (h.handles j i hj ⟨hi,h0⟩ (heq.trans hsame.symm))⟩
    · rw [CacheSession.subId, if_pos h0]
      have hle := (h.subs j hj).issued
      exact ⟨by omega,hnone j hj⟩
  refine ⟨?_,nextNonzero_lt _,hid.2,fun _ => hv,fun _ => Nat.zero_le _,?_,?_,?_⟩
  · change (if (s.subscriptions i).id = 0 then s.nextSub + 1 else s.nextSub) < 2^16
    split
    · have := hroom (by assumption)
      omega
    · exact hnext
  · intro j hj
    by_cases hji : j = i
    · subst hji
      rw [hself]
      exact ⟨hid.2,hhandle,hv.2.1,hv.2.2,fun hp => absurd hp Bool.false_ne_true.symm,fun _ => Or.inl rfl,
        fun _ => ⟨fun _ => ⟨rfl,nextNonzero_ne_zero _⟩,fun _ => rfl⟩⟩
    · rw [CacheSession.Active, hother j hji] at hj
      have hsub := h.subs j hj
      rw [hother j hji]
      exact ⟨hissued j hj,hsub.handle,hsub.generation,hsub.revision,hsub.idle,hsub.waiting,
        fun hp => ⟨fun h0 => absurd h0 (h.paused_of_free hfree hj hp),
          fun hz => absurd hz.1.symm (hfresh j hj hji).1⟩⟩
  · intro j k hj hk heq
    by_cases hji : j = i <;> by_cases hki : k = i
    · rw [hji, hki]
    · subst hji
      rw [CacheSession.Active, hother k hki] at hk
      rw [hself, hother k hki] at heq
      exact absurd heq.symm (hfresh k hk hki).1
    · subst hki
      rw [CacheSession.Active, hother j hji] at hj
      rw [hself, hother j hji] at heq
      exact absurd heq (hfresh j hj hji).1
    · rw [CacheSession.Active, hother j hji] at hj
      rw [CacheSession.Active, hother k hki] at hk
      rw [hother j hji, hother k hki] at heq
      exact h.ids j k hj hk heq
  · intro j k hj hk heq
    by_cases hji : j = i <;> by_cases hki : k = i
    · rw [hji, hki]
    · subst hji
      rw [CacheSession.Active, hother k hki] at hk
      rw [hself, hother k hki] at heq
      exact absurd heq.symm (hfresh k hk hki).2
    · subst hki
      rw [CacheSession.Active, hother j hji] at hj
      rw [hself, hother j hji] at heq
      exact absurd heq (hfresh j hj hji).2
    · rw [CacheSession.Active, hother j hji] at hj
      rw [CacheSession.Active, hother k hki] at hk
      rw [hother j hji, hother k hki] at heq
      exact h.handles j k hj hk heq

theorem captured_of_snapshot {r : CacheRegistry} (hr : r.WellFormed) {bus name : Name} {now : UInt64}
    {v : CacheSnapshot} {handle cursor : ℕ} (h : cacheSnapshot r bus name now = some (v,handle,cursor)) :
    Captured v ∧ handle ≠ 0 := by
  have hvalid := capture_valid hr h
  obtain ⟨d,hd,rfl,-⟩ := snapshot_spec h
  obtain ⟨h0,-,rfl,-⟩ := device_eq_some hd
  exact ⟨⟨hvalid,hr.bounded _⟩,h0⟩

theorem CacheSession.Sound.request {r : CacheRegistry} (hr : r.WellFormed) (h : s.Sound) {opcode : ℕ}
    {body : Bytes} {now : UInt64} {capacity : ℕ} {out : ℕ × CacheSession × Bytes}
    (hout : RequestEffect r s opcode body now capacity out) : out.2.1.Sound := by
  cases hout with
  | refused => exact h
  | released hop hbody hi => exact h.release (subscription_eq_some hi).1
  | paged hop hbody hlive hpage => exact (h.advance hlive hpage.eq_take.2).touch now
  | dropped hop hfree hsnap => exact h.freeze hfree _
  | got hop hbody hfree hsnap hpage =>
    have hstart := h.start hfree (captured_of_snapshot hr hsnap).1 now
    exact hstart.advance (nextNonzero_ne_zero _) hpage.eq_take.2
  | subscribed hop hbody hfree hsnap hslot hroom hpage =>
    obtain ⟨hv,hhandle⟩ := captured_of_snapshot hr hsnap
    exact (h.subscribe hfree hv hhandle hslot hroom now).advance (nextNonzero_ne_zero _)
      hpage.eq_take.2

theorem CacheSession.Sound.event (h : s.Sound) (r : CacheRegistry) (now : UInt64) (capacity : ℕ) :
    (cacheEvent r s now capacity).1.Sound := by
  unfold cacheEvent
  dsimp only
  split
  · exact h.expire now
  · refine eventLoop_rule (P := CacheSession.Sound) (Q := fun out => out.1.Sound) ?_ (fun _ hs => hs) _
      (h.expire now)
    intro s hs out
    have hout := hs.turn.visit (visit_effect r s.turn (Nat.mod_lt s.roundRobin (by decide)) now)
    exact ⟨fun _ => hout,fun _ => hout⟩

end

end Bvstk.Dcp2
