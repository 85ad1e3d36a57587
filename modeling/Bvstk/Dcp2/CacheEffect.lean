import Bvstk.Dcp2.CacheWire
import Bvstk.Cache.RegistryInvariant

/-! # What a request and a poll can do to a session

A request refuses, releases a subscription, serves a page of the live snapshot,
or freezes a new one. A poll ends at the first subscription that has an event.
All session invariants are read off these two case analyses.
-/
namespace Bvstk.Dcp2
open Wire Cache

/-! ## Slots -/

def CacheSession.Active (s : CacheSession) (i : ℕ) : Prop :=
  i < cacheSubscriptions ∧ (s.subscriptions i).id ≠ 0

theorem subscription_eq_some {s : CacheSession} {id i : ℕ} (h : subscription s id = some i) :
    s.Active i ∧ (s.subscriptions i).id = id := by
  unfold subscription at h
  split at h
  · contradiction
  · rename_i h0
    have hi := List.mem_range.mp (List.mem_of_find?_eq_some h)
    have hid : (s.subscriptions i).id = id := by simpa using List.find?_some h
    exact ⟨⟨hi,hid ▸ h0⟩,hid⟩

theorem subscription_isSome {s : CacheSession} {i : ℕ} (h : s.Active i) :
    ∃ j, subscription s (s.subscriptions i).id = some j := by
  have hfind : ((List.range cacheSubscriptions).find? fun j =>
      (s.subscriptions j).id == (s.subscriptions i).id).isSome := by
    rw [List.find?_isSome]
    exact ⟨i,List.mem_range.mpr h.1,beq_self_eq_true _⟩
  obtain ⟨j,hj⟩ := Option.isSome_iff_exists.mp hfind
  exact ⟨j,(if_neg h.2).trans hj⟩

@[simp] theorem setSub_self (s : CacheSession) (i : ℕ) (sub : CacheSubscription) :
    (s.setSub i sub).subscriptions i = sub := Function.update_self _ _ _
theorem setSub_of_ne (s : CacheSession) {i j : ℕ} (sub : CacheSubscription) (h : j ≠ i) :
    (s.setSub i sub).subscriptions j = s.subscriptions j := Function.update_of_ne h _ _

/-! ## Expiry -/

theorem pauseOwner_eq (s : CacheSession) :
    s.pauseOwner = { s with
      subscriptions := fun j =>
        if subscription s s.snapshotSub = some j ∧ (s.subscriptions j).pending = true then
          { s.subscriptions j with paused := reasonExpired } else s.subscriptions j } := by
  unfold CacheSession.pauseOwner
  cases hsub : subscription s s.snapshotSub with
  | none => simp
  | some i =>
    have hsubs : (fun j => if i = j ∧ (s.subscriptions j).pending = true then
        { s.subscriptions j with paused := reasonExpired } else s.subscriptions j) =
          if (s.subscriptions i).pending = true then
            Function.update s.subscriptions i { s.subscriptions i with paused := reasonExpired }
          else s.subscriptions := by
      funext j
      by_cases hj : i = j
      · subst hj
        cases hp : (s.subscriptions i).pending <;> simp
      · cases hp : (s.subscriptions i).pending <;> simp [hj, Function.update_of_ne (Ne.symm hj)]
    simp only [Option.some.injEq, hsubs, CacheSession.setSub]
    split <;> rfl

/-! ## Pages -/

theorem fitting_prefix (room : ℕ) (entries : List CacheEntry) : fitting room entries <+: entries := by
  induction entries generalizing room with
  | nil => exact List.nil_prefix
  | cons e entries ih =>
    simp only [fitting]
    split
    · exact List.nil_prefix
    · exact List.cons_prefix_cons.mpr ⟨rfl,ih _⟩

theorem fitting_ne_nil {room : ℕ} {e : CacheEntry} (h : e.id.length + 20 ≤ room) (rest : List CacheEntry) :
    fitting room (e :: rest) ≠ [] := by
  simp only [fitting, if_neg (not_lt.mpr h)]
  exact List.cons_ne_nil _ _

/-- A page of the live snapshot: the entries that fit, at least one unless none is left. -/
structure Paged (s : CacheSession) (first capacity : ℕ) (taken : List CacheEntry) : Prop where
  start : first ≤ s.snapshot.count
  fits : taken = fitting (capacity - cachePageHeader) (s.snapshot.entries.drop first)
  moves : taken.length = 0 → first = s.snapshot.count

theorem Paged.eq_take {s : CacheSession} {first capacity : ℕ} {taken : List CacheEntry}
    (h : Paged s first capacity taken) :
    taken = (s.snapshot.entries.drop first).take taken.length ∧
      first + taken.length ≤ s.snapshot.count := by
  have hpre : taken <+: s.snapshot.entries.drop first := h.fits ▸ fitting_prefix _ _
  refine ⟨List.prefix_iff_eq_take.mp hpre,?_⟩
  have hlen := hpre.length_le
  have hfirst := h.start
  simp only [List.length_drop, CacheSnapshot.count] at hlen hfirst ⊢
  omega

theorem page_cases (s : CacheSession) (first capacity : ℕ) :
    page s first capacity = (statusRange,s,[]) ∨
      ∃ taken, Paged s first capacity taken ∧
        page s first capacity = (statusOk,s.advance first taken.length,pageBytes s first taken) := by
  unfold page
  split
  · exact Or.inl rfl
  · split
    · exact Or.inl rfl
    · dsimp only
      split
      · exact Or.inl rfl
      · rename_i hfirst _ hnone
        refine Or.inr ⟨_,⟨not_lt.mp hfirst,rfl,?_⟩,rfl⟩
        intro hzero
        exact le_antisymm (not_lt.mp hfirst) (not_lt.mp fun hlt => hnone ⟨hzero,hlt⟩)

/-- With room for one maximal entry a page never fails. -/
theorem page_ok {s : CacheSession} {first capacity : ℕ} (hvalid : s.snapshot.Valid)
    (hfirst : first ≤ s.snapshot.count) (hcap : cachePageHeader + cacheNameMax - 1 + 20 ≤ capacity) :
    ∃ taken, Paged s first capacity taken ∧
      page s first capacity = (statusOk,s.advance first taken.length,pageBytes s first taken) := by
  have hroom : 51 ≤ capacity - cachePageHeader := by
    simp only [cachePageHeader, cacheNameMax] at hcap ⊢
    omega
  have hprogress : (fitting (capacity - cachePageHeader) (s.snapshot.entries.drop first)).length = 0 →
      first = s.snapshot.count := by
    intro hzero
    by_contra hne
    have hlt : first < s.snapshot.entries.length := lt_of_le_of_ne hfirst hne
    have hentry := (nameValid_length (hvalid.entries _ (List.getElem_mem hlt)).name).2
    rw [List.drop_eq_getElem_cons hlt] at hzero
    refine fitting_ne_nil ?_ _ (List.length_eq_zero_iff.mp hzero)
    simp only [cacheNameMax] at hentry
    omega
  refine ⟨_,⟨hfirst,rfl,hprogress⟩,?_⟩
  unfold page
  rw [if_neg (not_lt.mpr hfirst), if_neg (by omega), if_neg]
  rintro ⟨hzero,hlt⟩
  exact absurd (hprogress hzero) hlt.ne

/-- How far the contiguous prefix reaches after a page. -/
def CacheSession.progressAfter (s : CacheSession) (first count : ℕ) : ℕ :=
  if first = s.snapshotProgress then first + count else s.snapshotProgress

theorem advance_eq (s : CacheSession) (first count : ℕ) :
    s.advance first count = { s with
      snapshotProgress := s.progressAfter first count
      subscriptions := fun j =>
        if subscription s s.snapshotSub = some j ∧ s.progressAfter first count = s.snapshot.count then
          { s.subscriptions j with pending := false } else s.subscriptions j } := by
  unfold CacheSession.advance
  cases hsub : subscription s s.snapshotSub with
  | none => simp [CacheSession.progressAfter]
  | some i =>
    dsimp only
    change (if s.progressAfter first count = s.snapshot.count then _ else _) = _
    have hsubs : (fun j => if i = j ∧ s.progressAfter first count = s.snapshot.count then
        { s.subscriptions j with pending := false } else s.subscriptions j) =
          if s.progressAfter first count = s.snapshot.count then
            Function.update s.subscriptions i { s.subscriptions i with pending := false }
          else s.subscriptions := by
      funext j
      by_cases hj : i = j
      · subst hj
        by_cases hp : s.progressAfter first count = s.snapshot.count <;> simp [hp]
      · by_cases hp : s.progressAfter first count = s.snapshot.count <;>
          simp [hj, hp, Function.update_of_ne (Ne.symm hj)]
    simp only [Option.some.injEq, hsubs, CacheSession.setSub]
    split <;> rfl

/-! ## Requests -/

/-- The session with a new frozen device and no live token. -/
def CacheSession.freeze (s : CacheSession) (v : CacheSnapshot) : CacheSession :=
  { s with snapshot := v, snapshotId := 0, snapshotSub := 0, snapshotProgress := 0 }

/-- The session with a new live token for the frozen device. -/
def CacheSession.start (s : CacheSession) (now : UInt64) : CacheSession :=
  { s with
    nextSnapshot := nextNonzero s.nextSnapshot
    snapshotId := nextNonzero s.nextSnapshot
    snapshotActivity := now }

/-- The identifier a SUBSCRIBE puts in slot `i`: a fresh one unless the slot has one. -/
def CacheSession.subId (s : CacheSession) (i : ℕ) : ℕ :=
  if (s.subscriptions i).id = 0 then s.nextSub + 1 else (s.subscriptions i).id

theorem subId_ne_zero (s : CacheSession) (i : ℕ) : s.subId i ≠ 0 := by
  unfold CacheSession.subId
  split
  · exact Nat.succ_ne_zero _
  · assumption

/-- The session with slot `i` subscribed to the frozen device. -/
def CacheSession.adopt (s : CacheSession) (i handle cursor : ℕ) : CacheSession :=
  { s with
    nextSub := if (s.subscriptions i).id = 0 then s.nextSub + 1 else s.nextSub
    snapshotSub := s.subId i
    subscriptions := Function.update s.subscriptions i
      ⟨cursor,s.snapshot.revision,s.snapshot.generation,s.subId i,handle,true,0⟩ }

/-- The session without the subscription in slot `i`, nor its snapshot. -/
def CacheSession.release (s : CacheSession) (i : ℕ) : CacheSession :=
  { s with
    snapshotSub := if s.snapshotSub = (s.subscriptions i).id then 0 else s.snapshotSub
    snapshotId := if s.snapshotSub = (s.subscriptions i).id then 0 else s.snapshotId
    subscriptions := Function.update s.subscriptions i CacheSubscription.zero }

/-- What a request does to the session it finds after expiry. -/
inductive RequestEffect (r : CacheRegistry) (s : CacheSession) (opcode : ℕ) (body : Bytes) (now : UInt64)
    (capacity : ℕ) : ℕ × CacheSession × Bytes → Prop where
  | refused {status : ℕ} (hstatus : status ≠ statusOk) :
      RequestEffect r s opcode body now capacity (status,s,[])
  | released {tag : Bytes} {i : ℕ} (hop : opcode = opCacheUnsubscribe) (hbody : body = cacheVersion :: tag)
      (hi : subscription s (readBE tag) = some i) :
      RequestEffect r s opcode body now capacity (statusOk,s.release i,[])
  | paged {first : ℕ} {taken : List CacheEntry} (hop : opcode = opCacheGet)
      (hbody : body = pageRequest s.snapshot.subsystem s.snapshot.device s.snapshotId first)
      (hlive : s.snapshotId ≠ 0) (hpage : Paged s first capacity taken) :
      RequestEffect r s opcode body now capacity
        (statusOk,{ s.advance first taken.length with snapshotActivity := now },pageBytes s first taken)
  | dropped {bus name : Name} {v : CacheSnapshot} {handle cursor : ℕ} (hop : opcode = opCacheSubscribe)
      (hfree : s.busy = false) (hsnap : cacheSnapshot r bus name now = some (v,handle,cursor)) :
      RequestEffect r s opcode body now capacity (statusBusy,s.freeze v,[])
  | got {bus name : Name} {v : CacheSnapshot} {handle cursor : ℕ} {taken : List CacheEntry}
      (hop : opcode = opCacheGet) (hbody : body = pageRequest bus name 0 0) (hfree : s.busy = false)
      (hsnap : cacheSnapshot r bus name now = some (v,handle,cursor))
      (hpage : Paged ((s.freeze v).start now) 0 capacity taken) :
      RequestEffect r s opcode body now capacity
        (statusOk,((s.freeze v).start now).advance 0 taken.length,pageBytes ((s.freeze v).start now) 0 taken)
  | subscribed {bus name : Name} {v : CacheSnapshot} {handle cursor i : ℕ} {taken : List CacheEntry}
      (hop : opcode = opCacheSubscribe) (hbody : body = subscribeRequest bus name) (hfree : s.busy = false)
      (hsnap : cacheSnapshot r bus name now = some (v,handle,cursor))
      (hslot : subscribeSlot s handle = some i)
      (hroom : (s.subscriptions i).id = 0 → s.nextSub ≠ 2^16 - 1)
      (hpage : Paged (((s.freeze v).adopt i handle cursor).start now) 0 capacity taken) :
      RequestEffect r s opcode body now capacity
        (statusOk,(((s.freeze v).adopt i handle cursor).start now).advance 0 taken.length,
          pageBytes (((s.freeze v).adopt i handle cursor).start now) 0 taken)

theorem capture_valid {r : CacheRegistry} (hr : r.WellFormed) {bus name : Name} {now : UInt64}
    {v : CacheSnapshot} {handle cursor : ℕ} (h : cacheSnapshot r bus name now = some (v,handle,cursor)) :
    v.Valid := by
  obtain ⟨d,hd,rfl,-⟩ := snapshot_spec h
  have hv := hr.device_valid hd
  exact ⟨hv.subsystem,hv.device,hv.count,hv.presence,hv.entries,hv.ids⟩

theorem unsubscribe_effect (r : CacheRegistry) (s : CacheSession) (tag : Bytes) (now : UInt64) (capacity : ℕ) :
    RequestEffect r s opCacheUnsubscribe (cacheVersion :: tag) now capacity (cacheUnsubscribe s tag) := by
  unfold cacheUnsubscribe
  split
  · exact .refused (by decide)
  · cases hi : subscription s (readBE tag) with
    | none => exact .refused (by decide)
    | some i =>
      convert RequestEffect.released rfl rfl hi using 3
      dsimp only [CacheSession.release, CacheSession.setSub]
      split <;> rfl

theorem pageByToken_effect (r : CacheRegistry) (s : CacheSession) (bus name : Name) {token : ℕ}
    (htoken : token ≠ 0) (first : ℕ) (now : UInt64) (capacity : ℕ) :
    RequestEffect r s opCacheGet (pageRequest bus name token first) now capacity
      (pageByToken s bus name token first now capacity) := by
  unfold pageByToken
  split
  · exact .refused (by decide)
  · rename_i hmatch
    push Not at hmatch
    rcases page_cases s first capacity with h | ⟨taken,hpage,h⟩
    · simp only [h]
      exact .refused (by decide)
    · simp only [h, ↓reduceIte]
      obtain ⟨rfl,rfl,rfl⟩ := hmatch
      exact .paged rfl rfl htoken hpage

theorem capture_effect {r : CacheRegistry} (hr : r.WellFormed) (s : CacheSession) (bus name : Name)
    (now : UInt64) (capacity : ℕ) {subscribe : Bool} {opcode : ℕ} {body : Bytes}
    (hop : opcode = if subscribe = true then opCacheSubscribe else opCacheGet)
    (hbody : body = if subscribe = true then subscribeRequest bus name else pageRequest bus name 0 0) :
    RequestEffect r s opcode body now capacity (capture r s subscribe bus name now capacity) := by
  unfold capture
  split
  · exact .refused (by decide)
  · rename_i hbusy
    have hfree : s.busy = false := by simpa using hbusy
    split
    · exact .refused (by decide)
    · rename_i hcap
      cases hsnap : cacheSnapshot r bus name now with
      | none => exact .refused (by decide)
      | some out =>
        obtain ⟨v,handle,cursor⟩ := out
        have hvalid := capture_valid hr hsnap
        cases subscribe with
        | false =>
          obtain ⟨taken,hpage,h⟩ := page_ok (s := (s.freeze v).start now) hvalid (Nat.zero_le _)
            (not_lt.mp hcap)
          change RequestEffect _ _ _ _ _ _ (page ((s.freeze v).start now) 0 capacity)
          rw [h]
          exact .got hop hbody hfree hsnap hpage
        | true =>
          dsimp only
          rw [if_pos rfl]
          cases hslot : subscribeSlot s handle with
          | none =>
            have hcleared : subscribeSlot { s with snapshot := v, snapshotId := 0, snapshotSub := 0, snapshotProgress := 0 } handle =
                none := hslot
            rw [hcleared]
            exact .dropped hop hfree hsnap
          | some i =>
            have hcleared : subscribeSlot { s with snapshot := v, snapshotId := 0, snapshotSub := 0, snapshotProgress := 0 } handle =
                some i := hslot
            rw [hcleared]
            dsimp only
            split
            · exact .dropped hop hfree hsnap
            · rename_i hroom
              obtain ⟨taken,hpage,h⟩ := page_ok (s := ((s.freeze v).adopt i handle cursor).start now) hvalid
                (Nat.zero_le _) (not_lt.mp hcap)
              change RequestEffect _ _ _ _ _ _ (page (((s.freeze v).adopt i handle cursor).start now) 0 capacity)
              rw [h]
              exact .subscribed hop hbody hfree hsnap hslot (fun h0 hmax => hroom ⟨h0,hmax⟩) hpage

/-- The inversion of `bvstk_dcp2_cache_request`. -/
theorem request_effect {r : CacheRegistry} (hr : r.WellFormed) (s : CacheSession) (opcode : ℕ) (body : Bytes)
    (now : UInt64) (capacity : ℕ) :
    RequestEffect r (expire s now) opcode body now capacity (cacheRequest r s opcode body now capacity) := by
  unfold cacheRequest
  split
  · exact .refused (by decide)
  · rename_i hop
    cases body with
    | nil => exact .refused (by decide)
    | cons version body =>
      dsimp only
      split
      · exact .refused (by decide)
      · rename_i hversion
        have hversion : version = cacheVersion := not_not.mp hversion
        subst hversion
        split
        · rename_i hop
          subst hop
          exact unsubscribe_effect r _ body now capacity
        · cases hbus : readName body with
          | none => exact .refused (by decide)
          | some out =>
            obtain ⟨bus,rest⟩ := out
            dsimp only
            cases hname : readName rest with
            | none => exact .refused (by decide)
            | some out =>
              obtain ⟨name,tail⟩ := out
              have hhead : cacheVersion :: body = subscribeRequest bus name ++ tail := by
                rw [eq_of_readName hbus, eq_of_readName hname]
                simp [subscribeRequest]
              rw [hhead]
              dsimp only
              split
              · rename_i hget
                subst hget
                split
                · exact .refused (by decide)
                · rename_i hlen
                  have htail := eq_of_tail (not_not.mp hlen)
                  split
                  · exact .refused (by decide)
                  · rename_i hfirst
                    split
                    · rename_i htoken
                      have hrequest : subscribeRequest bus name ++ tail = pageRequest bus name
                          (readBE (tail.take 4)) (readBE (tail.drop 4)) := congrArg _ htail
                      rw [hrequest]
                      exact pageByToken_effect r _ bus name htoken _ now capacity
                    · rename_i htoken
                      have htoken := not_not.mp htoken
                      have hfirst : readBE (tail.drop 4) = 0 :=
                        not_not.mp fun h0 => hfirst ⟨htoken,h0⟩
                      rw [htoken, hfirst] at htail
                      exact capture_effect hr _ bus name now capacity rfl (congrArg _ htail)
              · split
                · exact .refused (by decide)
                · rename_i hlen
                  have htail : tail = [] := List.length_eq_zero_iff.mp (not_not.mp hlen)
                  have hsub : opcode = opCacheSubscribe := by
                    by_contra hne
                    exact hop ⟨by assumption,hne,by assumption⟩
                  subst hsub
                  exact capture_effect hr _ bus name now capacity rfl (by simp [htail])

/-! ## Polls -/

/-- Slot `i` takes part in live delivery. -/
structure CacheSession.Delivering (s : CacheSession) (i : ℕ) : Prop where
  active : s.Active i
  started : (s.subscriptions i).pending = false
  running : (s.subscriptions i).paused = 0

/-- Why a visit ends the delivery of slot `i`. -/
inductive EndedBy (r : CacheRegistry) (s : CacheSession) (i : ℕ) : ℕ → Prop where
  | paused (h0 : (s.subscriptions i).paused ≠ 0) : EndedBy r s i (s.subscriptions i).paused
  | journal {reason cursor : ℕ} (h : s.Delivering i)
      (hnext : cacheNext r (s.subscriptions i).handle (s.subscriptions i).generation
        (s.subscriptions i).cursor = (.resync reason,cursor)) : EndedBy r s i reason
  | gap {c : CacheChange} {cursor : ℕ} (h : s.Delivering i)
      (hnext : cacheNext r (s.subscriptions i).handle (s.subscriptions i).generation
        (s.subscriptions i).cursor = (.change c,cursor))
      (hrevision : c.revision ≠ ((s.subscriptions i).revision + 1) % 2^64) : EndedBy r s i reasonLost

/-- What a visit of slot `i` can do. -/
inductive VisitEffect (r : CacheRegistry) (s : CacheSession) (i : ℕ) (now : UInt64) :
    CacheSession × Bytes → Prop where
  | passed (h : (s.subscriptions i).id = 0 ∨ (s.subscriptions i).paused = pausedSent ∨
      (s.subscriptions i).pending = true ∧ (s.subscriptions i).paused = 0) : VisitEffect r s i now (s,[])
  | drained {cursor : ℕ} (h : s.Delivering i)
      (hnext : cacheNext r (s.subscriptions i).handle (s.subscriptions i).generation
        (s.subscriptions i).cursor = (.caughtUp,cursor)) :
      VisitEffect r s i now (s.setSub i { s.subscriptions i with cursor := cursor },[])
  | ended {reason cursor : ℕ} (h : s.Active i) (hsent : (s.subscriptions i).paused ≠ pausedSent)
      (hwhy : EndedBy r s i reason) :
      VisitEffect r s i now
        (s.setSub i { s.subscriptions i with cursor := cursor, pending := false, paused := pausedSent },
          resyncBytes (s.subscriptions i) reason now)
  | delivered {c : CacheChange} {cursor : ℕ} (h : s.Delivering i)
      (hnext : cacheNext r (s.subscriptions i).handle (s.subscriptions i).generation
        (s.subscriptions i).cursor = (.change c,cursor))
      (hrevision : c.revision = ((s.subscriptions i).revision + 1) % 2^64) :
      VisitEffect r s i now
        (s.setSub i { s.subscriptions i with cursor := cursor, revision := c.revision },
          changeBytes (s.subscriptions i) c)

theorem visit_effect (r : CacheRegistry) (s : CacheSession) {i : ℕ} (hi : i < cacheSubscriptions)
    (now : UInt64) : VisitEffect r s i now (visit r s i now) := by
  unfold visit
  dsimp only
  split
  · rename_i h
    exact .passed (h.imp_right Or.inl)
  · rename_i hlive
    push Not at hlive
    split
    · rename_i hpaused
      exact .ended ⟨hi,hlive.1⟩ hlive.2 (.paused hpaused)
    · rename_i hpaused
      have hpaused := not_not.mp hpaused
      split
      · rename_i hpending
        exact .passed (Or.inr (Or.inr ⟨hpending,hpaused⟩))
      · rename_i hpending
        have hd : s.Delivering i := ⟨⟨hi,hlive.1⟩,by simpa using hpending,hpaused⟩
        split
        · exact .drained hd (by assumption)
        · exact .ended hd.active hlive.2 (.journal hd (by assumption))
        · rename_i hnext
          split
          · rename_i hrevision
            exact .ended hd.active hlive.2 (.gap hd hnext hrevision)
          · rename_i hrevision
            exact .delivered hd hnext (not_not.mp hrevision)

/-- The round-robin counter moves on by one visit. -/
def CacheSession.turn (s : CacheSession) : CacheSession :=
  { s with roundRobin := (s.roundRobin + 1) % 2^16 }

theorem eventLoop_silent {r : CacheRegistry} {now : UInt64} {s : CacheSession} (left : ℕ)
    (h : (visit r s.turn (s.roundRobin % cacheSubscriptions) now).2 = []) :
    eventLoop r now (left + 1) s =
      eventLoop r now left (visit r s.turn (s.roundRobin % cacheSubscriptions) now).1 := if_pos h

theorem eventLoop_speaks {r : CacheRegistry} {now : UInt64} {s : CacheSession} (left : ℕ)
    (h : (visit r s.turn (s.roundRobin % cacheSubscriptions) now).2 ≠ []) :
    eventLoop r now (left + 1) s = visit r s.turn (s.roundRobin % cacheSubscriptions) now := if_neg h

/-- The rule for the poll loop: `P` holds between silent visits, `Q` of the outcome. -/
theorem eventLoop_rule {r : CacheRegistry} {now : UInt64} {P : CacheSession → Prop}
    {Q : CacheSession × Bytes → Prop}
    (hvisit : ∀ s, P s → let out := visit r s.turn (s.roundRobin % cacheSubscriptions) now
      (out.2 = [] → P out.1) ∧ (out.2 ≠ [] → Q out))
    (hend : ∀ s, P s → Q (s,[])) (left : ℕ) {s : CacheSession} (hs : P s) :
    Q (eventLoop r now left s) := by
  induction left generalizing s with
  | zero => exact hend s hs
  | succ left ih =>
    have h := hvisit s hs
    by_cases hsilent : (visit r s.turn (s.roundRobin % cacheSubscriptions) now).2 = []
    · rw [eventLoop_silent left hsilent]
      exact ih (h.1 hsilent)
    · rw [eventLoop_speaks left hsilent]
      exact h.2 hsilent

end Bvstk.Dcp2
