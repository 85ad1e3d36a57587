import Bvstk.Dcp2.CacheSystem
import Mathlib.Data.List.Induction

/-! # Every subscription makes progress

A pending subscription can be paged by its token until the snapshot expires; an
expired one gets its RESYNC after at most eight polls, whatever else happens.
-/
namespace Bvstk.Dcp2
open Wire Cache Machine

/-! ## Paging by token -/

/-- A GET with a token goes straight to the page of the live snapshot. -/
theorem cacheRequest_page (r : CacheRegistry) (s : CacheSession) {bus name : Name} {token first : ℕ}
    (hbus : nameValid bus = true) (hname : nameValid name = true) (htoken : token ≠ 0)
    (hlt : token < 2^32) (hfirst : first < 2^16) (now : UInt64) (capacity : ℕ) :
    cacheRequest r s opCacheGet (pageRequest bus name token first) now capacity =
      pageByToken (expire s now) bus name token first now capacity := by
  have htail : readBE ((beBytes 4 token ++ beBytes 2 first).take 4) = token ∧
      readBE ((beBytes 4 token ++ beBytes 2 first).drop 4) = first := by
    rw [List.take_left' (beBytes_length 4 token), List.drop_left' (beBytes_length 4 token)]
    exact ⟨readBE_beBytes (hlt.trans_le (by decide)),readBE_beBytes (hfirst.trans_le (by decide))⟩
  have hlen : (beBytes 4 token ++ beBytes 2 first).length = 6 := by simp
  have hsplit : pageRequest bus name token first = cacheVersion :: (UInt8.ofNat bus.length :: bus ++
      (UInt8.ofNat name.length :: name ++ (beBytes 4 token ++ beBytes 2 first))) := by
    simp [pageRequest, subscribeRequest]
  rw [hsplit]
  unfold cacheRequest
  simp only [readName_encode hbus, readName_encode hname, htail.1, htail.2, hlen, htoken, opCacheGet,
    opCacheUnsubscribe, ne_eq, not_true_eq_false, false_and, ↓reduceIte, not_false_eq_true]
  rfl

/-- While the token lives, every page in range is served to a request with room for an entry. -/
theorem CacheSystem.Sound.serves {y : CacheSystem} (h : y.Sound) (hlive : y.session.snapshotId ≠ 0)
    {now : UInt64} (hnow : y.session.overdue now = false) {first capacity : ℕ}
    (hfirst : first ≤ y.session.snapshot.count) (hcap : cachePageHeader + cacheNameMax - 1 + 20 ≤ capacity) :
    ∃ taken, Paged y.session first capacity taken ∧
      (y.step (.request opCacheGet (pageRequest y.session.snapshot.subsystem y.session.snapshot.device
        y.session.snapshotId first) now capacity)).2 = .reply statusOk (pageBytes y.session first taken) := by
  obtain ⟨hvalid,-,-⟩ := h.session.snapshot hlive
  have hcount : y.session.snapshot.count ≤ 256 := hvalid.count
  have hexpire : expire y.session now = y.session := by simp [expire, hnow]
  obtain ⟨taken,hpage,hserved⟩ := page_ok hvalid hfirst hcap
  have hreq := cacheRequest_page y.registry y.session hvalid.subsystem hvalid.device hlive h.session.token
    (show first < 2^16 by omega) now capacity
  simp only [hexpire, pageByToken, ne_eq, not_true_eq_false, or_self, ↓reduceIte, hserved] at hreq
  exact ⟨taken,hpage,congrArg (fun out : ℕ × CacheSession × Bytes => CacheAnswer.reply out.1 out.2.2) hreq⟩

/-- The next page of a subscription's snapshot is served. -/
structure CacheSystem.Pageable (y : CacheSystem) (i : ℕ) (now : UInt64) : Prop where
  waiting : (y.session.subscriptions i).pending = true ∧ (y.session.subscriptions i).paused = 0
  served : ∀ capacity, cachePageHeader + cacheNameMax - 1 + 20 ≤ capacity →
    ∃ bytes pg, (y.step (.request opCacheGet (pageRequest y.session.snapshot.subsystem
        y.session.snapshot.device y.session.snapshotId y.session.snapshotProgress) now capacity)).2 =
      .reply statusOk bytes ∧ decodePage bytes = some pg ∧ pg.sub = (y.session.subscriptions i).id ∧
      pg.first = y.session.snapshotProgress

theorem CacheSystem.Sound.pageable {y : CacheSystem} (h : y.Sound) {i : ℕ} (hi : y.session.Active i)
    (hp : (y.session.subscriptions i).pending = true) (h0 : (y.session.subscriptions i).paused = 0)
    {now : UInt64} (hnow : y.session.overdue now = false) : y.Pageable i now := by
  refine ⟨⟨hp,h0⟩,?_⟩
  intro capacity hcap
  obtain ⟨hown,hlive⟩ := ((h.session.subs i hi).owner hp).mp h0
  obtain ⟨taken,hpage,hanswer⟩ := h.serves hlive hnow (h.session.progress hlive) hcap
  exact ⟨_,_,hanswer,h.session.decode_page hlive hpage,hown,rfl⟩

/-! ## The round robin -/

/-- How many slots are visited before slot `i`. -/
def CacheSession.turns (s : CacheSession) (i : ℕ) : ℕ :=
  (i + cacheSubscriptions - s.roundRobin % cacheSubscriptions) % cacheSubscriptions

theorem turns_lt (s : CacheSession) (i : ℕ) : s.turns i < cacheSubscriptions :=
  Nat.mod_lt _ (by decide)

/-- The counter wraps at a multiple of the number of slots, so no slot is skipped. -/
theorem turn_turns {s : CacheSession} {i : ℕ} (hi : i < cacheSubscriptions)
    (hother : s.roundRobin % cacheSubscriptions ≠ i) : s.turn.turns i + 1 = s.turns i := by
  simp only [CacheSession.turns, CacheSession.turn, cacheSubscriptions] at *
  omega

theorem VisitEffect.frame {r : CacheRegistry} {s : CacheSession} {i : ℕ} {now : UInt64}
    {out : CacheSession × Bytes} (h : VisitEffect r s i now out) :
    out.1.roundRobin = s.roundRobin ∧ ∀ j, j ≠ i → out.1.subscriptions j = s.subscriptions j := by
  cases h with
  | passed => exact ⟨rfl,fun _ _ => rfl⟩
  | drained => exact ⟨rfl,fun _ hj => setSub_of_ne s _ hj⟩
  | ended => exact ⟨rfl,fun _ hj => setSub_of_ne s _ hj⟩
  | delivered => exact ⟨rfl,fun _ hj => setSub_of_ne s _ hj⟩

/-! ## One slot across requests and polls -/

/-- A subscription as it was, or no longer waiting for pages. -/
def CacheSubscription.Kept (sub sub' : CacheSubscription) : Prop :=
  sub' = sub ∨ sub' = { sub with pending := false }

theorem CacheSubscription.Kept.id_eq {sub sub' : CacheSubscription} (h : sub.Kept sub') : sub'.id = sub.id := by
  rcases h with rfl | rfl <;> rfl

section
variable {s : CacheSession} {i : ℕ}

theorem advance_slot (s : CacheSession) (first count i : ℕ) :
    (s.subscriptions i).Kept ((s.advance first count).subscriptions i) := by
  rw [advance_eq]
  dsimp only
  split
  · exact Or.inr rfl
  · exact Or.inl rfl

theorem advance_roundRobin (s : CacheSession) (first count : ℕ) :
    (s.advance first count).roundRobin = s.roundRobin := by
  rw [advance_eq]

theorem expire_slot (s : CacheSession) (now : UInt64) (i : ℕ) :
    (expire s now).subscriptions i = s.subscriptions i ∨ (s.subscriptions i).pending = true ∧
      (expire s now).subscriptions i = { s.subscriptions i with paused := reasonExpired } := by
  unfold expire
  split
  · rw [pauseOwner_eq]
    dsimp only
    split
    · rename_i hown
      exact Or.inr ⟨hown.2,rfl⟩
    · exact Or.inl rfl
  · exact Or.inl rfl

theorem expire_roundRobin (s : CacheSession) (now : UInt64) : (expire s now).roundRobin = s.roundRobin := by
  unfold expire
  split
  · rw [pauseOwner_eq]
  · rfl

/-- Only its own UNSUBSCRIBE and SUBSCRIBE take a subscription away. -/
theorem RequestEffect.slot {r : CacheRegistry} (hr : r.WellFormed) (hs : s.Sound) (hi : s.Active i)
    {opcode : ℕ} {body : Bytes} {now : UInt64} {capacity : ℕ} {out : ℕ × CacheSession × Bytes}
    (hout : RequestEffect r s opcode body now capacity out) :
    Ends (s.subscriptions i).id (.request opcode body now capacity) (.reply out.1 out.2.2) ∨
      Restarts (s.subscriptions i).id (.request opcode body now capacity) (.reply out.1 out.2.2) ∨
      (s.subscriptions i).Kept (out.2.1.subscriptions i) := by
  cases hout with
  | refused => exact Or.inr (Or.inr (Or.inl rfl))
  | @released tag j hop hbody hj =>
    by_cases hij : i = j
    · subst hij
      have hid := (subscription_eq_some hj).2
      exact Or.inl ⟨tag,now,capacity,[],by rw [hop, hbody],rfl,hid.symm⟩
    · exact Or.inr (Or.inr (Or.inl (Function.update_of_ne hij _ _)))
  | paged hop hbody hlive hpage => exact Or.inr (Or.inr (advance_slot s _ _ i))
  | dropped => exact Or.inr (Or.inr (Or.inl rfl))
  | @got bus name v handle cursor taken hop hbody hfree hsnap hpage =>
    exact Or.inr (Or.inr (advance_slot ((s.freeze v).start now) _ _ i))
  | @subscribed bus name v handle cursor j taken hop hbody hfree hsnap hslot hroom hpage =>
    obtain ⟨hv,hhandle⟩ := captured_of_snapshot hr hsnap
    by_cases hij : i = j
    · subst hij
      have hstart : (((s.freeze v).adopt i handle cursor).start now).Sound :=
        hs.subscribe hfree hv hhandle hslot hroom now
      have hid : s.subId i = (s.subscriptions i).id := if_neg hi.2
      exact Or.inr (Or.inl ⟨body,now,capacity,_,_,by rw [hop],rfl,
        hstart.decode_page (nextNonzero_ne_zero _) hpage,hid⟩)
    · have hother : (((s.freeze v).adopt j handle cursor).start now).subscriptions i = s.subscriptions i :=
        Function.update_of_ne hij _ _
      have hkept := advance_slot (((s.freeze v).adopt j handle cursor).start now) 0 taken.length i
      rw [hother] at hkept
      exact Or.inr (Or.inr hkept)

theorem RequestEffect.roundRobin {r : CacheRegistry} {opcode : ℕ} {body : Bytes} {now : UInt64} {capacity : ℕ}
    {out : ℕ × CacheSession × Bytes} (h : RequestEffect r s opcode body now capacity out) :
    out.2.1.roundRobin = s.roundRobin := by
  cases h with
  | refused => rfl
  | released => rfl
  | paged => exact advance_roundRobin s _ _
  | dropped => rfl
  | got => exact advance_roundRobin _ _ _
  | subscribed => exact advance_roundRobin _ _ _

/-- A poll that gets to slot `i` says what that slot has to say; any other brings its turn nearer. -/
theorem eventLoop_reaches {r : CacheRegistry} {now : UInt64} {said : Bytes} (hsaid : said ≠ [])
    {sub : CacheSubscription} (hvisit : ∀ s : CacheSession, s.subscriptions i = sub → (visit r s i now).2 = said)
    (hi : i < cacheSubscriptions) (left : ℕ) (hsub : s.subscriptions i = sub) (hleft : s.turns i < left) :
    (eventLoop r now left s).2 = said ∨
      (eventLoop r now left s).1.subscriptions i = sub ∧ (eventLoop r now left s).1.turns i < s.turns i := by
  induction left generalizing s with
  | zero => exact absurd hleft (Nat.not_lt_zero _)
  | succ left ih =>
    by_cases hturn : s.roundRobin % cacheSubscriptions = i
    · have hsays := hvisit s.turn hsub
      have hspeaks : (visit r s.turn (s.roundRobin % cacheSubscriptions) now).2 ≠ [] := by
        rw [hturn, hsays]
        exact hsaid
      rw [eventLoop_speaks left hspeaks, hturn]
      exact Or.inl hsays
    · obtain ⟨hrr,hframe⟩ := (visit_effect r s.turn (Nat.mod_lt s.roundRobin (by decide)) now).frame
      have hsame : (visit r s.turn (s.roundRobin % cacheSubscriptions) now).1.subscriptions i = sub :=
        (hframe i (Ne.symm hturn)).trans hsub
      have hnear : (visit r s.turn (s.roundRobin % cacheSubscriptions) now).1.turns i + 1 = s.turns i := by
        rw [← turn_turns hi hturn]
        simp only [CacheSession.turns, hrr]
      by_cases hsilent : (visit r s.turn (s.roundRobin % cacheSubscriptions) now).2 = []
      · rw [eventLoop_silent left hsilent]
        rcases ih hsame (by omega) with hdone | ⟨hkeep,hlt⟩
        · exact Or.inl hdone
        · exact Or.inr ⟨hkeep,by omega⟩
      · rw [eventLoop_speaks left hsilent]
        exact Or.inr ⟨hsame,by omega⟩

theorem CacheSession.Sound.resyncs (hs : s.Sound) (hi : s.Active i) (reason : ℕ) (now : UInt64)
    (capacity : ℕ) :
    Resyncs (s.subscriptions i).id (.event now capacity)
      (.event (resyncBytes (s.subscriptions i) reason now)) := by
  have hsub := hs.subs i hi
  exact ⟨now,capacity,_,_,rfl,rfl,decodeEvent_resyncBytes
    ((hsub.issued.trans_lt hs.nextSub).trans_le (by decide)) (hsub.generation.trans_le (by decide))
    (hsub.revision.trans_le (by decide)) reason now,rfl,rfl⟩

end

/-- The RESYNC of `id` was sent, or its client unsubscribed or subscribed anew. -/
def Settles (id : ℕ) (op : CacheOp) (answer : CacheAnswer) : Prop :=
  Resyncs id op answer ∨ Ends id op answer ∨ Restarts id op answer

/-- A reason to send a RESYNC: the next visit sends it, and requests and expiry do not take it away. -/
structure Owing (W : CacheRegistry → CacheSubscription → Prop) : Prop where
  said : ∀ r (s : CacheSession) i now, (s.subscriptions i).id ≠ 0 → W r (s.subscriptions i) →
    ∃ reason, (visit r s i now).2 = resyncBytes (s.subscriptions i) reason now
  kept : ∀ r sub sub', CacheSubscription.Kept sub sub' → W r sub → W r sub'
  expired : ∀ r sub, sub.pending = true → W r sub → W r { sub with paused := reasonExpired }

theorem CacheSession.turns_of_roundRobin {s s' : CacheSession} (h : s'.roundRobin = s.roundRobin) (i : ℕ) :
    s'.turns i = s.turns i := by
  simp only [CacheSession.turns, h]

/-- What a visit says only depends on the slot it visits. -/
theorem visit_congr (r : CacheRegistry) {s s' : CacheSession} {i : ℕ}
    (h : s'.subscriptions i = s.subscriptions i) (now : UInt64) : (visit r s' i now).2 = (visit r s i now).2 := by
  simp only [visit, h, resyncSub]
  repeat' split
  all_goals rfl

/-- One step of the wait: the RESYNC comes, or its turn comes nearer with every poll. -/
theorem CacheSystem.Sound.owing_step {W : CacheRegistry → CacheSubscription → Prop} (hW : Owing W)
    {y : CacheSystem} (h : y.Sound) {i : ℕ} (hi : y.session.Active i)
    (hw : W y.registry (y.session.subscriptions i)) (op : CacheOp)
    (hchange : ∀ change, op = .registry change → W (change.run y.registry).2 (y.session.subscriptions i)) :
    Settles (y.session.subscriptions i).id op (y.step op).2 ∨
      (((y.step op).1.session.subscriptions i).id = (y.session.subscriptions i).id ∧
        W (y.step op).1.registry ((y.step op).1.session.subscriptions i)) ∧
      (y.step op).1.session.turns i + (if op.isPoll then 1 else 0) ≤ y.session.turns i := by
  cases op with
  | registry change => exact Or.inr ⟨⟨rfl,hchange change rfl⟩,le_rfl⟩
  | request opcode body now capacity =>
    have hs := h.session.expire now
    have hid := ((expire_sameIds y.session now).2 i).1
    have hexp : W y.registry ((expire y.session now).subscriptions i) := by
      rcases expire_slot y.session now i with hsame | ⟨hp,hsame⟩
      · rwa [hsame]
      · rw [hsame]
        exact hW.expired _ _ hp hw
    have hout := request_effect h.registry y.session opcode body now capacity
    have hslot := hout.slot h.registry hs ⟨hi.1,hid ▸ hi.2⟩
    rw [hid] at hslot
    rcases hslot with hends | hrestarts | hkept
    · exact Or.inl (Or.inr (Or.inl hends))
    · exact Or.inl (Or.inr (Or.inr hrestarts))
    · refine Or.inr ⟨⟨hkept.id_eq.trans hid,hW.kept _ _ _ hkept hexp⟩,le_of_eq ?_⟩
      exact CacheSession.turns_of_roundRobin (hout.roundRobin.trans (expire_roundRobin _ _)) i
  | event now capacity =>
    have hs := h.session.expire now
    have hid := ((expire_sameIds y.session now).2 i).1
    have hi' : (expire y.session now).Active i := ⟨hi.1,hid ▸ hi.2⟩
    have hexp : W y.registry ((expire y.session now).subscriptions i) := by
      rcases expire_slot y.session now i with hsame | ⟨hp,hsame⟩
      · rwa [hsame]
      · rw [hsame]
        exact hW.expired _ _ hp hw
    have hturns := CacheSession.turns_of_roundRobin (expire_roundRobin y.session now) i
    by_cases hroom : capacity < cacheEventHeader + cacheNameMax - 1 + 20
    · have hevent : cacheEvent y.registry y.session now capacity = (expire y.session now,[]) := if_pos hroom
      simp only [CacheSystem.step, hevent, CacheOp.isPoll, not_le.mpr hroom, decide_false, Bool.false_eq_true,
        ↓reduceIte, Nat.add_zero]
      exact Or.inr ⟨⟨hid,hexp⟩,hturns.le⟩
    · have hevent : cacheEvent y.registry y.session now capacity =
          eventLoop y.registry now cacheSubscriptions (expire y.session now) := if_neg hroom
      obtain ⟨reason,hsaid⟩ := hW.said y.registry (expire y.session now) i now hi'.2 hexp
      have hne : resyncBytes ((expire y.session now).subscriptions i) reason now ≠ [] := by simp [resyncBytes]
      simp only [CacheSystem.step, hevent, CacheOp.isPoll, not_lt.mp hroom, decide_true, ↓reduceIte]
      rcases eventLoop_reaches hne (fun s' hs' => (visit_congr y.registry hs' now).trans hsaid) hi.1
        cacheSubscriptions rfl (turns_lt _ i) with hdone | ⟨hkeep,hlt⟩
      · have hres := hs.resyncs hi' reason now capacity
        rw [hid] at hres
        exact Or.inl (Or.inl (hdone ▸ hres))
      · refine Or.inr ⟨⟨?_,?_⟩,by omega⟩
        · rw [hkeep, hid]
        · rwa [hkeep]

/-- Subscription `id` in slot `i` is to be told that it has ended. -/
structure CacheSession.Awaiting (s : CacheSession) (i id : ℕ) : Prop where
  active : s.Active i
  named : (s.subscriptions i).id = id
  paused : (s.subscriptions i).paused ≠ 0
  unsent : (s.subscriptions i).paused ≠ pausedSent

theorem paused_owing : Owing fun _ sub => sub.paused ≠ 0 ∧ sub.paused ≠ pausedSent where
  said := by
    intro r s i now hid hw
    exact ⟨(s.subscriptions i).paused,by simp [visit, hid, hw.1, hw.2, resyncSub]⟩
  kept := by
    rintro r sub sub' (rfl | rfl) hw
    · exact hw
    · exact hw
  expired := by
    intro r sub hp hw
    exact (by decide : reasonExpired ≠ 0 ∧ reasonExpired ≠ pausedSent)

/-- Eight polls are enough, whatever is mixed in between. -/
theorem CacheSystem.Sound.awaiting_settles {y : CacheSystem} (h : y.Sound) {i id : ℕ}
    (hw : y.session.Awaiting i id) {ops : List CacheOp}
    (hpolls : cacheSubscriptions ≤ ops.countP CacheOp.isPoll) :
    ∃ p ∈ trace CacheSystem.step y ops, Settles id p.1 p.2 := by
  refine discharged_of_rank (W := fun z : CacheSystem => z.Sound ∧ z.session.Awaiting i id)
    (d := fun z : CacheSystem => z.session.turns i) ?_ ⟨h,hw⟩ ((turns_lt _ i).trans_le hpolls)
  rintro z op ⟨hz,hi,hid,hpaused,hunsent⟩
  have hstep := hz.owing_step paused_owing hi ⟨hpaused,hunsent⟩ op fun _ _ => ⟨hpaused,hunsent⟩
  rw [hid] at hstep
  rcases hstep with hdone | ⟨⟨hnamed,hpaused',hunsent'⟩,hrank⟩
  · exact Or.inl hdone
  · exact Or.inr ⟨⟨hz.step op,⟨hi.1,hnamed ▸ hid ▸ hi.2⟩,hnamed,hpaused',hunsent'⟩,hrank⟩

theorem expire_expire (s : CacheSession) (now : UInt64) : expire (expire s now) now = expire s now := by
  by_cases hover : s.overdue now = true
  · have hid : (expire s now).snapshotId = 0 := by
      rw [expire, if_pos hover]
    have hdone : (expire s now).overdue now ≠ true := by
      simp [CacheSession.overdue, hid]
    exact if_neg hdone
  · have hsame : expire s now = s := if_neg hover
    rw [hsame, hsame]

theorem overdue_awaiting {s : CacheSession} (h : s.Sound) {i : ℕ} (hi : s.Active i)
    (hp : (s.subscriptions i).pending = true) (h0 : (s.subscriptions i).paused = 0) {now : UInt64}
    (hnow : s.overdue now = true) : (expire s now).Awaiting i (s.subscriptions i).id := by
  have hown := h.owner_slot hi (((h.subs i hi).owner hp).mp h0).1
  rw [expire, if_pos hnow, pauseOwner_eq]
  refine ⟨⟨hi.1,?_⟩,?_,?_,?_⟩
  · simpa only [if_pos (And.intro hown hp)] using hi.2
  · simp only [if_pos (And.intro hown hp)]
  · simp only [if_pos (And.intro hown hp)]
    decide
  · simp only [if_pos (And.intro hown hp)]
    decide

/-- From the poll at `now` on, the RESYNC of slot `i` takes at most eight polls. -/
def CacheSystem.ResyncDue (y : CacheSystem) (i : ℕ) (now : UInt64) : Prop :=
  ∀ capacity ops, cacheSubscriptions ≤ (CacheOp.event now capacity :: ops).countP CacheOp.isPoll →
    ∃ p ∈ trace CacheSystem.step y (.event now capacity :: ops),
      Settles (y.session.subscriptions i).id p.1 p.2

theorem CacheSystem.Sound.overdue_resyncs {y : CacheSystem} (h : y.Sound) {i : ℕ}
    (hi : y.session.Active i) (hp : (y.session.subscriptions i).pending = true)
    (h0 : (y.session.subscriptions i).paused = 0) {now : UInt64} (hnow : y.session.overdue now = true) :
    y.ResyncDue i now := by
  intro capacity ops hpolls
  let z : CacheSystem := { y with session := expire y.session now }
  have hz : z.Sound := ⟨h.registry,h.session.expire now⟩
  have hw : z.session.Awaiting i (y.session.subscriptions i).id := overdue_awaiting h.session hi hp h0 hnow
  have hstep : z.step (.event now capacity) = y.step (.event now capacity) := by
    simp only [CacheSystem.step, cacheEvent, z, expire_expire]
  have htrace : trace CacheSystem.step z (.event now capacity :: ops) =
      trace CacheSystem.step y (.event now capacity :: ops) := by
    simp only [trace_cons, hstep]
  obtain ⟨p,hp,hdone⟩ := hz.awaiting_settles hw hpolls
  exact ⟨p,htrace ▸ hp,hdone⟩

/-! ## The RESYNC has been sent -/

/-- The last thing a client was told about `id` is that it has ended. -/
def AlreadySent (id : ℕ) (exchanges : List (CacheOp × CacheAnswer)) : Prop :=
  ∃ before p after, exchanges = before ++ p :: after ∧ Resyncs id p.1 p.2 ∧
    ∀ q ∈ after, ¬Restarts id q.1 q.2

theorem AlreadySent.snoc {id : ℕ} {exchanges : List (CacheOp × CacheAnswer)} (h : AlreadySent id exchanges)
    {q : CacheOp × CacheAnswer} (hq : ¬Restarts id q.1 q.2) : AlreadySent id (exchanges ++ [q]) := by
  obtain ⟨before,p,after,rfl,hp,hafter⟩ := h
  refine ⟨before,p,after ++ [q],by simp,hp,?_⟩
  intro q' hq'
  rcases List.mem_append.mp hq' with h | h
  · exact hafter q' h
  · exact List.mem_singleton.mp h ▸ hq

theorem expire_paused {s : CacheSession} {i : ℕ} {now : UInt64}
    (h : ((expire s now).subscriptions i).paused = pausedSent) : (s.subscriptions i).paused = pausedSent := by
  unfold expire at h
  split at h
  · rw [pauseOwner_eq] at h
    dsimp only at h
    split at h
    · exact absurd h (by decide : reasonExpired ≠ pausedSent)
    · exact h
  · exact h

theorem advance_paused (s : CacheSession) (first count i : ℕ) :
    ((s.advance first count).subscriptions i).paused = (s.subscriptions i).paused := by
  rw [advance_eq]
  dsimp only
  split <;> rfl

/-- A restart puts its subscription into some slot, running. -/
theorem CacheSession.Sound.restarts_slot {r : CacheRegistry} (hr : r.WellFormed) {s : CacheSession} (hs : s.Sound)
    {opcode : ℕ} {body : Bytes} {now : UInt64} {capacity : ℕ} {out : ℕ × CacheSession × Bytes}
    (hout : RequestEffect r s opcode body now capacity out) {id : ℕ}
    (h : Restarts id (.request opcode body now capacity) (.reply out.1 out.2.2)) :
    ∃ j, out.2.1.Active j ∧ (out.2.1.subscriptions j).id = id ∧ (out.2.1.subscriptions j).paused = 0 := by
  obtain ⟨_,_,_,bytes,pg,hop',hanswer,hdecode,hid⟩ := h
  simp only [CacheOp.request.injEq] at hop'
  simp only [CacheAnswer.reply.injEq] at hanswer
  cases hout with
  | refused hstatus => exact absurd hanswer.1 hstatus
  | released hop hbody hi => exact absurd (hop.symm.trans hop'.1) (by decide)
  | paged hop hbody hlive hpage => exact absurd (hop.symm.trans hop'.1) (by decide)
  | dropped => exact absurd hanswer.1 (show statusBusy ≠ statusOk by decide)
  | got hop hbody hfree hsnap hpage => exact absurd (hop.symm.trans hop'.1) (by decide)
  | @subscribed bus name v handle cursor j taken hop hbody hfree hsnap hslot hroom hpage =>
    obtain ⟨hv,hhandle⟩ := captured_of_snapshot hr hsnap
    have hstart : (((s.freeze v).adopt j handle cursor).start now).Sound :=
      hs.subscribe hfree hv hhandle hslot hroom now
    have hpg := hstart.decode_page (nextNonzero_ne_zero _) hpage
    dsimp only at hanswer
    rw [hanswer.2, hdecode, Option.some.injEq] at hpg
    have hself : (((s.freeze v).adopt j handle cursor).start now).subscriptions j =
        ⟨cursor,v.revision,v.generation,s.subId j,handle,true,0⟩ := Function.update_self _ _ _
    have hkeep := ((advance_sameIds (((s.freeze v).adopt j handle cursor).start now) 0 taken.length).2 j).1
    rw [hself] at hkeep
    have hsub : s.subId j = id := by
      rw [← hid, hpg]
      rfl
    refine ⟨j,⟨(subscribeSlot_spec hslot).1,hkeep ▸ subId_ne_zero s j⟩,hkeep.trans hsub,?_⟩
    rw [advance_paused, hself]

/-- No request marks a subscription as ended. -/
theorem RequestEffect.sent_back {r : CacheRegistry} {s : CacheSession} {opcode : ℕ} {body : Bytes}
    {now : UInt64} {capacity : ℕ} {out : ℕ × CacheSession × Bytes}
    (h : RequestEffect r s opcode body now capacity out) {i : ℕ} (hi : out.2.1.Active i)
    (hsent : (out.2.1.subscriptions i).paused = pausedSent) :
    (s.subscriptions i).id = (out.2.1.subscriptions i).id ∧ (s.subscriptions i).paused = pausedSent := by
  cases h with
  | refused => exact ⟨rfl,hsent⟩
  | @released tag j hop hbody hj =>
    have hij : i ≠ j := by
      rintro rfl
      exact hi.2 (by simp [CacheSession.release, CacheSubscription.zero])
    have hsame : (s.release j).subscriptions i = s.subscriptions i := Function.update_of_ne hij _ _
    exact ⟨congrArg _ hsame.symm,hsame ▸ hsent⟩
  | paged hop hbody hlive hpage =>
    exact ⟨((advance_sameIds s _ _).2 i).1.symm,(advance_paused s _ _ i).symm.trans hsent⟩
  | dropped => exact ⟨rfl,hsent⟩
  | @got bus name v handle cursor taken hop hbody hfree hsnap hpage =>
    have hkeep := advance_sameIds ((s.freeze v).start now) 0 taken.length
    exact ⟨(hkeep.2 i).1.symm,(advance_paused ((s.freeze v).start now) 0 taken.length i).symm.trans hsent⟩
  | @subscribed bus name v handle cursor j taken hop hbody hfree hsnap hslot hroom hpage =>
    have hkeep := (advance_sameIds (((s.freeze v).adopt j handle cursor).start now) 0 taken.length).2 i
    have hpaused := (advance_paused (((s.freeze v).adopt j handle cursor).start now) 0 taken.length i).symm.trans
      hsent
    by_cases hij : i = j
    · subst hij
      have hself : (((s.freeze v).adopt i handle cursor).start now).subscriptions i =
          ⟨cursor,v.revision,v.generation,s.subId i,handle,true,0⟩ := Function.update_self _ _ _
      rw [hself] at hpaused
      exact absurd hpaused (show 0 ≠ pausedSent by decide)
    · have hsame : (((s.freeze v).adopt j handle cursor).start now).subscriptions i = s.subscriptions i :=
        Function.update_of_ne hij _ _
      rw [hsame] at hkeep hpaused
      exact ⟨hkeep.1.symm,hpaused⟩

theorem CacheSession.Sound.visit_sent {s : CacheSession} (h : s.Sound) {r : CacheRegistry} {k i : ℕ}
    {now : UInt64} {out : CacheSession × Bytes} (hout : VisitEffect r s k now out)
    (hsent : (out.1.subscriptions i).paused = pausedSent) :
    (s.subscriptions i).paused = pausedSent ∨ out.2 ≠ [] ∧
      ∀ capacity, Resyncs (out.1.subscriptions i).id (.event now capacity) (.event out.2) := by
  have hids := hout.sameIds.2 i
  have hframe := hout.frame.2 i
  by_cases hik : i = k
  · subst hik
    cases hout with
    | passed => exact Or.inl hsent
    | drained hd => exact Or.inl (by simpa using hsent)
    | delivered hd => exact Or.inl (by simpa using hsent)
    | ended ha =>
      rw [hids.1]
      exact Or.inr ⟨by simp [resyncBytes],fun capacity => h.resyncs ha _ now capacity⟩
  · rw [hframe hik] at hsent
    exact Or.inl hsent

/-- A poll marks a subscription as ended by sending its RESYNC. -/
theorem CacheSession.Sound.event_sent {s : CacheSession} (h : s.Sound) (r : CacheRegistry) (now : UInt64)
    (capacity : ℕ) {i : ℕ} (hi : (cacheEvent r s now capacity).1.Active i)
    (hsent : ((cacheEvent r s now capacity).1.subscriptions i).paused = pausedSent) :
    (s.subscriptions i).paused = pausedSent ∨
      Resyncs ((cacheEvent r s now capacity).1.subscriptions i).id (.event now capacity)
        (.event (cacheEvent r s now capacity).2) := by
  unfold cacheEvent at hi hsent ⊢
  dsimp only at hi hsent ⊢
  split at hi <;> rename_i hroom
  · rw [if_pos hroom] at hsent
    exact Or.inl (expire_paused hsent)
  · rw [if_neg hroom] at hsent ⊢
    refine eventLoop_rule (r := r)
      (P := fun s' => s'.Sound ∧ ((s'.subscriptions i).paused = pausedSent → (s.subscriptions i).paused = pausedSent))
      (Q := fun out => out.1.Active i → (out.1.subscriptions i).paused = pausedSent →
        (s.subscriptions i).paused = pausedSent ∨ Resyncs (out.1.subscriptions i).id (.event now capacity) (.event out.2))
      ?_ ?_ _ ⟨h.expire now,expire_paused⟩ hi hsent
    · intro s' hs
      have hout := visit_effect r s'.turn (Nat.mod_lt s'.roundRobin (by decide)) now
      refine ⟨fun hsilent => ⟨hs.1.turn.visit hout,fun hsent => ?_⟩,fun _ _ hsent => ?_⟩
      · rcases hs.1.turn.visit_sent hout hsent with hold | ⟨hspeaks,-⟩
        · exact hs.2 hold
        · exact absurd hsilent hspeaks
      · rcases hs.1.turn.visit_sent hout hsent with hold | ⟨-,hres⟩
        · exact Or.inl (hs.2 hold)
        · exact Or.inr (hres capacity)
    · exact fun s' hs _ hsent => Or.inl (hs.2 hsent)

/-- A subscription is marked as ended only by sending its RESYNC. -/
theorem CacheSystem.Sound.sent_step {y : CacheSystem} (h : y.Sound) (op : CacheOp) {i : ℕ}
    (hi : (y.step op).1.session.Active i)
    (hsent : ((y.step op).1.session.subscriptions i).paused = pausedSent) :
    Resyncs ((y.step op).1.session.subscriptions i).id op (y.step op).2 ∨
      ((y.session.subscriptions i).id = ((y.step op).1.session.subscriptions i).id ∧
        (y.session.subscriptions i).paused = pausedSent) ∧
      ¬Restarts ((y.step op).1.session.subscriptions i).id op (y.step op).2 := by
  cases op with
  | registry op =>
    refine Or.inr ⟨⟨rfl,hsent⟩,?_⟩
    rintro ⟨_,_,_,_,_,hop,-⟩
    exact CacheOp.noConfusion hop
  | request opcode body now capacity =>
    have hs := h.session.expire now
    have hout := request_effect h.registry y.session opcode body now capacity
    have hnext := hs.request h.registry hout
    refine Or.inr ⟨?_,?_⟩
    · have hback : ((expire y.session now).subscriptions i).id =
            ((y.step (.request opcode body now capacity)).1.session.subscriptions i).id ∧
          ((expire y.session now).subscriptions i).paused = pausedSent := hout.sent_back hi hsent
      exact ⟨((expire_sameIds y.session now).2 i).1.symm.trans hback.1,expire_paused hback.2⟩
    · intro hrestarts
      obtain ⟨j,hj,hid,h0⟩ := hs.restarts_slot h.registry hout hrestarts
      have hij := hnext.ids j i hj hi hid
      subst hij
      exact absurd (h0.symm.trans hsent) (by decide)
  | event now capacity =>
    rcases h.session.event_sent y.registry now capacity hi hsent with hold | hres
    · refine Or.inr ⟨⟨((event_sameIds y.registry y.session now capacity).2 i).1.symm,hold⟩,?_⟩
      rintro ⟨_,_,_,_,_,hop,-⟩
      exact CacheOp.noConfusion hop
    · exact Or.inl hres

theorem cacheSystem_alreadySent (ops : List CacheOp) {i : ℕ}
    (hi : (final CacheSystem.step cacheSystemInit ops).session.Active i)
    (hsent : ((final CacheSystem.step cacheSystemInit ops).session.subscriptions i).paused = pausedSent) :
    AlreadySent ((final CacheSystem.step cacheSystemInit ops).session.subscriptions i).id
      (trace CacheSystem.step cacheSystemInit ops) := by
  induction ops using List.reverseRecOn with
  | nil => exact absurd rfl hi.2
  | append_singleton ops op ih =>
    have hsound := cacheSystem_sound ops
    simp only [final_append, final_cons, final_nil] at hi hsent ⊢
    rw [trace_append]
    rcases hsound.sent_step op hi hsent with hres | ⟨⟨hid,hold⟩,hnot⟩
    · exact ⟨_,_,[],rfl,hres,fun _ h => absurd h List.not_mem_nil⟩
    · have hi' : (final CacheSystem.step cacheSystemInit ops).session.Active i := ⟨hi.1,hid ▸ hi.2⟩
      exact (hid ▸ ih hi' hold).snoc hnot

/-! ## The main result -/

/-- Slot `i` is not silently stuck at a time `now`. -/
inductive CacheSystem.Progresses (y : CacheSystem) (exchanges : List (CacheOp × CacheAnswer)) (i : ℕ)
    (now : UInt64) : Prop where
  | delivering (h : y.session.Delivering i)
  | pageable (h : y.Pageable i now)
  | due (h : y.ResyncDue i now)
  | sent (h : AlreadySent (y.session.subscriptions i).id exchanges)

theorem progresses (ops : List CacheOp) {i : ℕ}
    (hi : (final CacheSystem.step cacheSystemInit ops).session.Active i) (now : UInt64) :
    (final CacheSystem.step cacheSystemInit ops).Progresses (trace CacheSystem.step cacheSystemInit ops) i now := by
  have h := cacheSystem_sound ops
  by_cases hsent : ((final CacheSystem.step cacheSystemInit ops).session.subscriptions i).paused = pausedSent
  · exact .sent (cacheSystem_alreadySent ops hi hsent)
  · by_cases h0 : ((final CacheSystem.step cacheSystemInit ops).session.subscriptions i).paused = 0
    · cases hp : ((final CacheSystem.step cacheSystemInit ops).session.subscriptions i).pending with
      | false => exact .delivering ⟨hi,hp,h0⟩
      | true =>
        cases hnow : (final CacheSystem.step cacheSystemInit ops).session.overdue now with
        | false => exact .pageable (h.pageable hi hp h0 hnow)
        | true => exact .due (h.overdue_resyncs hi hp h0 hnow)
    · exact .due fun capacity more hpolls => h.awaiting_settles ⟨hi,rfl,h0,hsent⟩ hpolls

/-- Some slot has subscription `id`. -/
def CacheSession.Has (s : CacheSession) (id : ℕ) : Prop := ∃ i, s.Active i ∧ (s.subscriptions i).id = id

/-- An identifier that is still there is the same subscription; one that has gone stays away. -/
theorem CacheSystem.Sound.never_reused {y : CacheSystem} (h : y.Sound) {id : ℕ} (hissued : id ≤ y.session.nextSub)
    (hgone : ¬y.session.Has id) (more : List CacheOp) :
    ¬(final CacheSystem.step y more).session.Has id := by
  rintro ⟨i,hi,hid⟩
  rcases (h.run more).2.2 i hi with ⟨hsame,-⟩ | hnew
  · exact hgone ⟨i,⟨hi.1,hsame ▸ hi.2⟩,hsame.symm.trans hid⟩
  · exact absurd hissued (not_le.mpr (hid ▸ hnew))

/-- In every reachable state a pending, unpaused subscription owns the live snapshot, so
there is at most one; active identifiers are nonzero, distinct and never reused; handles
are not shared; and no active subscription is stuck. -/
theorem cache_session_invariant (ops : List CacheOp) :
    let y := final CacheSystem.step cacheSystemInit ops
    let s := y.session
    (∀ i, s.Active i → (s.subscriptions i).pending = true → (s.subscriptions i).paused = 0 →
      s.snapshotSub = (s.subscriptions i).id ∧ s.snapshotId ≠ 0) ∧
    (∀ i j, s.Active i → s.Active j →
      (s.subscriptions i).pending = true ∧ (s.subscriptions i).paused = 0 →
      (s.subscriptions j).pending = true ∧ (s.subscriptions j).paused = 0 → i = j) ∧
    (∀ i, s.Active i → 0 < (s.subscriptions i).id ∧ (s.subscriptions i).id < 2^16) ∧
    (∀ i j, s.Active i → s.Active j → (s.subscriptions i).id = (s.subscriptions j).id → i = j) ∧
    (∀ i j, s.Active i → s.Active j → (s.subscriptions i).handle = (s.subscriptions j).handle → i = j) ∧
    (∀ id, s.Has id → ∀ more, ¬(final CacheSystem.step y more).session.Has id →
      ∀ more', ¬(final CacheSystem.step y (more ++ more')).session.Has id) ∧
    (∀ i, s.Active i → ∀ now,
      y.Progresses (trace CacheSystem.step cacheSystemInit ops) i now) := by
  have h := cacheSystem_sound ops
  refine ⟨?_,?_,?_,h.session.ids,h.session.handles,?_,fun i hi now => progresses ops hi now⟩
  · intro i hi hp h0
    exact ((h.session.subs i hi).owner hp).mp h0
  · rintro i j hi hj ⟨hpi,h0i⟩ ⟨hpj,h0j⟩
    have howni := ((h.session.subs i hi).owner hpi).mp h0i
    have hownj := ((h.session.subs j hj).owner hpj).mp h0j
    exact h.session.ids i j hi hj (howni.1.symm.trans hownj.1)
  · intro i hi
    exact ⟨Nat.pos_of_ne_zero hi.2,(h.session.subs i hi).issued.trans_lt h.session.nextSub⟩
  · rintro id ⟨i,hi,hid⟩ more hgone more'
    have hissued := hid ▸ (h.session.subs i hi).issued
    rw [final_append]
    exact (h.run more).1.never_reused (hissued.trans (h.run more).2.1) hgone more'

end Bvstk.Dcp2
