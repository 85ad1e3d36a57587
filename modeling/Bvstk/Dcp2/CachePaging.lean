import Bvstk.Dcp2.CacheProgress

/-! # Snapshot paging is exact

Between one capture and the next, every page served shows the device as it was
frozen; following `next` from the first page enumerates it; and the owner goes
live only once such a walk has been delivered to the end.
-/
namespace Bvstk.Dcp2
open Wire Cache Machine

/-! ## Walks over pages -/

/-- A page of the frozen device `v`, served under the given owner and token. -/
structure ExactPage (v : CacheSnapshot) (sub token : ℕ) (pg : CachePage) : Prop where
  sub : pg.sub = sub
  token : pg.token = token
  generation : pg.generation = v.generation
  revision : pg.revision = v.revision
  capturedMs : pg.capturedMs = v.capturedMs.toNat
  presence : pg.presence = v.presence
  total : pg.total = v.count
  entries : pg.entries = (v.entries.drop pg.first).take pg.entries.length
  fits : pg.first + pg.entries.length ≤ v.count
  next : pg.next = pageNext v (pg.first + pg.entries.length)
  moves : pg.entries = [] → pg.first = v.count

/-- The pages met by following `next` from entry 0, and where the last one leads. -/
inductive Follows : List CachePage → ℕ → Prop where
  | start {pg : CachePage} (h : pg.first = 0) : Follows [pg] pg.next
  | step {pages : List CachePage} {pg : CachePage} (h : Follows pages pg.first) :
      Follows (pages ++ [pg]) pg.next

/-- What a walk has collected: a prefix of the device that grows with every page, or all of it. -/
theorem Follows.collects {v : CacheSnapshot} (hcount : v.count < 0xFFFF) {sub token : ℕ}
    {pages : List CachePage} {k : ℕ} (h : Follows pages k) (hexact : ∀ pg ∈ pages, ExactPage v sub token pg) :
    k = 0xFFFF ∧ pages.flatMap CachePage.entries = v.entries ∨
      k < v.count ∧ pages.length ≤ k ∧ pages.flatMap CachePage.entries = v.entries.take k := by
  have hstep : ∀ (collected : List CacheEntry) (pages : List CachePage) (pg : CachePage),
      ExactPage v sub token pg → collected = v.entries.take pg.first → pages.length ≤ pg.first →
      pg.next = 0xFFFF ∧ collected ++ pg.entries = v.entries ∨
        pg.next < v.count ∧ pages.length + 1 ≤ pg.next ∧ collected ++ pg.entries = v.entries.take pg.next := by
    intro collected pages pg hpg hcollected hlen
    have happend : collected ++ pg.entries = v.entries.take (pg.first + pg.entries.length) := by
      rw [hcollected, List.take_add, ← hpg.entries]
    have hfits := hpg.fits
    by_cases hdone : pg.first + pg.entries.length = v.count
    · refine Or.inl ⟨hpg.next.trans (if_pos hdone),?_⟩
      rw [happend, hdone]
      exact List.take_length
    · have hnext : pg.next = pg.first + pg.entries.length := hpg.next.trans (if_neg hdone)
      have hne : 0 < pg.entries.length := by
        rw [List.length_pos_iff]
        intro hnil
        exact hdone (by rw [hnil, hpg.moves hnil]; rfl)
      exact Or.inr ⟨by omega,by omega,hnext ▸ happend⟩
  induction h with
  | @start pg hfirst =>
    have h := hstep [] [] pg (hexact pg (by simp)) (by simp [hfirst]) (Nat.zero_le _)
    simpa using h
  | @step pages pg h ih =>
    have hpg := hexact pg (by simp)
    have hfits := hpg.fits
    rcases ih (fun q hq => hexact q (by simp [hq])) with ⟨hk,-⟩ | ⟨hlt,hlen,hcollected⟩
    · omega
    · have h := hstep _ pages pg hpg hcollected hlen
      simpa using h

/-! ## Delivered pages -/

def CacheAnswer.page : CacheAnswer → Option CachePage
  | .reply status bytes => if status = statusOk then decodePage bytes else none
  | _ => none

theorem page_ok_reply (bytes : Bytes) : (CacheAnswer.reply statusOk bytes).page = decodePage bytes := by
  simp only [CacheAnswer.page, ↓reduceIte]

theorem page_refused {status : ℕ} (h : status ≠ statusOk) (bytes : Bytes) :
    (CacheAnswer.reply status bytes).page = none := if_neg h

/-- The pages among some answers, oldest first. -/
def pagesOf (exchanges : List (CacheOp × CacheAnswer)) : List CachePage :=
  exchanges.filterMap fun p => p.2.page

/-- Everything but a request for a new snapshot or the end of a subscription: registry
operations, polls, and requests for pages by token. -/
def CacheOp.Paging : CacheOp → Prop
  | .request opcode body _ _ => opcode = opCacheGet ∧
      ∃ bus name token first, body = pageRequest bus name token first ∧ 0 < token ∧ token < 2^32
  | _ => True

/-- The frozen device and its owner are untouched; the token may have expired. -/
def CacheSession.SameSnapshot (s s' : CacheSession) : Prop :=
  s'.snapshot = s.snapshot ∧ s'.snapshotSub = s.snapshotSub ∧ s'.snapshotProgress = s.snapshotProgress ∧
    (s'.snapshotId = s.snapshotId ∨ s'.snapshotId = 0)

theorem CacheSession.SameSnapshot.trans {s s' s'' : CacheSession} (h : s.SameSnapshot s')
    (h' : s'.SameSnapshot s'') : s.SameSnapshot s'' := by
  refine ⟨h'.1.trans h.1,h'.2.1.trans h.2.1,h'.2.2.1.trans h.2.2.1,?_⟩
  rcases h'.2.2.2 with hid | hid
  · exact h.2.2.2.imp hid.trans hid.trans
  · exact Or.inr hid

theorem expire_sameSnapshot (s : CacheSession) (now : UInt64) : s.SameSnapshot (expire s now) := by
  unfold expire
  split
  · rw [pauseOwner_eq]
    exact ⟨rfl,rfl,rfl,Or.inr rfl⟩
  · exact ⟨rfl,rfl,rfl,Or.inl rfl⟩

theorem expire_pending (s : CacheSession) (now : UInt64) (i : ℕ) :
    ((expire s now).subscriptions i).pending = (s.subscriptions i).pending := by
  unfold expire
  split
  · rw [pauseOwner_eq]
    dsimp only
    split <;> rfl
  · rfl

theorem VisitEffect.sameSnapshot {r : CacheRegistry} {s : CacheSession} {k : ℕ} {now : UInt64}
    {out : CacheSession × Bytes} (h : VisitEffect r s k now out) : s.SameSnapshot out.1 := by
  cases h with
  | passed => exact ⟨rfl,rfl,rfl,Or.inl rfl⟩
  | drained => exact ⟨rfl,rfl,rfl,Or.inl rfl⟩
  | ended => exact ⟨rfl,rfl,rfl,Or.inl rfl⟩
  | delivered => exact ⟨rfl,rfl,rfl,Or.inl rfl⟩

/-- A visit clears the pending flag only by ending the subscription. -/
theorem VisitEffect.pending {r : CacheRegistry} {s : CacheSession} {k : ℕ} {now : UInt64}
    {out : CacheSession × Bytes} (h : VisitEffect r s k now out) (i : ℕ) :
    (out.1.subscriptions i).pending = (s.subscriptions i).pending ∨
      out.2 ≠ [] ∧ (out.1.subscriptions i).paused = pausedSent := by
  by_cases hik : i = k
  · subst hik
    cases h with
    | passed => exact Or.inl rfl
    | drained => exact Or.inl (by simp)
    | ended => exact Or.inr ⟨by simp [resyncBytes],by simp⟩
    | delivered => exact Or.inl (by simp)
  · rw [h.frame.2 i hik]
    exact Or.inl rfl

theorem event_sameSnapshot (r : CacheRegistry) (s : CacheSession) (now : UInt64) (capacity : ℕ) :
    s.SameSnapshot (cacheEvent r s now capacity).1 := by
  unfold cacheEvent
  dsimp only
  split
  · exact expire_sameSnapshot s now
  · refine eventLoop_rule (P := fun s' => s.SameSnapshot s') (Q := fun out => s.SameSnapshot out.1) ?_
      (fun _ hs => hs) _ (expire_sameSnapshot s now)
    intro s' hs out
    have hout := (visit_effect r s'.turn (Nat.mod_lt s'.roundRobin (by decide)) now).sameSnapshot
    have hnext : s.SameSnapshot out.1 := hs.trans hout
    exact ⟨fun _ => hnext,fun _ => hnext⟩

/-- A poll clears the pending flag of a subscription only by sending its RESYNC. -/
theorem CacheSession.Sound.event_pending {s : CacheSession} (h : s.Sound) (r : CacheRegistry) (now : UInt64)
    (capacity : ℕ) {i : ℕ} (hi : s.Active i)
    (hp : ((cacheEvent r s now capacity).1.subscriptions i).pending = false) :
    (s.subscriptions i).pending = false ∨
      Resyncs (s.subscriptions i).id (.event now capacity) (.event (cacheEvent r s now capacity).2) := by
  have hids := (event_sameIds r s now capacity).2 i
  have hflag : ((cacheEvent r s now capacity).1.subscriptions i).pending = (s.subscriptions i).pending ∨
      ((cacheEvent r s now capacity).1.subscriptions i).paused = pausedSent := by
    unfold cacheEvent
    dsimp only
    split
    · exact Or.inl (expire_pending s now i)
    · refine eventLoop_rule (P := fun s' => (s'.subscriptions i).pending = (s.subscriptions i).pending)
        (Q := fun out => (out.1.subscriptions i).pending = (s.subscriptions i).pending ∨
          (out.1.subscriptions i).paused = pausedSent) ?_ (fun _ hs => Or.inl hs) _ (expire_pending s now i)
      intro s' hs out
      rcases (visit_effect r s'.turn (Nat.mod_lt s'.roundRobin (by decide)) now).pending i with
        hsame | ⟨hspeaks,hsent⟩
      · have hkeep := hsame.trans hs
        exact ⟨fun _ => hkeep,fun _ => Or.inl hkeep⟩
      · exact ⟨fun hsilent => absurd hsilent hspeaks,fun _ => Or.inr hsent⟩
  rcases hflag with hsame | hsent
  · exact Or.inl (hsame.symm.trans hp)
  · rcases h.event_sent r now capacity ⟨hi.1,hids.1.symm ▸ hi.2⟩ hsent with hold | hres
    · refine Or.inl (Bool.eq_false_iff.mpr fun hpending => ?_)
      rcases (h.subs i hi).waiting hpending with h0 | h0
      · exact absurd (h0.symm.trans hold) (by decide)
      · exact absurd (h0.symm.trans hold) (by decide)
    · exact Or.inr (hids.1 ▸ hres)

/-! ## The life of one frozen device -/

theorem exactPage_pageOf {s : CacheSession} {first capacity : ℕ} {taken : List CacheEntry}
    (h : Paged s first capacity taken) :
    ExactPage s.snapshot s.snapshotSub s.snapshotId (pageOf s first taken) where
  sub := rfl
  token := rfl
  generation := rfl
  revision := rfl
  capturedMs := rfl
  presence := rfl
  total := rfl
  entries := h.eq_take.1
  fits := h.eq_take.2
  next := rfl
  moves := fun hnil => h.moves (List.length_eq_zero_iff.mpr hnil)

/-- What is known of the frozen device `v` after the given exchanges, from its capture on. -/
structure Frozen (v : CacheSnapshot) (sub token : ℕ) (exchanges : List (CacheOp × CacheAnswer))
    (y : CacheSystem) : Prop where
  sound : y.Sound
  snapshot : y.session.snapshot = v
  owner : y.session.snapshotSub = sub
  live : y.session.snapshotId = token ∨ y.session.snapshotId = 0
  progress : y.session.snapshotProgress ≤ v.count
  exact : ∀ pg ∈ pagesOf exchanges, ExactPage v sub token pg
  walked : ∃ pages, pages.Sublist (pagesOf exchanges) ∧
    Follows pages (pageNext v y.session.snapshotProgress)
  pending : ∀ i, y.session.Active i → (y.session.subscriptions i).id = sub →
    (y.session.subscriptions i).pending = false →
    y.session.snapshotProgress = v.count ∨ ∃ p ∈ exchanges, Resyncs sub p.1 p.2

theorem pagesOf_append (xs ys : List (CacheOp × CacheAnswer)) :
    pagesOf (xs ++ ys) = pagesOf xs ++ pagesOf ys := List.filterMap_append

/-- Keeping the snapshot without serving a page keeps what is known. -/
theorem Frozen.silent {v : CacheSnapshot} {sub token : ℕ} {exchanges exchanges' : List (CacheOp × CacheAnswer)}
    {y z : CacheSystem} (h : Frozen v sub token exchanges y) (hz : z.Sound)
    (hsame : y.session.SameSnapshot z.session) (hpages : pagesOf exchanges' = pagesOf exchanges)
    (hmore : exchanges ⊆ exchanges')
    (hpending : ∀ i, z.session.Active i → (z.session.subscriptions i).id = sub →
      (z.session.subscriptions i).pending = false →
      (y.session.Active i ∧ (y.session.subscriptions i).id = sub ∧
        (y.session.subscriptions i).pending = false) ∨ ∃ p ∈ exchanges', Resyncs sub p.1 p.2) :
    Frozen v sub token exchanges' z := by
  refine ⟨hz,hsame.1.trans h.snapshot,hsame.2.1.trans h.owner,?_,?_,?_,?_,?_⟩
  · rcases hsame.2.2.2 with hid | hid
    · exact h.live.imp hid.trans hid.trans
    · exact Or.inr hid
  · rw [hsame.2.2.1]
    exact h.progress
  · rw [hpages]
    exact h.exact
  · rw [hpages, hsame.2.2.1]
    exact h.walked
  · intro i hi hid hp
    rw [hsame.2.2.1]
    rcases hpending i hi hid hp with ⟨hi',hid',hp'⟩ | hres
    · rcases h.pending i hi' hid' hp' with hdone | ⟨q,hq,hres⟩
      · exact Or.inl hdone
      · exact Or.inr ⟨q,hmore hq,hres⟩
    · exact Or.inr hres

/-- A page served: the walk grows by it when it starts where the walk stands. -/
theorem Frozen.served {v : CacheSnapshot} {sub token : ℕ} {exchanges : List (CacheOp × CacheAnswer)}
    {y z : CacheSystem} (h : Frozen v sub token exchanges y) (hlive : y.session.snapshotId = token)
    {first capacity : ℕ} {taken : List CacheEntry} (hpage : Paged y.session first capacity taken)
    (hz : z.Sound) (activity : UInt64)
    (hsession : z.session = { y.session.advance first taken.length with snapshotActivity := activity })
    {p : CacheOp × CacheAnswer} (hp : p.2.page = some (pageOf y.session first taken)) :
    Frozen v sub token (exchanges ++ [p]) z := by
  have hpages : pagesOf (exchanges ++ [p]) = pagesOf exchanges ++ [pageOf y.session first taken] := by
    simp [pagesOf, hp]
  have hexact : ExactPage v sub token (pageOf y.session first taken) := by
    have hpg := exactPage_pageOf hpage
    rwa [h.snapshot, h.owner, hlive] at hpg
  have hprogress : z.session.snapshotProgress = y.session.progressAfter first taken.length := by
    rw [hsession, advance_eq]
  have hfits : first + taken.length ≤ v.count := h.snapshot ▸ hpage.eq_take.2
  have hsub : ∀ i, z.session.subscriptions i = (y.session.advance first taken.length).subscriptions i := by
    intro i
    rw [hsession]
  refine ⟨hz,?_,?_,?_,?_,?_,?_,?_⟩
  · rw [hsession, advance_eq]
    exact h.snapshot
  · rw [hsession, advance_eq]
    exact h.owner
  · rw [hsession, advance_eq]
    exact h.live
  · rw [hprogress, CacheSession.progressAfter]
    split
    · exact hfits
    · exact h.progress
  · intro pg hpg
    rw [hpages] at hpg
    rcases List.mem_append.mp hpg with hpg | hpg
    · exact h.exact pg hpg
    · exact List.mem_singleton.mp hpg ▸ hexact
  · obtain ⟨pages,hsublist,hwalk⟩ := h.walked
    rw [hpages, hprogress, CacheSession.progressAfter]
    split
    · rename_i hfirst
      by_cases hdone : y.session.snapshotProgress = v.count
      · -- a repeated empty page at the end
        have hzero : first + taken.length = y.session.snapshotProgress := by omega
        rw [hzero]
        exact ⟨pages,hsublist.trans (List.sublist_append_left _ _),hwalk⟩
      · rw [pageNext, if_neg hdone, ← hfirst] at hwalk
        have hnext := @Follows.step _ (pageOf y.session first taken) hwalk
        rw [hexact.next] at hnext
        exact ⟨_,hsublist.append (List.Sublist.refl _),hnext⟩
    · exact ⟨pages,hsublist.trans (List.sublist_append_left _ _),hwalk⟩
  · intro i hi hid hpending
    rw [hprogress]
    have hids := (advance_sameIds y.session first taken.length).2 i
    rw [hsub] at hid hpending
    rw [CacheSession.Active, hsub, hids.1] at hi
    rw [hids.1] at hid
    by_cases hdone : y.session.progressAfter first taken.length = v.count
    · exact Or.inl hdone
    · have hflag : (y.session.subscriptions i).pending = false := by
        rw [advance_eq] at hpending
        dsimp only at hpending
        rwa [if_neg (fun hh => hdone (h.snapshot ▸ hh.2))] at hpending
      rcases h.pending i hi hid hflag with hold | ⟨q,hq,hres⟩
      · refine absurd ?_ hdone
        rw [CacheSession.progressAfter]
        split <;> omega
      · exact Or.inr ⟨q,List.mem_append_left _ hq,hres⟩

theorem pagesOf_snoc_none (exchanges : List (CacheOp × CacheAnswer)) {p : CacheOp × CacheAnswer}
    (hp : p.2.page = none) : pagesOf (exchanges ++ [p]) = pagesOf exchanges := by
  simp [pagesOf, hp]

theorem Frozen.expire {v : CacheSnapshot} {sub token : ℕ} {exchanges : List (CacheOp × CacheAnswer)}
    {y : CacheSystem} (h : Frozen v sub token exchanges y) (now : UInt64) :
    Frozen v sub token exchanges { y with session := expire y.session now } := by
  refine h.silent ⟨h.sound.registry,h.sound.session.expire now⟩ (expire_sameSnapshot _ _) rfl
    (List.Subset.refl _) ?_
  intro i hi hid hp
  have hids := (expire_sameIds y.session now).2 i
  exact Or.inl ⟨⟨hi.1,hids.1 ▸ hi.2⟩,hids.1.symm.trans hid,(expire_pending _ _ i).symm.trans hp⟩

/-- One step between two captures. -/
theorem Frozen.step {v : CacheSnapshot} {sub token : ℕ} {exchanges : List (CacheOp × CacheAnswer)}
    {y : CacheSystem} (h : Frozen v sub token exchanges y) {op : CacheOp} (hop : op.Paging) :
    Frozen v sub token (exchanges ++ [(op,(y.step op).2)]) (y.step op).1 := by
  have hsound := h.sound.step op
  cases op with
  | registry op =>
    exact h.silent hsound ⟨rfl,rfl,rfl,Or.inl rfl⟩ (pagesOf_snoc_none _ rfl) (List.subset_append_left _ _)
      fun i hi hid hp => Or.inl ⟨hi,hid,hp⟩
  | event now capacity =>
    refine h.silent hsound (event_sameSnapshot y.registry y.session now capacity) (pagesOf_snoc_none _ rfl)
      (List.subset_append_left _ _) ?_
    intro i hi hid hp
    have hids := (event_sameIds y.registry y.session now capacity).2 i
    have hi' : y.session.Active i := ⟨hi.1,hids.1 ▸ hi.2⟩
    have hid' : (y.session.subscriptions i).id = sub := hids.1.symm.trans hid
    rcases h.sound.session.event_pending y.registry now capacity hi' hp with hflag | hres
    · exact Or.inl ⟨hi',hid',hflag⟩
    · exact Or.inr ⟨_,List.mem_append_right _ (List.mem_singleton_self _),hid' ▸ hres⟩
  | request opcode body now capacity =>
    obtain ⟨hget,bus,name,t,first,hbody,hpos,hlt⟩ := hop
    have hout := request_effect h.sound.registry y.session opcode body now capacity
    have hy := h.expire now
    dsimp only [CacheSystem.step] at hsound ⊢
    generalize cacheRequest y.registry y.session opcode body now capacity = out at hout hsound ⊢
    cases hout with
    | refused hstatus =>
      exact hy.silent hsound ⟨rfl,rfl,rfl,Or.inl rfl⟩ (pagesOf_snoc_none _ (page_refused hstatus _))
        (List.subset_append_left _ _) fun i hi hid hp => Or.inl ⟨hi,hid,hp⟩
    | released hop' => exact absurd (hop'.symm.trans hget) (by decide)
    | paged hop' hbody' hlive hpage =>
      have hdecode := (page_ok_reply _).trans (hy.sound.session.decode_page hlive hpage)
      exact hy.served (hy.live.resolve_right hlive) hpage hsound now rfl hdecode
    | dropped hop' => exact absurd (hop'.symm.trans hget) (by decide)
    | got hop' hbody' =>
      have htoken := token_of_pageRequest (hbody.symm.trans hbody') hlt (Nat.two_pow_pos 32)
      exact absurd htoken hpos.ne'
    | subscribed hop' => exact absurd (hop'.symm.trans hget) (by decide)

theorem Frozen.run {v : CacheSnapshot} {sub token : ℕ} {exchanges : List (CacheOp × CacheAnswer)}
    {y : CacheSystem} (h : Frozen v sub token exchanges y) {ops : List CacheOp} (hops : ∀ op ∈ ops, op.Paging) :
    Frozen v sub token (exchanges ++ trace CacheSystem.step y ops) (final CacheSystem.step y ops) := by
  induction ops generalizing exchanges y with
  | nil => simpa using h
  | cons op ops ih =>
    have hnext := ih (h.step (hops op List.mem_cons_self)) fun q hq => hops q (List.mem_cons_of_mem _ hq)
    simpa using hnext

/-! ## Captures -/

/-- A request that freezes a device: a SUBSCRIBE, or a GET without a token. -/
def Captures (opcode : ℕ) (body : Bytes) : Prop :=
  opcode = opCacheSubscribe ∨ opcode = opCacheGet ∧ ∃ bus name first, body = pageRequest bus name 0 first

/-- Some slot has subscription `id` for the device behind `handle`. -/
def CacheSession.Subscribed (s : CacheSession) (id handle : ℕ) : Prop :=
  ∃ i, s.Active i ∧ (s.subscriptions i).id = id ∧ (s.subscriptions i).handle = handle

/-- The first page of a new token. -/
theorem frozen_start {s : CacheSession} (hs : s.Sound) (hlive : s.snapshotId ≠ 0)
    (hprogress : s.snapshotProgress = 0) {capacity : ℕ} {taken : List CacheEntry}
    (hpage : Paged s 0 capacity taken)
    (hpending : ∀ i, s.Active i → (s.subscriptions i).id = s.snapshotSub → (s.subscriptions i).pending = true)
    {r : CacheRegistry} (hr : r.WellFormed) (op : CacheOp) :
    Frozen s.snapshot s.snapshotSub s.snapshotId [(op,.reply statusOk (pageBytes s 0 taken))]
      ⟨r,s.advance 0 taken.length⟩ := by
  have hpages : pagesOf [(op,.reply statusOk (pageBytes s 0 taken))] = [pageOf s 0 taken] := by
    simp [pagesOf, page_ok_reply, hs.decode_page hlive hpage]
  have hafter : s.progressAfter 0 taken.length = 0 + taken.length := if_pos hprogress.symm
  have hfits := hpage.eq_take.2
  refine ⟨⟨hr,hs.advance hlive hfits⟩,?_,?_,?_,?_,?_,?_,?_⟩
  · rw [advance_eq]
  · rw [advance_eq]
  · rw [advance_eq]
    exact Or.inl rfl
  · rw [advance_eq]
    exact hafter ▸ hfits
  · intro pg hpg
    rw [hpages] at hpg
    exact List.mem_singleton.mp hpg ▸ exactPage_pageOf hpage
  · refine ⟨[pageOf s 0 taken],hpages ▸ List.Sublist.refl _,?_⟩
    have hwalk := @Follows.start (pageOf s 0 taken) rfl
    rw [advance_eq]
    dsimp only
    rw [hafter]
    exact hwalk
  · intro i hi hid hp
    have hids := (advance_sameIds s 0 taken.length).2 i
    have hold := hpending i ⟨hi.1,hids.1 ▸ hi.2⟩ (hids.1.symm.trans hid)
    rw [advance_eq] at hp ⊢
    dsimp only at hp ⊢
    split at hp
    · rename_i hdone
      exact Or.inl hdone.2
    · exact absurd (hold.symm.trans hp) (by decide)

/-- What an accepted capture starts. -/
theorem CacheSystem.Sound.captured {y : CacheSystem} (h : y.Sound) {opcode : ℕ} {body : Bytes} {now : UInt64}
    {capacity : ℕ} {bytes : Bytes} (hkind : Captures opcode body)
    (hanswer : (y.step (.request opcode body now capacity)).2 = .reply statusOk bytes) :
    ∃ d handle pg, device y.registry handle = some d ∧
      body = (if opcode = opCacheSubscribe then subscribeRequest d.subsystem d.device
        else pageRequest d.subsystem d.device 0 0) ∧
      decodePage bytes = some pg ∧ pg.first = 0 ∧ pg.token ≠ 0 ∧
      (opcode = opCacheSubscribe →
        (y.step (.request opcode body now capacity)).1.session.Subscribed pg.sub handle) ∧
      Frozen { d with capturedMs := now } pg.sub pg.token
        [(.request opcode body now capacity,.reply statusOk bytes)]
        (y.step (.request opcode body now capacity)).1 := by
  have hs := h.session.expire now
  have hout := request_effect h.registry y.session opcode body now capacity
  dsimp only [CacheSystem.step] at hanswer ⊢
  generalize cacheRequest y.registry y.session opcode body now capacity = out at hout hanswer ⊢
  simp only [CacheAnswer.reply.injEq] at hanswer
  have hne : opCacheGet ≠ opCacheSubscribe := by decide
  cases hout with
  | refused hstatus => exact absurd hanswer.1 hstatus
  | released hop =>
    rcases hkind with hk | ⟨hk,-⟩
    · exact absurd (hop.symm.trans hk) (by decide)
    · exact absurd (hop.symm.trans hk) (by decide)
  | paged hop hbody hlive hpage =>
    rcases hkind with hk | ⟨-,bus,name,first,hk⟩
    · exact absurd (hop.symm.trans hk) (by decide)
    · have htoken := token_of_pageRequest (hk.symm.trans hbody) (Nat.two_pow_pos 32) hs.token
      exact absurd htoken.symm hlive
  | dropped => exact absurd hanswer.1 (show statusBusy ≠ statusOk by decide)
  | @got bus name v handle cursor taken hop hbody hfree hsnap hpage =>
    obtain ⟨d,hd,rfl,-,rfl,rfl⟩ := snapshot_spec hsnap
    have hstart := hs.start hfree (captured_of_snapshot h.registry hsnap).1 now
    obtain ⟨-,rfl⟩ := hanswer
    refine ⟨d,handle,_,hd,?_,hstart.decode_page (nextNonzero_ne_zero _) hpage,rfl,nextNonzero_ne_zero _,?_,?_⟩
    · rw [if_neg (hop ▸ hne)]
      exact hbody
    · exact fun hsub => absurd (hop.symm.trans hsub) hne
    · refine frozen_start hstart (nextNonzero_ne_zero _) rfl hpage ?_ h.registry _
      exact fun i hi hid => absurd hid hi.2
  | @subscribed bus name v handle cursor j taken hop hbody hfree hsnap hslot hroom hpage =>
    obtain ⟨hv,hhandle⟩ := captured_of_snapshot h.registry hsnap
    obtain ⟨d,hd,rfl,-,rfl,rfl⟩ := snapshot_spec hsnap
    have hstart : ((((expire y.session now).freeze { d with capturedMs := now }).adopt j handle cursor).start
        now).Sound := hs.subscribe hfree hv hhandle hslot hroom now
    have hself : ((((expire y.session now).freeze { d with capturedMs := now }).adopt j handle cursor).start
        now).subscriptions j = ⟨cursor,d.revision,d.generation,(expire y.session now).subId j,handle,true,0⟩ :=
      Function.update_self _ _ _
    have hactive : ((((expire y.session now).freeze { d with capturedMs := now }).adopt j handle cursor).start
        now).Active j := by
      refine ⟨(subscribeSlot_spec hslot).1,?_⟩
      rw [hself]
      exact subId_ne_zero _ _
    obtain ⟨-,rfl⟩ := hanswer
    refine ⟨d,handle,_,hd,?_,hstart.decode_page (nextNonzero_ne_zero _) hpage,rfl,nextNonzero_ne_zero _,?_,?_⟩
    · rw [if_pos hop]
      exact hbody
    · intro _
      have hids := (advance_sameIds ((((expire y.session now).freeze { d with capturedMs := now }).adopt j handle
        cursor).start now) 0 taken.length).2 j
      rw [hself] at hids
      exact ⟨j,⟨hactive.1,hids.1 ▸ subId_ne_zero _ _⟩,hids.1,hids.2⟩
    · refine frozen_start hstart (nextNonzero_ne_zero _) rfl hpage ?_ h.registry _
      intro i hi hid
      have hij : i = j := hstart.ids i j hi hactive (by rw [hid, hself]; rfl)
      rw [hij, hself]

/-- A page answers the entry that was asked for. -/
theorem CacheSystem.Sound.requested {y : CacheSystem} (h : y.Sound) {bus name : Name} {token first : ℕ}
    {now : UInt64} {capacity : ℕ} (hpos : 0 < token) (hlt : token < 2^32) (hfirst : first < 2^16)
    {pg : CachePage}
    (hpg : (y.step (.request opCacheGet (pageRequest bus name token first) now capacity)).2.page = some pg) :
    pg.first = first := by
  have hs := h.session.expire now
  have hout := request_effect h.registry y.session opCacheGet (pageRequest bus name token first) now capacity
  dsimp only [CacheSystem.step] at hpg
  generalize hbody : pageRequest bus name token first = body at hout hpg
  generalize hget : opCacheGet = opcode at hout hpg
  generalize cacheRequest y.registry y.session opcode body now capacity = out at hout hpg
  cases hout with
  | refused hstatus =>
    rw [page_refused hstatus] at hpg
    contradiction
  | released hop => exact absurd (hget.trans hop) (by decide)
  | @paged first' taken hop hbody' hlive hpage =>
    have hdecode := (page_ok_reply _).trans (hs.decode_page hlive hpage)
    have hsame := hpg.symm.trans hdecode
    simp only [Option.some.injEq] at hsame
    have hcount : (expire y.session now).snapshot.count ≤ 256 := (hs.snapshot hlive).1.count
    have hstart := hpage.start
    rw [hsame]
    exact (first_of_pageRequest (hbody.trans hbody') hfirst (by omega)).symm
  | dropped hop => exact absurd (hget.trans hop) (by decide)
  | got hop hbody' =>
    exact absurd (token_of_pageRequest (hbody.trans hbody') hlt (Nat.two_pow_pos 32)) hpos.ne'
  | subscribed hop => exact absurd (hget.trans hop) (by decide)

/-! ## The main result -/

/-- What holds of the device `d`, frozen by the first of the exchanges and first answered
with `page`, when the session has come to `z`. -/
structure PagedExactly (d : CacheSnapshot) (now : UInt64) (page : CachePage)
    (exchanges : List (CacheOp × CacheAnswer)) (z : CacheSystem) : Prop where
  exact : ∀ pg ∈ pagesOf exchanges, ExactPage { d with capturedMs := now } page.sub page.token pg
  enumerates : ∀ pages k, pages ⊆ pagesOf exchanges → Follows pages k →
    k = 0xFFFF ∧ pages.flatMap CachePage.entries = d.entries ∨
      k < d.count ∧ pages.length ≤ k ∧ pages.flatMap CachePage.entries = d.entries.take k
  served : z.session.snapshotId = page.token → ∀ now capacity first, z.session.overdue now = false →
    cachePageHeader + cacheNameMax - 1 + 20 ≤ capacity → first ≤ d.count →
    ∃ pg, (z.step (.request opCacheGet (pageRequest d.subsystem d.device page.token first) now capacity)).2.page =
      some pg ∧ pg.first = first
  released : ∀ i, z.session.Active i → (z.session.subscriptions i).id = page.sub →
    (z.session.subscriptions i).pending = false →
    (∃ pages, pages.Sublist (pagesOf exchanges) ∧ Follows pages 0xFFFF) ∨
      ∃ p ∈ exchanges, Resyncs page.sub p.1 p.2

theorem Frozen.pagedExactly {d : CacheSnapshot} {now : UInt64} {page : CachePage}
    {exchanges : List (CacheOp × CacheAnswer)} {z : CacheSystem}
    (h : Frozen { d with capturedMs := now } page.sub page.token exchanges z) (hcount : d.count ≤ 256)
    (htoken : page.token ≠ 0) : PagedExactly d now page exchanges z := by
  have hlt : CacheSnapshot.count { d with capturedMs := now } < 0xFFFF := hcount.trans_lt (by decide)
  refine ⟨h.exact,?_,?_,?_⟩
  · intro pages k hsub hwalk
    exact hwalk.collects hlt fun pg hpg => h.exact pg (hsub hpg)
  · intro hlive now' capacity first hnow hcap hfirst
    have hne : z.session.snapshotId ≠ 0 := hlive ▸ htoken
    have hfirst' : first ≤ z.session.snapshot.count := h.snapshot ▸ hfirst
    obtain ⟨taken,hpage,hanswer⟩ := h.sound.serves hne hnow hfirst' hcap
    rw [h.snapshot, hlive] at hanswer
    refine ⟨pageOf z.session first taken,?_,rfl⟩
    rw [hanswer, page_ok_reply]
    exact h.sound.session.decode_page hne hpage
  · intro i hi hid hp
    rcases h.pending i hi hid hp with hdone | hres
    · obtain ⟨pages,hsub,hwalk⟩ := h.walked
      rw [pageNext, if_pos hdone] at hwalk
      exact Or.inl ⟨pages,hsub,hwalk⟩
    · exact Or.inr hres

/-- From an accepted capture in any reachable state, over registry operations, polls and page
requests: every page is the requested slice of the frozen device, walks along `next`
enumerate it, and its owner goes live only after such a walk. -/
theorem snapshot_paging_exact (ops : List CacheOp) {opcode : ℕ} {body : Bytes} {now : UInt64} {capacity : ℕ}
    {bytes : Bytes} (hkind : Captures opcode body)
    (hanswer : ((final CacheSystem.step cacheSystemInit ops).step (.request opcode body now capacity)).2 =
      .reply statusOk bytes) :
    let y := final CacheSystem.step cacheSystemInit ops
    let y' := (y.step (.request opcode body now capacity)).1
    ∃ d handle page, device y.registry handle = some d ∧
      body = (if opcode = opCacheSubscribe then subscribeRequest d.subsystem d.device
        else pageRequest d.subsystem d.device 0 0) ∧
      decodePage bytes = some page ∧ page.first = 0 ∧
      (opcode = opCacheSubscribe → y'.session.Subscribed page.sub handle) ∧
      ∀ more, (∀ op ∈ more, op.Paging) →
        PagedExactly d now page
          ((.request opcode body now capacity,.reply statusOk bytes) :: trace CacheSystem.step y' more)
          (final CacheSystem.step y' more) ∧
        ∀ p ∈ trace CacheSystem.step y' more, ∀ pg, p.2.page = some pg →
          ∀ bus name token first now capacity,
            p.1 = .request opCacheGet (pageRequest bus name token first) now capacity →
            0 < token → token < 2^32 → first < 2^16 → pg.first = first := by
  have h := cacheSystem_sound ops
  obtain ⟨d,handle,page,hd,hbody,hdecode,hfirst,htoken,hsub,hfrozen⟩ := h.captured hkind hanswer
  refine ⟨d,handle,page,hd,hbody,hdecode,hfirst,hsub,?_⟩
  intro more hmore
  refine ⟨(hfrozen.run hmore).pagedExactly (h.registry.device_valid hd).count htoken,?_⟩
  intro p hp pg hpg bus name token first now' capacity' hop hpos hlt hf
  obtain ⟨pre,post,-,hans⟩ := mem_trace _ hp
  have hsound := ((h.step (.request opcode body now capacity)).run pre).1
  rw [hans, hop] at hpg
  exact hsound.requested hpos hlt hf hpg

/-- A device of two entries. -/
def twoEntries : List CacheOp :=
  [.registry (.define 0 [105,50,99] [97] 2 presenceReady fun i => ⟨[98,UInt8.ofNat (48 + i)],5,7,8,1,2⟩)]

/-- A SUBSCRIBE of it with room for one entry to a page. -/
def subscribeTwo : CacheOp := .request opCacheSubscribe (subscribeRequest [105,50,99] [97]) 9 88

theorem snapshot_paging_exact_two :
    let y := final CacheSystem.step cacheSystemInit twoEntries
    ∃ bytes d page, (y.step subscribeTwo).2 = .reply statusOk bytes ∧ decodePage bytes = some page ∧
      ∀ more, (∀ op ∈ more, op.Paging) → PagedExactly d 9 page
        ((subscribeTwo,.reply statusOk bytes) :: trace CacheSystem.step (y.step subscribeTwo).1 more)
        (final CacheSystem.step (y.step subscribeTwo).1 more) := by
  obtain ⟨d,handle,page,-,-,hdecode,-,-,h⟩ := @snapshot_paging_exact twoEntries opCacheSubscribe
    (subscribeRequest [105,50,99] [97]) 9 88 _ (Or.inl rfl) rfl
  exact ⟨_,d,page,rfl,hdecode,fun more hmore => (h more hmore).1⟩

end Bvstk.Dcp2
