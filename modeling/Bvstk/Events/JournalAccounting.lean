import Bvstk.Events.Journal
import Bvstk.Library.OverwriteRing
import Mathlib.Algebra.BigOperators.Intervals
import Mathlib.Algebra.Group.Action.Defs
import Mathlib.Order.Interval.Finset.Nat
import Mathlib.Data.List.Chain

/-! # Nothing is lost silently by a journal reader

One reader of one bus and channel, resuming every read where the last one
stopped, while events are published to any ring in between. Each sequence number
the cursor has passed was delivered once, skipped by the filter, or counted as lost.
-/
namespace Bvstk.Events
open OverwriteRing

/-! ## The scan loop -/

/-- The records a scan of `k` slots from `after` delivers. -/
def window (entries : ℕ → Event) (address : ℤ) (after k : ℕ) : List JournalRecord :=
  ((List.range' after k).filter fun s => !filteredOut address (entries (s % journalCapacity))).map
    fun s => ⟨s + 1,entries (s % journalCapacity)⟩

theorem window_succ (entries : ℕ → Event) (address : ℤ) (after k : ℕ) :
    window entries address after (k + 1) =
      (if filteredOut address (entries (after % journalCapacity)) then []
        else [⟨after + 1,entries (after % journalCapacity)⟩]) ++
        window entries address (after + 1) k := by
  simp only [window, List.range'_succ, List.filter_cons]
  cases filteredOut address (entries (after % journalCapacity)) <;> simp

/-- The scan stops early only on a full batch. -/
theorem scan_eq_window (entries : ℕ → Event) (address : ℤ) (left after count : ℕ) :
    ∃ k ≤ left, scan entries address left after count = (after + k,window entries address after k) ∧
      (k < left → journalBatch ≤ count + (window entries address after k).length) := by
  induction left generalizing after count with
  | zero => exact ⟨0,le_rfl,by simp [scan, window],by simp⟩
  | succ left ih =>
    by_cases hc : count < journalBatch
    · cases hf : filteredOut address (entries (after % journalCapacity)) with
      | true =>
        obtain ⟨k,hk,he,hfull⟩ := ih (after + 1) count
        have hw := window_succ entries address after k
        simp only [hf, ↓reduceIte, List.nil_append] at hw
        refine ⟨k + 1,by omega,?_,?_⟩
        · simp only [scan, if_pos hc, hf, ↓reduceIte, he, hw]
          congr 1
          omega
        · intro hlt
          rw [hw]
          exact hfull (by omega)
      | false =>
        obtain ⟨k,hk,he,hfull⟩ := ih (after + 1) (count + 1)
        have hw := window_succ entries address after k
        simp only [hf, Bool.false_eq_true, ↓reduceIte, List.singleton_append] at hw
        refine ⟨k + 1,by omega,?_,?_⟩
        · simp only [scan, if_pos hc, hf, Bool.false_eq_true, ↓reduceIte, he, hw]
          congr 1
          omega
        · intro hlt
          have h := hfull (by omega)
          rw [hw, List.length_cons]
          omega
    · exact ⟨0,Nat.zero_le _,by simp [scan, hc, window],fun _ => by omega⟩

theorem mem_window {entries : ℕ → Event} {address : ℤ} {after k : ℕ} {rec : JournalRecord} :
    rec ∈ window entries address after k ↔
      after < rec.sequence ∧ rec.sequence ≤ after + k ∧
        rec.event = entries ((rec.sequence - 1) % journalCapacity) ∧
        filteredOut address rec.event = false := by
  simp only [window, List.mem_map, List.mem_filter, List.mem_range'_1, Bool.not_eq_true']
  constructor
  · rintro ⟨s,⟨hs,hf⟩,rfl⟩
    refine ⟨?_,?_,?_,hf⟩
    · exact Nat.lt_succ_of_le hs.1
    · exact Nat.succ_le_of_lt hs.2
    · rfl
  · obtain ⟨sequence,event⟩ := rec
    dsimp only
    rintro ⟨h1,h2,rfl,h4⟩
    refine ⟨sequence - 1,⟨by omega,h4⟩,?_⟩
    simp only [JournalRecord.mk.injEq, and_true]
    omega

theorem window_pairwise (entries : ℕ → Event) (address : ℤ) (after k : ℕ) :
    (window entries address after k).Pairwise (fun a b => a.sequence < b.sequence) := by
  rw [window, List.pairwise_map]
  apply List.Pairwise.filter
  exact (List.pairwise_lt_range' (s := after) (n := k)).imp (fun h => Nat.succ_lt_succ h)

theorem window_countP (entries : ℕ → Event) (address : ℤ) (after k n : ℕ) :
    (window entries address after k).countP (fun rec => rec.sequence = n) =
      if after < n ∧ n ≤ after + k ∧
        filteredOut address (entries ((n - 1) % journalCapacity)) = false then 1 else 0 := by
  induction k generalizing after with
  | zero =>
    rw [if_neg (by omega)]
    simp [window]
  | succ k ih =>
    rw [window_succ, List.countP_append, ih]
    by_cases hn : n = after + 1
    · subst hn
      cases hf : filteredOut address (entries (after % journalCapacity)) <;> simp [hf]
    · have h1 : (if filteredOut address (entries (after % journalCapacity)) then []
          else [(⟨after + 1,entries (after % journalCapacity)⟩ : JournalRecord)]).countP
            (fun rec => rec.sequence = n) = 0 := by
        split
        · rfl
        · simpa using fun h => hn h.symm
      rw [h1, Nat.zero_add]
      congr 1
      apply propext
      constructor
      · rintro ⟨_,_,_⟩
        exact ⟨by omega,by omega,by assumption⟩
      · rintro ⟨_,_,_⟩
        exact ⟨by omega,by omega,by assumption⟩

/-! ## Runs of one reader -/

/-- One read of a run: the cursor it resolved to, its batch, and how many events
its ring had received by then. -/
structure Reading where
  origin : ℕ
  address : ℤ
  batch : JournalBatch
  published : ℕ

/-- The journal and one reader of it, with what has been published to the reader's
ring and what the reader has been given, oldest first. -/
structure Observation where
  journal : Journal
  cursor : ℕ
  published : List Event
  readings : List Reading

inductive Op where
  | publish (e : Event)
  | read (address : ℤ)

section
variable (bus channel : Fin 2)

def Observation.step (s : Observation) : Op → Observation
  | .publish e =>
    { s with
      journal := journalPublish s.journal e
      published := if route e = some (bus.val,channel.val) then s.published ++ [e] else s.published }
  | .read address =>
    let batch := journalRead s.journal bus channel address s.cursor
    { s with
      cursor := batch.next
      readings := s.readings ++
        [⟨((s.journal.rings bus channel).resume s.cursor).1,address,batch,s.published.length⟩] }

/-- A run from zeroed memory; `start` is the first `after` the reader passes. -/
def observe (start : ℕ) (ops : List Op) : Observation :=
  ops.foldl (Observation.step bus channel) ⟨Journal.zero,start,[],[]⟩

end

/-- Where the accounting begins: the resolved cursor of the first read. -/
def Observation.start (s : Observation) : ℕ :=
  match s.readings with
  | [] => s.cursor
  | r :: _ => r.origin

def Reading.delivered (r : Reading) (n : ℕ) : ℕ :=
  r.batch.records.countP (fun rec => rec.sequence = n)

def Reading.lost (r : Reading) (n : ℕ) : ℕ :=
  if r.origin < n ∧ n ≤ r.origin + r.batch.lost then 1 else 0

/-- Scanned, but the event published under this number fails the read's filter. -/
def Reading.skipped (log : List Event) (r : Reading) (n : ℕ) : ℕ :=
  if r.origin + r.batch.lost < n ∧ n ≤ r.batch.next ∧
    (log[n - 1]?).any (filteredOut r.address) = true then 1 else 0

def Reading.tally (log : List Event) (r : Reading) (n : ℕ) : ℕ :=
  r.delivered n + r.lost n + r.skipped log n

/-- The journal has accounted for everything the reader's cursor has passed. -/
structure Observation.Accounted (s : Observation) : Prop where
  once : ∀ n, (s.readings.map (fun r => r.tally s.published n)).sum =
    if s.start < n ∧ n ≤ s.cursor then 1 else 0
  lostSum : (s.readings.map (fun r => r.batch.lost)).sum =
    ∑ n ∈ Finset.Ioc s.start s.cursor, (s.readings.map (fun r => r.lost n)).sum
  ordered : (s.readings.flatMap (fun r => r.batch.records)).Pairwise
    (fun a b => a.sequence < b.sequence)
  faithful : ∀ rec ∈ s.readings.flatMap (fun r => r.batch.records),
    0 < rec.sequence ∧ s.published[rec.sequence - 1]? = some rec.event
  forward : ∀ r ∈ s.readings, r.origin ≤ r.batch.next ∧ r.batch.next ≤ s.cursor
  resumed : s.readings.IsChain (fun r r' => r'.origin = r.batch.next)
  caughtUp : ∀ r ∈ s.readings, r.batch.next = r.batch.head → r.batch.next = r.published

/-! ## What one read does -/

/-- The ring agrees with the log of what was published to it. -/
def RingOf (r : JournalRing) (log : List Event) : Prop :=
  r.head = log.length ∧ Retains journalCapacity r.entries log

theorem RingOf.push {r : JournalRing} {log : List Event} (h : RingOf r log)
    (hlog : log.length + 1 < journalHistory) (e : Event) : RingOf (r.push e) (log ++ [e]) := by
  have hhead : r.head = log.length := h.1
  refine ⟨?_,?_⟩
  · rw [List.length_append, List.length_singleton]
    change (r.head + 1) % 2^64 = log.length + 1
    rw [hhead]
    apply Nat.mod_eq_of_lt
    simp only [journalHistory] at hlog
    omega
  · change Retains _ (Function.update r.entries (r.head % journalCapacity) e) _
    rw [hhead]
    exact h.2.push e

theorem JournalRing.resume_eq {r : JournalRing} {cursor : ℕ}
    (hc : cursor = journalHistory ∨ cursor ≤ r.head) :
    r.resume cursor = (if cursor = journalHistory then r.first else cursor,false) := by
  unfold JournalRing.resume
  split
  · rfl
  · rw [if_neg]
    omega

/-- A read scans from just past the records it reports lost, and never wraps. -/
theorem JournalRing.read_shape {r : JournalRing} {cursor : ℕ} (address : ℤ)
    (hc : cursor = journalHistory ∨ cursor ≤ r.head) :
    ∃ origin lost k, (r.resume cursor).1 = origin ∧ (cursor ≠ journalHistory → origin = cursor) ∧
      r.read address cursor =
        ⟨origin + lost + k,r.head,lost,false,window r.entries address (origin + lost) k⟩ ∧
      origin + lost + k ≤ r.head ∧ r.head ≤ origin + lost + journalCapacity := by
  have hfirst : r.first ≤ r.head ∧ r.head ≤ r.first + journalCapacity := by
    unfold JournalRing.first
    split <;> omega
  have hres := JournalRing.resume_eq hc
  set origin := (if cursor = journalHistory then r.first else cursor) with horigin
  have horg : origin ≤ r.head := by
    rw [horigin]
    split <;> omega
  obtain ⟨k,hk,hscan,_⟩ := scan_eq_window r.entries address
    (r.head - (if origin < r.first then r.first else origin))
    (if origin < r.first then r.first else origin) 0
  refine ⟨origin,if origin < r.first then r.first - origin else 0,k,by rw [hres],?_,?_,?_,?_⟩
  · intro hne
    rw [horigin, if_neg hne]
  · have hsum : origin + (if origin < r.first then r.first - origin else 0) =
        if origin < r.first then r.first else origin := by
      split <;> omega
    simp only [JournalRing.read, hres, hsum, hscan]
  · split at hk <;> split <;> omega
  · split <;> omega

/-- A read accounts for exactly the numbers between its origin and its `next`. -/
theorem tally_eq {r : JournalRing} {log : List Event} (hr : RingOf r log) (origin lost k : ℕ)
    (address : ℤ) (hk : origin + lost + k ≤ r.head)
    (hw : r.head ≤ origin + lost + journalCapacity) (total n : ℕ) :
    (Reading.mk origin address
      ⟨origin + lost + k,r.head,lost,false,window r.entries address (origin + lost) k⟩ total).tally
        log n = if origin < n ∧ n ≤ origin + lost + k then 1 else 0 := by
  simp only [Reading.tally, Reading.delivered, Reading.lost, Reading.skipped, window_countP]
  by_cases hin : origin + lost < n ∧ n ≤ origin + lost + k
  · have hslot := hr.2 (n - 1) (by rw [← hr.1]; omega) (by rw [← hr.1]; omega)
    rw [hslot]
    have h2 : origin < n ∧ n ≤ origin + lost + k := by omega
    cases hf : filteredOut address (r.entries ((n - 1) % journalCapacity)) <;>
      simp [hin, h2, hf]
  · have h1 : ¬(origin + lost < n ∧ n ≤ origin + lost + k ∧
        filteredOut address (r.entries ((n - 1) % journalCapacity)) = false) := fun h => hin ⟨h.1,h.2.1⟩
    have h2 : ¬(origin + lost < n ∧ n ≤ origin + lost + k ∧
        (log[n - 1]?).any (filteredOut address) = true) := fun h => hin ⟨h.1,h.2.1⟩
    rw [if_neg h1, if_neg h2, Nat.zero_add, Nat.add_zero]
    congr 1
    apply propext
    constructor <;> intro _ <;> omega

/-! ## The run -/

/-- What every step of a run keeps. The cursor is `HISTORY` only before the first read. -/
structure Observation.Consistent (bus channel : Fin 2) (start : ℕ) (s : Observation) : Prop where
  ring : RingOf (s.journal.rings bus channel) s.published
  cursor : (s.cursor = journalHistory ∧ s.readings = []) ∨ s.cursor ≤ s.published.length
  last : ∀ r, s.readings.getLast? = some r → r.batch.next = s.cursor
  began : start = 0 → s.start = 0
  accounted : s.Accounted

theorem Observation.Accounted.start_le {s : Observation} (h : s.Accounted) : s.start ≤ s.cursor := by
  unfold Observation.start
  cases hr : s.readings with
  | nil => exact le_rfl
  | cons r rest =>
    have hf := h.forward r (by rw [hr]; exact List.mem_cons_self)
    exact hf.1.trans hf.2

/-- A number the cursor has not passed is in no tally yet. -/
theorem Observation.Accounted.tally_eq_zero {s : Observation} (h : s.Accounted) {n : ℕ}
    (hn : s.cursor < n) : ∀ r ∈ s.readings, r.tally s.published n = 0 := by
  have hsum := h.once n
  rw [if_neg (by omega)] at hsum
  intro r hr
  exact List.sum_eq_zero_iff_forall_eq_nat.mp hsum _ (List.mem_map_of_mem hr)

theorem Observation.Accounted.sequence_le {s : Observation} (h : s.Accounted) {rec : JournalRecord}
    (hrec : rec ∈ s.readings.flatMap (fun r => r.batch.records)) : rec.sequence ≤ s.cursor := by
  obtain ⟨r,hr,hmem⟩ := List.mem_flatMap.mp hrec
  by_contra hlt
  have hz := h.tally_eq_zero (not_le.mp hlt) r hr
  have hpos : 0 < r.delivered rec.sequence :=
    List.countP_pos_iff.mpr ⟨rec,hmem,by simp⟩
  simp only [Reading.tally] at hz
  omega

/-- Later publications do not change what has been accounted for. -/
theorem Observation.Accounted.publish {s : Observation} (h : s.Accounted) (e : Event) (j : Journal)
    (hc : ∀ r ∈ s.readings, r.batch.next ≤ s.published.length) :
    ({ s with journal := j, published := s.published ++ [e] } : Observation).Accounted := by
  have htally : ∀ n, ∀ r ∈ s.readings,
      r.tally (s.published ++ [e]) n = r.tally s.published n := by
    intro n r hr
    simp only [Reading.tally, Reading.skipped]
    by_cases hin : r.origin + r.batch.lost < n ∧ n ≤ r.batch.next
    · have hnext := hc r hr
      rw [List.getElem?_append_left (by omega)]
    · rw [if_neg (fun hh => hin ⟨hh.1,hh.2.1⟩), if_neg (fun hh => hin ⟨hh.1,hh.2.1⟩)]
  refine ⟨?_,h.lostSum,h.ordered,?_,h.forward,h.resumed,h.caughtUp⟩
  · intro n
    rw [show (s.readings.map fun r => r.tally (s.published ++ [e]) n) =
      s.readings.map fun r => r.tally s.published n from List.map_congr_left (htally n)]
    exact h.once n
  · intro rec hrec
    obtain ⟨hpos,hget⟩ := h.faithful rec hrec
    refine ⟨hpos,?_⟩
    have hlt := (List.getElem?_eq_some_iff.mp hget).1
    rw [List.getElem?_append_left hlt]
    exact hget

theorem step_publish {bus channel : Fin 2} {start : ℕ} {s : Observation}
    (h : s.Consistent bus channel start) (e : Event)
    (hbound : (s.step bus channel (.publish e)).published.length < journalHistory) :
    (s.step bus channel (.publish e)).Consistent bus channel start := by
  by_cases hroute : route e = some (bus.val,channel.val)
  · simp only [Observation.step, if_pos hroute, List.length_append, List.length_singleton] at hbound ⊢
    refine ⟨?_,?_,h.last,h.began,h.accounted.publish e _ ?_⟩
    · simp only [journalPublish, hroute, Function.update_self]
      exact h.ring.push hbound e
    · rcases h.cursor with hc | hc
      · exact Or.inl hc
      · right
        simp only [List.length_append]
        omega
    · intro r hr
      rcases h.cursor with hc | hc
      · rw [hc.2] at hr
        cases hr
      · exact (h.accounted.forward r hr).2.trans hc
  · simp only [Observation.step, if_neg hroute]
    refine ⟨?_,h.cursor,h.last,h.began,h.accounted.once,h.accounted.lostSum,h.accounted.ordered,
      h.accounted.faithful,h.accounted.forward,h.accounted.resumed,h.accounted.caughtUp⟩
    simp only [journalPublish]
    cases hr : route e with
    | none => exact h.ring
    | some p =>
      obtain ⟨b,c⟩ := p
      have hne : ¬(bus.val = b ∧ channel.val = c) := by
        rintro ⟨rfl,rfl⟩
        exact hroute hr
      dsimp only
      by_cases hb : bus.val = b
      · subst hb
        rw [Function.update_self, Function.update_of_ne (fun hc => hne ⟨rfl,hc⟩)]
        exact h.ring
      · rw [Function.update_of_ne hb]
        exact h.ring

/-- Adding a read that accounts for the next stretch of numbers. -/
theorem Observation.Accounted.read {s : Observation} (h : s.Accounted) (r : Reading)
    (hlast : ∀ r, s.readings.getLast? = some r → r.batch.next = s.cursor)
    (horigin : s.readings ≠ [] → r.origin = s.cursor)
    (hlost : r.origin + r.batch.lost ≤ r.batch.next)
    (htally : ∀ n, r.tally s.published n = if r.origin < n ∧ n ≤ r.batch.next then 1 else 0)
    (hordered : r.batch.records.Pairwise (fun a b => a.sequence < b.sequence))
    (hfaithful : ∀ rec ∈ r.batch.records, r.origin < rec.sequence ∧
      s.published[rec.sequence - 1]? = some rec.event)
    (hcaught : r.batch.next = r.batch.head → r.batch.next = r.published) :
    ({ s with cursor := r.batch.next, readings := s.readings ++ [r] } : Observation).Accounted := by
  set s' : Observation := { s with cursor := r.batch.next, readings := s.readings ++ [r] } with hs'
  have hle := h.start_le
  -- before the first read the start is still open, afterwards it is settled
  have hstart : s'.start = r.origin ∧ s.readings = [] ∨ s'.start = s.start ∧ r.origin = s.cursor := by
    simp only [hs', Observation.start]
    cases hr : s.readings with
    | nil => exact Or.inl ⟨rfl,rfl⟩
    | cons a rest => exact Or.inr ⟨rfl,horigin (by rw [hr]; simp)⟩
  have hmem : ∀ {r'}, r' ∈ s'.readings → r' ∈ s.readings ∨ r' = r := by
    intro r' hr'
    rcases List.mem_append.mp hr' with hr' | hr'
    · exact Or.inl hr'
    · exact Or.inr (List.mem_singleton.mp hr')
  refine ⟨?_,?_,?_,?_,?_,?_,?_⟩
  · intro n
    rw [List.map_append, List.sum_append, List.map_singleton, List.sum_singleton, htally, h.once]
    change _ = if s'.start < n ∧ n ≤ r.batch.next then 1 else 0
    rcases hstart with ⟨hst,hnil⟩ | ⟨hst,horg⟩
    · have hz : s.start = s.cursor := by rw [Observation.start, hnil]
      rw [hst, if_neg (by omega), Nat.zero_add]
    · rw [hst, horg]
      by_cases h1 : s.start < n ∧ n ≤ s.cursor
      · rw [if_pos h1, if_neg (by omega), if_pos (by omega)]
      · rw [if_neg h1, Nat.zero_add]
        congr 1
        apply propext
        constructor <;> intro _ <;> omega
  · rw [List.map_append, List.sum_append, List.map_singleton, List.sum_singleton, h.lostSum]
    change _ = ∑ n ∈ Finset.Ioc s'.start r.batch.next, _
    have hsplit : ∀ n, ((s.readings ++ [r]).map fun r => r.lost n).sum =
        (s.readings.map fun r => r.lost n).sum + r.lost n := by
      intro n
      rw [List.map_append, List.sum_append, List.map_singleton, List.sum_singleton]
    simp only [hs', hsplit]
    rw [Finset.sum_add_distrib, ← hs']
    congr 1
    · rcases hstart with ⟨hst,hnil⟩ | ⟨hst,horg⟩
      · simp [hnil]
      · rw [hst]
        apply Finset.sum_subset
        · exact Finset.Ioc_subset_Ioc_right (by omega)
        · intro n hn hnot
          rw [Finset.mem_Ioc] at hn hnot
          apply List.sum_eq_zero
          intro x hx
          obtain ⟨a,ha,rfl⟩ := List.mem_map.mp hx
          have hz := h.tally_eq_zero (n := n) (by omega) a ha
          simp only [Reading.tally] at hz
          omega
    · simp only [Reading.lost]
      rw [Finset.sum_ite, Finset.sum_const_zero, Nat.add_zero, Finset.sum_const, smul_eq_mul, Nat.mul_one]
      rw [show (Finset.Ioc s'.start r.batch.next).filter
          (fun n => r.origin < n ∧ n ≤ r.origin + r.batch.lost) =
        Finset.Ioc r.origin (r.origin + r.batch.lost) from ?_]
      · rw [Nat.card_Ioc]
        omega
      · ext n
        rw [Finset.mem_filter, Finset.mem_Ioc, Finset.mem_Ioc]
        constructor
        · intro hn
          exact hn.2
        · intro hn
          rcases hstart with ⟨hst,_⟩ | ⟨hst,_⟩ <;> rw [hst] <;> omega
  · change ((s.readings ++ [r]).flatMap _).Pairwise _
    rw [List.flatMap_append, List.flatMap_singleton, List.pairwise_append]
    refine ⟨h.ordered,hordered,?_⟩
    intro a ha b hb
    have hle' := h.sequence_le ha
    have hgt := (hfaithful b hb).1
    have hne : s.readings ≠ [] := by
      intro hnil
      simp [hnil] at ha
    rw [horigin hne] at hgt
    omega
  · intro rec hrec
    change rec ∈ (s.readings ++ [r]).flatMap _ at hrec
    rw [List.flatMap_append, List.flatMap_singleton] at hrec
    rcases List.mem_append.mp hrec with hrec | hrec
    · exact h.faithful rec hrec
    · have hf := hfaithful rec hrec
      exact ⟨by omega,hf.2⟩
  · intro r' hr'
    change _ ∧ _ ≤ r.batch.next
    rcases hmem hr' with hr' | rfl
    · have hf := h.forward r' hr'
      have horg := horigin (List.ne_nil_of_mem hr')
      exact ⟨hf.1,by omega⟩
    · exact ⟨by omega,le_rfl⟩
  · change (s.readings ++ [r]).IsChain _
    rw [List.isChain_append]
    refine ⟨h.resumed,List.isChain_singleton _,?_⟩
    intro a ha b hb
    simp only [List.head?_cons, Option.mem_def, Option.some.injEq] at hb
    subst hb
    have ha' : s.readings.getLast? = some a := ha
    have hne : s.readings ≠ [] := by
      intro hnil
      simp [hnil] at ha'
    exact (horigin hne).trans (hlast a ha').symm
  · intro r' hr'
    rcases hmem hr' with hr' | rfl
    · exact h.caughtUp r' hr'
    · exact hcaught

theorem step_read {bus channel : Fin 2} {start : ℕ} {s : Observation}
    (h : s.Consistent bus channel start) (address : ℤ)
    (hbound : s.published.length < journalHistory) :
    (s.step bus channel (.read address)).Consistent bus channel start := by
  have hhead : (s.journal.rings bus channel).head = s.published.length := h.ring.1
  have hc : s.cursor = journalHistory ∨ s.cursor ≤ (s.journal.rings bus channel).head := by
    rcases h.cursor with hc | hc
    · exact Or.inl hc.1
    · exact Or.inr (hhead ▸ hc)
  obtain ⟨origin,lost,k,horg,hcur,hread,hk,hw⟩ := JournalRing.read_shape address hc
  have hbus : ¬(journalBuses ≤ bus.val ∨ 2 ≤ channel.val) := by
    have := bus.isLt
    have := channel.isLt
    simp only [journalBuses]
    omega
  simp only [Observation.step, journalRead, if_neg hbus, hread, horg]
  refine ⟨h.ring,Or.inr ?_,?_,?_,?_⟩
  · rw [← hhead]
    exact hk
  · intro r hr
    rw [List.getLast?_concat, Option.some.injEq] at hr
    rw [← hr]
  · intro hz
    have hbegan := h.began hz
    simp only [Observation.start] at hbegan ⊢
    cases hr : s.readings with
    | nil =>
      rw [hr] at hbegan
      exact (hcur (by rw [show s.cursor = 0 from hbegan, journalHistory]; omega)).trans hbegan
    | cons a rest =>
      rw [hr] at hbegan
      exact hbegan
  · refine h.accounted.read ⟨origin,address,_,_⟩ h.last ?_ (Nat.le_add_right _ _)
      (fun n => tally_eq h.ring origin lost k address hk hw _ n) (window_pairwise _ _ _ _) ?_ ?_
    · intro hne
      apply hcur
      rcases h.cursor with hc' | hc'
      · exact absurd hc'.2 hne
      · omega
    · intro rec hrec
      obtain ⟨h1,h2,h3,_⟩ := mem_window.mp hrec
      refine ⟨by dsimp only; omega,?_⟩
      rw [h3]
      exact h.ring.2 _ (by omega) (by omega)
    · intro heq
      exact heq.trans hhead

theorem published_length_le_step (bus channel : Fin 2) (s : Observation) (op : Op) :
    s.published.length ≤ (s.step bus channel op).published.length := by
  cases op with
  | publish e =>
    simp only [Observation.step]
    split
    · simp
    · exact le_rfl
  | read address => exact le_rfl

theorem published_length_le_run (bus channel : Fin 2) (s : Observation) (ops : List Op) :
    s.published.length ≤ (ops.foldl (Observation.step bus channel) s).published.length := by
  induction ops generalizing s with
  | nil => exact le_rfl
  | cons op ops ih => exact (published_length_le_step bus channel s op).trans (ih _)

theorem run_consistent {bus channel : Fin 2} {start : ℕ} {s : Observation}
    (h : s.Consistent bus channel start) (ops : List Op)
    (hbound : (ops.foldl (Observation.step bus channel) s).published.length < journalHistory) :
    (ops.foldl (Observation.step bus channel) s).Consistent bus channel start := by
  induction ops generalizing s with
  | nil => exact h
  | cons op ops ih =>
    rw [List.foldl_cons] at hbound ⊢
    have hstep := (published_length_le_run bus channel _ ops).trans_lt hbound
    apply ih _ hbound
    cases op with
    | publish e => exact step_publish h e hstep
    | read address => exact step_read h address hstep

theorem initial_consistent (bus channel : Fin 2) {start : ℕ} (hstart : start = 0 ∨ start = journalHistory) :
    Observation.Consistent bus channel start ⟨Journal.zero,start,[],[]⟩ := by
  refine ⟨⟨rfl,retains_nil _⟩,?_,?_,fun hz => hz,?_⟩
  · rcases hstart with rfl | rfl
    · exact Or.inr le_rfl
    · exact Or.inl ⟨rfl,rfl⟩
  · intro r hr
    cases hr
  · refine ⟨?_,?_,List.Pairwise.nil,?_,?_,List.isChain_nil,?_⟩
    · intro n
      change (0 : ℕ) = if start < n ∧ n ≤ start then 1 else 0
      rw [if_neg (by omega)]
    · change (0 : ℕ) = ∑ n ∈ Finset.Ioc start start, _
      rw [Finset.Ioc_self, Finset.sum_empty]
    · intro rec hrec
      cases hrec
    · intro r hr
      cases hr
    · intro r hr
      cases hr

/-- As long as the 64-bit head stays below `HISTORY`, a reader that keeps passing
the previous `next` loses nothing silently and sees nothing twice. -/
theorem journal_read_accounted (bus channel : Fin 2) (start : ℕ)
    (hstart : start = 0 ∨ start = journalHistory) (ops : List Op)
    (hbound : (observe bus channel start ops).published.length < journalHistory) :
    (observe bus channel start ops).Accounted ∧
      (start = 0 → (observe bus channel start ops).start = 0) := by
  have h := run_consistent (initial_consistent bus channel hstart) ops hbound
  exact ⟨h.accounted,h.began⟩

/-- An audit event of device 0 on the first bus. -/
def attemptEvent : Event :=
  ⟨0,EventType.regAttempt.code,0,EventSource.console.code,EventBus.i2c.code,EventOp.write.code,0,0,0,0⟩

/-- One publication between a filtered and an unfiltered read. -/
theorem journal_read_accounted_three :
    (observe 0 0 0 [.read 5,.publish attemptEvent,.read (-1)]).Accounted ∧
      (0 = 0 → (observe 0 0 0 [.read 5,.publish attemptEvent,.read (-1)]).start = 0) :=
  journal_read_accounted 0 0 0 (Or.inl rfl) _ (by decide)

/-! ## The bound is sharp -/

theorem replicate_publish (n : ℕ) (s : Observation)
    (hs : ∀ i, ((s.journal.rings 0 0).entries i).arg0 = 0) :
    let t := (List.replicate n (Op.publish attemptEvent)).foldl (Observation.step 0 0) s
    (t.journal.rings 0 0).head % 2^64 = ((s.journal.rings 0 0).head + n) % 2^64 ∧
      (0 < n → (t.journal.rings 0 0).head < 2^64) ∧
      (∀ i, ((t.journal.rings 0 0).entries i).arg0 = 0) ∧ t.readings = s.readings ∧ t.cursor = s.cursor := by
  induction n generalizing s with
  | zero => exact ⟨rfl,by simp,hs,rfl,rfl⟩
  | succ n ih =>
    have hroute : route attemptEvent = some (0,0) := by decide
    have hring : ((s.step 0 0 (.publish attemptEvent)).journal.rings 0 0) =
        (s.journal.rings 0 0).push attemptEvent := by
      simp only [Observation.step, journalPublish, hroute, Function.update_self]
    have hentries : ∀ i,
        (((s.step 0 0 (.publish attemptEvent)).journal.rings 0 0).entries i).arg0 = 0 := by
      intro i
      rw [hring]
      change (Function.update (s.journal.rings 0 0).entries _ attemptEvent i).arg0 = 0
      by_cases hi : i = (s.journal.rings 0 0).head % journalCapacity
      · rw [hi, Function.update_self]
        rfl
      · rw [Function.update_of_ne hi]
        exact hs i
    obtain ⟨h1,h2,h3,h4,h5⟩ := ih _ hentries
    have hpush : ((s.journal.rings 0 0).push attemptEvent).head =
      ((s.journal.rings 0 0).head + 1) % 2^64 := rfl
    rw [hring, hpush] at h1
    refine ⟨?_,fun _ => ?_,h3,h4,h5⟩
    · rw [List.replicate_succ, List.foldl_cons, h1]
      omega
    · rw [List.replicate_succ, List.foldl_cons]
      rcases Nat.eq_zero_or_pos n with rfl | hn
      · rw [List.replicate_zero, List.foldl_nil, hring, hpush]
        omega
      · exact h2 hn

/-- A scan that filters every slot reaches the head. -/
theorem scan_filtered {entries : ℕ → Event} {address : ℤ}
    (hf : ∀ i, filteredOut address (entries i) = true) (left after : ℕ) :
    scan entries address left after 0 = (after + left,[]) := by
  have hnil : ∀ k, window entries address after k = [] := by
    intro k
    simp [window, hf]
  obtain ⟨k,hk,he,hfull⟩ := scan_eq_window entries address left after 0
  rw [he, hnil]
  have hkl : ¬k < left := by
    intro hlt
    have := hfull hlt
    rw [hnil, List.length_nil, journalBatch] at this
    omega
  rw [show k = left by omega]

theorem read_filtered {r : JournalRing} {address : ℤ} (hf : ∀ i, filteredOut address (r.entries i) = true)
    (hhead : journalCapacity < r.head) :
    r.read address 0 = ⟨r.head,r.head,r.head - journalCapacity,false,[]⟩ := by
  have hres : r.resume 0 = (0,false) := JournalRing.resume_eq (Or.inr (Nat.zero_le _))
  have hfirst : r.first = r.head - journalCapacity := if_pos hhead
  have hlt : 0 < r.first := by omega
  have hsum : r.first + (r.head - r.first) = r.head := by omega
  simp only [JournalRing.read, hres, if_pos hlt, scan_filtered hf, hsum, Nat.sub_zero]
  rw [hfirst]

theorem resume_history (r : JournalRing) : (r.resume journalHistory).1 = r.first := by
  rw [JournalRing.resume, if_pos rfl]

/-- A read that resumes at `HISTORY` breaks the chain of cursors. -/
theorem not_accounted_of_history {t : Observation} (hr : t.readings = []) (hc : t.cursor = 0)
    (hf : ∀ i, ((t.journal.rings 0 0).entries i).arg0 = 0)
    (hhead : (t.journal.rings 0 0).head = journalHistory) :
    ¬((t.step 0 0 (.read 1)).step 0 0 (.read (-1))).Accounted := by
  intro h
  have hcap : journalCapacity < (t.journal.rings 0 0).head := by
    rw [hhead]
    decide
  have hfilter : ∀ i, filteredOut 1 ((t.journal.rings 0 0).entries i) = true := by
    intro i
    simp [filteredOut, hf i]
  have hread : journalRead t.journal 0 0 1 t.cursor =
      ⟨journalHistory,journalHistory,journalHistory - journalCapacity,false,[]⟩ := by
    rw [journalRead, if_neg (by decide), hc, read_filtered hfilter hcap, hhead]
  have hres := h.resumed
  simp only [Observation.step, Fin.val_zero, hread, hr, List.nil_append, List.singleton_append,
    List.isChain_pair, resume_history] at hres
  have hfirst : (t.journal.rings 0 0).first = journalHistory - journalCapacity := by
    rw [JournalRing.first, if_pos hcap, hhead]
  rw [hfirst] at hres
  exact absurd hres (by decide)

/-- With `2^64 - 1` events published, a reader that is caught up passes its cursor
as `after`; that number is `HISTORY`, and the retained 256 records come again. -/
theorem journal_read_history_collision :
    ¬(observe 0 0 0 (List.replicate journalHistory (Op.publish attemptEvent) ++
      [.read 1,.read (-1)])).Accounted := by
  obtain ⟨h1,h2,h3,h4,h5⟩ := replicate_publish journalHistory ⟨Journal.zero,0,[],[]⟩ (fun _ => rfl)
  have hpos : 0 < journalHistory := by decide
  rw [observe, List.foldl_append]
  generalize (List.replicate journalHistory (Op.publish attemptEvent)).foldl (Observation.step 0 0)
    ⟨Journal.zero,0,[],[]⟩ = t at h1 h2 h3 h4 h5 ⊢
  refine not_accounted_of_history h4 h5 h3 ?_
  have hlt := h2 hpos
  have hz : ((Journal.zero.rings 0 0).head + journalHistory) % 2^64 = journalHistory := by decide
  rw [hz] at h1
  omega

end Bvstk.Events
