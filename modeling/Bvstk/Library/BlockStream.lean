import Mathlib.Data.List.Basic
import Mathlib.Algebra.Order.Group.Nat
import Mathlib.Algebra.GroupWithZero.Nat

/-! # Streams read in blocks

A stream is a list of items and perhaps the error it breaks off with. It is read in blocks
of the caller's choice; how the caller chooses must not show in what arrives.
-/
namespace BlockStream

/-- What is left of a stream, and what it breaks off with. -/
structure Feed (α ε : Type) where
  items : List α
  failure : Option ε
  deriving DecidableEq

variable {α γ ε σ τ : Type}

/-! ## Putting streams together -/

def Feed.after (front : List α) (feed : Feed α ε) : Feed α ε := ⟨front ++ feed.items,feed.failure⟩

@[simp] theorem Feed.after_nil (feed : Feed α ε) : feed.after [] = feed := rfl

@[simp] theorem Feed.after_items (front : List α) (feed : Feed α ε) :
    (feed.after front).items = front ++ feed.items := rfl

@[simp] theorem Feed.after_failure (front : List α) (feed : Feed α ε) :
    (feed.after front).failure = feed.failure := rfl

@[simp] theorem Feed.after_after (front middle : List α) (feed : Feed α ε) :
    (feed.after middle).after front = feed.after (front ++ middle) := by
  simp [Feed.after]

/-- One stream and then another, unless the first breaks off. -/
def Feed.append (first second : Feed α ε) : Feed α ε :=
  match first.failure with
  | none => second.after first.items
  | some _ => first

@[simp] theorem Feed.append_empty (second : Feed α ε) : Feed.append ⟨[],none⟩ second = second := rfl

@[simp] theorem Feed.append_failed (items : List α) (e : ε) (second : Feed α ε) :
    Feed.append ⟨items,some e⟩ second = ⟨items,some e⟩ := rfl

@[simp] theorem Feed.append_nothing (first : Feed α ε) : first.append ⟨[],none⟩ = first := by
  obtain ⟨items,failure⟩ := first
  cases failure with
  | none => simp [Feed.append,Feed.after]
  | some e => rfl

theorem Feed.after_append (front : List α) (first second : Feed α ε) :
    (first.after front).append second = (first.append second).after front := by
  obtain ⟨items,failure⟩ := first
  cases failure with
  | none => simp [Feed.append,Feed.after]
  | some e => rfl

/-- What is put together does not break off if no part of it does. -/
theorem Feed.append_whole {first second : Feed α ε} (h : (first.append second).failure = none) :
    first.failure = none ∧ second.failure = none ∧ (first.append second).items = first.items ++ second.items := by
  obtain ⟨items,failure⟩ := first
  cases failure with
  | none => exact ⟨rfl,h,rfl⟩
  | some e => cases h

theorem Feed.append_assoc (first second third : Feed α ε) :
    (first.append second).append third = first.append (second.append third) := by
  obtain ⟨items,failure⟩ := first
  cases failure with
  | none => exact Feed.after_append items second third
  | some e => rfl

/-- Every item written out, and `closing` at the end. -/
def writeOut (emit : α → Except ε (List γ)) (closing : List γ) : List α → Option ε → Feed γ ε
  | [], none => ⟨closing,none⟩
  | [], some e => ⟨[],some e⟩
  | a :: items, failure =>
    match emit a with
    | .error e => ⟨[],some e⟩
    | .ok front => (writeOut emit closing items failure).after front

theorem writeOut_whole {emit : α → Except ε (List γ)} {closing : List γ} {items : List α} {failure : Option ε}
    (h : (writeOut emit closing items failure).failure = none) : failure = none := by
  induction items with
  | nil =>
    cases failure with
    | none => rfl
    | some e => cases h
  | cons a items ih =>
    unfold writeOut at h
    cases hemit : emit a with
    | error e =>
      rw [hemit] at h
      cases h
    | ok front =>
      rw [hemit] at h
      exact ih h

/-- Something closes every stream that does not break off. -/
theorem writeOut_ne_nil {emit : α → Except ε (List γ)} {closing : List γ} (hclosing : closing ≠ []) {items : List α}
    {failure : Option ε} (hfailure : (writeOut emit closing items failure).failure = none) :
    (writeOut emit closing items failure).items ≠ [] := by
  induction items with
  | nil =>
    cases failure with
    | none => exact hclosing
    | some e => cases hfailure
  | cons a items ih =>
    unfold writeOut at hfailure ⊢
    cases hemit : emit a with
    | error e =>
      rw [hemit] at hfailure
      cases hfailure
    | ok front =>
      rw [hemit] at hfailure
      exact fun h => ih hfailure (List.append_eq_nil_iff.mp h).2

/-! ## Reading -/

/-- One read: a block and whether it is the last. The end is `announced` when it is known
from the last item, without looking past it. -/
def Feed.read (announced : Bool) (feed : Feed α ε) (capacity : ℕ) : Except ε (List α × Bool) × Feed α ε :=
  if feed.items.length < capacity then
    match feed.failure with
    | none => (.ok (feed.items,true),⟨[],none⟩)
    | some e => (.error e,feed)
  else
    (.ok (feed.items.take capacity,announced && feed.failure.isNone && decide (feed.items.length = capacity)),
      ⟨feed.items.drop capacity,feed.failure⟩)

/-- The replies of anything that is read in blocks, to the last block or the first error. -/
def reads (read : σ → ℕ → Except ε (List α × Bool) × σ) : (capacities : List ℕ) → σ → List (Except ε (List α × Bool))
  | [], _ => []
  | capacity :: capacities, s =>
    match read s capacity with
    | (.error e,_) => [.error e]
    | (.ok (block,true),_) => [.ok (block,true)]
    | (.ok (block,false),s) => .ok (block,false) :: reads read capacities s

/-- What has arrived. -/
def received (replies : List (Except ε (List α × Bool))) : List α :=
  replies.flatMap fun reply =>
    match reply with
    | .error _ => []
    | .ok (block,_) => block

/-- Two readers that answer alike for as long as they are read answer alike throughout. -/
theorem reads_congr (read : σ → ℕ → Except ε (List α × Bool) × σ) (read' : τ → ℕ → Except ε (List α × Bool) × τ)
    (Same : σ → τ → Prop)
    (hstep : ∀ s t capacity, Same s t → 0 < capacity → (read s capacity).1 = (read' t capacity).1 ∧
      ∀ block, (read s capacity).1 = .ok (block,false) → Same (read s capacity).2 (read' t capacity).2)
    {capacities : List ℕ} (hpos : ∀ capacity ∈ capacities, 0 < capacity) {s : σ} {t : τ} (hsame : Same s t) :
    reads read capacities s = reads read' capacities t := by
  induction capacities generalizing s t with
  | nil => rfl
  | cons capacity capacities ih =>
    obtain ⟨hreply,hnext⟩ := hstep s t capacity hsame (hpos capacity (by simp))
    simp only [reads]
    generalize read s capacity = out at hreply hnext ⊢
    generalize read' t capacity = out' at hreply hnext ⊢
    obtain ⟨reply,s'⟩ := out
    obtain ⟨reply',t'⟩ := out'
    simp only at hreply hnext
    subst hreply
    match reply with
    | .error e => rfl
    | .ok (block,true) => rfl
    | .ok (block,false) =>
      exact congrArg _ (ih (fun c hc => hpos c (List.mem_cons_of_mem _ hc)) (hnext block rfl))

/-- What is received of a stream for these capacities, in replies `replies`. -/
structure Delivered (announced : Bool) (feed : Feed α ε) (capacities : List ℕ)
    (replies : List (Except ε (List α × Bool))) : Prop where
  /-- every block is what stands at its place in the stream; it is full unless it is the
  last, and the last is that with the last item, or an empty one if the end had not shown -/
  block : ∀ i block last, replies[i]? = some (.ok (block,last)) →
    ∃ capacity, capacities[i]? = some capacity ∧
      block = (feed.items.drop (capacities.take i).sum).take capacity ∧
      (last = false → block.length = capacity) ∧
      (last = true ↔ feed.failure = none ∧ (capacities.take i).sum + block.length = feed.items.length ∧
        (announced = true ∨ block.length < capacity))
  /-- an error comes where the stream breaks off -/
  error : ∀ i e, replies[i]? = some (.error e) →
    feed.failure = some e ∧ feed.items.length < (capacities.take (i + 1)).sum
  /-- all of the stream is received by the last block -/
  whole : (∃ block, replies.getLast? = some (.ok (block,true))) → received replies = feed.items
  /-- the end comes with enough room -/
  ends : feed.failure = none → feed.items.length < capacities.sum →
    ∃ block, replies.getLast? = some (.ok (block,true))

/-- What one read can do. -/
theorem Feed.read_cases (announced : Bool) (feed : Feed α ε) (capacity : ℕ) :
    (∃ e, feed.read announced capacity = (.error e,feed) ∧ feed.failure = some e ∧ feed.items.length < capacity) ∨
    (∃ feed', feed.read announced capacity = (.ok (feed.items,true),feed') ∧ feed.failure = none ∧
      feed.items.length ≤ capacity ∧ (announced = true ∨ feed.items.length < capacity)) ∨
    (feed.read announced capacity =
        (.ok (feed.items.take capacity,false),⟨feed.items.drop capacity,feed.failure⟩) ∧
      capacity ≤ feed.items.length ∧
      ¬(feed.failure = none ∧ feed.items.length = capacity ∧ announced = true)) := by
  unfold Feed.read
  by_cases hshort : feed.items.length < capacity
  · rw [if_pos hshort]
    cases hfailure : feed.failure with
    | none => exact .inr (.inl ⟨_,rfl,rfl,hshort.le,.inr hshort⟩)
    | some e => exact .inl ⟨e,rfl,rfl,hshort⟩
  · rw [if_neg hshort]
    right
    by_cases hlast : feed.failure = none ∧ feed.items.length = capacity ∧ announced = true
    · obtain ⟨hfailure,hlength,hannounced⟩ := hlast
      left
      refine ⟨⟨[],none⟩,?_,hfailure,hlength.le,.inl hannounced⟩
      rw [← hlength]
      simp [hfailure,hannounced]
    · right
      refine ⟨?_,not_lt.mp hshort,hlast⟩
      have hfalse : (announced && feed.failure.isNone && decide (feed.items.length = capacity)) = false := by
        rw [Bool.eq_false_iff]
        intro h
        simp only [Bool.and_eq_true, decide_eq_true_eq, Option.isNone_iff_eq_none] at h
        exact hlast ⟨h.1.2,h.2,h.1.1⟩
      rw [hfalse]

/-- A single reply, the last. -/
private theorem delivered_last {announced : Bool} {feed : Feed α ε} {capacity : ℕ} {capacities : List ℕ}
    (hfailure : feed.failure = none) (hlength : feed.items.length ≤ capacity)
    (hlast : announced = true ∨ feed.items.length < capacity) :
    Delivered announced feed (capacity :: capacities) [.ok (feed.items,true)] where
  block i block last hi := by
    obtain ⟨rfl,hreply⟩ : i = 0 ∧ (feed.items,true) = (block,last) := by
      cases i with
      | zero => simpa using hi
      | succ i => simp at hi
    cases hreply
    exact ⟨capacity,rfl,by simp [List.take_of_length_le hlength],by simp,by simp [hfailure,hlast]⟩
  error i e hi := by
    cases i with
    | zero => simp at hi
    | succ i => simp at hi
  whole _ := by simp [received]
  ends _ _ := ⟨feed.items,rfl⟩

private theorem delivered_error {announced : Bool} {feed : Feed α ε} {capacity : ℕ} {capacities : List ℕ} {e : ε}
    (hfailure : feed.failure = some e) (hlength : feed.items.length < capacity) :
    Delivered announced feed (capacity :: capacities) [.error e] where
  block i block last hi := by
    cases i with
    | zero => simp at hi
    | succ i => simp at hi
  error i e' hi := by
    cases i with
    | zero =>
      obtain rfl : e = e' := by simpa using hi
      exact ⟨hfailure,by simpa using hlength⟩
    | succ i => simp at hi
  whole h := by simp at h
  ends h := by simp [hfailure] at h

/-- A full block in front. -/
private theorem Delivered.cons {announced : Bool} {feed : Feed α ε} {capacity : ℕ} {capacities : List ℕ}
    {replies : List (Except ε (List α × Bool))} (hlength : capacity ≤ feed.items.length)
    (hnot : ¬(feed.failure = none ∧ feed.items.length = capacity ∧ announced = true))
    (hrest : Delivered announced ⟨feed.items.drop capacity,feed.failure⟩ capacities replies) :
    Delivered announced feed (capacity :: capacities) (.ok (feed.items.take capacity,false) :: replies) where
  block i block last hi := by
    cases i with
    | zero =>
      obtain ⟨rfl,rfl⟩ : feed.items.take capacity = block ∧ false = last := by simpa using hi
      refine ⟨capacity,rfl,by simp,by simp [hlength],?_⟩
      simp only [Bool.false_eq_true, List.take_zero, List.sum_nil, zero_add, List.length_take, false_iff]
      rw [min_eq_left hlength]
      rintro ⟨hfailure,hwhole,hlast⟩
      exact hnot ⟨hfailure,hwhole.symm,hlast.resolve_right (lt_irrefl _)⟩
    | succ i =>
      obtain ⟨room,hroom,hblock,hfull,hend⟩ := hrest.block i block last (by simpa using hi)
      refine ⟨room,by simpa using hroom,?_,hfull,?_⟩
      · simpa [List.drop_drop,Nat.add_comm] using hblock
      · rw [hend]
        simp only [List.length_drop, List.take_succ_cons, List.sum_cons]
        refine and_congr_right fun _ => and_congr_left fun _ => ?_
        omega
  error i e hi := by
    cases i with
    | zero => simp at hi
    | succ i =>
      obtain ⟨hfailure,hshort⟩ := hrest.error i e (by simpa using hi)
      refine ⟨hfailure,?_⟩
      simp only [List.length_drop] at hshort
      rw [List.take_succ_cons, List.sum_cons]
      omega
  whole h := by
    have hlast : ∃ block, replies.getLast? = some (.ok (block,true)) := by
      obtain ⟨block,hblock⟩ := h
      cases replies with
      | nil => simp at hblock
      | cons reply replies => exact ⟨block,by simpa using hblock⟩
    have hwhole := hrest.whole hlast
    simp only [received, List.flatMap_cons] at hwhole ⊢
    rw [hwhole, List.take_append_drop]
  ends hfailure hroom := by
    obtain ⟨block,hblock⟩ := hrest.ends hfailure (by
      simp only [List.length_drop, List.sum_cons] at hroom ⊢
      omega)
    refine ⟨block,?_⟩
    cases replies with
    | nil => simp at hblock
    | cons reply replies => simpa using hblock

/-- Reading a stream delivers it, whatever the capacities are. -/
theorem delivered_reads (announced : Bool) (feed : Feed α ε) (capacities : List ℕ) :
    Delivered announced feed capacities (reads (Feed.read announced) capacities feed) := by
  induction capacities generalizing feed with
  | nil =>
    constructor
    · intro i block last hi
      simp [reads] at hi
    · intro i e hi
      simp [reads] at hi
    · simp [reads]
    · intro _ hroom
      simp at hroom
  | cons capacity capacities ih =>
    simp only [reads]
    obtain ⟨e,hread,hfailure,hlength⟩ | ⟨feed',hread,hfailure,hlength,hlast⟩ | ⟨hread,hlength,hnot⟩ :=
      feed.read_cases announced capacity
    · rw [hread]
      exact delivered_error hfailure hlength
    · rw [hread]
      exact delivered_last hfailure hlength hlast
    · rw [hread]
      exact (ih _).cons hlength hnot

end BlockStream
