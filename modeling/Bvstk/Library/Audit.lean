import Mathlib.Data.List.Basic
import Mathlib.Data.Nat.Notation

/-! # Audited transactions

A component that forwards transactions writes an audit trail beside them. Every
transaction is bracketed: its attempt, then at most one forwarding, then its one outcome,
before the next transaction begins.
-/
namespace Audit

inductive Outcome where
  | commit | denied | fault
  deriving DecidableEq, Repr

/-- What can be seen of a transaction `x`. -/
inductive Mark (τ : Type*) where
  | captured (x : τ)
  | attempt (x : τ)
  | forward (x : τ)
  | outcome (o : Outcome) (x : τ)
  deriving DecidableEq, Repr

variable {τ : Type*} {x y : τ} {o : Outcome} {l l' : List (Mark τ)}

/-- The trail of one transaction: refused, or forwarded once. -/
inductive Episode : τ → List (Mark τ) → Prop where
  | refused (x : τ) {o : Outcome} (h : o ≠ .commit) : Episode x [.attempt x,.outcome o x]
  | forwarded (x : τ) {o : Outcome} (h : o ≠ .denied) : Episode x [.attempt x,.forward x,.outcome o x]

/-- The trail of a sequence of transactions, some of them captured first. -/
inductive Bracketed : List (Mark τ) → Prop where
  | nil : Bracketed []
  | requested {x : τ} {l l' : List (Mark τ)} (h : Episode x l) (h' : Bracketed l') : Bracketed (l ++ l')
  | captured {x : τ} {l l' : List (Mark τ)} (h : Episode x l) (h' : Bracketed l') :
      Bracketed (.captured x :: (l ++ l'))

theorem Bracketed.append (h : Bracketed l) (h' : Bracketed l') : Bracketed (l ++ l') := by
  induction h with
  | nil => exact h'
  | requested hx _ ih =>
    rw [List.append_assoc]
    exact .requested hx ih
  | captured hx _ ih =>
    rw [List.cons_append, List.append_assoc]
    exact .captured hx ih

theorem Episode.bracketed (h : Episode x l) : Bracketed l := by
  have hrest := Bracketed.requested h .nil
  rwa [List.append_nil] at hrest

/-! ## Parts of a trail -/

def captures (l : List (Mark τ)) : List τ := l.filterMap fun | .captured x => some x | _ => none
def attempts (l : List (Mark τ)) : List τ := l.filterMap fun | .attempt x => some x | _ => none
def forwards (l : List (Mark τ)) : List τ := l.filterMap fun | .forward x => some x | _ => none
def outcomeList (l : List (Mark τ)) : List τ := l.filterMap fun | .outcome _ x => some x | _ => none

/-- A trail of captures alone. -/
theorem parts_captured (xs : List τ) : captures (xs.map .captured) = xs ∧ attempts (xs.map Mark.captured) = [] ∧
    forwards (xs.map Mark.captured) = [] ∧ outcomeList (xs.map Mark.captured) = [] := by
  induction xs with
  | nil => exact ⟨rfl,rfl,rfl,rfl⟩
  | cons x xs ih =>
    obtain ⟨hc,ha,hf,ho⟩ := ih
    exact ⟨congrArg _ hc,ha,hf,ho⟩

/-! ## Counting -/

variable [DecidableEq τ]

/-- How often the trail ends a transaction `x`. -/
def outcomes (x : τ) (l : List (Mark τ)) : ℕ :=
  l.count (.outcome .commit x) + l.count (.outcome .denied x) + l.count (.outcome .fault x)

theorem outcomes_append (x : τ) (l l' : List (Mark τ)) : outcomes x (l ++ l') = outcomes x l + outcomes x l' := by
  simp only [outcomes, List.count_append]
  omega

theorem Episode.counts (h : Episode x l) (y : τ) :
    l.count (.attempt y) = outcomes y l ∧ l.count (.forward y) ≤ l.count (.attempt y) := by
  cases h with
  | @refused o _ => cases o <;> by_cases hxy : x = y <;> simp [outcomes, hxy]
  | @forwarded o _ => cases o <;> by_cases hxy : x = y <;> simp [outcomes, hxy]

/-- Every attempt has its one outcome, and nothing is forwarded twice. -/
theorem Bracketed.counts (h : Bracketed l) (y : τ) :
    l.count (.attempt y) = outcomes y l ∧ l.count (.forward y) ≤ l.count (.attempt y) := by
  induction h with
  | nil => exact ⟨rfl,Nat.le_refl 0⟩
  | requested hx _ ih =>
    have hepisode := hx.counts y
    rw [outcomes_append, List.count_append, List.count_append]
    omega
  | @captured x l l' hx _ ih =>
    have hepisode := hx.counts y
    have houtcomes : outcomes y (.captured x :: (l ++ l')) = outcomes y l + outcomes y l' := by
      rw [← outcomes_append]
      simp [outcomes]
    rw [houtcomes]
    simp only [List.count_cons, List.count_append, beq_iff_eq, reduceCtorEq, if_false, Nat.add_zero]
    omega

end Audit
