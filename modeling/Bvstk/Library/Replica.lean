import Mathlib.Data.List.Basic
import Mathlib.Data.Nat.Notation

/-! # Replicas that follow an append-only log

A replica at position `cursor` of a log applies the records it is interested in,
one by one, each continuing the last. `Tracks` says that doing so to the end of
the log reproduces the original.
-/
namespace Replica
variable {σ α : Type*} (apply : σ → α → σ) (continues : σ → α → Prop)

/-- Applying the records in order leads from one state to the other without a gap. -/
def Replays : σ → List α → σ → Prop
  | s, [], t => t = s
  | s, a :: log, t => continues s a ∧ Replays (apply s a) log t

variable {apply continues}

theorem Replays.snoc {s t : σ} {log : List α} (h : Replays apply continues s log t) {a : α}
    (ha : continues t a) : Replays apply continues s (log ++ [a]) (apply t a) := by
  induction log generalizing s with
  | nil =>
    obtain rfl : t = s := h
    exact ⟨ha,rfl⟩
  | cons b log ih => exact ⟨h.1,ih h.2⟩

theorem Replays.mono {continues' : σ → α → Prop} (hmono : ∀ s a, continues s a → continues' s a) {s t : σ}
    {log : List α} (h : Replays apply continues s log t) : Replays apply continues' s log t := by
  induction log generalizing s with
  | nil => exact h
  | cons a log ih => exact ⟨hmono _ _ h.1,ih h.2⟩

variable (apply continues)

/-- A replica in state `s` that has seen the log up to `cursor`, of an original in state `t`. -/
def Tracks (wanted : α → Bool) (log : List α) (cursor : ℕ) (s t : σ) : Prop :=
  Replays apply continues s ((log.drop cursor).filter wanted) t

variable {apply continues} {wanted : α → Bool} {log : List α} {cursor : ℕ} {s t : σ}

theorem tracks_end (s : σ) : Tracks apply continues wanted log log.length s s := by
  simp only [Tracks, List.drop_length, List.filter_nil]
  exact rfl

theorem Tracks.mono {continues' : σ → α → Prop} (hmono : ∀ s a, continues s a → continues' s a)
    (h : Tracks apply continues wanted log cursor s t) : Tracks apply continues' wanted log cursor s t :=
  Replays.mono hmono h

/-- The original moves on, and the log with it. -/
theorem Tracks.push (h : Tracks apply continues wanted log cursor s t) (hcursor : cursor ≤ log.length) {a : α}
    (hwanted : wanted a = true) (ha : continues t a) :
    Tracks apply continues wanted (log ++ [a]) cursor s (apply t a) := by
  simp only [Tracks, List.drop_append_of_le_length hcursor, List.filter_append, List.filter_cons, hwanted,
    ↓reduceIte, List.filter_nil]
  exact Replays.snoc h ha

/-- Records for others are passed over. -/
theorem Tracks.skip (h : Tracks apply continues wanted log cursor s t) (hcursor : cursor ≤ log.length) {a : α}
    (hwanted : wanted a = false) : Tracks apply continues wanted (log ++ [a]) cursor s t := by
  simp only [Tracks, List.drop_append_of_le_length hcursor, List.filter_append, List.filter_cons, hwanted,
    Bool.false_eq_true, ↓reduceIte, List.filter_nil, List.append_nil]
  exact h

/-- Nothing wanted from `cursor` up to `j`. -/
def Quiet (wanted : α → Bool) (log : List α) (cursor j : ℕ) : Prop :=
  ∀ k a, cursor ≤ k → k < j → log[k]? = some a → wanted a = false

theorem filter_drop_of_quiet {j : ℕ} (hj : cursor ≤ j) (h : Quiet wanted log cursor j) :
    (log.drop cursor).filter wanted = (log.drop j).filter wanted := by
  induction hj with
  | refl => rfl
  | @step j hj ih =>
    have hprev := ih fun k a hk hkj hget => h k a hk (Nat.lt_succ_of_lt hkj) hget
    rw [hprev]
    cases hget : log[j]? with
    | none =>
      have hlen := List.getElem?_eq_none_iff.mp hget
      rw [List.drop_eq_nil_of_le hlen, List.drop_eq_nil_of_le (Nat.le_succ_of_le hlen)]
    | some a =>
      obtain ⟨hlt,rfl⟩ := List.getElem?_eq_some_iff.mp hget
      have hunwanted := h j log[j] hj (Nat.lt_succ_self j) hget
      rw [List.drop_eq_getElem_cons hlt, List.filter_cons, hunwanted]
      rfl

/-- The next wanted record continues the replica, which then tracks from behind it. -/
theorem Tracks.deliver (h : Tracks apply continues wanted log cursor s t) {j : ℕ} {a : α} (hj : cursor ≤ j)
    (hquiet : Quiet wanted log cursor j) (hget : log[j]? = some a) (hwanted : wanted a = true) :
    continues s a ∧ Tracks apply continues wanted log (j + 1) (apply s a) t := by
  obtain ⟨hlt,rfl⟩ := List.getElem?_eq_some_iff.mp hget
  rw [Tracks, filter_drop_of_quiet hj hquiet, List.drop_eq_getElem_cons hlt, List.filter_cons, if_pos hwanted]
    at h
  exact h

/-- With nothing wanted left, replica and original agree. -/
theorem Tracks.caughtUp (h : Tracks apply continues wanted log cursor s t) (hcursor : cursor ≤ log.length)
    (hquiet : Quiet wanted log cursor log.length) :
    t = s ∧ Tracks apply continues wanted log log.length s t := by
  rw [Tracks, filter_drop_of_quiet hcursor hquiet] at h
  refine ⟨?_,h⟩
  simpa only [List.drop_length, List.filter_nil, Replays] using h

end Replica
