import Mathlib.Data.List.Basic

/-! # Lifetimes in a log

Objects are opened, used and closed, and each event of a log does one of these to one
object or nothing at all. A log is disciplined if nothing is opened twice and whatever is
used or closed was opened before and has not been closed since.
-/
namespace Lifetime

inductive Action (ι : Type*) where
  | opens (x : ι) | uses (x : ι) | closes (x : ι) | nothing

variable {κ ι : Type*} (act : κ → Action ι)

def Opened (log : List κ) (x : ι) : Prop := ∃ e ∈ log, act e = .opens x
def Closed (log : List κ) (x : ι) : Prop := ∃ e ∈ log, act e = .closes x
def Live (log : List κ) (x : ι) : Prop := Opened act log x ∧ ¬Closed act log x

structure Disciplined (log : List κ) : Prop where
  fresh : ∀ pre e post x, log = pre ++ e :: post → act e = .opens x → ¬Opened act pre x
  live : ∀ pre e post x, log = pre ++ e :: post → act e = .uses x ∨ act e = .closes x → Live act pre x

/-- Closed by one event, after which it is neither used nor closed. -/
def ClosedOnce (log : List κ) (x : ι) : Prop :=
  ∃ pre e post, log = pre ++ e :: post ∧ act e = .closes x ∧ ¬Closed act pre x ∧
    ∀ e' ∈ post, act e' ≠ .closes x ∧ act e' ≠ .uses x

variable {act} {log : List κ} {e : κ} {x y : ι}

theorem disciplined_nil : Disciplined act [] where
  fresh := fun pre e post _ h => absurd h.symm (List.append_ne_nil_of_right_ne_nil pre (List.cons_ne_nil e post))
  live := fun pre e post _ h => absurd h.symm (List.append_ne_nil_of_right_ne_nil pre (List.cons_ne_nil e post))

/-- A split of a longer log is one of the log before it, or at the new event. -/
theorem split_snoc {pre post : List κ} {e' : κ} (h : log ++ [e] = pre ++ e' :: post) :
    (pre = log ∧ e' = e) ∨ ∃ post', log = pre ++ e' :: post' := by
  rcases List.eq_nil_or_concat post with rfl | ⟨post',last,rfl⟩
  · obtain ⟨hpre,he⟩ := List.append_inj' h rfl
    rw [List.cons.injEq] at he
    exact Or.inl ⟨hpre.symm,he.1.symm⟩
  · rw [List.concat_eq_append, ← List.cons_append, ← List.append_assoc] at h
    exact Or.inr ⟨post',(List.append_inj' h rfl).1⟩

theorem Disciplined.snoc (h : Disciplined act log) (hfresh : ∀ x, act e = .opens x → ¬Opened act log x)
    (hlive : ∀ x, act e = .uses x ∨ act e = .closes x → Live act log x) : Disciplined act (log ++ [e]) where
  fresh := by
    intro pre e' post x hsplit hopens
    rcases split_snoc hsplit with ⟨rfl,rfl⟩ | ⟨post',hlog⟩
    · exact hfresh x hopens
    · exact h.fresh pre e' post' x hlog hopens
  live := by
    intro pre e' post x hsplit hdoes
    rcases split_snoc hsplit with ⟨rfl,rfl⟩ | ⟨post',hlog⟩
    · exact hlive x hdoes
    · exact h.live pre e' post' x hlog hdoes

theorem opened_snoc : Opened act (log ++ [e]) x ↔ Opened act log x ∨ act e = .opens x := by
  simp only [Opened, List.mem_append, List.mem_singleton, or_and_right, exists_or, exists_eq_left]

theorem closed_snoc : Closed act (log ++ [e]) x ↔ Closed act log x ∨ act e = .closes x := by
  simp only [Closed, List.mem_append, List.mem_singleton, or_and_right, exists_or, exists_eq_left]

theorem Disciplined.opened_of_closed (h : Disciplined act log) (hclosed : Closed act log x) : Opened act log x := by
  obtain ⟨e,he,hcloses⟩ := hclosed
  obtain ⟨pre,post,rfl⟩ := List.append_of_mem he
  obtain ⟨⟨e',he',hopens⟩,-⟩ := h.live pre e post x rfl (Or.inr hcloses)
  exact ⟨e',List.mem_append_left _ he',hopens⟩

/-! ## What is live after one more event -/

theorem live_of_opens (h : Disciplined act log) (he : act e = .opens x) (hfresh : ¬Opened act log x) :
    Live act (log ++ [e]) y ↔ Live act log y ∨ y = x := by
  rw [Live, opened_snoc, closed_snoc, he]
  simp only [Action.opens.injEq, reduceCtorEq, or_false, Live]
  constructor
  · rintro ⟨hopened | rfl,hclosed⟩
    · exact Or.inl ⟨hopened,hclosed⟩
    · exact Or.inr rfl
  · rintro (⟨hopened,hclosed⟩ | rfl)
    · exact ⟨Or.inl hopened,hclosed⟩
    · exact ⟨Or.inr rfl,fun hclosed => hfresh (h.opened_of_closed hclosed)⟩

theorem live_of_closes (he : act e = .closes x) : Live act (log ++ [e]) y ↔ Live act log y ∧ y ≠ x := by
  rw [Live, opened_snoc, closed_snoc, he]
  simp only [Action.closes.injEq, reduceCtorEq, or_false, Live]
  constructor
  · rintro ⟨hopened,hclosed⟩
    exact ⟨⟨hopened,fun hc => hclosed (Or.inl hc)⟩,fun heq => hclosed (Or.inr heq.symm)⟩
  · rintro ⟨⟨hopened,hclosed⟩,hne⟩
    exact ⟨hopened,fun hc => hc.elim hclosed fun heq => hne heq.symm⟩

/-- An event that opens and closes nothing. -/
theorem live_of_idle (hopens : ∀ x, act e ≠ .opens x) (hcloses : ∀ x, act e ≠ .closes x) :
    Live act (log ++ [e]) y ↔ Live act log y := by
  rw [Live, opened_snoc, closed_snoc]
  simp only [hopens, hcloses, or_false, Live]

theorem Disciplined.closedOnce (h : Disciplined act log) (hclosed : Closed act log x) : ClosedOnce act log x := by
  obtain ⟨e,he,hcloses⟩ := hclosed
  obtain ⟨pre,post,rfl⟩ := List.append_of_mem he
  refine ⟨pre,e,post,rfl,hcloses,(h.live pre e post x rfl (Or.inr hcloses)).2,?_⟩
  intro e' he'
  obtain ⟨pre',post',rfl⟩ := List.append_of_mem he'
  have hafter : Closed act (pre ++ e :: pre') x := ⟨e,List.mem_append_right _ List.mem_cons_self,hcloses⟩
  have hdead : ¬Live act (pre ++ e :: pre') x := fun hlive => hlive.2 hafter
  have hsplit : pre ++ e :: (pre' ++ e' :: post') = (pre ++ e :: pre') ++ e' :: post' := by
    rw [List.append_assoc, List.cons_append]
  constructor
  · exact fun hc => hdead (h.live _ e' post' x hsplit (Or.inr hc))
  · exact fun hu => hdead (h.live _ e' post' x hsplit (Or.inl hu))

end Lifetime
