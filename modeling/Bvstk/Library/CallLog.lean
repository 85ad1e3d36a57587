import Mathlib.Data.List.Basic

/-! # Components and the calls they make

A component calls out into an environment that may answer anything. Every call is
recorded together with the state of the component at that moment, so that rules about
what it may call, and when, are properties of the record.
-/
namespace CallLog

structure World (σ ε κ : Type*) where
  state : σ
  env : ε
  calls : List (σ × κ)

variable {σ ε κ : Type*} {P Q : σ → κ → Prop} {w w' w'' : World σ ε κ}

/-- Records a call, in the present state. -/
def World.call (w : World σ ε κ) (c : κ) : World σ ε κ := { w with calls := w.calls ++ [(w.state,c)] }

/-- Changes the state without a call. -/
def World.modify (w : World σ ε κ) (f : σ → σ) : World σ ε κ := { w with state := f w.state }

@[simp] theorem call_state (w : World σ ε κ) (c : κ) : (w.call c).state = w.state := rfl
@[simp] theorem call_env (w : World σ ε κ) (c : κ) : (w.call c).env = w.env := rfl
@[simp] theorem modify_state (w : World σ ε κ) (f : σ → σ) : (w.modify f).state = f w.state := rfl
@[simp] theorem modify_env (w : World σ ε κ) (f : σ → σ) : (w.modify f).env = w.env := rfl
@[simp] theorem modify_calls (w : World σ ε κ) (f : σ → σ) : (w.modify f).calls = w.calls := rfl

/-- From `w` to `w'` only calls with `P` were made. -/
def Makes (P : σ → κ → Prop) (w w' : World σ ε κ) : Prop :=
  ∃ new, w'.calls = w.calls ++ new ∧ ∀ p ∈ new, P p.1 p.2

theorem makes_of_calls (h : w'.calls = w.calls) : Makes P w w' :=
  ⟨[],h.trans (List.append_nil _).symm,fun _ hp => absurd hp List.not_mem_nil⟩

theorem makes_refl (w : World σ ε κ) : Makes P w w := makes_of_calls rfl

theorem makes_call {c : κ} (h : P w.state c) : Makes P w (w.call c) :=
  ⟨_,rfl,fun _ hp => List.mem_singleton.mp hp ▸ h⟩

theorem Makes.trans (h : Makes P w w') (h' : Makes P w' w'') : Makes P w w'' := by
  obtain ⟨new,hnew,hP⟩ := h
  obtain ⟨new',hnew',hP'⟩ := h'
  refine ⟨new ++ new',by rw [hnew', hnew, List.append_assoc],?_⟩
  intro p hp
  rcases List.mem_append.mp hp with hp | hp
  · exact hP p hp
  · exact hP' p hp

theorem Makes.mono (h : Makes P w w') (himp : ∀ s c, P s c → Q s c) : Makes Q w w' := by
  obtain ⟨new,hnew,hP⟩ := h
  exact ⟨new,hnew,fun p hp => himp _ _ (hP p hp)⟩

/-- A rule that held of the record so far keeps holding. -/
theorem Makes.all (h : Makes P w w') (hw : ∀ p ∈ w.calls, P p.1 p.2) : ∀ p ∈ w'.calls, P p.1 p.2 := by
  obtain ⟨new,hnew,hP⟩ := h
  intro p hp
  rw [hnew] at hp
  rcases List.mem_append.mp hp with hp | hp
  · exact hw p hp
  · exact hP p hp

/-! ## What a part of the record shows -/

/-- From `w` to `w'` only calls with `P` were made, and `view` picks exactly `marks`
out of them. -/
def Logs {μ : Type*} (P : σ → κ → Prop) (view : κ → Option μ) (marks : List μ) (w w' : World σ ε κ) : Prop :=
  ∃ new, w'.calls = w.calls ++ new ∧ new.filterMap (fun p => view p.2) = marks ∧ ∀ p ∈ new, P p.1 p.2

section
variable {μ : Type*} {view : κ → Option μ} {marks marks' : List μ}

theorem logs_of_calls (h : w'.calls = w.calls) : Logs P view [] w w' :=
  ⟨[],h.trans (List.append_nil _).symm,rfl,fun _ hp => absurd hp List.not_mem_nil⟩

theorem logs_refl (w : World σ ε κ) : Logs P view [] w w := logs_of_calls rfl

theorem logs_call {c : κ} (h : P w.state c) : Logs P view (view c).toList w (w.call c) := by
  refine ⟨[(w.state,c)],rfl,?_,fun _ hp => List.mem_singleton.mp hp ▸ h⟩
  cases hview : view c with
  | none => simp [hview]
  | some m => simp [hview]

theorem Logs.trans (h : Logs P view marks w w') (h' : Logs P view marks' w' w'') :
    Logs P view (marks ++ marks') w w'' := by
  obtain ⟨new,hnew,rfl,hP⟩ := h
  obtain ⟨new',hnew',rfl,hP'⟩ := h'
  refine ⟨new ++ new',by rw [hnew', hnew, List.append_assoc],List.filterMap_append,?_⟩
  intro p hp
  rcases List.mem_append.mp hp with hp | hp
  · exact hP p hp
  · exact hP' p hp

/-- Before or after a part that shows nothing. -/
theorem Logs.after (h : Logs P view [] w w') (h' : Logs P view marks w' w'') : Logs P view marks w w'' := h.trans h'

theorem Logs.before (h : Logs P view marks w w') (h' : Logs P view [] w' w'') : Logs P view marks w w'' := by
  have hboth := h.trans h'
  rwa [List.append_nil] at hboth

theorem Logs.makes (h : Logs P view marks w w') : Makes P w w' := by
  obtain ⟨new,hnew,-,hP⟩ := h
  exact ⟨new,hnew,hP⟩

end

end CallLog
