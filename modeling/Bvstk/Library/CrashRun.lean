import Mathlib.Data.List.Basic

/-! # Runs that may be cut off

A program works on a state by calls, each of which may fail. The states it passes are
kept, since the power may be lost in any of them; what is found after that is a relation
between the state cut off and the one the next run starts in.
-/
namespace CrashRun

structure Run (σ : Type*) where
  state : σ
  past : List σ

variable {σ α : Type*} {P Q : σ → Prop} {r : Run σ}

def start (s : σ) : Run σ := ⟨s,[]⟩

def Run.call (r : Run σ) (f : σ → α × σ) : α × Run σ :=
  ((f r.state).1,⟨(f r.state).2,r.past ++ [r.state]⟩)

/-- The states in which the run can have been cut off. -/
def Run.states (r : Run σ) : List σ := r.past ++ [r.state]

@[simp] theorem start_state (s : σ) : (start s).state = s := rfl
@[simp] theorem start_states (s : σ) : (start s).states = [s] := rfl
@[simp] theorem call_fst (f : σ → α × σ) : (r.call f).1 = (f r.state).1 := rfl
@[simp] theorem call_state (f : σ → α × σ) : (r.call f).2.state = (f r.state).2 := rfl
@[simp] theorem call_states (f : σ → α × σ) : (r.call f).2.states = r.states ++ [(f r.state).2] := rfl

theorem state_mem (r : Run σ) : r.state ∈ r.states := by
  simp [Run.states]

/-- `P` in every state of the run. -/
def Always (P : σ → Prop) (r : Run σ) : Prop := ∀ s ∈ r.states, P s

@[simp] theorem always_start {s : σ} : Always P (start s) ↔ P s := by
  simp [Always]

theorem Always.state (h : Always P r) : P r.state := h _ (state_mem r)

theorem Always.mono (h : Always P r) (himp : ∀ s, P s → Q s) : Always Q r :=
  fun s hs => himp s (h s hs)

theorem always_call {f : σ → α × σ} : Always P (r.call f).2 ↔ Always P r ∧ P (f r.state).2 := by
  simp [Always, or_imp, forall_and]

theorem Always.call (h : Always P r) {f : σ → α × σ} (hf : P r.state → P (f r.state).2) :
    Always P (r.call f).2 :=
  always_call.mpr ⟨h,hf h.state⟩

/-- From `r` to `r'` only states with `P` are passed, and one is reached. -/
structure Passes (P : σ → Prop) (r r' : Run σ) : Prop where
  passed : ∃ new, r'.states = r.states ++ new ∧ ∀ s ∈ new, P s
  state : P r'.state

theorem passes_refl (h : P r.state) : Passes P r r := ⟨⟨[],by simp,by simp⟩,h⟩

theorem Passes.call {r' : Run σ} (h : Passes P r r') {f : σ → α × σ} (hf : P r'.state → P (f r'.state).2) :
    Passes P r (r'.call f).2 := by
  obtain ⟨⟨new,hnew,hP⟩,hstate⟩ := h
  refine ⟨⟨new ++ [(f r'.state).2],by rw [call_states, hnew, List.append_assoc],?_⟩,hf hstate⟩
  intro s hs
  rcases List.mem_append.mp hs with hs | hs
  · exact hP s hs
  · exact List.mem_singleton.mp hs ▸ hf hstate

theorem Passes.trans {r' r'' : Run σ} (h : Passes P r r') (h' : Passes Q r' r'') (himp : ∀ s, Q s → P s) :
    Passes P r r'' := by
  obtain ⟨⟨new,hnew,hP⟩,-⟩ := h
  obtain ⟨⟨new',hnew',hQ⟩,hstate⟩ := h'
  refine ⟨⟨new ++ new',by rw [hnew', hnew, List.append_assoc],?_⟩,himp _ hstate⟩
  intro s hs
  rcases List.mem_append.mp hs with hs | hs
  · exact hP s hs
  · exact himp s (hQ s hs)

theorem Always.of_passes {r' : Run σ} (hr : Always Q r) (h : Passes P r r') (himp : ∀ s, P s → Q s) :
    Always Q r' := by
  obtain ⟨⟨new,hnew,hP⟩,-⟩ := h
  intro s hs
  rw [hnew] at hs
  rcases List.mem_append.mp hs with hs | hs
  · exact hr s hs
  · exact himp s (hP s hs)

/-! ## Cut off and restarted -/

/-- What may be found after the run was cut off. -/
def Cut (Reset : σ → σ → Prop) (r : Run σ) (t : σ) : Prop := ∃ s ∈ r.states, Reset s t

theorem Cut.of_always {Reset : σ → σ → Prop} {t : σ} (h : Cut Reset r t) (hr : Always P r)
    (hreset : ∀ s t, P s → Reset s t → P t) : P t := by
  obtain ⟨s,hs,hst⟩ := h
  exact hreset s t (hr s hs) hst

/-- The program is run again and again, each time cut off somewhere. -/
inductive Restarted (Reset : σ → σ → Prop) (program : σ → Run σ) (s : σ) : σ → Prop
  | first : Restarted Reset program s s
  | again {t u : σ} : Restarted Reset program s t → Cut Reset (program t) u → Restarted Reset program s u

theorem Restarted.of_always {Reset : σ → σ → Prop} {program : σ → Run σ} {s t : σ}
    (h : Restarted Reset program s t) (hs : P s) (hrun : ∀ s, P s → Always P (program s))
    (hreset : ∀ s t, P s → Reset s t → P t) : P t := by
  induction h with
  | first => exact hs
  | again _ hcut ih => exact hcut.of_always (hrun _ ih) hreset

end CrashRun
