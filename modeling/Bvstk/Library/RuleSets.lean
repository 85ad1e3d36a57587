import Bvstk.Library.Machine
import Mathlib.Data.Set.Insert
import Mathlib.Logic.Function.Basic

/-! # Rule sets and their editors

A policy has two sets of rules and a mode that says which of them decides. Editors keep the
rules in whatever way they like; an editor is faithful where every edit that it acknowledges
is the edit of the sets.
-/
namespace RuleSets

/-- The set of the permitted, or of the forbidden. -/
inductive Side where
  | allow | deny
  deriving DecidableEq, Repr

@[ext] structure Policy (ρ χ : Type*) where
  mode : Side
  rules : Side → Set ρ
  range : Set χ

inductive Edit (ρ : Type*) where
  | add (side : Side) (rule : ρ)
  | remove (side : Side) (rule : ρ)
  | clear (side : Side)
  | setMode (mode : Side)

variable {ρ χ : Type*}

/-- What a policy permits, when a rule `hit`s a request: inside its range, one of the allowed,
or none of the denied. -/
def Policy.Allows (hit : ρ → χ → Prop) (p : Policy ρ χ) (x : χ) : Prop :=
  x ∈ p.range ∧
    match p.mode with
    | .allow => ∃ r ∈ p.rules .allow, hit r x
    | .deny => ∀ r ∈ p.rules .deny, ¬hit r x

/-- The same policy with other rules on one side. -/
def Policy.setRules (p : Policy ρ χ) (side : Side) (rules : Set ρ) : Policy ρ χ :=
  { p with rules := Function.update p.rules side rules }

def Edit.apply : Edit ρ → Policy ρ χ → Policy ρ χ
  | .add side r, p => p.setRules side (insert r (p.rules side))
  | .remove side r, p => p.setRules side (p.rules side \ {r})
  | .clear side, p => p.setRules side ∅
  | .setMode mode, p => { p with mode := mode }

theorem apply_add (side : Side) (r : ρ) (p : Policy ρ χ) :
    (Edit.add side r).apply p = p.setRules side (insert r (p.rules side)) := rfl
theorem apply_remove (side : Side) (r : ρ) (p : Policy ρ χ) :
    (Edit.remove side r).apply p = p.setRules side (p.rules side \ {r}) := rfl
theorem apply_clear (side : Side) (p : Policy ρ χ) : (Edit.clear side).apply p = p.setRules side ∅ := rfl
theorem apply_setMode (mode : Side) (p : Policy ρ χ) : (Edit.setMode mode).apply p = { p with mode := mode } := rfl

@[simp] theorem setRules_mode (p : Policy ρ χ) (side : Side) (rules : Set ρ) : (p.setRules side rules).mode = p.mode := rfl
@[simp] theorem setRules_range (p : Policy ρ χ) (side : Side) (rules : Set ρ) : (p.setRules side rules).range = p.range := rfl
@[simp] theorem setRules_self (p : Policy ρ χ) (side : Side) (rules : Set ρ) : (p.setRules side rules).rules side = rules :=
  Function.update_self ..

@[simp] theorem setRules_other {side other : Side} (h : other ≠ side) (p : Policy ρ χ) (rules : Set ρ) :
    (p.setRules side rules).rules other = p.rules other := Function.update_of_ne h ..

theorem setRules_eq (p : Policy ρ χ) (side : Side) : p.setRules side (p.rules side) = p := by
  unfold Policy.setRules
  rw [Function.update_eq_self]

theorem setRules_inj {p : Policy ρ χ} {side : Side} {rules rules' : Set ρ} :
    p.setRules side rules = p.setRules side rules' ↔ rules = rules' := by
  constructor
  · intro h
    rw [← setRules_self p side rules, h, setRules_self]
  · rintro rfl
    rfl

/-- Two policies with the same sides. -/
theorem policy_ext {p q : Policy ρ χ} (hmode : p.mode = q.mode) (hrange : p.range = q.range)
    (hallow : p.rules .allow = q.rules .allow) (hdeny : p.rules .deny = q.rules .deny) : p = q := by
  refine Policy.ext hmode (funext fun side => ?_) hrange
  cases side with
  | allow => exact hallow
  | deny => exact hdeny

/-! ## Editors -/

/-- Commands and whether they are acknowledged, what a command asks for, and what an editor's
state stands for. -/
structure Editor (σ κ ρ χ : Type*) where
  step : σ → κ → σ × Bool
  asks : σ → κ → Option (Edit ρ)
  policy : σ → Policy ρ χ

section
variable {σ κ : Type*} (ed : Editor σ κ ρ χ)

/-- An acknowledged command has done what it asks for; any other has changed nothing. -/
def Editor.Faithful (s : σ) (c : κ) : Prop :=
  if (ed.step s c).2 then ∃ e, ed.asks s c = some e ∧ ed.policy (ed.step s c).1 = e.apply (ed.policy s)
  else ed.policy (ed.step s c).1 = ed.policy s

/-- Along a run, `P` of every state and the command given in it. -/
def Editor.Along (P : σ → κ → Prop) : σ → List κ → Prop
  | _, [] => True
  | s, c :: commands => P s c ∧ Editor.Along P (ed.step s c).1 commands

/-- The acknowledged edits of a run. -/
def Editor.edits : σ → List κ → List (Edit ρ)
  | _, [] => []
  | s, c :: commands =>
    (if (ed.step s c).2 then (ed.asks s c).toList else []) ++ Editor.edits (ed.step s c).1 commands

variable {ed} {P Q : σ → κ → Prop} {I : σ → Prop}

theorem Editor.faithful_acknowledged {s t : σ} {c : κ} {e : Edit ρ} (hstep : ed.step s c = (t,true))
    (hasks : ed.asks s c = some e) : ed.Faithful s c ↔ ed.policy t = e.apply (ed.policy s) := by
  unfold Editor.Faithful
  simp [hstep, hasks]

theorem Editor.faithful_refused {s t : σ} {c : κ} (hstep : ed.step s c = (t,false)) :
    ed.Faithful s c ↔ ed.policy t = ed.policy s := by
  unfold Editor.Faithful
  simp [hstep]

/-- Where an invariant is kept, it may be used for every step. -/
theorem Editor.along_congr (hkeep : ∀ s c, I s → I (ed.step s c).1) (h : ∀ s c, I s → (P s c ↔ Q s c)) {s : σ} (hs : I s)
    (commands : List κ) : ed.Along P s commands ↔ ed.Along Q s commands := by
  induction commands generalizing s with
  | nil => exact Iff.rfl
  | cons c commands ih => exact and_congr (h s c hs) (ih (hkeep s c hs))

theorem Editor.along_of (hkeep : ∀ s c, I s → I (ed.step s c).1) (h : ∀ s c, I s → P s c) {s : σ} (hs : I s)
    (commands : List κ) : ed.Along P s commands := by
  induction commands generalizing s with
  | nil => trivial
  | cons c commands ih => exact ⟨h s c hs,ih (hkeep s c hs)⟩

theorem Editor.final_keeps (hkeep : ∀ s c, I s → I (ed.step s c).1) {s : σ} (hs : I s) (commands : List κ) :
    I (Machine.final ed.step s commands) := by
  induction commands generalizing s with
  | nil => exact hs
  | cons c commands ih => exact ih (hkeep s c hs)

/-- A faithful run is the run of its acknowledged edits over the sets. -/
theorem Editor.policy_final {s : σ} {commands : List κ} (h : ed.Along ed.Faithful s commands) :
    ed.policy (Machine.final ed.step s commands) = (ed.edits s commands).foldl (fun p e => e.apply p) (ed.policy s) := by
  induction commands generalizing s with
  | nil => rfl
  | cons c commands ih =>
    obtain ⟨hstep,hrest⟩ := h
    refine (ih hrest).trans ?_
    unfold Editor.Faithful at hstep
    rw [Editor.edits]
    split_ifs at hstep ⊢ with hack
    · obtain ⟨e,hasks,hpolicy⟩ := hstep
      rw [hasks, hpolicy, Option.toList_some, List.singleton_append, List.foldl_cons]
    · rw [hstep, List.nil_append]

end

/-! ## Changes and their order -/

/-- What is acknowledged: an edit, or a whole new policy. -/
inductive Change (ρ χ : Type*) where
  | edit (e : Edit ρ)
  | replace (p : Policy ρ χ)

def Change.apply : Change ρ χ → Policy ρ χ → Policy ρ χ
  | .edit e, p => e.apply p
  | .replace q, _ => q

/-- The change is in effect. -/
def Change.Holds : Change ρ χ → Policy ρ χ → Prop
  | .edit (.add side r), p => r ∈ p.rules side
  | .edit (.remove side r), p => r ∉ p.rules side
  | .edit (.clear side), p => p.rules side = ∅
  | .edit (.setMode mode), p => p.mode = mode
  | .replace q, p => p = q

/-- The one change takes back what the other did. -/
def Change.Undoes (c' c : Change ρ χ) : Prop := ∃ p, c.Holds p ∧ ¬c.Holds (c'.apply p)

theorem Change.holds_apply (c : Change ρ χ) (p : Policy ρ χ) : c.Holds (c.apply p) := by
  cases c with
  | edit e =>
    cases e with
    | add side r => simp [Change.Holds, Change.apply, apply_add]
    | remove side r => simp [Change.Holds, Change.apply, apply_remove]
    | clear side => simp [Change.Holds, Change.apply, apply_clear]
    | setMode mode => rfl
  | replace q => rfl

/-- What is in effect stays so until it is taken back. -/
theorem Change.holds_or_undone {c : Change ρ χ} {p : Policy ρ χ} (h : c.Holds p) (log : List (Change ρ χ)) :
    c.Holds (log.foldl (fun p c => c.apply p) p) ∨ ∃ c' ∈ log, c'.Undoes c := by
  induction log generalizing p with
  | nil => exact Or.inl h
  | cons first log ih =>
    by_cases hkept : c.Holds (first.apply p)
    · exact (ih hkept).imp_right fun ⟨c',hc',hundoes⟩ => ⟨c',List.mem_cons_of_mem _ hc',hundoes⟩
    · exact Or.inr ⟨first,List.mem_cons_self,p,h,hkept⟩

/-- In a policy that a log of changes has made, each of them is in effect or was taken back later. -/
theorem Change.in_effect {log pre post : List (Change ρ χ)} {c : Change ρ χ} (hlog : log = pre ++ c :: post)
    (start : Policy ρ χ) : c.Holds (log.foldl (fun p c => c.apply p) start) ∨ ∃ c' ∈ post, c'.Undoes c := by
  rw [hlog, List.foldl_append, List.foldl_cons]
  exact Change.holds_or_undone (c.holds_apply _) post

/-! ## Lists of rules -/

section
variable [DecidableEq ρ]

/-- A list without its first element of a kind keeps another one of that kind, if there is
one. -/
theorem mem_eraseP_same {α : Type*} {norm : α → ρ} {r : ρ} {xs : List α} :
    r ∈ (xs.eraseP fun x => decide (norm x = r)).map norm ↔ 2 ≤ xs.countP fun x => decide (norm x = r) := by
  induction xs with
  | nil => simp
  | cons x xs ih =>
    by_cases hx : norm x = r
    · rw [List.eraseP_cons_of_pos (by simpa using hx), List.countP_cons_of_pos (by simpa using hx)]
      simp only [List.mem_map, Nat.reduceLeDiff, Nat.one_le_iff_ne_zero, ne_eq, List.countP_eq_zero, decide_eq_true_eq,
        not_forall, not_not, exists_prop]
    · rw [List.eraseP_cons_of_neg (by simpa using hx), List.countP_cons_of_neg (by simpa using hx), List.map_cons,
        List.mem_cons, ih]
      exact or_iff_right fun heq => hx heq.symm

theorem mem_eraseP_other {α : Type*} {norm : α → ρ} {r q : ρ} (h : q ≠ r) {xs : List α} :
    q ∈ (xs.eraseP fun x => decide (norm x = r)).map norm ↔ q ∈ xs.map norm := by
  induction xs with
  | nil => simp
  | cons x xs ih =>
    by_cases hx : norm x = r
    · rw [List.eraseP_cons_of_pos (by simpa using hx), List.map_cons, List.mem_cons]
      exact (or_iff_right fun heq => h (heq.trans hx)).symm
    · rw [List.eraseP_cons_of_neg (by simpa using hx), List.map_cons, List.map_cons, List.mem_cons, List.mem_cons, ih]

/-- Dropping the first such element erases the rule exactly if there is no second one. -/
theorem eraseP_erases_iff {α : Type*} (norm : α → ρ) (r : ρ) (xs : List α) :
    {q | q ∈ (xs.eraseP fun x => decide (norm x = r)).map norm} = {q | q ∈ xs.map norm} \ {r} ↔
      (xs.countP fun x => decide (norm x = r)) ≤ 1 := by
  constructor
  · intro h
    by_contra hmore
    have hleft : r ∈ {q | q ∈ (xs.eraseP fun x => decide (norm x = r)).map norm} := mem_eraseP_same.mpr (by omega)
    rw [h] at hleft
    exact hleft.2 rfl
  · intro h
    ext q
    by_cases hq : q = r
    · subst hq
      simp only [Set.mem_ofPred_eq, Set.mem_sdiff, Set.mem_singleton_iff, not_true, and_false, iff_false]
      exact fun hmem => by have := mem_eraseP_same.mp hmem; omega
    · simp only [Set.mem_ofPred_eq, Set.mem_sdiff, Set.mem_singleton_iff, hq, not_false_iff, and_true]
      exact mem_eraseP_other hq

end

end RuleSets
