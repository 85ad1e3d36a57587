import Mathlib.Data.List.Basic

/-! # Programs in dialogue with their surroundings

A program asks for something, gets an answer and goes on. Nothing is known about the
answers. What has been asked and answered is the log, and a program is judged by what it
returns and by its log. A program may also still be waiting when it is looked at.
-/
namespace Dialogue
universe u v w x

inductive Program (κ : Type u) (answer : κ → Type v) (α : Type w) where
  | done (a : α) | unfinished | ask (request : κ) (next : answer request → Program κ answer α)

/-- A request with the answer it got. -/
structure Exchange {κ : Type u} (answer : κ → Type v) where
  request : κ
  reply : answer request

variable {κ : Type u} {answer : κ → Type v} {α β : Type w}

namespace Program

def bind (p : Program κ answer α) (f : α → Program κ answer β) : Program κ answer β :=
  match p with
  | .done a => f a
  | .unfinished => .unfinished
  | .ask request next => .ask request fun reply => (next reply).bind f

instance : Monad (Program κ answer) where
  pure := .done
  bind := .bind

/-- One request. -/
def request (c : κ) : Program κ answer (answer c) := .ask c .done

/-- How a program ends among surroundings in state `e`: what it returns if it does, the
state they are left in, and the log. -/
def run {ε : Type x} (reply : (c : κ) → ε → answer c × ε) :
    Program κ answer α → ε → Option α × ε × List (Exchange answer)
  | .done a, e => (some a,e,[])
  | .unfinished, e => (none,e,[])
  | .ask c next, e =>
    let out := (next (reply c e).1).run reply (reply c e).2
    (out.1,out.2.1,⟨c,(reply c e).1⟩ :: out.2.2)

/-- With these answers the program ends so, or is still waiting if `none` is returned. -/
def Ends : Program κ answer α → List (Exchange answer) → Option α → Prop
  | .done a, log, r => log = [] ∧ r = some a
  | .unfinished, log, r => log = [] ∧ r = none
  | .ask c next, log, r => ∃ reply rest, log = ⟨c,reply⟩ :: rest ∧ (next reply).Ends rest r

/-- Whatever the answers, after the log `before` the program ends with `Q`. -/
def Ensures (Q : Option α → List (Exchange answer) → Prop) : Program κ answer α → List (Exchange answer) → Prop
  | .done a, before => Q (some a) before
  | .unfinished, before => Q none before
  | .ask c next, before => ∀ reply, (next reply).Ensures Q (before ++ [⟨c,reply⟩])

variable {Q Q' : Option α → List (Exchange answer) → Prop} {p : Program κ answer α} {before : List (Exchange answer)}

@[simp] theorem ensures_done {a : α} : (done a : Program κ answer α).Ensures Q before ↔ Q (some a) before := Iff.rfl
@[simp] theorem ensures_pure {a : α} : (pure a : Program κ answer α).Ensures Q before ↔ Q (some a) before := Iff.rfl
@[simp] theorem ensures_unfinished : (unfinished : Program κ answer α).Ensures Q before ↔ Q none before := Iff.rfl

theorem Ensures.mono (h : p.Ensures Q before) (himp : ∀ r log, Q r log → Q' r log) : p.Ensures Q' before := by
  induction p generalizing before with
  | done a => exact himp _ _ h
  | unfinished => exact himp _ _ h
  | ask c next ih => exact fun reply => ih reply (h reply)

theorem Ensures.and (h : p.Ensures Q before) (h' : p.Ensures Q' before) :
    p.Ensures (fun r log => Q r log ∧ Q' r log) before := by
  induction p generalizing before with
  | done a => exact ⟨h,h'⟩
  | unfinished => exact ⟨h,h'⟩
  | ask c next ih => exact fun reply => ih reply (h reply) (h' reply)

/-- The rule of sequence. -/
theorem ensures_bind {f : α → Program κ answer β} {Q : Option β → List (Exchange answer) → Prop} :
    (p >>= f).Ensures Q before ↔ p.Ensures (fun r log => match r with
      | some a => (f a).Ensures Q log
      | none => Q none log) before := by
  induction p generalizing before with
  | done a => exact Iff.rfl
  | unfinished => exact Iff.rfl
  | ask c next ih => exact forall_congr' fun reply => ih reply

/-- The two parts of a sequence one after the other. -/
theorem Ensures.bind {f : α → Program κ answer β} {Q : Option β → List (Exchange answer) → Prop}
    {R : Option α → List (Exchange answer) → Prop} (h : p.Ensures R before)
    (hnone : ∀ log, R none log → Q none log) (hsome : ∀ a log, R (some a) log → (f a).Ensures Q log) :
    (p >>= f).Ensures Q before := by
  rw [ensures_bind]
  apply h.mono
  intro r log hr
  cases r with
  | none => exact hnone log hr
  | some a => exact hsome a log hr

theorem ensures_request {c : κ} {Q : Option (answer c) → List (Exchange answer) → Prop} :
    (request c : Program κ answer (answer c)).Ensures Q before ↔ ∀ reply, Q (some reply) (before ++ [⟨c,reply⟩]) := Iff.rfl

/-- What is ensured holds among all surroundings. -/
theorem Ensures.run {ε : Type x} (reply : (c : κ) → ε → answer c × ε) (e : ε) (h : p.Ensures Q before) :
    Q (p.run reply e).1 (before ++ (p.run reply e).2.2) := by
  induction p generalizing before e with
  | done a =>
    rw [Program.run, List.append_nil]
    exact h
  | unfinished =>
    rw [Program.run, List.append_nil]
    exact h
  | ask c next ih =>
    have hrest := ih (reply c e).1 (reply c e).2 (h _)
    rw [List.append_assoc] at hrest
    exact hrest

theorem Ensures.run_start {ε : Type x} (reply : (c : κ) → ε → answer c × ε) (e : ε) (h : p.Ensures Q []) :
    Q (p.run reply e).1 (p.run reply e).2.2 := h.run reply e

/-! ## What a program adds to the log -/

/-- The program returns and logs only what `P` allows, wherever it starts. -/
def Adds (P : Option α → List (Exchange answer) → Prop) (p : Program κ answer α) : Prop :=
  ∀ before, p.Ensures (fun r log => ∃ new, log = before ++ new ∧ P r new) before

variable {P P' : Option α → List (Exchange answer) → Prop}

theorem Adds.mono (h : p.Adds P) (himp : ∀ r new, P r new → P' r new) : p.Adds P' := by
  intro before
  apply (h before).mono
  rintro r log ⟨new,hlog,hP⟩
  exact ⟨new,hlog,himp r new hP⟩

theorem adds_done {a : α} (h : P (some a) []) : (done a : Program κ answer α).Adds P :=
  fun before => ⟨[],(List.append_nil before).symm,h⟩

theorem adds_pure {a : α} (h : P (some a) []) : (pure a : Program κ answer α).Adds P := adds_done h

theorem adds_unfinished (h : P none []) : (unfinished : Program κ answer α).Adds P :=
  fun before => ⟨[],(List.append_nil before).symm,h⟩

theorem adds_request {c : κ} {P : Option (answer c) → List (Exchange answer) → Prop}
    (h : ∀ reply, P (some reply) [⟨c,reply⟩]) : (request c : Program κ answer (answer c)).Adds P :=
  fun _ reply => ⟨_,rfl,h reply⟩

/-- The rule of sequence for what is added. -/
theorem Adds.bind {f : α → Program κ answer β} {R : Option β → List (Exchange answer) → Prop} (h : p.Adds P)
    (hnone : ∀ new, P none new → R none new)
    (hsome : ∀ a new, P (some a) new → (f a).Adds fun r more => R r (new ++ more)) : (p >>= f).Adds R := by
  intro before
  apply (h before).bind
  · rintro log ⟨new,hlog,hP⟩
    exact ⟨new,hlog,hnone new hP⟩
  · rintro a log ⟨new,hlog,hP⟩
    subst hlog
    apply (hsome a new hP (before ++ new)).mono
    rintro r log ⟨more,hlog,hR⟩
    rw [List.append_assoc] at hlog
    exact ⟨new ++ more,hlog,hR⟩

/-- A rule about the log that holds of the parts of a sequence holds of the whole. -/
theorem Adds.bind_log {S : List (Exchange answer) → Prop} {f : α → Program κ answer β}
    (happend : ∀ {log rest}, S log → S rest → S (log ++ rest)) (h : p.Adds fun _ new => S new)
    (hf : ∀ a, (f a).Adds fun _ new => S new) : (p >>= f).Adds fun _ new => S new :=
  h.bind (fun _ hnew => hnew) fun a _ hnew => (hf a).mono fun _ _ hmore => happend hnew hmore

/-- What is added can be read off from the log before and after. -/
theorem Adds.ensures (h : p.Adds P) (himp : ∀ r new, P r new → Q r (before ++ new)) : p.Ensures Q before := by
  apply (h before).mono
  rintro r log ⟨new,hlog,hP⟩
  rw [hlog]
  exact himp r new hP

/-- A request and what follows it. -/
theorem adds_request_bind {β : Type v} {c : κ} {f : answer c → Program κ answer β}
    {R : Option β → List (Exchange answer) → Prop} (h : ∀ reply, (f reply).Adds fun r more => R r (⟨c,reply⟩ :: more)) :
    (request c >>= f).Adds R := by
  intro before reply
  refine Adds.ensures (h reply) ?_
  intro r more hR
  exact ⟨⟨c,reply⟩ :: more,by rw [List.append_assoc, List.singleton_append],hR⟩

/-- The program returns, whatever the answers. -/
def Returns (p : Program κ answer α) : Prop := p.Adds fun r _ => r ≠ none

theorem returns_pure (a : α) : (pure a : Program κ answer α).Returns := adds_pure nofun
theorem returns_request (c : κ) : (request c : Program κ answer (answer c)).Returns := adds_request fun _ => nofun

theorem Returns.bind {f : α → Program κ answer β} (h : p.Returns) (hf : ∀ a, (f a).Returns) : (p >>= f).Returns := by
  apply Adds.bind h
  · intro new hnone
    exact absurd rfl hnone
  · intro a new _
    exact (hf a)

/-- A program ends in one of its ways. -/
theorem adds_ends (p : Program κ answer α) : p.Adds fun r new => p.Ends new r := by
  induction p with
  | done a => exact adds_done ⟨rfl,rfl⟩
  | unfinished => exact adds_unfinished ⟨rfl,rfl⟩
  | ask c next ih =>
    intro before reply
    apply (ih reply).ensures
    intro r new hends
    exact ⟨⟨c,reply⟩ :: new,by rw [List.append_assoc, List.singleton_append],reply,new,rfl,hends⟩

theorem Adds.and (h : p.Adds P) (h' : p.Adds P') : p.Adds fun r new => P r new ∧ P' r new := by
  intro before
  apply ((h before).and (h' before)).mono
  rintro r log ⟨⟨new,hnew,hP⟩,⟨new',hnew',hP'⟩⟩
  have hsame : new' = new := List.append_cancel_left (hnew'.symm.trans hnew)
  rw [hsame] at hP'
  exact ⟨new,hnew,hP,hP'⟩

theorem Adds.run {ε : Type x} (reply : (c : κ) → ε → answer c × ε) (e : ε) (h : p.Adds P) :
    P (p.run reply e).1 (p.run reply e).2.2 := by
  obtain ⟨new,hlog,hP⟩ := (h []).run reply e
  rw [List.nil_append, List.nil_append] at hlog
  rw [hlog]
  exact hP

/-! ## Among surroundings that are known -/

/-- Among surroundings in state `e` the program ends with `Q` of its result and their state. -/
def Leaves {ε : Type x} (reply : (c : κ) → ε → answer c × ε) (Q : Option α → ε → Prop) (p : Program κ answer α) (e : ε) : Prop :=
  Q (p.run reply e).1 (p.run reply e).2.1

section
variable {ε : Type x} {reply : (c : κ) → ε → answer c × ε} {Q Q' : Option α → ε → Prop} {e : ε}

theorem leaves_pure {a : α} (h : Q (some a) e) : (pure a : Program κ answer α).Leaves reply Q e := h

theorem Leaves.mono (h : p.Leaves reply Q e) (himp : ∀ r e', Q r e' → Q' r e') : p.Leaves reply Q' e := himp _ _ h

theorem Leaves.bind {f : α → Program κ answer β} {R : Option β → ε → Prop} (h : p.Leaves reply Q e)
    (hnone : ∀ e', Q none e' → R none e') (hsome : ∀ a e', Q (some a) e' → (f a).Leaves reply R e') :
    (p >>= f).Leaves reply R e := by
  induction p generalizing e with
  | done a => exact hsome a e h
  | unfinished => exact hnone e h
  | ask c next ih => exact ih (reply c e).1 (e := (reply c e).2) h

theorem leaves_request_bind {β : Type v} {c : κ} {f : answer c → Program κ answer β} {R : Option β → ε → Prop}
    (h : (f (reply c e).1).Leaves reply R (reply c e).2) : (request c >>= f).Leaves reply R e := h

end

end Program

end Dialogue
