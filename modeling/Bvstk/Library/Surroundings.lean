import Bvstk.Library.Dialogue
import Mathlib.Logic.Relation
import Mathlib.Control.Monad.Basic

/-! # Programs among surroundings that move

The surroundings of a program have a state of their own. They move whenever they like, and they
answer what is asked. A program is safe if it never asks what it must not, whatever they do, and
what is safe stays so at every moment of every run.
-/
namespace Dialogue
universe u v w x

variable {κ : Type u} {answer : κ → Type v} {α β : Type w} {σ : Type x}

/-- What may be asked of surroundings in some state, how they move, and how they answer. -/
structure Setting (answer : κ → Type v) (σ : Type x) where
  asks : σ → κ → Prop
  moves : σ → σ → Prop
  answers : σ → (c : κ) → answer c → σ → Prop

namespace Setting
variable (W : Setting answer σ)

def Later : σ → σ → Prop := Relation.ReflTransGen W.moves

/-- No move spoils it. -/
def Stable (P : σ → Prop) : Prop := ∀ s s', W.moves s s' → P s → P s'

/-- The program `p` has become `q` among surroundings that have come from `s` to `t`. -/
inductive Runs : Program κ answer α → σ → List (Exchange answer) → Program κ answer α → σ → Prop
  | here (p : Program κ answer α) (s : σ) : Runs p s [] p s
  | move {p q : Program κ answer α} {s s' t : σ} {log : List (Exchange answer)} (hmove : W.moves s s')
      (hrest : Runs p s' log q t) : Runs p s log q t
  | ask {c : κ} {next : answer c → Program κ answer α} {q : Program κ answer α} {r : answer c} {s s' t : σ}
      {log : List (Exchange answer)} (hanswer : W.answers s c r s') (hrest : Runs (next r) s' log q t) :
      Runs (.ask c next) s (⟨c,r⟩ :: log) q t

variable {W}

theorem Stable.later {P : σ → Prop} (hP : W.Stable P) {s s' : σ} (h : W.Later s s') (hs : P s) : P s' := by
  induction h with
  | refl => exact hs
  | tail _ hmove ih => exact hP _ _ hmove ih

end Setting

namespace Program
variable {W : Setting answer σ} {p : Program κ answer α} {Q R : Option α → σ → Prop} {s : σ}

/-- Whatever the surroundings do, the program asks only what it may, and ends with `Q`. -/
def Safe (W : Setting answer σ) (Q : Option α → σ → Prop) : Program κ answer α → σ → Prop
  | .done a, s => ∀ s', W.Later s s' → Q (some a) s'
  | .unfinished, s => ∀ s', W.Later s s' → Q none s'
  | .ask c next, s => ∀ s', W.Later s s' → W.asks s' c ∧ ∀ r s'', W.answers s' c r s'' → (next r).Safe W Q s''

theorem Safe.later (h : p.Safe W Q s) {s' : σ} (hlater : W.Later s s') : p.Safe W Q s' := by
  cases p with
  | done a => exact fun t ht => h t (hlater.trans ht)
  | unfinished => exact fun t ht => h t (hlater.trans ht)
  | ask c next => exact fun t ht => h t (hlater.trans ht)

theorem Safe.mono (h : p.Safe W R s) (himp : ∀ r s, R r s → Q r s) : p.Safe W Q s := by
  induction p generalizing s with
  | done a => exact fun s' hlater => himp _ _ (h s' hlater)
  | unfinished => exact fun s' hlater => himp _ _ (h s' hlater)
  | ask c next ih =>
    intro s' hlater
    obtain ⟨hasks,hnext⟩ := h s' hlater
    exact ⟨hasks,fun r s'' hanswer => ih r (hnext r s'' hanswer)⟩

theorem safe_pure {a : α} (hstable : W.Stable (Q (some a))) (h : Q (some a) s) : (pure a : Program κ answer α).Safe W Q s :=
  fun _ hlater => hstable.later hlater h

theorem safe_unfinished (hstable : W.Stable (Q none)) (h : Q none s) : (unfinished : Program κ answer α).Safe W Q s :=
  fun _ hlater => hstable.later hlater h

/-- The rule of sequence. -/
theorem Safe.bind {f : α → Program κ answer β} {Q : Option β → σ → Prop} (h : p.Safe W R s)
    (hnone : ∀ s, R none s → Q none s) (hsome : ∀ a s, R (some a) s → (f a).Safe W Q s) : (p >>= f).Safe W Q s := by
  induction p generalizing s with
  | done a => exact hsome a s (h s .refl)
  | unfinished => exact fun s' hlater => hnone s' (h s' hlater)
  | ask c next ih =>
    intro s' hlater
    obtain ⟨hasks,hnext⟩ := h s' hlater
    exact ⟨hasks,fun r s'' hanswer => ih r (hnext r s'' hanswer)⟩

/-- A request and what follows it; `P` is what holds until the answer. -/
theorem safe_request_bind {β : Type v} {Q : Option β → σ → Prop} {c : κ} {f : answer c → Program κ answer β} {P : σ → Prop}
    (hstable : W.Stable P) (hs : P s) (hasks : ∀ s, P s → W.asks s c)
    (hnext : ∀ s r s', P s → W.answers s c r s' → (f r).Safe W Q s') : (request c >>= f).Safe W Q s := fun s' hlater =>
  have hP := hstable.later hlater hs
  ⟨hasks s' hP,fun r s'' hanswer => hnext s' r s'' hP hanswer⟩

/-- A safe program stays safe as it runs. -/
theorem Safe.runs {q : Program κ answer α} {log : List (Exchange answer)} {t : σ} (h : p.Safe W Q s)
    (hruns : W.Runs p s log q t) : q.Safe W Q t := by
  induction hruns with
  | here p s => exact h
  | move hmove _ ih => exact ih (h.later (.single hmove))
  | ask hanswer _ ih => exact ih ((h _ .refl).2 _ _ hanswer)

/-- What must hold whenever something is asked, and in the end, holds at every moment. -/
theorem Safe.holds {I : σ → Prop} (h : p.Safe W Q s) (hasks : ∀ s c, W.asks s c → I s) (hends : ∀ r s, Q r s → I s) : I s := by
  cases p with
  | done a => exact hends _ _ (h s .refl)
  | unfinished => exact hends _ _ (h s .refl)
  | ask c next => exact hasks _ c (h s .refl).1

/-- What every step keeps is kept by a run of a safe program. -/
theorem Safe.runs_keep {q : Program κ answer α} {log : List (Exchange answer)} {t : σ} {I : σ → Prop} (h : p.Safe W Q s)
    (hmoves : W.Stable I) (hstep : ∀ s c r s', I s → W.asks s c → W.answers s c r s' → I s') (hI : I s)
    (hruns : W.Runs p s log q t) : I t := by
  induction hruns with
  | here p s => exact hI
  | move hmove _ ih => exact ih (h.later (.single hmove)) (hmoves _ _ hmove hI)
  | ask hanswer _ ih =>
    obtain ⟨hasks,hnext⟩ := h _ .refl
    exact ih (hnext _ _ hanswer) (hstep _ _ _ _ hI hasks hanswer)

end Program

/-! ## Watching a program -/

/-- The program has come to `q` with these exchanges. -/
inductive Program.Reaches {answer : κ → Type w} : Program κ answer α → List (Exchange answer) → Program κ answer α → Prop
  | here (p : Program κ answer α) : Reaches p [] p
  | ask {c : κ} {next : answer c → Program κ answer α} {q : Program κ answer α} {r : answer c}
      {log : List (Exchange answer)} (hrest : Reaches (next r) log q) : Reaches (.ask c next) (⟨c,r⟩ :: log) q

section
variable {answer : κ → Type w} {note : σ → Exchange answer → σ} {asks : σ → κ → Prop}

/-- Surroundings that answer anything, and keep a note of it. -/
def watched (note : σ → Exchange answer → σ) (asks : σ → κ → Prop) : Setting answer σ where
  asks := asks
  moves _ _ := False
  answers s c r s' := s' = note s ⟨c,r⟩

theorem watched_stable (P : σ → Prop) : (watched note asks).Stable P := fun _ _ hmove => hmove.elim

theorem Program.Reaches.watched {p q : Program κ answer α} {log : List (Exchange answer)} (h : p.Reaches log q) (s : σ) :
    (watched note asks).Runs p s log q (log.foldl note s) := by
  induction h generalizing s with
  | here p => exact .here p s
  | ask _ ih => exact .ask rfl (ih _)

end

/-! ## Programs that may fail -/

/-- A program that may fail. -/
abbrev Attempt (answer : κ → Type w) (α : Type w) := OptionT (Program κ answer) α

namespace Attempt
variable {answer : κ → Type w}

/-- A request, which does not fail. -/
def ask (c : κ) : Attempt answer (answer c) := OptionT.lift (.request c)

/-- The program goes on whether `p` fails or not. -/
def regardless (p : Attempt answer α) : Attempt answer PUnit := OptionT.mk (p.run >>= fun _ => pure (some ⟨⟩))

variable {W : Setting answer σ} {U F : σ → Prop} {I : α → σ → Prop} {J : β → σ → Prop} {p : Attempt answer α} {s : σ}

/-- `I` of what is returned, `F` if the program fails, and `U` while it waits. -/
def Ends (U F : σ → Prop) (I : α → σ → Prop) : Option (Option α) → σ → Prop
  | none => U
  | some none => F
  | some (some a) => I a

/-- The program is safe, and ends so. -/
def Keeps (W : Setting answer σ) (U F : σ → Prop) (I : α → σ → Prop) (p : Attempt answer α) (s : σ) : Prop :=
  p.run.Safe W (Ends U F I) s

theorem keeps_pure {a : α} (hstable : W.Stable (I a)) (h : I a s) : (pure a : Attempt answer α).Keeps W U F I s :=
  Program.safe_pure (Q := Ends U F I) hstable h

theorem keeps_failure (hstable : W.Stable F) (h : F s) : (failure : Attempt answer α).Keeps W U F I s :=
  Program.safe_pure (Q := Ends U F I) hstable h

/-- The rule of sequence. -/
theorem Keeps.bind {f : α → Attempt answer β} (h : p.Keeps W U F I s) (hF : W.Stable F)
    (hf : ∀ a s, I a s → (f a).Keeps W U F J s) : (p >>= f).Keeps W U F J s := by
  refine Program.Safe.bind h (fun _ hU => hU) ?_
  rintro (_ | a) t ht
  · exact Program.safe_pure (Q := Ends U F J) hF ht
  · exact hf a t ht

theorem Keeps.mono {I' : α → σ → Prop} (h : p.Keeps W U F I s) (himp : ∀ a s, I a s → I' a s) : p.Keeps W U F I' s := by
  refine Program.Safe.mono h ?_
  rintro (_ | _ | a) t ht
  · exact ht
  · exact ht
  · exact himp a t ht

theorem Keeps.map {f : α → β} (h : p.Keeps W U F I s) (hF : W.Stable F) (hJ : ∀ b, W.Stable (J b))
    (hf : ∀ a s, I a s → J (f a) s) : (f <$> p).Keeps W U F J s :=
  h.bind hF fun a t ht => keeps_pure (hJ (f a)) (hf a t ht)

/-- A request and what follows it; `P` is what holds until the answer. -/
theorem keeps_ask_bind {c : κ} {f : answer c → Attempt answer β} {P : σ → Prop} (hstable : W.Stable P) (hs : P s)
    (hasks : ∀ s, P s → W.asks s c) (hnext : ∀ s r s', P s → W.answers s c r s' → (f r).Keeps W U F J s') :
    (ask c >>= f).Keeps W U F J s :=
  Program.safe_request_bind (Q := Ends U F J) hstable hs hasks hnext

/-- A program that may fail, and what follows in either case. -/
theorem keeps_regardless {F' : σ → Prop} {I' : PUnit → σ → Prop} (h : p.Keeps W U F I s) (hI' : ∀ u, W.Stable (I' u))
    (hfailed : ∀ s, F s → I' ⟨⟩ s) (hdone : ∀ a s, I a s → I' ⟨⟩ s) : p.regardless.Keeps W U F' I' s := by
  refine Program.Safe.bind h (fun _ hU => hU) ?_
  rintro (_ | a) t ht
  · exact Program.safe_pure (Q := Ends U F' I') (hI' _) (hfailed t ht)
  · exact Program.safe_pure (Q := Ends U F' I') (hI' _) (hdone a t ht)

/-- A loop that keeps `J` of its state. -/
theorem keeps_foldlM {ι : Type w} {f : β → ι → Attempt answer β} {is : List ι} {b : β} (hJ : ∀ b, W.Stable (J b)) (hF : W.Stable F)
    (hstep : ∀ i ∈ is, ∀ b s, J b s → (f b i).Keeps W U F J s) (h : J b s) : (is.foldlM f b).Keeps W U F J s := by
  induction is generalizing b s with
  | nil => exact keeps_pure (hJ b) h
  | cons i is ih =>
    rw [List.foldlM_cons]
    refine (hstep i List.mem_cons_self b s h).bind hF fun b' t ht => ?_
    exact ih (fun i' hi' => hstep i' (List.mem_cons_of_mem _ hi')) ht

/-- A loop over the numbers below `n`; before the turn `k` it has come to `J k`. -/
theorem keeps_range {f : β → ℕ → Attempt answer β} {J : ℕ → β → σ → Prop} {n : ℕ} {b : β} (hJ : ∀ b, W.Stable (J n b))
    (hF : W.Stable F) (hstep : ∀ k < n, ∀ b s, J k b s → (f b k).Keeps W U F (J (k + 1)) s) (h : J 0 b s) :
    ((List.range n).foldlM f b).Keeps W U F (J n) s := by
  have hfrom : ∀ m k b s, k + m = n → J k b s → ((List.range' k m).foldlM f b).Keeps W U F (J n) s := by
    intro m
    induction m with
    | zero =>
      intro k b s hk h
      obtain rfl : k = n := hk
      exact keeps_pure (hJ b) h
    | succ m ih =>
      intro k b s hk h
      rw [List.range'_succ, List.foldlM_cons]
      exact (hstep k (by omega) b s h).bind hF fun b' t ht => ih (k + 1) b' t (by omega) ht
  rw [List.range_eq_range']
  exact hfrom n 0 b s (Nat.zero_add n) h

/-- A loop without a state that keeps `K`. -/
theorem keeps_forM {ι : Type w} {f : ι → Attempt answer PUnit} {is : List ι} {K : σ → Prop} (hK : W.Stable K) (hF : W.Stable F)
    (hstep : ∀ i ∈ is, ∀ s, K s → (f i).Keeps W U F (fun _ => K) s) (h : K s) : (is.forM f).Keeps W U F (fun _ => K) s := by
  induction is generalizing s with
  | nil => exact keeps_pure (I := fun _ => K) hK h
  | cons i is ih =>
    show ((f i >>= fun _ => is.forM f) : Attempt answer PUnit).Keeps W U F (fun _ => K) s
    refine (hstep i List.mem_cons_self s h).bind hF fun _ t ht => ?_
    exact ih (fun i' hi' => hstep i' (List.mem_cons_of_mem _ hi')) ht

end Attempt

end Dialogue
