import Mathlib.Data.List.Infix
import Mathlib.Data.Nat.Notation

/-! # Paths and the names in them

A path is a text cut at separators. Reading its names from the front, an empty one and the one
for "here" are passed over, and the one for "up" takes the last name away. A reader with a table
for only so many names reads the same, as long as no more are open at any moment.
-/
namespace PathNames

variable {α : Type} [DecidableEq α]

/-- The text between separators; there is always one more part than separators. -/
def components (separator : α) : List α → List (List α)
  | [] => [[]]
  | c :: text => if c = separator then [] :: components separator text else match components separator text with
    | [] => [[c]]
    | first :: rest => (c :: first) :: rest

/-- The names for "here" and "up". -/
structure Dots (α : Type) where
  here : List α
  up : List α

/-- What a part does to the names before it, in a table with room for `limit` names. -/
def enter (dots : Dots α) (limit : ℕ) (names : List (List α)) (part : List α) : List (List α) :=
  if part = [] ∨ part = dots.here then names
  else if part = dots.up then names.dropLast
  else if names.length < limit then names ++ [part]
  else names

/-- What a part does to the names before it. -/
def resolveStep (dots : Dots α) (names : List (List α)) (part : List α) : List (List α) :=
  if part = [] ∨ part = dots.here then names
  else if part = dots.up then names.dropLast
  else names ++ [part]

def resolve (dots : Dots α) (parts : List (List α)) : List (List α) := parts.foldl (resolveStep dots) []

/-- From some moment on at which no name is open, there is room for all the names that are. -/
def Roomy (dots : Dots α) (limit : ℕ) (parts : List (List α)) : Prop :=
  ∃ pre post, parts = pre ++ post ∧ resolve dots pre = [] ∧ ∀ q, q <+: post → (resolve dots q).length ≤ limit

def join (separator : α) : List (List α) → List α
  | [] => []
  | [name] => name
  | name :: names => name ++ separator :: join separator names

section
variable {separator : α} {dots : Dots α} {limit : ℕ}

theorem components_ne_nil (text : List α) : components separator text ≠ [] := by
  cases text with
  | nil => exact List.cons_ne_nil _ _
  | cons c text =>
    rw [components]
    split
    · exact List.cons_ne_nil _ _
    · split <;> exact List.cons_ne_nil _ _

theorem components_separator (text : List α) : components separator (separator :: text) = [] :: components separator text := by
  rw [components, if_pos rfl]

theorem components_cons {c : α} (hc : c ≠ separator) (text : List α) :
    ∃ first rest, components separator text = first :: rest ∧ components separator (c :: text) = (c :: first) :: rest := by
  have hne : components separator text ≠ [] := components_ne_nil text
  obtain ⟨first,rest,hparts⟩ := List.exists_cons_of_ne_nil hne
  refine ⟨first,rest,hparts,?_⟩
  rw [components, if_neg hc, hparts]

/-- A separator ends a part. -/
theorem components_append (front text : List α) :
    components separator (front ++ separator :: text) = components separator front ++ components separator text := by
  induction front with
  | nil => exact components_separator text
  | cons c front ih =>
    rw [List.cons_append]
    by_cases hc : c = separator
    · subst hc
      rw [components_separator, components_separator, ih, List.cons_append]
    · obtain ⟨first,rest,hparts,hcons⟩ := components_cons hc front
      obtain ⟨first',rest',hparts',hcons'⟩ := components_cons hc (front ++ separator :: text)
      rw [hcons', hcons]
      rw [ih, hparts, List.cons_append, List.cons.injEq] at hparts'
      rw [← hparts'.1, ← hparts'.2, List.cons_append]

theorem components_single {name : List α} (h : separator ∉ name) : components separator name = [name] := by
  induction name with
  | nil => exact Eq.refl _
  | cons c name ih =>
    have hc : c ≠ separator := fun heq => h (heq ▸ List.mem_cons_self)
    rw [components, if_neg hc, ih fun hmem => h (List.mem_cons_of_mem c hmem)]

theorem resolveStep_nil (names : List (List α)) : resolveStep dots names [] = names := if_pos (Or.inl rfl)

/-- Further separators in the same place change nothing. -/
theorem foldl_separators (names : List (List α)) {slashes : List α} (h : ∀ c ∈ slashes, c = separator) (text : List α) :
    (components separator (slashes ++ text)).foldl (resolveStep dots) names =
      (components separator text).foldl (resolveStep dots) names := by
  induction slashes with
  | nil => exact Eq.refl _
  | cons c slashes ih =>
    obtain ⟨rfl,hrest⟩ := List.forall_mem_cons.mp h
    rw [List.cons_append, components_separator, List.foldl_cons, resolveStep_nil, ih hrest]

theorem enter_eq (names : List (List α)) (part : List α) (h : (resolveStep dots names part).length ≤ limit) :
    enter dots limit names part = resolveStep dots names part := by
  unfold enter resolveStep at *
  split
  · exact Eq.refl _
  rename_i hname
  rw [if_neg hname] at h
  split
  · exact Eq.refl _
  rename_i hup
  rw [if_neg hup, List.length_append, List.length_singleton] at h
  exact if_pos h

/-- A table that never overflows leaves no name out. -/
theorem foldl_enter {parts : List (List α)} (names : List (List α))
    (h : ∀ pre, pre <+: parts → (pre.foldl (resolveStep dots) names).length ≤ limit) :
    parts.foldl (enter dots limit) names = parts.foldl (resolveStep dots) names := by
  induction parts generalizing names with
  | nil => exact Eq.refl _
  | cons part parts ih =>
    rw [List.foldl_cons, List.foldl_cons, enter_eq names part (h [part] ⟨parts,rfl⟩)]
    apply ih
    intro pre hpre
    exact h (part :: pre) ((List.prefix_cons_inj part).mpr hpre)

/-! ## When a table is as good as no limit -/

theorem resolve_append (pre post : List (List α)) (h : resolve dots pre = []) : resolve dots (pre ++ post) = resolve dots post := by
  rw [resolve, List.foldl_append, ← resolve, h, ← resolve]

theorem resolve_append_single (parts : List (List α)) (part : List α) :
    resolve dots (parts ++ [part]) = resolveStep dots (resolve dots parts) part := List.foldl_append

/-- The name that a full table leaves out is open. -/
theorem enter_full {names : List (List α)} {part : List α} (hnames : names.length ≤ limit)
    (h : limit < (resolveStep dots names part).length) :
    (enter dots limit names part).length < (resolveStep dots names part).length := by
  unfold enter resolveStep at *
  grind

/-- A table that left a name out has fewer names than are open, until none is. -/
theorem enter_fewer {table names : List (List α)} (h : table.length < names.length) (part : List α) :
    (enter dots limit table part).length < (resolveStep dots names part).length ∨
      (enter dots limit table part = [] ∧ resolveStep dots names part = []) := by
  unfold enter resolveStep
  split
  · exact Or.inl h
  split
  · rw [List.length_dropLast, List.length_dropLast]
    rcases Nat.eq_zero_or_pos (names.length - 1) with hroot | hopen
    · refine Or.inr ⟨List.length_eq_zero_iff.mp ?_,List.length_eq_zero_iff.mp ?_⟩
      · rw [List.length_dropLast]
        omega
      · rw [List.length_dropLast, hroot]
    · exact Or.inl (by omega)
  · refine Or.inl ?_
    rw [List.length_append, List.length_singleton]
    split
    · rw [List.length_append, List.length_singleton]
      exact Nat.succ_lt_succ h
    · exact Nat.lt_succ_of_lt h

theorem Roomy.of_root {parts : List (List α)} (h : resolve dots parts = []) : Roomy dots limit parts := by
  refine ⟨parts,[],(List.append_nil _).symm,h,?_⟩
  intro q hq
  rw [List.prefix_nil.mp hq]
  exact Nat.zero_le limit

/-- With no name left out since the root a table has the names that are open, else it has fewer. -/
theorem enter_roomy (parts : List (List α)) :
    (Roomy dots limit parts ∧ parts.foldl (enter dots limit) [] = resolve dots parts) ∨
      (parts.foldl (enter dots limit) []).length < (resolve dots parts).length := by
  induction parts using List.reverseRecOn with
  | nil => exact Or.inl ⟨Roomy.of_root rfl,rfl⟩
  | append_singleton parts part ih =>
    rw [List.foldl_append, List.foldl_cons, List.foldl_nil, resolve_append_single]
    rcases ih with ⟨⟨pre,post,hparts,hroot,hroom⟩,hnames⟩ | hfewer
    · have hopen : resolve dots parts = resolve dots post := by
        rw [hparts, resolve_append pre post hroot]
      have hlast := hroom post (List.prefix_refl post)
      rw [hnames, hopen]
      by_cases hlength : (resolveStep dots (resolve dots post) part).length ≤ limit
      · refine Or.inl ⟨⟨pre,post ++ [part],by rw [hparts, List.append_assoc],hroot,?_⟩,enter_eq _ _ hlength⟩
        intro q hq
        rcases List.prefix_concat_iff.mp hq with rfl | hq
        · rw [resolve_append_single]
          exact hlength
        · exact hroom q hq
      · exact Or.inr (enter_full hlast (Nat.lt_of_not_le hlength))
    · rcases enter_fewer hfewer part with hfewer | ⟨htable,hroot⟩
      · exact Or.inr hfewer
      · refine Or.inl ⟨Roomy.of_root ?_,htable.trans hroot.symm⟩
        rw [resolve_append_single, hroot]

/-- A table with room for `limit` names has the names that are open exactly when it left none out since the root. -/
theorem foldl_enter_iff (parts : List (List α)) :
    parts.foldl (enter dots limit) [] = resolve dots parts ↔ Roomy dots limit parts := by
  constructor
  · intro h
    rcases enter_roomy parts with ⟨hroomy,-⟩ | hfewer
    · exact hroomy
    · rw [h] at hfewer
      exact absurd hfewer (Nat.lt_irrefl _)
  · rintro ⟨pre,post,rfl,hroot,hroom⟩
    have htable : pre.foldl (enter dots limit) [] = [] := by
      have htable : (Roomy dots limit pre ∧ pre.foldl (enter dots limit) [] = resolve dots pre) ∨
          (pre.foldl (enter dots limit) []).length < (resolve dots pre).length := enter_roomy pre
      rcases htable with ⟨-,heq⟩ | hfewer
      · exact heq.trans hroot
      · rw [hroot] at hfewer
        exact absurd hfewer (Nat.not_lt_zero _)
    rw [resolve_append pre post hroot, List.foldl_append, htable]
    exact foldl_enter [] hroom

/-! ## Names that a path can be made of -/

/-- Not empty, and without a separator. -/
def IsName (separator : α) (name : List α) : Prop := name ≠ [] ∧ separator ∉ name

theorem not_mem_components (text : List α) : ∀ part ∈ components separator text, separator ∉ part := by
  induction text with
  | nil =>
    intro part hpart
    rw [components, List.mem_singleton] at hpart
    rw [hpart]
    exact List.not_mem_nil
  | cons c text ih =>
    intro part hpart
    by_cases hc : c = separator
    · rw [hc, components_separator] at hpart
      rcases List.mem_cons.mp hpart with rfl | hpart
      · exact List.not_mem_nil
      · exact ih part hpart
    · obtain ⟨first,rest,hparts,hcons⟩ := components_cons hc text
      rw [hcons] at hpart
      rw [hparts] at ih
      rcases List.mem_cons.mp hpart with rfl | hpart
      · rw [List.mem_cons, not_or]
        exact ⟨Ne.symm hc,ih first List.mem_cons_self⟩
      · exact ih part (List.mem_cons_of_mem first hpart)

omit [DecidableEq α] in
/-- The names that parts leave are parts that are not empty. -/
theorem mem_foldl {step : List (List α) → List α → List (List α)}
    (hstep : ∀ names part, ∀ name ∈ step names part, name ∈ names ∨ (name = part ∧ part ≠ []))
    (parts : List (List α)) (names : List (List α)) :
    ∀ name ∈ parts.foldl step names, name ∈ names ∨ (name ∈ parts ∧ name ≠ []) := by
  induction parts generalizing names with
  | nil => exact fun name hname => Or.inl hname
  | cons part parts ih =>
    intro name hname
    rcases ih (step names part) name hname with hstepped | ⟨hmem,hne⟩
    · rcases hstep names part name hstepped with hold | ⟨rfl,hne⟩
      · exact Or.inl hold
      · exact Or.inr ⟨List.mem_cons_self,hne⟩
    · exact Or.inr ⟨List.mem_cons_of_mem part hmem,hne⟩

theorem mem_enter (names : List (List α)) (part : List α) :
    ∀ name ∈ enter dots limit names part, name ∈ names ∨ (name = part ∧ part ≠ []) := by
  unfold enter
  intro name hname
  grind [List.mem_of_mem_dropLast]

theorem mem_resolveStep (names : List (List α)) (part : List α) :
    ∀ name ∈ resolveStep dots names part, name ∈ names ∨ (name = part ∧ part ≠ []) := by
  unfold resolveStep
  intro name hname
  grind [List.mem_of_mem_dropLast]

theorem isName_foldl {step : List (List α) → List α → List (List α)}
    (hstep : ∀ names part, ∀ name ∈ step names part, name ∈ names ∨ (name = part ∧ part ≠ [])) (text : List α) :
    ∀ name ∈ (components separator text).foldl step [], IsName separator name := by
  intro name hname
  rcases mem_foldl hstep _ _ name hname with hnil | ⟨hpart,hne⟩
  · exact absurd hnil List.not_mem_nil
  · exact ⟨hne,not_mem_components text name hpart⟩

theorem components_join {names : List (List α)} (hne : names ≠ []) (h : ∀ name ∈ names, IsName separator name) :
    components separator (join separator names) = names := by
  induction names with
  | nil => exact absurd rfl hne
  | cons name names ih =>
    obtain ⟨⟨-,hname⟩,hrest⟩ := List.forall_mem_cons.mp h
    cases names with
    | nil => exact components_single hname
    | cons next names =>
      rw [join, components_append, components_single hname, ih (List.cons_ne_nil _ _) hrest, List.singleton_append]
      exact List.cons_ne_nil _ _

theorem join_components (text : List α) : join separator (components separator text) = text := by
  induction text with
  | nil => exact Eq.refl _
  | cons c text ih =>
    by_cases hc : c = separator
    · obtain ⟨first,rest,hparts⟩ := List.exists_cons_of_ne_nil (@components_ne_nil _ _ separator text)
      rw [hc, components_separator, hparts, join, ← hparts, ih, List.nil_append]
      exact List.cons_ne_nil _ _
    · obtain ⟨first,rest,hparts,hcons⟩ := components_cons hc text
      rw [hparts] at ih
      rw [hcons, ← ih]
      cases rest <;> exact Eq.refl _

/-- The bytes of a text that are no separators are those of its parts. -/
theorem mem_components_iff {text : List α} {c : α} (hc : c ≠ separator) :
    (∃ part ∈ components separator text, c ∈ part) ↔ c ∈ text := by
  induction text with
  | nil => simp [components]
  | cons b text ih =>
    by_cases hb : b = separator
    · subst hb
      rw [components_separator, List.mem_cons, ← ih]
      simp [hc]
    · obtain ⟨first,rest,hparts,hcons⟩ := components_cons hb text
      rw [hcons, List.mem_cons, ← ih, hparts]
      simp [or_assoc]

/-- Without a part for "up" the way leads down. -/
theorem foldl_ascends {parts : List (List α)} (names : List (List α)) (h : ∀ part ∈ parts, part ≠ dots.up) :
    names <+: parts.foldl (resolveStep dots) names := by
  induction parts generalizing names with
  | nil => exact List.prefix_refl names
  | cons part parts ih =>
    obtain ⟨hpart,hrest⟩ := List.forall_mem_cons.mp h
    have hstep : names <+: resolveStep dots names part := by
      rw [resolveStep, if_neg hpart]
      split
      · exact List.prefix_refl names
      · exact List.prefix_append names [part]
    exact hstep.trans (ih _ hrest)

theorem join_ne_nil {names : List (List α)} (hne : names ≠ []) (h : ∀ name ∈ names, IsName separator name) :
    join separator names ≠ [] := by
  intro hjoin
  have hparts := components_join hne h
  rw [hjoin, components] at hparts
  exact (h [] (hparts ▸ List.mem_cons_self)).1 rfl

/-- Different names make different paths. -/
theorem join_injective {names names' : List (List α)} (h : ∀ name ∈ names, IsName separator name)
    (h' : ∀ name ∈ names', IsName separator name) (hjoin : join separator names = join separator names') : names = names' := by
  by_cases hne : names = []
  · by_cases hne' : names' = []
    · rw [hne, hne']
    · rw [hne] at hjoin
      exact absurd hjoin.symm (join_ne_nil hne' h')
  · by_cases hne' : names' = []
    · rw [hne'] at hjoin
      exact absurd hjoin (join_ne_nil hne h)
    · rw [← components_join hne h, hjoin, components_join hne' h']

end

end PathNames
