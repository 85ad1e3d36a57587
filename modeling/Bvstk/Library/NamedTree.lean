import Mathlib.Data.List.Infix
import Mathlib.Logic.Function.Basic

/-! # Trees of names

Directories with names in them and files with data, listed one object after the other, each
directory before what is in it. Objects put one by one into a store that goes by folded names
make the tree again.
-/
namespace NamedTree

/-- What there is under a name. -/
inductive Tree (ν δ : Type) where
  | file (data : δ)
  | dir (entries : List (ν × Tree ν δ))

/-- What is stored: a name and the data of a file, or none for a directory. -/
structure Object (ν δ : Type) where
  name : ν
  data : Option δ
  deriving DecidableEq

/-- An object in a listing, with the names on the way to it. -/
structure Item (ν δ : Type) where
  front : List ν
  name : ν
  data : Option δ
  deriving DecidableEq

/-- A store finds objects by their folded names. -/
abbrev Store (κ ν δ : Type) := List κ → Option (Object ν δ)

variable {κ ν δ : Type}

/-! ## Listing -/

mutual

def itemsNode (front : List ν) (name : ν) : Tree ν δ → List (Item ν δ)
  | .file data => [⟨front,name,some data⟩]
  | .dir entries => ⟨front,name,none⟩ :: itemsList (front ++ [name]) entries

def itemsPair (front : List ν) : ν × Tree ν δ → List (Item ν δ)
  | (name,tree) => itemsNode front name tree

def itemsList (front : List ν) : List (ν × Tree ν δ) → List (Item ν δ)
  | [] => []
  | entry :: entries => itemsPair front entry ++ itemsList front entries

end

mutual

theorem front_node (front : List ν) (name : ν) : (tree : Tree ν δ) → ∀ item ∈ itemsNode front name tree, ∀ x ∈ item.front,
    x ∈ front ∨ ∃ other ∈ itemsNode front name tree, other.name = x
  | .file data, item, hitem, x, hx => by
    rw [itemsNode, List.mem_singleton] at hitem
    subst hitem
    exact .inl hx
  | .dir entries, item, hitem, x, hx => by
    rw [itemsNode, List.mem_cons] at hitem
    rw [itemsNode]
    rcases hitem with rfl | hitem
    · exact .inl hx
    · rcases front_list (front ++ [name]) entries item hitem x hx with hfront | ⟨other,hother,hname⟩
      · rcases List.mem_append.mp hfront with hfront | hlast
        · exact .inl hfront
        · exact .inr ⟨_,List.mem_cons_self,(List.mem_singleton.mp hlast).symm⟩
      · exact .inr ⟨other,List.mem_cons_of_mem _ hother,hname⟩

theorem front_pair (front : List ν) : (entry : ν × Tree ν δ) → ∀ item ∈ itemsPair front entry, ∀ x ∈ item.front,
    x ∈ front ∨ ∃ other ∈ itemsPair front entry, other.name = x
  | (name,tree), item, hitem, x, hx => by
    rw [itemsPair] at hitem ⊢
    exact front_node front name tree item hitem x hx

/-- The names on the way to an object are those of other objects of the listing. -/
theorem front_list (front : List ν) : (entries : List (ν × Tree ν δ)) → ∀ item ∈ itemsList front entries, ∀ x ∈ item.front,
    x ∈ front ∨ ∃ other ∈ itemsList front entries, other.name = x
  | [], item, hitem, _, _ => by
    rw [itemsList] at hitem
    cases hitem
  | entry :: entries, item, hitem, x, hx => by
    rw [itemsList, List.mem_append] at hitem
    rw [itemsList]
    rcases hitem with hitem | hitem
    · rcases front_pair front entry item hitem x hx with hfront | ⟨other,hother,hname⟩
      · exact .inl hfront
      · exact .inr ⟨other,List.mem_append_left _ hother,hname⟩
    · rcases front_list front entries item hitem x hx with hfront | ⟨other,hother,hname⟩
      · exact .inl hfront
      · exact .inr ⟨other,List.mem_append_right _ hother,hname⟩

end

/-! ## Looking up -/

variable [DecidableEq κ] (fold : ν → κ)

mutual

/-- What is found in a tree of this name. -/
def lookupNode (name : ν) : Tree ν δ → List κ → Option (Object ν δ)
  | .file data, [] => some ⟨name,some data⟩
  | .file _, _ :: _ => none
  | .dir _, [] => some ⟨name,none⟩
  | .dir entries, x :: k => lookupList entries (x :: k)

def lookupPair : ν × Tree ν δ → List κ → Option (Object ν δ)
  | (_,_), [] => none
  | (name,tree), x :: k => if fold name = x then lookupNode name tree k else none

/-- What is found in a directory with these entries; the directory itself is not. -/
def lookupList : List (ν × Tree ν δ) → Store κ ν δ
  | [], _ => none
  | entry :: entries, k => (lookupPair entry k).or (lookupList entries k)

end

mutual

/-- No two names in a directory fold into one. -/
def DistinctNode : Tree ν δ → Prop
  | .file _ => True
  | .dir entries => DistinctList entries

def DistinctPair : ν × Tree ν δ → Prop
  | (_,tree) => DistinctNode tree

def DistinctList : List (ν × Tree ν δ) → Prop
  | [] => True
  | entry :: entries => DistinctPair entry ∧ (∀ other ∈ entries, fold other.1 ≠ fold entry.1) ∧ DistinctList entries

end

/-! ## Placing -/

/-- The key of an object under a directory with this key. -/
def itemKey (base : List κ) (item : Item ν δ) : List κ := base ++ (item.front.map fold ++ [fold item.name])

def IsDir (m : Store κ ν δ) (k : List κ) : Prop := ∃ name, m k = some ⟨name,none⟩

/-- An object may be put where there is a directory for it and nothing in its place. -/
def Placeable (base : List κ) (m : Store κ ν δ) (item : Item ν δ) : Prop :=
  IsDir m (base ++ item.front.map fold) ∧ m (itemKey fold base item) = none

def placed (base : List κ) (m : Store κ ν δ) (item : Item ν δ) : Store κ ν δ :=
  Function.update m (itemKey fold base item) (some ⟨item.name,item.data⟩)

/-- From `m`, the objects can be placed one after the other, and `m'` is what comes out. -/
inductive Places (base : List κ) : Store κ ν δ → List (Item ν δ) → Store κ ν δ → Prop where
  | nil (m : Store κ ν δ) : Places base m [] m
  | cons {m m' : Store κ ν δ} {item : Item ν δ} {items : List (Item ν δ)} (here : Placeable fold base m item)
      (rest : Places base (placed fold base m item) items m') : Places base m (item :: items) m'

/-- `m` with what `f` finds under the key `base`. -/
def overlay (base : List κ) (f m : Store κ ν δ) : Store κ ν δ := fun k =>
  if base <+: k then (f (k.drop base.length)).or (m k) else m k

/-! ## Lemmas -/

section
variable {fold} {base : List κ} {m m' m'' : Store κ ν δ}

theorem Places.append {items items' : List (Item ν δ)} (h : Places fold base m items m')
    (h' : Places fold base m' items' m'') : Places fold base m (items ++ items') m'' := by
  induction h with
  | nil => exact h'
  | cons here rest ih => exact .cons here (ih h')

theorem overlay_append (f m : Store κ ν δ) (k : List κ) : overlay base f m (base ++ k) = (f k).or (m (base ++ k)) := by
  rw [overlay, if_pos (List.prefix_append base k), List.drop_left]

theorem overlay_outside (f m : Store κ ν δ) {k : List κ} (hk : ¬base <+: k) : overlay base f m k = m k := if_neg hk

/-- Two stores that agree under a key and outside of it are the same. -/
theorem store_ext (base : List κ) (hinside : ∀ k, m (base ++ k) = m' (base ++ k))
    (houtside : ∀ k, ¬base <+: k → m k = m' k) : m = m' := by
  funext k
  by_cases hk : base <+: k
  · obtain ⟨rest,rfl⟩ := hk
    exact hinside rest
  · exact houtside k hk

theorem overlay_none (m : Store κ ν δ) : overlay base (fun _ => none) m = m := by
  apply store_ext base
  · intro k
    rw [overlay_append, Option.none_or]
  · exact fun k => overlay_outside _ m

theorem overlay_overlay (f g m : Store κ ν δ) :
    overlay base f (overlay base g m) = overlay base (fun k => (f k).or (g k)) m := by
  apply store_ext base
  · intro k
    rw [overlay_append, overlay_append, overlay_append, Option.or_assoc]
  · intro k hk
    rw [overlay_outside _ _ hk, overlay_outside _ _ hk, overlay_outside _ _ hk]

theorem lookupList_nil (entries : List (ν × Tree ν δ)) : lookupList fold entries [] = none := by
  induction entries with
  | nil => rw [lookupList]
  | cons entry entries ih =>
    rw [lookupList, ih, Option.or_none]
    obtain ⟨name,tree⟩ := entry
    rw [lookupPair]

theorem lookupPair_ne {entry : ν × Tree ν δ} {x : κ} (h : fold entry.1 ≠ x) (k : List κ) :
    lookupPair fold entry (x :: k) = none := by
  obtain ⟨name,tree⟩ := entry
  rw [lookupPair, if_neg h]

theorem lookupPair_eq (name : ν) (tree : Tree ν δ) (k : List κ) :
    lookupPair fold (name,tree) (fold name :: k) = lookupNode fold name tree k := by
  rw [lookupPair, if_pos rfl]

theorem lookupList_absent {entries : List (ν × Tree ν δ)} {x : κ} (h : ∀ entry ∈ entries, fold entry.1 ≠ x) (k : List κ) :
    lookupList fold entries (x :: k) = none := by
  induction entries with
  | nil => rw [lookupList]
  | cons entry entries ih =>
    have hhead := lookupPair_ne (h entry List.mem_cons_self) k
    have htail := ih fun other hother => h other (List.mem_cons_of_mem _ hother)
    rw [lookupList, hhead, htail, Option.or_none]

/-- An entry and those behind it are never found at once. -/
theorem lookup_or_comm {entry : ν × Tree ν δ} {entries : List (ν × Tree ν δ)}
    (h : ∀ other ∈ entries, fold other.1 ≠ fold entry.1) (k : List κ) :
    (lookupList fold entries k).or (lookupPair fold entry k) = (lookupPair fold entry k).or (lookupList fold entries k) := by
  cases k with
  | nil =>
    obtain ⟨name,tree⟩ := entry
    rw [lookupList_nil, lookupPair, Option.or_none]
  | cons x k =>
    by_cases hx : fold entry.1 = x
    · subst hx
      rw [lookupList_absent h, Option.none_or, Option.or_none]
    · rw [lookupPair_ne hx, Option.or_none, Option.none_or]

/-! ### Placing a listing -/

variable {front : List ν}

theorem placed_self (item : Item ν δ) : placed fold base m item (itemKey fold base item) = some ⟨item.name,item.data⟩ :=
  Function.update_self _ _ _

theorem placed_other {item : Item ν δ} {k : List κ} (h : k ≠ itemKey fold base item) :
    placed fold base m item k = m k := Function.update_of_ne h _ _

omit [DecidableEq κ] in
theorem itemKey_eq (front : List ν) (name : ν) (data : Option δ) :
    itemKey fold base ⟨front,name,data⟩ = (base ++ front.map fold) ++ [fold name] := by
  rw [itemKey, List.append_assoc]

/-- A file is placed as a whole. -/
theorem placed_file (name : ν) (data : δ) (m : Store κ ν δ) :
    placed fold base m ⟨front,name,some data⟩ =
      overlay (base ++ front.map fold) (lookupPair fold (name,.file data)) m := by
  apply store_ext (base ++ front.map fold)
  · intro k
    rw [overlay_append]
    cases k with
    | nil =>
      rw [lookupPair, Option.none_or]
      apply placed_other
      rw [itemKey_eq]
      simp
    | cons x k =>
      by_cases hx : fold name = x
      · subst hx
        rw [lookupPair_eq]
        cases k with
        | nil =>
          rw [lookupNode, Option.some_or, ← itemKey_eq front name (some data), placed_self]
        | cons y k =>
          rw [lookupNode, Option.none_or]
          apply placed_other
          rw [itemKey_eq]
          simp
      · rw [lookupPair_ne hx, Option.none_or]
        apply placed_other
        rw [itemKey_eq]
        simp [Ne.symm hx]
  · intro k hk
    rw [overlay_outside _ _ hk]
    apply placed_other
    rw [itemKey_eq]
    rintro rfl
    exact hk (List.prefix_append _ _)

/-- What a directory takes in after it has been placed. -/
theorem overlay_dir (name : ν) (entries : List (ν × Tree ν δ)) (m : Store κ ν δ) :
    overlay (base ++ (front ++ [name]).map fold) (lookupList fold entries) (placed fold base m ⟨front,name,none⟩) =
      overlay (base ++ front.map fold) (lookupPair fold (name,.dir entries)) m := by
  have hkey : base ++ (front ++ [name]).map fold = (base ++ front.map fold) ++ [fold name] := by simp
  have hother : ∀ k, k ≠ (base ++ front.map fold) ++ [fold name] →
      placed fold base m ⟨front,name,none⟩ k = m k := by
    intro k hk
    rw [← itemKey_eq front name (none : Option δ)] at hk
    exact placed_other hk
  rw [hkey]
  apply store_ext (base ++ front.map fold)
  · intro k
    rw [overlay_append]
    cases k with
    | nil =>
      have hout : ¬(base ++ front.map fold) ++ [fold name] <+: (base ++ front.map fold) ++ [] := by
        intro h
        have hlength := h.length_le
        simp only [List.length_append, List.length_map, List.length_singleton, List.length_nil] at hlength
        omega
      rw [lookupPair, Option.none_or, overlay_outside _ _ hout]
      exact hother _ (by simp)
    | cons x k =>
      by_cases hx : fold name = x
      · subst hx
        have hsplit : (base ++ front.map fold) ++ fold name :: k = ((base ++ front.map fold) ++ [fold name]) ++ k := by simp
        rw [lookupPair_eq, hsplit, overlay_append]
        cases k with
        | nil =>
          rw [lookupList_nil, Option.none_or, lookupNode, Option.some_or, List.append_nil,
            ← itemKey_eq front name (none : Option δ), placed_self]
        | cons y k =>
          rw [lookupNode, hother _ (by simp)]
      · have hout : ¬(base ++ front.map fold) ++ [fold name] <+: (base ++ front.map fold) ++ x :: k := by
          rw [List.prefix_append_right_inj, List.cons_prefix_cons]
          exact fun h => hx h.1
        rw [lookupPair_ne hx, Option.none_or, overlay_outside _ _ hout]
        exact hother _ (by simp [Ne.symm hx])
  · intro k hk
    have hout : ¬(base ++ front.map fold) ++ [fold name] <+: k := fun h => hk ((List.prefix_append _ _).trans h)
    rw [overlay_outside _ _ hk, overlay_outside _ _ hout]
    apply hother
    rintro rfl
    exact hk (List.prefix_append _ _)

/-- A directory with nothing under the names to come. -/
structure Ready (fold : ν → κ) (base : List κ) (m : Store κ ν δ) (names : List ν) : Prop where
  dir : IsDir m base
  fresh : ∀ name ∈ names, ∀ k, m (base ++ fold name :: k) = none

/-- An entry leaves its directory ready for those behind it. -/
theorem Ready.tail {entry : ν × Tree ν δ} {entries : List (ν × Tree ν δ)}
    (h : Ready fold base m ((entry :: entries).map Prod.fst)) (hd : ∀ other ∈ entries, fold other.1 ≠ fold entry.1) :
    Ready fold base (overlay base (lookupPair fold entry) m) (entries.map Prod.fst) := by
  constructor
  · obtain ⟨name,hname⟩ := h.dir
    refine ⟨name,?_⟩
    have hself : overlay base (lookupPair fold entry) m (base ++ []) = _ := overlay_append _ m []
    rw [List.append_nil] at hself
    obtain ⟨name',tree⟩ := entry
    rw [hself, lookupPair, Option.none_or, hname]
  · intro name hname k
    obtain ⟨other,hother,rfl⟩ := List.mem_map.mp hname
    rw [overlay_append, lookupPair_ne (Ne.symm (hd other hother)), Option.none_or]
    exact h.fresh _ (List.mem_cons_of_mem _ hname) k

/-- A directory just placed has nothing in it. -/
theorem Ready.inside {name : ν} (h : Ready fold (base ++ front.map fold) m [name]) (names : List ν) :
    Ready fold (base ++ (front ++ [name]).map fold) (placed fold base m ⟨front,name,none⟩) names := by
  have hkey : base ++ (front ++ [name]).map fold = itemKey fold base (⟨front,name,none⟩ : Item ν δ) := by
    simp [itemKey_eq]
  constructor
  · exact ⟨name,by rw [hkey, placed_self]⟩
  · intro other _ k
    rw [placed_other (by simp [itemKey_eq])]
    have hfresh := h.fresh name List.mem_cons_self (fold other :: k)
    rw [hkey, itemKey_eq]
    simpa using hfresh

omit [DecidableEq κ] in
theorem Ready.placeable {name : ν} (h : Ready fold (base ++ front.map fold) m [name]) (data : Option δ) :
    Placeable fold base m ⟨front,name,data⟩ := by
  refine ⟨h.dir,?_⟩
  rw [itemKey_eq]
  exact h.fresh name List.mem_cons_self []

mutual

theorem places_node (front : List ν) (name : ν) : (tree : Tree ν δ) → ∀ {m : Store κ ν δ},
    Ready fold (base ++ front.map fold) m [name] → DistinctNode fold tree →
    Places fold base m (itemsNode front name tree)
      (overlay (base ++ front.map fold) (lookupPair fold (name,tree)) m)
  | .file data, m, hready, _ => by
    rw [itemsNode, ← placed_file]
    exact .cons (hready.placeable _) (.nil _)
  | .dir entries, m, hready, hd => by
    rw [itemsNode, ← overlay_dir]
    rw [DistinctNode] at hd
    exact .cons (hready.placeable _) (places_list (front ++ [name]) entries (hready.inside _) hd)

theorem places_pair (front : List ν) : (entry : ν × Tree ν δ) → ∀ {m : Store κ ν δ},
    Ready fold (base ++ front.map fold) m [entry.1] → DistinctPair fold entry →
    Places fold base m (itemsPair front entry) (overlay (base ++ front.map fold) (lookupPair fold entry) m)
  | (name,tree), m, hready, hd => by
    rw [itemsPair]
    rw [DistinctPair] at hd
    exact places_node front name tree hready hd

/-- The objects of a listing, placed one after the other, make the tree they are from. -/
theorem places_list (front : List ν) : (entries : List (ν × Tree ν δ)) → ∀ {m : Store κ ν δ},
    Ready fold (base ++ front.map fold) m (entries.map Prod.fst) → DistinctList fold entries →
    Places fold base m (itemsList front entries) (overlay (base ++ front.map fold) (lookupList fold entries) m)
  | [], m, _, _ => by
    have hnone : lookupList fold ([] : List (ν × Tree ν δ)) = fun _ => none := by
      funext k
      rw [lookupList]
    rw [itemsList, hnone, overlay_none]
    exact .nil m
  | entry :: entries, m, hready, hd => by
    rw [DistinctList] at hd
    obtain ⟨hentry,hnew,hrest⟩ := hd
    have hfirst : Ready fold (base ++ front.map fold) m [entry.1] :=
      ⟨hready.dir,fun name hname => hready.fresh name (by simpa using Or.inl (List.mem_singleton.mp hname))⟩
    have hwhole : lookupList fold (entry :: entries) = fun k => (lookupList fold entries k).or (lookupPair fold entry k) := by
      funext k
      rw [lookupList, lookup_or_comm hnew]
    rw [itemsList, hwhole, ← overlay_overlay]
    exact (places_pair front entry hfirst hentry).append (places_list front entries (hready.tail hnew) hrest)

end

end

end NamedTree
