import Bvstk.Library.JsonTree

/-! # Printing JSON

A printer that lays out the parts of each container in one way, with any quoting of strings that
denotes them. What it prints means the tree.
-/
namespace JsonText

variable {ok : List Piece → Prop}

/-! ## Layouts -/

theorem Blank.nil : Blank [] := fun _ hb => nomatch hb

/-- Blanks in front of the first part of a container, in front of each other part, and behind the
last. -/
structure Layout where
  first : Bytes
  next : Bytes
  last : Bytes

structure Layout.Blank (L : Layout) : Prop where
  first : JsonText.Blank L.first
  next : JsonText.Blank L.next
  last : JsonText.Blank L.last

/-- What stands between the brackets. -/
def Layout.lay (L : Layout) : List Bytes → Bytes
  | [] => []
  | v :: vs => L.first ++ v ++ vs.flatMap (fun w => 44 :: (L.next ++ w)) ++ L.last

/-- Parts with the blanks in front of them and behind them. -/
def Layout.around {α : Type} (L : Layout) (before : Bytes) : List α → List (Bytes × α × Bytes)
  | [] => []
  | [x] => [(before,x,L.last)]
  | x :: y :: xs => (before,x,[]) :: L.around L.next (y :: xs)

section
variable {α : Type} {L : Layout}

theorem around_parts (before : Bytes) (xs : List α) : (L.around before xs).map (·.2.1) = xs := by
  induction xs generalizing before with
  | nil => simp [Layout.around]
  | cons x xs ih =>
    cases xs with
    | nil => simp [Layout.around]
    | cons y xs => simp [Layout.around, ih]

theorem around_ne_nil {before : Bytes} {xs : List α} (h : xs ≠ []) : L.around before xs ≠ [] := by
  intro hnil
  have hparts := around_parts (L := L) before xs
  rw [hnil] at hparts
  exact h hparts.symm

theorem around_blank (hL : L.Blank) {before : Bytes} (hbefore : Blank before) {xs : List α} {a : Bytes × α × Bytes}
    (ha : a ∈ L.around before xs) : Blank a.1 ∧ Blank a.2.2 := by
  induction xs generalizing before with
  | nil => cases ha
  | cons x xs ih =>
    cases xs with
    | nil =>
      rw [Layout.around, List.mem_singleton] at ha
      rw [ha]
      exact ⟨hbefore,hL.last⟩
    | cons y xs =>
      rw [Layout.around, List.mem_cons] at ha
      rcases ha with ha | ha
      · rw [ha]
        exact ⟨hbefore,.nil⟩
      · exact ih hL.next ha

theorem commas_around (f : α → Bytes) (before : Bytes) (x : α) (xs : List α) :
    commas ((L.around before (x :: xs)).map fun a => a.1 ++ f a.2.1 ++ a.2.2) =
      before ++ f x ++ (xs.map f).flatMap (fun w => 44 :: (L.next ++ w)) ++ L.last := by
  induction xs generalizing before x with
  | nil => simp [Layout.around, commas]
  | cons y xs ih =>
    have hne : (L.around L.next (y :: xs)).map (fun a => a.1 ++ f a.2.1 ++ a.2.2) ≠ [] := by
      simpa using around_ne_nil (List.cons_ne_nil y xs)
    rw [Layout.around, List.map_cons, List.append_nil, commas, List.intercalate_cons_of_ne_nil hne, ← commas, ih]
    simp

end

/-- An array by its elements. -/
theorem Means.lay_array {n : ℕ} {L : Layout} (hL : L.Blank) (es : List (Tree × Bytes)) (hes : ∀ e ∈ es, Means ok n e.1 e.2) :
    Means ok (n + 1) (.array (es.map Prod.fst)) (91 :: (L.lay (es.map Prod.snd) ++ [93])) := by
  cases es with
  | nil => exact .emptyArray .nil
  | cons e es =>
    have hmem : ∀ a ∈ L.around L.first (e :: es), a.2.1 ∈ e :: es := fun a ha => by
      rw [← around_parts (L := L) L.first (e :: es)]
      exact List.mem_map_of_mem ha
    obtain ⟨laid,hlaid⟩ : ∃ laid : List (Tree × Element),
        laid = (L.around L.first (e :: es)).map fun a => (a.2.1.1,⟨a.1,a.2.1.2,a.2.2⟩) := ⟨_,rfl⟩
    have htrees : laid.map Prod.fst = (e :: es).map Prod.fst := by
      conv_rhs => rw [← around_parts (L := L) L.first (e :: es)]
      simp [hlaid]
    have htexts : commas (laid.map fun e => e.2.text) = L.lay ((e :: es).map Prod.snd) := by
      rw [hlaid, List.map_map]
      exact commas_around Prod.snd L.first e es
    have hall : ∀ e' ∈ laid, (Blank e'.2.before ∧ Blank e'.2.after) ∧ Means ok n e'.1 e'.2.value := by
      intro e' he'
      rw [hlaid] at he'
      obtain ⟨a,ha,rfl⟩ := List.mem_map.mp he'
      exact ⟨around_blank hL hL.first ha,hes _ (hmem a ha)⟩
    have hne : laid ≠ [] := by
      rw [hlaid]
      simpa using around_ne_nil (List.cons_ne_nil e es)
    rw [← htrees, ← htexts]
    exact .array hne (fun e' he' => (hall e' he').1) fun e' he' => (hall e' he').2

/-- A member with a name, blanks behind the colon, and a value. -/
def memberText (name gap v : Bytes) : Bytes := name ++ 58 :: (gap ++ v)

/-- An object by its members: key, tree, and the tokens of key and value. -/
theorem Means.lay_object {n : ℕ} {L : Layout} (hL : L.Blank) {gap : Bytes} (hgap : Blank gap)
    (ms : List ((Bytes × Tree) × List Piece × Bytes))
    (hms : ∀ m ∈ ms, Names ok m.2.1 m.1.1 ∧ Means ok n m.1.2 m.2.2) :
    Means ok (n + 1) (.object (ms.map Prod.fst))
      (123 :: (L.lay (ms.map fun m => memberText (stringToken m.2.1) gap m.2.2) ++ [125])) := by
  cases ms with
  | nil => exact .emptyObject .nil
  | cons m ms =>
    have hmem : ∀ a ∈ L.around L.first (m :: ms), a.2.1 ∈ m :: ms := fun a ha => by
      rw [← around_parts (L := L) L.first (m :: ms)]
      exact List.mem_map_of_mem ha
    obtain ⟨laid,hlaid⟩ : ∃ laid : List ((Bytes × Tree) × Member), laid = (L.around L.first (m :: ms)).map fun a =>
        (a.2.1.1,⟨a.1,a.2.1.2.1,[],⟨gap,a.2.1.2.2,a.2.2⟩⟩) := ⟨_,rfl⟩
    have htrees : laid.map Prod.fst = (m :: ms).map Prod.fst := by
      conv_rhs => rw [← around_parts (L := L) L.first (m :: ms)]
      simp [hlaid]
    have htexts : commas (laid.map fun m => m.2.text) =
        L.lay ((m :: ms).map fun m => memberText (stringToken m.2.1) gap m.2.2) := by
      have hone : ∀ a : Bytes × ((Bytes × Tree) × List Piece × Bytes) × Bytes,
          Member.text ⟨a.1,a.2.1.2.1,[],⟨gap,a.2.1.2.2,a.2.2⟩⟩ =
            a.1 ++ memberText (stringToken a.2.1.2.1) gap a.2.1.2.2 ++ a.2.2 := fun a => by
        simp [Member.text, Element.text, memberText]
      rw [hlaid, List.map_map]
      simp only [Function.comp_def, hone]
      exact commas_around (fun m => memberText (stringToken m.2.1) gap m.2.2) L.first m ms
    have hall : ∀ m' ∈ laid, (Blank m'.2.before ∧ Blank m'.2.middle ∧ Blank m'.2.element.before ∧ Blank m'.2.element.after) ∧
        Names ok m'.2.name m'.1.1 ∧ Means ok n m'.1.2 m'.2.element.value := by
      intro m' hm'
      rw [hlaid] at hm'
      obtain ⟨a,ha,rfl⟩ := List.mem_map.mp hm'
      obtain ⟨hbefore,hafter⟩ := around_blank hL hL.first ha
      exact ⟨⟨hbefore,.nil,hgap,hafter⟩,hms _ (hmem a ha)⟩
    have hne : laid ≠ [] := by
      rw [hlaid]
      simpa using around_ne_nil (List.cons_ne_nil m ms)
    rw [← htrees, ← htexts]
    exact .object hne (fun m' hm' => (hall m' hm').1) (fun m' hm' => (hall m' hm').2.1) fun m' hm' => (hall m' hm').2.2

/-! ## The printer -/

section
variable (quote : Bytes → Bytes) (L : Layout) (gap : Bytes)

mutual
/-- The text of a tree. -/
def Tree.print : Tree → Bytes
  | .scalar text => text
  | .string s => quote s
  | .array es => 91 :: (L.lay (printList es) ++ [93])
  | .object ms => 123 :: (L.lay (printMembers ms) ++ [125])

def printList : List Tree → List Bytes
  | [] => []
  | t :: ts => t.print :: printList ts

def printMember : Bytes × Tree → Bytes
  | (k,t) => memberText (quote k) gap t.print

def printMembers : List (Bytes × Tree) → List Bytes
  | [] => []
  | m :: ms => printMember m :: printMembers ms
end

theorem printList_eq (ts : List Tree) : printList quote L gap ts = ts.map (Tree.print quote L gap) := by
  induction ts with
  | nil => rfl
  | cons t ts ih => rw [printList, ih, List.map_cons]

theorem printMembers_eq (ms : List (Bytes × Tree)) : printMembers quote L gap ms = ms.map (printMember quote L gap) := by
  induction ms with
  | nil => rfl
  | cons m ms ih => rw [printMembers, ih, List.map_cons]

end

/-! ## What can be printed -/

section
variable (P : Bytes → Prop)

mutual
/-- A tree with valid scalars and strings in `P`, in which no container is nested more than `n`
deep. -/
def Tree.Good : ℕ → Tree → Prop
  | _, .scalar text => text ∈ literals ∨ Number text
  | _, .string s => P s
  | 0, .array _ => False
  | n + 1, .array es => GoodList n es
  | 0, .object _ => False
  | n + 1, .object ms => GoodMembers n ms

def GoodList : ℕ → List Tree → Prop
  | _, [] => True
  | n, t :: ts => t.Good n ∧ GoodList n ts

def GoodMember : ℕ → Bytes × Tree → Prop
  | n, (k,t) => P k ∧ t.Good n

def GoodMembers : ℕ → List (Bytes × Tree) → Prop
  | _, [] => True
  | n, m :: ms => GoodMember n m ∧ GoodMembers n ms
end

theorem goodList_iff {n : ℕ} {ts : List Tree} : GoodList P n ts ↔ ∀ t ∈ ts, t.Good P n := by
  induction ts with
  | nil => simp [GoodList]
  | cons t ts ih => rw [GoodList, ih, List.forall_mem_cons]

theorem goodMembers_iff {n : ℕ} {ms : List (Bytes × Tree)} : GoodMembers P n ms ↔ ∀ m ∈ ms, P m.1 ∧ m.2.Good P n := by
  induction ms with
  | nil => simp [GoodMembers]
  | cons m ms ih => rw [GoodMembers, ih, List.forall_mem_cons, GoodMember]

end

section
variable {P : Bytes → Prop} {quote : Bytes → Bytes} {L : Layout} {gap : Bytes}

/-- A quoting that writes each string in `P` as a token for it. -/
def Quotes (ok : List Piece → Prop) (P : Bytes → Prop) (quote : Bytes → Bytes) : Prop :=
  ∀ s, P s → ∃ ps, Names ok ps s ∧ stringToken ps = quote s

theorem print_array (hL : L.Blank) {n : ℕ} {ts : List Tree} (h : ∀ t ∈ ts, Means ok n t (t.print quote L gap)) :
    Means ok (n + 1) (.array ts) (Tree.print quote L gap (.array ts)) := by
  have hes : ∀ e ∈ ts.map fun t => (t,t.print quote L gap), Means ok n e.1 e.2 := fun e he => by
    obtain ⟨t,ht,rfl⟩ := List.mem_map.mp he
    exact h t ht
  have harray := Means.lay_array hL _ hes
  rw [List.map_map, List.map_map] at harray
  rw [Tree.print, printList_eq]
  simpa [Function.comp_def] using harray

/-- An object whose members are laid out in any way. -/
theorem lay_members (hL : L.Blank) (hgap : Blank gap) (hquote : Quotes ok P quote) {n : ℕ} (ms : List ((Bytes × Tree) × Bytes))
    (h : ∀ m ∈ ms, P m.1.1 ∧ Means ok n m.1.2 m.2) :
    Means ok (n + 1) (.object (ms.map Prod.fst))
      (123 :: (L.lay (ms.map fun m => memberText (quote m.1.1) gap m.2) ++ [125])) := by
  choose token htoken using hquote
  have hms : ∀ m ∈ ms.attach.map fun m => ((m.1.1,token m.1.1.1 (h m.1 m.2).1,m.1.2) : (Bytes × Tree) × List Piece × Bytes),
      Names ok m.2.1 m.1.1 ∧ Means ok n m.1.2 m.2.2 := fun m hm => by
    obtain ⟨x,-,rfl⟩ := List.mem_map.mp hm
    exact ⟨(htoken _ _).1,(h x.1 x.2).2⟩
  have hobject := Means.lay_object hL hgap _ hms
  have htrees : (ms.attach.map fun m => ((m.1.1,token m.1.1.1 (h m.1 m.2).1,m.1.2) : (Bytes × Tree) × List Piece × Bytes)).map Prod.fst =
      ms.map Prod.fst := by
    conv_rhs => rw [← List.attach_map_subtype_val ms]
    simp
  have htexts : (ms.attach.map fun m => ((m.1.1,token m.1.1.1 (h m.1 m.2).1,m.1.2) : (Bytes × Tree) × List Piece × Bytes)).map
      (fun m => memberText (stringToken m.2.1) gap m.2.2) = ms.map fun m => memberText (quote m.1.1) gap m.2 := by
    conv_rhs => rw [← List.attach_map_subtype_val ms]
    rw [List.map_map, List.map_map]
    refine List.map_congr_left fun x _ => ?_
    simp only [Function.comp_apply, (htoken _ _).2]
  rwa [htrees, htexts] at hobject

theorem print_object (hL : L.Blank) (hgap : Blank gap) (hquote : Quotes ok P quote) {n : ℕ} {ms : List (Bytes × Tree)}
    (h : ∀ m ∈ ms, P m.1 ∧ Means ok n m.2 (m.2.print quote L gap)) :
    Means ok (n + 1) (.object ms) (Tree.print quote L gap (.object ms)) := by
  have hms : ∀ m ∈ ms.map fun m => (m,m.2.print quote L gap), P m.1.1 ∧ Means ok n m.1.2 m.2 := fun m hm => by
    obtain ⟨x,hx,rfl⟩ := List.mem_map.mp hm
    exact h x hx
  have hobject := lay_members hL hgap hquote _ hms
  rw [List.map_map, List.map_map] at hobject
  rw [Tree.print, printMembers_eq]
  have hmember : printMember quote L gap = fun m => memberText (quote m.1) gap (m.2.print quote L gap) := by
    funext m
    rw [printMember]
  rw [hmember]
  simpa [Function.comp_def] using hobject

mutual
/-- What is printed of a good tree means the tree. -/
theorem print_means (hL : L.Blank) (hgap : Blank gap) (hquote : Quotes ok P quote) :
    (t : Tree) → {n : ℕ} → t.Good P n → Means ok n t (t.print quote L gap)
  | .scalar text, n, h => by
    rw [Tree.print]
    exact .scalar (by rwa [Tree.Good] at h)
  | .string s, n, h => by
    rw [Tree.Good] at h
    obtain ⟨ps,hnames,htoken⟩ := hquote s h
    rw [Tree.print, ← htoken]
    exact .string hnames
  | .array es, 0, h => by
    rw [Tree.Good] at h
    exact h.elim
  | .array es, n + 1, h => by
    rw [Tree.Good] at h
    exact print_array hL (printList_means hL hgap hquote es h)
  | .object ms, 0, h => by
    rw [Tree.Good] at h
    exact h.elim
  | .object ms, n + 1, h => by
    rw [Tree.Good] at h
    exact print_object hL hgap hquote (printMembers_means hL hgap hquote ms h)

theorem printList_means (hL : L.Blank) (hgap : Blank gap) (hquote : Quotes ok P quote) :
    (ts : List Tree) → {n : ℕ} → GoodList P n ts → ∀ t ∈ ts, Means ok n t (t.print quote L gap)
  | [], n, h => by simp
  | t :: ts, n, h => by
    rw [GoodList] at h
    rw [List.forall_mem_cons]
    exact ⟨print_means hL hgap hquote t h.1,printList_means hL hgap hquote ts h.2⟩

theorem printMember_means (hL : L.Blank) (hgap : Blank gap) (hquote : Quotes ok P quote) :
    (m : Bytes × Tree) → {n : ℕ} → GoodMember P n m → P m.1 ∧ Means ok n m.2 (m.2.print quote L gap)
  | (k,t), n, h => by
    rw [GoodMember] at h
    exact ⟨h.1,print_means hL hgap hquote t h.2⟩

theorem printMembers_means (hL : L.Blank) (hgap : Blank gap) (hquote : Quotes ok P quote) :
    (ms : List (Bytes × Tree)) → {n : ℕ} → GoodMembers P n ms → ∀ m ∈ ms, P m.1 ∧ Means ok n m.2 (m.2.print quote L gap)
  | [], n, h => by simp
  | m :: ms, n, h => by
    rw [GoodMembers] at h
    rw [List.forall_mem_cons]
    exact ⟨printMember_means hL hgap hquote m h.1,printMembers_means hL hgap hquote ms h.2⟩
end

end

end JsonText
