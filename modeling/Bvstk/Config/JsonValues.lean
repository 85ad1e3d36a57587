import Bvstk.Config.JsonStrings
import Mathlib.Data.List.TakeWhile

/-! # What the reader takes for a value

`value` stops exactly behind the values of the grammar, and `document` accepts exactly the
texts with an object on top that are small and flat enough.
-/
namespace Bvstk.Config
open JsonText

/-! ## Blanks -/

theorem isWs_iff {b : UInt8} : isWs b = true ↔ IsBlank b := by
  simp only [isWs, IsBlank, Bool.or_eq_true, beq_iff_eq]
  tauto

theorem ws_append {blank : Bytes} (hblank : Blank blank) (rest : Bytes) : ws (blank ++ rest) = ws rest :=
  List.dropWhile_append_of_pos fun b hb => isWs_iff.2 (hblank b hb)

theorem ws_cons {b : UInt8} (hb : ¬IsBlank b) (rest : Bytes) : ws (b :: rest) = b :: rest :=
  List.dropWhile_cons_of_neg fun hws => hb (isWs_iff.1 hws)

theorem ws_split (input : Bytes) : ∃ blank, Blank blank ∧ input = blank ++ ws input := by
  refine ⟨input.takeWhile isWs,fun b hb => isWs_iff.1 (List.mem_takeWhile_imp hb),?_⟩
  exact List.takeWhile_append_dropWhile.symm

theorem ws_head {input rest : Bytes} {b : UInt8} (h : ws input = b :: rest) : ¬IsBlank b := by
  intro hblank
  have hhead := List.head?_dropWhile_not isWs input
  have hws : List.dropWhile isWs input = b :: rest := h
  rw [hws] at hhead
  have hb : isWs b = true := isWs_iff.2 hblank
  simp [hb] at hhead

theorem ws_ws (input : Bytes) : ws (ws input) = ws input := by
  cases h : ws input with
  | nil => rfl
  | cons b rest => exact ws_cons (ws_head h) rest

theorem value_ws (n : ℕ) (input : Bytes) : value n (ws input) = value n input := by
  unfold value
  rw [ws_ws]

/-! ## Numbers -/

theorem digit_iff {b : UInt8} : digit b = true ↔ IsDigit b := decide_eq_true_iff

/-- The bytes do not go on with a digit. -/
def NoDigit (rest : Bytes) : Prop := ∀ b ∈ rest.head?, digit b = false

theorem dropWhile_digits {ds rest : Bytes} (hds : ∀ b ∈ ds, IsDigit b) (hrest : NoDigit rest) :
    (ds ++ rest).dropWhile digit = rest := by
  rw [List.dropWhile_append_of_pos fun b hb => digit_iff.2 (hds b hb)]
  cases rest with
  | nil => rfl
  | cons b rest =>
    have hb := hrest b rfl
    exact List.dropWhile_cons_of_neg (by rw [hb]; decide)

theorem digits_eq {ds rest : Bytes} (hds : Digits ds) (hrest : NoDigit rest) : digits (ds ++ rest) = some rest := by
  obtain ⟨hne,hall⟩ := hds
  cases ds with
  | nil => exact absurd rfl hne
  | cons b ds =>
    rw [List.cons_append, digits, if_pos (digit_iff.2 (hall b List.mem_cons_self)),
      dropWhile_digits (fun b' hb' => hall b' (List.mem_cons_of_mem b hb')) hrest]

theorem digits_some {input rest : Bytes} (h : digits input = some rest) : ∃ ds, Digits ds ∧ input = ds ++ rest := by
  cases input with
  | nil => cases h
  | cons b input =>
    by_cases hb : digit b = true
    · rw [digits, if_pos hb] at h
      cases h
      refine ⟨b :: input.takeWhile digit,⟨List.cons_ne_nil _ _,fun b' hb' => ?_⟩,?_⟩
      · rcases List.mem_cons.mp hb' with rfl | hb'
        · exact digit_iff.1 hb
        · exact digit_iff.1 (List.mem_takeWhile_imp hb')
      · rw [List.cons_append, List.takeWhile_append_dropWhile]
    · rw [digits, if_neg hb] at h
      cases h

theorem integer_eq {int rest : Bytes} (hint : IntPart int) (hrest : NoDigit rest) : integer (int ++ rest) = some rest := by
  obtain ⟨⟨hne,hall⟩,hzero⟩ := hint
  cases int with
  | nil => exact absurd rfl hne
  | cons b int =>
    have hb := digit_iff.2 (hall b List.mem_cons_self)
    rw [List.cons_append, integer, if_neg (by rw [hb]; decide)]
    by_cases h48 : b = 48
    · have hint := hzero (by rw [h48]; rfl)
      rw [h48, List.cons.injEq] at hint
      rw [if_pos h48, hint.2]
      rfl
    · rw [if_neg h48, dropWhile_digits (fun b' hb' => hall b' (List.mem_cons_of_mem b hb')) hrest]

theorem integer_some {input rest : Bytes} (h : integer input = some rest) : ∃ int, IntPart int ∧ input = int ++ rest := by
  cases input with
  | nil => cases h
  | cons b input =>
    by_cases hb : digit b = true
    · have hdigit := digit_iff.1 hb
      rw [integer, if_neg (by rw [hb]; decide)] at h
      by_cases h48 : b = 48
      · rw [if_pos h48] at h
        cases h
        refine ⟨[b],⟨⟨List.cons_ne_nil _ _,fun b' hb' => ?_⟩,fun _ => by rw [h48]⟩,rfl⟩
        rw [List.mem_singleton.mp hb']
        exact hdigit
      · rw [if_neg h48] at h
        cases h
        refine ⟨b :: input.takeWhile digit,⟨⟨List.cons_ne_nil _ _,fun b' hb' => ?_⟩,fun hhead => ?_⟩,?_⟩
        · rcases List.mem_cons.mp hb' with rfl | hb'
          · exact hdigit
          · exact digit_iff.1 (List.mem_takeWhile_imp hb')
        · exact absurd (Option.some.inj hhead) h48
        · rw [List.cons_append, List.takeWhile_append_dropWhile]
    · rw [integer, if_pos (by simpa using hb)] at h
      cases h

/-- Where a number ends: in front of nothing, or of what cannot go on with it. -/
def Ends (rest : Bytes) : Prop :=
  NoDigit rest ∧ ∀ b ∈ rest.head?, b ≠ 46 ∧ b ≠ 101 ∧ b ≠ 69

theorem exponent_eq {exp rest : Bytes} (hexp : ExpPart exp) (hrest : Ends rest) : exponent (exp ++ rest) = some rest := by
  rcases hexp with rfl | ⟨letter,sign,ds,rfl,hletter,hsign,hds⟩
  · cases rest with
    | nil => rfl
    | cons b rest =>
      obtain ⟨-,he,hE⟩ := hrest.2 b rfl
      unfold exponent
      rw [List.nil_append]
      dsimp only
      rw [if_neg fun hboth => hboth.elim he hE]
  · have hdigits := digits_eq hds hrest.1
    unfold exponent
    rw [List.cons_append, List.append_assoc]
    dsimp only
    rw [if_pos hletter]
    rcases hsign with rfl | rfl | rfl
    · cases ds with
      | nil => exact absurd rfl hds.1
      | cons b ds =>
        have hb : IsDigit b := hds.2 b List.mem_cons_self
        have hno : ¬(b = 43 ∨ b = 45) := by
          rintro (rfl | rfl)
          · exact absurd hb.1 (by decide)
          · exact absurd hb.1 (by decide)
        rw [List.nil_append, List.cons_append]
        dsimp only
        rw [if_neg hno]
        exact hdigits
    · exact hdigits
    · exact hdigits

theorem exponent_some {input rest : Bytes} (h : exponent input = some rest) : ∃ exp, ExpPart exp ∧ input = exp ++ rest := by
  cases input with
  | nil =>
    cases h
    exact ⟨[],Or.inl rfl,rfl⟩
  | cons letter input =>
    by_cases hletter : letter = 101 ∨ letter = 69
    · unfold exponent at h
      dsimp only at h
      rw [if_pos hletter] at h
      cases input with
      | nil => cases h
      | cons sign input =>
        dsimp only at h
        by_cases hsign : sign = 43 ∨ sign = 45
        · rw [if_pos hsign] at h
          obtain ⟨ds,hds,rfl⟩ := digits_some h
          refine ⟨letter :: ([sign] ++ ds),Or.inr ⟨letter,[sign],ds,rfl,hletter,Or.inr ?_,hds⟩,rfl⟩
          rcases hsign with rfl | rfl
          · exact Or.inl rfl
          · exact Or.inr rfl
        · rw [if_neg hsign] at h
          obtain ⟨ds,hds,hinput⟩ := digits_some h
          refine ⟨letter :: ([] ++ ds),Or.inr ⟨letter,[],ds,rfl,hletter,Or.inl rfl,hds⟩,?_⟩
          rw [hinput]
          rfl
    · unfold exponent at h
      dsimp only at h
      rw [if_neg hletter] at h
      cases h
      exact ⟨[],Or.inl rfl,rfl⟩

theorem fraction_eq {frac rest : Bytes} (hfrac : FracPart frac) (hrest : NoDigit rest)
    (hpoint : ∀ b ∈ rest.head?, b ≠ 46) : fraction (frac ++ rest) = some rest := by
  rcases hfrac with rfl | ⟨ds,rfl,hds⟩
  · cases rest with
    | nil => rfl
    | cons b rest => rw [List.nil_append, fraction, if_neg (hpoint b rfl)]
  · rw [List.cons_append, fraction, if_pos rfl]
    exact digits_eq hds hrest

theorem fraction_some {input rest : Bytes} (h : fraction input = some rest) :
    ∃ frac, FracPart frac ∧ input = frac ++ rest := by
  cases input with
  | nil =>
    cases h
    exact ⟨[],Or.inl rfl,rfl⟩
  | cons b input =>
    by_cases hb : b = 46
    · rw [fraction, if_pos hb] at h
      obtain ⟨ds,hds,rfl⟩ := digits_some h
      exact ⟨46 :: ds,Or.inr ⟨ds,rfl,hds⟩,by rw [hb]; rfl⟩
    · rw [fraction, if_neg hb] at h
      cases h
      exact ⟨[],Or.inl rfl,rfl⟩

/-- The head of an exponent and what follows. -/
theorem exponent_head {exp rest : Bytes} (hexp : ExpPart exp) (hrest : Ends rest) :
    NoDigit (exp ++ rest) ∧ ∀ b ∈ (exp ++ rest).head?, b ≠ 46 := by
  rcases hexp with rfl | ⟨letter,sign,ds,rfl,hletter,-,-⟩
  · exact ⟨hrest.1,fun b hb => (hrest.2 b hb).1⟩
  · rcases hletter with rfl | rfl
    · exact ⟨fun b hb => by cases hb; decide,fun b hb => by cases hb; decide⟩
    · exact ⟨fun b hb => by cases hb; decide,fun b hb => by cases hb; decide⟩

/-- A number begins with a digit or a minus. -/
theorem number_head {text : Bytes} (h : Number text) : ∃ b tail, text = b :: tail ∧ (b = 45 ∨ digit b = true) := by
  obtain ⟨minus,int,frac,exp,rfl,hminus,⟨⟨hne,hall⟩,-⟩,-,-⟩ := h
  rcases hminus with rfl | rfl
  · cases int with
    | nil => exact absurd rfl hne
    | cons b int =>
      exact ⟨b,int ++ frac ++ exp,rfl,Or.inr (digit_iff.2 (hall b List.mem_cons_self))⟩
  · exact ⟨45,int ++ frac ++ exp,rfl,Or.inl rfl⟩

theorem scanNumber_eq {text rest : Bytes} (htext : Number text) (hrest : Ends rest) :
    scanNumber (text ++ rest) = some rest := by
  obtain ⟨minus,int,frac,exp,rfl,hminus,hint,hfrac,hexp⟩ := htext
  obtain ⟨hdigit,hpoint⟩ := exponent_head hexp hrest
  have hfraction : NoDigit (frac ++ (exp ++ rest)) := by
    rcases hfrac with rfl | ⟨ds,rfl,-⟩
    · exact hdigit
    · exact fun b hb => by cases hb; decide
  have hunsigned : (if (minus ++ int ++ frac ++ exp ++ rest).head? = some 45 then
      (minus ++ int ++ frac ++ exp ++ rest).drop 1 else minus ++ int ++ frac ++ exp ++ rest) =
        int ++ (frac ++ (exp ++ rest)) := by
    rcases hminus with rfl | rfl
    · obtain ⟨⟨hne,hall⟩,-⟩ := hint
      cases int with
      | nil => exact absurd rfl hne
      | cons b int =>
        have hb : IsDigit b := hall b List.mem_cons_self
        have h45 : b ≠ 45 := by
          rintro rfl
          exact absurd hb.1 (by decide)
        rw [if_neg]
        · simp only [List.nil_append, List.cons_append, List.append_assoc]
        · exact fun hhead => h45 (Option.some.inj hhead)
    · have hhead : ([45] ++ int ++ frac ++ exp ++ rest).head? = some 45 := by simp
      rw [if_pos hhead]
      simp only [List.cons_append, List.nil_append, List.drop_one, List.tail_cons, List.append_assoc]
  rw [scanNumber, hunsigned, integer_eq hint hfraction, Option.bind_some, fraction_eq hfrac hdigit hpoint,
    Option.bind_some, exponent_eq hexp hrest]

theorem scanNumber_some {input rest : Bytes} (h : scanNumber input = some rest) :
    ∃ text, Number text ∧ input = text ++ rest := by
  obtain ⟨rest₁,hinteger,h⟩ := Option.bind_eq_some_iff.mp h
  obtain ⟨rest₂,hfraction,hexponent⟩ := Option.bind_eq_some_iff.mp h
  obtain ⟨int,hint,hinput⟩ := integer_some hinteger
  obtain ⟨frac,hfrac,rfl⟩ := fraction_some hfraction
  obtain ⟨exp,hexp,rfl⟩ := exponent_some hexponent
  by_cases hminus : input.head? = some 45
  · rw [if_pos hminus] at hinput
    cases input with
    | nil => cases hminus
    | cons b input =>
      rw [List.head?_cons, Option.some.injEq] at hminus
      rw [List.drop_one, List.tail_cons] at hinput
      refine ⟨[45] ++ int ++ frac ++ exp,⟨[45],int,frac,exp,rfl,Or.inr rfl,hint,hfrac,hexp⟩,?_⟩
      rw [hminus, hinput]
      simp
  · rw [if_neg hminus] at hinput
    refine ⟨[] ++ int ++ frac ++ exp,⟨[],int,frac,exp,rfl,Or.inl rfl,hint,hfrac,hexp⟩,?_⟩
    rw [hinput]
    simp

/-! ## Values -/

/-- What may follow a value: nothing, a blank, a comma or a closing bracket. -/
def Stops (rest : Bytes) : Prop := ∀ b ∈ rest.head?, IsBlank b ∨ b = 44 ∨ b = 93 ∨ b = 125

theorem Stops.ends {rest : Bytes} (h : Stops rest) : Ends rest := by
  constructor
  · intro b hb
    rcases h b hb with (rfl | rfl | rfl | rfl) | rfl | rfl | rfl
    all_goals decide
  · intro b hb
    rcases h b hb with (rfl | rfl | rfl | rfl) | rfl | rfl | rfl
    all_goals decide

theorem stops_nil : Stops [] := fun _ hb => nomatch hb

theorem stops_append {blank rest : Bytes} (hblank : Blank blank) (hrest : Stops rest) : Stops (blank ++ rest) := by
  cases blank with
  | nil => exact hrest
  | cons b blank =>
    intro b' hb'
    cases hb'
    exact Or.inl (hblank b List.mem_cons_self)

/-- The first byte of a value. -/
theorem value_head {ok : List Piece → Prop} {n : ℕ} {text : Bytes} (h : Value ok n text) :
    ∃ b tail, text = b :: tail ∧ ¬IsBlank b := by
  have hnot : ∀ b : UInt8, b = 34 ∨ b = 91 ∨ b = 123 → ¬IsBlank b := by
    rintro b (rfl | rfl | rfl) hblank
    · exact absurd hblank (by unfold IsBlank; decide)
    · exact absurd hblank (by unfold IsBlank; decide)
    · exact absurd hblank (by unfold IsBlank; decide)
  cases h with
  | literal h =>
    simp only [literals, List.mem_cons, List.not_mem_nil, or_false] at h
    rcases h with rfl | rfl | rfl
    · exact ⟨_,_,rfl,by unfold IsBlank; decide⟩
    · exact ⟨_,_,rfl,by unfold IsBlank; decide⟩
    · exact ⟨_,_,rfl,by unfold IsBlank; decide⟩
  | number h =>
    obtain ⟨b,tail,rfl,hb⟩ := number_head h
    refine ⟨b,tail,rfl,?_⟩
    rintro (rfl | rfl | rfl | rfl)
    all_goals exact absurd hb (by decide)
  | string hvalid hok => exact ⟨_,_,rfl,hnot 34 (Or.inl rfl)⟩
  | emptyArray hblank => exact ⟨_,_,rfl,hnot 91 (Or.inr (Or.inl rfl))⟩
  | emptyObject hblank => exact ⟨_,_,rfl,hnot 123 (Or.inr (Or.inr rfl))⟩
  | array hne hblank hvalue => exact ⟨_,_,rfl,hnot 91 (Or.inr (Or.inl rfl))⟩
  | object hne hblank hname hvalue => exact ⟨_,_,rfl,hnot 123 (Or.inr (Or.inr rfl))⟩

/-! ## Containers -/

theorem commas_cons (t u : Bytes) (ts : List Bytes) : commas (t :: u :: ts) = t ++ 44 :: commas (u :: ts) := by
  rw [commas, List.intercalate_cons_cons, List.append_assoc]
  rfl

theorem commas_singleton (t : Bytes) : commas [t] = t := List.intercalate_singleton

theorem commas_append (t : Bytes) (ts : List Bytes) : ∃ more, commas (t :: ts) = t ++ more := by
  cases ts with
  | nil => exact ⟨[],by rw [commas_singleton, List.append_nil]⟩
  | cons u ts => exact ⟨_,commas_cons t u ts⟩

/-- The bracket that closes a container. -/
def closing (object : Bool) : UInt8 := if object = true then 125 else 93

theorem not_blank_closing (object : Bool) : ¬IsBlank (closing object) := by
  unfold IsBlank
  cases object with
  | true => decide
  | false => decide

theorem not_blank_comma : ¬IsBlank 44 := by
  unfold IsBlank
  decide

section
variable {object : Bool} {item : Bytes → Option Bytes} {left : ℕ} {input body after rest : Bytes}

/-- The last item of a container. -/
theorem elements_last (hname : (if object = true then memberName input else some input) = some body)
    (hitem : item body = some (after ++ closing object :: rest)) (hafter : Blank after) :
    elements object item (left + 1) input = some rest := by
  rw [elements, hname]
  dsimp only
  rw [hitem]
  dsimp only
  rw [ws_append hafter, ws_cons (not_blank_closing object)]
  exact if_pos rfl

/-- An item before a comma. -/
theorem elements_next (hname : (if object = true then memberName input else some input) = some body)
    (hitem : item body = some (after ++ 44 :: rest)) (hafter : Blank after) :
    elements object item (left + 1) input = elements object item left (ws rest) := by
  have hne : ¬(44 : UInt8) = if object = true then 125 else 93 := by
    cases object with
    | true => decide
    | false => decide
  rw [elements, hname]
  dsimp only
  rw [hitem]
  dsimp only
  rw [ws_append hafter, ws_cons not_blank_comma]
  dsimp only
  rw [if_neg hne, if_pos rfl]

/-- What the loop does with an item, read backwards. -/
theorem elements_some (h : elements object item (left + 1) input = some rest) :
    ∃ body tail after, (if object = true then memberName input else some input) = some body ∧ item body = some tail ∧
      Blank after ∧
      (tail = after ++ closing object :: rest ∨
        ∃ next, tail = after ++ 44 :: next ∧ elements object item left (ws next) = some rest) := by
  unfold elements at h
  cases hname : (if object = true then memberName input else some input) with
  | none =>
    rw [hname] at h
    cases h
  | some body =>
    rw [hname] at h
    dsimp only at h
    cases hitem : item body with
    | none =>
      rw [hitem] at h
      cases h
    | some tail =>
      rw [hitem] at h
      dsimp only at h
      obtain ⟨after,hafter,htail⟩ := ws_split tail
      cases hws : ws tail with
      | nil =>
        rw [hws] at h
        cases h
      | cons c next =>
        rw [hws] at h htail
        dsimp only at h
        refine ⟨body,tail,after,rfl,hitem,hafter,?_⟩
        by_cases hclose : c = if object = true then 125 else 93
        · rw [if_pos hclose, Option.some.injEq] at h
          rw [hclose, h] at htail
          exact Or.inl htail
        · rw [if_neg hclose] at h
          by_cases hcomma : c = 44
          · rw [if_pos hcomma] at h
            rw [hcomma] at htail
            exact Or.inr ⟨next,htail,h⟩
          · rw [if_neg hcomma] at h
            cases h

end

/-- The value of an element with what follows it. -/
theorem ws_element {e : Element} (hbefore : Blank e.before) (hhead : ∃ b tail, e.value = b :: tail ∧ ¬IsBlank b)
    (rest : Bytes) : ws (e.text ++ rest) = e.value ++ (e.after ++ rest) := by
  obtain ⟨b,tail,hvalue,hb⟩ := hhead
  rw [Element.text, List.append_assoc, List.append_assoc, ws_append hbefore, hvalue, List.cons_append, ws_cons hb]

theorem stops_closing (object : Bool) (rest : Bytes) : Stops (closing object :: rest) := by
  intro b hb
  cases hb
  cases object with
  | true => exact Or.inr (Or.inr (Or.inr rfl))
  | false => exact Or.inr (Or.inr (Or.inl rfl))

theorem stops_comma (rest : Bytes) : Stops (44 :: rest) := by
  intro b hb
  cases hb
  exact Or.inr (Or.inl rfl)

/-- The loop over an array whose elements the reader takes. -/
theorem elements_array {item : Bytes → Option Bytes} {es : List Element} (hne : es ≠ [])
    (hblank : ∀ e ∈ es, Blank e.before ∧ Blank e.after)
    (hhead : ∀ e ∈ es, ∃ b tail, e.value = b :: tail ∧ ¬IsBlank b)
    (hitem : ∀ e ∈ es, ∀ rest, Stops rest → item (e.value ++ rest) = some rest) (rest : Bytes) {left : ℕ}
    (hleft : (ws (commas (es.map Element.text) ++ 93 :: rest)).length < left) :
    elements false item left (ws (commas (es.map Element.text) ++ 93 :: rest)) = some rest := by
  induction es generalizing left with
  | nil => exact absurd rfl hne
  | cons e es ih =>
    obtain ⟨hbefore,hafter⟩ := hblank e List.mem_cons_self
    have hstart := ws_element hbefore (hhead e List.mem_cons_self)
    have htake := hitem e List.mem_cons_self
    cases left with
    | zero => cases hleft
    | succ left =>
      cases es with
      | nil =>
        rw [List.map_singleton, commas_singleton, hstart]
        exact elements_last rfl (htake _ (stops_append hafter (stops_closing false rest))) hafter
      | cons e' es =>
        rw [List.map_cons, List.map_cons, commas_cons, List.append_assoc, List.cons_append, hstart] at hleft ⊢
        rw [elements_next rfl (htake _ (stops_append hafter (stops_comma _))) hafter, ← List.map_cons]
        have hshorter := List.length_dropWhile_le isWs (commas (Element.text e' :: es.map Element.text) ++ 93 :: rest)
        refine ih (List.cons_ne_nil _ _) (fun e'' h => hblank e'' (List.mem_cons_of_mem e h))
          (fun e'' h => hhead e'' (List.mem_cons_of_mem e h)) (fun e'' h => hitem e'' (List.mem_cons_of_mem e h)) ?_
        simp only [List.length_append, List.length_cons, List.map_cons, ws] at hleft hshorter ⊢
        omega

theorem memberName_eq {ps : List Piece} (hvalid : ∀ p ∈ ps, p.Valid) (hps : Denoting ps) {middle : Bytes}
    (hmiddle : Blank middle) (rest : Bytes) : memberName (stringToken ps ++ (middle ++ 58 :: rest)) = some rest := by
  obtain ⟨cs,hdenotes,hcs⟩ := hps
  have hcolon : ¬IsBlank 58 := by
    unfold IsBlank
    decide
  rw [memberName, string_eq hdenotes hvalid hcs (fits_none _)]
  dsimp only
  rw [ws_append hmiddle, ws_cons hcolon]
  exact if_pos rfl

theorem memberName_some {input rest : Bytes} (h : memberName input = some rest) :
    ∃ ps middle, (∀ p ∈ ps, p.Valid) ∧ Denoting ps ∧ Blank middle ∧
      input = stringToken ps ++ (middle ++ 58 :: rest) := by
  unfold memberName at h
  cases hstring : string none input with
  | none =>
    rw [hstring] at h
    cases h
  | some found =>
    obtain ⟨out,tail⟩ := found
    rw [hstring] at h
    dsimp only at h
    obtain ⟨ps,cs,hdenotes,hvalid,hcs,hinput,-⟩ := string_some hstring
    obtain ⟨middle,hmiddle,htail⟩ := ws_split tail
    cases hws : ws tail with
    | nil =>
      rw [hws] at h
      cases h
    | cons c next =>
      rw [hws] at h htail
      dsimp only at h
      by_cases hcolon : c = 58
      · rw [if_pos hcolon, Option.some.injEq] at h
        rw [hcolon, h] at htail
        exact ⟨ps,middle,hvalid,⟨cs,hdenotes,hcs⟩,hmiddle,by rw [hinput, htail]⟩
      · rw [if_neg hcolon] at h
        cases h

/-- A member with what follows it. -/
theorem ws_member {m : Member} (hbefore : Blank m.before) (rest : Bytes) : ws (m.text ++ rest) =
    stringToken m.name ++ (m.middle ++ 58 :: (m.element.text ++ rest)) := by
  have hquote : ¬IsBlank 34 := by
    unfold IsBlank
    decide
  rw [Member.text, List.append_assoc, List.append_assoc, List.append_assoc, List.cons_append, ws_append hbefore,
    stringToken, List.cons_append, ws_cons hquote, ← List.append_assoc]

/-- The loop over an object whose members the reader takes. -/
theorem elements_object {item : Bytes → Option Bytes} {ms : List Member} (hne : ms ≠ [])
    (hblank : ∀ m ∈ ms, Blank m.before ∧ Blank m.middle ∧ Blank m.element.before ∧ Blank m.element.after)
    (hname : ∀ m ∈ ms, (∀ p ∈ m.name, p.Valid) ∧ Denoting m.name)
    (hitem : ∀ m ∈ ms, ∀ rest, Stops rest → item (m.element.text ++ rest) = some (m.element.after ++ rest))
    (rest : Bytes) {left : ℕ} (hleft : (ws (commas (ms.map Member.text) ++ 125 :: rest)).length < left) :
    elements true item left (ws (commas (ms.map Member.text) ++ 125 :: rest)) = some rest := by
  induction ms generalizing left with
  | nil => exact absurd rfl hne
  | cons m ms ih =>
    obtain ⟨hbefore,hmiddle,-,hafter⟩ := hblank m List.mem_cons_self
    obtain ⟨hvalid,hdenoting⟩ := hname m List.mem_cons_self
    have hstart := ws_member hbefore
    have htake := hitem m List.mem_cons_self
    cases left with
    | zero => cases hleft
    | succ left =>
      cases ms with
      | nil =>
        rw [List.map_singleton, commas_singleton, hstart]
        exact elements_last (memberName_eq hvalid hdenoting hmiddle _) (htake _ (stops_closing true rest)) hafter
      | cons m' ms =>
        rw [List.map_cons, List.map_cons, commas_cons, List.append_assoc, List.cons_append, hstart] at hleft ⊢
        have hmember : ∀ tail, (if true = true then memberName (stringToken m.name ++ (m.middle ++ 58 :: tail))
            else some (stringToken m.name ++ (m.middle ++ 58 :: tail))) = some tail :=
          memberName_eq hvalid hdenoting hmiddle
        rw [elements_next (hmember _) (htake _ (stops_comma _)) hafter, ← List.map_cons]
        have hshorter := List.length_dropWhile_le isWs (commas (Member.text m' :: ms.map Member.text) ++ 125 :: rest)
        refine ih (List.cons_ne_nil _ _) (fun m'' h => hblank m'' (List.mem_cons_of_mem m h))
          (fun m'' h => hname m'' (List.mem_cons_of_mem m h)) (fun m'' h => hitem m'' (List.mem_cons_of_mem m h)) ?_
        simp only [List.length_append, List.length_cons, List.map_cons, ws] at hleft hshorter ⊢
        omega

/-- Blanks in front of the first element. -/
theorem prepend_element {es : List Element} (hne : es ≠ []) (hblank : ∀ e ∈ es, Blank e.before ∧ Blank e.after)
    {P : Bytes → Prop} (hvalue : ∀ e ∈ es, P e.value) {blank : Bytes} (h : Blank blank) :
    ∃ es' ≠ [], (∀ e ∈ es', Blank e.before ∧ Blank e.after) ∧ (∀ e ∈ es', P e.value) ∧
      commas (es'.map Element.text) = blank ++ commas (es.map Element.text) := by
  cases es with
  | nil => exact absurd rfl hne
  | cons e es =>
    obtain ⟨hbefore,hafter⟩ := hblank e List.mem_cons_self
    refine ⟨{ e with before := blank ++ e.before } :: es,List.cons_ne_nil _ _,?_,?_,?_⟩
    · intro e' he'
      rcases List.mem_cons.mp he' with rfl | he'
      · exact ⟨fun b hb => (List.mem_append.mp hb).elim (h b) (hbefore b),hafter⟩
      · exact hblank e' (List.mem_cons_of_mem e he')
    · intro e' he'
      rcases List.mem_cons.mp he' with rfl | he'
      · exact hvalue e List.mem_cons_self
      · exact hvalue e' (List.mem_cons_of_mem e he')
    · cases es with
      | nil => simp only [List.map_cons, List.map_nil, commas_singleton, Element.text, List.append_assoc]
      | cons e' es => simp only [List.map_cons, commas_cons, Element.text, List.append_assoc]

theorem elements_array_some {item : Bytes → Option Bytes} {P : Bytes → Prop}
    (hitem : ∀ input rest, item input = some rest → ∃ blank v, Blank blank ∧ P v ∧ input = blank ++ v ++ rest)
    {left : ℕ} {input rest : Bytes} (h : elements false item left input = some rest) :
    ∃ es ≠ [], (∀ e ∈ es, Blank e.before ∧ Blank e.after) ∧ (∀ e ∈ es, P e.value) ∧
      input = commas (es.map Element.text) ++ 93 :: rest := by
  induction left generalizing input with
  | zero => cases h
  | succ left ih =>
    obtain ⟨body,tail,after,hname,hbody,hafter,htail⟩ := elements_some h
    cases hname
    obtain ⟨blank,v,hblank,hv,hinput⟩ := hitem input tail hbody
    have hone : ∀ e ∈ [Element.mk blank v after], (Blank e.before ∧ Blank e.after) ∧ P e.value := by
      intro e he
      rw [List.mem_singleton.mp he]
      exact ⟨⟨hblank,hafter⟩,hv⟩
    rcases htail with rfl | ⟨next,rfl,hnext⟩
    · refine ⟨[⟨blank,v,after⟩],List.cons_ne_nil _ _,fun e he => (hone e he).1,fun e he => (hone e he).2,?_⟩
      rw [List.map_singleton, commas_singleton, Element.text, hinput, List.append_assoc (blank ++ v)]
      rfl
    · obtain ⟨es,hne,hblanks,hvalues,hws⟩ := ih hnext
      obtain ⟨before,hbefore,hsplit⟩ := ws_split next
      obtain ⟨es',hne',hblanks',hvalues',htexts⟩ := prepend_element hne hblanks hvalues hbefore
      have htext : next = commas (es'.map Element.text) ++ 93 :: rest := by
        rw [hsplit, hws, htexts, List.append_assoc]
      refine ⟨⟨blank,v,after⟩ :: es',List.cons_ne_nil _ _,fun e he => ?_,fun e he => ?_,?_⟩
      · rcases List.mem_cons.mp he with rfl | he
        · exact ⟨hblank,hafter⟩
        · exact hblanks' e he
      · rcases List.mem_cons.mp he with rfl | he
        · exact hv
        · exact hvalues' e he
      · cases es' with
        | nil => exact absurd rfl hne'
        | cons e' es' =>
          rw [List.map_cons, List.map_cons, commas_cons, ← List.map_cons, List.append_assoc, List.cons_append, ← htext,
            Element.text, hinput, List.append_assoc (blank ++ v)]

/-- Blanks in front of the first member. -/
theorem prepend_member {ms : List Member} (hne : ms ≠ [])
    {Q : Member → Prop} (hms : ∀ m ∈ ms, Blank m.before ∧ Q { m with before := [] }) {blank : Bytes} (h : Blank blank) :
    ∃ ms' ≠ [], (∀ m ∈ ms', Blank m.before ∧ Q { m with before := [] }) ∧
      commas (ms'.map Member.text) = blank ++ commas (ms.map Member.text) := by
  cases ms with
  | nil => exact absurd rfl hne
  | cons m ms =>
    obtain ⟨hbefore,hq⟩ := hms m List.mem_cons_self
    refine ⟨{ m with before := blank ++ m.before } :: ms,List.cons_ne_nil _ _,?_,?_⟩
    · intro m' hm'
      rcases List.mem_cons.mp hm' with rfl | hm'
      · exact ⟨fun b hb => (List.mem_append.mp hb).elim (h b) (hbefore b),hq⟩
      · exact hms m' (List.mem_cons_of_mem m hm')
    · cases ms with
      | nil => simp only [List.map_cons, List.map_nil, commas_singleton, Member.text, List.append_assoc]
      | cons m' ms => simp only [List.map_cons, commas_cons, Member.text, List.append_assoc]

/-- A member as the grammar has it, but for the blanks in front of it. -/
structure MemberOf (P : Bytes → Prop) (m : Member) : Prop where
  middle : Blank m.middle
  before : Blank m.element.before
  after : Blank m.element.after
  valid : ∀ p ∈ m.name, p.Valid
  denoting : Denoting m.name
  value : P m.element.value

theorem elements_object_some {item : Bytes → Option Bytes} {P : Bytes → Prop}
    (hitem : ∀ input rest, item input = some rest → ∃ blank v, Blank blank ∧ P v ∧ input = blank ++ v ++ rest)
    {left : ℕ} {input rest : Bytes} (h : elements true item left input = some rest) :
    ∃ ms ≠ [], (∀ m ∈ ms, Blank m.before ∧ MemberOf P { m with before := [] }) ∧
      input = commas (ms.map Member.text) ++ 125 :: rest := by
  induction left generalizing input with
  | zero => cases h
  | succ left ih =>
    obtain ⟨body,tail,after,hname,hbody,hafter,htail⟩ := elements_some h
    obtain ⟨ps,middle,hvalid,hdenoting,hmiddle,hinput⟩ := memberName_some hname
    obtain ⟨blank,v,hblank,hv,rfl⟩ := hitem body tail hbody
    have hm : MemberOf P ⟨[],ps,middle,⟨blank,v,after⟩⟩ := ⟨hmiddle,hblank,hafter,hvalid,hdenoting,hv⟩
    have hnil : Blank [] := fun _ hb => nomatch hb
    rcases htail with rfl | ⟨next,rfl,hnext⟩
    · refine ⟨[⟨[],ps,middle,⟨blank,v,after⟩⟩],List.cons_ne_nil _ _,fun m hmem => ?_,?_⟩
      · rw [List.mem_singleton.mp hmem]
        exact ⟨hnil,hm⟩
      · rw [List.map_singleton, commas_singleton, hinput]
        simp only [Member.text, Element.text, closing, List.nil_append, List.append_assoc, List.cons_append, if_true]
    · obtain ⟨ms,hne,hms,hws⟩ := ih hnext
      obtain ⟨before,hbefore,hsplit⟩ := ws_split next
      obtain ⟨ms',hne',hms',htexts⟩ := prepend_member hne hms hbefore
      have htext : next = commas (ms'.map Member.text) ++ 125 :: rest := by
        rw [hsplit, hws, htexts, List.append_assoc]
      refine ⟨⟨[],ps,middle,⟨blank,v,after⟩⟩ :: ms',List.cons_ne_nil _ _,fun m hmem => ?_,?_⟩
      · rcases List.mem_cons.mp hmem with rfl | hmem
        · exact ⟨hnil,hm⟩
        · exact hms' m hmem
      · cases ms' with
        | nil => exact absurd rfl hne'
        | cons m' ms' =>
          rw [List.map_cons, List.map_cons, commas_cons, ← List.map_cons, List.append_assoc, List.cons_append, ← htext,
            hinput]
          simp only [Member.text, Element.text, List.nil_append, List.append_assoc, List.cons_append]

/-! ## The reader and the grammar -/

/-- The bracket that opens a container. -/
def opening (object : Bool) : UInt8 := if object = true then 123 else 91

/-- The reader at a container. -/
theorem value_bracket (n : ℕ) (object : Bool) (body : Bytes) : value (n + 1) (opening object :: body) =
    if (ws body).head? = some (closing object) then some ((ws body).drop 1)
    else elements object (value n) ((ws body).length + 1) (ws body) := by
  have hblank : ¬IsBlank (opening object) := by
    unfold IsBlank
    cases object with
    | true => decide
    | false => decide
  rw [value, ws_cons hblank]
  cases object with
  | true => rfl
  | false => rfl

theorem value_bracket_zero (object : Bool) (body : Bytes) : value 0 (opening object :: body) = none := by
  have hblank : ¬IsBlank (opening object) := by
    unfold IsBlank
    cases object with
    | true => decide
    | false => decide
  rw [value, ws_cons hblank]
  cases object with
  | true => rfl
  | false => rfl

/-- The reader at a container with nothing in it. -/
theorem value_empty (n : ℕ) (object : Bool) {blank : Bytes} (hblank : Blank blank) (rest : Bytes) :
    value (n + 1) (opening object :: (blank ++ closing object :: rest)) = some rest := by
  have hws : ws (blank ++ closing object :: rest) = closing object :: rest := by
    rw [ws_append hblank, ws_cons (not_blank_closing object)]
  rw [value_bracket, hws]
  exact if_pos rfl

/-- What is in a container begins with a value or a name, not with its end. -/
theorem not_closing {object : Bool} {b : UInt8} {tail : Bytes} (hb : b ≠ closing object) :
    (b :: tail).head? ≠ some (closing object) := fun hhead => hb (Option.some.inj hhead)

theorem value_container {n : ℕ} (object : Bool) {body rest : Bytes} (hbody : (ws body).head? ≠ some (closing object))
    (helements : ∀ left, (ws body).length < left → elements object (value n) left (ws body) = some rest) :
    value (n + 1) (opening object :: body) = some rest := by
  rw [value_bracket, if_neg hbody]
  exact helements _ (Nat.lt_succ_self _)

/-- A value of the grammar does not begin with a closing bracket. -/
theorem value_head_closing {ok : List Piece → Prop} {n : ℕ} {b : UInt8} {tail : Bytes} (h : Value ok n (b :: tail)) :
    b ≠ 93 := by
  rintro rfl
  generalize htext : (93 :: tail : Bytes) = text at h
  cases h with
  | literal h =>
    simp only [literals, List.mem_cons, List.not_mem_nil, or_false] at h
    subst htext
    simp at h
  | number h =>
    obtain ⟨b,tail',rfl,hb⟩ := number_head h
    cases htext
    exact absurd hb (by decide)
  | string hvalid hok => cases htext
  | emptyArray hblank => cases htext
  | emptyObject hblank => cases htext
  | array hne hblank hvalue => cases htext
  | object hne hblank hname hvalue => cases htext

/-- The reader at a number. -/
theorem value_number (n : ℕ) {b : UInt8} (hb : b = 45 ∨ digit b = true) (tail : Bytes) :
    value n (b :: tail) = scanNumber (b :: tail) := by
  have hne : ∀ c : UInt8, c ≠ 45 → digit c = false → b ≠ c := by
    rintro c hc hdigit rfl
    rcases hb with hb | hb
    · exact hc hb
    · rw [hdigit] at hb
      cases hb
  have hblank : ¬IsBlank b := by
    rintro (h | h | h | h)
    · exact hne 32 (by decide) (by decide) h
    · exact hne 9 (by decide) (by decide) h
    · exact hne 10 (by decide) (by decide) h
    · exact hne 13 (by decide) (by decide) h
  have hword : ∀ (c : UInt8) (word : Bytes), c ≠ 45 → digit c = false → ¬(c :: word).isPrefixOf (b :: tail) = true := by
    intro c word hc hdigit
    have hcb : (c == b) = false := beq_eq_false_iff_ne.mpr (hne c hc hdigit).symm
    rw [List.isPrefixOf, hcb, Bool.false_and]
    decide
  have hquote := hne 34 (by decide) (by decide)
  have hbracket : ¬(b = 91 ∨ b = 123) :=
    fun hboth => hboth.elim (hne 91 (by decide) (by decide)) (hne 123 (by decide) (by decide))
  have htrue : ¬(wordTrue.isPrefixOf (b :: tail) = true ∨ wordNull.isPrefixOf (b :: tail) = true) :=
    fun hboth => hboth.elim (hword 116 _ (by decide) (by decide)) (hword 110 _ (by decide) (by decide))
  have hfalse : ¬wordFalse.isPrefixOf (b :: tail) = true := hword 102 _ (by decide) (by decide)
  rw [value, ws_cons hblank]
  dsimp only
  rw [if_neg hquote, if_neg hbracket, if_neg htrue, if_neg hfalse]

/-- The reader at a string. -/
theorem value_quote (n : ℕ) (tail : Bytes) : value n (34 :: tail) = (string none (34 :: tail)).map Prod.snd := by
  have hblank : ¬IsBlank 34 := by
    unfold IsBlank
    decide
  rw [value, ws_cons hblank]
  rfl

/-- The reader stops behind a value of the grammar. -/
theorem value_eq {n : ℕ} {text : Bytes} (h : Value Denoting n text) {rest : Bytes} (hrest : Stops rest) :
    value n (text ++ rest) = some rest := by
  induction h generalizing rest with
  | literal h =>
    rename_i n text
    simp only [literals, List.mem_cons, List.not_mem_nil, or_false] at h
    rcases h with rfl | rfl | rfl
    · cases n <;> rfl
    · cases n <;> rfl
    · cases n <;> rfl
  | number h =>
    rename_i n text
    obtain ⟨b,tail,rfl,hb⟩ := number_head h
    rw [List.cons_append, value_number n hb, ← List.cons_append]
    exact scanNumber_eq h hrest.ends
  | string hvalid hok =>
    rename_i n ps
    obtain ⟨cs,hdenotes,hcs⟩ := hok
    have hstring := string_eq hdenotes hvalid hcs (fits_none _) rest
    rw [stringToken, List.cons_append] at hstring ⊢
    rw [value_quote, hstring]
    rfl
  | emptyArray hblank =>
    rw [List.cons_append, List.append_assoc]
    exact value_empty _ false hblank rest
  | emptyObject hblank =>
    rw [List.cons_append, List.append_assoc]
    exact value_empty _ true hblank rest
  | array hne hblank hvalue ih =>
    rename_i n es
    have hhead : ∀ e ∈ es, ∃ b tail, e.value = b :: tail ∧ ¬IsBlank b := fun e he => value_head (hvalue e he)
    rw [List.cons_append, List.append_assoc]
    refine value_container false ?_ fun left hleft => ?_
    · cases es with
      | nil => exact absurd rfl hne
      | cons e es =>
        obtain ⟨more,hmore⟩ := commas_append (e.text) (es.map Element.text)
        obtain ⟨b,tail,htext,-⟩ := hhead e List.mem_cons_self
        have hb : b ≠ 93 := value_head_closing (htext ▸ hvalue e List.mem_cons_self)
        rw [List.map_cons, hmore, List.append_assoc, ws_element (hblank e List.mem_cons_self).1 (hhead e List.mem_cons_self),
          htext]
        exact not_closing hb
    · exact elements_array hne hblank hhead (fun e he rest' hrest' => ih e he hrest') rest hleft
  | object hne hblank hname hvalue ih =>
    rename_i n ms
    rw [List.cons_append, List.append_assoc]
    refine value_container true ?_ fun left hleft => ?_
    · cases ms with
      | nil => exact absurd rfl hne
      | cons m ms =>
        obtain ⟨more,hmore⟩ := commas_append (m.text) (ms.map Member.text)
        rw [List.map_cons, hmore, List.append_assoc, ws_member (hblank m List.mem_cons_self).1, stringToken]
        exact not_closing (by decide)
    · refine elements_object hne hblank hname (fun m hm rest' hrest' => ?_) rest hleft
      obtain ⟨-,-,hbefore,hafter⟩ := hblank m hm
      rw [← value_ws, ws_element hbefore (value_head (hvalue m hm))]
      exact ih m hm (stops_append hafter hrest')

theorem container_some {n : ℕ} {object : Bool} {body rest : Bytes}
    (hitem : ∀ input rest, value n input = some rest →
      ∃ blank v, Blank blank ∧ Value Denoting n v ∧ input = blank ++ v ++ rest)
    (h : value (n + 1) (opening object :: body) = some rest) :
    ∃ v, Value Denoting (n + 1) v ∧ opening object :: body = v ++ rest := by
  obtain ⟨blank,hblank,hbody⟩ := ws_split body
  rw [value_bracket] at h
  by_cases hend : (ws body).head? = some (closing object)
  · -- nothing in it
    rw [if_pos hend, Option.some.injEq] at h
    have hws : ws body = closing object :: rest := by
      cases hws : ws body with
      | nil =>
        rw [hws] at hend
        cases hend
      | cons c tail =>
        rw [hws, List.head?_cons, Option.some.injEq] at hend
        rw [hws, List.drop_one, List.tail_cons] at h
        rw [hend, h]
    cases object with
    | true => exact ⟨_,Value.emptyObject hblank,by rw [hbody, hws, List.cons_append, List.append_assoc]; rfl⟩
    | false => exact ⟨_,Value.emptyArray hblank,by rw [hbody, hws, List.cons_append, List.append_assoc]; rfl⟩
  · rw [if_neg hend] at h
    cases object with
    | true =>
      obtain ⟨ms,hne,hms,hws⟩ := elements_object_some hitem h
      obtain ⟨ms',hne',hms',htexts⟩ := prepend_member hne hms hblank
      refine ⟨_,Value.object hne' (fun m hm => ?_) (fun m hm => ?_) (fun m hm => ?_),?_⟩
      · exact ⟨(hms' m hm).1,(hms' m hm).2.middle,(hms' m hm).2.before,(hms' m hm).2.after⟩
      · exact ⟨(hms' m hm).2.valid,(hms' m hm).2.denoting⟩
      · exact (hms' m hm).2.value
      · rw [hbody, hws, htexts, List.cons_append, List.append_assoc, List.append_assoc]
        rfl
    | false =>
      obtain ⟨es,hne,hblanks,hvalues,hws⟩ := elements_array_some hitem h
      obtain ⟨es',hne',hblanks',hvalues',htexts⟩ := prepend_element hne hblanks hvalues hblank
      refine ⟨_,Value.array hne' hblanks' hvalues',?_⟩
      rw [hbody, hws, htexts, List.cons_append, List.append_assoc, List.append_assoc]
      rfl

/-- A word or a number. -/
theorem scalar_some {n : ℕ} {c : UInt8} {tail rest : Bytes} (hws : ws (c :: tail) = c :: tail) (hquote : c ≠ 34)
    (hbracket : ¬(c = 91 ∨ c = 123)) (h : value n (c :: tail) = some rest) :
    ∃ v, Value Denoting n v ∧ c :: tail = v ++ rest := by
  have hword : ∀ word ∈ literals, word.isPrefixOf (c :: tail) = true → tail.drop (word.length - 1) = rest →
      ∃ v, Value Denoting n v ∧ c :: tail = v ++ rest := by
    intro word hword hprefix hrest
    obtain ⟨t,ht⟩ := List.isPrefixOf_iff_prefix.mp hprefix
    refine ⟨word,Value.literal hword,?_⟩
    cases word with
    | nil => exact absurd hword (by decide)
    | cons b word =>
      rw [List.cons_append, List.cons.injEq] at ht
      rw [List.length_cons, Nat.add_sub_cancel, ← ht.2, List.drop_left] at hrest
      rw [← ht.1, ← ht.2, hrest]
      rfl
  rw [value, hws] at h
  dsimp only at h
  rw [if_neg hquote, if_neg hbracket] at h
  by_cases htrue : wordTrue.isPrefixOf (c :: tail) = true ∨ wordNull.isPrefixOf (c :: tail) = true
  · rw [if_pos htrue, Option.some.injEq] at h
    rcases htrue with htrue | hnull
    · exact hword wordTrue (by decide) htrue h
    · exact hword wordNull (by decide) hnull h
  · rw [if_neg htrue] at h
    by_cases hfalse : wordFalse.isPrefixOf (c :: tail) = true
    · rw [if_pos hfalse, Option.some.injEq] at h
      exact hword wordFalse (by decide) hfalse h
    · rw [if_neg hfalse] at h
      obtain ⟨text,htext,hinput⟩ := scanNumber_some h
      exact ⟨text,Value.number htext,hinput⟩

/-- What the reader takes is a value of the grammar, behind blanks. -/
theorem value_some {n : ℕ} {input rest : Bytes} (h : value n input = some rest) :
    ∃ blank v, Blank blank ∧ Value Denoting n v ∧ input = blank ++ v ++ rest := by
  induction n using Nat.strong_induction_on generalizing input rest with
  | _ n ih =>
    obtain ⟨blank,hblank,hinput⟩ := ws_split input
    suffices hv : ∃ v, Value Denoting n v ∧ ws input = v ++ rest by
      obtain ⟨v,hv,hws⟩ := hv
      exact ⟨blank,v,hblank,hv,by rw [List.append_assoc, ← hws, ← hinput]⟩
    rw [← value_ws] at h
    have hwsws := ws_ws input
    generalize ws input = start at h hwsws ⊢
    cases start with
    | nil =>
      rw [value] at h
      cases h
    | cons c tail =>
      by_cases hquote : c = 34
      · -- a string
        rw [hquote, value_quote] at h
        obtain ⟨⟨out,rest'⟩,hstring,heq⟩ := Option.map_eq_some_iff.mp h
        cases heq
        obtain ⟨ps,cs,hdenotes,hvalid,hcs,htext,-⟩ := string_some hstring
        exact ⟨stringToken ps,Value.string hvalid ⟨cs,hdenotes,hcs⟩,by rw [hquote, htext]⟩
      · by_cases hbracket : c = 91 ∨ c = 123
        · obtain ⟨object,rfl⟩ : ∃ object, c = opening object := by
            rcases hbracket with rfl | rfl
            · exact ⟨false,rfl⟩
            · exact ⟨true,rfl⟩
          cases n with
          | zero =>
            rw [value_bracket_zero] at h
            cases h
          | succ n => exact container_some (fun input rest => ih n (Nat.lt_succ_self n)) h
        · exact scalar_some hwsws hquote hbracket h

/-! ## Documents -/

theorem ws_eq_nil {input : Bytes} : ws input = [] ↔ Blank input := by
  constructor
  · intro hws
    obtain ⟨blank,hblank,hinput⟩ := ws_split input
    rw [hws, List.append_nil] at hinput
    rw [hinput]
    exact hblank
  · intro hblank
    have hws := ws_append hblank []
    rw [List.append_nil] at hws
    exact hws

theorem not_blank_brace : ¬IsBlank 123 := by
  unfold IsBlank
  decide

theorem document_isSome (json : Bytes) : (document json).isSome = true ↔
    (json.takeWhile (· != 0)).length ≤ profileJsonMax ∧ ObjectText Denoting depthMax (json.takeWhile (· != 0)) := by
  unfold document
  generalize json.takeWhile (· != 0) = text
  dsimp only
  by_cases hlength : profileJsonMax < text.length
  · rw [if_pos hlength]
    exact iff_of_false (by decide) fun hboth => Nat.not_le_of_lt hlength hboth.1
  · rw [if_neg hlength, and_iff_right (Nat.le_of_not_lt hlength)]
    constructor
    · intro h
      by_cases hbrace : (ws text).head? = some 123
      · rw [if_pos hbrace] at h
        cases hvalue : value depthMax (ws text) with
        | none =>
          rw [hvalue] at h
          cases h
        | some rest =>
          rw [hvalue] at h
          dsimp only at h
          by_cases hrest : ws rest = []
          · obtain ⟨before,hbefore,htext⟩ := ws_split text
            obtain ⟨blank,v,hblank,hv,hws⟩ := value_some hvalue
            obtain ⟨c,tail,rfl,-⟩ := value_head hv
            refine ⟨before ++ blank,c :: tail,rest,?_,?_,ws_eq_nil.1 hrest,hv,?_⟩
            · rw [htext, hws, List.append_assoc, List.append_assoc, List.append_assoc]
            · exact fun b hb => (List.mem_append.mp hb).elim (hbefore b) (hblank b)
            · -- the object is on top, not a blank
              rw [hws] at hbrace
              cases blank with
              | nil => exact hbrace
              | cons b blank =>
                cases hbrace
                exact absurd (hblank 123 List.mem_cons_self) not_blank_brace
          · rw [if_neg hrest] at h
            cases h
      · rw [if_neg hbrace] at h
        cases h
    · rintro ⟨before,v,after,rfl,hbefore,hafter,hv,hhead⟩
      have hws : ws (before ++ v ++ after) = v ++ after := by
        cases v with
        | nil => cases hhead
        | cons c v =>
          cases hhead
          rw [List.append_assoc, ws_append hbefore, List.cons_append, ws_cons not_blank_brace]
      have hstart : (v ++ after).head? = some 123 := by
        rw [List.head?_append, hhead]
        rfl
      have hstops : Stops after := by
        have happend := stops_append hafter stops_nil
        rwa [List.append_nil] at happend
      rw [hws, if_pos hstart, value_eq hv hstops]
      dsimp only
      rw [if_pos (ws_eq_nil.2 hafter)]
      rfl

/-- The strict reader is exact: `document` accepts the texts with an object on top, of 65536
bytes at most, in which no more than 16 containers are nested and every string denotes
characters other than NUL; `string` writes the characters of a token in UTF-8, and stops
behind it. -/
theorem json_reader_exact :
    (∀ json : Bytes, (document json).isSome = true ↔
      (json.takeWhile (· != 0)).length ≤ 65536 ∧ ObjectText Denoting 16 (json.takeWhile (· != 0))) ∧
    ∀ input out rest : Bytes, string none input = some (out,rest) →
      ∃ ps cs, input = stringToken ps ++ rest ∧ (∀ p ∈ ps, p.Valid) ∧ Denotes ps cs ∧ (∀ c ∈ cs, c.toNat ≠ 0) ∧
        ∀ cap, (utf8 cs).length < cap → string (some cap) input = some (utf8 cs,rest) := by
  refine ⟨document_isSome,fun input out rest h => ?_⟩
  obtain ⟨ps,cs,hdenotes,hvalid,hcs,rfl,-⟩ := string_some h
  refine ⟨ps,cs,rfl,hvalid,hdenotes,hcs,fun cap hcap => string_eq hdenotes hvalid hcs (fun size hsize => ?_) rest⟩
  cases hsize
  exact hcap

end Bvstk.Config
