import Bvstk.Web.JsonGate
import Bvstk.Config.JsonValues
import Mathlib.Data.List.Nodup

/-! # What the JSON gate lets through

The texts that are let through are an object with blanks around it, of values with at most seven
levels, whose names are those of the table. A scanner for the values of one level gives one for the
values that have them inside.
-/
namespace Bvstk.Web.JsonGate
open JsonText (Bytes IsBlank Blank IsDigit Digits IntPart CodeUnit HexDigit Element commas)

/-! ## The grammar -/

/-- What stands between the quotes: no control characters; in a key only printable ASCII characters,
and nothing escaped. -/
inductive Content (key : Bool) : Text → Prop
  | nil : Content key []
  | plain {c : UInt8} {text : Text} (hprint : 32 ≤ c) (hascii : key = true → c ≤ 126) (hquote : c ≠ 34) (hback : c ≠ 92)
      (h : Content key text) : Content key (c :: text)
  | short {e : UInt8} {n : ℕ} {text : Text} (hkey : key = false) (he : (e,n) ∈ JsonText.shortEscapes)
      (h : Content key text) : Content key (92 :: e :: text)
  | unicode {a b c d : UInt8} {n : ℕ} {text : Text} (hkey : key = false) (hunit : CodeUnit a b c d n)
      (h : Content key text) : Content key (92 :: 117 :: a :: b :: c :: d :: text)

/-- A string, `true`, `false` or an integer. -/
inductive Scalar : Text → Prop
  | string {text : Text} (h : Content false text) : Scalar (34 :: (text ++ [34]))
  | word {text : Text} (h : text = [116,114,117,101] ∨ text = [102,97,108,115,101]) : Scalar text
  | integer {text : Text} (h : IntPart text) : Scalar text

/-- An element with blanks around a value in `V`. -/
structure ElementOf (V : Text → Prop) (e : Element) : Prop where
  before : Blank e.before
  value : V e.value
  after : Blank e.after

/-- A key and a value, with blanks before the key and the colon. -/
structure Member where
  before : Text
  key : Text
  middle : Text
  element : Element

def Member.text (m : Member) : Text := m.before ++ 34 :: (m.key ++ 34 :: (m.middle ++ 58 :: m.element.text))

structure MemberOf (V : Text → Prop) (m : Member) : Prop where
  before : Blank m.before
  key : Content true m.key
  middle : Blank m.middle
  element : ElementOf V m.element

/-- An array of values in `V`. -/
inductive ArrayOf (V : Text → Prop) : Text → Prop
  | empty {blank : Text} (h : Blank blank) : ArrayOf V (91 :: (blank ++ [93]))
  | elements {es : List Element} (hne : es ≠ []) (h : ∀ e ∈ es, ElementOf V e) :
      ArrayOf V (91 :: (commas (es.map Element.text) ++ [93]))

/-- An object of values in `V`, with its keys. -/
inductive ObjectOf (V : Text → Prop) : List Text → Text → Prop
  | empty {blank : Text} (h : Blank blank) : ObjectOf V [] (123 :: (blank ++ [125]))
  | members {ms : List Member} (hne : ms ≠ []) (h : ∀ m ∈ ms, MemberOf V m) (hfew : ms.length ≤ 24)
      (hdistinct : (ms.map Member.key).Nodup) :
      ObjectOf V (ms.map Member.key) (123 :: (commas (ms.map Member.text) ++ [125]))

inductive ValueOf (V : Text → Prop) : Text → Prop
  | scalar {text : Text} (h : Scalar text) : ValueOf V text
  | array {text : Text} (h : ArrayOf V text) : ValueOf V text
  | object {keys : List Text} {text : Text} (h : ObjectOf V keys text) : ValueOf V text

/-- A value of at most `n` levels, its own included. -/
def Nested : ℕ → Text → Prop
  | 0 => fun _ => False
  | n + 1 => ValueOf (Nested n)

/-! ## Blanks and digits -/

theorem isWs_iff {b : UInt8} : isWs b = true ↔ IsBlank b := by
  simp [isWs, IsBlank]
  tauto

theorem ws_eq (p : Text) : ws p = Config.ws p := by
  have hws : isWs = Config.isWs := by
    funext b
    rw [Bool.eq_iff_iff, isWs_iff, Config.isWs_iff]
  rw [ws, Config.ws, hws]

theorem ws_append {blank : Text} (hblank : Blank blank) (rest : Text) : ws (blank ++ rest) = ws rest := by
  rw [ws_eq, ws_eq, Config.ws_append hblank]

theorem ws_cons {b : UInt8} (hb : ¬IsBlank b) (rest : Text) : ws (b :: rest) = b :: rest := by
  rw [ws_eq, Config.ws_cons hb]

theorem ws_split (p : Text) : ∃ blank, Blank blank ∧ p = blank ++ ws p := by
  rw [ws_eq]
  exact Config.ws_split p

theorem ws_ws (p : Text) : ws (ws p) = ws p := by
  rw [ws_eq, ws_eq, Config.ws_ws]

theorem not_blank_bracket : ¬IsBlank 93 := Config.not_blank_closing false

theorem not_blank_brace : ¬IsBlank 125 := Config.not_blank_closing true

theorem isHex_iff {b : UInt8} : isHex b = true ↔ ∃ d, HexDigit b d := by
  have hsome : isHex b = (Config.hexDigit b).isSome := by
    unfold isHex isDigit Config.hexDigit Config.digit
    grind
  rw [hsome, Option.isSome_iff_exists]
  exact exists_congr fun d => Config.hexDigit_iff

/-! ## Strings -/

theorem mem_shortEscapes {e : UInt8} : e ∈ shortEscapes ↔ ∃ n, (e,n) ∈ JsonText.shortEscapes := by
  have hletters : shortEscapes = JsonText.shortEscapes.map Prod.fst := rfl
  rw [hletters, List.mem_map]
  constructor
  · rintro ⟨⟨e,n⟩,hmem,rfl⟩
    exact ⟨n,hmem⟩
  · rintro ⟨n,hmem⟩
    exact ⟨(e,n),hmem,rfl⟩

theorem codeUnit_iff {a b c d : UInt8} : (∃ n, CodeUnit a b c d n) ↔
    isHex a = true ∧ isHex b = true ∧ isHex c = true ∧ isHex d = true := by
  rw [isHex_iff, isHex_iff, isHex_iff, isHex_iff]
  constructor
  · rintro ⟨n,x,y,z,u,hx,hy,hz,hu,-⟩
    exact ⟨⟨x,hx⟩,⟨y,hy⟩,⟨z,hz⟩,u,hu⟩
  · rintro ⟨⟨x,hx⟩,⟨y,hy⟩,⟨z,hz⟩,u,hu⟩
    exact ⟨_,x,y,z,u,hx,hy,hz,hu,rfl⟩

theorem stringLoop_eq {key : Bool} {text : Text} (h : Content key text) (rest : Text) :
    stringLoop key (text ++ 34 :: rest) = some (34 :: rest) := by
  induction h with
  | nil =>
    rw [List.nil_append, stringLoop.eq_def]
    exact if_pos rfl
  | plain hprint hascii hquote hback h ih =>
    rename_i c text
    have hq : ¬c = quote := hquote
    have hb : ¬c = backslash := hback
    have hbad : ¬(c < 32 ∨ (key = true ∧ 126 < c)) := by
      rintro (hlow | ⟨hkey,hhigh⟩)
      · exact absurd hprint (UInt8.not_le.mpr hlow)
      · exact absurd (hascii hkey) (UInt8.not_le.mpr hhigh)
    rw [List.cons_append, stringLoop.eq_def]
    dsimp only
    rw [if_neg hq, if_neg hbad, if_neg hb]
    exact ih
  | short hkey he h ih =>
    rename_i e n text
    have hu : e ≠ letterU := by
      rintro rfl
      exact absurd (mem_shortEscapes.mpr ⟨n,he⟩) (by decide)
    subst hkey
    rw [List.cons_append, List.cons_append, stringLoop.eq_def]
    dsimp only
    rw [if_neg (by decide), if_neg (by decide), if_pos (by decide), if_neg (by decide), if_neg hu,
      if_pos (mem_shortEscapes.mpr ⟨n,he⟩)]
    exact ih
  | unicode hkey hunit h ih =>
    subst hkey
    simp only [List.cons_append]
    rw [stringLoop.eq_def]
    dsimp only
    rw [if_neg (by decide), if_neg (by decide), if_pos (by decide), if_neg (by decide), if_pos (by decide),
      if_pos (codeUnit_iff.mp ⟨_,hunit⟩)]
    exact ih

theorem stringLoop_some {key : Bool} {s p : Text} (h : stringLoop key s = some p) :
    ∃ text, s = text ++ p ∧ (p.head? = some quote → Content key text) := by
  fun_induction stringLoop key s with
  | case1 =>
    cases h
    exact ⟨[],rfl,nofun⟩
  | case2 p =>
    cases h
    exact ⟨[],rfl,fun _ => Content.nil⟩
  | case3 => cases h
  | case4 => cases h
  | case5 => cases h
  | case6 hkey a b c d q hhex _ _ ih =>
    obtain ⟨text,rfl,htext⟩ := ih h
    obtain ⟨n,hunit⟩ := codeUnit_iff.mpr hhex
    refine ⟨backslash :: letterU :: a :: b :: c :: d :: text,rfl,?_⟩
    exact fun hhead => Content.unicode (Bool.eq_false_iff.mpr hkey) hunit (htext hhead)
  | case7 => cases h
  | case8 => cases h
  | case9 hkey e q hu he _ _ ih =>
    obtain ⟨text,rfl,htext⟩ := ih h
    obtain ⟨n,hn⟩ := mem_shortEscapes.mp he
    refine ⟨backslash :: e :: text,rfl,?_⟩
    exact fun hhead => Content.short (Bool.eq_false_iff.mpr hkey) hn (htext hhead)
  | case10 => cases h
  | case11 c q hquote hctrl hback ih =>
    obtain ⟨text,rfl,htext⟩ := ih h
    obtain ⟨hlow,hhigh⟩ := not_or.mp hctrl
    refine ⟨c :: text,rfl,?_⟩
    exact fun hhead => Content.plain (UInt8.not_lt.mp hlow) (fun hkey => UInt8.not_lt.mp fun hc => hhigh ⟨hkey,hc⟩) hquote hback
      (htext hhead)

theorem string_eq {key : Bool} {text : Text} (h : Content key text) (rest : Text) :
    string key (34 :: (text ++ 34 :: rest)) = some (text,rest) := by
  have hlength : (text ++ 34 :: rest).length - (34 :: rest).length = text.length := by
    rw [List.length_append, Nat.add_sub_cancel]
  have hquote : (34 : UInt8) = quote := rfl
  have hhead : (34 :: rest : Text).head? = some quote := rfl
  rw [string, if_pos hquote, stringLoop_eq h]
  dsimp only
  rw [if_pos hhead, hlength, List.take_left]
  exact Eq.refl _

theorem string_some {key : Bool} {p text rest : Text} (h : string key p = some (text,rest)) :
    p = 34 :: (text ++ 34 :: rest) ∧ Content key text := by
  cases p with
  | nil => cases h
  | cons c s =>
    rw [string] at h
    split at h
    · rename_i hc
      cases hloop : stringLoop key s with
      | none =>
        rw [hloop] at h
        cases h
      | some q =>
        rw [hloop] at h
        dsimp only at h
        split at h
        · rename_i hquote
          obtain ⟨text',rfl,hcontent⟩ := stringLoop_some hloop
          obtain ⟨q',rfl⟩ := List.head?_eq_some_iff.mp hquote
          rw [List.length_append, Nat.add_sub_cancel, List.take_left] at h
          cases h
          exact ⟨congrArg (· :: _) hc,hcontent rfl⟩
        · cases h
    · cases h

/-! ## Values without others in them -/

/-- The text does not go on with a digit. -/
def NoDigit (rest : Text) : Prop := ∀ b ∈ rest.head?, isDigit b = false

theorem isDigit_iff {b : UInt8} : isDigit b = true ↔ IsDigit b := decide_eq_true_iff

theorem dropWhile_digits {ds rest : Text} (hds : ∀ b ∈ ds, IsDigit b) (hrest : NoDigit rest) :
    (ds ++ rest).dropWhile isDigit = rest := by
  rw [List.dropWhile_append_of_pos fun b hb => isDigit_iff.mpr (hds b hb)]
  cases rest with
  | nil => exact Eq.refl _
  | cons b rest => exact List.dropWhile_cons_of_neg (Bool.not_eq_true _ ▸ hrest b rfl)

theorem number_eq {text rest : Text} (h : IntPart text) (hrest : NoDigit rest) : number (text ++ rest) = some rest := by
  obtain ⟨⟨hne,hall⟩,hzero⟩ := h
  obtain ⟨c,q,rfl⟩ := List.exists_cons_of_ne_nil hne
  have hsingle : ¬(c = zero ∧ ∃ d ∈ (q ++ rest).head?, isDigit d = true) := by
    rintro ⟨rfl,d,hd,hdigit⟩
    have hq := (List.cons.inj (hzero rfl)).2
    rw [hq, List.nil_append] at hd
    rw [hrest d hd] at hdigit
    cases hdigit
  have hc := isDigit_iff.mpr (hall c List.mem_cons_self)
  rw [List.cons_append, number, if_pos hc, if_neg hsingle, ← List.cons_append, dropWhile_digits hall hrest]

theorem number_some {p rest : Text} (h : number p = some rest) : ∃ text, IntPart text ∧ p = text ++ rest := by
  cases p with
  | nil => cases h
  | cons c q =>
    rw [number] at h
    split at h
    · rename_i hc
      split at h
      · cases h
      rename_i hzero
      cases h
      refine ⟨(c :: q).takeWhile isDigit,⟨⟨?_,fun b hb => isDigit_iff.mp (List.mem_takeWhile_imp hb)⟩,?_⟩,
        List.takeWhile_append_dropWhile.symm⟩
      · rw [List.takeWhile_cons_of_pos hc]
        exact List.cons_ne_nil _ _
      · rw [List.takeWhile_cons_of_pos hc]
        intro hhead
        have hc : c = zero := Option.some.inj hhead
        cases q with
        | nil => exact congrArg (· :: _) hc
        | cons d q =>
          have hd : ¬isDigit d = true := fun hd => hzero ⟨hc,d,rfl,hd⟩
          rw [List.takeWhile_cons_of_neg hd]
          exact congrArg (· :: _) hc
    · cases h

theorem scalar_quote {p : Text} (h : p.head? = some quote) : scalar p = (string false p).map Prod.snd := if_pos h

theorem scalar_eq {text rest : Text} (h : Scalar text) (hrest : NoDigit rest) : scalar (text ++ rest) = some rest := by
  cases h with
  | string h =>
    rename_i text
    have hassoc : 34 :: (text ++ [34]) ++ rest = 34 :: (text ++ 34 :: rest) := by
      rw [List.cons_append, List.append_assoc, List.singleton_append]
    rw [hassoc, scalar_quote rfl, string_eq h]
    exact Eq.refl _
  | word h =>
    rcases h with rfl | rfl
    · exact Eq.refl _
    · exact Eq.refl _
  | integer h =>
    have hnumber := number_eq h hrest
    obtain ⟨⟨hne,hall⟩,-⟩ := h
    obtain ⟨c,q,rfl⟩ := List.exists_cons_of_ne_nil hne
    have hc : isDigit c = true := isDigit_iff.mpr (hall c List.mem_cons_self)
    have hne {b : UInt8} (hb : isDigit b = false) : b ≠ c := by
      rintro rfl
      rw [hb] at hc
      cases hc
    have hnot {b : UInt8} (hb : isDigit b = false) (word : Text) : ¬b :: word <+: c :: q ++ rest := by
      rw [List.cons_append, List.cons_prefix_cons]
      exact fun hpre => hne hb hpre.1
    have hquote : ¬(c :: q ++ rest).head? = some quote := fun h => hne rfl (Option.some.inj h).symm
    have htrue : ¬wordTrue <+: c :: q ++ rest := hnot rfl _
    have hfalse : ¬wordFalse <+: c :: q ++ rest := hnot rfl _
    rw [scalar, if_neg hquote, if_neg htrue, if_neg hfalse]
    exact hnumber

theorem scalar_some {p rest : Text} (h : scalar p = some rest) : ∃ text, Scalar text ∧ p = text ++ rest := by
  unfold scalar at h
  split at h
  · obtain ⟨⟨text,rest'⟩,hstring,rfl⟩ := Option.map_eq_some_iff.mp h
    obtain ⟨rfl,hcontent⟩ := string_some hstring
    refine ⟨_,Scalar.string hcontent,?_⟩
    rw [List.cons_append, List.append_assoc, List.singleton_append]
  split at h
  · rename_i hword
    obtain ⟨q,rfl⟩ := hword
    cases h
    exact ⟨wordTrue,Scalar.word (Or.inl rfl),rfl⟩
  split at h
  · rename_i hword
    obtain ⟨q,rfl⟩ := hword
    cases h
    exact ⟨wordFalse,Scalar.word (Or.inr rfl),rfl⟩
  · obtain ⟨text,htext,rfl⟩ := number_some h
    exact ⟨text,Scalar.integer htext,rfl⟩

/-! ## Scanners -/

/-- A scanner that skips blanks, and stops behind the values in `V`. -/
structure Scans (item : Text → Option Text) (V : Text → Prop) : Prop where
  skips : ∀ p, item (ws p) = item p
  sound {p rest : Text} (h : item p = some rest) : ∃ blank text, Blank blank ∧ V text ∧ p = blank ++ (text ++ rest)
  complete {text rest : Text} (h : V text) (hrest : NoDigit rest) : item (text ++ rest) = some rest
  start {text : Text} (h : V text) : ∃ c q, text = c :: q ∧ ¬IsBlank c ∧ c ≠ bracketClose

theorem noDigit_append {blank rest : Text} (hblank : Blank blank) (hrest : NoDigit rest) : NoDigit (blank ++ rest) := by
  cases blank with
  | nil => exact hrest
  | cons b blank =>
    intro b' hb'
    cases hb'
    rcases hblank b List.mem_cons_self with rfl | rfl | rfl | rfl
    all_goals exact Eq.refl _

theorem noDigit_cons {c : UInt8} (hc : isDigit c = false) (rest : Text) : NoDigit (c :: rest) := by
  intro b hb
  cases hb
  exact hc

theorem commas_cons {t : Text} {ts : List Text} (hne : ts ≠ []) : commas (t :: ts) = t ++ 44 :: commas ts := by
  obtain ⟨u,us,rfl⟩ := List.exists_cons_of_ne_nil hne
  exact Config.commas_cons t u us

theorem length_commas (ts : List Text) : ts.length ≤ (commas ts).length + 1 := by
  induction ts with
  | nil => exact Nat.zero_le _
  | cons t ts ih =>
    by_cases hne : ts = []
    · rw [hne, List.length_singleton]
      exact Nat.le_add_left 1 _
    · rw [commas_cons hne, List.length_cons, List.length_append, List.length_cons]
      omega

section
variable {item : Text → Option Text} {V : Text → Prop} (hitem : Scans item V)
include hitem

/-- Blanks before a value are skipped, and those behind it are left. -/
theorem Scans.element {e : Element} (he : ElementOf V e) {c : UInt8} (hc : isDigit c = false) (rest : Text) :
    item (e.text ++ c :: rest) = some (e.after ++ c :: rest) := by
  have hassoc : e.text ++ c :: rest = e.before ++ (e.value ++ (e.after ++ c :: rest)) := by
    simp only [Element.text, List.append_assoc]
  rw [hassoc, ← hitem.skips, ws_append he.before, hitem.skips]
  exact hitem.complete he.value (noDigit_append he.after (noDigit_cons hc rest))

/-- The value that a scanner took, with what follows the blanks behind it. -/
theorem Scans.element_some {p q rest : Text} {c : UInt8} (h : item p = some q) (hws : ws q = c :: rest) :
    ∃ e, ElementOf V e ∧ p = e.text ++ c :: rest := by
  obtain ⟨before,value,hbefore,hvalue,rfl⟩ := hitem.sound h
  obtain ⟨after,hafter,hq⟩ := ws_split q
  refine ⟨⟨before,value,after⟩,⟨hbefore,hvalue,hafter⟩,?_⟩
  rw [hq, hws]
  simp only [Element.text, List.append_assoc]

/-! ## Arrays -/

theorem elementLoop_some {fuel : ℕ} {p rest : Text} (h : elementLoop item fuel p = some rest) :
    ∃ es : List Element, es ≠ [] ∧ (∀ e ∈ es, ElementOf V e) ∧ p = commas (es.map Element.text) ++ 93 :: rest := by
  induction fuel generalizing p with
  | zero => cases h
  | succ fuel ih =>
    rw [elementLoop] at h
    split at h
    · cases h
    rename_i q hvalue
    split at h
    · cases h
    rename_i c r hws
    obtain ⟨e,he,rfl⟩ := hitem.element_some hvalue hws
    split at h
    · rename_i hc
      cases h
      refine ⟨[e],List.cons_ne_nil _ _,List.forall_mem_singleton.mpr he,?_⟩
      rw [List.map_singleton, Config.commas_singleton, hc]
      exact Eq.refl _
    split at h
    · rename_i hc
      obtain ⟨es,hne,hes,hr⟩ := ih h
      refine ⟨e :: es,List.cons_ne_nil _ _,List.forall_mem_cons.mpr ⟨he,hes⟩,?_⟩
      rw [List.map_cons, commas_cons (mt List.map_eq_nil_iff.mp hne), hc, hr, List.append_assoc, List.cons_append]
      exact Eq.refl _
    · cases h

theorem elementLoop_eq {es : List Element} (hne : es ≠ []) (hes : ∀ e ∈ es, ElementOf V e) (rest : Text) {fuel : ℕ}
    (hfuel : es.length ≤ fuel) : elementLoop item fuel (commas (es.map Element.text) ++ 93 :: rest) = some rest := by
  induction es generalizing fuel with
  | nil => exact absurd rfl hne
  | cons e es ih =>
    obtain ⟨he,hrest⟩ := List.forall_mem_cons.mp hes
    cases fuel with
    | zero => cases hfuel
    | succ fuel =>
      by_cases hlast : es = []
      · subst hlast
        have hws : ws (e.after ++ 93 :: rest) = 93 :: rest := by
          rw [ws_append he.after, ws_cons not_blank_bracket]
        rw [List.map_singleton, Config.commas_singleton, elementLoop, hitem.element he rfl]
        dsimp only
        rw [hws]
        exact if_pos rfl
      · have hassoc : commas ((e :: es).map Element.text) ++ 93 :: rest =
            e.text ++ 44 :: (commas (es.map Element.text) ++ 93 :: rest) := by
          rw [List.map_cons, commas_cons (mt List.map_eq_nil_iff.mp hlast), List.append_assoc, List.cons_append]
        have hws (more : Text) : ws (e.after ++ 44 :: more) = 44 :: more := by
          rw [ws_append he.after, ws_cons Config.not_blank_comma]
        rw [hassoc, elementLoop, hitem.element he rfl]
        dsimp only
        rw [hws]
        exact ih hlast hrest (Nat.le_of_succ_le_succ hfuel)

theorem elementLoop_ws (fuel : ℕ) (p : Text) : elementLoop item fuel (ws p) = elementLoop item fuel p := by
  cases fuel with
  | zero => exact Eq.refl _
  | succ fuel => rw [elementLoop, elementLoop, hitem.skips]

/-- However long the loop goes on, it takes no more turns than there are characters. -/
theorem elementLoop_enough {fuel : ℕ} {p rest : Text} (h : elementLoop item fuel p = some rest) :
    elementLoop item p.length p = some rest := by
  obtain ⟨es,hne,hes,rfl⟩ := elementLoop_some hitem h
  refine elementLoop_eq hitem hne hes rest ?_
  have hlength := length_commas (es.map Element.text)
  rw [List.length_map] at hlength
  rw [List.length_append, List.length_cons]
  omega

theorem arrayOf_some {p rest : Text} (h : array item p = some rest) : ∃ text, ArrayOf V text ∧ 91 :: p = text ++ rest := by
  unfold array at h
  split at h
  · rename_i hclose
    obtain ⟨blank,hblank,hp⟩ := ws_split p
    obtain ⟨q,hq⟩ := List.head?_eq_some_iff.mp hclose
    rw [hq] at h
    cases h
    refine ⟨_,ArrayOf.empty hblank,?_⟩
    rw [hp, hq, List.cons_append, List.append_assoc]
    exact Eq.refl _
  · rw [elementLoop_ws hitem] at h
    obtain ⟨es,hne,hes,rfl⟩ := elementLoop_some hitem h
    refine ⟨_,ArrayOf.elements hne hes,?_⟩
    rw [List.cons_append, List.append_assoc]
    exact Eq.refl _

theorem arrayOf_eq {text : Text} (h : ArrayOf V text) (rest : Text) :
    ∃ p, text ++ rest = 91 :: p ∧ array item p = some rest := by
  cases h with
  | empty hblank =>
    rename_i blank
    refine ⟨blank ++ 93 :: rest,by rw [List.cons_append, List.append_assoc, List.singleton_append],?_⟩
    have hws : ws (blank ++ 93 :: rest) = 93 :: rest := by
      rw [ws_append hblank, ws_cons not_blank_bracket]
    rw [array, hws]
    exact if_pos rfl
  | elements hne hes =>
    rename_i es
    refine ⟨commas (es.map Element.text) ++ 93 :: rest,by rw [List.cons_append, List.append_assoc, List.singleton_append],?_⟩
    have hloop := elementLoop_eq hitem hne hes rest (Nat.le_refl _)
    rw [← elementLoop_ws hitem] at hloop
    have hopen : ¬(ws (commas (es.map Element.text) ++ 93 :: rest)).head? = some bracketClose := by
      obtain ⟨e,es,rfl⟩ := List.exists_cons_of_ne_nil hne
      obtain ⟨hbefore,hvalue,-⟩ := hes e List.mem_cons_self
      obtain ⟨c,q,hcq,hc,hclose⟩ := hitem.start hvalue
      obtain ⟨more,hmore⟩ := Config.commas_append e.text (es.map Element.text)
      have hassoc : commas ((e :: es).map Element.text) ++ 93 :: rest = e.before ++ c :: (q ++ (e.after ++ (more ++ 93 :: rest))) := by
        rw [List.map_cons, hmore, Element.text, hcq]
        simp only [List.append_assoc, List.cons_append]
      rw [hassoc, ws_append hbefore, ws_cons hc]
      exact fun h => hclose (Option.some.inj h)
    rw [array, if_neg hopen]
    exact elementLoop_enough hitem hloop

/-! ## Objects -/

theorem memberLoop_some {policy : Option Policy} {left : ℕ} {keys : List Text} {seen : BitVec 32} {p rest : Text}
    (h : memberLoop item policy left keys seen (ws p) = some rest) :
    ∃ ms : List Member, ms ≠ [] ∧ (∀ m ∈ ms, MemberOf V m) ∧ ms.length ≤ left ∧ (ms.map Member.key).Nodup ∧
      (∀ m ∈ ms, m.key ∉ keys) ∧ p = commas (ms.map Member.text) ++ 125 :: rest ∧
      ∃ seen', (ms.map Member.key).foldlM (mark policy) seen = some seen' ∧ Complete policy seen' := by
  induction left generalizing keys seen p with
  | zero => cases h
  | succ left ih =>
    rw [memberLoop] at h
    split at h
    · cases h
    rename_i key q hstring
    split at h
    · cases h
    rename_i hnew
    split at h
    · cases h
    rename_i seen₁ hmark
    split at h
    · cases h
    rename_i c q₁ hcolon
    split at h
    rotate_left
    · cases h
    rename_i hc
    split at h
    · cases h
    rename_i q₂ hvalue
    split at h
    · cases h
    rename_i c' q₃ hws
    obtain ⟨before,hbefore,hp⟩ := ws_split p
    obtain ⟨hquoted,hcontent⟩ := string_some hstring
    obtain ⟨middle,hmiddle,hq⟩ := ws_split q
    obtain ⟨e,he,hq₁⟩ := hitem.element_some hvalue hws
    have hm : MemberOf V ⟨before,key,middle,e⟩ := ⟨hbefore,hcontent,hmiddle,he⟩
    have htext : p = (⟨before,key,middle,e⟩ : Member).text ++ c' :: q₃ := by
      rw [hp, hquoted, hq, hcolon, hc, hq₁, Member.text]
      simp only [List.append_assoc, List.cons_append]
      exact Eq.refl _
    split at h
    · rename_i hclose
      split at h
      rotate_left
      · cases h
      rename_i hcomplete
      cases h
      refine ⟨[⟨before,key,middle,e⟩],List.cons_ne_nil _ _,List.forall_mem_singleton.mpr hm,Nat.le_add_left 1 left,
        List.nodup_singleton _,List.forall_mem_singleton.mpr hnew,?_,seen₁,?_,hcomplete⟩
      · rw [List.map_singleton, Config.commas_singleton, htext, hclose]
        exact Eq.refl _
      · rw [List.map_singleton, List.foldlM_cons, hmark]
        exact Eq.refl _
    split at h
    · rename_i hcomma
      obtain ⟨ms,hne,hms,hleft,hdistinct,hfresh,hq₃,seen',hseen,hcomplete⟩ := ih h
      refine ⟨⟨before,key,middle,e⟩ :: ms,List.cons_ne_nil _ _,List.forall_mem_cons.mpr ⟨hm,hms⟩,Nat.succ_le_succ hleft,?_,?_,
        ?_,seen',?_,hcomplete⟩
      · rw [List.map_cons, List.nodup_cons]
        refine ⟨?_,hdistinct⟩
        rw [List.mem_map]
        rintro ⟨m,hmem,hkey⟩
        exact hfresh m hmem (hkey ▸ List.mem_cons_self)
      · refine List.forall_mem_cons.mpr ⟨hnew,?_⟩
        exact fun m hmem hkey => hfresh m hmem (List.mem_cons_of_mem key hkey)
      · rw [List.map_cons, commas_cons (mt List.map_eq_nil_iff.mp hne), htext, hcomma, hq₃, List.append_assoc, List.cons_append]
        exact Eq.refl _
      · rw [List.map_cons, List.foldlM_cons, hmark]
        exact hseen
    · cases h

/-- One turn of the loop, at a member that is in front of `c`. -/
theorem memberLoop_member {policy : Option Policy} {left : ℕ} {keys : List Text} {seen seen₁ : BitVec 32} {m : Member}
    (hm : MemberOf V m) (hnew : m.key ∉ keys) (hmark : mark policy seen m.key = some seen₁) {c : UInt8} (hc : ¬IsBlank c)
    (hdigit : isDigit c = false) (rest : Text) :
    memberLoop item policy (left + 1) keys seen (ws (m.text ++ c :: rest)) =
      if c = braceClose then if Complete policy seen₁ then some rest else none
      else if c = comma then memberLoop item policy left (m.key :: keys) seen₁ (ws rest)
      else none := by
  have hquote : ¬IsBlank 34 := by
    unfold IsBlank
    decide
  have hcolon : ¬IsBlank 58 := by
    unfold IsBlank
    decide
  have hwhole : ws (m.text ++ c :: rest) = 34 :: (m.key ++ 34 :: (m.middle ++ 58 :: (m.element.text ++ c :: rest))) := by
    rw [Member.text, List.append_assoc, ws_append hm.before, List.cons_append, ws_cons hquote]
    simp only [List.append_assoc, List.cons_append]
  have hmiddle : ws (m.middle ++ 58 :: (m.element.text ++ c :: rest)) = 58 :: (m.element.text ++ c :: rest) := by
    rw [ws_append hm.middle, ws_cons hcolon]
  have hafter : ws (m.element.after ++ c :: rest) = c :: rest := by
    rw [ws_append hm.element.after, ws_cons hc]
  have hmark58 : (58 : UInt8) = colonMark := rfl
  rw [hwhole, memberLoop, string_eq hm.key]
  dsimp only
  rw [if_neg hnew, hmark]
  dsimp only
  rw [hmiddle]
  dsimp only
  rw [if_pos hmark58, hitem.element hm.element hdigit]
  dsimp only
  rw [hafter]

theorem memberLoop_eq {policy : Option Policy} {ms : List Member} (hne : ms ≠ []) (hms : ∀ m ∈ ms, MemberOf V m)
    {left : ℕ} (hleft : ms.length ≤ left) (hdistinct : (ms.map Member.key).Nodup) {keys : List Text}
    (hfresh : ∀ m ∈ ms, m.key ∉ keys) {seen seen' : BitVec 32}
    (hseen : (ms.map Member.key).foldlM (mark policy) seen = some seen') (hcomplete : Complete policy seen') (rest : Text) :
    memberLoop item policy left keys seen (ws (commas (ms.map Member.text) ++ 125 :: rest)) = some rest := by
  induction ms generalizing left keys seen with
  | nil => exact absurd rfl hne
  | cons m ms ih =>
    obtain ⟨hm,hms⟩ := List.forall_mem_cons.mp hms
    obtain ⟨hnew,hfresh⟩ := List.forall_mem_cons.mp hfresh
    rw [List.map_cons, List.nodup_cons] at hdistinct
    rw [List.map_cons, List.foldlM_cons] at hseen
    obtain ⟨seen₁,hmark,hseen⟩ := Option.bind_eq_some_iff.mp hseen
    cases left with
    | zero => cases hleft
    | succ left =>
      by_cases hlast : ms = []
      · subst hlast
        cases hseen
        rw [List.map_singleton, Config.commas_singleton, memberLoop_member hitem hm hnew hmark not_blank_brace rfl]
        exact (if_pos rfl).trans (if_pos hcomplete)
      · have hassoc : commas ((m :: ms).map Member.text) ++ 125 :: rest =
            m.text ++ 44 :: (commas (ms.map Member.text) ++ 125 :: rest) := by
          rw [List.map_cons, commas_cons (mt List.map_eq_nil_iff.mp hlast), List.append_assoc, List.cons_append]
        rw [hassoc, memberLoop_member hitem hm hnew hmark Config.not_blank_comma rfl]
        refine ih hlast hms (Nat.le_of_succ_le_succ hleft) hdistinct.2 ?_ hseen
        intro m' hm' hmem
        rcases List.mem_cons.mp hmem with hkey | hmem
        · exact hdistinct.1 (List.mem_map.mpr ⟨m',hm',hkey⟩)
        · exact hfresh m' hm' hmem

/-- The keys of an object make it complete. -/
def Allowed (policy : Option Policy) (keys : List Text) : Prop :=
  ∃ seen, keys.foldlM (mark policy) 0 = some seen ∧ Complete policy seen

theorem object_some {policy : Option Policy} {p rest : Text} (h : object item policy p = some rest) :
    ∃ keys text, ObjectOf V keys text ∧ Allowed policy keys ∧ 123 :: p = text ++ rest := by
  unfold object at h
  split at h
  · rename_i hclose
    split at h
    rotate_left
    · cases h
    rename_i hcomplete
    obtain ⟨blank,hblank,hp⟩ := ws_split p
    obtain ⟨q,hq⟩ := List.head?_eq_some_iff.mp hclose
    rw [hq] at h
    cases h
    refine ⟨[],_,ObjectOf.empty hblank,⟨0,rfl,hcomplete⟩,?_⟩
    rw [hp, hq, List.cons_append, List.append_assoc]
    exact Eq.refl _
  · obtain ⟨ms,hne,hms,hfew,hdistinct,-,rfl,seen,hseen,hcomplete⟩ := memberLoop_some hitem h
    refine ⟨_,_,ObjectOf.members hne hms hfew hdistinct,⟨seen,hseen,hcomplete⟩,?_⟩
    rw [List.cons_append, List.append_assoc]
    exact Eq.refl _

theorem object_eq {policy : Option Policy} {keys : List Text} {text : Text} (h : ObjectOf V keys text)
    (hallowed : Allowed policy keys) (rest : Text) : ∃ p, text ++ rest = 123 :: p ∧ object item policy p = some rest := by
  obtain ⟨seen,hseen,hcomplete⟩ := hallowed
  cases h with
  | empty hblank =>
    rename_i blank
    cases hseen
    refine ⟨blank ++ 125 :: rest,by rw [List.cons_append, List.append_assoc, List.singleton_append],?_⟩
    have hws : ws (blank ++ 125 :: rest) = 125 :: rest := by
      rw [ws_append hblank, ws_cons not_blank_brace]
    rw [object, hws]
    exact (if_pos rfl).trans (if_pos hcomplete)
  | members hne hms hfew hdistinct =>
    rename_i ms
    refine ⟨commas (ms.map Member.text) ++ 125 :: rest,by rw [List.cons_append, List.append_assoc, List.singleton_append],?_⟩
    have hloop := memberLoop_eq hitem hne hms hfew hdistinct (fun m _ => List.not_mem_nil) hseen hcomplete rest
    have hopen : ¬(ws (commas (ms.map Member.text) ++ 125 :: rest)).head? = some braceClose := by
      obtain ⟨m,ms,rfl⟩ := List.exists_cons_of_ne_nil hne
      obtain ⟨more,hmore⟩ := Config.commas_append m.text (ms.map Member.text)
      have hquote : ¬IsBlank 34 := by
        unfold IsBlank
        decide
      rw [List.map_cons, hmore, Member.text, List.append_assoc, List.append_assoc, ws_append (hms m List.mem_cons_self).before,
        List.cons_append, ws_cons hquote]
      exact fun h => absurd (Option.some.inj h) (by decide)
    rw [object, if_neg hopen]
    exact hloop

end

/-! ## All levels -/

theorem allowed_none (keys : List Text) : Allowed none keys := by
  refine ⟨0,?_,nofun⟩
  induction keys with
  | nil => exact Eq.refl _
  | cons key keys ih =>
    rw [List.foldlM_cons]
    exact ih

theorem value_skips (left : ℕ) (policy : Option Policy) (p : Text) : value left policy (ws p) = value left policy p := by
  cases left with
  | zero => exact Eq.refl _
  | succ left => rw [value, value, ws_ws]

/-- A scalar begins with a quote, a letter or a digit. -/
theorem scalar_start {text : Text} (h : Scalar text) : ∃ c q, text = c :: q ∧ ¬IsBlank c ∧ c ∉ [93,123,91] := by
  cases h with
  | string h =>
    refine ⟨_,_,rfl,?_,by decide⟩
    unfold IsBlank
    decide
  | word h =>
    rcases h with rfl | rfl
    · refine ⟨_,_,rfl,?_,by decide⟩
      unfold IsBlank
      decide
    · refine ⟨_,_,rfl,?_,by decide⟩
      unfold IsBlank
      decide
  | integer h =>
    obtain ⟨⟨hne,hall⟩,-⟩ := h
    obtain ⟨c,q,rfl⟩ := List.exists_cons_of_ne_nil hne
    have hc : isDigit c = true := isDigit_iff.mpr (hall c List.mem_cons_self)
    refine ⟨c,q,rfl,?_,?_⟩
    · rintro (rfl | rfl | rfl | rfl)
      all_goals exact absurd hc (by decide)
    · intro hmem
      simp only [List.mem_cons, List.not_mem_nil, or_false] at hmem
      rcases hmem with rfl | rfl | rfl
      all_goals exact absurd hc (by decide)

theorem valueOf_start {V : Text → Prop} {text : Text} (h : ValueOf V text) :
    ∃ c q, text = c :: q ∧ ¬IsBlank c ∧ c ≠ bracketClose := by
  have hnot : ¬IsBlank 91 ∧ ¬IsBlank 123 := by
    unfold IsBlank
    decide
  cases h with
  | scalar h =>
    obtain ⟨c,q,htext,hblank,hmem⟩ := scalar_start h
    exact ⟨c,q,htext,hblank,fun hc => hmem (hc ▸ List.mem_cons_self)⟩
  | array h =>
    cases h with
    | empty h => exact ⟨_,_,rfl,hnot.1,by decide⟩
    | elements hne h => exact ⟨_,_,rfl,hnot.1,by decide⟩
  | object h =>
    cases h with
    | empty h => exact ⟨_,_,rfl,hnot.2,by decide⟩
    | members hne h hfew hdistinct => exact ⟨_,_,rfl,hnot.2,by decide⟩

/-- From the values of one level to those that have them inside. -/
theorem scans_value (left : ℕ) : Scans (value left none) (Nested left) := by
  induction left with
  | zero =>
    refine ⟨value_skips 0 none,?_,?_,?_⟩
    · intro p rest h
      cases h
    · exact fun h => h.elim
    · exact fun h => h.elim
  | succ left ih =>
    refine ⟨value_skips (left + 1) none,?_,?_,valueOf_start⟩
    · intro p rest h
      obtain ⟨blank,hblank,hp⟩ := ws_split p
      rw [value] at h
      split at h
      · cases h
      rename_i c q hws
      rw [hws] at hp
      split at h
      · rename_i hc
        obtain ⟨keys,text,htext,-,heq⟩ := object_some ih h
        refine ⟨blank,text,hblank,ValueOf.object htext,?_⟩
        rw [hp, ← heq, hc]
        exact Eq.refl _
      split at h
      · rename_i hc
        obtain ⟨text,htext,heq⟩ := arrayOf_some ih h
        refine ⟨blank,text,hblank,ValueOf.array htext,?_⟩
        rw [hp, ← heq, hc]
        exact Eq.refl _
      · obtain ⟨text,htext,heq⟩ := scalar_some h
        refine ⟨blank,text,hblank,ValueOf.scalar htext,?_⟩
        rw [hp, heq]
    · intro text rest h hrest
      obtain ⟨c,q,htext,hblank,-⟩ := valueOf_start h
      have hws : ws (text ++ rest) = c :: (q ++ rest) := by
        rw [htext, List.cons_append, ws_cons hblank]
      rw [value, hws]
      dsimp only
      cases h with
      | scalar h =>
        obtain ⟨c',q',htext',-,hmem⟩ := scalar_start h
        obtain ⟨rfl,rfl⟩ := List.cons.inj (htext.symm.trans htext')
        have hopen : ¬c = braceOpen := fun hc => hmem (hc ▸ List.mem_cons_of_mem _ List.mem_cons_self)
        have hbracket : ¬c = bracketOpen := fun hc => hmem (hc ▸ List.mem_cons_of_mem _ (List.mem_cons_of_mem _ List.mem_cons_self))
        rw [if_neg hopen, if_neg hbracket, ← List.cons_append, ← htext]
        exact scalar_eq h hrest
      | array h =>
        obtain ⟨p,hp,harray⟩ := arrayOf_eq ih h rest
        rw [htext, List.cons_append, List.cons.injEq] at hp
        obtain ⟨rfl,rfl⟩ := hp
        exact harray
      | object h =>
        obtain ⟨p,hp,hobject⟩ := object_eq ih h (allowed_none _) rest
        rw [htext, List.cons_append, List.cons.injEq] at hp
        obtain ⟨rfl,rfl⟩ := hp
        exact hobject

/-! ## The names at the root -/

section
variable {p : Policy} {keys : List Text} {seen seen' : BitVec 32}

/-- The bit of a name. -/
theorem getLsbD_mark {i : ℕ} (hi : i < 32) (seen : BitVec 32) (k : ℕ) :
    (seen ||| 1#32 <<< i).getLsbD k = (seen.getLsbD k || decide (i = k)) := by
  rw [BitVec.getLsbD_or, BitVec.getLsbD_shiftLeft, BitVec.getLsbD_one]
  congr 1
  rw [Bool.eq_iff_iff]
  simp only [Bool.and_eq_true, Bool.not_eq_true', decide_eq_true_eq, decide_eq_false_iff_not]
  omega

theorem idxOf?_lt {names : List Text} {key : Text} {i : ℕ} (h : names.idxOf? key = some i) : i < names.length := by
  obtain ⟨hi,-⟩ := List.findIdx?_eq_some_iff_getElem.mp h
  exact hi

/-- The bit of every key is added, which has to be in the table. -/
theorem foldlM_mark_iff (hfew : p.allowed.length ≤ 32) :
    keys.foldlM (mark (some p)) seen = some seen' ↔
      (∀ key ∈ keys, key ∈ p.allowed) ∧
        ∀ k, seen'.getLsbD k = (seen.getLsbD k || decide (∃ key ∈ keys, p.allowed.idxOf? key = some k)) := by
  induction keys generalizing seen with
  | nil =>
    simp only [List.foldlM_nil, Option.pure_def, Option.some.injEq, List.not_mem_nil, false_implies, implies_true, true_and, false_and,
      exists_const, decide_false, Bool.or_false]
    constructor
    · rintro rfl k
      exact Eq.refl _
    · intro hbits
      exact BitVec.eq_of_getLsbD_eq fun k _ => (hbits k).symm
  | cons key keys ih =>
    rw [List.foldlM_cons, mark, List.forall_mem_cons]
    cases hkey : p.allowed.idxOf? key with
    | none =>
      refine iff_of_false nofun ?_
      rintro ⟨⟨hmem,-⟩,-⟩
      exact List.idxOf?_eq_none_iff.mp hkey hmem
    | some i =>
      have hmem : key ∈ p.allowed := by
        by_contra hno
        rw [List.idxOf?_eq_none_iff.mpr hno] at hkey
        cases hkey
      have hi : i < 32 := Nat.lt_of_lt_of_le (idxOf?_lt hkey) hfew
      rw [Option.map_some, Option.bind_eq_bind, Option.bind_some, ih, and_iff_right hmem]
      refine and_congr_right fun _ => forall_congr' fun k => ?_
      rw [getLsbD_mark hi, Bool.or_assoc]
      have hdecide : (decide (i = k) || decide (∃ key ∈ keys, p.allowed.idxOf? key = some k)) =
          decide (∃ key' ∈ key :: keys, p.allowed.idxOf? key' = some k) := by
        rw [Bool.eq_iff_iff, Bool.or_eq_true, decide_eq_true_iff, decide_eq_true_iff, decide_eq_true_iff]
        simp only [List.mem_cons, exists_eq_or_imp, hkey, Option.some.injEq]
      rw [hdecide]

theorem foldlM_mark_some (hmem : ∀ key ∈ keys, key ∈ p.allowed) (seen : BitVec 32) :
    ∃ seen', keys.foldlM (mark (some p)) seen = some seen' := by
  induction keys generalizing seen with
  | nil => exact ⟨seen,rfl⟩
  | cons key keys ih =>
    obtain ⟨hkey,hkeys⟩ := List.forall_mem_cons.mp hmem
    obtain ⟨i,hi⟩ := Option.isSome_iff_exists.mp (List.isSome_idxOf?.mpr hkey)
    rw [List.foldlM_cons, mark, hi]
    exact ih hkeys _

/-- The bits seen of a text cover those that are required. -/
theorem complete_iff {seen : BitVec 32} : Complete (some p) seen ↔ ∀ k, p.required.getLsbD k = true → seen.getLsbD k = true := by
  have hand : Complete (some p) seen ↔ seen &&& p.required = p.required := by
    constructor
    · exact fun h => h p rfl
    · intro h p' hp'
      cases hp'
      exact h
  rw [hand]
  constructor
  · intro h k hk
    rw [← h, BitVec.getLsbD_and, Bool.and_eq_true] at hk
    exact hk.1
  · intro h
    apply BitVec.eq_of_getLsbD_eq
    intro k _
    rw [BitVec.getLsbD_and]
    cases hk : p.required.getLsbD k with
    | false => exact Bool.and_false _
    | true => rw [h k hk, Bool.and_true]

theorem allowed_iff (hfew : p.allowed.length ≤ 32) :
    Allowed (some p) keys ↔ (∀ key ∈ keys, key ∈ p.allowed) ∧
      ∀ k, p.required.getLsbD k = true → ∃ key ∈ keys, p.allowed.idxOf? key = some k := by
  have hseen {seen : BitVec 32} (hbits : ∀ k, seen.getLsbD k =
      ((0#32).getLsbD k || decide (∃ key ∈ keys, p.allowed.idxOf? key = some k))) :
      Complete (some p) seen ↔ ∀ k, p.required.getLsbD k = true → ∃ key ∈ keys, p.allowed.idxOf? key = some k := by
    rw [complete_iff]
    refine forall_congr' fun k => imp_congr_right fun _ => ?_
    rw [hbits k, BitVec.getLsbD_zero, Bool.false_or, decide_eq_true_iff]
  constructor
  · rintro ⟨seen,hfold,hcomplete⟩
    obtain ⟨hmem,hbits⟩ := (foldlM_mark_iff hfew).mp hfold
    exact ⟨hmem,(hseen hbits).mp hcomplete⟩
  · rintro ⟨hmem,hrequired⟩
    obtain ⟨seen,hfold⟩ := foldlM_mark_some hmem 0
    exact ⟨seen,hfold,(hseen ((foldlM_mark_iff hfew).mp hfold).2).mpr hrequired⟩

end

/-- The gate is exact: it lets through one object with blanks around it, of values at most seven levels below it, whose
names are in the table of at most 32, and among them each that is required. -/
theorem httpJsonObject_iff (json : Text) (allowed : List Text) (required : BitVec 32) :
    httpJsonObject json allowed required = true ↔ allowed.length ≤ 32 ∧
      ∃ before object after keys, json = before ++ object ++ after ∧ Blank before ∧ Blank after ∧
        ObjectOf (Nested 7) keys object ∧ (∀ key ∈ keys, key ∈ allowed) ∧
        ∀ k, required.getLsbD k = true → ∃ key ∈ keys, allowed.idxOf? key = some k := by
  unfold httpJsonObject
  by_cases hmany : tableMax < allowed.length
  · rw [if_pos hmany]
    exact iff_of_false (by decide) fun h => Nat.not_le_of_lt hmany h.1
  have hfew : allowed.length ≤ 32 := Nat.le_of_not_lt hmany
  rw [if_neg hmany, and_iff_right hfew]
  constructor
  · intro h
    split at h
    · cases h
    rename_i hopen
    rw [ne_eq, not_not] at hopen
    obtain ⟨q,hq⟩ := List.head?_eq_some_iff.mp hopen
    obtain ⟨before,hbefore,hjson⟩ := ws_split json
    split at h
    · cases h
    rename_i rest hvalue
    rw [value_skips, value, hq] at hvalue
    obtain ⟨keys,text,htext,hallowed,heq⟩ := object_some (scans_value 7) hvalue
    obtain ⟨after,hafter,hrest⟩ := ws_split rest
    rw [of_decide_eq_true h, List.append_nil] at hrest
    refine ⟨before,text,after,keys,?_,hbefore,hafter,htext,(allowed_iff hfew).mp hallowed⟩
    rw [List.append_assoc, ← hrest, ← heq, hjson, hq]
    exact Eq.refl _
  · rintro ⟨before,text,after,keys,rfl,hbefore,hafter,htext,hallowed⟩
    obtain ⟨q,hq,hobject⟩ := object_eq (scans_value 7) htext ((allowed_iff (p := ⟨allowed,required⟩) hfew).mpr hallowed) after
    have hbrace : ¬IsBlank 123 := by
      unfold IsBlank
      decide
    have hws : ws (before ++ text ++ after) = 123 :: q := by
      rw [List.append_assoc, ws_append hbefore, hq, ws_cons hbrace]
    have hend : ws after = [] := by
      rw [← List.append_nil after, ws_append hafter]
      exact Eq.refl _
    have hvalue : value (depthMax + 1) (some ⟨allowed,required⟩) (123 :: q) = some after := by
      rw [value, ws_cons hbrace]
      exact hobject
    have hopen : (123 :: q : Text).head? = some braceOpen := rfl
    rw [hws, if_neg (not_not.mpr hopen), hvalue]
    exact decide_eq_true hend

end Bvstk.Web.JsonGate
