import Bvstk.Config.MdioJson
import Bvstk.Config.Printing
import Mathlib.Data.List.DropRight

/-! # The MDIO reader on printed text

The reader takes each printed piece and stops behind it: words, numbers, the items of a loop,
lists and entries. The state behind some items of a loop is that of the items read so far.
-/
namespace Bvstk.Config.MdioJson
open JsonText (Piece Denotes Element Member Blank IsBlank IsDigit Digits commas stringToken utf8 Value)
open CNumber (isSpace)
open I2cJson (decimal text)

/-! ## Scanning -/

theorem isSpace_blank {b : UInt8} (h : IsBlank b) : isSpace b = true := by
  rcases h with rfl | rfl | rfl | rfl
  all_goals decide

theorem ws_blank {blank : Text} (h : Blank blank) (p : Text) : ws (blank ++ p) = ws p :=
  List.dropWhile_append_of_pos fun b hb => isSpace_blank (h b hb)

theorem ws_cons {c : UInt8} (h : isSpace c = false) (p : Text) : ws (c :: p) = c :: p :=
  List.dropWhile_cons_of_neg (by rw [h]; decide)

@[simp] theorem ws_ws (p : Text) : ws (ws p) = ws p := List.dropWhile_idempotent isSpace p

theorem ch_blank {blank : Text} (h : Blank blank) (c : UInt8) (p : Text) : ch c (blank ++ p) = ch c p := by
  rw [ch, ch, ws_blank h]

theorem ch_cons {c : UInt8} (h : isSpace c = false) (p : Text) : ch c (c :: p) = some p := by
  rw [ch, ws_cons h]
  exact if_pos rfl

theorem ch_other {c d : UInt8} (h : isSpace d = false) (hne : d ≠ c) (p : Text) : ch c (d :: p) = none := by
  rw [ch, ws_cons h]
  exact if_neg hne

@[simp] theorem ch_ws (c : UInt8) (p : Text) : ch c (ws p) = ch c p := by rw [ch, ch, ws_ws]

@[simp] theorem string_ws (cap : ℕ) (p : Text) : string cap (ws p) = string cap p := by rw [string, string, ch_ws]

@[simp] theorem number_ws (maximum : ℕ) (p : Text) : number maximum (ws p) = number maximum p := by
  rw [number, number, ws_ws]

theorem stringChars_plain {cap : ℕ} {out s : Text} (hs : ∀ b ∈ s, PlainByte b) (hcap : out.length + s.length < cap)
    (rest : Text) : stringChars cap out (s ++ 34 :: rest) = some (out ++ s,34 :: rest) := by
  induction s generalizing out with
  | nil =>
    rw [List.nil_append, stringChars, List.append_nil]
    exact if_pos rfl
  | cons b s ih =>
    obtain ⟨hlow,-,hquote,hslash⟩ := hs b List.mem_cons_self
    have hroom : ¬(b < 32 ∨ b = 92 ∨ cap ≤ out.length + 1) := by
      rw [List.length_cons] at hcap
      rintro (h | h | h)
      · exact absurd hlow (UInt8.not_le.mpr h)
      · exact hslash h
      · omega
    rw [List.cons_append, stringChars, if_neg hquote, if_neg hroom,
      ih (fun c hc => hs c (List.mem_cons_of_mem b hc)) (by simp at hcap ⊢; omega), List.append_assoc]
    rfl

/-- A quoted word is read if the buffer has room for it. -/
theorem string_quoted {cap : ℕ} {s : Text} (hs : ∀ b ∈ s, PlainByte b) (hcap : s.length < cap) (rest : Text) :
    string cap (quoted s ++ rest) = some (s,rest) := by
  have hquote : isSpace 34 = false := by decide
  have hchars : stringChars cap [] (s ++ 34 :: rest) = some ([] ++ s,34 :: rest) :=
    stringChars_plain hs (by simpa using hcap) rest
  have htext : quoted s ++ rest = 34 :: (s ++ 34 :: rest) := by simp [quoted]
  rw [htext, string, ch_cons hquote]
  dsimp only
  rw [hchars]
  dsimp only
  rw [ch_cons hquote]
  rfl

theorem numberDigits_eq {maximum v : ℕ} {ds rest : Text} (hds : ∀ b ∈ ds, IsDigit b) (hrest : NoDigit rest)
    (hmax : digitsValue v ds ≤ maximum) : numberDigits maximum v (ds ++ rest) = some (digitsValue v ds,rest) := by
  induction ds generalizing v with
  | nil =>
    cases rest with
    | nil => rfl
    | cons c rest =>
      rw [List.nil_append, numberDigits]
      exact if_pos (hrest c rfl)
  | cons c ds ih =>
    have hdigit : ¬digit c = false := by
      rw [digit_iff.mpr (hds c List.mem_cons_self)]
      decide
    have hnext : digitsValue v (c :: ds) = digitsValue (v * 10 + (c.toNat - 48)) ds := rfl
    have hle : ∀ (n : ℕ) (ds : Text), n ≤ digitsValue n ds := by
      intro n ds
      induction ds generalizing n with
      | nil => exact le_rfl
      | cons d ds ih =>
        have hd := ih (n * 10 + (d.toNat - 48))
        rw [digitsValue, List.foldl_cons, ← digitsValue]
        omega
    rw [hnext] at hmax ⊢
    have hstep := (hle (v * 10 + (c.toNat - 48)) ds).trans hmax
    rw [List.cons_append, numberDigits, if_neg hdigit, if_neg (by omega)]
    exact ih (fun b hb => hds b (List.mem_cons_of_mem c hb)) hmax

/-- A printed number is read if it is not too large. -/
theorem number_decimal {maximum n : ℕ} (hn : n ≤ maximum) {rest : Text} (hrest : NoDigit rest) :
    number maximum (decimal n ++ rest) = some (n,rest) := by
  have hread : numberDigits maximum 0 (decimal n ++ rest) = some (digitsValue 0 (decimal n),rest) :=
    numberDigits_eq (decimal_digits n) hrest (by rwa [digitsValue_decimal])
  rw [digitsValue_decimal] at hread
  cases hdigits : decimal n with
  | nil => exact absurd hdigits (decimal_ne_nil n)
  | cons c ds =>
    have hall := decimal_digits n
    rw [hdigits] at hread hall
    have hc := digit_iff.mpr (hall c List.mem_cons_self)
    have hspace : isSpace c = false := by
      obtain ⟨hlow,hhigh⟩ := hall c List.mem_cons_self
      unfold isSpace
      rw [UInt8.le_iff_toNat_le] at hlow hhigh
      have h48 : (48 : UInt8).toNat = 48 := rfl
      simp [UInt8.le_iff_toNat_le, ← UInt8.toNat_inj]
      omega
    have hzero : ¬(c = 48 ∧ (ds ++ rest).head?.any digit = true) := by
      rintro ⟨rfl,hnext⟩
      have hn0 : n = 0 := decimal_head (by rw [hdigits]; rfl)
      rw [hn0, decimal_zero] at hdigits
      cases hdigits
      cases rest with
      | nil => cases hnext
      | cons d rest =>
        have hd : digit d = false := hrest d rfl
        rw [List.nil_append, List.head?_cons, Option.any_some, hd] at hnext
        cases hnext
    rw [List.cons_append] at hread ⊢
    rw [number, ws_cons hspace]
    dsimp only
    rw [if_neg (by rw [hc]; decide), if_neg hzero]
    exact hread

/-! ## Items -/

section
variable {σ α : Type} {close : UInt8} {item : σ → Text → Option (σ × Text)}

theorem next_close (hclose : isSpace close = false) {after : Text} (hafter : Blank after) (rest : Text) :
    next close (after ++ close :: rest) = some (false,rest) := by
  rw [next, ch_blank hafter, ch_cons hclose]

theorem next_comma (hclose : 44 ≠ close) {after rest : Text} (hafter : Blank after)
    (hrest : (ws rest).head? ≠ some close) : next close (after ++ 44 :: rest) = some (true,ws rest) := by
  have hcomma : isSpace 44 = false := by decide
  rw [next, ch_blank hafter, ch_other hcomma hclose]
  dsimp only
  rw [ch_blank hafter, ch_cons hcomma]
  exact if_neg hrest

/-- What the reader of a loop needs to know about the text of an item. -/
structure Itemized (close : UInt8) (before w after : α → Text) (x : α) : Prop where
  before : Blank (before x)
  after : Blank (after x)
  head : ∃ b tail, w x = b :: tail ∧ isSpace b = false ∧ b ≠ close

/-- The loop over items reads them all if it reads each behind those in front of it. -/
theorem items_eq (before w after : α → Text) (hclose : isSpace close = false) (hcomma : 44 ≠ close)
    (hws : ∀ s p, item s (ws p) = item s p) {xs : List α} (hne : xs ≠ [])
    (hxs : ∀ x ∈ xs, Itemized close before w after x) (st : List α → σ)
    (hitem : ∀ pre x post, xs = pre ++ x :: post → ∀ rest, Stops rest →
      item (st pre) (w x ++ rest) = some (st (pre ++ [x]),rest))
    (rest : Text) (left : ℕ) (hleft : xs.length ≤ left) (hstop : ∀ rest, Stops (close :: rest)) :
    items close item left (st []) (commas (xs.map fun x => before x ++ w x ++ after x) ++ close :: rest) =
      some (st xs,rest) := by
  induction xs generalizing st left with
  | nil => exact absurd rfl hne
  | cons x xs ih =>
    obtain ⟨hbefore,hafter,-⟩ := hxs x List.mem_cons_self
    have hread : ∀ rest, Stops rest → item (st []) (before x ++ (w x ++ rest)) = some (st [x],rest) := by
      intro rest hrest
      rw [← hws, ws_blank hbefore, hws]
      exact hitem [] x xs rfl rest hrest
    cases left with
    | zero => cases hleft
    | succ left =>
      cases xs with
      | nil =>
        rw [List.map_singleton, commas_singleton, List.append_assoc, List.append_assoc, items,
          hread _ (stops_append hafter (hstop rest))]
        dsimp only
        rw [next_close hclose hafter]
        rfl
      | cons x' xs =>
        have hsplit : commas ((x :: x' :: xs).map fun x => before x ++ w x ++ after x) ++ close :: rest =
            before x ++ (w x ++ (after x ++ 44 :: (commas ((x' :: xs).map fun x => before x ++ w x ++ after x) ++ close :: rest))) := by
          rw [List.map_cons, List.map_cons, commas_cons]
          simp only [List.append_assoc, List.cons_append]
        rw [hsplit, items, hread _ (stops_append hafter (stops_comma _))]
        dsimp only
        have hstart : ∃ more, commas ((x' :: xs).map fun x => before x ++ w x ++ after x) ++ close :: rest =
            before x' ++ (w x' ++ more) := by
          obtain ⟨more,hmore⟩ := commas_append (before x' ++ w x' ++ after x') (xs.map fun x => before x ++ w x ++ after x)
          exact ⟨_,by rw [List.map_cons, hmore]; simp only [List.append_assoc]; rfl⟩
        have hhead : (ws (commas ((x' :: xs).map fun x => before x ++ w x ++ after x) ++ close :: rest)).head? ≠
            some close := by
          obtain ⟨more,hmore⟩ := hstart
          obtain ⟨hbefore',-,b,tail,hw,hb,hne'⟩ := hxs x' (List.mem_cons_of_mem x List.mem_cons_self)
          rw [hmore, ws_blank hbefore', hw, List.cons_append, ws_cons hb]
          exact fun hhead => hne' (Option.some.inj hhead)
        rw [next_comma hcomma hafter hhead]
        dsimp only
        rw [if_pos rfl]
        have hrun := ih (List.cons_ne_nil _ _) (fun y hy => hxs y (List.mem_cons_of_mem x hy))
          (fun pre => st (x :: pre)) (fun pre y post hsplit rest hrest =>
            hitem (x :: pre) y post (by rw [hsplit]; rfl) rest hrest) left (Nat.le_of_succ_le_succ hleft)
        cases left with
        | zero => simp at hleft
        | succ left =>
          rw [items] at hrun ⊢
          rw [hws]
          exact hrun

end

/-! ## Lists -/

/-- The items of a list, each with the blanks in front of it. -/
def tagged {α : Type} : List α → List (Text × α)
  | [] => []
  | x :: xs => ([],x) :: xs.map ([32],·)

@[simp] theorem tagged_snd {α : Type} (xs : List α) : (tagged xs).map Prod.snd = xs := by
  cases xs with
  | nil => rfl
  | cons x xs =>
    have hsnd : (Prod.snd ∘ fun x : α => (([32] : Text),x)) = id := rfl
    rw [tagged, List.map_cons, List.map_map, hsnd, List.map_id]

@[simp] theorem tagged_length {α : Type} (xs : List α) : (tagged xs).length = xs.length := by
  rw [← List.length_map Prod.snd, tagged_snd]

theorem blank_tagged {α : Type} {xs : List α} {p : Text × α} (h : p ∈ tagged xs) : Blank p.1 ∧ p.2 ∈ xs := by
  cases xs with
  | nil => cases h
  | cons x xs =>
    rcases List.mem_cons.mp h with rfl | h
    · exact ⟨blank_nil,List.mem_cons_self⟩
    · obtain ⟨y,hy,rfl⟩ := List.mem_map.mp h
      exact ⟨blank_space,List.mem_cons_of_mem x hy⟩

theorem writeList_eq {α : Type} (write : α → Text) (xs : List α) : writeList write xs = separated (xs.map write) := by
  have hcomma : text ", " = [44,32] := by decide
  cases xs with
  | nil => rfl
  | cons x xs => rw [writeList, List.map_cons, separated, List.flatMap_map, hcomma]

theorem commas_tagged {α : Type} (write : α → Text) (xs : List α) :
    commas ((tagged xs).map fun p => p.1 ++ write p.2 ++ []) = writeList write xs := by
  have hcomma : text ", " = [44,32] := by decide
  cases xs with
  | nil => rfl
  | cons x xs =>
    rw [tagged, List.map_cons, commas_eq_flatMap, writeList, List.map_map, List.flatMap_map, hcomma]
    simp

theorem length_le_commas (ts : List Bytes) : ts.length ≤ (commas ts).length + 1 := by
  induction ts with
  | nil => exact Nat.zero_le _
  | cons t ts ih =>
    cases ts with
    | nil => simp
    | cons u ts =>
      rw [commas_cons, List.length_append, List.length_cons (a := t), List.length_cons (a := (44 : UInt8))]
      omega

theorem stops_bracket (rest : Text) : Stops (93 :: rest) := stops_closing false rest

theorem stops_brace (rest : Text) : Stops (125 :: rest) := stops_closing true rest

/-- A printed list is read if it is not too long and each of its items is read. -/
theorem listOf_eq {α : Type} {capacity : ℕ} {item : Text → Option (α × Text)} {write : α → Text} {xs : List α}
    (hws : ∀ p, item (ws p) = item p) (hlength : xs.length ≤ capacity)
    (hitem : ∀ x ∈ xs, ∀ rest, Stops rest → item (write x ++ rest) = some (x,rest))
    (hhead : ∀ x ∈ xs, ∃ b tail, write x = b :: tail ∧ isSpace b = false ∧ b ≠ 93) (rest : Text) :
    listOf capacity item (91 :: (writeList write xs ++ 93 :: rest)) = some (xs,rest) := by
  have hopen : isSpace 91 = false := by decide
  have hclose : isSpace 93 = false := by decide
  rw [listOf, ch_cons hopen]
  dsimp only
  cases xs with
  | nil =>
    have htext : writeList write [] ++ 93 :: rest = 93 :: rest := rfl
    rw [htext, ch_cons hclose]
  | cons x xs =>
    have hnone : ch 93 (writeList write (x :: xs) ++ 93 :: rest) = none := by
      obtain ⟨b,tail,hb,hspace,hne⟩ := hhead x List.mem_cons_self
      rw [writeList, hb, List.append_assoc, List.cons_append]
      exact ch_other hspace hne _
    have htagged : tagged (x :: xs) ≠ [] := List.cons_ne_nil _ _
    have hread : ∀ pre p post, tagged (x :: xs) = pre ++ p :: post → ∀ rest, Stops rest →
        listItem capacity item (pre.map Prod.snd) (write p.2 ++ rest) = some ((pre ++ [p]).map Prod.snd,rest) := by
      intro pre p post hsplit rest hrest
      have hmem : p ∈ tagged (x :: xs) := by
        rw [hsplit]
        exact List.mem_append_right _ List.mem_cons_self
      have hshort : ¬capacity ≤ (pre.map Prod.snd).length := by
        have hall := congrArg List.length hsplit
        have hpost : (p :: post).length = post.length + 1 := rfl
        rw [tagged_length, List.length_append, hpost] at hall
        rw [List.length_map]
        omega
      rw [listItem, if_neg hshort, hitem _ (blank_tagged hmem).2 rest hrest, List.map_append]
      rfl
    have hleft : (tagged (x :: xs)).length ≤ (writeList write (x :: xs) ++ 93 :: rest).length + 1 := by
      have hcount := length_le_commas ((tagged (x :: xs)).map fun p => p.1 ++ write p.2 ++ [])
      rw [commas_tagged, List.length_map] at hcount
      rw [List.length_append]
      omega
    have hsome := items_eq Prod.fst (fun p : Text × α => write p.2) (fun _ => []) hclose (by decide)
      (fun xs p => by rw [listItem, hws, listItem]) htagged
      (fun p hp => ⟨(blank_tagged hp).1,blank_nil,hhead _ (blank_tagged hp).2⟩) (List.map Prod.snd) hread rest _ hleft stops_bracket
    rw [commas_tagged, tagged_snd, List.map_nil] at hsome
    rw [hnone]
    exact hsome

/-! ## Entries -/

def Field.get (r : MdioRule) : Field → ℕ
  | .reg => r.reg.toNat
  | .val => r.val.toNat
  | .mask => r.mask.toNat

def writeField (r : MdioRule) (f : Field) : Text := quoted f.key ++ ([58,32] ++ decimal (f.get r))

theorem writeRule_eq (r : MdioRule) : writeRule r = 123 :: (writeList (writeField r) [.reg,.val,.mask] ++ [125]) := by
  have hreg : text "\x7b\"reg\": " = 123 :: (quoted Field.reg.key ++ [58,32]) := by decide
  have hval : text ", \"val\": " = text ", " ++ (quoted Field.val.key ++ [58,32]) := by decide
  have hmask : text ", \"mask\": " = text ", " ++ (quoted Field.mask.key ++ [58,32]) := by decide
  have hclose : text "\x7d" = [125] := by decide
  rw [writeRule, hreg, hval, hmask, hclose]
  simp [writeList, writeField, Field.get]

theorem writeSetting_eq (s : MdioSetting) :
    writeSetting s = 123 :: (writeList (writeField ⟨s.reg,s.val,0xFFFF⟩) [.reg,.val] ++ [125]) := by
  have hreg : text "\x7b\"reg\": " = 123 :: (quoted Field.reg.key ++ [58,32]) := by decide
  have hval : text ", \"val\": " = text ", " ++ (quoted Field.val.key ++ [58,32]) := by decide
  have hclose : text "\x7d" = [125] := by decide
  rw [writeSetting, hreg, hval, hclose]
  simp [writeList, writeField, Field.get]

theorem plain_key (f : Field) : (∀ b ∈ f.key, PlainByte b) ∧ f.key.length < 12 := by
  constructor
  · exact forall_bytes (by cases f <;> decide)
  · cases f <;> decide

theorem field_of_key {f g : Field} (h : f.key = g.key) : f = g := by
  cases f <;> cases g <;> first | rfl | cases h

theorem find_field {known : List Field} {f : Field} (h : f ∈ known) : known.find? (·.key = f.key) = some f := by
  induction known with
  | nil => cases h
  | cons g known ih =>
    by_cases hg : g.key = f.key
    · rw [List.find?_cons_of_pos (by simpa using hg), field_of_key hg]
    · have hne : f ≠ g := fun heq => hg (by rw [heq])
      rw [List.find?_cons_of_neg (by simpa using hg)]
      exact ih ((List.mem_cons.mp h).resolve_left hne)

theorem ch_colon (p : Text) : ch 58 ([58,32] ++ p) = some (32 :: p) := ch_cons (by decide) _

theorem number_space {maximum n : ℕ} (hn : n ≤ maximum) {rest : Text} (hrest : NoDigit rest) :
    number maximum (32 :: (decimal n ++ rest)) = some (n,rest) := by
  have hspace : ws (32 :: (decimal n ++ rest)) = ws (decimal n ++ rest) := ws_blank blank_space _
  rw [← number_ws, hspace, number_ws, number_decimal hn hrest]

/-- A printed field is read if it is one of the known ones and was not there before. -/
theorem entryField_eq {cap : ℕ} {known : List Field} {s : EntryScan} {r : MdioRule} {f : Field} (hf : f ∈ known)
    (hnew : f ∉ s.seen) (hcap : 12 ≤ cap) (hmax : f.get r ≤ f.maximum) {rest : Text} (hrest : Stops rest) :
    entryField cap known s (writeField r f ++ rest) = some (⟨f.set s.rule (f.get r),f :: s.seen⟩,rest) := by
  obtain ⟨hplain,hlength⟩ := plain_key f
  rw [writeField, List.append_assoc, List.append_assoc, entryField, string_quoted hplain (by omega)]
  dsimp only
  rw [ch_colon]
  dsimp only
  rw [find_field hf]
  dsimp only
  rw [if_neg hnew, number_space hmax hrest.ends.1]
  rfl

/-- A printed entry is read field by field. -/
theorem entry_eq (cap : ℕ) (known : List Field) (r : MdioRule) (hknown : known.Nodup) (hcap : 12 ≤ cap)
    (hreg : Field.reg ∈ known) (hval : Field.val ∈ known) (hmax : ∀ f ∈ known, f.get r ≤ f.maximum) (rest : Text) :
    entry cap known (123 :: (writeList (writeField r) known ++ 125 :: rest)) =
      some (known.foldl (fun acc f => f.set acc (f.get r)) ⟨0,0,0xFFFF⟩,rest) := by
  let st (pre : List (Text × Field)) : EntryScan :=
    ⟨(pre.map Prod.snd).foldl (fun acc f => f.set acc (f.get r)) ⟨0,0,0xFFFF⟩,(pre.map Prod.snd).reverse⟩
  have hne : tagged known ≠ [] := by
    rw [← List.length_pos_iff, tagged_length]
    exact List.length_pos_of_mem hreg
  have hread : ∀ pre p post, tagged known = pre ++ p :: post → ∀ rest, Stops rest →
      entryField cap known (st pre) (writeField r p.2 ++ rest) = some (st (pre ++ [p]),rest) := by
    intro pre p post hsplit rest hrest
    have hfields := congrArg (List.map Prod.snd) hsplit
    rw [tagged_snd, List.map_append, List.map_cons] at hfields
    have hmem : p.2 ∈ known := by
      rw [hfields]
      exact List.mem_append_right _ List.mem_cons_self
    have hnew : p.2 ∉ (st pre).seen := by
      intro hseen
      rw [hfields] at hknown
      exact (List.nodup_append.mp hknown).2.2 _ (List.mem_reverse.mp hseen) _ List.mem_cons_self rfl
    rw [entryField_eq hmem hnew hcap (hmax _ hmem) hrest]
    simp only [st, List.map_append, List.map_cons, List.map_nil, List.foldl_append, List.foldl_cons, List.foldl_nil,
      List.reverse_append, List.reverse_cons, List.reverse_nil, List.nil_append, List.singleton_append]
  have hleft : (tagged known).length ≤ (writeList (writeField r) known ++ 125 :: rest).length + 1 := by
    have hcount := length_le_commas ((tagged known).map fun p => p.1 ++ writeField r p.2 ++ [])
    rw [commas_tagged, List.length_map] at hcount
    rw [List.length_append]
    omega
  have hsome := items_eq Prod.fst (fun p : Text × Field => writeField r p.2) (fun _ => []) (by decide) (by decide)
    (fun s p => by rw [entryField, string_ws, entryField]) hne
    (fun p hp => ⟨(blank_tagged hp).1,blank_nil,34,_,rfl,by decide,by decide⟩) st hread rest _ hleft stops_brace
  rw [commas_tagged] at hsome
  have hfirst : st [] = ⟨⟨0,0,0xFFFF⟩,[]⟩ := rfl
  have hlast : st (tagged known) = ⟨known.foldl (fun acc f => f.set acc (f.get r)) ⟨0,0,0xFFFF⟩,known.reverse⟩ := by
    simp only [st, tagged_snd]
  rw [hfirst, hlast] at hsome
  rw [entry, ch_cons (by decide)]
  dsimp only
  rw [hsome]
  exact if_pos ⟨List.mem_reverse.mpr hreg,List.mem_reverse.mpr hval⟩

theorem get_le_maximum {r : MdioRule} (h : r.reg ≤ 31) (f : Field) : f.get r ≤ f.maximum := by
  cases f with
  | reg => exact UInt8.le_iff_toNat_le.mp h
  | val => exact Nat.le_of_lt_succ r.val.toNat_lt
  | mask => exact Nat.le_of_lt_succ r.mask.toNat_lt

theorem rule_eq {r : MdioRule} (h : r.reg ≤ 31) (rest : Text) : rule false (writeRule r ++ rest) = some (r,rest) := by
  have hentry := entry_eq 12 [.reg,.val,.mask] r (by decide) le_rfl (by simp) (by simp)
    (fun f _ => get_le_maximum h f) rest
  rw [writeRule_eq, List.cons_append, List.append_assoc, List.singleton_append, rule, if_neg (by decide), hentry]
  simp [Field.set, Field.get]

theorem setting_eq {s : MdioSetting} (h : s.reg ≤ 31) (rest : Text) : setting (writeSetting s ++ rest) = some (s,rest) := by
  have hentry := entry_eq 40 [.reg,.val] ⟨s.reg,s.val,0xFFFF⟩ (by decide) (by decide) (by simp)
    (by simp) (fun f _ => get_le_maximum h f) rest
  rw [writeSetting_eq, List.cons_append, List.append_assoc, List.singleton_append, setting, hentry]
  simp [Field.set, Field.get]

end Bvstk.Config.MdioJson
