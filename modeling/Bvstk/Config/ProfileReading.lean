import Bvstk.Config.Printing
import Bvstk.Config.ProfileFormat

/-! # What the views of a profile show

A view of a text that means a tree shows that tree: each reader of views finds what the tree has,
whatever the blanks and the spelling of the text.
-/
namespace Bvstk.Config.Profile
open JsonText (Blank IsBlank Element HexDigit IntPart IsDigit Member Means Names Piece Stands Tree Value commas stringToken utf8)
open BoundedNumber (Numeral)
open I2cJson (decimal)

/-! ## Numerals -/

theorem numeral_snoc {base n d : ℕ} {Digit : UInt8 → ℕ → Prop} {ds : Bytes} {c : UInt8} (h : Numeral base Digit ds n)
    (hc : Digit c d) : Numeral base Digit (ds ++ [c]) (n * base + d) := by
  obtain ⟨values,hvalues,rfl⟩ := h
  refine ⟨values ++ [d],List.rel_append hvalues (.cons hc .nil),?_⟩
  rw [List.reverse_append, List.reverse_singleton, List.singleton_append, Nat.ofDigits_cons, Nat.mul_comm, Nat.add_comm]

theorem numeral_single {base d : ℕ} {Digit : UInt8 → ℕ → Prop} {c : UInt8} (hc : Digit c d) : Numeral base Digit [c] d :=
  ⟨[d],.cons hc .nil,by simp⟩

theorem numeral_zeros {base n : ℕ} {Digit : UInt8 → ℕ → Prop} {ds : Bytes} {c : UInt8} (h : Numeral base Digit ds n)
    (hc : Digit c 0) (k : ℕ) : Numeral base Digit (List.replicate k c ++ ds) n := by
  induction k with
  | zero => exact h
  | succ k ih =>
    obtain ⟨values,hvalues,hn⟩ := ih
    refine ⟨0 :: values,.cons hc hvalues,?_⟩
    rw [List.reverse_cons, Nat.ofDigits_append, ← hn]
    simp

theorem decimal_numeral (n : ℕ) : Decimal (decimal n) n := by
  induction n using Nat.strong_induction_on with
  | _ n ih =>
    have hlt := Nat.mod_lt n (by decide : 0 < 10)
    have hlast : DecimalDigit (UInt8.ofNat (48 + n % 10)) (n % 10) := ⟨hlt,(isDigit_last hlt).2⟩
    rw [decimal_eq]
    split
    · rename_i hsmall
      rw [Nat.mod_eq_of_lt hsmall] at hlast ⊢
      exact numeral_single hlast
    · have hmore := numeral_snoc (ih (n / 10) (by omega)) hlast
      have hn : n / 10 * 10 + n % 10 = n := Nat.div_add_mod' n 10
      rwa [hn] at hmore

theorem decimal_intPart (n : ℕ) : IntPart (decimal n) :=
  ⟨⟨decimal_ne_nil n,decimal_digits n⟩,fun hzero => by rw [decimal_head hzero, decimal_zero]⟩

/-- The byte of a hexadecimal digit. -/
def hexByte (upper : Bool) (d : ℕ) : UInt8 :=
  UInt8.ofNat (if upper = true then d.digitChar.toUpper else d.digitChar).toNat

theorem hexByte_digit (upper : Bool) {d : ℕ} (h : d < 16) : HexDigit (hexByte upper d) d := by
  have hall : ∀ (upper : Bool) (d : Fin 16), (d.val < 10 ∧ (hexByte upper d.val).toNat = 48 + d.val) ∨
      (10 ≤ d.val ∧ d.val < 16 ∧ ((hexByte upper d.val).toNat = 87 + d.val ∨ (hexByte upper d.val).toNat = 55 + d.val)) := by
    decide
  exact hall upper ⟨d,h⟩

/-- The digits of `%x` or `%X`. -/
def hexDigits (upper : Bool) (n : ℕ) : Bytes :=
  (Nat.toDigits 16 n).map fun c => UInt8.ofNat (if upper = true then c.toUpper else c).toNat

theorem hexDigits_eq (upper : Bool) (n : ℕ) :
    hexDigits upper n = (if n < 16 then [] else hexDigits upper (n / 16)) ++ [hexByte upper (n % 16)] := by
  unfold hexDigits
  rw [Nat.toDigits_eq_if (by decide)]
  by_cases hsmall : n < 16
  · rw [if_pos hsmall, if_pos hsmall, List.map_singleton, Nat.mod_eq_of_lt hsmall, List.nil_append]
    rfl
  · rw [if_neg hsmall, if_neg hsmall, List.map_append, List.map_singleton]
    rfl

theorem hexDigits_numeral (upper : Bool) (n : ℕ) : Hexadecimal (hexDigits upper n) n := by
  induction n using Nat.strong_induction_on with
  | _ n ih =>
    have hlast := hexByte_digit upper (Nat.mod_lt n (by decide : 0 < 16))
    rw [hexDigits_eq]
    split
    · rename_i hsmall
      rw [Nat.mod_eq_of_lt hsmall] at hlast ⊢
      exact numeral_single hlast
    · have hmore := numeral_snoc (ih (n / 16) (by omega)) hlast
      have hn : n / 16 * 16 + n % 16 = n := Nat.div_add_mod' n 16
      rwa [hn] at hmore

theorem hexPadded_numeral (upper : Bool) (digits n : ℕ) : Hexadecimal (hexPadded upper digits n) n :=
  numeral_zeros (hexDigits_numeral upper n) (Or.inl ⟨by decide,rfl⟩) _

theorem hexPadded_length {upper : Bool} {digits n : ℕ} (hdigits : 0 < digits) (h : n < 16 ^ digits) :
    (hexPadded upper digits n).length = digits := by
  have hle := (Nat.length_toDigits_le_iff (b := 16) (by decide) hdigits).mpr h
  simp only [hexPadded, List.length_append, List.length_replicate, List.length_map]
  omega

/-! ## Scalars -/

/-- What a view shows of a tree; a member that is missing shows nothing. -/
abbrev Shows (n : ℕ) (t : Option Tree) (v : View) : Prop := Option.Rel (Means Denoting n) t v

/-- A text that the readers of strings take. -/
def Printable (s : Name) : Prop := ∀ b ∈ s, 32 ≤ b ∧ b ≠ 127

instance (s : Name) : Decidable (Printable s) := List.decidableBAll _ s

section
variable {n : ℕ} {v : View}

theorem shows_none (h : Shows n none v) : v = none := by
  cases h
  rfl

theorem Shows.isSome {t : Tree} (h : Shows n (some t) v) : ∃ view, v = some view ∧ Means Denoting n t view := by
  cases h with
  | some h => exact ⟨_,rfl,h⟩

theorem Shows.text {s : Name} (h : Shows n (some (.string s)) v) (hs : Printable s) {cap : ℕ} (hcap : s.length < cap) :
    text cap v = some s := by
  obtain ⟨view,rfl,hmeans⟩ := h.isSome
  cases hmeans with
  | string hnames =>
    obtain ⟨hvalid,-,cs,hdenotes,rfl⟩ := hnames
    exact (text_iff (by omega)).mpr ⟨⟨_,cs,hdenotes,hvalid,rfl,rfl⟩,hcap,hs⟩

theorem Shows.equal {s : String} (h : Shows n (some (.string (I2cJson.text s))) v) (hs : Printable (I2cJson.text s))
    (hcap : (I2cJson.text s).length < 64) (other : String) :
    equal v other = (I2cJson.text s == I2cJson.text other) := by
  rw [Profile.equal, h.text hs hcap, Option.some_beq_some]

theorem Shows.number {k : ℕ} (h : Shows n (some (.scalar (decimal k))) v) {max : UInt32} (hmax : k ≤ max.toNat) :
    number max v = some k := by
  obtain ⟨view,rfl,hmeans⟩ := h.isSome
  have hword : (UInt32.ofNat k).toNat = k := UInt32.toNat_ofNat_of_lt' (lt_of_le_of_lt hmax max.toNat_lt)
  cases hmeans
  have hread := (number_iff (decimal k) max (UInt32.ofNat k)).mpr ⟨decimal_intPart k,by rw [hword]; exact decimal_numeral k,
    by rw [hword]; exact hmax⟩
  rw [Profile.number, Option.bind_some, hread, Option.map_some, hword]

/-- Characters that can be written anywhere. -/
def Ascii (s : Bytes) : Prop := ∀ b ∈ s, 32 ≤ b ∧ b < 127

instance (s : Bytes) : Decidable (Ascii s) := List.decidableBAll _ s

theorem Ascii.printable {s : Bytes} (h : Ascii s) : Printable s := fun b hb =>
  ⟨(h b hb).1,fun heq => absurd (heq ▸ (h b hb).2) (UInt8.lt_irrefl _)⟩

theorem hexText_printable (digits k : ℕ) : Printable (hexText digits k) := by
  intro b hb
  rw [hexText, List.mem_cons, List.mem_cons] at hb
  rcases hb with rfl | rfl | hb
  · decide
  · decide
  · obtain ⟨d,hd⟩ := (hexPadded_numeral true digits k).digit b hb
    exact hexDigit_plain hd

theorem Shows.hex {digits k : ℕ} (h : Shows n (some (.string (hexText digits k))) v) (hdigits : 0 < digits)
    (hsmall : digits ≤ 16) (hk : k < 16 ^ digits) {max : UInt32} (hmax : k ≤ max.toNat) : hex max v = some k := by
  obtain ⟨view,rfl,hmeans⟩ := h.isSome
  have hword : (UInt32.ofNat k).toNat = k := UInt32.toNat_ofNat_of_lt' (lt_of_le_of_lt hmax max.toNat_lt)
  have hlength : (hexPadded true digits k).length = digits := hexPadded_length hdigits hk
  generalize htree : Tree.string (hexText digits k) = t at hmeans
  cases hmeans with
  | string hnames =>
    obtain rfl := Tree.string.inj htree
    obtain ⟨hvalid,-,cs,hdenotes,hcs⟩ := hnames
    have hread := (hex_iff _ max (UInt32.ofNat k)).mpr ⟨hexPadded true digits k,⟨_,cs,hdenotes,hvalid,rfl,hcs⟩,by omega,
      by omega,by rw [hword]; exact hexPadded_numeral true digits k,by rw [hword]; exact hmax⟩
    rw [Profile.hex, Option.bind_some, hread, Option.map_some, hword]
  | _ => cases htree

theorem Shows.boolean {b : Bool} (h : Shows n (some (.scalar (boolText b))) v) : boolean v = some b := by
  obtain ⟨view,rfl,hmeans⟩ := h.isSome
  cases hmeans
  cases b with
  | true => rfl
  | false => rfl

end

/-! ## Objects -/

/-- Keys that the buffer for keys holds, and that are no two spellings of one. -/
structure Table (keys : List String) : Prop where
  distinct : ∀ k ∈ keys, ∀ k' ∈ keys, I2cJson.text k = I2cJson.text k' → k = k'
  short : ∀ k ∈ keys, (I2cJson.text k).length < keyCap
  plain : ∀ k ∈ keys, Ascii (I2cJson.text k)

instance (keys : List String) : Decidable (Table keys) :=
  decidable_of_iff ((∀ k ∈ keys, ∀ k' ∈ keys, I2cJson.text k = I2cJson.text k' → k = k') ∧
    (∀ k ∈ keys, (I2cJson.text k).length < keyCap) ∧ ∀ k ∈ keys, Ascii (I2cJson.text k))
    ⟨fun h => ⟨h.1,h.2.1,h.2.2⟩,fun h => ⟨h.distinct,h.short,h.plain⟩⟩

theorem Table.find {keys : List String} (h : Table keys) {k : String} (hk : k ∈ keys) :
    keys.find? (I2cJson.text · = I2cJson.text k) = some k := by
  have hsome : (keys.find? (I2cJson.text · = I2cJson.text k)).isSome = true :=
    List.find?_isSome.mpr ⟨k,hk,decide_eq_true (Eq.refl _)⟩
  obtain ⟨k',hk'⟩ := Option.isSome_iff_exists.mp hsome
  have hfound := List.find?_some hk'
  have hsame : I2cJson.text k' = I2cJson.text k := of_decide_eq_true hfound
  rw [hk', h.distinct k' (List.mem_of_find?_eq_some hk') k hk hsame]

/-- The object with some of the members in a list: those that have a tree. -/
def objectOf (fs : List (String × Option Tree)) : Tree :=
  .object (fs.filterMap fun f => f.2.map (I2cJson.text f.1,·))

/-- Views by key that show the members of a list. -/
def ShowsAll (n : ℕ) (fs : List (String × Option Tree)) (f : Views) : Prop := ∀ k, Shows n (fs.lookup k).join (f k)

/-- One member of an object. -/
structure Entry (n : ℕ) (k : String) (t : Tree) (m : Member) : Prop where
  before : Blank m.before
  middle : Blank m.middle
  ahead : Blank m.element.before
  after : Blank m.element.after
  name : Names Denoting m.name (I2cJson.text k)
  means : Means Denoting n t m.element.value

section
variable {keys : List String} {n : ℕ}

theorem Means.view {t : Tree} {v : Bytes} (h : Means Denoting n t v) (hn : n ≤ depthMax - 1) :
    Value Denoting (depthMax - 1) v := h.value.mono hn

/-- A view is what stands between two places of the text. -/
theorem take_view (v rest : Bytes) : (v ++ rest).take ((v ++ rest).length - rest.length) = v := by
  rw [List.length_append, Nat.add_sub_cancel, List.take_left]

/-- The loop of `fields` at one member. -/
theorem fieldsLoop_member (hkeys : Table keys) (hn : n ≤ depthMax - 1) {k : String} (hk : k ∈ keys) {t : Tree} {m : Member}
    (hm : Entry n k t m) {out : Views} (hout : out k = none) (left : ℕ) {c : UInt8} (hc : c = 125 ∨ c = 44) (more : Bytes) :
    fieldsLoop keys (left + 1) out (ws (m.text ++ c :: more)) =
      if c = 125 then if more = [] then some (Function.update out k (some m.element.value)) else none
      else if c = 44 then fieldsLoop keys left (Function.update out k (some m.element.value)) (ws more)
      else none := by
  obtain ⟨hvalid,-,cs,hdenotes,hcs⟩ := hm.name
  have hnonzero : ∀ c ∈ cs, c.toNat ≠ 0 := by
    apply utf8_noNul
    rintro b hb rfl
    exact absurd (hkeys.plain k hk 0 (hcs ▸ hb)).1 (by decide)
  have hfits : Fits (some keyCap) (utf8 cs).length := by
    intro size hsize
    cases hsize
    rw [hcs]
    exact hkeys.short k hk
  have hblank : ¬IsBlank c := by
    rcases hc with rfl | rfl
    · exact not_blank_closing true
    · exact not_blank_comma
  have hstops : Stops (c :: more) := by
    rcases hc with rfl | rfl
    · exact stops_closing true more
    · exact stops_comma more
  have hcolon : ws (m.middle ++ 58 :: (m.element.text ++ c :: more)) = 58 :: (m.element.text ++ c :: more) := by
    rw [ws_append hm.middle, ws_cons (by unfold IsBlank; decide)]
  have hstart : ws (m.element.text ++ c :: more) = m.element.value ++ (m.element.after ++ c :: more) :=
    ws_element hm.ahead (value_head hm.means.value) _
  have hvalue := value_eq (Means.view hm.means hn) (stops_append hm.after hstops)
  have hafter : ws (m.element.after ++ c :: more) = c :: more := by rw [ws_append hm.after, ws_cons hblank]
  rw [ws_member hm.before, fieldsLoop, string_eq hdenotes hvalid hnonzero hfits, hcs]
  dsimp only
  rw [hkeys.find hk]
  dsimp only
  rw [hout, if_neg (by decide), hcolon]
  dsimp only
  rw [if_neg (by decide), hstart, hvalue]
  dsimp only
  rw [hafter, take_view]

/-- The loop of `fields` over all members. -/
theorem fieldsLoop_members (hkeys : Table keys) (hn : n ≤ depthMax - 1) {present : List (String × Tree)} {ms : List Member}
    (hms : List.Forall₂ (fun e m => Entry n e.1 e.2 m) present ms) (hne : ms ≠ [])
    (hmem : ∀ e ∈ present, e.1 ∈ keys) (hnodup : (present.map Prod.fst).Nodup) {out : Views}
    (hout : ∀ e ∈ present, out e.1 = none) {left : ℕ} (hleft : (ws (commas (ms.map Member.text) ++ [125])).length < left) :
    ∃ f, fieldsLoop keys left out (ws (commas (ms.map Member.text) ++ [125])) = some f ∧
      (∀ k, (∀ e ∈ present, e.1 ≠ k) → f k = out k) ∧ ∀ e ∈ present, Shows n (some e.2) (f e.1) := by
  induction hms generalizing out left with
  | nil => exact absurd rfl hne
  | @cons e m present ms hm hms ih =>
    obtain ⟨hk,hmem⟩ := List.forall_mem_cons.mp hmem
    obtain ⟨houtk,hout⟩ := List.forall_mem_cons.mp hout
    rw [List.map_cons, List.nodup_cons] at hnodup
    have hother : ∀ x ∈ present, x.1 ≠ e.1 := fun x hx heq => hnodup.1 (heq ▸ List.mem_map_of_mem hx)
    cases left with
    | zero => cases hleft
    | succ left =>
      cases hms with
      | nil =>
        rw [List.map_singleton, commas_singleton, fieldsLoop_member hkeys hn hk hm houtk left (Or.inl rfl), if_pos rfl,
          if_pos rfl]
        refine ⟨_,rfl,fun k hne => Function.update_of_ne (hne e List.mem_cons_self).symm _ _,fun x hx => ?_⟩
        obtain rfl := List.mem_singleton.mp hx
        rw [Function.update_self]
        exact .some hm.means
      | @cons e' m' present ms hm' hms =>
        rw [List.map_cons, List.map_cons, commas_cons, List.append_assoc, List.cons_append] at hleft ⊢
        rw [fieldsLoop_member hkeys hn hk hm houtk left (Or.inr rfl), if_neg (by decide), if_pos rfl, ← List.map_cons]
        have hshorter := List.length_dropWhile_le isWs (commas (Member.text m' :: ms.map Member.text) ++ [125])
        rw [ws_member hm.before] at hleft
        have hfree : ∀ x ∈ e' :: present, Function.update out e.1 (some m.element.value) x.1 = none := fun x hx => by
          rw [Function.update_of_ne (hother x hx)]
          exact hout x hx
        have henough : (ws (commas ((m' :: ms).map Member.text) ++ [125])).length < left := by
          simp only [List.length_append, List.length_cons, List.map_cons, ws] at hleft hshorter ⊢
          omega
        obtain ⟨f,hf,hkeep,hshow⟩ := ih (List.cons_ne_nil _ _) hmem hnodup.2 hfree henough
        refine ⟨f,hf,fun k hne => ?_,fun x hx => ?_⟩
        · obtain ⟨hfirst,hrest⟩ := List.forall_mem_cons.mp hne
          rw [hkeep k hrest, Function.update_of_ne hfirst.symm]
        · rcases List.mem_cons.mp hx with rfl | hx
          · rw [hkeep _ hother, Function.update_self]
            exact .some hm.means
          · exact hshow x hx

/-- The members of a list that have a tree. -/
def present (fs : List (String × Option Tree)) : List (String × Tree) := fs.filterMap fun f => f.2.map (f.1,·)

theorem mem_present {fs : List (String × Option Tree)} {e : String × Tree} : e ∈ present fs ↔ (e.1,some e.2) ∈ fs := by
  rw [present, List.mem_filterMap]
  constructor
  · rintro ⟨⟨k,t⟩,hf,hmap⟩
    obtain ⟨t',rfl,rfl⟩ := Option.map_eq_some_iff.mp hmap
    exact hf
  · exact fun h => ⟨_,h,rfl⟩

theorem nodup_present {fs : List (String × Option Tree)} (hnodup : (fs.map Prod.fst).Nodup) :
    ((present fs).map Prod.fst).Nodup := by
  refine List.Nodup.sublist ?_ hnodup
  induction fs with
  | nil => exact List.Sublist.refl _
  | cons e fs ih =>
    rw [List.map_cons, List.nodup_cons] at hnodup
    obtain ⟨k,t⟩ := e
    cases t with
    | none => exact (ih hnodup.2).cons k
    | some t => exact (ih hnodup.2).cons_cons k

theorem lookup_of_mem {fs : List (String × Option Tree)} (hnodup : (fs.map Prod.fst).Nodup) {k : String} {t : Option Tree}
    (h : (k,t) ∈ fs) : fs.lookup k = some t := by
  induction fs with
  | nil => cases h
  | cons e fs ih =>
    obtain ⟨key,t'⟩ := e
    rw [List.map_cons, List.nodup_cons] at hnodup
    rcases List.mem_cons.mp h with heq | h
    · obtain ⟨rfl,rfl⟩ := Prod.mk.inj heq
      exact List.lookup_cons_self
    · have hne : (k == key) = false := beq_false_of_ne fun heq => hnodup.1 (heq ▸ List.mem_map.mpr ⟨_,h,rfl⟩)
      rw [List.lookup_cons, hne]
      exact ih hnodup.2 h

theorem forall₂_of_map {α β γ : Type} {P : α → β → Prop} {g : α → γ} {h : β → γ} {xs : List α} {ys : List β}
    (heq : xs.map g = ys.map h) (hP : ∀ x, ∀ y ∈ ys, g x = h y → P x y) : List.Forall₂ P xs ys := by
  induction ys generalizing xs with
  | nil =>
    rw [List.map_nil, List.map_eq_nil_iff] at heq
    rw [heq]
    exact .nil
  | cons y ys ih =>
    obtain ⟨x,xs,rfl,hx,hxs⟩ := List.map_eq_cons_iff.mp heq
    exact .cons (hP x y List.mem_cons_self hx) (ih hxs fun x y hy => hP x y (List.mem_cons_of_mem _ hy))

/-- The views of an object's members are those that its list says. -/
theorem fields_objectOf (hkeys : Table keys) (hn : n ≤ depthMax - 1) {fs : List (String × Option Tree)}
    (hmem : ∀ e ∈ fs, e.1 ∈ keys) (hnodup : (fs.map Prod.fst).Nodup) {v : View} (h : Shows (n + 1) (some (objectOf fs)) v) :
    ∃ f, fields keys v = some f ∧ ShowsAll n fs f := by
  have hpresent : objectOf fs = .object ((present fs).map fun e => (I2cJson.text e.1,e.2)) := by
    rw [objectOf, present, List.map_filterMap]
    simp only [Option.map_map]
    rfl
  have hall : ∀ f : Views, (∀ k, (∀ e ∈ present fs, e.1 ≠ k) → f k = none) →
      (∀ e ∈ present fs, Shows n (some e.2) (f e.1)) → ShowsAll n fs f := by
    intro f hkeep hshow k
    cases hlookup : fs.lookup k with
    | none =>
      rw [hkeep k fun e he heq => ?_]
      · exact .none
      · rw [← heq, lookup_of_mem hnodup (mem_present.mp he)] at hlookup
        cases hlookup
    | some t =>
      cases t with
      | none =>
        rw [hkeep k fun e he heq => ?_]
        · exact .none
        · rw [← heq, lookup_of_mem hnodup (mem_present.mp he)] at hlookup
          cases hlookup
      | some t =>
        obtain ⟨before,after,hfs,-⟩ := List.lookup_eq_some_iff.mp hlookup
        exact hshow (k,t) (mem_present.mpr (by rw [hfs]; simp))
  obtain ⟨view,rfl,hmeans⟩ := h.isSome
  rw [hpresent] at hmeans
  generalize hlist : (present fs).map (fun e => (I2cJson.text e.1,e.2)) = trees at hmeans
  generalize htree : Tree.object trees = t at hmeans
  generalize hdepth : n + 1 = depth at hmeans
  cases hmeans with
  | emptyObject hblank =>
    obtain rfl := Tree.object.inj htree
    have hnil : present fs = [] := List.map_eq_nil_iff.mp hlist
    rename_i depth blank
    have hws : ws (blank ++ [125]) = [125] := by rw [ws_append hblank, ws_cons (by unfold IsBlank; decide)]
    refine ⟨noViews,?_,hall _ (fun _ _ => rfl) fun e he => ?_⟩
    · rw [fields, if_neg (by decide), hws]
      rfl
    · rw [hnil] at he
      cases he
  | object hne hblank hname hvalue =>
    rename_i depth ms
    obtain rfl := Tree.object.inj htree
    obtain rfl := Nat.succ.inj hdepth
    have hentries : List.Forall₂ (fun e m => Entry n e.1 e.2 m) (present fs) (ms.map Prod.snd) := by
      rw [List.forall₂_map_right_iff]
      refine forall₂_of_map hlist fun e m hm heq => ?_
      obtain ⟨hbefore,hmiddle,hahead,hafter⟩ := hblank m hm
      obtain ⟨hname',hmeans⟩ := And.intro (hname m hm) (hvalue m hm)
      rw [← heq] at hname' hmeans
      exact ⟨hbefore,hmiddle,hahead,hafter,hname',hmeans⟩
    have htexts : ms.map (fun m => m.2.text) = (ms.map Prod.snd).map Member.text := by rw [List.map_map]; rfl
    have hhead : ∃ tail, ws (commas (ms.map fun m => m.2.text) ++ [125]) = 34 :: tail := by
      obtain ⟨m,ms,rfl⟩ := List.exists_cons_of_ne_nil hne
      obtain ⟨more,hmore⟩ := commas_append m.2.text (ms.map fun m => m.2.text)
      rw [List.map_cons, hmore, List.append_assoc, ws_member (hblank m List.mem_cons_self).1]
      exact ⟨_,rfl⟩
    obtain ⟨tail,htail⟩ := hhead
    have hfree : ∀ e ∈ present fs, noViews e.1 = none := fun _ _ => rfl
    obtain ⟨f,hf,hkeep,hshow⟩ := fieldsLoop_members hkeys hn hentries (by simpa using hne)
      (fun e he => hmem _ (mem_present.mp he)) (nodup_present hnodup) hfree
      (Nat.lt_succ_of_le (List.length_dropWhile_le isWs (commas ((ms.map Prod.snd).map Member.text) ++ [125])))
    refine ⟨f,?_,hall f hkeep hshow⟩
    have hopen : ¬(34 :: tail : Bytes).head? = some 125 := by simp
    rw [fields, if_neg (by decide), htail, if_neg hopen, ← htail, htexts]
    exact hf
  | _ => cases htree

end

/-! ## Arrays -/

section
variable {n : ℕ}

theorem itemAt_element (hn : n ≤ depthMax - 1) {t : Tree} {e : Element} (hbefore : Blank e.before) (hafter : Blank e.after)
    (hmeans : Means Denoting n t e.value) {c : UInt8} (hc : c = 93 ∨ c = 44) (more : Bytes) :
    itemAt (e.text ++ c :: more) = .found e.value (e.after ++ c :: more) := by
  have hstops : Stops (c :: more) := by
    rcases hc with rfl | rfl
    · exact stops_closing false more
    · exact stops_comma more
  have hstart := ws_element hbefore (value_head hmeans.value) (c :: more)
  have hvalue := value_eq (Means.view hmeans hn) (stops_append hafter hstops)
  have htake := take_view e.value (e.after ++ c :: more)
  obtain ⟨b,tail,hb,-⟩ := value_head hmeans.value
  have hbracket : b ≠ 93 := value_head_closing (hb ▸ hmeans.value)
  rw [hb, List.cons_append] at hstart hvalue htake
  rw [itemAt, hstart]
  dsimp only
  rw [if_neg hbracket, hvalue]
  dsimp only
  rw [htake, hb]

theorem item_first (p : Bytes) : item (some (91 :: p)) none = itemAt p := by
  rw [item, List.head?_cons, if_pos rfl, List.drop_one, List.tail_cons]

theorem item_comma (array : Bytes) {after : Bytes} (hafter : Blank after) (more : Bytes) :
    item (some array) (some (after ++ 44 :: more)) = itemAt more := by
  have hws : ws (after ++ 44 :: more) = 44 :: more := by rw [ws_append hafter, ws_cons not_blank_comma]
  rw [item, hws]
  rfl

theorem item_bracket (array : Bytes) {after : Bytes} (hafter : Blank after) :
    item (some array) (some (after ++ [93])) = .done := by
  have hblank : ¬IsBlank 93 := not_blank_closing false
  have hws : ws (after ++ [93]) = [93] := by rw [ws_append hafter, ws_cons hblank]
  rw [item, hws]
  rfl

theorem length_commas (ts : List Bytes) : ts.length ≤ (commas ts).length + 1 := by
  induction ts with
  | nil => exact Nat.zero_le _
  | cons t ts ih =>
    cases ts with
    | nil => exact Nat.succ_le_succ (Nat.zero_le _)
    | cons u ts =>
      rw [commas_cons, List.length_append, List.length_cons, List.length_cons]
      rw [List.length_cons] at ih ⊢
      omega

section
variable {α σ : Type} {step : σ → Bytes → Except Status σ} {tree : α → Tree} (acc : List α → σ)

/-- The loop from an element on. -/
theorem itemsLoop_elements (hn : n ≤ depthMax - 1) (array : Bytes) {xs : List α} {es : List (Tree × Element)}
    (hes : List.Forall₂ (fun x e => Blank e.2.before ∧ Blank e.2.after ∧ Means Denoting n (tree x) e.2.value) xs es)
    (hne : es ≠ []) (pre : List α)
    (hstep : ∀ front x back, xs = front ++ x :: back → ∀ v, Means Denoting n (tree x) v →
      step (acc (pre ++ front)) v = .ok (acc (pre ++ front ++ [x]))) {cursor : View}
    (hcursor : item (some array) cursor = itemAt (commas (es.map fun e => e.2.text) ++ [93])) {left : ℕ}
    (hleft : es.length < left) : itemsLoop step (some array) left (acc pre) cursor = .ok (acc (pre ++ xs)) := by
  induction hes generalizing pre cursor left with
  | nil => exact absurd rfl hne
  | @cons x e xs es he hes ih =>
    obtain ⟨hbefore,hafter,hmeans⟩ := he
    have hfirst := hstep [] x xs rfl _ hmeans
    rw [List.append_nil] at hfirst
    obtain ⟨left,rfl⟩ := Nat.exists_eq_succ_of_ne_zero (Nat.ne_zero_of_lt hleft)
    cases hes with
    | nil =>
      obtain ⟨left,rfl⟩ := Nat.exists_eq_succ_of_ne_zero (by rintro rfl; simp at hleft : left ≠ 0)
      rw [List.map_singleton, commas_singleton, itemAt_element hn hbefore hafter hmeans (Or.inl rfl)] at hcursor
      rw [itemsLoop, hcursor]
      dsimp only
      rw [hfirst, Except.bind, itemsLoop, item_bracket array hafter]
    | @cons y e' xs es he' hes =>
      rw [List.map_cons, List.map_cons, commas_cons, List.append_assoc, List.cons_append,
        itemAt_element hn hbefore hafter hmeans (Or.inr rfl)] at hcursor
      rw [itemsLoop, hcursor]
      dsimp only
      rw [hfirst, Except.bind]
      have hmore := ih (List.cons_ne_nil _ _) (pre ++ [x])
        (fun front z back hsplit v hv => by
          have hz := hstep (x :: front) z back (by rw [hsplit]; rfl) v hv
          simpa using hz)
        (item_comma array hafter _) (Nat.lt_of_succ_lt_succ hleft)
      rw [List.append_assoc] at hmore
      exact hmore

/-- A loop over an array whose elements are those of a list, one step for each. -/
theorem items_array (hn : n ≤ depthMax - 1) {xs : List α} {v : View}
    (hstep : ∀ front x back, xs = front ++ x :: back → ∀ v, Means Denoting n (tree x) v →
      step (acc front) v = .ok (acc (front ++ [x])))
    (h : Shows (n + 1) (some (.array (xs.map tree))) v) : items step v (acc []) = .ok (acc xs) := by
  obtain ⟨view,rfl,hmeans⟩ := h.isSome
  generalize hlist : xs.map tree = trees at hmeans
  generalize htree : Tree.array trees = t at hmeans
  generalize hdepth : n + 1 = depth at hmeans
  cases hmeans with
  | emptyArray hblank =>
    obtain rfl := Tree.array.inj htree
    obtain rfl := List.map_eq_nil_iff.mp hlist
    rename_i depth blank
    have hws : ws (blank ++ [93]) = [93] := by rw [ws_append hblank, ws_cons (by unfold IsBlank; decide)]
    rw [items, itemsLoop, item_first, itemAt, hws]
    rfl
  | array hne hblank hvalue =>
    rename_i depth es
    obtain rfl := Tree.array.inj htree
    obtain rfl := Nat.succ.inj hdepth
    have hes : List.Forall₂ (fun x e => Blank e.2.before ∧ Blank e.2.after ∧ Means Denoting n (tree x) e.2.value) xs es := by
      refine forall₂_of_map hlist fun x e he heq => ?_
      rw [heq]
      exact ⟨(hblank e he).1,(hblank e he).2,hvalue e he⟩
    refine itemsLoop_elements acc hn _ hes hne [] hstep ?_ ?_
    · exact item_first _
    · have hlength := length_commas (es.map fun e => e.2.text)
      rw [List.length_map] at hlength
      simp only [Option.getD_some, List.length_cons, List.length_append]
      omega
  | _ => cases htree

end

theorem emptyArray_shows {v : View} (h : Shows (n + 1) (some (.array [])) v) : emptyArray v = true := by
  obtain ⟨view,rfl,hmeans⟩ := h.isSome
  generalize hlist : ([] : List Tree) = trees at hmeans
  generalize htree : Tree.array trees = t at hmeans
  cases hmeans with
  | emptyArray hblank =>
    rename_i blank
    have hws : ws (blank ++ [93]) = [93] := by rw [ws_append hblank, ws_cons (by unfold IsBlank; decide)]
    rw [emptyArray, item_first, itemAt, hws]
    rfl
  | array hne hblank hvalue =>
    rw [← hlist] at htree
    exact absurd (List.map_eq_nil_iff.mp (Tree.array.inj htree).symm) hne
  | _ => cases htree

theorem emptyArray_none : emptyArray none = true := rfl

end

/-! ## Documents -/

/-- The view of a document is the object on top. -/
theorem document_means {fs : List (String × Option Tree)} {json before view after : Bytes} (hbefore : Blank before)
    (hafter : Blank after) (h : Means Denoting depthMax (objectOf fs) view) (htext : json = before ++ (view ++ after))
    (hlength : json.length ≤ profileJsonMax) : document json = some view := by
  have hvalue := value_eq h.value (stops_blank hafter)
  have hhead : view.head? = some 123 := by
    generalize htree : objectOf fs = t at h
    cases h with
    | emptyObject => rfl
    | object => rfl
    | _ => cases htree
  obtain ⟨tail,rfl⟩ : ∃ tail, view = 123 :: tail := by
    cases view with
    | nil => cases hhead
    | cons b tail => exact ⟨tail,by rw [Option.some.inj hhead]⟩
  have hnul : json.takeWhile (· != 0) = json := by
    apply takeWhile_nonzero
    rw [htext, List.mem_append, List.mem_append, not_or, not_or]
    exact ⟨blank_nonzero hbefore,value_nonzero h.value,blank_nonzero hafter⟩
  have hws : ws (before ++ (123 :: tail ++ after)) = 123 :: tail ++ after := by
    rw [ws_append hbefore, List.cons_append, ws_cons not_blank_brace]
  unfold document
  dsimp only
  rw [hnul, if_neg (Nat.not_lt_of_le hlength), htext, hws, if_pos (by simp), hvalue]
  dsimp only
  rw [if_pos (ws_eq_nil.mpr hafter), take_view]

end Bvstk.Config.Profile
