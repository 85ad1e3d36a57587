import Bvstk.Config.JsonStrings
import Bvstk.Library.PathNames
import Bvstk.Web.HttpInput

/-! # What queries and paths the web interface takes

The two readers accept exactly the texts of their grammars. A query is a list of fields; an accepted
path names something below the root of the volume.
-/
namespace Bvstk.Web.HttpInput
open JsonText (HexDigit)
open PathNames (components join)

/-! ## Encoded texts -/

/-- A text in percent and plus encoding, and the bytes it stands for. -/
inductive Decodes : Text → Text → Prop
  | nil : Decodes [] []
  | plain {c : UInt8} {raw out : Text} (hpercent : c ≠ percent) (hplus : c ≠ plus) (hrest : Decodes raw out) :
      Decodes (c :: raw) (c :: out)
  | plus {raw out : Text} (hrest : Decodes raw out) : Decodes (plus :: raw) (blank :: out)
  | escape {a b : UInt8} {x y : ℕ} {raw out : Text} (ha : HexDigit a x) (hb : HexDigit b y) (hrest : Decodes raw out) :
      Decodes (percent :: a :: b :: raw) (UInt8.ofNat (16 * x + y) :: out)

/-- Bytes without control characters that fit a buffer of `cap` bytes with their NUL. -/
def Storable (cap : ℕ) (out : Text) : Prop := out.length < cap ∧ ∀ c ∈ out, isControl c = false

theorem hex_toNat (c : UInt8) : (hex c).map UInt8.toNat = Config.hexDigit c := by
  unfold hex Config.hexDigit Config.digit
  simp only [decide_eq_true_eq]
  split
  · rename_i hc
    rw [Option.map_some,UInt8.toNat_sub_of_le _ _ hc.1]
    exact Eq.refl _
  split
  · rename_i hc
    have hhigh : c.toNat ≤ 102 := UInt8.le_iff_toNat_le.1 hc.2
    have hvalue : (c - 97 + 10).toNat = c.toNat - 97 + 10 := by
      rw [UInt8.toNat_add,UInt8.toNat_sub_of_le _ _ hc.1]
      exact Nat.mod_eq_of_lt (show c.toNat - 97 + 10 < 256 by omega)
    rw [Option.map_some,hvalue]
  split
  · rename_i hc
    have hhigh : c.toNat ≤ 70 := UInt8.le_iff_toNat_le.1 hc.2
    have hvalue : (c - 65 + 10).toNat = c.toNat - 65 + 10 := by
      rw [UInt8.toNat_add,UInt8.toNat_sub_of_le _ _ hc.1]
      exact Nat.mod_eq_of_lt (show c.toNat - 65 + 10 < 256 by omega)
    rw [Option.map_some,hvalue]
  · exact Eq.refl _

theorem hex_iff {c : UInt8} {v : ℕ} : HexDigit c v ↔ ∃ x, hex c = some x ∧ x.toNat = v := by
  rw [← Config.hexDigit_iff,← hex_toNat,Option.map_eq_some_iff]

theorem escape_byte {x y : UInt8} (hx : x.toNat < 16) (hy : y.toNat < 16) :
    x <<< 4 ||| y = UInt8.ofNat (16 * x.toNat + y.toNat) := by
  apply UInt8.toNat_inj.1
  have hshift : (x <<< 4).toNat = x.toNat <<< 4 := by
    rw [UInt8.toNat_shiftLeft]
    change x.toNat <<< 4 % 2 ^ 8 = _
    apply Nat.mod_eq_of_lt
    rw [Nat.shiftLeft_eq]
    omega
  rw [UInt8.toNat_or,hshift,← Nat.shiftLeft_add_eq_or_of_lt (show y.toNat < 2 ^ 4 by omega),Nat.shiftLeft_eq,
    UInt8.toNat_ofNat_of_lt' (show 16 * x.toNat + y.toNat < 256 by omega)]
  omega

theorem hexDigit_lt {c : UInt8} {x : ℕ} (h : HexDigit c x) : x < 16 := by
  unfold HexDigit at h
  omega

section Decoding
variable {cap : ℕ} {pre : Text}

theorem storable_nil (hcap : cap ≠ 0) : Storable cap [] :=
  ⟨Nat.pos_of_ne_zero hcap,fun _ hc => nomatch hc⟩

/-- The test before a byte is stored. -/
theorem storable_push (hpre : Storable cap pre) (c : UInt8) :
    Storable cap (pre ++ [c]) ↔ ¬(isControl c = true ∨ cap ≤ pre.length + 1) := by
  rw [Storable,List.length_append,List.length_singleton,not_or,Bool.not_eq_true,Nat.not_le]
  constructor
  · exact fun h => ⟨h.2 c (by simp),h.1⟩
  · rintro ⟨hc,hlength⟩
    refine ⟨hlength,fun b hb => ?_⟩
    rcases List.mem_append.1 hb with hb | hb
    · exact hpre.2 b hb
    · exact List.mem_singleton.1 hb ▸ hc

theorem storable_front {post : Text} (h : Storable cap (pre ++ post)) : Storable cap pre :=
  ⟨(by simp : pre.length ≤ (pre ++ post).length).trans_lt h.1,fun c hc => h.2 c (List.mem_append_left post hc)⟩

theorem decodeLoop_plain {c : UInt8} (hc : c ≠ percent) (raw : Text) : decodeLoop cap pre (c :: raw) =
    if isControl (if c = plus then blank else c) = true ∨ cap ≤ pre.length + 1 then none
    else decodeLoop cap (pre ++ [if c = plus then blank else c]) raw := by
  rw [decodeLoop.eq_def]
  exact if_neg hc

theorem decodeLoop_escape {a b x y : UInt8} (ha : hex a = some x) (hb : hex b = some y) (raw : Text) :
    decodeLoop cap pre (percent :: a :: b :: raw) =
      if isControl (x <<< 4 ||| y) = true ∨ cap ≤ pre.length + 1 then none
      else decodeLoop cap (pre ++ [x <<< 4 ||| y]) raw := by
  rw [decodeLoop.eq_def]
  dsimp only
  rw [if_pos (Eq.refl _),ha,hb]

/-- An escape that is cut off or has no two digits ends the loop. -/
theorem decodeLoop_broken {raw : Text}
    (h : ∀ a b rest x y, raw = a :: b :: rest → hex a = some x → hex b ≠ some y) :
    decodeLoop cap pre (percent :: raw) = none := by
  rw [decodeLoop.eq_def]
  dsimp only
  rw [if_pos (Eq.refl _)]
  split
  · split
    · rename_i hx hy
      exact absurd hy (h _ _ _ _ _ (Eq.refl _) hx)
    · exact Eq.refl _
  · exact Eq.refl _

theorem decodeLoop_complete {raw tail : Text} (hraw : Decodes raw tail) (h : Storable cap (pre ++ tail)) :
    decodeLoop cap pre raw = some (pre ++ tail) := by
  have hpre := storable_front h
  induction hraw generalizing pre with
  | nil =>
    rw [decodeLoop,List.append_nil]
    exact if_neg (Nat.ne_zero_of_lt hpre.1)
  | @plain c raw out hpercent hplus hrest ih =>
    have hnext : Storable cap ((pre ++ [c]) ++ out) := by simpa using h
    have hroom := (storable_push hpre c).1 (storable_front hnext)
    rw [decodeLoop_plain hpercent,if_neg hplus,if_neg hroom,ih hnext (storable_front hnext)]
    simp
  | @plus raw out hrest ih =>
    have hnext : Storable cap ((pre ++ [blank]) ++ out) := by simpa using h
    have hroom := (storable_push hpre blank).1 (storable_front hnext)
    rw [decodeLoop_plain (by decide),if_pos (Eq.refl _),if_neg hroom,ih hnext (storable_front hnext)]
    simp
  | @escape a b x y raw out ha hb hrest ih =>
    obtain ⟨x,hx,rfl⟩ := hex_iff.1 ha
    obtain ⟨y,hy,rfl⟩ := hex_iff.1 hb
    rw [← escape_byte (hexDigit_lt ha) (hexDigit_lt hb)] at h ⊢
    have hnext : Storable cap ((pre ++ [x <<< 4 ||| y]) ++ out) := by simpa using h
    have hroom := (storable_push hpre _).1 (storable_front hnext)
    rw [decodeLoop_escape hx hy,if_neg hroom,ih hnext (storable_front hnext)]
    simp

/-- By the length of the text, as an escape takes three bytes. -/
theorem decodeLoop_sound (n : ℕ) {raw out : Text} (hlength : raw.length ≤ n) (hpre : Storable cap pre)
    (h : decodeLoop cap pre raw = some out) : ∃ tail, out = pre ++ tail ∧ Decodes raw tail ∧ Storable cap out := by
  induction n generalizing raw pre with
  | zero =>
    obtain rfl := List.length_eq_zero_iff.1 (Nat.le_zero.1 hlength)
    rw [decodeLoop,if_neg (Nat.ne_zero_of_lt hpre.1)] at h
    obtain rfl := Option.some.inj h
    exact ⟨[],(List.append_nil _).symm,Decodes.nil,hpre⟩
  | succ n ih =>
    cases raw with
    | nil =>
      rw [decodeLoop,if_neg (Nat.ne_zero_of_lt hpre.1)] at h
      obtain rfl := Option.some.inj h
      exact ⟨[],(List.append_nil _).symm,Decodes.nil,hpre⟩
    | cons c raw =>
      rw [List.length_cons] at hlength
      by_cases hc : c = percent
      · subst hc
        by_cases hraw : ∃ a b rest x y, raw = a :: b :: rest ∧ hex a = some x ∧ hex b = some y
        · obtain ⟨a,b,rest,x,y,rfl,hx,hy⟩ := hraw
          rw [decodeLoop_escape hx hy] at h
          by_cases hroom : isControl (x <<< 4 ||| y) = true ∨ cap ≤ pre.length + 1
          · rw [if_pos hroom] at h
            cases h
          rw [if_neg hroom] at h
          simp only [List.length_cons] at hlength
          obtain ⟨tail,rfl,htail,hout⟩ := ih (by omega) ((storable_push hpre _).2 hroom) h
          have ha : HexDigit a x.toNat := hex_iff.2 ⟨x,hx,Eq.refl _⟩
          have hb : HexDigit b y.toNat := hex_iff.2 ⟨y,hy,Eq.refl _⟩
          refine ⟨(x <<< 4 ||| y) :: tail,by simp,?_,hout⟩
          rw [escape_byte (hexDigit_lt ha) (hexDigit_lt hb)]
          exact Decodes.escape ha hb htail
        · rw [decodeLoop_broken fun a b rest x y heq hx hy => hraw ⟨a,b,rest,x,y,heq,hx,hy⟩] at h
          cases h
      · rw [decodeLoop_plain hc] at h
        by_cases hroom : isControl (if c = plus then blank else c) = true ∨ cap ≤ pre.length + 1
        · rw [if_pos hroom] at h
          cases h
        rw [if_neg hroom] at h
        obtain ⟨tail,rfl,htail,hout⟩ := ih (by omega) ((storable_push hpre _).2 hroom) h
        refine ⟨(if c = plus then blank else c) :: tail,by simp,?_,hout⟩
        by_cases hplus : c = plus
        · rw [if_pos hplus,hplus]
          exact Decodes.plus htail
        · rw [if_neg hplus]
          exact Decodes.plain hc hplus htail

theorem decodeLoop_zero (raw : Text) : decodeLoop 0 pre raw = none := by
  cases raw with
  | nil => exact if_pos (Eq.refl _)
  | cons c raw =>
    by_cases hc : c = percent
    · subst hc
      by_cases hraw : ∃ a b rest x y, raw = a :: b :: rest ∧ hex a = some x ∧ hex b = some y
      · obtain ⟨a,b,rest,x,y,rfl,hx,hy⟩ := hraw
        rw [decodeLoop_escape hx hy]
        exact if_pos (Or.inr (Nat.zero_le _))
      · exact decodeLoop_broken fun a b rest x y heq hx hy => hraw ⟨a,b,rest,x,y,heq,hx,hy⟩
    · rw [decodeLoop_plain hc]
      exact if_pos (Or.inr (Nat.zero_le _))

end Decoding

/-- `decode` finds what the text stands for, if that can be stored. -/
theorem decode_iff {cap : ℕ} {raw out : Text} : decode cap raw = some out ↔ Decodes raw out ∧ Storable cap out := by
  constructor
  · intro h
    have hcap : cap ≠ 0 := by
      rintro rfl
      rw [decode,decodeLoop_zero] at h
      cases h
    obtain ⟨tail,htail,hraw,hout⟩ := decodeLoop_sound raw.length (Nat.le_refl _) (storable_nil hcap) h
    rw [List.nil_append] at htail
    exact ⟨htail ▸ hraw,hout⟩
  · rintro ⟨hraw,hout⟩
    exact @decodeLoop_complete cap [] _ _ hraw hout

/-! ## Fields -/

/-- A field of a query, as it stands in the text. -/
structure Field where
  name : Text
  value : Text

def Field.text (f : Field) : Text := f.name ++ equalsSign :: f.value

/-- The name of the field is `name`, decoded. -/
def Field.Named (f : Field) (name : Text) : Prop := Decodes f.name name

/-- The first `=` ends the name, no `&` stands in the field, and the name can be decoded. -/
structure Field.WellFormed (f : Field) : Prop where
  first : equalsSign ∉ f.name
  whole : ampersand ∉ f.text
  name : ∃ name, f.Named name ∧ Storable nameSize name

/-- A list of fields with `&` between them; one may stand at the end too. -/
inductive Fields : Text → List Field → Prop
  | none : Fields [] []
  | last {f : Field} (hf : f.WellFormed) : Fields f.text [f]
  | more {f : Field} {p : Text} {fs : List Field} (hf : f.WellFormed) (hrest : Fields p fs) :
      Fields (f.text ++ ampersand :: p) (f :: fs)

/-- What stands behind the first question mark. -/
def queryText (url : Text) : Text := (url.dropWhile (· ≠ questionMark)).drop 1

/-- One field is named `key`, and its value is `value`. -/
def OccursOnce (key value : Text) (fs : List Field) : Prop :=
  ∃ pre f post, fs = pre ++ f :: post ∧ f.Named key ∧ Decodes f.value value ∧ ∀ g ∈ pre ++ post, ¬g.Named key

section Cutting
variable {c : UInt8} {front rest text : Text}

theorem other_byte (h : c ∉ front) : ∀ b ∈ front, decide (b ≠ c) = true :=
  fun _ hb => decide_eq_true fun heq => h (heq ▸ hb)

theorem takeWhile_cut (h : c ∉ front) : (front ++ c :: rest).takeWhile (· ≠ c) = front := by
  rw [List.takeWhile_append_of_pos (other_byte h),List.takeWhile_cons_of_neg (by simp),List.append_nil]

theorem dropWhile_cut (h : c ∉ front) : (front ++ c :: rest).dropWhile (· ≠ c) = c :: rest := by
  rw [List.dropWhile_append_of_pos (other_byte h),List.dropWhile_cons_of_neg (by simp)]

theorem takeWhile_whole (h : c ∉ text) : text.takeWhile (· ≠ c) = text := by
  have hall := @List.takeWhile_append_of_pos _ _ _ [] (other_byte h)
  simpa using hall

theorem dropWhile_whole (h : c ∉ text) : text.dropWhile (· ≠ c) = [] := by
  have hall := @List.dropWhile_append_of_pos _ _ _ [] (other_byte h)
  simpa using hall

end Cutting

theorem Decodes.unique {raw out out' : Text} (h : Decodes raw out) (h' : Decodes raw out') : out = out' := by
  induction h generalizing out' with
  | nil =>
    cases h'
    exact Eq.refl _
  | plain hpercent hplus _ ih =>
    cases h' with
    | plain _ _ hrest => rw [ih hrest]
    | plus _ => exact absurd (Eq.refl _) hplus
    | escape _ _ _ => exact absurd (Eq.refl _) hpercent
  | plus _ ih =>
    cases h' with
    | plain _ hplus _ => exact absurd (Eq.refl _) hplus
    | plus hrest => rw [ih hrest]
  | escape ha hb _ ih =>
    cases h' with
    | plain hpercent _ _ => exact absurd (Eq.refl _) hpercent
    | escape ha' hb' hrest =>
      have hx := Option.some.inj ((Config.hexDigit_iff.2 ha).symm.trans (Config.hexDigit_iff.2 ha'))
      have hy := Option.some.inj ((Config.hexDigit_iff.2 hb).symm.trans (Config.hexDigit_iff.2 hb'))
      rw [ih hrest,hx,hy]

theorem fieldName_text {f : Field} (hfirst : equalsSign ∉ f.name) :
    fieldName f.text = (decode nameSize f.name).map (·,f.value) := by
  have hmem : equalsSign ∈ f.text := List.mem_append_right f.name List.mem_cons_self
  rw [fieldName,if_pos hmem,Field.text,takeWhile_cut hfirst,dropWhile_cut hfirst]
  exact Eq.refl _

/-- What `queryField` makes of a well formed field. -/
theorem queryField_named {f : Field} (hf : f.WellFormed) {key : Text} (hkey : f.Named key) (cap : ℕ)
    (found : Option Text) :
    queryField key cap found f.text = if found.isSome = true then none else (decode cap f.value).map some := by
  obtain ⟨name,hname,hstore⟩ := hf.name
  obtain rfl := hname.unique hkey
  rw [queryField,fieldName_text hf.first,decode_iff.2 ⟨hname,hstore⟩]
  exact if_pos (Eq.refl _)

theorem queryField_other {f : Field} (hf : f.WellFormed) {key : Text} (hkey : ¬f.Named key) (cap : ℕ)
    (found : Option Text) : queryField key cap found f.text = some found := by
  obtain ⟨name,hname,hstore⟩ := hf.name
  have hne : name ≠ key := fun heq => hkey (heq ▸ hname)
  rw [queryField,fieldName_text hf.first,decode_iff.2 ⟨hname,hstore⟩]
  exact if_neg hne

/-- What passes for a field is one. -/
theorem queryField_some {key : Text} {cap : ℕ} {found found' : Option Text} {text : Text} (htext : ampersand ∉ text)
    (h : queryField key cap found text = some found') : ∃ f : Field, f.WellFormed ∧ text = f.text := by
  have hmem : equalsSign ∈ text := by
    by_contra hnone
    rw [queryField,fieldName,if_neg hnone] at h
    cases h
  obtain ⟨front,rest,hcut,hfront⟩ := List.eq_append_cons_of_mem hmem
  have hfield : text = (Field.mk front rest).text := hcut
  refine ⟨⟨front,rest⟩,⟨hfront,hfield ▸ htext,?_⟩,hfield⟩
  rw [hfield,queryField,fieldName_text hfront] at h
  cases hname : decode nameSize front with
  | none =>
    rw [hname] at h
    cases h
  | some name => exact ⟨name,decode_iff.1 hname⟩

/-! ## The loop -/

/-- The loop over the fields that are well formed. -/
def searchFields (key : Text) (cap : ℕ) (found : Option Text) (fs : List Field) : Option (Option Text) :=
  fs.foldlM (fun found f => queryField key cap found f.text) found

theorem Field.text_ne_nil (f : Field) : f.text ≠ [] :=
  List.append_ne_nil_of_right_ne_nil _ (List.cons_ne_nil _ _)

theorem queryLoop_cons {key : Text} {cap left : ℕ} {found : Option Text} {p : Text} (hp : p ≠ []) :
    queryLoop key cap (left + 1) found p =
      (queryField key cap found (p.takeWhile (· ≠ ampersand))).bind fun found =>
        queryLoop key cap left found ((p.dropWhile (· ≠ ampersand)).drop 1) := by
  obtain ⟨c,p,rfl⟩ := List.exists_cons_of_ne_nil hp
  rw [queryLoop]
  cases queryField key cap found ((c :: p).takeWhile (· ≠ ampersand)) <;> exact Eq.refl _

theorem queryLoop_nil (key : Text) (cap left : ℕ) (found : Option Text) : queryLoop key cap left found [] = some found := by
  rw [queryLoop]

theorem queryLoop_eq {key : Text} {cap : ℕ} {p : Text} {fs : List Field} (hfs : Fields p fs) {left : ℕ}
    (hleft : p.length ≤ left) (found : Option Text) :
    queryLoop key cap left found p = searchFields key cap found fs := by
  induction hfs generalizing left found with
  | none => exact queryLoop_nil key cap left found
  | @last f hf =>
    obtain ⟨left,rfl⟩ := Nat.exists_eq_succ_of_ne_zero
      (Nat.ne_zero_of_lt ((List.length_pos_of_ne_nil f.text_ne_nil).trans_le hleft))
    rw [queryLoop_cons f.text_ne_nil,takeWhile_whole hf.whole,dropWhile_whole hf.whole,searchFields,List.foldlM_cons]
    apply congrArg (Option.bind _)
    funext found
    rw [List.drop_nil,queryLoop_nil]
    exact Eq.refl _
  | @more f p fs hf _ ih =>
    have hne : f.text ++ ampersand :: p ≠ [] := List.append_ne_nil_of_left_ne_nil f.text_ne_nil _
    obtain ⟨left,rfl⟩ := Nat.exists_eq_succ_of_ne_zero
      (Nat.ne_zero_of_lt ((List.length_pos_of_ne_nil hne).trans_le hleft))
    rw [queryLoop_cons hne,takeWhile_cut hf.whole,dropWhile_cut hf.whole,searchFields,List.foldlM_cons]
    apply congrArg (Option.bind _)
    funext found
    apply ih
    simp only [List.length_append,List.length_cons] at hleft
    omega

theorem queryLoop_some {key : Text} {cap left : ℕ} {found found' : Option Text} {p : Text}
    (h : queryLoop key cap left found p = some found') : ∃ fs, Fields p fs := by
  induction left generalizing found p with
  | zero =>
    cases p with
    | nil => exact ⟨[],Fields.none⟩
    | cons c p => cases h
  | succ left ih =>
    by_cases hp : p = []
    · rw [hp]
      exact ⟨[],Fields.none⟩
    rw [queryLoop_cons hp] at h
    obtain ⟨mid,hfield,hrest⟩ := Option.bind_eq_some_iff.1 h
    by_cases hmem : ampersand ∈ p
    · obtain ⟨front,rest,rfl,hfront⟩ := List.eq_append_cons_of_mem hmem
      rw [takeWhile_cut hfront] at hfield
      rw [dropWhile_cut hfront] at hrest
      obtain ⟨f,hf,rfl⟩ := queryField_some hfront hfield
      obtain ⟨fs,hfs⟩ := ih hrest
      exact ⟨f :: fs,Fields.more hf hfs⟩
    · rw [takeWhile_whole hmem] at hfield
      obtain ⟨f,hf,rfl⟩ := queryField_some hmem hfield
      exact ⟨[f],Fields.last hf⟩

/-! ## What the loop finds -/

section Search
variable {key : Text} {cap : ℕ} {fs : List Field} (hfs : ∀ f ∈ fs, f.WellFormed)
include hfs

theorem searchFields_absent (found : Option Text) (habsent : ∀ f ∈ fs, ¬f.Named key) :
    searchFields key cap found fs = some found := by
  induction fs with
  | nil => exact Eq.refl _
  | cons f fs ih =>
    obtain ⟨hf,hfs⟩ := List.forall_mem_cons.1 hfs
    obtain ⟨hname,habsent⟩ := List.forall_mem_cons.1 habsent
    rw [searchFields,List.foldlM_cons,queryField_other hf hname]
    exact ih hfs habsent

/-- A second field of the name is refused. -/
theorem searchFields_found {value : Text} {result : Option Text} :
    searchFields key cap (some value) fs = some result ↔ (∀ f ∈ fs, ¬f.Named key) ∧ result = some value := by
  constructor
  · intro h
    induction fs with
    | nil => exact ⟨List.forall_mem_nil _,(Option.some.inj h).symm⟩
    | cons f fs ih =>
      obtain ⟨hf,hfs⟩ := List.forall_mem_cons.1 hfs
      rw [searchFields,List.foldlM_cons] at h
      by_cases hname : f.Named key
      · rw [queryField_named hf hname] at h
        cases h
      · rw [queryField_other hf hname] at h
        obtain ⟨habsent,hresult⟩ := ih hfs h
        exact ⟨List.forall_mem_cons.2 ⟨hname,habsent⟩,hresult⟩
  · rintro ⟨habsent,rfl⟩
    exact searchFields_absent hfs _ habsent

theorem searchFields_none : searchFields key cap none fs = some none ↔ ∀ f ∈ fs, ¬f.Named key := by
  constructor
  · intro h
    induction fs with
    | nil => exact fun _ hf => nomatch hf
    | cons f fs ih =>
      obtain ⟨hf,hfs⟩ := List.forall_mem_cons.1 hfs
      rw [searchFields,List.foldlM_cons] at h
      by_cases hname : f.Named key
      · rw [queryField_named hf hname] at h
        obtain ⟨mid,hmid,hrest⟩ := Option.bind_eq_some_iff.1 h
        obtain ⟨value,-,rfl⟩ := Option.map_eq_some_iff.1 hmid
        cases ((searchFields_found hfs).1 hrest).2
      · rw [queryField_other hf hname] at h
        exact List.forall_mem_cons.2 ⟨hname,ih hfs h⟩
  · exact searchFields_absent hfs none

theorem searchFields_some {value : Text} : searchFields key cap none fs = some (some value) ↔
    OccursOnce key value fs ∧ Storable cap value := by
  constructor
  · intro h
    induction fs with
    | nil => cases h
    | cons f fs ih =>
      obtain ⟨hf,hfs⟩ := List.forall_mem_cons.1 hfs
      rw [searchFields,List.foldlM_cons] at h
      by_cases hname : f.Named key
      · rw [queryField_named hf hname] at h
        obtain ⟨mid,hmid,hrest⟩ := Option.bind_eq_some_iff.1 h
        obtain ⟨found,hfound,rfl⟩ := Option.map_eq_some_iff.1 hmid
        obtain ⟨habsent,heq⟩ := (searchFields_found hfs).1 hrest
        obtain rfl := Option.some.inj heq
        obtain ⟨hvalue,hstore⟩ := decode_iff.1 hfound
        exact ⟨⟨[],f,fs,Eq.refl _,hname,hvalue,habsent⟩,hstore⟩
      · rw [queryField_other hf hname] at h
        obtain ⟨⟨pre,g,post,rfl,hg,hvalue,habsent⟩,hstore⟩ := ih hfs h
        exact ⟨⟨f :: pre,g,post,Eq.refl _,hg,hvalue,List.forall_mem_cons.2 ⟨hname,habsent⟩⟩,hstore⟩
  · rintro ⟨⟨pre,f,post,rfl,hname,hvalue,habsent⟩,hstore⟩
    obtain ⟨hpre,hrest⟩ := List.forall_mem_append.1 hfs
    obtain ⟨hf,hpost⟩ := List.forall_mem_cons.1 hrest
    obtain ⟨hbefore,hafter⟩ := List.forall_mem_append.1 habsent
    have hfirst := @searchFields_absent key cap _ hpre none hbefore
    have hlast := @searchFields_absent key cap _ hpost (some value) hafter
    rw [searchFields] at hfirst hlast ⊢
    rw [List.foldlM_append,hfirst]
    change (do let found ← queryField key cap none f.text; post.foldlM _ found) = _
    rw [queryField_named hf hname,decode_iff.2 ⟨hvalue,hstore⟩]
    exact hlast

end Search

theorem Fields.wellFormed {p : Text} {fs : List Field} (h : Fields p fs) : ∀ f ∈ fs, f.WellFormed := by
  induction h with
  | none => exact fun _ hf => nomatch hf
  | last hf => exact List.forall_mem_singleton.2 hf
  | more hf _ ih => exact List.forall_mem_cons.2 ⟨hf,ih⟩

theorem query_eq {cap : ℕ} (hcap : 0 < cap) (url key : Text) :
    query url key cap = queryLoop key cap (queryText url).length none (queryText url) := by
  rw [query,if_neg (Nat.pos_iff_ne_zero.1 hcap),queryText]
  cases url.dropWhile (· ≠ questionMark) with
  | nil => exact (queryLoop_nil key cap _ none).symm
  | cons c p => exact Eq.refl _

section Query
variable {cap : ℕ} (hcap : 0 < cap) (url key : Text)
include hcap

theorem query_some (value : Text) : query url key cap = some (some value) ↔
    ∃ fs, Fields (queryText url) fs ∧ OccursOnce key value fs ∧ Storable cap value := by
  rw [query_eq hcap]
  constructor
  · intro h
    obtain ⟨fs,hfs⟩ := queryLoop_some h
    rw [queryLoop_eq hfs (Nat.le_refl _)] at h
    exact ⟨fs,hfs,(searchFields_some hfs.wellFormed).1 h⟩
  · rintro ⟨fs,hfs,hfound⟩
    rw [queryLoop_eq hfs (Nat.le_refl _)]
    exact (searchFields_some hfs.wellFormed).2 hfound

theorem query_none : query url key cap = some none ↔ ∃ fs, Fields (queryText url) fs ∧ ∀ f ∈ fs, ¬f.Named key := by
  rw [query_eq hcap]
  constructor
  · intro h
    obtain ⟨fs,hfs⟩ := queryLoop_some h
    rw [queryLoop_eq hfs (Nat.le_refl _)] at h
    exact ⟨fs,hfs,(searchFields_none hfs.wellFormed).1 h⟩
  · rintro ⟨fs,hfs,habsent⟩
    rw [queryLoop_eq hfs (Nat.le_refl _)]
    exact (searchFields_none hfs.wellFormed).2 habsent

end Query

/-! ## Paths -/

/-- A name that FAT takes as it is. -/
structure ValidName (name : Text) : Prop where
  length : 1 ≤ name.length ∧ name.length ≤ 63
  noDots : name ≠ [dot] ∧ name ≠ [dot,dot]
  lastByte : name.getLast? ≠ some blank ∧ name.getLast? ≠ some dot
  bytes : ∀ c ∈ name, isControl c = false ∧ c ∉ reserved ∧ c ≠ slash

theorem ValidName.isName {name : Text} (h : ValidName name) : PathNames.IsName slash name :=
  ⟨List.ne_nil_of_length_pos h.length.1,fun hmem => (h.bytes slash hmem).2.2 (Eq.refl _)⟩

/-- An absolute path of valid names; the root has none. -/
structure ValidPath (p : Text) (names : List Text) : Prop where
  absolute : p = slash :: join slash names
  length : p.length ≤ 120
  names : ∀ name ∈ names, ValidName name

def dots : PathNames.Dots UInt8 := ⟨[dot],[dot,dot]⟩

theorem componentEnds_iff {name : Text} : componentEnds name = true ↔ (1 ≤ name.length ∧ name.length ≤ 63) ∧
    (name ≠ [dot] ∧ name ≠ [dot,dot]) ∧ name.getLast? ≠ some blank ∧ name.getLast? ≠ some dot := by
  have hne : name ≠ [] ↔ 1 ≤ name.length := (List.length_pos_iff).symm
  rw [componentEnds,decide_eq_true_eq,hne]
  tauto

theorem pathLoop_iff {component : Text} (hslash : slash ∉ component) (p : Text) : pathLoop component p = true ↔
    (∀ c ∈ p, c ≠ slash → isControl c = false ∧ c ∉ reserved) ∧
      ∀ part ∈ components slash (component ++ p), componentEnds part = true := by
  induction p generalizing component with
  | nil =>
    rw [pathLoop,List.append_nil,PathNames.components_single hslash]
    simp
  | cons c p ih =>
    rw [pathLoop]
    by_cases hc : c = slash
    · subst hc
      rw [if_pos (Eq.refl _),Bool.and_eq_true,ih List.not_mem_nil,PathNames.components_append,
        PathNames.components_single hslash,List.nil_append]
      simp only [List.forall_mem_cons,List.forall_mem_append]
      tauto
    · have hnext : slash ∉ component ++ [c] := by
        simp only [List.mem_append,List.mem_singleton,not_or]
        exact ⟨hslash,Ne.symm hc⟩
      rw [if_neg hc]
      by_cases hbad : isControl c = true ∨ c ∈ reserved
      · rw [if_pos hbad]
        simp only [Bool.false_eq_true,false_iff]
        rintro ⟨hbytes,-⟩
        obtain ⟨hcontrol,hreserved⟩ := hbytes c List.mem_cons_self hc
        rcases hbad with hbad | hbad
        · rw [hcontrol] at hbad
          cases hbad
        · exact hreserved hbad
      · rw [if_neg hbad,ih hnext,List.append_assoc,List.singleton_append,List.forall_mem_cons]
        have hgood : c ≠ slash → isControl c = false ∧ c ∉ reserved :=
          fun _ => ⟨Bool.eq_false_iff.2 fun h => hbad (Or.inl h),fun h => hbad (Or.inr h)⟩
        tauto

theorem path_iff (p : Text) : path p = true ↔ ∃ names, ValidPath p names := by
  cases p with
  | nil =>
    simp only [path,Bool.false_eq_true,false_iff]
    rintro ⟨names,habsolute,-,-⟩
    cases habsolute
  | cons c p =>
    rw [path]
    by_cases hfront : c ≠ slash ∨ 120 < (c :: p).length
    · rw [if_pos hfront]
      simp only [Bool.false_eq_true,false_iff]
      rintro ⟨names,habsolute,hlength,-⟩
      rcases hfront with hc | hlong
      · exact hc (List.cons.inj habsolute).1
      · exact absurd hlength (Nat.not_le.2 hlong)
    rw [if_neg hfront]
    obtain ⟨hc,hlength⟩ := not_or.1 hfront
    obtain rfl := Decidable.not_not.1 hc
    have hlength := Nat.not_lt.1 hlength
    by_cases hp : p = []
    · rw [if_pos hp]
      simp only [true_iff]
      exact ⟨[],by rw [hp]; exact Eq.refl _,hlength,fun _ hn => nomatch hn⟩
    rw [if_neg hp,pathLoop_iff List.not_mem_nil,List.nil_append]
    constructor
    · rintro ⟨hbytes,hparts⟩
      refine ⟨components slash p,by rw [PathNames.join_components],hlength,fun name hname => ?_⟩
      obtain ⟨hlen,hdots,hlast⟩ := componentEnds_iff.1 (hparts name hname)
      refine ⟨hlen,hdots,hlast,fun b hb => ?_⟩
      have hb' : b ≠ slash := fun heq => PathNames.not_mem_components p name hname (heq ▸ hb)
      obtain ⟨hcontrol,hreserved⟩ := hbytes b ((PathNames.mem_components_iff hb').1 ⟨name,hname,hb⟩) hb'
      exact ⟨hcontrol,hreserved,hb'⟩
    · rintro ⟨names,habsolute,-,hnames⟩
      obtain rfl : p = join slash names := (List.cons.inj habsolute).2
      have hne : names ≠ [] := by
        rintro rfl
        exact hp (Eq.refl _)
      have hparts := PathNames.components_join hne fun name hname => (hnames name hname).isName
      constructor
      · intro b hb hslash
        obtain ⟨name,hname,hmem⟩ := (PathNames.mem_components_iff hslash).2 hb
        rw [hparts] at hname
        obtain ⟨hcontrol,hreserved,-⟩ := (hnames name hname).bytes b hmem
        exact ⟨hcontrol,hreserved⟩
      · rw [hparts]
        exact fun name hname => componentEnds_iff.2
          ⟨(hnames name hname).length,(hnames name hname).noDots,(hnames name hname).lastByte⟩

/-- No step of the way along an accepted path leads above the directory it starts in. -/
theorem path_confined {p : Text} (h : path p = true) (root : List Text) {parts : List Text}
    (hparts : parts <+: components slash p) : root <+: parts.foldl (PathNames.resolveStep dots) root := by
  obtain ⟨names,rfl,-,hnames⟩ := (path_iff p).1 h
  apply PathNames.foldl_ascends
  rintro part hpart rfl
  have hmem := hparts.subset hpart
  rw [PathNames.components_separator] at hmem
  rcases List.mem_cons.1 hmem with hnil | hmem
  · cases hnil
  by_cases hne : names = []
  · rw [hne,join,components,List.mem_singleton] at hmem
    cases hmem
  · have hisName : ∀ name ∈ names, PathNames.IsName slash name := fun name hname => (hnames name hname).isName
    rw [PathNames.components_join hne hisName] at hmem
    exact (hnames _ hmem).noDots.2 (Eq.refl _)

/-! ## Both readers -/

/-- A query gives the value of the key that occurs once in a list of well formed fields, or that the key
does not occur in one. A path is accepted if it is made of valid names; then it stays below any
directory it starts in. -/
theorem http_input_exact :
    (∀ (url key : Text) (cap : ℕ),
      (∀ value, query url key cap = some (some value) ↔
        ∃ fs, Fields (queryText url) fs ∧ OccursOnce key value fs ∧ Storable cap value) ∧
      (query url key cap = some none ↔
        0 < cap ∧ ∃ fs, Fields (queryText url) fs ∧ ∀ f ∈ fs, ¬f.Named key) ∧
      (query url key cap = none ↔
        (∀ value fs, Fields (queryText url) fs → OccursOnce key value fs → ¬Storable cap value) ∧
        (0 < cap → ∀ fs, Fields (queryText url) fs → ∃ f ∈ fs, f.Named key))) ∧
    (∀ p : Text, path p = true ↔ ∃ names, ValidPath p names) ∧
    (∀ p : Text, path p = true → ∀ root parts, parts <+: components slash p →
      root <+: parts.foldl (PathNames.resolveStep dots) root) := by
  refine ⟨fun url key cap => ?_,path_iff,fun p hp root parts => path_confined hp root⟩
  have hsome : ∀ value, query url key cap = some (some value) ↔
      ∃ fs, Fields (queryText url) fs ∧ OccursOnce key value fs ∧ Storable cap value := by
    intro value
    rcases Nat.eq_zero_or_pos cap with rfl | hcap
    · constructor
      · exact fun h => nomatch h
      · exact fun ⟨_,_,_,hstore⟩ => absurd hstore.1 (Nat.not_lt_zero _)
    · exact query_some hcap url key value
  have hnone : query url key cap = some none ↔
      0 < cap ∧ ∃ fs, Fields (queryText url) fs ∧ ∀ f ∈ fs, ¬f.Named key := by
    rcases Nat.eq_zero_or_pos cap with rfl | hcap
    · constructor
      · exact fun h => nomatch h
      · exact fun h => absurd h.1 (Nat.not_lt_zero _)
    · rw [query_none hcap url key]
      simp only [hcap,true_and]
  refine ⟨hsome,hnone,?_⟩
  constructor
  · intro h
    constructor
    · intro value fs hfs honce hstore
      rw [(hsome value).2 ⟨fs,hfs,honce,hstore⟩] at h
      cases h
    · intro hcap fs hfs
      by_contra habsent
      push Not at habsent
      rw [hnone.2 ⟨hcap,fs,hfs,habsent⟩] at h
      cases h
  · rintro ⟨hvalue,habsent⟩
    cases hquery : query url key cap with
    | none => exact Eq.refl _
    | some found =>
      cases found with
      | none =>
        obtain ⟨hcap,fs,hfs,hall⟩ := hnone.1 hquery
        obtain ⟨f,hf,hname⟩ := habsent hcap fs hfs
        exact absurd hname (hall f hf)
      | some value =>
        obtain ⟨fs,hfs,honce,hstore⟩ := (hsome value).1 hquery
        exact absurd hstore (hvalue value fs hfs honce)

end Bvstk.Web.HttpInput
