import Bvstk.Config.I2cNames
import Bvstk.Config.I2cReading
import Mathlib.Data.List.DropRight

/-! # Written I2C configurations are read back

The printed document is an object with eight members. The name may contain anything, also what
looks like a key: the search for a key passes over it.
-/
namespace Bvstk.Config.I2cJson
open JsonText (Piece Stands Denotes Element Member Blank IsBlank commas stringToken piecesText utf8 Value)
open Utf8Text (IsText)

/-! ## The name -/

/-- The piece of a character that is not escaped by four digits. -/
theorem jsonChar_ascii {b : UInt8} {p : Text} (hb : b.toNat < 128) (h : jsonChar b = some p) :
    ∃ (q : Piece) (c : Char), q.text = p ∧ q.Valid ∧ Stands [q] c ∧ c.toNat ≠ 0 := by
  have hshort : ∀ (letter : UInt8) (n : ℕ), (letter,n) ∈ JsonText.shortEscapes → (Char.ofNat n).toNat ≠ 0 →
      ∃ (q : Piece) (c : Char), q.text = [backslash,letter] ∧ q.Valid ∧ Stands [q] c ∧ c.toNat ≠ 0 := fun letter n hmem hne =>
    ⟨.short letter,Char.ofNat n,rfl,⟨n,hmem⟩,.short hmem,hne⟩
  unfold jsonChar at h
  split_ifs at h with hquote hslash hnl hcr htab hcontrol
  · cases h
    exact hshort quote 34 (by decide) (by decide)
  · cases h
    exact hshort backslash 92 (by decide) (by decide)
  · cases h
    exact hshort 110 10 (by decide) (by decide)
  · cases h
    exact hshort 114 13 (by decide) (by decide)
  · cases h
    exact hshort 116 9 (by decide) (by decide)
  · cases h
    have hlow := UInt8.le_iff_toNat_le.mp (UInt8.not_lt.mp hcontrol)
    have h32 : (32 : UInt8).toNat = 32 := rfl
    have hvalid : b.toNat.isValidChar := Or.inl (by omega)
    have hchar := toNat_charOfNat hvalid
    have hne : ∀ c : UInt8, b ≠ c → b.toNat ≠ c.toNat := fun c hc heq => hc (UInt8.toNat_inj.mp heq)
    refine ⟨.plain (Char.ofNat b.toNat),Char.ofNat b.toNat,?_,?_,.plain _,by omega⟩
    · rw [Piece.text, encode_ascii hb, UInt8.ofNat_toNat]
    · rw [Piece.Valid, hchar]
      exact ⟨by omega,hne quote hquote,hne backslash hslash⟩

theorem mapM_jsonChar_append {s t : Text} {ps : List Text} (h : (s ++ t).mapM jsonChar = some ps) :
    ∃ qs rs, s.mapM jsonChar = some qs ∧ t.mapM jsonChar = some rs ∧ ps = qs ++ rs := by
  induction s generalizing ps with
  | nil => exact ⟨[],ps,rfl,h,rfl⟩
  | cons c s ih =>
    obtain ⟨p,more,hp,hmore,rfl⟩ := mapM_jsonChar_cons h
    obtain ⟨qs,rs,hqs,hrs,rfl⟩ := ih hmore
    refine ⟨p :: qs,rs,?_,hrs,rfl⟩
    rw [List.mapM_cons, hp, hqs]
    rfl

/-- The bytes of a character of several bytes are printed as they are. -/
theorem jsonChars_wide {bytes : Text} (hbytes : ∀ b ∈ bytes, 128 ≤ b.toNat) {ps : List Text}
    (h : bytes.mapM jsonChar = some ps) : ps.flatten = bytes := by
  induction bytes generalizing ps with
  | nil =>
    cases h
    rfl
  | cons b bytes ih =>
    obtain ⟨p,qs,hp,hqs,rfl⟩ := mapM_jsonChar_cons h
    have hb := hbytes b List.mem_cons_self
    have hne : ∀ c : UInt8, c.toNat < 128 → b ≠ c := by
      rintro c hc rfl
      omega
    have hcontrol : ¬b < 32 := UInt8.not_lt.mpr (UInt8.le_iff_toNat_le.mpr ((by decide : (32 : UInt8).toNat ≤ 128).trans hb))
    have hself : jsonChar b = some [b] := by
      rw [jsonChar, if_neg (hne quote (by decide)), if_neg (hne backslash (by decide)), if_neg (hne 10 (by decide)),
        if_neg (hne 13 (by decide)), if_neg (hne 9 (by decide)), if_neg hcontrol]
    rw [hself, Option.some.injEq] at hp
    rw [List.flatten_cons, ih (fun c hc => hbytes c (List.mem_cons_of_mem b hc)) hqs, ← hp]
    rfl

/-- A text that the writer can print becomes a string token of the grammar. -/
theorem jsonString_token {name token : Text} (hname : IsText name) (h : jsonString name = some token) :
    ∃ ps : List Piece, (∀ p ∈ ps, p.Valid) ∧ Denoting ps ∧ token = stringToken ps := by
  obtain ⟨chars,hchars,rfl⟩ := Option.map_eq_some_iff.mp h
  suffices hpieces : ∃ ps : List Piece, (∀ p ∈ ps, p.Valid) ∧ Denoting ps ∧ piecesText ps = chars.flatten by
    obtain ⟨ps,hvalid,hdenoting,htext⟩ := hpieces
    exact ⟨ps,hvalid,hdenoting,by rw [stringToken, htext]; rfl⟩
  clear h
  induction hname generalizing chars with
  | nil =>
    cases hchars
    exact ⟨[],fun _ hp => absurd hp List.not_mem_nil,⟨[],.nil,fun _ hc => absurd hc List.not_mem_nil⟩,rfl⟩
  | ascii hb rest ih =>
    obtain ⟨p,qs,hp,hqs,rfl⟩ := mapM_jsonChar_cons hchars
    obtain ⟨ps,hvalid,⟨cs,hdenotes,hcs⟩,htext⟩ := ih qs hqs
    obtain ⟨q,c,hq,hqvalid,hstands,hc⟩ := jsonChar_ascii hb hp
    refine ⟨q :: ps,List.forall_mem_cons.mpr ⟨hqvalid,hvalid⟩,⟨c :: cs,.cons hstands hdenotes,
      List.forall_mem_cons.mpr ⟨hc,hcs⟩⟩,?_⟩
    rw [piecesText, List.flatMap_cons, hq, ← piecesText, htext, List.flatten_cons]
  | wide hc rest ih =>
    rename_i c t
    obtain ⟨qs,rs,hqs,hrs,rfl⟩ := mapM_jsonChar_append hchars
    obtain ⟨ps,hvalid,⟨cs,hdenotes,hcs⟩,htext⟩ := ih rs hrs
    have hwide := jsonChars_wide (Utf8Text.encode_wide hc).2 hqs
    have hplain : (Piece.plain c).Valid := ⟨by omega,by omega,by omega⟩
    refine ⟨.plain c :: ps,List.forall_mem_cons.mpr ⟨hplain,hvalid⟩,⟨c :: cs,.cons (.plain c) hdenotes,
      List.forall_mem_cons.mpr ⟨by omega,hcs⟩⟩,?_⟩
    rw [piecesText, List.flatMap_cons, ← piecesText, htext, List.flatten_append, hwide]
    rfl

theorem jsonString_nonzero {name token : Text} (h : jsonString name = some token) : name.takeWhile (· != 0) = name := by
  obtain ⟨chars,hchars,-⟩ := Option.map_eq_some_iff.mp h
  refine takeWhile_nonzero ?_
  clear h
  induction name generalizing chars with
  | nil => exact List.not_mem_nil
  | cons c name ih =>
    obtain ⟨p,qs,hp,hqs,-⟩ := mapM_jsonChar_cons hchars
    have hzero : jsonChar 0 = none := by decide
    rw [List.mem_cons, not_or]
    refine ⟨?_,ih qs hqs⟩
    rintro rfl
    rw [hzero] at hp
    cases hp

theorem jsonString_length {name token : Text} (h : jsonString name = some token) : token.length ≤ 2 * name.length + 2 := by
  obtain ⟨chars,hchars,rfl⟩ := Option.map_eq_some_iff.mp h
  have hflat : chars.flatten.length ≤ 2 * name.length := by
    clear h
    induction name generalizing chars with
    | nil =>
      cases hchars
      exact Nat.zero_le _
    | cons c name ih =>
      obtain ⟨p,qs,hp,hqs,rfl⟩ := mapM_jsonChar_cons hchars
      have hmore := ih qs hqs
      have hpiece : p.length ≤ 2 := by
        rcases jsonChar_piece hp with ⟨d,rfl,-,-⟩ | ⟨d,rfl⟩
        · exact Nat.le_succ 1
        · exact le_rfl
      rw [List.flatten_cons, List.length_append, List.length_cons]
      omega
  simp only [List.length_append, List.length_cons, List.length_nil]
  omega

/-! ## The document -/

/-- A new line and two blanks. -/
def indent : Text := [10,32,32]

def fieldText (p : Text × Text) : Text := indent ++ (quoted p.1 ++ ([58,32] ++ p.2))

/-- An object with some fields, and the end of the line. -/
def documentText (fs : List (Text × Text)) : Text := openBrace :: (commas (fs.map fieldText) ++ [10,closeBrace,10])

/-- The fields of a configuration whose name is printed as `token`. -/
def fields (c : I2cFileConfig) (token : Text) : List (Text × Text) :=
  [(keyName,token),(keyAddr7b,decimal c.addr7b.toNat),(keyRegCount,decimal c.regCount),
    (keyMaxValueCode,decimal c.maxValueCode.toNat),
    (keyPolicy,quoted (if c.policy = PolicyMode.blacklist.code then keyBlacklist else keyWhitelist)),
    (keyWhitelist,rulesText c.whitelist),(keyBlacklist,rulesText c.blacklist),(keySettings,rulesText c.settings)]

/-- The writer prints an object with these fields, if it prints anything. -/
theorem serializeJson_some {c : I2cFileConfig} {capacity : ℕ} {json : Text} (h : serializeJson c capacity = some json) :
    c.Valid ∧ ∃ token, jsonString c.name = some token ∧ json = documentText (fields c token) := by
  have hname : text "\x7b\n  \"name\": " = openBrace :: (indent ++ (quoted keyName ++ [58,32])) := rfl
  have haddr : text ",\n  \"addr_7b\": " = comma :: (indent ++ (quoted keyAddr7b ++ [58,32])) := rfl
  have hcount : text ",\n  \"reg_count\": " = comma :: (indent ++ (quoted keyRegCount ++ [58,32])) := rfl
  have hmax : text ",\n  \"max_value_code\": " = comma :: (indent ++ (quoted keyMaxValueCode ++ [58,32])) := rfl
  have hpolicy : text ",\n  \"policy\": \"" = comma :: (indent ++ (quoted keyPolicy ++ [58,32,34])) := rfl
  have hwhite : text "\",\n  \"whitelist\": [\n" = [34,comma] ++ (indent ++ (quoted keyWhitelist ++ [58,32,91,10])) := rfl
  have hblack : text "  ],\n  \"blacklist\": [\n" = [32,32,93,comma] ++ (indent ++ (quoted keyBlacklist ++ [58,32,91,10])) := rfl
  have hsettings : text "  ],\n  \"settings\": [\n" = [32,32,93,comma] ++ (indent ++ (quoted keySettings ++ [58,32,91,10])) := rfl
  have hend : text "  ]\n\x7d\n" = [32,32,93,10,closeBrace,10] := rfl
  unfold serializeJson at h
  by_cases hvalid : i2cConfigValidate c = .ok
  · refine ⟨i2cConfigValidate_eq_ok.mp hvalid,?_⟩
    rw [if_neg (not_not.mpr hvalid)] at h
    cases htoken : jsonString c.name with
    | none =>
      rw [htoken] at h
      cases h
    | some token =>
      rw [htoken] at h
      simp only [fields]
      generalize (if c.policy = PolicyMode.blacklist.code then keyBlacklist else keyWhitelist) = word at h ⊢
      dsimp only at h
      split_ifs at h
      refine ⟨token,rfl,?_⟩
      rw [← Option.some.inj h]
      simp only [hname, haddr, hcount, hmax, hpolicy, hwhite, hblack, hsettings, hend]
      simp only [documentText, List.map_cons, List.map_nil, commas_cons, commas_singleton, fieldText, rulesText]
      simp [quoted, comma, openBracket, closeBracket]
  · rw [if_pos hvalid] at h
    cases h

/-! ## Where the keys are found -/

/-- The keys of the document. -/
def keys : List Text :=
  [keyName,keyAddr7b,keyRegCount,keyMaxValueCode,keyPolicy,keyWhitelist,keyBlacklist,keySettings]

/-- A key is none of the names in a rule. -/
theorem key_word {key : Text} (h : key ∈ keys) : KeyWord key ∧ key ≠ keyReg ∧ key ≠ keyVal ∧ key.length < keyCap := by
  simp only [keys, List.mem_cons, List.not_mem_nil, or_false] at h
  rcases h with rfl | rfl | rfl | rfl | rfl | rfl | rfl | rfl
  all_goals exact ⟨⟨by decide,forall_bytes (by decide)⟩,by decide,by decide,by decide⟩

theorem key_plain {key : Text} (h : key ∈ keys) : ∀ b ∈ key, PlainByte b := by
  simp only [keys, List.mem_cons, List.not_mem_nil, or_false] at h
  rcases h with rfl | rfl | rfl | rfl | rfl | rfl | rfl | rfl
  all_goals exact forall_bytes (by decide)

section
variable {key : Text}

theorem Passes.mono {m n : ℕ} {a : Text} (ha : Passes key m a) (hmn : m ≤ n) : Passes key n a :=
  fun turns rest v h => findKeyFrom_le (Nat.add_le_add_left hmn turns) (ha turns rest v h)

theorem decimal_unquoted (n : ℕ) : ∀ b ∈ decimal n, b ≠ quote :=
  fun b hb => (isSpace_digit (decimal_digits n b hb)).2

theorem unquoted_append {a b : Text} (ha : ∀ c ∈ a, c ≠ quote) (hb : ∀ c ∈ b, c ≠ quote) : ∀ c ∈ a ++ b, c ≠ quote :=
  fun c hc => (List.mem_append.mp hc).elim (ha c) (hb c)

theorem passes_decimal (n : ℕ) : Passes key 1 (decimal n ++ [comma]) :=
  (passes_unquoted (unquoted_append (decimal_unquoted n) (forall_bytes (by decide)))).mono (Nat.zero_le 1)

theorem passes_token (hkey : KeyWord key) {name token : Text} (h : jsonString name = some token) :
    Passes key 1 (token ++ [comma]) := by
  obtain ⟨ps,hps,rfl⟩ := Option.map_eq_some_iff.mp h
  have htext : quote :: ps.flatten ++ [quote] ++ [comma] = quote :: (ps.flatten ++ [quote,comma]) := by simp
  rw [htext]
  exact passes_string hkey (jsonChars_pieces hps)

theorem passes_word (hkey : KeyWord key) {word : Text} (hword : ∀ b ∈ word, b ≠ quote ∧ b ≠ backslash) :
    Passes key 1 (quoted word ++ [comma]) := by
  have hps : ∀ p ∈ word.map fun c => [c], IsPiece p := by
    intro p hp
    obtain ⟨c,hc,rfl⟩ := List.mem_map.mp hp
    exact Or.inl ⟨c,rfl,hword c hc⟩
  have hflat : (word.map fun c => [c]).flatten = word := by
    rw [← List.flatMap_def, List.flatMap_singleton']
  have htext : quoted word ++ [comma] = quote :: ((word.map fun c => [c]).flatten ++ [quote,comma]) := by
    rw [hflat, quoted]
    simp [quote]
  rw [htext]
  exact passes_string hkey hps

/-- The rules of a list have two names that are no keys. -/
theorem passes_writeRules (hkey : KeyWord key) (hreg : key ≠ keyReg) (hval : key ≠ keyVal) (rs : List I2cRule) :
    Passes key 0 (writeRules rs) := by
  induction rs with
  | nil => exact fun turns rest v h => h
  | cons r rs ih =>
    have hopen : Passes key 0 [32,32,32,32,openBrace,32] := passes_unquoted (forall_bytes (by decide))
    have hregName : Passes key 0 (quoted keyReg ++ [colon]) :=
      passes_key hkey (forall_bytes (by decide)) hreg.symm
    have hvalName : Passes key 0 (quoted keyVal ++ [colon]) :=
      passes_key hkey (forall_bytes (by decide)) hval.symm
    have hmiddle : Passes key 0 (32 :: (decimal r.reg.toNat ++ [comma,32])) :=
      passes_unquoted (unquoted_append (a := [32]) (forall_bytes (by decide))
        (unquoted_append (decimal_unquoted _) (forall_bytes (by decide))))
    have hclose : Passes key 0 (32 :: (decimal r.val.toNat ++ ([32,closeBrace] ++ ((if rs = [] then [] else [comma]) ++ [10])))) := by
      refine passes_unquoted (unquoted_append (a := [32]) (forall_bytes (by decide)) (unquoted_append (decimal_unquoted _)
        (unquoted_append (forall_bytes (by decide)) (unquoted_append ?_ (forall_bytes (by decide))))))
      split
      · exact fun b hb => absurd hb List.not_mem_nil
      · exact forall_bytes (by decide)
    have htext : writeRules (r :: rs) = [32,32,32,32,openBrace,32] ++ ((quoted keyReg ++ [colon]) ++
        ((32 :: (decimal r.reg.toNat ++ [comma,32])) ++ ((quoted keyVal ++ [colon]) ++
          ((32 :: (decimal r.val.toNat ++ ([32,closeBrace] ++ ((if rs = [] then [] else [comma]) ++ [10])))) ++
            writeRules rs)))) := by
      rw [writeRules_cons, ruleBody]
      simp [colon]
    rw [htext]
    exact hopen.append (hregName.append (hmiddle.append (hvalName.append (hclose.append ih))))

theorem passes_rulesText (hkey : key ∈ keys) (rs : List I2cRule) : Passes key 1 (rulesText rs ++ [comma]) := by
  obtain ⟨hword,hreg,hval,-⟩ := key_word hkey
  have hopen : Passes key 0 [openBracket,10] := passes_unquoted (forall_bytes (by decide))
  have hclose : Passes key 0 [32,32,closeBracket,comma] := passes_unquoted (forall_bytes (by decide))
  have htext : rulesText rs ++ [comma] = [openBracket,10] ++ (writeRules rs ++ [32,32,closeBracket,comma]) := by
    simp [rulesText]
  rw [htext]
  exact (hopen.append ((passes_writeRules hword hreg hval rs).append hclose)).mono (Nat.zero_le 1)

/-- Each value of the document is passed over. -/
theorem passes_value {c : I2cFileConfig} {token : Text} (htoken : jsonString c.name = some token) (hkey : key ∈ keys)
    {p : Text × Text} (hp : p ∈ fields c token) : Passes key 1 (p.2 ++ [comma]) := by
  have hword := (key_word hkey).1
  simp only [fields, List.mem_cons, List.not_mem_nil, or_false] at hp
  rcases hp with rfl | rfl | rfl | rfl | rfl | rfl | rfl | rfl
  · exact passes_token hword htoken
  · exact passes_decimal _
  · exact passes_decimal _
  · exact passes_decimal _
  · refine passes_word hword ?_
    split
    · exact forall_bytes (by decide)
    · exact forall_bytes (by decide)
  · exact passes_rulesText hkey _
  · exact passes_rulesText hkey _
  · exact passes_rulesText hkey _

theorem passes_field (hkey : KeyWord key) {p : Text × Text} (hplain : ∀ b ∈ p.1, b ≠ quote) (hne : p.1 ≠ key)
    (hvalue : Passes key 1 (p.2 ++ [comma])) : Passes key 1 (fieldText p ++ [comma]) := by
  have hindent : Passes key 0 indent := passes_unquoted (forall_bytes (by decide))
  have hspace : Passes key 0 [32] := passes_unquoted (forall_bytes (by decide))
  have htext : fieldText p ++ [comma] = indent ++ ((quoted p.1 ++ [colon]) ++ ([32] ++ (p.2 ++ [comma]))) := by
    simp [fieldText, colon]
  rw [htext]
  exact hindent.append ((passes_key hkey hplain hne).append (hspace.append hvalue))

theorem passes_fields {ps : List Text} (h : ∀ t ∈ ps, Passes key 1 (t ++ [comma])) :
    Passes key ps.length (ps.flatMap (· ++ [comma])) := by
  induction ps with
  | nil => exact fun turns rest v h => h
  | cons t ps ih =>
    rw [List.flatMap_cons, List.length_cons]
    exact (h t List.mem_cons_self).append (ih fun u hu => h u (List.mem_cons_of_mem t hu))

end

theorem commas_split (ts us : List Text) (u : Text) :
    commas (ts ++ u :: us) = ts.flatMap (· ++ [comma]) ++ commas (u :: us) := by
  induction ts with
  | nil => rfl
  | cons t ts ih =>
    have hmore : ∃ w ws, ts ++ u :: us = w :: ws := List.exists_cons_of_ne_nil (by simp)
    obtain ⟨w,ws,hw⟩ := hmore
    rw [List.cons_append, hw, commas_cons, ← hw, ih, List.flatMap_cons]
    simp [comma]

/-- The search finds the value of each field, and stops where the value ends. -/
theorem findKey_field {c : I2cFileConfig} {token : Text} (htoken : jsonString c.name = some token)
    {pre post : List (Text × Text)} {key v : Text} (hsplit : fields c token = pre ++ (key,v) :: post) :
    ∃ more, Stops more ∧ findKey (documentText (fields c token)) key = some (skipWs (32 :: (v ++ more))) := by
  have hkeys : (fields c token).map Prod.fst = keys := rfl
  have hnodup : keys.Nodup := by decide
  have hkey : key ∈ keys := by
    rw [← hkeys, hsplit, List.map_append, List.map_cons]
    exact List.mem_append_right _ List.mem_cons_self
  have hword := (key_word hkey).1
  have hpre : ∀ t ∈ pre.map fieldText, Passes key 1 (t ++ [comma]) := by
    intro t ht
    obtain ⟨p,hp,rfl⟩ := List.mem_map.mp ht
    have hmem : p ∈ fields c token := by
      rw [hsplit]
      exact List.mem_append_left _ hp
    have hpkey : p.1 ∈ keys := by
      rw [← hkeys]
      exact List.mem_map_of_mem hmem
    have hne : p.1 ≠ key := by
      intro heq
      rw [← hkeys, hsplit, List.map_append, List.map_cons] at hnodup
      exact (List.nodup_append.mp hnodup).2.2 _ (List.mem_map_of_mem hp) _ List.mem_cons_self heq
    exact passes_field hword (fun b hb => ((key_word hpkey).1.2 b hb).1) hne (passes_value htoken hkey hmem)
  have hbrace : Passes key 0 [openBrace] := passes_unquoted (forall_bytes (by decide))
  have hindent : Passes key 0 indent := passes_unquoted (forall_bytes (by decide))
  have hpass := hbrace.append ((passes_fields hpre).append hindent)
  have hmore : ∃ more, Stops more ∧ commas (fieldText (key,v) :: post.map fieldText) ++ [10,closeBrace,10] =
      fieldText (key,v) ++ more := by
    cases post with
    | nil =>
      refine ⟨[10,closeBrace,10],fun b hb => ?_,by rw [List.map_nil, commas_singleton]⟩
      cases hb
      exact Or.inl (Or.inr (Or.inr (Or.inl rfl)))
    | cons q post =>
      refine ⟨44 :: (commas (fieldText q :: post.map fieldText) ++ [10,closeBrace,10]),stops_comma _,?_⟩
      rw [List.map_cons, commas_cons, List.append_assoc, List.cons_append]
  obtain ⟨more,hstops,hmore⟩ := hmore
  have htext : documentText (fields c token) =
      [openBrace] ++ ((pre.map fieldText).flatMap (· ++ [comma]) ++ indent) ++ (quoted key ++ colon :: (32 :: (v ++ more))) := by
    rw [documentText, hsplit, List.map_append, List.map_cons, commas_split, List.append_assoc, hmore]
    simp [fieldText, colon]
  refine ⟨more,hstops,findKey_passes hpass ?_ htext⟩
  have hlength : (pre.map fieldText).length ≤ ((pre.map fieldText).flatMap (· ++ [comma])).length := by
    generalize pre.map fieldText = ts
    induction ts with
    | nil => exact Nat.zero_le _
    | cons t ts ih =>
      rw [List.flatMap_cons, List.length_append, List.length_append, List.length_cons, List.length_singleton]
      omega
  rw [htext]
  simp only [List.length_append, List.length_cons, List.length_nil]
  omega

/-! ## What is read -/

theorem skipWs_skipWs (t : Text) : skipWs (skipWs t) = skipWs t := List.dropWhile_idempotent CNumber.isSpace t

theorem parseString_skipWs (t : Text) (capacity : ℕ) : parseString (skipWs t) capacity = parseString t capacity := by
  rw [parseString, parseString, skipWs_skipWs]

theorem parseU32_skipWs (t : Text) : parseU32 (skipWs t) = parseU32 t := by rw [parseU32, parseU32, skipWs_skipWs]

theorem parseRuleArray_skipWs (t : Text) (capacity : ℕ) : parseRuleArray (skipWs t) capacity = parseRuleArray t capacity := by
  rw [parseRuleArray, parseRuleArray, skipWs_skipWs]

section
variable {c : I2cFileConfig} {token : Text} (pre : List (Text × Text)) {post : List (Text × Text)} {key : Text}

/-- The text of a printed string. -/
theorem parseText_field (htoken : jsonString c.name = some token) {word t : Text} {capacity : ℕ}
    (hread : ∀ rest, parseString (t ++ rest) capacity = some (word,rest)) (hword : word.takeWhile (· != 0) = word)
    (hsplit : fields c token = pre ++ (key,t) :: post) :
    parseText (documentText (fields c token)) key capacity = some word := by
  obtain ⟨more,-,hfind⟩ := findKey_field htoken hsplit
  have hskip : parseString (32 :: (t ++ more)) capacity = parseString (t ++ more) capacity := by
    rw [← parseString_skipWs, skipWs_space, parseString_skipWs]
  rw [parseText, hfind, Option.bind_some, parseString_skipWs, hskip, hread, Option.map_some, hword]

/-- The number of a printed decimal. -/
theorem parseNumber_field (htoken : jsonString c.name = some token) {n maximum : ℕ} (hn : n ≤ maximum) (hmax : n ≤ ulongMax)
    (hsplit : fields c token = pre ++ (key,decimal n) :: post) :
    parseNumber (documentText (fields c token)) key maximum = some n := by
  obtain ⟨more,hstops,hfind⟩ := findKey_field htoken hsplit
  have hread : parseU32 (32 :: (decimal n ++ more)) = some (n,more) := parseU32_decimal hmax blank_space hstops
  rw [parseNumber, hfind, Option.bind_some, parseU32_skipWs, hread]
  exact if_neg (Nat.not_lt_of_le hn)

/-- The rules of a printed list. -/
theorem parseRules_field (htoken : jsonString c.name = some token) {rs : List I2cRule} {capacity : ℕ}
    (hlength : rs.length ≤ capacity) (hsplit : fields c token = pre ++ (key,rulesText rs) :: post) :
    parseRules (documentText (fields c token)) key capacity = some rs := by
  obtain ⟨more,-,hfind⟩ := findKey_field htoken hsplit
  have hskip : parseRuleArray (32 :: (rulesText rs ++ more)) capacity = parseRuleArray (rulesText rs ++ more) capacity := by
    rw [← parseRuleArray_skipWs, skipWs_space, parseRuleArray_skipWs]
  rw [parseRules, hfind]
  dsimp only
  rw [parseRuleArray_skipWs, hskip, parseRuleArray_rulesText hlength]

end

/-- Every configuration the reader returns has neither a file name nor a profile. -/
theorem parseJson_bare {json : Text} {c : I2cFileConfig} (h : parseJson json = some c) :
    c.fileName = [] ∧ c.profile = .zero ∧ ∃ mode : PolicyMode, c.policy = mode.code := by
  unfold parseJson at h
  split at h
  · split at h
    · dsimp only at h
      split_ifs at h
      cases h
      exact ⟨rfl,rfl,_,rfl⟩
    · cases h
  · cases h

theorem policyOf_word (mode : PolicyMode) :
    policyOf (if mode.code = PolicyMode.blacklist.code then keyBlacklist else keyWhitelist) = some mode := by
  cases mode with
  | whitelist => decide
  | blacklist => decide

/-- A configuration without a file name and a profile is read from what is printed for it. -/
theorem parseJson_documentText {c : I2cFileConfig} {token : Text} (hc : c.Valid) (htoken : jsonString c.name = some token)
    (hfile : c.fileName = []) (hprofile : c.profile = .zero) {mode : PolicyMode} (hmode : c.policy = mode.code) :
    parseJson (documentText (fields c token)) = some c := by
  obtain ⟨-,hname,haddr,-,hcount,hmax,-,hwhite,hblack,hsettings⟩ := hc.shaped
  have hwordText : ∀ b ∈ (if c.policy = PolicyMode.blacklist.code then keyBlacklist else keyWhitelist),
      b ≠ quote ∧ b ≠ backslash := by
    split
    · exact forall_bytes (by decide)
    · exact forall_bytes (by decide)
  have hwordLength : (if c.policy = PolicyMode.blacklist.code then keyBlacklist else keyWhitelist).length < 16 := by
    split
    · decide
    · decide
  have hwordZero : (if c.policy = PolicyMode.blacklist.code then keyBlacklist else keyWhitelist).takeWhile (· != 0) =
      if c.policy = PolicyMode.blacklist.code then keyBlacklist else keyWhitelist := by
    split
    · rfl
    · rfl
  have haddr' : c.addr7b.toNat ≤ 0x7F := UInt8.le_iff_toNat_le.mp haddr
  have hmax' : c.maxValueCode.toNat ≤ 64 := UInt8.le_iff_toNat_le.mp hmax
  have hcount' : c.regCount ≤ ulongMax := hcount.trans (by decide)
  have hread1 := parseText_field ([]) htoken (parseString_jsonString htoken hname) (jsonString_nonzero htoken) rfl
  have hread2 := parseNumber_field ([_]) htoken haddr' (byte_le_ulongMax _) rfl
  have hread3 := parseNumber_field ([_,_]) htoken hcount hcount' rfl
  have hread4 := parseNumber_field ([_,_,_]) htoken hmax' (byte_le_ulongMax _) rfl
  have hread5 := parseText_field ([_,_,_,_]) htoken (parseString_quoted hwordText hwordLength blank_nil) hwordZero rfl
  have hread6 := parseRules_field ([_,_,_,_,_]) htoken hwhite rfl
  have hread7 := parseRules_field ([_,_,_,_,_,_]) htoken hblack rfl
  have hread8 := parseRules_field ([_,_,_,_,_,_,_]) htoken hsettings rfl
  have hpolicy : (parseText (documentText (fields c token)) keyPolicy 16).bind policyOf = some mode := by
    rw [hread5, Option.bind_some, hmode, policyOf_word]
  have hself : (⟨⟨c.name,UInt8.ofNat c.addr7b.toNat,c.regCount,UInt8.ofNat c.maxValueCode.toNat,mode.code,c.whitelist,
      c.blacklist,.zero⟩,[],c.settings⟩ : I2cFileConfig) = c := by
    rw [UInt8.ofNat_toNat, UInt8.ofNat_toNat, ← hmode, ← hprofile, ← hfile]
  rw [parseJson, hread1, hread2, hread3, hread4, hpolicy]
  dsimp only
  rw [hread6, hread7, hread8]
  dsimp only
  rw [hself, if_pos (i2cConfigValidate_eq_ok.mpr hc)]

/-! ## The document as JSON -/

/-- A member as it is printed; the last one ends its line. -/
def printedField (p : Text × Text) : Member := printed indent p.1 p.2 (if p.1 = keySettings then [10] else [])

/-- A printed list of rules, as the elements of an array. -/
def ruleElements : List I2cRule → List Element
  | [] => []
  | r :: rs => ⟨[10,32,32,32,32],openBrace :: ruleBody r,if rs = [] then [10,32,32] else []⟩ :: ruleElements rs

theorem ruleElements_eq_nil {rs : List I2cRule} : ruleElements rs = [] ↔ rs = [] := by
  cases rs with
  | nil => exact iff_of_true rfl rfl
  | cons r rs => exact iff_of_false (List.cons_ne_nil _ _) (List.cons_ne_nil _ _)

theorem commas_ruleElements {rs : List I2cRule} (hne : rs ≠ []) :
    commas ((ruleElements rs).map Element.text) = 10 :: (writeRules rs ++ [32,32]) := by
  induction rs with
  | nil => exact absurd rfl hne
  | cons r rs ih =>
    by_cases hlast : rs = []
    · rw [hlast, ruleElements, writeRules_cons, ruleElements, List.map_singleton, commas_singleton, Element.text,
        writeRules, if_pos rfl, if_pos rfl]
      simp
    · have hmore := ih hlast
      rw [ruleElements, writeRules_cons, if_neg hlast, if_neg hlast, List.map_cons]
      obtain ⟨e,es,hes⟩ := List.exists_cons_of_ne_nil fun hnil => hlast (ruleElements_eq_nil.mp hnil)
      rw [hes, List.map_cons] at hmore
      rw [hes, List.map_cons, commas_cons, hmore, Element.text]
      simp [comma]

theorem blank_newline {n : ℕ} : Blank (10 :: List.replicate n 32) := by
  intro b hb
  rcases List.mem_cons.mp hb with rfl | hb
  · exact Or.inr (Or.inr (Or.inl rfl))
  · exact Or.inl (List.eq_of_mem_replicate hb)

/-- A printed rule is an object. -/
theorem value_rule (n : ℕ) (r : I2cRule) : Value Denoting (n + 1) (openBrace :: ruleBody r) := by
  have hreg : ∀ b ∈ keyReg, PlainByte b := forall_bytes (by decide)
  have hval : ∀ b ∈ keyVal, PlainByte b := forall_bytes (by decide)
  have hobject : objectText [printed [32] keyReg (decimal r.reg.toNat) [],printed [32] keyVal (decimal r.val.toNat) [32]] =
      openBrace :: ruleBody r := by
    rw [objectText, List.map_cons, List.map_singleton, commas_cons, commas_singleton, printed_text hreg, printed_text hval,
      ruleBody]
    simp [openBrace, closeBrace, comma]
  rw [← hobject]
  refine value_objectText (List.cons_ne_nil _ _) fun m hm => ?_
  rcases List.mem_pair.mp hm with rfl | rfl
  · exact printed_ok hreg blank_space blank_nil (Value.number (decimal_number _))
  · exact printed_ok hval blank_space blank_space (Value.number (decimal_number _))

theorem ruleElements_ok (n : ℕ) {rs : List I2cRule} {e : Element} (h : e ∈ ruleElements rs) :
    (Blank e.before ∧ Blank e.after) ∧ Value Denoting (n + 1) e.value := by
  induction rs with
  | nil => cases h
  | cons r rs ih =>
    rcases List.mem_cons.mp h with rfl | h
    · refine ⟨⟨blank_newline (n := 4),?_⟩,value_rule n r⟩
      dsimp only
      split
      · exact blank_newline (n := 2)
      · exact blank_nil
    · exact ih h

theorem value_rulesText (n : ℕ) (rs : List I2cRule) : Value Denoting (n + 2) (rulesText rs) := by
  by_cases hne : rs = []
  · have htext : rulesText rs = 91 :: ([10,32,32] ++ [93]) := by
      rw [hne]
      rfl
    rw [htext]
    exact Value.emptyArray (blank_newline (n := 2))
  · have htext : rulesText rs = 91 :: (commas ((ruleElements rs).map Element.text) ++ [93]) := by
      rw [commas_ruleElements hne, rulesText]
      simp [openBracket, closeBracket]
    rw [htext]
    exact Value.array (fun hnil => hne (ruleElements_eq_nil.mp hnil)) (fun e he => (ruleElements_ok n he).1)
      fun e he => (ruleElements_ok n he).2

/-- Each printed value is one of the grammar. -/
theorem value_field {c : I2cFileConfig} {token : Text} (hname : IsText c.name) (htoken : jsonString c.name = some token)
    (n : ℕ) {p : Text × Text} (hp : p ∈ fields c token) : Value Denoting (n + 2) p.2 := by
  simp only [fields, List.mem_cons, List.not_mem_nil, or_false] at hp
  rcases hp with rfl | rfl | rfl | rfl | rfl | rfl | rfl | rfl
  · obtain ⟨ps,hvalid,hdenoting,rfl⟩ := jsonString_token hname htoken
    exact Value.string hvalid hdenoting
  · exact Value.number (decimal_number _)
  · exact Value.number (decimal_number _)
  · exact Value.number (decimal_number _)
  · refine value_quoted ?_
    split
    · exact forall_bytes (by decide)
    · exact forall_bytes (by decide)
  · exact value_rulesText n _
  · exact value_rulesText n _
  · exact value_rulesText n _

theorem field_key {c : I2cFileConfig} {token : Text} {p : Text × Text} (hp : p ∈ fields c token) : p.1 ∈ keys := by
  have hkeys : (fields c token).map Prod.fst = keys := rfl
  rw [← hkeys]
  exact List.mem_map_of_mem hp

theorem printedField_ok {c : I2cFileConfig} {token : Text} (hname : IsText c.name) (htoken : jsonString c.name = some token)
    {m : Member} (hm : m ∈ (fields c token).map printedField) : MemberOk (depthMax - 1) m := by
  obtain ⟨p,hp,rfl⟩ := List.mem_map.mp hm
  refine printed_ok (key_plain (field_key hp)) (blank_newline (n := 2)) ?_ (value_field hname htoken 13 hp)
  split
  · exact blank_newline (n := 0)
  · exact blank_nil

theorem documentText_eq (c : I2cFileConfig) (token : Text) :
    documentText (fields c token) = objectText ((fields c token).map printedField) ++ [10] := by
  have hplain : ∀ p ∈ fields c token, (printedField p).text = fieldText p ++ (if p.1 = keySettings then [10] else []) := by
    intro p hp
    rw [printedField, printed_text (key_plain (field_key hp)), fieldText]
    simp only [List.append_assoc]
  have htexts : ((fields c token).map printedField).map Member.text =
      (fields c token).map fun p => fieldText p ++ (if p.1 = keySettings then [10] else []) := by
    rw [List.map_map]
    exact List.map_congr_left hplain
  rw [documentText, objectText, htexts, fields]
  generalize (if c.policy = PolicyMode.blacklist.code then keyBlacklist else keyWhitelist) = word
  simp only [List.map_cons, List.map_nil, commas_cons, commas_singleton]
  rw [if_neg (by decide), if_neg (by decide), if_neg (by decide), if_neg (by decide), if_neg (by decide),
    if_neg (by decide), if_neg (by decide)]
  simp [openBrace, closeBrace]

/-! ## Its length -/

theorem byte_length (b : UInt8) : (decimal b.toNat).length ≤ 3 :=
  decimal_length (by decide) (b.toNat_lt.trans (by decide))

theorem writeRules_length (rs : List I2cRule) : (writeRules rs).length ≤ rs.length * 40 := by
  induction rs with
  | nil => exact Nat.zero_le _
  | cons r rs ih =>
    have hreg := byte_length r.reg
    have hval := byte_length r.val
    have hcomma : (if rs = [] then [] else [comma]).length ≤ 1 := by
      split
      · exact Nat.zero_le _
      · exact le_rfl
    have hkeys : keyReg.length = 3 ∧ keyVal.length = 3 := ⟨rfl,rfl⟩
    rw [writeRules_cons, ruleBody]
    simp only [quoted, List.length_append, List.length_cons, List.length_nil, hkeys.1, hkeys.2]
    omega

theorem rulesText_length {rs : List I2cRule} (h : rs.length ≤ 256) : (rulesText rs).length ≤ 10300 := by
  have hrules := writeRules_length rs
  simp only [rulesText, List.length_append, List.length_cons, List.length_nil]
  omega

theorem documentText_length {c : I2cFileConfig} {token : Text} (hc : c.Valid) (htoken : jsonString c.name = some token) :
    (documentText (fields c token)).length ≤ profileJsonMax := by
  obtain ⟨-,hname,-,-,hcount,-,-,hwhite,hblack,hsettings⟩ := hc.shaped
  have h1 := jsonString_length htoken
  have h2 := byte_length c.addr7b
  have h3 : (decimal c.regCount).length ≤ 3 := decimal_length (by decide) (Nat.lt_of_le_of_lt hcount (by decide))
  have h4 := byte_length c.maxValueCode
  have h5 : (if c.policy = PolicyMode.blacklist.code then keyBlacklist else keyWhitelist).length ≤ 9 := by
    split
    · exact le_rfl
    · exact le_rfl
  have h6 := rulesText_length hwhite
  have h7 := rulesText_length hblack
  have h8 := rulesText_length hsettings
  have hkeys : keyName.length = 4 ∧ keyAddr7b.length = 7 ∧ keyRegCount.length = 9 ∧ keyMaxValueCode.length = 14 ∧
      keyPolicy.length = 6 ∧ keyWhitelist.length = 9 ∧ keyBlacklist.length = 9 ∧ keySettings.length = 8 :=
    ⟨rfl,rfl,rfl,rfl,rfl,rfl,rfl,rfl⟩
  obtain ⟨k1,k2,k3,k4,k5,k6,k7,k8⟩ := hkeys
  have hindent : indent.length = 3 := rfl
  generalize hword : (if c.policy = PolicyMode.blacklist.code then keyBlacklist else keyWhitelist) = word at h5
  unfold i2cNameMax at hname
  rw [documentText, fields, hword, profileJsonMax]
  simp only [List.map_cons, List.map_nil, commas_cons, commas_singleton, fieldText, quoted, List.length_append,
    List.length_cons, List.length_nil, hindent, k1, k2, k3, k4, k5, k6, k7, k8]
  omega

/-! ## The round trip -/

/-- The document is of the older kind. -/
theorem profileVersion_documentText {c : I2cFileConfig} {token : Text} (hc : c.Valid) (hname : IsText c.name)
    (htoken : jsonString c.name = some token) :
    profileVersion (documentText (fields c token)) = .ok 0 ∧
      (documentText (fields c token)).takeWhile (· != 0) = documentText (fields c token) := by
  have hne : (fields c token).map printedField ≠ [] := List.cons_ne_nil _ _
  have hok : ∀ m ∈ (fields c token).map printedField, MemberOk (depthMax - 1) m := fun m hm => printedField_ok hname htoken hm
  have hself : (documentText (fields c token)).takeWhile (· != 0) = documentText (fields c token) := by
    refine takeWhile_nonzero ?_
    rw [documentText_eq, List.mem_append, not_or]
    exact ⟨value_nonzero (value_objectText hne hok),by decide⟩
  refine ⟨?_,hself⟩
  refine profileVersion_zero [] [10] hne hok blank_nil (blank_newline (n := 0)) ?_ ?_ fun m hm => ?_
  · rw [hself, documentText_eq, List.nil_append]
  · rw [hself]
    exact documentText_length hc htoken
  · obtain ⟨p,hp,rfl⟩ := List.mem_map.mp hm
    have hkey := field_key hp
    have hkeyOf : keyOf (printedField p).name = p.1 := keyOf_plain (key_plain hkey)
    rw [hkeyOf]
    refine ⟨(key_word hkey).2.2.2,?_⟩
    generalize p.1 = key at hkey
    simp only [keys, List.mem_cons, List.not_mem_nil, or_false] at hkey
    rcases hkey with rfl | rfl | rfl | rfl | rfl | rfl | rfl | rfl
    all_goals exact ⟨by decide,by decide⟩

/-- I2C configurations survive the older kind of file: what is printed for a configuration that
was read from a document without a schema version, into any buffer with room for it, is read
without an error, and all its fields come back, the lists in order, whatever is in the name. -/
theorem i2c_codec_round_trip (parseProfile : Text → Option I2cFileConfig) (source json : Text) (c : I2cFileConfig)
    (capacity : ℕ) (hversion : profileVersion source = .ok 0) (hparse : parseDocument parseProfile source = some c)
    (hjson : serializeJson c capacity = some json) :
    ∃ c', parseDocument parseProfile json = some c' ∧ c'.name = c.name ∧ c'.addr7b = c.addr7b ∧ c'.regCount = c.regCount ∧
      c'.maxValueCode = c.maxValueCode ∧ c'.policy = c.policy ∧ c'.whitelist = c.whitelist ∧ c'.blacklist = c.blacklist ∧
      c'.settings = c.settings := by
  have hlegacy : parseJson (source.takeWhile (· != 0)) = some c := by
    rw [parseDocument, hversion] at hparse
    exact hparse
  have hname : IsText c.name := by
    unfold parseJson at hlegacy
    split at hlegacy
    · rename_i name _ _ _ _ hread _ _ _ _
      split at hlegacy
      · dsimp only at hlegacy
        split_ifs at hlegacy
        cases hlegacy
        exact parseText_isText (profileVersion_isText hversion) hread
      · cases hlegacy
    · cases hlegacy
  obtain ⟨hfile,hprofile,mode,hmode⟩ := parseJson_bare hlegacy
  obtain ⟨hc,token,htoken,rfl⟩ := serializeJson_some hjson
  obtain ⟨hzero,hself⟩ := profileVersion_documentText hc hname htoken
  refine ⟨c,?_,rfl,rfl,rfl,rfl,rfl,rfl,rfl,rfl⟩
  rw [parseDocument, hzero, hself]
  exact parseJson_documentText hc htoken hfile hprofile hmode

/-- A device whose name ends like the key of the address, with a rule and a setting. -/
def sampleDevice : I2cFileConfig :=
  ⟨⟨[120,34] ++ keyAddr7b,80,16,8,1,[],[⟨15,8⟩],.zero⟩,[],[⟨0,255⟩]⟩

def sampleToken : Text := [quote,120,backslash,quote] ++ keyAddr7b ++ [quote]

theorem i2c_codec_round_trip_sample :
    ∃ c', parseDocument (fun _ => none) (documentText (fields sampleDevice sampleToken)) = some c' ∧
      c'.name = sampleDevice.name ∧ c'.addr7b = sampleDevice.addr7b ∧ c'.regCount = sampleDevice.regCount ∧
      c'.maxValueCode = sampleDevice.maxValueCode ∧ c'.policy = sampleDevice.policy ∧
      c'.whitelist = sampleDevice.whitelist ∧ c'.blacklist = sampleDevice.blacklist ∧
      c'.settings = sampleDevice.settings := by
  have htoken : jsonString sampleDevice.name = some sampleToken := rfl
  have hname : IsText sampleDevice.name := Utf8Text.isText_ascii (forall_bytes (by decide))
  have hsome : (serializeJson sampleDevice 65537).isSome = true := by decide +kernel
  obtain ⟨json,hjson⟩ := Option.isSome_iff_exists.mp hsome
  obtain ⟨hc,token,htoken',htext⟩ := serializeJson_some hjson
  rw [htoken, Option.some.injEq] at htoken'
  rw [← htoken'] at htext
  obtain ⟨hzero,hself⟩ := profileVersion_documentText hc hname htoken
  have hread : parseDocument (fun _ => none) (documentText (fields sampleDevice sampleToken)) = some sampleDevice := by
    have hmode : sampleDevice.policy = PolicyMode.blacklist.code := rfl
    have hlegacy := parseJson_documentText hc htoken rfl rfl hmode
    rw [parseDocument, hzero, hself, hlegacy]
    rfl
  rw [htext] at hjson
  exact i2c_codec_round_trip _ _ _ sampleDevice 65537 hzero hread hjson

end Bvstk.Config.I2cJson
