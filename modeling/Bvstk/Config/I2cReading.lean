import Bvstk.Config.I2cSearch

/-! # The older I2C reader on printed text

`parse_string` undoes the escapes of the writer, `parse_u32` reads its numbers, and
`parse_rule_array` its lists of rules.
-/
namespace Bvstk.Config.I2cJson
open JsonText (Blank IsBlank IsDigit)
open CNumber (isSpace digitValue hexPrefix strtoul)

/-! ## Blanks -/

theorem isSpace_blank {b : UInt8} (h : IsBlank b) : isSpace b = true := by
  rcases h with rfl | rfl | rfl | rfl
  all_goals decide

theorem skipWs_blank {blank : Text} (h : Blank blank) (t : Text) : skipWs (blank ++ t) = skipWs t :=
  List.dropWhile_append_of_pos fun b hb => isSpace_blank (h b hb)

theorem skipWs_cons {c : UInt8} (h : isSpace c = false) (t : Text) : skipWs (c :: t) = c :: t :=
  List.dropWhile_cons_of_neg (by rw [h]; decide)

/-! ## Strings -/

theorem stringChars_quote (room : ℕ) (out t : Text) : stringChars room out (quote :: t) = some (out,t) := by
  unfold stringChars
  exact if_pos rfl

theorem stringChars_escape (room : ℕ) (out t : Text) (d : UInt8) :
    stringChars (room + 1) out (backslash :: d :: t) = stringChars room (out ++ [escaped d]) t := by
  conv_lhs => unfold stringChars
  rw [if_neg (by decide), if_pos rfl]

theorem stringChars_plain {c : UInt8} (hquote : c ≠ quote) (hslash : c ≠ backslash) (room : ℕ) (out t : Text) :
    stringChars (room + 1) out (c :: t) = stringChars room (out ++ [c]) t := by
  conv_lhs => unfold stringChars
  rw [if_neg hquote, if_neg hslash]

theorem jsonChar_piece {c : UInt8} {p : Text} (h : jsonChar c = some p) : IsPiece p := by
  unfold jsonChar at h
  split_ifs at h with hquote hslash
  · cases h
    exact Or.inr ⟨quote,rfl⟩
  · cases h
    exact Or.inr ⟨backslash,rfl⟩
  · cases h
    exact Or.inr ⟨110,rfl⟩
  · cases h
    exact Or.inr ⟨114,rfl⟩
  · cases h
    exact Or.inr ⟨116,rfl⟩
  · cases h
    exact Or.inl ⟨c,rfl,hquote,hslash⟩

/-- One character is read back. -/
theorem stringChars_piece {c : UInt8} {p : Text} (h : jsonChar c = some p) (room : ℕ) (out rest : Text) :
    stringChars (room + 1) out (p ++ rest) = stringChars room (out ++ [c]) rest := by
  unfold jsonChar at h
  split_ifs at h with hquote hslash hnl hcr htab
  · cases h
    rw [List.cons_append, List.singleton_append, stringChars_escape, hquote]
    rfl
  · cases h
    rw [List.cons_append, List.singleton_append, stringChars_escape, hslash]
    rfl
  · cases h
    rw [List.cons_append, List.singleton_append, stringChars_escape, hnl]
    rfl
  · cases h
    rw [List.cons_append, List.singleton_append, stringChars_escape, hcr]
    rfl
  · cases h
    rw [List.cons_append, List.singleton_append, stringChars_escape, htab]
    rfl
  · cases h
    rw [List.singleton_append, stringChars_plain hquote hslash]

theorem mapM_jsonChar_cons {c : UInt8} {name : Text} {ps : List Text} (h : (c :: name).mapM jsonChar = some ps) :
    ∃ p qs, jsonChar c = some p ∧ name.mapM jsonChar = some qs ∧ ps = p :: qs := by
  rw [List.mapM_cons, Option.bind_eq_bind, Option.bind_eq_some_iff] at h
  obtain ⟨p,hp,h⟩ := h
  rw [Option.bind_eq_bind, Option.bind_eq_some_iff] at h
  obtain ⟨qs,hqs,h⟩ := h
  cases h
  exact ⟨p,qs,hp,hqs,rfl⟩

theorem jsonChars_pieces {name : Text} {ps : List Text} (h : name.mapM jsonChar = some ps) : ∀ p ∈ ps, IsPiece p := by
  induction name generalizing ps with
  | nil =>
    cases h
    exact fun _ hp => nomatch hp
  | cons c name ih =>
    obtain ⟨p,qs,hp,hqs,rfl⟩ := mapM_jsonChar_cons h
    intro q hq
    rcases List.mem_cons.mp hq with rfl | hq
    · exact jsonChar_piece hp
    · exact ih hqs q hq

theorem stringChars_pieces {name : Text} {ps : List Text} (h : name.mapM jsonChar = some ps) {room : ℕ}
    (hroom : name.length ≤ room) (out rest : Text) :
    stringChars room out (ps.flatten ++ quote :: rest) = some (out ++ name,rest) := by
  induction name generalizing ps room out with
  | nil =>
    cases h
    rw [List.append_nil]
    exact stringChars_quote room out rest
  | cons c name ih =>
    obtain ⟨p,qs,hp,hqs,rfl⟩ := mapM_jsonChar_cons h
    cases room with
    | zero => simp at hroom
    | succ room =>
      rw [List.flatten_cons, List.append_assoc, stringChars_piece hp, ih hqs (Nat.le_of_succ_le_succ hroom), List.append_assoc]
      rfl

/-- What the writer makes of a name is read as the name. -/
theorem parseString_jsonString {name token : Text} (h : jsonString name = some token) {capacity : ℕ}
    (hcapacity : name.length < capacity) (rest : Text) : parseString (token ++ rest) capacity = some (name,rest) := by
  obtain ⟨ps,hps,rfl⟩ := Option.map_eq_some_iff.mp h
  have htext : quote :: ps.flatten ++ [quote] ++ rest = quote :: (ps.flatten ++ quote :: rest) := by simp
  have hspace : isSpace quote = false := by decide
  rw [htext, parseString, skipWs_cons hspace]
  dsimp only
  rw [if_neg (by simp), stringChars_pieces hps (by omega)]
  rfl

/-! ## Numbers -/

theorem digitValue_digit {b : UInt8} (h : IsDigit b) : digitValue b = b.toNat - 48 := if_pos h

theorem digits_decimal {n : ℕ} {ds rest : Text} (hds : ∀ b ∈ ds, IsDigit b) (hrest : ∀ b ∈ rest.head?, digitValue b = 36) :
    CNumber.digits 10 n (ds ++ rest) = (digitsValue n ds,rest) := by
  induction ds generalizing n with
  | nil =>
    cases rest with
    | nil => rfl
    | cons c rest =>
      rw [List.nil_append, CNumber.digits, if_neg (by rw [hrest c rfl]; decide)]
      rfl
  | cons c ds ih =>
    have hdigit := hds c List.mem_cons_self
    have hlow := UInt8.le_iff_toNat_le.mp hdigit.1
    have hhigh := UInt8.le_iff_toNat_le.mp hdigit.2
    have h48 : (48 : UInt8).toNat = 48 := rfl
    have h57 : (57 : UInt8).toNat = 57 := rfl
    rw [List.cons_append, CNumber.digits, digitValue_digit hdigit, if_pos (by omega)]
    exact ih fun b hb => hds b (List.mem_cons_of_mem c hb)

theorem stops_digitValue {rest : Text} (h : Stops rest) : ∀ b ∈ rest.head?, digitValue b = 36 := by
  intro b hb
  rcases h b hb with (rfl | rfl | rfl | rfl) | rfl | rfl | rfl
  all_goals rfl

/-- A printed number is read by `strtoul` in any base it may guess. -/
theorem strtoul_decimal {n : ℕ} (hn : n ≤ ulongMax) {rest : Text} (hrest : Stops rest) :
    strtoul ulongMax (decimal n ++ rest) 0 = some ⟨n,false,rest⟩ := by
  have hend := stops_digitValue hrest
  by_cases hzero : n = 0
  · -- a zero is octal
    have hhex : hexPrefix (48 :: rest) = false := by
      cases rest with
      | nil => rfl
      | cons x rest =>
        have hx : (x == 120 || x == 88) = false := by
          rcases hrest x rfl with (rfl | rfl | rfl | rfl) | rfl | rfl | rfl
          all_goals decide
        cases rest with
        | nil => rfl
        | cons d rest => rw [hexPrefix, hx, Bool.and_false, Bool.false_and]
    have hdigits : CNumber.digits 8 0 (48 :: rest) = (0,rest) := by
      have hvalue : digitValue 48 = 0 := rfl
      rw [CNumber.digits, hvalue, if_pos (by decide)]
      cases rest with
      | nil => rfl
      | cons c rest => rw [CNumber.digits, if_neg (by rw [hend c rfl]; decide)]
    have hspace : (48 :: rest).dropWhile isSpace = 48 :: rest := List.dropWhile_cons_of_neg (by decide)
    have hvalue : ¬8 ≤ digitValue 48 := by decide
    rw [hzero, decimal_zero, List.singleton_append, strtoul]
    simp [hspace, hhex, hdigits, hvalue]
  · have hds := decimal_digits n
    have hhead : (decimal n).head? ≠ some 48 := fun h => hzero (decimal_head h)
    have hread := digits_decimal (n := 0) hds hend
    rw [digitsValue_decimal] at hread
    cases hdecimal : decimal n with
    | nil => exact absurd hdecimal (decimal_ne_nil n)
    | cons c ds =>
      rw [hdecimal] at hds hhead hread
      have hc := hds c List.mem_cons_self
      have hlow := UInt8.le_iff_toNat_le.mp hc.1
      have hhigh := UInt8.le_iff_toNat_le.mp hc.2
      have h48 : (48 : UInt8).toNat = 48 := rfl
      have h57 : (57 : UInt8).toNat = 57 := rfl
      have hne : ∀ d : UInt8, d.toNat < 48 ∨ 57 < d.toNat → c ≠ d := by
        rintro d hd rfl
        omega
      have hc48 : c ≠ 48 := fun heq => hhead (by rw [heq]; rfl)
      have hspace : isSpace c = false := by
        have h32 := hne 32 (by decide)
        have h13 : (13 : UInt8).toNat = 13 := rfl
        simp only [isSpace, Bool.or_eq_false_iff, beq_eq_false_iff_ne, decide_eq_false_iff_not, UInt8.le_iff_toNat_le]
        exact ⟨h32,by omega⟩
      have hskip : (c :: (ds ++ rest)).dropWhile isSpace = c :: (ds ++ rest) :=
        List.dropWhile_cons_of_neg (by rw [hspace]; decide)
      have hhex : hexPrefix (c :: (ds ++ rest)) = false := by
        have hbeq : (c == 48) = false := beq_eq_false_iff_ne.mpr hc48
        generalize ds ++ rest = more
        match more with
        | [] => rfl
        | [_] => rfl
        | x :: d :: more => rw [hexPrefix, hbeq, Bool.false_and, Bool.false_and]
      have hvalue : ¬10 ≤ digitValue c := by
        rw [digitValue_digit hc]
        omega
      have hminus := hne 45 (by decide)
      have hplus := hne 43 (by decide)
      rw [List.cons_append] at hread ⊢
      rw [strtoul]
      simp [hskip, hhex, hread, hvalue, hminus, hplus, hc48, Nat.not_lt_of_le hn]

theorem decimal_cons (n : ℕ) : ∃ c ds, decimal n = c :: ds ∧ IsDigit c := by
  have hds := decimal_digits n
  obtain ⟨c,ds,hdecimal⟩ := List.exists_cons_of_ne_nil (decimal_ne_nil n)
  rw [hdecimal] at hds
  exact ⟨c,ds,hdecimal,hds c List.mem_cons_self⟩

theorem isSpace_digit {c : UInt8} (h : IsDigit c) : isSpace c = false ∧ c ≠ quote := by
  have hlow := UInt8.le_iff_toNat_le.mp h.1
  have h48 : (48 : UInt8).toNat = 48 := rfl
  have h13 : (13 : UInt8).toNat = 13 := rfl
  have hne : ∀ d : UInt8, d.toNat < 48 → c ≠ d := by
    rintro d hd rfl
    omega
  refine ⟨?_,hne quote (by decide)⟩
  simp only [isSpace, Bool.or_eq_false_iff, beq_eq_false_iff_ne, decide_eq_false_iff_not, UInt8.le_iff_toNat_le]
  exact ⟨hne 32 (by decide),by omega⟩

theorem skipWs_decimal (n : ℕ) (rest : Text) : skipWs (decimal n ++ rest) = decimal n ++ rest := by
  obtain ⟨c,ds,hdecimal,hc⟩ := decimal_cons n
  rw [hdecimal, List.cons_append, skipWs_cons (isSpace_digit hc).1]

theorem parseU32_decimal {n : ℕ} (hn : n ≤ ulongMax) {blank rest : Text} (hblank : Blank blank) (hrest : Stops rest) :
    parseU32 (blank ++ (decimal n ++ rest)) = some (n,rest) := by
  have hread := strtoul_decimal hn hrest
  obtain ⟨c,ds,hdecimal,hc⟩ := decimal_cons n
  rw [parseU32, skipWs_blank hblank, skipWs_decimal]
  rw [hdecimal, List.cons_append] at hread ⊢
  dsimp only
  rw [if_neg (isSpace_digit hc).2, hread]
  rfl

/-! ## Rules -/

theorem parseString_quoted {word : Text} (hword : ∀ b ∈ word, b ≠ quote ∧ b ≠ backslash) {capacity : ℕ}
    (hcapacity : word.length < capacity) {blank : Text} (hblank : Blank blank) (rest : Text) :
    parseString (blank ++ (quoted word ++ rest)) capacity = some (word,rest) := by
  have hspace : isSpace quote = false := by decide
  have hchars : ∀ (room : ℕ) (out : Text), word.length ≤ room →
      stringChars room out (word ++ quote :: rest) = some (out ++ word,rest) := by
    intro room out hroom
    induction word generalizing room out with
    | nil =>
      rw [List.nil_append, List.append_nil, stringChars_quote]
    | cons c word ih =>
      obtain ⟨hquote,hslash⟩ := hword c List.mem_cons_self
      cases room with
      | zero => simp at hroom
      | succ room =>
        have hmore := ih (fun b hb => hword b (List.mem_cons_of_mem c hb)) (by simp at hcapacity; omega) room (out ++ [c])
          (Nat.le_of_succ_le_succ hroom)
        rw [List.cons_append, stringChars_plain hquote hslash, hmore, List.append_assoc]
        rfl
  have htext : quoted word ++ rest = quote :: (word ++ quote :: rest) := by simp [quoted, quote]
  rw [parseString, skipWs_blank hblank, htext, skipWs_cons hspace]
  dsimp only
  rw [if_neg (by simp), hchars _ _ (by omega)]
  rfl

/-- A member of a rule, in the order in which it is printed. -/
theorem ruleMember_eq (m : RuleMembers) {n : ℕ} (hn : n ≤ ulongMax) {rest : Text} (hrest : Stops rest) :
    ruleMember m (quoted keyReg ++ ([58,32] ++ (decimal n ++ rest))) = some ({ m with reg := some n },rest) ∧
      ruleMember m (quoted keyVal ++ ([58,32] ++ (decimal n ++ rest))) = some ({ m with val := some n },rest) := by
  have hnumber : parseU32 (32 :: (decimal n ++ rest)) = some (n,rest) := parseU32_decimal hn blank_space hrest
  have hcolon : skipWs ([58,32] ++ (decimal n ++ rest)) = 58 :: 32 :: (decimal n ++ rest) := skipWs_cons (by decide) _
  have hreg : parseString (quoted keyReg ++ ([58,32] ++ (decimal n ++ rest))) 24 =
      some (keyReg,[58,32] ++ (decimal n ++ rest)) := parseString_quoted (forall_bytes (by decide)) (by decide) blank_nil _
  have hval : parseString (quoted keyVal ++ ([58,32] ++ (decimal n ++ rest))) 24 =
      some (keyVal,[58,32] ++ (decimal n ++ rest)) := parseString_quoted (forall_bytes (by decide)) (by decide) blank_nil _
  constructor
  · rw [ruleMember, hreg]
    dsimp only
    rw [hcolon]
    dsimp only
    rw [if_neg (by decide), if_pos (by decide), hnumber]
    rfl
  · rw [ruleMember, hval]
    dsimp only
    rw [hcolon]
    dsimp only
    rw [if_neg (by decide), if_neg (by decide), if_pos (by decide), hnumber]
    rfl

/-- A printed rule, behind its brace. -/
def ruleBody (r : I2cRule) : Text :=
  [32] ++ quoted keyReg ++ [58,32] ++ decimal r.reg.toNat ++ [comma,32] ++ quoted keyVal ++ [58,32] ++ decimal r.val.toNat ++
    [32,closeBrace]

theorem writeRules_cons (r : I2cRule) (rs : List I2cRule) : writeRules (r :: rs) =
    [32,32,32,32] ++ (openBrace :: (ruleBody r ++ ((if rs = [] then [] else [comma]) ++ (10 :: writeRules rs)))) := by
  have hreg : text "    \x7b \"reg\": " = [32,32,32,32] ++ (openBrace :: ([32] ++ quoted keyReg ++ [58,32])) := rfl
  have hval : text ", \"val\": " = [comma,32] ++ quoted keyVal ++ [58,32] := rfl
  have hclose : text " \x7d" = [32,closeBrace] := rfl
  rw [writeRules, hreg, hval, hclose, ruleBody]
  simp

theorem byte_le_ulongMax (b : UInt8) : b.toNat ≤ ulongMax := (Nat.le_of_lt b.toNat_lt).trans (by decide)

theorem ruleMembers_body (r : I2cRule) (turns : ℕ) (rest : Text) :
    ruleMembers (turns + 2) ⟨none,none⟩ (ruleBody r ++ rest) = some (⟨some r.reg.toNat,some r.val.toNat⟩,rest) := by
  have hquote : isSpace quote = false := by decide
  have hstops : Stops (comma :: 32 :: (quoted keyVal ++ ([58,32] ++ (decimal r.val.toNat ++ (32 :: closeBrace :: rest))))) :=
    stops_comma _
  have hclose : Stops (32 :: closeBrace :: rest) := stops_append blank_space (stops_closing true rest)
  have hreg := (ruleMember_eq ⟨none,none⟩ (byte_le_ulongMax r.reg) hstops).1
  have hval := (ruleMember_eq ⟨some r.reg.toNat,none⟩ (byte_le_ulongMax r.val) hclose).2
  have htext : ruleBody r ++ rest = 32 :: (quoted keyReg ++ ([58,32] ++ (decimal r.reg.toNat ++
      (comma :: 32 :: (quoted keyVal ++ ([58,32] ++ (decimal r.val.toNat ++ (32 :: closeBrace :: rest)))))))) := by
    simp [ruleBody]
  have hfirst : ∀ t u : Text, skipWs (32 :: (quoted t ++ u)) = quoted t ++ u := fun t u => rfl
  have hcomma : ∀ u : Text, skipWs (comma :: u) = comma :: u := fun u => rfl
  have hbrace : skipWs (32 :: closeBrace :: rest) = closeBrace :: rest := rfl
  have hhead : ∀ t u : Text, quoted t ++ u = quote :: (t ++ [quote] ++ u) := fun t u => rfl
  rw [htext, ruleMembers, hfirst, hhead]
  dsimp only
  rw [if_neg (by decide), ← hhead, hreg]
  dsimp only
  rw [hcomma]
  dsimp only
  rw [if_pos rfl, ruleMembers, hfirst, hhead]
  dsimp only
  rw [if_neg (by decide), ← hhead, hval]
  dsimp only
  rw [hbrace]
  dsimp only
  rw [if_neg (by decide), if_pos rfl]

theorem skipWs_space (t : Text) : skipWs (32 :: t) = skipWs t := skipWs_blank blank_space t

theorem skipWs_newline (t : Text) : skipWs (10 :: t) = skipWs t :=
  skipWs_blank (fun b hb => Or.inr (Or.inr (Or.inl (List.mem_singleton.mp hb)))) t

/-- The loop over the rules at a printed rule. -/
theorem rulesFrom_rule {capacity : ℕ} {rules : List I2cRule} (hcapacity : rules.length < capacity) (r : I2cRule)
    {rs : List I2cRule} (turns : ℕ) (rest : Text) : rulesFrom capacity (turns + 1) rules (writeRules (r :: rs) ++ rest) =
      if rs = [] then
        (match skipWs (writeRules rs ++ rest) with
        | [] => none
        | c :: cursor => if c = comma then rulesFrom capacity turns (rules ++ [r]) cursor
          else if c = closeBracket then some (rules ++ [r]) else none)
      else rulesFrom capacity turns (rules ++ [r]) (10 :: (writeRules rs ++ rest)) := by
  have hbrace : isSpace openBrace = false := by decide
  have htext : writeRules (r :: rs) ++ rest = [32,32,32,32] ++ (openBrace :: (ruleBody r ++
      ((if rs = [] then [] else [comma]) ++ (10 :: (writeRules rs ++ rest))))) := by
    rw [writeRules_cons]
    simp
  have hblank : Blank [32,32,32,32] := by
    intro b hb
    refine Or.inl ?_
    simpa using hb
  have hturns : ∀ t : Text, (ruleBody r ++ t).length + 1 = (ruleBody r ++ t).length - 1 + 2 := by
    intro t
    have hpos : 0 < (ruleBody r ++ t).length := by simp [ruleBody]
    omega
  have hreg : ¬(255 < r.reg.toNat ∨ 255 < r.val.toNat ∨ capacity ≤ rules.length) := by
    have h1 := r.reg.toNat_lt
    have h2 := r.val.toNat_lt
    omega
  rw [htext, rulesFrom, skipWs_blank hblank, skipWs_cons hbrace]
  dsimp only
  rw [if_neg (by decide), if_neg (by simp), hturns, ruleMembers_body]
  dsimp only
  rw [if_neg hreg]
  rw [UInt8.ofNat_toNat, UInt8.ofNat_toNat]
  by_cases hlast : rs = []
  · rw [if_pos hlast, if_pos hlast, List.nil_append]
    cases hskip : skipWs (writeRules rs ++ rest) with
    | nil => simp only [skipWs_newline, hskip]
    | cons c cursor => simp only [skipWs_newline, hskip]
  · have hcomma : ∀ u : Text, skipWs (comma :: u) = comma :: u := fun u => rfl
    rw [if_neg hlast, if_neg hlast, List.singleton_append, hcomma]
    dsimp only
    rw [if_pos rfl]

/-- A printed list is read as far as it goes. -/
theorem rulesFrom_eq {capacity : ℕ} {rules rs : List I2cRule} (hcapacity : rules.length + rs.length ≤ capacity) {turns : ℕ}
    (hturns : rs.length < turns) (rest : Text) :
    rulesFrom capacity turns rules (10 :: (writeRules rs ++ (32 :: 32 :: closeBracket :: rest))) = some (rules ++ rs) := by
  have hend : skipWs (32 :: 32 :: closeBracket :: rest) = closeBracket :: rest := rfl
  induction rs generalizing rules turns with
  | nil =>
    cases turns with
    | zero => cases hturns
    | succ turns =>
      rw [rulesFrom, skipWs_newline, writeRules, List.nil_append, hend]
      dsimp only
      rw [if_pos rfl, List.append_nil]
  | cons r rs ih =>
    cases turns with
    | zero => cases hturns
    | succ turns =>
      rw [List.length_cons] at hcapacity hturns
      have hnewline : ∀ t : Text, rulesFrom capacity (turns + 1) rules (10 :: t) = rulesFrom capacity (turns + 1) rules t :=
        fun t => by rw [rulesFrom, rulesFrom, skipWs_newline]
      rw [hnewline, rulesFrom_rule (by omega)]
      by_cases hlast : rs = []
      · rw [if_pos hlast, hlast, writeRules, List.nil_append, hend]
        dsimp only
        rw [if_neg (by decide), if_pos rfl]
      · rw [if_neg hlast, ih (by simp; omega) (by omega), List.append_assoc]
        rfl

theorem length_le_writeRules (rs : List I2cRule) : rs.length ≤ (writeRules rs).length := by
  induction rs with
  | nil => exact Nat.zero_le _
  | cons r rs ih =>
    rw [writeRules_cons]
    simp only [List.length_append, List.length_cons]
    omega

/-- The text of a list. -/
def rulesText (rs : List I2cRule) : Text := openBracket :: 10 :: (writeRules rs ++ [32,32,closeBracket])

theorem parseRuleArray_rulesText {capacity : ℕ} {rs : List I2cRule} (h : rs.length ≤ capacity) (rest : Text) :
    parseRuleArray (rulesText rs ++ rest) capacity = some rs := by
  have hopen : isSpace openBracket = false := by decide
  have htext : rulesText rs ++ rest = openBracket :: 10 :: (writeRules rs ++ (32 :: 32 :: closeBracket :: rest)) := by
    simp [rulesText]
  have hlength := length_le_writeRules rs
  rw [htext, parseRuleArray, skipWs_cons hopen]
  dsimp only
  rw [if_neg (by simp), rulesFrom_eq (by simpa using h) (by simp; omega), List.nil_append]

end Bvstk.Config.I2cJson
