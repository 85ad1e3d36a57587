import Bvstk.Config.MdioReading

/-! # Written MDIO configurations are read back

The printed document is an object with eleven members; behind some of them the reader has the
configuration with these members put in.
-/
namespace Bvstk.Config.MdioJson
open JsonText (Piece Denotes Element Member Blank IsBlank IsDigit Digits commas stringToken utf8 Value)
open CNumber (isSpace)
open I2cJson (decimal text)

/-! ## The document -/

/-- The members as they are printed. -/
def order : List Key :=
  [.name,.phyAddr,.regCount,.policy,.autopollEnabled,.autopollRegDelayMs,.autopollCycleDelayMs,.autopollRegs,.whitelist,
    .blacklist,.settings]

def valueText (c : MdioPhyConfig) : Key → Text
  | .name => quoted c.name
  | .phyAddr => decimal c.phyAddr.toNat
  | .regCount => decimal c.regCount.toNat
  | .policy => quoted (if c.policy = 0 then wordWhitelist else wordBlacklist)
  | .autopollEnabled => if c.autopollEnabled = true then wordTrue else wordFalse
  | .autopollRegDelayMs => decimal c.autopollRegDelayMs.toNat
  | .autopollCycleDelayMs => decimal c.autopollCycleDelayMs.toNat
  | .autopollRegs => 91 :: (writeList (fun r : UInt8 => decimal r.toNat) c.autopollRegs ++ [93])
  | .whitelist => 91 :: (writeList writeRule c.whitelist ++ [93])
  | .blacklist => 91 :: (writeList writeRule c.blacklist ++ [93])
  | .settings => 91 :: (writeList writeSetting c.settings ++ [93])
  | .writeAllowRegs => []
  | .writeDenyRegs => []

/-- A new line and two blanks. -/
def indent : Text := [10,32,32]

/-- The last member ends its line. -/
def afterText : Key → Text
  | .settings => [10]
  | _ => []

def memberText (c : MdioPhyConfig) (k : Key) : Text := quoted k.text ++ ([58,32] ++ valueText c k)

def printedMember (c : MdioPhyConfig) (k : Key) : Member := printed indent k.text (valueText c k) (afterText k)

theorem plain_text (k : Key) : (∀ b ∈ k.text, PlainByte b) ∧ k.text.length < 40 := by
  constructor
  · exact forall_bytes (by cases k <;> decide)
  · cases k <;> decide

theorem printedMember_text (c : MdioPhyConfig) (k : Key) :
    (printedMember c k).text = indent ++ memberText c k ++ afterText k := by
  rw [printedMember, printed_text (plain_text k).1, memberText]
  simp only [List.append_assoc]

/-- The writer prints an object with these members, and ends the line. -/
theorem formatText_eq (c : MdioPhyConfig) : formatText c = objectText (order.map (printedMember c)) ++ [10] := by
  have hname : text "\x7b\n  \"name\": \"" = 123 :: (indent ++ (quoted Key.name.text ++ [58,32,34])) := rfl
  have hphy : text "\",\n  \"phy_addr\": " = [34,44] ++ (indent ++ (quoted Key.phyAddr.text ++ [58,32])) := rfl
  have hcount : text ",\n  \"reg_count\": " = 44 :: (indent ++ (quoted Key.regCount.text ++ [58,32])) := rfl
  have hpolicy : text ",\n  \"policy\": \"" = 44 :: (indent ++ (quoted Key.policy.text ++ [58,32,34])) := rfl
  have henabled : text "\",\n  \"autopoll_enabled\": " =
      [34,44] ++ (indent ++ (quoted Key.autopollEnabled.text ++ [58,32])) := rfl
  have hreg : text ",\n  \"autopoll_reg_delay_ms\": " =
      44 :: (indent ++ (quoted Key.autopollRegDelayMs.text ++ [58,32])) := rfl
  have hcycle : text ",\n  \"autopoll_cycle_delay_ms\": " =
      44 :: (indent ++ (quoted Key.autopollCycleDelayMs.text ++ [58,32])) := rfl
  have hregs : text ",\n  \"autopoll_regs\": [" = 44 :: (indent ++ (quoted Key.autopollRegs.text ++ [58,32,91])) := rfl
  have hwhite : text "],\n  \"whitelist\": [" = [93,44] ++ (indent ++ (quoted Key.whitelist.text ++ [58,32,91])) := rfl
  have hblack : text "],\n  \"blacklist\": [" = [93,44] ++ (indent ++ (quoted Key.blacklist.text ++ [58,32,91])) := rfl
  have hsettings : text "],\n  \"settings\": [" = [93,44] ++ (indent ++ (quoted Key.settings.text ++ [58,32,91])) := rfl
  have hend : text "]\n\x7d\n" = [93,10,125,10] := rfl
  unfold formatText
  simp only [hname, hphy, hcount, hpolicy, henabled, hreg, hcycle, hregs, hwhite, hblack, hsettings, hend]
  simp only [objectText, order, List.map_cons, List.map_nil, commas_cons, commas_singleton, printedMember_text, memberText,
    valueText, afterText]
  simp [quoted]

/-! ## Reading the document -/

/-- `acc` with one member of `c`. -/
def put (c acc : MdioPhyConfig) : Key → MdioPhyConfig
  | .name => { acc with name := c.name }
  | .phyAddr => { acc with phyAddr := c.phyAddr }
  | .regCount => { acc with regCount := c.regCount }
  | .policy => { acc with policy := c.policy }
  | .autopollEnabled => { acc with autopollEnabled := c.autopollEnabled }
  | .autopollRegDelayMs => { acc with autopollRegDelayMs := c.autopollRegDelayMs }
  | .autopollCycleDelayMs => { acc with autopollCycleDelayMs := c.autopollCycleDelayMs }
  | .autopollRegs => { acc with autopollRegs := c.autopollRegs }
  | .whitelist => { acc with whitelist := c.whitelist }
  | .blacklist => { acc with blacklist := c.blacklist }
  | .settings =>
    { acc with settings := c.settings, settingsSpare := List.replicate (4 * (mdioSettingsMax - c.settings.length)) 0 }
  | .writeAllowRegs => acc
  | .writeDenyRegs => acc

/-- What is read back: the fields of the bus. -/
def readBack (c : MdioPhyConfig) : MdioPhyConfig :=
  { c with fileName := [], settingsSpare := List.replicate (4 * (mdioSettingsMax - c.settings.length)) 0, profile := .zero }

theorem foldl_put (c : MdioPhyConfig) : order.foldl (put c) initialConfig = readBack c := rfl

/-- A switch that is off is not written into the configuration. -/
theorem put_enabled (c : MdioPhyConfig) (pre : List Key) (h : c.autopollEnabled = false) :
    (pre.foldl (put c) initialConfig).autopollEnabled = false := by
  have hkeep : ∀ acc : MdioPhyConfig, acc.autopollEnabled = false → (pre.foldl (put c) acc).autopollEnabled = false := by
    induction pre with
    | nil => exact fun acc hacc => hacc
    | cons k pre ih =>
      intro acc hacc
      refine ih _ ?_
      cases k <;> first | exact hacc | exact h
  exact hkeep initialConfig rfl

theorem head_decimal {n : ℕ} : ∃ b tail, decimal n = b :: tail ∧ isSpace b = false ∧ b ≠ 93 := by
  have hall := decimal_digits n
  cases hdigits : decimal n with
  | nil => exact absurd hdigits (decimal_ne_nil n)
  | cons b tail =>
    rw [hdigits] at hall
    obtain ⟨hlow,hhigh⟩ := hall b List.mem_cons_self
    rw [UInt8.le_iff_toNat_le] at hlow hhigh
    have h48 : (48 : UInt8).toNat = 48 := rfl
    have h57 : (57 : UInt8).toNat = 57 := rfl
    refine ⟨b,tail,rfl,?_,?_⟩
    · unfold isSpace
      simp [UInt8.le_iff_toNat_le, ← UInt8.toNat_inj]
      omega
    · rintro rfl
      have h93 : (93 : UInt8).toNat = 93 := rfl
      omega

section
variable {c : MdioPhyConfig}

theorem safeName_plain {s : Name} {cap : ℕ} (h : safeName s cap = true) : (∀ b ∈ s, PlainByte b) ∧ s.length < cap := by
  have hword : ∀ b : UInt8, (isWord b || b == 46) = true → PlainByte b := by
    have hall : ∀ n : Fin 256, (isWord (UInt8.ofNat n) || UInt8.ofNat n == 46) = true → PlainByte (UInt8.ofNat n) := by
      decide +kernel
    intro b hb
    have hn := hall ⟨b.toNat,b.toNat_lt⟩
    rw [UInt8.ofNat_toNat] at hn
    exact hn hb
  rw [safeName, Bool.and_eq_true, Bool.and_eq_true, Bool.and_eq_true, List.all_eq_true, decide_eq_true_eq] at h
  exact ⟨fun b hb => hword b (h.1.1.2 b hb),h.1.2⟩

theorem reg_le {r regCount : UInt8} (hcount : regCount ≤ 32) (hr : r < regCount) : r ≤ 31 := by
  rw [UInt8.lt_iff_toNat_lt] at hr
  rw [UInt8.le_iff_toNat_le] at hcount ⊢
  have h31 : (31 : UInt8).toNat = 31 := rfl
  have h32 : (32 : UInt8).toNat = 32 := rfl
  omega

theorem rules_eq {rs : List MdioRule} (hlength : rs.length ≤ mdioRulesMax) (hrs : ∀ r ∈ rs, r.reg ≤ 31) (rest : Text) :
    rules false (91 :: (writeList writeRule rs ++ 93 :: rest)) = some (rs,rest) := by
  refine listOf_eq (fun p => ?_) hlength (fun r hr rest _ => rule_eq (hrs r hr) rest) (fun r _ => ?_) rest
  · rw [rule, rule, if_neg (by decide), if_neg (by decide), entry, entry, ch_ws]
  · exact ⟨123,_,writeRule_eq r,by decide,by decide⟩

theorem settings_eq {ss : List MdioSetting} (hlength : ss.length ≤ mdioSettingsMax) (hss : ∀ s ∈ ss, s.reg ≤ 31)
    (rest : Text) : listOf mdioSettingsMax setting (91 :: (writeList writeSetting ss ++ 93 :: rest)) = some (ss,rest) := by
  refine listOf_eq (fun p => ?_) hlength (fun s hs rest _ => setting_eq (hss s hs) rest) (fun s _ => ?_) rest
  · rw [setting, setting, entry, entry, ch_ws]
  · exact ⟨123,_,writeSetting_eq s,by decide,by decide⟩

theorem regs_eq {regs : List UInt8} (hlength : regs.length ≤ mdioAutopollRegsMax) (hregs : ∀ r ∈ regs, r ≤ 31)
    (rest : Text) : listOf mdioAutopollRegsMax (fun p => (number 31 p).map fun (v,p) => (UInt8.ofNat v,p))
      (91 :: (writeList (fun r : UInt8 => decimal r.toNat) regs ++ 93 :: rest)) = some (regs,rest) := by
  refine listOf_eq (fun p => ?_) hlength (fun r hr rest hrest => ?_) (fun r _ => head_decimal) rest
  · rw [number_ws]
  · have hle : r.toNat ≤ 31 := UInt8.le_iff_toNat_le.mp (hregs r hr)
    rw [number_decimal hle hrest.ends.1, Option.map_some]
    simp

theorem ws_space (p : Text) : ws (32 :: p) = ws p := ws_blank blank_space p

theorem string_space {cap : ℕ} {s : Text} (hs : ∀ b ∈ s, PlainByte b) (hcap : s.length < cap) (rest : Text) :
    string cap (32 :: (quoted s ++ rest)) = some (s,rest) := by
  rw [← string_ws, ws_space, string_ws, string_quoted hs hcap]

theorem listOf_space {α : Type} (capacity : ℕ) (item : Text → Option (α × Text)) (p : Text) :
    listOf capacity item (32 :: p) = listOf capacity item p := by
  have hch : ch 91 (32 :: p) = ch 91 p := ch_blank blank_space 91 p
  rw [listOf, listOf, hch]

/-- Each printed member is read as the value that the configuration has. -/
theorem memberValue_eq (hc : c.Valid) {acc : MdioPhyConfig} {seen : List Key} {k : Key} (hk : k ∈ order)
    (hseen : ∀ k ∈ seen, k ∈ order) (henabled : c.autopollEnabled = false → acc.autopollEnabled = false) {rest : Text}
    (hrest : Stops rest) : memberValue acc seen (32 :: (valueText c k ++ rest)) k = some (put c acc k,rest) := by
  obtain ⟨hname,-,hphy,-,hcount,hpolicy,hwhite,hblack,hsettings,hregs,hdelay,hcycle⟩ := hc.shaped
  have hallow : Key.writeAllowRegs ∉ seen := fun h => absurd (hseen _ h) (by decide)
  have hdeny : Key.writeDenyRegs ∉ seen := fun h => absurd (hseen _ h) (by decide)
  have hbracket : ∀ inner : Text, 91 :: (inner ++ [93]) ++ rest = 91 :: (inner ++ 93 :: rest) := fun inner => by simp
  cases k with
  | name =>
    obtain ⟨hplain,hlength⟩ := safeName_plain hname
    rw [memberValue, valueText, string_space hplain hlength]
    rfl
  | phyAddr =>
    have hle : c.phyAddr.toNat ≤ 31 := UInt8.le_iff_toNat_le.mp hphy
    rw [memberValue, valueText, number_space hle hrest.ends.1, Option.map_some]
    simp [put]
  | regCount =>
    have hle : c.regCount.toNat ≤ 32 := UInt8.le_iff_toNat_le.mp hcount
    rw [memberValue, valueText, number_space hle hrest.ends.1, Option.map_some]
    simp [put]
  | policy =>
    have hmode : c.policy = 0 ∨ c.policy = 1 := by
      unfold PolicyMode.ofCode at hpolicy
      split at hpolicy
      · exact Or.inl ‹_›
      · exact Or.inr ‹_›
      · exact absurd rfl hpolicy
    rw [memberValue, valueText]
    rcases hmode with hmode | hmode
    · rw [hmode, if_pos rfl, string_space (forall_bytes (by decide)) (by decide)]
      dsimp only
      rw [if_pos rfl, put, hmode]
    · rw [hmode, if_neg (by decide), string_space (forall_bytes (by decide)) (by decide)]
      dsimp only
      rw [if_neg (by decide), if_pos rfl, put, hmode]
  | autopollEnabled =>
    rw [memberValue, valueText, ws_space]
    cases hswitch : c.autopollEnabled with
    | true =>
      have hws : ws (wordTrue ++ rest) = wordTrue ++ rest := ws_cons (by decide) _
      rw [if_pos rfl, hws, if_pos (by rw [List.isPrefixOf_iff_prefix]; exact List.prefix_append _ _), put, hswitch]
      rfl
    | false =>
      have hws : ws (wordFalse ++ rest) = wordFalse ++ rest := ws_cons (by decide) _
      have htrue : ¬wordTrue.isPrefixOf (wordFalse ++ rest) = true := by
        rw [wordTrue, wordFalse, List.cons_append, List.isPrefixOf]
        simp
      have hput : put c acc .autopollEnabled = acc := by rw [put, hswitch, ← henabled hswitch]
      have hoff : (if false = true then wordTrue else wordFalse) = wordFalse := if_neg Bool.false_ne_true
      rw [hoff, hws, if_neg htrue, if_pos (by rw [List.isPrefixOf_iff_prefix]; exact List.prefix_append _ _),
        hput]
      rfl
  | autopollRegDelayMs =>
    have hle : c.autopollRegDelayMs.toNat ≤ 600000 := (UInt32.le_iff_toNat_le.mp hdelay).trans (by decide)
    rw [memberValue, valueText, number_space hle hrest.ends.1, Option.map_some]
    simp [put]
  | autopollCycleDelayMs =>
    have hle : c.autopollCycleDelayMs.toNat ≤ 600000 := UInt32.le_iff_toNat_le.mp hcycle
    rw [memberValue, valueText, number_space hle hrest.ends.1, Option.map_some]
    simp [put]
  | autopollRegs =>
    have hbelow : ∀ r ∈ c.autopollRegs, r ≤ 31 := fun r hr => reg_le hcount (regsCheck_below hc.autopoll r hr)
    rw [memberValue, valueText, hbracket, listOf_space, regs_eq hregs hbelow]
    rfl
  | whitelist =>
    rw [memberValue, valueText, hbracket, if_neg hallow, rules, listOf_space, ← rules,
      rules_eq hwhite fun r hr => reg_le hcount (hc.whitelist r hr)]
    rfl
  | blacklist =>
    rw [memberValue, valueText, hbracket, if_neg hdeny, rules, listOf_space, ← rules,
      rules_eq hblack fun r hr => reg_le hcount (hc.blacklist r hr)]
    rfl
  | settings =>
    have hbelow : ∀ s ∈ c.settings, s.reg ≤ 31 := fun s hs =>
      reg_le hcount (regsCheck_below hc.settings s.reg (List.mem_map_of_mem hs))
    rw [memberValue, valueText, hbracket, listOf_space, settings_eq hsettings hbelow]
    rfl
  | writeAllowRegs => exact absurd hk (by decide)
  | writeDenyRegs => exact absurd hk (by decide)

theorem memberText_head (c : MdioPhyConfig) (k : Key) :
    ∃ b tail, memberText c k = b :: tail ∧ isSpace b = false ∧ b ≠ 125 :=
  ⟨34,_,rfl,by decide,by decide⟩

/-- A printed member is read behind those that are printed in front of it. -/
theorem member_eq (hc : c.Valid) {pre post : List Key} {k : Key} (hsplit : order = pre ++ k :: post) {rest : Text}
    (hrest : Stops rest) : member ⟨pre.foldl (put c) initialConfig,pre.reverse⟩ (memberText c k ++ rest) =
      some (⟨(pre ++ [k]).foldl (put c) initialConfig,(pre ++ [k]).reverse⟩,rest) := by
  have hnodup : order.Nodup := by decide
  have hk : k ∈ order := by
    rw [hsplit]
    exact List.mem_append_right _ List.mem_cons_self
  have hseen : ∀ k' ∈ pre.reverse, k' ∈ order := fun k' hk' => by
    rw [hsplit]
    exact List.mem_append_left _ (List.mem_reverse.mp hk')
  have hnew : k ∉ pre.reverse := by
    intro hmem
    rw [hsplit] at hnodup
    exact (List.nodup_append.mp hnodup).2.2 _ (List.mem_reverse.mp hmem) _ List.mem_cons_self rfl
  have hfind : allKeys.find? (·.text = k.text) = some k := by
    cases k <;> rfl
  obtain ⟨hplain,hlength⟩ := plain_text k
  rw [memberText, List.append_assoc, List.append_assoc, member, string_quoted hplain hlength]
  dsimp only
  rw [ch_colon]
  dsimp only
  rw [hfind]
  dsimp only
  rw [if_neg hnew, memberValue_eq hc hk hseen (put_enabled c pre) hrest, List.foldl_append, List.reverse_append]
  rfl

theorem blank_indent : Blank indent := by
  intro b hb
  rcases List.mem_cons.mp hb with rfl | hb
  · exact Or.inr (Or.inr (Or.inl rfl))
  · refine Or.inl ?_
    simpa using hb

theorem blank_after (k : Key) : Blank (afterText k) := by
  intro b hb
  unfold afterText at hb
  split at hb
  · exact Or.inr (Or.inr (Or.inl (List.mem_singleton.mp hb)))
  · cases hb

theorem items_document (hc : c.Valid) (rest : Text) {left : ℕ} (hleft : order.length ≤ left) :
    items 125 member left ⟨initialConfig,[]⟩ (commas ((order.map (printedMember c)).map Member.text) ++ 125 :: rest) =
      some (⟨readBack c,order.reverse⟩,rest) := by
  have horder : order ≠ [] := by decide
  have htexts : Member.text ∘ printedMember c = fun k => indent ++ memberText c k ++ afterText k :=
    funext fun k => printedMember_text c k
  rw [List.map_map, htexts, ← foldl_put]
  exact items_eq (fun _ => indent) (memberText c) afterText (by decide) (by decide)
    (fun s p => by rw [member, string_ws, member]) horder
    (fun k _ => ⟨blank_indent,blank_after k,memberText_head c k⟩)
    (fun pre => (⟨pre.foldl (put c) initialConfig,pre.reverse⟩ : Scan))
    (fun pre k post hsplit rest hrest => member_eq hc hsplit hrest) rest left hleft stops_brace

end

/-! ## The document as JSON -/

/-- A printed entry is an object. -/
theorem value_entry (n : ℕ) (r : MdioRule) {known : List Field} (hne : known ≠ []) :
    Value Denoting (n + 1) (123 :: (writeList (writeField r) known ++ [125])) := by
  let member (p : Text × Field) : Member := printed p.1 p.2.key (decimal (p.2.get r)) []
  have htexts : Member.text ∘ member = fun p => p.1 ++ writeField r p.2 ++ [] := by
    funext p
    simp only [Function.comp_apply, member, printed_text (plain_key p.2).1, writeField, List.append_assoc]
  have hobject : objectText ((tagged known).map member) = 123 :: (writeList (writeField r) known ++ [125]) := by
    rw [objectText, List.map_map, htexts, commas_tagged]
  have hnonempty : (tagged known).map member ≠ [] := by
    rw [← List.length_pos_iff, List.length_map, tagged_length]
    exact List.length_pos_iff.mpr hne
  rw [← hobject]
  refine value_objectText hnonempty fun m hm => ?_
  obtain ⟨p,hp,rfl⟩ := List.mem_map.mp hm
  exact printed_ok (plain_key p.2).1 (blank_tagged hp).1 blank_nil (Value.number (decimal_number _))

theorem value_list {α : Type} {n : ℕ} {write : α → Text} (h : ∀ x, Value Denoting n (write x)) (xs : List α) :
    Value Denoting (n + 1) (91 :: (writeList write xs ++ [93])) := by
  rw [writeList_eq]
  refine value_separated fun v hv => ?_
  obtain ⟨x,-,rfl⟩ := List.mem_map.mp hv
  exact h x

theorem value_rule (n : ℕ) (r : MdioRule) : Value Denoting (n + 1) (writeRule r) := by
  rw [writeRule_eq]
  exact value_entry n r (List.cons_ne_nil _ _)

theorem value_setting (n : ℕ) (s : MdioSetting) : Value Denoting (n + 1) (writeSetting s) := by
  rw [writeSetting_eq]
  exact value_entry n _ (List.cons_ne_nil _ _)

theorem value_valueText {c : MdioPhyConfig} (hc : c.Valid) (n : ℕ) {k : Key} (hk : k ∈ order) :
    Value Denoting (n + 2) (valueText c k) := by
  cases k with
  | name => exact value_quoted (safeName_plain hc.shaped.1).1
  | phyAddr => exact Value.number (decimal_number _)
  | regCount => exact Value.number (decimal_number _)
  | policy =>
    refine value_quoted ?_
    split
    · exact forall_bytes (by decide)
    · exact forall_bytes (by decide)
  | autopollEnabled =>
    refine Value.literal ?_
    rw [valueText]
    split
    · decide
    · decide
  | autopollRegDelayMs => exact Value.number (decimal_number _)
  | autopollCycleDelayMs => exact Value.number (decimal_number _)
  | autopollRegs => exact value_list (fun _ => Value.number (decimal_number _)) _
  | whitelist => exact value_list (value_rule n) _
  | blacklist => exact value_list (value_rule n) _
  | settings => exact value_list (value_setting n) _
  | writeAllowRegs => exact absurd hk (by decide)
  | writeDenyRegs => exact absurd hk (by decide)

theorem printedMember_ok {c : MdioPhyConfig} (hc : c.Valid) {m : Member} (hm : m ∈ order.map (printedMember c)) :
    MemberOk (depthMax - 1) m := by
  obtain ⟨k,hk,rfl⟩ := List.mem_map.mp hm
  exact printed_ok (plain_text k).1 blank_indent (blank_after k) (value_valueText hc 13 hk)

/-! ## Its length -/

theorem writeList_length {α : Type} (write : α → Text) {n : ℕ} (xs : List α) (h : ∀ x ∈ xs, (write x).length ≤ n) :
    (writeList write xs).length ≤ xs.length * (n + 2) := by
  have hcomma : (text ", ").length = 2 := by decide
  have hrest : ∀ ys : List α, (∀ x ∈ ys, (write x).length ≤ n) →
      (ys.flatMap fun y => text ", " ++ write y).length ≤ ys.length * (n + 2) := by
    intro ys hys
    induction ys with
    | nil => exact Nat.zero_le _
    | cons y ys ih =>
      have hy := hys y List.mem_cons_self
      have hmore := ih fun x hx => hys x (List.mem_cons_of_mem y hx)
      rw [List.flatMap_cons, List.length_append, List.length_append, hcomma, List.length_cons, Nat.succ_mul]
      omega
  cases xs with
  | nil => exact Nat.zero_le _
  | cons x xs =>
    have hx := h x List.mem_cons_self
    have hmore := hrest xs fun y hy => h y (List.mem_cons_of_mem x hy)
    rw [writeList, List.length_append, List.length_cons, Nat.succ_mul]
    omega

theorem writeField_length (r : MdioRule) (f : Field) : (writeField r f).length ≤ 13 := by
  have hle : f.get r < 10 ^ 5 := by
    cases f with
    | reg => exact r.reg.toNat_lt.trans (by decide)
    | val => exact r.val.toNat_lt.trans (by decide)
    | mask => exact r.mask.toNat_lt.trans (by decide)
  have hdecimal := decimal_length (by decide) hle
  have hkey : f.key.length ≤ 4 := by cases f <;> decide
  simp only [writeField, quoted, List.length_append, List.length_cons, List.length_nil]
  omega

theorem entry_length (r : MdioRule) (known : List Field) :
    (123 :: (writeList (writeField r) known ++ [125])).length ≤ known.length * 15 + 2 := by
  have hlist := writeList_length (writeField r) known fun f _ => writeField_length r f
  rw [List.length_cons, List.length_append, List.length_singleton]
  omega

theorem writeRule_length (r : MdioRule) : (writeRule r).length ≤ 47 := by
  rw [writeRule_eq]
  exact entry_length r [.reg,.val,.mask]

theorem writeSetting_length (s : MdioSetting) : (writeSetting s).length ≤ 47 := by
  rw [writeSetting_eq]
  exact (entry_length _ [.reg,.val]).trans (by decide)

theorem valueText_length {c : MdioPhyConfig} (hc : c.Valid) {k : Key} : (valueText c k).length ≤ 4096 := by
  obtain ⟨hname,-,-,-,-,-,hwhite,hblack,hsettings,hregs,-,-⟩ := hc.shaped
  have hdecimal : ∀ n < 10 ^ 10, (decimal n).length ≤ 4096 := fun n hn =>
    (decimal_length (by decide) hn).trans (by decide)
  have hbyte : ∀ b : UInt8, b.toNat < 10 ^ 10 := fun b => b.toNat_lt.trans (by decide)
  have hword : ∀ v : UInt32, v.toNat < 10 ^ 10 := fun v => v.toNat_lt.trans (by decide)
  cases k with
  | name =>
    have hlength : c.name.length < 32 := (safeName_plain hname).2
    simp only [valueText, quoted, List.length_cons, List.length_append, List.length_nil]
    omega
  | phyAddr => exact hdecimal _ (hbyte _)
  | regCount => exact hdecimal _ (hbyte _)
  | policy =>
    rw [valueText]
    split
    · decide
    · decide
  | autopollEnabled =>
    rw [valueText]
    split
    · decide
    · decide
  | autopollRegDelayMs => exact hdecimal _ (hword _)
  | autopollCycleDelayMs => exact hdecimal _ (hword _)
  | autopollRegs =>
    have hlist := writeList_length (n := 3) (fun r : UInt8 => decimal r.toNat) c.autopollRegs
      fun r _ => decimal_length (by decide) (r.toNat_lt.trans (by decide))
    unfold mdioAutopollRegsMax at hregs
    simp only [valueText, List.length_cons, List.length_append, List.length_nil]
    omega
  | whitelist =>
    have hlist := writeList_length writeRule c.whitelist fun r _ => writeRule_length r
    unfold mdioRulesMax at hwhite
    simp only [valueText, List.length_cons, List.length_append, List.length_nil]
    omega
  | blacklist =>
    have hlist := writeList_length writeRule c.blacklist fun r _ => writeRule_length r
    unfold mdioRulesMax at hblack
    simp only [valueText, List.length_cons, List.length_append, List.length_nil]
    omega
  | settings =>
    have hlist := writeList_length writeSetting c.settings fun s _ => writeSetting_length s
    unfold mdioSettingsMax at hsettings
    simp only [valueText, List.length_cons, List.length_append, List.length_nil]
    omega
  | writeAllowRegs => exact Nat.zero_le _
  | writeDenyRegs => exact Nat.zero_le _

theorem commas_length {n : ℕ} {ts : List Bytes} (h : ∀ t ∈ ts, t.length ≤ n) : (commas ts).length ≤ ts.length * (n + 1) := by
  induction ts with
  | nil => exact Nat.zero_le _
  | cons t ts ih =>
    have ht := h t List.mem_cons_self
    have hmore := ih fun u hu => h u (List.mem_cons_of_mem t hu)
    cases ts with
    | nil =>
      rw [commas_singleton, List.length_singleton]
      omega
    | cons u ts =>
      rw [commas_cons, List.length_append, List.length_cons (a := (44 : UInt8)), List.length_cons (a := t), Nat.succ_mul]
      omega

theorem formatText_length {c : MdioPhyConfig} (hc : c.Valid) : (formatText c).length ≤ profileJsonMax := by
  have hmembers : ∀ t ∈ (order.map (printedMember c)).map Member.text, t.length ≤ 4160 := by
    intro t ht
    rw [List.map_map] at ht
    obtain ⟨k,-,rfl⟩ := List.mem_map.mp ht
    have hvalue := valueText_length hc (k := k)
    have hkey := (plain_text k).2
    have hafter : (afterText k).length ≤ 1 := by cases k <;> decide
    have hindent : indent.length = 3 := rfl
    rw [Function.comp_apply, printedMember_text]
    simp only [memberText, quoted, List.length_append, List.length_cons, List.length_nil, hindent]
    omega
  have hcommas := commas_length hmembers
  rw [List.length_map, List.length_map] at hcommas
  have horder : order.length = 11 := rfl
  rw [horder] at hcommas
  rw [formatText_eq, objectText, profileJsonMax]
  simp only [List.length_append, List.length_cons, List.length_nil]
  omega

/-! ## The round trip -/

theorem order_ne_nil (c : MdioPhyConfig) : order.map (printedMember c) ≠ [] := List.cons_ne_nil _ _

/-- The text has no NUL. -/
theorem takeWhile_formatText {c : MdioPhyConfig} (hc : c.Valid) : (formatText c).takeWhile (· != 0) = formatText c := by
  have hvalue := value_nonzero (value_objectText (order_ne_nil c) fun m hm => printedMember_ok hc hm)
  refine takeWhile_nonzero ?_
  rw [formatText_eq, List.mem_append, not_or]
  exact ⟨hvalue,by decide⟩

/-- The document is of the older kind. -/
theorem profileVersion_formatText {c : MdioPhyConfig} (hc : c.Valid) : profileVersion (formatText c) = .ok 0 := by
  have hnewline : Blank [10] := fun b hb => Or.inr (Or.inr (Or.inl (List.mem_singleton.mp hb)))
  refine profileVersion_zero [] [10] (order_ne_nil c) (fun m hm => printedMember_ok hc hm) blank_nil hnewline ?_ ?_
    fun m hm => ?_
  · rw [takeWhile_formatText hc, formatText_eq, List.nil_append]
  · rw [takeWhile_formatText hc]
    exact formatText_length hc
  · obtain ⟨k,hk,rfl⟩ := List.mem_map.mp hm
    have hkey : keyOf (printedMember c k).name = k.text := keyOf_plain (plain_text k).1
    rw [hkey]
    cases k <;> decide

theorem readBack_valid {c : MdioPhyConfig} (hc : c.Valid) : (readBack c).Valid where
  shaped := ⟨hc.shaped.1,Or.inl rfl,hc.shaped.2.2⟩
  whitelist := hc.whitelist
  blacklist := hc.blacklist
  autopoll := hc.autopoll
  settings := hc.settings
  profile := by
    have hcount : c.regCount.toNat ≤ 32 := UInt8.le_iff_toNat_le.mp hc.shaped.2.2.2.2.1
    have hzero : ¬(i2cMaxRegCount < c.regCount.toNat ∨ registerMapValid [] = false ∨ assetNameValid [] jsExtension = false ∨
        (([] : Name) ≠ [] ∧ ([] : Name) = [])) := by
      unfold i2cMaxRegCount
      rintro (h | h | h | h)
      · omega
      · exact absurd h (by decide)
      · exact absurd h (by decide)
      · exact h.1 rfl
    exact if_neg hzero

/-- What the writer prints for a configuration is read as that configuration, without its file
name and its profile. -/
theorem parse_formatText {c : MdioPhyConfig} (hc : c.Valid) (parseProfile : Text → Except Status MdioPhyConfig) :
    parse parseProfile (formatText c) = .ok (readBack c) := by
  have hread := mdioConfigValidate_eq_ok.mpr (readBack_valid hc)
  have hbrace : isSpace 123 = false := by decide
  have hleft : order.length ≤ (commas ((order.map (printedMember c)).map Member.text) ++ 125 :: [10]).length + 1 := by
    have hcount := length_le_commas ((order.map (printedMember c)).map Member.text)
    rw [List.length_map, List.length_map] at hcount
    rw [List.length_append]
    omega
  have htext : formatText c = 123 :: (commas ((order.map (printedMember c)).map Member.text) ++ 125 :: [10]) := by
    rw [formatText_eq, objectText, List.cons_append, List.append_assoc]
    rfl
  have hdone : ¬(ws [10] ≠ [] ∨ ¬(∀ k ∈ [Key.name,.phyAddr,.regCount,.policy], k ∈ order.reverse) ∨
      mdioConfigValidate (readBack c) ≠ .ok) := by
    rintro (h | h | h)
    · exact h (by decide)
    · exact h (by decide)
    · exact h hread
  rw [parse, profileVersion_formatText hc]
  dsimp only
  rw [if_neg (by decide), takeWhile_formatText hc, htext, ch_cons hbrace]
  dsimp only
  rw [items_document hc [10] hleft]
  exact if_neg hdone

/-- MDIO configurations survive the older kind of file: what `format` prints for a configuration
that passes the check, into any buffer with room for it, is read without an error, and all the
fields of the bus come back, the lists in order. -/
theorem mdio_codec_round_trip (parseProfile : Text → Except Status MdioPhyConfig) (c : MdioPhyConfig) (cap : ℕ)
    (json : Text) (hc : mdioConfigValidate c = .ok) (hformat : format c cap = .ok json) :
    ∃ c', parse parseProfile json = .ok c' ∧ c'.name = c.name ∧ c'.phyAddr = c.phyAddr ∧ c'.regCount = c.regCount ∧
      c'.policy = c.policy ∧ c'.autopollEnabled = c.autopollEnabled ∧ c'.autopollRegDelayMs = c.autopollRegDelayMs ∧
      c'.autopollCycleDelayMs = c.autopollCycleDelayMs ∧ c'.autopollRegs = c.autopollRegs ∧ c'.whitelist = c.whitelist ∧
      c'.blacklist = c.blacklist ∧ c'.settings = c.settings := by
  have hjson : json = formatText c := by
    unfold format at hformat
    split_ifs at hformat
    exact (Except.ok.inj hformat).symm
  rw [hjson]
  exact ⟨readBack c,parse_formatText (mdioConfigValidate_eq_ok.mp hc) parseProfile,rfl,rfl,rfl,rfl,rfl,rfl,rfl,rfl,rfl,rfl,rfl⟩

/-- A PHY with one rule and the last register polled. -/
def samplePhy : MdioPhyConfig :=
  ⟨[112,104,121],[],1,32,1,true,[31,0],10,600000,[],[⟨31,0xFFFF,0x00FF⟩],[⟨0,0x3100⟩],[],.zero⟩

theorem mdio_codec_round_trip_sample : ∃ c', parse (fun _ => .error .unsupported) (formatText samplePhy) = .ok c' ∧
    c'.name = samplePhy.name ∧ c'.phyAddr = samplePhy.phyAddr ∧ c'.regCount = samplePhy.regCount ∧
    c'.policy = samplePhy.policy ∧ c'.autopollEnabled = samplePhy.autopollEnabled ∧
    c'.autopollRegDelayMs = samplePhy.autopollRegDelayMs ∧ c'.autopollCycleDelayMs = samplePhy.autopollCycleDelayMs ∧
    c'.autopollRegs = samplePhy.autopollRegs ∧ c'.whitelist = samplePhy.whitelist ∧ c'.blacklist = samplePhy.blacklist ∧
    c'.settings = samplePhy.settings := by
  have hvalid : mdioConfigValidate samplePhy = .ok := by decide +kernel
  have hroom : (formatText samplePhy).length < 65537 :=
    Nat.lt_succ_of_le (formatText_length (mdioConfigValidate_eq_ok.mp hvalid))
  have hformat : format samplePhy 65537 = .ok (formatText samplePhy) := by
    rw [format, if_neg (by simp [hvalid]), if_pos hroom]
  exact mdio_codec_round_trip _ samplePhy 65537 _ hvalid hformat

end Bvstk.Config.MdioJson
