import Bvstk.Config.ProfileDocument
import Bvstk.Library.JsonPrinter
import Bvstk.Library.Utf8Text

/-! # The text of a profile

What the writer leaves in its buffer when there is room, and that a document laid out with any
blanks means the tree of its profile.
-/
namespace Bvstk.Config.Profile
open JsonText (Blank Denotes Layout Means Names Piece Quotes Tree lay_members memberText piecesText printList_eq print_means stringToken utf8)
open Utf8Text (IsText isText_ascii)
open I2cJson (decimal)

/-! ## The writer -/

/-- A string between quotes. -/
def token (s : Name) : Bytes := 34 :: (s.flatMap escape ++ [34])

/-- What a call writes. -/
def Output.bytes : Output → Bytes
  | .text s => s
  | .quoted s => token s

/-- A call that can succeed. -/
def Output.Fine : Output → Prop
  | .text _ => True
  | .quoted s => Printable s

/-- The writer behind some bytes. -/
def Writer.wrote (w : Writer) (s : Bytes) : Writer := { w with out := w.out ++ s }

@[simp] theorem wrote_failed (w : Writer) (s : Bytes) : (w.wrote s).failed = w.failed := rfl
@[simp] theorem wrote_cap (w : Writer) (s : Bytes) : (w.wrote s).cap = w.cap := rfl
@[simp] theorem wrote_out (w : Writer) (s : Bytes) : (w.wrote s).out = w.out ++ s := rfl

theorem wrote_wrote (w : Writer) (s t : Bytes) : (w.wrote s).wrote t = w.wrote (s ++ t) := by
  rw [Writer.wrote, Writer.wrote, Writer.wrote, List.append_assoc]

/-- The writer goes on if there is room. -/
theorem append_eq {w : Writer} (hw : w.failed = false) {s : Bytes} (hroom : w.out.length + s.length < w.cap) :
    w.append s = w.wrote s := by
  rw [Writer.append, if_neg (by rw [hw]; decide), if_neg (by omega)]
  rfl

theorem append_full {w : Writer} {s : Bytes} (hroom : w.cap ≤ w.out.length + s.length) : (w.append s).failed = true := by
  unfold Writer.append
  split
  · assumption
  · rw [if_pos (by omega)]

theorem append_failed {w : Writer} (hw : w.failed = true) (s : Bytes) : w.append s = w := if_pos hw

theorem quotedChars_failed {w : Writer} (hw : w.failed = true) (s : Name) : (w.quotedChars s).failed = true := by
  induction s generalizing w with
  | nil => rw [Writer.quotedChars, append_failed hw, hw]
  | cons c s ih =>
    rw [Writer.quotedChars]
    split
    · rfl
    · exact ih (by rw [append_failed hw, hw])

theorem quotedChars_eq {w : Writer} (hw : w.failed = false) {s : Name} (hs : Printable s)
    (hroom : w.out.length + (s.flatMap escape ++ [34]).length < w.cap) :
    w.quotedChars s = w.wrote (s.flatMap escape ++ [34]) := by
  induction s generalizing w with
  | nil => exact append_eq hw hroom
  | cons c s ih =>
    obtain ⟨hlow,hdel⟩ := hs c List.mem_cons_self
    have hplain : ¬(c < 32 ∨ c = 127) := by
      rintro (h | h)
      · exact absurd hlow (UInt8.not_le.mpr h)
      · exact hdel h
    rw [List.flatMap_cons] at hroom ⊢
    simp only [List.length_append] at hroom
    have hrest := ih (w := w.wrote (escape c)) hw (fun b hb => hs b (List.mem_cons_of_mem c hb))
      (by simp only [wrote_out, wrote_cap, List.length_append]; omega)
    rw [Writer.quotedChars, if_neg hplain, append_eq hw (by omega), hrest, wrote_wrote, List.append_assoc]

theorem quotedChars_fine {w : Writer} {s : Name} (h : (w.quotedChars s).failed = false) :
    Printable s ∧ w.out.length + (s.flatMap escape ++ [34]).length < w.cap := by
  induction s generalizing w with
  | nil =>
    have hnil : Printable [] := by intro b hb; cases hb
    refine ⟨hnil,?_⟩
    by_contra hroom
    have hfull : (w.append [34]).failed = true := append_full (Nat.le_of_not_lt hroom)
    rw [Writer.quotedChars, hfull] at h
    cases h
  | cons c s ih =>
    rw [Writer.quotedChars] at h
    split at h
    · cases h
    rename_i hplain
    rw [not_or] at hplain
    obtain ⟨hs,hroom⟩ := ih h
    have hw : w.failed = false := by
      by_contra hw
      rw [quotedChars_failed (by rw [append_failed (Bool.eq_true_of_not_eq_false hw)]; exact Bool.eq_true_of_not_eq_false hw)] at h
      cases h
    have happend : w.out.length + (escape c).length < w.cap := by
      by_contra hfull
      rw [quotedChars_failed (append_full (Nat.le_of_not_lt hfull))] at h
      cases h
    rw [append_eq hw happend] at hroom
    simp only [wrote_out, wrote_cap, List.length_append, List.flatMap_cons] at hroom ⊢
    exact ⟨List.forall_mem_cons.mpr ⟨⟨UInt8.not_lt.mp hplain.1,hplain.2⟩,hs⟩,by omega⟩

theorem put_failed {w : Writer} (hw : w.failed = true) (o : Output) : (w.put o).failed = true := by
  cases o with
  | text s => rw [Writer.put, append_failed hw, hw]
  | quoted s => exact quotedChars_failed (by rw [append_failed hw, hw]) s

theorem put_eq {w : Writer} (hw : w.failed = false) {o : Output} (ho : o.Fine) (hroom : w.out.length + o.bytes.length < w.cap) :
    w.put o = w.wrote o.bytes := by
  cases o with
  | text s => exact append_eq hw hroom
  | quoted s =>
    rw [Output.bytes, token, List.length_cons] at hroom
    have hrest := quotedChars_eq (w := w.wrote [34]) hw ho
      (by rw [wrote_out, wrote_cap, List.length_append, List.length_singleton]; omega)
    rw [Writer.put, append_eq hw (by rw [List.length_singleton]; omega), hrest, wrote_wrote]
    rfl

theorem put_fine {w : Writer} {o : Output} (h : (w.put o).failed = false) :
    o.Fine ∧ w.out.length + o.bytes.length < w.cap := by
  cases o with
  | text s =>
    refine ⟨trivial,?_⟩
    by_contra hroom
    have hfull : (w.append s).failed = true := append_full (Nat.le_of_not_lt hroom)
    rw [Writer.put, hfull] at h
    cases h
  | quoted s =>
    have hw : w.failed = false := by
      by_contra hw
      rw [put_failed (Bool.eq_true_of_not_eq_false hw)] at h
      cases h
    rw [Writer.put] at h
    obtain ⟨hs,hroom⟩ := quotedChars_fine h
    have hquote : w.out.length + [34].length < w.cap := by
      by_contra hfull
      rw [quotedChars_failed (append_full (Nat.le_of_not_lt hfull))] at h
      cases h
    rw [append_eq hw hquote] at hroom
    simp only [wrote_out, wrote_cap, List.length_append, List.length_singleton] at hroom
    refine ⟨hs,?_⟩
    rw [Output.bytes, token, List.length_cons, List.length_append, List.length_singleton]
    omega

theorem puts_stuck {w : Writer} (hw : w.failed = true) (os : List Output) : (os.foldl Writer.put w).failed = true := by
  induction os generalizing w with
  | nil => exact hw
  | cons o os ih => exact ih (put_failed hw o)

/-- All calls succeed if each can and there is room for the whole text. -/
theorem puts_failed {w : Writer} (hw : w.failed = false) (hcap : w.out.length < w.cap) (os : List Output) :
    (os.foldl Writer.put w).failed = false ↔ (∀ o ∈ os, o.Fine) ∧ w.out.length + (os.flatMap Output.bytes).length < w.cap := by
  induction os generalizing w with
  | nil => simpa [hw] using hcap
  | cons o os ih =>
    rw [List.foldl_cons, List.forall_mem_cons, List.flatMap_cons, List.length_append]
    by_cases ho : o.Fine ∧ w.out.length + o.bytes.length < w.cap
    · have hrest := ih (w := w.wrote o.bytes) hw (by rw [wrote_out, wrote_cap, List.length_append]; exact ho.2)
      rw [put_eq hw ho.1 ho.2, hrest, wrote_out, wrote_cap, List.length_append]
      constructor
      · exact fun ⟨hos,hroom⟩ => ⟨⟨ho.1,hos⟩,by omega⟩
      · exact fun ⟨⟨_,hos⟩,hroom⟩ => ⟨hos,by omega⟩
    · have hput : (w.put o).failed = true := by
        by_contra hfine
        exact ho (put_fine (Bool.eq_false_of_not_eq_true hfine))
      rw [puts_stuck hput]
      constructor
      · exact fun h => nomatch h
      · exact fun ⟨⟨ho',_⟩,hroom⟩ => absurd ⟨ho',by omega⟩ ho

theorem puts_eq {w : Writer} (hw : w.failed = false) {os : List Output} (hos : ∀ o ∈ os, o.Fine)
    (hroom : w.out.length + (os.flatMap Output.bytes).length < w.cap) :
    os.foldl Writer.put w = w.wrote (os.flatMap Output.bytes) := by
  induction os generalizing w with
  | nil => simp [Writer.wrote]
  | cons o os ih =>
    obtain ⟨ho,hos⟩ := List.forall_mem_cons.mp hos
    rw [List.flatMap_cons, List.length_append] at hroom
    have hrest := ih (w := w.wrote o.bytes) hw hos (by rw [wrote_out, wrote_cap, List.length_append]; omega)
    rw [List.foldl_cons, put_eq hw ho (by omega), hrest, wrote_wrote, List.flatMap_cons]

/-- The text of a profile, if nothing limits it. -/
def formatText (mdio : Bool) (p : DeviceProfile) : Bytes := (outputs mdio p).flatMap Output.bytes

/-- When `format` succeeds, and with what. -/
theorem format_eq_ok {mdio : Bool} {p : DeviceProfile} {cap : ℕ} {json : Bytes} : format mdio p cap = .ok json ↔
    idValid p.name = true ∧ (∀ o ∈ outputs mdio p, o.Fine) ∧ (formatText mdio p).length < cap ∧
      (formatText mdio p).length ≤ profileJsonMax ∧ json = formatText mdio p := by
  unfold format
  by_cases hcap : cap = 0
  · rw [if_pos hcap, hcap]
    simp
  rw [if_neg hcap]
  by_cases hname : idValid p.name = false
  · rw [if_pos hname, hname]
    simp
  rw [if_neg hname]
  have hstart := puts_failed (w := ⟨cap,[],false⟩) rfl (Nat.pos_of_ne_zero hcap) (outputs mdio p)
  rw [List.length_nil, Nat.zero_add, ← formatText] at hstart
  by_cases hfine : (∀ o ∈ outputs mdio p, o.Fine) ∧ (formatText mdio p).length < cap
  · have hputs := puts_eq (w := ⟨cap,[],false⟩) rfl hfine.1 (by rw [List.length_nil, Nat.zero_add]; exact hfine.2)
    dsimp only
    rw [hputs, wrote_failed, wrote_out, List.nil_append, ← formatText]
    by_cases hmax : (formatText mdio p).length ≤ profileJsonMax
    · rw [if_neg (by simpa using hmax)]
      constructor
      · exact fun h => ⟨Bool.eq_true_of_not_eq_false hname,hfine.1,hfine.2,hmax,(Except.ok.inj h).symm⟩
      · exact fun ⟨_,_,_,_,h⟩ => congrArg Except.ok h.symm
    · rw [if_pos (Or.inr (Nat.lt_of_not_le hmax))]
      simp [hmax]
  · have hfailed : ((outputs mdio p).foldl Writer.put ⟨cap,[],false⟩).failed = true := by
      by_contra hno
      exact hfine (hstart.mp (Bool.eq_false_of_not_eq_true hno))
    dsimp only
    rw [if_pos (Or.inl hfailed)]
    constructor
    · exact fun h => nomatch h
    · exact fun ⟨_,hall,hroom,_⟩ => absurd ⟨hall,hroom⟩ hfine

/-! ## Strings that can be quoted -/

/-- Text in UTF-8 without control characters. -/
def Written (s : Bytes) : Prop := IsText s ∧ Printable s

theorem Ascii.written {s : Bytes} (h : Ascii s) : Written s :=
  ⟨isText_ascii fun b hb => Nat.lt_succ_of_lt (UInt8.lt_iff_toNat_lt.mp (h b hb).2),h.printable⟩

theorem escape_wide {t : Bytes} (h : ∀ b ∈ t, 128 ≤ b.toNat) : t.flatMap escape = t := by
  induction t with
  | nil => rfl
  | cons b t ih =>
    have hb := h b List.mem_cons_self
    have hplain : ¬(b = 34 ∨ b = 92) := by
      rintro (rfl | rfl)
      · exact absurd hb (by decide)
      · exact absurd hb (by decide)
    rw [List.flatMap_cons, ih fun c hc => h c (List.mem_cons_of_mem b hc), escape, if_neg hplain]
    rfl

/-- The pieces between the quotes. -/
theorem written_pieces {s : Bytes} (h : IsText s) (hs : Printable s) : ∃ ps cs, (∀ p ∈ ps, p.Valid) ∧ Denotes ps cs ∧
    utf8 cs = s ∧ piecesText ps = s.flatMap escape := by
  induction h with
  | nil => exact ⟨[],[],by simp,.nil,rfl,rfl⟩
  | ascii hb hrest ih =>
    rename_i b t
    obtain ⟨hlow,hrestPrintable⟩ := List.forall_mem_cons.mp hs
    obtain ⟨ps,cs,hvalid,hdenotes,hutf8,htext⟩ := ih hrestPrintable
    have hbyte : String.utf8EncodeChar (Char.ofNat b.toNat) = [b] := by rw [encode_ascii hb, UInt8.ofNat_toNat]
    by_cases hescape : b = 34 ∨ b = 92
    · have hmem : (b,b.toNat) ∈ JsonText.shortEscapes := by
        rcases hescape with rfl | rfl
        · decide
        · decide
      refine ⟨.short b :: ps,Char.ofNat b.toNat :: cs,List.forall_mem_cons.mpr ⟨⟨_,hmem⟩,hvalid⟩,.cons (.short hmem) hdenotes,?_,?_⟩
      · rw [JsonText.utf8_cons, hbyte, hutf8, List.singleton_append]
      · rw [piecesText, List.flatMap_cons, ← piecesText, htext, List.flatMap_cons, escape, if_pos hescape, Piece.text]
    · have hchar : (Char.ofNat b.toNat).toNat = b.toNat := toNat_charOfNat (by rw [Nat.isValidChar]; omega)
      have hplain : Piece.Valid (.plain (Char.ofNat b.toNat)) := by
        rw [not_or] at hescape
        rw [Piece.Valid, hchar]
        exact ⟨UInt8.le_iff_toNat_le.mp hlow.1,fun heq => hescape.1 (UInt8.toNat_inj.mp heq),
          fun heq => hescape.2 (UInt8.toNat_inj.mp heq)⟩
      refine ⟨.plain (Char.ofNat b.toNat) :: ps,Char.ofNat b.toNat :: cs,List.forall_mem_cons.mpr ⟨hplain,hvalid⟩,
        .cons (.plain _) hdenotes,?_,?_⟩
      · rw [JsonText.utf8_cons, hbyte, hutf8, List.singleton_append]
      · rw [piecesText, List.flatMap_cons, ← piecesText, htext, List.flatMap_cons, escape, if_neg hescape, Piece.text, hbyte]
  | wide hc hrest ih =>
    rename_i c t
    obtain ⟨-,hhigh⟩ := Utf8Text.encode_wide hc
    obtain ⟨ps,cs,hvalid,hdenotes,hutf8,htext⟩ := ih fun b hb => hs b (List.mem_append_right _ hb)
    have hplain : Piece.Valid (.plain c) := ⟨by omega,by omega,by omega⟩
    refine ⟨.plain c :: ps,c :: cs,List.forall_mem_cons.mpr ⟨hplain,hvalid⟩,.cons (.plain _) hdenotes,?_,?_⟩
    · rw [JsonText.utf8_cons, hutf8]
    · rw [piecesText, List.flatMap_cons, ← piecesText, htext, List.flatMap_append, escape_wide hhigh, Piece.text]

theorem quotes_token : Quotes Denoting Written token := by
  intro s hs
  obtain ⟨ps,cs,hvalid,hdenotes,hutf8,htext⟩ := written_pieces hs.1 hs.2
  have hnonzero : ∀ c ∈ cs, c.toNat ≠ 0 := by
    apply utf8_noNul
    rintro b hb rfl
    exact absurd (hs.2 0 (hutf8 ▸ hb)).1 (by decide)
  exact ⟨ps,⟨hvalid,⟨cs,hdenotes,hnonzero⟩,cs,hdenotes,hutf8⟩,by rw [stringToken, htext, token]⟩

end Bvstk.Config.Profile
