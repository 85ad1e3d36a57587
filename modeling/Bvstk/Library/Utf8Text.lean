import Bvstk.Library.JsonText

/-! # Texts in UTF-8

Bytes that are characters in UTF-8, one after the other. An ASCII byte in such a text is a
character of its own, so what stands in front of it and behind it is text as well.
-/
namespace Utf8Text
open JsonText (Bytes utf8 utf8_nil utf8_cons)

theorem encode_single {c : Char} (hc : c.toNat < 128) : String.utf8EncodeChar c = [UInt8.ofNat c.toNat] := by
  have hval : c.val.toNat = c.toNat := rfl
  unfold String.utf8EncodeChar
  dsimp only
  rw [hval, if_pos (by omega)]

theorem toNat_byte {n : ℕ} (hn : n < 256) : (UInt8.ofNat n).toNat = n := UInt8.toNat_ofNat_of_lt' hn

/-- The bytes of a character that is not in ASCII are not in ASCII either. -/
theorem encode_wide {c : Char} (hc : 128 ≤ c.toNat) :
    String.utf8EncodeChar c ≠ [] ∧ ∀ b ∈ String.utf8EncodeChar c, 128 ≤ b.toNat := by
  have hval : c.val.toNat = c.toNat := rfl
  have hbyte : ∀ n m, n % m + 128 < 256 → 128 ≤ (UInt8.ofNat (n % m + 128)).toNat := fun n m h => by
    rw [toNat_byte h]
    exact Nat.le_add_left _ _
  unfold String.utf8EncodeChar
  dsimp only
  rw [hval, if_neg (by omega)]
  generalize c.toNat = n
  split_ifs
  · refine ⟨List.cons_ne_nil _ _,fun b hb => ?_⟩
    simp only [List.mem_cons, List.not_mem_nil, or_false] at hb
    rcases hb with rfl | rfl
    · rw [toNat_byte (by omega)]
      omega
    · exact hbyte _ _ (by omega)
  · refine ⟨List.cons_ne_nil _ _,fun b hb => ?_⟩
    simp only [List.mem_cons, List.not_mem_nil, or_false] at hb
    rcases hb with rfl | rfl | rfl
    · rw [toNat_byte (by omega)]
      omega
    · exact hbyte _ _ (by omega)
    · exact hbyte _ _ (by omega)
  · refine ⟨List.cons_ne_nil _ _,fun b hb => ?_⟩
    simp only [List.mem_cons, List.not_mem_nil, or_false] at hb
    rcases hb with rfl | rfl | rfl | rfl
    · rw [toNat_byte (by omega)]
      omega
    · exact hbyte _ _ (by omega)
    · exact hbyte _ _ (by omega)
    · exact hbyte _ _ (by omega)

/-- Characters in UTF-8. -/
inductive IsText : Bytes → Prop
  | nil : IsText []
  | ascii {b : UInt8} {t : Bytes} (hb : b.toNat < 128) (rest : IsText t) : IsText (b :: t)
  | wide {c : Char} {t : Bytes} (hc : 128 ≤ c.toNat) (rest : IsText t) : IsText (String.utf8EncodeChar c ++ t)

theorem isText_utf8 (cs : List Char) : IsText (utf8 cs) := by
  induction cs with
  | nil => exact .nil
  | cons c cs ih =>
    rw [utf8_cons]
    by_cases hc : c.toNat < 128
    · have hsize : c.toNat < 256 := by omega
      rw [encode_single hc]
      exact .ascii (by rwa [toNat_byte hsize]) ih
    · exact .wide (by omega) ih

theorem IsText.chars {t : Bytes} (h : IsText t) : ∃ cs, t = utf8 cs := by
  induction h with
  | nil => exact ⟨[],rfl⟩
  | ascii hb rest ih =>
    rename_i b t
    obtain ⟨cs,rfl⟩ := ih
    have hvalid : (b.toNat).isValidChar := Or.inl (by omega)
    have hc : (Char.ofNat b.toNat).toNat = b.toNat := by
      rw [Char.ofNat, dif_pos hvalid]
      rfl
    refine ⟨Char.ofNat b.toNat :: cs,?_⟩
    rw [utf8_cons, encode_single (by rwa [hc]), hc, UInt8.ofNat_toNat]
    rfl
  | wide hc rest ih =>
    rename_i c t
    obtain ⟨cs,rfl⟩ := ih
    exact ⟨c :: cs,rfl⟩

theorem IsText.append {s t : Bytes} (hs : IsText s) (ht : IsText t) : IsText (s ++ t) := by
  induction hs with
  | nil => exact ht
  | ascii hb rest ih => exact .ascii hb ih
  | wide hc rest ih =>
    rw [List.append_assoc]
    exact .wide hc ih

/-- ASCII bytes are text. -/
theorem isText_ascii {t : Bytes} (h : ∀ b ∈ t, b.toNat < 128) : IsText t := by
  induction t with
  | nil => exact .nil
  | cons b t ih => exact .ascii (h b List.mem_cons_self) (ih fun c hc => h c (List.mem_cons_of_mem b hc))

/-- A text is cut in front of an ASCII byte and behind it. -/
theorem IsText.split {s t : Bytes} {b : UInt8} (h : IsText (s ++ b :: t)) (hb : b.toNat < 128) : IsText s ∧ IsText t := by
  generalize htext : s ++ b :: t = text at h
  induction h generalizing s with
  | nil => simp at htext
  | ascii hc rest ih =>
    rename_i c u
    cases s with
    | nil =>
      cases htext
      exact ⟨.nil,rest⟩
    | cons d s =>
      cases htext
      obtain ⟨hs,ht⟩ := ih rfl
      exact ⟨.ascii hc hs,ht⟩
  | wide hc rest ih =>
    rename_i c u
    obtain ⟨-,hhigh⟩ := encode_wide hc
    -- the byte is behind the character, since it is none of its bytes
    rcases List.append_eq_append_iff.mp htext with ⟨more,hencode,hmore⟩ | ⟨more,rfl,hu⟩
    · cases more with
      | nil =>
        rw [List.append_nil] at hencode
        obtain ⟨-,ht⟩ := ih (s := []) hmore
        have hs : IsText s := by
          rw [← hencode, ← List.append_nil (String.utf8EncodeChar c)]
          exact .wide hc .nil
        exact ⟨hs,ht⟩
      | cons d more =>
        cases hmore
        have hmem : b ∈ String.utf8EncodeChar c := by
          rw [hencode]
          exact List.mem_append_right _ List.mem_cons_self
        have := hhigh b hmem
        omega
    · obtain ⟨hs,ht⟩ := ih hu.symm
      exact ⟨.wide hc hs,ht⟩

theorem IsText.tail {t : Bytes} {b : UInt8} (h : IsText (b :: t)) (hb : b.toNat < 128) : IsText t :=
  (IsText.split (s := []) h hb).2

/-- ASCII bytes at the start may be dropped. -/
theorem IsText.dropWhile {p : UInt8 → Bool} (hp : ∀ b, p b = true → b.toNat < 128) {t : Bytes} (h : IsText t) :
    IsText (t.dropWhile p) := by
  induction t with
  | nil => exact h
  | cons b t ih =>
    cases hb : p b with
    | true =>
      rw [List.dropWhile_cons_of_pos hb]
      exact ih (h.tail (hp b hb))
    | false =>
      rw [List.dropWhile_cons_of_neg (by rw [hb]; exact Bool.false_ne_true)]
      exact h

/-- A text ends in front of its first NUL. -/
theorem IsText.takeWhile {t : Bytes} (h : IsText t) : IsText (t.takeWhile (· != 0)) := by
  by_cases hzero : t.dropWhile (· != 0) = []
  · have hall : t.takeWhile (· != 0) = t := by
      have hsplit := List.takeWhile_append_dropWhile (p := (· != 0)) (l := t)
      rwa [hzero, List.append_nil] at hsplit
    rwa [hall]
  · obtain ⟨b,more,hdrop⟩ := List.exists_cons_of_ne_nil hzero
    have hhead := List.head?_dropWhile_not (· != 0) t
    rw [hdrop] at hhead
    have hb : b = 0 := by simpa using hhead
    have hsplit := List.takeWhile_append_dropWhile (p := (· != 0)) (l := t)
    rw [hdrop, hb] at hsplit
    rw [← hsplit] at h
    exact (h.split (by decide)).1

end Utf8Text
