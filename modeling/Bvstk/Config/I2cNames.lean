import Bvstk.Config.Printing
import Bvstk.Library.Utf8Text

/-! # The names that are read from a document

A document is text in UTF-8, and so is the name that the older reader takes from it, wherever
it finds it: both ends of what it copies are ASCII.
-/
namespace Bvstk.Config.I2cJson
open JsonText (Piece Element Member Blank IsBlank IsDigit commas stringToken piecesText utf8 Value ObjectText)
open Utf8Text (IsText isText_utf8 isText_ascii)
open CNumber (isSpace)

/-! ## Documents -/

theorem isText_char (c : Char) : IsText (String.utf8EncodeChar c) := by
  have htext := isText_utf8 [c]
  rwa [JsonText.utf8_cons, JsonText.utf8_nil, List.append_nil] at htext

theorem blank_ascii {t : Bytes} (h : Blank t) : IsText t := by
  refine isText_ascii fun b hb => ?_
  rcases h b hb with rfl | rfl | rfl | rfl
  all_goals decide

theorem digits_ascii {t : Bytes} (h : ∀ b ∈ t, IsDigit b) : IsText t := by
  refine isText_ascii fun b hb => ?_
  have hhigh := UInt8.le_iff_toNat_le.mp (h b hb).2
  have h57 : (57 : UInt8).toNat = 57 := rfl
  omega

theorem number_ascii {t : Bytes} (h : JsonText.Number t) : IsText t := by
  obtain ⟨minus,int,frac,exp,rfl,hminus,hint,hfrac,hexp⟩ := h
  refine ((IsText.append ?_ (digits_ascii hint.1.2)).append ?_).append ?_
  · rcases hminus with rfl | rfl
    · exact .nil
    · exact .ascii (by decide) .nil
  · rcases hfrac with rfl | ⟨ds,rfl,hds⟩
    · exact .nil
    · exact .ascii (by decide) (digits_ascii hds.2)
  · rcases hexp with rfl | ⟨letter,sign,ds,rfl,hletter,hsign,hds⟩
    · exact .nil
    · refine .ascii ?_ (IsText.append ?_ (digits_ascii hds.2))
      · rcases hletter with rfl | rfl
        · decide
        · decide
      · rcases hsign with rfl | rfl | rfl
        · exact .nil
        · exact .ascii (by decide) .nil
        · exact .ascii (by decide) .nil

theorem piece_isText {p : Piece} (h : p.Valid) : IsText p.text := by
  cases p with
  | plain c => exact isText_char c
  | short letter =>
    obtain ⟨n,hn⟩ := h
    have hletter : letter.toNat < 128 := by
      simp only [JsonText.shortEscapes, List.mem_cons, Prod.mk.injEq, List.not_mem_nil, or_false] at hn
      rcases hn with ⟨rfl,-⟩ | ⟨rfl,-⟩ | ⟨rfl,-⟩ | ⟨rfl,-⟩ | ⟨rfl,-⟩ | ⟨rfl,-⟩ | ⟨rfl,-⟩ | ⟨rfl,-⟩
      all_goals decide
    exact .ascii (by decide) (.ascii hletter .nil)
  | unicode a b c d =>
    obtain ⟨n,x,y,z,u,ha,hb,hc,hd,-⟩ := h
    have hhex : ∀ {b : UInt8} {d : ℕ}, JsonText.HexDigit b d → b.toNat < 128 := fun hb => by
      rw [JsonText.HexDigit] at hb
      omega
    exact .ascii (by decide) (.ascii (by decide) (.ascii (hhex ha) (.ascii (hhex hb) (.ascii (hhex hc) (.ascii (hhex hd) .nil)))))

theorem token_isText {ps : List Piece} (h : ∀ p ∈ ps, p.Valid) : IsText (stringToken ps) := by
  have hpieces : IsText (piecesText ps) := by
    induction ps with
    | nil => exact .nil
    | cons p ps ih =>
      rw [piecesText, List.flatMap_cons]
      exact (piece_isText (h p List.mem_cons_self)).append (ih fun q hq => h q (List.mem_cons_of_mem p hq))
  exact .ascii (by decide) (hpieces.append (.ascii (by decide) .nil))

theorem commas_isText {ts : List Bytes} (h : ∀ t ∈ ts, IsText t) : IsText (commas ts) := by
  induction ts with
  | nil => exact .nil
  | cons t ts ih =>
    have ht := h t List.mem_cons_self
    have hmore := ih fun u hu => h u (List.mem_cons_of_mem t hu)
    cases ts with
    | nil => rwa [commas_singleton]
    | cons u ts =>
      rw [commas_cons]
      exact ht.append (.ascii (by decide) hmore)

/-- A value of the grammar is text. -/
theorem value_isText {ok : List Piece → Prop} {n : ℕ} {t : Bytes} (h : Value ok n t) : IsText t := by
  induction h with
  | literal h =>
    simp only [JsonText.literals, List.mem_cons, List.not_mem_nil, or_false] at h
    rcases h with rfl | rfl | rfl
    all_goals exact isText_ascii (forall_bytes (by decide))
  | number h => exact number_ascii h
  | string hvalid hok => exact token_isText hvalid
  | emptyArray hblank => exact .ascii (by decide) ((blank_ascii hblank).append (.ascii (by decide) .nil))
  | emptyObject hblank => exact .ascii (by decide) ((blank_ascii hblank).append (.ascii (by decide) .nil))
  | array hne hblank hvalue ih =>
    refine .ascii (by decide) (IsText.append (commas_isText fun t ht => ?_) (.ascii (by decide) .nil))
    obtain ⟨e,he,rfl⟩ := List.mem_map.mp ht
    exact ((blank_ascii (hblank e he).1).append (ih e he)).append (blank_ascii (hblank e he).2)
  | object hne hblank hname hvalue ih =>
    refine .ascii (by decide) (IsText.append (commas_isText fun t ht => ?_) (.ascii (by decide) .nil))
    obtain ⟨m,hm,rfl⟩ := List.mem_map.mp ht
    obtain ⟨hbefore,hmiddle,hahead,hafter⟩ := hblank m hm
    have helement : IsText m.element.text := ((blank_ascii hahead).append (ih m hm)).append (blank_ascii hafter)
    exact (((blank_ascii hbefore).append (token_isText (hname m hm).1)).append (blank_ascii hmiddle)).append
      (.ascii (by decide) helement)

/-- A document that has a version is text. -/
theorem profileVersion_isText {json : Bytes} {version : ℕ} (h : profileVersion json = .ok version) :
    IsText (json.takeWhile (· != 0)) := by
  have hdocument : (document json).isSome = true := by
    unfold profileVersion at h
    cases hdocument : document json with
    | none =>
      rw [hdocument] at h
      cases h
    | some root => rfl
  obtain ⟨-,before,v,after,htext,hbefore,hafter,hv,-⟩ := (document_isSome json).mp hdocument
  rw [htext]
  exact ((blank_ascii hbefore).append (value_isText hv)).append (blank_ascii hafter)

/-! ## What the reader finds -/

theorem isSpace_ascii (b : UInt8) (h : isSpace b = true) : b.toNat < 128 := by
  unfold isSpace at h
  simp only [Bool.or_eq_true, beq_iff_eq, decide_eq_true_eq, UInt8.le_iff_toNat_le] at h
  have h13 : (13 : UInt8).toNat = 13 := rfl
  rcases h with rfl | h
  · decide
  · omega

theorem skipWs_isText {t : Text} (h : IsText t) : IsText (skipWs t) := h.dropWhile isSpace_ascii

/-- The text behind the first occurrence of a pattern. -/
theorem afterPattern_some {pattern t rest : Text} (h : afterPattern pattern t = some rest) :
    ∃ a, t = a ++ pattern ++ rest := by
  induction t with
  | nil =>
    unfold afterPattern at h
    split_ifs at h with hnil
    cases h
    exact ⟨[],by rw [hnil]; rfl⟩
  | cons c t ih =>
    unfold afterPattern at h
    split_ifs at h with hprefix
    · obtain ⟨more,hmore⟩ := List.isPrefixOf_iff_prefix.mp hprefix
      rw [← hmore, List.drop_left, Option.some.injEq] at h
      exact ⟨[],by rw [List.nil_append, ← h, hmore]⟩
    · obtain ⟨a,ha⟩ := ih h
      exact ⟨c :: a,by rw [ha]; rfl⟩

theorem findKeyFrom_isText {pattern : Text} {turns : ℕ} {t v : Text} (ht : IsText t)
    (h : findKeyFrom (pattern ++ [quote]) turns t = some v) : IsText v := by
  induction turns generalizing t with
  | zero => cases h
  | succ turns ih =>
    unfold findKeyFrom at h
    cases hafter : afterPattern (pattern ++ [quote]) t with
    | none =>
      rw [hafter] at h
      cases h
    | some rest =>
      rw [hafter] at h
      dsimp only at h
      have hrest : IsText rest := by
        obtain ⟨a,ha⟩ := afterPattern_some hafter
        have hsplit : t = (a ++ pattern) ++ quote :: rest := by
          rw [ha]
          simp
        exact ((hsplit ▸ ht).split (by decide)).2
      have hskip := skipWs_isText hrest
      cases hws : skipWs rest with
      | nil =>
        rw [hws] at h
        cases h
      | cons c value =>
        rw [hws] at h hskip
        dsimp only at h
        by_cases hcolon : c = colon
        · rw [if_pos hcolon, Option.some.injEq] at h
          rw [← h]
          rw [hcolon] at hskip
          exact skipWs_isText (hskip.tail (by decide))
        · rw [if_neg hcolon] at h
          exact ih hskip h

theorem escaped_ascii {c : UInt8} (h : c.toNat < 128) : (escaped c).toNat < 128 := by
  unfold escaped
  split_ifs
  · decide
  · decide
  · decide
  · exact h

/-- The loop over a character of several bytes. -/
theorem stringChars_wide {room : ℕ} {out bytes rest : Text} {r : Text × Text} (hbytes : ∀ b ∈ bytes, 128 ≤ b.toNat)
    (h : stringChars room out (bytes ++ rest) = some r) : ∃ room', stringChars room' (out ++ bytes) rest = some r := by
  induction bytes generalizing room out with
  | nil => exact ⟨room,by rwa [List.append_nil]⟩
  | cons b bytes ih =>
    have hb := hbytes b List.mem_cons_self
    have hne : ∀ c : UInt8, c.toNat < 128 → b ≠ c := by
      rintro c hc rfl
      omega
    rw [List.cons_append] at h
    unfold stringChars at h
    rw [if_neg (hne quote (by decide)), if_neg (hne backslash (by decide))] at h
    cases room with
    | zero => cases h
    | succ room =>
      obtain ⟨room',hroom⟩ := ih (fun c hc => hbytes c (List.mem_cons_of_mem b hc)) h
      exact ⟨room',by rwa [List.append_assoc] at hroom⟩

/-- What the loop of `parse_string` copies from a text is text. -/
theorem stringChars_isText {t out : Text} {room : ℕ} {r : Text × Text} (ht : IsText t) (hout : IsText out)
    (h : stringChars room out t = some r) : IsText r.1 := by
  -- the induction is on the length, since a backslash and its character go together
  have hsize : ∀ n, ∀ t : Text, t.length ≤ n → IsText t → ∀ {room : ℕ} {out : Text}, IsText out →
      stringChars room out t = some r → IsText r.1 := by
    intro n
    induction n with
    | zero =>
      intro t hlength _ room out _ h
      rw [List.eq_nil_of_length_eq_zero (Nat.le_zero.mp hlength), stringChars] at h
      cases h
    | succ n ih =>
      intro t hlength ht room out hout h
      cases ht with
      | nil =>
        rw [stringChars] at h
        cases h
      | ascii hb rest =>
        rename_i b t
        rw [List.length_cons] at hlength
        unfold stringChars at h
        split_ifs at h with hquote hslash
        · cases h
          exact hout
        · cases rest with
          | nil => simp at h
          | ascii hd more =>
            rename_i d t
            cases room with
            | zero => cases h
            | succ room =>
              rw [List.length_cons] at hlength
              exact ih t (by omega) more (hout.append (.ascii (escaped_ascii hd) .nil)) h
          | wide hc more =>
            -- a backslash in front of a character of several bytes
            rename_i c t
            obtain ⟨hne,hhigh⟩ := Utf8Text.encode_wide hc
            obtain ⟨lead,tail,hencode⟩ := List.exists_cons_of_ne_nil hne
            rw [hencode] at h hhigh hlength
            cases room with
            | zero => cases h
            | succ room =>
              have hlead : escaped lead = lead := by
                have hlow := hhigh lead List.mem_cons_self
                unfold escaped
                split_ifs with h1 h2 h3
                · rw [h1] at hlow
                  exact absurd hlow (by decide)
                · rw [h2] at hlow
                  exact absurd hlow (by decide)
                · rw [h3] at hlow
                  exact absurd hlow (by decide)
                · rfl
              rw [List.cons_append] at h
              dsimp only at h
              rw [hlead] at h
              obtain ⟨room',hroom⟩ := stringChars_wide (fun b hb => hhigh b (List.mem_cons_of_mem lead hb)) h
              have hnext : IsText (out ++ [lead] ++ tail) := by
                rw [List.append_assoc, List.singleton_append, ← hencode]
                exact hout.append (isText_char c)
              simp only [List.length_append, List.length_cons] at hlength
              exact ih t (by omega) more hnext hroom
        · cases room with
          | zero => cases h
          | succ room => exact ih t (by omega) rest (hout.append (.ascii hb .nil)) h
      | wide hc rest =>
        rename_i c t
        obtain ⟨hne,hhigh⟩ := Utf8Text.encode_wide hc
        obtain ⟨room',hroom⟩ := stringChars_wide hhigh h
        have hpos := List.length_pos_iff.mpr hne
        rw [List.length_append] at hlength
        exact ih t (by omega) rest (hout.append (isText_char c)) hroom
  exact hsize t.length t le_rfl ht hout h

theorem parseText_isText {json key name : Text} {capacity : ℕ} (hjson : IsText json)
    (h : parseText json key capacity = some name) : IsText name := by
  unfold parseText at h
  obtain ⟨⟨out,rest⟩,hfind,rfl⟩ := Option.map_eq_some_iff.mp h
  obtain ⟨value,hvalue,hparse⟩ := Option.bind_eq_some_iff.mp hfind
  have hskip : IsText (skipWs value) := skipWs_isText (findKeyFrom_isText hjson hvalue)
  unfold parseString at hparse
  cases hws : skipWs value with
  | nil =>
    rw [hws] at hparse
    cases hparse
  | cons c cursor =>
    rw [hws] at hparse hskip
    dsimp only at hparse
    split_ifs at hparse with hquote
    rw [not_not.mp hquote] at hskip
    exact (stringChars_isText (hskip.tail (by decide)) .nil hparse).takeWhile

end Bvstk.Config.I2cJson
