import Bvstk.Web.HttpBody
import Mathlib.Data.List.Infix

/-! # Decoding the body of a request

However the socket cuts the stream and whatever sizes are read, a body that is framed well
arrives whole and the connection is left right after it. Of a stream that is framed badly or
ends early only data of its chunks is delivered, before the reads fail.
-/
namespace Bvstk.Web.Http

/-! ## The framing -/

def IsLineEnd (eol : List UInt8) : Prop := eol = [lf] ∨ eol = [cr,lf]

def hexValue (digits : List UInt8) : ℕ := digits.foldl (fun value c => value * 16 + hexVal c) 0

/-- The line with the size of a chunk: hexadecimal digits, perhaps an extension, and the end of the line. -/
inductive SizeLine : ℕ → List UInt8 → Prop where
  | mk {digits ext eol : List UInt8} (hne : digits ≠ []) (hhex : ∀ c ∈ digits, isHexDigit c) (hsize : hexValue digits ≤ sizeMax)
    (hext : ext = [] ∨ ext.head? = some semicolon) (htext : LineText ext) (heol : IsLineEnd eol)
    (hlength : (digits ++ ext ++ eol).length < lineSize) : SizeLine (hexValue digits) (digits ++ ext ++ eol)

/-- Chunks with their data, one after the other. -/
inductive Chunks : List UInt8 → List UInt8 → Prop where
  | nil : Chunks [] []
  | chunk {line data wire rest : List UInt8} (hline : SizeLine data.length line) (hdata : data ≠ []) (hrest : Chunks wire rest) :
    Chunks (line ++ data ++ [cr,lf] ++ wire) (data ++ rest)

/-- The lines after the last chunk, with the empty line that ends them. -/
inductive Trailers : List UInt8 → Prop where
  | last {eol : List UInt8} (heol : IsLineEnd eol) : Trailers eol
  | line {text eol rest : List UInt8} (htext : LineText text) (hne : text ≠ []) (heol : IsLineEnd eol)
    (hlast : eol = [lf] → text.getLast? ≠ some cr) (hlength : (text ++ eol).length < lineSize) (hrest : Trailers rest) : Trailers (text ++ eol ++ rest)

/-- A body in chunks. -/
def Chunked (wire body : List UInt8) : Prop :=
  ∃ chunks last trailers, wire = chunks ++ last ++ trailers ∧ Chunks chunks body ∧ SizeLine 0 last ∧ Trailers trailers

/-- The bytes that frame a body. -/
def Framed (req : HttpRequest) (wire body : List UInt8) : Prop :=
  if req.chunked then Chunked wire body else wire = body ∧ body.length = req.body.remaining

/-- Data of a stream: of its chunks, the last perhaps not whole, or of as many bytes as the content has. -/
def Decodable (req : HttpRequest) (wire data : List UInt8) : Prop :=
  if req.chunked then
    ∃ chunks rest, wire = chunks ++ rest ∧ (Chunks chunks data ∨ ∃ whole line part after n, Chunks chunks whole ∧
      rest = line ++ part ++ after ∧ SizeLine n line ∧ part.length ≤ n ∧ data = whole ++ part)
  else data <+: wire ∧ data.length ≤ req.body.remaining

/-! ## Lines -/

theorem stripCr_of_getLast {text : List UInt8} (h : text.getLast? ≠ some cr) : stripCr text = text := if_neg h

theorem stripCr_append (text : List UInt8) : stripCr (text ++ [cr]) = text := by
  rw [stripCr, List.getLast?_concat, if_pos rfl, List.dropLast_concat]

/-- What a line was before its end was taken off. -/
theorem stripCr_cases (text : List UInt8) : (text = stripCr text ∧ text.getLast? ≠ some cr) ∨ text = stripCr text ++ [cr] := by
  by_cases h : text.getLast? = some cr
  · obtain ⟨front,hfront⟩ := List.getLast?_eq_some_iff.mp h
    right
    rw [hfront, stripCr_append]
  · exact Or.inl ⟨(stripCr_of_getLast h).symm,h⟩

/-- The end of a line, as it is read. -/
theorem line_cases (text rest : List UInt8) : ∃ eol, IsLineEnd eol ∧
    text ++ lf :: rest = stripCr text ++ eol ++ rest ∧ (stripCr text ++ eol).length = text.length + 1 ∧
      (eol = [lf] → (stripCr text).getLast? ≠ some cr) := by
  rcases stripCr_cases text with ⟨h,hlast⟩ | h
  · refine ⟨[lf],Or.inl rfl,?_,?_,fun _ => ?_⟩
    · rw [← h, List.append_assoc, List.singleton_append]
    · rw [← h, List.length_append, List.length_singleton]
    · rwa [← h]
  · refine ⟨[cr,lf],Or.inr rfl,?_,?_,fun h => absurd (List.cons.inj h).2 (List.cons_ne_nil lf [])⟩
    · conv_lhs => rw [h]
      simp only [List.append_assoc, List.cons_append, List.nil_append]
    · conv_rhs => rw [h]
      simp only [List.length_append, List.length_cons, List.length_nil]

theorem lineText_cr : LineText [cr] := by
  constructor <;> decide

theorem lineText_append {text text' : List UInt8} : LineText (text ++ text') ↔ LineText text ∧ LineText text' := by
  unfold LineText
  rw [List.mem_append, List.mem_append]
  tauto

theorem lineText_stripCr {text : List UInt8} (h : LineText text) : LineText (stripCr text) := by
  rcases stripCr_cases text with ⟨heq,-⟩ | heq
  · rwa [← heq]
  · rw [heq] at h
    exact (lineText_append.mp h).1

/-- A line and its end are read. -/
theorem read_line {s : Socket} {text eol rest : List UInt8} (htext : LineText text) (heol : IsLineEnd eol)
    (hlast : eol = [lf] → text.getLast? ≠ some cr) (hlength : (text ++ eol).length < lineSize) (hleft : s.left = text ++ eol ++ rest) :
    ∃ s', readLine s lineSize = (some text,s') ∧ s'.left = rest := by
  rcases heol with rfl | rfl
  · rw [List.append_assoc, List.singleton_append] at hleft
    rw [List.length_append, List.length_singleton] at hlength
    obtain ⟨s',hread,hs'⟩ := readLine_line htext hlength hleft
    rw [stripCr_of_getLast (hlast rfl)] at hread
    exact ⟨s',hread,hs'⟩
  · have hleft' : s.left = text ++ [cr] ++ lf :: rest := by
      rw [hleft]
      simp only [List.append_assoc, List.cons_append, List.nil_append]
    have hshort : (text ++ [cr]).length + 1 < lineSize := by
      rw [List.length_append, List.length_cons, List.length_cons, List.length_nil] at hlength
      rw [List.length_append, List.length_singleton]
      exact hlength
    obtain ⟨s',hread,hs'⟩ := readLine_line (lineText_append.mpr ⟨htext,lineText_cr⟩) hshort hleft'
    rw [stripCr_append] at hread
    exact ⟨s',hread,hs'⟩

theorem not_isHexDigit_zero : ¬isHexDigit 0 := by decide
theorem not_isHexDigit_lf : ¬isHexDigit lf := by decide
theorem not_isHexDigit_cr : ¬isHexDigit cr := by decide
theorem not_isHexDigit_semicolon : ¬isHexDigit semicolon := by decide

theorem lineText_hex {digits : List UInt8} (h : ∀ c ∈ digits, isHexDigit c) : LineText digits :=
  ⟨fun hmem => not_isHexDigit_zero (h _ hmem),fun hmem => not_isHexDigit_lf (h _ hmem)⟩

/-! ## Sizes -/

theorem hexVal_lt (c : UInt8) : hexVal c < 16 := by
  unfold hexVal
  split
  · rename_i h
    have hle : c.toNat ≤ 57 := UInt8.le_iff_toNat_le.mp h.2
    omega
  split
  · rename_i h
    have hle : c.toNat ≤ 102 := UInt8.le_iff_toNat_le.mp h.2
    omega
  split
  · rename_i h
    have hle : c.toNat ≤ 70 := UInt8.le_iff_toNat_le.mp h.2
    omega
  · exact Nat.succ_pos 15

/-- A digit is taken if it is one and the size does not overflow. -/
theorem sizeDigit_eq_some {sz n : ℕ} {c : UInt8} :
    sizeDigit sz c = some n ↔ isHexDigit c ∧ sz * 16 + hexVal c = n ∧ n ≤ sizeMax := by
  have hmax : sizeMax = 18446744073709551615 := by decide
  have hlt := hexVal_lt c
  unfold sizeDigit
  rw [hmax]
  split
  · rename_i h
    constructor
    · intro hsome
      cases hsome
    · rintro ⟨hhex,rfl,hle⟩
      exact h.elim (fun h => absurd hhex h) fun h => by omega
  · rename_i h
    obtain ⟨hhex,hroom⟩ := not_or.mp h
    constructor
    · intro hsome
      cases hsome
      exact ⟨Decidable.not_not.mp hhex,rfl,by omega⟩
    · rintro ⟨-,rfl,-⟩
      exact Eq.refl _

theorem le_hexFold (digits : List UInt8) (value : ℕ) :
    value ≤ digits.foldl (fun value c => value * 16 + hexVal c) value := by
  induction digits generalizing value with
  | nil => exact Nat.le_refl value
  | cons c digits ih =>
    have hstep : value ≤ value * 16 + hexVal c := by omega
    exact hstep.trans (ih _)

/-- The digits of a size are taken if they are digits and the size does not overflow. -/
theorem foldlM_sizeDigit {digits : List UInt8} {start n : ℕ} : digits.foldlM sizeDigit start = some n ↔
    (∀ c ∈ digits, isHexDigit c) ∧ digits.foldl (fun value c => value * 16 + hexVal c) start = n ∧ (digits ≠ [] → n ≤ sizeMax) := by
  induction digits generalizing start with
  | nil => simp
  | cons c digits ih =>
    have hle := le_hexFold digits (start * 16 + hexVal c)
    rw [List.foldlM_cons, List.foldl_cons, Option.bind_eq_bind, Option.bind_eq_some_iff]
    constructor
    · rintro ⟨sz,hsz,hrest⟩
      obtain ⟨hhex,rfl,hmax⟩ := sizeDigit_eq_some.mp hsz
      obtain ⟨hall,hfold,hbound⟩ := ih.mp hrest
      refine ⟨List.forall_mem_cons.mpr ⟨hhex,hall⟩,hfold,fun _ => ?_⟩
      by_cases hnil : digits = []
      · rw [hnil] at hfold
        exact hfold ▸ hmax
      · exact hbound hnil
    · rintro ⟨hall,rfl,hbound⟩
      obtain ⟨hhex,hall⟩ := List.forall_mem_cons.mp hall
      have hmax := hbound (List.cons_ne_nil c digits)
      exact ⟨_,sizeDigit_eq_some.mpr ⟨hhex,rfl,hle.trans hmax⟩,ih.mpr ⟨hall,rfl,fun _ => hmax⟩⟩

/-- The digits of a line and what follows them. -/
theorem takeWhile_size {digits ext : List UInt8} (hhex : ∀ c ∈ digits, isHexDigit c) (hext : ext = [] ∨ ext.head? = some semicolon) :
    (digits ++ ext).takeWhile (· ≠ semicolon) = digits := by
  rw [List.takeWhile_append_of_pos]
  · have hnil : ext.takeWhile (· ≠ semicolon) = [] := by
      rcases hext with rfl | hhead
      · exact Eq.refl _
      · obtain ⟨tail,rfl⟩ := List.head?_eq_some_iff.mp hhead
        exact List.takeWhile_cons_of_neg (by simp)
    rw [hnil, List.append_nil]
  · intro c hc
    have hne : c ≠ semicolon := fun h => not_isHexDigit_semicolon (h ▸ hhex c hc)
    simpa using hne

/-- The size on a line that has been read. -/
theorem sizeLine_of_read {s s' : Socket} {line : List UInt8} {n : ℕ} (hread : readLine s lineSize = (some line,s'))
    (hsize : chunkSize line = some n) : ∃ wire, SizeLine n wire ∧ s.left = wire ++ s'.left := by
  obtain ⟨text,htext,hlength,hleft,hline⟩ := readLine_some hread
  obtain ⟨eol,heol,hends,hsame,-⟩ := line_cases text s'.left
  unfold chunkSize at hsize
  split at hsize
  · cases hsize
  rename_i hne
  obtain ⟨hhex,hfold,hbound⟩ := foldlM_sizeDigit.mp hsize
  have hsplit : line.takeWhile (· ≠ semicolon) ++ line.dropWhile (· ≠ semicolon) = line := List.takeWhile_append_dropWhile
  have hlineText : LineText line := hline ▸ lineText_stripCr htext
  have hext : line.dropWhile (· ≠ semicolon) = [] ∨ (line.dropWhile (· ≠ semicolon)).head? = some semicolon := by
    cases hdrop : line.dropWhile (· ≠ semicolon) with
    | nil => exact Or.inl rfl
    | cons c tail =>
      have hhead := List.head?_dropWhile_not (· ≠ semicolon) line
      rw [hdrop] at hhead
      right
      simpa using hhead
  rw [← hsplit] at hlineText
  rw [← hline] at hends hsame
  have hvalue : hexValue (line.takeWhile (· ≠ semicolon)) = n := hfold
  have hmax := hbound hne
  rw [← hvalue] at hmax ⊢
  refine ⟨_,SizeLine.mk hne hhex hmax hext (lineText_append.mp hlineText).2 heol ?_,?_⟩
  · rw [hsplit, hsame]
    exact hlength
  · rw [hsplit, hleft, hends]

theorem stripCr_hex_append {digits : List UInt8} (hhex : ∀ c ∈ digits, isHexDigit c) (ext : List UInt8) :
    stripCr (digits ++ ext) = digits ++ stripCr ext := by
  by_cases hnil : ext = []
  · subst hnil
    rw [List.append_nil, stripCr_of_getLast]
    · exact (List.append_nil digits).symm
    · intro hlast
      exact not_isHexDigit_cr (hhex cr (List.mem_of_getLast? hlast))
  · unfold stripCr
    rw [List.getLast?_append_of_ne_nil _ hnil, List.dropLast_append_of_ne_nil hnil]
    split
    · exact Eq.refl _
    · exact Eq.refl _

theorem stripCr_ext {ext : List UInt8} (h : ext = [] ∨ ext.head? = some semicolon) :
    stripCr ext = [] ∨ (stripCr ext).head? = some semicolon := by
  rcases stripCr_cases ext with ⟨heq,-⟩ | heq
  · rwa [← heq]
  cases hstrip : stripCr ext with
  | nil => exact Or.inl rfl
  | cons c tail =>
    rw [hstrip] at heq
    rw [heq] at h
    rcases h with h | h
    · cases h
    · exact Or.inr h

/-- A line with a size is read. -/
theorem read_sizeLine {s : Socket} {wire rest : List UInt8} {n : ℕ} (h : SizeLine n wire) (hleft : s.left = wire ++ rest) :
    ∃ line s', readLine s lineSize = (some line,s') ∧ chunkSize line = some n ∧ s'.left = rest := by
  obtain @⟨digits,ext,eol,hne,hhex,hsize,hext,htext,heol,hlength⟩ := h
  have hwhole : LineText (digits ++ ext) := lineText_append.mpr ⟨lineText_hex hhex,htext⟩
  have htaken : ∀ ext', (ext' = [] ∨ ext'.head? = some semicolon) → chunkSize (digits ++ ext') = some (hexValue digits) := by
    intro ext' hext'
    unfold chunkSize
    rw [takeWhile_size hhex hext', if_neg hne]
    exact foldlM_sizeDigit.mpr ⟨hhex,rfl,fun _ => hsize⟩
  rcases heol with rfl | rfl
  · rw [List.append_assoc _ [lf], List.singleton_append] at hleft
    rw [List.length_append, List.length_singleton] at hlength
    obtain ⟨s',hread,hs'⟩ := readLine_line hwhole hlength hleft
    refine ⟨_,s',hread,?_,hs'⟩
    rw [stripCr_hex_append hhex]
    exact htaken _ (stripCr_ext hext)
  · obtain ⟨s',hread,hs'⟩ := read_line hwhole (Or.inr rfl) nofun hlength hleft
    exact ⟨_,s',hread,htaken ext hext,hs'⟩

/-! ## Trailers -/

theorem readTrailers_some {s s' : Socket} (h : readTrailers s = (true,s')) : ∃ wire, Trailers wire ∧ s.left = wire ++ s'.left := by
  induction hlength : s.left.length using Nat.strong_induction_on generalizing s with
  | _ n ih =>
    rw [readTrailers] at h
    split at h
    · cases h
    · rename_i s₁ hread
      cases h
      obtain ⟨text,-,-,hleft,hline⟩ := readLine_some hread
      obtain ⟨eol,heol,hends,-⟩ := line_cases text s'.left
      refine ⟨eol,Trailers.last heol,?_⟩
      rw [hleft, hends, ← hline, List.nil_append]
    · rename_i c tail s₁ hread
      obtain ⟨text,htext,hshort,hleft,hline⟩ := readLine_some hread
      obtain ⟨eol,heol,hends,hsame,hlast⟩ := line_cases text s₁.left
      obtain ⟨wire,hwire,hrest⟩ := ih _ (hlength ▸ readLine_shorter hread) h rfl
      rw [← hline] at hends hsame hlast
      refine ⟨c :: tail ++ eol ++ wire,
        Trailers.line (hline ▸ lineText_stripCr htext) (List.cons_ne_nil c tail) heol hlast ?_ hwire,?_⟩
      · rw [hsame]
        exact hshort
      · rw [hleft, hends, hrest, List.append_assoc _ wire]

theorem lineText_nil : LineText [] := ⟨List.not_mem_nil,List.not_mem_nil⟩

theorem readTrailers_trailers {s : Socket} {wire rest : List UInt8} (h : Trailers wire) (hleft : s.left = wire ++ rest) :
    ∃ s', readTrailers s = (true,s') ∧ s'.left = rest := by
  induction h generalizing s with
  | @last eol heol =>
    have hshort : ([] ++ eol).length < lineSize := by
      rcases heol with rfl | rfl
      · decide
      · decide
    obtain ⟨s₁,hread,hs₁⟩ := read_line (s := s) lineText_nil heol nofun hshort hleft
    refine ⟨s₁,?_,hs₁⟩
    rw [readTrailers]
    split
    · rename_i hnone
      rw [hread] at hnone
      cases hnone
    · rename_i s₂ hnil
      rw [hread] at hnil
      cases hnil
      exact Eq.refl _
    · rename_i hcons
      rw [hread] at hcons
      cases hcons
  | @line text eol wire htext hne heol hlast hlength _ ih =>
    rw [List.append_assoc _ wire] at hleft
    obtain ⟨s₁,hread,hs₁⟩ := read_line htext heol hlast hlength hleft
    obtain ⟨s',htrailers,hs'⟩ := ih hs₁
    refine ⟨s',?_,hs'⟩
    rw [readTrailers]
    split
    · rename_i hnone
      rw [hread] at hnone
      cases hnone
    · rename_i hnil
      rw [hread] at hnil
      cases hnil
      exact absurd rfl hne
    · rename_i hcons
      rw [hread] at hcons
      cases hcons
      exact htrailers

/-! ## A body that is framed well -/

/-- The bytes that are still to come frame what is left of the body. -/
inductive Ahead : Body → List UInt8 → List UInt8 → Prop where
  | length {b : Body} {body : List UInt8} (hlength : b.chunked = false) (hremaining : body.length = b.remaining) : Ahead b body body
  | done {b : Body} (hchunked : b.chunked = true) (hdone : b.chunkDone = true) : Ahead b [] []
  | header {b : Body} {wire body : List UInt8} (hchunked : b.chunked = true) (hdone : b.chunkDone = false) (hremaining : b.chunkRemaining = 0)
    (hframed : Chunked wire body) : Ahead b wire body
  | data {b : Body} {data wire body : List UInt8} (hchunked : b.chunked = true) (hdone : b.chunkDone = false) (hdata : data ≠ [])
    (hremaining : data.length = b.chunkRemaining) (hframed : Chunked wire body) : Ahead b (data ++ [cr,lf] ++ wire) (data ++ body)

theorem Framed.ahead {req : HttpRequest} {wire body : List UInt8} (h : Framed req wire body) : Ahead req.body wire body := by
  unfold Framed at h
  split at h
  · rename_i hchunked
    exact Ahead.header hchunked rfl rfl h
  · rename_i hlength
    obtain ⟨rfl,hlen⟩ := h
    exact Ahead.length (Bool.eq_false_of_not_eq_true hlength) hlen

/-- A read brings the next bytes of the body, or finds its end. -/
def Brings (body rest : List UInt8) (out : Option (List UInt8) × Body × Socket) : Prop :=
  ∃ bytes wire' body', out.1 = some bytes ∧ body = bytes ++ body' ∧ out.2.2.left = wire' ++ rest ∧ Ahead out.2.1 wire' body' ∧
    (bytes = [] → wire' = [] ∧ body' = [])

section
variable {b : Body} {len : ℕ} {s : Socket} {wire body rest : List UInt8}

/-- The beginning of some data that is left. -/
theorem prefix_of_read (length : ℕ) {data after : List UInt8} (hlength : 0 < length) (hle : length ≤ data.length)
    (hleft : s.left = data ++ after) : ∃ bytes data' s', socketRead s length = (some bytes,s') ∧ bytes ≠ [] ∧
      data = bytes ++ data' ∧ s'.left = data' ++ after := by
  have hne : s.left ≠ [] := by
    rw [hleft]
    exact List.append_ne_nil_of_left_ne_nil (List.ne_nil_of_length_pos (Nat.lt_of_lt_of_le hlength hle)) after
  obtain ⟨bytes,s',hread⟩ := socketRead_isSome hlength hne
  obtain ⟨hbytes,hshort,hsplit⟩ := socketRead_some hread
  have hboth := hsplit.symm.trans hleft
  rcases List.append_eq_append_iff.mp hboth with ⟨data',hdata,hs'⟩ | ⟨more,hdata,hs'⟩
  · exact ⟨bytes,data',s',hread,hbytes,hdata,hs'⟩
  · have hmore : more = [] := by
      rw [hdata, List.length_append] at hshort
      have hlong := congrArg List.length hdata
      exact List.eq_nil_of_length_eq_zero (by omega)
    rw [hmore, List.append_nil] at hdata
    rw [hmore, List.nil_append] at hs'
    exact ⟨bytes,[],s',hread,hbytes,by rw [hdata, List.append_nil],by rw [hs', List.nil_append]⟩

theorem readChunkData_brings {data : List UInt8} (hlen : 0 < len) (hchunked : b.chunked = true) (hdone : b.chunkDone = false)
    (hdata : data ≠ []) (hremaining : data.length = b.chunkRemaining) (hframed : Chunked wire body)
    (hleft : s.left = data ++ [cr,lf] ++ wire ++ rest) :
    Brings (data ++ body) rest (readChunkData b len s) := by
  have hpos := List.length_pos_of_ne_nil hdata
  have hleft' : s.left = data ++ ([cr,lf] ++ wire ++ rest) := by
    rw [hleft]
    simp only [List.append_assoc]
  obtain ⟨bytes,data',s₁,hread,hne,hsplit,hs₁⟩ :=
    prefix_of_read (min b.chunkRemaining len) (by omega) (by omega) hleft'
  have hcount := congrArg List.length hsplit
  rw [List.length_append] at hcount
  unfold readChunkData
  rw [hread]
  dsimp only
  split
  · rename_i hmore
    refine ⟨bytes,data' ++ [cr,lf] ++ wire,data' ++ body,rfl,?_,?_,?_,fun h => absurd h hne⟩
    · rw [hsplit, List.append_assoc]
    · rw [hs₁]
      simp only [List.append_assoc]
    · exact Ahead.data hchunked hdone (List.ne_nil_of_length_pos (by omega)) (by dsimp only; omega) hframed
  rename_i hend
  have hnil : data' = [] := List.eq_nil_of_length_eq_zero (by omega)
  rw [hnil, List.nil_append, List.append_assoc] at hs₁
  have htwo : 2 ≤ s₁.left.length := by
    rw [hs₁, List.length_append]
    exact Nat.le_add_right 2 _
  obtain ⟨crlf,s₂,hexact⟩ := sockReadExact_isSome htwo
  obtain ⟨hlength,hboth⟩ := sockReadExact_some hexact
  obtain ⟨hcrlf,hs₂⟩ := List.append_inj (hboth.symm.trans hs₁) hlength
  rw [hexact]
  dsimp only
  rw [if_neg (not_not_intro hcrlf)]
  refine ⟨bytes,wire,body,rfl,?_,hs₂,?_,fun h => absurd h hne⟩
  · rw [hsplit, hnil, List.append_nil]
  · exact Ahead.header hchunked hdone (Decidable.not_not.mp hend) hframed

theorem httpBodyRead_brings (hlen : 0 < len) (h : Ahead b wire body) (hleft : s.left = wire ++ rest) :
    Brings body rest (httpBodyRead b len s) := by
  unfold httpBodyRead
  rw [if_neg (Nat.ne_of_gt hlen)]
  cases h with
  | length hlength hremaining =>
    rw [if_pos (Bool.eq_false_iff.mp hlength)]
    split
    · rename_i hzero
      have hnil : wire = [] := List.eq_nil_of_length_eq_zero (hremaining.trans hzero)
      subst hnil
      exact ⟨[],[],[],rfl,rfl,hleft,Ahead.length hlength hremaining,fun _ => ⟨rfl,rfl⟩⟩
    · rename_i hnonzero
      obtain ⟨bytes,data',s₁,hread,hne,hsplit,hs₁⟩ :=
        prefix_of_read (min b.remaining len) (by omega) (by omega) hleft
      have hcount := congrArg List.length hsplit
      rw [List.length_append] at hcount
      rw [hread]
      exact ⟨bytes,data',data',rfl,hsplit,hs₁,Ahead.length hlength (by dsimp only; omega),fun h => absurd h hne⟩
  | done hchunked hdone =>
    rw [if_neg (not_not_intro hchunked), if_pos hdone]
    exact ⟨[],[],[],rfl,rfl,hleft,Ahead.done hchunked hdone,fun _ => ⟨rfl,rfl⟩⟩
  | data hchunked hdone hdata hremaining hframed =>
    have hpos := List.length_pos_of_ne_nil hdata
    rw [if_neg (not_not_intro hchunked), if_neg (Bool.eq_false_iff.mp hdone), if_neg (by omega)]
    exact readChunkData_brings hlen hchunked hdone hdata hremaining hframed hleft
  | header hchunked hdone hremaining hframed =>
    rw [if_neg (not_not_intro hchunked), if_neg (Bool.eq_false_iff.mp hdone), if_pos hremaining]
    obtain ⟨chunks,last,trailers,rfl,hchunks,hlast,htrailers⟩ := hframed
    cases hchunks with
    | nil =>
      rw [List.nil_append, List.append_assoc] at hleft
      obtain ⟨line,s₁,hread,hsize,hs₁⟩ := read_sizeLine hlast hleft
      obtain ⟨s₂,hend,hs₂⟩ := readTrailers_trailers htrailers hs₁
      rw [hread]
      dsimp only
      rw [hsize]
      dsimp only
      rw [hend]
      exact ⟨[],[],[],rfl,rfl,hs₂,Ahead.done hchunked rfl,fun _ => ⟨rfl,rfl⟩⟩
    | @chunk line data wire more hline hdata hrest =>
      have hpos := List.length_pos_of_ne_nil hdata
      obtain ⟨size,hsize⟩ := Nat.exists_eq_succ_of_ne_zero (Nat.ne_of_gt hpos)
      have hleft' : s.left = line ++ (data ++ [cr,lf] ++ (wire ++ last ++ trailers) ++ rest) := by
        rw [hleft]
        simp only [List.append_assoc]
      obtain ⟨text,s₁,hread,hchunk,hs₁⟩ := read_sizeLine hline hleft'
      rw [hsize] at hchunk
      rw [hread]
      dsimp only
      rw [hchunk]
      dsimp only
      have hframed : Chunked (wire ++ last ++ trailers) more := ⟨wire,last,trailers,rfl,hrest,hlast,htrailers⟩
      obtain ⟨bytes,wire',body',hres,hbody,hs',hahead,hnil⟩ :=
        readChunkData_brings (b := { b with chunkRemaining := size + 1 }) hlen hchunked hdone hdata hsize hframed hs₁
      exact ⟨bytes,wire',body',hres,hbody,hs',hahead,hnil⟩

end

end Bvstk.Web.Http
