import Bvstk.Library.CNumber
import Mathlib.Data.List.Basic
import Mathlib.Data.Nat.Notation
import Mathlib.Data.UInt

/-! # The body of an HTTP request

`http_server.c`. A body is read from a socket that hands out its bytes in fragments of its own
choice. Its end is found by the content length, or by chunks with their sizes.
-/
namespace Bvstk.Web.Http

/-! ## The socket -/

/-- The bytes that still arrive before the connection ends or fails. A read is answered with at most
one byte more than its fragment. -/
structure Socket where
  left : List UInt8
  fragment : ℕ → ℕ
  reads : ℕ

/-- `socket_read`: `none` is a result that is not positive. Once it has failed it goes on failing. -/
def socketRead (s : Socket) (length : ℕ) : Option (List UInt8) × Socket :=
  let n := min length (min (s.fragment s.reads + 1) s.left.length)
  if n = 0 then (none,s) else (some (s.left.take n),⟨s.left.drop n,s.fragment,s.reads + 1⟩)

/-- What a read hands out is not empty and was next. -/
theorem socketRead_some {s s' : Socket} {length : ℕ} {bytes : List UInt8} (h : socketRead s length = (some bytes,s')) :
    bytes ≠ [] ∧ bytes.length ≤ length ∧ s.left = bytes ++ s'.left := by
  unfold socketRead at h
  dsimp only at h
  split at h
  · cases h
  rename_i hn
  cases h
  have hle : min length (min (s.fragment s.reads + 1) s.left.length) ≤ s.left.length :=
    (Nat.min_le_right _ _).trans (Nat.min_le_right _ _)
  refine ⟨fun hnil => ?_,?_,(List.take_append_drop _ _).symm⟩
  · have hlength := congrArg List.length hnil
    rw [List.length_take, Nat.min_eq_left hle] at hlength
    exact hn hlength
  · rw [List.length_take]
    omega

/-- A read fails only at the end. -/
theorem socketRead_isSome {s : Socket} {length : ℕ} (hlength : 0 < length) (hleft : s.left ≠ []) :
    ∃ bytes s', socketRead s length = (some bytes,s') := by
  have hpos := List.length_pos_of_ne_nil hleft
  unfold socketRead
  dsimp only
  rw [if_neg (by omega)]
  exact ⟨_,_,rfl⟩

theorem socketRead_none {s s' : Socket} {length : ℕ} (h : socketRead s length = (none,s')) : s' = s := by
  unfold socketRead at h
  dsimp only at h
  split at h
  · exact (Prod.mk.inj h).2.symm
  · cases h

/-- `sock_read_exact`. -/
def sockReadExact (s : Socket) (length : ℕ) : Option (List UInt8) × Socket :=
  if length = 0 then (some [],s)
  else match _hread : socketRead s length with
    | (none,s') => (none,s')
    | (some bytes,s') =>
      let rest := sockReadExact s' (length - bytes.length)
      (rest.1.map (bytes ++ ·),rest.2)
  termination_by length
  decreasing_by
    have hpos := List.length_pos_of_ne_nil (socketRead_some _hread).1
    omega

theorem sockReadExact_some {s s' : Socket} {length : ℕ} {bytes : List UInt8} (h : sockReadExact s length = (some bytes,s')) :
    bytes.length = length ∧ s.left = bytes ++ s'.left := by
  induction length using Nat.strong_induction_on generalizing s s' bytes with
  | _ length ih =>
    rw [sockReadExact] at h
    split at h
    · rename_i hzero
      cases h
      exact ⟨hzero.symm,rfl⟩
    split at h
    · cases h
    rename_i first s₁ hread
    obtain ⟨hne,hle,hleft⟩ := socketRead_some hread
    have hpos := List.length_pos_of_ne_nil hne
    obtain ⟨hrest,hs'⟩ := Prod.mk.inj h
    obtain ⟨rest,hsome,hbytes⟩ := Option.map_eq_some_iff.mp hrest
    obtain ⟨hlength,hleft'⟩ := ih (length - first.length) (by omega) (Prod.ext hsome hs')
    rw [← hbytes, List.length_append, hlength, hleft, hleft', List.append_assoc]
    exact ⟨by omega,rfl⟩

theorem sockReadExact_isSome {s : Socket} {length : ℕ} (hleft : length ≤ s.left.length) :
    ∃ bytes s', sockReadExact s length = (some bytes,s') := by
  induction length using Nat.strong_induction_on generalizing s with
  | _ length ih =>
    rw [sockReadExact]
    split
    · exact ⟨_,_,rfl⟩
    rename_i hnonzero
    have hpos : 0 < length := Nat.pos_of_ne_zero hnonzero
    obtain ⟨first,s₁,hread⟩ := socketRead_isSome hpos (List.ne_nil_of_length_pos (Nat.lt_of_lt_of_le hpos hleft))
    obtain ⟨hne,-,hfirst⟩ := socketRead_some hread
    have hfirstPos := List.length_pos_of_ne_nil hne
    rw [hfirst, List.length_append] at hleft
    obtain ⟨rest,s',hrest⟩ := ih (length - first.length) (by omega) (s := s₁) (by omega)
    split
    · rename_i hfailed
      rw [hread] at hfailed
      cases hfailed
    rename_i bytes s₂ hsecond
    obtain ⟨rfl,rfl⟩ : first = bytes ∧ s₁ = s₂ := by
      rw [hread] at hsecond
      cases hsecond
      exact ⟨rfl,rfl⟩
    rw [hrest]
    exact ⟨_,_,rfl⟩

/-! ## Lines -/

def lf : UInt8 := 10
def cr : UInt8 := 13

/-- A carriage return before the end of the line is taken off. -/
def stripCr (out : List UInt8) : List UInt8 := if out.getLast? = some cr then out.dropLast else out

/-- One round of `read_line` for every character there is room for. -/
def readLineLoop (s : Socket) (out : List UInt8) : (room : ℕ) → Option (List UInt8) × Socket
  | 0 => (none,s)
  | room + 1 => match socketRead s 1 with
    | (some (c :: _),s') =>
      if c = 0 then (none,s')
      else if c = lf then (some (stripCr out),s')
      else readLineLoop s' (out ++ [c]) room
    | (_,s') => (none,s')

/-- `read_line`: a line that is too long is not read in part. -/
def readLine (s : Socket) (outSize : ℕ) : Option (List UInt8) × Socket :=
  if outSize < 2 then (none,s) else readLineLoop s [] (outSize - 1)

/-- The next byte. -/
theorem socketRead_cons {s : Socket} {c : UInt8} {rest : List UInt8} (h : s.left = c :: rest) :
    socketRead s 1 = (some [c],⟨rest,s.fragment,s.reads + 1⟩) := by
  have hn : min 1 (min (s.fragment s.reads + 1) s.left.length) = 1 := by
    rw [h, List.length_cons]
    omega
  unfold socketRead
  rw [hn, h]
  exact Eq.refl _

theorem socketRead_nil {s : Socket} (h : s.left = []) (length : ℕ) : socketRead s length = (none,s) := by
  unfold socketRead
  rw [h, List.length_nil]
  exact if_pos (by omega)

/-- Whether this is the text of a line. -/
def LineText (text : List UInt8) : Prop := 0 ∉ text ∧ lf ∉ text

theorem readLineLoop_some {s s' : Socket} {out line : List UInt8} {room : ℕ} (h : readLineLoop s out room = (some line,s')) :
    ∃ text, LineText text ∧ text.length < room ∧ s.left = text ++ lf :: s'.left ∧ line = stripCr (out ++ text) := by
  induction room generalizing s out with
  | zero => cases h
  | succ room ih =>
    rw [readLineLoop] at h
    cases hleft : s.left with
    | nil =>
      rw [socketRead_nil hleft] at h
      cases h
    | cons c rest =>
      rw [socketRead_cons hleft] at h
      dsimp only at h
      split at h
      · cases h
      rename_i hnonzero
      split at h
      · rename_i hlf
        cases h
        refine ⟨[],⟨List.not_mem_nil,List.not_mem_nil⟩,Nat.zero_lt_succ room,?_,?_⟩
        · rw [hlf, List.nil_append]
        · rw [List.append_nil]
      · rename_i hlf
        obtain ⟨text,⟨hzero,htext⟩,hlength,hrest,hline⟩ := ih h
        refine ⟨c :: text,⟨?_,?_⟩,Nat.succ_lt_succ hlength,congrArg (c :: ·) hrest,?_⟩
        · exact fun hmem => (List.mem_cons.mp hmem).elim (fun h => hnonzero h.symm) hzero
        · exact fun hmem => (List.mem_cons.mp hmem).elim (fun h => hlf h.symm) htext
        · rw [hline, List.append_assoc, List.singleton_append]

theorem readLineLoop_line {s : Socket} {text rest : List UInt8} (out : List UInt8) {room : ℕ} (htext : LineText text)
    (hroom : text.length < room) (hleft : s.left = text ++ lf :: rest) :
    ∃ s', readLineLoop s out room = (some (stripCr (out ++ text)),s') ∧ s'.left = rest := by
  induction text generalizing s out room with
  | nil =>
    obtain ⟨room,rfl⟩ := Nat.exists_eq_succ_of_ne_zero (Nat.ne_zero_of_lt hroom)
    refine ⟨⟨rest,s.fragment,s.reads + 1⟩,?_,rfl⟩
    rw [readLineLoop, socketRead_cons hleft, List.append_nil]
    exact Eq.refl _
  | cons c text ih =>
    obtain ⟨room,rfl⟩ := Nat.exists_eq_succ_of_ne_zero (Nat.ne_zero_of_lt hroom)
    have hc : c ≠ 0 ∧ c ≠ lf := ⟨fun h => htext.1 (h ▸ List.mem_cons_self),fun h => htext.2 (h ▸ List.mem_cons_self)⟩
    have hrest : LineText text := ⟨fun h => htext.1 (List.mem_cons_of_mem c h),fun h => htext.2 (List.mem_cons_of_mem c h)⟩
    obtain ⟨s',hloop,hs'⟩ := ih (s := ⟨text ++ lf :: rest,s.fragment,s.reads + 1⟩) (out ++ [c]) hrest
      (Nat.lt_of_succ_lt_succ hroom) rfl
    have hnext : s.left = c :: (text ++ lf :: rest) := hleft
    refine ⟨s',?_,hs'⟩
    rw [readLineLoop, socketRead_cons hnext]
    dsimp only
    rw [if_neg hc.1, if_neg hc.2, hloop, List.append_assoc, List.singleton_append]

theorem readLine_some {s s' : Socket} {line : List UInt8} {outSize : ℕ} (h : readLine s outSize = (some line,s')) :
    ∃ text, LineText text ∧ text.length + 1 < outSize ∧ s.left = text ++ lf :: s'.left ∧ line = stripCr text := by
  unfold readLine at h
  split at h
  · cases h
  · obtain ⟨text,htext,hlength,hleft,hline⟩ := readLineLoop_some h
    exact ⟨text,htext,by omega,hleft,hline⟩

theorem readLine_line {s : Socket} {text rest : List UInt8} {outSize : ℕ} (htext : LineText text)
    (hlength : text.length + 1 < outSize) (hleft : s.left = text ++ lf :: rest) :
    ∃ s', readLine s outSize = (some (stripCr text),s') ∧ s'.left = rest := by
  unfold readLine
  rw [if_neg (by omega)]
  exact readLineLoop_line [] htext (by omega) hleft

/-! ## The header -/

def sizeMax : ℕ := 2^64 - 1

/-- What of a request tells how its body is framed. -/
structure HttpRequest where
  chunked : Bool
  hasContentLength : Bool
  contentLength : ℕ

def toLower (c : UInt8) : UInt8 := if 65 ≤ c ∧ c ≤ 90 then c + 32 else c

def isDigit (c : UInt8) : Prop := 48 ≤ c ∧ c ≤ 57

instance (c : UInt8) : Decidable (isDigit c) := inferInstanceAs (Decidable (_ ∧ _))

def text (s : String) : List UInt8 := s.toUTF8.toList

/-- Whether a line begins with this name, in letters of any case. -/
def hasName (name line : List UInt8) : Prop := (line.take name.length).map toLower = name.map toLower

instance (name line : List UInt8) : Decidable (hasName name line) := inferInstanceAs (Decidable (_ = _))

def skipSpace (line : List UInt8) : List UInt8 := line.dropWhile CNumber.isSpace

/-- One digit of a content length. -/
def lengthDigit (length : ℕ) (c : UInt8) : Option ℕ :=
  if (sizeMax - (c.toNat - 48)) / 10 < length then none else some (length * 10 + (c.toNat - 48))

/-- A line of the header: the request with it, or the text of the refusal. -/
def headerLine (req : HttpRequest) (line : List UInt8) : Except String HttpRequest :=
  if hasName (text "Content-Length:") line then
    let p := skipSpace (line.drop 15)
    if req.hasContentLength ∨ ¬(∃ c ∈ p.head?, isDigit c) then .error "invalid content length\r\n"
    else match (p.takeWhile fun c => isDigit c).foldlM lengthDigit req.contentLength with
      | none => .error "content length overflow\r\n"
      | some length =>
        if skipSpace (p.dropWhile fun c => isDigit c) ≠ [] then .error "invalid content length\r\n"
        else .ok { req with hasContentLength := true, contentLength := length }
  else if hasName (text "Transfer-Encoding:") line then
    let p := skipSpace (line.drop 18)
    if req.chunked ∨ p.map toLower ≠ text "chunked" then .error "unsupported transfer encoding\r\n"
    else .ok { req with chunked := true }
  else .ok req

theorem readLine_shorter {s s' : Socket} {line : List UInt8} {outSize : ℕ} (h : readLine s outSize = (some line,s')) :
    s'.left.length < s.left.length := by
  obtain ⟨text,-,-,hleft,-⟩ := readLine_some h
  rw [hleft, List.length_append, List.length_cons]
  omega

def headerSize : ℕ := 256

/-- The lines of the header up to an empty one. Without a text the connection is closed without a reply. -/
def readHeader (req : HttpRequest) (s : Socket) : Except (Option String) (HttpRequest × Socket) :=
  match _hread : readLine s headerSize with
  | (none,_) => .error none
  | (some [],s') =>
    if req.chunked ∧ req.hasContentLength then .error (some "ambiguous body length\r\n") else .ok (req,s')
  | (some (c :: line),s') => match headerLine req (c :: line) with
    | .error reply => .error (some reply)
    | .ok req => readHeader req s'
  termination_by s.left.length
  decreasing_by exact readLine_shorter _hread

/-- A request whose framing can be told. -/
structure HttpRequest.Framing (req : HttpRequest) : Prop where
  bounded : req.contentLength ≤ sizeMax
  absent : req.hasContentLength = false → req.contentLength = 0

theorem lengthDigits_le {digits : List UInt8} {start n : ℕ} (hstart : start ≤ sizeMax) (h : digits.foldlM lengthDigit start = some n) :
    n ≤ sizeMax := by
  induction digits generalizing start with
  | nil =>
    cases h
    exact hstart
  | cons c digits ih =>
    rw [List.foldlM_cons, Option.bind_eq_bind, Option.bind_eq_some_iff] at h
    obtain ⟨length,hlength,hrest⟩ := h
    refine ih ?_ hrest
    have hmax : sizeMax = 18446744073709551615 := by decide
    have hc := c.toNat_lt
    unfold lengthDigit at hlength
    split at hlength
    · cases hlength
    · cases hlength
      rw [hmax] at *
      omega

theorem headerLine_framing {req req' : HttpRequest} {line : List UInt8} (h : req.Framing) (hline : headerLine req line = .ok req') :
    req'.Framing := by
  unfold headerLine at hline
  split at hline
  · dsimp only at hline
    split at hline
    · cases hline
    split at hline
    · cases hline
    rename_i length hlength
    split at hline
    · cases hline
    · cases hline
      exact ⟨lengthDigits_le h.bounded hlength,nofun⟩
  split at hline
  · dsimp only at hline
    split at hline
    · cases hline
    · cases hline
      exact ⟨h.bounded,h.absent⟩
  · cases hline
    exact h

/-- A header that is accepted frames the body in one way. -/
theorem readHeader_framing {req req' : HttpRequest} {s s' : Socket} (h : req.Framing) (hread : readHeader req s = .ok (req',s')) :
    req'.Framing ∧ ¬(req'.chunked = true ∧ req'.hasContentLength = true) := by
  induction hlength : s.left.length using Nat.strong_induction_on generalizing req s with
  | _ n ih =>
    rw [readHeader] at hread
    split at hread
    · cases hread
    · split at hread
      · cases hread
      · rename_i hone
        cases hread
        exact ⟨h,hone⟩
    · rename_i hnext
      split at hread
      · cases hread
      · rename_i hline
        exact ih _ (hlength ▸ readLine_shorter hnext) (headerLine_framing h hline) hread rfl

/-! ## The body -/

structure Body where
  chunked : Bool
  remaining : ℕ
  chunkRemaining : ℕ
  chunkDone : Bool
  deriving DecidableEq

/-- The body as `handle_client` opens it. -/
def HttpRequest.body (req : HttpRequest) : Body := ⟨req.chunked,if req.hasContentLength then req.contentLength else 0,0,false⟩

def isHexDigit (c : UInt8) : Prop := (48 ≤ c ∧ c ≤ 57) ∨ (97 ≤ c ∧ c ≤ 102) ∨ (65 ≤ c ∧ c ≤ 70)

instance (c : UInt8) : Decidable (isHexDigit c) := inferInstanceAs (Decidable (_ ∨ _))

def hexVal (c : UInt8) : ℕ :=
  if 48 ≤ c ∧ c ≤ 57 then c.toNat - 48
  else if 97 ≤ c ∧ c ≤ 102 then 10 + (c.toNat - 97)
  else if 65 ≤ c ∧ c ≤ 70 then 10 + (c.toNat - 65)
  else 0

def semicolon : UInt8 := 59

/-- One digit of a chunk size. -/
def sizeDigit (sz : ℕ) (c : UInt8) : Option ℕ :=
  if ¬isHexDigit c ∨ (sizeMax - hexVal c) / 16 < sz then none else some (sz * 16 + hexVal c)

/-- The size on the line of a chunk, up to a semicolon. -/
def chunkSize (line : List UInt8) : Option ℕ :=
  if line.takeWhile (· ≠ semicolon) = [] then none else (line.takeWhile (· ≠ semicolon)).foldlM sizeDigit 0

def lineSize : ℕ := 64

/-- The lines after the last chunk, up to an empty one. -/
def readTrailers (s : Socket) : Bool × Socket :=
  match _hread : readLine s lineSize with
  | (none,s') => (false,s')
  | (some [],s') => (true,s')
  | (some (_ :: _),s') => readTrailers s'
  termination_by s.left.length
  decreasing_by exact readLine_shorter _hread

/-- The data of a chunk, and the end of its line after the last byte. -/
def readChunkData (b : Body) (len : ℕ) (s : Socket) : Option (List UInt8) × Body × Socket :=
  match socketRead s (min b.chunkRemaining len) with
  | (none,s') => (none,b,s')
  | (some bytes,s') =>
    let b' := { b with chunkRemaining := b.chunkRemaining - bytes.length }
    if b'.chunkRemaining ≠ 0 then (some bytes,b',s')
    else match sockReadExact s' 2 with
      | (none,s'') => (none,b',s'')
      | (some crlf,s'') => if crlf ≠ [cr,lf] then (none,b',s'') else (some bytes,b',s'')

/-- `http_body_read_impl`: `none` for -1, and the bytes otherwise. -/
def httpBodyRead (b : Body) (len : ℕ) (s : Socket) : Option (List UInt8) × Body × Socket :=
  if len = 0 then (none,b,s)
  else if ¬b.chunked then
    if b.remaining = 0 then (some [],b,s)
    else match socketRead s (min b.remaining len) with
      | (none,s') => (none,b,s')
      | (some bytes,s') => (some bytes,{ b with remaining := b.remaining - bytes.length },s')
  else if b.chunkDone then (some [],b,s)
  else if b.chunkRemaining = 0 then
    match readLine s lineSize with
    | (none,s') => (none,b,s')
    | (some line,s') => match chunkSize line with
      | none => (none,b,s')
      | some 0 => match readTrailers s' with
        | (false,s'') => (none,b,s'')
        | (true,s'') => (some [],{ b with chunkDone := true },s'')
      | some (size + 1) => readChunkData { b with chunkRemaining := size + 1 } len s'
  else readChunkData b len s

/-- Reads of these sizes, one after the other: the results, and what is left. -/
def readAll (b : Body) (s : Socket) : List ℕ → List (Option (List UInt8)) × Body × Socket
  | [] => ([],b,s)
  | len :: sizes =>
    let step := httpBodyRead b len s
    let rest := readAll step.2.1 step.2.2 sizes
    (step.1 :: rest.1,rest.2)

end Bvstk.Web.Http
