import Bvstk.Web.HttpFraming

/-! # Reading a body to its end

What a series of reads brings: the body and then nothing more, or data of the body and then a
failure.
-/
namespace Bvstk.Web.Http

/-! ## A body that is framed well -/

/-- The reads bring the body in parts, and after it nothing, with the connection right after its bytes. -/
def Delivers (body rest : List UInt8) (reads : ℕ) (out : List (Option (List UInt8)) × Body × Socket) : Prop :=
  ∃ (parts : List (List UInt8)) (zeros : ℕ), out.1 = parts.map some ++ List.replicate zeros (some []) ∧ (∀ p ∈ parts, p ≠ []) ∧ parts.flatten <+: body ∧
    (0 < zeros → parts.flatten = body ∧ out.2.2.left = rest) ∧ (body.length < reads → 0 < zeros)

section
variable {b : Body} {s : Socket} {rest : List UInt8}

/-- After the end every read brings nothing. -/
theorem readAll_after (sizes : List ℕ) (hsizes : ∀ len ∈ sizes, 0 < len) (h : Ahead b [] []) (hleft : s.left = rest) :
    (readAll b s sizes).1 = List.replicate sizes.length (some []) ∧ (readAll b s sizes).2.2.left = rest := by
  induction sizes generalizing b s with
  | nil => exact ⟨rfl,hleft⟩
  | cons len sizes ih =>
    obtain ⟨hlen,hsizes⟩ := List.forall_mem_cons.mp hsizes
    obtain ⟨bytes,wire',body',hres,hbody,hs',hahead,hend⟩ := httpBodyRead_brings hlen h (s := s) hleft
    have hbytes : bytes = [] := (List.append_eq_nil_iff.mp hbody.symm).1
    obtain ⟨rfl,rfl⟩ := hend hbytes
    obtain ⟨hrest,hfinal⟩ := ih hsizes hahead hs'
    refine ⟨?_,hfinal⟩
    change (httpBodyRead b len s).1 :: _ = _
    rw [hres, hbytes, hrest]
    exact Eq.refl _

theorem readAll_delivers {wire body : List UInt8} (sizes : List ℕ) (hsizes : ∀ len ∈ sizes, 0 < len) (h : Ahead b wire body)
    (hleft : s.left = wire ++ rest) : Delivers body rest sizes.length (readAll b s sizes) := by
  induction sizes generalizing b s wire body with
  | nil => exact ⟨[],0,rfl,nofun,List.nil_prefix,nofun,nofun⟩
  | cons len sizes ih =>
    obtain ⟨hlen,hsizes⟩ := List.forall_mem_cons.mp hsizes
    obtain ⟨bytes,wire',body',hres,rfl,hs',hahead,hend⟩ := httpBodyRead_brings hlen h hleft
    by_cases hbytes : bytes = []
    · obtain ⟨rfl,rfl⟩ := hend hbytes
      obtain ⟨hafter,hfinal⟩ := readAll_after sizes hsizes hahead hs'
      refine ⟨[],sizes.length + 1,?_,nofun,List.nil_prefix,fun _ => ⟨?_,hfinal⟩,fun _ => Nat.succ_pos _⟩
      · change (httpBodyRead b len s).1 :: _ = _
        rw [hres, hbytes, hafter]
        exact Eq.refl _
      · rw [hbytes]
        exact Eq.refl _
    · obtain ⟨parts,zeros,hparts,hne,hfront,hzeros,hmany⟩ := ih hsizes hahead hs'
      refine ⟨bytes :: parts,zeros,?_,List.forall_mem_cons.mpr ⟨hbytes,hne⟩,?_,fun h => ⟨?_,(hzeros h).2⟩,fun h => ?_⟩
      · change (httpBodyRead b len s).1 :: _ = _
        rw [hres, hparts]
        exact Eq.refl _
      · exact (List.prefix_append_right_inj bytes).mpr hfront
      · rw [List.flatten_cons, (hzeros h).1]
      · have hpos := List.length_pos_of_ne_nil hbytes
        rw [List.length_append, List.length_cons] at h
        exact hmany (by omega)

end

/-! ## What has been read -/

theorem Chunks.append {wire data wire' data' : List UInt8} (h : Chunks wire data) (h' : Chunks wire' data') :
    Chunks (wire ++ wire') (data ++ data') := by
  induction h with
  | nil => exact h'
  | @chunk line data wire rest hline hdata _ ih =>
    have hall := Chunks.chunk hline hdata ih
    simp only [List.append_assoc] at hall ⊢
    exact hall

/-- The bytes that have been read, and what of them has been delivered. -/
inductive Behind (req : HttpRequest) : Body → List UInt8 → List UInt8 → Prop where
  | length {b : Body} {seen : List UInt8} (hreq : req.chunked = false) (hlength : b.chunked = false)
    (hremaining : seen.length + b.remaining = req.body.remaining) : Behind req b seen seen
  | header {b : Body} {seen delivered : List UInt8} (hreq : req.chunked = true) (hchunked : b.chunked = true) (hdone : b.chunkDone = false)
    (hremaining : b.chunkRemaining = 0) (hchunks : Chunks seen delivered) : Behind req b seen delivered
  | data {b : Body} {seen delivered line part : List UInt8} (hreq : req.chunked = true) (hchunked : b.chunked = true)
    (hdone : b.chunkDone = false) (hremaining : 0 < b.chunkRemaining) (hchunks : Chunks seen delivered)
    (hline : SizeLine (part.length + b.chunkRemaining) line) : Behind req b (seen ++ line ++ part) (delivered ++ part)

section
variable {req : HttpRequest} {b : Body} {len : ℕ} {s : Socket} {seen delivered : List UInt8}

theorem behind_start (req : HttpRequest) : Behind req req.body [] [] := by
  cases hchunked : req.chunked with
  | true => exact Behind.header hchunked hchunked rfl rfl Chunks.nil
  | false => exact Behind.length hchunked hchunked (Nat.zero_add _)

/-- What has been delivered is data of the stream. -/
theorem Behind.decodable (h : Behind req b seen delivered) (rest : List UInt8) : Decodable req (seen ++ rest) delivered := by
  unfold Decodable
  cases h with
  | length hreq hlength hremaining =>
    rw [if_neg (Bool.eq_false_iff.mp hreq)]
    exact ⟨List.prefix_append seen rest,by omega⟩
  | header hreq _ _ _ hchunks =>
    rw [if_pos hreq]
    exact ⟨seen,rest,rfl,Or.inl hchunks⟩
  | @data seen delivered line part hreq hchunked hdone hremaining hchunks hline =>
    rw [if_pos hreq]
    refine ⟨seen,line ++ part ++ rest,?_,Or.inr ⟨delivered,line,part,rest,_,hchunks,rfl,hline,Nat.le_add_right _ _,rfl⟩⟩
    simp only [List.append_assoc]

/-- A read goes on in the stream with what it delivers, or has found its end. -/
def GoesOn (req : HttpRequest) (s : Socket) (seen delivered : List UInt8) (out : Option (List UInt8) × Body × Socket) : Prop :=
  ∀ bytes, out.1 = some bytes → ∃ more, s.left = more ++ out.2.2.left ∧
    ((bytes = [] ∧ Framed req (seen ++ more) delivered) ∨
      (bytes ≠ [] ∧ more ≠ [] ∧ Behind req out.2.1 (seen ++ more) (delivered ++ bytes)))

theorem readChunkData_goesOn {line part : List UInt8} (hreq : req.chunked = true) (hchunked : b.chunked = true)
    (hdone : b.chunkDone = false) (hchunks : Chunks seen delivered) (hline : SizeLine (part.length + b.chunkRemaining) line) :
    GoesOn req s (seen ++ line ++ part) (delivered ++ part) (readChunkData b len s) := by
  intro bytes hbytes
  unfold readChunkData at hbytes ⊢
  cases hread : socketRead s (min b.chunkRemaining len) with
  | mk result s₁ =>
  cases result with
  | none =>
    rw [hread] at hbytes
    cases hbytes
  | some first =>
  obtain ⟨hne,hle,hleft⟩ := socketRead_some hread
  rw [hread] at hbytes
  dsimp only at hbytes ⊢
  by_cases hmore : b.chunkRemaining - first.length ≠ 0
  · rw [if_pos hmore] at hbytes ⊢
    cases hbytes
    refine ⟨bytes,hleft,Or.inr ⟨hne,hne,?_⟩⟩
    have hnew : SizeLine ((part ++ bytes).length + (b.chunkRemaining - bytes.length)) line := by
      rw [List.length_append, Nat.add_assoc, Nat.add_sub_cancel' (by omega)]
      exact hline
    have hbehind : Behind req { b with chunkRemaining := b.chunkRemaining - bytes.length } (seen ++ line ++ (part ++ bytes))
        (delivered ++ (part ++ bytes)) := Behind.data hreq hchunked hdone (Nat.pos_of_ne_zero hmore) hchunks hnew
    simp only [List.append_assoc] at hbehind ⊢
    exact hbehind
  rw [if_neg hmore] at hbytes ⊢
  cases hexact : sockReadExact s₁ 2 with
  | mk result s₂ =>
  cases result with
  | none =>
    rw [hexact] at hbytes
    cases hbytes
  | some crlf =>
  rw [hexact] at hbytes
  dsimp only at hbytes ⊢
  split at hbytes
  · cases hbytes
  rename_i hcrlf
  obtain rfl := Decidable.not_not.mp hcrlf
  rw [if_neg hcrlf]
  cases hbytes
  obtain ⟨-,hleft₁⟩ := sockReadExact_some hexact
  refine ⟨bytes ++ [cr,lf],?_,Or.inr ⟨hne,List.append_ne_nil_of_left_ne_nil hne _,?_⟩⟩
  · rw [hleft, hleft₁, List.append_assoc]
  have hwhole : SizeLine (part ++ bytes).length line := by
    have hlength : part.length + b.chunkRemaining = (part ++ bytes).length := by
      rw [List.length_append]
      omega
    rwa [hlength] at hline
  have hchunk := hchunks.append (Chunks.chunk hwhole (List.append_ne_nil_of_right_ne_nil part hne) Chunks.nil)
  have hbehind : Behind req { b with chunkRemaining := b.chunkRemaining - bytes.length } _ _ :=
    Behind.header hreq hchunked hdone (Decidable.not_not.mp hmore) hchunk
  simp only [List.append_assoc, List.append_nil] at hbehind ⊢
  exact hbehind

theorem httpBodyRead_goesOn (hlen : 0 < len) (h : Behind req b seen delivered) :
    GoesOn req s seen delivered (httpBodyRead b len s) := by
  unfold httpBodyRead
  rw [if_neg (Nat.ne_of_gt hlen)]
  cases h with
  | length hreq hlength hremaining =>
    rw [if_pos (Bool.eq_false_iff.mp hlength)]
    split
    · rename_i hzero
      intro bytes hbytes
      cases hbytes
      refine ⟨[],rfl,Or.inl ⟨rfl,?_⟩⟩
      unfold Framed
      rw [if_neg (Bool.eq_false_iff.mp hreq), List.append_nil]
      exact ⟨rfl,by omega⟩
    · rename_i hnonzero
      intro bytes hbytes
      cases hread : socketRead s (min b.remaining len) with
      | mk result s₁ =>
      rw [hread] at hbytes
      cases result with
      | none => cases hbytes
      | some first =>
        cases hbytes
        obtain ⟨hne,hle,hleft⟩ := socketRead_some hread
        refine ⟨bytes,hleft,Or.inr ⟨hne,hne,Behind.length hreq hlength ?_⟩⟩
        rw [List.length_append]
        dsimp only
        omega
  | header hreq hchunked hdone hremaining hchunks =>
    rw [if_neg (not_not_intro hchunked), if_neg (Bool.eq_false_iff.mp hdone), if_pos hremaining]
    cases hread : readLine s lineSize with
    | mk result s₁ =>
    cases result with
    | none =>
      intro bytes hbytes
      cases hbytes
    | some line =>
    dsimp only
    cases hsize : chunkSize line with
    | none =>
      intro bytes hbytes
      cases hbytes
    | some size =>
    obtain ⟨wire,hline,hleft⟩ := sizeLine_of_read hread hsize
    cases size with
    | zero =>
      dsimp only
      cases hend : readTrailers s₁ with
      | mk found s₂ =>
      intro bytes hbytes
      cases found with
      | false => cases hbytes
      | true =>
        cases hbytes
        obtain ⟨trailers,htrailers,hleft₁⟩ := readTrailers_some hend
        refine ⟨wire ++ trailers,?_,Or.inl ⟨rfl,?_⟩⟩
        · rw [hleft, hleft₁, List.append_assoc]
        · unfold Framed
          rw [if_pos hreq]
          exact ⟨seen,wire,trailers,(List.append_assoc _ _ _).symm,hchunks,hline,htrailers⟩
    | succ size =>
      dsimp only
      intro bytes hbytes
      have hdata : SizeLine (([] : List UInt8).length + (size + 1)) wire := by
        rw [List.length_nil, Nat.zero_add]
        exact hline
      obtain ⟨more,hleft₁,hends⟩ :=
        readChunkData_goesOn (b := { b with chunkRemaining := size + 1 }) hreq hchunked hdone hchunks hdata bytes hbytes
      refine ⟨wire ++ more,?_,?_⟩
      · rw [hleft, hleft₁, List.append_assoc]
      · simp only [List.append_nil, List.append_assoc] at hends
        rcases hends with hframed | ⟨hne,hmore,hbehind⟩
        · exact Or.inl hframed
        · exact Or.inr ⟨hne,List.append_ne_nil_of_right_ne_nil wire hmore,hbehind⟩
  | data hreq hchunked hdone hremaining hchunks hline =>
    rw [if_neg (not_not_intro hchunked), if_neg (Bool.eq_false_iff.mp hdone), if_neg (by omega)]
    exact readChunkData_goesOn hreq hchunked hdone hchunks hline

/-! ## A body that is framed badly -/

/-- The reads bring data of the stream in parts, and then fail. -/
def Breaks (req : HttpRequest) (wire : List UInt8) (reads : ℕ) (results : List (Option (List UInt8))) : Prop :=
  ∃ (parts : List (List UInt8)) (later : List (Option (List UInt8))), results = parts.map some ++ later ∧ (∀ p ∈ parts, p ≠ []) ∧ Decodable req wire parts.flatten ∧
    (later = [] ∨ ∃ after, later = none :: after) ∧ (wire.length < reads → later ≠ [])

/-- What the reads bring after what has been delivered before. -/
theorem readAll_goesOn {wire : List UInt8} (hbad : ∀ frame body rest, wire = frame ++ rest → ¬Framed req frame body) (sizes : List ℕ)
    (hsizes : ∀ n ∈ sizes, 0 < n) (h : Behind req b seen delivered) (hwire : wire = seen ++ s.left) :
    ∃ (parts : List (List UInt8)) (later : List (Option (List UInt8))), (readAll b s sizes).1 = parts.map some ++ later ∧ (∀ p ∈ parts, p ≠ []) ∧
      Decodable req wire (delivered ++ parts.flatten) ∧ (later = [] ∨ ∃ after, later = none :: after) ∧
        (s.left.length < sizes.length → later ≠ []) := by
  induction sizes generalizing b s seen delivered with
  | nil =>
    refine ⟨[],[],rfl,nofun,?_,Or.inl rfl,nofun⟩
    rw [List.flatten_nil, List.append_nil, hwire]
    exact h.decodable _
  | cons len sizes ih =>
    obtain ⟨hlen,hsizes⟩ := List.forall_mem_cons.mp hsizes
    have hstep := httpBodyRead_goesOn (s := s) hlen h
    cases hres : (httpBodyRead b len s).1 with
    | none =>
      refine ⟨[],none :: (readAll (httpBodyRead b len s).2.1 (httpBodyRead b len s).2.2 sizes).1,?_,nofun,?_,Or.inr ⟨_,rfl⟩,
        fun _ => List.cons_ne_nil _ _⟩
      · change (httpBodyRead b len s).1 :: _ = _
        rw [hres]
        exact Eq.refl _
      · rw [List.flatten_nil, List.append_nil, hwire]
        exact h.decodable _
    | some bytes =>
      obtain ⟨more,hleft,⟨-,hframed⟩ | ⟨hne,hmore,hbehind⟩⟩ := hstep bytes hres
      · refine absurd hframed (hbad _ _ (httpBodyRead b len s).2.2.left ?_)
        rw [hwire, hleft, List.append_assoc]
      have hwire' : wire = seen ++ more ++ (httpBodyRead b len s).2.2.left := by
        rw [hwire, hleft, List.append_assoc]
      obtain ⟨parts,later,hparts,hnonempty,hdecodable,hlater,hmany⟩ := ih hsizes hbehind hwire'
      refine ⟨bytes :: parts,later,?_,List.forall_mem_cons.mpr ⟨hne,hnonempty⟩,?_,hlater,fun hshort => hmany ?_⟩
      · change (httpBodyRead b len s).1 :: _ = _
        rw [hres, hparts]
        exact Eq.refl _
      · rw [List.flatten_cons, ← List.append_assoc]
        exact hdecodable
      · have hpos := List.length_pos_of_ne_nil hmore
        have hlength := congrArg List.length hleft
        rw [List.length_append] at hlength
        rw [List.length_cons] at hshort
        omega

end

/-- One chunk, the last chunk, and the first byte of another request. -/
def sampleFrame : List UInt8 := [53,13,10] ++ [104,101,108,108,111] ++ [13,10] ++ [48,13,10] ++ [13,10]

theorem sampleFrame_framed : Framed ⟨true,false,0⟩ sampleFrame [104,101,108,108,111] := by
  have hdigit : ∀ c : UInt8, isHexDigit c → hexValue [c] ≤ sizeMax → SizeLine (hexValue [c]) [c,13,10] := fun c hhex hmax =>
    SizeLine.mk  (List.cons_ne_nil c [])
      (fun d hd => List.mem_singleton.mp hd ▸ hhex) hmax (Or.inl rfl) lineText_nil (Or.inr rfl) (show 3 < 64 by decide)
  have hfive : SizeLine 5 [53,13,10] := hdigit 53 (by decide) (by decide)
  have hzero : SizeLine 0 [48,13,10] := hdigit 48 (by decide) (by decide)
  have hchunks : Chunks ([53,13,10] ++ [104,101,108,108,111] ++ [cr,lf] ++ []) ([104,101,108,108,111] ++ []) :=
    Chunks.chunk hfive (List.cons_ne_nil _ _) Chunks.nil
  exact ⟨_,[48,13,10],[13,10],rfl,hchunks,hzero,Trailers.last (Or.inr rfl)⟩

end Bvstk.Web.Http
