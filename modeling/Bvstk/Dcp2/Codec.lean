import Bvstk.Base.Status
import Bvstk.Library.Wire
import Mathlib.Tactic.NormNum

/-! # Frames of the control protocol

`bvstk_dcp2_codec.c`: a request is taken out of a frame, and a response is put into one. Lengths
have 16 bits.
-/
namespace Bvstk.Dcp2
open Wire

def version : ℕ := 2
def headerSize : ℕ := 8
def minPayload : ℕ := 4
def maxPayloadSize : ℕ := 4096

def opResponse : UInt8 := 0x80
def opEvent : UInt8 := 0x40
def opMask : UInt8 := 0x3F

def magic : List UInt8 := [68,67,80,50]

/-- `bvstk_dcp2_request_t`; a body has at most as many bytes as `body_size` can tell. -/
structure Request where
  service : UInt8
  opcode : UInt8
  sequence : UInt16
  body : List UInt8
  short : body.length < 2^16

/-- The number at some place. -/
def beAt (bytes : List UInt8) (i width : ℕ) : ℕ := readBE ((bytes.drop i).take width)

theorem body_short {frame : List UInt8} (payloadSize : UInt16) :
    ((frame.drop 12).take (payloadSize.toNat - minPayload)).length < 2^16 :=
  Nat.lt_of_le_of_lt (List.length_take_le ..) (Nat.lt_of_le_of_lt (Nat.sub_le ..) payloadSize.toNat_lt)

/-- `bvstk_dcp2_decode_request`. -/
def decodeRequest (frame : List UInt8) : Option Request :=
  if frame.length < headerSize + minPayload ∨ frame.take 4 ≠ magic then none
  else if beAt frame 4 2 ≠ version then none
  else
    let payloadSize := UInt16.ofNat (beAt frame 6 2)
    if payloadSize.toNat < minPayload ∨ maxPayloadSize < payloadSize.toNat ∨
        frame.length ≠ headerSize + payloadSize.toNat then none
    else
      let operation := frame.getD 9 0
      if operation &&& (opResponse ||| opEvent) ≠ 0 ∨ beAt frame 10 2 = 0 then none
      else
        some ⟨frame.getD 8 0,operation &&& opMask,UInt16.ofNat (beAt frame 10 2),
          (frame.drop 12).take (payloadSize.toNat - minPayload),body_short payloadSize⟩

/-- `bvstk_dcp2_encode_response`: `none` for `-1`. -/
def encodeResponse (capacity : ℕ) (r : Request) (status : ℕ) (body : List UInt8) (bodySize : UInt16) : Option (List UInt8) :=
  let payloadSize := UInt16.ofNat (minPayload + 2 + bodySize.toNat)
  let totalSize := headerSize + payloadSize.toNat
  if maxPayloadSize - 6 < bodySize.toNat ∨ capacity < totalSize then none
  else
    some (magic ++ beBytes 2 version ++ beBytes 2 payloadSize.toNat ++ [r.service,opResponse ||| (r.opcode &&& opMask)] ++
      beBytes 2 r.sequence.toNat ++ beBytes 2 status ++ body.take bodySize.toNat)

/-- `bvstk_dcp2_status_from_bvstk`. -/
def statusFromBvstk : Status → ℕ
  | .ok => 0
  | .malformed => 1
  | .unsupported => 2
  | .denied => 3
  | .busy => 4
  | .timeout => 5
  | .range => 6
  | _ => 7

/-! ## Whole frames -/

/-- A frame that is one request and nothing else. -/
structure WholeFrame (frame : List UInt8) (r : Request) : Prop where
  bytes : frame = magic ++ beBytes 2 version ++ beBytes 2 (minPayload + r.body.length) ++ [r.service,r.opcode] ++
    beBytes 2 r.sequence.toNat ++ r.body
  payload : minPayload + r.body.length ≤ maxPayloadSize
  operation : r.opcode &&& (opResponse ||| opEvent) = 0
  sequence : r.sequence ≠ 0

/-- An operation without the two bits is its masked value. -/
theorem operation_masked {operation : UInt8} (h : operation &&& (opResponse ||| opEvent) = 0) :
    operation &&& opMask = operation := by
  have hall : opResponse ||| opEvent ||| opMask = -1 := by decide
  calc operation &&& opMask = operation &&& (opResponse ||| opEvent) ||| operation &&& opMask := by rw [h, UInt8.zero_or]
    _ = operation &&& (opResponse ||| opEvent ||| opMask) := (UInt8.eq_of_toBitVec_eq (by simp [BitVec.and_or_distrib_left])).symm
    _ = operation := by rw [hall, UInt8.and_neg_one]

theorem beAt_lt (bytes : List UInt8) (i width : ℕ) : beAt bytes i width < 256^width := by
  refine Nat.lt_of_lt_of_le (readBE_lt _) (Nat.pow_le_pow_right (by decide) ?_)
  exact List.length_take_le ..

/-- A number is written as it was read. -/
theorem beBytes_beAt {bytes : List UInt8} {i width : ℕ} (h : i + width ≤ bytes.length) :
    beBytes width (beAt bytes i width) = (bytes.drop i).take width := by
  have hlength : ((bytes.drop i).take width).length = width := by
    rw [List.length_take, List.length_drop]
    omega
  have hwrite := beBytes_readBE ((bytes.drop i).take width)
  rwa [hlength] at hwrite

/-- The head of a frame and the rest. -/
theorem frame_split {frame : List UInt8} {n : ℕ} (h : frame.length = n + 12) :
    frame = frame.take 4 ++ (frame.drop 4).take 2 ++ (frame.drop 6).take 2 ++ [frame.getD 8 0,frame.getD 9 0] ++
      (frame.drop 10).take 2 ++ frame.drop 12 := by
  match frame, h with
  | _ :: _ :: _ :: _ :: _ :: _ :: _ :: _ :: _ :: _ :: _ :: _ :: _, _ => rfl

theorem wholeFrame_of_decode {frame : List UInt8} {r : Request} (h : decodeRequest frame = some r) : WholeFrame frame r := by
  unfold decodeRequest at h
  split at h
  · cases h
  rename_i hhead
  rw [not_or, Nat.not_lt, not_ne_iff] at hhead
  split at h
  · cases h
  rename_i hversion
  rw [not_ne_iff] at hversion
  have hpayload : (UInt16.ofNat (beAt frame 6 2)).toNat = beAt frame 6 2 := UInt16.toNat_ofNat_of_lt' (beAt_lt frame 6 2)
  have hsequence : (UInt16.ofNat (beAt frame 10 2)).toNat = beAt frame 10 2 :=
    UInt16.toNat_ofNat_of_lt' (beAt_lt frame 10 2)
  dsimp only at h
  split at h
  · cases h
  rename_i hsize
  rw [hpayload, not_or, not_or, Nat.not_lt, Nat.not_lt, not_ne_iff] at hsize
  obtain ⟨hmin,hmax,hlength⟩ := hsize
  split at h
  · cases h
  rename_i hoperation
  rw [not_or, not_ne_iff] at hoperation
  cases Option.some.inj h
  have hbody : (frame.drop 12).take ((UInt16.ofNat (beAt frame 6 2)).toNat - minPayload) = frame.drop 12 := by
    refine List.take_of_length_le ?_
    rw [hpayload, List.length_drop, hlength]
    exact Nat.le_of_eq (Nat.add_sub_add_left 8 _ 4)
  have hwhole : minPayload + ((frame.drop 12).take ((UInt16.ofNat (beAt frame 6 2)).toNat - minPayload)).length =
      beAt frame 6 2 := by
    rw [hbody, List.length_drop, hlength]
    simp only [headerSize, minPayload] at *
    omega
  have hlong : 12 ≤ frame.length := hhead.1
  refine ⟨?_,?_,?_,?_⟩
  · dsimp only
    rw [hwhole, ← hversion, hsequence, hbody, operation_masked hoperation.1]
    rw [beBytes_beAt (by omega), beBytes_beAt (by omega), beBytes_beAt (by omega), ← hhead.2]
    exact frame_split (Nat.sub_add_cancel hlong).symm
  · rw [hwhole]
    exact hmax
  · rw [operation_masked hoperation.1]
    exact hoperation.1
  · intro hzero
    apply hoperation.2
    rw [← hsequence]
    exact congrArg UInt16.toNat hzero

theorem decode_of_wholeFrame {frame : List UInt8} {r : Request} (h : WholeFrame frame r) : decodeRequest frame = some r := by
  obtain ⟨hbytes,hpayload,hoperation,hsequence⟩ := h
  obtain ⟨service,opcode,sequence,body,short⟩ := r
  dsimp only at hbytes hpayload hoperation hsequence
  have hlt : minPayload + body.length < 256^2 := Nat.lt_of_le_of_lt hpayload (by decide)
  have hsize : beAt frame 6 2 = minPayload + body.length := by
    rw [hbytes]
    exact readBE_beBytes hlt
  have hsequenceLt : sequence.toNat < 256^2 := sequence.toNat_lt
  have hnumber : beAt frame 10 2 = sequence.toNat := by
    rw [hbytes]
    exact readBE_beBytes hsequenceLt
  have hversionLt : version < 256^2 := by decide
  have hversion : beAt frame 4 2 = version := by
    rw [hbytes]
    exact readBE_beBytes hversionLt
  have hmagic : frame.take 4 = magic := by
    rw [hbytes]
    rfl
  have hlength : frame.length = headerSize + (minPayload + body.length) := by
    rw [hbytes]
    simp only [List.length_append, beBytes_length, magic, List.length_cons, List.length_nil, headerSize, minPayload]
    omega
  have hwidth : (UInt16.ofNat (beAt frame 6 2)).toNat = minPayload + body.length := by
    rw [hsize]
    exact UInt16.toNat_ofNat_of_lt' hlt
  have hservice : frame.getD 8 0 = service := by
    rw [hbytes]
    rfl
  have hopcode : frame.getD 9 0 = opcode := by
    rw [hbytes]
    rfl
  have hrest : frame.drop 12 = body := by
    rw [hbytes]
    rfl
  unfold decodeRequest
  have hhead : ¬(frame.length < headerSize + minPayload ∨ frame.take 4 ≠ magic) := by
    rw [not_or, not_ne_iff, hlength]
    exact ⟨by omega,hmagic⟩
  rw [if_neg hhead, if_neg (not_ne_iff.mpr hversion)]
  have hfits : ¬((UInt16.ofNat (beAt frame 6 2)).toNat < minPayload ∨
      maxPayloadSize < (UInt16.ofNat (beAt frame 6 2)).toNat ∨
      frame.length ≠ headerSize + (UInt16.ofNat (beAt frame 6 2)).toNat) := by
    rw [hwidth, hlength]
    omega
  have hgood : ¬(frame.getD 9 0 &&& (opResponse ||| opEvent) ≠ 0 ∨ beAt frame 10 2 = 0) := by
    rw [hopcode, hnumber, hoperation, not_or, not_ne_iff]
    exact ⟨rfl,fun hzero => hsequence (UInt16.toNat_inj.mp hzero)⟩
  dsimp only
  rw [if_neg hfits, if_neg hgood]
  simp only [Option.some.injEq, Request.mk.injEq]
  refine ⟨hservice,by rw [hopcode, operation_masked hoperation],?_,?_⟩
  · rw [hnumber, UInt16.ofNat_toNat]
  · rw [hwidth, hrest]
    exact List.take_of_length_le (by omega)

/-- Exactly the whole frames are accepted, each as the request that it is. -/
theorem decodeRequest_whole {frame : List UInt8} {r : Request} : decodeRequest frame = some r ↔ WholeFrame frame r :=
  ⟨wholeFrame_of_decode,decode_of_wholeFrame⟩

/-! ## Responses -/

/-- The frame of a response, its fields at their places. -/
structure Responds (frame : List UInt8) (capacity : ℕ) (r : Request) (status : Status) (body : List UInt8) : Prop where
  fits : frame.length ≤ capacity
  magic : frame.take 4 = Dcp2.magic
  version : beAt frame 4 2 = Dcp2.version
  length : headerSize + beAt frame 6 2 = frame.length
  service : frame.getD 8 0 = r.service
  opcode : frame.getD 9 0 = opResponse ||| (r.opcode &&& opMask)
  sequence : beAt frame 10 2 = r.sequence.toNat
  status : beAt frame 12 2 = statusFromBvstk status
  body : frame.drop 14 = body

theorem statusFromBvstk_lt (status : Status) : statusFromBvstk status < 256^2 := by
  cases status with
  | _ => decide

/-- A response is whole, unless there is no room for it. -/
theorem encodeResponse_responds {capacity : ℕ} (r : Request) (status : Status) {body : List UInt8}
    (hbody : body.length ≤ maxPayloadSize - 6) :
    (capacity < 14 + body.length ∧
      encodeResponse capacity r (statusFromBvstk status) body (UInt16.ofNat body.length) = none) ∨
    ∃ frame, encodeResponse capacity r (statusFromBvstk status) body (UInt16.ofNat body.length) = some frame ∧
      Responds frame capacity r status body := by
  have hmax : maxPayloadSize - 6 = 4090 := rfl
  have hshort : body.length < 65536 := by omega
  have hsize : (UInt16.ofNat body.length).toNat = body.length := UInt16.toNat_ofNat_of_lt' hshort
  have hpayloadShort : minPayload + 2 + body.length < 65536 := by
    simp only [minPayload]
    omega
  have hpayload : (UInt16.ofNat (minPayload + 2 + body.length)).toNat = minPayload + 2 + body.length :=
    UInt16.toNat_ofNat_of_lt' hpayloadShort
  have htotal : headerSize + (minPayload + 2 + body.length) = 14 + body.length := by
    simp only [headerSize, minPayload]
    omega
  unfold encodeResponse
  dsimp only
  rw [hsize, hpayload, htotal]
  by_cases hroom : capacity < 14 + body.length
  · rw [if_pos (Or.inr hroom)]
    exact Or.inl ⟨hroom,rfl⟩
  · rw [if_neg (by omega), List.take_length]
    refine Or.inr ⟨_,rfl,?_⟩
    have hpayloadLt : minPayload + 2 + body.length < 256^2 := hpayloadShort
    have hversionLt : Dcp2.version < 256^2 := by decide
    have hsequenceLt : r.sequence.toNat < 256^2 := r.sequence.toNat_lt
    have hlength : (magic ++ beBytes 2 version ++ beBytes 2 (minPayload + 2 + body.length) ++
        [r.service,opResponse ||| (r.opcode &&& opMask)] ++ beBytes 2 r.sequence.toNat ++
        beBytes 2 (statusFromBvstk status) ++ body).length = 14 + body.length := by
      simp only [List.length_append, beBytes_length, magic, List.length_cons, List.length_nil]
    exact {
      fits := hlength.trans_le (Nat.not_lt.mp hroom)
      magic := rfl
      version := readBE_beBytes hversionLt
      length := by
        rw [hlength, ← htotal]
        exact congrArg _ (readBE_beBytes hpayloadLt)
      service := rfl
      opcode := rfl
      sequence := readBE_beBytes hsequenceLt
      status := readBE_beBytes (statusFromBvstk_lt status)
      body := rfl }

end Bvstk.Dcp2
