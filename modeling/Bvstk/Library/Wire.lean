import Mathlib.Data.Nat.Notation
import Mathlib.Tactic.Ring

/-! # Big-endian wire fields

Fixed-width numbers are written most significant byte first; a reader consumes a
prefix of its input and hands on the rest. Round trips compose field by field.
-/
namespace Wire

abbrev Bytes := List UInt8

/-- The low `width` bytes of a number, most significant first. -/
def beBytes : ℕ → ℕ → Bytes
  | 0, _ => []
  | width + 1, v => UInt8.ofNat (v / 256^width) :: beBytes width v

/-- The number a byte string denotes, most significant first. -/
def readBE (bytes : Bytes) : ℕ := bytes.foldl (fun acc b => acc * 256 + b.toNat) 0

@[simp] theorem beBytes_length (width v : ℕ) : (beBytes width v).length = width := by
  induction width with
  | zero => rfl
  | succ width ih => simp [beBytes, ih]

theorem foldl_beBytes (width v acc : ℕ) :
    (beBytes width v).foldl (fun acc b => acc * 256 + b.toNat) acc = acc * 256^width + v % 256^width := by
  induction width generalizing acc with
  | zero => simp [beBytes, Nat.mod_one]
  | succ width ih =>
    have hbyte : (UInt8.ofNat (v / 256^width)).toNat = v / 256^width % 256 := UInt8.toNat_ofNat'
    have hmod : v % 256^(width + 1) = v % 256^width + 256^width * (v / 256^width % 256) :=
      Nat.mod_pow_succ
    simp only [beBytes, List.foldl_cons, ih, hbyte, hmod]
    ring

@[simp] theorem readBE_beBytes {width v : ℕ} (h : v < 256^width) : readBE (beBytes width v) = v := by
  simp only [readBE, foldl_beBytes, Nat.zero_mul, Nat.zero_add]
  exact Nat.mod_eq_of_lt h

/-- What was read before only shifts the rest. -/
theorem foldl_readBE (bytes : Bytes) (acc : ℕ) :
    bytes.foldl (fun acc b => acc * 256 + b.toNat) acc = acc * 256^bytes.length + readBE bytes := by
  have hshift : ∀ a, bytes.foldl (fun acc b => acc * 256 + b.toNat) a =
      a * 256^bytes.length + bytes.foldl (fun acc b => acc * 256 + b.toNat) 0 := by
    induction bytes with
    | nil => exact fun a => by simp
    | cons b bytes ih =>
      intro a
      simp only [List.foldl_cons, List.length_cons]
      rw [ih (a * 256 + b.toNat), ih (0 * 256 + b.toNat)]
      ring
  exact hshift acc

theorem readBE_cons (b : UInt8) (bytes : Bytes) :
    readBE (b :: bytes) = b.toNat * 256^bytes.length + readBE bytes :=
  (foldl_readBE bytes (0 * 256 + b.toNat)).trans (by rw [Nat.zero_mul, Nat.zero_add])

theorem readBE_lt (bytes : Bytes) : readBE bytes < 256^bytes.length := by
  induction bytes with
  | nil => exact Nat.one_pos
  | cons b bytes ih =>
    have hb : b.toNat < 256 := b.toNat_lt
    calc readBE (b :: bytes) = b.toNat * 256^bytes.length + readBE bytes := readBE_cons b bytes
      _ < b.toNat * 256^bytes.length + 256^bytes.length := Nat.add_lt_add_left ih _
      _ = (b.toNat + 1) * 256^bytes.length := by ring
      _ ≤ 256 * 256^bytes.length := Nat.mul_le_mul_right _ hb
      _ = 256^(b :: bytes).length := by rw [List.length_cons]; ring

theorem beBytes_mod (width v : ℕ) : beBytes width (v % 256^width) = beBytes width v := by
  induction width generalizing v with
  | zero => rfl
  | succ width ih =>
    have hhead : UInt8.ofNat (v % 256^(width + 1) / 256^width) = UInt8.ofNat (v / 256^width) := by
      apply UInt8.toNat_inj.mp
      have hdvd : v % 256^(width + 1) / 256^width = v / 256^width % 256 := by
        rw [pow_succ, Nat.mod_mul_right_div_self]
      simp [hdvd]
    have htail : beBytes width (v % 256^(width + 1)) = beBytes width v := by
      rw [← ih (v % 256^(width + 1)), ← ih v, Nat.mod_mod_of_dvd _ (pow_dvd_pow 256 (Nat.le_succ width))]
    simp only [beBytes, hhead, htail]

/-- A field of the right width is the encoding of the number it denotes. -/
theorem beBytes_readBE (bytes : Bytes) : beBytes bytes.length (readBE bytes) = bytes := by
  induction bytes with
  | nil => rfl
  | cons b bytes ih =>
    have hlt := readBE_lt bytes
    have hpos : 0 < 256^bytes.length := Nat.pow_pos (by decide)
    have hdiv : (b.toNat * 256^bytes.length + readBE bytes) / 256^bytes.length = b.toNat := by
      rw [Nat.add_comm, Nat.add_mul_div_right _ _ hpos, Nat.div_eq_of_lt hlt, Nat.zero_add]
    have hmod : (b.toNat * 256^bytes.length + readBE bytes) % 256^bytes.length = readBE bytes := by
      exact Nat.mul_add_mod_of_lt hlt
    simp only [List.length_cons, beBytes, readBE_cons, hdiv, UInt8.ofNat_toNat, List.cons.injEq, true_and]
    rw [← beBytes_mod, hmod, ih]

/-! ## Readers -/

/-- The next `n` bytes and what follows them. -/
def take? (n : ℕ) (bytes : Bytes) : Option (Bytes × Bytes) :=
  if n ≤ bytes.length then some (bytes.take n,bytes.drop n) else none

/-- The next `width`-byte number and what follows it. -/
def readNum (width : ℕ) (bytes : Bytes) : Option (ℕ × Bytes) :=
  (take? width bytes).map fun p => (readBE p.1,p.2)

def readByte : Bytes → Option (UInt8 × Bytes)
  | [] => none
  | b :: rest => some (b,rest)

@[simp] theorem take?_append (bytes rest : Bytes) :
    take? bytes.length (bytes ++ rest) = some (bytes,rest) := by
  simp [take?]

theorem take?_append_of_length {n : ℕ} {bytes : Bytes} (h : bytes.length = n) (rest : Bytes) :
    take? n (bytes ++ rest) = some (bytes,rest) := by
  rw [← h]
  exact take?_append bytes rest

theorem readNum_beBytes {width v : ℕ} (h : v < 256^width) (rest : Bytes) :
    readNum width (beBytes width v ++ rest) = some (v,rest) := by
  rw [readNum, take?_append_of_length (beBytes_length width v), Option.map_some, readBE_beBytes h]

@[simp] theorem readByte_cons (b : UInt8) (rest : Bytes) : readByte (b :: rest) = some (b,rest) := rfl

/-- One step of a reader that is known to succeed. -/
theorem read_step {α β : Type} {x : Option α} {a : α} {f : α → Option β} {out : Option β}
    (hx : x = some a) (hf : f a = out) : (x >>= f) = out := by
  subst hx
  exact hf

/-- A counted run of items. -/
def readMany {α : Type*} (item : Bytes → Option (α × Bytes)) : ℕ → Bytes → Option (List α × Bytes)
  | 0, bytes => some ([],bytes)
  | n + 1, bytes => do
    let (a,bytes) ← item bytes
    let (as,bytes) ← readMany item n bytes
    pure (a :: as,bytes)

/-- A run reads back when each of its items does. -/
theorem readMany_flatMap {α : Type*} {item : Bytes → Option (α × Bytes)} {encode : α → Bytes} :
    ∀ (as : List α), (∀ a ∈ as, ∀ rest, item (encode a ++ rest) = some (a,rest)) → ∀ (rest : Bytes),
      readMany item as.length (as.flatMap encode ++ rest) = some (as,rest)
  | [], _, rest => rfl
  | a :: as, h, rest => by
    have ha := h a List.mem_cons_self (as.flatMap encode ++ rest)
    have has := readMany_flatMap as (fun b hb => h b (List.mem_cons_of_mem _ hb)) rest
    simp only [List.length_cons, List.flatMap_cons, List.append_assoc, readMany, ha, has,
      Option.bind_eq_bind, Option.bind_some, Option.pure_def]

end Wire
