import Bvstk.Fs.TarEntry
import Bvstk.Library.Ustar
import Mathlib.Tactic.Ring

/-! # The archive is lossless

What the reader writes for an entry of an archive is read back by a reader of the format: the
numbers of a header, its checksum, the records of an extended header with their lengths that
count themselves, and the data filled up to blocks.
-/
namespace Bvstk.Fs
open Ustar

/-! ## Numbers -/

theorem toNat_digit {d : ℕ} (hd : d < 10) : (UInt8.ofNat (48 + d)).toNat = 48 + d :=
  UInt8.toNat_ofNat_of_lt' (by simp [UInt8.size]; omega)

theorem isDigit_digit {base d : ℕ} (hd : d < base) (hbase : base ≤ 10) : isDigit base (UInt8.ofNat (48 + d)) = true := by
  unfold isDigit
  rw [toNat_digit (by omega), decide_eq_true_iff]
  omega

theorem digitsValue_append (base : ℕ) (digits : List UInt8) (b : UInt8) :
    digitsValue base (digits ++ [b]) = digitsValue base digits * base + (b.toNat - 48) := by
  simp [digitsValue, List.foldl_append]

theorem octal_length (width n : ℕ) : (octal width n).length = width := by
  induction width generalizing n with
  | zero => rfl
  | succ width ih => simp [octal, ih]

theorem octal_digits (width n : ℕ) : ∀ b ∈ octal width n, isDigit 8 b = true := by
  induction width generalizing n with
  | zero =>
    intro b hb
    cases hb
  | succ width ih =>
    intro b hb
    rw [octal, List.mem_append, List.mem_singleton] at hb
    rcases hb with hb | rfl
    · exact ih _ b hb
    · exact isDigit_digit (Nat.mod_lt n (by decide)) (by decide)

theorem octal_value (width n : ℕ) : digitsValue 8 (octal width n) = n % 8^width := by
  induction width generalizing n with
  | zero => simp [octal, digitsValue, Nat.mod_one]
  | succ width ih =>
    have hlast := toNat_digit (d := n % 8) (by omega)
    rw [octal, digitsValue_append, ih, hlast, pow_succ', Nat.mod_mul]
    omega

theorem takeWhile_digits {base : ℕ} {digits rest : List UInt8} {b : UInt8}
    (hdigits : ∀ d ∈ digits, isDigit base d = true) (hb : isDigit base b = false) :
    (digits ++ b :: rest).takeWhile (isDigit base) = digits := by
  rw [List.takeWhile_append_of_pos hdigits, List.takeWhile_cons_of_neg (by simp [hb]), List.append_nil]

theorem octalField_octal {width n : ℕ} (hwidth : 0 < width) (hn : n < 8^width) (b : UInt8) (rest : List UInt8)
    (hb : b = 0 ∨ b = 32) : octalField (octal width n ++ b :: rest) = some n := by
  have hstop : isDigit 8 b = false := by rcases hb with rfl | rfl <;> decide
  have hne : octal width n ≠ [] := by
    rw [← List.length_pos_iff, octal_length]
    exact hwidth
  unfold octalField
  rw [takeWhile_digits (octal_digits width n) hstop]
  simp only [List.drop_left, hne, ne_eq, not_false_eq_true, true_and, if_pos hb, octal_value, Nat.mod_eq_of_lt hn]

theorem decimalDigits_digits (left n : ℕ) : ∀ b ∈ decimalDigits left n, isDigit 10 b = true := by
  induction left generalizing n with
  | zero =>
    intro b hb
    cases hb
  | succ left ih =>
    intro b hb
    unfold decimalDigits at hb
    split at hb
    · rename_i hsmall
      rw [List.mem_singleton] at hb
      subst hb
      exact isDigit_digit hsmall (by decide)
    · rw [List.mem_append, List.mem_singleton] at hb
      rcases hb with hb | rfl
      · exact ih _ b hb
      · exact isDigit_digit (Nat.mod_lt n (by decide)) (by decide)

theorem decimalDigits_value {left n : ℕ} (hn : n < 10^left) : digitsValue 10 (decimalDigits left n) = n := by
  induction left generalizing n with
  | zero =>
    obtain rfl : n = 0 := by simpa using hn
    rfl
  | succ left ih =>
    unfold decimalDigits
    split
    · rename_i hsmall
      have hdigit := toNat_digit hsmall
      simp only [digitsValue, List.foldl_cons, List.foldl_nil, hdigit]
      omega
    · have hlast := toNat_digit (d := n % 10) (by omega)
      have hfront : n / 10 < 10^left := by
        rw [pow_succ] at hn
        omega
      rw [digitsValue_append, ih hfront, hlast]
      omega

theorem decimal_ne_nil (n : ℕ) : decimal n ≠ [] := by
  unfold decimal decimalDigits
  split
  · simp
  · simp

theorem decimalDigits_length_le (left n : ℕ) : (decimalDigits left n).length ≤ left := by
  induction left generalizing n with
  | zero => exact le_rfl
  | succ left ih =>
    unfold decimalDigits
    split
    · simp
    · have h := ih (n / 10)
      rw [List.length_append, List.length_singleton]
      omega

theorem decimalDigits_length_mono (left : ℕ) {n m : ℕ} (h : n ≤ m) :
    (decimalDigits left n).length ≤ (decimalDigits left m).length := by
  induction left generalizing n m with
  | zero => exact le_rfl
  | succ left ih =>
    unfold decimalDigits
    by_cases hn : n < 10
    · rw [if_pos hn]
      split
      · simp
      · simp
    · rw [if_neg hn, if_neg (by omega)]
      have hrest := ih (Nat.div_le_div_right h (c := 10))
      simp only [List.length_append, List.length_singleton]
      omega

/-- Twenty rounds are enough for the length of a record: every round but the last takes a digit
more. -/
theorem paxLength_fixed (base left : ℕ) {length digits : ℕ} (hrounds : 20 < left + digits) (hlength : length = base + digits)
    (hgrows : digits ≤ (decimal length).length) :
    paxLength base left length = base + (decimal (paxLength base left length)).length := by
  induction left generalizing length digits with
  | zero =>
    have hmost : (decimal length).length ≤ 20 := decimalDigits_length_le 20 length
    omega
  | succ left ih =>
    unfold paxLength
    by_cases hstop : base + (decimal length).length = length
    · simp only [if_pos hstop]
      exact hstop.symm
    · simp only [if_neg hstop]
      have hmono : (decimal length).length ≤ (decimal (base + (decimal length).length)).length :=
        decimalDigits_length_mono 20 (by omega)
      exact ih (by omega) rfl hmono

/-! ## Headers -/

theorem slice_append {front middle back : List UInt8} {start length : ℕ} (hstart : front.length = start)
    (hlength : middle.length = length) : slice (front ++ (middle ++ back)) start length = middle := by
  unfold slice
  rw [List.drop_left' hstart, List.take_left' hlength]

theorem field_length {width : ℕ} {bytes : List UInt8} (h : bytes.length ≤ width) : (field width bytes).length = width := by
  unfold field zeros
  rw [List.length_append, List.length_replicate]
  omega

theorem text_field {width : ℕ} {bytes : List UInt8} (h : ∀ b ∈ bytes, b ≠ 0) : text (field width bytes) = bytes := by
  unfold text field zeros
  rw [List.takeWhile_append_of_pos (fun b hb => by simpa using h b hb)]
  cases width - bytes.length with
  | zero => simp
  | succ n => simp [List.replicate_succ]

/-- The fields before and behind the checksum. -/
def tarFront (name : Path) (type : UInt8) (size : ℕ) : List UInt8 :=
  field 100 name ++ (field 8 (tarMode type) ++ (field 8 (octal 7 0) ++ (field 8 (octal 7 0) ++
    (field 12 (octal 11 size) ++ field 12 (octal 11 0)))))

def tarBack (type : UInt8) : List UInt8 := [type] ++ (zeros 100 ++ field 255 tarMagic)

theorem tarFields_eq (name : Path) (type : UInt8) (size : ℕ) (sum : List UInt8) :
    tarFields name type size sum = tarFront name type size ++ (field 8 sum ++ tarBack type) := by
  simp [tarFields, tarFront, tarBack]

theorem tarMode_length (type : UInt8) : (tarMode type).length = 7 := by
  unfold tarMode
  split <;> rfl

theorem tarFront_length {name : Path} (hname : name.length ≤ 100) (type : UInt8) (size : ℕ) :
    (tarFront name type size).length = 148 := by
  unfold tarFront
  simp only [List.length_append, field_length hname, field_length (show (tarMode type).length ≤ 8 by rw [tarMode_length]; omega),
    field_length (show (octal 7 0).length ≤ 8 by rw [octal_length]; omega),
    field_length (show (octal 11 size).length ≤ 12 by rw [octal_length]; omega),
    field_length (show (octal 11 0).length ≤ 12 by rw [octal_length]; omega)]

theorem tarBack_length (type : UInt8) : (tarBack type).length = 356 := by
  unfold tarBack
  rw [List.length_append, List.length_append, field_length (by decide), zeros, List.length_replicate]
  rfl

theorem byteSum_append (xs ys : List UInt8) : byteSum (xs ++ ys) = byteSum xs + byteSum ys := by
  simp [byteSum]

theorem byteSum_le (bytes : List UInt8) : byteSum bytes ≤ 255 * bytes.length := by
  induction bytes with
  | nil => exact le_rfl
  | cons b bytes ih =>
    have hb := b.toNat_lt
    simp only [byteSum, List.map_cons, List.sum_cons, List.length_cons] at ih ⊢
    omega

/-- The checksum of a header, with blanks in its own place. -/
def tarSum (name : Path) (type : UInt8) (size : ℕ) : ℕ := byteSum (tarFields name type size (List.replicate 8 32))

theorem tarSum_eq (name : Path) (type : UInt8) (size : ℕ) :
    tarSum name type size = byteSum (tarFront name type size) + 8 * 32 + byteSum (tarBack type) := by
  have hblanks : byteSum (field 8 (List.replicate 8 32)) = 8 * 32 := rfl
  unfold tarSum
  rw [tarFields_eq, byteSum_append, byteSum_append, hblanks, Nat.add_assoc]

theorem tarSum_lt {name : Path} (hname : name.length ≤ 100) (type : UInt8) (size : ℕ) : tarSum name type size < 8^6 := by
  have hfront := byteSum_le (tarFront name type size)
  have hback := byteSum_le (tarBack type)
  rw [tarFront_length hname] at hfront
  rw [tarBack_length] at hback
  rw [tarSum_eq]
  omega

/-- The field of the checksum. -/
def sumField (name : Path) (type : UInt8) (size : ℕ) : List UInt8 := octal 6 (tarSum name type size) ++ [0,32]

theorem sumField_length (name : Path) (type : UInt8) (size : ℕ) : (sumField name type size).length = 8 := by
  simp [sumField, octal_length]

theorem tarHeader_eq (name : Path) (type : UInt8) (size : ℕ) :
    tarHeader name type size = tarFront name type size ++ (sumField name type size ++ tarBack type) := by
  have hfield : field 8 (sumField name type size) = sumField name type size := by
    unfold field
    rw [sumField_length]
    exact List.append_nil _
  unfold tarHeader
  rw [tarFields_eq]
  exact congrArg (fun middle => tarFront name type size ++ (middle ++ tarBack type)) hfield

theorem tarHeader_length {name : Path} (hname : name.length ≤ 100) (type : UInt8) (size : ℕ) :
    (tarHeader name type size).length = 512 := by
  rw [tarHeader_eq, List.length_append, List.length_append, tarFront_length hname, sumField_length, tarBack_length]

theorem tarHeader_drop {name : Path} (hname : name.length ≤ 100) (type : UInt8) (size : ℕ) :
    (tarHeader name type size).drop 156 = tarBack type := by
  have hlength : (tarFront name type size ++ sumField name type size).length = 156 := by
    rw [List.length_append, tarFront_length hname, sumField_length]
  rw [tarHeader_eq, ← List.append_assoc, List.drop_left' hlength]

theorem checksum_tarHeader {name : Path} (hname : name.length ≤ 100) (type : UInt8) (size : ℕ) :
    checksum (tarHeader name type size) = tarSum name type size := by
  unfold checksum
  rw [tarHeader_drop hname, tarHeader_eq, List.take_left' (tarFront_length hname type size), tarSum_eq]
  rfl

/-- A header is read back. -/
theorem header_tarHeader {name : Path} {type : UInt8} {size : ℕ} (hname : name.length ≤ 100)
    (htext : ∀ b ∈ name, b ≠ 0) (hascii : name.all (· < 128) = true) (hsize : size < 8^11) :
    header (tarHeader name type size) = some ⟨name,size,type⟩ := by
  have hheader := tarHeader_eq name type size
  have hfront := tarFront_length hname type size
  have hsumfield := sumField_length name type size
  have hmode := field_length (show (tarMode type).length ≤ 8 by rw [tarMode_length]; omega)
  have howner := field_length (show (octal 7 0).length ≤ 8 by rw [octal_length]; omega)
  have hsized := field_length (show (octal 11 size).length ≤ 12 by rw [octal_length]; omega)
  -- the name
  have hnamed : slice (tarHeader name type size) 0 100 = field 100 name := by
    rw [hheader]
    unfold tarFront slice
    rw [List.drop_zero, List.append_assoc, List.take_left' (field_length hname)]
  -- the size
  have hsizes : slice (tarHeader name type size) 124 12 = octal 11 size ++ 0 :: [] := by
    have hsplit : tarHeader name type size =
        (field 100 name ++ field 8 (tarMode type) ++ field 8 (octal 7 0) ++ field 8 (octal 7 0)) ++
          (field 12 (octal 11 size) ++ (field 12 (octal 11 0) ++ (sumField name type size ++ tarBack type))) := by
      rw [hheader]
      simp only [tarFront, List.append_assoc]
    rw [hsplit, slice_append (by simp only [List.length_append, field_length hname, hmode, howner]) hsized]
    unfold field
    rw [octal_length]
    rfl
  -- the checksum
  have hsum : slice (tarHeader name type size) 148 8 = octal 6 (tarSum name type size) ++ 0 :: [32] := by
    rw [hheader, slice_append hfront hsumfield]
    rfl
  -- the type
  have htype : (tarHeader name type size)[156]? = some type := by
    rw [← List.head?_drop, tarHeader_drop hname]
    rfl
  have hback : ∀ start length, slice (tarHeader name type size) (156 + start) length = slice (tarBack type) start length := by
    intro start length
    unfold slice
    rw [← List.drop_drop, tarHeader_drop hname]
  have hmagic : slice (tarHeader name type size) 257 8 = magic := by
    have hsplit : tarBack type = ([type] ++ zeros 100) ++ (tarMagic ++ zeros 247) :=
      (List.append_assoc [type] (zeros 100) _).symm
    have hmiddle : slice (([type] ++ zeros 100) ++ (tarMagic ++ zeros 247)) 101 8 = tarMagic := slice_append rfl rfl
    rw [hback 101, hsplit, hmiddle]
    rfl
  have hempty : text (slice (tarHeader name type size) 345 155) = [] := by
    have hzeros : zeros 247 = zeros 80 ++ (zeros 155 ++ zeros 12) := by simp [zeros]
    have hsplit : tarBack type = ([type] ++ (zeros 100 ++ (tarMagic ++ zeros 80))) ++ (zeros 155 ++ zeros 12) := by
      have hfield : field 255 tarMagic = tarMagic ++ zeros 247 := rfl
      unfold tarBack
      rw [hfield, hzeros]
      simp only [List.append_assoc]
    have hmiddle : slice (([type] ++ (zeros 100 ++ (tarMagic ++ zeros 80))) ++ (zeros 155 ++ zeros 12)) 189 155 = zeros 155 :=
      slice_append rfl (List.length_replicate ..)
    rw [hback 189, hsplit, hmiddle]
    rfl
  unfold header
  rw [hsizes, hsum, htype, octalField_octal (by decide) hsize 0 [] (.inl rfl),
    octalField_octal (by decide) (tarSum_lt hname type size) 0 [32] (.inl rfl)]
  simp only [hempty, if_true, hnamed, text_field htext, tarHeader_length hname, checksum_tarHeader hname, hmagic, hascii,
    and_self]

/-! ## Records -/

/-- The text of a record. -/
def recordText (length : ℕ) (key value : List UInt8) : List UInt8 :=
  decimal length ++ 32 :: (key ++ 61 :: (value ++ [10]))

theorem recordText_length (length : ℕ) (key value : List UInt8) :
    (recordText length key value).length = key.length + value.length + 3 + (decimal length).length := by
  simp only [recordText, List.length_append, List.length_cons, List.length_nil]
  omega

/-- A record counts its own length. -/
theorem paxRecord_spec {capacity : ℕ} {key value record : List UInt8} (h : paxRecord capacity key value = some record) :
    ∃ length, record = recordText length key value ∧ record.length = length ∧ length < capacity := by
  unfold paxRecord at h
  dsimp only at h
  have hpositive : 1 ≤ (decimal (key.length + value.length + 3 + 1)).length :=
    List.length_pos_iff.mpr (decimal_ne_nil _)
  have hfixed := paxLength_fixed (key.length + value.length + 3) 20 (by omega) rfl hpositive
  generalize paxLength (key.length + value.length + 3) 20 (key.length + value.length + 3 + 1) = length at h hfixed
  have htext : decimal length ++ [32] ++ key ++ [61] ++ value ++ [10] = recordText length key value := by
    simp [recordText]
  rw [htext] at h
  by_cases hfits : (recordText length key value).length < capacity
  · rw [if_pos hfits] at h
    cases h
    have hlength : (recordText length key value).length = length := by
      rw [recordText_length]
      exact hfixed.symm
    exact ⟨length,rfl,hlength,hlength ▸ hfits⟩
  · rw [if_neg hfits] at h
    cases h

/-- A record is read back. -/
theorem record_recordText {length : ℕ} {key value : List UInt8} (rest : List UInt8)
    (hlength : (recordText length key value).length = length) (hbound : length < 10^20) (hkey : ∀ b ∈ key, b ≠ 61) :
    record (recordText length key value ++ rest) = some ((key,value),rest) := by
  have hdata : recordText length key value ++ rest =
      decimal length ++ 32 :: (key ++ 61 :: (value ++ [10]) ++ rest) := by
    simp [recordText]
  have hdigits : (recordText length key value ++ rest).takeWhile (isDigit 10) = decimal length := by
    rw [hdata]
    exact takeWhile_digits (decimalDigits_digits 20 length) (by decide)
  have hvalue : digitsValue 10 (decimal length) = length := decimalDigits_value hbound
  have hbody : ((recordText length key value ++ rest).take length).drop ((decimal length).length + 1) =
      key ++ 61 :: (value ++ [10]) := by
    rw [List.take_left' hlength]
    have hsplit : recordText length key value = (decimal length ++ [32]) ++ (key ++ 61 :: (value ++ [10])) := by
      simp [recordText]
    rw [hsplit, List.drop_left' (by simp)]
  have hblank : (recordText length key value ++ rest)[(decimal length).length]? = some 32 := by
    rw [hdata, List.getElem?_append_right le_rfl, Nat.sub_self]
    rfl
  have hequals : (key ++ 61 :: (value ++ [10])).takeWhile (· != 61) = key := by
    rw [List.takeWhile_append_of_pos (fun b hb => by simpa using hkey b hb), List.takeWhile_cons_of_neg (by simp),
      List.append_nil]
  have hfront : (key ++ 61 :: (value ++ [10])).dropLast = key ++ 61 :: value := by
    have hsplit : key ++ 61 :: (value ++ [10]) = (key ++ 61 :: value) ++ [10] := by simp
    rw [hsplit, List.dropLast_concat]
  have hlast : (key ++ 61 :: (value ++ [10])).getLast? = some 10 := by
    have hsplit : key ++ 61 :: (value ++ [10]) = (key ++ 61 :: value) ++ [10] := by simp
    rw [hsplit, List.getLast?_concat]
  have hfits : length ≤ (recordText length key value ++ rest).length := by
    rw [List.length_append]
    omega
  unfold record
  simp only [hdigits, hvalue, hbody, hblank, hequals, hlast, hfront, hfits, decimal_ne_nil, ne_eq, not_false_eq_true,
    and_self, if_true, List.drop_left, List.drop_left' hlength]

theorem records_step {left : ℕ} {ext : Extended} {data key value rest : List UInt8} (hdata : data ≠ [])
    (h : record data = some ((key,value),rest)) :
    records (left + 1) ext data =
      if key = pathKey then records left { ext with path := some value } rest
      else if key = sizeKey then
        match number value with
        | none => none
        | some n => records left { ext with size := some n } rest
      else records left ext rest := by
  cases data with
  | nil => exact absurd rfl hdata
  | cons b data =>
    simp only [records, h] <;> rfl

theorem records_nil (left : ℕ) (ext : Extended) : records left ext [] = some ext := by
  cases left with
  | zero => rfl
  | succ left => rfl

/-- The records of an entry are read back. -/
theorem records_paxRecords {name : Path} {size : ℕ} {data : List UInt8} (h : paxRecords name size = some data)
    (hsize : size < 10^20) :
    records data.length .empty data = some ⟨some name,if octalMax < size then some size else none⟩ := by
  unfold paxRecords at h
  cases hpath : paxRecord 1024 paxPath name with
  | none =>
    rw [hpath] at h
    cases h
  | some path =>
    rw [hpath] at h
    dsimp only at h
    obtain ⟨length,rfl,hlength,hshort⟩ := paxRecord_spec hpath
    have hne : recordText length paxPath name ≠ [] := by simp [recordText]
    have hpositive : 0 < (recordText length paxPath name).length := List.length_pos_iff.mpr hne
    have hread : ∀ rest, record (recordText length paxPath name ++ rest) = some ((paxPath,name),rest) :=
      fun rest => record_recordText rest hlength (by omega) (by simp [paxPath])
    have hfirst : ∀ left rest, records (left + 1) .empty (recordText length paxPath name ++ rest) =
        records left ⟨some name,none⟩ rest := by
      intro left rest
      rw [records_step (by simp [hne]) (hread rest), if_pos (by rfl)]
      rfl
    by_cases hlarge : octalMax < size
    · rw [if_pos hlarge, Option.map_eq_some_iff] at h
      obtain ⟨second,hsecond,rfl⟩ := h
      obtain ⟨length',rfl,hlength',hshort'⟩ := paxRecord_spec hsecond
      have hne' : recordText length' paxSize (decimal size) ≠ [] := by simp [recordText]
      have hpositive' : 0 < (recordText length' paxSize (decimal size)).length := List.length_pos_iff.mpr hne'
      have hread' : record (recordText length' paxSize (decimal size)) = some ((paxSize,decimal size),[]) := by
        have hrecord := record_recordText [] hlength' (by omega) (by simp [paxSize] : ∀ b ∈ paxSize, b ≠ 61)
        rwa [List.append_nil] at hrecord
      have hnumber : number (decimal size) = some size := by
        unfold number
        rw [if_pos ⟨decimal_ne_nil size,List.all_eq_true.mpr (decimalDigits_digits 20 size)⟩]
        exact congrArg some (decimalDigits_value hsize)
      obtain ⟨left,hleft⟩ : ∃ left,
          (recordText length paxPath name ++ recordText length' paxSize (decimal size)).length = left + 1 + 1 :=
        ⟨(recordText length paxPath name ++ recordText length' paxSize (decimal size)).length - 2,by
          rw [List.length_append]
          omega⟩
      rw [hleft, hfirst, records_step hne' hread', if_neg (by decide), if_pos (by rfl), hnumber, if_pos hlarge]
      exact records_nil _ _
    · rw [if_neg hlarge] at h
      cases h
      obtain ⟨left,hleft⟩ : ∃ left, (recordText length paxPath name).length = left + 1 := ⟨_,(Nat.succ_pred_eq_of_pos hpositive).symm⟩
      have hsingle := hfirst left []
      rw [List.append_nil] at hsingle
      rw [hleft, hsingle, if_neg hlarge]
      exact records_nil _ _

/-! ## Entries -/

/-- The zeros behind data fill it up to blocks. -/
theorem padded_eq (size : ℕ) : padded size - size = (512 - size % 512) % 512 := by
  unfold padded
  omega

theorem le_padded (size : ℕ) : size ≤ padded size := by
  unfold padded
  omega

theorem takeData_filled (data rest : List UInt8) :
    takeData data.length (data ++ (zeros (padded data.length - data.length) ++ rest)) = some (data,rest) := by
  have hle := le_padded data.length
  have hlength : (data ++ zeros (padded data.length - data.length)).length = padded data.length := by
    simp only [List.length_append, zeros, List.length_replicate]
    omega
  have hfits : padded data.length ≤ (data ++ zeros (padded data.length - data.length) ++ rest).length := by
    rw [List.length_append]
    omega
  have hzeros : (zeros (padded data.length - data.length)).all (· == 0) = true := by simp [zeros]
  unfold takeData
  rw [← List.append_assoc, List.take_left' hlength, List.drop_left' hlength, List.drop_left, if_pos ⟨hfits,hzeros⟩,
    List.append_assoc, List.take_left]

theorem blocks_eq (data : List UInt8) : blocks data = data ++ zeros (padded data.length - data.length) := rfl

theorem tarHeader_not_zero (name : Path) {type : UInt8} (size : ℕ) (htype : type ≠ 0) :
    (tarHeader name type size).all (· == 0) = false := by
  rw [List.all_eq_false]
  refine ⟨type,?_,by simpa using htype⟩
  rw [tarHeader_eq]
  simp [tarBack]

/-- What is read of a header. -/
structure Shown (name : Path) (size : ℕ) : Prop where
  length : name.length ≤ 100
  text : ∀ b ∈ name, b ≠ 0
  ascii : name.all (· < 128) = true
  size : size < 8^11

/-- The next header of an archive. -/
theorem entries_header {name : Path} {type : UInt8} {size : ℕ} (hshown : Shown name size) (htype : type ≠ 0)
    (left : ℕ) (ext : Extended) (rest : List UInt8) :
    entries (left + 1) ext (tarHeader name type size ++ rest) =
      if type = 120 then
        match takeData size rest with
        | none => none
        | some (data,rest) =>
          match records data.length .empty data with
          | none => none
          | some ext => entries left ext rest
      else if type = 48 then
        let size := ext.size.getD size
        match takeData size rest with
        | none => none
        | some (content,rest) => (entries left .empty rest).map (⟨ext.path.getD name,.file,size,content⟩ :: ·)
      else if type = 53 then
        (entries left .empty rest).map (⟨dirName (ext.path.getD name),.directory,0,[]⟩ :: ·)
      else none := by
  have hlength : (tarHeader name type size).length = blockSize := tarHeader_length hshown.length type size
  have hzero := tarHeader_not_zero name size htype
  have hheader : header (tarHeader name type size) = some ⟨name,size,type⟩ :=
    header_tarHeader hshown.length hshown.text hshown.ascii hshown.size
  rw [entries]
  simp only [List.take_left' hlength, List.drop_left' hlength, hzero, Bool.false_eq_true, if_false, hheader] <;> rfl

theorem paxRecord_length {capacity : ℕ} {key value record : List UInt8} (h : paxRecord capacity key value = some record) :
    record.length < capacity := by
  obtain ⟨length,_,hlength,hfits⟩ := paxRecord_spec h
  rw [hlength]
  exact hfits

theorem paxRecords_length {name : Path} {size : ℕ} {data : List UInt8} (h : paxRecords name size = some data) :
    data.length < 1024 := by
  unfold paxRecords at h
  cases hpath : paxRecord 1024 paxPath name with
  | none =>
    rw [hpath] at h
    cases h
  | some path =>
    rw [hpath] at h
    dsimp only at h
    have hfirst := paxRecord_length hpath
    by_cases hlarge : octalMax < size
    · rw [if_pos hlarge, Option.map_eq_some_iff] at h
      obtain ⟨second,hsecond,rfl⟩ := h
      have hrest := paxRecord_length hsecond
      rw [List.length_append]
      omega
    · rw [if_neg hlarge] at h
      cases h
      exact hfirst

/-- The headers of an entry come to one header, with what the records before it say. -/
theorem entries_archiveHeaders {name : Path} {type : UInt8} {size left : ℕ} {headers rest : List UInt8}
    (h : archiveHeaders name type size = some headers) (htext : ∀ b ∈ name, b ≠ 0) (hsize : size < 10^20)
    (hleft : (headers ++ rest).length < left) :
    ∃ left' ext shown small, rest.length < left' ∧
      entries left .empty (headers ++ rest) = entries (left' + 1) ext (tarHeader shown type small ++ rest) ∧
      Shown shown small ∧ ext.path.getD shown = name ∧ ext.size.getD small = size := by
  unfold archiveHeaders at h
  have hmax : octalMax = 8^11 - 1 := rfl
  by_cases hpax : NeedsPax name size
  · rw [if_pos hpax, Option.map_eq_some_iff] at h
    obtain ⟨data,hdata,rfl⟩ := h
    have hrecords := records_paxRecords hdata hsize
    have hshort := paxRecords_length hdata
    have hpaxShown : Shown paxHeaderName data.length :=
      ⟨by decide,by simp [paxHeaderName],by decide,by omega⟩
    have hentryShown : Shown paxEntryName (if octalMax < size then 0 else size) :=
      ⟨by decide,by simp [paxEntryName],by decide,by split <;> omega⟩
    have hpaxLength := tarHeader_length hpaxShown.length typePax data.length
    obtain ⟨left',rfl⟩ : ∃ left', left = left' + 1 + 1 := by
      simp only [List.length_append] at hleft
      exact ⟨left - 2,by omega⟩
    refine ⟨left',⟨some name,if octalMax < size then some size else none⟩,paxEntryName,
      if octalMax < size then 0 else size,?_,?_,hentryShown,rfl,?_⟩
    · simp only [List.length_append] at hleft
      omega
    · have hsplit : tarHeader paxHeaderName typePax data.length ++ blocks data ++
          tarHeader paxEntryName type (if octalMax < size then 0 else size) ++ rest =
          tarHeader paxHeaderName typePax data.length ++ (data ++ (zeros (padded data.length - data.length) ++
            (tarHeader paxEntryName type (if octalMax < size then 0 else size) ++ rest))) := by
        simp only [blocks_eq, List.append_assoc]
      rw [hsplit, entries_header hpaxShown (by decide), if_pos (by rfl), takeData_filled]
      simp only [hrecords]
    · by_cases hlarge : octalMax < size
      · simp only [if_pos hlarge, Option.getD_some]
      · simp only [if_neg hlarge, Option.getD_none]
  · rw [if_neg hpax] at h
    cases h
    simp only [NeedsPax, not_or] at hpax
    have hlength := tarHeader_length (Nat.le_of_not_le hpax.1) type size
    obtain ⟨left',rfl⟩ : ∃ left', left = left' + 1 := ⟨left - 1,by omega⟩
    have hascii : name.all (· < 128) = true := by
      rw [List.all_eq_true]
      intro b hb
      have hnot : ¬128 ≤ b := fun hb' => hpax.2.2 (List.any_eq_true.mpr ⟨b,hb,by simpa using hb'⟩)
      simpa using hnot
    have hshown : Shown name size := ⟨Nat.le_of_not_le hpax.1,htext,hascii,by omega⟩
    refine ⟨left',.empty,name,size,?_,rfl,hshown,rfl,rfl⟩
    rw [List.length_append] at hleft
    omega

/-- These bytes are read as these entries. -/
def ReadAs (bytes : List UInt8) (archived : List Entry) : Prop :=
  ∀ left, bytes.length < left → entries left .empty bytes = some archived

theorem readAs_trailer : ReadAs (zeros 1024) [] := by
  intro left hleft
  obtain ⟨left',rfl⟩ : ∃ left', left = left' + 1 := ⟨left - 1,by omega⟩
  have hzero : ((zeros 1024).take blockSize).all (· == 0) = true := by
    rw [List.all_eq_true]
    intro b hb
    rw [List.eq_of_mem_replicate (List.mem_of_mem_take hb)]
    rfl
  have htwo : 2 * blockSize = 1024 := rfl
  rw [entries, if_pos hzero, htwo, if_pos ⟨rfl,rfl⟩]

/-- A file with its headers. -/
theorem ReadAs.file {name : Path} {headers content rest : List UInt8} {archived : List Entry} (h : ReadAs rest archived)
    (hheaders : archiveHeaders name typeFile content.length = some headers) (htext : ∀ b ∈ name, b ≠ 0)
    (hsize : content.length < 10^20) :
    ReadAs (headers ++ (content ++ zeros ((512 - content.length % 512) % 512)) ++ rest)
      (⟨name,.file,content.length,content⟩ :: archived) := by
  intro left hleft
  rw [List.append_assoc] at hleft ⊢
  obtain ⟨left',ext,shown,small,hroom,hentries,hshown,hname,hsmall⟩ := entries_archiveHeaders hheaders htext hsize hleft
  have hrest : rest.length < left' := by
    rw [List.length_append] at hroom
    omega
  rw [hentries, entries_header hshown (by decide), if_neg (by decide), if_pos (by rfl)]
  simp only [hsmall, hname]
  rw [← padded_eq, List.append_assoc, takeData_filled]
  simp only [h left' hrest, Option.map_some]

/-- A directory with its headers. -/
theorem ReadAs.directory {name : Path} {headers rest : List UInt8} {archived : List Entry} (h : ReadAs rest archived)
    (hheaders : archiveHeaders (name ++ [slash]) typeDir 0 = some headers) (htext : ∀ b ∈ name, b ≠ 0) :
    ReadAs (headers ++ rest) (⟨name,.directory,0,[]⟩ :: archived) := by
  intro left hleft
  have hslash : ∀ b ∈ name ++ [slash], b ≠ 0 := by
    intro b hb
    rw [List.mem_append, List.mem_singleton] at hb
    rcases hb with hb | rfl
    · exact htext b hb
    · decide
  obtain ⟨left',ext,shown,small,hroom,hentries,hshown,hname,hsmall⟩ :=
    entries_archiveHeaders hheaders hslash (by decide) hleft
  have hstripped : dirName (name ++ [slash]) = name := by
    unfold dirName
    rw [List.getLast?_concat, if_pos (by rfl), List.dropLast_concat]
  rw [hentries, entries_header hshown (by decide), if_neg (by decide), if_neg (by decide), if_pos (by rfl), hname,
    hstripped, h left' hroom, Option.map_some]

end Bvstk.Fs
