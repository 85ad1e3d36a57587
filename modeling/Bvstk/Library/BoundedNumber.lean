import Mathlib.Data.Nat.Digits.Defs

/-! # Bounded numbers

A number is read digit by digit into a word of 32 bits. The next digit is refused if the number would
exceed its maximum, and the comparison that finds out does not leave the word itself.
-/
namespace BoundedNumber

variable {base max n d m : UInt32}

/-! ## One digit -/

/-- `n` with one more digit behind it. -/
def push (base max n d : UInt32) : Option UInt32 :=
  if max < d ∨ (max - d) / base < n then none else some (n * base + d)

theorem push_eq_some (hbase : 0 < base.toNat) : push base max n d = some m ↔
    m.toNat = n.toNat * base.toNat + d.toNat ∧ n.toNat * base.toNat + d.toNat ≤ max.toNat := by
  have hmax := max.toNat_lt
  rw [push]
  by_cases hd : max < d
  · have hlt : max.toNat < d.toNat := UInt32.lt_iff_toNat_lt.1 hd
    rw [if_pos (Or.inl hd)]
    constructor
    · exact fun hnone => nomatch hnone
    · exact fun h => absurd h.2 (by omega)
  have hle : d.toNat ≤ max.toNat := Nat.le_of_not_lt fun hlt => hd (UInt32.lt_iff_toNat_lt.2 hlt)
  have hroom : (max - d) / base < n ↔ ¬n.toNat * base.toNat + d.toNat ≤ max.toNat := by
    rw [UInt32.lt_iff_toNat_lt,UInt32.toNat_div,UInt32.toNat_sub_of_le _ _ (UInt32.le_iff_toNat_le.2 hle),
      Nat.div_lt_iff_lt_mul hbase]
    omega
  simp only [hd,false_or,hroom]
  split
  · rename_i hfull
    constructor
    · exact fun hnone => nomatch hnone
    · exact fun h => absurd h.2 hfull
  · rename_i hfits
    have hfits := Decidable.not_not.1 hfits
    have hsum : (n * base + d).toNat = n.toNat * base.toNat + d.toNat := by
      rw [UInt32.toNat_add,UInt32.toNat_mul,Nat.mod_add_mod]
      exact Nat.mod_eq_of_lt (by omega)
    rw [Option.some.injEq,← UInt32.toNat_inj,hsum]
    exact ⟨fun heq => ⟨heq.symm,hfits⟩,fun h => h.1.symm⟩

/-- No operation on the way to the next number wraps, whatever the number is that is already there. -/
structure Unwrapped (base max n d : UInt32) : Prop where
  room : ¬max < d → (max - d).toNat + d.toNat = max.toNat
  product : push base max n d ≠ none → (n * base).toNat = n.toNat * base.toNat
  sum : push base max n d ≠ none → (n * base + d).toNat = (n * base).toNat + d.toNat

theorem push_unwrapped (hbase : 0 < base.toNat) (max n d : UInt32) : Unwrapped base max n d := by
  have hbound : push base max n d ≠ none → n.toNat * base.toNat + d.toNat < 2 ^ 32 := by
    intro hsome
    obtain ⟨m,hm⟩ := Option.ne_none_iff_exists'.1 hsome
    exact ((push_eq_some hbase).1 hm).2.trans_lt max.toNat_lt
  have hproduct : push base max n d ≠ none → (n * base).toNat = n.toNat * base.toNat := by
    intro hsome
    have hlt := hbound hsome
    rw [UInt32.toNat_mul]
    exact Nat.mod_eq_of_lt (by omega)
  refine ⟨fun hd => ?_,hproduct,fun hsome => ?_⟩
  · have hle : d ≤ max := UInt32.not_lt.1 hd
    rw [UInt32.toNat_sub_of_le _ _ hle]
    exact Nat.sub_add_cancel (UInt32.le_iff_toNat_le.1 hle)
  · have hlt := hbound hsome
    rw [UInt32.toNat_add,hproduct hsome]
    exact Nat.mod_eq_of_lt hlt

/-! ## A text of digits -/

/-- Digits of a base with their values, most significant first. -/
def Numeral (base : ℕ) (Digit : UInt8 → ℕ → Prop) (text : List UInt8) (n : ℕ) : Prop :=
  ∃ values, List.Forall₂ Digit text values ∧ n = Nat.ofDigits base values.reverse

theorem Numeral.digit {base n : ℕ} {Digit : UInt8 → ℕ → Prop} {text : List UInt8} (h : Numeral base Digit text n) :
    ∀ c ∈ text, ∃ v, Digit c v := by
  obtain ⟨values,hvalues,-⟩ := h
  induction hvalues with
  | nil => exact fun c hc => nomatch hc
  | cons hdigit _ ih => exact List.forall_mem_cons.2 ⟨⟨_,hdigit⟩,ih⟩

/-- The loop over a text in which every byte has to be a digit. -/
def digitsLoop (digitOf : UInt8 → Option UInt32) (base max : UInt32) : UInt32 → List UInt8 → Option UInt32
  | n, [] => some n
  | n, c :: text =>
    match digitOf c with
    | none => none
    | some d =>
      match push base max n d with
      | none => none
      | some n => digitsLoop digitOf base max n text

/-- `digitOf` finds the values of `Digit`. -/
def Finds (digitOf : UInt8 → Option UInt32) (Digit : UInt8 → ℕ → Prop) : Prop :=
  ∀ c v, Digit c v ↔ ∃ d, digitOf c = some d ∧ d.toNat = v

/-- The number of some digits behind the number `n`. -/
def valueFrom (base : ℕ) (n : ℕ) (values : List ℕ) : ℕ := values.foldl (fun n d => n * base + d) n

theorem le_valueFrom {base : ℕ} (hbase : 0 < base) (n : ℕ) (values : List ℕ) : n ≤ valueFrom base n values := by
  induction values generalizing n with
  | nil => exact Nat.le_refl n
  | cons d values ih =>
    calc n ≤ n * base := Nat.le_mul_of_pos_right n hbase
      _ ≤ n * base + d := Nat.le_add_right _ _
      _ ≤ valueFrom base (n * base + d) values := ih _

theorem valueFrom_zero (base : ℕ) (values : List ℕ) : valueFrom base 0 values = Nat.ofDigits base values.reverse := by
  rw [Nat.ofDigits_eq_foldr,List.foldr_reverse,valueFrom]
  congr 1
  funext n d
  rw [Nat.cast_id,Nat.mul_comm,Nat.add_comm]

section Loop
variable {digitOf : UInt8 → Option UInt32} {Digit : UInt8 → ℕ → Prop}

theorem digitsLoop_from (hbase : 0 < base.toNat) (hfinds : Finds digitOf Digit) (text : List UInt8)
    (hn : n.toNat ≤ max.toNat) : digitsLoop digitOf base max n text = some m ↔
      m.toNat ≤ max.toNat ∧ ∃ values, List.Forall₂ Digit text values ∧ m.toNat = valueFrom base.toNat n.toNat values := by
  induction text generalizing n with
  | nil =>
    rw [digitsLoop,Option.some.injEq]
    constructor
    · rintro rfl
      exact ⟨hn,[],List.Forall₂.nil,Eq.refl _⟩
    · rintro ⟨-,values,hvalues,hm⟩
      cases hvalues
      exact (UInt32.toNat_inj.1 hm).symm
  | cons c text ih =>
    rw [digitsLoop]
    constructor
    · intro h
      split at h
      · cases h
      rename_i d hd
      split at h
      · cases h
      rename_i next hnext
      obtain ⟨hvalue,hfits⟩ := (push_eq_some hbase).1 hnext
      obtain ⟨hm,values,hvalues,heq⟩ := (ih (hvalue.trans_le hfits)).1 h
      refine ⟨hm,d.toNat :: values,List.Forall₂.cons ((hfinds c _).2 ⟨d,hd,Eq.refl _⟩) hvalues,?_⟩
      rw [heq,hvalue]
      exact Eq.refl _
    · rintro ⟨hm,values,hvalues,heq⟩
      obtain _ | ⟨hdigit,hvalues⟩ := hvalues
      rename_i v values
      obtain ⟨d,hd,rfl⟩ := (hfinds c v).1 hdigit
      have hstep : n.toNat * base.toNat + d.toNat ≤ max.toNat :=
        calc n.toNat * base.toNat + d.toNat ≤ valueFrom base.toNat (n.toNat * base.toNat + d.toNat) values :=
              le_valueFrom hbase _ _
          _ = m.toNat := heq.symm
          _ ≤ max.toNat := hm
      have hsome : push base max n d = some (UInt32.ofNat (n.toNat * base.toNat + d.toNat)) := by
        rw [push_eq_some hbase]
        exact ⟨UInt32.toNat_ofNat_of_lt' (hstep.trans_lt max.toNat_lt),hstep⟩
      have hword := ((push_eq_some hbase).1 hsome).1
      rw [hd]
      dsimp only
      rw [hsome]
      dsimp only
      rw [ih (hword.trans_le hstep),hword]
      exact ⟨hm,values,hvalues,heq⟩

/-- The loop accepts the numerals up to the maximum and finds their number. -/
theorem digitsLoop_iff (hbase : 0 < base.toNat) (hfinds : Finds digitOf Digit) (text : List UInt8) :
    digitsLoop digitOf base max 0 text = some m ↔ m.toNat ≤ max.toNat ∧ Numeral base.toNat Digit text m.toNat := by
  rw [digitsLoop_from hbase hfinds text (Nat.zero_le _)]
  change _ ∧ (∃ values, _ ∧ m.toNat = valueFrom base.toNat 0 values) ↔ _
  simp only [valueFrom_zero,Numeral]

end Loop

/-! ## Digits at the start of a text -/

/-- The loop that ends in front of the first byte that is no digit. -/
def runLoop (digitOf : UInt8 → Option UInt32) (base max : UInt32) : UInt32 → List UInt8 → Option (UInt32 × List UInt8)
  | n, [] => some (n,[])
  | n, c :: text =>
    match digitOf c with
    | none => some (n,c :: text)
    | some d =>
      match push base max n d with
      | none => none
      | some n => runLoop digitOf base max n text

variable {digitOf : UInt8 → Option UInt32}

/-- It is the loop over the digits at the start. -/
theorem runLoop_append (ds rest : List UInt8) (hds : ∀ c ∈ ds, (digitOf c).isSome = true)
    (hrest : ∀ c ∈ rest.head?, digitOf c = none) :
    runLoop digitOf base max n (ds ++ rest) = (digitsLoop digitOf base max n ds).map (·,rest) := by
  induction ds generalizing n with
  | nil =>
    cases rest with
    | nil => exact Eq.refl _
    | cons c rest => simp only [List.nil_append,runLoop,digitsLoop,hrest c (Eq.refl _),Option.map_some]
  | cons c ds ih =>
    obtain ⟨hc,hds⟩ := List.forall_mem_cons.1 hds
    obtain ⟨d,hd⟩ := Option.isSome_iff_exists.1 hc
    rw [List.cons_append,runLoop,digitsLoop,hd]
    dsimp only
    cases push base max n d with
    | none => exact Eq.refl _
    | some next => exact ih hds

end BoundedNumber
