import Mathlib.Data.List.Infix
import Mathlib.Data.Nat.Notation

/-! # Transfers in numbered blocks

A source that can be read only once is handed out in numbered blocks. The block handed out
last may be asked for again, the next one is read from the source, and an error of the
source is final.
-/
namespace BlockTransfer

/-- The blocks handed out so far, and the error the source has ended with. -/
@[ext] structure Transfer (χ ε : Type*) where
  blocks : List χ
  failed : Option ε

inductive Answer (χ ε : Type*) where
  | block (c : χ) | failed (e : ε) | refused

variable {χ ε : Type*} (ends : χ → Bool)

def Transfer.start (χ ε : Type*) : Transfer χ ε := ⟨[],none⟩

/-- The number of the next block, unless the last one was the end. -/
def Transfer.next (t : Transfer χ ε) : Option ℕ :=
  if t.blocks.getLast?.any ends = true then none else some t.blocks.length

/-- Whether asking for block `k` reads the source. -/
def Transfer.Pulls (t : Transfer χ ε) (k : ℕ) : Prop := t.failed = none ∧ t.next ends = some k

/-- Block `k` is asked for; `source` is what the source gives if it is read. -/
def Transfer.read (t : Transfer χ ε) (k : ℕ) (source : Except ε χ) : Answer χ ε × Transfer χ ε :=
  match t.failed with
  | some e => (.failed e,t)
  | none =>
    if t.next ends = some k then
      match source with
      | .ok c => (.block c,{ t with blocks := t.blocks ++ [c] })
      | .error e => (.failed e,{ t with failed := some e })
    else if k + 1 = t.blocks.length then
      match t.blocks.getLast? with
      | some c => (.block c,t)
      | none => (.refused,t)
    else (.refused,t)

variable {ends} {t : Transfer χ ε} {k : ℕ} {source : Except ε χ}

/-- An error is final. -/
theorem Transfer.read_failed {e : ε} (hfailed : t.failed = some e) : t.read ends k source = (.failed e,t) := by
  unfold Transfer.read
  rw [hfailed]

theorem Transfer.read_next (hpulls : t.Pulls ends k) : t.read ends k source =
    match source with
    | .ok c => (.block c,{ t with blocks := t.blocks ++ [c] })
    | .error e => (.failed e,{ t with failed := some e }) := by
  obtain ⟨hfailed,hnext⟩ := hpulls
  unfold Transfer.read
  rw [hfailed]
  dsimp only
  rw [if_pos hnext]

/-- The last block is the same again. -/
theorem Transfer.read_again (hfailed : t.failed = none) {c : χ} (hlast : t.blocks.getLast? = some c)
    (hk : k + 1 = t.blocks.length) : t.read ends k source = (.block c,t) := by
  have hnext : ¬t.next ends = some k := by
    rw [Transfer.next]
    split
    · exact fun hnone => nomatch hnone
    · rw [Option.some.injEq]
      omega
  unfold Transfer.read
  rw [hfailed]
  dsimp only
  rw [if_neg hnext, if_pos hk, hlast]

theorem Transfer.read_refused (hfailed : t.failed = none) (hnext : t.next ends ≠ some k)
    (hk : k + 1 ≠ t.blocks.length) : t.read ends k source = (.refused,t) := by
  unfold Transfer.read
  rw [hfailed]
  dsimp only
  rw [if_neg hnext, if_neg hk]

/-- Without reading the source nothing changes. -/
theorem Transfer.read_idle (hpulls : ¬t.Pulls ends k) : (t.read ends k source).2 = t := by
  unfold Transfer.read
  cases hfailed : t.failed with
  | some e => rfl
  | none =>
    dsimp only
    rw [if_neg fun hnext => hpulls ⟨hfailed,hnext⟩]
    split
    · split
      · rfl
      · rfl
    · rfl

/-- Blocks are only added. -/
theorem Transfer.read_blocks : t.blocks <+: (t.read ends k source).2.blocks := by
  by_cases hpulls : t.Pulls ends k
  · rw [Transfer.read_next hpulls]
    cases source with
    | ok c => exact List.prefix_append _ _
    | error e => exact List.prefix_rfl
  · rw [Transfer.read_idle hpulls]

theorem Transfer.read_keeps_failed {e : ε} (hfailed : t.failed = some e) : (t.read ends k source).2.failed = some e := by
  rw [Transfer.read_failed hfailed, hfailed]

/-- The answer to a request for block `k` is block `k`. -/
theorem Transfer.read_block {c : χ} (hanswer : (t.read ends k source).1 = .block c) :
    (t.read ends k source).2.blocks[k]? = some c := by
  unfold Transfer.read at hanswer ⊢
  cases hfailed : t.failed with
  | some e =>
    rw [hfailed] at hanswer
    cases hanswer
  | none =>
    rw [hfailed] at hanswer
    dsimp only at hanswer ⊢
    by_cases hnext : t.next ends = some k
    · have hk : k = t.blocks.length := by
        rw [Transfer.next] at hnext
        split at hnext
        · cases hnext
        · exact (Option.some.inj hnext).symm
      rw [if_pos hnext] at hanswer ⊢
      cases source with
      | error e => cases hanswer
      | ok c' =>
        cases hanswer
        rw [hk, List.getElem?_concat_length]
    · rw [if_neg hnext] at hanswer ⊢
      by_cases hlast : k + 1 = t.blocks.length
      · rw [if_pos hlast] at hanswer ⊢
        cases hc : t.blocks.getLast? with
        | none =>
          rw [hc] at hanswer
          cases hanswer
        | some c' =>
          rw [hc] at hanswer
          cases hanswer
          rw [List.getLast?_eq_getElem?, ← hlast, Nat.add_sub_cancel] at hc
          exact hc
      · rw [if_neg hlast] at hanswer
        cases hanswer

end BlockTransfer
