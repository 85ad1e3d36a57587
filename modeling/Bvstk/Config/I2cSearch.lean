import Bvstk.Config.Printing

/-! # Where the older reader finds a key

`find_key` takes the first quoted key with a colon behind it. It passes over what is no such
key: text without quotes, other keys, and string values, whatever these contain.
-/
namespace Bvstk.Config.I2cJson
open CNumber (isSpace)

/-- A key between quotes, as `find_key` looks for it. -/
def keyPattern (key : Text) : Text := quote :: key ++ [quote]

/-- A key that has no character of the syntax of a document in it. -/
def KeyWord (key : Text) : Prop := key ≠ [] ∧ ∀ b ∈ key, b ≠ quote ∧ b ≠ backslash ∧ b ≠ comma ∧ b ≠ colon

/-- The search for `key` gets over `a`, with `n` turns of its loop at most. -/
def Passes (key : Text) (n : ℕ) (a : Text) : Prop :=
  ∀ turns rest v, findKeyFrom (keyPattern key) turns rest = some v →
    findKeyFrom (keyPattern key) (turns + n) (a ++ rest) = some v

section
variable {key : Text}

theorem afterPattern_match (pattern t : Text) (hne : pattern ≠ []) : afterPattern pattern (pattern ++ t) = some t := by
  obtain ⟨c,p,rfl⟩ := List.exists_cons_of_ne_nil hne
  have hprefix : (c :: p).isPrefixOf (c :: (p ++ t)) = true := List.isPrefixOf_iff_prefix.mpr ⟨t,rfl⟩
  rw [List.cons_append, afterPattern, if_pos hprefix, ← List.cons_append, List.drop_left]

theorem afterPattern_skip {pattern t : Text} {c : UInt8} (h : ¬pattern <+: c :: t) :
    afterPattern pattern (c :: t) = afterPattern pattern t := by
  rw [afterPattern, if_neg fun hprefix => h (List.isPrefixOf_iff_prefix.mp hprefix)]

theorem findKeyFrom_congr {pattern t t' : Text} (h : afterPattern pattern t = afterPattern pattern t') (turns : ℕ) :
    findKeyFrom pattern turns t = findKeyFrom pattern turns t' := by
  cases turns with
  | zero => rfl
  | succ turns => rw [findKeyFrom, findKeyFrom, h]

theorem findKeyFrom_skip {pattern t : Text} {c : UInt8} (h : ¬pattern <+: c :: t) (turns : ℕ) :
    findKeyFrom pattern turns (c :: t) = findKeyFrom pattern turns t :=
  findKeyFrom_congr (afterPattern_skip h) turns

/-- More turns do not change what is found. -/
theorem findKeyFrom_succ {pattern t v : Text} {turns : ℕ} (h : findKeyFrom pattern turns t = some v) :
    findKeyFrom pattern (turns + 1) t = some v := by
  induction turns generalizing t with
  | zero => cases h
  | succ turns ih =>
    rw [findKeyFrom] at h ⊢
    cases hafter : afterPattern pattern t with
    | none =>
      rw [hafter] at h
      cases h
    | some rest =>
      rw [hafter] at h
      dsimp only at h ⊢
      cases hws : skipWs rest with
      | nil =>
        rw [hws] at h
        cases h
      | cons c value =>
        rw [hws] at h
        dsimp only at h ⊢
        by_cases hcolon : c = colon
        · rwa [if_pos hcolon] at h ⊢
        · rw [if_neg hcolon] at h ⊢
          exact ih h

theorem findKeyFrom_le {pattern t v : Text} {m n : ℕ} (hmn : m ≤ n) (h : findKeyFrom pattern m t = some v) :
    findKeyFrom pattern n t = some v := by
  induction hmn with
  | refl => exact h
  | step _ ih => exact findKeyFrom_succ ih

/-! ## What is passed over -/

theorem keyPattern_cons (key : Text) : keyPattern key = quote :: (key ++ [quote]) := rfl

theorem keyPattern_ne_nil (key : Text) : keyPattern key ≠ [] := List.cons_ne_nil _ _

/-- The pattern does not begin at a character that is no quote. -/
theorem not_match_other {c : UInt8} (hc : c ≠ quote) (t : Text) : ¬keyPattern key <+: c :: t := by
  rw [keyPattern_cons, List.cons_prefix_cons]
  exact fun h => hc h.1.symm

/-- It does not begin at a quote that is followed by no letter of the key. -/
theorem not_match_quote (hkey : key ≠ []) {c : UInt8} (hc : c ∉ key) (t : Text) :
    ¬keyPattern key <+: quote :: c :: t := by
  obtain ⟨k,ks,rfl⟩ := List.exists_cons_of_ne_nil hkey
  rw [keyPattern_cons, List.cons_prefix_cons, List.cons_append, List.cons_prefix_cons]
  rintro ⟨-,rfl,-⟩
  exact hc List.mem_cons_self

theorem Passes.append {m n : ℕ} {a b : Text} (ha : Passes key m a) (hb : Passes key n b) : Passes key (n + m) (a ++ b) := by
  intro turns rest v h
  rw [List.append_assoc, ← Nat.add_assoc]
  exact ha _ _ _ (hb _ _ _ h)

/-- Text without quotes. -/
theorem passes_unquoted {a : Text} (ha : ∀ b ∈ a, b ≠ quote) : Passes key 0 a := by
  intro turns rest v h
  induction a with
  | nil => exact h
  | cons c a ih =>
    rw [List.cons_append, findKeyFrom_skip (not_match_other (ha c List.mem_cons_self) _)]
    exact ih fun b hb => ha b (List.mem_cons_of_mem c hb)

/-- A word with a quote behind it begins with another such word only if they are the same. -/
theorem word_unique {word t : Text} (hkey : ∀ b ∈ key, b ≠ quote) (hword : ∀ b ∈ word, b ≠ quote)
    (h : key ++ [quote] <+: word ++ quote :: t) : key = word := by
  induction key generalizing word with
  | nil =>
    cases word with
    | nil => rfl
    | cons w word =>
      rw [List.nil_append, List.cons_append, List.cons_prefix_cons] at h
      exact absurd h.1.symm (hword w List.mem_cons_self)
  | cons k key ih =>
    cases word with
    | nil =>
      rw [List.cons_append, List.nil_append, List.cons_prefix_cons] at h
      exact absurd h.1 (hkey k List.mem_cons_self)
    | cons w word =>
      rw [List.cons_append, List.cons_append, List.cons_prefix_cons] at h
      obtain ⟨rfl,h⟩ := h
      rw [ih (fun b hb => hkey b (List.mem_cons_of_mem k hb)) (fun b hb => hword b (List.mem_cons_of_mem k hb)) h]

/-- Another key. -/
theorem passes_key (hkey : KeyWord key) {word : Text} (hword : ∀ b ∈ word, b ≠ quote) (hne : word ≠ key) :
    Passes key 0 (quoted word ++ [colon]) := by
  intro turns rest v h
  have hfirst : ¬keyPattern key <+: quote :: (word ++ quote :: colon :: rest) := by
    rw [keyPattern_cons, List.cons_prefix_cons]
    exact fun hprefix => hne (word_unique (fun b hb => (hkey.2 b hb).1) hword hprefix.2).symm
  have hlast : ¬keyPattern key <+: quote :: colon :: rest :=
    not_match_quote hkey.1 (fun hmem => (hkey.2 colon hmem).2.2.2 rfl) rest
  have hcolon : ∀ b ∈ [colon], b ≠ quote := by simp [colon, quote]
  have htext : quoted word ++ [colon] ++ rest = quote :: (word ++ quote :: colon :: rest) := by simp [quoted, quote]
  rw [htext, findKeyFrom_skip hfirst]
  refine passes_unquoted hword turns _ v ?_
  rw [findKeyFrom_skip hlast]
  exact passes_unquoted hcolon turns rest v h

/-- A piece of a printed string: a character, or a backslash and what it escapes. -/
def IsPiece (p : Text) : Prop := (∃ c, p = [c] ∧ c ≠ quote ∧ c ≠ backslash) ∨ ∃ c, p = [backslash,c]

/-- What begins with the key and a quote is the whole string. -/
theorem pieces_unique {ps : List Text} (hps : ∀ p ∈ ps, IsPiece p) (hkey : ∀ b ∈ key, b ≠ quote ∧ b ≠ backslash)
    {t : Text} (h : key ++ [quote] <+: ps.flatten ++ quote :: t) : ps.flatten = key := by
  induction key generalizing ps with
  | nil =>
    cases ps with
    | nil => rfl
    | cons p ps =>
      rcases hps p List.mem_cons_self with ⟨c,rfl,hc,-⟩ | ⟨c,rfl⟩
      · rw [List.flatten_cons, List.cons_append, List.cons_append, List.nil_append, List.cons_prefix_cons] at h
        exact absurd h.1.symm hc
      · rw [List.flatten_cons, List.cons_append, List.cons_append, List.nil_append, List.cons_prefix_cons] at h
        exact absurd h.1 (by decide)
  | cons k key ih =>
    obtain ⟨hquote,hslash⟩ := hkey k List.mem_cons_self
    cases ps with
    | nil =>
      rw [List.flatten_nil, List.nil_append, List.cons_append, List.cons_prefix_cons] at h
      exact absurd h.1 hquote
    | cons p ps =>
      rcases hps p List.mem_cons_self with ⟨c,rfl,-,-⟩ | ⟨c,rfl⟩
      · rw [List.flatten_cons, List.cons_append, List.cons_append, List.cons_append, List.nil_append,
          List.cons_prefix_cons] at h
        obtain ⟨rfl,h⟩ := h
        rw [List.flatten_cons, ih (fun p hp => hps p (List.mem_cons_of_mem _ hp))
          (fun b hb => hkey b (List.mem_cons_of_mem k hb)) h]
        rfl
      · rw [List.flatten_cons, List.cons_append, List.cons_append, List.cons_append, List.cons_prefix_cons] at h
        exact absurd h.1 hslash

theorem skipWs_comma (t : Text) : skipWs (comma :: t) = comma :: t := rfl

/-- A string that is no key: whatever it contains, a comma is behind it. -/
theorem passes_string (hkey : KeyWord key) {ps : List Text} (hps : ∀ p ∈ ps, IsPiece p) :
    Passes key 1 (quote :: (ps.flatten ++ [quote,comma])) := by
  intro turns rest v h
  have hcomma : ∀ b ∈ [comma], b ≠ quote := by simp [comma, quote]
  have hrest : findKeyFrom (keyPattern key) turns (comma :: rest) = some v := passes_unquoted hcomma turns rest v h
  -- behind each piece the search goes on, be it at a quote that the piece escapes
  have hboth : findKeyFrom (keyPattern key) (turns + 1) (ps.flatten ++ quote :: comma :: rest) = some v ∧
      findKeyFrom (keyPattern key) (turns + 1) (quote :: (ps.flatten ++ quote :: comma :: rest)) = some v := by
    induction ps with
    | nil =>
      have hlast : findKeyFrom (keyPattern key) (turns + 1) (quote :: comma :: rest) = some v := by
        rw [findKeyFrom_skip (not_match_quote hkey.1 (fun hmem => (hkey.2 comma hmem).2.2.1 rfl) rest)]
        exact findKeyFrom_succ hrest
      refine ⟨hlast,?_⟩
      rw [List.flatten_nil, List.nil_append,
        findKeyFrom_skip (not_match_quote hkey.1 (fun hmem => (hkey.2 quote hmem).1 rfl) _)]
      exact hlast
    | cons p ps ih =>
      obtain ⟨hplain,hquote⟩ := ih fun q hq => hps q (List.mem_cons_of_mem p hq)
      have hstart : findKeyFrom (keyPattern key) (turns + 1) ((p :: ps).flatten ++ quote :: comma :: rest) = some v := by
        rcases hps p List.mem_cons_self with ⟨c,rfl,hc,-⟩ | ⟨c,rfl⟩
        · rw [List.flatten_cons, List.cons_append, List.cons_append, List.nil_append,
            findKeyFrom_skip (not_match_other hc _)]
          exact hplain
        · rw [List.flatten_cons, List.cons_append, List.cons_append, List.cons_append, List.cons_append, List.nil_append,
            findKeyFrom_skip (not_match_other (by decide) _)]
          by_cases hc : c = quote
          · rw [hc]
            exact hquote
          · rw [findKeyFrom_skip (not_match_other hc _)]
            exact hplain
      refine ⟨hstart,?_⟩
      by_cases hmatch : keyPattern key <+: quote :: ((p :: ps).flatten ++ quote :: comma :: rest)
      · -- the string ends with the key
        have hflat : (p :: ps).flatten = key := by
          rw [keyPattern_cons, List.cons_prefix_cons] at hmatch
          exact pieces_unique hps (fun b hb => ⟨(hkey.2 b hb).1,(hkey.2 b hb).2.1⟩) hmatch.2
        have htext : quote :: ((p :: ps).flatten ++ quote :: comma :: rest) = keyPattern key ++ comma :: rest := by
          rw [hflat, keyPattern]
          simp
        rw [htext, findKeyFrom, afterPattern_match _ _ (keyPattern_ne_nil key)]
        dsimp only
        rw [skipWs_comma]
        dsimp only
        rw [if_neg (by decide)]
        exact hrest
      · rw [findKeyFrom_skip hmatch]
        exact hstart
  have htext : quote :: (ps.flatten ++ [quote,comma]) ++ rest = quote :: (ps.flatten ++ quote :: comma :: rest) := by simp
  rw [htext]
  exact hboth.2

/-- The key behind what the search gets over. -/
theorem findKey_passes {json a rest : Text} {n : ℕ} (ha : Passes key n a) (hn : n ≤ json.length)
    (hjson : json = a ++ (quoted key ++ colon :: rest)) : findKey json key = some (skipWs rest) := by
  have hfound : findKeyFrom (keyPattern key) 1 (quoted key ++ colon :: rest) = some (skipWs rest) := by
    have htext : quoted key ++ colon :: rest = keyPattern key ++ colon :: rest := rfl
    have hcolon : skipWs (colon :: rest) = colon :: rest := rfl
    rw [htext, findKeyFrom, afterPattern_match _ _ (keyPattern_ne_nil key)]
    dsimp only
    rw [hcolon]
    exact if_pos rfl
  have hall := ha 1 _ _ hfound
  rw [← hjson] at hall
  exact findKeyFrom_le (by omega) hall

end

end Bvstk.Config.I2cJson
