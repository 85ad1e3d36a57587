import Bvstk.Config.ProfileMetadata
import Bvstk.Fs.Path
import Mathlib.Data.List.TakeWhile

/-! # FatFs

The file system the board's stores call. It is not part of the repository: its functions
are a parameter, and `Documented` says what their manual promises. Names compare without
the case of their letters; each call may fail.
-/
namespace Bvstk.Fat
open Bvstk.Fs Bvstk.Config

/-! ## Names -/

def backslash : UInt8 := 92

def isSeparator (c : UInt8) : Bool := c == slash || c == backslash

/-- What a path stands for: the names on the way, in lower case. -/
abbrev Key := List Name

def key (p : Path) : Key := ((p.splitOnP isSeparator).filter (· ≠ [])).map (·.map toLower)

/-- The last name of a path. -/
def leaf (p : Path) : Name := (p.reverse.takeWhile fun c => !isSeparator c).reverse

/-- A name in a directory. -/
def IsName (name : Name) : Prop := name ≠ [] ∧ ∀ c ∈ name, isSeparator c = false

instance (name : Name) : Decidable (IsName name) :=
  @instDecidableAnd _ _ _ (List.decidableBAll (fun c => isSeparator c = false) name)

/-! ## The functions called -/

/-- The failing values of `FRESULT` that a caller tells apart. -/
inductive FatError where
  | noFile | noPath | exist | denied | failed
  deriving DecidableEq, Repr

/-- What is stored: a directory, or a file and whether its data have been synced. -/
inductive FatContent where
  | dir
  | file (data : List UInt8) (synced : Bool)
  deriving DecidableEq, Repr

/-- An object with the name under which it is listed. -/
structure FatNode where
  fname : Name
  content : FatContent
  deriving DecidableEq, Repr

/-- `FILINFO`: the name, and `AM_DIR` in the attributes. -/
structure FilInfo where
  fname : Name
  directory : Bool
  deriving DecidableEq, Repr

/-- The functions of FatFs. A file object goes by the path it was opened with. Reading a
directory gives one entry after the other of what `opendir` has found, and may fail before
each. -/
structure FatFs (σ : Type) where
  node : σ → Key → Option FatNode
  stat : σ → Path → Except FatError Bool × σ
  create : σ → Path → Except FatError Unit × σ
  write : σ → Path → List UInt8 → Except FatError ℕ × σ
  sync : σ → Path → Except FatError Unit × σ
  openRead : σ → Path → Except FatError ℕ × σ
  read : σ → Path → (offset length : ℕ) → Except FatError (List UInt8) × σ
  close : σ → Path → Except FatError Unit × σ
  unlink : σ → Path → Except FatError Unit × σ
  rename : σ → Path → Path → Except FatError Unit × σ
  opendir : σ → Path → Except FatError (List FilInfo) × σ
  readdir : σ → Path → Except FatError Unit × σ
  closedir : σ → Path → Unit × σ
  /-- What may be found after a reset. -/
  Reset : σ → σ → Prop

/-- What is promised of the functions: a rename or an unlink is done in full or not at
all, data is safe once synced, and no call touches what it does not name. -/
structure FatFs.Documented {σ : Type} (F : FatFs σ) : Prop where
  named : ∀ s k n, F.node s k = some n → IsName n.fname ∧ k.getLast? = some (n.fname.map toLower)
  stat_node : ∀ s p, F.node (F.stat s p).2 = F.node s
  stat_ok : ∀ s p d, (F.stat s p).1 = .ok d → ∃ n, F.node s (key p) = some n ∧ (d = true ↔ n.content = .dir)
  stat_absent : ∀ s p, (F.stat s p).1 = .error .noFile ∨ (F.stat s p).1 = .error .noPath → F.node s (key p) = none
  create_frame : ∀ s p k, k ≠ key p → F.node (F.create s p).2 k = F.node s k
  create_ok : ∀ s p, (F.create s p).1 = .ok () → ∃ f, F.node (F.create s p).2 (key p) = some ⟨f,.file [] false⟩
  write_frame : ∀ s p data k, k ≠ key p → F.node (F.write s p data).2 k = F.node s k
  write_ok : ∀ s p data f old synced n, F.node s (key p) = some ⟨f,.file old synced⟩ →
    (F.write s p data).1 = .ok n →
    n ≤ data.length ∧ F.node (F.write s p data).2 (key p) = some ⟨f,.file (old ++ data.take n) false⟩
  sync_frame : ∀ s p k, k ≠ key p → F.node (F.sync s p).2 k = F.node s k
  sync_ok : ∀ s p f data synced, F.node s (key p) = some ⟨f,.file data synced⟩ → (F.sync s p).1 = .ok () →
    F.node (F.sync s p).2 (key p) = some ⟨f,.file data true⟩
  close_frame : ∀ s p k, k ≠ key p → F.node (F.close s p).2 k = F.node s k
  close_ok : ∀ s p f data synced, F.node s (key p) = some ⟨f,.file data synced⟩ → (F.close s p).1 = .ok () →
    F.node (F.close s p).2 (key p) = some ⟨f,.file data true⟩
  close_synced : ∀ s p f data, F.node s (key p) = some ⟨f,.file data true⟩ →
    F.node (F.close s p).2 (key p) = F.node s (key p)
  openRead_node : ∀ s p, F.node (F.openRead s p).2 = F.node s
  openRead_ok : ∀ s p n, (F.openRead s p).1 = .ok n →
    ∃ f data synced, F.node s (key p) = some ⟨f,.file data synced⟩ ∧ n = data.length
  read_node : ∀ s p i n, F.node (F.read s p i n).2 = F.node s
  read_ok : ∀ s p i n f data synced bytes, F.node s (key p) = some ⟨f,.file data synced⟩ →
    (F.read s p i n).1 = .ok bytes → bytes = (data.drop i).take n
  unlink_ok : ∀ s p, (F.unlink s p).1 = .ok () →
    ∀ k, F.node (F.unlink s p).2 k = if k = key p then none else F.node s k
  unlink_error : ∀ s p e, (F.unlink s p).1 = .error e → F.node (F.unlink s p).2 = F.node s
  rename_ok : ∀ s p q f data synced, F.node s (key p) = some ⟨f,.file data synced⟩ → (F.rename s p q).1 = .ok () →
    (key q = key p ∨ F.node s (key q) = none) ∧ ∀ k, F.node (F.rename s p q).2 k =
      if k = key q then some ⟨leaf q,.file data synced⟩ else if k = key p then none else F.node s k
  rename_source : ∀ s p q, (F.rename s p q).1 = .ok () → F.node s (key p) ≠ none
  rename_error : ∀ s p q e, (F.rename s p q).1 = .error e → F.node (F.rename s p q).2 = F.node s
  opendir_node : ∀ s p, F.node (F.opendir s p).2 = F.node s
  opendir_absent : ∀ s p, (F.opendir s p).1 = .error .noFile ∨ (F.opendir s p).1 = .error .noPath →
    ∀ f, F.node s (key p) ≠ some ⟨f,.dir⟩
  opendir_names : ∀ s p entries, (F.opendir s p).1 = .ok entries → ∀ e ∈ entries, IsName e.fname
  opendir_complete : ∀ s p entries name n, (F.opendir s p).1 = .ok entries → F.node s (key p ++ [name]) = some n →
    ∃ e ∈ entries, e.fname = n.fname ∧ (e.directory = true ↔ n.content = .dir)
  readdir_node : ∀ s p, F.node (F.readdir s p).2 = F.node s
  closedir_node : ∀ s p, F.node (F.closedir s p).2 = F.node s
  reset_node : ∀ s t, F.Reset s t → ∀ k, F.node t k = F.node s k ∨
    ∃ f data, F.node s k = some ⟨f,.file data false⟩

/-! ## Keys of paths -/

theorem key_append_slash (p q : Path) : key (p ++ slash :: q) = key p ++ key q := by
  simp [key, List.splitOnP_append_cons p q (show isSeparator slash = true from rfl)]

theorem key_eq_singleton {name : Name} (h : IsName name) : key name = [name.map toLower] := by
  simp [key, List.splitOnP_eq_singleton h.2, h.1]

/-- A path is a directory with what follows the last separator. -/
theorem leaf_split (p : Path) :
    ∃ d, p = d ++ leaf p ∧ ∀ x : Path, (∀ c ∈ x, isSeparator c = false) → key (d ++ x) = key d ++ key x := by
  have hp : p = (p.reverse.dropWhile fun c => !isSeparator c).reverse ++ leaf p := by
    rw [leaf, ← List.reverse_append, List.takeWhile_append_dropWhile, List.reverse_reverse]
  refine ⟨_,hp,?_⟩
  intro x _
  cases hd : p.reverse.dropWhile fun c => !isSeparator c with
  | nil => simp [key]
  | cons c d =>
    have hc : isSeparator c = true := by
      have hhead := List.head_dropWhile_not (fun c => !isSeparator c) (l := p.reverse) (by simp [hd])
      simpa [hd] using hhead
    rw [List.reverse_cons, List.append_assoc, List.singleton_append]
    simp [key, List.splitOnP_append_cons _ _ hc]

theorem leaf_no_separator (p : Path) : ∀ c ∈ leaf p, isSeparator c = false := by
  intro c hc
  simpa using List.mem_takeWhile_imp (List.mem_reverse.mp hc)

/-- The last name of a path, if it has one, ends its key. -/
theorem key_leaf {p : Path} (h : IsName (leaf p)) : key p = (key p).dropLast ++ [(leaf p).map toLower] := by
  obtain ⟨d,hp,hd⟩ := leaf_split p
  have hkey : key p = key d ++ [(leaf p).map toLower] := by
    conv_lhs => rw [hp]
    rw [hd _ h.2, key_eq_singleton h]
  rw [hkey, List.dropLast_concat]

/-- A longer last name makes another path. -/
theorem key_append_ne (p : Path) {ending : Name} (h : IsName ending) : key (p ++ ending) ≠ key p := by
  obtain ⟨d,hp,hd⟩ := leaf_split p
  have hleaf := leaf_no_separator p
  have hlong : IsName (leaf p ++ ending) := by
    refine ⟨by simp [h.1],?_⟩
    intro c hc
    rcases List.mem_append.mp hc with hc | hc
    · exact hleaf c hc
    · exact h.2 c hc
  have hkey : key (p ++ ending) = key d ++ [(leaf p ++ ending).map toLower] := by
    conv_lhs => rw [hp, List.append_assoc]
    rw [hd _ hlong.2, key_eq_singleton hlong]
  have hkey' : key p = key d ++ key (leaf p) := by
    conv_lhs => rw [hp]
    exact hd _ hleaf
  rw [hkey, hkey', Ne, List.append_cancel_left_eq]
  rcases eq_or_ne (leaf p) [] with hnil | hne
  · simp [hnil, key]
  · rw [key_eq_singleton ⟨hne,hleaf⟩, List.cons.injEq]
    intro heq
    have hlen := congrArg List.length heq.1
    have := List.length_pos_of_ne_nil h.1
    simp at hlen
    exact h.1 hlen

theorem leaf_child (p : Path) {name : Name} (h : IsName name) : leaf (p ++ slash :: name) = name := by
  have hname : ∀ c ∈ name.reverse, (!isSeparator c) = true := by
    intro c hc
    simp [h.2 c (List.mem_reverse.mp hc)]
  rw [leaf, List.reverse_append, List.reverse_cons, List.append_assoc, List.takeWhile_append_of_pos hname,
    List.singleton_append, List.takeWhile_cons_of_neg (by decide), List.append_nil, List.reverse_reverse]

/-- A name within a directory. -/
theorem key_child (p : Path) {name : Name} (h : IsName name) :
    key (p ++ slash :: name) = key p ++ [name.map toLower] := by
  rw [key_append_slash, key_eq_singleton h]

/-! ## Files with their data -/

section
variable {σ : Type} (F : FatFs σ)

/-- A file with these data in full. -/
def Holds (s : σ) (p : Path) (data : List UInt8) : Prop :=
  ∃ f synced, F.node s (key p) = some ⟨f,.file data synced⟩

/-- A file whose data a reset cannot touch. -/
def Safe (s : σ) (p : Path) (data : List UInt8) : Prop := ∃ f, F.node s (key p) = some ⟨f,.file data true⟩

end

section
variable {σ : Type} {F : FatFs σ} {p : Path} {data : List UInt8} {s t : σ}

theorem Safe.holds (h : Safe F s p data) : Holds F s p data := by
  obtain ⟨f,hf⟩ := h
  exact ⟨f,true,hf⟩

theorem Safe.reset (hF : F.Documented) (h : Safe F s p data) (ht : F.Reset s t) : Safe F t p data := by
  obtain ⟨f,hf⟩ := h
  refine ⟨f,?_⟩
  rcases hF.reset_node s t ht (key p) with hsame | ⟨f',data',hunsynced⟩
  · rw [hsame, hf]
  · simp [hf] at hunsynced

end

end Bvstk.Fat
