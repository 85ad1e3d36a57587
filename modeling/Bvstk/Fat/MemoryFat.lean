import Bvstk.Fat.FatFs

/-! # FatFs in memory

A disk that is a list of objects, each with the key of its directory. The next calls fail
as the list `faults` says; what is past its end succeeds.
-/
namespace Bvstk.Fat
open Bvstk.Fs Bvstk.Config

structure Disk where
  objects : List (Key × FatNode)
  faults : List Bool
  deriving DecidableEq

namespace Disk

/-- The key of a listed object. -/
def keyOf (o : Key × FatNode) : Key := o.1 ++ [o.2.fname.map toLower]

def node (s : Disk) (k : Key) : Option FatNode :=
  (s.objects.find? fun o => keyOf o == k && decide (IsName o.2.fname)).map (·.2)

/-- Does the next call fail? -/
def faulty (s : Disk) : Bool := s.faults.headD false

def tick (s : Disk) : Disk := { s with faults := s.faults.tail }

/-- Removes what is there. -/
def remove (s : Disk) (k : Key) : Disk := { s with objects := s.objects.filter fun o => keyOf o != k }

/-- Puts an object in place of what is there. -/
def put (s : Disk) (p : Path) (fname : Name) (content : FatContent) : Disk :=
  { s with objects := ((key p).dropLast,⟨fname,content⟩) :: (s.remove (key p)).objects }

def children (s : Disk) (k : Key) : List FilInfo :=
  (s.objects.filter fun o => o.1 == k && decide (IsName o.2.fname)).map
    fun o => ⟨o.2.fname,o.2.content == .dir⟩

/-- A call that changes nothing. -/
def look {α : Type} (s : Disk) (answer : Except FatError α) : Except FatError α × Disk :=
  (if s.faulty then .error .failed else answer,s.tick)

def stat (s : Disk) (p : Path) : Except FatError Bool × Disk :=
  s.look (match s.node (key p) with
    | none => .error .noFile
    | some n => .ok (n.content == .dir))

def create (s : Disk) (p : Path) : Except FatError Unit × Disk :=
  if s.faulty then (.error .failed,s.tick)
  else
    match s.node (key p) with
    | none =>
      if IsName (leaf p) then (.ok (),s.tick.put p (leaf p) (.file [] false)) else (.error .failed,s.tick)
    | some ⟨_,.dir⟩ => (.error .denied,s.tick)
    | some ⟨fname,.file _ _⟩ => (.ok (),s.tick.put p fname (.file [] false))

def write (s : Disk) (p : Path) (data : List UInt8) : Except FatError ℕ × Disk :=
  if s.faulty then (.error .failed,s.tick)
  else
    match s.node (key p) with
    | some ⟨fname,.file old _⟩ => (.ok data.length,s.tick.put p fname (.file (old ++ data) false))
    | _ => (.error .failed,s.tick)

/-- `f_sync` and `f_close`. -/
def sync (s : Disk) (p : Path) : Except FatError Unit × Disk :=
  match s.node (key p) with
  | some ⟨fname,.file data false⟩ =>
    if s.faulty then (.error .failed,s.tick) else (.ok (),s.tick.put p fname (.file data true))
  | some ⟨_,.file _ true⟩ => s.look (.ok ())
  | _ => s.look (.error .failed)

def openRead (s : Disk) (p : Path) : Except FatError ℕ × Disk :=
  s.look (match s.node (key p) with
    | some ⟨_,.file data _⟩ => .ok data.length
    | _ => .error .noFile)

def read (s : Disk) (p : Path) (offset length : ℕ) : Except FatError (List UInt8) × Disk :=
  s.look (match s.node (key p) with
    | some ⟨_,.file data _⟩ => .ok ((data.drop offset).take length)
    | _ => .error .failed)

def unlink (s : Disk) (p : Path) : Except FatError Unit × Disk :=
  if s.faulty then (.error .failed,s.tick)
  else
    match s.node (key p) with
    | none => (.error .noFile,s.tick)
    | some n =>
      if n.content = .dir ∧ s.children (key p) ≠ [] then (.error .denied,s.tick)
      else (.ok (),s.tick.remove (key p))

/-- Directories are not renamed here. -/
def rename (s : Disk) (p q : Path) : Except FatError Unit × Disk :=
  if s.faulty then (.error .failed,s.tick)
  else
    match s.node (key p) with
    | none => (.error .noFile,s.tick)
    | some ⟨_,.dir⟩ => (.error .denied,s.tick)
    | some ⟨_,.file data synced⟩ =>
      if key q ≠ key p ∧ s.node (key q) ≠ none then (.error .exist,s.tick)
      else if IsName (leaf q) then (.ok (),(s.tick.remove (key p)).put q (leaf q) (.file data synced))
      else (.error .failed,s.tick)

def opendir (s : Disk) (p : Path) : Except FatError (List FilInfo) × Disk :=
  s.look (match s.node (key p) with
    | some ⟨_,.dir⟩ => .ok (s.children (key p))
    | _ => .error .noPath)

/-- Files that have not been synced may be lost, or hold anything. -/
def Reset (s t : Disk) : Prop :=
  ∀ k, t.node k = s.node k ∨ ∃ f data, s.node k = some ⟨f,.file data false⟩

end Disk

/-- FatFs on such a disk. -/
def memoryFat : FatFs Disk where
  node := Disk.node
  stat := Disk.stat
  create := Disk.create
  write := Disk.write
  sync := Disk.sync
  openRead := Disk.openRead
  read := Disk.read
  close := Disk.sync
  unlink := Disk.unlink
  rename := Disk.rename
  opendir := Disk.opendir
  readdir := fun s _ => s.look (.ok ())
  closedir := fun s _ => ((),s)
  Reset := Disk.Reset

namespace Disk
variable {s : Disk} {k : Key} {p : Path} {n : FatNode}

@[simp] theorem node_tick : s.tick.node k = s.node k := rfl

theorem node_some (h : s.node k = some n) :
    IsName n.fname ∧ ∃ d, (d,n) ∈ s.objects ∧ d ++ [n.fname.map toLower] = k := by
  simp only [node, Option.map_eq_some_iff] at h
  obtain ⟨⟨d,n'⟩,hfind,rfl⟩ := h
  have hkey := List.find?_some hfind
  simp only [Bool.and_eq_true, beq_iff_eq, decide_eq_true_eq] at hkey
  exact ⟨hkey.2,d,List.mem_of_find?_eq_some hfind,hkey.1⟩

theorem node_remove (k' : Key) : (s.remove k').node k = if k = k' then none else s.node k := by
  simp only [node, remove, List.find?_filter]
  split_ifs with h
  · subst h
    simpa using fun _ _ _ hne he => absurd he hne
  · congr 1
    apply congrArg (fun q => s.objects.find? q)
    funext o
    by_cases hk : keyOf o = k
    · simp [hk, h]
    · simp [hk]

theorem node_put {fname : Name} {content : FatContent} (hname : IsName fname)
    (hkey : key p = (key p).dropLast ++ [fname.map toLower]) :
    (s.put p fname content).node k = if k = key p then some ⟨fname,content⟩ else s.node k := by
  have hremove := node_remove (s := s) (k := k) (key p)
  have hof : keyOf ((key p).dropLast,⟨fname,content⟩) = key p := hkey.symm
  split_ifs at hremove ⊢ with h
  · subst h
    simp [node, put, hof, hname]
  · rw [← hremove, node, node, put, List.find?_cons_of_neg]
    simp [hof, Ne.symm h]

/-- A path to something has its name as the last one of its key. -/
theorem key_of_node (h : s.node (key p) = some n) : key p = (key p).dropLast ++ [n.fname.map toLower] := by
  obtain ⟨-,d,-,hd⟩ := node_some h
  rw [← hd, List.dropLast_concat]

theorem look_node {α : Type} (answer : Except FatError α) : (s.look answer).2.node = s.node := rfl

theorem look_ok {α : Type} {answer : Except FatError α} {a : α} (h : (s.look answer).1 = .ok a) : answer = .ok a := by
  unfold look at h
  split at h
  · cases h
  · exact h

theorem look_absent {α : Type} {answer : Except FatError α}
    (h : (s.look answer).1 = .error .noFile ∨ (s.look answer).1 = .error .noPath) :
    answer = .error .noFile ∨ answer = .error .noPath := by
  unfold look at h
  split at h
  · simp at h
  · exact h

/-! The two calls that put the data on the disk. -/

theorem sync_frame (s : Disk) (p : Path) (k : Key) (hk : k ≠ key p) : (s.sync p).2.node k = s.node k := by
  unfold sync
  split
  · rename_i f data hn
    split_ifs with hfault
    · rfl
    · rw [node_put (node_some hn).1 (key_of_node hn), if_neg hk, node_tick]
  · rfl
  · rfl

theorem sync_ok (s : Disk) (p : Path) (f : Name) (data : List UInt8) (synced : Bool)
    (hn : s.node (key p) = some ⟨f,.file data synced⟩) (h : (s.sync p).1 = .ok ()) :
    (s.sync p).2.node (key p) = some ⟨f,.file data true⟩ := by
  unfold sync at h ⊢
  cases synced with
  | false =>
    simp only [hn] at h ⊢
    split_ifs at h ⊢ with hfault
    rw [node_put (node_some hn).1 (key_of_node hn), if_pos rfl]
  | true =>
    simp only [hn]
    exact hn

theorem mem_children {name : Name} (h : s.node (k ++ [name]) = some n) : ⟨n.fname,n.content == .dir⟩ ∈ s.children k := by
  obtain ⟨hname,d,hd,hk⟩ := node_some h
  obtain ⟨rfl,-⟩ := List.append_inj' hk rfl
  simp only [children, List.mem_map, List.mem_filter]
  exact ⟨_,⟨hd,by simpa using hname⟩,rfl⟩

end Disk

theorem memoryFat_documented : memoryFat.Documented where
  named := by
    intro s k n h
    obtain ⟨hname,d,-,rfl⟩ := Disk.node_some h
    exact ⟨hname,List.getLast?_concat⟩
  stat_node := fun s p => Disk.look_node _
  stat_ok := by
    intro s p d h
    have hanswer := Disk.look_ok h
    cases hn : s.node (key p) with
    | none => simp [hn] at hanswer
    | some n =>
      simp only [hn, Except.ok.injEq] at hanswer
      exact ⟨n,hn,by simp [← hanswer]⟩
  stat_absent := by
    intro s p h
    have hanswer := Disk.look_absent h
    cases hn : s.node (key p) with
    | none => exact hn
    | some n => simp [hn] at hanswer
  create_frame := by
    intro s p k hk
    simp only [memoryFat, Disk.create]
    by_cases hfault : s.faulty = true
    · rw [if_pos hfault, Disk.node_tick]
    rw [if_neg hfault]
    rcases hn : s.node (key p) with _ | ⟨fname,_ | ⟨data,synced⟩⟩
    · by_cases hleaf : IsName (leaf p)
      · simp only [if_pos hleaf]
        rw [Disk.node_put hleaf (key_leaf hleaf), if_neg hk, Disk.node_tick]
      · simp only [if_neg hleaf, Disk.node_tick]
    · rfl
    · exact (Disk.node_put (Disk.node_some hn).1 (Disk.key_of_node hn)).trans (if_neg hk)
  create_ok := by
    intro s p h
    simp only [memoryFat, Disk.create] at h ⊢
    by_cases hfault : s.faulty = true
    · simp [hfault] at h
    rw [if_neg hfault] at h ⊢
    rcases hn : s.node (key p) with _ | ⟨fname,_ | ⟨data,synced⟩⟩
    · simp only [hn] at h ⊢
      by_cases hleaf : IsName (leaf p)
      · rw [if_pos hleaf]
        exact ⟨leaf p,(Disk.node_put hleaf (key_leaf hleaf)).trans (if_pos rfl)⟩
      · simp [hleaf] at h
    · simp [hn] at h
    · exact ⟨fname,(Disk.node_put (Disk.node_some hn).1 (Disk.key_of_node hn)).trans (if_pos rfl)⟩
  write_frame := by
    intro s p data k hk
    simp only [memoryFat, Disk.write]
    split_ifs with hfault
    · rfl
    · split
      · rename_i fname old synced hn
        rw [Disk.node_put (Disk.node_some hn).1 (Disk.key_of_node hn), if_neg hk, Disk.node_tick]
      · rfl
  write_ok := by
    intro s p data f old synced n hn h
    simp only [memoryFat, Disk.write] at hn h ⊢
    simp only [hn] at h ⊢
    split_ifs at h ⊢ with hfault
    rw [Except.ok.injEq] at h
    subst h
    refine ⟨le_rfl,?_⟩
    rw [Disk.node_put (Disk.node_some hn).1 (Disk.key_of_node hn), if_pos rfl, List.take_length]
  sync_frame := Disk.sync_frame
  sync_ok := Disk.sync_ok
  close_frame := Disk.sync_frame
  close_ok := Disk.sync_ok
  close_synced := by
    intro s p f data hn
    simp only [memoryFat, Disk.sync] at hn ⊢
    simp only [hn]
    exact hn
  openRead_node := fun s p => Disk.look_node _
  openRead_ok := by
    intro s p n h
    have hanswer := Disk.look_ok h
    split at hanswer
    · rename_i f data synced hn
      exact ⟨f,data,synced,hn,(Except.ok.inj hanswer).symm⟩
    · cases hanswer
  read_node := fun s p i n => Disk.look_node _
  read_ok := by
    intro s p i n f data synced bytes hn h
    have hanswer := Disk.look_ok h
    simp only [memoryFat] at hn
    simp only [hn, Except.ok.injEq] at hanswer
    exact hanswer.symm
  unlink_ok := by
    intro s p h k
    simp only [memoryFat, Disk.unlink] at h ⊢
    by_cases hfault : s.faulty = true
    · simp [hfault] at h
    rw [if_neg hfault] at h ⊢
    cases hn : s.node (key p) with
    | none => simp [hn] at h
    | some n =>
      by_cases hdir : n.content = .dir ∧ s.children (key p) ≠ []
      · simp [hn, hdir] at h
      · simp only [if_neg hdir]
        rw [Disk.node_remove, Disk.node_tick]
  unlink_error := by
    intro s p e h
    simp only [memoryFat, Disk.unlink] at h ⊢
    by_cases hfault : s.faulty = true
    · rw [if_pos hfault]
      rfl
    rw [if_neg hfault] at h ⊢
    cases hn : s.node (key p) with
    | none => rfl
    | some n =>
      by_cases hdir : n.content = .dir ∧ s.children (key p) ≠ []
      · simp only [if_pos hdir]
        rfl
      · simp [hn, if_neg hdir] at h
  rename_ok := by
    intro s p q f data synced hn h
    simp only [memoryFat, Disk.rename] at hn h ⊢
    simp only [hn] at h ⊢
    split_ifs at h ⊢ with hfault htaken hleaf
    refine ⟨or_iff_not_imp_left.mpr fun hne => by_contra fun hnone => htaken ⟨hne,hnone⟩,?_⟩
    intro k
    rw [Disk.node_put hleaf (key_leaf hleaf), Disk.node_remove, Disk.node_tick]
  rename_source := by
    intro s p q h hnone
    simp only [memoryFat, Disk.rename] at h hnone
    simp only [hnone] at h
    split_ifs at h
  rename_error := by
    intro s p q e h
    simp only [memoryFat, Disk.rename] at h ⊢
    by_cases hfault : s.faulty = true
    · rw [if_pos hfault]
      rfl
    rw [if_neg hfault] at h ⊢
    rcases hn : s.node (key p) with _ | ⟨fname,_ | ⟨data,synced⟩⟩
    · rfl
    · rfl
    · simp only [hn] at h ⊢
      split_ifs at h ⊢ <;> rfl
  opendir_node := fun s p => Disk.look_node _
  opendir_absent := by
    intro s p h f hn
    have hanswer := Disk.look_absent h
    simp only [memoryFat] at hn
    simp [hn] at hanswer
  opendir_names := by
    intro s p entries h e he
    have hanswer := Disk.look_ok h
    split at hanswer
    · obtain rfl := Except.ok.inj hanswer
      obtain ⟨o,ho,rfl⟩ := List.mem_map.mp he
      have hlisted := (List.mem_filter.mp ho).2
      simp only [Bool.and_eq_true, decide_eq_true_eq] at hlisted
      exact hlisted.2
    · cases hanswer
  opendir_complete := by
    intro s p entries name n h hn
    have hanswer := Disk.look_ok h
    split at hanswer
    · obtain rfl := Except.ok.inj hanswer
      exact ⟨_,Disk.mem_children hn,rfl,by simp⟩
    · cases hanswer
  readdir_node := fun s p => Disk.look_node _
  closedir_node := fun s p => rfl
  reset_node := fun s t h k => h k

end Bvstk.Fat
