import Bvstk.Fat.TarUnpacking

/-! # Download and upload

The archive of a directory tree, unpacked into an empty directory, makes the tree again, exactly
where the reader takes the names: it refuses two dots in a row anywhere in a path, and a path
that does not fit with the destination in front of it.
-/
namespace Bvstk.Fat
open Bvstk.Fs Bvstk.Config NamedTree

/-! ## Two dots in a row -/

theorem hasDotDot_slash (a b : Name) : hasDotDot (a ++ slash :: b) = (hasDotDot a || hasDotDot b) := by
  induction a with
  | nil =>
    cases b with
    | nil => rfl
    | cons c b => rfl
  | cons c a ih =>
    cases a with
    | nil =>
      have hnone : (slash == 46) = false := rfl
      have hrest : hasDotDot (slash :: b) = hasDotDot b := by
        cases b with
        | nil => rfl
        | cons d b => rfl
      simp only [List.cons_append, List.nil_append, hasDotDot, hnone, Bool.and_false, Bool.false_or, hrest]
    | cons d a =>
      simp only [List.cons_append, hasDotDot] at ih ⊢
      rw [ih, Bool.or_assoc]

theorem hasDotDot_front (front : List Name) (text : Path) :
    hasDotDot (frontText front ++ text) = (front.any hasDotDot || hasDotDot text) := by
  induction front with
  | nil => rfl
  | cons name front ih =>
    have hsplit : frontText (name :: front) ++ text = name ++ slash :: (frontText front ++ text) := by simp [frontText]
    rw [hsplit, hasDotDot_slash, ih, List.any_cons, Bool.or_assoc]

theorem hasDotDot_item (item : FatItem) : hasDotDot (itemText item) = (item.front.any hasDotDot || hasDotDot item.name) := by
  unfold itemText
  rw [List.append_assoc, hasDotDot_front]
  congr 1
  split_ifs
  · have hnone : hasDotDot ([] : Name) = false := rfl
    rw [hasDotDot_slash, hnone, Bool.or_false]
  · rw [List.append_nil]

/-- The text of legal names is a safe path unless it has two dots in a row. -/
theorem relpathSafe_item {item : FatItem} (h : Archivable item) :
    relpathSafe (itemText item) = !hasDotDot (itemText item) := by
  have hplain : ∀ name : Name, LegalName name → ∀ c ∈ name, c ≠ slash ∧ c ≠ colon := by
    intro name hname c hc
    have hnot := (hname.2.1 c hc).2
    simp only [List.mem_cons, List.not_mem_nil, or_false, not_or] at hnot
    exact ⟨hnot.2.2.1,hnot.2.2.2.1⟩
  have hhead : ∀ (name : Name) (text : Path), LegalName name → (name ++ text).head? ≠ some slash := by
    intro name text hname hslash
    rw [List.head?_append_of_ne_nil _ hname.1] at hslash
    exact (hplain name hname slash (List.mem_of_mem_head? hslash)).1 rfl
  have hne : itemText item ≠ [] := by simp [itemText, h.name.1]
  have hfirst : (itemText item).head? ≠ some slash := by
    unfold itemText
    cases hfront : item.front with
    | nil => exact hhead _ _ h.name
    | cons name front =>
      have hsplit : frontText (name :: front) = name ++ (slash :: frontText front) := by simp [frontText]
      rw [hsplit, List.append_assoc, List.append_assoc]
      exact hhead name _ (h.front name (by simp [hfront]))
  have hcolon : colon ∉ itemText item := by
    intro hmem
    rw [itemText, List.mem_append, List.mem_append, frontText, List.mem_flatMap] at hmem
    rcases hmem with (⟨name,hname,hmem⟩ | hmem) | hmem
    · rw [List.mem_append, List.mem_singleton] at hmem
      rcases hmem with hmem | hmem
      · exact (hplain name (h.front name hname) colon hmem).2 rfl
      · cases hmem
    · exact (hplain _ h.name colon hmem).2 rfl
    · split_ifs at hmem
      · cases List.mem_singleton.mp hmem
      · cases hmem
  rw [relpathSafe, decide_eq_true ⟨hne,hfirst,hcolon⟩, Bool.true_and]

/-! ## The round trip -/

/-- The objects of a tree that has been streamed. -/
theorem archivable_tree {fold : Name → Name} (tree : FatDirectory fold)
    (hshort : ∀ item ∈ itemsList [] tree.entries, (itemText item).length < 100) :
    ∀ item ∈ itemsList [] tree.entries, Archivable item := by
  intro item hitem
  refine ⟨tree.legal item hitem,?_,hshort item hitem,tree.small item hitem⟩
  intro name hname
  rcases front_list [] tree.entries item hitem name hname with hnone | ⟨other,hother,rfl⟩
  · cases hnone
  · exact tree.legal other hother

/-- What the reader takes of a tree under a destination: no name with two dots in a row, and
room for every path. -/
def TakenUnder (dest : Path) (entries : List (Name × FatTree)) : Prop :=
  ∀ item ∈ itemsList [] entries, hasDotDot item.name = false ∧ dest.length + (itemText item).length + 2 ≤ tarPathMax

theorem extractable_tree {fold : Name → Name} (tree : FatDirectory fold) (dest : Path)
    (hshort : ∀ item ∈ itemsList [] tree.entries, (itemText item).length < 100) :
    (∀ item ∈ itemsList [] tree.entries, Extractable dest item) ↔ TakenUnder dest tree.entries := by
  have harchivable := archivable_tree tree hshort
  constructor
  · intro h item hitem
    obtain ⟨hsafe,hroom⟩ := h item hitem
    rw [relpathSafe_item (harchivable item hitem), hasDotDot_item, Bool.not_eq_true', Bool.or_eq_false_iff] at hsafe
    exact ⟨hsafe.2,hroom⟩
  · intro h item hitem
    refine ⟨?_,(h item hitem).2⟩
    rw [relpathSafe_item (harchivable item hitem), hasDotDot_item, (h item hitem).1, Bool.or_false, Bool.not_eq_true',
      List.any_eq_false]
    intro name hname
    rcases front_list [] tree.entries item hitem name hname with hnone | ⟨other,hother,rfl⟩
    · cases hnone
    · simp [(h other hother).1]

/-- The destination holds the tree, and nothing else has changed. -/
structure Recreated (fold : Name → Name) (dest : Path) (entries : List (Name × FatTree)) (m m' : Volume) : Prop where
  inside : ∀ x k, m' (volumeKey fold dest ++ x :: k) = lookupList fold entries (x :: k)
  outside : ∀ k, (∀ x rest, k ≠ volumeKey fold dest ++ x :: rest) → m' k = m k

theorem recreated_overlay {fold : Name → Name} {dest : Path} {m : Volume} (entries : List (Name × FatTree))
    (hempty : ∀ x k, m (volumeKey fold dest ++ x :: k) = none) :
    Recreated fold dest entries m (overlay (volumeKey fold dest) (lookupList fold entries) m) := by
  constructor
  · intro x k
    rw [overlay_append, hempty, Option.or_none]
  · intro k hk
    by_cases hunder : volumeKey fold dest <+: k
    · obtain ⟨rest,rfl⟩ := hunder
      rw [overlay_append]
      cases rest with
      | nil => rw [lookupList_nil, Option.none_or]
      | cons x rest => exact absurd rfl (hk x rest)
    · exact overlay_outside _ m hunder

/-- Every object takes up some of the archive. -/
theorem items_length_le {items : List FatItem} (h : ∀ item ∈ items, Archivable item) :
    items.length ≤ (items.flatMap itemBytes).length := by
  induction items with
  | nil => exact le_rfl
  | cons item items ih =>
    obtain ⟨block,tail,size,hbytes,hheader,-⟩ := itemBytes_header (h item List.mem_cons_self)
    have hrest := ih fun other hother => h other (List.mem_cons_of_mem item hother)
    have hblock := hheader.length
    rw [tarBlock] at hblock
    rw [List.flatMap_cons, List.length_cons, List.length_append, hbytes, List.length_append]
    omega

/-- What has been streamed of a tree is unpacked into an empty directory exactly if the reader
takes its names, and then the directory holds the tree. -/
theorem tar_round_trip {σ β : Type} {R : StreamOutside σ} {P : ExtractOutside β} {fold : Name → Name} {node : β → Volume}
    {tree : FatDirectory fold} {root dest : Path} (hshows : ShowsTree R root tree.entries) (hP : Spacious fold P node) {s : σ}
    {e : β} (hdest : dest.length < tarPathMax) (hdir : IsDir (node e) (volumeKey fold dest))
    (hempty : ∀ x k, node e (volumeKey fold dest ++ x :: k) = none) (hstream : (tarStreamDir R root ⟨[],s⟩).1 = true) :
    let archive := (tarStreamDir R root ⟨[],s⟩).2.out
    ((tarExtractIntoDir P dest ⟨archive,e,[]⟩).1 = .success ↔ TakenUnder dest tree.entries) ∧
      ((tarExtractIntoDir P dest ⟨archive,e,[]⟩).1 = .success →
        Recreated fold dest tree.entries (node e) (node (tarExtractIntoDir P dest ⟨archive,e,[]⟩).2.env)) := by
  intro archive
  obtain ⟨hout,hshort⟩ := tarStreamDir_streamed hshows (Prod.ext hstream rfl :
    tarStreamDir R root ⟨[],s⟩ = (true,(tarStreamDir R root ⟨[],s⟩).2))
  have harchive : archive = (itemsList [] tree.entries).flatMap itemBytes ++ (zeros (tarBlock * 2) ++ []) := by
    rw [List.append_nil]
    exact hout
  have hitems := archivable_tree tree hshort
  have hready : Ready fold (volumeKey fold dest ++ ([] : List Name).map fold) (node e) (tree.entries.map Prod.fst) := by
    rw [List.map_nil, List.append_nil]
    exact ⟨hdir,fun name _ k => hempty (fold name) k⟩
  have hplaces := places_list [] tree.entries hready tree.distinct
  rw [List.map_nil, List.append_nil] at hplaces
  obtain ⟨w1,hmade,hstate,hnode⟩ := mkdirP_there hP hdest (w := ⟨archive,e,[]⟩) hdir
  rw [harchive] at hstate
  have hturns : (itemsList [] tree.entries).length + 2 ≤ w1.state.length + 1 := by
    have hlength := items_length_le hitems
    have hend : (zeros (tarBlock * 2)).length = 1024 := List.length_replicate ..
    rw [hstate, List.length_append, List.append_nil, hend]
    omega
  unfold tarExtractIntoDir
  rw [hmade]
  dsimp only
  rw [← extractable_tree tree dest hshort]
  by_cases hfits : ∀ item ∈ itemsList [] tree.entries, Extractable dest item
  · obtain ⟨w2,hdone,-,hnode2⟩ := extractLoop_items hP hplaces hitems hfits hnode hstate hturns
    rw [hdone]
    refine ⟨⟨fun _ => hfits,fun _ => rfl⟩,fun _ => ?_⟩
    rw [hnode2]
    exact recreated_overlay tree.entries hempty
  · have hbad : ∃ item ∈ itemsList [] tree.entries, ¬Extractable dest item := by simpa using hfits
    have hrefused := extractLoop_refuses hP hplaces hitems hbad hnode hstate
      (show (itemsList [] tree.entries).length ≤ w1.state.length + 1 by omega)
    rw [hrefused]
    refine ⟨⟨?_,fun h => absurd h hfits⟩,?_⟩
    · intro h
      cases h
    · intro h
      cases h

/-! ## Volumes in memory -/

/-- A volume with a root, on which everything stands in a directory. -/
structure RootedVolume where
  node : Volume
  root : IsDir node []
  rooted : ∀ k x, node (k ++ [x]) ≠ none → IsDir node k

instance (m : Volume) (k : List Name) : Decidable (IsDir m k) :=
  match h : m k with
  | some ⟨name,none⟩ => isTrue ⟨name,h⟩
  | some ⟨_,some _⟩ => isFalse (by rintro ⟨name,hname⟩; simp [h] at hname)
  | none => isFalse (by rintro ⟨name,hname⟩; simp [h] at hname)

/-- Directories stay when something is put elsewhere. -/
theorem isDir_update {m : Volume} {k k' : List Name} (o : Object Name (List UInt8)) (hfile : ¬IsDir m k) (h : IsDir m k') :
    IsDir (Function.update m k (some o)) k' := by
  obtain ⟨name,hname⟩ := h
  refine ⟨name,?_⟩
  rw [Function.update_of_ne _ _ _, hname]
  rintro rfl
  exact hfile ⟨name,hname⟩

/-- Puts an object into a directory, in place of nothing or of a file. -/
def RootedVolume.put (v : RootedVolume) (k : List Name) (x : Name) (o : Object Name (List UInt8)) (hdir : IsDir v.node k)
    (hfile : ¬IsDir v.node (k ++ [x])) : RootedVolume where
  node := Function.update v.node (k ++ [x]) (some o)
  root := isDir_update o hfile v.root
  rooted := by
    intro k' x' hsome
    apply isDir_update o hfile
    by_cases hkey : k' ++ [x'] = k ++ [x]
    · rw [(List.append_inj' hkey rfl).1]
      exact hdir
    · rw [Function.update_of_ne hkey] at hsome
      exact v.rooted k' x' hsome

section
variable (fold : Name → Name)

/-- Makes a directory, or a file with these data; a file may be there already. -/
def RootedVolume.create (v : RootedVolume) (p : Path) (data : Option (List UInt8)) : Except FatError Unit × RootedVolume :=
  let k := (pathNames p).dropLast.map fold
  let name := (pathNames p).getLastD []
  if data = none ∧ v.node (volumeKey fold p) ≠ none then (.error .exist,v)
  else if h : LegalName name ∧ IsDir v.node k ∧ ¬IsDir v.node (k ++ [fold name]) then
    (.ok (),v.put k (fold name) ⟨name,data⟩ h.2.1 h.2.2)
  else (.error .denied,v)

/-- FatFs on such a volume, and a callback that gives all that is wanted. -/
def memoryVolume : ExtractOutside RootedVolume where
  chunk v wanted := (wanted,v)
  mkdir v p := v.create fold p none
  openWrite v p := v.create fold p (some [])
  write v p data :=
    match v.node (volumeKey fold p) with
    | some ⟨name,some old⟩ =>
      let k := (volumeKey fold p).dropLast
      let x := (volumeKey fold p).getLastD []
      if h : IsDir v.node k ∧ ¬IsDir v.node (k ++ [x]) then (.ok data.length,v.put k x ⟨name,some (old ++ data)⟩ h.1 h.2)
      else (.error .failed,v)
    | _ => (.error .failed,v)
  close v _ := v

theorem create_new (v : RootedVolume) {p : Path} {front : List Name} {name : Name} (hp : pathNames p = front ++ [name])
    (hname : LegalName name) (hdir : IsDir v.node (front.map fold)) (hnew : v.node (volumeKey fold p) = none)
    (data : Option (List UInt8)) :
    (v.create fold p data).1 = .ok () ∧
      (v.create fold p data).2.node = Function.update v.node (volumeKey fold p) (some ⟨name,data⟩) := by
  have hkey : volumeKey fold p = front.map fold ++ [fold name] := by
    rw [volumeKey, hp, List.map_append]
    rfl
  have hfront : (pathNames p).dropLast = front := by rw [hp, List.dropLast_concat]
  have hlast : (pathNames p).getLastD [] = name := by rw [hp, List.getLastD_concat]
  have hfile : ¬IsDir v.node (front.map fold ++ [fold name]) := by
    rintro ⟨other,hother⟩
    rw [← hkey, hnew] at hother
    cases hother
  unfold RootedVolume.create
  dsimp only
  rw [hnew, if_neg (fun h => h.2 rfl)]
  simp only [hfront, hlast]
  rw [dif_pos ⟨hname,hdir,hfile⟩, hkey]
  exact ⟨rfl,rfl⟩

theorem spacious_memoryVolume : Spacious fold (memoryVolume fold) RootedVolume.node where
  rooted v := v.rooted
  chunk_gives _ _ h := h
  chunk_node _ _ := rfl
  mkdir_there v p hdir := by
    obtain ⟨name,hname⟩ := hdir
    have hthere : (none : Option (List UInt8)) = none ∧ v.node (volumeKey fold p) ≠ none := ⟨rfl,by simp [hname]⟩
    have hmade : v.create fold p none = (.error .exist,v) := if_pos hthere
    exact ⟨congrArg Prod.fst hmade,congrArg (fun r => r.2.node) hmade⟩
  mkdir_new v p front name hp hname hdir hnew := create_new fold v hp hname hdir hnew none
  open_new v p front name hp hname hdir hnew := create_new fold v hp hname hdir hnew (some [])
  write_appends v p name old data hold _ := by
    have hfile : ¬IsDir v.node (volumeKey fold p) := by
      rintro ⟨other,hother⟩
      rw [hold] at hother
      cases hother
    rcases List.eq_nil_or_concat' (volumeKey fold p) with hnil | ⟨k,x,hkey⟩
    · rw [hnil] at hfile
      exact absurd v.root hfile
    · have hdir : IsDir v.node k := v.rooted k x (by rw [← hkey, hold]; exact Option.some_ne_none _)
      have hfront : (volumeKey fold p).dropLast = k := by rw [hkey, List.dropLast_concat]
      have hlast : (volumeKey fold p).getLastD [] = x := by rw [hkey, List.getLastD_concat]
      have hput : ¬IsDir v.node (k ++ [x]) := by rwa [hkey] at hfile
      simp only [memoryVolume, hold, hfront, hlast]
      rw [dif_pos ⟨hdir,hput⟩]
      exact ⟨rfl,congrArg (fun key => Function.update v.node key (some ⟨name,some (old ++ data)⟩)) hkey.symm⟩
  close_node _ _ := rfl

end

/-- FatFs that looks every path up in a list, and a callback that takes all. -/
def listedTree (found : List (Path × FatTree)) : StreamOutside Unit :=
  let table := fun path => (found.find? (·.1 == path)).map (·.2)
  { stat := fun _ path => (((table path).map treeStat).elim (.error .noFile) .ok,())
    openRead := fun _ _ => (.ok (),())
    read := fun _ path offset length =>
      match table path with
      | some (.file data) => (.ok ((data.drop offset).take length),())
      | _ => (.error .noFile,())
    close := fun _ _ => ()
    opendir := fun _ path =>
      match table path with
      | some (.dir entries) => (.ok (entries.map treeInfo),())
      | _ => (.error .noPath,())
    readdir := fun _ _ => (.ok (),())
    closedir := fun _ _ => ()
    accept := fun _ bytes => (bytes.length,()) }

theorem showsTree_listedTree {found : List (Path × FatTree)} {root : Path} {top : List (Name × FatTree)}
    (hfound : ∀ path tree, FoundAt root top path tree → found.find? (·.1 == path) = some (path,tree))
    (hdots : ∀ path entries, FoundAt root top path (.dir entries) → ∀ entry ∈ entries, isDot entry.1 = false) :
    ShowsTree (listedTree found) root top where
  stat _ path tree i hat h := by
    simp only [listedTree, hfound path tree hat] at h
    exact (Except.ok.inj h).symm
  read _ path data offset length bytes hat h := by
    simp only [listedTree, hfound path _ hat, Option.map_some] at h
    exact (Except.ok.inj h).symm
  opendir _ path entries l hat h := by
    simp only [listedTree, hfound path _ hat, Option.map_some] at h
    cases Except.ok.inj h
    rw [List.filter_eq_self]
    intro e he
    obtain ⟨entry,hentry,rfl⟩ := List.mem_map.mp he
    exact congrArg not (hdots path entries hat entry hentry)

/-! ### Samples -/

/-- Names in lower case. -/
def lowerFold (name : Name) : Name := name.map toLower

/-- A file `f` and a directory `D` with an empty file `e` in it. -/
def sampleEntries : List (Name × FatTree) := [([102],.file [1,2,3]),([68],.dir [([101],.file [])])]

/-- `0:/a`. -/
def sampleSource : Path := [48,58,47,97]

def sampleFound : List (Path × FatTree) :=
  [(sampleSource,.dir sampleEntries),(sampleSource ++ [47,102],.file [1,2,3]),
    (sampleSource ++ [47,68],.dir [([101],.file [])]),(sampleSource ++ [47,68,47,101],.file [])]

theorem sampleFound_at {path : Path} {tree : FatTree} (h : FoundAt sampleSource sampleEntries path tree) :
    (path,tree) ∈ sampleFound := by
  induction h with
  | root => exact List.mem_cons_self
  | child parent entry ih =>
    simp only [sampleFound, List.mem_cons, List.not_mem_nil, or_false, Prod.mk.injEq, reduceCtorEq, and_false, false_or,
      Tree.dir.injEq] at ih
    rcases ih with ⟨rfl,rfl⟩ | ⟨rfl,rfl⟩
    · simp only [sampleEntries, List.mem_cons, List.not_mem_nil, or_false, Prod.mk.injEq] at entry
      rcases entry with ⟨rfl,rfl⟩ | ⟨rfl,rfl⟩
      · exact .tail _ (.head _)
      · exact .tail _ (.tail _ (.head _))
    · simp only [List.mem_cons, List.not_mem_nil, or_false, Prod.mk.injEq] at entry
      obtain ⟨rfl,rfl⟩ := entry
      exact .tail _ (.tail _ (.tail _ (.head _)))

def sampleTree : FatDirectory lowerFold where
  entries := sampleEntries
  distinct := by simp [sampleEntries, DistinctList, DistinctPair, DistinctNode, lowerFold]; decide
  legal := by simp [sampleEntries, itemsList, itemsPair, itemsNode, LegalName]
  small := by simp [sampleEntries, itemsList, itemsPair, itemsNode]

theorem showsTree_sample : ShowsTree (listedTree sampleFound) sampleSource sampleEntries := by
  apply showsTree_listedTree
  · intro path tree hat
    have hmem := sampleFound_at hat
    simp only [sampleFound, List.mem_cons, List.not_mem_nil, or_false, Prod.mk.injEq] at hmem
    rcases hmem with ⟨rfl,rfl⟩ | ⟨rfl,rfl⟩ | ⟨rfl,rfl⟩ | ⟨rfl,rfl⟩
    · rfl
    · rfl
    · rfl
    · rfl
  · intro path entries hat entry hentry
    have hmem := sampleFound_at hat
    simp only [sampleFound, List.mem_cons, List.not_mem_nil, or_false, Prod.mk.injEq, reduceCtorEq, and_false, false_or,
      Tree.dir.injEq] at hmem
    rcases hmem with ⟨-,rfl⟩ | ⟨-,rfl⟩
    · simp only [sampleEntries, List.mem_cons, List.not_mem_nil, or_false] at hentry
      rcases hentry with rfl | rfl
      · rfl
      · rfl
    · rw [List.mem_singleton.mp hentry]
      rfl

/-- `1:/b`. -/
def sampleTarget : Path := [49,58,47,98]

/-- A volume with nothing but this directory. -/
def sampleTargetVolume : RootedVolume where
  node k := if k = [] ∨ k = [[49,58]] ∨ k = [[49,58],[98]] then some ⟨k.getLastD [],none⟩ else none
  root := ⟨[],rfl⟩
  rooted := by
    intro k x hsome
    rw [ne_eq, ite_eq_right_iff, Classical.not_imp] at hsome
    rcases hsome.1 with hkey | hkey | hkey
    · simp at hkey
    · have hsplit : k ++ [x] = [] ++ [[49,58]] := hkey
      obtain ⟨rfl,-⟩ := List.append_inj' hsplit rfl
      exact ⟨_,rfl⟩
    · have hsplit : k ++ [x] = [[49,58]] ++ [[98]] := hkey
      obtain ⟨rfl,-⟩ := List.append_inj' hsplit rfl
      exact ⟨_,rfl⟩

theorem sampleTarget_dir : IsDir sampleTargetVolume.node (volumeKey lowerFold sampleTarget) := ⟨[98],by decide⟩

theorem sampleTarget_empty (x : Name) (k : List Name) :
    sampleTargetVolume.node (volumeKey lowerFold sampleTarget ++ x :: k) = none := by
  have hkey : volumeKey lowerFold sampleTarget = [[49,58],[98]] := by decide
  rw [hkey]
  simp [sampleTargetVolume]

theorem tar_round_trip_sample :
    let archive := (tarStreamDir (listedTree sampleFound) sampleSource ⟨[],()⟩).2.out
    ((tarExtractIntoDir (memoryVolume lowerFold) sampleTarget ⟨archive,sampleTargetVolume,[]⟩).1 = .success ↔
        TakenUnder sampleTarget sampleEntries) ∧
      ((tarExtractIntoDir (memoryVolume lowerFold) sampleTarget ⟨archive,sampleTargetVolume,[]⟩).1 = .success →
        Recreated lowerFold sampleTarget sampleEntries sampleTargetVolume.node
          (tarExtractIntoDir (memoryVolume lowerFold) sampleTarget ⟨archive,sampleTargetVolume,[]⟩).2.env.node) :=
  @tar_round_trip Unit RootedVolume _ _ lowerFold _ sampleTree _ _ showsTree_sample (spacious_memoryVolume lowerFold) () _
    (by decide) sampleTarget_dir sampleTarget_empty (by decide +kernel)

/-! ### A name that the reader refuses -/

/-- An empty file, `a..b`. -/
def dottedEntries : List (Name × FatTree) := [([97,46,46,98],.file [])]

def dottedFound : List (Path × FatTree) := [(sampleSource,.dir dottedEntries),(sampleSource ++ [47,97,46,46,98],.file [])]

def dottedTree : FatDirectory lowerFold where
  entries := dottedEntries
  distinct := by simp [dottedEntries, DistinctList, DistinctPair, DistinctNode]
  legal := by simp [dottedEntries, itemsList, itemsPair, itemsNode, LegalName]
  small := by simp [dottedEntries, itemsList, itemsPair, itemsNode]

theorem showsTree_dotted : ShowsTree (listedTree dottedFound) sampleSource dottedEntries := by
  have hat : ∀ path tree, FoundAt sampleSource dottedEntries path tree →
      (path = sampleSource ∧ tree = .dir dottedEntries) ∨ (path = sampleSource ++ [47,97,46,46,98] ∧ tree = .file []) := by
    intro path tree h
    induction h with
    | root => exact .inl ⟨rfl,rfl⟩
    | child parent entry ih =>
      rcases ih with ⟨rfl,hdir⟩ | ⟨-,hfile⟩
      · cases hdir
        cases List.mem_singleton.mp entry
        exact .inr ⟨rfl,rfl⟩
      · cases hfile
  apply showsTree_listedTree
  · intro path tree h
    rcases hat path tree h with ⟨rfl,rfl⟩ | ⟨rfl,rfl⟩
    · rfl
    · rfl
  · intro path entries h entry hentry
    rcases hat path _ h with ⟨-,hdir⟩ | ⟨-,hfile⟩
    · cases hdir
      rw [List.mem_singleton.mp hentry]
      rfl
    · cases hfile

/-- Not every tree that can be streamed is unpacked again. -/
theorem tar_round_trip_dots :
    ¬ ∀ (σ β : Type) (R : StreamOutside σ) (P : ExtractOutside β) (fold : Name → Name) (node : β → Volume)
      (tree : FatDirectory fold) (root dest : Path), ShowsTree R root tree.entries → Spacious fold P node → ∀ (s : σ) (e : β),
      dest.length < tarPathMax → IsDir (node e) (volumeKey fold dest) →
      (∀ x k, node e (volumeKey fold dest ++ x :: k) = none) → (tarStreamDir R root ⟨[],s⟩).1 = true →
      (tarExtractIntoDir P dest ⟨(tarStreamDir R root ⟨[],s⟩).2.out,e,[]⟩).1 = .success := by
  intro h
  have hdone := h Unit RootedVolume (listedTree dottedFound) (memoryVolume lowerFold) lowerFold RootedVolume.node dottedTree
    sampleSource sampleTarget showsTree_dotted (spacious_memoryVolume lowerFold) () sampleTargetVolume (by decide)
    sampleTarget_dir sampleTarget_empty (by decide +kernel)
  have hrefused : (tarExtractIntoDir (memoryVolume lowerFold) sampleTarget
      ⟨(tarStreamDir (listedTree dottedFound) sampleSource ⟨[],()⟩).2.out,sampleTargetVolume,[]⟩).1 = .failure := by
    decide +kernel
  rw [hrefused] at hdone
  cases hdone

end Bvstk.Fat
