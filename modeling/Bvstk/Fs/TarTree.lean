import Bvstk.Fs.ReaderStream
import Bvstk.Fs.TarArchive

/-! # The archive of a tree

The entries of a tree in the order of the walk, and what a reader of archives makes of the
stream of the tree: exactly these entries.
-/
namespace Bvstk.Fs
open BlockStream

/-! ## Names -/

theorem continuation_ge {b : UInt8} (h : b &&& 0xC0 = 0x80) : 128 ≤ b.toNat := by
  have hall : ∀ n : Fin 256, UInt8.ofNat n &&& 0xC0 = 0x80 → 128 ≤ n.val := by decide +kernel
  have hb := hall ⟨b.toNat,b.toNat_lt⟩
  rw [UInt8.ofNat_toNat] at hb
  exact hb h

theorem utf8Tail_ge {n value cp : ℕ} {data : List UInt8} (h : utf8Tail n data value = some cp) :
    ∀ b ∈ data.take n, 128 ≤ b.toNat := by
  induction n generalizing data value with
  | zero => simp
  | succ n ih =>
    cases data with
    | nil => simp
    | cons b data =>
      unfold utf8Tail at h
      split at h
      · cases h
      · rename_i hcontinues
        intro b' hb'
        rw [List.take_succ_cons, List.mem_cons] at hb'
        rcases hb' with rfl | hb'
        · exact continuation_ge (not_not.mp hcontinues)
        · exact ih h b' hb'

theorem utf8Lead_length {b : UInt8} {n value minimum : ℕ} (h : utf8Lead b = some (n,value,minimum)) :
    n = n - 1 + 1 := by
  unfold utf8Lead at h
  split at h
  · cases h
    rfl
  · split at h
    · cases h
      rfl
    · split at h
      · cases h
        rfl
      · cases h

/-- A character is a byte of ASCII, or several bytes outside of it. -/
theorem utf8Decode_bytes {data : List UInt8} {used cp : ℕ} (h : utf8Decode data = some (used,cp)) :
    (∃ b rest, data = b :: rest ∧ used = 1 ∧ cp = b.toNat) ∨ ∀ b ∈ data.take used, 128 ≤ b.toNat := by
  cases data with
  | nil => cases h
  | cons b data =>
    unfold utf8Decode at h
    dsimp only at h
    by_cases hascii : b < 0x80
    · rw [if_pos hascii] at h
      cases h
      exact .inl ⟨b,data,rfl,rfl,rfl⟩
    · rw [if_neg hascii] at h
      right
      cases hlead : utf8Lead b with
      | none =>
        rw [hlead] at h
        cases h
      | some lead =>
        obtain ⟨n,value,minimum⟩ := lead
        rw [hlead] at h
        dsimp only at h
        cases htail : utf8Tail (n - 1) data value with
        | none =>
          rw [htail] at h
          cases h
        | some cp' =>
          rw [htail] at h
          dsimp only at h
          split at h
          · cases h
          · cases h
            rw [utf8Lead_length hlead, List.take_succ_cons]
            intro b' hb'
            rw [List.mem_cons] at hb'
            rcases hb' with rfl | hb'
            · rw [UInt8.lt_iff_toNat_lt] at hascii
              exact not_lt.mp hascii
            · exact utf8Tail_ge htail b' hb'

theorem charactersValid_bytes {left : ℕ} {name : List UInt8} (h : charactersValid left name = true) :
    ∀ b ∈ name, reserved b.toNat = false ∨ 128 ≤ b.toNat := by
  induction left generalizing name with
  | zero =>
    cases name with
    | nil =>
      intro b hb
      cases hb
    | cons b name => cases h
  | succ left ih =>
    cases name with
    | nil =>
      intro b hb
      cases hb
    | cons b name =>
      unfold charactersValid at h
      cases hdecode : utf8Decode (b :: name) with
      | none =>
        rw [hdecode] at h
        cases h
      | some out =>
        obtain ⟨used,cp⟩ := out
        rw [hdecode] at h
        simp only [Bool.and_eq_true, Bool.not_eq_true'] at h
        intro b' hb'
        rw [← List.take_append_drop used (b :: name), List.mem_append] at hb'
        rcases hb' with hb' | hb'
        · rcases utf8Decode_bytes hdecode with ⟨first,rest,hdata,rfl,rfl⟩ | hbytes
          · cases hdata
            rw [List.take_succ_cons, List.take_zero, List.mem_singleton] at hb'
            subst hb'
            exact .inl h.1
          · exact .inr (hbytes b' hb')
        · exact ih h.2 b' hb'

/-- A name has no NUL and no separator in it. -/
theorem validComponent_bytes {name : Path} (h : validComponent name = true) : ∀ b ∈ name, b ≠ 0 ∧ b ≠ slash := by
  unfold validComponent at h
  rw [Bool.and_eq_true] at h
  intro b hb
  rcases charactersValid_bytes h.2 b hb with hplain | hlarge
  · constructor
    · rintro rfl
      exact absurd hplain (by decide)
    · rintro rfl
      exact absurd hplain (by decide)
  · constructor
    · rintro rfl
      exact absurd hlarge (by decide)
    · rintro rfl
      exact absurd hlarge (by decide)

/-! ## Entries -/

mutual

/-- The entries of a tree as they should be archived, under the relative names. -/
def nodeEntries (name : Path) : FsNode → List Ustar.Entry
  | .file _ _ content _ => [⟨name,.file,content.length,content⟩]
  | .dir _ _ _ entries => ⟨name,.directory,0,[]⟩ :: listEntries (name ++ [slash]) entries
  | .other _ _ => []

def pairEntries (front : Path) : FsName × FsNode → List Ustar.Entry
  | (name,node) => nodeEntries (front ++ name.val) node

def listEntries (front : Path) : List (FsName × FsNode) → List Ustar.Entry
  | [] => []
  | entry :: entries => pairEntries front entry ++ listEntries front entries

end

/-- An entry of the walk as it should be archived. -/
def FsEntry.archived (start : ℕ) (entry : FsEntry) : Ustar.Entry :=
  if entry.node.info.type = entryDir then ⟨entry.path.drop start,.directory,0,[]⟩
  else ⟨entry.path.drop start,.file,entry.node.content.length,entry.node.content⟩

/-- Entries with these relative names; no name has a NUL in it. -/
def Lists (start : ℕ) (walk : Feed FsEntry FsError) (archived : List Ustar.Entry) : Prop :=
  walk.items.map (FsEntry.archived start) = archived ∧
    ∀ entry ∈ walk.items, (∀ b ∈ entry.path.drop start, b ≠ 0) ∧
      (entry.node.info.type = entryFile ∨ entry.node.info.type = entryDir)

/-- A path in front of whose entries a separator stands. -/
structure Inner (start : ℕ) (path : Path) : Prop where
  deep : start ≤ path.length
  text : ∀ b ∈ path.drop start, b ≠ 0
  parent : parentPath path = path ++ [slash]

theorem Inner.front {start : ℕ} {path : Path} (h : Inner start path) :
    start ≤ (parentPath path).length ∧ (∀ b ∈ (parentPath path).drop start, b ≠ 0) ∧
      (parentPath path).drop start = path.drop start ++ [slash] := by
  have hdrop : (path ++ [slash]).drop start = path.drop start ++ [slash] :=
    List.drop_append_of_le_length h.deep
  rw [h.parent, hdrop]
  refine ⟨?_,?_,rfl⟩
  · rw [List.length_append]
    exact h.deep.trans (Nat.le_add_right _ _)
  · intro b hb
    rw [List.mem_append, List.mem_singleton] at hb
    rcases hb with hb | rfl
    · exact h.text b hb
    · decide

/-- The paths of entries are inner paths. -/
theorem inner_entryPath {start : ℕ} {path path' : Path} {name : FsName} (hdeep : start ≤ (parentPath path).length)
    (htext : ∀ b ∈ (parentPath path).drop start, b ≠ 0) (h : entryPath path name.val = .ok path') :
    Inner start path' ∧ path'.drop start = (parentPath path).drop start ++ name.val := by
  have hpath := childPath_of_entryPath h
  have hvalid : validComponent name.val = true := by
    unfold entryPath at h
    by_cases hinvalid : validComponent name.val = false
    · rw [if_pos hinvalid] at h
      cases h
    · simpa using hinvalid
  have hbytes := validComponent_bytes hvalid
  have hdrop : path'.drop start = (parentPath path).drop start ++ name.val := by
    rw [hpath]
    exact List.drop_append_of_le_length hdeep
  have hlast : ∃ b ∈ name.val, path'.getLast? = some b := by
    rw [hpath]
    refine ⟨name.val.getLast name.property,List.getLast_mem _,?_⟩
    unfold childPath
    rw [List.getLast?_append_of_ne_nil _ name.property, List.getLast?_eq_getLast_of_ne_nil name.property]
  obtain ⟨b,hb,hend⟩ := hlast
  refine ⟨⟨?_,?_,?_⟩,hdrop⟩
  · rw [hpath, childPath, List.length_append]
    exact hdeep.trans (Nat.le_add_right _ _)
  · rw [hdrop]
    intro b' hb'
    rw [List.mem_append] at hb'
    exact hb'.elim (htext b') fun hb' => (hbytes b' hb').1
  · refine if_neg ?_
    rintro (hnil | hslash)
    · rw [hnil] at hend
      cases hend
    · rw [hend] at hslash
      exact (hbytes b hb).2 (Option.some.inj hslash)

mutual

/-- A walk that is not broken off comes by all entries of the tree. -/
theorem lists_walkNode (start : ℕ) : (node : FsNode) → ∀ {path : Path} {room : ℕ}, Inner start path →
    (walkNode true path node room).failure = none →
    Lists start (walkNode true path node room) (nodeEntries (path.drop start) node)
  | .file stamp attributes content fits, path, room, hinner, _ => by
    refine ⟨rfl,fun entry hentry => ?_⟩
    rw [walkNode, List.mem_singleton] at hentry
    subst hentry
    exact ⟨hinner.text,.inl rfl⟩
  | .other info special, path, room, hinner, hwhole => by
    cases hwhole
  | .dir size stamp attributes entries, path, room, hinner, hwhole => by
    cases room with
    | zero => cases hwhole
    | succ room =>
      obtain ⟨hdeep,htext,hfront⟩ := hinner.front
      have hlists := lists_walkEntries start entries hdeep htext hwhole
      rw [hfront] at hlists
      refine ⟨congrArg _ hlists.1,fun entry hentry => ?_⟩
      rw [walkNode, Feed.after_items, List.singleton_append, List.mem_cons] at hentry
      rcases hentry with rfl | hentry
      · exact ⟨hinner.text,.inr rfl⟩
      · exact hlists.2 entry hentry

theorem lists_walkEntry (start : ℕ) : (entry : FsName × FsNode) → ∀ {path : Path} {room : ℕ},
    start ≤ (parentPath path).length → (∀ b ∈ (parentPath path).drop start, b ≠ 0) →
    (walkEntry true path entry room).failure = none →
    Lists start (walkEntry true path entry room) (pairEntries ((parentPath path).drop start) entry)
  | (name,node), path, room, hdeep, htext, hwhole => by
    unfold walkEntry at hwhole ⊢
    cases hreach : entryPath path name.val with
    | error e =>
      rw [hreach] at hwhole
      cases hwhole
    | ok path' =>
      rw [hreach] at hwhole
      obtain ⟨hinner,hdrop⟩ := inner_entryPath hdeep htext hreach
      have hlists := lists_walkNode start node hinner hwhole
      rw [hdrop] at hlists
      exact hlists

theorem lists_walkEntries (start : ℕ) : (entries : List (FsName × FsNode)) → ∀ {path : Path} {room : ℕ},
    start ≤ (parentPath path).length → (∀ b ∈ (parentPath path).drop start, b ≠ 0) →
    (walkEntries true path entries room).failure = none →
    Lists start (walkEntries true path entries room) (listEntries ((parentPath path).drop start) entries)
  | [], path, room, _, _, _ => ⟨rfl,fun entry hentry => absurd hentry (List.not_mem_nil)⟩
  | entry :: entries, path, room, hdeep, htext, hwhole => by
    unfold walkEntries at hwhole ⊢
    obtain ⟨hfirst,hsecond,hitems⟩ := Feed.append_whole hwhole
    have hhead := lists_walkEntry start entry hdeep htext hfirst
    have htail := lists_walkEntries start entries hdeep htext hsecond
    refine ⟨?_,fun e he => ?_⟩
    · rw [hitems, List.map_append, hhead.1, htail.1]
      rfl
    · rw [hitems, List.mem_append] at he
      exact he.elim (hhead.2 e) (htail.2 e)

end

/-! ## The archive -/

theorem relativeStart_eq (path : Path) : relativeStart path = (parentPath path).length := by
  unfold relativeStart parentPath
  by_cases hseparated : path = [] ∨ path.getLast? = some slash
  · have hnot : ¬(path ≠ [] ∧ path.getLast? ≠ some slash) := fun h => hseparated.elim h.1 h.2
    rw [if_pos hseparated, if_neg hnot, Nat.add_zero]
  · have hjoined : path ≠ [] ∧ path.getLast? ≠ some slash := ⟨fun h => hseparated (.inl h),fun h => hseparated (.inr h)⟩
    rw [if_neg hseparated, if_pos hjoined, List.length_append]
    rfl

/-- What is written for an entry is read back. -/
theorem readAs_entry {start : ℕ} {entry : FsEntry} {bytes rest : List UInt8} {archived : List Ustar.Entry}
    (hrest : ReadAs rest archived) (hbytes : entryBytes kindTar start entry = .ok bytes)
    (htext : ∀ b ∈ entry.path.drop start, b ≠ 0)
    (hplain : entry.node.info.type = entryFile ∨ entry.node.info.type = entryDir) :
    ReadAs (bytes ++ rest) (entry.archived start :: archived) := by
  have htar : ¬kindTar = kindTree := by decide
  unfold entryBytes at hbytes
  dsimp only at hbytes
  rw [if_neg htar, tarEntry_eq] at hbytes
  cases hheaders : archiveHeaders (archiveName (entry.path.drop start) entry.node.info) (archiveType entry.node.info)
      (archiveSize entry.node.info) with
  | none =>
    rw [hheaders] at hbytes
    cases hbytes
  | some headers =>
    rw [hheaders] at hbytes
    cases hbytes
    unfold archiveName archiveType archiveSize at hheaders
    unfold FsEntry.archived
    rcases hplain with hfile | hdir
    · have hnot : ¬entry.node.info.type = entryDir := by rw [hfile]; decide
      rw [if_neg hnot, if_neg hnot, if_pos hfile, size_content hfile, List.append_nil] at hheaders
      have hsize : entry.node.content.length < 10^20 := by
        have hlt := entry.node.info.size.toNat_lt
        rw [size_content hfile] at hlt
        omega
      rw [if_neg hnot]
      exact hrest.file hheaders htext hsize
    · have hnot : ¬entry.node.info.type = entryFile := by rw [hdir]; decide
      rw [if_pos hdir, if_pos hdir, if_neg hnot] at hheaders
      have hempty : entry.node.content ++ zeros ((512 - entry.node.content.length % 512) % 512) = [] := by
        rw [content_dir hdir]
        rfl
      rw [if_pos hdir, hempty, List.append_nil]
      exact hrest.directory hheaders htext

/-- So is all of the archive. -/
theorem readAs_writeOut {start : ℕ} {items : List FsEntry} {failure : Option FsError}
    (hwhole : (writeOut (entryBytes kindTar start) (zeros 1024) items failure).failure = none)
    (hitems : ∀ entry ∈ items, (∀ b ∈ entry.path.drop start, b ≠ 0) ∧
      (entry.node.info.type = entryFile ∨ entry.node.info.type = entryDir)) :
    ReadAs (writeOut (entryBytes kindTar start) (zeros 1024) items failure).items
      (items.map (FsEntry.archived start)) := by
  induction items with
  | nil =>
    cases failure with
    | none => exact readAs_trailer
    | some e => cases hwhole
  | cons entry items ih =>
    unfold writeOut at hwhole ⊢
    cases hbytes : entryBytes kindTar start entry with
    | error e =>
      rw [hbytes] at hwhole
      cases hwhole
    | ok bytes =>
      rw [hbytes] at hwhole
      have hrest := ih hwhole fun e he => hitems e (List.mem_cons_of_mem _ he)
      obtain ⟨htext,hplain⟩ := hitems entry List.mem_cons_self
      exact readAs_entry hrest hbytes htext hplain

/-- The stream of a tree is the archive of its entries. -/
theorem readAs_fsStream {root : Path} {tree : FsNode} {flags : UInt8}
    (hwhole : (fsStream root tree kindTar flags).failure = none) :
    ReadAs (fsStream root tree kindTar flags).items (listEntries [] tree.entries) := by
  have hkind : ¬kindTar = kindFile := by decide
  have hdeep : walksDeep kindTar flags = true := rfl
  unfold fsStream at hwhole ⊢
  rw [if_neg hkind] at hwhole ⊢
  have hwalk : (fsEntries root tree kindTar flags).failure = none := writeOut_whole hwhole
  have hempty : (parentPath root).drop (relativeStart root) = [] := by
    rw [relativeStart_eq, List.drop_length]
  have hlists : Lists (relativeStart root) (fsEntries root tree kindTar flags)
      (listEntries ((parentPath root).drop (relativeStart root)) tree.entries) := by
    refine lists_walkEntries (relativeStart root) tree.entries (relativeStart_eq root).le ?_ hwalk
    rw [hempty]
    exact fun b hb => absurd hb (List.not_mem_nil)
  rw [hempty] at hlists
  rw [← hlists.1]
  exact readAs_writeOut hwhole hlists.2

/-- What is read of a tree as an archive, to the last block, is accepted by a reader of
archives, and the entries in it are those of the tree. -/
theorem fs_archive_lossless {β H : Type} [DecidableEq H] {P : FsBackend β H} {root : Path} {tree : FsNode}
    {holds : β → FsOpened H → Prop} (serves : Serves P root tree holds) {s : FsOpened H} {w w' : FsWorld β H}
    {slot : ℕ} {flags : UInt8} {r : FsReader H} (hheld : holds w.env s)
    (hopened : readerOpen P w slot root kindTar flags = (.ok r,w')) {capacities : List ℕ}
    (hpos : ∀ capacity ∈ capacities, 0 < capacity)
    (hend : ∃ block, (readerReads P capacities (r,w')).getLast? = some (.ok (block,true))) :
    Ustar.read (received (readerReads P capacities (r,w'))) = some (listEntries [] tree.entries) := by
  have hdelivered := fs_reader_stream serves hheld hopened capacities hpos
  have hwhole : (fsStream root tree kindTar flags).failure = none := by
    obtain ⟨block,hblock⟩ := hend
    rw [List.getLast?_eq_getElem?] at hblock
    obtain ⟨capacity,_,_,_,hlast⟩ := hdelivered.block _ block true hblock
    exact (hlast.mp rfl).1
  rw [hdelivered.whole hend]
  exact readAs_fsStream hwhole _ (Nat.lt_succ_self _)

/-- An archive of a file and a directory, read in blocks of 1000 bytes from files that come byte by
byte. -/
theorem fs_archive_lossless_sample :
    ∃ r w, readerOpen (memoryBackend sampleTable 0) sampleWorld 0 sampleRoot kindTar 0 = (.ok r,w) ∧
      Ustar.read (received (readerReads (memoryBackend sampleTable 0) [1000,1000,1000,1000] (r,w))) =
        some [⟨[97],.file,3,[10,20,30]⟩,⟨[98],.directory,0,[]⟩] := by
  have hopened : readerOpen (memoryBackend sampleTable 0) sampleWorld 0 sampleRoot kindTar 0 = (.ok _,_) := rfl
  have hserves := serves_memoryBackend sampleTable 0 fun _ _ h => sampleTable_at h
  have hheld : MemoryFs.Holds sampleWorld.env ⟨fun _ => none,fun _ => none⟩ := ⟨rfl,fun _ _ => rfl⟩
  have hdelivered := fs_reader_stream hserves hheld hopened [1000,1000,1000,1000] (by decide)
  have hend := hdelivered.ends (by decide +kernel) (by decide +kernel)
  exact ⟨_,_,hopened,fs_archive_lossless hserves hheld hopened (by decide) hend⟩

end Bvstk.Fs
