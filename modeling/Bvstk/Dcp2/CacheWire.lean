import Bvstk.Dcp2.CacheSession
import Bvstk.Cache.RegistryInvariant

/-! # What a client reads off the wire

A page or an event decodes to the fields it was built from, and to nothing else.
-/
namespace Bvstk.Dcp2
open Wire Cache

def decodeEntry (bytes : Bytes) : Option (CacheEntry × Bytes) := do
  let (len,bytes) ← readByte bytes
  let (id,bytes) ← take? len.toNat bytes
  let (widthBits,bytes) ← readByte bytes
  let (valid,bytes) ← readByte bytes
  let (source,bytes) ← readByte bytes
  let (value,bytes) ← readNum 8 bytes
  let (updatedMs,bytes) ← readNum 8 bytes
  pure (⟨id,UInt64.ofNat value,UInt64.ofNat updatedMs,widthBits,valid,source⟩,bytes)

structure CachePage where
  sub : ℕ
  token : ℕ
  generation : ℕ
  revision : ℕ
  capturedMs : ℕ
  total : ℕ
  first : ℕ
  next : ℕ
  presence : UInt8
  entries : List CacheEntry
  deriving DecidableEq, Repr

def decodePage (bytes : Bytes) : Option CachePage := do
  let (version,bytes) ← readByte bytes
  let (kind,bytes) ← readByte bytes
  let (sub,bytes) ← readNum 2 bytes
  let (token,bytes) ← readNum 4 bytes
  let (generation,bytes) ← readNum 4 bytes
  let (revision,bytes) ← readNum 8 bytes
  let (capturedMs,bytes) ← readNum 8 bytes
  let (total,bytes) ← readNum 2 bytes
  let (first,bytes) ← readNum 2 bytes
  let (count,bytes) ← readNum 2 bytes
  let (next,bytes) ← readNum 2 bytes
  let (presence,bytes) ← readByte bytes
  let (entries,bytes) ← readMany decodeEntry count bytes
  if version = cacheVersion ∧ kind = recordSnapshot ∧ bytes = [] then
    pure ⟨sub,token,generation,revision,capturedMs,total,first,next,presence,entries⟩
  else none

structure CacheEvent where
  kind : UInt8
  sub : ℕ
  generation : ℕ
  revision : ℕ
  timeMs : ℕ
  presence : UInt8
  reason : UInt8
  entries : List CacheEntry
  deriving DecidableEq, Repr

def decodeEvent (bytes : Bytes) : Option CacheEvent := do
  let (version,bytes) ← readByte bytes
  let (kind,bytes) ← readByte bytes
  let (sub,bytes) ← readNum 2 bytes
  let (generation,bytes) ← readNum 4 bytes
  let (revision,bytes) ← readNum 8 bytes
  let (timeMs,bytes) ← readNum 8 bytes
  let (presence,bytes) ← readByte bytes
  let (reason,bytes) ← readByte bytes
  let (count,bytes) ← readNum 2 bytes
  let (entries,bytes) ← readMany decodeEntry count bytes
  if version = cacheVersion ∧ bytes = [] then
    pure ⟨kind,sub,generation,revision,timeMs,presence,reason,entries⟩
  else none

/-! ## Requests -/

/-- The body of a SUBSCRIBE. -/
def subscribeRequest (bus name : Name) : Bytes :=
  cacheVersion :: UInt8.ofNat bus.length :: bus ++ UInt8.ofNat name.length :: name

/-- The body of a GET; with token 0 it asks for a new snapshot. -/
def pageRequest (bus name : Name) (token first : ℕ) : Bytes :=
  subscribeRequest bus name ++ (beBytes 4 token ++ beBytes 2 first)

theorem readName_encode {s : Name} (h : nameValid s = true) (rest : Bytes) :
    readName (UInt8.ofNat s.length :: s ++ rest) = some (s,rest) := by
  obtain ⟨hpos,hlt⟩ := nameValid_length h
  have hlen : (UInt8.ofNat s.length).toNat = s.length := by
    simp only [cacheNameMax] at hlt
    simpa using hlt.trans (by decide)
  have hzero : UInt8.ofNat s.length ≠ 0 := by
    intro h0
    simp only [h0, UInt8.toNat_zero] at hlen
    omega
  have hchars : s.all nameChar = true := by
    simp only [nameValid, Bool.and_eq_true] at h
    exact h.2
  simp [readName, hlen, hzero, hchars, hlt]

/-- Only a length-prefixed name is accepted. -/
theorem eq_of_readName {bytes rest : Bytes} {s : Name} (h : readName bytes = some (s,rest)) :
    bytes = UInt8.ofNat s.length :: s ++ rest := by
  cases bytes with
  | nil => simp [readName] at h
  | cons len bytes =>
    simp only [readName] at h
    split at h
    · contradiction
    · rename_i hok
      push Not at hok
      simp only [Option.some.injEq, Prod.mk.injEq] at h
      obtain ⟨rfl,rfl⟩ := h
      have hlen : (bytes.take len.toNat).length = len.toNat := by
        rw [List.length_take]
        exact Nat.min_eq_left hok.2.2.1
      rw [hlen, UInt8.ofNat_toNat, List.cons_append, List.take_append_drop]

/-- What follows the names of an accepted GET is its token and its first entry. -/
theorem eq_of_tail {body : Bytes} (h : body.length = 6) :
    body = beBytes 4 (readBE (body.take 4)) ++ beBytes 2 (readBE (body.drop 4)) := by
  have htake := beBytes_readBE (body.take 4)
  have hdrop := beBytes_readBE (body.drop 4)
  simp only [List.length_take, List.length_drop, h] at htake hdrop
  rw [show beBytes 4 (readBE (body.take 4)) = body.take 4 from htake,
    show beBytes 2 (readBE (body.drop 4)) = body.drop 4 from hdrop, List.take_append_drop]

/-- Different tokens make different bodies. -/
theorem token_of_pageRequest {bus bus' name name' : Name} {token token' first first' : ℕ}
    (h : pageRequest bus name token first = pageRequest bus' name' token' first')
    (ht : token < 2^32) (ht' : token' < 2^32) : token = token' := by
  have htail := (List.append_inj_right' h (by simp)).trans rfl
  have htoken := List.append_inj_left htail (by simp)
  have hread := congrArg readBE htoken
  rwa [readBE_beBytes (ht.trans_le (by decide)), readBE_beBytes (ht'.trans_le (by decide))] at hread

theorem first_of_pageRequest {bus bus' name name' : Name} {token token' first first' : ℕ}
    (h : pageRequest bus name token first = pageRequest bus' name' token' first')
    (hf : first < 2^16) (hf' : first' < 2^16) : first = first' := by
  have htail := (List.append_inj_right' h (by simp)).trans rfl
  have hread := congrArg readBE (List.append_inj_right htail (by simp))
  rwa [readBE_beBytes (hf.trans_le (by decide)), readBE_beBytes (hf'.trans_le (by decide))] at hread

/-! ## Round trips -/

theorem decodeEntry_entryBytes {e : CacheEntry} (h : e.id.length < 256) (rest : Bytes) :
    decodeEntry (entryBytes e ++ rest) = some (e,rest) := by
  have hlen : (UInt8.ofNat e.id.length).toNat = e.id.length := by
    simpa using h
  simp only [entryBytes, List.cons_append, List.append_assoc, List.nil_append]
  refine read_step (readByte_cons _ _) ?_
  refine read_step (take?_append_of_length hlen.symm _) ?_
  refine read_step (readByte_cons _ _) ?_
  refine read_step (readByte_cons _ _) ?_
  refine read_step (readByte_cons _ _) ?_
  refine read_step (readNum_beBytes e.value.toNat_lt _) ?_
  refine read_step (readNum_beBytes e.updatedMs.toNat_lt _) ?_
  simp only [UInt64.ofNat_toNat, Option.pure_def]

theorem readMany_decodeEntry {entries : List CacheEntry} (h : ∀ e ∈ entries, e.id.length < 256)
    (rest : Bytes) :
    readMany decodeEntry entries.length (entries.flatMap entryBytes ++ rest) = some (entries,rest) :=
  readMany_flatMap entries (fun e he rest => decodeEntry_entryBytes (h e he) rest) rest

/-- The fields of the page that `pageBytes` lays out. -/
def pageOf (s : CacheSession) (first : ℕ) (taken : List CacheEntry) : CachePage :=
  ⟨s.snapshotSub,s.snapshotId,s.snapshot.generation,s.snapshot.revision,s.snapshot.capturedMs.toNat,
    s.snapshot.count,first,pageNext s.snapshot (first + taken.length),s.snapshot.presence,taken⟩

/-- The numbers of a session fit the fields they are sent in. -/
structure CacheSession.Encodable (s : CacheSession) : Prop where
  sub : s.snapshotSub < 256^2
  token : s.snapshotId < 256^4
  generation : s.snapshot.generation < 256^4
  revision : s.snapshot.revision < 256^8
  count : s.snapshot.count ≤ cacheResourcesMax
  entries : ∀ e ∈ s.snapshot.entries, e.id.length < 256

theorem decodePage_pageBytes {s : CacheSession} (hs : s.Encodable) {first : ℕ} {taken : List CacheEntry}
    (hmem : ∀ e ∈ taken, e ∈ s.snapshot.entries) (hfit : first + taken.length ≤ s.snapshot.count) :
    decodePage (pageBytes s first taken) = some (pageOf s first taken) := by
  have hcount : s.snapshot.count ≤ 256 := hs.count
  have htotal : s.snapshot.count < 256^2 := by omega
  have hfirst : first < 256^2 := by omega
  have htaken : taken.length < 256^2 := by omega
  have hnext : pageNext s.snapshot (first + taken.length) < 256^2 := by
    unfold pageNext
    split <;> omega
  have hentries := readMany_decodeEntry (fun e he => hs.entries e (hmem e he)) []
  simp only [List.append_nil] at hentries
  simp only [pageBytes, List.cons_append, List.append_assoc, List.nil_append]
  refine read_step (readByte_cons _ _) ?_
  refine read_step (readByte_cons _ _) ?_
  refine read_step (readNum_beBytes hs.sub _) ?_
  refine read_step (readNum_beBytes hs.token _) ?_
  refine read_step (readNum_beBytes hs.generation _) ?_
  refine read_step (readNum_beBytes hs.revision _) ?_
  refine read_step (readNum_beBytes s.snapshot.capturedMs.toNat_lt _) ?_
  refine read_step (readNum_beBytes htotal _) ?_
  refine read_step (readNum_beBytes hfirst _) ?_
  refine read_step (readNum_beBytes htaken _) ?_
  refine read_step (readNum_beBytes hnext _) ?_
  refine read_step (readByte_cons _ _) ?_
  refine read_step hentries ?_
  simp only [and_self, ↓reduceIte, Option.pure_def, pageOf]

theorem decodeEvent_resyncBytes {sub : CacheSubscription} (hid : sub.id < 256^2)
    (hgeneration : sub.generation < 256^4) (hrevision : sub.revision < 256^8) (reason : ℕ) (now : UInt64) :
    decodeEvent (resyncBytes sub reason now) =
      some ⟨recordResync,sub.id,sub.generation,sub.revision,now.toNat,0,UInt8.ofNat reason,[]⟩ := by
  simp only [resyncBytes, List.cons_append, List.append_assoc, List.nil_append]
  refine read_step (readByte_cons _ _) ?_
  refine read_step (readByte_cons _ _) ?_
  refine read_step (readNum_beBytes hid _) ?_
  refine read_step (readNum_beBytes hgeneration _) ?_
  refine read_step (readNum_beBytes hrevision _) ?_
  refine read_step (readNum_beBytes now.toNat_lt _) ?_
  refine read_step (readByte_cons _ _) ?_
  refine read_step (readByte_cons _ _) ?_
  refine read_step (readNum_beBytes (show 0 < 256^2 by decide) []) ?_
  refine read_step rfl ?_
  simp only [and_self, ↓reduceIte, Option.pure_def]

theorem decodeEvent_changeBytes {sub : CacheSubscription} {c : CacheChange} (hid : sub.id < 256^2)
    (hgeneration : sub.generation < 256^4) (hrevision : c.revision < 256^8)
    (hentry : c.kind = kindChange → c.entry.id.length < 256) :
    decodeEvent (changeBytes sub c) =
      some ⟨c.kind,sub.id,sub.generation,c.revision,c.timeMs.toNat,c.presence,0,
        if c.kind = kindChange then [c.entry] else []⟩ := by
  simp only [changeBytes, List.cons_append, List.append_assoc, List.nil_append]
  refine read_step (readByte_cons _ _) ?_
  refine read_step (readByte_cons _ _) ?_
  refine read_step (readNum_beBytes hid _) ?_
  refine read_step (readNum_beBytes hgeneration _) ?_
  refine read_step (readNum_beBytes hrevision _) ?_
  refine read_step (readNum_beBytes c.timeMs.toNat_lt _) ?_
  refine read_step (readByte_cons _ _) ?_
  refine read_step (readByte_cons _ _) ?_
  by_cases hkind : c.kind = kindChange
  · have hone := @readMany_decodeEntry [c.entry]
      (fun e he => List.mem_singleton.mp he ▸ hentry hkind) []
    simp only [List.flatMap_cons, List.flatMap_nil, List.append_nil, List.length_singleton] at hone
    simp only [if_pos hkind]
    refine read_step (readNum_beBytes (show 1 < 256^2 by decide) _) ?_
    refine read_step hone ?_
    simp only [and_self, ↓reduceIte, Option.pure_def]
  · simp only [if_neg hkind]
    refine read_step (readNum_beBytes (show 0 < 256^2 by decide) []) ?_
    refine read_step rfl ?_
    simp only [and_self, ↓reduceIte, Option.pure_def]

end Bvstk.Dcp2
