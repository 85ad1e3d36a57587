import Bvstk.Dcp2.CacheSystem

/-! # A client of the cache protocol

The client puts the pages of its snapshots together and then applies the events.
It is as strict as it can be: anything the protocol does not promise stops it.
-/
namespace Bvstk.Dcp2
open Wire Cache

/-- A snapshot that is still being paged in. -/
structure Download where
  bus : Name
  name : Name
  token : ℕ
  generation : ℕ
  revision : ℕ
  presence : UInt8
  slots : List (Option CacheEntry)

/-- What the client holds of one subscription. -/
inductive ClientSub where
  | idle
  | loading (d : Download)
  | live (bus name : Name) (copy : CacheCopy)
  | ended

/-- All the entries, once there are no gaps. -/
def allSome {α : Type} : List (Option α) → Option (List α)
  | [] => some []
  | none :: _ => none
  | some a :: rest => (allSome rest).map (a :: ·)

/-- The slots with the entries of a page that starts at `first`. -/
def fillSlots (first : ℕ) (entries : List CacheEntry) (slots : List (Option CacheEntry)) :
    List (Option CacheEntry) :=
  slots.mapIdx fun j old => if first ≤ j then entries[j - first]?.or old else old

def Download.fill (d : Download) (pg : CachePage) : Download :=
  { d with slots := fillSlots pg.first pg.entries d.slots }

/-- Goes live as soon as the last gap is closed. -/
def Download.finish (d : Download) : ClientSub :=
  match allSome d.slots with
  | some entries => .live d.bus d.name ⟨d.generation,d.revision,d.presence,entries⟩
  | none => .loading d

/-- Starts over from the first page of a SUBSCRIBE. -/
def ClientSub.restart (bus name : Name) (pg : CachePage) : ClientSub :=
  Download.finish (Download.fill
    ⟨bus,name,pg.token,pg.generation,pg.revision,pg.presence,List.replicate pg.total none⟩ pg)

/-- A further page. Once live, the frozen entries are old news. -/
def ClientSub.page (pg : CachePage) : ClientSub → Option ClientSub
  | .idle => none
  | .loading d =>
    if pg.token = d.token ∧ pg.generation = d.generation ∧ pg.revision = d.revision ∧
        pg.presence = d.presence ∧ pg.total = d.slots.length then
      some (d.fill pg).finish
    else none
  | .live bus name copy => some (.live bus name copy)
  | .ended => some .ended

/-- The changes an event carries: one entry for a CHANGE, none for a PRESENCE. -/
def applyEvent (s : CacheCopy) (ev : CacheEvent) : CacheCopy :=
  ⟨s.generation,ev.revision,ev.presence,ev.entries.foldl replaceEntry s.entries⟩

/-- An event is only taken for a live copy, and only if it is the very next one. -/
def ClientSub.event (ev : CacheEvent) : ClientSub → Option ClientSub
  | .idle => none
  | .ended => none
  | .loading _ => if ev.kind = recordResync then some .ended else none
  | .live bus name copy =>
    if ev.kind = recordResync then some .ended
    else if (ev.kind = kindChange ∧ ev.entries.length = 1 ∨ ev.kind = kindPresence ∧ ev.entries = []) ∧
        ev.generation = copy.generation ∧ ev.revision = copy.revision + 1 then
      some (.live bus name (applyEvent copy ev))
    else none

abbrev Client := ℕ → ClientSub

/-- The names a SUBSCRIBE asks for. -/
def requestNames (body : Bytes) : Option (Name × Name) := do
  let (bus,rest) ← readName (body.drop 1)
  let (name,_) ← readName rest
  pure (bus,name)

/-- The client after an exchange, if the exchange was as promised. -/
def Client.receive (c : Client) : CacheOp → CacheAnswer → Option Client
  | .registry _, .registry _ => some c
  | .request opcode body _ _, .reply status bytes =>
    if status ≠ statusOk then some c
    else if opcode = opCacheUnsubscribe then some (Function.update c (readBE (body.drop 1)) .idle)
    else do
      let pg ← decodePage bytes
      if opcode = opCacheSubscribe then
        let (bus,name) ← requestNames body
        if pg.sub = 0 ∨ pg.first ≠ 0 then none
        else some (Function.update c pg.sub (.restart bus name pg))
      else if pg.sub = 0 then some c
      else
        let sub ← (c pg.sub).page pg
        some (Function.update c pg.sub sub)
  | .event _ _, .event bytes =>
    if bytes = [] then some c
    else do
      let ev ← decodeEvent bytes
      let sub ← (c ev.sub).event ev
      some (Function.update c ev.sub sub)
  | _, _ => none

/-! ## Filling slots -/

section
variable {α : Type}

theorem allSome_map_some (entries : List α) : allSome (entries.map some) = some entries := by
  induction entries with
  | nil => rfl
  | cons e entries ih => simp [allSome, ih]

theorem eq_map_of_allSome {slots : List (Option α)} {entries : List α} (h : allSome slots = some entries) :
    slots = entries.map some := by
  induction slots generalizing entries with
  | nil =>
    simp only [allSome, Option.some.injEq] at h
    subst h
    rfl
  | cons a slots ih =>
    cases a with
    | none => simp [allSome] at h
    | some a =>
      simp only [allSome, Option.map_eq_some_iff] at h
      obtain ⟨rest,hrest,rfl⟩ := h
      rw [ih hrest, List.map_cons]

/-- The slots hold entries of the list, in place, and no others. -/
structure Partial (entries : List α) (slots : List (Option α)) : Prop where
  size : slots.length = entries.length
  agrees : ∀ (j : ℕ) (e : α), slots[j]? = some (some e) → entries[j]? = some e

theorem Partial.eq_of_allSome {entries got : List α} {slots : List (Option α)} (h : Partial entries slots)
    (hall : allSome slots = some got) : got = entries := by
  obtain rfl := eq_map_of_allSome hall
  apply List.ext_getElem?
  intro j
  cases hj : got[j]? with
  | none =>
    have hlen := List.getElem?_eq_none_iff.mp hj
    have heq := h.size
    rw [List.length_map] at heq
    exact (List.getElem?_eq_none_iff.mpr (heq ▸ hlen)).symm
  | some e => exact (h.agrees j e (by rw [List.getElem?_map, hj]; rfl)).symm

end

/-- The entries before `reached` have all been filled in. -/
def Filled {α : Type} (slots : List (Option α)) (reached : ℕ) : Prop :=
  ∀ j < reached, ∃ e, slots[j]? = some (some e)

theorem Partial.allSome_of_filled {α : Type} {entries : List α} {slots : List (Option α)}
    (h : Partial entries slots) (hfilled : Filled slots entries.length) : allSome slots = some entries := by
  have heq : slots = entries.map some := by
    apply List.ext_getElem?
    intro j
    rw [List.getElem?_map]
    by_cases hj : j < entries.length
    · obtain ⟨e,he⟩ := hfilled j hj
      rw [he, h.agrees j e he]
      rfl
    · rw [List.getElem?_eq_none_iff.mpr (not_lt.mp hj),
        List.getElem?_eq_none_iff.mpr (h.size ▸ not_lt.mp hj)]
      rfl
  rw [heq, allSome_map_some]

theorem fillSlots_getElem? (first : ℕ) (got : List CacheEntry) (slots : List (Option CacheEntry)) (j : ℕ) :
    (fillSlots first got slots)[j]? =
      slots[j]?.map fun old => if first ≤ j then got[j - first]?.or old else old := by
  simp [fillSlots, List.getElem?_mapIdx]

/-- A slice of the frozen entries is put in place. -/
theorem Partial.fill {entries : List CacheEntry} {slots : List (Option CacheEntry)} (h : Partial entries slots)
    {first : ℕ} {got : List CacheEntry} (hgot : got = (entries.drop first).take got.length) :
    Partial entries (fillSlots first got slots) := by
  refine ⟨by simp [fillSlots, h.size],?_⟩
  intro j e hj
  rw [fillSlots_getElem?] at hj
  obtain ⟨old,hold,hnew⟩ := Option.map_eq_some_iff.mp hj
  split at hnew
  · rename_i hle
    cases hg : got[j - first]? with
    | none =>
      rw [hg, Option.none_or] at hnew
      exact h.agrees j e (hold.trans (congrArg some hnew))
    | some e' =>
      rw [hg, Option.some_or] at hnew
      obtain rfl := Option.some.inj hnew
      rw [hgot, List.getElem?_take] at hg
      split at hg
      · rw [List.getElem?_drop] at hg
        rwa [show first + (j - first) = j by omega] at hg
      · contradiction
  · exact h.agrees j e (hold.trans (congrArg some hnew))

theorem Filled.fill {slots : List (Option CacheEntry)} {reached : ℕ} (h : Filled slots reached) (first : ℕ)
    (got : List CacheEntry) : Filled (fillSlots first got slots) reached := by
  intro j hj
  obtain ⟨e,he⟩ := h j hj
  rw [fillSlots_getElem?, he, Option.map_some]
  split
  · cases got[j - first]? with
    | none => exact ⟨e,rfl⟩
    | some e' => exact ⟨e',rfl⟩
  · exact ⟨e,rfl⟩

/-- A page that starts where the filled part ends extends it. -/
theorem Filled.extend {slots : List (Option CacheEntry)} {first : ℕ} (h : Filled slots first)
    {got : List CacheEntry} (hlen : first + got.length ≤ slots.length) :
    Filled (fillSlots first got slots) (first + got.length) := by
  intro j hj
  by_cases hr : j < first
  · exact h.fill first got j hr
  · have hslot : j < slots.length := by omega
    have hgot : j - first < got.length := by omega
    rw [fillSlots_getElem?, List.getElem?_eq_getElem hslot, Option.map_some, if_pos (not_lt.mp hr),
      List.getElem?_eq_getElem hgot]
    exact ⟨_,rfl⟩

end Bvstk.Dcp2
