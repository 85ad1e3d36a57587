import Bvstk.Dcp2.ControlMemory
import Mathlib.Algebra.Order.Group.Nat

/-! # Memory accesses stay within the regions

Both servers check each element before they touch the memory. What reaches the hardware is
then in one of the regions and aligned, and comes in the order of the elements.
-/
namespace Bvstk.Dcp2
open CallLog

/-- The access lies in one of the ranges, at a multiple of its width. -/
def InRange (ranges : List MmioRange) (c : MemCall) : Prop :=
  (∃ r ∈ ranges, r.base.toNat ≤ c.address.toNat ∧ c.address.toNat + c.bytes ≤ r.base.toNat + r.size.toNat) ∧
    c.address.toNat % c.bytes = 0

/-- What was called since. -/
def AddsCalls {σ ε : Type} (w w' : World σ ε MemCall) (new : List MemCall) : Prop := w'.calls.map (·.2) = w.calls.map (·.2) ++ new

/-- The new calls are those of the first `k` elements: of all of them where the answer is
positive, else up to one that is refused; of none if the request itself is not accepted. Each
is in range. -/
structure Orderly {σ ε : Type} (ranges : List MmioRange) (accepted : Prop) (count : ℕ) (made : ℕ → List MemCall)
    (refused : ℕ → Prop) (w w' : World σ ε MemCall) (status : Status) : Prop where
  order : ∃ k ≤ count, AddsCalls w w' ((List.range k).flatMap made) ∧ (status = .ok → k = count) ∧
    (k < count → refused k ∨ k = 0 ∧ ¬accepted)
  inside : ∀ new, AddsCalls w w' new → ∀ c ∈ new, InRange ranges c

section
variable {σ ε : Type} {ranges : List MmioRange} {accepted : Prop} {count : ℕ} {made : ℕ → List MemCall}
  {refused : ℕ → Prop} {w w' : World σ ε MemCall}

theorem orderly_of_first {status : Status} {k : ℕ} (hk : k ≤ count) (hadds : AddsCalls w w' ((List.range k).flatMap made))
    (hwhole : status = .ok → k = count) (hnext : k < count → refused k ∨ k = 0 ∧ ¬accepted)
    (hin : ∀ i < k, ∀ c ∈ made i, InRange ranges c) : Orderly ranges accepted count made refused w w' status := by
  refine ⟨⟨k,hk,hadds,hwhole,hnext⟩,fun new hnew c hc => ?_⟩
  have hsame : new = (List.range k).flatMap made := List.append_cancel_left (hnew.symm.trans hadds)
  rw [hsame, List.mem_flatMap] at hc
  obtain ⟨i,hi,hc⟩ := hc
  exact hin i (List.mem_range.mp hi) c hc

/-- A request that is refused at once. -/
theorem orderly_refused {status : Status} (hstatus : status ≠ .ok) (hnot : ¬accepted) :
    Orderly ranges accepted count made refused w w status :=
  orderly_of_first (Nat.zero_le _) (by simp [AddsCalls]) (fun h => absurd h hstatus) (fun _ => Or.inr ⟨rfl,hnot⟩)
    fun i hi => absurd hi (Nat.not_lt_zero i)

end

/-! ## The FreeRTOS server -/

section
variable {b : MemBuild}

/-- The accesses of an element. -/
def elementLoads (r : MemRequest) (i : ℕ) : List MemCall :=
  if r.widthBits = 64 then [.load (r.currentAddress i) 4,.load (r.currentAddress i + 4) 4]
  else [.load (r.currentAddress i) r.widthBytes.toNat]

def elementStores (rx : ℕ → UInt8) (r : MemRequest) (i : ℕ) : List MemCall :=
  let src := 8 + i * r.widthBytes.toNat
  if r.widthBits = 64 then
    [.store (r.currentAddress i) 4 (field rx src 4),.store (r.currentAddress i + 4) 4 (field rx (src + 4) 4)]
  else [.store (r.currentAddress i) r.widthBytes.toNat (field rx src r.widthBytes.toNat)]

theorem widthBits_cases {r : MemRequest} (h : memWidthValid r.widthBits = true) :
    (r.widthBits = 8 ∧ r.widthBytes = 1) ∨ (r.widthBits = 16 ∧ r.widthBytes = 2) ∨ (r.widthBits = 32 ∧ r.widthBytes = 4) ∨
      (r.widthBits = 64 ∧ r.widthBytes = 8) := by
  simp only [memWidthValid, Bool.or_eq_true, beq_iff_eq] at h
  unfold MemRequest.widthBytes
  rcases h with ((h | h) | h) | h
  all_goals
    rw [h]
    decide

/-- What the check of a span says, in numbers without bounds. -/
theorem memAccessAllowed_spec (hb : b.anyAccess = false) {address : UInt64} {size : UInt32}
    (h : memAccessAllowed b address size = true) : address.toNat < 2^32 ∧
      ∃ r ∈ b.ranges, r.base.toNat ≤ address.toNat ∧ address.toNat + size.toNat ≤ r.base.toNat + r.size.toNat := by
  unfold memAccessAllowed at h
  dsimp only at h
  rw [hb] at h
  split at h
  · cases h
  rename_i hspan
  rw [not_or, not_or, not_or, UInt64.not_lt, UInt64.not_lt, UInt64.not_lt] at hspan
  obtain ⟨-,-,haddress,-⟩ := hspan
  have hlt : address.toNat < 2^32 := by
    have hle := UInt64.le_iff_toNat_le.mp haddress
    change address.toNat ≤ 4294967295 at hle
    omega
  have hsize := size.toNat_lt
  have hstop : (address + size.toUInt64).toNat = address.toNat + size.toNat := by
    rw [UInt64.toNat_add, UInt32.toNat_toUInt64]
    omega
  rw [if_neg (by decide), List.any_eq_true] at h
  obtain ⟨r,hr,hin⟩ := h
  rw [Bool.and_eq_true, decide_eq_true_iff, decide_eq_true_iff, UInt64.le_iff_toNat_le, UInt64.le_iff_toNat_le, hstop,
    UInt64.toNat_add, UInt32.toNat_toUInt64, UInt32.toNat_toUInt64] at hin
  have hbase := r.base.toNat_lt
  have hlen := r.size.toNat_lt
  exact ⟨hlt,r,hr,hin.1,by omega⟩

theorem allowed_spec (hb : b.anyAccess = false) {r : MemRequest} {i : ℕ} (h : r.allowed b i = true) :
    (∃ m ∈ b.ranges, m.base.toNat ≤ (r.currentAddress i).toNat ∧
      (r.currentAddress i).toNat + r.widthBytes.toNat ≤ m.base.toNat + m.size.toNat) ∧
      (r.currentAddress i).toNat &&& (r.widthBytes - 1).toNat = 0 := by
  rw [MemRequest.allowed, Bool.and_eq_true, beq_iff_eq] at h
  obtain ⟨hlt,m,hm,hlow,hhigh⟩ := memAccessAllowed_spec hb h.1
  have haddress : (r.currentAddress i).toNat = (r.current i).toNat := by
    rw [MemRequest.currentAddress, UInt64.toNat_toUInt32]
    exact Nat.mod_eq_of_lt hlt
  have hmask := congrArg UInt64.toNat h.2
  rw [UInt64.toNat_and, UInt32.toNat_toUInt64, ← haddress] at hmask
  rw [← haddress] at hlow hhigh
  exact ⟨⟨m,hm,hlow,hhigh⟩,hmask⟩

/-- The accesses of an element that is allowed are in range, whether it is read or written. -/
theorem allowed_inRange (hb : b.anyAccess = false) {r : MemRequest} (hwidth : memWidthValid r.widthBits = true) {i : ℕ}
    (h : r.allowed b i = true) {c : MemCall}
    (hc : if r.widthBits = 64 then c.bytes = 4 ∧ (c.address = r.currentAddress i ∨ c.address = r.currentAddress i + 4)
      else c.address = r.currentAddress i ∧ c.bytes = r.widthBytes.toNat) : InRange b.ranges c := by
  obtain ⟨⟨m,hm,hlow,hhigh⟩,halign⟩ := allowed_spec hb h
  have hbase := m.base.toNat_lt
  rcases widthBits_cases hwidth with ⟨hbits,hbytes⟩ | ⟨hbits,hbytes⟩ | ⟨hbits,hbytes⟩ | ⟨hbits,hbytes⟩
  · rw [hbits, if_neg (by decide)] at hc
    rw [hbytes] at hc hhigh
    unfold InRange
    rw [hc.1, hc.2]
    exact ⟨⟨m,hm,hlow,hhigh⟩,Nat.mod_one _⟩
  · rw [hbits, if_neg (by decide)] at hc
    rw [hbytes] at hc hhigh halign
    unfold InRange
    rw [hc.1, hc.2]
    exact ⟨⟨m,hm,hlow,hhigh⟩,(Nat.and_two_pow_sub_one_eq_mod _ 1).symm.trans halign⟩
  · rw [hbits, if_neg (by decide)] at hc
    rw [hbytes] at hc hhigh halign
    unfold InRange
    rw [hc.1, hc.2]
    exact ⟨⟨m,hm,hlow,hhigh⟩,(Nat.and_two_pow_sub_one_eq_mod _ 2).symm.trans halign⟩
  · rw [hbits, if_pos rfl] at hc
    rw [hbytes] at hhigh halign
    have height : (r.currentAddress i).toNat % 8 = 0 := (Nat.and_two_pow_sub_one_eq_mod _ 3).symm.trans halign
    have hlt := (r.currentAddress i).toNat_lt
    change _ + 8 ≤ _ at hhigh
    have hnext : (r.currentAddress i + 4).toNat = (r.currentAddress i).toNat + 4 := by
      rw [UInt32.toNat_add]
      change ((r.currentAddress i).toNat + 4) % 2^32 = _
      omega
    unfold InRange
    obtain ⟨hfour,haddress | haddress⟩ := hc
    · rw [hfour, haddress]
      exact ⟨⟨m,hm,hlow,by omega⟩,by omega⟩
    · rw [hfour, haddress, hnext]
      exact ⟨⟨m,hm,by omega,by omega⟩,by omega⟩

end

section
variable {ε : Type} {b : MemBuild} {H : MemBus ε} {rx : ℕ → UInt8} {bodyLen : UInt16} {w : MemWorld ε}

theorem readElement_calls (r : MemRequest) (i : ℕ) (x : List UInt8 × MemWorld ε) :
    (readElement H r i x).2.calls.map (·.2) = x.2.calls.map (·.2) ++ elementLoads r i := by
  unfold readElement elementLoads
  split
  · simp [memIn, World.call]
  · simp [memIn, World.call]

theorem writeElement_stores (r : MemRequest) (i : ℕ) (w : MemWorld ε) :
    (writeElement H rx r i w).calls.map (·.2) = w.calls.map (·.2) ++ elementStores rx r i := by
  unfold writeElement elementStores
  dsimp only
  split
  · simp [memOut, World.call]
  · simp [memOut, World.call]

/-- A loop over the elements of a request. -/
theorem sweep_orderly {ω : Type} (accepted : Prop) (hb : b.anyAccess = false) {r : MemRequest} (hwidth : memWidthValid r.widthBits = true)
    (act : ℕ → ω → ω) (world : ω → MemWorld ε) {made : ℕ → List MemCall}
    (hact : ∀ i x, (world (act i x)).calls.map (·.2) = (world x).calls.map (·.2) ++ made i)
    (hmade : ∀ i, ∀ c ∈ made i,
      if r.widthBits = 64 then c.bytes = 4 ∧ (c.address = r.currentAddress i ∨ c.address = r.currentAddress i + 4)
      else c.address = r.currentAddress i ∧ c.bytes = r.widthBytes.toNat) (x : ω) :
    Orderly b.ranges accepted r.count.toNat made (fun i => r.allowed b i = false) (world x)
      (world (Sweep.run (r.allowed b) act (List.range r.count.toNat) x).2)
      (if (Sweep.run (r.allowed b) act (List.range r.count.toNat) x).1 then .ok else .range) := by
  obtain ⟨k,hk,hfirst⟩ := Sweep.prefix_range (List.takeWhile_prefix (l := List.range r.count.toNat) (r.allowed b))
  have hcalls : _ = _ ++ ((List.range r.count.toNat).takeWhile (r.allowed b)).flatMap made :=
    Sweep.run_extends (fun x => (world x).calls.map (·.2)) hact (List.range r.count.toNat) x
  rw [hfirst] at hcalls
  have hmem : ∀ {i}, i ∈ (List.range r.count.toNat).takeWhile (r.allowed b) ↔ i < k := by
    intro i
    rw [hfirst, List.mem_range]
  refine orderly_of_first hk hcalls ?_ ?_ ?_
  · intro hok
    rw [Sweep.run_eq] at hok
    split at hok
    · rename_i hall
      have hwhole : (List.range r.count.toNat).takeWhile (r.allowed b) = List.range r.count.toNat :=
        List.takeWhile_eq_self_iff.mpr (List.all_eq_true.mp hall)
      simpa using congrArg List.length (hfirst.symm.trans hwhole)
    · cases hok
  · intro hlt
    refine Or.inl (eq_false_of_ne_true fun hok => ?_)
    refine Nat.lt_irrefl k (hmem.mp (Sweep.takeWhile_range.mpr ⟨hlt,fun j hj => ?_⟩))
    rcases Nat.lt_or_eq_of_le hj with hj | rfl
    · exact (Sweep.takeWhile_range.mp (hmem.mpr hj)).2 j le_rfl
    · exact hok
  · intro i hi c hc
    exact allowed_inRange hb hwidth ((Sweep.takeWhile_range.mp (hmem.mpr hi)).2 i le_rfl) (hmade i c hc)

theorem elementLoads_shape (r : MemRequest) (i : ℕ) : ∀ c ∈ elementLoads r i,
    if r.widthBits = 64 then c.bytes = 4 ∧ (c.address = r.currentAddress i ∨ c.address = r.currentAddress i + 4)
    else c.address = r.currentAddress i ∧ c.bytes = r.widthBytes.toNat := by
  intro c hc
  unfold elementLoads at hc
  split_ifs at hc ⊢ with hwide
  · rcases List.mem_cons.mp hc with rfl | hc
    · exact ⟨rfl,Or.inl rfl⟩
    · rw [List.mem_singleton.mp hc]
      exact ⟨rfl,Or.inr rfl⟩
  · rw [List.mem_singleton.mp hc]
    exact ⟨rfl,rfl⟩

theorem elementStores_shape (rx : ℕ → UInt8) (r : MemRequest) (i : ℕ) : ∀ c ∈ elementStores rx r i,
    if r.widthBits = 64 then c.bytes = 4 ∧ (c.address = r.currentAddress i ∨ c.address = r.currentAddress i + 4)
    else c.address = r.currentAddress i ∧ c.bytes = r.widthBytes.toNat := by
  intro c hc
  unfold elementStores at hc
  dsimp only at hc
  split_ifs at hc ⊢ with hwide
  · rcases List.mem_cons.mp hc with rfl | hc
    · exact ⟨rfl,Or.inl rfl⟩
    · rw [List.mem_singleton.mp hc]
      exact ⟨rfl,Or.inr rfl⟩
  · rw [List.mem_singleton.mp hc]
    exact ⟨rfl,rfl⟩

/-- The checks of the head of a request to read. -/
def ReadAccepted (rx : ℕ → UInt8) (bodyLen : UInt16) : Prop :=
  bodyLen = 8 ∧ (memRequest rx).flags &&& ~~~memFlagAutoinc = 0 ∧ memWidthValid (memRequest rx).widthBits = true ∧
    (memRequest rx).dataLen ≤ UInt32.ofNat (maxPayloadSize - 6)

def WriteAccepted (rx : ℕ → UInt8) (bodyLen : UInt16) : Prop :=
  8 ≤ bodyLen ∧ (memRequest rx).flags &&& ~~~memFlagAutoinc = 0 ∧ memWidthValid (memRequest rx).widthBits = true ∧
    bodyLen = (8 + (memRequest rx).dataLen).toUInt16

theorem handleMemRead_orderly (hb : b.anyAccess = false) :
    Orderly b.ranges (ReadAccepted rx bodyLen) (memRequest rx).count.toNat (elementLoads (memRequest rx))
      (fun i => (memRequest rx).allowed b i = false) w (handleMemRead b H rx bodyLen w).2 (handleMemRead b H rx bodyLen w).1.1 := by
  unfold handleMemRead
  dsimp only
  split
  · rename_i hbad
    exact orderly_refused (by simp) fun hacc => hbad hacc.1
  split
  · rename_i hbad
    exact orderly_refused (by simp) fun hacc => hbad hacc.2.1
  split
  · rename_i hbad
    exact orderly_refused (by simp) fun hacc => Bool.eq_false_iff.mp hbad hacc.2.2.1
  rename_i hwidth
  rw [Bool.not_eq_false] at hwidth
  split
  · rename_i hbad
    exact orderly_refused (by simp) fun hacc => UInt32.not_lt.mpr hacc.2.2.2 hbad
  have hloop := sweep_orderly (ReadAccepted rx bodyLen) hb hwidth (readElement H (memRequest rx)) Prod.snd
    (readElement_calls (H := H) (memRequest rx)) (elementLoads_shape (memRequest rx)) ([],w)
  split
  · rename_i hrun
    rw [hrun] at hloop
    exact hloop
  · rename_i hrun
    rw [hrun] at hloop
    exact hloop

theorem handleMemWrite_orderly (hb : b.anyAccess = false) :
    Orderly b.ranges (WriteAccepted rx bodyLen) (memRequest rx).count.toNat (elementStores rx (memRequest rx))
      (fun i => (memRequest rx).allowed b i = false) w (handleMemWrite b H rx bodyLen w).2 (handleMemWrite b H rx bodyLen w).1 := by
  unfold handleMemWrite
  dsimp only
  split
  · rename_i hbad
    exact orderly_refused (by simp) fun hacc => UInt16.not_lt.mpr hacc.1 hbad
  split
  · rename_i hbad
    exact orderly_refused (by simp) fun hacc => hbad hacc.2.1
  split
  · rename_i hbad
    exact orderly_refused (by simp) fun hacc => Bool.eq_false_iff.mp hbad hacc.2.2.1
  rename_i hwidth
  rw [Bool.not_eq_false] at hwidth
  split
  · rename_i hbad
    exact orderly_refused (by simp) fun hacc => hbad hacc.2.2.2
  have hloop := sweep_orderly (WriteAccepted rx bodyLen) hb hwidth (writeElement H rx (memRequest rx))
    (fun w => w) (fun i w => writeElement_stores (memRequest rx) i w) (elementStores_shape rx (memRequest rx)) w
  split
  · rename_i hrun
    rw [hrun] at hloop
    exact hloop
  · rename_i hrun
    rw [hrun] at hloop
    exact hloop

end

/-! ## The control API -/

/-- What `find_region` finds. -/
theorem findRegion_spec {address offset : UInt32} {region : ℕ} (h : findRegion address 4 = some (region,offset)) :
    ∃ r, plRegions[region]? = some r ∧ r.base + offset = address ∧ ∀ c : MemCall, c.address = address → c.bytes = 4 →
      InRange plRegions c := by
  unfold findRegion at h
  rw [Option.map_eq_some_iff] at h
  obtain ⟨i,hfind,heq⟩ := h
  obtain ⟨rfl,rfl⟩ := Prod.mk.inj heq
  rw [List.findIdx?_eq_some_iff_getElem] at hfind
  obtain ⟨hi,hholds,-⟩ := hfind
  have hget : plRegions[i]? = some plRegions[i] := List.getElem?_eq_getElem hi
  refine ⟨plRegions[i],hget,?_,?_⟩
  · rw [hget]
    exact (UInt32.add_comm _ _).trans (UInt32.sub_add_cancel address plRegions[i].base)
  · intro c haddress hbytes
    have hmem : plRegions[i] ∈ plRegions := List.getElem_mem hi
    have haligned : ∀ r ∈ plRegions, r.base.toNat % 4 = 0 := by decide
    generalize plRegions[i] = r at hholds hmem
    have hbase := haligned r hmem
    rw [regionHolds, Bool.and_eq_true, Bool.and_eq_true, decide_eq_true_iff, decide_eq_true_iff, beq_iff_eq,
      UInt64.le_iff_toNat_le, UInt64.le_iff_toNat_le, UInt64.toNat_add, UInt64.toNat_add, UInt32.toNat_toUInt64,
      UInt32.toNat_toUInt64, UInt32.toNat_toUInt64] at hholds
    obtain ⟨⟨hlow,hhigh⟩,halign⟩ := hholds
    have hmod : (address - r.base).toNat % 4 = 0 := by
      have hmask := congrArg UInt32.toNat halign
      rw [UInt32.toNat_and] at hmask
      exact (Nat.and_two_pow_sub_one_eq_mod _ 2).symm.trans hmask
    rw [UInt32.toNat_sub_of_le _ _ (UInt32.le_iff_toNat_le.mpr hlow)] at hmod
    have h1 := address.toNat_lt
    have h2 := r.base.toNat_lt
    have h3 := r.size.toNat_lt
    change (address.toNat + 4) % 2^64 ≤ _ at hhigh
    unfold InRange
    rw [haddress, hbytes]
    exact ⟨⟨r,hmem,hlow,by omega⟩,by omega⟩

section
variable {ε : Type} {P : PlPlatform ε} {body : List UInt8}

/-- A mapping calls for no access. -/
theorem ensureMapped_calls (w : PlWorld ε) (mapped : ℕ → Bool) (region : ℕ) :
    (ensureMapped P w mapped region).2.calls = w.calls := by
  unfold ensureMapped
  split
  · rfl
  split
  · rfl
  split
  · rfl
  · rfl
  · rfl

/-- A word that is read has been loaded, once. -/
theorem plRead32_calls (w : PlWorld ε) (region : ℕ) (offset : UInt32) :
    (∃ e, (plRead32 P w region offset).1 = .error e ∧ e ≠ .ok ∧ (plRead32 P w region offset).2.calls = w.calls) ∨
    ∃ r value, plRegions[region]? = some r ∧ (plRead32 P w region offset).1 = .ok value ∧
      (plRead32 P w region offset).2.calls.map (·.2) = w.calls.map (·.2) ++ [.load (r.base + offset) 4] := by
  unfold plRead32
  split
  · exact Or.inl ⟨_,rfl,by simp,rfl⟩
  rename_i mapped _
  have hmapped := ensureMapped_calls (P := P) w mapped region
  split
  · rename_i w' hw'
    rw [hw'] at hmapped
    change w'.calls = w.calls at hmapped
    split
    · exact Or.inl ⟨_,rfl,by simp,hmapped⟩
    rename_i r hr
    split
    · exact Or.inl ⟨_,rfl,by simp,hmapped⟩
    · exact Or.inr ⟨r,_,hr,rfl,by simp [World.call, hmapped]⟩
  · rename_i status w' hne hw'
    rw [hw'] at hmapped
    refine Or.inl ⟨status,rfl,?_,hmapped⟩
    rintro rfl
    exact hne rfl

theorem plWrite32_calls (w : PlWorld ε) (region : ℕ) (offset value : UInt32) :
    ((plWrite32 P w region offset value).1 ≠ .ok ∧ (plWrite32 P w region offset value).2.calls = w.calls) ∨
    ∃ r, plRegions[region]? = some r ∧ (plWrite32 P w region offset value).1 = .ok ∧
      (plWrite32 P w region offset value).2.calls.map (·.2) = w.calls.map (·.2) ++ [.store (r.base + offset) 4 value.toNat] := by
  unfold plWrite32
  split
  · exact Or.inl ⟨by simp,rfl⟩
  rename_i mapped _
  have hmapped := ensureMapped_calls (P := P) w mapped region
  split
  · rename_i w' hw'
    rw [hw'] at hmapped
    change w'.calls = w.calls at hmapped
    split
    · exact Or.inl ⟨by simp,hmapped⟩
    rename_i r hr
    split
    · exact Or.inl ⟨by simp,hmapped⟩
    · exact Or.inr ⟨r,hr,rfl,by simp [World.call, hmapped]⟩
  · rename_i status w' hne hw'
    rw [hw'] at hmapped
    refine Or.inl ⟨?_,hmapped⟩
    rintro rfl
    exact hne rfl

/-- The access of a word. -/
def wordLoads (body : List UInt8) (i : ℕ) : List MemCall := [.load (wordAddress body i) 4]

def wordStores (body : List UInt8) (i : ℕ) : List MemCall :=
  [.store (wordAddress body i) 4 (UInt32.ofNat (beAt body (8 + i * 4) 4)).toNat]

/-- What one element of a loop does: nothing if it fails. -/
def OneWord {ω : Type} (world : ω → PlWorld ε) (attempt : ℕ → ω → Option Status × ω) (made : ℕ → List MemCall) : Prop :=
  ∀ i x, ((attempt i x).1 = none ∧ (∀ c ∈ made i, InRange plRegions c) ∧
      (world (attempt i x).2).calls.map (·.2) = (world x).calls.map (·.2) ++ made i) ∨
    ∃ e, (attempt i x).1 = some e ∧ e ≠ .ok ∧ (world (attempt i x).2).calls.map (·.2) = (world x).calls.map (·.2)

theorem readWord_one (P : PlPlatform ε) (body : List UInt8) : OneWord Prod.snd (readWord P body) (wordLoads body) := by
  intro i x
  unfold readWord
  split
  · exact Or.inr ⟨_,rfl,by simp,rfl⟩
  · rename_i region offset hfind
    obtain ⟨r,hr,haddress,hin⟩ := findRegion_spec hfind
    have hread := plRead32_calls (P := P) x.2 region offset
    split
    · rename_i status w' hw'
      rw [hw'] at hread
      obtain ⟨e,he,hbad,hcalls⟩ | ⟨r',value,-,hok,-⟩ := hread
      · obtain rfl : status = e := Except.error.inj he
        exact Or.inr ⟨status,rfl,hbad,congrArg _ hcalls⟩
      · cases hok
    · rename_i value w' hw'
      rw [hw'] at hread
      obtain ⟨e,herror,-⟩ | ⟨r',value',hr',hok,hcalls⟩ := hread
      · cases herror
      · obtain rfl : r = r' := Option.some.inj (hr.symm.trans hr')
        rw [haddress] at hcalls
        refine Or.inl ⟨rfl,fun c hc => ?_,hcalls⟩
        rw [List.mem_singleton.mp hc]
        exact hin _ rfl rfl

theorem writeWord_one (P : PlPlatform ε) (body : List UInt8) : OneWord (fun w => w) (writeWord P body) (wordStores body) := by
  intro i w
  unfold writeWord
  split
  · exact Or.inr ⟨_,rfl,by simp,rfl⟩
  · rename_i region offset hfind
    obtain ⟨r,hr,haddress,hin⟩ := findRegion_spec hfind
    have hwrite := plWrite32_calls (P := P) w region offset (UInt32.ofNat (beAt body (8 + i * 4) 4))
    split
    · rename_i w' hw'
      rw [hw'] at hwrite
      obtain ⟨hne,-⟩ | ⟨r',hr',-,hcalls⟩ := hwrite
      · exact absurd rfl hne
      · obtain rfl : r = r' := Option.some.inj (hr.symm.trans hr')
        rw [haddress] at hcalls
        refine Or.inl ⟨rfl,fun c hc => ?_,hcalls⟩
        rw [List.mem_singleton.mp hc]
        exact hin _ rfl rfl
    · rename_i status w' hne hw'
      rw [hw'] at hwrite
      obtain ⟨hbad,hcalls⟩ | ⟨r',-,hok,-⟩ := hwrite
      · exact Or.inr ⟨status,rfl,hbad,congrArg _ hcalls⟩
      · obtain rfl : status = .ok := hok
        exact absurd rfl hne

/-- A loop over words, up to one that fails. -/
theorem upTo_orderly {ω : Type} (accepted : Prop) {attempt : ℕ → ω → Option Status × ω} {world : ω → PlWorld ε}
    {made : ℕ → List MemCall} (hone : OneWord world attempt made) (count : ℕ) (x : ω) :
    Orderly plRegions accepted count made (fun i => ∃ x, (attempt i x).1 ≠ none) (world x)
      (world (Sweep.upTo attempt (List.range count) x).2) ((Sweep.upTo attempt (List.range count) x).1.getD .ok) := by
  obtain ⟨first,hfirst,hcalls,hin,hwhole,hnext⟩ := Sweep.upTo_extends
    (fun x => (world x).calls.map (·.2)) (fun i => ∀ c ∈ made i, InRange plRegions c)
    (fun i x hnone => by
      obtain ⟨-,hdone⟩ | ⟨e,he,-⟩ := hone i x
      · exact hdone
      · rw [he] at hnone
        cases hnone)
    (fun i x hsome => by
      obtain ⟨hnone,-⟩ | ⟨e,-,-,hcalls⟩ := hone i x
      · exact absurd hnone hsome
      · exact hcalls) (List.range count) x
  obtain ⟨k,hk,rfl⟩ := Sweep.prefix_range hfirst
  have hshort : k < count → (Sweep.upTo attempt (List.range count) x).1 ≠ none := fun hlt hnone => by
    have hlen := congrArg List.length (hwhole hnone)
    simp only [List.length_range] at hlen
    exact Nat.ne_of_lt hlt hlen
  refine orderly_of_first hk hcalls ?_ ?_ ?_
  · intro hok
    by_contra hne
    have hfail := hshort (Nat.lt_of_le_of_ne hk hne)
    obtain ⟨i,rest,x',-,hsame⟩ := hnext hfail
    rw [← hsame] at hok hfail
    obtain ⟨hnone,-⟩ | ⟨e,he,hbad,-⟩ := hone i x'
    · exact hfail hnone
    · rw [he] at hok
      exact hbad hok
  · intro hlt
    obtain ⟨i,rest,x',hsplit,hsame⟩ := hnext (hshort hlt)
    have hik : (List.range count)[k]? = some i := by
      rw [hsplit]
      simp
    rw [List.getElem?_range hlt] at hik
    rw [← Option.some.inj hik] at hsame
    exact Or.inl ⟨x',hsame ▸ hshort hlt⟩
  · intro i hi
    exact hin i (List.mem_range.mpr hi)

/-- What a request of the control API accesses, element by element. -/
def wordAccesses (opcode : UInt8) (body : List UInt8) : ℕ → List MemCall :=
  if opcode = opMemRead then wordLoads body else wordStores body

/-- Why an element is refused: there is no region for it, or its region can not be mapped. -/
def WordRefused (P : PlPlatform ε) (opcode : UInt8) (body : List UInt8) (i : ℕ) : Prop :=
  (opcode = opMemRead → ∃ x, (readWord P body i x).1 ≠ none) ∧ (opcode ≠ opMemRead → ∃ w, (writeWord P body i w).1 ≠ none)

/-- The checks of the head of a request. -/
def MemAccepted (opcode : UInt8) (body : List UInt8) : Prop :=
  8 ≤ body.length ∧ body.getD 0 0 = 0 ∧ body.getD 1 0 = 32 ∧ beAt body 6 2 ≠ 0 ∧ beAt body 6 2 ≤ 256 ∧
    (opcode = opMemRead ∧ body.length = 8 ∧ beAt body 6 2 * 4 ≤ maxPayloadSize - 6 ∨
      opcode = opMemWrite ∧ body.length = (8 + beAt body 6 2 * 4) % 2^16)

theorem Orderly.mono {ranges : List MmioRange} {accepted : Prop} {count : ℕ} {made : ℕ → List MemCall}
    {refused refused' : ℕ → Prop} {w w' : PlWorld ε} {status : Status}
    (h : Orderly ranges accepted count made refused w w' status) (himp : ∀ i, refused i → refused' i) :
    Orderly ranges accepted count made refused' w w' status := by
  obtain ⟨⟨k,hk,hadds,hwhole,hnext⟩,hin⟩ := h
  exact ⟨⟨k,hk,hadds,hwhole,fun hlt => (hnext hlt).imp (himp k) id⟩,hin⟩

theorem processMem_orderly (opcode : UInt8) (w : PlWorld ε) :
    Orderly plRegions (MemAccepted opcode body) (beAt body 6 2) (wordAccesses opcode body) (WordRefused P opcode body) w
      (processMem P opcode body w).2 (processMem P opcode body w).1.1 := by
  unfold processMem
  dsimp only
  split
  · rename_i hbad
    exact orderly_refused (by simp) fun hacc => Nat.not_lt.mpr hacc.1 hbad
  split
  · rename_i hbad
    refine orderly_refused (by simp) fun ⟨_,hflags,hwidth,hcount,hmany,_⟩ => ?_
    rcases hbad with hbad | hbad | hbad | hbad
    · exact hbad hflags
    · exact hbad hwidth
    · exact hcount hbad
    · exact Nat.not_lt.mpr hmany hbad
  split
  · rename_i hop
    rw [wordAccesses, if_pos hop]
    split
    · rename_i hbad
      refine orderly_refused (by simp) fun ⟨_,_,_,_,_,hsize⟩ => ?_
      obtain ⟨-,hlen,hfits⟩ | ⟨hwrite,-⟩ := hsize
      · exact hbad.elim (fun hne => hne hlen) fun hlong => Nat.not_lt.mpr hfits hlong
      · rw [hop] at hwrite
        revert hwrite
        decide
    have hloop := upTo_orderly (MemAccepted opcode body) (readWord_one P body) (beAt body 6 2) ([],w)
    have hread : Orderly plRegions _ _ _ (WordRefused P opcode body) _ _ _ :=
      hloop.mono fun i hi => ⟨fun _ => hi,fun hne => absurd hop hne⟩
    split
    · rename_i data w' hrun
      rw [hrun] at hread
      exact hread
    · rename_i status data w' hrun
      rw [hrun] at hread
      exact hread
  rename_i hnot
  rw [wordAccesses, if_neg hnot]
  split
  · split
    · rename_i hbad
      refine orderly_refused (by simp) fun ⟨_,_,_,_,_,hsize⟩ => ?_
      exact hsize.elim (fun h => hnot h.1) fun h => hbad h.2
    have hloop := upTo_orderly (MemAccepted opcode body) (writeWord_one P body) (beAt body 6 2) w
    have hwrite : Orderly plRegions _ _ _ (WordRefused P opcode body) _ _ _ :=
      hloop.mono fun i hi => ⟨fun hop => absurd hop hnot,fun _ => hi⟩
    split
    · rename_i w' hrun
      rw [hrun] at hwrite
      exact hwrite
    · rename_i status w' hrun
      rw [hrun] at hwrite
      exact hwrite
  · rename_i hother
    refine orderly_refused (by simp) fun ⟨_,_,_,_,_,hsize⟩ => ?_
    exact hsize.elim (fun h => hnot h.1) fun h => hother h.1

end

/-! ## Both servers -/

end Bvstk.Dcp2
