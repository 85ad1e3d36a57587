import Bvstk.Dcp2.Memory

/-! # Memory writes and the length of their bodies

The length that a body should have needs more than 16 bits. Where it is cut, a short body passes
for a long one, and what is written comes from behind it.
-/
namespace Bvstk.Dcp2
open CallLog

section
variable {ε : Type} (b : MemBuild) (H : MemBus ε) (rx : ℕ → UInt8) (bodyLen : UInt16) (w : MemWorld ε)

/-- The length of the body of a request, in full. -/
def MemRequest.wholeLength (r : MemRequest) : ℕ := 8 + r.count.toNat * r.widthBytes.toNat

/-- A write depends on nothing behind its body, and does nothing if the body has not its length. -/
structure WritesBody : Prop where
  inside : ∀ rx', (∀ j < bodyLen.toNat, rx' j = rx j) → handleMemWrite b H rx' bodyLen w = handleMemWrite b H rx bodyLen w
  whole : bodyLen.toNat ≠ (memRequest rx).wholeLength →
    (handleMemWrite b H rx bodyLen w).1 ≠ .ok ∧ (handleMemWrite b H rx bodyLen w).2 = w

/-- The length wraps to that of the body, and there is nothing else against the request up to
its first write. -/
def LengthWraps : Prop :=
  8 ≤ bodyLen ∧ (memRequest rx).flags &&& ~~~memFlagAutoinc = 0 ∧ memWidthValid (memRequest rx).widthBits = true ∧
    2^16 ≤ (memRequest rx).wholeLength ∧ (memRequest rx).wholeLength % 2^16 = bodyLen.toNat ∧
    (memRequest rx).allowed b 0 = true

end

section
variable {ε : Type} {b : MemBuild} {H : MemBus ε} {rx rx' : ℕ → UInt8} {bodyLen : UInt16} {w : MemWorld ε}

theorem field_congr {i width : ℕ} (h : ∀ j, i ≤ j → j < i + width → rx' j = rx j) : field rx' i width = field rx i width := by
  unfold field
  congr 1
  refine List.map_congr_left fun j hj => ?_
  rw [List.mem_range] at hj
  exact h (i + j) (Nat.le_add_right i j) (Nat.add_lt_add_left hj i)

theorem memRequest_congr (h : ∀ j < 8, rx' j = rx j) : memRequest rx' = memRequest rx := by
  unfold memRequest
  rw [h 0 (by decide), h 1 (by decide), field_congr fun j _ hj => h j (by omega), field_congr fun j _ hj => h j (by omega)]

theorem widthBytes_le {r : MemRequest} (h : memWidthValid r.widthBits = true) : r.widthBytes.toNat ≤ 8 := by
  simp only [memWidthValid, Bool.or_eq_true, beq_iff_eq] at h
  unfold MemRequest.widthBytes
  rcases h with ((h | h) | h) | h
  all_goals
    rw [h]
    decide

theorem cutLength_toNat {r : MemRequest} (h : memWidthValid r.widthBits = true) :
    (8 + r.dataLen).toUInt16.toNat = r.wholeLength % 2^16 := by
  have hwidth := widthBytes_le h
  have hcount := r.count.toNat_lt
  have hdata : r.count.toNat * r.widthBytes.toNat ≤ 65535 * 8 := Nat.mul_le_mul (by omega) hwidth
  rw [UInt32.toNat_toUInt16, UInt32.toNat_add, MemRequest.dataLen, UInt32.toNat_mul, UInt16.toNat_toUInt32]
  unfold MemRequest.wholeLength
  change (8 + r.count.toNat * r.widthBytes.toNat % 2^32) % 2^32 % 2^16 = _
  omega

theorem writeElement_calls (H : MemBus ε) (rx : ℕ → UInt8) (r : MemRequest) (i : ℕ) (w : MemWorld ε) : w.calls <+: (writeElement H rx r i w).calls ∧
    w.calls ≠ (writeElement H rx r i w).calls := by
  unfold writeElement
  dsimp only
  split
  · simp [memOut, World.call]
  · simp [memOut, World.call]

/-- Whatever comes after the first write, it was made. -/
theorem run_writes (b : MemBuild) (H : MemBus ε) (rx : ℕ → UInt8) (r : MemRequest) (todo : List ℕ) (w : MemWorld ε) :
    w.calls <+: (Sweep.run (r.allowed b) (writeElement H rx r) todo w).2.calls := by
  induction todo generalizing w with
  | nil => exact List.prefix_rfl
  | cons i todo ih =>
    unfold Sweep.run
    split
    · exact (writeElement_calls H rx r i w).1.trans (ih _)
    · exact List.prefix_rfl

/-- The request after the checks of its head. -/
theorem handleMemWrite_passed (hlen : 8 ≤ bodyLen) (hflags : (memRequest rx).flags &&& ~~~memFlagAutoinc = 0)
    (hwidth : memWidthValid (memRequest rx).widthBits = true)
    (hcut : (memRequest rx).wholeLength % 2^16 = bodyLen.toNat) : handleMemWrite b H rx bodyLen w =
      (if (Sweep.run ((memRequest rx).allowed b) (writeElement H rx (memRequest rx)) (List.range (memRequest rx).count.toNat) w).1
        then .ok else .range,
      (Sweep.run ((memRequest rx).allowed b) (writeElement H rx (memRequest rx))
        (List.range (memRequest rx).count.toNat) w).2) := by
  have hsame : ¬bodyLen ≠ (8 + (memRequest rx).dataLen).toUInt16 := by
    rw [not_ne_iff, ← UInt16.toNat_inj, cutLength_toNat hwidth, hcut]
  unfold handleMemWrite
  dsimp only
  rw [if_neg (UInt16.not_lt.mpr hlen), if_neg (not_ne_iff.mpr hflags), if_neg (by simp [hwidth]), if_neg hsame]
  generalize Sweep.run ((memRequest rx).allowed b) (writeElement H rx (memRequest rx))
    (List.range (memRequest rx).count.toNat) w = out
  obtain ⟨ok,w'⟩ := out
  cases ok with
  | false => rfl
  | true => rfl

/-- A body of the right length has every element in it. -/
theorem writeElement_congr {r : MemRequest} (hlen : bodyLen.toNat = r.wholeLength) (h : ∀ j < bodyLen.toNat, rx' j = rx j)
    {i : ℕ} (hi : i < r.count.toNat) (hwidth : memWidthValid r.widthBits = true) (w : MemWorld ε) :
    writeElement H rx' r i w = writeElement H rx r i w := by
  have hend : 8 + i * r.widthBytes.toNat + r.widthBytes.toNat ≤ bodyLen.toNat := by
    have hmul : (i + 1) * r.widthBytes.toNat ≤ r.count.toNat * r.widthBytes.toNat := Nat.mul_le_mul_right _ hi
    rw [hlen, MemRequest.wholeLength]
    rw [Nat.succ_mul] at hmul
    omega
  have hfield : ∀ {at' n}, at' + n ≤ bodyLen.toNat → field rx' at' n = field rx at' n := fun hle =>
    field_congr fun j _ hj => h j (by omega)
  unfold writeElement
  dsimp only
  split
  · rename_i hwide
    have h8 : r.widthBytes.toNat = 8 := by
      rw [MemRequest.widthBytes, hwide]
      rfl
    rw [h8] at hend ⊢
    rw [hfield (by omega), hfield (by omega)]
  · rw [hfield hend]

theorem run_congr {r : MemRequest} (hlen : bodyLen.toNat = r.wholeLength) (h : ∀ j < bodyLen.toNat, rx' j = rx j)
    (hwidth : memWidthValid r.widthBits = true) {todo : List ℕ} (htodo : ∀ i ∈ todo, i < r.count.toNat) (w : MemWorld ε) :
    Sweep.run (r.allowed b) (writeElement H rx' r) todo w = Sweep.run (r.allowed b) (writeElement H rx r) todo w := by
  induction todo generalizing w with
  | nil => simp [Sweep.run]
  | cons i todo ih =>
    unfold Sweep.run
    rw [writeElement_congr hlen h (htodo i List.mem_cons_self) hwidth]
    split
    · exact ih (fun j hj => htodo j (List.mem_cons_of_mem i hj)) _
    · rfl

/-- A body whose length wraps gets something written. -/
theorem not_writesBody_of_wraps (h : LengthWraps b rx bodyLen) : ¬WritesBody b H rx bodyLen w := by
  obtain ⟨hlen,hflags,hwidth,hlong,hcut,hfirst⟩ := h
  intro hbody
  have hne : bodyLen.toNat ≠ (memRequest rx).wholeLength := by
    have hlt := bodyLen.toNat_lt
    omega
  have hcount : (memRequest rx).count.toNat ≠ 0 := by
    intro hzero
    rw [MemRequest.wholeLength, hzero] at hlong
    omega
  obtain ⟨n,hn⟩ := Nat.exists_eq_succ_of_ne_zero hcount
  have hnothing := (hbody.whole hne).2
  rw [handleMemWrite_passed hlen hflags hwidth hcut] at hnothing
  dsimp only at hnothing
  rw [hn, List.range_succ_eq_map, Sweep.run, if_pos hfirst] at hnothing
  have hrest := run_writes b H rx (memRequest rx) (List.map Nat.succ (List.range n)) (writeElement H rx (memRequest rx) 0 w)
  rw [hnothing] at hrest
  obtain ⟨hmade,hmore⟩ := writeElement_calls H rx (memRequest rx) 0 w
  exact hmore (hmade.eq_of_length (Nat.le_antisymm hmade.length_le hrest.length_le))

theorem writesBody_of_not_wraps (h : ¬LengthWraps b rx bodyLen) : WritesBody b H rx bodyLen w := by
  by_cases hlen : 8 ≤ bodyLen
  swap
  · have hrefused : ∀ rx, handleMemWrite b H rx bodyLen w = (.malformed,w) := fun rx => by
      unfold handleMemWrite
      rw [if_pos (UInt16.not_le.mp hlen)]
    exact ⟨fun rx' _ => (hrefused rx').trans (hrefused rx).symm,fun _ => by simp [hrefused]⟩
  have hhead : ∀ {rx' : ℕ → UInt8}, (∀ j < bodyLen.toNat, rx' j = rx j) → memRequest rx' = memRequest rx := fun hsame =>
    memRequest_congr fun j hj => hsame j (Nat.lt_of_lt_of_le hj (UInt16.le_iff_toNat_le.mp hlen))
  -- a request that is refused for its head
  have hrefused : ∀ status, status ≠ Status.ok → (∀ rx', memRequest rx' = memRequest rx →
      handleMemWrite b H rx' bodyLen w = (status,w)) → WritesBody b H rx bodyLen w := fun status hstatus hall =>
    ⟨fun rx' hsame => (hall rx' (hhead hsame)).trans (hall rx rfl).symm,fun _ => by simp [hall rx rfl, hstatus]⟩
  by_cases hflags : (memRequest rx).flags &&& ~~~memFlagAutoinc = 0
  swap
  · refine hrefused .malformed (by decide) fun rx' hsame => ?_
    unfold handleMemWrite
    dsimp only
    rw [hsame, if_neg (UInt16.not_lt.mpr hlen), if_pos hflags]
  by_cases hwidth : memWidthValid (memRequest rx).widthBits = true
  swap
  · refine hrefused .unsupported (by decide) fun rx' hsame => ?_
    unfold handleMemWrite
    dsimp only
    rw [hsame, if_neg (UInt16.not_lt.mpr hlen), if_neg (not_ne_iff.mpr hflags), if_pos (Bool.not_eq_true _ ▸ hwidth)]
  by_cases hcut : (memRequest rx).wholeLength % 2^16 = bodyLen.toNat
  swap
  · refine hrefused .malformed (by decide) fun rx' hsame => ?_
    have hother : bodyLen ≠ (8 + (memRequest rx).dataLen).toUInt16 := by
      rw [Ne, ← UInt16.toNat_inj, cutLength_toNat hwidth]
      exact Ne.symm hcut
    unfold handleMemWrite
    dsimp only
    rw [hsame, if_neg (UInt16.not_lt.mpr hlen), if_neg (not_ne_iff.mpr hflags), if_neg (by simp [hwidth]), if_pos hother]
  have hpassed := handleMemWrite_passed (b := b) (H := H) (w := w) hlen hflags hwidth hcut
  by_cases hwhole : bodyLen.toNat = (memRequest rx).wholeLength
  · refine ⟨fun rx' hsame => ?_,fun hne => absurd hwhole hne⟩
    have hsame' := hhead hsame
    rw [hpassed, handleMemWrite_passed (by exact hlen) (by rwa [hsame']) (by rwa [hsame']) (by rwa [hsame']), hsame',
      run_congr hwhole hsame hwidth fun i hi => List.mem_range.mp hi]
  -- the length wraps, so that the first write is refused
  have hlong : 2^16 ≤ (memRequest rx).wholeLength := by
    by_contra hshort
    rw [Nat.mod_eq_of_lt (Nat.not_le.mp hshort)] at hcut
    exact hwhole hcut.symm
  have hfirst : (memRequest rx).allowed b 0 ≠ true := fun hok => h ⟨hlen,hflags,hwidth,hlong,hcut,hok⟩
  have hcount : (memRequest rx).count.toNat ≠ 0 := by
    intro hzero
    rw [MemRequest.wholeLength, hzero] at hlong
    omega
  obtain ⟨n,hn⟩ := Nat.exists_eq_succ_of_ne_zero hcount
  refine hrefused .range (by decide) fun rx' hsame => ?_
  rw [handleMemWrite_passed (by exact hlen) (by rwa [hsame]) (by rwa [hsame]) (by rwa [hsame]), hsame, hn,
    List.range_succ_eq_map, Sweep.run, if_neg hfirst]
  rfl

end

/-- A memory write keeps to its body exactly when the length does not wrap to that of the body. -/
theorem mem_write_body_iff {ε : Type} (b : MemBuild) (H : MemBus ε) (rx : ℕ → UInt8) (bodyLen : UInt16) (w : MemWorld ε) :
    WritesBody b H rx bodyLen w ↔ ¬LengthWraps b rx bodyLen :=
  ⟨fun h hwraps => not_writesBody_of_wraps hwraps h,writesBody_of_not_wraps⟩

/-- A server with one core, and 8192 double words for a body that has none. -/
def oneCore : MemBuild := ⟨false,[⟨0x43C00000,0x1000⟩]⟩
def emptyBody (j : ℕ) : UInt8 := [0,64,0x43,0xC0,0,0,0x20,0].getD j 0
def idleBus : MemBus Unit := ⟨fun e _ _ => (0,e),fun e _ _ _ => e⟩

theorem mem_write_behind_body : ¬WritesBody oneCore idleBus emptyBody 8 ⟨(),(),[]⟩ :=
  not_writesBody_of_wraps ⟨by decide,by decide,by decide,by decide,by decide,by decide⟩

end Bvstk.Dcp2
