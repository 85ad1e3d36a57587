import Bvstk.Qspi.Flash
import Mathlib.Data.List.GetD

/-! # Writing sectors of the QSPI disk

A write that succeeds leaves exactly its sectors equal to the data, and nothing outside the
window of the file system is ever erased or programmed. A request is checked sector by sector,
so one that is refused may have written the sectors before the end of the window.
-/
namespace Bvstk.Qspi
open Dialogue Program
open NorFlash (Cells)

/-! ## The chip -/

/-- The board with its flash: what it answers, what the cells hold once an operation has been
completed, whether the chip is idle, and whether writing has been enabled. -/
structure Chip (ε : Type*) where
  reply : (c : Request) → ε → Answer c × ε
  cells : ε → Cells
  Idle : ε → Prop
  Enabled : ε → Prop

variable {ε : Type*}

/-- What a polled transfer receives, and the state after it. -/
def Chip.receive (chip : Chip ε) (tx : List UInt8) (e : ε) : Option (List UInt8) := (chip.reply (.polledTransfer tx) e).1
def Chip.after (chip : Chip ε) (tx : List UInt8) (e : ε) : ε := (chip.reply (.polledTransfer tx) e).2

/-- A NOR flash. Of a transfer that fails nothing is promised. -/
structure Documented (chip : Chip ε) : Prop where
  usleep : ∀ us e, chip.cells (chip.reply (.usleep us) e).2 = chip.cells e
  writeEnable : ∀ e rx, chip.Idle e → chip.receive [cmdWriteEnable] e = some rx →
    chip.cells (chip.after [cmdWriteEnable] e) = chip.cells e ∧ chip.Idle (chip.after [cmdWriteEnable] e) ∧
      chip.Enabled (chip.after [cmdWriteEnable] e)
  readStatus : ∀ e rx, chip.receive [cmdReadStatus,0] e = some rx →
    chip.cells (chip.after [cmdReadStatus,0] e) = chip.cells e ∧
      (rx.getD 1 0 &&& statusWipMask = 0 → chip.Idle (chip.after [cmdReadStatus,0] e))
  erase : ∀ e rx address, chip.Idle e → chip.Enabled e → address % flashSectorSize = 0 → rangeValid address flashSectorSize →
    chip.receive (flashAddress cmdSectorErase4K address) e = some rx →
    chip.cells (chip.after (flashAddress cmdSectorErase4K address) e) = NorFlash.erase (chip.cells e) address flashSectorSize
  program : ∀ e rx address n data, chip.Idle e → chip.Enabled e → rangeValid address n →
    n ≤ flashPageSize - address % flashPageSize →
    chip.receive (flashAddress cmdPageProgram address ++ (List.range n).map data) e = some rx →
    chip.cells (chip.after (flashAddress cmdPageProgram address ++ (List.range n).map data) e) =
      NorFlash.program (chip.cells e) address n data
  read : ∀ e rx address n, chip.Idle e → rangeValid address n →
    chip.receive (flashAddress cmdReadData address ++ List.replicate (transferSize n - addressHeader) 0) e = some rx →
    chip.cells (chip.after (flashAddress cmdReadData address ++ List.replicate (transferSize n - addressHeader) 0) e) =
        chip.cells e ∧
      chip.Idle (chip.after (flashAddress cmdReadData address ++ List.replicate (transferSize n - addressHeader) 0) e) ∧
      rx.length = transferSize n ∧ ∀ i < n, rx.getD (addressHeader + i) 0 = chip.cells e (address + i)

/-- A chip of which no transfer fails, and that is never busy. -/
structure Reliable (chip : Chip ε) : Prop where
  receives : ∀ tx e, chip.receive tx e ≠ none
  idle : ∀ e rx, chip.receive [cmdReadStatus,0] e = some rx → rx.getD 1 0 &&& statusWipMask = 0

/-! ## The operations of the driver -/

section
variable {chip : Chip ε} {e : ε}

/-- How an operation ends: with success if `C` holds, and on success with `P`. -/
def EndsWell (C : Prop) (P : ε → Prop) (r : Option Bool) (e' : ε) : Prop :=
  ∃ b, r = some b ∧ (C → b = true) ∧ (b = true → P e')

theorem EndsWell.of_some {C C' : Prop} {P P' : ε → Prop} {e e' : ε} {b : Bool} (h : EndsWell C P (some b) e) (hC : C' → C)
    (himp : P e → P' e') : EndsWell C' P' (some b) e' := by
  obtain ⟨_,hb,hsuccess,hgood⟩ := h
  cases hb
  exact ⟨b,rfl,fun h => hsuccess (hC h),fun h => himp (hgood h)⟩

theorem endsWell_false {C : Prop} {P : ε → Prop} (hC : ¬C) (e : ε) : EndsWell C P (some false) e :=
  ⟨false,rfl,fun h => absurd h hC,fun h => nomatch h⟩

/-- A step that must succeed before the next. -/
theorem EndsWell.step {α : Type} {C : Prop} {P : ε → Prop} {R : Option α → ε → Prop} {p : Driver Bool} {f : Bool → Driver α}
    (h : p.Leaves chip.reply (EndsWell C P) e) (hfalse : ∀ e', ¬C → (f false).Leaves chip.reply R e')
    (htrue : ∀ e', P e' → (f true).Leaves chip.reply R e') : (p >>= f).Leaves chip.reply R e := by
  apply h.bind
  · rintro e' ⟨b,hnone,-⟩
    cases hnone
  rintro b e' ⟨_,hsome,hsuccess,hgood⟩
  cases hsome
  cases b with
  | false => exact hfalse e' fun h => nomatch hsuccess h
  | true => exact htrue e' (hgood rfl)

/-- A page is what is left of it, or of the data. -/
theorem pageChunk_le (address length offset : ℕ) : pageChunk address length offset ≤ length - offset ∧
    pageChunk address length offset ≤ flashPageSize - (address + offset) % flashPageSize :=
  ⟨Nat.min_le_right _ _,Nat.min_le_left _ _⟩

/-- The bytes of a chunk that was received. -/
theorem chunk_getD {cells : Cells} {rx rest : List UInt8} {address chunk : ℕ} (hlength : rx.length = transferSize chunk)
    (hrx : ∀ i < chunk, rx.getD (addressHeader + i) 0 = cells (address + i))
    (hrest : ∀ i < rest.length, rest.getD i 0 = cells (address + chunk + i)) :
    ((rx.drop addressHeader).take chunk).length = chunk ∧
      ∀ i < chunk + rest.length, ((rx.drop addressHeader).take chunk ++ rest).getD i 0 = cells (address + i) := by
  have hlong : ((rx.drop addressHeader).take chunk).length = chunk := by
    rw [List.length_take, List.length_drop, hlength]
    unfold transferSize addressHeader
    omega
  refine ⟨hlong,fun i hi => ?_⟩
  by_cases hin : i < chunk
  · rw [List.getD_append _ _ _ _ (by rw [hlong]; exact hin), ← hrx i hin]
    simp only [List.getD_eq_getElem?_getD, List.getElem?_take, if_pos hin, List.getElem?_drop]
  · rw [List.getD_append_right _ _ _ _ (by rw [hlong]; omega), hlong, hrest _ (by omega), Nat.add_assoc,
      Nat.add_sub_cancel' (Nat.not_lt.mp hin)]

variable (hchip : Documented chip)
include hchip

theorem writeEnable_leaves (hidle : chip.Idle e) : writeEnable.Leaves chip.reply (EndsWell (Reliable chip) fun e' =>
    chip.cells e' = chip.cells e ∧ chip.Idle e' ∧ chip.Enabled e') e := by
  refine ⟨(chip.receive [cmdWriteEnable] e).isSome,rfl,fun h => ?_,fun h => ?_⟩
  · exact Option.isSome_iff_ne_none.mpr (h.receives _ e)
  · obtain ⟨rx,hrx⟩ := Option.isSome_iff_exists.mp h
    exact hchip.writeEnable e rx hidle hrx

theorem readStatus_leaves : readStatus.Leaves chip.reply (fun r e' => ∃ status, r = some status ∧
    (Reliable chip → ∃ value, status = some value ∧ value &&& statusWipMask = 0) ∧
    ∀ value, status = some value → chip.cells e' = chip.cells e ∧ (value &&& statusWipMask = 0 → chip.Idle e')) e := by
  apply leaves_request_bind
  cases hrx : (chip.reply (.polledTransfer [cmdReadStatus,0]) e).1 with
  | none =>
    refine ⟨none,rfl,fun h => absurd hrx (h.receives _ e),fun value hvalue => ?_⟩
    cases hvalue
  | some rx =>
    refine ⟨some (rx.getD 1 0),rfl,fun h => ⟨_,rfl,h.idle e rx hrx⟩,fun value hvalue => ?_⟩
    cases hvalue
    exact hchip.readStatus e rx hrx

/-- The wait ends with an idle chip, or without success. -/
theorem waitReady_leaves (timeoutMs : ℕ) : (waitReady timeoutMs).Leaves chip.reply (fun r e' => ∃ b, r = some b ∧
    (Reliable chip → 0 < timeoutMs → b = true) ∧ (b = true → chip.cells e' = chip.cells e ∧ chip.Idle e')) e := by
  induction timeoutMs generalizing e with
  | zero => exact ⟨false,rfl,fun _ h => absurd h (Nat.lt_irrefl 0),fun h => nomatch h⟩
  | succ timeoutMs ih =>
    apply (readStatus_leaves hchip).bind
    · rintro e' ⟨status,hnone,-⟩
      cases hnone
    rintro status e' ⟨_,hsome,hreliable,hstatus⟩
    cases hsome
    cases status with
    | none =>
      refine ⟨false,rfl,fun h => ?_,fun h => nomatch h⟩
      obtain ⟨value,hvalue,-⟩ := hreliable h
      cases hvalue
    | some value =>
      obtain ⟨hcells,hidle⟩ := hstatus value rfl
      dsimp only
      split
      · rename_i hready
        exact ⟨true,rfl,fun _ _ => rfl,fun _ => ⟨hcells,hidle hready⟩⟩
      · rename_i hbusy
        apply leaves_request_bind
        apply (ih (e := (chip.reply (.usleep 1000) e').2)).mono
        rintro r e'' ⟨b,hb,-,hgood⟩
        refine ⟨b,hb,fun h => ?_,fun h => ?_⟩
        · obtain ⟨value',hvalue,hready⟩ := hreliable h
          cases hvalue
          exact absurd hready hbusy
        · obtain ⟨hcells',hidle'⟩ := hgood h
          rw [hcells', hchip.usleep, hcells]
          exact ⟨rfl,hidle'⟩

theorem wait_leaves : (waitReady waitTimeoutMs).Leaves chip.reply
    (EndsWell (Reliable chip) fun e' => chip.cells e' = chip.cells e ∧ chip.Idle e') e := by
  apply (waitReady_leaves hchip waitTimeoutMs).mono
  rintro r e' ⟨b,hb,hreliable,hgood⟩
  exact ⟨b,hb,fun h => hreliable h (by decide),hgood⟩

/-- A command and the wait for its end. -/
theorem command_leaves {tx : List UInt8} {cells : Cells} (hcells : ∀ rx, chip.receive tx e = some rx →
    chip.cells (chip.after tx e) = cells) {f : Option (List UInt8) → Driver Bool} (hnone : f none = pure false)
    (hsome : ∀ rx, f (some rx) = waitReady waitTimeoutMs) : (polledTransfer tx >>= f).Leaves chip.reply
      (EndsWell (Reliable chip) fun e' => chip.cells e' = cells ∧ chip.Idle e') e := by
  apply leaves_request_bind
  cases hrx : (chip.reply (.polledTransfer tx) e).1 with
  | none =>
    rw [hnone]
    exact ⟨false,rfl,fun h => absurd hrx (h.receives tx e),fun h => nomatch h⟩
  | some rx =>
    rw [hsome, ← hcells rx hrx]
    exact wait_leaves hchip

theorem eraseSector_leaves {ready : Bool} {address : ℕ} (hidle : chip.Idle e) (haddress : address % flashSectorSize = 0)
    (hrange : rangeValid address flashSectorSize) : (eraseSector ready address).Leaves chip.reply
      (EndsWell (Reliable chip ∧ ready = true) fun e' =>
        chip.cells e' = NorFlash.erase (chip.cells e) address flashSectorSize ∧ chip.Idle e') e := by
  unfold eraseSector
  split
  · rename_i hrefused
    apply leaves_pure
    apply endsWell_false
    rintro ⟨-,hready⟩
    exact hrefused.elim (fun h => h hready) fun h => h.elim (fun h => h haddress) fun h => h hrange
  apply EndsWell.step (writeEnable_leaves hchip hidle)
  · intro e' hfailed
    exact leaves_pure (endsWell_false (fun h => hfailed h.1) e')
  · rintro e' ⟨hcells,hidle',henabled⟩
    apply (command_leaves hchip (fun rx hrx => hchip.erase e' rx address hidle' henabled haddress hrange hrx) rfl
      fun _ => rfl).mono
    rintro r e'' ⟨b,rfl,hsuccess,hgood⟩
    refine ⟨b,rfl,fun h => hsuccess h.1,fun h => ?_⟩
    rw [← hcells]
    exact hgood h

theorem programLoop_leaves {address : ℕ} (data : ℕ → UInt8) {length : ℕ} (hrange : rangeValid address length) (offset : ℕ)
    (hidle : chip.Idle e) : (programLoop address data length offset).Leaves chip.reply (EndsWell (Reliable chip) fun e' =>
      chip.cells e' = NorFlash.program (chip.cells e) (address + offset) (length - offset) (fun i => data (offset + i)) ∧
        chip.Idle e') e := by
  induction offset using programLoop.induct address length generalizing e with
  | case1 offset h ih =>
    have hpos := pageChunk_pos address h
    have hle := pageChunk_le address length offset
    have hpage : rangeValid (address + offset) (pageChunk address length offset) := by
      unfold rangeValid at hrange ⊢
      omega
    rw [programLoop, dif_pos h]
    apply EndsWell.step (writeEnable_leaves hchip hidle)
    · intro e' hfailed
      exact leaves_pure (endsWell_false hfailed e')
    rintro e₁ ⟨hcells₁,hidle₁,henabled₁⟩
    apply leaves_request_bind
    cases hrx : (chip.reply (.polledTransfer (flashAddress cmdPageProgram (address + offset) ++
        (List.range (pageChunk address length offset)).map fun i => data (offset + i))) e₁).1 with
    | none => exact leaves_pure (endsWell_false (fun h => h.receives _ e₁ hrx) _)
    | some rx =>
      have hcells₂ := hchip.program e₁ rx _ _ _ hidle₁ henabled₁ hpage hle.2 hrx
      apply EndsWell.step (wait_leaves hchip)
      · intro e' hfailed
        exact leaves_pure (endsWell_false hfailed e')
      rintro e₂ ⟨hcells,hidle₂⟩
      apply (ih hidle₂).mono
      rintro r e₃ ⟨b,hb,hsuccess,hgood⟩
      refine ⟨b,hb,hsuccess,fun h => ⟨?_,(hgood h).2⟩⟩
      have hrest : length - offset = pageChunk address length offset + (length - (offset + pageChunk address length offset)) := by
        omega
      rw [hcells₁] at hcells₂
      rw [(hgood h).1, hcells, hrest, ← NorFlash.program_program, ← hcells₂, Nat.add_assoc]
      simp only [Nat.add_assoc]
      exact Eq.refl _
  | case2 offset h =>
    rw [programLoop, dif_neg h]
    refine ⟨true,rfl,fun _ => rfl,fun _ => ⟨?_,hidle⟩⟩
    rw [Nat.sub_eq_zero_of_le (Nat.not_lt.mp h), NorFlash.program_zero]
    exact Eq.refl _

theorem flashProgram_leaves {ready : Bool} {address : ℕ} (data : ℕ → UInt8) {length : ℕ} (hrange : rangeValid address length)
    (hidle : chip.Idle e) : (flashProgram ready address data length).Leaves chip.reply
      (EndsWell (Reliable chip ∧ ready = true) fun e' =>
        chip.cells e' = NorFlash.program (chip.cells e) address length data ∧ chip.Idle e') e := by
  unfold flashProgram
  split
  · rename_i hrefused
    apply leaves_pure
    apply endsWell_false
    rintro ⟨-,hready⟩
    exact hrefused.elim (fun h => h hready) fun h => h hrange
  · apply (programLoop_leaves hchip data hrange 0 hidle).mono
    rintro r e' ⟨b,hb,hsuccess,hgood⟩
    refine ⟨b,hb,fun h => hsuccess h.1,fun h => ?_⟩
    have hcells := hgood h
    simp only [Nat.add_zero, Nat.sub_zero, Nat.zero_add] at hcells
    exact hcells

/-- The bytes of the flash are read, and it is left as it was. -/
def Reads (chip : Chip ε) (C : Prop) (e : ε) (address length : ℕ) (r : Option (Option (List UInt8))) (e' : ε) : Prop :=
  ∃ result, r = some result ∧ (C → result ≠ none) ∧ ∀ bytes, result = some bytes →
    chip.cells e' = chip.cells e ∧ chip.Idle e' ∧ bytes.length = length ∧
      ∀ i < length, bytes.getD i 0 = chip.cells e (address + i)

theorem readLoop_leaves {address length : ℕ} (hrange : rangeValid address length) (offset : ℕ) (hidle : chip.Idle e) :
    (readLoop address length offset).Leaves chip.reply
      (Reads chip (Reliable chip) e (address + offset) (length - offset)) e := by
  induction offset using readLoop.induct length generalizing e with
  | case1 offset h ih =>
    rw [readLoop, dif_pos h]
    have hchunk : rangeValid (address + offset) (min (length - offset) flashSectorSize) := by
      have hpos : 0 < flashSectorSize := by decide
      unfold rangeValid at hrange ⊢
      omega
    apply leaves_request_bind
    cases hrx : (chip.reply (.polledTransfer (flashAddress cmdReadData (address + offset) ++
        List.replicate (transferSize (min (length - offset) flashSectorSize) - addressHeader) 0)) e).1 with
    | none =>
      refine ⟨none,rfl,fun h => absurd hrx (h.receives _ e),fun bytes hbytes => ?_⟩
      cases hbytes
    | some rx =>
      obtain ⟨hcells,hidle',hlength,hbytes⟩ := hchip.read e rx _ _ hidle hchunk hrx
      refine (ih hidle').bind ?_ ?_
      · rintro e' ⟨result,hnone,-⟩
        cases hnone
      rintro rest e' ⟨_,hsome,hreliable,hrest⟩
      cases hsome
      cases rest with
      | none =>
        refine ⟨none,rfl,fun h => absurd rfl (hreliable h),fun bytes hbytes => ?_⟩
        cases hbytes
      | some rest =>
        obtain ⟨hcells',hidle'',hlong,hrest⟩ := hrest rest rfl
        rw [hcells] at hcells' hrest
        rw [← hlong, ← Nat.add_assoc] at hrest
        obtain ⟨htaken,hall⟩ := chunk_getD hlength hbytes hrest
        refine ⟨_,rfl,fun _ => Option.some_ne_none _,fun bytes hbytes => ?_⟩
        cases hbytes
        have hwhole : min (length - offset) flashSectorSize + rest.length = length - offset := by omega
        rw [hwhole] at hall
        refine ⟨hcells',hidle'',?_,hall⟩
        rw [List.length_append, htaken, hwhole]
  | case2 offset h =>
    rw [readLoop, dif_neg h]
    refine ⟨some [],rfl,fun _ => nofun,fun bytes hbytes => ?_⟩
    cases hbytes
    have hzero : length - offset = 0 := by omega
    rw [hzero]
    exact ⟨rfl,hidle,rfl,fun i hi => absurd hi (Nat.not_lt_zero i)⟩

theorem flashRead_leaves {ready : Bool} {address length : ℕ} (hrange : rangeValid address length) (hidle : chip.Idle e) :
    (flashRead ready address length).Leaves chip.reply
      (Reads chip (Reliable chip ∧ ready = true) e address length) e := by
  unfold flashRead
  split
  · rename_i hrefused
    refine ⟨none,rfl,fun h => ?_,fun bytes hbytes => ?_⟩
    · exact hrefused.elim (fun hr => absurd h.2 hr) fun hr => absurd hrange hr
    · cases hbytes
  · apply (readLoop_leaves hchip hrange 0 hidle).mono
    rintro r e' ⟨result,hr,hsuccess,hbytes⟩
    exact ⟨result,hr,fun h => hsuccess h.1,hbytes⟩

/-! ## Sectors -/

/-- The sectors of the window. -/
def sectorCount : ℕ := fsSizeBytes / diskSectorSize

/-- The flash after the sectors from `sector` on have been written. -/
def written (cells : Cells) (sector count : ℕ) (buffer : ℕ → UInt8) : Cells :=
  NorFlash.overwrite cells (fsBaseBytes + sector * diskSectorSize) (count * diskSectorSize) buffer

omit hchip in
theorem lbaToFlashAddr_one (sector : UInt32) : lbaToFlashAddr sector 1 =
    if sector.toNat < sectorCount then some (fsBaseBytes + sector.toNat * diskSectorSize) else none := by
  have hcount : sectorCount = 49152 := by decide
  have hsize : fsSizeBytes = 49152 * 512 := by decide
  unfold lbaToFlashAddr
  rw [if_neg Nat.one_ne_zero, hcount, hsize]
  unfold diskSectorSize
  split
  · rw [if_neg (by omega)]
  · rw [if_pos (by omega)]

/-- The erase block of a sector lies in the window and holds the sector. -/
structure BlockOf (sector block : ℕ) : Prop where
  aligned : block % flashSectorSize = 0
  start : fsBaseBytes ≤ block
  stop : block + flashSectorSize ≤ fsBaseBytes + fsSizeBytes
  holds : block ≤ fsBaseBytes + sector * diskSectorSize
  holdsEnd : fsBaseBytes + sector * diskSectorSize + diskSectorSize ≤ block + flashSectorSize

omit hchip in
theorem blockOf_sector {sector : ℕ} (h : sector < sectorCount) :
    BlockOf sector (blockOf (fsBaseBytes + sector * diskSectorSize)) := by
  have hcount : sectorCount = 49152 := by decide
  have hsize : fsSizeBytes = 25165824 := by decide
  have hbase : fsBaseBytes = 8388608 := by decide
  rw [hcount] at h
  unfold blockOf
  constructor <;> simp only [hbase, hsize, flashSectorSize, diskSectorSize] <;> omega

omit hchip in
theorem BlockOf.rangeValid {sector block : ℕ} (h : BlockOf sector block) : rangeValid block flashSectorSize := by
  have hstop := h.stop
  have hend : fsBaseBytes + fsSizeBytes = flashSizeBytes := by decide
  have hpos : 0 < flashSectorSize := by decide
  unfold Qspi.rangeValid
  omega

/-- What comes of writing a sector. -/
def WritesSector (chip : Chip ε) (d : Drive) (sector : ℕ) (buffer : ℕ → UInt8) (e : ε) (r : Option DResult) (e' : ε) : Prop :=
  ∃ result, r = some result ∧ result ≠ .notRdy ∧ (Reliable chip ∧ d.flashReady = true → result ≠ .error) ∧
    (result = .ok → sector < sectorCount ∧ chip.cells e' = written (chip.cells e) sector 1 buffer ∧ chip.Idle e') ∧
    (result = .parErr ↔ sectorCount ≤ sector) ∧ (result = .parErr → e' = e)

theorem writeSector_leaves (d : Drive) (sector : UInt32) (buffer : ℕ → UInt8) (hidle : chip.Idle e) :
    (writeSector d sector buffer).Leaves chip.reply (WritesSector chip d sector.toNat buffer e) e := by
  unfold writeSector
  rw [lbaToFlashAddr_one]
  by_cases hsector : sector.toNat < sectorCount
  case neg =>
    rw [if_neg hsector]
    exact ⟨.parErr,rfl,nofun,fun _ => nofun,nofun,⟨fun _ => Nat.not_lt.mp hsector,fun _ => rfl⟩,fun _ => rfl⟩
  rw [if_pos hsector]
  dsimp only
  have hblock := blockOf_sector hsector
  generalize blockOf (fsBaseBytes + sector.toNat * diskSectorSize) = block at hblock
  have herror : ∀ e', ¬(Reliable chip ∧ d.flashReady = true) →
      (pure .error : Driver DResult).Leaves chip.reply (WritesSector chip d sector.toNat buffer e) e' := fun e' hfailed =>
    ⟨.error,rfl,nofun,fun h => absurd h hfailed,nofun,⟨nofun,fun h => absurd hsector (Nat.not_lt.mpr h)⟩,nofun⟩
  apply (flashRead_leaves hchip hblock.rangeValid hidle).bind
  · rintro e' ⟨result,hnone,-⟩
    cases hnone
  rintro cache e₁ ⟨_,hsome,hread,hcache⟩
  cases hsome
  cases cache with
  | none => exact herror e₁ fun h => hread h rfl
  | some cache =>
    obtain ⟨hcells₁,hidle₁,-,hcache⟩ := hcache cache rfl
    apply EndsWell.step (eraseSector_leaves hchip hidle₁ hblock.aligned hblock.rangeValid)
    · exact herror
    rintro e₂ ⟨hcells₂,hidle₂⟩
    apply EndsWell.step (flashProgram_leaves hchip _ hblock.rangeValid hidle₂)
    · exact herror
    rintro e₃ ⟨hcells₃,hidle₃⟩
    have hwritten : chip.cells e₃ = written (chip.cells e) sector.toNat 1 buffer := by
      rw [hcells₃, hcells₂, NorFlash.program_erase, hcells₁, written, Nat.one_mul]
      exact NorFlash.overwrite_patched _ _ _ _ hcache hblock.holds hblock.holdsEnd
    exact ⟨.ok,rfl,nofun,fun _ => nofun,fun _ => ⟨hsector,hwritten,hidle₃⟩,
      ⟨nofun,fun h => absurd hsector (Nat.not_lt.mpr h)⟩,nofun⟩

/-- What comes of writing `count` sectors: all of them are written or, if the request is found to be out of range,
those up to the end of the window. -/
def WritesSectors (chip : Chip ε) (d : Drive) (sector count : ℕ) (buffer : ℕ → UInt8) (e : ε) (r : Option DResult) (e' : ε) : Prop :=
  ∃ result, r = some result ∧ result ≠ .notRdy ∧ (Reliable chip ∧ d.flashReady = true → result ≠ .error) ∧
    (result = .ok → chip.cells e' = written (chip.cells e) sector count buffer ∧ (0 < count → sector + count ≤ sectorCount)) ∧
    (result = .parErr → sectorCount < sector + count ∧
      chip.cells e' = written (chip.cells e) sector (min count (sectorCount - sector)) buffer)

omit hchip in
theorem written_zero (cells : Cells) (sector : ℕ) (buffer : ℕ → UInt8) : written cells sector 0 buffer = cells := by
  rw [written, Nat.zero_mul]
  exact NorFlash.overwrite_zero _ _ _

omit hchip in
/-- Sectors one after the other. -/
theorem written_written (cells : Cells) (sector count : ℕ) (buffer : ℕ → UInt8) :
    written (written cells sector 1 buffer) (sector + 1) count (fun i => buffer (diskSectorSize + i)) =
      written cells sector (count + 1) buffer := by
  unfold written
  rw [Nat.add_mul, ← Nat.add_assoc, Nat.one_mul, NorFlash.overwrite_overwrite, Nat.add_mul, Nat.one_mul,
    Nat.add_comm (count * diskSectorSize)]

theorem writeSectors_leaves (d : Drive) (sector : UInt32) (buffer : ℕ → UInt8) (index left : ℕ) (hidle : chip.Idle e)
    (hindex : index ≠ 0 → sector.toNat + index ≤ sectorCount) : (writeSectors d sector buffer index left).Leaves chip.reply
      (WritesSectors chip d (sector.toNat + index) left (fun i => buffer (index * diskSectorSize + i)) e) e := by
  induction left generalizing index e with
  | zero =>
    exact ⟨.ok,rfl,nofun,fun _ => nofun,fun _ => ⟨(written_zero _ _ _).symm,fun h => absurd h (Nat.lt_irrefl 0)⟩,nofun⟩
  | succ left ih =>
    have hcount : sectorCount = 49152 := by decide
    have hsector : (sector + index.toUInt32).toNat = sector.toNat + index := by
      have hlow := sector.toNat_lt
      rw [UInt32.toNat_add, Nat.toUInt32_eq, UInt32.toNat_ofNat']
      by_cases hzero : index = 0
      · rw [hzero, Nat.zero_mod, Nat.add_zero, Nat.mod_eq_of_lt hlow]
      · have hle := hindex hzero
        rw [hcount] at hle
        omega
    apply (writeSector_leaves hchip d (sector + index.toUInt32) _ hidle).bind
    · rintro e' ⟨result,hnone,-⟩
      cases hnone
    rintro result e₁ ⟨_,hsome,hnotRdy,herror,hok,hparErr,hsame⟩
    cases hsome
    rw [hsector] at hok hparErr
    cases result with
    | ok =>
      obtain ⟨hin,hcells,hidle₁⟩ := hok rfl
      have hnext : sector.toNat + (index + 1) ≤ sectorCount := hin
      apply (ih (index + 1) hidle₁ fun _ => hnext).mono
      rintro r e₂ ⟨result,hr,hnotRdy',herror',hok',hparErr'⟩
      have hbuffer : (fun i => buffer ((index + 1) * diskSectorSize + i)) =
          fun i => buffer (index * diskSectorSize + (diskSectorSize + i)) := by
        funext i
        rw [Nat.add_mul, Nat.one_mul, Nat.add_assoc]
      rw [hbuffer, hcells, ← Nat.add_assoc] at hok' hparErr'
      refine ⟨result,hr,hnotRdy',herror',fun h => ⟨?_,fun _ => ?_⟩,fun h => ⟨?_,?_⟩⟩
      · rw [(hok' h).1]
        exact written_written _ _ _ fun i => buffer (index * diskSectorSize + i)
      · by_cases hleft : 0 < left
        · have hend := (hok' h).2 hleft
          omega
        · omega
      · have hend := (hparErr' h).1
        omega
      · have hmin : min (left + 1) (sectorCount - (sector.toNat + index)) =
            min left (sectorCount - (sector.toNat + index + 1)) + 1 := by omega
        rw [(hparErr' h).2, hmin]
        exact written_written _ _ _ fun i => buffer (index * diskSectorSize + i)
    | error => exact ⟨.error,rfl,hnotRdy,herror,nofun,nofun⟩
    | notRdy => exact absurd rfl hnotRdy
    | parErr =>
      have hout := hparErr.mp rfl
      have hmin : min (left + 1) (sectorCount - (sector.toNat + index)) = 0 := by omega
      refine ⟨.parErr,rfl,hnotRdy,herror,nofun,fun _ => ⟨by omega,?_⟩⟩
      rw [hmin, written_zero]
      exact congrArg chip.cells (hsame rfl)

end

end Bvstk.Qspi
