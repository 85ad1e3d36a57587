import Bvstk.Qspi.DiskWrite

/-! # What a disk write may touch, and when it is exact

No transfer of a disk write touches an address outside the window of the file system. A
write is exact unless the request begins in the window and ends after it: such a request is
refused only when the sectors in the window have been written, where `disk_read` checks the
whole range first.
-/
namespace Bvstk.Qspi
open Dialogue Program
open NorFlash (Cells)

/-! ## The addresses of a transfer -/

/-- The address that follows the opcode. -/
def commandAddress (tx : List UInt8) : ℕ :=
  (tx.getD 1 0).toNat * 2^24 + (tx.getD 2 0).toNat * 2^16 + (tx.getD 3 0).toNat * 2^8 + (tx.getD 4 0).toNat

def touchedStart (tx : List UInt8) : ℕ :=
  if tx.getD 0 0 = cmdSectorErase4K then blockOf (commandAddress tx) else commandAddress tx

/-- How many bytes are erased, programmed or read. A read receives up to three bytes more than are kept. -/
def touchedLength (tx : List UInt8) : ℕ :=
  if tx.getD 0 0 = cmdSectorErase4K then flashSectorSize
  else if tx.getD 0 0 = cmdPageProgram then tx.length - addressHeader
  else if tx.getD 0 0 = cmdReadData then tx.length - addressHeader - 3
  else 0

/-- The request touches no address outside of these. -/
def Within (low high : ℕ) : Request → Prop
  | .polledTransfer tx => ∀ a, touchedStart tx ≤ a → a < touchedStart tx + touchedLength tx → low ≤ a ∧ a < high
  | .usleep _ => True

/-- The program touches no address outside of these, whatever the board answers. -/
def Stays (low high : ℕ) {α : Type} (p : Driver α) : Prop := p.Adds fun _ new => ∀ x ∈ new, Within low high x.request

section
variable {low high : ℕ} {α β : Type}

theorem stays_pure (a : α) : Stays low high (pure a : Driver α) := adds_pure fun _ hx => nomatch hx

theorem Stays.bind {p : Driver α} {f : α → Driver β} (h : Stays low high p) (hf : ∀ a, Stays low high (f a)) :
    Stays low high (p >>= f) :=
  Adds.bind_log (fun hlog hrest x hx => (List.mem_append.mp hx).elim (hlog x) (hrest x)) h hf

theorem stays_polledTransfer {tx : List UInt8} (h : Within low high (.polledTransfer tx)) : Stays low high (polledTransfer tx) := by
  apply adds_request
  intro reply x hx
  cases List.mem_singleton.mp hx
  exact h

theorem stays_usleep (us : ℕ) : Stays low high (usleep us) := by
  apply adds_request
  intro reply x hx
  cases List.mem_singleton.mp hx
  trivial

theorem Stays.mono {low' high' : ℕ} {p : Driver α} (h : Stays low high p) (hlow : low' ≤ low) (hhigh : high ≤ high') :
    Stays low' high' p := by
  apply Adds.mono h
  intro r new hnew x hx
  have hx := hnew x hx
  cases hrequest : x.request with
  | usleep us => trivial
  | polledTransfer tx =>
    rw [hrequest] at hx
    intro a hstart hstop
    have ha := hx a hstart hstop
    omega

end

theorem commandAddress_flashAddress (opcode : UInt8) {address : ℕ} (h : address < 2^32) (rest : List UInt8) :
    commandAddress (flashAddress opcode address ++ rest) = address := by
  change (UInt8.ofNat (address / 2^24)).toNat * 2^24 + (UInt8.ofNat (address / 2^16)).toNat * 2^16 +
    (UInt8.ofNat (address / 2^8)).toNat * 2^8 + (UInt8.ofNat address).toNat = address
  simp only [UInt8.toNat_ofNat']
  omega

theorem address_lt {address length : ℕ} (h : rangeValid address length) : address < 2^32 := by
  have hsize : flashSizeBytes = 33554432 := by decide
  have hlt := h.2.1
  omega

theorem commandAddress_bare (opcode : UInt8) {address : ℕ} (h : address < 2^32) :
    commandAddress (flashAddress opcode address) = address := by
  have hcommand := commandAddress_flashAddress opcode h []
  rwa [List.append_nil] at hcommand

/-! ## What the operations touch -/

section
variable {low high : ℕ}

theorem within_plain {tx : List UInt8} (h : touchedLength tx = 0) : Within low high (.polledTransfer tx) := by
  intro a hstart hstop
  omega

theorem writeEnable_stays : Stays low high writeEnable :=
  (stays_polledTransfer (within_plain rfl)).bind fun _ => stays_pure _

theorem readStatus_stays : Stays low high readStatus := by
  apply Stays.bind (stays_polledTransfer (within_plain rfl))
  intro reply
  cases reply with
  | none => exact stays_pure _
  | some rx => exact stays_pure _

theorem waitReady_stays (timeoutMs : ℕ) : Stays low high (waitReady timeoutMs) := by
  induction timeoutMs with
  | zero => exact stays_pure _
  | succ timeoutMs ih =>
    apply readStatus_stays.bind
    intro status
    cases status with
    | none => exact stays_pure _
    | some value =>
      dsimp only
      split
      · exact stays_pure _
      · exact (stays_usleep _).bind fun _ => ih

theorem eraseSector_stays (ready : Bool) (block : ℕ) : Stays block (block + flashSectorSize) (eraseSector ready block) := by
  unfold eraseSector
  split
  · exact stays_pure _
  rename_i haccepted
  have haligned : block % flashSectorSize = 0 := by
    by_contra h
    exact haccepted (Or.inr (Or.inl h))
  have hrange : rangeValid block flashSectorSize := by
    by_contra h
    exact haccepted (Or.inr (Or.inr h))
  apply writeEnable_stays.bind
  intro enabled
  split
  · exact stays_pure _
  apply Stays.bind
  · apply stays_polledTransfer
    intro a hstart hstop
    have haddress := commandAddress_bare cmdSectorErase4K (address_lt hrange)
    have hblock : blockOf block = block := Nat.div_mul_cancel (Nat.dvd_of_mod_eq_zero haligned)
    have hfrom : touchedStart (flashAddress cmdSectorErase4K block) = block := by
      rw [touchedStart, haddress, hblock, ite_self]
    rw [hfrom] at hstart hstop
    exact ⟨hstart,hstop⟩
  · intro reply
    cases reply with
    | none => exact stays_pure _
    | some rx => exact waitReady_stays _

/-- A command with its address and what follows. -/
theorem within_command {opcode : UInt8} {address n : ℕ} {rest : List UInt8} (haddress : address < 2^32)
    (hopcode : opcode ≠ cmdSectorErase4K) (hn : touchedLength (flashAddress opcode address ++ rest) ≤ n) (hlow : low ≤ address)
    (hhigh : address + n ≤ high) : Within low high (.polledTransfer (flashAddress opcode address ++ rest)) := by
  intro a hstart hstop
  have hfrom : touchedStart (flashAddress opcode address ++ rest) = address := by
    unfold touchedStart
    rw [commandAddress_flashAddress opcode haddress]
    exact if_neg hopcode
  rw [hfrom] at hstart hstop
  omega

theorem programLoop_stays {address length : ℕ} (data : ℕ → UInt8) (hrange : rangeValid address length) (offset : ℕ) :
    Stays address (address + length) (programLoop address data length offset) := by
  induction offset using programLoop.induct address length with
  | case1 offset h ih =>
    have hle := (pageChunk_le address length offset).1
    have hpage : rangeValid (address + offset) (pageChunk address length offset) := by
      have hpos := pageChunk_pos address h
      unfold rangeValid at hrange ⊢
      omega
    rw [programLoop, dif_pos h]
    apply writeEnable_stays.bind
    intro enabled
    split
    · exact stays_pure _
    apply Stays.bind
    · apply stays_polledTransfer
      apply within_command (n := pageChunk address length offset) (address_lt hpage) (by decide)
      · change (flashAddress cmdPageProgram (address + offset) ++ _).length - addressHeader ≤ _
        rw [List.length_append, List.length_map, List.length_range]
        exact Nat.le_of_eq (Nat.add_sub_cancel_left 5 _)
      · exact Nat.le_add_right address offset
      · omega
    intro reply
    split
    · exact stays_pure _
    apply (waitReady_stays _).bind
    intro done
    split
    · exact stays_pure _
    · exact ih
  | case2 offset h =>
    rw [programLoop, dif_neg h]
    exact stays_pure _

theorem flashProgram_stays (ready : Bool) (address : ℕ) (data : ℕ → UInt8) (length : ℕ) :
    Stays address (address + length) (flashProgram ready address data length) := by
  unfold flashProgram
  split
  · exact stays_pure _
  · rename_i haccepted
    apply programLoop_stays
    by_contra h
    exact haccepted (Or.inr h)

theorem readLoop_stays {address length : ℕ} (hrange : rangeValid address length) (offset : ℕ) :
    Stays address (address + length) (readLoop address length offset) := by
  induction offset using readLoop.induct length with
  | case1 offset h ih =>
    have hchunk : rangeValid (address + offset) (min (length - offset) flashSectorSize) := by
      have hpos : 0 < flashSectorSize := by decide
      unfold rangeValid at hrange ⊢
      omega
    rw [readLoop, dif_pos h]
    apply Stays.bind
    · apply stays_polledTransfer
      apply within_command (n := min (length - offset) flashSectorSize) (address_lt hchunk) (by decide)
      · change (flashAddress cmdReadData (address + offset) ++ _).length - addressHeader - 3 ≤ _
        rw [List.length_append, List.length_replicate]
        change 5 + (transferSize (min (length - offset) flashSectorSize) - addressHeader) - 5 - 3 ≤ _
        unfold transferSize addressHeader
        omega
      · exact Nat.le_add_right address offset
      · omega
    intro reply
    cases reply with
    | none => exact stays_pure _
    | some rx => exact ih.bind fun _ => stays_pure _
  | case2 offset h =>
    rw [readLoop, dif_neg h]
    exact stays_pure _

theorem flashRead_stays (ready : Bool) (address length : ℕ) :
    Stays address (address + length) (flashRead ready address length) := by
  unfold flashRead
  split
  · exact stays_pure _
  · rename_i haccepted
    apply readLoop_stays
    by_contra h
    exact haccepted (Or.inr h)

end

/-- A disk request touches only the window of the file system. -/
abbrev InWindow {α : Type} (p : Driver α) : Prop := Stays fsBaseBytes (fsBaseBytes + fsSizeBytes) p

theorem writeSector_inWindow (d : Drive) (sector : UInt32) (buffer : ℕ → UInt8) : InWindow (writeSector d sector buffer) := by
  unfold writeSector
  rw [lbaToFlashAddr_one]
  by_cases hsector : sector.toNat < sectorCount
  case neg =>
    rw [if_neg hsector]
    exact stays_pure _
  rw [if_pos hsector]
  dsimp only
  have hblock := blockOf_sector hsector
  apply ((flashRead_stays _ _ _).mono hblock.start hblock.stop).bind
  intro cache
  cases cache with
  | none => exact stays_pure _
  | some cache =>
    apply ((eraseSector_stays _ _).mono hblock.start hblock.stop).bind
    intro erased
    split
    · exact stays_pure _
    apply ((flashProgram_stays _ _ _ _).mono hblock.start hblock.stop).bind
    intro programmed
    split
    · exact stays_pure _
    · exact stays_pure _

theorem writeSectors_inWindow (d : Drive) (sector : UInt32) (buffer : ℕ → UInt8) (index left : ℕ) :
    InWindow (writeSectors d sector buffer index left) := by
  induction left generalizing index with
  | zero => exact stays_pure _
  | succ left ih =>
    apply (writeSector_inWindow _ _ _).bind
    intro result
    split
    · exact stays_pure _
    · exact ih (index + 1)

theorem diskWrite_inWindow (d : Drive) (buffer : ℕ → UInt8) (sector count : UInt32) : InWindow (diskWrite d buffer sector count) := by
  unfold diskWrite
  split
  · exact stays_pure _
  split
  · exact stays_pure _
  · exact writeSectors_inWindow d sector buffer 0 count.toNat

/-- A range that is refused is not read. -/
theorem diskRead_refused (d : Drive) {sector count : UInt32} (h : sectorCount < sector.toNat + count.toNat) :
    diskRead d sector count = pure (.parErr,[]) ∨ diskRead d sector count = pure (.notRdy,[]) := by
  have hcount : sectorCount = 49152 := by decide
  have hsize : fsSizeBytes = 49152 * 512 := by decide
  unfold diskRead
  split
  · exact Or.inl (Eq.refl _)
  rename_i hnonzero
  split
  · exact Or.inr (Eq.refl _)
  split
  · exact Or.inl (Eq.refl _)
  have hnone : lbaToFlashAddr sector count.toNat = none := by
    unfold lbaToFlashAddr diskSectorSize
    split
    · exact Eq.refl _
    · rw [if_pos (by omega)]
  rw [hnone]
  exact Or.inl (Eq.refl _)

/-! ## Exactness -/

/-- The write is exact: what it returns agrees with what the flash holds then. -/
structure Exact {ε : Type} (chip : Chip ε) (d : Drive) (buffer : ℕ → UInt8) (sector count : UInt32) (e : ε) : Prop where
  ok : ((diskWrite d buffer sector count).run chip.reply e).1 = some .ok →
    chip.cells ((diskWrite d buffer sector count).run chip.reply e).2.1 =
        written (chip.cells e) sector.toNat count.toNat buffer ∧
      sector.toNat + count.toNat ≤ sectorCount
  inWindow : ∀ x ∈ ((diskWrite d buffer sector count).run chip.reply e).2.2,
    Within fsBaseBytes (fsBaseBytes + fsSizeBytes) x.request
  refused : ((diskWrite d buffer sector count).run chip.reply e).1 = some .parErr →
    chip.cells ((diskWrite d buffer sector count).run chip.reply e).2.1 = chip.cells e

/-- The request begins in the window and ends after it, and the data differs from the flash in a sector before the end. -/
def Overruns (d : Drive) (buffer : ℕ → UInt8) (sector count : UInt32) (cells : Cells) : Prop :=
  d.diskReady = true ∧ d.flashReady = true ∧ sector.toNat < sectorCount ∧ sectorCount < sector.toNat + count.toNat ∧
    ∃ i < (sectorCount - sector.toNat) * diskSectorSize,
      buffer i ≠ cells (fsBaseBytes + sector.toNat * diskSectorSize + i)

theorem diskWrite_leaves {ε : Type} {chip : Chip ε} (hchip : Documented chip) {d : Drive} (hready : d.diskReady = true)
    (buffer : ℕ → UInt8) (sector : UInt32) {count : UInt32} (hcount : count ≠ 0) {e : ε} (hidle : chip.Idle e) :
    (diskWrite d buffer sector count).Leaves chip.reply
      (WritesSectors chip d sector.toNat count.toNat buffer e) e := by
  unfold diskWrite
  rw [if_neg hcount, if_neg (not_not_intro hready)]
  have h := writeSectors_leaves hchip d sector buffer 0 count.toNat hidle (fun h => absurd rfl h)
  simp only [Nat.add_zero, Nat.zero_mul, Nat.zero_add] at h
  exact h

/-- Without the flash driver no sector is written. -/
theorem diskWrite_notReady {d : Drive} (hready : d.diskReady = true) (hflash : d.flashReady = false) (buffer : ℕ → UInt8)
    {sector count : UInt32} (hcount : count ≠ 0) (hsector : sector.toNat < sectorCount) :
    diskWrite d buffer sector count = pure .error := by
  have hwrite : ∀ buffer, writeSector d (sector + Nat.toUInt32 0) buffer = pure .error := by
    intro buffer
    unfold writeSector
    have hfirst : sector + Nat.toUInt32 0 = sector := UInt32.add_zero _
    rw [hfirst, lbaToFlashAddr_one, if_pos hsector, hflash]
    exact Eq.refl _
  obtain ⟨n,hn⟩ : ∃ n, count.toNat = n + 1 :=
    Nat.exists_eq_succ_of_ne_zero fun h => hcount (UInt32.toNat_inj.mp h)
  rw [diskWrite, if_neg hcount, if_neg (not_not_intro hready), hn, writeSectors, hwrite]
  exact Eq.refl _

theorem exact_of_not_overruns {ε : Type} {chip : Chip ε} (hchip : Documented chip) {d : Drive} {buffer : ℕ → UInt8}
    {sector count : UInt32} {e : ε} (hidle : chip.Idle e) (h : ¬Overruns d buffer sector count (chip.cells e)) :
    Exact chip d buffer sector count e := by
  have hwindow := Adds.run chip.reply e (diskWrite_inWindow d buffer sector count)
  have hplain : ∀ {result}, diskWrite d buffer sector count = pure result → result ≠ .ok → Exact chip d buffer sector count e := by
    intro result hresult hne
    constructor
    · rw [hresult]
      exact fun hok => absurd (Option.some.inj hok) hne
    · exact hwindow
    · rw [hresult]
      exact fun _ => rfl
  by_cases hcount : count = 0
  · exact hplain (if_pos hcount) nofun
  cases hready : d.diskReady with
  | false =>
    have hrefused : diskWrite d buffer sector count = pure .notRdy := by
      rw [diskWrite, if_neg hcount, hready]
      exact Eq.refl _
    exact hplain hrefused nofun
  | true =>
  by_cases hflash : d.flashReady = false ∧ sector.toNat < sectorCount
  · exact hplain (diskWrite_notReady hready hflash.1 buffer hcount hflash.2) nofun
  obtain ⟨result,hresult,-,-,hok,hparErr⟩ := diskWrite_leaves hchip hready buffer sector hcount hidle
  have hpos : 0 < count.toNat := Nat.pos_of_ne_zero fun h => hcount (UInt32.toNat_inj.mp h)
  refine ⟨fun hout => ?_,hwindow,fun hout => ?_⟩
  · obtain ⟨hcells,hrange⟩ := hok (Option.some.inj (hresult.symm.trans hout))
    exact ⟨hcells,hrange hpos⟩
  · obtain ⟨hrange,hcells⟩ := hparErr (Option.some.inj (hresult.symm.trans hout))
    rw [hcells, written, NorFlash.overwrite_eq_self]
    intro i hi
    by_contra hne
    have hmin : min count.toNat (sectorCount - sector.toNat) = sectorCount - sector.toNat := by omega
    rw [hmin] at hi
    have hsector : sector.toNat < sectorCount := by
      by_contra hout
      rw [Nat.sub_eq_zero_of_le (Nat.not_lt.mp hout), Nat.zero_mul] at hi
      exact Nat.not_lt_zero i hi
    have hflash : d.flashReady = true := Bool.eq_true_of_not_eq_false fun hflash' => hflash ⟨hflash',hsector⟩
    exact h ⟨hready,hflash,hsector,hrange,i,hi,hne⟩

/-! ## A flash that never fails -/

/-- A chip that does at once what it is told: its cells, and whether writing is enabled. -/
def plainTransfer (tx : List UInt8) (e : Cells × Bool) : Option (List UInt8) × (Cells × Bool) :=
  if tx.getD 0 0 = cmdWriteEnable then (some tx,(e.1,true))
  else if tx.getD 0 0 = cmdReadStatus then (some (List.replicate tx.length 0),e)
  else if tx.getD 0 0 = cmdSectorErase4K ∧ e.2 then
    (some tx,(NorFlash.erase e.1 (blockOf (commandAddress tx)) flashSectorSize,false))
  else if tx.getD 0 0 = cmdPageProgram ∧ e.2 then
    (some tx,(NorFlash.program e.1 (commandAddress tx) (tx.length - addressHeader) (fun i => tx.getD (addressHeader + i) 0),false))
  else (some ((List.range tx.length).map fun i => e.1 (commandAddress tx + (i - addressHeader))),e)

def plainReply : (c : Request) → Cells × Bool → Answer c × (Cells × Bool)
  | .polledTransfer tx, e => plainTransfer tx e
  | .usleep _, e => ((),e)

def plainChip : Chip (Cells × Bool) where
  reply := plainReply
  cells e := e.1
  Idle _ := True
  Enabled e := e.2 = true

theorem plainTransfer_erase {tx : List UInt8} {e : Cells × Bool} (h : tx.getD 0 0 = cmdSectorErase4K) (henabled : e.2 = true) :
    plainTransfer tx e = (some tx,(NorFlash.erase e.1 (blockOf (commandAddress tx)) flashSectorSize,false)) := by
  rw [plainTransfer, h, if_neg (by decide), if_neg (by decide), if_pos ⟨rfl,henabled⟩]

theorem plainTransfer_program {tx : List UInt8} {e : Cells × Bool} (h : tx.getD 0 0 = cmdPageProgram) (henabled : e.2 = true) :
    plainTransfer tx e = (some tx,(NorFlash.program e.1 (commandAddress tx) (tx.length - addressHeader)
      (fun i => tx.getD (addressHeader + i) 0),false)) := by
  rw [plainTransfer, h, if_neg (by decide), if_neg (by decide), if_neg (fun h => absurd h.1 (by decide)), if_pos ⟨rfl,henabled⟩]

theorem plainTransfer_read {tx : List UInt8} {e : Cells × Bool} (h : tx.getD 0 0 = cmdReadData) :
    plainTransfer tx e =
      (some ((List.range tx.length).map fun i => e.1 (commandAddress tx + (i - addressHeader))),e) := by
  rw [plainTransfer, h, if_neg (by decide), if_neg (by decide), if_neg (fun h => absurd h.1 (by decide)),
    if_neg (fun h => absurd h.1 (by decide))]

theorem plainChip_documented : Documented plainChip where
  usleep _ _ := rfl
  writeEnable _ _ _ _ := ⟨rfl,trivial,rfl⟩
  readStatus _ _ _ := ⟨rfl,fun _ => trivial⟩
  erase e rx address _ henabled haligned hrange _ := by
    have hblock : blockOf address = address := Nat.div_mul_cancel (Nat.dvd_of_mod_eq_zero haligned)
    change (plainTransfer (flashAddress cmdSectorErase4K address) e).2.1 = _
    rw [plainTransfer_erase rfl henabled, commandAddress_bare _ (address_lt hrange), hblock]
    exact Eq.refl _
  program e rx address n data _ henabled hrange _ _ := by
    change (plainTransfer (flashAddress cmdPageProgram address ++ (List.range n).map data) e).2.1 = _
    have hlength : (flashAddress cmdPageProgram address ++ (List.range n).map data).length - addressHeader = n := by
      rw [List.length_append, List.length_map, List.length_range]
      exact Nat.add_sub_cancel_left 5 n
    rw [plainTransfer_program rfl henabled, commandAddress_flashAddress _ (address_lt hrange), hlength]
    dsimp only [plainChip]
    apply NorFlash.program_congr
    intro i hi
    rw [List.getD_append_right _ _ _ _ (Nat.le_add_right 5 i)]
    have hindex : addressHeader + i - (flashAddress cmdPageProgram address).length = i := Nat.add_sub_cancel_left 5 i
    rw [hindex, List.getD_eq_getElem?_getD, List.getElem?_map, List.getElem?_range hi]
    exact Eq.refl _
  read e rx address n _ hrange hrx := by
    have hreply : plainTransfer (flashAddress cmdReadData address ++
        List.replicate (transferSize n - addressHeader) 0) e = _ := plainTransfer_read (Eq.refl _)
    have hlength : (flashAddress cmdReadData address ++ List.replicate (transferSize n - addressHeader) (0 : UInt8)).length =
        transferSize n := by
      rw [List.length_append, List.length_replicate]
      change 5 + (transferSize n - 5) = transferSize n
      unfold transferSize addressHeader
      omega
    rw [commandAddress_flashAddress _ (address_lt hrange), hlength] at hreply
    have hrx := (Option.some.inj ((congrArg Prod.fst hreply).symm.trans hrx)).symm
    have hafter := congrArg Prod.snd hreply
    refine ⟨congrArg Prod.fst hafter,trivial,?_,fun i hi => ?_⟩
    · rw [hrx, List.length_map, List.length_range]
    · have hin : addressHeader + i < transferSize n := by
        unfold transferSize addressHeader
        omega
      rw [hrx, List.getD_eq_getElem?_getD, List.getElem?_map, List.getElem?_range hin, Option.map_some, Option.getD_some,
        Nat.add_sub_cancel_left]
      exact Eq.refl _

theorem plainChip_reliable : Reliable plainChip where
  receives tx e := by
    change (plainTransfer tx e).1 ≠ none
    unfold plainTransfer
    split
    · exact Option.some_ne_none _
    split
    · exact Option.some_ne_none _
    split
    · exact Option.some_ne_none _
    split <;> exact Option.some_ne_none _
  idle e rx hrx := by
    cases hrx
    exact Eq.refl _

/-- Of a request that ends after the window, the sectors in the window are written, and it is refused. -/
theorem plainChip_overrun {d : Drive} (hready : d.diskReady = true) (hflash : d.flashReady = true) (buffer : ℕ → UInt8)
    {sector count : UInt32} (hrange : sectorCount < sector.toNat + count.toNat) (hsector : sector.toNat < sectorCount)
    (e : Cells × Bool) : (diskWrite d buffer sector count).Leaves plainChip.reply (fun r e' =>
      r = some .parErr ∧ e'.1 = written e.1 sector.toNat (sectorCount - sector.toNat) buffer) e := by
  have hcount : count ≠ 0 := by
    intro hzero
    rw [hzero] at hrange
    exact absurd hsector (Nat.not_lt.mpr (Nat.le_of_lt hrange))
  have hmin : min count.toNat (sectorCount - sector.toNat) = sectorCount - sector.toNat := by omega
  apply (diskWrite_leaves plainChip_documented hready buffer sector hcount (e := e) trivial).mono
  rintro r e' ⟨result,hr,hnotRdy,herror,hok,hparErr⟩
  cases result with
  | ok =>
    have hpos : 0 < count.toNat := by omega
    exact absurd ((hok rfl).2 hpos) (Nat.not_le.mpr hrange)
  | error => exact absurd rfl (herror ⟨plainChip_reliable,hflash⟩)
  | notRdy => exact absurd rfl hnotRdy
  | parErr =>
    rw [hmin] at hparErr
    exact ⟨hr,(hparErr rfl).2⟩

theorem plainChip_overruns {d : Drive} {buffer : ℕ → UInt8} {sector count : UInt32} {e : Cells × Bool}
    (h : Overruns d buffer sector count e.1) : ¬Exact plainChip d buffer sector count e := by
  obtain ⟨hready,hflash,hsector,hrange,i,hi,hne⟩ := h
  intro hexact
  obtain ⟨hresult,hcells⟩ := plainChip_overrun hready hflash buffer hrange hsector e
  have hsame : written e.1 sector.toNat (sectorCount - sector.toNat) buffer = e.1 :=
    hcells.symm.trans (hexact.refused hresult)
  exact hne ((NorFlash.overwrite_eq_self _ _ _ _).mp hsame i hi)

/-- On every flash and from every state it may be in, a write is exact, unless it overruns the window and the flash
differs from the data. -/
theorem diskWrite_exact_iff (d : Drive) (buffer : ℕ → UInt8) (sector count : UInt32) (cells : Cells) :
    (∀ (ε : Type) (chip : Chip ε), Documented chip → ∀ e, chip.Idle e → chip.cells e = cells →
      Exact chip d buffer sector count e) ↔ ¬Overruns d buffer sector count cells := by
  constructor
  · intro h hover
    exact plainChip_overruns (e := (cells,false)) hover (h _ plainChip plainChip_documented (cells,false) trivial rfl)
  · rintro h ε chip hchip e hidle rfl
    exact exact_of_not_overruns hchip hidle h

/-- Two sectors of zeros, written over the last sector of an erased flash and the one after it. -/
theorem diskWrite_not_exact : ¬∀ (d : Drive) (buffer : ℕ → UInt8) (sector count : UInt32) (ε : Type) (chip : Chip ε),
    Documented chip → ∀ e, chip.Idle e → Exact chip d buffer sector count e := by
  intro h
  have hover : Overruns ⟨true,true⟩ (fun _ => 0) 49151 2 fun _ => 0xff :=
    ⟨rfl,rfl,by decide,by decide,0,by decide,by decide⟩
  exact plainChip_overruns (e := (fun _ => 0xff,false)) hover (h _ _ _ _ _ plainChip plainChip_documented _ trivial)

end Bvstk.Qspi
