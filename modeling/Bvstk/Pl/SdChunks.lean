import Bvstk.Pl.SdController
import Mathlib.Data.List.Range
import Mathlib.Tactic.ByContra

/-! # A transfer moves its sectors, each once and in order

The controller is watched at its registers: which words a write command hands over, and to
which sector a word belongs that is read from the data window. A transfer is its chunks one
after another until one fails, the chunks are the sectors it was asked for, and the words
moved are those of the caller's memory.
-/
namespace Bvstk.Pl.SdController
open Dialogue Program

/-! ## The registers, watched -/

/-- A word of a sector on its way to the card or from it. -/
structure Moved where
  sector : ℕ
  word : ℕ
  value : UInt32

/-- What has been written to the registers, the sector of the last read command, and the
words moved so far. -/
@[ext] structure Port where
  block : UInt32
  blockCount : UInt32
  window : ℕ → UInt32
  fetched : UInt32
  toCard : List Moved
  fromCard : List Moved

/-- The words a write command hands over. -/
def Port.handed (p : Port) : List Moved :=
  (List.range (p.blockCount.toNat * bufferWordsPerBlock)).map fun k =>
    ⟨p.block.toNat + k / bufferWordsPerBlock,k % bufferWordsPerBlock,p.window k⟩

def Port.write (p : Port) (offset : ℕ) (value : UInt32) : Port :=
  if offset = blockOffset then { p with block := value }
  else if offset = blockCountOffset then { p with blockCount := value }
  else if offset = controlOffset then
    if value = controlWrite then { p with toCard := p.toCard ++ p.handed }
    else if value = controlRead then { p with fetched := p.block }
    else p
  else if dataWindowOffset ≤ offset then
    { p with window := fun k => if k = (offset - dataWindowOffset) / 4 then value else p.window k }
  else p

def Port.read (p : Port) (offset : ℕ) (value : UInt32) : Port :=
  if dataWindowOffset ≤ offset then
    let k := (offset - dataWindowOffset) / 4
    { p with
      fromCard := p.fromCard ++ [⟨p.fetched.toNat + k / bufferWordsPerBlock,k % bufferWordsPerBlock,value⟩] }
  else p

/-- An access that fails does nothing. -/
def Port.step (p : Port) : Access → Port
  | ⟨.write32 _ offset value,ok⟩ => match ok with
    | true => p.write offset value
    | false => p
  | ⟨.read32 _ offset,reply⟩ => match reply with
    | some value => p.read offset value
    | none => p
  | _ => p

def Port.after (p : Port) (log : List Access) : Port := log.foldl Port.step p

/-- The words moved in one direction. -/
def Port.moved (p : Port) (write : Bool) : List Moved := if write then p.toCard else p.fromCard

/-- The words of memory from word `start` on, with the sectors they belong to. -/
def wordsOf (first : UInt32) (m : Memory) (start n : ℕ) : List Moved :=
  (List.range' start n).map fun k => ⟨first.toNat + k / bufferWordsPerBlock,k % bufferWordsPerBlock,m.word (4 * k)⟩

/-! ## Chunks -/

structure Chunk where
  sector : UInt32
  position : ℕ
  blocks : ℕ

/-- The sectors of a chunk, each with its place in memory. -/
def Chunk.sectors (k : Chunk) : List (ℕ × ℕ) :=
  (List.range k.blocks).map fun i => (k.sector.toNat + i,k.position + blockSize * i)

/-- The chunks are the sectors that were asked for, in order. -/
structure Chunking (first : UInt32) (sectorCount : ℕ) (chunks : List Chunk) : Prop where
  covers : chunks.flatMap Chunk.sectors = (List.range sectorCount).map fun i => (first.toNat + i,blockSize * i)
  size : ∀ k ∈ chunks, 1 ≤ k.blocks ∧ k.blocks ≤ maxTransferBlocks
  inRange : ∀ k ∈ chunks, k.sector.toNat + k.blocks ≤ 2^32

/-- The chunks one after another until one fails, with the log, what is returned, and the
result of each chunk that was begun. -/
inductive UntilFailure (c : Controller) (write : Bool) (timeoutMs : UInt32) (polls : ℕ) :
    List Chunk → Memory → List Access → Option (Status × Memory) → Prop
  | done (m : Memory) : UntilFailure c write timeoutMs polls [] m [] (some (.ok,m))
  | failed {k : Chunk} {chunks : List Chunk} {m : Memory} {log : List Access} {out : Option (Status × Memory)}
      (hchunk : (transferChunk c write timeoutMs polls k.sector k.position k.blocks m).Ends log out)
      (hfailed : ∀ m', out ≠ some (.ok,m')) : UntilFailure c write timeoutMs polls (k :: chunks) m log out
  | next {k : Chunk} {chunks : List Chunk} {m m' : Memory} {log rest : List Access} {out : Option (Status × Memory)}
      (hchunk : (transferChunk c write timeoutMs polls k.sector k.position k.blocks m).Ends log (some (.ok,m')))
      (hrest : UntilFailure c write timeoutMs polls chunks m' rest out) :
      UntilFailure c write timeoutMs polls (k :: chunks) m (log ++ rest) out

/-- Accesses that move nothing and leave the registers of a chunk as they are. -/
def Quiet (log : List Access) : Prop := ∀ p : Port, p.after log = p

/-! ## What the pieces add -/

variable {c : Controller} {write : Bool} {timeoutMs : UInt32} {polls : ℕ} {first : UInt32} {p : Port}

@[simp] theorem after_nil : p.after [] = p := rfl
@[simp] theorem after_append (log rest : List Access) : p.after (log ++ rest) = (p.after log).after rest := by
  rw [Port.after, List.foldl_append]
  exact Eq.refl _

theorem quiet_nil : Quiet [] := fun _ => rfl

theorem Quiet.append {log rest : List Access} (h : Quiet log) (h' : Quiet rest) : Quiet (log ++ rest) := by
  intro p
  rw [after_append, h p, h' p]

/-- A program whose accesses move nothing. -/
def Hushed {α : Type} (d : Driver α) : Prop := d.Adds fun _ new => Quiet new

theorem Hushed.bind {α β : Type} {d : Driver α} {f : α → Driver β} (h : Hushed d) (hf : ∀ a, Hushed (f a)) :
    Hushed (d >>= f) := Adds.bind_log Quiet.append h hf

theorem hushed_pure {α : Type} (a : α) : Hushed (pure a : Driver α) := adds_pure quiet_nil

theorem hushed_ite {α : Type} {P : Prop} [Decidable P] {d d' : Driver α} (h : Hushed d) (h' : Hushed d') :
    Hushed (if P then d else d') := by
  split
  · exact h
  · exact h'

theorem hushed_nowMs : Hushed nowMs := adds_request fun _ _ => rfl
theorem hushed_sleepMs (milliseconds : UInt32) : Hushed (sleepMs milliseconds) := adds_request fun _ _ => rfl
theorem hushed_lock (timeoutMs : UInt32) : Hushed (lock timeoutMs) := adds_request fun _ _ => rfl
theorem hushed_unlock : Hushed unlock := adds_request fun _ _ => rfl
theorem hushed_prepare : Hushed prepare := adds_request fun _ _ => rfl
theorem hushed_wait (timeoutMs : UInt32) : Hushed (wait timeoutMs) := adds_request fun _ _ => rfl

/-- A register below the data window is read. -/
theorem hushed_read32 {offset : ℕ} (h : offset < dataWindowOffset) : Hushed (read32 offset) := by
  apply (read32_adds Region.registers offset).mono
  rintro r new ⟨reply,rfl,-⟩ p
  cases reply with
  | none => rfl
  | some value => exact if_neg (Nat.not_le.mpr h)

theorem hushed_clearResult : Hushed clearResult := by
  apply (write32_adds Region.registers controlOffset controlClear).mono
  rintro r new ⟨ok,rfl,-⟩ p
  cases ok with
  | true => rfl
  | false => rfl

theorem hushed_bufferIndex : Hushed (write32 bufferIndexOffset 0) := by
  apply (write32_adds Region.registers bufferIndexOffset 0).mono
  rintro r new ⟨ok,rfl,-⟩ p
  cases ok with
  | true => rfl
  | false => rfl

theorem hushed_readStatus : Hushed readStatus := by
  apply (hushed_read32 (by decide)).bind
  intro reply
  cases reply with
  | error e => exact hushed_pure _
  | ok value => exact hushed_pure _

theorem hushed_cardReady : Hushed cardReady := by
  apply hushed_readStatus.bind
  intro reply
  cases reply with
  | error e => exact hushed_pure _
  | ok status => exact hushed_pure _

theorem returns_cardReady : Returns cardReady := by
  have hread : Returns readStatus := by
    apply Returns.bind ((read32_adds Region.registers statusOffset).mono ?_)
    · intro reply
      cases reply with
      | error e => exact returns_pure _
      | ok value => exact returns_pure _
    · rintro r new ⟨reply,-,rfl⟩
      exact nofun
  apply hread.bind
  intro reply
  cases reply with
  | error e => exact returns_pure _
  | ok status => exact returns_pure _

theorem hushed_completionWait (effective : UInt32) : Hushed (completionWait c effective) :=
  hushed_ite (hushed_wait effective) (hushed_pure _)

theorem hushed_prepareCompletion : Hushed (prepareCompletion c) := hushed_ite hushed_prepare (hushed_pure _)

theorem hushed_waitLoop (started : UInt64) (effective : UInt32) : Hushed (waitLoop c started effective polls) := by
  induction polls with
  | zero => exact adds_unfinished quiet_nil
  | succ polls ih =>
    apply (hushed_completionWait effective).bind
    intro result
    apply hushed_ite (hushed_pure _)
    apply hushed_readStatus.bind
    intro reply
    cases reply with
    | error e => exact hushed_pure _
    | ok status =>
      apply hushed_ite
      · exact hushed_ite (hushed_pure _) (hushed_pure _)
      · apply hushed_ite (hushed_pure _)
        apply hushed_nowMs.bind
        intro now
        exact hushed_ite (hushed_pure _) ((hushed_sleepMs 1).bind fun _ => ih)

theorem hushed_waitForDone : Hushed (waitForDone c timeoutMs polls) :=
  hushed_nowMs.bind fun _ => hushed_waitLoop _ _

/-! ## Words of memory -/

section
variable {m : Memory}

theorem word_putWord (i : ℕ) (value : UInt32) : (m.putWord i value).word i = value := by
  have hbyte : ∀ j < 4, (m.putWord i value) (i + j) = byteOf value j := by
    intro j hj
    rw [Memory.putWord, if_pos ⟨Nat.le_add_right i j,Nat.add_lt_add_left hj i⟩, Nat.add_sub_cancel_left]
  have hzero := hbyte 0 (by omega)
  rw [Nat.add_zero] at hzero
  have hlt := value.toNat_lt
  rw [Memory.word, hzero, hbyte 1 (by omega), hbyte 2 (by omega), hbyte 3 (by omega)]
  apply UInt32.toNat_inj.mp
  simp only [byteOf, UInt8.toNat_ofNat', UInt32.toNat_ofNat']
  omega

/-- Words of memories that agree on their bytes. -/
theorem word_congr {m' : Memory} {i : ℕ} (h : ∀ j, i ≤ j → j < i + 4 → m' j = m j) : m'.word i = m.word i := by
  rw [Memory.word, Memory.word, h i (by omega) (by omega), h (i + 1) (by omega) (by omega),
    h (i + 2) (by omega) (by omega), h (i + 3) (by omega) (by omega)]

theorem putWord_of_not {i j : ℕ} (h : j < i ∨ i + 4 ≤ j) (value : UInt32) : m.putWord i value j = m j := by
  rw [Memory.putWord, if_neg]
  omega

theorem wordsOf_congr {m' : Memory} {start n : ℕ} (h : ∀ j, 4 * start ≤ j → j < 4 * (start + n) → m' j = m j) :
    wordsOf first m' start n = wordsOf first m start n := by
  apply List.map_congr_left
  intro k hk
  rw [List.mem_range'_1] at hk
  have hword : m'.word (4 * k) = m.word (4 * k) := word_congr fun j hj hj' => h j (by omega) (by omega)
  rw [hword]

theorem wordsOf_append (start n n' : ℕ) :
    wordsOf first m start n ++ wordsOf first m (start + n) n' = wordsOf first m start (n + n') := by
  rw [wordsOf, wordsOf, ← List.map_append, List.range'_append_1]
  exact Eq.refl _

@[simp] theorem wordsOf_zero (start : ℕ) : wordsOf first m start 0 = [] := rfl

/-- The words of whole sectors, counted from the sector they start with. -/
theorem wordsOf_sectors (s n : ℕ) : wordsOf first m (bufferWordsPerBlock * s) n = (List.range n).map fun k =>
    ⟨first.toNat + s + k / bufferWordsPerBlock,k % bufferWordsPerBlock,m.word (s * blockSize + k * 4)⟩ := by
  rw [wordsOf, List.range'_eq_map_range, List.map_map]
  apply List.map_congr_left
  intro k _
  have hposition : 4 * (bufferWordsPerBlock * s + k) = s * blockSize + k * 4 := by
    simp only [bufferWordsPerBlock, blockSize]
    omega
  rw [Function.comp_apply, Nat.mul_add_div (by decide), Nat.mul_add_mod, hposition, Nat.add_assoc]

end

/-! ## What a transfer of words adds -/

/-- At registers with `C` at most `total` words are moved in one direction, all of them on
success, and they are the words of the memory that is left from word `start` on. -/
def Moves (C : Port → Prop) (write : Bool) (first : UInt32) (start total : ℕ) (m : Memory)
    (r : Option (Status × Memory)) (new : List Access) : Prop :=
  ∃ n m', n ≤ total ∧ (∀ s m'', r = some (s,m'') → m'' = m' ∧ (s = .ok → n = total)) ∧
    (∀ p, C p → (p.after new).moved write = p.moved write ++ wordsOf first m' start n ∧
      (p.after new).moved (!write) = p.moved (!write)) ∧
    (∀ j, j < 4 * start ∨ 4 * (start + n) ≤ j → m' j = m j) ∧ (write = true → m' = m)

/-- Nothing has been moved, and this is no success. -/
theorem moves_nothing {C : Port → Prop} {start total : ℕ} {m : Memory} {r : Option (Status × Memory)} {new : List Access}
    (hr : ∀ s m', r = some (s,m') → m' = m ∧ s ≠ .ok) (hidle : ∀ p b, C p → (p.after new).moved b = p.moved b) :
    Moves C write first start total m r new := by
  refine ⟨0,m,Nat.zero_le total,?_,?_,fun _ _ => rfl,fun _ => rfl⟩
  · intro s m' hsome
    exact ⟨(hr s m' hsome).1,fun hok => absurd hok (hr s m' hsome).2⟩
  · intro p hp
    rw [wordsOf_zero, List.append_nil]
    exact ⟨hidle p write hp,hidle p (!write) hp⟩

/-- Without success there may be more words than were asked for here. -/
theorem Moves.failed {C : Port → Prop} {start total total' : ℕ} {m : Memory} {r : Option (Status × Memory)} {new : List Access}
    (h : Moves C write first start total m r new) (htotal : total ≤ total') (hr : ∀ m', r ≠ some (.ok,m')) :
    Moves C write first start total' m r new := by
  obtain ⟨n,m',hn,hres,hmoved⟩ := h
  refine ⟨n,m',hn.trans htotal,?_,hmoved⟩
  rintro s m'' hsome
  refine ⟨(hres s m'' hsome).1,?_⟩
  rintro rfl
  exact absurd hsome (hr m'')

/-- Nothing is left to be moved. -/
theorem moves_done {C : Port → Prop} {start : ℕ} {m : Memory} : Moves C write first start 0 m (some (.ok,m)) [] := by
  refine ⟨0,m,Nat.le_refl 0,?_,?_,fun _ _ => rfl,fun _ => rfl⟩
  · intro s m' hsome
    cases hsome
    exact ⟨rfl,fun _ => rfl⟩
  · intro p _
    rw [wordsOf_zero, List.append_nil]
    exact ⟨rfl,rfl⟩

/-- A success goes on with the words after it. -/
theorem Moves.next {start total total' : ℕ} {m m₁ : Memory} {r : Option (Status × Memory)} {new rest : List Access}
    (h : Moves (fun _ => True) write first start total m (some (.ok,m₁)) new)
    (h' : Moves (fun _ => True) write first (start + total) total' m₁ r rest) :
    Moves (fun _ => True) write first start (total + total') m r (new ++ rest) := by
  obtain ⟨n,m',-,hres,hmoved,hframe,hwrite⟩ := h
  obtain ⟨rfl,hn⟩ := hres .ok m₁ rfl
  obtain rfl := hn rfl
  obtain ⟨n',m₂,hn',hres',hmoved',hframe',hwrite'⟩ := h'
  refine ⟨n + n',m₂,Nat.add_le_add_left hn' n,?_,?_,?_,?_⟩
  · intro s m'' hsome
    obtain ⟨hm,hok⟩ := hres' s m'' hsome
    exact ⟨hm,fun hs => congrArg (n + ·) (hok hs)⟩
  · intro p _
    have hkept : wordsOf first m₂ start n = wordsOf first m₁ start n :=
      wordsOf_congr fun j _ hj => hframe' j (Or.inl hj)
    rw [after_append, (hmoved' _ trivial).1, (hmoved' _ trivial).2, (hmoved p trivial).1, (hmoved p trivial).2,
      List.append_assoc, ← hkept, wordsOf_append]
    exact ⟨rfl,rfl⟩
  · intro j hj
    rw [hframe' j (by omega), hframe j (by omega)]
  · intro hw
    rw [hwrite' hw, hwrite hw]

/-! ## The data window -/

theorem write_window (word : ℕ) (value : UInt32) : p.write (dataWindowOffset + word * 4) value =
    { p with window := fun k => if k = word then value else p.window k } := by
  have hword : (dataWindowOffset + word * 4 - dataWindowOffset) / 4 = word := by omega
  rw [Port.write, if_neg (by simp only [dataWindowOffset, blockOffset]; omega),
    if_neg (by simp only [dataWindowOffset, blockCountOffset]; omega),
    if_neg (by simp only [dataWindowOffset, controlOffset]; omega), if_pos (Nat.le_add_right _ _), hword]

theorem read_window (word : ℕ) (value : UInt32) : p.read (dataWindowOffset + word * 4) value =
    { p with fromCard := p.fromCard ++
        [⟨p.fetched.toNat + word / bufferWordsPerBlock,word % bufferWordsPerBlock,value⟩] } := by
  have hword : (dataWindowOffset + word * 4 - dataWindowOffset) / 4 = word := by omega
  rw [Port.read, if_pos (Nat.le_add_right _ _)]
  dsimp only
  rw [hword]

/-- On success the window holds the words of memory; nothing else changes. -/
def Fills (m : Memory) (position word left : ℕ) (r : Option Status) (new : List Access) : Prop :=
  ∀ p : Port, ∃ window, p.after new = { p with window := window } ∧ (∀ k < word, window k = p.window k) ∧
    (r = some .ok → ∀ k, word ≤ k → k < word + left → window k = m.word (position + k * 4))

theorem writeWords_adds (m : Memory) (position word left : ℕ) :
    (writeWords m position word left).Adds (Fills m position word left) := by
  induction left generalizing word with
  | zero =>
    apply adds_pure
    intro p
    exact ⟨p.window,rfl,fun _ _ => rfl,fun _ k hk hk' => absurd hk' (Nat.not_lt.mpr hk)⟩
  | succ left ih =>
    apply (write32_adds Region.registers (dataWindowOffset + word * 4) (m.word (position + word * 4))).bind
    · rintro new ⟨ok,-,hnone⟩
      cases hnone
    · rintro result new ⟨ok,rfl,hresult⟩
      cases hresult
      cases ok with
      | false =>
        apply adds_pure
        intro p
        exact ⟨p.window,rfl,fun _ _ => rfl,fun h => nomatch h⟩
      | true =>
        apply (ih (word + 1)).mono
        intro r more hmore p
        obtain ⟨window,hafter,hbefore,hfilled⟩ := hmore (p.write (dataWindowOffset + word * 4) (m.word (position + word * 4)))
        rw [write_window] at hafter hbefore
        refine ⟨window,?_,?_,?_⟩
        · rw [after_append]
          refine Eq.trans ?_ hafter
          rw [← write_window]
          exact Eq.refl _
        · intro k hk
          rw [hbefore k (by omega)]
          exact if_neg (Nat.ne_of_lt hk)
        · intro hr k hk hk'
          rcases Nat.eq_or_lt_of_le hk with rfl | hlt
          · rw [hbefore word (Nat.lt_succ_self word)]
            exact if_pos rfl
          · exact hfilled hr k hlt (by omega)

theorem copyBufferToController_adds (m : Memory) (position sectorCount : ℕ) :
    (copyBufferToController m position sectorCount).Adds (Fills m position 0 (sectorCount * bufferWordsPerBlock)) := by
  have hnothing : Fills m position 0 (sectorCount * bufferWordsPerBlock) (some .io) [] := by
    intro p
    exact ⟨p.window,rfl,fun _ _ => rfl,fun h => nomatch h⟩
  unfold copyBufferToController
  split
  · exact adds_pure hnothing
  · apply (hushed_bufferIndex.and (write32_adds _ _ _)).bind
    · rintro new ⟨-,ok,-,hnone⟩
      cases hnone
    · rintro result new ⟨hquiet,-⟩
      have hfills : ∀ {r more}, Fills m position 0 (sectorCount * bufferWordsPerBlock) r more →
          Fills m position 0 (sectorCount * bufferWordsPerBlock) r (new ++ more) := by
        intro r more hmore p
        rw [after_append, hquiet p]
        exact hmore p
      split
      · exact adds_pure (hfills hnothing)
      · exact (writeWords_adds m position 0 _).mono fun r more => hfills

/-- The words read are those of the memory that is left. -/
theorem readWords_adds (s word left : ℕ) (m : Memory) : (readWords (s * blockSize) word left m).Adds
    (Moves (fun p => p.fetched.toNat = first.toNat + s) false first (bufferWordsPerBlock * s + word) left m) := by
  induction left generalizing word m with
  | zero => exact adds_pure moves_done
  | succ left ih =>
    apply (read32_adds Region.registers (dataWindowOffset + word * 4)).bind
    · rintro new ⟨reply,-,hnone⟩
      cases hnone
    · rintro result new ⟨reply,rfl,hresult⟩
      cases hresult
      cases reply with
      | none =>
        apply adds_pure
        apply moves_nothing
        · intro s m' hsome
          cases hsome
          exact ⟨rfl,fun h => nomatch h⟩
        · intro p b _
          exact Eq.refl _
      | some value =>
        apply (ih (word + 1) (m.putWord (s * blockSize + word * 4) value)).mono
        rintro r more ⟨n,m',hn,hres,hmoved,hframe,-⟩
        have hposition : s * blockSize + word * 4 = 4 * (bufferWordsPerBlock * s + word) := by
          simp only [blockSize, bufferWordsPerBlock]
          omega
        have hkept : m'.word (4 * (bufferWordsPerBlock * s + word)) = value := by
          rw [← hposition, ← word_putWord (m := m) (s * blockSize + word * 4) value]
          exact word_congr fun j hj hj' => hframe j (by omega)
        refine ⟨n + 1,m',Nat.succ_le_succ hn,?_,?_,?_,fun h => nomatch h⟩
        · intro s m'' hsome
          exact ⟨(hres s m'' hsome).1,fun hok => congrArg (· + 1) ((hres s m'' hsome).2 hok)⟩
        · intro p hp
          have hstep : p.after ([Access.read Region.registers (dataWindowOffset + word * 4) (some value)] ++ more) =
              (p.read (dataWindowOffset + word * 4) value).after more := Eq.refl _
          have hfirst : wordsOf first m' (bufferWordsPerBlock * s + word) 1 =
              [⟨p.fetched.toNat + word / bufferWordsPerBlock,word % bufferWordsPerBlock,value⟩] := by
            rw [wordsOf, List.range'_one, List.map_singleton, hkept, Nat.mul_add_div (by decide), Nat.mul_add_mod, hp,
              Nat.add_assoc]
          rw [hstep, read_window, Nat.add_comm n 1, ← wordsOf_append, hfirst]
          obtain ⟨hin,hout⟩ := hmoved { p with fromCard := p.fromCard ++
            [⟨p.fetched.toNat + word / bufferWordsPerBlock,word % bufferWordsPerBlock,value⟩] } hp
          rw [hin, hout, ← List.append_assoc]
          exact ⟨rfl,rfl⟩
        · intro j hj
          rw [hframe j (by omega)]
          exact putWord_of_not (by omega) value

/-! ## A chunk -/

theorem ifOk_adds {result : Status} {d : Driver Status} {P : Option Status → List Access → Prop}
    (hok : result = .ok → d.Adds P) (hfailed : result ≠ .ok → P (some result) []) : (ifOk result d).Adds P := by
  unfold ifOk
  split
  · exact hok ‹_›
  · exact adds_pure (hfailed ‹_›)

/-- A quiet step on the way, which is only made after success. -/
theorem ifOk_quiet {result : Status} {d : Driver Status} (h : Hushed d) :
    (ifOk result d).Adds fun r new => Quiet new ∧ (r = some .ok → result = .ok) := by
  apply ifOk_adds
  · intro hok
    exact h.mono fun r new hquiet => ⟨hquiet,fun _ => hok⟩
  · intro hfailed
    exact ⟨quiet_nil,fun h => (Option.some.inj h)⟩

/-- The registers are set for a chunk, and for a write the window is filled. -/
structure Armed (write : Bool) (sector : UInt32) (position sectorCount : ℕ) (m : Memory) (p : Port) : Prop where
  block : p.block = sector
  blockCount : p.blockCount = sectorCount.toUInt32
  window : write = true → ∀ k < sectorCount * bufferWordsPerBlock, p.window k = m.word (position + k * 4)

/-- So far nothing has been moved, and on success the registers are set. -/
structure Arms (write : Bool) (sector : UInt32) (position sectorCount : ℕ) (m : Memory) (r : Option Status)
    (new : List Access) : Prop where
  idle : ∀ p b, (Port.after p new).moved b = p.moved b
  armed : r = some .ok → ∀ p, Armed write sector position sectorCount m (Port.after p new)

section
variable {sector : UInt32} {s position sectorCount : ℕ} {m : Memory}

theorem Arms.quiet {r r' : Option Status} {new more : List Access} (h : Arms write sector position sectorCount m r new)
    (hmore : Quiet more) (hr : r' = some .ok → r = some .ok) : Arms write sector position sectorCount m r' (new ++ more) where
  idle := by
    intro p b
    rw [after_append, hmore]
    exact h.idle p b
  armed := by
    intro hok p
    rw [after_append, hmore]
    exact h.armed (hr hok) p

theorem Arms.nothing {b : Bool} {r : Option Status} {out : Option (Status × Memory)} {new : List Access}
    {start total : ℕ} (h : Arms b sector position sectorCount m r new)
    (hout : ∀ s m', out = some (s,m') → m' = m ∧ s ≠ .ok) :
    Moves (fun _ => True) write first start total m out new := moves_nothing hout fun p b _ => h.idle p b

/-- The command at registers that are set. -/
theorem handed_of_armed (h : Armed true sector (s * blockSize) sectorCount m p) (hsector : sector.toNat = first.toNat + s)
    (hcount : sectorCount ≤ maxTransferBlocks) :
    p.handed = wordsOf first m (bufferWordsPerBlock * s) (sectorCount * bufferWordsPerBlock) := by
  have hblocks : p.blockCount.toNat = sectorCount := by
    rw [h.blockCount]
    exact Nat.mod_eq_of_lt (Nat.lt_of_le_of_lt hcount (by decide))
  rw [wordsOf_sectors, Port.handed, hblocks, h.block, hsector]
  apply List.map_congr_left
  intro k hk
  rw [h.window rfl k (List.mem_range.mp hk)]

theorem fetch_adds (first : UInt32) (s : ℕ) (m : Memory) (hcount : sectorCount ≠ 0 ∧ sectorCount ≤ maxTransferBlocks) :
    (copyBufferFromController m (s * blockSize) sectorCount).Adds
      (Moves (fun p => p.fetched.toNat = first.toNat + s) false first (bufferWordsPerBlock * s)
        (sectorCount * bufferWordsPerBlock) m) := by
  unfold copyBufferFromController
  rw [if_neg (by omega)]
  apply (hushed_bufferIndex.and (write32_adds _ _ _)).bind
  · rintro new ⟨-,ok,-,hnone⟩
    cases hnone
  · rintro result new ⟨hquiet,-⟩
    split
    · apply adds_pure
      apply moves_nothing
      · intro s m' hsome
        cases hsome
        exact ⟨rfl,fun h => nomatch h⟩
      · intro p b _
        rw [List.append_nil, hquiet]
    · apply (readWords_adds s 0 _ m).mono
      rintro r more ⟨n,m',hn,hres,hmoved,hrest⟩
      refine ⟨n,m',hn,hres,?_,hrest⟩
      intro p hp
      rw [after_append, hquiet]
      exact hmoved p hp

/-- What the command does to the registers, if it reaches them. -/
def Port.command (p : Port) (write ok : Bool) : Port :=
  if ok = true then
    if write = true then { p with toCard := p.toCard ++ p.handed } else { p with fetched := p.block }
  else p

theorem after_command (write ok : Bool) :
    p.after [Access.write Region.registers controlOffset (if write then controlWrite else controlRead) ok] =
      p.command write ok := by
  cases write <;> cases ok <;> exact Eq.refl _

/-- The command has been given or has failed, and nothing is read afterwards. -/
theorem Arms.ended {out : Option (Status × Memory)} {new more : List Access} {ok : Bool}
    (h : Arms write sector (s * blockSize) sectorCount m (some .ok) new) (hsector : sector.toNat = first.toNat + s)
    (hcount : sectorCount ≤ maxTransferBlocks) (hmore : ∀ p : Port, p.after more = p.command write ok)
    (hout : ∀ s m', out = some (s,m') → m' = m) (hfailed : ok = false ∨ write = false → ∀ m', out ≠ some (.ok,m')) :
    Moves (fun _ => True) write first (bufferWordsPerBlock * s) (sectorCount * bufferWordsPerBlock) m out (new ++ more) := by
  by_cases hboth : ok = true ∧ write = true
  · obtain ⟨rfl,rfl⟩ := hboth
    refine ⟨_,m,Nat.le_refl _,fun s m' hsome => ⟨hout s m' hsome,fun _ => rfl⟩,?_,fun _ _ => rfl,fun _ => rfl⟩
    intro p _
    rw [after_append, hmore, Port.command, if_pos rfl, if_pos rfl, handed_of_armed (h.armed rfl p) hsector hcount]
    exact ⟨congrArg (· ++ _) (h.idle p true),h.idle p false⟩
  · have heither : ok = false ∨ write = false := by
      cases ok with
      | false => exact Or.inl rfl
      | true => exact Or.inr (eq_false_of_ne_true fun hw => hboth ⟨rfl,hw⟩)
    apply moves_nothing
    · intro s m' hsome
      refine ⟨hout s m' hsome,?_⟩
      rintro rfl
      exact hfailed heither m' hsome
    · intro p b _
      rw [after_append, hmore, ← h.idle p b]
      rcases heither with rfl | rfl
      · exact Eq.refl _
      · cases ok <;> exact Eq.refl _

/-- After the registers are set: the command, the wait, and for a read the window. -/
theorem command_adds {result : Status} {new : List Access}
    (harms : Arms write sector (s * blockSize) sectorCount m (some result) new)
    (hsector : sector.toNat = first.toNat + s) (hcount : sectorCount ≠ 0 ∧ sectorCount ≤ maxTransferBlocks) :
    (do
      let result ← ifOk result (write32 controlOffset (if write then controlWrite else controlRead))
      let result ← ifOk result (waitForDone c timeoutMs polls)
      if result = .ok ∧ ¬write then copyBufferFromController m (s * blockSize) sectorCount else return (result,m) :
      Driver (Status × Memory)).Adds fun r more => Moves (fun _ => True) write first (bufferWordsPerBlock * s)
        (sectorCount * bufferWordsPerBlock) m r (new ++ more) := by
  by_cases hok : result = .ok
  · subst hok
    apply (write32_adds Region.registers controlOffset _).bind
    · rintro more ⟨ok,-,hnone⟩
      cases hnone
    rintro result more ⟨ok,rfl,hresult⟩
    cases hresult
    have hcommand : ∀ quiet, Quiet quiet → ∀ p : Port, p.after ([Access.write Region.registers controlOffset
        (if write then controlWrite else controlRead) ok] ++ quiet) = p.command write ok := by
      intro quiet hquiet p
      rw [after_append, hquiet]
      exact after_command write ok
    apply (ifOk_quiet hushed_waitForDone).bind
    · rintro quiet ⟨hquiet,-⟩
      exact harms.ended hsector hcount.2 (hcommand quiet hquiet) nofun nofun
    rintro result quiet ⟨hquiet,hwaited⟩
    by_cases hfetch : result = .ok ∧ ¬write
    · rw [if_pos hfetch]
      obtain ⟨rfl,hread⟩ := hfetch
      rw [Bool.not_eq_true] at hread
      subst hread
      have hdone : ok = true := by
        cases ok with
        | true => rfl
        | false => exact nomatch hwaited rfl
      subst hdone
      apply (fetch_adds first s m hcount).mono
      rintro r fetched ⟨n,m',hn,hres,hmoved,hrest⟩
      refine ⟨n,m',hn,hres,?_,hrest⟩
      intro p _
      have hafter : (p.after new).after ([Access.write Region.registers controlOffset
          (if false = true then controlWrite else controlRead) true] ++ quiet) =
          { p.after new with fetched := (p.after new).block } := hcommand quiet hquiet (p.after new)
      rw [← List.append_assoc, ← List.append_assoc, after_append, List.append_assoc, after_append, hafter]
      obtain ⟨hin,hout⟩ := hmoved { p.after new with fetched := (p.after new).block } (by
        dsimp only
        rw [(harms.armed rfl p).block, hsector])
      rw [hin, hout]
      exact ⟨congrArg (· ++ _) (harms.idle p false),harms.idle p true⟩
    · rw [if_neg hfetch]
      apply adds_pure
      rw [List.append_nil]
      apply harms.ended hsector hcount.2 (hcommand quiet hquiet)
      · intro s m' hsome
        cases hsome
        exact rfl
      · rintro heither m' hsome
        cases hsome
        rcases heither with rfl | rfl
        · exact nomatch hwaited rfl
        · exact hfetch ⟨rfl,Bool.false_ne_true⟩
  · have hskip : ∀ d : Driver Status, ifOk result d = pure result := fun d => if_neg hok
    rw [hskip]
    apply (adds_pure (P := fun r more => r = some result ∧ more = []) ⟨rfl,rfl⟩).bind
    · rintro more ⟨hnone,-⟩
      cases hnone
    rintro result' more ⟨hsome,rfl⟩
    cases hsome
    rw [hskip]
    apply (adds_pure (P := fun r more => r = some result ∧ more = []) ⟨rfl,rfl⟩).bind
    · rintro more ⟨hnone,-⟩
      cases hnone
    rintro result' more ⟨hsome,rfl⟩
    cases hsome
    rw [if_neg fun h => hok h.1]
    apply adds_pure
    rw [List.append_nil, List.append_nil, List.append_nil]
    apply harms.nothing
    intro s m' hsome
    cases hsome
    exact ⟨rfl,hok⟩

/-- The block number, and after it the number of blocks. -/
theorem blockCount_adds (sector : UInt32) (position : ℕ) (m : Memory) (ok : Bool) : (ifOk (writeResult ok) (write32 blockCountOffset sectorCount.toUInt32)).Adds
    fun r more => r ≠ none ∧
      Arms false sector position sectorCount m r ([Access.write Region.registers blockOffset sector ok] ++ more) := by
  apply ifOk_adds
  · intro hok
    apply (write32_adds Region.registers blockCountOffset _).mono
    rintro r more ⟨ok',rfl,rfl⟩
    refine ⟨nofun,?_,?_⟩
    · intro p b
      cases ok <;> cases ok' <;> cases b <;> exact Eq.refl _
    · intro hok' p
      cases ok with
      | false => exact nomatch hok
      | true =>
        cases ok' with
        | false => exact nomatch hok'
        | true => exact ⟨Eq.refl _,Eq.refl _,nofun⟩
  · intro hfailed
    refine ⟨nofun,?_,?_⟩
    · intro p b
      cases ok <;> cases b <;> exact Eq.refl _
    · intro hok
      exact absurd (Option.some.inj hok) hfailed

/-- With its words in the window a chunk is ready to be written. -/
theorem Arms.fill {r : Option Status} {new more : List Access}
    (h : Arms false sector position sectorCount m (some .ok) new)
    (hfills : Fills m position 0 (sectorCount * bufferWordsPerBlock) r more) :
    Arms true sector position sectorCount m r (new ++ more) where
  idle := by
    intro p b
    obtain ⟨window,hafter,-⟩ := hfills (p.after new)
    rw [after_append, hafter, ← h.idle p b]
    cases b <;> exact Eq.refl _
  armed := by
    intro hok p
    obtain ⟨window,hafter,-,hfilled⟩ := hfills (p.after new)
    have hset := h.armed rfl p
    rw [after_append, hafter]
    refine ⟨hset.block,hset.blockCount,fun _ k hk => ?_⟩
    exact hfilled hok k (Nat.zero_le k) (by rwa [Nat.zero_add])

/-- A chunk moves its words. -/
theorem transferChunk_adds (hsector : sector.toNat = first.toNat + s)
    (hcount : sectorCount ≠ 0 ∧ sectorCount ≤ maxTransferBlocks) :
    (transferChunk c write timeoutMs polls sector (s * blockSize) sectorCount m).Adds
      (Moves (fun _ => True) write first (bufferWordsPerBlock * s) (sectorCount * bufferWordsPerBlock) m) := by
  unfold transferChunk
  rw [if_neg (by omega)]
  apply (write32_adds Region.registers blockOffset sector).bind
  · rintro new ⟨ok,-,hnone⟩
    cases hnone
  rintro result new ⟨ok,rfl,hresult⟩
  cases hresult
  apply (blockCount_adds sector (s * blockSize) m ok).bind
  · rintro more ⟨hnone,-⟩
    exact absurd rfl hnone
  rintro result more ⟨-,hset⟩
  split
  · rename_i hfailed
    apply adds_pure
    rw [List.append_nil]
    apply hset.nothing
    intro s m' hsome
    cases hsome
    exact ⟨rfl,hfailed⟩
  rename_i hok
  obtain rfl := Decidable.not_not.mp hok
  have hfilled : (copyIfWrite write .ok m (s * blockSize) sectorCount).Adds fun r filled =>
      Arms write sector (s * blockSize) sectorCount m r
        ([Access.write Region.registers blockOffset sector ok] ++ more ++ filled) := by
    cases write with
    | true => exact (copyBufferToController_adds m _ _).mono fun r filled => hset.fill
    | false =>
      apply adds_pure
      rw [List.append_nil]
      exact hset
  apply hfilled.bind
  · intro filled hnone
    rw [← List.append_assoc]
    exact hnone.nothing nofun
  intro result filled hfilled
  apply (ifOk_quiet hushed_clearResult).bind
  · rintro cleared ⟨hquiet,-⟩
    rw [← List.append_assoc, ← List.append_assoc]
    have hnone : Arms write sector (s * blockSize) sectorCount m none _ := hfilled.quiet hquiet nofun
    exact hnone.nothing nofun
  rintro result' cleared ⟨hquiet,hcleared⟩
  have hready := hfilled.quiet hquiet fun hok => congrArg some (hcleared hok)
  apply (ifOk_quiet hushed_prepareCompletion).bind
  · rintro prepared ⟨hquiet,-⟩
    rw [← List.append_assoc, ← List.append_assoc, ← List.append_assoc]
    have hnone : Arms write sector (s * blockSize) sectorCount m none _ := hready.quiet hquiet nofun
    exact hnone.nothing nofun
  rintro result'' prepared ⟨hquiet,hprepared⟩
  simp only [← List.append_assoc]
  exact command_adds (hready.quiet hquiet fun hok => congrArg some (hprepared hok)) hsector hcount

end

/-! ## The transfer -/

/-- The chunks from `sector` sectors on, as the loop makes them. -/
def chunksFrom (first : UInt32) (sectorCount sector : ℕ) : List Chunk :=
  if _h : sector < sectorCount then
    let chunk := min (sectorCount - sector) maxTransferBlocks
    ⟨first + sector.toUInt32,sector * blockSize,chunk⟩ :: chunksFrom first sectorCount (sector + chunk)
  else []
  termination_by sectorCount - sector
  decreasing_by
    simp only [maxTransferBlocks]
    omega

section
variable {sectorCount : ℕ} {m : Memory}

/-- A sector number that is accepted does not wrap. -/
theorem sector_toNat (haccepts : Accepts first sectorCount) {sector : ℕ} (h : sector < sectorCount) :
    (first + sector.toUInt32).toNat = first.toNat + sector := by
  have hfirst := first.toNat_lt
  have hlast := haccepts.2
  have hsector : sector.toUInt32.toNat = sector := Nat.mod_eq_of_lt (by omega)
  rw [UInt32.toNat_add, hsector]
  exact Nat.mod_eq_of_lt (by omega)

theorem chunksFrom_end {sector : ℕ} (h : ¬sector < sectorCount) : chunksFrom first sectorCount sector = [] := by
  rw [chunksFrom, dif_neg h]

theorem chunksFrom_cons {sector : ℕ} (h : sector < sectorCount) : chunksFrom first sectorCount sector =
    ⟨first + sector.toUInt32,sector * blockSize,min (sectorCount - sector) maxTransferBlocks⟩ ::
      chunksFrom first sectorCount (sector + min (sectorCount - sector) maxTransferBlocks) := by
  rw [chunksFrom, dif_pos h]

theorem chunk_size {sector : ℕ} (h : sector < sectorCount) :
    min (sectorCount - sector) maxTransferBlocks ≠ 0 ∧ min (sectorCount - sector) maxTransferBlocks ≤ maxTransferBlocks := by
  simp only [maxTransferBlocks]
  omega

/-- Every sector still to be transferred is in one chunk, at its place in memory. -/
theorem covers_from (haccepts : Accepts first sectorCount) (sector : ℕ) :
    (chunksFrom first sectorCount sector).flatMap Chunk.sectors =
      (List.range' sector (sectorCount - sector)).map fun i => (first.toNat + i,blockSize * i) := by
  induction sector using chunksFrom.induct sectorCount with
  | case1 sector h chunk ih =>
    have hcount : sectorCount - sector = chunk + (sectorCount - (sector + chunk)) := by
      have hchunk : chunk ≤ sectorCount - sector := Nat.min_le_left _ _
      omega
    have hsectors : Chunk.sectors ⟨first + sector.toUInt32,sector * blockSize,chunk⟩ =
        (List.range' sector chunk).map fun i => (first.toNat + i,blockSize * i) := by
      rw [Chunk.sectors, List.range'_eq_map_range, List.map_map, sector_toNat haccepts h]
      apply List.map_congr_left
      intro i _
      rw [Function.comp_apply, Nat.mul_add, Nat.mul_comm sector blockSize, Nat.add_assoc]
    rw [chunksFrom_cons h, List.flatMap_cons, ih]
    conv_rhs => rw [hcount, ← List.range'_append_1, List.map_append, ← hsectors]
  | case2 sector h =>
    rw [chunksFrom_end h, Nat.sub_eq_zero_of_le (Nat.not_lt.mp h)]
    exact Eq.refl _

/-- No chunk is empty, longer than the window or past the last sector number. -/
theorem fits_from (haccepts : Accepts first sectorCount) (sector : ℕ) :
    ∀ k ∈ chunksFrom first sectorCount sector,
      (1 ≤ k.blocks ∧ k.blocks ≤ maxTransferBlocks) ∧ k.sector.toNat + k.blocks ≤ 2^32 := by
  induction sector using chunksFrom.induct sectorCount with
  | case1 sector h chunk ih =>
    intro k hk
    rw [chunksFrom_cons h, List.mem_cons] at hk
    rcases hk with rfl | hk
    · have hsize := chunk_size h
      refine ⟨⟨Nat.one_le_iff_ne_zero.mpr hsize.1,hsize.2⟩,?_⟩
      have hlast := haccepts.2
      have hfirst := first.toNat_lt
      have hmin : min (sectorCount - sector) maxTransferBlocks ≤ sectorCount - sector := Nat.min_le_left _ _
      dsimp only
      rw [sector_toNat haccepts h]
      omega
    · exact ih k hk
  | case2 sector h =>
    intro k hk
    rw [chunksFrom_end h] at hk
    exact absurd hk List.not_mem_nil

theorem chunking (haccepts : Accepts first sectorCount) :
    Chunking first sectorCount (chunksFrom first sectorCount 0) where
  covers := by
    rw [covers_from haccepts, Nat.sub_zero, List.range_eq_range']
  size := fun k hk => (fits_from haccepts 0 k hk).1
  inRange := fun k hk => (fits_from haccepts 0 k hk).2

/-- The loop does its chunks until one fails. -/
theorem transferLoop_untilFailure (sector : ℕ) (m : Memory) :
    (transferLoop c write first sectorCount timeoutMs polls sector .ok m).Adds fun r new =>
      UntilFailure c write timeoutMs polls (chunksFrom first sectorCount sector) m new r := by
  induction sector using chunksFrom.induct sectorCount generalizing m with
  | case1 sector h chunk ih =>
    rw [transferLoop, dif_pos ⟨rfl,h⟩, chunksFrom_cons h]
    apply (adds_ends _).bind
    · intro new hends
      exact .failed hends nofun
    · rintro ⟨result,m'⟩ new hends
      by_cases hok : result = .ok
      · subst hok
        exact (ih m').mono fun r more hrest => .next hends hrest
      · rw [transferLoop, dif_neg fun hmore => hok hmore.1]
        apply adds_pure
        rw [List.append_nil]
        apply UntilFailure.failed hends
        intro m'' hsome
        cases hsome
        exact hok rfl
  | case2 sector h =>
    rw [transferLoop, dif_neg fun hmore => h hmore.2, chunksFrom_end h]
    exact adds_pure (.done m)

/-- The loop moves the words of its chunks. -/
theorem transferLoop_moves (haccepts : Accepts first sectorCount) (sector : ℕ) (m : Memory) :
    (transferLoop c write first sectorCount timeoutMs polls sector .ok m).Adds
      (Moves (fun _ => True) write first (bufferWordsPerBlock * sector) ((sectorCount - sector) * bufferWordsPerBlock) m) := by
  induction sector using chunksFrom.induct sectorCount generalizing m with
  | case1 sector h chunk ih =>
    have hcount : (sectorCount - sector) * bufferWordsPerBlock =
        chunk * bufferWordsPerBlock + (sectorCount - (sector + chunk)) * bufferWordsPerBlock := by
      have hchunk : chunk ≤ sectorCount - sector := Nat.min_le_left _ _
      rw [← Nat.add_mul]
      congr 1
      omega
    have hstart : bufferWordsPerBlock * (sector + chunk) = bufferWordsPerBlock * sector + chunk * bufferWordsPerBlock := by
      rw [Nat.mul_add, Nat.mul_comm chunk]
    rw [transferLoop, dif_pos ⟨rfl,h⟩]
    apply (transferChunk_adds (sector_toNat haccepts h) (chunk_size h)).bind
    · intro new hmoves
      exact hmoves.failed (by rw [hcount]; exact Nat.le_add_right _ _) nofun
    · rintro ⟨result,m'⟩ new hmoves
      by_cases hok : result = .ok
      · subst hok
        apply (ih m').mono
        intro r more hrest
        rw [hstart] at hrest
        rw [hcount]
        exact hmoves.next hrest
      · rw [transferLoop, dif_neg fun hmore => hok hmore.1]
        apply adds_pure
        rw [List.append_nil]
        apply hmoves.failed (by rw [hcount]; exact Nat.le_add_right _ _)
        intro m'' hsome
        cases hsome
        exact hok rfl
  | case2 sector h =>
    rw [transferLoop, dif_neg fun hmore => h hmore.2, Nat.sub_eq_zero_of_le (Nat.not_lt.mp h), Nat.zero_mul]
    exact adds_pure moves_done

/-- A transfer is its chunks until one fails, unless it ends in an error before the first, and
it moves the words of the caller's memory to or from the sectors they belong to. -/
structure ExactTransfer (c : Controller) (write : Bool) (first : UInt32) (sectorCount : ℕ) (timeoutMs : UInt32)
    (polls : ℕ) (m : Memory) (r : Option (Status × Memory)) (log : List Access) : Prop where
  chunks : ∃ chunks, Chunking first sectorCount chunks ∧
    ((∃ s, s ≠ .ok ∧ r = some (s,m) ∧ Quiet log) ∨ ∃ before body after, log = before ++ body ++ after ∧
      Quiet before ∧ Quiet after ∧ UntilFailure c write timeoutMs polls chunks m body r)
  words : Moves (fun _ => True) write first 0 (sectorCount * bufferWordsPerBlock) m r log

theorem exact_of_quiet (haccepts : Accepts first sectorCount) {s : Status} (hs : s ≠ .ok) {log : List Access}
    (hquiet : Quiet log) : ExactTransfer c write first sectorCount timeoutMs polls m (some (s,m)) log where
  chunks := ⟨_,chunking haccepts,Or.inl ⟨s,hs,rfl,hquiet⟩⟩
  words := by
    apply moves_nothing
    · intro s' m' hsome
      cases hsome
      exact ⟨rfl,hs⟩
    · intro p b _
      rw [hquiet]

theorem exact_of_untilFailure (haccepts : Accepts first sectorCount) {r : Option (Status × Memory)}
    {before body after : List Access} (hbefore : Quiet before) (hafter : Quiet after)
    (hchunks : UntilFailure c write timeoutMs polls (chunksFrom first sectorCount 0) m body r)
    (hmoves : Moves (fun _ => True) write first 0 (sectorCount * bufferWordsPerBlock) m r body) :
    ExactTransfer c write first sectorCount timeoutMs polls m r (before ++ body ++ after) where
  chunks := ⟨_,chunking haccepts,Or.inr ⟨before,body,after,rfl,hbefore,hafter,hchunks⟩⟩
  words := by
    obtain ⟨n,m',hn,hres,hmoved,hrest⟩ := hmoves
    refine ⟨n,m',hn,hres,?_,hrest⟩
    intro p hp
    rw [after_append, after_append, hafter, hbefore]
    exact hmoved p hp

theorem transfer_adds (hopen : c.initialized = true) (haccepts : Accepts first sectorCount) :
    (transfer c write first m sectorCount timeoutMs polls).Adds
      (ExactTransfer c write first sectorCount timeoutMs polls m) := by
  unfold transfer
  rw [if_neg (not_not.mpr hopen), if_neg (not_not.mpr haccepts)]
  apply ((hushed_lock _).and (returns_request (Request.lock _))).bind
  · rintro new ⟨-,hnone⟩
    exact absurd rfl hnone
  rintro result locked ⟨hlocked,-⟩
  split
  · rename_i hfailed
    apply adds_pure
    rw [List.append_nil]
    exact exact_of_quiet haccepts hfailed hlocked
  apply (hushed_cardReady.and returns_cardReady).bind
  · rintro new ⟨-,hnone⟩
    exact absurd rfl hnone
  rintro result ready ⟨hready,-⟩
  by_cases hok : result = .ok
  · subst hok
    apply ((transferLoop_untilFailure 0 m).and (transferLoop_moves haccepts 0 m)).bind
    · rintro body ⟨hchunks,hmoves⟩
      have hexact := exact_of_untilFailure haccepts (hlocked.append hready) quiet_nil hchunks hmoves
      rwa [List.append_nil, List.append_assoc] at hexact
    · rintro out body ⟨hchunks,hmoves⟩
      apply (hushed_unlock.and (returns_request Request.unlock)).bind
      · rintro new ⟨-,hnone⟩
        exact absurd rfl hnone
      rintro _ unlocked ⟨hunlocked,-⟩
      apply adds_pure
      have hexact := exact_of_untilFailure haccepts (hlocked.append hready) hunlocked hchunks hmoves
      rw [List.append_nil]
      rwa [List.append_assoc, List.append_assoc] at hexact
  · rw [transferLoop, dif_neg fun hmore => hok hmore.1]
    apply (adds_pure (P := fun r more => r = some (result,m) ∧ more = []) ⟨rfl,rfl⟩).bind
    · rintro more ⟨hnone,-⟩
      cases hnone
    rintro out more ⟨hsome,rfl⟩
    cases hsome
    apply (hushed_unlock.and (returns_request Request.unlock)).bind
    · rintro new ⟨-,hnone⟩
      exact absurd rfl hnone
    rintro _ unlocked ⟨hunlocked,-⟩
    apply adds_pure
    exact exact_of_quiet haccepts hok (hlocked.append (hready.append (quiet_nil.append (hunlocked.append quiet_nil))))

end

/-- How a transfer ended, judged by what it returned and by its log. -/
def EndsExact {ε : Type*} (c : Controller) (write : Bool) (first : UInt32) (sectorCount : ℕ) (timeoutMs : UInt32)
    (polls : ℕ) (m : Memory) (out : Option (Status × Memory) × ε × List Access) : Prop :=
  ExactTransfer c write first sectorCount timeoutMs polls m out.1 out.2.2

/-- A controller that is always ready and reads zeros. -/
def readyHardware : Hardware Region Unit
  | .read32 _ offset, e => (some (if offset = statusOffset then statusDone ||| statusInitialized else 0),e)
  | .write32 _ _ _, e => (true,e)
  | .nowMs, e => ((0 : UInt64),e)
  | .lock _, e => (Status.ok,e)
  | .prepare, e => (Status.ok,e)
  | .wait _, e => (Status.ok,e)
  | .count, e => ((0 : UInt32),e)
  | .sleepMs _, e => ((),e)
  | .unlock, e => ((),e)
  | .disable, e => ((),e)
  | .barrier, e => ((),e)

end Bvstk.Pl.SdController
