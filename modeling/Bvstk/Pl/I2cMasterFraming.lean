import Bvstk.Pl.I2cMaster
import Mathlib.Data.List.Count
import Mathlib.Data.List.Range
import Mathlib.Tactic.IntervalCases

/-! # What stands in the TX FIFO at each START

Every START of a transfer finds one whole frame in the FIFO, counted from the last soft reset;
after a rejected byte there is no other; there are at most three; and what a successful read
delivers is the result memory.
-/
namespace Bvstk.Pl.I2cMaster
open Dialogue Program

/-! ## The frame -/

/-- A header: the number of bytes, whether the bus is kept, the direction and the address. -/
def header (addr7b : UInt8) (read restart : Bool) (byteCount : ℕ) : UInt32 :=
  .ofNat (2^11 * byteCount + 2^8 * restart.toNat + 2^7 * read.toNat + addr7b.toNat % 128)

/-- Word `k` of the payload, the lowest byte first, with zeros behind the end. -/
def payloadWord (data : Memory) (size k : ℕ) : UInt32 :=
  let byte := fun j => if 4 * k + j < size then (data (4 * k + j)).toNat else 0
  .ofNat (byte 0 + 2^8 * byte 1 + 2^16 * byte 2 + 2^24 * byte 3)

def payload (data : Memory) (size : ℕ) : List UInt32 := (List.range ((size + 3) / 4)).map (payloadWord data size)

def writeFrame (o : Order) : List UInt32 :=
  if o.writeSize = 0 then [] else header o.addr7b false (o.readSize ≠ 0) o.writeSize :: payload o.writeData o.writeSize

def readFrame (o : Order) : List UInt32 := if o.readSize = 0 then [] else [header o.addr7b true false o.readSize]

def frame (o : Order) : List UInt32 := writeFrame o ++ readFrame o

/-! ## The log -/

def isStart (a : Access) : Bool := a.request = .write32 .master csrOffset startBit

/-- A rejected byte is seen. -/
def isNack : Access → Bool
  | ⟨.read32 .master offset,reply⟩ => match reply with
    | some irq => offset = irqOffset && irq &&& irqErrAck ≠ 0
    | none => false
  | _ => false

/-- The words queued, each with whether its write succeeded. A soft reset takes effect and
empties the FIFO. -/
def queueStep (queue : List (UInt32 × Bool)) : Access → List (UInt32 × Bool)
  | ⟨.write32 .master offset value,ok⟩ =>
    if offset = txFifoOffset then queue ++ ([(value,ok)] : List (UInt32 × Bool))
    else if offset = csrOffset ∧ value = softResetBit then []
    else queue
  | _ => queue

def queued (queue : List (UInt32 × Bool)) (log : List Access) : List (UInt32 × Bool) := log.foldl queueStep queue

/-- Every START finds just these words in the FIFO, all of them written. -/
def Framed (words : List UInt32) (queue : List (UInt32 × Bool)) (log : List Access) : Prop :=
  ∀ before a after, log = before ++ a :: after → isStart a = true → queued queue before = words.map fun w => (w,true)

/-- After a rejected byte there is no START. -/
def NackFinal (log : List Access) : Prop :=
  ∀ before a after, log = before ++ a :: after → isNack a = true → after.countP isStart = 0

def NackFree (log : List Access) : Prop := ∀ a ∈ log, isNack a = false

/-- Neither a START nor a rejected byte. -/
def Still (log : List Access) : Prop := ∀ a ∈ log, isStart a = false ∧ isNack a = false

/-- Nothing that the frames are about. -/
def Calm (log : List Access) : Prop := Still log ∧ ∀ queue, queued queue log = queue

/-! ## Rules for logs -/

section
variable {words : List UInt32} {queue : List (UInt32 × Bool)} {log rest : List Access}

@[simp] theorem queued_nil : queued queue [] = queue := rfl
@[simp] theorem queued_append : queued queue (log ++ rest) = queued (queued queue log) rest := List.foldl_append

theorem still_nil : Still [] := fun _ h => absurd h List.not_mem_nil

theorem Still.append (h : Still log) (h' : Still rest) : Still (log ++ rest) := by
  intro a ha
  rcases List.mem_append.mp ha with ha | ha
  · exact h a ha
  · exact h' a ha

theorem Still.starts (h : Still log) : log.countP isStart = 0 :=
  List.countP_eq_zero.mpr fun a ha => by rw [(h a ha).1]; exact Bool.false_ne_true

/-- A split of a sequence is one of its first part or one of its second. -/
theorem split_append {before after : List Access} {a : Access} (h : log ++ rest = before ++ a :: after) :
    (∃ after', log = before ++ a :: after' ∧ after = after' ++ rest) ∨
      ∃ before', rest = before' ++ a :: after ∧ before = log ++ before' := by
  rcases List.append_eq_append_iff.mp h with ⟨before',rfl,hrest⟩ | ⟨after',rfl,hafter⟩
  · exact Or.inr ⟨before',hrest,rfl⟩
  · cases after' with
    | nil => exact Or.inr ⟨[],hafter.symm,by rw [List.append_nil, List.append_nil]⟩
    | cons b after' =>
      rw [List.cons_append, List.cons.injEq] at hafter
      obtain ⟨rfl,rfl⟩ := hafter
      exact Or.inl ⟨after',rfl,rfl⟩

theorem Framed.append (h : Framed words queue log) (h' : Framed words (queued queue log) rest) :
    Framed words queue (log ++ rest) := by
  intro before a after hsplit hstart
  rcases split_append hsplit with ⟨after',hlog,-⟩ | ⟨before',hrest,rfl⟩
  · exact h before a after' hlog hstart
  · rw [queued_append]
    exact h' before' a after hrest hstart

theorem Still.nackFree (h : Still log) : NackFree log := fun a ha => (h a ha).2

theorem NackFree.append (h : NackFree log) (h' : NackFree rest) : NackFree (log ++ rest) := by
  intro a ha
  rcases List.mem_append.mp ha with ha | ha
  · exact h a ha
  · exact h' a ha

/-- What follows a log without a rejected byte. -/
theorem NackFinal.after (h : NackFree log) (h' : NackFinal rest) : NackFinal (log ++ rest) := by
  intro before a after hsplit hnack
  rcases split_append hsplit with ⟨after',hlog,-⟩ | ⟨before',hrest,-⟩
  · exact absurd hnack (by rw [h a (hlog ▸ List.mem_append_right _ List.mem_cons_self)]; exact Bool.false_ne_true)
  · exact h' before' a after hrest hnack

theorem nackFinal_of_starts (h : log.countP isStart = 0) : NackFinal log := by
  intro before a after hlog _
  rw [hlog, List.countP_append, List.countP_cons] at h
  omega

theorem framed_of_starts (h : log.countP isStart = 0) : Framed words queue log := by
  intro before a after hlog hstart
  rw [hlog, List.countP_append, List.countP_cons, if_pos hstart] at h
  omega

theorem calm_nil : Calm [] := ⟨still_nil,fun _ => rfl⟩

theorem Calm.append (h : Calm log) (h' : Calm rest) : Calm (log ++ rest) := by
  refine ⟨h.1.append h'.1,fun queue => ?_⟩
  rw [queued_append, h.2, h'.2]

/-- What precedes a log without a START. -/
theorem NackFinal.before (h : NackFinal log) (h' : rest.countP isStart = 0) : NackFinal (log ++ rest) := by
  intro before a after hsplit hnack
  rcases split_append hsplit with ⟨after',hlog,rfl⟩ | ⟨before',hrest,-⟩
  · rw [List.countP_append, h before a after' hlog hnack, h']
  · rw [hrest, List.countP_append, List.countP_cons] at h'
    omega

end

/-! ## Words of bytes -/

/-- A byte above the bits of `x`. -/
theorem or_shift {x : UInt32} {k : ℕ} (hk : k ≤ 24) (hx : x.toNat < 2^k) (b : UInt8) :
    (x ||| (b.toUInt32 <<< k.toUInt32)).toNat = x.toNat + 2^k * b.toNat := by
  have hb := b.toNat_lt
  have hshift : k.toUInt32.toNat % 32 = k := by
    have hk' : k.toUInt32.toNat = k := Nat.mod_eq_of_lt (Nat.lt_of_le_of_lt hk (by decide))
    omega
  have hbits : (b.toUInt32 <<< k.toUInt32).toNat = 2^k * b.toNat := by
    rw [UInt32.toNat_shiftLeft, hshift, UInt8.toNat_toUInt32, Nat.shiftLeft_eq, Nat.mul_comm]
    apply Nat.mod_eq_of_lt
    calc 2^k * b.toNat < 2^k * 2^8 := Nat.mul_lt_mul_of_pos_left hb (Nat.two_pow_pos k)
      _ = 2^(k + 8) := (Nat.pow_add 2 k 8).symm
      _ ≤ 2^32 := Nat.pow_le_pow_right (by decide) (by omega)
  rw [UInt32.toNat_or, hbits, Nat.or_comm, ← Nat.two_pow_add_eq_or_of_lt hx, Nat.add_comm]

/-- The number that `count` bytes make, the lowest first. -/
def bytesValue (data : Memory) (offset : ℕ) : ℕ → ℕ
  | 0 => 0
  | count + 1 => bytesValue data offset count + 2^(8 * count) * (data (offset + count)).toNat

theorem bytesValue_lt (data : Memory) (offset count : ℕ) : bytesValue data offset count < 2^(8 * count) := by
  induction count with
  | zero => exact Nat.one_pos
  | succ count ih =>
    have hb := (data (offset + count)).toNat_lt
    calc bytesValue data offset count + 2^(8 * count) * (data (offset + count)).toNat
        < 2^(8 * count) + 2^(8 * count) * (data (offset + count)).toNat := Nat.add_lt_add_right ih _
      _ = 2^(8 * count) * ((data (offset + count)).toNat + 1) := by rw [Nat.mul_add, Nat.mul_one, Nat.add_comm]
      _ ≤ 2^(8 * count) * 2^8 := Nat.mul_le_mul_left _ hb
      _ = 2^(8 * (count + 1)) := by rw [← Nat.pow_add, Nat.mul_add]

theorem tailWord_toNat (data : Memory) (offset : ℕ) {count : ℕ} (h : count ≤ 4) :
    (tailWord data offset count).toNat = bytesValue data offset count := by
  induction count with
  | zero => rfl
  | succ count ih =>
    have hprev := ih (by omega)
    have hlt := bytesValue_lt data offset count
    rw [tailWord, List.range_succ, List.foldl_append]
    exact (or_shift (by omega) (by rw [← hprev] at hlt; exact hlt) _).trans (congrArg (· + _) hprev)

/-- The word that is written is the word of the frame. -/
theorem payloadWord_eq (data : Memory) {size k : ℕ} (h : 4 * k < size) :
    payloadWord data size k = tailWord data (4 * k) (min (size - 4 * k) 4) := by
  have hcount : min (size - 4 * k) 4 ≤ 4 := Nat.min_le_right _ _
  apply UInt32.toNat_inj.mp
  rw [tailWord_toNat data (4 * k) hcount]
  have hlt := bytesValue_lt data (4 * k) (min (size - 4 * k) 4)
  have hsum : (if 4 * k + 0 < size then (data (4 * k + 0)).toNat else 0) +
      2^8 * (if 4 * k + 1 < size then (data (4 * k + 1)).toNat else 0) +
      2^16 * (if 4 * k + 2 < size then (data (4 * k + 2)).toNat else 0) +
      2^24 * (if 4 * k + 3 < size then (data (4 * k + 3)).toNat else 0) = bytesValue data (4 * k) (min (size - 4 * k) 4) := by
    have hcases : min (size - 4 * k) 4 = 1 ∧ size = 4 * k + 1 ∨ min (size - 4 * k) 4 = 2 ∧ size = 4 * k + 2 ∨
        min (size - 4 * k) 4 = 3 ∧ size = 4 * k + 3 ∨ min (size - 4 * k) 4 = 4 ∧ 4 * k + 4 ≤ size := by omega
    rcases hcases with ⟨hmin,hsize⟩ | ⟨hmin,hsize⟩ | ⟨hmin,hsize⟩ | ⟨hmin,hsize⟩
    · rw [hmin, if_pos (by omega), if_neg (by omega), if_neg (by omega), if_neg (by omega)]
      simp only [bytesValue]
      omega
    · rw [hmin, if_pos (by omega), if_pos (by omega), if_neg (by omega), if_neg (by omega)]
      simp only [bytesValue]
      omega
    · rw [hmin, if_pos (by omega), if_pos (by omega), if_pos (by omega), if_neg (by omega)]
      simp only [bytesValue]
      omega
    · rw [hmin, if_pos (by omega), if_pos (by omega), if_pos (by omega), if_pos (by omega)]
      simp only [bytesValue]
      omega
  rw [payloadWord]
  dsimp only
  rw [hsum, UInt32.toNat_ofNat']
  exact Nat.mod_eq_of_lt (Nat.lt_of_lt_of_le hlt (Nat.pow_le_pow_right (by decide) (by omega)))

theorem makeHeader_eq (addr7b : UInt8) (read restart : Bool) {byteCount : ℕ} (h : byteCount ≤ 0x1fffff) :
    makeHeader addr7b read restart byteCount = header addr7b read restart byteCount := by
  have hcount : byteCount.toUInt32.toNat = byteCount := Nat.mod_eq_of_lt (Nat.lt_of_le_of_lt h (by decide))
  have hlength : ((byteCount.toUInt32 &&& 0x1fffff) <<< 11).toNat = 2^11 * byteCount := by
    have hmask : byteCount &&& 0x1fffff = byteCount := by
      rw [show (0x1fffff : ℕ) = 2^21 - 1 from rfl, Nat.and_two_pow_sub_one_eq_mod]
      exact Nat.mod_eq_of_lt (Nat.lt_of_le_of_lt h (by decide))
    rw [UInt32.toNat_shiftLeft, UInt32.toNat_and, hcount]
    change (byteCount &&& 0x1fffff) <<< 11 % 2^32 = _
    rw [hmask, Nat.shiftLeft_eq, Nat.mul_comm]
    exact Nat.mod_eq_of_lt (by omega)
  have haddr : (addr7b.toUInt32 &&& 0x7f).toNat = addr7b.toNat % 2^7 := by
    rw [UInt32.toNat_and, UInt8.toNat_toUInt32]
    exact Nat.and_two_pow_sub_one_eq_mod _ 7
  have hrestart : (restart.toUInt32 <<< 8).toNat = 2^8 * restart.toNat := by cases restart <;> rfl
  have hread : (read.toUInt32 <<< 7).toNat = 2^7 * read.toNat := by cases read <;> rfl
  have hbit : ∀ b : Bool, b.toNat < 2 := fun b => Bool.toNat_lt b
  apply UInt32.toNat_inj.mp
  rw [makeHeader, UInt32.toNat_or, UInt32.toNat_or, UInt32.toNat_or, hlength, haddr, hrestart, hread]
  have h₁ : 2^11 * byteCount ||| 2^8 * restart.toNat = 2^11 * byteCount + 2^8 * restart.toNat :=
    (Nat.two_pow_add_eq_or_of_lt (by have := hbit restart; omega) byteCount).symm
  have h₂ : 2^11 * byteCount + 2^8 * restart.toNat ||| 2^7 * read.toNat =
      2^11 * byteCount + 2^8 * restart.toNat + 2^7 * read.toNat := by
    have hfactor : 2^11 * byteCount + 2^8 * restart.toNat = 2^8 * (2^3 * byteCount + restart.toNat) := by omega
    rw [hfactor]
    exact (Nat.two_pow_add_eq_or_of_lt (by have := hbit read; omega) _).symm
  have h₃ : 2^11 * byteCount + 2^8 * restart.toNat + 2^7 * read.toNat ||| addr7b.toNat % 2^7 =
      2^11 * byteCount + 2^8 * restart.toNat + 2^7 * read.toNat + addr7b.toNat % 2^7 := by
    have hfactor : 2^11 * byteCount + 2^8 * restart.toNat + 2^7 * read.toNat =
        2^7 * (2^4 * byteCount + 2 * restart.toNat + read.toNat) := by omega
    rw [hfactor]
    exact (Nat.two_pow_add_eq_or_of_lt (Nat.mod_lt _ (by decide)) _).symm
  rw [h₁, h₂, h₃, header, UInt32.toNat_ofNat']
  have hr := hbit restart
  have hd := hbit read
  exact (Nat.mod_eq_of_lt (by omega)).symm

/-! ## The pieces -/

/-- A program that does nothing the frames are about. -/
def Hushed {α : Type} (d : Driver α) : Prop := d.Adds fun _ new => Calm new

theorem Hushed.bind {α β : Type} {d : Driver α} {f : α → Driver β} (h : Hushed d) (hf : ∀ a, Hushed (f a)) :
    Hushed (d >>= f) := Adds.bind_log Calm.append h hf

theorem hushed_pure {α : Type} (a : α) : Hushed (pure a : Driver α) := adds_pure calm_nil

theorem hushed_ite {α : Type} {P : Prop} [Decidable P] {d d' : Driver α} (h : Hushed d) (h' : Hushed d') :
    Hushed (if P then d else d') := by
  split
  · exact h
  · exact h'

theorem calm_singleton {a : Access} (hstart : isStart a = false) (hnack : isNack a = false)
    (hqueue : ∀ queue, queueStep queue a = queue) : Calm [a] := by
  refine ⟨?_,hqueue⟩
  intro b hb
  rw [List.mem_singleton.mp hb]
  exact ⟨hstart,hnack⟩

theorem hushed_nowMs : Hushed nowMs := adds_request fun _ => calm_singleton rfl rfl fun _ => rfl
theorem hushed_sleepMs (milliseconds : UInt32) : Hushed (sleepMs milliseconds) :=
  adds_request fun _ => calm_singleton rfl rfl fun _ => rfl
theorem hushed_lock (timeoutMs : UInt32) : Hushed (lock timeoutMs) := adds_request fun _ => calm_singleton rfl rfl fun _ => rfl
theorem hushed_unlock : Hushed unlock := adds_request fun _ => calm_singleton rfl rfl fun _ => rfl

theorem calm_csr (reply : Option UInt32) : Calm [Access.read .master csrOffset reply] := by
  apply calm_singleton rfl
  · cases reply <;> exact Eq.refl _
  · exact fun _ => rfl

theorem calm_bram (offset : ℕ) (reply : Option UInt32) : Calm [Access.read .bram offset reply] :=
  calm_singleton rfl rfl fun _ => rfl

theorem hushed_readyLoop (start : UInt64) (timeoutMs : UInt32) (polls : ℕ) : Hushed (readyLoop start timeoutMs polls) := by
  induction polls with
  | zero => exact adds_unfinished calm_nil
  | succ polls ih =>
    have hread : Hushed (read32 Region.master csrOffset) := (read32_adds _ _).mono fun r new h => by
      obtain ⟨reply,rfl,-⟩ := h
      exact calm_csr reply
    apply hread.bind
    intro reply
    cases reply with
    | error e => exact hushed_pure _
    | ok csr =>
      apply hushed_ite (hushed_pure _)
      apply hushed_nowMs.bind
      intro now
      exact hushed_ite (hushed_pure _) ((hushed_sleepMs 1).bind fun _ => ih)

theorem hushed_waitReady (timeoutMs : UInt32) (polls : ℕ) : Hushed (waitReady timeoutMs polls) :=
  hushed_nowMs.bind fun _ => hushed_readyLoop _ _ _

/-- A soft reset empties the FIFO. -/
theorem recover_adds : recover.Adds fun r new => r ≠ none ∧ Still new ∧ ∀ queue, queued queue new = [] := by
  apply (write32_adds Region.master csrOffset softResetBit).bind
  · rintro new ⟨ok,-,hnone⟩
    cases hnone
  rintro _ new ⟨ok,rfl,-⟩
  apply adds_request
  intro _
  refine ⟨nofun,?_,fun _ => rfl⟩
  intro a ha
  rcases List.mem_cons.mp ha with rfl | ha
  · exact ⟨rfl,rfl⟩
  · rw [List.mem_singleton.mp ha]
    exact ⟨rfl,rfl⟩

/-- On success just these words are queued. -/
structure Queues (words : List UInt32) (r : Option Status) (new : List Access) : Prop where
  returned : r ≠ none
  still : Still new
  words : r = some .ok → ∀ queue, queued queue new = queue ++ words.map fun w => (w,true)

theorem queues_nothing (status : Status) : Queues [] (some status) [] :=
  ⟨nofun,still_nil,fun _ queue => (List.append_nil queue).symm⟩

/-- Without success it does not matter what was to be queued. -/
theorem queues_failed {words : List UInt32} {status : Status} (h : status ≠ .ok) : Queues words (some status) [] :=
  ⟨nofun,still_nil,fun hok => absurd (Option.some.inj hok) h⟩

theorem Queues.append {words words' : List UInt32} {r : Option Status} {new more : List Access}
    (h : Queues words (some .ok) new) (h' : Queues words' r more) : Queues (words ++ words') r (new ++ more) where
  returned := h'.returned
  still := h.still.append h'.still
  words := by
    intro hok queue
    rw [queued_append, h.words rfl, h'.words hok, List.map_append, List.append_assoc]

theorem Queues.stop {words words' : List UInt32} {status : Status} {new : List Access} (h : Queues words (some status) new)
    (hstatus : status ≠ .ok) : Queues words' (some status) new :=
  ⟨h.returned,h.still,fun hok => absurd (Option.some.inj hok) hstatus⟩

theorem fifo_adds (word : UInt32) : (write32 Region.master txFifoOffset word).Adds (Queues [word]) := by
  apply (write32_adds Region.master txFifoOffset word).mono
  rintro r new ⟨ok,rfl,rfl⟩
  refine ⟨nofun,?_,?_⟩
  · intro a ha
    rw [List.mem_singleton.mp ha]
    exact ⟨rfl,rfl⟩
  · intro hok queue
    cases ok with
    | false => exact nomatch hok
    | true => rfl

/-- A word of four bytes is the word of the frame. -/
theorem fullWord_eq (data : Memory) (offset : ℕ) : (data offset).toUInt32 ||| ((data (offset + 1)).toUInt32 <<< 8) |||
    ((data (offset + 2)).toUInt32 <<< 16) ||| ((data (offset + 3)).toUInt32 <<< 24) = tailWord data offset 4 := by
  have hzero : 0 ||| ((data (offset + 0)).toUInt32 <<< (8 * 0 : ℕ).toUInt32) = (data offset).toUInt32 := by simp
  rw [← hzero]
  exact Eq.refl _

/-- The payload from word `k` on. -/
theorem writeFifoBytes_adds (data : Memory) {size k n : ℕ} (h : (size + 3) / 4 = k + n) :
    (writeFifoBytes data size (4 * k)).Adds (Queues ((List.range' k n).map (payloadWord data size))) := by
  induction n generalizing k with
  | zero =>
    rw [writeFifoBytes, if_neg (by omega), if_neg (by omega)]
    exact adds_pure (queues_nothing .ok)
  | succ n ih =>
    have hword : payloadWord data size k = tailWord data (4 * k) (min (size - 4 * k) 4) := payloadWord_eq data (by omega)
    rw [writeFifoBytes, List.range'_succ, List.map_cons, hword]
    split
    · have hfull : min (size - 4 * k) 4 = 4 := by omega
      rw [fullWord_eq, hfull]
      apply (fifo_adds _).bind
      · intro new hnew
        exact absurd rfl hnew.returned
      intro status new hnew
      split
      · exact adds_pure (by rw [List.append_nil]; exact hnew.stop ‹_›)
      · rename_i hok
        obtain rfl := Decidable.not_not.mp hok
        exact (ih (by omega)).mono fun r more hmore => hnew.append hmore
    · have hlast : n = 0 := by omega
      have hcount : min (size - 4 * k) 4 = size - 4 * k := by omega
      rw [if_pos (by omega), hlast, List.range'_zero, List.map_nil, hcount]
      exact fifo_adds _

variable {o : Order}

/-- The words are queued if all went well before. -/
theorem queueWrite_adds (hsize : o.writeSize ≤ 0x1fffff) (status : Status) :
    (queueWrite o status).Adds fun r new => Queues (writeFrame o) r new ∧ (r = some .ok → status = .ok) := by
  unfold queueWrite writeFrame
  by_cases hok : status = .ok
  · subst hok
    by_cases hwrite : o.writeSize = 0
    · rw [if_pos hwrite, if_neg fun h => h.2 hwrite]
      exact adds_pure ⟨queues_nothing .ok,fun _ => rfl⟩
    · rw [if_neg hwrite, if_pos ⟨rfl,hwrite⟩, makeHeader_eq _ _ _ hsize]
      apply (fifo_adds _).bind
      · intro new hnew
        exact absurd rfl hnew.returned
      intro status new hnew
      unfold ifOk
      split
      · rename_i hok
        subst hok
        rw [payload, List.range_eq_range']
        exact (writeFifoBytes_adds o.writeData (k := 0) (Nat.zero_add _).symm).mono fun r more hmore =>
          ⟨hnew.append hmore,fun _ => rfl⟩
      · exact adds_pure (by rw [List.append_nil]; exact ⟨hnew.stop ‹_›,fun _ => rfl⟩)
  · have hskip : ∀ d : Driver Status, (if status = .ok ∧ o.writeSize ≠ 0 then d else pure status) = pure status :=
      fun d => if_neg fun h => hok h.1
    rw [hskip]
    exact adds_pure ⟨queues_failed hok,fun h => Option.some.inj h⟩

theorem queueRead_adds (hsize : o.readSize ≤ 0x1fffff) (status : Status) :
    (queueRead o status).Adds fun r new => Queues (readFrame o) r new ∧ (r = some .ok → status = .ok) := by
  unfold queueRead readFrame
  by_cases hok : status = .ok
  · subst hok
    by_cases hread : o.readSize = 0
    · rw [if_pos hread, if_neg fun h => h.2 hread]
      exact adds_pure ⟨queues_nothing .ok,fun _ => rfl⟩
    · rw [if_neg hread, if_pos ⟨rfl,hread⟩, makeHeader_eq _ _ _ hsize]
      exact (fifo_adds _).mono fun r new hnew => ⟨hnew,fun _ => rfl⟩
  · have hskip : ∀ d : Driver Status, (if status = .ok ∧ o.readSize ≠ 0 then d else pure status) = pure status :=
      fun d => if_neg fun h => hok h.1
    rw [hskip]
    exact adds_pure ⟨queues_failed hok,fun h => Option.some.inj h⟩

/-! ## Completion and the result -/

/-- Waiting for completion: no START, the queue as it was, and a rejected byte is reported. -/
structure Awaits (r : Option (Status × Bool)) (new : List Access) : Prop where
  starts : new.countP isStart = 0
  queue : ∀ queue, queued queue new = queue
  nack : ∀ status, r = some (status,false) → NackFree new
  failed : ∀ status, r = some (status,true) → status ≠ .ok

theorem Awaits.after {r : Option (Status × Bool)} {first rest : List Access} (h : Awaits r rest) (hfirst : Calm first) :
    Awaits r (first ++ rest) where
  starts := by rw [List.countP_append, hfirst.1.starts, h.starts]
  queue := by
    intro queue
    rw [queued_append, hfirst.2, h.queue]
  nack := fun status hr => hfirst.1.nackFree.append (h.nack status hr)
  failed := h.failed

theorem awaits_pure (status : Status) : Awaits (some (status,false)) [] :=
  ⟨rfl,fun _ => rfl,fun _ _ => still_nil.nackFree,nofun⟩

theorem awaits_none {new : List Access} (h : Calm new) : Awaits none new := ⟨h.1.starts,h.2,nofun,nofun⟩

theorem Hushed.awaits {α : Type} {d : Driver α} {f : α → Driver (Status × Bool)} (h : Hushed d)
    (hf : ∀ a, (f a).Adds Awaits) : (d >>= f).Adds Awaits :=
  Adds.bind h (fun _ hnew => awaits_none hnew) fun a _ hnew => (hf a).mono fun _ _ hmore => hmore.after hnew

/-- An interrupt register that cannot be read, or shows no rejected byte. -/
theorem calm_irq {reply : Option UInt32} (h : ∀ irq, reply = some irq → irq &&& irqErrAck = 0) :
    Calm [Access.read .master irqOffset reply] := by
  refine calm_singleton rfl ?_ fun _ => rfl
  cases reply with
  | none => rfl
  | some irq => exact decide_eq_false fun hnack => hnack (h irq rfl)

theorem completionLoop_adds (readSize : ℕ) (start : UInt64) (timeoutMs : UInt32) (polls : ℕ) :
    (completionLoop readSize start timeoutMs polls).Adds Awaits := by
  induction polls with
  | zero => exact adds_unfinished ⟨rfl,fun _ => rfl,nofun,nofun⟩
  | succ polls ih =>
    apply (read32_adds Region.master csrOffset).bind
    · rintro new ⟨reply,-,hnone⟩
      cases hnone
    rintro csrReply new ⟨reply,rfl,hreply⟩
    cases hreply
    cases reply with
    | none => exact adds_pure ((awaits_pure .io).after (calm_csr none))
    | some csr =>
      apply (read32_adds Region.master irqOffset).bind
      · rintro new ⟨reply,-,hnone⟩
        cases hnone
      rintro irqReply new ⟨reply,rfl,hreply⟩
      cases hreply
      cases reply with
      | none => exact adds_pure ((awaits_pure .io).after ((calm_csr (some csr)).append (calm_irq fun irq h => absurd h.symm (Option.some_ne_none irq))))
      | some irq =>
        dsimp only [readResult]
        split
        · apply adds_pure
          refine ⟨rfl,fun _ => rfl,?_,?_⟩
          · intro status hr
            cases hr
          · intro status hr
            cases hr
            exact nofun
        rename_i hnack
        have hcalm : Calm ([Access.read .master csrOffset (some csr)] ++ [Access.read .master irqOffset (some irq)]) := by
          apply (calm_csr (some csr)).append
          apply calm_irq
          intro seen hseen
          cases hseen
          exact Decidable.not_not.mp hnack
        split
        · exact adds_pure ((awaits_pure .ok).after hcalm)
        refine Adds.mono (P := Awaits) ?_ fun r more hmore => by
          rw [← List.append_assoc]
          exact hmore.after hcalm
        apply hushed_nowMs.awaits
        intro now
        split
        · exact adds_pure (awaits_pure .timeout)
        · exact (hushed_sleepMs 1).awaits fun _ => ih

theorem waitCompletion_adds (readSize : ℕ) (timeoutMs : UInt32) (polls : ℕ) : (waitCompletion readSize timeoutMs polls).Adds Awaits :=
  hushed_nowMs.awaits fun start => completionLoop_adds readSize start _ polls

/-- The words of the result memory are read from word `k` on. -/
def dataLog : (k : ℕ) → List UInt32 → List Access
  | _, [] => []
  | k, value :: values => Access.read .bram (bramMasterOffset + 4 + 4 * k) (some value) :: dataLog (k + 1) values

/-- Byte `j` of these words, the lowest of a word first. -/
def byteAt (values : List UInt32) (j : ℕ) : UInt8 := .ofNat ((values.getD (j / 4) 0).toNat / 2^(8 * (j % 4)))

/-- Only the part that is read into changes, and on success it is what was read. -/
structure Fetches (readSize k n : ℕ) (m : Memory) (r : Option (Status × Memory)) (new : List Access) : Prop where
  returned : r ≠ none
  calm : Calm new
  kept : ∀ status m', r = some (status,m') → ∀ j, readSize ≤ j ∨ j < 4 * k → m' j = m j
  data : ∀ m', r = some (.ok,m') → ∃ values, values.length = n ∧ new = dataLog k values ∧
    ∀ j, 4 * k ≤ j → j < readSize → m' j = byteAt values (j - 4 * k)

theorem shift_byte (word : UInt32) {i : ℕ} (h : i < 4) : (word >>> (8 * i).toUInt32).toUInt8 = .ofNat (word.toNat / 2^(8 * i)) := by
  have hshift : (8 * i).toUInt32.toNat % 32 = 8 * i := by
    have hi : (8 * i).toUInt32.toNat = 8 * i := Nat.mod_eq_of_lt (by omega)
    omega
  apply UInt8.toNat_inj.mp
  rw [UInt32.toNat_toUInt8, UInt32.toNat_shiftRight, hshift, Nat.shiftRight_eq_div_pow, UInt8.toNat_ofNat']

theorem fetchResult_adds {readSize k n : ℕ} (h : (readSize + 3) / 4 = k + n) (m : Memory) :
    (fetchResult readSize (4 * k) m).Adds (Fetches readSize k n m) := by
  induction n generalizing k m with
  | zero =>
    rw [fetchResult, if_neg (by omega)]
    apply adds_pure
    refine ⟨nofun,calm_nil,?_,?_⟩
    · intro status m' hr j _
      cases hr
      rfl
    · intro m' hr
      refine ⟨[],rfl,rfl,fun j hj hj' => absurd hj' (by omega)⟩
  | succ n ih =>
    rw [fetchResult, if_pos (by omega)]
    apply (read32_adds Region.bram _).bind
    · rintro new ⟨reply,-,hnone⟩
      cases hnone
    rintro result new ⟨reply,rfl,hresult⟩
    cases hresult
    cases reply with
    | none =>
      apply adds_pure
      refine ⟨nofun,calm_bram _ _,?_,?_⟩
      · intro status m' hr j _
        cases hr
        rfl
      · intro m' hr
        cases hr
    | some word =>
      dsimp only [readResult]
      rcases Nat.eq_zero_or_pos n with rfl | hn
      · rw [fetchResult, if_neg (by omega)]
        apply adds_pure
        refine ⟨nofun,(calm_bram _ _).append calm_nil,?_,?_⟩
        · intro status m' hr j hj
          cases hr
          exact if_neg (by omega)
        · intro m' hr
          cases hr
          refine ⟨[word],rfl,rfl,fun j hj hj' => ?_⟩
          have hindex : (j - 4 * k) / 4 = 0 := by omega
          have hbyte : (j - 4 * k) % 4 = j - 4 * k := by omega
          rw [Memory.putBytes, if_pos ⟨hj,by omega⟩, shift_byte word (by omega), byteAt, hindex, hbyte, List.getD_cons_zero]
      · have hfull : min (readSize - 4 * k) 4 = 4 := by omega
        rw [hfull, ← Nat.mul_succ 4 k]
        apply (ih (k := k + 1) (by omega) (m.putBytes (4 * k) 4 word)).mono
        rintro r more ⟨hreturned,hcalm,hkept,hdata⟩
        refine ⟨hreturned,(calm_bram _ _).append hcalm,?_,?_⟩
        · intro status m' hr j hj
          rw [hkept status m' hr j (by omega)]
          exact if_neg (by omega)
        · intro m' hr
          obtain ⟨values,hlength,rfl,hbytes⟩ := hdata m' hr
          refine ⟨word :: values,by rw [List.length_cons, hlength],rfl,fun j hj hj' => ?_⟩
          rcases Nat.lt_or_ge j (4 * (k + 1)) with hlt | hge
          · rw [hkept _ m' hr j (Or.inr hlt), Memory.putBytes, if_pos ⟨hj,by omega⟩, shift_byte word (by omega), byteAt]
            have hindex : (j - 4 * k) / 4 = 0 := by omega
            have hbyte : (j - 4 * k) % 4 = j - 4 * k := by omega
            rw [hindex, hbyte, List.getD_cons_zero]
          · rw [hbytes j hge hj', byteAt, byteAt]
            have hindex : (j - 4 * k) / 4 = (j - 4 * (k + 1)) / 4 + 1 := by omega
            have hbyte : (j - 4 * k) % 4 = (j - 4 * (k + 1)) % 4 := by omega
            rw [hindex, hbyte, List.getD_cons_succ]

/-! ## An attempt -/

/-- On success the result memory has been read, and only what is asked for has changed. -/
def Delivered (readSize : ℕ) (m m' : Memory) (log : List Access) : Prop :=
  (∃ before values, log = before ++ dataLog 0 values ∧ values.length = (readSize + 3) / 4 ∧
    ∀ j < readSize, m' j = byteAt values j) ∧ ∀ j, readSize ≤ j → m' j = m j

theorem Delivered.after {readSize : ℕ} {m m₁ m' : Memory} {first log : List Access} (h : Delivered readSize m₁ m' log)
    (hm : ∀ j, readSize ≤ j → m₁ j = m j) : Delivered readSize m m' (first ++ log) := by
  obtain ⟨⟨before,values,rfl,hlength,hbytes⟩,hkept⟩ := h
  exact ⟨⟨first ++ before,values,(List.append_assoc ..).symm,hlength,hbytes⟩,fun j hj => (hkept j hj).trans (hm j hj)⟩

/-- What an attempt that starts with an empty FIFO does. -/
structure Attempts (o : Order) (m : Memory) (r : Option Verdict) (new : List Access) : Prop where
  framed : Framed (frame o) [] new
  nackFinal : NackFinal new
  starts : new.countP isStart ≤ 1
  again : ∀ status m', r = some (.again status m') → NackFree new ∧ queued [] new = [] ∧ status ≠ .ok ∧
    ∀ j, o.readSize ≤ j → m' j = m j
  delivered : ∀ m', r = some (.returns .ok m') → Delivered o.readSize m m' new

/-- Before START: all words of the frame are queued if all went well. -/
structure Prepared (o : Order) (status : Status) (new : List Access) : Prop where
  still : Still new
  words : status = .ok → queued [] new = (frame o).map fun w => (w,true)

theorem fetch_adds (status : Status) (m : Memory) : (fetch o status m).Adds fun r new => r ≠ none ∧ Calm new ∧
    (∀ status' m', r = some (status',m') → ∀ j, o.readSize ≤ j → m' j = m j) ∧
    (∀ m', r = some (.ok,m') → Delivered o.readSize m m' new) := by
  unfold fetch
  split
  · apply (fetchResult_adds (k := 0) (Nat.zero_add _).symm m).mono
    rintro r new ⟨hreturned,hcalm,hkept,hdata⟩
    refine ⟨hreturned,hcalm,fun status' m' hr j hj => hkept status' m' hr j (Or.inl hj),fun m' hr => ?_⟩
    obtain ⟨values,hlength,rfl,hbytes⟩ := hdata m' hr
    refine ⟨⟨[],values,rfl,hlength,fun j hj => ?_⟩,fun j hj => hkept _ m' hr j (Or.inl hj)⟩
    rw [hbytes j (Nat.zero_le j) hj, Nat.mul_zero, Nat.sub_zero]
  · rename_i hskip
    apply adds_pure
    refine ⟨nofun,calm_nil,?_,?_⟩
    · intro status' m' hr j _
      cases hr
      rfl
    · intro m' hr
      cases hr
      have hread : o.readSize = 0 := Decidable.not_not.mp fun h => hskip ⟨rfl,h⟩
      exact ⟨⟨[],[],rfl,by rw [hread]; rfl,fun j hj => absurd hj (by omega)⟩,fun _ _ => rfl⟩

/-- A log with at most one START, of the whole frame, and no rejected byte. -/
structure Sent (o : Order) (log : List Access) : Prop where
  framed : Framed (frame o) [] log
  nackFree : NackFree log
  starts : log.countP isStart ≤ 1

section
variable {log rest : List Access} {m : Memory} {r : Option Verdict} {status : Status}

/-- What follows has no START, and no other attempt is made. -/
theorem Sent.ends (h : Sent o log) (hrest : rest.countP isStart = 0) (hagain : ∀ status m', r ≠ some (.again status m'))
    (hdelivered : ∀ m', r = some (.returns .ok m') → Delivered o.readSize m m' rest) : Attempts o m r (log ++ rest) where
  framed := h.framed.append (framed_of_starts hrest)
  nackFinal := NackFinal.after h.nackFree (nackFinal_of_starts hrest)
  starts := by rw [List.countP_append, hrest]; exact h.starts
  again := fun status m' hr => absurd hr (hagain status m')
  delivered := fun m' hr => (hdelivered m' hr).after fun _ _ => rfl

/-- What follows is quiet and then a recovery, after which there may be another attempt. -/
theorem Sent.recovers {quiet reset : List Access} (h : Sent o log) (hquiet : quiet.countP isStart = 0) (hnack : NackFree quiet)
    (hreset : Still reset) (hempty : ∀ queue, queued queue reset = []) (hstatus : status ≠ .ok) {m' : Memory}
    (hkept : ∀ j, o.readSize ≤ j → m' j = m j) : Attempts o m (some (.again status m')) (log ++ (quiet ++ reset)) := by
  have hrest : (quiet ++ reset).countP isStart = 0 := by rw [List.countP_append, hquiet, hreset.starts]
  refine ⟨h.framed.append (framed_of_starts hrest),NackFinal.after h.nackFree (nackFinal_of_starts hrest),?_,?_,nofun⟩
  · rw [List.countP_append, hrest]
    exact h.starts
  · intro status' m'' hr
    cases hr
    refine ⟨h.nackFree.append (hnack.append hreset.nackFree),?_,hstatus,hkept⟩
    rw [queued_append, queued_append, hempty]

theorem Calm.sent (h : Calm log) : Sent o log :=
  ⟨framed_of_starts h.1.starts,h.1.nackFree,by rw [h.1.starts]; exact Nat.zero_le 1⟩

/-- After START: the wait, the result, and a recovery unless it was a success. -/
theorem finish_adds (h : Sent o log) (polls : ℕ) (status : Status) (m : Memory) :
    (do
      let out ← completion o polls status
      if out.2 then
        recover
        return .returns out.1 m
      let out ← fetch o out.1 m
      if out.1 = .ok then return .returns .ok out.2
      recover
      return .again out.1 out.2 : Driver Verdict).Adds fun r more => Attempts o m r (log ++ more) := by
  have hcompletion : (completion o polls status).Adds Awaits := by
    unfold completion
    split
    · exact waitCompletion_adds _ _ _
    · exact adds_pure (awaits_pure status)
  apply hcompletion.bind
  · intro waited hwaited
    exact h.ends hwaited.starts nofun nofun
  rintro ⟨status,nack⟩ waited hwaited
  cases nack with
  | true =>
    apply recover_adds.bind
    · rintro reset ⟨hnone,-⟩
      exact absurd rfl hnone
    rintro _ reset ⟨-,hreset,-⟩
    apply adds_pure
    rw [List.append_nil]
    apply h.ends
    · rw [List.countP_append, hwaited.starts, hreset.starts]
    · exact nofun
    · intro m' hr
      cases hr
      exact absurd rfl (hwaited.failed _ rfl)
  | false =>
    have hnack := hwaited.nack status rfl
    apply (fetch_adds status m).bind
    · rintro fetched ⟨hnone,-⟩
      exact absurd rfl hnone
    rintro ⟨status',m'⟩ fetched ⟨-,hcalm,hkept,hdelivered⟩
    have hquiet : (waited ++ fetched).countP isStart = 0 := by
      rw [List.countP_append, hwaited.starts, hcalm.1.starts]
    split
    · rename_i hok
      obtain rfl : status' = .ok := hok
      apply adds_pure
      rw [List.append_nil]
      apply h.ends hquiet
      · exact nofun
      · intro m'' hr
        cases hr
        exact (hdelivered m' rfl).after fun _ _ => rfl
    · rename_i hfailed
      apply recover_adds.bind
      · rintro reset ⟨hnone,-⟩
        exact absurd rfl hnone
      rintro _ reset ⟨-,hreset,hempty⟩
      apply adds_pure
      rw [List.append_nil, ← List.append_assoc waited]
      exact h.recovers hquiet (hnack.append hcalm.1.nackFree) hreset hempty hfailed (hkept status' m' rfl)

/-- START, if all went well, of a frame that has been queued. -/
theorem start_adds (hlog : Still log) (hwords : status = .ok → queued [] log = (frame o).map fun w => (w,true)) :
    (ifOk status (write32 Region.master csrOffset startBit)).Adds fun r more => r ≠ none ∧ Sent o (log ++ more) := by
  have hbefore : Sent o (log ++ []) := by
    rw [List.append_nil]
    exact ⟨framed_of_starts hlog.starts,hlog.nackFree,by rw [hlog.starts]; exact Nat.zero_le 1⟩
  unfold ifOk
  split
  · rename_i hok
    apply (write32_adds Region.master csrOffset startBit).mono
    rintro r more ⟨ok,rfl,rfl⟩
    refine ⟨nofun,?_,hlog.nackFree.append ?_,?_⟩
    · intro before a after hsplit hstart
      rcases split_append hsplit with ⟨after',hin,-⟩ | ⟨before',hin,rfl⟩
      · exact absurd hstart (by rw [(hlog a (hin ▸ List.mem_append_right _ List.mem_cons_self)).1]; exact Bool.false_ne_true)
      · cases before' with
        | nil =>
          rw [List.append_nil]
          exact hwords hok
        | cons b before' =>
          have hlength := congrArg List.length hin
          simp at hlength
    · intro a ha
      rw [List.mem_singleton.mp ha]
      exact Eq.refl _
    · rw [List.countP_append, hlog.starts, Nat.zero_add]
      exact List.countP_le_length
  · exact adds_pure ⟨nofun,hbefore⟩

end

theorem attempt_adds (hwrite : o.writeSize ≤ 0x1fffff) (hread : o.readSize ≤ 0x1fffff) (polls : ℕ) (m : Memory) :
    (attempt o polls m).Adds (Attempts o m) := by
  unfold attempt
  apply Adds.bind (hushed_waitReady o.timeoutMs polls)
  · intro ready hready
    have hends : Attempts o m none (ready ++ []) := (Calm.sent (o := o) hready).ends rfl nofun nofun
    rwa [List.append_nil] at hends
  intro status ready hready
  split
  · rename_i hfailed
    apply recover_adds.bind
    · rintro reset ⟨hnone,-⟩
      exact absurd rfl hnone
    rintro _ reset ⟨-,hreset,hempty⟩
    apply adds_pure
    rw [List.append_nil]
    have hnothing : ([] : List Access).countP isStart = 0 := rfl
    exact hready.sent.recovers hnothing still_nil.nackFree hreset hempty hfailed fun _ _ => rfl
  apply (write32_adds Region.master irqOffset irqResetBit).bind
  · rintro new ⟨ok,-,hnone⟩
    cases hnone
  rintro status cleared ⟨ok,rfl,hstatus⟩
  have hcleared : Calm [Access.write .master irqOffset irqResetBit ok] := calm_singleton rfl rfl fun _ => rfl
  apply (queueWrite_adds hwrite status).bind
  · rintro new ⟨hqueues,-⟩
    exact absurd rfl hqueues.returned
  rintro status₁ written ⟨hwritten,-⟩
  apply (queueRead_adds hread status₁).bind
  · rintro new ⟨hqueues,-⟩
    exact absurd rfl hqueues.returned
  rintro status₂ asked ⟨hasked,hok⟩
  have hstill : Still (ready ++ ([Access.write .master irqOffset irqResetBit ok] ++ (written ++ asked))) :=
    hready.1.append (hcleared.1.append (hwritten.still.append hasked.still))
  have hwords : status₂ = .ok → queued [] (ready ++ ([Access.write .master irqOffset irqResetBit ok] ++ (written ++ asked))) =
      (frame o).map fun w => (w,true) := by
    intro h
    have h₁ := hok (congrArg some h)
    rw [queued_append, queued_append, queued_append, hready.2, hcleared.2, hwritten.words (congrArg some h₁),
      hasked.words (congrArg some h), frame, List.map_append, List.nil_append]
  apply (start_adds hstill hwords).bind
  · rintro new ⟨hnone,-⟩
    exact absurd rfl hnone
  rintro status₃ started ⟨-,hsent⟩
  simp only [← List.append_assoc]
  simp only [← List.append_assoc] at hsent
  exact finish_adds hsent polls status₃ m

/-! ## The transfer -/

/-- What a transfer does that may issue `n` STARTs. -/
structure Transfers (o : Order) (n : ℕ) (m : Memory) (r : Option (Status × Memory)) (log : List Access) : Prop where
  framed : Framed (frame o) [] log
  nackFinal : NackFinal log
  starts : log.countP isStart ≤ n
  delivered : ∀ m', r = some (.ok,m') → Delivered o.readSize m m' log

theorem transfers_refused {status : Status} (hstatus : status ≠ .ok) (n : ℕ) (m m' : Memory) :
    Transfers o n m (some (status,m')) [] := by
  refine ⟨framed_of_starts rfl,nackFinal_of_starts rfl,Nat.zero_le n,?_⟩
  intro m'' hr
  cases hr
  exact absurd rfl hstatus

theorem attempts_adds (hwrite : o.writeSize ≤ 0x1fffff) (hread : o.readSize ≤ 0x1fffff) (polls left : ℕ) {status : Status}
    (hstatus : status ≠ .ok) (m : Memory) : (attempts o polls left status m).Adds (Transfers o left m) := by
  induction left generalizing status m with
  | zero => exact adds_pure (transfers_refused hstatus 0 m m)
  | succ left ih =>
    apply (attempt_adds hwrite hread polls m).bind
    · intro new h
      exact ⟨h.framed,h.nackFinal,h.starts.trans (Nat.succ_le_succ (Nat.zero_le left)),nofun⟩
    intro verdict new h
    cases verdict with
    | returns status m' =>
      apply adds_pure
      rw [List.append_nil]
      refine ⟨h.framed,h.nackFinal,h.starts.trans (Nat.succ_le_succ (Nat.zero_le left)),?_⟩
      intro m'' hr
      cases hr
      exact h.delivered m' rfl
    | again status m' =>
      obtain ⟨hnack,hempty,hfailed,hkept⟩ := h.again status m' rfl
      apply (ih hfailed m').mono
      intro r more hmore
      refine ⟨h.framed.append (by rw [hempty]; exact hmore.framed),NackFinal.after hnack hmore.nackFinal,?_,?_⟩
      · rw [List.countP_append, Nat.add_comm left 1]
        exact Nat.add_le_add h.starts hmore.starts
      · intro m'' hr
        exact (hmore.delivered m'' hr).after hkept

/-- One register number out, two bytes back. -/
example : frame ⟨0x48,fun _ => 7,1,2,0⟩ = [2048 + 256 + 0x48,7,2 * 2048 + 128 + 0x48] := by decide

theorem transferLocked_adds (polls : ℕ) (m : Memory) : (transferLocked o polls m).Adds (Transfers o recoveryAttempts m) := by
  have hmalformed : Status.malformed ≠ .ok := nofun
  have hrange : Status.range ≠ .ok := nofun
  have hinternal : Status.internal ≠ .ok := nofun
  unfold transferLocked
  split
  · exact adds_pure (transfers_refused hmalformed _ m m)
  split
  · exact adds_pure (transfers_refused hrange _ m m)
  · exact attempts_adds (by omega) (by omega) polls recoveryAttempts hinternal m

/-- The seven bits of the address. -/
theorem frame_masked : frame { o with addr7b := o.addr7b &&& 0x7f } = frame o := by
  have haddr : (o.addr7b &&& 0x7f).toNat % 128 = o.addr7b.toNat % 128 := by
    rw [UInt8.toNat_and]
    change (o.addr7b.toNat &&& (2^7 - 1)) % 128 = _
    rw [Nat.and_two_pow_sub_one_eq_mod]
    exact Nat.mod_mod _ _
  have hheader : ∀ read restart byteCount, header (o.addr7b &&& 0x7f) read restart byteCount =
      header o.addr7b read restart byteCount := by
    intro read restart byteCount
    rw [header, header, haddr]
  rw [frame, frame, writeFrame, writeFrame, readFrame, readFrame]
  dsimp only
  rw [hheader, hheader]

theorem Transfers.unmask {n : ℕ} {m : Memory} {r : Option (Status × Memory)} {log : List Access}
    (h : Transfers { o with addr7b := o.addr7b &&& 0x7f } n m r log) : Transfers o n m r log :=
  ⟨by rw [← frame_masked]; exact h.framed,h.nackFinal,h.starts,h.delivered⟩

theorem Transfers.after {n : ℕ} {m : Memory} {r : Option (Status × Memory)} {first log : List Access}
    (h : Transfers o n m r log) (hfirst : Calm first) : Transfers o n m r (first ++ log) where
  framed := (framed_of_starts hfirst.1.starts).append (by rw [hfirst.2]; exact h.framed)
  nackFinal := NackFinal.after hfirst.1.nackFree h.nackFinal
  starts := by
    rw [List.countP_append, hfirst.1.starts, Nat.zero_add]
    exact h.starts
  delivered := fun m' hr => (h.delivered m' hr).after fun _ _ => rfl

/-- What is promised of a transfer: of every START, of a rejected byte, of the number of
STARTs, and of the bytes that a success delivers, counted from the beginning of the call. -/
structure WellFramed {ε : Type*} (o : Order) (m : Memory) (out : Option (Status × Memory) × ε × List Access) : Prop where
  framed : Framed (frame o) [] out.2.2
  nackFinal : NackFinal out.2.2
  starts : out.2.2.countP isStart ≤ recoveryAttempts
  delivered : ∀ m', out.1 = some (.ok,m') → ∃ log, out.2.2 = log ++ [⟨Request.unlock,()⟩] ∧ Delivered o.readSize m m' log

theorem hwTransfer_adds (initialized : Bool) (polls : ℕ) (m : Memory) : (hwTransfer initialized o polls m).Adds fun r log =>
    Framed (frame o) [] log ∧ NackFinal log ∧ log.countP isStart ≤ recoveryAttempts ∧
      ∀ m', r = some (.ok,m') → ∃ body, log = body ++ [⟨Request.unlock,()⟩] ∧ Delivered o.readSize m m' body := by
  have hquiet : ∀ {status : Status} {log}, status ≠ .ok → Calm log → Framed (frame o) [] log ∧ NackFinal log ∧
      log.countP isStart ≤ recoveryAttempts ∧ ∀ m', some (status,m) = some (.ok,m') →
        ∃ body, log = body ++ [⟨Request.unlock,()⟩] ∧ Delivered o.readSize m m' body := by
    intro status log hstatus hlog
    refine ⟨framed_of_starts hlog.1.starts,nackFinal_of_starts hlog.1.starts,by rw [hlog.1.starts]; exact Nat.zero_le _,?_⟩
    intro m' hr
    cases hr
    exact absurd rfl hstatus
  have hnotReady : Status.notReady ≠ .ok := nofun
  unfold hwTransfer
  split
  · exact adds_pure (hquiet hnotReady calm_nil)
  apply adds_request_bind
  intro status
  have hlocked : Calm [⟨Request.lock o.timeoutMs,status⟩] := calm_singleton rfl rfl fun _ => rfl
  split
  · exact adds_pure (hquiet ‹_› hlocked)
  apply (transferLocked_adds polls m).bind
  · intro body h
    have hbody := h.unmask.after hlocked
    exact ⟨hbody.framed,hbody.nackFinal,hbody.starts,nofun⟩
  rintro ⟨status',m'⟩ body h
  have hbody := h.unmask.after hlocked
  apply adds_request_bind
  intro unlocked
  apply adds_pure
  have hunlocked : Calm [⟨Request.unlock,unlocked⟩] := calm_singleton rfl rfl fun _ => rfl
  have hassoc : ⟨Request.lock o.timeoutMs,status⟩ :: (body ++ [⟨Request.unlock,unlocked⟩]) =
      [⟨Request.lock o.timeoutMs,status⟩] ++ body ++ [⟨Request.unlock,unlocked⟩] := rfl
  rw [hassoc]
  refine ⟨hbody.framed.append (framed_of_starts hunlocked.1.starts),hbody.nackFinal.before hunlocked.1.starts,?_,?_⟩
  · rw [List.countP_append, hunlocked.1.starts, Nat.add_zero]
    exact hbody.starts
  · intro m'' hr
    exact ⟨_,rfl,hbody.delivered m'' hr⟩

/-- Every START of a transfer sends one whole frame, none follows a rejected byte, there are
at most three, and a success delivers the result memory. -/
theorem transfer_wellFramed {ε : Type*} (hardware : Hardware Region ε) (e : ε) (initialized : Bool) (o : Order) (polls : ℕ)
    (readData : Memory) : WellFramed o readData ((hwTransfer initialized o polls readData).run hardware e) := by
  obtain ⟨hframed,hnack,hstarts,hdelivered⟩ := (hwTransfer_adds (o := o) initialized polls readData).run hardware e
  exact ⟨hframed,hnack,hstarts,hdelivered⟩

end Bvstk.Pl.I2cMaster
