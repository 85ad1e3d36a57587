import Bvstk.Dcp2.FsOpens
import Bvstk.Library.BlockTransfer

/-! # Reading streams

Each stream of a session is a transfer in numbered blocks of what its reader gives: the
READ requests for it are answered as the transfer says, whatever comes between them.
-/
namespace Bvstk.Dcp2
open Wire Fs Machine BlockTransfer
variable {β H : Type}

/-- A block of a stream, and whether it is the last. -/
abbrev FsChunk := Bytes × Bool

abbrev FsTransfer := Transfer FsChunk FsError

def chunkReply (handle block : UInt32) (c : FsChunk) : FsReply :=
  (statusOk,beBytes 4 handle.toNat ++ beBytes 4 block.toNat ++ [if c.2 = true then 1 else 0,0] ++
    beBytes 2 c.1.length ++ c.1)

def answerReply (handle block : UInt32) : Answer FsChunk FsError → FsReply
  | .block c => chunkReply handle block c
  | .failed e => (terminalOf e,[])
  | .refused => (statusRange,[])

/-- The handle and the block number of a READ. -/
def readHandle (body : Bytes) : UInt32 := UInt32.ofNat (readBE (body.take 4))
def readBlock (body : Bytes) : UInt32 := UInt32.ofNat (readBE (body.drop 4))

/-- The reader has been opened, and has handed out `chunks` in blocks of `size` bytes. -/
inductive HandedOut (P : FsBackend β H) (size : ℕ) : FsReader H → List FsChunk → Prop
  | opened {w w' : FsWorld β H} {slot : ℕ} {path : Path} {kind flags : UInt8} {r : FsReader H}
      (hopen : readerOpen P w slot path kind flags = (.ok r,w')) : HandedOut P size r []
  | read {r r' : FsReader H} {chunks : List FsChunk} {w w' : FsWorld β H} {c : FsChunk}
      (hout : HandedOut P size r chunks) (hread : readerRead P r w size = (.ok c,r',w')) :
      HandedOut P size r' (chunks ++ [c])

theorem terminalOf_ne_zero (e : FsError) : terminalOf e ≠ 0 := by
  cases e with
  | _ => decide

/-- The stream `h` is at the transfer `t`. -/
structure Position (P : FsBackend β H) (h : FsStream H) (t : FsTransfer) : Prop where
  terminal : h.terminalStatus = (t.failed.map terminalOf).getD 0
  last : t.blocks.getLast? = if h.hasBlock = true then some (h.cached,h.eof) else none
  number : h.hasBlock = true → t.blocks.length = h.lastBlock.toNat + 1
  size : h.blockSize ≤ fsBlockMax
  handedOut : t.failed = none → HandedOut P h.blockSize h.reader t.blocks

section
variable {P : FsBackend β H} {h : FsStream H} {t : FsTransfer}

theorem Position.active (hp : Position P h t) (now : UInt32) : Position P { h with lastActivity := now } t :=
  ⟨hp.terminal,hp.last,hp.number,hp.size,hp.handedOut⟩

theorem Position.failed_of_terminal (hp : Position P h t) (hterminal : h.terminalStatus ≠ 0) :
    ∃ e, t.failed = some e ∧ h.terminalStatus = terminalOf e := by
  have hstatus := hp.terminal
  cases hfailed : t.failed with
  | none =>
    rw [hfailed] at hstatus
    exact absurd hstatus hterminal
  | some e =>
    rw [hfailed] at hstatus
    exact ⟨e,rfl,hstatus⟩

theorem Position.not_failed (hp : Position P h t) (hterminal : h.terminalStatus = 0) : t.failed = none := by
  have hstatus := hp.terminal
  cases hfailed : t.failed with
  | none => rfl
  | some e =>
    rw [hfailed, hterminal] at hstatus
    exact absurd hstatus.symm (terminalOf_ne_zero e)

/-- A number is one more than another. -/
theorem toNat_eq_succ {a b : UInt32} : b.toNat = a.toNat + 1 ↔ a ≠ UInt32.ofNat (2^32 - 1) ∧ b = a + 1 := by
  have hlt : a.toNat < 2^32 := a.toNat_lt
  have hltb : b.toNat < 2^32 := b.toNat_lt
  have hadd : (a + 1).toNat = (a.toNat + 1) % 2^32 := UInt32.toNat_add a 1
  have hlast : a = UInt32.ofNat (2^32 - 1) ↔ a.toNat = 2^32 - 1 := by
    rw [← UInt32.toNat_inj]
    exact Iff.rfl
  rw [Ne, hlast, ← UInt32.toNat_inj (a := b), hadd]
  constructor
  · intro hb
    exact ⟨by omega,by rw [Nat.mod_eq_of_lt (by omega)]; exact hb⟩
  · rintro ⟨hne,hb⟩
    rw [hb, Nat.mod_eq_of_lt (by omega)]

/-- The code's test for the next number is the transfer's. -/
theorem Position.isNext (hp : Position P h t) (block : UInt32) :
    h.isNext block = true ↔ t.next Prod.snd = some block.toNat := by
  unfold FsStream.isNext Transfer.next
  rw [hp.last]
  by_cases hblock : h.hasBlock = true
  · have hnumber := hp.number hblock
    rw [if_pos hblock, if_pos hblock, Option.any_some, decide_eq_true_eq]
    by_cases heof : h.eof = true
    · rw [if_pos heof]
      simp [heof]
    · rw [if_neg heof, Option.some.injEq, hnumber]
      rw [Bool.not_eq_true] at heof
      rw [eq_comm (b := block.toNat), toNat_eq_succ]
      exact ⟨fun hboth => hboth.2,fun hboth => ⟨heof,hboth⟩⟩
  · have hempty : t.blocks = [] := by
      have hlast := hp.last
      rw [if_neg hblock] at hlast
      exact List.getLast?_eq_none_iff.mp hlast
    rw [if_neg hblock, if_neg hblock, hempty, decide_eq_true_eq]
    simp only [Option.any_none, Bool.false_eq_true, if_false, List.length_nil, Option.some.injEq]
    rw [← UInt32.toNat_inj]
    exact eq_comm

/-- A READ is answered as the transfer says, and the reader is read if the transfer pulls. -/
structure ReadsAs (P : FsBackend β H) (h : FsStream H) (w : FsWorld β H) (t : FsTransfer) (block : UInt32)
    (out : FsReply × FsStream H × FsWorld β H) : Prop where
  reply : out.1 =
    answerReply h.handle block (t.read Prod.snd block.toNat (readerRead P h.reader w h.blockSize).1).1
  position : Position P out.2.1 (t.read Prod.snd block.toNat (readerRead P h.reader w h.blockSize).1).2
  pulls : t.Pulls Prod.snd block.toNat → out.2.1.reader = (readerRead P h.reader w h.blockSize).2.1 ∧
    out.2.2 = (readerRead P h.reader w h.blockSize).2.2
  idle : ¬t.Pulls Prod.snd block.toNat → out.2.1 = h ∧ out.2.2 = w

theorem readsAs_readResponse (hp : Position P h t) (w : FsWorld β H) (block : UInt32) {capacity : ℕ}
    (hroom : fsBlockMax + 12 ≤ capacity) : ReadsAs P h w t block (readResponse P h w block capacity) := by
  have hcapacity : ¬capacity < h.blockSize + 12 := by
    have hsize := hp.size
    omega
  unfold readResponse
  rw [if_neg hcapacity]
  by_cases hterminal : h.terminalStatus ≠ 0
  · -- the source has failed
    obtain ⟨e,hfailed,hstatus⟩ := hp.failed_of_terminal hterminal
    have hpulls : ¬t.Pulls Prod.snd block.toNat := fun hpulls => absurd (hfailed.symm.trans hpulls.1) (Option.some_ne_none e)
    rw [if_pos hterminal]
    refine ⟨?_,?_,fun hp => absurd hp hpulls,fun _ => ⟨rfl,rfl⟩⟩
    · rw [Transfer.read_failed hfailed, hstatus]
      rfl
    · rw [Transfer.read_idle hpulls]
      exact hp
  · rw [if_neg hterminal]
    have hfailed := hp.not_failed (not_not.mp hterminal)
    by_cases hagain : h.hasBlock = true ∧ block = h.lastBlock
    · -- the last block again
      obtain ⟨hblock,rfl⟩ := hagain
      have hlast := hp.last
      rw [if_pos hblock] at hlast
      have hread : t.read Prod.snd h.lastBlock.toNat (readerRead P h.reader w h.blockSize).1 =
          (.block (h.cached,h.eof),t) := Transfer.read_again hfailed hlast (hp.number hblock).symm
      have hpulls : ¬t.Pulls Prod.snd h.lastBlock.toNat := by
        rintro ⟨-,hnext⟩
        rw [← hp.isNext, FsStream.isNext, if_pos hblock, decide_eq_true_eq, ← toNat_eq_succ] at hnext
        omega
      rw [if_pos ⟨hblock,rfl⟩]
      refine ⟨?_,?_,fun hp => absurd hp hpulls,fun _ => ⟨rfl,rfl⟩⟩
      · rw [hread]
        rfl
      · rw [hread]
        exact hp
    · rw [if_neg hagain]
      by_cases hnext : h.isNext block = false
      · -- any other number
        have hother : t.next Prod.snd ≠ some block.toNat := by
          rw [Ne, ← hp.isNext, hnext]
          decide
        have hpulls : ¬t.Pulls Prod.snd block.toNat := fun hpulls => hother hpulls.2
        have hnumber : block.toNat + 1 ≠ t.blocks.length := by
          intro hlength
          by_cases hblock : h.hasBlock = true
          · rw [hp.number hblock, Nat.succ.injEq, UInt32.toNat_inj] at hlength
            exact hagain ⟨hblock,hlength⟩
          · have hlast := hp.last
            rw [if_neg hblock, List.getLast?_eq_none_iff] at hlast
            rw [hlast] at hlength
            cases hlength
        rw [if_pos hnext]
        refine ⟨?_,?_,fun hp => absurd hp hpulls,fun _ => ⟨rfl,rfl⟩⟩
        · rw [Transfer.read_refused hfailed hother hnumber]
          rfl
        · rw [Transfer.read_idle hpulls]
          exact hp
      · -- the next block
        rw [if_neg hnext]
        rw [Bool.not_eq_false] at hnext
        have hpulls : t.Pulls Prod.snd block.toNat := ⟨hfailed,(hp.isNext block).mp hnext⟩
        have hnumber : t.blocks.length = block.toNat := by
          have hn := hpulls.2
          rw [Transfer.next] at hn
          split at hn
          · cases hn
          · exact Option.some.inj hn
        cases hread : readerRead P h.reader w h.blockSize with
        | mk result rest =>
          obtain ⟨reader,w'⟩ := rest
          cases result with
          | error e =>
            refine ⟨?_,?_,fun _ => ⟨?_,?_⟩,fun hidle => absurd hpulls hidle⟩
            · rw [hread, Transfer.read_next hpulls]
              rfl
            · rw [hread, Transfer.read_next hpulls]
              exact ⟨rfl,hp.last,hp.number,hp.size,fun hnone => by cases hnone⟩
            · rw [hread]
            · rw [hread]
          | ok c =>
            obtain ⟨data,eof⟩ := c
            refine ⟨?_,?_,fun _ => ⟨?_,?_⟩,fun hidle => absurd hpulls hidle⟩
            · rw [hread, Transfer.read_next hpulls]
              rfl
            · rw [hread, Transfer.read_next hpulls]
              constructor
              · exact hp.terminal
              · rw [if_pos rfl]
                exact List.getLast?_concat
              · intro _
                rw [List.length_append, List.length_singleton, hnumber]
              · exact hp.size
              · exact fun hnone => (hp.handedOut hnone).read hread
            · rw [hread]
            · rw [hread]

end

/-! ## A session and its transfers -/

/-- What a request does to the transfers: a READ for an open stream goes to its transfer. -/
def trackOp (P : FsBackend β H) (s : FsSystem β H) (T : UInt32 → FsTransfer) : FsOp → UInt32 → FsTransfer
  | .request opcode body now _ =>
    if opcode = opFsRead ∧ body.length = 8 then
      match findHandle (s.expired P now).session (readHandle body) fsHandlesMax 0 with
      | none => T
      | some (_,h) =>
        Function.update T h.handle ((T h.handle).read Prod.snd (readBlock body).toNat
          (readerRead P h.reader (s.expired P now).world h.blockSize).1).2
    else T
  | _ => T

/-- The transfers of the streams by their handles, after a run. -/
def transfers (P : FsBackend β H) (s : FsSystem β H) (T : UInt32 → FsTransfer) : List FsOp → UInt32 → FsTransfer
  | [] => T
  | op :: ops => transfers P (s.step P op).1 (trackOp P s T op) ops

/-- The transfers of a session from its start. -/
def transfersOf (P : FsBackend β H) (env : β) (ops : List FsOp) : UInt32 → FsTransfer :=
  transfers P (fsStart H env) (fun _ => Transfer.start FsChunk FsError) ops

theorem transfers_append (P : FsBackend β H) (s : FsSystem β H) (T : UInt32 → FsTransfer) (xs ys : List FsOp) :
    transfers P s T (xs ++ ys) = transfers P (final (FsSystem.step P) s xs) (transfers P s T xs) ys := by
  induction xs generalizing s T with
  | nil => rfl
  | cons op xs ih => exact ih (s.step P op).1 (trackOp P s T op)

/-- Every stream is at its transfer; the numbers to come have none. -/
structure Tracked (P : FsBackend β H) (s : FsSession H) (T : UInt32 → FsTransfer) : Prop where
  numbered : Numbered s
  position : ∀ i h, s.slots i = some h → Position P h (T h.handle)
  start : ∀ n, s.issued ≤ n.toNat → T n = Transfer.start FsChunk FsError

section
variable {P : FsBackend β H} {s s' : FsSession H} {T : UInt32 → FsTransfer}

theorem Tracked.rests (hs : Tracked P s T) (hrests : Rests s s') : Tracked P s' T where
  numbered := hs.numbered.continues hrests.continues
  position := by
    intro i h' hi
    obtain ⟨h,now,hi',rfl⟩ := hrests.streams i h' hi
    exact (hs.position i h hi').active now
  start := by
    rw [hrests.continues.issued_eq]
    exact hs.start

theorem parseOpen_requested {body : Bytes} {capacity : ℕ} {q : OpenRequest} (hparse : parseOpen body capacity = .ok q) :
    q.requested ≤ fsBlockMax := by
  unfold parseOpen at hparse
  dsimp only at hparse
  repeat' split at hparse
  all_goals cases hparse
  exact Nat.le_of_not_lt ‹_›

/-- A new stream starts its transfer. -/
theorem Tracked.adds (hs : Tracked P s T) {q : OpenRequest} {i : ℕ} {h : FsStream H} (hadds : Adds P s q i h s')
    (hsize : q.requested ≤ fsBlockMax) : Tracked P s' T where
  numbered := hs.numbered.adds hadds
  position := by
    intro j h' hj
    rcases hadds.streams hj with ⟨-,rfl⟩ | hj
    · obtain ⟨reader,w,w',now,hopen,rfl⟩ := hadds.unread
      rw [hs.start _ (Nat.le_of_eq hadds.issued_before)]
      refine ⟨rfl,rfl,fun hblock => (nomatch hblock),?_,fun _ => HandedOut.opened hopen⟩
      rw [newStream]
      dsimp only
      split
      · exact hsize
      · exact Nat.le_refl _
    · exact hs.position j h' hj
  start := by
    intro n hn
    rw [hadds.issued_after, ← hadds.issued_before] at hn
    exact hs.start n (Nat.le_of_succ_le hn)

/-- A stream that is read moves on with its transfer. -/
theorem Tracked.read (hs : Tracked P s T) {i : ℕ} {h h' : FsStream H} {t : FsTransfer} (hi : s.slots i = some h)
    (hticket : h'.ticket = h.ticket) (hp : Position P h' t) :
    Tracked P (s.setSlot i (some h')) (Function.update T h.handle t) where
  numbered := hs.numbered.continues (Continues.setSlot hi hticket)
  position := by
    have hhandle : h'.handle = h.handle := congrArg FsTicket.handle hticket
    intro j h₁ hj
    by_cases hji : j = i
    · rw [hji, FsSession.setSlot_slots, Function.update_self, Option.some.injEq] at hj
      rw [← hj, hhandle, Function.update_self]
      exact hp
    · rw [FsSession.setSlot_slots, Function.update_of_ne hji] at hj
      have hne : h₁.handle ≠ h.handle := fun heq => hji (hs.numbered.handles j i h₁ h hj hi heq)
      rw [Function.update_of_ne hne]
      exact hs.position j h₁ hj
  start := by
    intro n hn
    have hissued : (s.setSlot i (some h')).issued = s.issued := rfl
    have hne : n ≠ h.handle := by
      rintro rfl
      have hlt := (hs.numbered.issued i h hi).2
      omega
    rw [Function.update_of_ne hne]
    exact hs.start n hn

theorem findHandle_eq {left j : ℕ} (hs : Numbered s) {i : ℕ} {h : FsStream H} (hi : s.slots i = some h) (hij : j ≤ i)
    (hleft : i < j + left) : findHandle s h.handle left j = some (i,h) := by
  induction left generalizing j with
  | zero => omega
  | succ left ih =>
    unfold findHandle
    rcases Nat.lt_or_eq_of_le hij with hlt | rfl
    · cases hj : s.slots j with
      | none => exact ih hlt (by omega)
      | some h' =>
        have hne : h'.handle ≠ h.handle := fun heq => Nat.ne_of_lt hlt (hs.handles j i h' h hj hi heq)
        dsimp only
        rw [if_neg hne]
        exact ih hlt (by omega)
    · rw [hi]
      dsimp only
      rw [if_pos rfl]

end

section
variable (P : FsBackend β H) {s : FsSystem β H} {T : UInt32 → FsTransfer}

/-- A READ for an open stream. -/
theorem step_read (T : UInt32 → FsTransfer) (hs : Numbered s.session) {body : Bytes} {now : UInt32} (capacity : ℕ) (hbody : body.length = 8)
    {i : ℕ} {h : FsStream H} (hi : (s.expired P now).session.slots i = some h) (hhandle : h.handle = readHandle body) :
    s.step P (.request opFsRead body now capacity) =
      (⟨(s.expired P now).session.setSlot i
          (some (readResponse P { h with lastActivity := now } (s.expired P now).world (readBlock body) capacity).2.1),
        (readResponse P { h with lastActivity := now } (s.expired P now).world (readBlock body) capacity).2.2⟩,
        (readResponse P { h with lastActivity := now } (s.expired P now).world (readBlock body) capacity).1) ∧
      trackOp P s T (.request opFsRead body now capacity) =
        Function.update T h.handle ((T h.handle).read Prod.snd (readBlock body).toNat
          (readerRead P h.reader (s.expired P now).world h.blockSize).1).2 := by
  have hexpired : Rests s.session (s.expired P now).session := rests_closeWhere P _ _ _ _ _
  have hs₁ := hs.continues hexpired.continues
  have hfound : findHandle (s.expired P now).session h.handle fsHandlesMax 0 = some (i,h) :=
    findHandle_eq hs₁ hi (Nat.zero_le i) (by simpa using hs₁.small i h hi)
  have hnonzero : readHandle body ≠ 0 := hhandle ▸ (hs₁.issued i h hi).1
  have hrequest : fsRequest P s.session s.world opFsRead body now capacity =
      handleResponse P (s.expired P now).session (s.expired P now).world opFsRead body now capacity := rfl
  have hlength : ¬body.length ≠ if opFsRead = opFsRead then 8 else 4 := not_not.mpr hbody
  have hclose : opFsRead ≠ opFsClose := by decide
  constructor
  · rw [FsSystem.step, hrequest, handleResponse, if_neg hlength]
    have hzero : ¬UInt32.ofNat (readBE (body.take 4)) = 0 := hnonzero
    have hfound' : findHandle (s.expired P now).session (UInt32.ofNat (readBE (body.take 4))) fsHandlesMax 0 =
        some (i,h) := by
      rw [hhandle] at hfound
      exact hfound
    dsimp only
    rw [if_neg hzero, hfound']
    dsimp only
    rw [if_neg hclose]
    rfl
  · rw [trackOp, if_pos ⟨rfl,hbody⟩, ← hhandle, hfound]

/-- A READ for anything else. -/
theorem step_read_bad (s : FsSystem β H) (T : UInt32 → FsTransfer) (body : Bytes) (now : UInt32) (capacity : ℕ)
    (hbad : body.length = 8 → findHandle (s.expired P now).session (readHandle body) fsHandlesMax 0 = none) :
    (s.step P (.request opFsRead body now capacity)).1 = s.expired P now ∧
      (s.step P (.request opFsRead body now capacity)).2.1 ≠ statusOk ∧
      trackOp P s T (.request opFsRead body now capacity) = T := by
  have hrequest : fsRequest P s.session s.world opFsRead body now capacity =
      handleResponse P (s.expired P now).session (s.expired P now).world opFsRead body now capacity := rfl
  have hmalformed : statusMalformed ≠ statusOk := by decide
  have hbadHandle : statusFsBadHandle ≠ statusOk := by decide
  by_cases hbody : body.length = 8
  · have hfound := hbad hbody
    have hfound' : findHandle (s.expired P now).session (UInt32.ofNat (readBE (body.take 4))) fsHandlesMax 0 = none :=
      hfound
    have hlength : ¬body.length ≠ if opFsRead = opFsRead then 8 else 4 := not_not.mpr hbody
    have htrack : trackOp P s T (.request opFsRead body now capacity) = T := by
      rw [trackOp, if_pos ⟨rfl,hbody⟩, hfound]
    rw [htrack, FsSystem.step, hrequest, handleResponse, if_neg hlength]
    dsimp only
    by_cases hzero : UInt32.ofNat (readBE (body.take 4)) = 0
    · rw [if_pos hzero]
      exact ⟨rfl,hbadHandle,rfl⟩
    · rw [if_neg hzero, hfound']
      exact ⟨rfl,hbadHandle,rfl⟩
  · have hlength : body.length ≠ if opFsRead = opFsRead then 8 else 4 := hbody
    have htrack : trackOp P s T (.request opFsRead body now capacity) = T := by
      rw [trackOp, if_neg fun hboth => hbody hboth.2]
    rw [htrack, FsSystem.step, hrequest, handleResponse, if_pos hlength]
    exact ⟨rfl,hmalformed,rfl⟩

/-- There is room for the largest block. -/
def Roomy : FsOp → Prop
  | .request _ _ _ capacity => fsBlockMax + 12 ≤ capacity
  | _ => True

theorem tracked_step {op : FsOp} (hs : Tracked P s.session T) (hroom : Roomy op) :
    Tracked P (s.step P op).1.session (trackOp P s T op) := by
  by_cases hread : ∀ body now capacity, op ≠ .request opFsRead body now capacity
  · have htrack : trackOp P s T op = T := by
      cases op with
      | expire now => rfl
      | destroy => rfl
      | request opcode body now capacity =>
        have hne : ¬(opcode = opFsRead ∧ body.length = 8) := by
          rintro ⟨rfl,-⟩
          exact hread body now capacity rfl
        rw [trackOp, if_neg hne]
    rw [htrack]
    rcases step_cases_of_ne P s op hs.numbered.small hread with hrests | ⟨_,now,_,q,i,h,-,hparse,hrests,hadds,-⟩
    · exact hs.rests hrests
    · exact (hs.rests hrests).adds hadds (parseOpen_requested hparse)
  · simp only [not_forall, not_not] at hread
    obtain ⟨body,now,capacity,rfl⟩ := hread
    have hexpired : Rests s.session (s.expired P now).session := rests_closeWhere P _ _ _ _ _
    have hs₁ := hs.rests hexpired
    cases hfound : findHandle (s.expired P now).session (readHandle body) fsHandlesMax 0 with
    | none =>
      obtain ⟨hsession,-,htrack⟩ := step_read_bad P s T body now capacity fun _ => hfound
      rw [hsession, htrack]
      exact hs₁
    | some found =>
      obtain ⟨i,h⟩ := found
      obtain ⟨hi,hhandle⟩ := findHandle_slots fsHandlesMax 0 hfound
      by_cases hbody : body.length = 8
      · obtain ⟨hstep,htrack⟩ := step_read P T hs.numbered capacity hbody hi hhandle
        have hreads := readsAs_readResponse ((hs₁.position i h hi).active now) (s.expired P now).world (readBlock body) hroom
        rw [hstep, htrack]
        exact hs₁.read hi (ticket_readResponse P { h with lastActivity := now } (readBlock body) capacity) hreads.position
      · obtain ⟨hsession,-,htrack⟩ := step_read_bad P s T body now capacity fun hlength => absurd hlength hbody
        rw [hsession, htrack]
        exact hs₁

theorem tracked_final (hs : Tracked P s.session T) {ops : List FsOp} (hroom : ∀ op ∈ ops, Roomy op) :
    Tracked P (final (FsSystem.step P) s ops).session (transfers P s T ops) := by
  induction ops generalizing s T with
  | nil => exact hs
  | cons op ops ih =>
    exact ih (tracked_step P hs (hroom op List.mem_cons_self)) fun op' hop => hroom op' (List.mem_cons_of_mem op hop)

theorem tracked_start (env : β) : Tracked P (fsStart H env).session (fun _ => Transfer.start FsChunk FsError) where
  numbered := numbered_start env
  position := fun _ _ hi => nomatch hi
  start := fun _ _ => rfl

/-- A transfer only grows, and an error stays. -/
def Grows (t t' : FsTransfer) : Prop := t.blocks <+: t'.blocks ∧ ∀ e, t.failed = some e → t'.failed = some e

theorem grows_trackOp (s : FsSystem β H) (T : UInt32 → FsTransfer) (op : FsOp) (n : UInt32) :
    Grows (T n) (trackOp P s T op n) := by
  have hrefl : Grows (T n) (T n) := ⟨List.prefix_rfl,fun _ hfailed => hfailed⟩
  cases op with
  | expire now => exact hrefl
  | destroy => exact hrefl
  | request opcode body now capacity =>
    rw [trackOp]
    split
    · cases hfound : findHandle (s.expired P now).session (readHandle body) fsHandlesMax 0 with
      | none => exact hrefl
      | some found =>
        obtain ⟨i,h⟩ := found
        dsimp only
        by_cases hn : n = h.handle
        · subst hn
          rw [Function.update_self]
          exact ⟨Transfer.read_blocks,fun e hfailed => Transfer.read_keeps_failed hfailed⟩
        · rw [Function.update_of_ne hn]
          exact hrefl
    · exact hrefl

theorem grows_transfers (s : FsSystem β H) (T : UInt32 → FsTransfer) (ops : List FsOp) (n : UInt32) :
    Grows (T n) (transfers P s T ops n) := by
  induction ops generalizing s T with
  | nil => exact ⟨List.prefix_rfl,fun _ hfailed => hfailed⟩
  | cons op ops ih =>
    have hop := grows_trackOp P s T op n
    have hrest := ih (s.step P op).1 (trackOp P s T op)
    exact ⟨hop.1.trans hrest.1,fun e hfailed => hrest.2 e (hop.2 e hfailed)⟩

/-- What the reader of the stream `h` gives at `s` if it is read for a request at `now`. -/
def sourceAt (s : FsSystem β H) (now : UInt32) (h : FsStream H) :
    Except FsError FsChunk × FsReader H × FsWorld β H := readerRead P h.reader (s.expired P now).world h.blockSize

/-- In the state `s`, a READ for the stream `h` in slot `i` is answered as its transfer `t`
says. The reader is read once if the transfer pulls, and nothing changes otherwise. -/
structure Answered (s : FsSystem β H) (i : ℕ) (h : FsStream H) (t : FsTransfer) (body : Bytes) (now : UInt32)
    (capacity : ℕ) : Prop where
  handedOut : t.failed = none → HandedOut P h.blockSize h.reader t.blocks
  reply : (s.step P (.request opFsRead body now capacity)).2 =
    answerReply h.handle (readBlock body) (t.read Prod.snd (readBlock body).toNat (sourceAt P s now h).1).1
  pulls : t.Pulls Prod.snd (readBlock body).toNat →
    ∃ h', (s.step P (.request opFsRead body now capacity)).1 =
      ⟨(s.expired P now).session.setSlot i (some h'),(sourceAt P s now h).2.2⟩ ∧
        h'.reader = (sourceAt P s now h).2.1
  idle : ¬t.Pulls Prod.snd (readBlock body).toNat →
    (s.step P (.request opFsRead body now capacity)).1 =
      ⟨(s.expired P now).session.setSlot i (some { h with lastActivity := now }),(s.expired P now).world⟩

theorem answered_of_tracked (hs : Tracked P s.session T) {body : Bytes} {now : UInt32} {capacity : ℕ}
    (hroom : fsBlockMax + 12 ≤ capacity) (hbody : body.length = 8) {i : ℕ} {h : FsStream H}
    (hi : (s.expired P now).session.slots i = some h) (hhandle : h.handle = readHandle body) :
    Answered P s i h (T h.handle) body now capacity := by
  have hexpired : Rests s.session (s.expired P now).session := rests_closeWhere P _ _ _ _ _
  have hp := (hs.rests hexpired).position i h hi
  obtain ⟨hstep,-⟩ := step_read P T hs.numbered capacity hbody hi hhandle
  have hreads := readsAs_readResponse (hp.active now) (s.expired P now).world (readBlock body) hroom
  refine ⟨hp.handedOut,?_,fun hpulls => ?_,fun hidle => ?_⟩
  · rw [hstep]
    exact hreads.reply
  · obtain ⟨hreader,hworld⟩ := hreads.pulls hpulls
    rw [hstep, hworld]
    exact ⟨_,rfl,hreader⟩
  · obtain ⟨hstream,hworld⟩ := hreads.idle hidle
    rw [hstep, hstream, hworld]

end

section
variable (P : FsBackend β H) (env : β)

theorem transfersOf_append (pre post : List FsOp) : transfersOf P env (pre ++ post) =
    transfers P (final (FsSystem.step P) (fsStart H env) pre) (transfersOf P env pre) post :=
  transfers_append P _ _ pre post

/-- Only a block is a success. -/
theorem answerReply_ok {handle block : UInt32} {a : Answer FsChunk FsError}
    (hok : (answerReply handle block a).1 = statusOk) : ∃ c, a = .block c := by
  cases a with
  | block c => exact ⟨c,rfl⟩
  | failed e => exact absurd hok (terminalOf_ne_zero e)
  | refused =>
    have hrange : statusRange ≠ statusOk := by decide
    exact absurd hok hrange

variable {P env}

/-- The transfer of the stream after the READ. -/
theorem transfersOf_read {pre : List FsOp} {body : Bytes} {now : UInt32} (capacity : ℕ)
    (hs : Tracked P (final (FsSystem.step P) (fsStart H env) pre).session (transfersOf P env pre))
    (hbody : body.length = 8) {i : ℕ} {h : FsStream H}
    (hi : ((final (FsSystem.step P) (fsStart H env) pre).expired P now).session.slots i = some h)
    (hhandle : h.handle = readHandle body) :
    transfersOf P env (pre ++ [.request opFsRead body now capacity]) h.handle =
      ((transfersOf P env pre h.handle).read Prod.snd (readBlock body).toNat
        (sourceAt P (final (FsSystem.step P) (fsStart H env) pre) now h).1).2 := by
  obtain ⟨-,htrack⟩ := step_read P (transfersOf P env pre) hs.numbered capacity hbody hi hhandle
  rw [transfersOf_append]
  refine (congrFun htrack h.handle).trans ?_
  rw [Function.update_self]
  rfl

/-- A block that is delivered is the block of its number. -/
theorem read_delivered {pre : List FsOp} (post : List FsOp) {body : Bytes} {now : UInt32} {capacity : ℕ}
    (hs : Tracked P (final (FsSystem.step P) (fsStart H env) pre).session (transfersOf P env pre))
    (hroom : fsBlockMax + 12 ≤ capacity)
    (hok : ((final (FsSystem.step P) (fsStart H env) pre).step P (.request opFsRead body now capacity)).2.1 = statusOk) :
    ∃ c, (transfersOf P env (pre ++ .request opFsRead body now capacity :: post) (readHandle body)).blocks[
        (readBlock body).toNat]? = some c ∧
      ((final (FsSystem.step P) (fsStart H env) pre).step P (.request opFsRead body now capacity)).2 =
        chunkReply (readHandle body) (readBlock body) c := by
  have hfound : ∃ found, findHandle ((final (FsSystem.step P) (fsStart H env) pre).expired P now).session
      (readHandle body) fsHandlesMax 0 = some found ∧ body.length = 8 := by
    by_contra hnone
    simp only [not_exists, not_and] at hnone
    refine (step_read_bad P _ (transfersOf P env pre) body now capacity fun hbody => ?_).2.1 hok
    exact Option.eq_none_iff_forall_ne_some.mpr fun found hfound => hnone found hfound hbody
  obtain ⟨⟨i,h⟩,hfound,hbody⟩ := hfound
  obtain ⟨hi,hhandle⟩ := findHandle_slots fsHandlesMax 0 hfound
  have hreply := (answered_of_tracked P hs hroom hbody hi hhandle).reply
  rw [hreply] at hok ⊢
  obtain ⟨c,hanswer⟩ := answerReply_ok hok
  rw [hanswer]
  refine ⟨c,?_,by rw [hhandle]; rfl⟩
  have hblock := Transfer.read_block hanswer
  rw [← transfersOf_read capacity hs hbody hi hhandle, hhandle] at hblock
  have hgrows := grows_transfers P (final (FsSystem.step P) (fsStart H env) (pre ++ [.request opFsRead body now capacity]))
    (transfersOf P env (pre ++ [.request opFsRead body now capacity])) post (readHandle body)
  rw [← transfersOf_append, List.append_assoc, List.singleton_append] at hgrows
  obtain ⟨tail,htail⟩ := hgrows.1
  rw [← htail, List.getElem?_append_left (List.getElem?_eq_some_iff.mp hblock).1]
  exact hblock

variable (P env)

/-- READ hands out the reader's stream exactly once: in every run, a READ for an open stream is
answered as its transfer says, every block that is delivered under a number is the block of
that number, and an error is final. -/
theorem fs_read_exactly_once (ops : List FsOp) (hroom : ∀ op ∈ ops, Roomy op) :
    (∀ pre body now capacity post, ops = pre ++ .request opFsRead body now capacity :: post → body.length = 8 →
      ∀ i h, ((final (FsSystem.step P) (fsStart H env) pre).expired P now).session.slots i = some h →
        h.handle = readHandle body →
          Answered P (final (FsSystem.step P) (fsStart H env) pre) i h (transfersOf P env pre h.handle) body now
            capacity ∧
          transfersOf P env (pre ++ [.request opFsRead body now capacity]) h.handle =
            ((transfersOf P env pre h.handle).read Prod.snd (readBlock body).toNat
              (sourceAt P (final (FsSystem.step P) (fsStart H env) pre) now h).1).2 ∧
          ∀ e, (transfersOf P env pre h.handle).failed = some e →
            ((final (FsSystem.step P) (fsStart H env) pre).step P (.request opFsRead body now capacity)).2 =
              (terminalOf e,[])) ∧
    (∀ pre body now capacity post, ops = pre ++ .request opFsRead body now capacity :: post →
      ((final (FsSystem.step P) (fsStart H env) pre).step P (.request opFsRead body now capacity)).2.1 = statusOk →
        ∃ c, (transfersOf P env ops (readHandle body)).blocks[(readBlock body).toNat]? = some c ∧
          ((final (FsSystem.step P) (fsStart H env) pre).step P (.request opFsRead body now capacity)).2 =
            chunkReply (readHandle body) (readBlock body) c) ∧
    ∀ pre post n, ops = pre ++ post → Grows (transfersOf P env pre n) (transfersOf P env ops n) := by
  have htracked : ∀ pre post, ops = pre ++ post →
      Tracked P (final (FsSystem.step P) (fsStart H env) pre).session (transfersOf P env pre) := by
    rintro pre post rfl
    exact tracked_final P (tracked_start P env) fun op hop => hroom op (List.mem_append_left post hop)
  have hcapacity : ∀ pre body now capacity post, ops = pre ++ .request opFsRead body now capacity :: post →
      fsBlockMax + 12 ≤ capacity := by
    rintro pre body now capacity post rfl
    exact hroom (.request opFsRead body now capacity) (List.mem_append_right pre List.mem_cons_self)
  refine ⟨?_,?_,?_⟩
  · intro pre body now capacity post hops hbody i h hi hhandle
    have hs := htracked pre _ hops
    have hanswered := answered_of_tracked P hs (hcapacity pre body now capacity post hops) hbody hi hhandle
    refine ⟨hanswered,transfersOf_read capacity hs hbody hi hhandle,fun e hfailed => ?_⟩
    rw [hanswered.reply, Transfer.read_failed hfailed]
    rfl
  · intro pre body now capacity post hops hok
    have hdelivered := read_delivered post (htracked pre _ hops) (hcapacity pre body now capacity post hops) hok
    rwa [← hops] at hdelivered
  · rintro pre post n rfl
    rw [transfersOf_append]
    exact grows_transfers P _ _ post n

end

/-- A READ of the first block under the first handle. -/
def readSample : Bytes := beBytes 4 1 ++ beBytes 4 0

theorem fs_read_exactly_once_sample :
    (∀ op ∈ [.request opFsOpen (openSample 0) 0 4090,.request opFsRead readSample 5 4090], Roomy op) ∧
      ((final (FsSystem.step emptyFiles) (fsStart Unit ()) [.request opFsOpen (openSample 0) 0 4090]).step emptyFiles
        (.request opFsRead readSample 5 4090)).2.1 = statusOk ∧
      ∃ c, (transfersOf emptyFiles () [.request opFsOpen (openSample 0) 0 4090,.request opFsRead readSample 5 4090]
          (readHandle readSample)).blocks[(readBlock readSample).toNat]? = some c ∧
        ((final (FsSystem.step emptyFiles) (fsStart Unit ()) [.request opFsOpen (openSample 0) 0 4090]).step emptyFiles
          (.request opFsRead readSample 5 4090)).2 = chunkReply (readHandle readSample) (readBlock readSample) c := by
  have hroom : ∀ op ∈ [.request opFsOpen (openSample 0) 0 4090,.request opFsRead readSample 5 4090], Roomy op := by
    intro op hop
    rcases List.mem_pair.mp hop with rfl | rfl
    · exact (by decide : fsBlockMax + 12 ≤ 4090)
    · exact (by decide : fsBlockMax + 12 ≤ 4090)
  have hok : ((final (FsSystem.step emptyFiles) (fsStart Unit ()) [.request opFsOpen (openSample 0) 0 4090]).step
      emptyFiles (.request opFsRead readSample 5 4090)).2.1 = statusOk := by decide +kernel
  exact ⟨hroom,hok,(fs_read_exactly_once emptyFiles () _ hroom).2.1 _ _ _ _ [] rfl hok⟩

end Bvstk.Dcp2
