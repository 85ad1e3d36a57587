import Bvstk.Dcp2.FsHandles
import Bvstk.Fs.ReaderFrame
import Mathlib.Data.List.Induction

/-! # Opening streams

A stream keeps what its first OPEN has fixed. An OPEN under the number of a live stream is
answered from it, and every stream that is opened gets a handle no other stream has had.
-/
namespace Bvstk.Dcp2
open Wire Fs Machine
variable {β H : Type}

/-- What the first OPEN has fixed. -/
@[ext] structure FsTicket where
  handle : UInt32
  openId : UInt32
  requestedBlockSize : ℕ
  blockSize : ℕ
  source : FsSource

def FsStream.ticket (h : FsStream H) : FsTicket :=
  ⟨h.handle,h.openId,h.requestedBlockSize,h.blockSize,h.reader.source⟩

theorem openedBy_congr {h h' : FsStream H} (q : OpenRequest) (hticket : h'.ticket = h.ticket) :
    h'.openedBy q = h.openedBy q := by
  rw [FsTicket.ext_iff] at hticket
  obtain ⟨-,-,hrequested,-,hsource⟩ := hticket
  obtain ⟨-,hroot,-,-,hkind,hflags⟩ := FsSource.ext_iff.mp hsource
  have hroot : h'.reader.root = h.reader.root := hroot
  have hkind : h'.reader.kind = h.reader.kind := hkind
  have hflags : h'.reader.flags = h.reader.flags := hflags
  have hrequested : h'.requestedBlockSize = h.requestedBlockSize := hrequested
  rw [FsStream.openedBy, FsStream.openedBy, hroot, hkind, hflags, hrequested]

theorem openReply_congr {h h' : FsStream H} (hticket : h'.ticket = h.ticket) : openReply h' = openReply h := by
  rw [FsTicket.ext_iff] at hticket
  obtain ⟨hhandle,-,-,hblock,hsource⟩ := hticket
  have htotal : h'.reader.totalSize = h.reader.totalSize := (FsSource.ext_iff.mp hsource).2.2.2.1
  have hhandle : h'.handle = h.handle := hhandle
  have hblock : h'.blockSize = h.blockSize := hblock
  rw [openReply, openReply, htotal, hhandle, hblock]

/-- Under one number, a stream was opened by one request only. -/
theorem openedBy_unique {h : FsStream H} {q q' : OpenRequest} (hq : h.openedBy q = true) (hq' : h.openedBy q' = true)
    (hid : q'.openId = q.openId) : q' = q := by
  simp only [FsStream.openedBy, decide_eq_true_eq] at hq hq'
  obtain ⟨hkind,hflags,hrequested,hpath⟩ := hq
  obtain ⟨hkind',hflags',hrequested',hpath'⟩ := hq'
  cases q
  cases q'
  simp_all

/-! ## The slot of a request -/

section
variable {s : FsSession H} {q : OpenRequest} {i j left : ℕ} {free : Option ℕ} {h : FsStream H}

/-- The first stream under the number of the request decides. -/
theorem findSlot_of_openId (hj : s.slots j = some h) (hid : h.openId = q.openId) (hij : i ≤ j) (hleft : j < i + left)
    (hbefore : ∀ k h', k < j → s.slots k = some h' → h'.openId ≠ q.openId) :
    findSlot s q left i free = if h.openedBy q = true then .ok (some j) else .error statusMalformed := by
  induction left generalizing i free with
  | zero => omega
  | succ left ih =>
    unfold findSlot
    rcases Nat.lt_or_eq_of_le hij with hlt | rfl
    · cases hi : s.slots i with
      | none => exact ih hlt (by omega)
      | some h' =>
        dsimp only
        rw [if_neg (hbefore i h' hlt hi)]
        exact ih hlt (by omega)
    · rw [hj]
      dsimp only
      rw [if_pos hid]

/-- Only a number that is not in use gets a free slot. -/
theorem findSlot_free (hfound : findSlot s q left i free = .ok (some j)) (hj : s.slots j = none) {k : ℕ}
    {h' : FsStream H} (hik : i ≤ k) (hleft : k < i + left) (hk : s.slots k = some h') : h'.openId ≠ q.openId := by
  induction left generalizing i free with
  | zero => omega
  | succ left ih =>
    unfold findSlot at hfound
    rcases Nat.lt_or_eq_of_le hik with hlt | rfl
    · cases hi : s.slots i with
      | none =>
        rw [hi] at hfound
        exact ih hfound hlt (by omega)
      | some h =>
        rw [hi] at hfound
        dsimp only at hfound
        split at hfound
        · split at hfound
          · cases hfound
            exact absurd (hi.symm.trans hj) (Option.some_ne_none h)
          · cases hfound
        · exact ih hfound hlt (by omega)
    · intro hid
      rw [hk] at hfound
      dsimp only at hfound
      rw [if_pos hid] at hfound
      split at hfound
      · cases hfound
        exact absurd (hk.symm.trans hj) (Option.some_ne_none h')
      · cases hfound

/-- A number that is not in use gets a free slot, if there is one. -/
theorem findSlot_of_fresh (hfresh : ∀ k h', s.slots k = some h' → h'.openId ≠ q.openId)
    (hfree : ∀ k, free = some k → s.slots k = none) :
    ∃ found, findSlot s q left i free = .ok found ∧ ∀ k, found = some k → s.slots k = none := by
  induction left generalizing i free with
  | zero => exact ⟨free,rfl,hfree⟩
  | succ left ih =>
    unfold findSlot
    cases hi : s.slots i with
    | some h' =>
      dsimp only
      rw [if_neg (hfresh i h' hi)]
      exact ih hfree
    | none =>
      refine ih fun k hk => ?_
      rcases Option.or_eq_some_iff.mp hk with hk | ⟨-,hk⟩
      · exact hfree k hk
      · cases hk
        exact hi

end

/-! ## What a request does to the streams -/

/-- No stream is new. -/
structure Continues (s s' : FsSession H) : Prop where
  next : s'.nextHandle = s.nextHandle
  streams : ∀ i h', s'.slots i = some h' → ∃ h, s.slots i = some h ∧ h'.ticket = h.ticket

theorem Continues.refl (s : FsSession H) : Continues s s := ⟨rfl,fun _ h' hi => ⟨h',hi,rfl⟩⟩

theorem Continues.trans {s₁ s₂ s₃ : FsSession H} (h₁ : Continues s₁ s₂) (h₂ : Continues s₂ s₃) : Continues s₁ s₃ where
  next := h₂.next.trans h₁.next
  streams := by
    intro i h₃ hi
    obtain ⟨h₂,hi,hticket₂⟩ := h₂.streams i h₃ hi
    obtain ⟨h₁,hi,hticket₁⟩ := h₁.streams i h₂ hi
    exact ⟨h₁,hi,hticket₂.trans hticket₁⟩

/-- Every stream is an old one, but for the time of its last activity. -/
structure Rests (s s' : FsSession H) : Prop where
  next : s'.nextHandle = s.nextHandle
  streams : ∀ i h', s'.slots i = some h' → ∃ h now, s.slots i = some h ∧ h' = { h with lastActivity := now }

theorem Rests.refl (s : FsSession H) : Rests s s := ⟨rfl,fun _ h' hi => ⟨h',h'.lastActivity,hi,rfl⟩⟩

theorem Rests.trans {s₁ s₂ s₃ : FsSession H} (h₁ : Rests s₁ s₂) (h₂ : Rests s₂ s₃) : Rests s₁ s₃ where
  next := h₂.next.trans h₁.next
  streams := by
    intro i h₃ hi
    obtain ⟨h₂,now,hi₂,rfl⟩ := h₂.streams i h₃ hi
    obtain ⟨h₁,_,hi₁,rfl⟩ := h₁.streams i h₂ hi₂
    exact ⟨h₁,now,hi₁,rfl⟩

theorem Rests.setSlot {s : FsSession H} {i : ℕ} {h : FsStream H} (hi : s.slots i = some h) (now : UInt32) :
    Rests s (s.setSlot i (some { h with lastActivity := now })) where
  next := rfl
  streams := by
    intro j h' hj
    rcases FsSession.slots_setSlot hj with ⟨rfl,hsome⟩ | hj
    · cases hsome
      exact ⟨h,now,hi,rfl⟩
    · exact ⟨h',h'.lastActivity,hj,rfl⟩

theorem Rests.continues {s s' : FsSession H} (hrests : Rests s s') : Continues s s' where
  next := hrests.next
  streams := by
    intro i h' hi
    obtain ⟨h,_,hi',rfl⟩ := hrests.streams i h' hi
    exact ⟨h,hi',rfl⟩

theorem Continues.setSlot {s : FsSession H} {i : ℕ} {h h' : FsStream H} (hi : s.slots i = some h)
    (hticket : h'.ticket = h.ticket) : Continues s (s.setSlot i (some h')) where
  next := rfl
  streams := by
    intro j h'' hj
    rcases FsSession.slots_setSlot hj with ⟨rfl,hsome⟩ | hj
    · cases hsome
      exact ⟨h,hi,hticket⟩
    · exact ⟨h'',hj,rfl⟩

/-- The stream `h` for the request `q` is put into the free slot `i`. -/
structure Adds (P : FsBackend β H) (s : FsSession H) (q : OpenRequest) (i : ℕ) (h : FsStream H) (s' : FsSession H) :
    Prop where
  small : i < fsHandlesMax
  free : s.slots i = none
  fresh : ∀ j h', s.slots j = some h' → h'.openId ≠ q.openId
  next : s.nextHandle ≠ 0
  handle : h.handle = s.nextHandle
  openId : h.openId = q.openId
  openedBy : h.openedBy q = true
  unread : ∃ reader w w' now, readerOpen P w i q.path q.kind q.flags = (.ok reader,w') ∧ h = newStream s q reader now
  session : s' = { s with nextHandle := s.nextHandle + 1 }.setSlot i (some h)

section
variable (P : FsBackend β H)

theorem rests_closeHandle (s : FsSession H) (w : FsWorld β H) (i : ℕ) : Rests s (closeHandle P s w i).1 := by
  unfold closeHandle
  cases hi : s.slots i with
  | none => exact Rests.refl s
  | some h =>
    refine ⟨rfl,fun j h' hj => ⟨h',h'.lastActivity,?_,rfl⟩⟩
    exact (FsSession.slots_setSlot hj).resolve_left fun hnone => nomatch hnone.2

theorem rests_closeWhere (p : FsStream H → Bool) (left i : ℕ) (s : FsSession H) (w : FsWorld β H) :
    Rests s (closeWhere P p left i s w).1 := by
  induction left generalizing i s w with
  | zero => exact Rests.refl s
  | succ left ih =>
    unfold closeWhere
    dsimp only
    split
    · exact (rests_closeHandle P s w i).trans (ih (i + 1) _ _)
    · exact ih (i + 1) s w

variable {s : FsSession H} {w : FsWorld β H} {body : Bytes} {capacity : ℕ}

/-- An OPEN leaves the streams, or it adds one and says so. -/
theorem openResponse_cases (now : UInt32) (hsmall : ∀ i h, s.slots i = some h → i < fsHandlesMax) :
    Rests s (openResponse P s w body now capacity).2.1 ∨
      ∃ q i h, parseOpen body capacity = .ok q ∧ Adds P s q i h (openResponse P s w body now capacity).2.1 ∧
        (openResponse P s w body now capacity).1 = openReply h := by
  unfold openResponse
  cases hparse : parseOpen body capacity with
  | error status => exact Or.inl (Rests.refl s)
  | ok q =>
    dsimp only
    cases hfound : findSlot s q fsHandlesMax 0 none with
    | error status => exact Or.inl (Rests.refl s)
    | ok found =>
      cases found with
      | none => exact Or.inl (Rests.refl s)
      | some i =>
        dsimp only
        by_cases hnext : s.nextHandle = 0
        · rw [if_pos hnext]
          exact Or.inl (Rests.refl s)
        · rw [if_neg hnext]
          cases hi : s.slots i with
          | some h => exact Or.inl (Rests.setSlot hi now)
          | none =>
            cases hopen : readerOpen P w i q.path q.kind q.flags with
            | mk result w' =>
              cases result with
              | error e => exact Or.inl (Rests.refl s)
              | ok reader =>
                obtain ⟨-,hroot,hkind,hflags⟩ := source_readerOpen P reader w hopen
                refine Or.inr ⟨q,i,newStream s q reader now,rfl,?_,rfl⟩
                have hlt : i < 0 + fsHandlesMax := findSlot_lt fsHandlesMax 0 none (fun k hk => nomatch hk) hfound
                refine ⟨Nat.zero_add fsHandlesMax ▸ hlt,hi,fun j h' hj => ?_,hnext,rfl,rfl,?_,⟨reader,w,w',now,hopen,rfl⟩,rfl⟩
                · exact findSlot_free hfound hi (Nat.zero_le j) (by simpa using hsmall j h' hj) hj
                · simp [FsStream.openedBy, newStream, hroot, hkind, hflags]

/-- A READ leaves the ticket of its stream. -/
theorem ticket_readResponse (h : FsStream H) (block : UInt32) (capacity : ℕ) :
    (readResponse P h w block capacity).2.1.ticket = h.ticket := by
  unfold readResponse
  split
  · rfl
  · split
    · rfl
    · split
      · rfl
      · split
        · rfl
        · have hread := source_readerRead P h.reader w h.blockSize
          generalize readerRead P h.reader w h.blockSize = out at hread ⊢
          obtain ⟨result,reader,w₁⟩ := out
          cases result with
          | error e => exact congrArg (FsTicket.mk h.handle h.openId h.requestedBlockSize h.blockSize) hread
          | ok block => exact congrArg (FsTicket.mk h.handle h.openId h.requestedBlockSize h.blockSize) hread

/-- What a READ or a CLOSE can do to the streams. -/
theorem handleResponse_cases (opcode : UInt8) (body : Bytes) (now : UInt32) (capacity : ℕ) :
    Rests s (handleResponse P s w opcode body now capacity).2.1 ∨
      ∃ i h, opcode ≠ opFsClose ∧ s.slots i = some h ∧ (handleResponse P s w opcode body now capacity).2.1 =
        s.setSlot i (some (readResponse P { h with lastActivity := now } w (UInt32.ofNat (readBE (body.drop 4)))
          capacity).2.1) := by
  unfold handleResponse
  by_cases hlength : body.length ≠ if opcode = opFsRead then 8 else 4
  · rw [if_pos hlength]
    exact Or.inl (Rests.refl s)
  · rw [if_neg hlength]
    dsimp only
    split
    · exact Or.inl (Rests.refl s)
    · split
      · exact Or.inl (Rests.refl s)
      · rename_i i h hfound
        obtain ⟨hi,-⟩ := findHandle_slots fsHandlesMax 0 hfound
        split
        · exact Or.inl (rests_closeHandle P s w i)
        · exact Or.inr ⟨i,h,‹_›,hi,rfl⟩

/-- What a step can do to the streams, unless it is a READ. -/
theorem step_cases_of_ne (s : FsSystem β H) (op : FsOp) (hsmall : ∀ i h, s.session.slots i = some h → i < fsHandlesMax)
    (hread : ∀ body now capacity, op ≠ .request opFsRead body now capacity) :
    Rests s.session (s.step P op).1.session ∨
      ∃ body now capacity q i h, op = .request opFsOpen body now capacity ∧ parseOpen body capacity = .ok q ∧
        Rests s.session (fsExpire P s.session s.world now).1 ∧
        Adds P (fsExpire P s.session s.world now).1 q i h (s.step P op).1.session ∧ (s.step P op).2 = openReply h := by
  cases op with
  | expire now => exact Or.inl (rests_closeWhere P _ _ _ _ _)
  | destroy => exact Or.inl (rests_closeWhere P _ _ _ _ _)
  | request opcode body now capacity =>
    have hexpired : Rests s.session (fsExpire P s.session s.world now).1 := rests_closeWhere P _ _ _ _ _
    have hsmall' : ∀ i h, (fsExpire P s.session s.world now).1.slots i = some h → i < fsHandlesMax := by
      intro i h hi
      obtain ⟨h',_,hi',-⟩ := hexpired.streams i h hi
      exact hsmall i h' hi'
    simp only [FsSystem.step, fsRequest]
    by_cases hinfo : opcode = opFsInfo
    · rw [if_pos hinfo]
      split
      · exact Or.inl hexpired
      · exact Or.inl hexpired
    · rw [if_neg hinfo]
      by_cases hstat : opcode = opFsStat
      · rw [if_pos hstat]
        exact Or.inl hexpired
      · rw [if_neg hstat]
        by_cases hopen : opcode = opFsOpen
        · rw [if_pos hopen]
          rcases openResponse_cases P now hsmall' with hrests | ⟨q,i,h,hparse,hadds,hreply⟩
          · exact Or.inl (hexpired.trans hrests)
          · exact Or.inr ⟨body,now,capacity,q,i,h,by rw [hopen],hparse,hexpired,hadds,hreply⟩
        · rw [if_neg hopen]
          by_cases hother : opcode ≠ opFsRead ∧ opcode ≠ opFsClose
          · rw [if_pos hother]
            exact Or.inl hexpired
          · rw [if_neg hother]
            have hclose : opcode = opFsClose := by
              by_contra hclose
              exact hother ⟨fun heq => hread body now capacity (heq ▸ rfl),hclose⟩
            rcases handleResponse_cases P opcode body now capacity with hrests | ⟨i,h,hne,-⟩
            · exact Or.inl (hexpired.trans hrests)
            · exact absurd hclose hne

/-- What a step can do to the streams. -/
theorem step_cases (s : FsSystem β H) (op : FsOp) (hsmall : ∀ i h, s.session.slots i = some h → i < fsHandlesMax) :
    Continues s.session (s.step P op).1.session ∨
      ∃ body now capacity q i h, op = .request opFsOpen body now capacity ∧ parseOpen body capacity = .ok q ∧
        Continues s.session (fsExpire P s.session s.world now).1 ∧
        Adds P (fsExpire P s.session s.world now).1 q i h (s.step P op).1.session ∧ (s.step P op).2 = openReply h := by
  by_cases hread : ∀ body now capacity, op ≠ .request opFsRead body now capacity
  · rcases step_cases_of_ne P s op hsmall hread with hrests | ⟨body,now,capacity,q,i,h,hop,hparse,hrests,hadds⟩
    · exact Or.inl hrests.continues
    · exact Or.inr ⟨body,now,capacity,q,i,h,hop,hparse,hrests.continues,hadds⟩
  · simp only [not_forall, not_not] at hread
    obtain ⟨body,now,capacity,rfl⟩ := hread
    have hexpired : Rests s.session (fsExpire P s.session s.world now).1 := rests_closeWhere P _ _ _ _ _
    left
    rcases handleResponse_cases P (s := (fsExpire P s.session s.world now).1) (w := (fsExpire P s.session s.world now).2)
      opFsRead body now capacity with hrests | ⟨i,h,-,hi,hsession⟩
    · exact (hexpired.trans hrests).continues
    · have hstep : (s.step P (.request opFsRead body now capacity)).1.session = _ := hsession
      rw [hstep]
      exact hexpired.continues.trans (Continues.setSlot hi (ticket_readResponse P _ _ capacity))

end

/-! ## Handle numbers -/

/-- The number after those that have been issued. -/
def FsSession.issued (s : FsSession H) : ℕ := if s.nextHandle = 0 then 2^32 else s.nextHandle.toNat

theorem toNat_succ (n : UInt32) : (if n + 1 = 0 then 2^32 else (n + 1).toNat) = n.toNat + 1 := by
  have hlt : n.toNat < 2^32 := n.toNat_lt
  have hadd : (n + 1).toNat = (n.toNat + 1) % 2^32 := UInt32.toNat_add n 1
  by_cases hlast : n.toNat + 1 = 2^32
  · have hzero : n + 1 = 0 := by
      rw [← UInt32.toNat_inj, hadd, hlast]
      rfl
    rw [if_pos hzero, hlast]
  · have hsum : (n + 1).toNat = n.toNat + 1 := hadd.trans (Nat.mod_eq_of_lt (by omega))
    have hne : n + 1 ≠ 0 := by
      rw [Ne, ← UInt32.toNat_inj, hsum]
      exact Nat.succ_ne_zero _
    rw [if_neg hne, hsum]

/-- The streams have different numbers, all of them issued. -/
structure Numbered (s : FsSession H) : Prop where
  small : ∀ i h, s.slots i = some h → i < fsHandlesMax
  issued : ∀ i h, s.slots i = some h → h.handle ≠ 0 ∧ h.handle.toNat < s.issued
  openIds : ∀ i j h h', s.slots i = some h → s.slots j = some h' → h.openId = h'.openId → i = j
  handles : ∀ i j h h', s.slots i = some h → s.slots j = some h' → h.handle = h'.handle → i = j

section
variable {P : FsBackend β H} {s s' : FsSession H} {q : OpenRequest} {i : ℕ} {h : FsStream H}

theorem Continues.issued_eq (hcont : Continues s s') : s'.issued = s.issued := by
  rw [FsSession.issued, FsSession.issued, hcont.next]

theorem Numbered.continues (hs : Numbered s) (hcont : Continues s s') : Numbered s' where
  small := by
    intro i h hi
    obtain ⟨h₁,hi₁,-⟩ := hcont.streams i h hi
    exact hs.small i h₁ hi₁
  issued := by
    intro i h hi
    obtain ⟨h₁,hi₁,hticket⟩ := hcont.streams i h hi
    have hhandle : h.handle = h₁.handle := congrArg FsTicket.handle hticket
    rw [hhandle, hcont.issued_eq]
    exact hs.issued i h₁ hi₁
  openIds := by
    intro i j h h' hi hj hid
    obtain ⟨h₁,hi₁,hticket⟩ := hcont.streams i h hi
    obtain ⟨h₂,hj₂,hticket'⟩ := hcont.streams j h' hj
    have hid₁ : h.openId = h₁.openId := congrArg FsTicket.openId hticket
    have hid₂ : h'.openId = h₂.openId := congrArg FsTicket.openId hticket'
    exact hs.openIds i j h₁ h₂ hi₁ hj₂ (hid₁.symm.trans (hid.trans hid₂))
  handles := by
    intro i j h h' hi hj hhandle
    obtain ⟨h₁,hi₁,hticket⟩ := hcont.streams i h hi
    obtain ⟨h₂,hj₂,hticket'⟩ := hcont.streams j h' hj
    have hhandle₁ : h.handle = h₁.handle := congrArg FsTicket.handle hticket
    have hhandle₂ : h'.handle = h₂.handle := congrArg FsTicket.handle hticket'
    exact hs.handles i j h₁ h₂ hi₁ hj₂ (hhandle₁.symm.trans (hhandle.trans hhandle₂))

theorem Adds.issued_before (hadds : Adds P s q i h s') : s.issued = h.handle.toNat := by
  rw [FsSession.issued, if_neg hadds.next, hadds.handle]

theorem Adds.issued_after (hadds : Adds P s q i h s') : s'.issued = h.handle.toNat + 1 := by
  rw [hadds.session, hadds.handle]
  exact toNat_succ s.nextHandle

/-- A stream is the new one or an old one. -/
theorem Adds.streams (hadds : Adds P s q i h s') {j : ℕ} {h' : FsStream H} (hj : s'.slots j = some h') :
    (j = i ∧ h' = h) ∨ s.slots j = some h' := by
  rw [hadds.session] at hj
  exact (FsSession.slots_setSlot hj).imp_left fun hboth => ⟨hboth.1,(Option.some.inj hboth.2).symm⟩

theorem Numbered.adds (hs : Numbered s) (hadds : Adds P s q i h s') : Numbered s' where
  small := by
    intro j h' hj
    rcases hadds.streams hj with ⟨rfl,-⟩ | hj
    · exact hadds.small
    · exact hs.small j h' hj
  issued := by
    intro j h' hj
    rw [hadds.issued_after]
    rcases hadds.streams hj with ⟨-,rfl⟩ | hj
    · exact ⟨hadds.handle ▸ hadds.next,Nat.lt_succ_self _⟩
    · obtain ⟨hzero,hlt⟩ := hs.issued j h' hj
      rw [hadds.issued_before] at hlt
      exact ⟨hzero,Nat.lt_succ_of_lt hlt⟩
  openIds := by
    intro j k h₁ h₂ hj hk hid
    rcases hadds.streams hj with ⟨rfl,rfl⟩ | hj
    · rcases hadds.streams hk with ⟨rfl,-⟩ | hk
      · rfl
      · exact absurd (hid.symm.trans hadds.openId) (hadds.fresh k h₂ hk)
    · rcases hadds.streams hk with ⟨rfl,rfl⟩ | hk
      · exact absurd (hid.trans hadds.openId) (hadds.fresh j h₁ hj)
      · exact hs.openIds j k h₁ h₂ hj hk hid
  handles := by
    -- an old number is below the new one
    have hold : ∀ k h', s.slots k = some h' → h'.handle ≠ h.handle := by
      intro k h' hk heq
      have hlt := (hs.issued k h' hk).2
      rw [hadds.issued_before, heq] at hlt
      exact Nat.lt_irrefl _ hlt
    intro j k h₁ h₂ hj hk hhandle
    rcases hadds.streams hj with ⟨rfl,rfl⟩ | hj
    · rcases hadds.streams hk with ⟨rfl,-⟩ | hk
      · rfl
      · exact absurd hhandle.symm (hold k h₂ hk)
    · rcases hadds.streams hk with ⟨rfl,rfl⟩ | hk
      · exact absurd hhandle (hold j h₁ hj)
      · exact hs.handles j k h₁ h₂ hj hk hhandle

end

/-- The step opens the stream with the handle `n`. -/
def Opening (P : FsBackend β H) (s : FsSystem β H) (op : FsOp) (n : UInt32) : Prop :=
  (∃ i h, (s.step P op).1.session.slots i = some h ∧ h.handle = n) ∧
    ∀ i h, s.session.slots i = some h → h.handle ≠ n

section
variable (P : FsBackend β H) {s : FsSystem β H}

theorem numbered_step (op : FsOp) (hs : Numbered s.session) : Numbered (s.step P op).1.session := by
  rcases step_cases P s op hs.small with hcont | ⟨_,now,_,q,i,h,-,-,hcont,hadds,-⟩
  · exact hs.continues hcont
  · exact (hs.continues hcont).adds hadds

theorem issued_step (op : FsOp) (hs : Numbered s.session) : s.session.issued ≤ (s.step P op).1.session.issued := by
  rcases step_cases P s op hs.small with hcont | ⟨_,now,_,q,i,h,-,-,hcont,hadds,-⟩
  · exact Nat.le_of_eq hcont.issued_eq.symm
  · rw [hadds.issued_after, ← hcont.issued_eq, hadds.issued_before]
    exact Nat.le_succ _

theorem numbered_final (hs : Numbered s.session) (ops : List FsOp) :
    Numbered (final (FsSystem.step P) s ops).session :=
  final_invariant (P := fun s : FsSystem β H => Numbered s.session) (fun _ op hs => numbered_step P op hs) hs ops

theorem issued_final (hs : Numbered s.session) (ops : List FsOp) :
    s.session.issued ≤ (final (FsSystem.step P) s ops).session.issued := by
  induction ops generalizing s with
  | nil => exact Nat.le_refl _
  | cons op ops ih => exact (issued_step P op hs).trans (ih (numbered_step P op hs))

/-- The number of a stream that is opened is the next one. -/
theorem opening_issued {op : FsOp} {n : UInt32} (hs : Numbered s.session) (hopens : Opening P s op n) :
    s.session.issued ≤ n.toNat ∧ n.toNat < (s.step P op).1.session.issued := by
  obtain ⟨⟨j,h',hj,rfl⟩,hnew⟩ := hopens
  have hold : ∀ s₁ : FsSession H, Continues s.session s₁ → s₁.slots j ≠ some h' := by
    intro s₁ hcont hj
    obtain ⟨h₁,hj₁,hticket⟩ := hcont.streams j h' hj
    exact hnew j h₁ hj₁ (congrArg FsTicket.handle hticket).symm
  rcases step_cases P s op hs.small with hcont | ⟨_,now,_,q,i,h,-,-,hcont,hadds,-⟩
  · exact absurd hj (hold _ hcont)
  · rcases hadds.streams hj with ⟨-,rfl⟩ | hj
    · rw [hadds.issued_after, ← hcont.issued_eq, hadds.issued_before]
      exact ⟨Nat.le_refl _,Nat.lt_succ_self _⟩
    · exact absurd hj (hold _ hcont)

theorem numbered_start (env : β) : Numbered (fsStart H env).session where
  small := fun _ _ hi => nomatch hi
  issued := fun _ _ hi => nomatch hi
  openIds := fun _ _ _ _ hi => nomatch hi
  handles := fun _ _ _ _ hi => nomatch hi

/-- No number is issued twice, and none is zero. -/
theorem opening_distinct (env : β) (pre mid : List FsOp) (op op' : FsOp) (n n' : UInt32)
    (hop : Opening P (final (FsSystem.step P) (fsStart H env) pre) op n)
    (hop' : Opening P (final (FsSystem.step P) (fsStart H env) (pre ++ op :: mid)) op' n') :
    n ≠ n' ∧ n ≠ 0 ∧ n' ≠ 0 := by
  have hstart := numbered_start (H := H) env
  have hpre := numbered_final P hstart pre
  have hmid := numbered_final P hstart (pre ++ op :: mid)
  have hfirst := opening_issued P hpre hop
  have hsecond := opening_issued P hmid hop'
  have hbetween := issued_final P (numbered_step P op hpre) mid
  rw [final_append, final_cons] at hsecond
  refine ⟨fun heq => ?_,?_,?_⟩
  · rw [heq] at hfirst
    omega
  · obtain ⟨⟨j,h,hj,rfl⟩,-⟩ := hop
    exact ((numbered_step P op hpre).issued j h hj).1
  · obtain ⟨⟨j,h,hj,rfl⟩,-⟩ := hop'
    exact ((numbered_step P op' hmid).issued j h hj).1

/-! ## An OPEN under the number of a live stream -/

/-- The stream `h` was opened by the request `q` of the run, and goes on as it was answered. -/
def OpenedIn (env : β) (ops : List FsOp) (q : OpenRequest) (h : FsStream H) : Prop :=
  ∃ pre body now capacity post, ops = pre ++ .request opFsOpen body now capacity :: post ∧
    parseOpen body capacity = .ok q ∧ h.openId = q.openId ∧ h.openedBy q = true ∧
    Opening P (final (FsSystem.step P) (fsStart H env) pre) (.request opFsOpen body now capacity) h.handle ∧
    ((final (FsSystem.step P) (fsStart H env) pre).step P (.request opFsOpen body now capacity)).2 = openReply h

theorem OpenedIn.snoc {env : β} {ops : List FsOp} {q : OpenRequest} {h h' : FsStream H} (hopened : OpenedIn P env ops q h)
    (hticket : h'.ticket = h.ticket) (op : FsOp) : OpenedIn P env (ops ++ [op]) q h' := by
  obtain ⟨pre,body,now,capacity,post,rfl,hparse,hid,hby,hopens,hreply⟩ := hopened
  have hhandle : h'.handle = h.handle := congrArg FsTicket.handle hticket
  have hid' : h'.openId = h.openId := congrArg FsTicket.openId hticket
  refine ⟨pre,body,now,capacity,post ++ [op],?_,hparse,hid'.trans hid,?_,?_,?_⟩
  · rw [List.append_assoc, List.cons_append]
  · rw [openedBy_congr q hticket, hby]
  · rw [hhandle]
    exact hopens
  · rw [openReply_congr hticket, hreply]

/-- Every stream was opened. -/
theorem openedIn_final (env : β) (ops : List FsOp) {i : ℕ} {h : FsStream H}
    (hi : (final (FsSystem.step P) (fsStart H env) ops).session.slots i = some h) : ∃ q, OpenedIn P env ops q h := by
  induction ops using List.reverseRecOn generalizing i h with
  | nil => exact nomatch hi
  | append_singleton ops op ih =>
    have hs := numbered_final P (numbered_start (H := H) env) ops
    rw [final_append] at hi
    rcases step_cases P (final (FsSystem.step P) (fsStart H env) ops) op hs.small with
      hcont | ⟨body,now,capacity,q,j,h',rfl,hparse,hcont,hadds,hreply⟩
    · obtain ⟨h₁,hi₁,hticket⟩ := hcont.streams i h hi
      obtain ⟨q,hopened⟩ := ih hi₁
      exact ⟨q,hopened.snoc P hticket op⟩
    · rcases hadds.streams hi with ⟨rfl,rfl⟩ | hold
      · refine ⟨q,ops,body,now,capacity,[],rfl,hparse,hadds.openId,hadds.openedBy,⟨⟨i,h,hi,rfl⟩,?_⟩,hreply⟩
        intro k h₁ hk heq
        have hlt := (hs.issued k h₁ hk).2
        rw [heq, ← hcont.issued_eq, hadds.issued_before] at hlt
        exact Nat.lt_irrefl _ hlt
      · obtain ⟨h₁,hi₁,hticket⟩ := hcont.streams i h hold
        obtain ⟨q',hopened⟩ := ih hi₁
        exact ⟨q',hopened.snoc P hticket _⟩

/-- The session and its world after the expiry at `now`. -/
def FsSystem.expired (s : FsSystem β H) (now : UInt32) : FsSystem β H :=
  ⟨(fsExpire P s.session s.world now).1,(fsExpire P s.session s.world now).2⟩

theorem expired_live {s : FsSystem β H} {i : ℕ} {h : FsStream H} {now : UInt32} (hi : s.session.slots i = some h)
    (hlive : h.idle now = false) : (s.expired P now).session.slots i = some h := by
  refine (closeWhere_slots P _ _ _ _ _ i).trans ?_
  rw [hi, if_neg]
  intro hboth
  rw [Option.any_some, hlive] at hboth
  exact nomatch hboth.2.2

/-- An OPEN under the number of a live stream. -/
theorem step_reopen {s : FsSystem β H} (hs : Numbered s.session) {i : ℕ} {h : FsStream H} {now : UInt32}
    (hi : s.session.slots i = some h) (hlive : h.idle now = false) {body : Bytes} {capacity : ℕ} {q : OpenRequest}
    (hparse : parseOpen body capacity = .ok q) (hid : h.openId = q.openId) :
    s.step P (.request opFsOpen body now capacity) =
      if h.openedBy q = true then
        if s.session.nextHandle = 0 then (s.expired P now,(statusBusy,[]))
        else
          (⟨(s.expired P now).session.setSlot i (some { h with lastActivity := now }),(s.expired P now).world⟩,
            openReply h)
      else (s.expired P now,(statusMalformed,[])) := by
  have hexpired : Continues s.session (fsExpire P s.session s.world now).1 := (rests_closeWhere P _ _ _ _ _).continues
  have hs₁ := hs.continues hexpired
  have hi₁ := expired_live P hi hlive
  have hfound : findSlot (fsExpire P s.session s.world now).1 q fsHandlesMax 0 none =
      if h.openedBy q = true then .ok (some i) else .error statusMalformed := by
    refine findSlot_of_openId hi₁ hid (Nat.zero_le i) (by simpa using hs.small i h hi) fun k h' hk hk' heq => ?_
    exact Nat.ne_of_lt hk (hs₁.openIds k i h' h hk' hi₁ (heq.trans hid.symm))
  have hopen : fsRequest P s.session s.world opFsOpen body now capacity =
      openResponse P (fsExpire P s.session s.world now).1 (fsExpire P s.session s.world now).2 body now capacity := rfl
  rw [FsSystem.step, hopen, openResponse, hparse]
  dsimp only
  rw [hfound, ← hexpired.next]
  by_cases hby : h.openedBy q = true
  · rw [if_pos hby, if_pos hby]
    dsimp only
    by_cases hnext : (fsExpire P s.session s.world now).1.nextHandle = 0
    · rw [if_pos hnext, if_pos hnext]
      rfl
    · rw [if_neg hnext, if_neg hnext]
      have hslot : (fsExpire P s.session s.world now).1.slots i = some h := hi₁
      rw [hslot]
      rfl
  · rw [if_neg hby, if_neg hby]
    rfl

/-- An OPEN with invalid parameters gets its own error, whatever its number. -/
theorem step_open_invalid {s : FsSystem β H} {body : Bytes} {now : UInt32} {capacity status : ℕ}
    (hparse : parseOpen body capacity = .error status) :
    s.step P (.request opFsOpen body now capacity) = (s.expired P now,(status,[])) := by
  have hopen : fsRequest P s.session s.world opFsOpen body now capacity =
      openResponse P (fsExpire P s.session s.world now).1 (fsExpire P s.session s.world now).2 body now capacity := rfl
  rw [FsSystem.step, hopen, openResponse, hparse]
  rfl

/-- An OPEN under the number of a live stream is answered as the first one was if it is the
same, while there are handles left, and refused if it is not; nothing else changes but for
the expiry. Different streams of a session have different handles, none of them zero. -/
theorem fs_open_idempotent (env : β) (ops : List FsOp) :
    (∀ i h, (final (FsSystem.step P) (fsStart H env) ops).session.slots i = some h →
      ∃ q, OpenedIn P env ops q h ∧
        ∀ body now capacity q', h.idle now = false → parseOpen body capacity = .ok q' → q'.openId = q.openId →
          (q' = q → (final (FsSystem.step P) (fsStart H env) ops).session.nextHandle ≠ 0 →
            (final (FsSystem.step P) (fsStart H env) ops).step P (.request opFsOpen body now capacity) =
              (⟨((final (FsSystem.step P) (fsStart H env) ops).expired P now).session.setSlot i
                  (some { h with lastActivity := now }),
                ((final (FsSystem.step P) (fsStart H env) ops).expired P now).world⟩,openReply h)) ∧
          (q' ≠ q →
            (final (FsSystem.step P) (fsStart H env) ops).step P (.request opFsOpen body now capacity) =
              ((final (FsSystem.step P) (fsStart H env) ops).expired P now,(statusMalformed,[])))) ∧
    (∀ body now capacity status, parseOpen body capacity = .error status →
      (final (FsSystem.step P) (fsStart H env) ops).step P (.request opFsOpen body now capacity) =
        ((final (FsSystem.step P) (fsStart H env) ops).expired P now,(status,[]))) ∧
    ∀ pre op mid op' post n n', ops = pre ++ op :: mid ++ op' :: post →
      Opening P (final (FsSystem.step P) (fsStart H env) pre) op n →
      Opening P (final (FsSystem.step P) (fsStart H env) (pre ++ op :: mid)) op' n' →
      n ≠ n' ∧ n ≠ 0 ∧ n' ≠ 0 := by
  have hs := numbered_final P (numbered_start (H := H) env) ops
  refine ⟨fun i h hi => ?_,fun body now capacity status hparse => step_open_invalid P hparse,?_⟩
  · obtain ⟨q,hopened⟩ := openedIn_final P env ops hi
    refine ⟨q,hopened,fun body now capacity q' hlive hparse hid => ?_⟩
    obtain ⟨-,-,-,-,-,-,-,hhid,hby,-⟩ := hopened
    have hstep := step_reopen P hs hi hlive hparse (hhid.trans hid.symm)
    constructor
    · rintro rfl hnext
      rw [hstep, if_pos hby, if_neg hnext]
    · intro hne
      have hother : ¬h.openedBy q' = true := fun hby' => hne (openedBy_unique hby hby' hid)
      rw [hstep, if_neg hother]
  · intro pre op mid op' post n n' _ hop hop'
    exact opening_distinct P env pre mid op op' n n' hop hop'

end

/-- A volume with an empty file under every path. -/
def emptyFiles : FsBackend Unit Unit where
  volumeCount := fun _ => (0,())
  volume := fun _ _ => (.error .range,())
  stat := fun _ _ => (.ok ⟨0,0,entryFile,0⟩,())
  fileOpen := fun _ _ => (.ok ((),0),())
  fileRead := fun _ _ _ => (.ok [],())
  fileClose := fun _ _ => ()
  dirOpen := fun _ _ => (.error .typeError,())
  dirRead := fun _ _ => (.error .invalid,())
  dirClose := fun _ _ => ()

/-- An OPEN of the file `s:/a` under the number 1. -/
def openSample (requested : ℕ) : Bytes := [0,0,0,1,kindFile,0] ++ beBytes 2 requested ++ [0,4,115,58,47,97]

/-- Under the number of a live stream, another block size is not malformed if it is too large. -/
theorem fs_open_too_large :
    (((final (FsSystem.step emptyFiles) (fsStart Unit ())
        [.request opFsOpen (openSample 0) 0 4090]).session.slots 0).any fun h =>
          decide (h.openId = 1 ∧ h.requestedBlockSize ≠ 3073 ∧ h.idle 1 = false)) = true ∧
      ((final (FsSystem.step emptyFiles) (fsStart Unit ()) [.request opFsOpen (openSample 0) 0 4090]).step emptyFiles
        (.request opFsOpen (openSample 3073) 1 4090)).2 = (statusRange,[]) ∧ statusRange ≠ statusMalformed := by
  decide +kernel

end Bvstk.Dcp2
