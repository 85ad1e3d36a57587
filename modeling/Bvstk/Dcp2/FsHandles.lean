import Bvstk.Dcp2.FsSession
import Bvstk.Fs.HandleDiscipline
import Bvstk.Library.Machine

/-! # The handles of a session

The streams of a session hold what is open, through every request, expiry and error; once
the session is destroyed nothing is open.
-/
namespace Bvstk.Dcp2
open Wire Fs Lifetime Machine
variable {β H : Type}

/-- What the stream of each slot has open. -/
def FsSession.holdings (s : FsSession H) (i : ℕ) : Holding H :=
  match s.slots i with
  | none => Holding.empty H
  | some h => h.reader.holding

/-- The readers are in their slots, and what is open is theirs. -/
structure Held (s : FsSession H) (w : FsWorld β H) : Prop where
  kept : Kept s.holdings w
  small : ∀ i h, s.slots i = some h → i < fsHandlesMax
  slot : ∀ i h, s.slots i = some h → h.reader.slot = i
  ready : ∀ i h, s.slots i = some h → h.reader.Ready

theorem FsSession.setSlot_slots (s : FsSession H) (i : ℕ) (h : Option (FsStream H)) :
    (s.setSlot i h).slots = Function.update s.slots i h := rfl

theorem FsSession.slots_setSlot {s : FsSession H} {i j : ℕ} {h : Option (FsStream H)} {h' : FsStream H}
    (hj : (s.setSlot i h).slots j = some h') : (j = i ∧ h = some h') ∨ s.slots j = some h' := by
  rw [FsSession.setSlot_slots] at hj
  by_cases hji : j = i
  · rw [hji, Function.update_self] at hj
    exact Or.inl ⟨hji,hj⟩
  · rw [Function.update_of_ne hji] at hj
    exact Or.inr hj

theorem FsSession.holdings_none {s : FsSession H} {i : ℕ} (h : s.slots i = none) : s.holdings i = Holding.empty H := by
  rw [FsSession.holdings, h]

theorem FsSession.holdings_some {s : FsSession H} {i : ℕ} {h : FsStream H} (hi : s.slots i = some h) :
    s.holdings i = h.reader.holding := by
  rw [FsSession.holdings, hi]

theorem FsSession.holdings_setSlot (s : FsSession H) (i : ℕ) (h : Option (FsStream H)) :
    (s.setSlot i h).holdings =
      Function.update s.holdings i (h.elim (Holding.empty H) fun stream => stream.reader.holding) := by
  funext j
  by_cases hj : j = i
  · subst hj
    cases h with
    | none => rw [Function.update_self, FsSession.holdings_none (Function.update_self j none s.slots)]; rfl
    | some stream =>
      rw [Function.update_self, FsSession.holdings_some (Function.update_self j (some stream) s.slots)]
      rfl
  · rw [Function.update_of_ne hj, FsSession.holdings, FsSession.setSlot_slots, Function.update_of_ne hj]
    rfl

section
variable {s : FsSession H} {w w' : FsWorld β H}

theorem Held.keeps (hs : Held s w) {i : ℕ} {h : FsStream H} (hi : s.slots i = some h) :
    Keeps s.holdings h.reader w := by
  unfold Keeps
  rw [hs.slot i h hi, ← FsSession.holdings_some hi, Function.update_eq_self]
  exact hs.kept

/-- A call that is not for a reader. -/
theorem Held.idle (hs : Held s w) {env : β} {call : FsCall H} (hcall : call.action = .nothing) :
    Held s (⟨env,w.calls ++ [call]⟩ : FsWorld β H) where
  kept := by
    refine hs.kept.idle (fun x hx => ?_) (fun x hx => ?_) (fun x hx => ?_)
    · rw [hcall] at hx
      cases hx
    · rw [hcall] at hx
      cases hx
    · rw [hcall] at hx
      cases hx
  small := hs.small
  slot := hs.slot
  ready := hs.ready

/-- A stream that goes on with its reader `h.reader`, or one that is opened. -/
theorem Held.setSlot (hs : Held s w) {i : ℕ} {h : FsStream H} (hsmall : i < fsHandlesMax) (hslot : h.reader.slot = i)
    (hready : h.reader.Ready) (hkeeps : Keeps s.holdings h.reader w') : Held (s.setSlot i (some h)) w' where
  kept := by
    rw [FsSession.holdings_setSlot]
    rw [Keeps, hslot] at hkeeps
    exact hkeeps
  small := by
    intro j h' hj
    rcases FsSession.slots_setSlot hj with ⟨rfl,-⟩ | hj
    · exact hsmall
    · exact hs.small j h' hj
  slot := by
    intro j h' hj
    rcases FsSession.slots_setSlot hj with ⟨rfl,hsome⟩ | hj
    · cases hsome
      exact hslot
    · exact hs.slot j h' hj
  ready := by
    intro j h' hj
    rcases FsSession.slots_setSlot hj with ⟨rfl,hsome⟩ | hj
    · cases hsome
      exact hready
    · exact hs.ready j h' hj

/-- The counter of the handles does not matter. -/
theorem Held.congr {s' : FsSession H} (hs : Held s w) (hslots : s'.slots = s.slots) : Held s' w where
  kept := by
    have hholdings : s'.holdings = s.holdings := by
      funext i
      rw [FsSession.holdings, FsSession.holdings, hslots]
    rw [hholdings]
    exact hs.kept
  small := fun i h hi => hs.small i h (hslots ▸ hi)
  slot := fun i h hi => hs.slot i h (hslots ▸ hi)
  ready := fun i h hi => hs.ready i h (hslots ▸ hi)

end

section
variable (P : FsBackend β H) {s : FsSession H} {w : FsWorld β H}

/-! ## Closing -/

theorem held_closeHandle (hs : Held s w) (i : ℕ) : Held (closeHandle P s w i).1 (closeHandle P s w i).2 := by
  unfold closeHandle
  cases hi : s.slots i with
  | none => exact hs
  | some h =>
    have hclosed := (hs.keeps hi).close P
    have hempty : (readerClose P h.reader w).1.holding = Holding.empty H := rfl
    have hslot : (readerClose P h.reader w).1.slot = i := hs.slot i h hi
    rw [Keeps, hempty, hslot] at hclosed
    constructor
    · rw [FsSession.holdings_setSlot]
      exact hclosed
    · exact fun j h' hj => hs.small j h' ((FsSession.slots_setSlot hj).resolve_left fun hnone => absurd hnone.2.symm (Option.some_ne_none h'))
    · exact fun j h' hj => hs.slot j h' ((FsSession.slots_setSlot hj).resolve_left fun hnone => absurd hnone.2.symm (Option.some_ne_none h'))
    · exact fun j h' hj => hs.ready j h' ((FsSession.slots_setSlot hj).resolve_left fun hnone => absurd hnone.2.symm (Option.some_ne_none h'))

theorem held_closeWhere (p : FsStream H → Bool) (left i : ℕ) (hs : Held s w) :
    Held (closeWhere P p left i s w).1 (closeWhere P p left i s w).2 := by
  induction left generalizing i s w with
  | zero => exact hs
  | succ left ih =>
    unfold closeWhere
    dsimp only
    split
    · exact ih (i + 1) (held_closeHandle P hs i)
    · exact ih (i + 1) hs

theorem closeHandle_slots (s : FsSession H) (w : FsWorld β H) (i : ℕ) :
    (closeHandle P s w i).1.slots = Function.update s.slots i none := by
  unfold closeHandle
  cases hi : s.slots i with
  | none =>
    rw [← hi, Function.update_eq_self, hi]
  | some h => rfl

/-- What the loop leaves of the slots. -/
theorem closeWhere_slots (p : FsStream H → Bool) (left i : ℕ) (s : FsSession H) (w : FsWorld β H) (j : ℕ) :
    (closeWhere P p left i s w).1.slots j =
      if i ≤ j ∧ j < i + left ∧ (s.slots j).any p = true then none else s.slots j := by
  induction left generalizing i s w with
  | zero =>
    rw [if_neg (by omega)]
    rfl
  | succ left ih =>
    unfold closeWhere
    dsimp only
    rw [ih]
    have hother : j ≠ i → (if (s.slots i).any p = true then closeHandle P s w i else (s,w)).1.slots j = s.slots j := by
      intro hj
      split
      · rw [closeHandle_slots, Function.update_of_ne hj]
      · rfl
    by_cases hj : j = i
    · subst hj
      rw [if_neg (by omega)]
      by_cases hp : (s.slots j).any p = true
      · rw [if_pos hp, if_pos ⟨Nat.le_refl j,by omega,hp⟩, closeHandle_slots, Function.update_self]
      · rw [if_neg hp, if_neg (fun hboth => hp hboth.2.2)]
    · rw [hother hj]
      have hrange : (i + 1 ≤ j ∧ j < i + 1 + left ∧ (s.slots j).any p = true) ↔
          (i ≤ j ∧ j < i + (left + 1) ∧ (s.slots j).any p = true) := by
        rw [← and_assoc, ← and_assoc]
        exact and_congr_left fun _ => by omega
      rw [if_congr hrange rfl rfl]

/-! ## Requests -/

theorem held_volumeEntries (capacity left index offset : ℕ) (hs : Held s w) :
    Held s (volumeEntries P capacity left index offset w).2 := by
  induction left generalizing index offset w with
  | zero => exact hs
  | succ left ih =>
    unfold volumeEntries
    have hvolume : Held s (w.volume P index).2 := hs.idle rfl
    generalize w.volume P index = out at hvolume ⊢
    obtain ⟨result,w₁⟩ := out
    cases result with
    | error e => exact hvolume
    | ok volume =>
      dsimp only
      split
      · exact hvolume
      · exact ih (index + 1) (offset + 2 + volume.name.length) hvolume

theorem held_infoResponse (capacity : ℕ) (hs : Held s w) : Held s (infoResponse P w capacity).2 := by
  unfold infoResponse
  have hcount : Held s (w.volumeCount P).2 := hs.idle rfl
  generalize w.volumeCount P = out at hcount ⊢
  obtain ⟨count,w₁⟩ := out
  dsimp only at hcount ⊢
  split
  · exact hcount
  · have hentries := held_volumeEntries P capacity count 0 20 hcount
    generalize volumeEntries P capacity count 0 20 w₁ = out at hentries ⊢
    obtain ⟨result,w₂⟩ := out
    cases result with
    | error status => exact hentries
    | ok entries => exact hentries

theorem held_statResponse (body : Bytes) (capacity : ℕ) (hs : Held s w) :
    Held s (statResponse P w body capacity).2 := by
  unfold statResponse
  split
  · exact hs
  · rename_i path _
    split
    · exact hs
    · have hstat : Held s (w.stat P path).2 := hs.idle rfl
      generalize w.stat P path = out at hstat ⊢
      obtain ⟨result,w₁⟩ := out
      cases result with
      | error e => exact hstat
      | ok info => exact hstat

/-- A slot that is found is one of the slots, and free unless it has the request's number. -/
theorem findSlot_lt {q : OpenRequest} (left i : ℕ) (free : Option ℕ) {j : ℕ} (hfree : ∀ k, free = some k → k < i + left)
    (hfound : findSlot s q left i free = .ok (some j)) : j < i + left := by
  induction left generalizing i free with
  | zero =>
    rw [findSlot, Except.ok.injEq] at hfound
    exact hfree j hfound
  | succ left ih =>
    have hnext : i + 1 + left = i + (left + 1) := by omega
    unfold findSlot at hfound
    split at hfound
    · split at hfound
      · split at hfound
        · cases hfound
          omega
        · cases hfound
      · rw [← hnext] at hfree ⊢
        exact ih (i + 1) free hfree hfound
    · rw [← hnext] at hfree ⊢
      refine ih (i + 1) _ (fun k hk => ?_) hfound
      rcases Option.or_eq_some_iff.mp hk with hk | ⟨-,hk⟩
      · exact hfree k hk
      · cases hk
        omega

theorem held_openResponse (body : Bytes) (now : UInt32) (capacity : ℕ) (hs : Held s w) :
    Held (openResponse P s w body now capacity).2.1 (openResponse P s w body now capacity).2.2 := by
  unfold openResponse
  split
  · exact hs
  · rename_i q _
    split
    · exact hs
    · exact hs
    · rename_i i hfound
      have hi : i < fsHandlesMax := by
        have hlt := findSlot_lt fsHandlesMax 0 none (fun k hk => nomatch hk) hfound
        rwa [Nat.zero_add] at hlt
      split
      · exact hs
      · cases hslot : s.slots i with
        | some h =>
          have hkeeps := hs.keeps hslot
          exact hs.setSlot (h := { h with lastActivity := now }) hi (hs.slot i h hslot) (hs.ready i h hslot) hkeeps
        | none =>
          have hopens := opens_readerOpen P hs.kept (FsSession.holdings_none hslot) q.path q.kind q.flags
          dsimp only
          generalize readerOpen P w i q.path q.kind q.flags = out at hopens ⊢
          obtain ⟨result,w₁⟩ := out
          cases result with
          | error e => exact ⟨hopens,hs.small,hs.slot,hs.ready⟩
          | ok reader =>
            obtain ⟨hreader,hready,hkeeps⟩ := hopens
            have hnext : Held (s.setSlot i (some (newStream s q reader now))) w₁ := hs.setSlot hi hreader hready hkeeps
            exact hnext.congr rfl

/-- What a READ does to its stream. -/
theorem keeps_readResponse {t : ℕ → Holding H} {h : FsStream H} (hkeeps : Keeps t h.reader w) (hready : h.reader.Ready)
    (block : UInt32) (capacity : ℕ) :
    Keeps t (readResponse P h w block capacity).2.1.reader (readResponse P h w block capacity).2.2 ∧
      (readResponse P h w block capacity).2.1.reader.slot = h.reader.slot ∧
      (readResponse P h w block capacity).2.1.reader.Ready := by
  unfold readResponse
  split
  · exact ⟨hkeeps,rfl,hready⟩
  · split
    · exact ⟨hkeeps,rfl,hready⟩
    · split
      · exact ⟨hkeeps,rfl,hready⟩
      · split
        · exact ⟨hkeeps,rfl,hready⟩
        · have hread := keeps_readerRead P hkeeps hready h.blockSize
          generalize readerRead P h.reader w h.blockSize = out at hread ⊢
          obtain ⟨result,reader,w₁⟩ := out
          cases result with
          | error e => exact hread
          | ok block => exact hread

theorem findHandle_slots {handle : UInt32} (left i : ℕ) {j : ℕ} {h : FsStream H}
    (hfound : findHandle s handle left i = some (j,h)) : s.slots j = some h ∧ h.handle = handle := by
  induction left generalizing i with
  | zero => cases hfound
  | succ left ih =>
    unfold findHandle at hfound
    split at hfound
    · rename_i stream hi
      split at hfound
      · cases hfound
        exact ⟨hi,‹_›⟩
      · exact ih (i + 1) hfound
    · exact ih (i + 1) hfound

theorem held_handleResponse (opcode : UInt8) (body : Bytes) (now : UInt32) (capacity : ℕ) (hs : Held s w) :
    Held (handleResponse P s w opcode body now capacity).2.1 (handleResponse P s w opcode body now capacity).2.2 := by
  unfold handleResponse
  by_cases hlength : body.length ≠ if opcode = opFsRead then 8 else 4
  · rw [if_pos hlength]
    exact hs
  · rw [if_neg hlength]
    dsimp only
    split
    · exact hs
    · split
      · exact hs
      · rename_i i h hfound
        obtain ⟨hi,-⟩ := findHandle_slots fsHandlesMax 0 hfound
        split
        · exact held_closeHandle P hs i
        · have hkeeps := hs.keeps hi
          have hread := keeps_readResponse P (h := { h with lastActivity := now }) hkeeps (hs.ready i h hi)
            (UInt32.ofNat (readBE (body.drop 4))) capacity
          generalize readResponse P { h with lastActivity := now } w (UInt32.ofNat (readBE (body.drop 4))) capacity = out
            at hread ⊢
          obtain ⟨reply,h',w₁⟩ := out
          exact hs.setSlot (hs.small i h hi) (hread.2.1.trans (hs.slot i h hi)) hread.2.2 hread.1

theorem held_fsRequest (opcode : UInt8) (body : Bytes) (now : UInt32) (capacity : ℕ) (hs : Held s w) :
    Held (fsRequest P s w opcode body now capacity).2.1 (fsRequest P s w opcode body now capacity).2.2 := by
  unfold fsRequest
  have hexpired : Held (fsExpire P s w now).1 (fsExpire P s w now).2 := held_closeWhere P _ _ _ hs
  generalize fsExpire P s w now = out at hexpired ⊢
  obtain ⟨s₁,w₁⟩ := out
  dsimp only at hexpired ⊢
  split
  · split
    · exact hexpired
    · exact held_infoResponse P capacity hexpired
  · split
    · exact held_statResponse P body capacity hexpired
    · split
      · exact held_openResponse P body now capacity hexpired
      · split
        · exact hexpired
        · exact held_handleResponse P opcode body now capacity hexpired

theorem held_step (op : FsOp) {s : FsSystem β H} (hs : Held s.session s.world) :
    Held (s.step P op).1.session (s.step P op).1.world := by
  cases op with
  | request opcode body now capacity => exact held_fsRequest P opcode body now capacity hs
  | expire now => exact held_closeWhere P _ _ _ hs
  | destroy => exact held_closeWhere P _ _ _ hs

/-- Nothing is open before the first call. -/
theorem kept_nil (env : β) : Kept (fun _ => Holding.empty H) (⟨env,[]⟩ : FsWorld β H) := by
  have hdead : ∀ x : FsObject H, ¬Live FsCall.action ([] : List (FsCall H)) x := by
    rintro x ⟨⟨e,he,-⟩,-⟩
    cases he
  have hholds : ∀ slot, Holds ([] : List (FsCall H)) slot (Holding.empty H) := by
    intro slot
    constructor
    · intro handle
      exact iff_of_false List.not_mem_nil fun hlive => hdead _ hlive.2
    · intro handle
      exact iff_of_false (Option.some_ne_none handle).symm fun hlive => hdead _ hlive.2
    · exact List.nodup_nil
    · exact Nat.zero_le _
  constructor
  · exact disciplined_nil
  · rintro x ⟨e,he,-⟩
    cases he
  · intro pre post hsplit slot
    obtain ⟨rfl,-⟩ := List.append_eq_nil_iff.mp hsplit.symm
    exact ⟨Holding.empty H,hholds slot⟩
  · exact hholds

theorem held_start (env : β) : Held (fsStart H env).session (fsStart H env).world where
  kept := kept_nil env
  small := fun _ _ hi => nomatch hi
  slot := fun _ _ hi => nomatch hi
  ready := fun _ _ hi => nomatch hi

theorem held_final (env : β) (ops : List FsOp) :
    Held (final (FsSystem.step P) (fsStart H env) ops).session (final (FsSystem.step P) (fsStart H env) ops).world :=
  final_invariant (P := fun s : FsSystem β H => Held s.session s.world) (fun _ op hs => held_step P op hs)
    (held_start env) ops

/-- A session that is destroyed has no streams. -/
theorem fsDestroy_slots (hs : Held s w) (i : ℕ) : (fsDestroy P s w).1.slots i = none := by
  rw [fsDestroy, closeWhere_slots]
  cases hi : s.slots i with
  | none => exact ite_self none
  | some h => exact if_pos ⟨Nat.zero_le i,by simpa using hs.small i h hi,rfl⟩

end

/-- What a run of a session may have called: handles that come from the backend and are not
closed yet, at most 16 directories and a file of a reader at any time, none closed twice. -/
structure FsDiscipline (calls : List (FsCall H)) : Prop where
  disciplined : Disciplined FsCall.action calls
  closedOnce : ∀ x, Closed FsCall.action calls x → ClosedOnce FsCall.action calls x
  bounded : ∀ pre post, calls = pre ++ post → ∀ slot, ∃ held, Holds pre slot held

theorem Held.discipline {s : FsSession H} {w : FsWorld β H} (hs : Held s w) : FsDiscipline w.calls where
  disciplined := hs.kept.disciplined
  closedOnce := fun _ hclosed => hs.kept.disciplined.closedOnce hclosed
  bounded := hs.kept.bounded

theorem Held.dead {s : FsSession H} {w : FsWorld β H} (hs : Held s w) (hfree : ∀ i, s.slots i = none)
    (x : FsObject H) : ¬Live FsCall.action w.calls x := by
  intro hlive
  have hholds := hs.kept.holds x.handle.owner
  rw [FsSession.holdings_none (hfree x.handle.owner)] at hholds
  cases x with
  | file handle => exact nomatch (hholds.file handle).mpr ⟨rfl,hlive⟩
  | dir handle => exact nomatch (hholds.dirs handle).mpr ⟨rfl,hlive⟩

/-- Whatever is requested and whatever the backend answers, handles are used and closed in a
disciplined way, and once the session is destroyed each has been closed exactly once. -/
theorem fs_handles_closed_once (P : FsBackend β H) (env : β) (ops : List FsOp) :
    FsDiscipline (final (FsSystem.step P) (fsStart H env) ops).world.calls ∧
      ∀ x, Opened FsCall.action (final (FsSystem.step P) (fsStart H env) (ops ++ [.destroy])).world.calls x →
        ClosedOnce FsCall.action (final (FsSystem.step P) (fsStart H env) (ops ++ [.destroy])).world.calls x := by
  have hheld := held_final P env ops
  have hend := held_final P env (ops ++ [.destroy])
  refine ⟨hheld.discipline,fun x hopened => hend.discipline.closedOnce x ?_⟩
  by_contra hopen
  refine hend.dead (fun i => ?_) x ⟨hopened,hopen⟩
  rw [final_append]
  exact fsDestroy_slots P hheld i

end Bvstk.Dcp2
