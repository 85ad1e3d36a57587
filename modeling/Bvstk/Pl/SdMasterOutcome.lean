import Bvstk.Pl.SdMaster
import Mathlib.Data.List.Count

/-! # What a command of the SD master may report

The log of a command shows what the hardware was told and what it answered. A command is
handed over once at most; if it succeeds, the log shows that every check was made and passed,
and the block is what was received; and unless it succeeds the caller's block is untouched.
-/
namespace Bvstk.Pl.SdMaster
open Dialogue Program

/-! ## The log -/

/-- The command is handed over. -/
def isSubmit (a : Access) : Bool := a.request = .write32 .core csr startCommand

/-- An access that failed. -/
def Failed : Access → Prop
  | ⟨.read32 _ _,reply⟩ => match reply with
    | none => True
    | some _ => False
  | ⟨.write32 _ _ _,ok⟩ => match ok with
    | true => False
    | false => True
  | _ => False

def Sound (log : List Access) : Prop := ∀ a ∈ log, ¬Failed a

theorem sound_nil : Sound [] := fun _ h => absurd h List.not_mem_nil

theorem Sound.append {log rest : List Access} (h : Sound log) (h' : Sound rest) : Sound (log ++ rest) := by
  intro a ha
  rcases List.mem_append.mp ha with ha | ha
  · exact h a ha
  · exact h' a ha

/-- A program that hands over at most `n` commands, and that leaves no error behind only if
there was none before and none has come; then `L` holds of its result and its log. -/
def Steady {α : Type} (n : ℕ) (L : α → List Access → Prop) (p : Session α) : Prop :=
  ∀ io, (p io).Adds fun r new => new.countP isSubmit ≤ n ∧
    ∀ a io', r = some (a,io') → io' = false → io = false ∧ Sound new ∧ L a new

/-- The end of a command: unless it succeeds the caller's block is untouched, and if it
succeeds there was no error and `G` holds. -/
def ConcludesAt (io : Bool) (n : ℕ) (readBlock : Option Block) (G : Outcome → List Access → Prop) (p : Session Outcome) : Prop :=
  (p io).Adds fun r new => new.countP isSubmit ≤ n ∧
    ∀ out io', r = some (out,io') → (out.status ≠ .ok → out.readBlock = readBlock) ∧
      (out.status = .ok → io = false ∧ Sound new ∧ G out new)

def Concludes (n : ℕ) (readBlock : Option Block) (G : Outcome → List Access → Prop) (p : Session Outcome) : Prop :=
  ∀ io, ConcludesAt io n readBlock G p

/-! ## Rules -/

section
variable {α β : Type} {n k : ℕ} {L L' : α → List Access → Prop} {M : α → β → List Access → Prop} {p : Session α}

theorem Steady.mono (h : Steady n L p) (himp : ∀ a new, L a new → L' a new) : Steady n L' p := by
  intro io
  apply (h io).mono
  rintro r new ⟨hcount,hgood⟩
  refine ⟨hcount,fun a io' hr hio => ?_⟩
  obtain ⟨hclean,hsound,hL⟩ := hgood a io' hr hio
  exact ⟨hclean,hsound,himp a new hL⟩

theorem Steady.more (h : Steady n L p) (hn : n ≤ k) : Steady k L p := by
  intro io
  apply (h io).mono
  rintro r new ⟨hcount,hgood⟩
  exact ⟨hcount.trans hn,hgood⟩

theorem steady_pure (a : α) : Steady 0 (fun b new => b = a ∧ new = []) (pure a : Session α) := by
  intro io
  apply adds_pure
  refine ⟨Nat.le_refl 0,?_⟩
  rintro b io' hr hio
  cases hr
  exact ⟨hio,sound_nil,rfl,rfl⟩

theorem steady_unfinished : Steady 0 L (fun _ => .unfinished : Session α) :=
  fun _ => adds_unfinished ⟨Nat.le_refl 0,nofun⟩

theorem Steady.bind {f : α → Session β} (h : Steady n L p) (hf : ∀ a, Steady k (M a) (f a)) :
    Steady (n + k) (fun b new => ∃ a first rest, new = first ++ rest ∧ L a first ∧ M a b rest) (p >>= f) := by
  intro io
  apply (h io).bind
  · rintro new ⟨hcount,-⟩
    exact ⟨hcount.trans (Nat.le_add_right n k),nofun⟩
  rintro ⟨a,io₁⟩ new ⟨hcount,hgood⟩
  apply (hf a io₁).mono
  rintro r more ⟨hcount',hgood'⟩
  refine ⟨by rw [List.countP_append]; exact Nat.add_le_add hcount hcount',fun b io' hr hio => ?_⟩
  obtain ⟨hcleak,hsound',hM⟩ := hgood' b io' hr hio
  obtain ⟨hclean,hsound,hL⟩ := hgood a io₁ rfl hcleak
  exact ⟨hclean,hsound.append hsound',a,new,more,rfl,hL,hM⟩

theorem steady_ite {P : Prop} [Decidable P] {q : Session α} (h : P → Steady n L p) (h' : ¬P → Steady n L q) :
    Steady n L (if P then p else q) := by
  split
  · exact h ‹_›
  · exact h' ‹_›

theorem steady_get : Steady 0 (fun a new => a = false ∧ new = []) (get : Session Bool) := by
  intro io
  apply adds_pure
  refine ⟨Nat.le_refl 0,?_⟩
  rintro b io' hr hio
  cases hr
  exact ⟨hio,sound_nil,hio,rfl⟩

/-- A request that is no access of a register. -/
theorem steady_lift {d : Driver α} (h : d.Adds fun r new => new.countP isSubmit = 0 ∧ Sound new ∧ ∀ a, r = some a → L a new) :
    Steady 0 L (d : Session α) := by
  intro io
  apply h.bind
  · rintro new ⟨hcount,-⟩
    exact ⟨Nat.le_of_eq hcount,nofun⟩
  rintro a new ⟨hcount,hsound,hL⟩
  apply adds_pure
  rw [List.append_nil]
  refine ⟨Nat.le_of_eq hcount,fun b io' hr hio => ?_⟩
  cases hr
  exact ⟨hio,hsound,hL a rfl⟩

end

theorem steady_rd (region : Region) (offset : ℕ) :
    Steady 0 (fun value new => new = [Access.read region offset (some value)]) (rd region offset) := by
  intro io
  apply adds_request_bind
  intro reply
  cases reply with
  | none =>
    apply adds_pure
    refine ⟨Nat.le_refl 0,fun a io' hr hio => ?_⟩
    cases hr
    cases hio
  | some value =>
    apply adds_pure
    refine ⟨Nat.le_refl 0,fun a io' hr hio => ?_⟩
    cases hr
    exact ⟨hio,fun b hb => by rw [List.mem_singleton.mp hb]; exact id,rfl⟩

/-- The log of a write that succeeds. -/
def written (region : Region) (offset : ℕ) (value : UInt32) : List Access :=
  [Access.write region offset value true,⟨Request.barrier,()⟩]

theorem steady_wr (region : Region) (offset : ℕ) (value : UInt32) :
    Steady ((written region offset value).countP isSubmit) (fun _ new => new = written region offset value)
      (wr region offset value) := by
  intro io
  cases io with
  | true =>
    apply adds_request_bind
    intro _
    apply adds_pure
    refine ⟨Nat.zero_le _,fun a io' hr hio => ?_⟩
    cases hr
    cases hio
  | false =>
    apply adds_request_bind
    intro ok
    have hcount : [⟨Request.write32 region offset value,ok⟩,⟨Request.barrier,()⟩].countP isSubmit =
        (written region offset value).countP isSubmit := by
      cases ok <;> exact Eq.refl _
    cases ok with
    | false =>
      apply adds_request_bind
      intro _
      apply adds_pure
      refine ⟨Nat.le_of_eq hcount,fun a io' hr hio => ?_⟩
      cases hr
      cases hio
    | true =>
      apply adds_request_bind
      intro _
      apply adds_pure
      refine ⟨Nat.le_of_eq hcount,fun a io' hr hio => ⟨rfl,?_,rfl⟩⟩
      intro b hb
      rcases List.mem_cons.mp hb with rfl | hb
      · exact id
      · rw [List.mem_singleton.mp hb]
        exact id

section
variable {β : Type} {n : ℕ} {M : β → List Access → Prop} {region : Region} {offset : ℕ}

theorem steady_rd_bind (region : Region) (offset : ℕ) {M : UInt32 → β → List Access → Prop} {f : UInt32 → Session β}
    (hf : ∀ value, Steady n (M value) (f value)) :
    Steady n (fun b new => ∃ value rest, new = Access.read region offset (some value) :: rest ∧ M value b rest)
      (rd region offset >>= f) := by
  have hbind := (steady_rd region offset).bind hf
  rw [Nat.zero_add] at hbind
  apply hbind.mono
  rintro b new ⟨value,first,rest,rfl,rfl,hM⟩
  exact ⟨value,rest,rfl,hM⟩

/-- Any write but the one that hands over a command. -/
theorem steady_wr_bind {value : UInt32} {f : Unit → Session β} (h : (written region offset value).countP isSubmit = 0)
    (hf : Steady n M (f ())) : Steady n (fun b new => ∃ rest, new = written region offset value ++ rest ∧ M b rest)
      (wr region offset value >>= f) := by
  have hbind := (steady_wr region offset value).bind fun _ => hf
  rw [h, Nat.zero_add] at hbind
  apply hbind.mono
  rintro b new ⟨_,first,rest,rfl,rfl,hM⟩
  exact ⟨rest,rfl,hM⟩

/-- Where an error is asked for, what follows an error does not matter. -/
theorem steady_get_bind {L : β → List Access → Prop} {f : Bool → Session β} (hf : Steady n M (f false))
    (herror : Steady n L (f true)) : Steady n M (get >>= f) := by
  intro io
  cases io with
  | false => exact hf false
  | true =>
    apply (herror true).mono
    rintro r new ⟨hcount,hgood⟩
    refine ⟨hcount,fun b io' hr hio => ?_⟩
    obtain ⟨hclean,-⟩ := hgood b io' hr hio
    exact nomatch hclean

/-- The requests that are no access of a register. -/
def Outside (c : Request Region) : Prop := (∀ reply, isSubmit ⟨c,reply⟩ = false) ∧ ∀ reply, ¬Failed ⟨c,reply⟩

theorem steady_request {c : Request Region} (h : Outside c) :
    Steady 0 (fun a new => new = [⟨c,a⟩]) (Program.request c : Driver (Answer c)) := by
  apply steady_lift
  apply adds_request
  intro reply
  refine ⟨?_,?_,?_⟩
  · rw [List.countP_singleton, h.1 reply]
    exact if_neg Bool.false_ne_true
  · intro a ha
    rw [List.mem_singleton.mp ha]
    exact h.2 reply
  · intro a ha
    cases ha
    exact rfl

theorem outside_nowMs : Outside .nowMs := ⟨fun _ => rfl,fun _ => id⟩
theorem outside_sleepMs (milliseconds : UInt32) : Outside (.sleepMs milliseconds) := ⟨fun _ => rfl,fun _ => id⟩
theorem outside_prepare : Outside .prepare := ⟨fun _ => rfl,fun _ => id⟩
theorem outside_count : Outside .count := ⟨fun _ => rfl,fun _ => id⟩
theorem outside_disable : Outside .disable := ⟨fun _ => rfl,fun _ => id⟩

/-- A part of which only the hand-over and the errors matter. -/
abbrev Plain {α : Type} (p : Session α) : Prop := Steady 0 (fun _ _ => True) p

theorem Steady.plain {α : Type} {L : α → List Access → Prop} {p : Session α} (h : Steady 0 L p) : Plain p :=
  h.mono fun _ _ _ => trivial

theorem Steady.plain_bind {α : Type} {L : α → List Access → Prop} {p : Session α} {f : α → Session β} (h : Steady 0 L p)
    (hf : ∀ a, Plain (f a)) : Plain (p >>= f) := (h.bind hf).plain

theorem plain_pure {α : Type} (a : α) : Plain (pure a : Session α) := (steady_pure a).plain

theorem plain_elapsed (start : UInt64) : Plain (elapsed start) :=
  (steady_request outside_nowMs).plain_bind fun _ => plain_pure _

end

theorem plain_wr (region : Region) (offset : ℕ) (value : UInt32) (h : (written region offset value).countP isSubmit = 0) :
    Plain (wr region offset value) := by
  have hwr := steady_wr region offset value
  rw [h] at hwr
  exact hwr.plain

theorem plain_resetLoop (start : UInt64) (polls : ℕ) : Plain (resetLoop start polls) := by
  induction polls with
  | zero => exact steady_unfinished
  | succ polls ih =>
    apply (steady_rd _ _).plain_bind
    intro tx
    apply (steady_rd _ _).plain_bind
    intro rx
    apply steady_get.plain_bind
    intro error
    apply steady_ite (fun _ => plain_pure _)
    intro _
    apply steady_ite
    · intro _
      apply (plain_wr _ _ _ rfl).plain_bind
      intro _
      apply (plain_wr _ _ _ rfl).plain_bind
      intro _
      exact steady_get.plain_bind fun _ => plain_pure _
    · intro _
      apply (steady_request (outside_sleepMs 1)).plain_bind
      intro _
      apply (plain_elapsed start).plain_bind
      intro _
      exact steady_ite (fun _ => ih) fun _ => plain_pure _

theorem plain_dmaReset (polls : ℕ) : Plain (dmaReset polls) := by
  apply (steady_request outside_nowMs).plain_bind
  intro start
  apply (plain_wr _ _ _ rfl).plain_bind
  intro _
  exact plain_resetLoop start polls

/-- What one round of the wait reads. -/
structure Poll where
  csr : UInt32
  irq : UInt32
  irqCount : UInt32
  tx : UInt32
  rx : UInt32
  rxLength : UInt32

def pollLog (v : Poll) : List Access :=
  [.read .core csr (some v.csr),.read .core irq (some v.irq),⟨Request.count,v.irqCount⟩,.read .dma txStatus (some v.tx),
    .read .dma rxStatus (some v.rx),.read .dma rxLength (some v.rxLength)]

def Poll.report (v : Poll) (r : Report) : Report :=
  { r with csr := v.csr, irq := r.irq ||| v.irq, irqCount := v.irqCount, txStatus := v.tx, rxStatus := v.rx, rxLength := v.rxLength }

theorem steady_snapshot (r : Report) :
    Steady 0 (fun r' new => ∃ v : Poll, new = pollLog v ∧ r' = v.report r) (snapshot r) := by
  have hsteps := steady_rd_bind (n := 0) .core csr fun csrValue =>
    steady_rd_bind (n := 0) .core irq fun irqValue =>
    (steady_request outside_count).bind (k := 0) fun irqCount =>
    steady_rd_bind (n := 0) .dma txStatus fun tx =>
    steady_rd_bind (n := 0) .dma rxStatus fun rx =>
    steady_rd_bind (n := 0) .dma rxLength fun rxLength =>
    steady_pure (Poll.report ⟨csrValue,irqValue,irqCount,tx,rx,rxLength⟩ r)
  apply Steady.mono hsteps
  rintro r' new ⟨csrValue,_,rfl,irqValue,_,rfl,irqCount,_,_,rfl,rfl,tx,_,rfl,rx,_,rfl,rxLength,_,rfl,rfl,rfl⟩
  exact ⟨⟨csrValue,irqValue,irqCount,tx,rx,rxLength⟩,rfl,rfl⟩

/-- A round that ends the wait: an interrupt, a fresh reply, and the channels done. -/
structure Completed (receive : Bool) (irqCount tx rx reply : UInt32) : Prop where
  interrupt : irqCount ≠ 0
  fresh : reply ≠ sentinel
  sent : dmaDone tx = true
  received : receive = true → dmaDone rx = true
  errors : (tx ||| rx) &&& dmaErrors = 0

/-- The last round of a wait that succeeded. -/
def Waited (mailbox : ℕ) (receive : Bool) (out : Status × Report) (new : List Access) : Prop :=
  out.1 = .ok → ∃ before v reply, new = before ++ pollLog v ++ [Access.read .bram mailbox (some reply)] ∧
    Completed receive v.irqCount v.tx v.rx reply ∧ out.2.reply = reply ∧ out.2.rxLength = v.rxLength

theorem Waited.after {mailbox : ℕ} {receive : Bool} {out : Status × Report} {first rest : List Access}
    (h : Waited mailbox receive out rest) : Waited mailbox receive out (first ++ rest) := by
  intro hok
  obtain ⟨before,v,reply,rfl,hrest⟩ := h hok
  refine ⟨first ++ before,v,reply,?_,hrest⟩
  simp only [List.append_assoc]

/-- The report after a round. -/
def roundReport (r : Report) (reply : UInt32) : Report :=
  { r with reply := reply, firstReply := if r.firstReply = sentinel ∧ reply ≠ sentinel then reply else r.firstReply }

/-- What is decided after a round has been read. -/
def decideRound (mailbox : ℕ) (receive : Bool) (start : UInt64) (timeoutMs : UInt32) (polls : ℕ) (r : Report)
    (reply : UInt32) : Session (Status × Report) := do
  if (← get) ∨ (r.txStatus ||| r.rxStatus) &&& dmaErrors ≠ 0 then return (.io,roundReport r reply)
  if r.irqCount ≠ 0 ∧ reply ≠ sentinel ∧ dmaDone r.txStatus ∧ (¬receive ∨ dmaDone r.rxStatus) then
    return (.ok,roundReport r reply)
  (sleepMs 1 : Driver Unit)
  if (← elapsed start) < (if timeoutMs ≠ 0 then timeoutMs else 5000) then
    completionLoop mailbox receive start timeoutMs polls (roundReport r reply)
  else return (.timeout,roundReport r reply)

theorem completionLoop_succ (mailbox : ℕ) (receive : Bool) (start : UInt64) (timeoutMs : UInt32) (polls : ℕ) (r : Report) :
    completionLoop mailbox receive start timeoutMs (polls + 1) r =
      snapshot r >>= fun r => rd .bram mailbox >>= fun reply =>
        decideRound mailbox receive start timeoutMs polls r reply := rfl

/-- Either the round ends the wait, or a later one does. -/
theorem steady_decideRound {mailbox : ℕ} {receive : Bool} {start : UInt64} {timeoutMs : UInt32} {polls : ℕ}
    (ih : ∀ r, Steady 0 (Waited mailbox receive) (completionLoop mailbox receive start timeoutMs polls r))
    (r : Report) (reply : UInt32) :
    Steady 0 (fun out new => out.1 = .ok → (new = [] ∧ Completed receive r.irqCount r.txStatus r.rxStatus reply ∧
        out.2 = roundReport r reply) ∨ Waited mailbox receive out new)
      (decideRound mailbox receive start timeoutMs polls r reply) := by
  have hearly : ∀ status : Status, status ≠ .ok → Steady 0 (fun out new => out.1 = .ok → (new = [] ∧
      Completed receive r.irqCount r.txStatus r.rxStatus reply ∧ out.2 = roundReport r reply) ∨
        Waited mailbox receive out new) (pure (status,roundReport r reply)) := by
    intro status hstatus
    apply (steady_pure _).mono
    rintro out new ⟨rfl,-⟩ hok
    exact absurd hok hstatus
  apply steady_get_bind (L := fun _ _ => True)
  · apply steady_ite (fun _ => hearly .io nofun)
    intro herrors
    apply steady_ite
    · rintro ⟨hirq,hfresh,hsent,hreceived⟩
      apply (steady_pure _).mono
      rintro out new ⟨rfl,rfl⟩ -
      refine Or.inl ⟨rfl,⟨hirq,hfresh,hsent,?_,?_⟩,rfl⟩
      · intro hreceive
        exact hreceived.resolve_left (not_not.mpr hreceive)
      · exact Decidable.not_not.mp fun h => herrors (Or.inr h)
    · intro _
      have hrest := (steady_request (outside_sleepMs 1)).bind fun _ =>
        (plain_elapsed start).bind (k := 0) (M := fun _ => fun (out : Status × Report) new => out.1 = .ok →
          Waited mailbox receive out new) fun passed =>
          steady_ite (P := passed < (if timeoutMs ≠ 0 then timeoutMs else 5000))
            (p := completionLoop mailbox receive start timeoutMs polls (roundReport r reply))
            (q := pure (.timeout,roundReport r reply))
            (fun _ => (ih _).mono fun _ _ h _ => h) fun _ => (steady_pure _).mono (by
              rintro out new ⟨rfl,-⟩ hok
              cases hok)
      apply Steady.mono hrest
      rintro out new ⟨_,slept,_,rfl,-,passed,first,rest,rfl,-,hwaited⟩ hok
      exact Or.inr (hwaited hok).after.after
  · exact steady_ite (fun _ => plain_pure _) fun h => absurd (Or.inl rfl) h

theorem steady_completionLoop (mailbox : ℕ) (receive : Bool) (start : UInt64) (timeoutMs : UInt32) (polls : ℕ) (r : Report) :
    Steady 0 (Waited mailbox receive) (completionLoop mailbox receive start timeoutMs polls r) := by
  induction polls generalizing r with
  | zero => exact steady_unfinished
  | succ polls ih =>
    have hround := (steady_snapshot r).bind fun r' => steady_rd_bind .bram mailbox fun reply =>
      steady_decideRound ih r' reply
    rw [completionLoop_succ]
    apply Steady.mono hround
    rintro out new ⟨_,_,_,rfl,⟨v,rfl,rfl⟩,reply,rest,rfl,hdecided⟩ hok
    rcases hdecided hok with ⟨rfl,hcompleted,hreport⟩ | hlater
    · refine ⟨[],v,reply,rfl,hcompleted,?_⟩
      rw [hreport]
      exact ⟨rfl,rfl⟩
    · have hafter : Waited mailbox receive out ([Access.read .bram mailbox (some reply)] ++ rest) := hlater.after
      exact hafter.after hok

/-! ## Guards and data -/

/-- The guards are read and are as they were laid. -/
def guardLog (size : UInt32) (receive : Bool) (above : UInt32) : List Access :=
  [Access.read .bram (txArea - 4) (some guardWord),Access.read .bram (txEnd size) (some guardWord)] ++
    if receive then [Access.read .bram (rxArea - 4) (some guardWord),Access.read .bram (rxArea + 516) (some guardWord),
      Access.read .bram (rxArea + 512) (some above)] else []

theorem steady_andGuard (ok : Bool) (offset : ℕ) (intact : UInt32 → Bool) :
    Steady 0 (fun b new => b = true → ok = true ∧ ∃ value, intact value = true ∧
      new = [Access.read .bram offset (some value)]) (andGuard ok offset intact) := by
  apply steady_ite
  · intro hok
    apply ((steady_rd .bram offset).bind fun value => steady_pure (intact value)).mono
    rintro b new ⟨value,_,_,rfl,rfl,rfl,rfl⟩ hintact
    exact ⟨hok,value,hintact,rfl⟩
  · intro _
    apply (steady_pure false).mono
    rintro b new ⟨rfl,-⟩ hfalse
    cases hfalse

theorem steady_guardsValid (size : UInt32) (receive : Bool) :
    Steady 0 (fun ok new => ok = true → ∃ above, above &&& 0xffff0000 = sentinel &&& 0xffff0000 ∧
      new = guardLog size receive above) (guardsValid size receive) := by
  have hword : ∀ value : UInt32, decide (value = guardWord) = true → value = guardWord := fun _ h => of_decide_eq_true h
  cases receive with
  | false =>
    apply ((steady_andGuard true _ _).bind fun ok => (steady_andGuard ok _ _).bind fun ok => steady_pure ok).mono
    rintro b new ⟨ok,_,_,rfl,hlow,ok',_,_,rfl,hhigh,rfl,rfl⟩ hok
    obtain ⟨hok',high,hintact',rfl⟩ := hhigh hok
    obtain ⟨-,low,hintact,rfl⟩ := hlow hok'
    rw [hword low hintact, hword high hintact']
    exact ⟨sentinel,rfl,rfl⟩
  | true =>
    apply ((steady_andGuard true _ _).bind fun ok => (steady_andGuard ok _ _).bind fun ok => (steady_andGuard ok _ _).bind
      fun ok => (steady_andGuard ok _ _).bind fun ok => steady_andGuard ok _ _).mono
    rintro b new ⟨ok₁,_,_,rfl,h₁,ok₂,_,_,rfl,h₂,ok₃,_,_,rfl,h₃,ok₄,_,_,rfl,h₄,h₅⟩ hok
    obtain ⟨hok₄,above,habove,rfl⟩ := h₅ hok
    obtain ⟨hok₃,v₄,hv₄,rfl⟩ := h₄ hok₄
    obtain ⟨hok₂,v₃,hv₃,rfl⟩ := h₃ hok₃
    obtain ⟨hok₁,v₂,hv₂,rfl⟩ := h₂ hok₂
    obtain ⟨-,v₁,hv₁,rfl⟩ := h₁ hok₁
    rw [hword v₁ hv₁, hword v₂ hv₂, hword v₃ hv₃, hword v₄ hv₄]
    exact ⟨above,of_decide_eq_true habove,rfl⟩

/-- The words of the receive area are read from `word` on. -/
def dataLog : (word : ℕ) → List UInt32 → List Access
  | _, [] => []
  | word, value :: values => Access.read .bram (rxArea + 4 * word) (some value) :: dataLog (word + 1) values

theorem steady_rdWords (word left : ℕ) :
    Steady 0 (fun values new => values.length = left ∧ new = dataLog word values) (rdWords word left) := by
  induction left generalizing word with
  | zero =>
    apply (steady_pure []).mono
    rintro values new ⟨rfl,rfl⟩
    exact ⟨rfl,rfl⟩
  | succ left ih =>
    apply (steady_rd_bind _ _ fun value => (ih (word + 1)).bind fun values => steady_pure (value :: values)).mono
    rintro values new ⟨value,_,rfl,values',_,_,rfl,⟨hlength,rfl⟩,rfl,rfl⟩
    rw [List.append_nil, List.length_cons, hlength]
    exact ⟨rfl,rfl⟩

/-! ## What is laid out -/

/-- All of these are written. -/
abbrev Lays {α : Type} (S : List Access) (p : Session α) : Prop := Steady 0 (fun _ new => ∀ a ∈ S, a ∈ new) p

theorem lays_wr (region : Region) (offset : ℕ) (value : UInt32) (h : (written region offset value).countP isSubmit = 0) :
    Lays [Access.write region offset value true] (wr region offset value) := by
  have hwr := steady_wr region offset value
  rw [h] at hwr
  apply hwr.mono
  rintro _ new rfl a ha
  rw [List.mem_singleton.mp ha]
  exact List.mem_cons_self

theorem Steady.lays {α : Type} {p : Session α} (h : Plain p) : Lays [] p := h.mono fun _ _ _ _ ha => absurd ha List.not_mem_nil

theorem Steady.lays_bind {α β : Type} {S T : List Access} {p : Session α} {f : α → Session β} (h : Lays S p)
    (hf : ∀ a, Lays T (f a)) : Lays (S ++ T) (p >>= f) := by
  apply (h.bind hf).mono
  rintro b new ⟨a,first,rest,rfl,hS,hT⟩ x hx
  rcases List.mem_append.mp hx with hx | hx
  · exact List.mem_append_left _ (hS x hx)
  · exact List.mem_append_right _ (hT x hx)

/-- The writes that the checks rely on. -/
def laid (mailbox : ℕ) (size : UInt32) (receive : Bool) : List Access :=
  [Access.write .bram mailbox sentinel true,Access.write .bram (txArea - 4) guardWord true,
    Access.write .bram (txEnd size) guardWord true] ++
    if receive then [Access.write .bram (rxArea - 4) guardWord true,Access.write .bram (rxArea + 512) sentinel true,
      Access.write .bram (rxArea + 516) guardWord true] else []

theorem lays_wrWords (offset : ℕ) (value : ℕ → UInt32) (word left : ℕ) :
    Lays ((List.range' word left).map fun k => Access.write .bram (offset + 4 * k) (value k) true)
      (wrWords offset value word left) := by
  induction left generalizing word with
  | zero => exact (plain_pure ()).lays
  | succ left ih => exact (lays_wr _ _ _ rfl).lays_bind fun _ => ih (word + 1)

theorem plain_layRepeat (command : UInt8) (size : UInt32) (words : UInt32 × UInt32) : Plain (layRepeat command size words) :=
  steady_ite (fun _ => (plain_wr _ _ _ rfl).plain_bind fun _ => plain_wr _ _ _ rfl) fun _ => plain_pure ()

theorem plain_layBlock (writeBlock : Option Block) : Plain (layBlock writeBlock) := by
  cases writeBlock with
  | none => exact plain_pure ()
  | some b => exact (lays_wrWords _ _ 0 128).plain_bind fun _ => plain_wr _ _ _ rfl

theorem lays_layReceive (c : Config) (receive : Bool) :
    Lays (if receive then [Access.write .bram (rxArea - 4) guardWord true,Access.write .bram (rxArea + 512) sentinel true,
      Access.write .bram (rxArea + 516) guardWord true] else []) (layReceive c receive) := by
  cases receive with
  | false => exact (plain_pure ()).lays
  | true =>
    have hall := (lays_wr .bram (rxArea - 4) guardWord rfl).lays_bind fun _ =>
      (lays_wrWords rxArea (fun _ => sentinel) 0 129).lays_bind fun _ =>
      (lays_wr .bram (rxArea + 516) guardWord rfl).lays_bind fun _ =>
      (lays_wr .dma rxControl dmaRun rfl).lays_bind fun _ =>
      (lays_wr .dma rxDestination (c.bramBase + rxArea.toUInt32) rfl).lays_bind fun _ =>
      lays_wr .dma rxLength rxBytes.toUInt32 rfl
    have hmiddle : Access.write Region.bram (rxArea + 512) sentinel true ∈
        (List.range' 0 129).map fun k => Access.write Region.bram (rxArea + 4 * k) sentinel true :=
      List.mem_map.mpr ⟨128,List.mem_range'_1.mpr ⟨Nat.zero_le 128,by omega⟩,rfl⟩
    generalize (List.range' 0 129).map (fun k => Access.write Region.bram (rxArea + 4 * k) sentinel true) = middle at hall hmiddle
    apply hall.mono
    intro _ new hmem a ha
    apply hmem
    simp only [if_true, List.mem_cons, List.not_mem_nil, or_false] at ha
    rcases ha with rfl | rfl | rfl
    · exact List.mem_append_left _ List.mem_cons_self
    · exact List.mem_append_right _ (List.mem_append_left _ hmiddle)
    · exact List.mem_append_right _ (List.mem_append_right _ (List.mem_append_left _ List.mem_cons_self))

theorem lays_layOut (c : Config) (command : UInt8) (argument : UInt32) (mailbox : ℕ) (size : UInt32)
    (writeBlock : Option Block) (receive : Bool) :
    Lays (laid mailbox size receive) (layOut c command argument mailbox size writeBlock receive) := by
  have hall := (lays_wr .bram mailbox sentinel rfl).lays_bind fun _ =>
    (lays_wr .bram (txArea - 4) guardWord rfl).lays_bind fun _ =>
    (lays_wr .bram txArea ((encode command argument).1) rfl).lays_bind fun _ =>
    (lays_wr .bram (txArea + 4) ((encode command argument).2) rfl).lays_bind fun _ =>
    (plain_layRepeat command size (encode command argument)).lays.lays_bind fun _ =>
    (plain_layBlock writeBlock).lays.lays_bind fun _ =>
    (lays_wr .bram (txEnd size) guardWord rfl).lays_bind fun _ =>
    lays_layReceive c receive
  apply Steady.mono hall
  intro _ new hmem a ha
  apply hmem
  rcases List.mem_append.mp ha with ha | ha
  · simp only [List.mem_cons, List.not_mem_nil, or_false] at ha
    rcases ha with rfl | rfl | rfl <;> simp
  · exact List.mem_append_right _ (List.mem_append_right _ (List.mem_append_right _ (List.mem_append_right _
      (List.mem_append_right _ (List.mem_append_right _ (List.mem_append_right _ ha))))))

/-! ## The end of a command -/

section
variable {n k : ℕ} {readBlock : Option Block} {G G' : Outcome → List Access → Prop}

/-- Nothing is handed over, whatever becomes of the error. -/
abbrev Silent {α : Type} (p : Session α) : Prop := ∀ io, (p io).Adds fun _ new => new.countP isSubmit ≤ 0

theorem Steady.silent {α : Type} {L : α → List Access → Prop} {p : Session α} (h : Steady 0 L p) : Silent p :=
  fun io => (h io).mono fun _ _ hnew => hnew.1

theorem Silent.bind {α β : Type} {p : Session α} {f : α → Session β} (h : Silent p) (hf : ∀ a, Silent (f a)) :
    Silent (p >>= f) := by
  intro io
  apply Adds.bind_log (S := fun new => new.countP isSubmit ≤ 0) ?_ (h io) fun a => hf a.1 a.2
  intro log rest hlog hrest
  rw [List.countP_append]
  exact Nat.add_le_add hlog hrest

theorem silent_set (b : Bool) : Silent (set b : Session Unit) := fun _ => adds_pure (Nat.le_refl 0)

theorem silent_abortTransfer (polls : ℕ) : Silent (abortTransfer polls) := by
  apply (steady_request outside_disable).silent.bind
  intro _
  apply (silent_set false).bind
  intro _
  apply (plain_dmaReset polls).silent.bind
  intro _
  exact (plain_wr _ _ _ rfl).silent

/-- A failure is no success, and the caller's block is untouched. -/
theorem concludes_failed {result : Status} (hresult : result ≠ .ok) (polls : ℕ) (r : Report) :
    Concludes 0 readBlock G (failed result readBlock polls r) := by
  intro io
  apply (steady_snapshot r io).bind
  · rintro new ⟨hcount,-⟩
    exact ⟨hcount,fun _ _ hr => absurd hr.symm (Option.some_ne_none _)⟩
  rintro ⟨r',io'⟩ new ⟨hcount,-⟩
  apply (silent_abortTransfer polls io').bind
  · intro more hcount'
    rw [List.countP_append]
    exact ⟨Nat.add_le_add hcount hcount',fun _ _ hr => absurd hr.symm (Option.some_ne_none _)⟩
  rintro ⟨_,_⟩ more hcount'
  apply adds_pure
  rw [List.append_nil, List.countP_append]
  refine ⟨Nat.add_le_add hcount hcount',fun out _ hr => ?_⟩
  cases hr
  exact ⟨fun _ => rfl,fun hok => absurd hok hresult⟩

theorem ConcludesAt.mono {io : Bool} {p : Session Outcome} (h : ConcludesAt io n readBlock G p)
    (himp : ∀ out new, G out new → G' out new) : ConcludesAt io n readBlock G' p := by
  apply Adds.mono h
  rintro r new ⟨hcount,hends⟩
  refine ⟨hcount,fun out io' hr => ⟨(hends out io' hr).1,fun hok => ?_⟩⟩
  obtain ⟨hclean,hsound,hG⟩ := (hends out io' hr).2 hok
  exact ⟨hclean,hsound,himp out new hG⟩

theorem Concludes.mono {p : Session Outcome} (h : Concludes n readBlock G p) (himp : ∀ out new, G out new → G' out new) :
    Concludes n readBlock G' p := fun io => (h io).mono himp

theorem concludes_ite {io : Bool} {P : Prop} [Decidable P] {p p' : Session Outcome} (h : P → ConcludesAt io n readBlock G p)
    (h' : ¬P → ConcludesAt io n readBlock G p') : ConcludesAt io n readBlock G (if P then p else p') := by
  split
  · exact h ‹_›
  · exact h' ‹_›

theorem Steady.concludes {α : Type} {L : α → List Access → Prop} {G : α → Outcome → List Access → Prop} {p : Session α}
    {f : α → Session Outcome} (h : Steady n L p) (hf : ∀ a, Concludes k readBlock (G a) (f a)) :
    Concludes (n + k) readBlock (fun out new => ∃ a first rest, new = first ++ rest ∧ L a first ∧ G a out rest) (p >>= f) := by
  intro io
  apply (h io).bind
  · rintro new ⟨hcount,-⟩
    exact ⟨hcount.trans (Nat.le_add_right n k),fun _ _ hr => absurd hr.symm (Option.some_ne_none _)⟩
  rintro ⟨a,io₁⟩ new ⟨hcount,hgood⟩
  apply Adds.mono (hf a io₁)
  rintro r more ⟨hcount',hends⟩
  refine ⟨by rw [List.countP_append]; exact Nat.add_le_add hcount hcount',fun out io' hr => ⟨(hends out io' hr).1,fun hok => ?_⟩⟩
  obtain ⟨hcleak,hsound',hG⟩ := (hends out io' hr).2 hok
  obtain ⟨hclean,hsound,hL⟩ := hgood a io₁ rfl hcleak
  exact ⟨hclean,hsound.append hsound',a,new,more,rfl,hL,hG⟩

/-- Where an error is asked for before the end, there is none afterwards. -/
theorem concludes_get {f : Bool → Session Outcome} (hf : ConcludesAt false n readBlock G (f false))
    (herror : Concludes n readBlock (fun _ _ => False) (f true)) : Concludes n readBlock G (get >>= f) := by
  intro io
  cases io with
  | false => exact hf
  | true =>
    apply Adds.mono (herror true)
    rintro r new ⟨hcount,hends⟩
    refine ⟨hcount,fun out io' hr => ⟨(hends out io' hr).1,fun hok => ?_⟩⟩
    exact absurd ((hends out io' hr).2 hok).2.2 id

end

/-! ## Success -/

/-- The reply that is accepted: zero, or the idle reply of a card whose mailbox is a stream. -/
def Accepted (c : Config) (command : UInt8) (reply : UInt32) : Prop :=
  reply = 0 ∨ command = 17 ∧ c.readMailboxIsStream = true ∧ reply = 0xff

theorem concludes_cardResponse (c : Config) (command : UInt8) (readBlock : Option Block) (bytes : List UInt8) (polls : ℕ)
    (r : Report) : ConcludesAt false 0 readBlock (fun out new => new = [] ∧ Accepted c command r.reply ∧
      out.readBlock = readBlock.map fun _ => blockOf bytes) (cardResponse c command readBlock bytes polls r) := by
  have hio : Status.io ≠ .ok := nofun
  apply concludes_ite
  · intro _
    exact concludes_failed hio polls _ false
  · intro haccepted
    apply adds_pure
    refine ⟨Nat.le_refl 0,fun out io' hr => ?_⟩
    cases hr
    refine ⟨fun h => absurd rfl h,fun _ => ⟨rfl,sound_nil,rfl,?_,rfl⟩⟩
    exact Decidable.or_iff_not_imp_left.mpr fun hreply => Decidable.not_not.mp fun h => haccepted ⟨hreply,h⟩

/-- The checks after completion, as the log shows them: the guards, and for a read its length,
its data and their checksum. -/
def Checked (c : Config) (command : UInt8) (size : UInt32) (readBlock : Option Block) (rxLengthSeen reply : UInt32) (out : Outcome)
    (new : List Access) : Prop :=
  Accepted c command reply ∧ ∃ above, above &&& 0xffff0000 = sentinel &&& 0xffff0000 ∧
    match readBlock with
    | none => new = guardLog size false above ∧ out.readBlock = none
    | some _ => ∃ words, words.length = 129 ∧ new = guardLog size true above ++ dataLog 0 words ∧
        rxLengthSeen = rxBytes.toUInt32 ∧ crc16 ((received words).take blockSize) = crcReceived (received words) ∧
        out.readBlock = some (blockOf (received words))

/-- After the data have been read: the checksum, and the reply. -/
theorem concludes_data (c : Config) (command : UInt8) (b : Block) (polls : ℕ) (r : Report) :
    Concludes 0 (some b) (fun out new => Accepted c command r.reply ∧ ∃ words, words.length = 129 ∧ new = dataLog 0 words ∧
        crc16 ((received words).take blockSize) = crcReceived (received words) ∧ out.readBlock = some (blockOf (received words)))
      (do
        let words ← rdWords 0 129
        let bytes := received words
        let r := { r with stage := .crc16, crcCalculated := crc16 (bytes.take blockSize), crcReceived := crcReceived bytes }
        if (← get) ∨ r.crcCalculated ≠ r.crcReceived then failed .io (some b) polls r
        else cardResponse c command (some b) bytes polls r : Session Outcome) := by
  have hio : Status.io ≠ .ok := nofun
  apply Concludes.mono ((steady_rdWords 0 129).concludes (k := 0) (G := fun words out new => new = [] ∧
    crc16 ((received words).take blockSize) = crcReceived (received words) ∧ Accepted c command r.reply ∧
    out.readBlock = some (blockOf (received words))) ?_)
  · rintro out new ⟨words,_,_,rfl,⟨hlength,rfl⟩,rfl,hcrc,haccepted,hblock⟩
    rw [List.append_nil]
    exact ⟨haccepted,words,hlength,rfl,hcrc,hblock⟩
  intro words
  apply concludes_get
  · apply concludes_ite
    · intro _
      exact concludes_failed hio polls _ false
    · intro hcrc
      apply (concludes_cardResponse c command (some b) (received words) polls _).mono
      rintro out new ⟨rfl,haccepted,hblock⟩
      exact ⟨rfl,Decidable.not_not.mp fun h => hcrc (Or.inr h),haccepted,hblock⟩
  · intro io
    apply concludes_ite
    · intro _
      exact concludes_failed hio polls _ io
    · intro h
      exact absurd (Or.inl rfl) h

theorem concludes_checkTransfer (c : Config) (command : UInt8) (size : UInt32) (readBlock : Option Block) (polls : ℕ)
    (r : Report) : Concludes 0 readBlock (Checked c command size readBlock r.rxLength r.reply)
      (checkTransfer c command size readBlock polls r) := by
  have hio : Status.io ≠ .ok := nofun
  cases readBlock with
  | none =>
    apply Concludes.mono ((steady_guardsValid size false).concludes (k := 0) (G := fun ok out new => ok = true ∧ new = [] ∧
      Accepted c command r.reply ∧ out.readBlock = none) ?_)
    · rintro out new ⟨ok,_,_,rfl,hguards,hok,rfl,haccepted,hblock⟩
      obtain ⟨above,habove,rfl⟩ := hguards hok
      rw [List.append_nil]
      exact ⟨haccepted,above,habove,rfl,hblock⟩
    intro ok
    apply concludes_get
    · apply concludes_ite
      · intro _
        exact concludes_failed hio polls _ false
      · intro hchecks
        apply (concludes_cardResponse c command none [] polls _).mono
        rintro out new ⟨rfl,haccepted,hblock⟩
        exact ⟨Decidable.not_not.mp fun h => hchecks (Or.inl h),rfl,haccepted,hblock⟩
    · intro io
      apply concludes_ite
      · intro _
        exact concludes_failed hio polls _ io
      · intro h
        exact absurd (Or.inr (Or.inr rfl)) h
  | some b =>
    apply Concludes.mono ((steady_guardsValid size true).concludes (k := 0) (G := fun ok out new => ok = true ∧
      r.rxLength = rxBytes.toUInt32 ∧ Accepted c command r.reply ∧ ∃ words, words.length = 129 ∧ new = dataLog 0 words ∧
        crc16 ((received words).take blockSize) = crcReceived (received words) ∧ out.readBlock = some (blockOf (received words))) ?_)
    · rintro out new ⟨ok,_,_,rfl,hguards,hok,hlength,haccepted,words,hwords,rfl,hcrc,hblock⟩
      obtain ⟨above,habove,rfl⟩ := hguards hok
      exact ⟨haccepted,above,habove,words,hwords,rfl,hlength,hcrc,hblock⟩
    intro ok
    apply concludes_get
    · apply concludes_ite
      · intro _
        exact concludes_failed hio polls _ false
      · intro hchecks
        apply (concludes_data c command b polls _ false).mono
        rintro out new hdata
        exact ⟨Decidable.not_not.mp fun h => hchecks (Or.inl h),
          Decidable.not_not.mp fun h => hchecks (Or.inr (Or.inl ⟨rfl,h⟩)),hdata⟩
    · intro io
      apply concludes_ite
      · intro _
        exact concludes_failed hio polls _ io
      · intro h
        exact absurd (Or.inr (Or.inr rfl)) h

/-! ## The command -/

/-- The number of bytes that are sent. -/
def sizeOf (c : Config) (command : UInt8) : UInt32 :=
  if command = 17 then c.readDescriptorBytes.toUInt32 else if command = 24 then txBytes.toUInt32 else 8

/-- The mailbox and the guards were laid before the command was handed over, and afterwards an
interrupt, a fresh reply and the end of the transfer were seen, and every check was made. -/
def Submitted (c : Config) (command : UInt8) (mailbox : ℕ) (readBlock : Option Block) (out : Outcome) (log : List Access) : Prop :=
  ∃ armed waited v reply now checks,
    log = armed ++ written .core csr startCommand ++ waited ++ pollLog v ++ [Access.read .bram mailbox (some reply)] ++
      [⟨Request.nowMs,now⟩] ++ checks ∧
    (∀ a ∈ laid mailbox (sizeOf c command) readBlock.isSome, a ∈ armed) ∧
    Completed readBlock.isSome v.irqCount v.tx v.rx reply ∧
    Checked c command (sizeOf c command) readBlock v.rxLength reply out checks

/-- What the log of a command shows that succeeds: no access failed, and all of the above. -/
def Succeeded (c : Config) (command : UInt8) (readBlock : Option Block) (out : Outcome) (log : List Access) : Prop :=
  Sound log ∧ ∃ mailbox, mailboxOf command = some mailbox ∧ Submitted c command mailbox readBlock out log

theorem Submitted.after {c : Config} {command : UInt8} {mailbox : ℕ} {readBlock : Option Block} {out : Outcome}
    {first log : List Access} (h : Submitted c command mailbox readBlock out log) :
    Submitted c command mailbox readBlock out (first ++ log) := by
  obtain ⟨armed,waited,v,reply,now,checks,rfl,hlaid,hrest⟩ := h
  refine ⟨first ++ armed,waited,v,reply,now,checks,?_,fun a ha => List.mem_append_right _ (hlaid a ha),hrest⟩
  simp only [List.append_assoc]

theorem steady_elapsed (start : UInt64) : Steady 0 (fun _ new => ∃ now, new = [⟨Request.nowMs,now⟩]) (elapsed start) := by
  have hpure : ∀ now : UInt64, Steady 0 _ (pure (now - start).toUInt32 : Session UInt32) := fun now => steady_pure _
  apply Steady.mono ((steady_request outside_nowMs).bind hpure)
  rintro passed new ⟨now,_,_,rfl,rfl,rfl,rfl⟩
  exact ⟨now,rfl⟩

theorem concludes_submit (c : Config) (command : UInt8) (argument : UInt32) (mailbox : ℕ) (writeBlock readBlock : Option Block)
    (timeoutMs : UInt32) (polls : ℕ) (r : Report) : Concludes 1 readBlock (Submitted c command mailbox readBlock)
      (submit c command argument mailbox (sizeOf c command) writeBlock readBlock timeoutMs polls r) := by
  have hend : ∀ start (out : Status × Report), Concludes 0 readBlock
      (fun out' new => out.1 = .ok ∧ ∃ now checks, new = [⟨Request.nowMs,now⟩] ++ checks ∧
        Checked c command (sizeOf c command) readBlock out.2.rxLength out.2.reply out' checks)
      (do
        let elapsedMs ← elapsed start
        let r := { out.2 with elapsedMs := elapsedMs }
        if out.1 ≠ .ok then failed out.1 readBlock polls r
        else checkTransfer c command (sizeOf c command) readBlock polls r : Session Outcome) := by
    intro start out
    apply Concludes.mono ((steady_elapsed start).concludes (k := 0) (G := fun _ out' new => out.1 = .ok ∧
      Checked c command (sizeOf c command) readBlock out.2.rxLength out.2.reply out' new) ?_)
    · rintro out' new ⟨_,_,checks,rfl,⟨now,rfl⟩,hok,hchecked⟩
      exact ⟨hok,now,checks,rfl,hchecked⟩
    intro elapsedMs io
    apply concludes_ite
    · intro hfailed
      exact concludes_failed hfailed polls _ io
    · intro hok
      apply (concludes_checkTransfer c command (sizeOf c command) readBlock polls _ io).mono
      exact fun out' new hchecked => ⟨Decidable.not_not.mp hok,hchecked⟩
  have hall := (lays_layOut c command argument mailbox (sizeOf c command) writeBlock readBlock.isSome).concludes fun _ =>
    (plain_wr .dma txControl dmaRun rfl).concludes fun _ =>
    (plain_wr .dma txSource (c.bramBase + txArea.toUInt32) rfl).concludes fun _ =>
    (steady_request outside_nowMs).concludes fun start =>
    (plain_wr .dma txLength (sizeOf c command) rfl).concludes fun _ =>
    (steady_wr .core csr startCommand).concludes fun _ =>
    (steady_completionLoop mailbox readBlock.isSome start timeoutMs polls { r with stage := .commandCompletion }).concludes
      fun out => hend start out
  apply Concludes.mono hall
  rintro out new ⟨_,laidLog,_,rfl,hlaid,_,run,_,rfl,-,_,source,_,rfl,-,start,clock,_,rfl,-,_,length,_,rfl,-,_,_,_,rfl,rfl,
    ⟨status,r'⟩,_,_,rfl,hwaited,hok,now,checks,rfl,hchecked⟩
  obtain ⟨waited,v,reply,rfl,hcompleted,hreply,hlength⟩ := hwaited hok
  rw [hreply, hlength] at hchecked
  refine ⟨laidLog ++ run ++ source ++ clock ++ length,waited,v,reply,now,checks,?_,?_,hcompleted,hchecked⟩
  · simp only [List.append_assoc]
  · intro a ha
    simp only [List.append_assoc]
    exact List.mem_append_left _ (hlaid a ha)

theorem Concludes.more {n k : ℕ} {readBlock : Option Block} {G : Outcome → List Access → Prop} {p : Session Outcome}
    (h : Concludes n readBlock G p) (hn : n ≤ k) : Concludes k readBlock G p := by
  intro io
  apply Adds.mono (h io)
  rintro r new ⟨hcount,hends⟩
  exact ⟨hcount.trans hn,hends⟩

/-- After the reset of the DMA. -/
theorem concludes_prepared (c : Config) (command : UInt8) (argument : UInt32) (mailbox : ℕ) (writeBlock readBlock : Option Block)
    (timeoutMs : UInt32) (polls : ℕ) (r : Report) : Concludes 1 readBlock (Submitted c command mailbox readBlock) (do
      wr .core packet fallThrough
      wr .core delay 1
      wr .core divider c.dataDivider.toUInt32
      let result ← (prepare : Driver Status)
      if result ≠ .ok then failed result readBlock polls r
      else submit c command argument mailbox (sizeOf c command) writeBlock readBlock timeoutMs polls r : Session Outcome) := by
  have hsubmit : ∀ result : Status, Concludes 1 readBlock (Submitted c command mailbox readBlock)
      (if result ≠ .ok then failed result readBlock polls r
      else submit c command argument mailbox (sizeOf c command) writeBlock readBlock timeoutMs polls r) := by
    intro result io
    apply concludes_ite
    · intro hfailed
      exact (concludes_failed hfailed polls r).more (Nat.zero_le 1) io
    · intro _
      exact concludes_submit c command argument mailbox writeBlock readBlock timeoutMs polls r io
  have hall := (plain_wr .core packet fallThrough rfl).concludes fun _ =>
    (plain_wr .core delay 1 rfl).concludes fun _ =>
    (plain_wr .core divider c.dataDivider.toUInt32 rfl).concludes fun _ =>
    (steady_request outside_prepare).concludes hsubmit
  apply Concludes.mono hall
  rintro out new ⟨_,_,_,rfl,-,_,_,_,rfl,-,_,_,_,rfl,-,_,_,_,rfl,-,hsubmitted⟩
  exact hsubmitted.after.after.after.after

theorem concludes_commandSession (c : Config) (command : UInt8) (argument : UInt32) (mailbox : ℕ)
    (writeBlock readBlock : Option Block) (timeoutMs : UInt32) (polls : ℕ) (r : Report) :
    Concludes 1 readBlock (Submitted c command mailbox readBlock)
      (commandSession c command argument mailbox writeBlock readBlock timeoutMs polls r) := by
  apply Concludes.mono ((plain_dmaReset polls).concludes (k := 1) (G := fun _ => Submitted c command mailbox readBlock) ?_)
  · rintro out new ⟨_,_,_,rfl,-,hsubmitted⟩
    exact hsubmitted.after
  intro result io
  apply concludes_ite
  · intro hfailed
    exact (concludes_failed hfailed polls _).more (Nat.zero_le 1) io
  · intro _
    exact concludes_prepared c command argument mailbox writeBlock readBlock timeoutMs polls _ io

/-- What is promised of a command that has ended, and of one that is still waited for. -/
def KeepsPromise {ε : Type*} (c : Config) (command : UInt8) (readBlock : Option Block)
    (out : Option Outcome × ε × List Access) : Prop :=
  out.2.2.countP isSubmit ≤ 1 ∧ ∀ result, out.1 = some result →
    (result.status ≠ .ok → result.readBlock = readBlock) ∧
    (result.status = .ok → Succeeded c command readBlock result out.2.2)

theorem masterCommand_adds (opened : Bool) (c : Config) (command : UInt8) (argument : UInt32) (writeBlock readBlock : Option Block)
    (timeoutMs : UInt32) (polls : ℕ) :
    (masterCommand opened c command argument writeBlock readBlock timeoutMs polls).Adds fun r log =>
      log.countP isSubmit ≤ 1 ∧ ∀ result, r = some result → (result.status ≠ .ok → result.readBlock = readBlock) ∧
        (result.status = .ok → Succeeded c command readBlock result log) := by
  have hrefused : ∀ status : Status, status ≠ .ok → (pure ⟨status,readBlock,{ command := command }⟩ : Driver Outcome).Adds
      fun r log => log.countP isSubmit ≤ 1 ∧ ∀ result, r = some result →
        (result.status ≠ .ok → result.readBlock = readBlock) ∧
        (result.status = .ok → Succeeded c command readBlock result log) := by
    intro status hstatus
    apply adds_pure
    refine ⟨Nat.zero_le 1,fun result hresult => ?_⟩
    cases hresult
    exact ⟨fun _ => rfl,fun hok => absurd hok hstatus⟩
  unfold masterCommand
  split
  · exact hrefused .notReady nofun
  cases hmailbox : mailboxOf command with
  | none => exact hrefused .unsupported nofun
  | some mailbox =>
    dsimp only
    split
    · exact hrefused .malformed nofun
    · apply (concludes_commandSession c command argument mailbox writeBlock readBlock timeoutMs polls _ false).bind
      · rintro new ⟨hcount,-⟩
        exact ⟨hcount,fun _ hr => absurd hr.symm (Option.some_ne_none _)⟩
      rintro ⟨out,io⟩ new ⟨hcount,hends⟩
      apply adds_pure
      rw [List.append_nil]
      refine ⟨hcount,fun result hresult => ?_⟩
      cases hresult
      refine ⟨(hends out io rfl).1,fun hok => ?_⟩
      obtain ⟨-,hsound,hsubmitted⟩ := (hends out io rfl).2 hok
      exact ⟨hsound,mailbox,hmailbox,hsubmitted⟩

/-- Among all hardware a command is handed over once at most, touches the caller's block only
if it succeeds, and succeeds only after everything has been seen that makes it a success. -/
theorem command_keeps_promise {ε : Type*} (hardware : Hardware Region ε) (e : ε) (opened : Bool) (c : Config) (command : UInt8)
    (argument : UInt32) (writeBlock readBlock : Option Block) (timeoutMs : UInt32) (polls : ℕ) :
    KeepsPromise c command readBlock
      ((masterCommand opened c command argument writeBlock readBlock timeoutMs polls).run hardware e) :=
  (masterCommand_adds opened c command argument writeBlock readBlock timeoutMs polls).run hardware e

/-- A card that answers at once. -/
def promptHardware : Hardware Region Unit
  | .read32 .bram offset, e => (some (if offset = txArea - 4 ∨ offset = txEnd 8 then guardWord else 0),e)
  | .read32 .dma offset, e => (some (if offset = txStatus then dmaIoc ||| dmaIdle else 0),e)
  | .read32 .core _, e => (some 0,e)
  | .write32 _ _ _, e => (true,e)
  | .nowMs, e => ((0 : UInt64),e)
  | .lock _, e => (Status.ok,e)
  | .prepare, e => (Status.ok,e)
  | .wait _, e => (Status.ok,e)
  | .count, e => ((1 : UInt32),e)
  | .sleepMs _, e => ((),e)
  | .unlock, e => ((),e)
  | .disable, e => ((),e)
  | .barrier, e => ((),e)

/-- A status request succeeds there. -/
example : ((masterCommand true ⟨0,2,false,8⟩ 13 0 none none 0 1).run promptHardware ()).1.map (·.status) = some .ok := by
  decide

end Bvstk.Pl.SdMaster
