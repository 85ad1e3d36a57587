import Bvstk.Dcp2.Connection

/-! # The turns of a connection

Whatever the socket, the journal and the services do, a connection is a row of turns: an event is
sent, or a request is read, carried out once and answered. Only in the end a turn may break off.
-/
namespace Bvstk.Dcp2.Server
open Dialogue Wire Events

/-! ## What a request comes to -/

/-- The service that carries out a request. -/
def destination (cores : Cores) (srv opcode : UInt8) : Option Backend :=
  if srv = serviceMem then some .mem
  else if srv = serviceCache then some .cache
  else if srv = serviceFs then some .fs
  else if opcode = opSubscribe ∨ opcode = opUnsubscribe then none
  else if srv = serviceI2c ∧ cores.i2c then some .i2c
  else if srv = serviceMdio ∧ cores.mdio then some .mdio
  else none

def notifyStatus (opcode : UInt8) (body : Bytes) : ℕ :=
  if opcode = opSubscribe then
    match subscriptionFilter body with
    | .error status => status
    | .ok _ => statusOk
  else if opcode = opUnsubscribe then if body = [] then statusOk else statusMalformed
  else statusUnsupported

def streamStatus (opcode : UInt8) (body : Bytes) : ℕ :=
  if opcode = opSubscribe then
    if body.length = 1 ∧ body.getD 0 0 &&& ~~~0x07 = 0 then statusOk else statusMalformed
  else if opcode = opUnsubscribe then if body = [] then statusOk else statusMalformed
  else statusUnsupported

/-- The status of a subscription to a stream, if there is such a stream. -/
def streamCtlStatus (srv opcode : UInt8) (body : Bytes) : ℕ :=
  if (streamIndex srv).isSome then streamStatus opcode body else statusUnsupported

/-- The status of a request that the connection answers itself. -/
def ownStatus (srv opcode : UInt8) (body : Bytes) : ℕ :=
  if srv = servicePing then pingStatus opcode body
  else if srv = serviceNotify then notifyStatus opcode body
  else streamCtlStatus srv opcode body

/-- With an error a session sends nothing else. -/
def Backend.bodyOf (backend : Backend) (status : ℕ) (answer : Bytes) : Bytes :=
  if (backend = .cache ∨ backend = .fs) ∧ status ≠ statusOk then [] else answer

/-! ## Lines and turns -/

/-- What an observer of the socket and of the services sees. -/
inductive Line where
  | waitFailed
  | header (bytes : Option Bytes)
  | payload (bytes : Option Bytes)
  | served (backend : Backend) (opcode : UInt8) (body : Bytes) (status : ℕ) (answer : Bytes)
  | wrote (frame : Bytes) (whole : Bool)
  deriving DecidableEq, Repr

def lineOf : Exchange Answer → Option Line
  | ⟨.waitReadable,.failed⟩ => some .waitFailed
  | ⟨.readHeader,r⟩ => some (.header (r.map Subtype.val))
  | ⟨.readPayload _,r⟩ => some (.payload (r.map Subtype.val))
  | ⟨.serve backend opcode body,r⟩ => some (.served backend opcode body r.1 r.2.val)
  | ⟨.write frame,r⟩ => some (.wrote frame r)
  | _ => none

/-- The service, the opcode and the number of a request. -/
def srvOf (payload : Bytes) : UInt8 := payload.getD 0 0
def opcodeOf (payload : Bytes) : UInt8 := payload.getD 1 0 &&& opMask
def seqOf (payload : Bytes) : UInt16 := UInt16.ofNat (beAt payload 2 2)

/-- The status and the body with which a request is answered, and what was served for it. -/
inductive Answered (cores : Cores) (payload : Bytes) : Option Line → ℕ → Bytes → Prop
  | refused (hrefused : isRefused payload = true) : Answered cores payload none statusMalformed []
  | own (hrequest : isRefused payload = false) (hown : destination cores (srvOf payload) (opcodeOf payload) = none) :
      Answered cores payload none (ownStatus (srvOf payload) (opcodeOf payload) (payload.drop minPayload)) []
  | served {backend : Backend} (hrequest : isRefused payload = false)
      (hbackend : destination cores (srvOf payload) (opcodeOf payload) = some backend) (status : ℕ) (answer : Bytes) :
      Answered cores payload (some (.served backend (opcodeOf payload) (payload.drop minPayload) status answer)) status
        (backend.bodyOf status answer)

/-- A frame of whole length. -/
def IsFrame (payload frame : Bytes) : Prop := payload.length ≤ maxPayloadSize ∧ frame = frameOf payload

def IsEvent (frame : Bytes) : Prop := ∃ srv opcode body, IsFrame (eventPayload srv opcode body) frame

def IsResponse (cores : Cores) (payload : Bytes) (served : Option Line) (frame : Bytes) : Prop :=
  ∃ status body, Answered cores payload served status body ∧
    IsFrame (responsePayload (srvOf payload) (opcodeOf payload) (seqOf payload) status body) frame

inductive Turn where
  | event (frame : Bytes)
  | exchange (head payload : Bytes) (served : Option Line) (response : Bytes) (whole : Bool)
  deriving DecidableEq, Repr

def Turn.lines : Turn → List Line
  | .event frame => [.wrote frame true]
  | .exchange head payload served response whole =>
    [.header (some head),.payload (some payload)] ++ served.toList ++ [.wrote response whole]

/-- Only the response to what is no request may be cut short. -/
def Turn.Sound (cores : Cores) : Turn → Prop
  | .event frame => IsEvent frame
  | .exchange head payload served response whole =>
    announced head = some payload.length ∧ IsResponse cores payload served response ∧
      (whole = false → isRefused payload = true)

/-- How far the connection has come in the turn it is in. -/
inductive Phase where
  | rest
  | header (head : Bytes)
  | serving (head payload : Bytes) (served : Option Line)
  | closed (lines : List Line)
  deriving DecidableEq, Repr

def Phase.lines : Phase → List Line
  | .rest => []
  | .header head => [.header (some head)]
  | .serving head payload served => [.header (some head),.payload (some payload)] ++ served.toList
  | .closed lines => lines

/-- After this line the connection is over. -/
inductive Breaks (cores : Cores) : Phase → Line → Prop
  | waitFailed : Breaks cores .rest .waitFailed
  | noHeader : Breaks cores .rest (.header none)
  | badHeader {head : Bytes} (hbad : announced head = none) : Breaks cores .rest (.header (some head))
  | event {frame : Bytes} (hevent : IsEvent frame) : Breaks cores .rest (.wrote frame false)
  | noPayload {head : Bytes} {n : ℕ} (hn : announced head = some n) : Breaks cores (.header head) (.payload none)
  | response {head payload frame : Bytes} {served : Option Line} (hn : announced head = some payload.length)
      (hrequest : isRefused payload = false) (hresponse : IsResponse cores payload served frame) :
      Breaks cores (.serving head payload served) (.wrote frame false)

def Phase.Sound (cores : Cores) : Phase → Prop
  | .rest => True
  | .header head => ∃ n, announced head = some n
  | .serving head payload served => announced head = some payload.length ∧ ∀ line ∈ served, ∃ status answer backend,
      line = .served backend (opcodeOf payload) (payload.drop minPayload) status answer ∧
      isRefused payload = false ∧ destination cores (srvOf payload) (opcodeOf payload) = some backend
  | .closed lines => ∃ phase line, Breaks cores phase line ∧ lines = phase.lines ++ [line]

/-- The turn that a line ends, and the phase after it. -/
def Phase.next : Phase → Line → List Turn × Phase
  | .rest, .wrote frame true => ([.event frame],.rest)
  | .rest, .header (some head) => ([],if (announced head).isSome then .header head else .closed [.header (some head)])
  | .header head, .payload (some payload) => ([],.serving head payload none)
  | .serving head payload none, .served backend opcode body status answer =>
    ([],.serving head payload (some (.served backend opcode body status answer)))
  | .serving head payload served, .wrote frame whole =>
    if whole || isRefused payload then ([.exchange head payload served frame whole],.rest)
    else ([],.closed ((Phase.serving head payload served).lines ++ [.wrote frame whole]))
  | phase, line => ([],.closed (phase.lines ++ [line]))

theorem Phase.next_lines (phase : Phase) (line : Line) :
    (phase.next line).1.flatMap Turn.lines ++ (phase.next line).2.lines = phase.lines ++ [line] := by
  unfold Phase.next
  split
  · simp [Turn.lines, Phase.lines]
  · split <;> simp [Phase.lines]
  · simp [Phase.lines]
  · simp [Phase.lines]
  · split <;> simp [Turn.lines, Phase.lines]
  · simp [Phase.lines]

theorem Phase.next_wrote (head payload : Bytes) (served : Option Line) (frame : Bytes) (whole : Bool) :
    (Phase.serving head payload served).next (.wrote frame whole) =
      if whole || isRefused payload then ([.exchange head payload served frame whole],.rest)
      else ([],.closed ((Phase.serving head payload served).lines ++ [.wrote frame whole])) := by
  cases served <;> rfl

/-- The turns so far. -/
structure Watch where
  turns : List Turn
  phase : Phase

def Watch.lines (w : Watch) : List Line := w.turns.flatMap Turn.lines ++ w.phase.lines

def Watch.see (w : Watch) (line : Line) : Watch := ⟨w.turns ++ (w.phase.next line).1,(w.phase.next line).2⟩

theorem Watch.see_lines (w : Watch) (line : Line) : (w.see line).lines = w.lines ++ [line] := by
  simp only [Watch.lines, Watch.see, List.flatMap_append, List.append_assoc, Phase.next_lines]

def noteLine (w : Watch) (exchange : Exchange Answer) : Watch := (lineOf exchange).elim w w.see

/-- What the connection may ask for in each phase. -/
def mayAsk (cores : Cores) : Phase → Call → Prop
  | .rest, .write frame => IsEvent frame
  | .rest, .readPayload _ => False
  | .rest, .serve _ _ _ => False
  | .rest, _ => True
  | .header head, .readPayload n => announced head = some n
  | .serving _ payload served, .write frame => IsResponse cores payload served frame
  | .serving _ payload none, .serve backend opcode body =>
    isRefused payload = false ∧ destination cores (srvOf payload) (opcodeOf payload) = some backend ∧
      opcode = opcodeOf payload ∧ body = payload.drop minPayload
  | .serving _ _ _, .observerHead _ _ => True
  | .serving _ _ _, .simResetLost _ => True
  | _, _ => False

theorem Phase.wrote_sound {cores : Cores} {head payload frame : Bytes} {served : Option Line} (whole : Bool)
    (hn : announced head = some payload.length) (hresponse : IsResponse cores payload served frame) :
    (∀ turn ∈ ((Phase.serving head payload served).next (.wrote frame whole)).1, turn.Sound cores) ∧
      ((Phase.serving head payload served).next (.wrote frame whole)).2.Sound cores := by
  rw [next_wrote]
  by_cases hdone : (whole || isRefused payload) = true
  · rw [if_pos hdone]
    refine ⟨List.forall_mem_singleton.mpr ⟨hn,hresponse,fun hwhole => ?_⟩,trivial⟩
    subst hwhole
    exact hdone
  · rw [if_neg hdone]
    obtain ⟨rfl,hrequest⟩ := Bool.or_eq_false_iff.mp (Bool.eq_false_iff.mpr hdone)
    exact ⟨List.forall_mem_nil _,_,_,.response hn hrequest hresponse,rfl⟩

/-- What is asked for when it may be leads to sound turns. -/
theorem Phase.next_sound {cores : Cores} {phase : Phase} {c : Call} {r : Answer c} {line : Line} (hphase : phase.Sound cores)
    (hask : mayAsk cores phase c) (hline : lineOf ⟨c,r⟩ = some line) :
    (∀ turn ∈ (phase.next line).1, turn.Sound cores) ∧ (phase.next line).2.Sound cores := by
  cases c with
  | nowMs | expireFiles | observerRead _ _ _ | observerHead _ _ | simNext _ | simResetLost _ | cacheEvent => cases hline
  | waitReadable =>
    cases r with
    | timeout | ready => cases hline
    | failed =>
      obtain rfl := Option.some.inj hline
      cases phase with
      | rest => exact ⟨List.forall_mem_nil _,_,_,.waitFailed,rfl⟩
      | header _ | serving _ _ _ | closed _ => exact hask.elim
  | readHeader =>
    obtain rfl := Option.some.inj hline
    cases phase with
    | header _ | serving _ _ _ | closed _ => exact hask.elim
    | rest =>
      cases r with
      | none => exact ⟨List.forall_mem_nil _,_,_,.noHeader,rfl⟩
      | some head =>
        refine ⟨List.forall_mem_nil _,?_⟩
        change Phase.Sound cores (if (announced head.val).isSome then .header head.val else .closed [.header (some head.val)])
        split
        · exact Option.isSome_iff_exists.mp ‹_›
        · exact ⟨.rest,_,.badHeader (Option.not_isSome_iff_eq_none.mp ‹_›),rfl⟩
  | readPayload n =>
    obtain rfl := Option.some.inj hline
    cases phase with
    | rest | serving _ _ _ | closed _ => exact hask.elim
    | header head =>
      cases r with
      | none => exact ⟨List.forall_mem_nil _,_,_,.noPayload hask,rfl⟩
      | some payload =>
        refine ⟨List.forall_mem_nil _,?_,?_⟩
        · exact hask.trans (congrArg some payload.property.symm)
        · exact fun line hmem => absurd hmem (Option.not_mem_none line)
  | serve backend opcode body =>
    obtain rfl := Option.some.inj hline
    cases phase with
    | rest | header _ | closed _ => exact hask.elim
    | serving head payload served =>
      cases served with
      | some _ => exact hask.elim
      | none =>
        obtain ⟨hrequest,hbackend,rfl,rfl⟩ := hask
        refine ⟨List.forall_mem_nil _,hphase.1,?_⟩
        intro line hmem
        obtain rfl := Option.mem_some_iff.mp hmem
        exact ⟨_,_,backend,rfl,hrequest,hbackend⟩
  | write frame =>
    obtain rfl := Option.some.inj hline
    cases phase with
    | header _ | closed _ => exact hask.elim
    | rest =>
      cases r with
      | false => exact ⟨List.forall_mem_nil _,_,_,.event hask,rfl⟩
      | true => exact ⟨List.forall_mem_singleton.mpr hask,trivial⟩
    | serving head payload served => exact wrote_sound r hphase.1 hask

/-! ## Every step keeps to its turn -/

/-- A watched connection. -/
abbrev watchedConn (cores : Cores) : Setting Answer Watch := watched noteLine fun w c => mayAsk cores w.phase c

def Watch.Rests (w : Watch) : Prop := w.phase = .rest

def Watch.Ended (w : Watch) : Prop := ∃ lines, w.phase = .closed lines

/-- A part of the connection keeps to the turns: it leaves `I`, or the connection is over. -/
abbrev InTurn (cores : Cores) {α : Type} (p : Conn α) (I : α → Watch → Prop) (w : Watch) : Prop :=
  p.Keeps (watchedConn cores) (fun _ => True) Watch.Ended I w

variable {cores : Cores} {α β : Type} {w : Watch}

/-- Something is asked that nobody sees. -/
theorem ask_unseen {phase : Phase} {c : Call} {f : Answer c → Conn β} {J : β → Watch → Prop} (hw : w.phase = phase)
    (hask : mayAsk cores phase c) (hline : ∀ r, lineOf ⟨c,r⟩ = none)
    (hf : ∀ r w, w.phase = phase → InTurn cores (f r) J w) : InTurn cores (Attempt.ask c >>= f) J w := by
  refine Attempt.keeps_ask_bind (P := fun w => w.phase = phase) (watched_stable _) hw (fun w hw => ?_) ?_
  · exact (congrArg (mayAsk cores · c) hw).mpr hask
  · rintro w r _ hw rfl
    rw [noteLine, hline]
    exact hf r w hw

/-- Something is asked that is seen. -/
theorem ask_seen {phase : Phase} {c : Call} {f : Answer c → Conn β} {J : β → Watch → Prop} (line : Answer c → Line)
    (hw : w.phase = phase) (hask : mayAsk cores phase c) (hline : ∀ r, lineOf ⟨c,r⟩ = some (line r))
    (hf : ∀ r w, w.phase = (phase.next (line r)).2 → InTurn cores (f r) J w) : InTurn cores (Attempt.ask c >>= f) J w := by
  refine Attempt.keeps_ask_bind (P := fun w => w.phase = phase) (watched_stable _) hw (fun w hw => ?_) ?_
  · exact (congrArg (mayAsk cores · c) hw).mpr hask
  · rintro w r _ hw rfl
    rw [noteLine, hline]
    exact hf r _ (by rw [← hw]; rfl)

theorem InTurn.rests (hw : w.Rests) (a : α) : InTurn cores (pure a : Conn α) (fun _ => Watch.Rests) w :=
  Attempt.keeps_pure (I := fun _ => Watch.Rests) (watched_stable _) hw

theorem InTurn.ended {I : α → Watch → Prop} (hw : w.Ended) : InTurn cores (failure : Conn α) I w :=
  Attempt.keeps_failure (watched_stable _) hw

/-! ### Sending -/

theorem sendPayload_eq {payload : Bytes} (h : payload.length ≤ maxPayloadSize) :
    sendPayload payload = write (frameOf payload) >>= fun whole => if whole then pure () else failure := by
  have hlen : (UInt16.ofNat payload.length).toNat = payload.length :=
    UInt16.toNat_ofNat_of_lt' (Nat.lt_of_le_of_lt h (by decide))
  unfold sendPayload
  rw [hlen, if_neg (Nat.not_lt.mpr h)]

theorem eventPayload_length (srv opcode : UInt8) (body : Bytes) : (eventPayload srv opcode body).length = 4 + body.length := by
  simp [eventPayload]
  omega

theorem responsePayload_length (srv opcode : UInt8) (seq : UInt16) (status : ℕ) (body : Bytes) :
    (responsePayload srv opcode seq status body).length = 6 + body.length := by
  simp [responsePayload]
  omega

theorem sendEvent_inTurn {srv opcode : UInt8} {body : Bytes} (hbody : body.length ≤ maxPayloadSize - 4) (hw : w.Rests) :
    InTurn cores (sendEvent srv opcode body) (fun _ => Watch.Rests) w := by
  have hfits : (eventPayload srv opcode body).length ≤ maxPayloadSize := by
    rw [eventPayload_length]
    exact Nat.add_le_of_le_sub' (by decide) hbody
  unfold sendEvent
  rw [sendPayload_eq hfits]
  refine ask_seen (.wrote (frameOf (eventPayload srv opcode body))) hw ⟨srv,opcode,body,hfits,rfl⟩ (fun _ => rfl) ?_
  rintro (_ | _) w hw
  · exact .ended ⟨_,hw⟩
  · exact .rests hw ()

theorem Phase.next_wrote_rest {head payload frame : Bytes} {served : Option Line} {whole : Bool}
    (h : whole = true ∨ isRefused payload = true) : ((Phase.serving head payload served).next (.wrote frame whole)).2 = .rest := by
  rw [next_wrote, if_pos (Bool.or_eq_true_iff.mpr h)]

theorem Phase.next_wrote_over {head payload frame : Bytes} {served : Option Line} (h : isRefused payload = false) :
    ∃ lines, ((Phase.serving head payload served).next (.wrote frame false)).2 = .closed lines := by
  rw [next_wrote, h]
  exact ⟨_,rfl⟩

theorem responsePayload_fits (srv opcode : UInt8) (seq : UInt16) (status : ℕ) {body : Bytes}
    (hbody : body.length ≤ maxPayloadSize - 6) : (responsePayload srv opcode seq status body).length ≤ maxPayloadSize := by
  rw [responsePayload_length]
  exact Nat.add_le_of_le_sub' (by decide) hbody

/-- The response to a request that was not refused. -/
theorem sendResponse_inTurn {head payload body : Bytes} {served : Option Line} {status : ℕ}
    (hrequest : isRefused payload = false) (hanswer : Answered cores payload served status body)
    (hbody : body.length ≤ maxPayloadSize - 6) (hw : w.phase = .serving head payload served) :
    InTurn cores (sendResponse (srvOf payload) (opcodeOf payload) (seqOf payload) status body) (fun _ => Watch.Rests) w := by
  have hfits := responsePayload_fits (srvOf payload) (opcodeOf payload) (seqOf payload) status hbody
  unfold sendResponse
  rw [sendPayload_eq hfits]
  refine ask_seen (.wrote _) hw ⟨status,body,hanswer,hfits,rfl⟩ (fun _ => rfl) ?_
  rintro (_ | _) w hw
  · obtain ⟨lines,hlines⟩ := Phase.next_wrote_over hrequest
    exact .ended ⟨lines,hw.trans hlines⟩
  · exact .rests (hw.trans (Phase.next_wrote_rest (Or.inl rfl))) ()

/-- It does not matter whether a refusal is sent. -/
theorem refuse_inTurn {head payload : Bytes} (hrefused : isRefused payload = true)
    (hw : w.phase = .serving head payload none) :
    InTurn cores (sendResponse (srvOf payload) (opcodeOf payload) (seqOf payload) statusMalformed []).regardless
      (fun _ => Watch.Rests) w := by
  have hfits := responsePayload_fits (srvOf payload) (opcodeOf payload) (seqOf payload) statusMalformed
    (List.length_nil.trans_le (Nat.zero_le (maxPayloadSize - 6)))
  have hsend : (sendResponse (srvOf payload) (opcodeOf payload) (seqOf payload) statusMalformed []).Keeps (watchedConn cores)
      (fun _ => True) Watch.Rests (fun _ => Watch.Rests) w := by
    unfold sendResponse
    rw [sendPayload_eq hfits]
    refine Attempt.keeps_ask_bind (P := fun w => w.phase = .serving head payload none) (watched_stable _) hw (fun w hw => ?_) ?_
    · exact (congrArg (mayAsk cores · _) hw).mpr ⟨_,_,.refused hrefused,hfits,rfl⟩
    · rintro w whole _ hw rfl
      have hrests : (noteLine w ⟨_,whole⟩).Rests :=
        (congrArg (fun phase => (Phase.next phase _).2) hw).trans (Phase.next_wrote_rest (Or.inr hrefused))
      cases whole with
      | false => exact Attempt.keeps_failure (watched_stable _) hrests
      | true => exact Attempt.keeps_pure (I := fun _ => Watch.Rests) (watched_stable _) hrests
  exact Attempt.keeps_regardless hsend (fun _ => watched_stable _) (fun _ h => h) (fun _ _ h => h)

/-! ### Between two requests -/

/-- What leaves the connection at rest, whatever it returns. -/
abbrev Restful (cores : Cores) {α : Type} (p : Conn α) : Prop := ∀ w, w.Rests → InTurn cores p (fun _ => Watch.Rests) w

theorem Restful.pure (a : α) : Restful cores (pure a : Conn α) := fun _ hw => .rests hw a

theorem Restful.bind {p : Conn α} {f : α → Conn β} (h : Restful cores p) (hf : ∀ a, Restful cores (f a)) :
    Restful cores (p >>= f) := fun w hw => (h w hw).bind (watched_stable _) fun a t ht => hf a t ht

theorem Restful.ask {c : Call} (hask : mayAsk cores .rest c) (hline : ∀ r, lineOf ⟨c,r⟩ = none) :
    Restful cores (Attempt.ask c : Conn (Answer c)) := fun _ hw =>
  ask_unseen hw hask hline fun r _ hw => .rests hw r

theorem Restful.foldlM {ι : Type} {f : β → ι → Conn β} (hf : ∀ b i, Restful cores (f b i)) (is : List ι) (b : β) :
    Restful cores (is.foldlM f b) := fun _ hw =>
  Attempt.keeps_foldlM (fun _ => watched_stable _) (watched_stable _) (fun i _ b t ht => hf b i t ht) hw

theorem Restful.forM {ι : Type} {f : ι → Conn PUnit} (hf : ∀ i, Restful cores (f i)) (is : List ι) :
    Restful cores (is.forM f) := fun _ hw =>
  Attempt.keeps_forM (watched_stable _) (watched_stable _) (fun i _ t ht => hf i t ht) hw

theorem notifyBody_length (flags : UInt8) (e : Event) : (notifyBody flags e).length ≤ 28 := by
  unfold notifyBody
  split <;> simp

theorem sendNotifyEvent_restful (f : NotifyFilter) (e : Event) : Restful cores (sendNotifyEvent f e) := fun _ hw =>
  sendEvent_inTurn ((notifyBody_length f.flags e).trans (by decide)) hw

theorem notifyLost_restful (f : NotifyFilter) (bus lost : ℕ) : Restful cores (notifyLost f bus lost) := by
  unfold notifyLost
  split
  · exact .bind (.ask trivial fun _ => rfl) fun now => sendNotifyEvent_restful f _
  · exact .pure ()

theorem notifyRecord_restful (f : NotifyFilter) (record : JournalRecord) : Restful cores (notifyRecord f record) := by
  unfold notifyRecord
  split
  · exact sendNotifyEvent_restful f _
  · exact .pure ()

theorem drainNotifyBus_restful (st : ConnState) (bus : ℕ) : Restful cores (drainNotifyBus st bus) := by
  unfold drainNotifyBus
  split
  · exact .pure st
  · exact .bind (.ask trivial fun _ => rfl) fun batch =>
      .bind (notifyLost_restful _ _ _) fun _ => .bind (.forM (notifyRecord_restful _) _) fun _ => .pure _

theorem drainNotifyEvents_restful (st : ConnState) : Restful cores (drainNotifyEvents st) := by
  unfold drainNotifyEvents
  split
  · exact .foldlM drainNotifyBus_restful _ st
  · exact .pure st

theorem streamBody_length (flags : UInt8) (event : SimEvent) : (streamBody flags event).length ≤ 15 + streamDataMax := by
  have hdata := event.data.property
  unfold streamBody
  split <;> simp <;> omega

theorem sendStreamEvent_restful (st : ConnState) (event : SimEvent) : Restful cores (sendStreamEvent st event) := by
  unfold sendStreamEvent
  cases streamIndex event.service with
  | none => exact .pure ()
  | some idx =>
    dsimp only
    split
    · exact .pure ()
    · exact fun _ hw => sendEvent_inTurn ((streamBody_length _ event).trans (by decide)) hw

theorem sendBatch_restful (st : ConnState) (srv : UInt8) (lost : ℕ) (records : List JournalRecord) :
    Restful cores (sendBatch st srv lost records) := by
  cases records with
  | nil => exact .pure ()
  | cons record records => exact .bind (sendStreamEvent_restful st _) fun _ => .forM (fun _ => sendStreamEvent_restful st _) _

theorem sendSynthetic_restful (st : ConnState) (srv : UInt8) : Restful cores (sendSynthetic st srv) :=
  .bind (.ask trivial fun _ => rfl) fun event => by
    cases event with
    | none => exact .pure ()
    | some event => exact sendStreamEvent_restful st _

theorem drainTelemetry_restful (st : ConnState) (srv : UInt8) (idx : ℕ) : Restful cores (drainTelemetry st srv idx) :=
  .bind (.ask trivial fun _ => rfl) fun _ => .bind (sendBatch_restful st srv _ _) fun _ => .pure _

theorem drainStream_restful (st : ConnState) (srv : UInt8) : Restful cores (drainStream st srv) := by
  unfold drainStream
  cases streamIndex srv with
  | none => exact .pure st
  | some idx =>
    dsimp only
    split
    · exact .pure st
    · refine .bind (sendSynthetic_restful st srv) fun _ => ?_
      split
      · exact drainTelemetry_restful st srv idx
      · exact .pure st

theorem sendCacheEvents_restful (left : ℕ) : Restful cores (sendCacheEvents left) := by
  induction left with
  | zero => exact .pure ()
  | succ left ih =>
    refine .bind (.ask trivial fun _ => rfl) fun body => ?_
    split
    · exact .pure ()
    · exact .bind (fun _ hw => sendEvent_inTurn body.property hw) fun _ => ih

theorem drain_restful (st : ConnState) : Restful cores (drain st) :=
  .bind (.ask trivial fun _ => rfl) fun _ => .bind (drainNotifyEvents_restful st) fun st =>
    .bind (.foldlM drainStream_restful _ st) fun st => .bind (sendCacheEvents_restful 32) fun _ => .pure st

/-! ### A request -/

/-- A response to the request is owed, and no service has been asked. -/
def Watch.Owes (head payload : Bytes) (w : Watch) : Prop := w.phase = .serving head payload none

variable {head payload : Bytes}

theorem InTurn.owes {P : α → Prop} {a : α} (hw : w.Owes head payload) (ha : P a) :
    InTurn cores (pure a : Conn α) (fun a w => w.Owes head payload ∧ P a) w :=
  Attempt.keeps_pure (I := fun a w => Watch.Owes head payload w ∧ P a) (watched_stable _) ⟨hw,ha⟩

theorem notifyFromHead_owes (st : ConnState) (bus : ℕ) (hw : w.Owes head payload) :
    InTurn cores (notifyFromHead st bus) (fun _ => Watch.Owes head payload) w :=
  ask_unseen hw trivial (fun _ => rfl) fun _ _ hw =>
    Attempt.keeps_pure (I := fun _ => Watch.Owes head payload) (watched_stable _) hw

theorem handleNotify_owes (st : ConnState) (opcode : UInt8) (body : Bytes) (hw : w.Owes head payload) :
    InTurn cores (handleNotify st opcode body)
      (fun out w => w.Owes head payload ∧ out.2 = notifyStatus opcode body) w := by
  unfold handleNotify notifyStatus
  split
  · cases subscriptionFilter body with
    | error status => exact .owes hw rfl
    | ok filter =>
      refine Attempt.Keeps.bind (I := fun _ => Watch.Owes head payload) ?_ (watched_stable _) fun st t ht => InTurn.owes ht rfl
      exact Attempt.keeps_foldlM (fun _ => watched_stable _) (watched_stable _)
        (fun bus _ st t ht => notifyFromHead_owes st bus ht) hw
  · split
    · by_cases hbody : body = []
      · rw [if_neg (not_not.mpr hbody), if_pos hbody]
        exact .owes hw rfl
      · rw [if_pos hbody, if_neg hbody]
        exact .owes hw rfl
    · exact .owes hw rfl

theorem streamFromHead_owes (st : ConnState) (idx : ℕ) (hw : w.Owes head payload) :
    InTurn cores (streamFromHead st idx) (fun _ => Watch.Owes head payload) w := by
  unfold streamFromHead
  split
  · exact ask_unseen hw trivial (fun _ => rfl) fun _ _ hw =>
      Attempt.keeps_pure (I := fun _ => Watch.Owes head payload) (watched_stable _) hw
  · exact Attempt.keeps_pure (I := fun _ => Watch.Owes head payload) (watched_stable _) hw

theorem handleStreamCtl_owes (st : ConnState) (srv opcode : UInt8) (body : Bytes) (hw : w.Owes head payload) :
    InTurn cores (handleStreamCtl st srv opcode body)
      (fun out w => w.Owes head payload ∧ out.2 = streamCtlStatus srv opcode body) w := by
  unfold handleStreamCtl streamCtlStatus
  cases streamIndex srv with
  | none => exact .owes hw rfl
  | some idx =>
    dsimp only [Option.isSome]
    rw [if_pos rfl]
    unfold streamStatus
    by_cases hsubscribe : opcode = opSubscribe
    · rw [if_pos hsubscribe, if_pos hsubscribe]
      by_cases hlength : body.length = 1
      · rw [if_neg (not_not.mpr hlength)]
        by_cases hflags : body.getD 0 0 &&& ~~~0x07 = 0
        · rw [if_neg (not_not.mpr hflags), if_pos ⟨hlength,hflags⟩]
          refine Attempt.Keeps.bind (I := fun _ => Watch.Owes head payload) (streamFromHead_owes _ idx hw) (watched_stable _)
            fun st t ht => ?_
          split
          · exact ask_unseen ht trivial (fun _ => rfl) fun _ _ ht => InTurn.owes ht rfl
          · exact InTurn.owes ht rfl
        · rw [if_pos hflags, if_neg fun h => hflags h.2]
          exact .owes hw rfl
      · rw [if_pos hlength, if_neg fun h => hlength h.1]
        exact .owes hw rfl
    · rw [if_neg hsubscribe, if_neg hsubscribe]
      split
      · by_cases hbody : body = []
        · rw [if_neg (not_not.mpr hbody), if_pos hbody]
          exact .owes hw rfl
        · rw [if_pos hbody, if_neg hbody]
          exact .owes hw rfl
      · exact .owes hw rfl

/-- What the response to the request has to be is known. -/
def Watch.Knows (cores : Cores) (head payload : Bytes) (reply : Reply) (w : Watch) : Prop :=
  ∃ served, w.phase = .serving head payload served ∧ Answered cores payload served reply.2.1 reply.2.2.val

theorem InTurn.knows {reply : Reply} (hw : w.Owes head payload) (hanswer : Answered cores payload none reply.2.1 reply.2.2.val) :
    InTurn cores (pure reply : Conn Reply) (Watch.Knows cores head payload) w :=
  Attempt.keeps_pure (I := Watch.Knows cores head payload) (watched_stable _) ⟨none,hw,hanswer⟩

theorem serve_knows {backend : Backend} {f : ℕ × Fitting (maxPayloadSize - 6) → Conn Reply} (hrequest : isRefused payload = false)
    (hbackend : destination cores (srvOf payload) (opcodeOf payload) = some backend) (hw : w.Owes head payload)
    (hf : ∀ r w, w.phase = .serving head payload
      (some (.served backend (opcodeOf payload) (payload.drop minPayload) r.1 r.2.val)) →
        InTurn cores (f r) (Watch.Knows cores head payload) w) :
    InTurn cores (serve backend (opcodeOf payload) (payload.drop minPayload) >>= f) (Watch.Knows cores head payload) w :=
  ask_seen (fun r : ℕ × Fitting (maxPayloadSize - 6) => .served backend _ _ r.1 r.2.val) hw ⟨hrequest,hbackend,rfl,rfl⟩
    (fun _ => rfl) hf

theorem handleService_knows {backend : Backend} (st : ConnState) (hrequest : isRefused payload = false)
    (hbackend : destination cores (srvOf payload) (opcodeOf payload) = some backend) (hsession : backend ≠ .cache ∧ backend ≠ .fs)
    (hw : w.Owes head payload) :
    InTurn cores (handleService st backend (opcodeOf payload) (payload.drop minPayload)) (Watch.Knows cores head payload) w := by
  refine serve_knows hrequest hbackend hw fun r w hw => ?_
  have hbody : backend.bodyOf r.1 r.2.val = r.2.val := if_neg fun h => h.1.elim hsession.1 hsession.2
  have hanswer := Answered.served hrequest hbackend r.1 r.2.val
  rw [hbody] at hanswer
  exact Attempt.keeps_pure (I := Watch.Knows cores head payload) (watched_stable _) ⟨_,hw,hanswer⟩

theorem handleSession_knows {backend : Backend} (st : ConnState) (hrequest : isRefused payload = false)
    (hbackend : destination cores (srvOf payload) (opcodeOf payload) = some backend) (hsession : backend = .cache ∨ backend = .fs)
    (hw : w.Owes head payload) :
    InTurn cores (handleSession st backend (opcodeOf payload) (payload.drop minPayload)) (Watch.Knows cores head payload) w := by
  refine serve_knows hrequest hbackend hw fun ⟨status,answer⟩ w hw => ?_
  have hanswer := Answered.served hrequest hbackend status answer.val
  dsimp only
  split
  case isTrue hok =>
    rw [Backend.bodyOf, if_neg fun h => h.2 hok] at hanswer
    exact Attempt.keeps_pure (I := Watch.Knows cores head payload) (watched_stable _) ⟨_,hw,hanswer⟩
  case isFalse hok =>
    rw [Backend.bodyOf, if_pos ⟨hsession,hok⟩] at hanswer
    exact Attempt.keeps_pure (I := Watch.Knows cores head payload) (watched_stable _) ⟨_,hw,hanswer⟩

/-- A request that the connection answers itself. -/
theorem bare_knows {p : Conn Outcome} (hrequest : isRefused payload = false)
    (hown : destination cores (srvOf payload) (opcodeOf payload) = none)
    (h : InTurn cores p (fun out w => w.Owes head payload ∧
      out.2 = ownStatus (srvOf payload) (opcodeOf payload) (payload.drop minPayload)) w) :
    InTurn cores (bare <$> p) (Watch.Knows cores head payload) w := by
  refine Attempt.Keeps.map h (watched_stable _) (fun _ => watched_stable _) ?_
  rintro ⟨st,_⟩ w ⟨hw,rfl⟩
  exact ⟨none,hw,.own hrequest hown⟩

theorem InTurn.own (st : ConnState) {status : ℕ} (hrequest : isRefused payload = false)
    (hown : destination cores (srvOf payload) (opcodeOf payload) = none)
    (hstatus : status = ownStatus (srvOf payload) (opcodeOf payload) (payload.drop minPayload)) (hw : w.Owes head payload) :
    InTurn cores (pure (bare (st,status)) : Conn Reply) (Watch.Knows cores head payload) w :=
  .knows hw (hstatus ▸ Answered.own hrequest hown)

/-- A bus service: `core` is where its other requests go. -/
theorem handleBus_knows {core : Option Backend} (st : ConnState) (hrequest : isRefused payload = false)
    (hsession : core ≠ some .cache ∧ core ≠ some .fs)
    (hown : ∀ body, ownStatus (srvOf payload) (opcodeOf payload) body = streamCtlStatus (srvOf payload) (opcodeOf payload) body)
    (hcore : destination cores (srvOf payload) (opcodeOf payload) =
      if opcodeOf payload = opSubscribe ∨ opcodeOf payload = opUnsubscribe then none else core) (hw : w.Owes head payload) :
    InTurn cores (handleBus core st (srvOf payload) (opcodeOf payload) (payload.drop minPayload))
      (Watch.Knows cores head payload) w := by
  unfold handleBus
  split
  case isTrue hctl =>
    refine bare_knows hrequest (hcore.trans (if_pos hctl)) ?_
    rw [hown]
    exact handleStreamCtl_owes st _ _ _ hw
  case isFalse hctl =>
    rw [if_neg hctl] at hcore
    cases core with
    | some backend =>
      exact handleService_knows st hrequest hcore
        ⟨fun h => hsession.1 (congrArg some h),fun h => hsession.2 (congrArg some h)⟩ hw
    | none =>
      refine .own st hrequest hcore ?_ hw
      rw [hown, streamCtlStatus, streamStatus, if_neg fun h => hctl (Or.inl h), if_neg fun h => hctl (Or.inr h), ite_self]

theorem streamIndex_eq_none {srv : UInt8} (h2 : srv ≠ serviceI2c) (h3 : srv ≠ serviceMdio) (h4 : srv ≠ serviceSpi)
    (h5 : srv ≠ serviceUart) : streamIndex srv = none := by
  refine if_pos ?_
  simp only [← UInt8.toNat_inj.ne, UInt8.lt_iff_toNat_lt, serviceI2c, serviceMdio, serviceSpi, serviceUart, UInt8.reduceToNat] at *
  omega

section
variable {srv opcode : UInt8} {body : Bytes}

theorem destination_ping (h : srv = servicePing) : destination cores srv opcode = none := by
  simp [destination, h, servicePing, serviceMem, serviceCache, serviceFs, serviceI2c, serviceMdio]

theorem destination_notify (h : srv = serviceNotify) : destination cores srv opcode = none := by
  simp [destination, h, serviceNotify, serviceMem, serviceCache, serviceFs, serviceI2c, serviceMdio]

theorem destination_i2c (h : srv = serviceI2c) : destination cores srv opcode =
    if opcode = opSubscribe ∨ opcode = opUnsubscribe then none else if cores.i2c then some .i2c else none := by
  simp [destination, h, serviceMem, serviceCache, serviceFs, serviceI2c, serviceMdio]

theorem destination_mdio (h : srv = serviceMdio) : destination cores srv opcode =
    if opcode = opSubscribe ∨ opcode = opUnsubscribe then none else if cores.mdio then some .mdio else none := by
  simp [destination, h, serviceMem, serviceCache, serviceFs, serviceI2c, serviceMdio]

theorem destination_none (hmem : srv ≠ serviceMem) (hcache : srv ≠ serviceCache) (hfs : srv ≠ serviceFs) (hi2c : srv ≠ serviceI2c)
    (hmdio : srv ≠ serviceMdio) : destination cores srv opcode = none := by
  simp [destination, hmem, hcache, hfs, hi2c, hmdio]

theorem ownStatus_stream (hping : srv ≠ servicePing) (hnotify : srv ≠ serviceNotify) :
    ownStatus srv opcode body = streamCtlStatus srv opcode body := by
  rw [ownStatus, if_neg hping, if_neg hnotify]

end

theorem dispatchRequest_knows (st : ConnState) (hrequest : isRefused payload = false) (hw : w.Owes head payload) :
    InTurn cores (dispatchRequest cores st (srvOf payload) (opcodeOf payload) (payload.drop minPayload))
      (Watch.Knows cores head payload) w := by
  unfold dispatchRequest
  by_cases hping : srvOf payload = servicePing
  · rw [if_pos hping]
    exact .own st hrequest (destination_ping hping) (if_pos hping).symm hw
  rw [if_neg hping]
  by_cases hmem : srvOf payload = serviceMem
  · rw [if_pos hmem]
    exact handleService_knows st hrequest (if_pos hmem) ⟨Backend.noConfusion,Backend.noConfusion⟩ hw
  rw [if_neg hmem]
  by_cases hcache : srvOf payload = serviceCache
  · rw [if_pos hcache]
    exact handleSession_knows st hrequest ((if_neg hmem).trans (if_pos hcache)) (Or.inl rfl) hw
  rw [if_neg hcache]
  by_cases hfs : srvOf payload = serviceFs
  · rw [if_pos hfs]
    exact handleSession_knows st hrequest ((if_neg hmem).trans ((if_neg hcache).trans (if_pos hfs))) (Or.inr rfl) hw
  rw [if_neg hfs]
  by_cases hnotify : srvOf payload = serviceNotify
  · rw [if_pos hnotify]
    refine bare_knows hrequest (destination_notify hnotify) ?_
    rw [ownStatus, if_neg hping, if_pos hnotify]
    exact handleNotify_owes st _ _ hw
  rw [if_neg hnotify]
  have hown : ∀ body, ownStatus (srvOf payload) (opcodeOf payload) body = streamCtlStatus (srvOf payload) (opcodeOf payload) body :=
    fun body => ownStatus_stream hping hnotify
  by_cases hi2c : srvOf payload = serviceI2c
  · rw [if_pos hi2c]
    exact handleBus_knows st hrequest (by cases cores.i2c <;> decide) hown (destination_i2c hi2c) hw
  rw [if_neg hi2c]
  by_cases hmdio : srvOf payload = serviceMdio
  · rw [if_pos hmdio]
    exact handleBus_knows st hrequest (by cases cores.mdio <;> decide) hown (destination_mdio hmdio) hw
  rw [if_neg hmdio]
  have hnone : destination cores (srvOf payload) (opcodeOf payload) = none := destination_none hmem hcache hfs hi2c hmdio
  have hbus : InTurn cores (handleBus none st (srvOf payload) (opcodeOf payload) (payload.drop minPayload))
      (Watch.Knows cores head payload) w :=
    handleBus_knows st hrequest (by decide) hown (hnone.trans (ite_self none).symm) hw
  by_cases hspi : srvOf payload = serviceSpi
  · rw [if_pos hspi]
    exact hbus
  rw [if_neg hspi]
  by_cases huart : srvOf payload = serviceUart
  · rw [if_pos huart]
    exact hbus
  rw [if_neg huart]
  refine .own st hrequest hnone ?_ hw
  rw [hown, streamCtlStatus, streamIndex_eq_none hi2c hmdio hspi huart]
  rfl

theorem handleFrame_inTurn (st : ConnState) (hlength : minPayload ≤ payload.length) (hw : w.Owes head payload) :
    InTurn cores (handleFrame cores st payload) (fun _ => Watch.Rests) w := by
  unfold handleFrame
  rw [if_neg (Nat.not_lt.mpr hlength)]
  by_cases hrefused : isRefused payload = true
  · rw [if_pos hrefused]
    exact (refuse_inTurn hrefused hw).bind (watched_stable _) fun _ t ht => InTurn.rests ht st
  · rw [if_neg hrefused]
    have hrequest := Bool.eq_false_iff.mpr hrefused
    refine (dispatchRequest_knows st hrequest hw).bind (watched_stable _) ?_
    rintro ⟨st,status,answer⟩ t ⟨served,ht,hanswer⟩
    exact (sendResponse_inTurn hrequest hanswer answer.property ht).bind (watched_stable _) fun _ t ht => InTurn.rests ht st

/-! ### The connection -/

theorem announced_ge {head : Bytes} {n : ℕ} (h : announced head = some n) : minPayload ≤ n := by
  unfold announced at h
  dsimp only at h
  split at h
  case isTrue => cases h
  case isFalse hgood =>
    obtain rfl := Option.some.inj h
    exact Nat.not_lt.mp fun hlt => hgood (Or.inr (Or.inr (Or.inl hlt)))

theorem readPayload_inTurn (st : ConnState) {n : ℕ} (hn : announced head = some n) (hw : w.phase = .header head) :
    InTurn cores (readPayload n >>= fun payload => payload.getM >>= fun payload => handleFrame cores st payload.val)
      (fun _ => Watch.Rests) w := by
  refine ask_seen (fun r : Option (Block n) => .payload (r.map Subtype.val)) hw hn (fun _ => rfl) ?_
  rintro (_ | payload) w hw
  · exact .ended ⟨_,hw⟩
  · exact handleFrame_inTurn st ((announced_ge hn).trans payload.property.ge) hw

theorem receive_inTurn (st : ConnState) (hw : w.Rests) : InTurn cores (receive cores st) (fun _ => Watch.Rests) w := by
  refine ask_seen (fun r : Option (Block headerSize) => .header (r.map Subtype.val)) hw trivial (fun _ => rfl) ?_
  rintro (_ | header) w hw
  · exact .ended ⟨_,hw⟩
  · change w.phase = if (announced header.val).isSome then .header header.val else .closed [.header (some header.val)] at hw
    change InTurn cores ((announced header.val).getM >>= fun n => readPayload n >>= fun payload =>
      payload.getM >>= fun payload => handleFrame cores st payload.val) _ w
    cases hn : announced header.val with
    | none =>
      rw [hn] at hw
      exact .ended ⟨_,hw⟩
    | some n =>
      rw [hn] at hw
      exact readPayload_inTurn st hn hw

theorem turn_inTurn (st : ConnState) (hw : w.Rests) : InTurn cores (turn cores st) (fun _ => Watch.Rests) w := by
  refine (drain_restful st w hw).bind (watched_stable _) fun st t ht => ?_
  refine Attempt.keeps_ask_bind (P := Watch.Rests) (watched_stable _) ht
    (fun w hw => (congrArg (mayAsk cores · _) hw).mpr trivial) ?_
  rintro w (_ | _ | _) _ hw rfl
  · exact InTurn.ended ⟨_,congrArg (fun phase => (Phase.next phase .waitFailed).2) hw⟩
  · exact InTurn.rests hw st
  · exact receive_inTurn st hw

/-- A connection that has returned is over. -/
theorem serveClient_safe (turns : ℕ) (st : ConnState) (hw : w.Rests) :
    (serveClient cores turns st).Safe (watchedConn cores) (fun r w => r = some () → w.Ended) w := by
  induction turns generalizing st w with
  | zero => exact Program.safe_unfinished (watched_stable _) fun h => by cases h
  | succ turns ih =>
    refine Program.Safe.bind (turn_inTurn st hw) (fun _ _ h => by cases h) ?_
    rintro (_ | st) w hw
    · exact Program.safe_pure (watched_stable _) fun _ => hw
    · exact ih st hw

theorem noteLine_lines (w : Watch) (exchange : Exchange Answer) :
    (noteLine w exchange).lines = w.lines ++ (lineOf exchange).toList := by
  unfold noteLine
  cases lineOf exchange with
  | none => exact (List.append_nil _).symm
  | some line => exact w.see_lines line

theorem foldl_noteLine_lines (log : List (Exchange Answer)) (w : Watch) :
    (log.foldl noteLine w).lines = w.lines ++ log.filterMap lineOf := by
  induction log generalizing w with
  | nil => exact (List.append_nil _).symm
  | cons exchange log ih =>
    rw [List.foldl_cons, ih, noteLine_lines, List.append_assoc, List.filterMap_cons]
    cases lineOf exchange <;> rfl

/-- The turns of a watch are sound. -/
def Watch.Sound (cores : Cores) (w : Watch) : Prop := (∀ turn ∈ w.turns, turn.Sound cores) ∧ w.phase.Sound cores

theorem noteLine_sound {c : Call} {r : Answer c} (hw : w.Sound cores) (hask : mayAsk cores w.phase c) :
    (noteLine w ⟨c,r⟩).Sound cores := by
  unfold noteLine
  cases hline : lineOf ⟨c,r⟩ with
  | none => exact hw
  | some line =>
    obtain ⟨hturns,hphase⟩ := Phase.next_sound hw.2 hask hline
    refine ⟨fun turn hmem => ?_,hphase⟩
    rcases List.mem_append.mp hmem with h | h
    · exact hw.1 turn h
    · exact hturns turn h

/-- Whatever a connection has met with so far, it has been a row of turns, the last of which may be
under way. Each request has been carried out at most once and answered once, in order, with its own
number. When the connection has returned, its last turn has broken off. -/
theorem handleClient_turns {turns : ℕ} {log : List (Exchange Answer)} {q : Program Call Answer Unit}
    (h : (handleClient cores turns).Reaches log q) : ∃ (done : List Turn) (phase : Phase),
      log.filterMap lineOf = done.flatMap Turn.lines ++ phase.lines ∧
      (∀ turn ∈ done, turn.Sound cores) ∧ phase.Sound cores ∧ (q = .done () → ∃ lines, phase = .closed lines) := by
  have hsafe : (handleClient cores turns).Safe (watchedConn cores) (fun r w => r = some () → w.Ended) ⟨[],.rest⟩ :=
    serveClient_safe turns .zero rfl
  have hruns : (watchedConn cores).Runs (handleClient cores turns) ⟨[],.rest⟩ log q (log.foldl noteLine ⟨[],.rest⟩) :=
    Program.Reaches.watched h _
  have hsound : (log.foldl noteLine ⟨[],.rest⟩).Sound cores := by
    refine hsafe.runs_keep (watched_stable _) ?_ ⟨List.forall_mem_nil _,trivial⟩ hruns
    rintro w c r _ hw hask rfl
    exact noteLine_sound hw hask
  refine ⟨_,_,?_,hsound.1,hsound.2,?_⟩
  · exact ((foldl_noteLine_lines log ⟨[],.rest⟩).trans (List.nil_append _)).symm
  · rintro rfl
    exact hsafe.runs hruns _ .refl rfl

/-- A client that asks whether somebody is there. -/
def pingLog : List (Exchange Answer) :=
  [⟨.expireFiles,()⟩,⟨.cacheEvent,⟨[],Nat.zero_le _⟩⟩,⟨.waitReadable,.ready⟩,⟨.readHeader,some ⟨magic ++ [0,2,0,4],rfl⟩⟩,
    ⟨.readPayload 4,some ⟨[0,0,0,1],rfl⟩⟩,⟨.write (magic ++ [0,2,0,6,0,0x80,0,1,0,0]),true⟩]

theorem handleClient_turns_ping : ∃ (done : List Turn) (phase : Phase),
    pingLog.filterMap lineOf = done.flatMap Turn.lines ++ phase.lines ∧ (∀ turn ∈ done, turn.Sound ⟨true,true⟩) ∧
      phase.Sound ⟨true,true⟩ ∧ ((.unfinished : Program Call Answer Unit) = .done () → ∃ lines, phase = .closed lines) := by
  have h : (handleClient ⟨true,true⟩ 1).Reaches pingLog .unfinished := .ask (.ask (.ask (.ask (.ask (.ask (.here _))))))
  exact handleClient_turns h

end Bvstk.Dcp2.Server
