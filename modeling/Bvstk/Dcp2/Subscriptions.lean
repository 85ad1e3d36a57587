import Bvstk.Dcp2.ConnectionTurns
import Bvstk.Events.JournalAccounting
import Bvstk.Library.LogReader

/-! # What a client is told of

Events are published at any time, also while a connection sends others or handles a request. What
its client is told since it subscribed accounts for all of them, each once and in order: an event
is sent, or the filter does not want it, or it is among those whose number is sent as lost.
-/
namespace Bvstk.Dcp2.Server
open Dialogue Wire Events LogReader

/-! ## Reading the journal -/

/-- `bvstk_observer_publish`: unconfirmed observations are dropped. -/
def observerPublish (j : Journal) (e : Event) : Journal :=
  if e.flags &&& eventFlagTelemetryUnconfirmed ≠ 0 ∧ eventIsTelemetry e.type = true then j else journalPublish j e

/-- The records are the entries of the log from some place on. -/
def Follow (log : List Event) : (start : ℕ) → List JournalRecord → Prop
  | _, [] => True
  | p, record :: records => record.sequence = p + 1 ∧ log[p]? = some record.event ∧ Follow log (p + 1) records

theorem Follow.grow {log log' : List Event} (hgrow : log <+: log') {p : ℕ} {records : List JournalRecord}
    (h : Follow log p records) : Follow log' p records := by
  induction records generalizing p with
  | nil => trivial
  | cons record records ih =>
    obtain ⟨hsequence,hentry,hrest⟩ := h
    refine ⟨hsequence,?_,ih hrest⟩
    obtain ⟨hlt,_⟩ := List.getElem?_eq_some_iff.mp hentry
    obtain ⟨more,rfl⟩ := hgrow
    rw [List.getElem?_append_left hlt, hentry]

theorem follow_window {r : JournalRing} {log : List Event} (hr : RingOf r log) (p k : ℕ) (hk : p + k ≤ log.length)
    (hkept : log.length ≤ p + journalCapacity) : Follow log p (window r.entries (-1) p k) := by
  induction k generalizing p with
  | zero => trivial
  | succ k ih =>
    rw [window_succ]
    refine ⟨rfl,hr.2 p (by omega) hkept,?_⟩
    exact ih (p + 1) (by omega) (by omega)

theorem length_window (entries : ℕ → Event) (p k : ℕ) : (window entries (-1) p k).length = k := by
  induction k generalizing p with
  | zero => rfl
  | succ k ih =>
    rw [window_succ]
    exact congrArg Nat.succ (ih (p + 1))

/-- What a read gives: how many entries of the log are lost, and those that follow. A batch that is
not full goes to the end. -/
structure Batch (log : List Event) (cursor : ℕ) (batch : JournalBatch) : Prop where
  forgotten : batch.lost = 0 ∨ cursor + batch.lost + journalCapacity ≤ log.length
  records : Follow log (cursor + batch.lost) batch.records
  next : batch.next = cursor + batch.lost + batch.records.length
  full : batch.records.length < journalBatch → batch.next = log.length

theorem read_batch {r : JournalRing} {log : List Event} (hr : RingOf r log) (hlog : log.length < journalHistory)
    {cursor : ℕ} (hcursor : cursor ≤ log.length) : Batch log cursor (r.read (-1) cursor) := by
  have hhead : r.head = log.length := hr.1
  have hresume : r.resume cursor = (cursor,false) := by
    unfold JournalRing.resume
    rw [if_neg (by omega), if_neg (by omega)]
  have hfirst : r.first = if journalCapacity < log.length then log.length - journalCapacity else 0 := by
    rw [JournalRing.first, hhead]
  obtain ⟨lost,hlost⟩ : ∃ lost, lost = if cursor < r.first then r.first - cursor else 0 := ⟨_,rfl⟩
  have horigin : (if cursor < r.first then r.first else cursor) = cursor + lost := by
    rw [hlost]
    split_ifs <;> omega
  have hplace : (lost = 0 ∨ cursor + lost + journalCapacity ≤ log.length) ∧ cursor + lost ≤ log.length ∧
      log.length ≤ cursor + lost + journalCapacity := by
    rw [hlost, hfirst]
    split_ifs <;> omega
  obtain ⟨k,hk,hscan,hfull⟩ := scan_eq_window r.entries (-1) (r.head - (cursor + lost)) (cursor + lost) 0
  rw [hhead] at hk hfull
  rw [length_window, Nat.zero_add] at hfull
  have hread : r.read (-1) cursor = ⟨cursor + lost + k,r.head,lost,false,window r.entries (-1) (cursor + lost) k⟩ := by
    unfold JournalRing.read
    simp only [hresume, horigin, hscan, ← hlost]
  rw [hread]
  have hend : cursor + lost + k ≤ log.length := by omega
  refine ⟨hplace.1,follow_window hr _ k hend hplace.2.2,?_,fun hshort => ?_⟩
  · exact congrArg (cursor + lost + ·) (length_window r.entries _ k).symm
  · rw [length_window] at hshort
    change cursor + lost + k = log.length
    omega

/-- Nothing is lost without a record after it. -/
theorem Batch.lost_eq_zero {log : List Event} {cursor : ℕ} {batch : JournalBatch} (h : Batch log cursor batch)
    (hnil : batch.records = []) : batch.lost = 0 := by
  have hnext := h.next
  have hfull := h.full
  rw [hnil] at hnext hfull
  have hend := hfull (by decide)
  rw [List.length_nil, Nat.add_zero] at hnext
  refine h.forgotten.resolve_right fun hle => ?_
  rw [journalCapacity] at hle
  omega

/-! ## What a client hears -/

/-- The journal and all that was ever put into its rings, what the client has subscribed to, from
where on, and the bodies of the events it has been sent since. -/
structure Scene where
  journal : Journal
  logs : ℕ → ℕ → List Event
  notify : Option NotifyFilter
  notifySince : ℕ → ℕ
  notified : List Bytes
  stream : ℕ → Option UInt8
  streamSince : ℕ → ℕ
  streamed : ℕ → List Bytes

/-- The ring that an observed event goes to. -/
def observedRoute (e : Event) : Option (ℕ × ℕ) :=
  if e.flags &&& eventFlagTelemetryUnconfirmed ≠ 0 ∧ eventIsTelemetry e.type = true then none else route e

def Scene.publish (s : Scene) (e : Event) : Scene :=
  { s with
    journal := observerPublish s.journal e
    logs := match observedRoute e with
      | none => s.logs
      | some (bus,channel) => Function.update s.logs bus (Function.update (s.logs bus) channel (s.logs bus channel ++ [e])) }

/-- A request to subscribe or to unsubscribe that will be accepted starts afresh. -/
def Scene.request (s : Scene) (payload : Bytes) : Scene :=
  let opcode := opcodeOf payload
  let body := payload.drop minPayload
  if isRefused payload then s
  else if srvOf payload = serviceNotify then
    if opcode = opSubscribe then
      match subscriptionFilter body with
      | .error _ => s
      | .ok filter => { s with notify := some filter, notified := [] }
    else if opcode = opUnsubscribe ∧ body = [] then { s with notify := none, notified := [] }
    else s
  else
    match streamIndex (srvOf payload) with
    | none => s
    | some idx =>
      if streamStatus opcode body = statusOk then
        { s with
          stream := Function.update s.stream idx (if opcode = opSubscribe then some (body.getD 0 0) else none)
          streamed := Function.update s.streamed idx [] }
      else s

/-- A frame that the client gets. -/
def Scene.hear (s : Scene) (frame : Bytes) : Scene :=
  let srv := frame.getD 8 0
  let body := frame.drop 12
  if frame.getD 9 0 ≠ opEvent ||| opSubscribe then s
  else if srv = serviceNotify then { s with notified := s.notified ++ [body] }
  else
    match streamIndex srv with
    | none => s
    | some idx => { s with streamed := Function.update s.streamed idx (s.streamed idx ++ [body]) }

/-- What the client and the journal are left with. -/
def Scene.note (s : Scene) : Exchange Answer → Scene
  | ⟨.readPayload _,some payload⟩ => s.request payload.val
  | ⟨.observerHead bus channel,head⟩ =>
    if channel = channelEvents then { s with notifySince := Function.update s.notifySince bus head }
    else { s with streamSince := Function.update s.streamSince bus head }
  | ⟨.write frame,true⟩ => s.hear frame
  | _ => s

/-- The journal tells the truth; everything else may answer anything. -/
def Scene.Allows (s : Scene) : Exchange Answer → Prop
  | ⟨.observerRead bus channel after,batch⟩ => batch = journalRead s.journal bus channel (-1) after
  | ⟨.observerHead bus channel,head⟩ => head = (s.journal.rings bus channel).head
  | _ => True

/-- What is said of the events of a bus to a subscriber with this filter. -/
def notifyVoice (f : NotifyFilter) : Voice ℕ Event Bytes
  | bus, missed, none, out =>
    f.busMask &&& bit bus ≠ 0 ∧ 0 < missed ∧ ∃ now, out = [notifyBody f.flags (lostEvent now bus missed)]
  | bus, missed, some (_,e), out =>
    f.busMask &&& bit bus ≠ 0 ∧ missed = 0 ∧ out = if f.accepts e then [notifyBody f.flags e] else []

/-- What is said in a stream: an observation with its number and with what was lost before it.
Synthetic events are marked. -/
def streamVoice (srv flags : UInt8) : Voice Unit Event Bytes
  | _, missed, none, out =>
    missed = 0 ∧ ∃ event : SimEvent, event.service = srv ∧ event.evFlags &&& 0x04 ≠ 0 ∧ out = [streamBody flags event]
  | _, missed, some (p,e), out => out = [streamBody flags (telemetryEvent srv missed ⟨p + 1,e⟩)]

/-- The service of a stream. -/
def streamService (idx : ℕ) : UInt8 := serviceI2c + UInt8.ofNat idx

/-- All that the client has been told since it subscribed is the account of what was published. -/
structure Scene.Told (s : Scene) : Prop where
  notSubscribed : s.notify = none → s.notified = []
  notified : ∀ f, s.notify = some f → ∃ pos,
    Account journalCapacity (notifyVoice f) (fun bus => s.logs bus channelEvents) s.notifySince pos s.notified
  notStreamed : ∀ idx, s.stream idx = none → s.streamed idx = []
  streamed : ∀ idx flags, s.stream idx = some flags → ∃ pos, Account journalCapacity (streamVoice (streamService idx) flags)
    (fun _ => s.logs idx channelTelemetry) (fun _ => s.streamSince idx) pos (s.streamed idx)

/-- The rings are what was put into them; their heads stay below the number that stands for the history. -/
def Scene.Rings (s : Scene) : Prop := ∀ bus < journalBuses, ∀ channel < 2,
  RingOf (s.journal.rings bus channel) (s.logs bus channel) ∧ (s.logs bus channel).length < journalHistory

/-- A connection among tasks that publish. -/
def publishing : Setting Answer Scene where
  asks s _ := s.Told
  moves s s' := ∃ e, s' = s.publish e ∧ ∀ bus channel, (s'.logs bus channel).length < journalHistory
  answers s c r s' := s.Allows ⟨c,r⟩ ∧ s' = s.note ⟨c,r⟩

/-! ## What the connection knows -/

/-- The subscription to notifications and the cursors: what was said of these logs. -/
def NotifyAt (logs : ℕ → List Event) (notify : Option NotifyFilter) (since : ℕ → ℕ) (said : List Bytes) :
    Option (NotifyFilter × (ℕ → ℕ)) → Prop
  | none => notify = none ∧ said = []
  | some (f,cursor) => notify = some f ∧ (∀ bus < journalBuses, cursor bus ≤ (logs bus).length) ∧
      ∃ pos, (∀ bus < journalBuses, pos bus = cursor bus) ∧ Account journalCapacity (notifyVoice f) logs since pos said

/-- One stream and its cursor. -/
def StreamAt (idx : ℕ) (log : List Event) (stream : Option UInt8) (since : ℕ) (said : List Bytes) :
    Option (UInt8 × ℕ) → Prop
  | none => stream = none ∧ said = []
  | some (flags,cursor) => stream = some flags ∧ (idx < journalBuses → cursor ≤ log.length) ∧
      ∃ pos, (idx < journalBuses → pos () = cursor) ∧
        Account journalCapacity (streamVoice (streamService idx) flags) (fun _ => log) (fun _ => since) pos said

/-- The client has been told of everything up to these cursors. -/
structure ToldUpTo (notify : Option (NotifyFilter × (ℕ → ℕ))) (stream : ℕ → Option (UInt8 × ℕ)) (s : Scene) : Prop where
  rings : s.Rings
  notify : NotifyAt (fun bus => s.logs bus channelEvents) s.notify s.notifySince s.notified notify
  stream : ∀ idx, StreamAt idx (s.logs idx channelTelemetry) (s.stream idx) (s.streamSince idx) (s.streamed idx) (stream idx)

theorem NotifyAt.told {logs : ℕ → List Event} {notify : Option NotifyFilter} {since : ℕ → ℕ} {said : List Bytes}
    {cursor : Option (NotifyFilter × (ℕ → ℕ))} (h : NotifyAt logs notify since said cursor) :
    (notify = none → said = []) ∧ ∀ f, notify = some f → ∃ pos, Account journalCapacity (notifyVoice f) logs since pos said := by
  rcases cursor with _ | ⟨g,cursor⟩
  · exact ⟨fun _ => h.2,fun f hf => absurd (hf.symm.trans h.1) (Option.some_ne_none f)⟩
  · obtain ⟨hg,_,pos,_,haccount⟩ := h
    refine ⟨fun hnone => absurd (hg.symm.trans hnone) (Option.some_ne_none g),fun f hf => ?_⟩
    obtain rfl := Option.some.inj (hf.symm.trans hg)
    exact ⟨pos,haccount⟩

theorem StreamAt.told {idx : ℕ} {log : List Event} {stream : Option UInt8} {since : ℕ} {said : List Bytes}
    {cursor : Option (UInt8 × ℕ)} (h : StreamAt idx log stream since said cursor) :
    (stream = none → said = []) ∧ ∀ flags, stream = some flags → ∃ pos,
      Account journalCapacity (streamVoice (streamService idx) flags) (fun _ => log) (fun _ => since) pos said := by
  rcases cursor with _ | ⟨flags',cursor⟩
  · exact ⟨fun _ => h.2,fun flags hflags => absurd (hflags.symm.trans h.1) (Option.some_ne_none flags)⟩
  · obtain ⟨hflags',_,pos,_,haccount⟩ := h
    refine ⟨fun hnone => absurd (hflags'.symm.trans hnone) (Option.some_ne_none flags'),fun flags hflags => ?_⟩
    obtain rfl := Option.some.inj (hflags.symm.trans hflags')
    exact ⟨pos,haccount⟩

theorem ToldUpTo.told {notify : Option (NotifyFilter × (ℕ → ℕ))} {stream : ℕ → Option (UInt8 × ℕ)} {s : Scene}
    (h : ToldUpTo notify stream s) : s.Told :=
  ⟨h.notify.told.1,h.notify.told.2,fun idx => (h.stream idx).told.1,fun idx => (h.stream idx).told.2⟩

/-! ### While others publish -/

theorem Scene.publish_prefix (s : Scene) (e : Event) (bus channel : ℕ) :
    s.logs bus channel <+: (s.publish e).logs bus channel := by
  unfold Scene.publish
  dsimp only
  cases observedRoute e with
  | none => exact List.prefix_rfl
  | some target =>
    obtain ⟨bus',channel'⟩ := target
    dsimp only
    rcases eq_or_ne bus bus' with rfl | hbus
    · rw [Function.update_self]
      rcases eq_or_ne channel channel' with rfl | hchannel
      · rw [Function.update_self]
        exact List.prefix_append _ _
      · rw [Function.update_of_ne hchannel]
    · rw [Function.update_of_ne hbus]

theorem Scene.length_publish (s : Scene) (e : Event) (bus channel : ℕ) :
    ((s.publish e).logs bus channel).length ≤ (s.logs bus channel).length + 1 := by
  unfold Scene.publish
  dsimp only
  cases observedRoute e with
  | none => exact Nat.le_succ _
  | some target =>
    obtain ⟨bus',channel'⟩ := target
    dsimp only
    rcases eq_or_ne bus bus' with rfl | hbus
    · rw [Function.update_self]
      rcases eq_or_ne channel channel' with rfl | hchannel
      · rw [Function.update_self, List.length_append, List.length_singleton]
      · rw [Function.update_of_ne hchannel]
        exact Nat.le_succ _
    · rw [Function.update_of_ne hbus]
      exact Nat.le_succ _

theorem Scene.publish_rings {s : Scene} {e : Event} (hs : s.Rings)
    (hbound : ∀ bus channel, ((s.publish e).logs bus channel).length < journalHistory) : (s.publish e).Rings := by
  intro bus hbus channel hchannel
  refine ⟨?_,hbound bus channel⟩
  have hbound := hbound bus channel
  have hring := (hs bus hbus channel hchannel).1
  unfold Scene.publish observerPublish observedRoute at *
  dsimp only at *
  split_ifs at * with hdropped
  · exact hring
  · unfold journalPublish
    cases hroute : route e with
    | none => exact hring
    | some target =>
      obtain ⟨bus',channel'⟩ := target
      rw [hroute] at hbound
      dsimp only at hbound ⊢
      rcases eq_or_ne bus bus' with rfl | hne
      · rw [Function.update_self, Function.update_self]
        rw [Function.update_self] at hbound
        rcases eq_or_ne channel channel' with rfl | hne
        · rw [Function.update_self, Function.update_self]
          rw [Function.update_self, List.length_append] at hbound
          exact hring.push hbound e
        · rw [Function.update_of_ne hne, Function.update_of_ne hne]
          exact hring
      · rw [Function.update_of_ne hne, Function.update_of_ne hne]
        exact hring

theorem NotifyAt.grow {logs logs' : ℕ → List Event} {notify : Option NotifyFilter} {since : ℕ → ℕ} {said : List Bytes}
    {cursor : Option (NotifyFilter × (ℕ → ℕ))} (h : NotifyAt logs notify since said cursor) (hgrow : ∀ bus, logs bus <+: logs' bus) :
    NotifyAt logs' notify since said cursor := by
  rcases cursor with _ | ⟨f,cursor⟩
  · exact h
  · obtain ⟨hf,hcursor,pos,hpos,haccount⟩ := h
    exact ⟨hf,fun bus hbus => Nat.le_trans (hcursor bus hbus) (hgrow bus).length_le,pos,hpos,haccount.grow hgrow⟩

theorem StreamAt.grow {idx : ℕ} {log log' : List Event} {stream : Option UInt8} {since : ℕ} {said : List Bytes}
    {cursor : Option (UInt8 × ℕ)} (h : StreamAt idx log stream since said cursor) (hgrow : log <+: log') :
    StreamAt idx log' stream since said cursor := by
  rcases cursor with _ | ⟨flags,cursor⟩
  · exact h
  · obtain ⟨hflags,hcursor,pos,hpos,haccount⟩ := h
    exact ⟨hflags,fun hidx => Nat.le_trans (hcursor hidx) hgrow.length_le,pos,hpos,haccount.grow fun _ => hgrow⟩

theorem toldUpTo_stable (notify : Option (NotifyFilter × (ℕ → ℕ))) (stream : ℕ → Option (UInt8 × ℕ)) :
    publishing.Stable (ToldUpTo notify stream) := by
  rintro s _ ⟨e,rfl,hbound⟩ h
  exact ⟨Scene.publish_rings h.rings hbound,h.notify.grow fun bus => s.publish_prefix e bus _,
    fun idx => (h.stream idx).grow (s.publish_prefix e idx _)⟩

/-! ### When a frame is sent -/

theorem frameOf_eq {payload : Bytes} (h : payload.length ≤ maxPayloadSize) :
    frameOf payload = frameHeader (UInt16.ofNat payload.length) ++ payload := by
  have hlen : (UInt16.ofNat payload.length).toNat = payload.length :=
    UInt16.toNat_ofNat_of_lt' (Nat.lt_of_le_of_lt h (by decide))
  unfold frameOf
  dsimp only
  rw [hlen, List.take_length]

theorem eventPayload_fits (srv opcode : UInt8) {body : Bytes} (hbody : body.length ≤ maxPayloadSize - 4) :
    (eventPayload srv opcode body).length ≤ maxPayloadSize := by
  rw [eventPayload_length]
  exact Nat.add_le_of_le_sub' (by decide) hbody

theorem hear_notify (s : Scene) {body : Bytes} (hbody : body.length ≤ maxPayloadSize - 4) :
    s.hear (frameOf (eventPayload serviceNotify opSubscribe body)) = { s with notified := s.notified ++ [body] } := by
  rw [frameOf_eq (eventPayload_fits _ _ hbody)]
  rfl

theorem hear_stream (s : Scene) {srv : UInt8} {idx : ℕ} {body : Bytes} (hidx : streamIndex srv = some idx)
    (hbody : body.length ≤ maxPayloadSize - 4) : s.hear (frameOf (eventPayload srv opSubscribe body)) =
      { s with streamed := Function.update s.streamed idx (s.streamed idx ++ [body]) } := by
  have hsrv : srv ≠ serviceNotify := fun h => by
    rw [h] at hidx
    cases hidx
  rw [frameOf_eq (eventPayload_fits _ _ hbody)]
  change (if srv = serviceNotify then _ else match streamIndex srv with
    | none => s
    | some idx => { s with streamed := Function.update s.streamed idx (s.streamed idx ++ [body]) }) = _
  rw [if_neg hsrv, hidx]

theorem hear_cache (s : Scene) {body : Bytes} (hbody : body.length ≤ maxPayloadSize - 4) :
    s.hear (frameOf (eventPayload serviceCache opCacheSubscribe body)) = s := by
  rw [frameOf_eq (eventPayload_fits _ _ hbody)]
  rfl

theorem hear_response (s : Scene) {srv opcode : UInt8} {seq : UInt16} {status : ℕ} {body : Bytes}
    (hbody : body.length ≤ maxPayloadSize - 6) : s.hear (frameOf (responsePayload srv opcode seq status body)) = s := by
  rw [frameOf_eq (responsePayload_fits _ _ _ _ hbody)]
  refine if_pos fun h => ?_
  have hbit := congrArg (fun op : UInt8 => op.toBitVec.getLsbD 7) h
  simp [opResponse, opEvent, opSubscribe, opMask, responsePayload, frameHeader, magic, beBytes] at hbit

section
variable {f : NotifyFilter} {cursor : ℕ → ℕ} {stream : ℕ → Option (UInt8 × ℕ)} {s : Scene} {bus : ℕ} {e : Event}

/-- A step of the account of notifications. -/
theorem ToldUpTo.notify_miss (h : ToldUpTo (some (f,cursor)) stream s) (hmask : f.busMask &&& bit bus ≠ 0) {missed : ℕ}
    (hmissed : 0 < missed) (hbus : bus < journalBuses)
    (hforgotten : cursor bus + missed + journalCapacity ≤ (s.logs bus channelEvents).length) (now : UInt32) :
    ToldUpTo (some (f,Function.update cursor bus (cursor bus + missed))) stream
      { s with notified := s.notified ++ [notifyBody f.flags (lostEvent now bus missed)] } := by
  obtain ⟨hrings,⟨hf,hcursor,pos,hpos,haccount⟩,hstream⟩ := h
  refine ⟨hrings,⟨hf,fun b hb => ?_,Function.update pos bus (pos bus + missed),fun b hb => ?_,?_⟩,hstream⟩
  · rcases eq_or_ne b bus with rfl | hne
    · rw [Function.update_self]
      exact Nat.le_trans (Nat.le_add_right _ _) hforgotten
    · rw [Function.update_of_ne hne]
      exact hcursor b hb
  · rcases eq_or_ne b bus with rfl | hne
    · rw [Function.update_self, Function.update_self, hpos b hb]
    · rw [Function.update_of_ne hne, Function.update_of_ne hne, hpos b hb]
  · exact .miss haccount (Or.inr (by rw [hpos bus hbus]; exact hforgotten)) ⟨hmask,hmissed,now,rfl⟩

theorem ToldUpTo.notify_pass (h : ToldUpTo (some (f,cursor)) stream s) (hmask : f.busMask &&& bit bus ≠ 0)
    (hbus : bus < journalBuses) (hentry : (s.logs bus channelEvents)[cursor bus]? = some e) :
    ToldUpTo (some (f,Function.update cursor bus (cursor bus + 1))) stream
      { s with notified := s.notified ++ if f.accepts e then [notifyBody f.flags e] else [] } := by
  obtain ⟨hrings,⟨hf,hcursor,pos,hpos,haccount⟩,hstream⟩ := h
  refine ⟨hrings,⟨hf,fun b hb => ?_,Function.update pos bus (pos bus + 0 + 1),fun b hb => ?_,?_⟩,hstream⟩
  · rcases eq_or_ne b bus with rfl | hne
    · rw [Function.update_self]
      exact (List.getElem?_eq_some_iff.mp hentry).1
    · rw [Function.update_of_ne hne]
      exact hcursor b hb
  · rcases eq_or_ne b bus with rfl | hne
    · rw [Function.update_self, Function.update_self, hpos b hb]
    · rw [Function.update_of_ne hne, Function.update_of_ne hne, hpos b hb]
  · exact .pass haccount (Or.inl rfl) (by rw [hpos bus hbus]; exact hentry) ⟨hmask,rfl,rfl⟩

end

theorem streamService_eq {srv : UInt8} {idx : ℕ} (h : streamIndex srv = some idx) : streamService idx = srv := by
  unfold streamIndex at h
  split at h
  case isTrue => cases h
  case isFalse =>
    obtain rfl := Option.some.inj h
    unfold streamService
    rw [UInt8.ofNat_toNat, UInt8.add_comm, UInt8.sub_add_cancel]

section
variable {notify : Option (NotifyFilter × (ℕ → ℕ))} {stream : ℕ → Option (UInt8 × ℕ)} {s : Scene} {idx cursor : ℕ} {flags : UInt8}

theorem ToldUpTo.stream_synthetic (h : ToldUpTo notify stream s) (hstream : stream idx = some (flags,cursor)) {event : SimEvent}
    (hservice : event.service = streamService idx) (hmark : event.evFlags &&& 0x04 ≠ 0) : ToldUpTo notify stream
      { s with streamed := Function.update s.streamed idx (s.streamed idx ++ [streamBody flags event]) } := by
  refine ⟨h.rings,h.notify,fun i => ?_⟩
  have hi := h.stream i
  rcases eq_or_ne i idx with rfl | hne
  · rw [hstream] at hi ⊢
    obtain ⟨hflags,hcursor,pos,hpos,haccount⟩ := hi
    refine ⟨hflags,hcursor,Function.update pos () (pos () + 0),fun hidx => ?_,?_⟩
    · rw [Function.update_self]
      exact hpos hidx
    · dsimp only
      rw [Function.update_self]
      exact .miss haccount (Or.inl rfl) ⟨rfl,event,hservice,hmark,rfl⟩
  · dsimp only
    rw [Function.update_of_ne hne]
    exact hi

theorem ToldUpTo.stream_record (h : ToldUpTo notify stream s) (hstream : stream idx = some (flags,cursor)) (hidx : idx < journalBuses)
    {missed : ℕ} (hforgotten : missed = 0 ∨ cursor + missed + journalCapacity ≤ (s.logs idx channelTelemetry).length)
    {record : JournalRecord} (hsequence : record.sequence = cursor + missed + 1)
    (hentry : (s.logs idx channelTelemetry)[cursor + missed]? = some record.event) :
    ToldUpTo notify (Function.update stream idx (some (flags,cursor + missed + 1)))
      { s with
        streamed := Function.update s.streamed idx
          (s.streamed idx ++ [streamBody flags (telemetryEvent (streamService idx) missed record)]) } := by
  refine ⟨h.rings,h.notify,fun i => ?_⟩
  have hi := h.stream i
  rcases eq_or_ne i idx with rfl | hne
  · rw [hstream] at hi
    rw [Function.update_self]
    obtain ⟨hflags,hcursor,pos,hpos,haccount⟩ := hi
    obtain ⟨sequence,event⟩ := record
    obtain rfl : sequence = cursor + missed + 1 := hsequence
    refine ⟨hflags,fun _ => (List.getElem?_eq_some_iff.mp hentry).1,Function.update pos () (pos () + missed + 1),fun _ => ?_,?_⟩
    · rw [Function.update_self, hpos hidx]
    · dsimp only
      rw [Function.update_self]
      refine .pass (e := event) haccount ?_ ?_ ?_
      · rw [hpos hidx]
        exact hforgotten
      · rw [hpos hidx]
        exact hentry
      · rw [hpos hidx]
        rfl
  · rw [Function.update_of_ne hne]
    dsimp only
    rw [Function.update_of_ne hne]
    exact hi

end

end Bvstk.Dcp2.Server
