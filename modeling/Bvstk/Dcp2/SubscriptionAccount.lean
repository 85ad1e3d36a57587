import Bvstk.Dcp2.Subscriptions

/-! # Every published event is accounted for

Each part of a connection keeps the account of what its client has been told. So does the whole,
whatever is published meanwhile and wherever it is looked at.
-/
namespace Bvstk.Dcp2.Server
open Dialogue Wire Events LogReader

/-! ## Programs among tasks that publish -/

/-- At every moment of the program the client has been told of everything, and it leaves `I`. -/
abbrev Hears {α : Type} (p : Conn α) (I : α → Scene → Prop) (s : Scene) : Prop :=
  p.Keeps publishing Scene.Told Scene.Told I s

variable {α β : Type} {P Q : Scene → Prop} {s : Scene}

/-- The client has been told of everything, and publishing does not change what holds. -/
structure Steady (P : Scene → Prop) : Prop where
  stable : publishing.Stable P
  told : ∀ s, P s → s.Told

theorem told_stable : publishing.Stable Scene.Told := by
  rintro s _ ⟨e,rfl,_⟩ h
  refine ⟨h.notSubscribed,fun f hf => ?_,h.notStreamed,fun idx flags hflags => ?_⟩
  · obtain ⟨pos,haccount⟩ := h.notified f hf
    exact ⟨pos,haccount.grow fun bus => s.publish_prefix e bus _⟩
  · obtain ⟨pos,haccount⟩ := h.streamed idx flags hflags
    exact ⟨pos,haccount.grow fun _ => s.publish_prefix e idx _⟩

theorem toldUpTo_steady (notify : Option (NotifyFilter × (ℕ → ℕ))) (stream : ℕ → Option (UInt8 × ℕ)) :
    Steady (ToldUpTo notify stream) := ⟨toldUpTo_stable notify stream,fun _ h => h.told⟩

theorem Hears.pure {I : α → Scene → Prop} {a : α} (hI : publishing.Stable (I a)) (hs : I a s) : Hears (pure a : Conn α) I s :=
  Attempt.keeps_pure hI hs

theorem Hears.failure {I : α → Scene → Prop} (hs : s.Told) : Hears (failure : Conn α) I s :=
  Attempt.keeps_failure told_stable hs

theorem Hears.bind {p : Conn α} {f : α → Conn β} {I : α → Scene → Prop} {J : β → Scene → Prop} (h : Hears p I s)
    (hf : ∀ a s, I a s → Hears (f a) J s) : Hears (p >>= f) J s :=
  Attempt.Keeps.bind h told_stable hf

/-- A request. -/
theorem Hears.ask {c : Call} {f : Answer c → Conn β} {J : β → Scene → Prop} (hP : Steady P) (hs : P s)
    (hf : ∀ r s, P s → s.Allows ⟨c,r⟩ → Hears (f r) J (s.note ⟨c,r⟩)) : Hears (Attempt.ask c >>= f) J s := by
  refine Attempt.keeps_ask_bind hP.stable hs (fun s hs => hP.told s hs) ?_
  rintro s r _ hs ⟨hallows,rfl⟩
  exact hf r s hs hallows

/-- A request that the client does not notice. -/
theorem Hears.quiet {c : Call} {f : Answer c → Conn β} {J : β → Scene → Prop} (hP : Steady P) (hnote : ∀ (s : Scene) r, s.note ⟨c,r⟩ = s)
    (hs : P s) (hf : ∀ r s, P s → s.Allows ⟨c,r⟩ → Hears (f r) J s) : Hears (Attempt.ask c >>= f) J s := by
  refine .ask hP hs fun r s hs hallows => ?_
  rw [hnote]
  exact hf r s hs hallows

/-- An event is sent. -/
theorem sendEvent_hears {srv opcode : UInt8} {body : Bytes} (hbody : body.length ≤ maxPayloadSize - 4) (hP : Steady P) (hQ : Steady Q)
    (hs : P s) (hheard : ∀ s, P s → Q (s.hear (frameOf (eventPayload srv opcode body)))) :
    Hears (sendEvent srv opcode body) (fun _ => Q) s := by
  unfold sendEvent
  rw [sendPayload_eq (eventPayload_fits srv opcode hbody)]
  refine .ask hP hs ?_
  rintro (_ | _) s hs _
  · exact .failure (hP.told s hs)
  · exact .pure hQ.stable (hheard s hs)

/-! ## Notifications -/

section
variable {f : NotifyFilter} {cursor : ℕ → ℕ} {stream : ℕ → Option (UInt8 × ℕ)} {bus : ℕ}

theorem notifyBody_fits (flags : UInt8) (e : Event) : (notifyBody flags e).length ≤ maxPayloadSize - 4 :=
  (notifyBody_length flags e).trans (by decide)

/-- The records of a batch that have not been looked at. -/
structure Pending (f : NotifyFilter) (cursor : ℕ → ℕ) (stream : ℕ → Option (UInt8 × ℕ)) (bus : ℕ) (records : List JournalRecord)
    (s : Scene) : Prop where
  told : ToldUpTo (some (f,cursor)) stream s
  records : Follow (s.logs bus channelEvents) (cursor bus) records

theorem pending_steady (records : List JournalRecord) : Steady (Pending f cursor stream bus records) := by
  refine ⟨?_,fun s h => h.told.told⟩
  rintro s s' hmove h
  refine ⟨toldUpTo_stable _ _ s s' hmove h.told,?_⟩
  obtain ⟨e,rfl,_⟩ := hmove
  exact h.records.grow (s.publish_prefix e bus _)

theorem notifyRecord_hears {record : JournalRecord} {records : List JournalRecord} (hbus : bus < journalBuses)
    (hmask : f.busMask &&& bit bus ≠ 0) (hs : Pending f cursor stream bus (record :: records) s) :
    Hears (notifyRecord f record)
      (fun _ => Pending f (Function.update cursor bus (cursor bus + 1)) stream bus records) s := by
  have hstep : ∀ s, Pending f cursor stream bus (record :: records) s →
      Pending f (Function.update cursor bus (cursor bus + 1)) stream bus records
        { s with notified := s.notified ++ if f.accepts record.event then [notifyBody f.flags record.event] else [] } := by
    intro s h
    refine ⟨h.told.notify_pass hmask hbus h.records.2.1,?_⟩
    rw [Function.update_self]
    exact h.records.2.2
  unfold notifyRecord
  by_cases haccepts : f.accepts record.event = true
  · rw [if_pos haccepts]
    refine sendEvent_hears (notifyBody_fits _ _) (pending_steady _) (pending_steady _) hs fun s hs => ?_
    rw [hear_notify s (notifyBody_fits _ _)]
    have hnext := hstep s hs
    rw [if_pos haccepts] at hnext
    exact hnext
  · rw [if_neg haccepts]
    have hnext := hstep s hs
    rw [if_neg haccepts, List.append_nil] at hnext
    exact .pure (pending_steady _).stable hnext

theorem notifyRecords_hears {records : List JournalRecord} (hbus : bus < journalBuses) (hmask : f.busMask &&& bit bus ≠ 0)
    (hs : Pending f cursor stream bus records s) : Hears (records.forM (notifyRecord f))
      (fun _ => ToldUpTo (some (f,Function.update cursor bus (cursor bus + records.length))) stream) s := by
  induction records generalizing cursor s with
  | nil =>
    refine Hears.pure (I := fun _ => _) (toldUpTo_stable _ _) ?_
    rw [List.length_nil, Nat.add_zero, Function.update_eq_self]
    exact hs.told
  | cons record records ih =>
    refine Hears.bind (notifyRecord_hears hbus hmask hs) fun _ s hs => ?_
    have hrest := ih hs
    rw [Function.update_self, Function.update_idem, Nat.add_assoc, Nat.add_comm 1] at hrest
    exact hrest

/-- A batch of which nothing has been sent. -/
structure Read (f : NotifyFilter) (cursor : ℕ → ℕ) (stream : ℕ → Option (UInt8 × ℕ)) (bus missed : ℕ) (records : List JournalRecord)
    (s : Scene) : Prop where
  told : ToldUpTo (some (f,cursor)) stream s
  forgotten : missed = 0 ∨ cursor bus + missed + journalCapacity ≤ (s.logs bus channelEvents).length
  records : Follow (s.logs bus channelEvents) (cursor bus + missed) records

theorem read_steady (missed : ℕ) (records : List JournalRecord) : Steady (Read f cursor stream bus missed records) := by
  refine ⟨?_,fun s h => h.told.told⟩
  rintro s s' hmove h
  refine ⟨toldUpTo_stable _ _ s s' hmove h.told,?_,?_⟩
  · obtain ⟨e,rfl,_⟩ := hmove
    exact h.forgotten.imp_right fun h => h.trans (s.publish_prefix e bus _).length_le
  · obtain ⟨e,rfl,_⟩ := hmove
    exact h.records.grow (s.publish_prefix e bus _)

theorem notifyLost_hears {missed : ℕ} {records : List JournalRecord} (hbus : bus < journalBuses) (hmask : f.busMask &&& bit bus ≠ 0)
    (hs : Read f cursor stream bus missed records s) : Hears (notifyLost f bus missed)
      (fun _ => Pending f (Function.update cursor bus (cursor bus + missed)) stream bus records) s := by
  unfold notifyLost
  by_cases hmissed : missed = 0
  · rw [if_neg (not_not.mpr hmissed)]
    obtain rfl := hmissed
    refine .pure (pending_steady _).stable ?_
    rw [Nat.add_zero, Function.update_eq_self]
    exact ⟨hs.told,hs.records⟩
  · rw [if_pos hmissed]
    refine .quiet (read_steady missed records) (fun _ _ => rfl) hs fun now s hs _ => ?_
    refine sendEvent_hears (notifyBody_fits _ _) (read_steady missed records) (pending_steady _) hs fun s hs => ?_
    rw [hear_notify s (notifyBody_fits _ _)]
    refine ⟨hs.told.notify_miss hmask (Nat.pos_of_ne_zero hmissed) hbus (hs.forgotten.resolve_left hmissed) now,?_⟩
    rw [Function.update_self]
    exact hs.records

end

/-! ## The state of the connection and the account -/

/-- The cursors of a connection. -/
def notifyOf (st : ConnState) : Option (NotifyFilter × (ℕ → ℕ)) :=
  if st.notifyEnabled then some (st.notifyFilter,st.notifyCursor) else none

def streamOf (st : ConnState) (idx : ℕ) : Option (UInt8 × ℕ) :=
  if st.streamEnabled idx then some (st.streamFlags idx,st.streamCursor idx) else none

theorem streamOf_enabled {st : ConnState} {idx : ℕ} (h : st.streamEnabled idx = true) :
    streamOf st idx = some (st.streamFlags idx,st.streamCursor idx) := if_pos h

theorem streamOf_cursor {st : ConnState} {idx : ℕ} (h : st.streamEnabled idx = true) (cursor : ℕ) :
    streamOf { st with streamCursor := Function.update st.streamCursor idx cursor } =
      Function.update (streamOf st) idx (some (st.streamFlags idx,cursor)) := by
  funext i
  rcases eq_or_ne i idx with rfl | hne
  · simp only [streamOf, h, Function.update_self, if_true]
  · simp only [streamOf, Function.update_of_ne hne]

theorem streamOf_switch (st : ConnState) (idx : ℕ) (on : Bool) (flags : UInt8) :
    streamOf { st with
        streamEnabled := Function.update st.streamEnabled idx on
        streamFlags := Function.update st.streamFlags idx flags } =
      Function.update (streamOf st) idx (if on then some (flags,st.streamCursor idx) else none) := by
  funext i
  rcases eq_or_ne i idx with rfl | hne
  · simp only [streamOf, Function.update_self]
  · simp only [streamOf, Function.update_of_ne hne]

/-- The client has been told of everything up to the cursors of the connection. -/
abbrev Agrees (st : ConnState) (s : Scene) : Prop := ToldUpTo (notifyOf st) (streamOf st) s

theorem agrees_steady (st : ConnState) : Steady (Agrees st) := toldUpTo_steady _ _

theorem drainNotifyBus_hears {st : ConnState} {bus : ℕ} (hbus : bus < journalBuses) (henabled : st.notifyEnabled = true)
    (hs : Agrees st s) : Hears (drainNotifyBus st bus) (fun st' s => st'.notifyEnabled = true ∧ Agrees st' s) s := by
  have hnotify : notifyOf st = some (st.notifyFilter,st.notifyCursor) := if_pos henabled
  unfold drainNotifyBus
  by_cases hmask : st.notifyFilter.busMask &&& bit bus = 0
  · rw [if_pos hmask]
    exact .pure (fun s s' hmove h => ⟨h.1,(agrees_steady st).stable s s' hmove h.2⟩) ⟨henabled,hs⟩
  · rw [if_neg hmask]
    refine .quiet (agrees_steady st) (fun _ _ => rfl) hs ?_
    rintro batch s hs rfl
    rw [Agrees, hnotify] at hs
    obtain ⟨hring,hlength⟩ := hs.rings bus hbus channelEvents (by decide)
    have hread : journalRead s.journal bus channelEvents (-1) (st.notifyCursor bus) =
        (s.journal.rings bus channelEvents).read (-1) (st.notifyCursor bus) := if_neg (by simp only [channelEvents]; omega)
    have hbatch := read_batch hring hlength (hs.notify.2.1 bus hbus)
    rw [← hread] at hbatch
    revert hbatch
    generalize journalRead s.journal bus channelEvents (-1) (st.notifyCursor bus) = batch
    intro hbatch
    refine .bind (notifyLost_hears hbus hmask ⟨hs,hbatch.forgotten,hbatch.records⟩) fun _ s hs => ?_
    refine .bind (notifyRecords_hears hbus hmask hs) fun _ s hs => ?_
    rw [Function.update_self, Function.update_idem, ← hbatch.next] at hs
    refine .pure (fun s s' hmove h => ⟨h.1,(agrees_steady _).stable s s' hmove h.2⟩) ⟨henabled,?_⟩
    rw [Agrees, notifyOf, if_pos henabled]
    exact hs

theorem drainNotifyEvents_hears {st : ConnState} (hs : Agrees st s) : Hears (drainNotifyEvents st) Agrees s := by
  unfold drainNotifyEvents
  by_cases henabled : st.notifyEnabled = true
  · rw [if_pos henabled]
    have hstable : ∀ st : ConnState, publishing.Stable fun s => st.notifyEnabled = true ∧ Agrees st s :=
      fun st s s' hmove h => ⟨h.1,(agrees_steady st).stable s s' hmove h.2⟩
    refine Attempt.Keeps.mono (I := fun st s => st.notifyEnabled = true ∧ Agrees st s) ?_ fun st s h => h.2
    refine Attempt.keeps_foldlM (J := fun st s => st.notifyEnabled = true ∧ Agrees st s) hstable told_stable ?_ ⟨henabled,hs⟩
    exact fun bus hbus st s hs => drainNotifyBus_hears (List.mem_range.mp hbus) hs.1 hs.2
  · rw [if_neg henabled]
    exact .pure (agrees_steady st).stable hs

/-! ## Streams -/

theorem streamBody_fits (flags : UInt8) (event : SimEvent) : (streamBody flags event).length ≤ maxPayloadSize - 4 :=
  (streamBody_length flags event).trans (by decide)

/-- A stream event of an enabled stream is sent. -/
theorem sendStreamEvent_hears {st : ConnState} {event : SimEvent} {idx : ℕ} (hP : Steady P) (hQ : Steady Q) (hs : P s)
    (hidx : streamIndex event.service = some idx) (henabled : st.streamEnabled idx = true)
    (hheard : ∀ s, P s → Q { s with
      streamed := Function.update s.streamed idx (s.streamed idx ++ [streamBody (st.streamFlags idx) event]) }) :
    Hears (sendStreamEvent st event) (fun _ => Q) s := by
  unfold sendStreamEvent
  rw [hidx]
  dsimp only
  rw [if_neg (by simp only [henabled, Bool.true_eq_false, not_false_eq_true])]
  refine sendEvent_hears (streamBody_fits _ _) hP hQ hs fun s hs => ?_
  rw [hear_stream s hidx (streamBody_fits _ _)]
  exact hheard s hs

theorem mark_synthetic (flags : UInt8) : (flags ||| 0x04) &&& 0x04 ≠ 0 := by
  intro h
  have hbit := congrArg (fun x : UInt8 => x.toBitVec.getLsbD 2) h
  simp at hbit

theorem sendSynthetic_hears {st : ConnState} (srv : UInt8) (hs : Agrees st s) :
    Hears (sendSynthetic st srv) (fun _ => Agrees st) s := by
  unfold sendSynthetic
  refine .quiet (agrees_steady st) (fun _ _ => rfl) hs ?_
  rintro (_ | event) s hs _
  · exact Hears.pure (I := fun _ => Agrees st) (agrees_steady st).stable hs
  · dsimp only
    cases hidx : streamIndex event.service with
    | none =>
      unfold sendStreamEvent
      rw [hidx]
      exact Hears.pure (I := fun _ => Agrees st) (agrees_steady st).stable hs
    | some idx =>
      cases henabled : st.streamEnabled idx with
      | false =>
        unfold sendStreamEvent
        rw [hidx]
        dsimp only
        rw [if_pos henabled]
        exact Hears.pure (I := fun _ => Agrees st) (agrees_steady st).stable hs
      | true =>
        refine sendStreamEvent_hears (agrees_steady st) (agrees_steady st) hs hidx henabled fun s hs => ?_
        exact ToldUpTo.stream_synthetic hs (if_pos henabled) (streamService_eq hidx).symm (mark_synthetic event.evFlags)

section
variable {notify : Option (NotifyFilter × (ℕ → ℕ))} {stream : ℕ → Option (UInt8 × ℕ)} {flags : UInt8} {idx cursor missed : ℕ}

/-- A stream is at `cursor`, and these are the records after so many lost ones. -/
structure Streaming (notify : Option (NotifyFilter × (ℕ → ℕ))) (stream : ℕ → Option (UInt8 × ℕ)) (flags : UInt8) (idx cursor missed : ℕ)
    (records : List JournalRecord) (s : Scene) : Prop where
  told : ToldUpTo notify (Function.update stream idx (some (flags,cursor))) s
  forgotten : missed = 0 ∨ cursor + missed + journalCapacity ≤ (s.logs idx channelTelemetry).length
  records : Follow (s.logs idx channelTelemetry) (cursor + missed) records

theorem streaming_steady (records : List JournalRecord) : Steady (Streaming notify stream flags idx cursor missed records) := by
  refine ⟨?_,fun s h => h.told.told⟩
  rintro s s' hmove h
  refine ⟨toldUpTo_stable _ _ s s' hmove h.told,?_,?_⟩
  · obtain ⟨e,rfl,_⟩ := hmove
    exact h.forgotten.imp_right fun h => h.trans (s.publish_prefix e idx _).length_le
  · obtain ⟨e,rfl,_⟩ := hmove
    exact h.records.grow (s.publish_prefix e idx _)

theorem sendTelemetry_hears {st : ConnState} {srv : UInt8} {record : JournalRecord} {records : List JournalRecord}
    (hidx : streamIndex srv = some idx) (hbuses : idx < journalBuses) (henabled : st.streamEnabled idx = true)
    (hs : Streaming notify stream (st.streamFlags idx) idx cursor missed (record :: records) s) :
    Hears (sendTelemetry st srv missed record)
      (fun _ => Streaming notify stream (st.streamFlags idx) idx (cursor + missed + 1) 0 records) s := by
  refine sendStreamEvent_hears (streaming_steady _) (streaming_steady _) hs hidx henabled fun s hs => ?_
  obtain ⟨hsequence,hentry,hrest⟩ := hs.records
  have hnext := hs.told.stream_record (Function.update_self idx _ stream) hbuses hs.forgotten hsequence hentry
  rw [Function.update_idem, streamService_eq hidx] at hnext
  exact ⟨hnext,Or.inl rfl,hrest⟩

theorem sendRest_hears {st : ConnState} {srv : UInt8} {records : List JournalRecord} (hidx : streamIndex srv = some idx)
    (hbuses : idx < journalBuses) (henabled : st.streamEnabled idx = true)
    (hs : Streaming notify stream (st.streamFlags idx) idx cursor 0 records s) :
    Hears (records.forM (sendTelemetry st srv 0))
      (fun _ => ToldUpTo notify (Function.update stream idx (some (st.streamFlags idx,cursor + records.length)))) s := by
  induction records generalizing cursor s with
  | nil => exact Hears.pure (I := fun _ => ToldUpTo notify _) (toldUpTo_stable _ _) hs.told
  | cons record records ih =>
    refine Hears.bind (sendTelemetry_hears hidx hbuses henabled hs) fun _ s hs => ?_
    have hrest := ih hs
    rw [Nat.add_zero, Nat.add_assoc, Nat.add_comm 1] at hrest
    exact hrest

theorem sendBatch_hears {st : ConnState} {srv : UInt8} {records : List JournalRecord} (hidx : streamIndex srv = some idx)
    (hbuses : idx < journalBuses) (henabled : st.streamEnabled idx = true) (hnil : records = [] → missed = 0)
    (hs : Streaming notify stream (st.streamFlags idx) idx cursor missed records s) :
    Hears (sendBatch st srv missed records)
      (fun _ => ToldUpTo notify (Function.update stream idx (some (st.streamFlags idx,cursor + missed + records.length)))) s := by
  cases records with
  | nil =>
    obtain rfl := hnil rfl
    exact Hears.pure (I := fun _ => ToldUpTo notify _) (toldUpTo_stable _ _) hs.told
  | cons record records =>
    refine Hears.bind (sendTelemetry_hears hidx hbuses henabled hs) fun _ s hs => ?_
    have hrest := sendRest_hears hidx hbuses henabled hs
    rw [Nat.add_assoc, Nat.add_comm 1] at hrest
    exact hrest

end

theorem drainTelemetry_hears {st : ConnState} {srv : UInt8} {idx : ℕ} (hidx : streamIndex srv = some idx)
    (hbuses : idx < journalBuses) (henabled : st.streamEnabled idx = true) (hs : Agrees st s) :
    Hears (drainTelemetry st srv idx) Agrees s := by
  have hstream := streamOf_enabled henabled
  refine Hears.quiet (agrees_steady st) (fun _ _ => rfl) hs ?_
  rintro batch s hs rfl
  obtain ⟨hring,hlength⟩ := hs.rings idx hbuses channelTelemetry (by decide)
  have hread : journalRead s.journal idx channelTelemetry (-1) (st.streamCursor idx) =
      (s.journal.rings idx channelTelemetry).read (-1) (st.streamCursor idx) := if_neg (by simp only [channelTelemetry]; omega)
  have hat := hs.stream idx
  rw [hstream] at hat
  have hbatch := read_batch hring hlength (hat.2.1 hbuses)
  rw [← hread] at hbatch
  revert hbatch
  generalize journalRead s.journal idx channelTelemetry (-1) (st.streamCursor idx) = batch
  intro hbatch
  have htold : ToldUpTo (notifyOf st) (Function.update (streamOf st) idx (some (st.streamFlags idx,st.streamCursor idx))) s := by
    rw [← hstream, Function.update_eq_self]
    exact hs
  refine Hears.bind (sendBatch_hears hidx hbuses henabled hbatch.lost_eq_zero ⟨htold,hbatch.forgotten,hbatch.records⟩) fun _ s hs => ?_
  rw [← hbatch.next] at hs
  refine Hears.pure (agrees_steady _).stable ?_
  rw [Agrees, streamOf_cursor henabled]
  exact hs

theorem drainStream_hears {st : ConnState} (srv : UInt8) (hs : Agrees st s) : Hears (drainStream st srv) Agrees s := by
  unfold drainStream
  cases hidx : streamIndex srv with
  | none => exact .pure (agrees_steady st).stable hs
  | some idx =>
    dsimp only
    cases henabled : st.streamEnabled idx with
    | false =>
      rw [if_pos rfl]
      exact .pure (agrees_steady st).stable hs
    | true =>
      rw [if_neg (by simp only [Bool.true_eq_false, not_false_eq_true])]
      refine .bind (sendSynthetic_hears srv hs) fun _ s hs => ?_
      by_cases hbuses : idx < journalBuses
      · rw [if_pos hbuses]
        exact drainTelemetry_hears hidx hbuses henabled hs
      · rw [if_neg hbuses]
        exact .pure (agrees_steady st).stable hs

theorem drainStreamEvents_hears {st : ConnState} (hs : Agrees st s) : Hears (drainStreamEvents st) Agrees s :=
  Attempt.keeps_foldlM (fun st => (agrees_steady st).stable) told_stable (fun srv _ _ _ hs => drainStream_hears srv hs) hs

/-! ## Between two requests -/

theorem sendCacheEvents_hears (left : ℕ) (hP : Steady P) (hs : P s) : Hears (sendCacheEvents left) (fun _ => P) s := by
  induction left generalizing s with
  | zero => exact Hears.pure (I := fun _ => P) hP.stable hs
  | succ left ih =>
    refine Hears.quiet hP (fun _ _ => rfl) hs fun body s hs _ => ?_
    split
    · exact Hears.pure (I := fun _ => P) hP.stable hs
    · refine (sendEvent_hears body.property hP hP hs fun s hs => ?_).bind fun _ s hs => ih hs
      rw [hear_cache s body.property]
      exact hs

theorem drain_hears {st : ConnState} (hs : Agrees st s) : Hears (drain st) Agrees s := by
  refine Hears.quiet (agrees_steady st) (fun _ _ => rfl) hs fun _ s hs _ => ?_
  refine (drainNotifyEvents_hears hs).bind fun st s hs => ?_
  refine (drainStreamEvents_hears hs).bind fun st s hs => ?_
  refine (sendCacheEvents_hears 32 (agrees_steady st) hs).bind fun _ s hs => ?_
  exact .pure (agrees_steady st).stable hs

/-! ## Subscriptions -/

/-- A client has subscribed to notifications; the first `k` cursors are at their heads. -/
structure Joins (k : ℕ) (f : NotifyFilter) (cursor : ℕ → ℕ) (stream : ℕ → Option (UInt8 × ℕ)) (s : Scene) : Prop where
  rings : s.Rings
  notify : s.notify = some f
  notified : s.notified = []
  heads : ∀ bus < k, s.notifySince bus = cursor bus ∧ cursor bus ≤ (s.logs bus channelEvents).length
  stream : ∀ idx, StreamAt idx (s.logs idx channelTelemetry) (s.stream idx) (s.streamSince idx) (s.streamed idx) (stream idx)

section
variable {f : NotifyFilter} {cursor : ℕ → ℕ} {stream : ℕ → Option (UInt8 × ℕ)} {notify : Option (NotifyFilter × (ℕ → ℕ))}

theorem Joins.told {k : ℕ} (h : Joins k f cursor stream s) : s.Told := by
  refine ⟨fun hnone => ?_,fun g _ => ⟨s.notifySince,?_⟩,fun idx => (h.stream idx).told.1,fun idx => (h.stream idx).told.2⟩
  · exact absurd (h.notify.symm.trans hnone) (Option.some_ne_none f)
  · rw [h.notified]
    exact .start

theorem joins_steady (k : ℕ) : Steady (Joins k f cursor stream) := by
  refine ⟨?_,fun _ h => h.told⟩
  rintro s _ ⟨e,rfl,hbound⟩ h
  exact ⟨Scene.publish_rings h.rings hbound,h.notify,h.notified,
    fun bus hbus => (h.heads bus hbus).imp_right fun h => h.trans (s.publish_prefix e bus _).length_le,
    fun idx => (h.stream idx).grow (s.publish_prefix e idx _)⟩

/-- The first `k` cursors of a connection are at their heads. -/
def JoinsAs (f : NotifyFilter) (stream : ℕ → Option (UInt8 × ℕ)) (k : ℕ) (st : ConnState) (s : Scene) : Prop :=
  st.notifyEnabled = true ∧ st.notifyFilter = f ∧ streamOf st = stream ∧ Joins k f st.notifyCursor stream s

theorem joinsAs_stable (k : ℕ) (st : ConnState) : publishing.Stable (JoinsAs f stream k st) :=
  fun s s' hmove h => ⟨h.1,h.2.1,h.2.2.1,(joins_steady k).stable s s' hmove h.2.2.2⟩

theorem Joins.head {bus head : ℕ} (h : Joins bus f cursor stream s) (hhead : head = (s.logs bus channelEvents).length) :
    Joins (bus + 1) f (Function.update cursor bus head) stream
      { s with notifySince := Function.update s.notifySince bus head } := by
  refine ⟨h.rings,h.notify,h.notified,fun b hb => ?_,h.stream⟩
  dsimp only
  rcases eq_or_ne b bus with rfl | hne
  · rw [Function.update_self, Function.update_self]
    exact ⟨rfl,hhead.le⟩
  · rw [Function.update_of_ne hne, Function.update_of_ne hne]
    exact h.heads b (Nat.lt_of_le_of_ne (Nat.le_of_lt_succ hb) hne)

theorem notifyFromHead_hears {st : ConnState} {bus : ℕ} (hbus : bus < journalBuses) (hs : JoinsAs f stream bus st s) :
    Hears (notifyFromHead st bus) (JoinsAs f stream (bus + 1)) s := by
  obtain ⟨henabled,hf,hstream,hs⟩ := hs
  refine Hears.ask (joins_steady bus) hs fun head s hs hallows => ?_
  have hhead : head = (s.logs bus channelEvents).length := Eq.trans hallows (hs.rings bus hbus channelEvents (by decide)).1.1
  exact .pure (joinsAs_stable _ _) ⟨henabled,hf,hstream,hs.head hhead⟩

theorem JoinsAs.agrees {st : ConnState} (h : JoinsAs f stream journalBuses st s) : Agrees st s := by
  obtain ⟨henabled,rfl,hstream,h⟩ := h
  rw [Agrees, notifyOf, if_pos henabled, hstream]
  refine ⟨h.rings,⟨h.notify,fun bus hbus => (h.heads bus hbus).2,s.notifySince,fun bus hbus => (h.heads bus hbus).1,?_⟩,h.stream⟩
  rw [h.notified]
  exact .start

end

section
variable {st : ConnState} {payload : Bytes}

theorem hears_agrees {out : Outcome} (hs : Agrees out.1 s) : Hears (pure out : Conn Outcome) (fun out => Agrees out.1) s :=
  Hears.pure (I := fun out : Outcome => Agrees out.1) (agrees_steady _).stable hs

theorem handleNotify_hears (hrequest : isRefused payload = false) (hsrv : srvOf payload = serviceNotify) (hs : Agrees st s) :
    Hears (handleNotify st (opcodeOf payload) (payload.drop minPayload)) (fun out => Agrees out.1) (s.request payload) := by
  unfold handleNotify Scene.request
  dsimp only
  rw [if_neg (ne_true_of_eq_false hrequest), if_pos hsrv]
  by_cases hsubscribe : opcodeOf payload = opSubscribe
  · rw [if_pos hsubscribe, if_pos hsubscribe]
    cases subscriptionFilter (payload.drop minPayload) with
    | error status => exact hears_agrees hs
    | ok filter =>
      dsimp only
      have hjoins : JoinsAs filter (streamOf st) 0 { st with notifyEnabled := true, notifyFilter := filter }
          { s with notify := some filter, notified := [] } :=
        ⟨rfl,rfl,rfl,hs.rings,rfl,rfl,fun bus hbus => absurd hbus (Nat.not_lt_zero bus),hs.stream⟩
      refine Attempt.Keeps.bind (I := JoinsAs filter (streamOf st) journalBuses) ?_ told_stable fun st s hs => hears_agrees hs.agrees
      exact Attempt.keeps_range (joinsAs_stable _) told_stable (fun bus hbus st s hs => notifyFromHead_hears hbus hs) hjoins
  · rw [if_neg hsubscribe, if_neg hsubscribe]
    by_cases hunsubscribe : opcodeOf payload = opUnsubscribe
    · rw [if_pos hunsubscribe]
      by_cases hbody : payload.drop minPayload = []
      · rw [if_neg (not_not.mpr hbody), if_pos ⟨hunsubscribe,hbody⟩]
        exact hears_agrees ⟨hs.rings,⟨rfl,rfl⟩,hs.stream⟩
      · rw [if_pos hbody, if_neg fun h => hbody h.2]
        exact hears_agrees hs
    · rw [if_neg hunsubscribe, if_neg fun h => hunsubscribe h.1]
      exact hears_agrees hs

/-- A client has subscribed to the stream `idx`; its cursor is anywhere. -/
structure Opens (idx : ℕ) (st : ConnState) (s : Scene) : Prop where
  rings : s.Rings
  notify : NotifyAt (fun bus => s.logs bus channelEvents) s.notify s.notifySince s.notified (notifyOf st)
  enabled : st.streamEnabled idx = true
  opened : s.stream idx = some (st.streamFlags idx)
  streamed : s.streamed idx = []
  others : ∀ i, i ≠ idx →
    StreamAt i (s.logs i channelTelemetry) (s.stream i) (s.streamSince i) (s.streamed i) (streamOf st i)

theorem Opens.told {idx : ℕ} (h : Opens idx st s) : s.Told := by
  refine ⟨h.notify.told.1,h.notify.told.2,fun i hnone => ?_,fun i flags hflags => ?_⟩
  · rcases eq_or_ne i idx with rfl | hne
    · exact h.streamed
    · exact (h.others i hne).told.1 hnone
  · rcases eq_or_ne i idx with rfl | hne
    · rw [h.streamed]
      exact ⟨_,.start⟩
    · exact (h.others i hne).told.2 flags hflags

theorem opens_steady (idx : ℕ) : Steady (Opens idx st) := by
  refine ⟨?_,fun _ h => h.told⟩
  rintro s _ ⟨e,rfl,hbound⟩ h
  exact ⟨Scene.publish_rings h.rings hbound,h.notify.grow fun bus => s.publish_prefix e bus _,h.enabled,h.opened,h.streamed,
    fun i hi => (h.others i hi).grow (s.publish_prefix e i _)⟩

/-- The cursor of a stream that has just been opened. -/
theorem Opens.start {idx : ℕ} (h : Opens idx st s) (cursor since : ℕ)
    (hcursor : idx < journalBuses → since = cursor ∧ cursor ≤ (s.logs idx channelTelemetry).length) :
    Agrees { st with streamCursor := Function.update st.streamCursor idx cursor }
      { s with streamSince := Function.update s.streamSince idx since } := by
  refine ⟨h.rings,h.notify,fun i => ?_⟩
  rw [streamOf_cursor h.enabled]
  dsimp only
  rcases eq_or_ne i idx with rfl | hne
  · rw [Function.update_self, Function.update_self, h.streamed]
    exact ⟨h.opened,fun hi => (hcursor hi).2,fun _ => since,fun hi => (hcursor hi).1,.start⟩
  · rw [Function.update_of_ne hne, Function.update_of_ne hne]
    exact h.others i hne

theorem streamFromHead_hears {idx : ℕ} (hs : Opens idx st s) : Hears (streamFromHead st idx) Agrees s := by
  unfold streamFromHead
  by_cases hbuses : idx < journalBuses
  · rw [if_pos hbuses]
    refine Hears.ask (opens_steady idx) hs fun head s hs hallows => ?_
    have hhead : head = (s.logs idx channelTelemetry).length :=
      Eq.trans hallows (hs.rings idx hbuses channelTelemetry (by decide)).1.1
    exact .pure (agrees_steady _).stable (hs.start head head fun _ => ⟨rfl,Nat.le_of_eq hhead⟩)
  · rw [if_neg hbuses]
    have hstart := hs.start (st.streamCursor idx) (s.streamSince idx) fun h => absurd h hbuses
    rw [Function.update_eq_self, Function.update_eq_self] at hstart
    exact .pure (agrees_steady st).stable hstart

/-- A stream that is closed. -/
theorem Agrees.close (hs : Agrees st s) (idx : ℕ) :
    Agrees { st with
        streamEnabled := Function.update st.streamEnabled idx false
        streamFlags := Function.update st.streamFlags idx 0 }
      { s with stream := Function.update s.stream idx none, streamed := Function.update s.streamed idx [] } := by
  refine ⟨hs.rings,hs.notify,fun i => ?_⟩
  rw [streamOf_switch]
  dsimp only
  rcases eq_or_ne i idx with rfl | hne
  · rw [Function.update_self, Function.update_self, Function.update_self]
    exact ⟨rfl,rfl⟩
  · rw [Function.update_of_ne hne, Function.update_of_ne hne, Function.update_of_ne hne]
    exact hs.stream i

theorem Agrees.opens (hs : Agrees st s) (idx : ℕ) (flags : UInt8) :
    Opens idx { st with
        streamEnabled := Function.update st.streamEnabled idx true
        streamFlags := Function.update st.streamFlags idx flags }
      { s with stream := Function.update s.stream idx (some flags), streamed := Function.update s.streamed idx [] } := by
  refine ⟨hs.rings,hs.notify,Function.update_self idx true st.streamEnabled,?_,Function.update_self idx [] s.streamed,?_⟩
  · exact (Function.update_self idx _ s.stream).trans (congrArg some (Function.update_self idx flags st.streamFlags).symm)
  · intro i hne
    rw [streamOf_switch]
    dsimp only
    rw [Function.update_of_ne hne, Function.update_of_ne hne, Function.update_of_ne hne]
    exact hs.stream i

/-- What is requested of a stream. -/
theorem request_stream {idx : ℕ} (hrequest : isRefused payload = false) (hidx : streamIndex (srvOf payload) = some idx)
    (s : Scene) : s.request payload = if streamStatus (opcodeOf payload) (payload.drop minPayload) = statusOk then
      { s with
        stream := Function.update s.stream idx
          (if opcodeOf payload = opSubscribe then some ((payload.drop minPayload).getD 0 0) else none)
        streamed := Function.update s.streamed idx [] }
      else s := by
  have hsrv : srvOf payload ≠ serviceNotify := fun h => by
    rw [h] at hidx
    cases hidx
  unfold Scene.request
  dsimp only
  rw [if_neg (ne_true_of_eq_false hrequest), if_neg hsrv, hidx]

theorem refused_stream {idx status : ℕ} (hrequest : isRefused payload = false) (hidx : streamIndex (srvOf payload) = some idx)
    (hstatus : streamStatus (opcodeOf payload) (payload.drop minPayload) = status) (hrefused : status ≠ statusOk) (s : Scene) :
    s.request payload = s := by
  rw [request_stream hrequest hidx, if_neg (hstatus.trans_ne hrefused)]

theorem handleStreamCtl_hears (hrequest : isRefused payload = false) (hsrv : srvOf payload ≠ serviceNotify) (hs : Agrees st s) :
    Hears (handleStreamCtl st (srvOf payload) (opcodeOf payload) (payload.drop minPayload)) (fun out => Agrees out.1)
      (s.request payload) := by
  unfold handleStreamCtl
  cases hidx : streamIndex (srvOf payload) with
  | none =>
    unfold Scene.request
    dsimp only
    rw [if_neg (ne_true_of_eq_false hrequest), if_neg hsrv, hidx]
    exact hears_agrees hs
  | some idx =>
    dsimp only
    by_cases hsubscribe : opcodeOf payload = opSubscribe
    · rw [if_pos hsubscribe]
      by_cases hlength : (payload.drop minPayload).length = 1
      · rw [if_neg (not_not.mpr hlength)]
        by_cases hflags : (payload.drop minPayload).getD 0 0 &&& ~~~0x07 = 0
        · have hstatus : streamStatus (opcodeOf payload) (payload.drop minPayload) = statusOk :=
            (if_pos hsubscribe).trans (if_pos (And.intro hlength hflags))
          rw [if_neg (not_not.mpr hflags), request_stream hrequest hidx, if_pos hstatus, if_pos hsubscribe]
          refine (streamFromHead_hears (hs.opens idx _)).bind fun st s hs => ?_
          split
          · exact Hears.quiet (agrees_steady st) (fun _ _ => rfl) hs fun _ s hs _ => hears_agrees hs
          · exact hears_agrees hs
        · have hstatus : streamStatus (opcodeOf payload) (payload.drop minPayload) = statusMalformed :=
            (if_pos hsubscribe).trans (if_neg fun h => hflags (And.right h))
          rw [if_pos hflags, refused_stream hrequest hidx hstatus (by decide)]
          exact hears_agrees hs
      · have hstatus : streamStatus (opcodeOf payload) (payload.drop minPayload) = statusMalformed :=
          (if_pos hsubscribe).trans (if_neg fun h => hlength (And.left h))
        rw [if_pos hlength, refused_stream hrequest hidx hstatus (by decide)]
        exact hears_agrees hs
    · rw [if_neg hsubscribe]
      by_cases hunsubscribe : opcodeOf payload = opUnsubscribe
      · rw [if_pos hunsubscribe]
        by_cases hbody : payload.drop minPayload = []
        · have hstatus : streamStatus (opcodeOf payload) (payload.drop minPayload) = statusOk :=
            (if_neg hsubscribe).trans ((if_pos hunsubscribe).trans (if_pos hbody))
          rw [if_neg (not_not.mpr hbody), request_stream hrequest hidx, if_pos hstatus, if_neg hsubscribe]
          exact hears_agrees (hs.close idx)
        · have hstatus : streamStatus (opcodeOf payload) (payload.drop minPayload) = statusMalformed :=
            (if_neg hsubscribe).trans ((if_pos hunsubscribe).trans (if_neg hbody))
          rw [if_pos hbody, refused_stream hrequest hidx hstatus (by decide)]
          exact hears_agrees hs
      · have hstatus : streamStatus (opcodeOf payload) (payload.drop minPayload) = statusUnsupported :=
          (if_neg hsubscribe).trans (if_neg hunsubscribe)
        rw [if_neg hunsubscribe, refused_stream hrequest hidx hstatus (by decide)]
        exact hears_agrees hs

/-- A request that is about no subscription. -/
theorem request_elsewhere (hnotify : srvOf payload ≠ serviceNotify) (hidx : streamIndex (srvOf payload) = none) (s : Scene) :
    s.request payload = s := by
  unfold Scene.request
  dsimp only
  rw [if_neg hnotify, hidx]
  exact ite_self s

theorem request_refused (hrefused : isRefused payload = true) (s : Scene) : s.request payload = s := if_pos hrefused

/-- The account after a request. -/
abbrev Replied (reply : Reply) (s : Scene) : Prop := Agrees reply.1 s

theorem hears_reply {reply : Reply} (hs : Agrees reply.1 s) : Hears (pure reply : Conn Reply) Replied s :=
  Hears.pure (agrees_steady reply.1).stable hs

theorem handleService_hears (backend : Backend) (opcode : UInt8) (body : Bytes) (hs : Agrees st s) :
    Hears (handleService st backend opcode body) Replied s :=
  Hears.quiet (agrees_steady st) (fun _ _ => rfl) hs fun _ _ hs _ => hears_reply hs

theorem handleSession_hears (backend : Backend) (opcode : UInt8) (body : Bytes) (hs : Agrees st s) :
    Hears (handleSession st backend opcode body) Replied s := by
  refine Hears.quiet (agrees_steady st) (fun _ _ => rfl) hs fun r s hs _ => ?_
  obtain ⟨status,answer⟩ := r
  dsimp only
  split
  · exact hears_reply hs
  · exact hears_reply hs

theorem bare_hears {p : Conn Outcome} (h : Hears p (fun out => Agrees out.1) s) : Hears (bare <$> p) Replied s :=
  Attempt.Keeps.map h told_stable (fun reply => (agrees_steady reply.1).stable) fun _ _ hs => hs

theorem handleBus_hears {idx : ℕ} (core : Option Backend) (hrequest : isRefused payload = false)
    (hidx : streamIndex (srvOf payload) = some idx) (hs : Agrees st s) :
    Hears (handleBus core st (srvOf payload) (opcodeOf payload) (payload.drop minPayload)) Replied (s.request payload) := by
  have hnotify : srvOf payload ≠ serviceNotify := fun h => by
    rw [h] at hidx
    cases hidx
  unfold handleBus
  by_cases hctl : opcodeOf payload = opSubscribe ∨ opcodeOf payload = opUnsubscribe
  · rw [if_pos hctl]
    exact bare_hears (handleStreamCtl_hears hrequest hnotify hs)
  · have hstatus : streamStatus (opcodeOf payload) (payload.drop minPayload) = statusUnsupported :=
      (if_neg fun h => hctl (Or.inl h)).trans (if_neg fun h => hctl (Or.inr h))
    rw [if_neg hctl, refused_stream hrequest hidx hstatus (by decide)]
    cases core with
    | some backend => exact handleService_hears backend _ _ hs
    | none => exact hears_reply hs

theorem dispatchRequest_hears (cores : Cores) (hrequest : isRefused payload = false) (hs : Agrees st s) :
    Hears (dispatchRequest cores st (srvOf payload) (opcodeOf payload) (payload.drop minPayload)) Replied (s.request payload) := by
  -- the services without subscriptions
  have helsewhere : ∀ srv, srvOf payload = srv → srv ≠ serviceNotify → streamIndex srv = none → s.request payload = s :=
    fun srv hsrv hnotify hidx => request_elsewhere (hsrv ▸ hnotify) (hsrv ▸ hidx) s
  unfold dispatchRequest
  by_cases hping : srvOf payload = servicePing
  · rw [if_pos hping, helsewhere _ hping (by decide) (by decide)]
    exact hears_reply hs
  rw [if_neg hping]
  by_cases hmem : srvOf payload = serviceMem
  · rw [if_pos hmem, helsewhere _ hmem (by decide) (by decide)]
    exact handleService_hears .mem _ _ hs
  rw [if_neg hmem]
  by_cases hcache : srvOf payload = serviceCache
  · rw [if_pos hcache, helsewhere _ hcache (by decide) (by decide)]
    exact handleSession_hears .cache _ _ hs
  rw [if_neg hcache]
  by_cases hfs : srvOf payload = serviceFs
  · rw [if_pos hfs, helsewhere _ hfs (by decide) (by decide)]
    exact handleSession_hears .fs _ _ hs
  rw [if_neg hfs]
  by_cases hnotify : srvOf payload = serviceNotify
  · rw [if_pos hnotify]
    exact bare_hears (handleNotify_hears hrequest hnotify hs)
  rw [if_neg hnotify]
  -- the buses
  have hbus : ∀ srv core, srvOf payload = srv → (streamIndex srv).isSome = true →
      Hears (handleBus core st (srvOf payload) (opcodeOf payload) (payload.drop minPayload)) Replied (s.request payload) := by
    rintro srv core rfl hsome
    obtain ⟨idx,hidx⟩ := Option.isSome_iff_exists.mp hsome
    exact handleBus_hears core hrequest hidx hs
  by_cases hi2c : srvOf payload = serviceI2c
  · rw [if_pos hi2c]
    exact hbus _ _ hi2c (by decide)
  rw [if_neg hi2c]
  by_cases hmdio : srvOf payload = serviceMdio
  · rw [if_pos hmdio]
    exact hbus _ _ hmdio (by decide)
  rw [if_neg hmdio]
  by_cases hspi : srvOf payload = serviceSpi
  · rw [if_pos hspi]
    exact hbus _ none hspi (by decide)
  rw [if_neg hspi]
  by_cases huart : srvOf payload = serviceUart
  · rw [if_pos huart]
    exact hbus _ none huart (by decide)
  rw [if_neg huart, request_elsewhere hnotify (streamIndex_eq_none hi2c hmdio hspi huart)]
  exact hears_reply hs

/-- A response tells nothing; `F` is what is left if it cannot be sent. -/
theorem sendResponse_keeps {F : Scene → Prop} {srv opcode : UInt8} {seq : UInt16} {status : ℕ} {body : Bytes}
    (hbody : body.length ≤ maxPayloadSize - 6) (hP : Steady P) (hF : publishing.Stable F) (hPF : ∀ s, P s → F s) (hs : P s) :
    (sendResponse srv opcode seq status body).Keeps publishing Scene.Told F (fun _ => P) s := by
  unfold sendResponse
  rw [sendPayload_eq (responsePayload_fits srv opcode seq status hbody)]
  refine Attempt.keeps_ask_bind hP.stable hs (fun s hs => hP.told s hs) ?_
  rintro s (_ | _) _ hs ⟨_,rfl⟩
  · exact Attempt.keeps_failure hF (hPF _ hs)
  · refine Attempt.keeps_pure (I := fun _ => P) hP.stable ?_
    change P (s.hear _)
    rw [hear_response s hbody]
    exact hs

theorem handleFrame_hears (cores : Cores) (hlength : minPayload ≤ payload.length) (hs : Agrees st s) :
    Hears (handleFrame cores st payload) Agrees (s.request payload) := by
  unfold handleFrame
  rw [if_neg (Nat.not_lt.mpr hlength)]
  by_cases hrefused : isRefused payload = true
  · rw [if_pos hrefused, request_refused hrefused]
    refine Hears.bind (I := fun _ => Agrees st) ?_ fun _ s hs => Hears.pure (agrees_steady st).stable hs
    -- the account stays with the state also if the refusal cannot be sent
    refine Attempt.keeps_regardless (F := Agrees st) (I := fun _ => Agrees st) ?_ (fun _ => (agrees_steady st).stable)
      (fun _ hs => hs) (fun _ _ hs => hs)
    exact sendResponse_keeps (Nat.zero_le _) (agrees_steady st) (agrees_steady st).stable (fun _ hs => hs) hs
  · rw [if_neg hrefused]
    have hrequest := Bool.eq_false_iff.mpr hrefused
    refine (dispatchRequest_hears cores hrequest hs).bind ?_
    rintro ⟨st,status,answer⟩ s hs
    refine Hears.bind (sendResponse_keeps answer.property (agrees_steady st) told_stable (agrees_steady st).told hs) ?_
    exact fun _ s hs => Hears.pure (agrees_steady st).stable hs

/-! ## The connection -/

theorem receive_hears (cores : Cores) (hs : Agrees st s) : Hears (receive cores st) Agrees s := by
  refine Hears.quiet (agrees_steady st) (fun _ _ => rfl) hs ?_
  rintro (_ | header) s hs _
  · exact .failure hs.told
  · change Hears ((announced header.val).getM >>= fun n => readPayload n >>= fun payload =>
      payload.getM >>= fun payload => handleFrame cores st payload.val) _ s
    cases hn : announced header.val with
    | none => exact Hears.failure hs.told
    | some n =>
      refine Hears.ask (agrees_steady st) hs ?_
      rintro (_ | payload) s hs _
      · exact Hears.failure hs.told
      · exact handleFrame_hears cores ((announced_ge hn).trans payload.property.ge) hs

theorem turn_hears (cores : Cores) (hs : Agrees st s) : Hears (turn cores st) Agrees s := by
  refine (drain_hears hs).bind fun st s hs => ?_
  refine Hears.quiet (agrees_steady st) (fun _ _ => rfl) hs ?_
  rintro (_ | _ | _) s hs _
  · exact .failure hs.told
  · exact .pure (agrees_steady st).stable hs
  · exact receive_hears cores hs

end

theorem serveClient_tells (cores : Cores) (turns : ℕ) {st : ConnState} (hs : Agrees st s) :
    (serveClient cores turns st).Safe publishing (fun _ => Scene.Told) s := by
  induction turns generalizing st s with
  | zero => exact Program.safe_unfinished told_stable hs.told
  | succ turns ih =>
    refine Program.Safe.bind (turn_hears cores hs) (fun _ hs => hs) ?_
    rintro (_ | st) s hs
    · exact Program.safe_pure told_stable hs
    · exact ih hs

/-- Nobody has subscribed to anything. -/
structure Scene.Fresh (s : Scene) : Prop where
  rings : s.Rings
  notify : s.notify = none ∧ s.notified = []
  stream : ∀ idx, s.stream idx = none ∧ s.streamed idx = []

/-- Whatever is published while a connection runs, at every moment all that its client has been
told is the account of what was published since it subscribed. -/
theorem handleClient_told {cores : Cores} {turns : ℕ} {s t : Scene} {log : List (Exchange Answer)} {q : Program Call Answer Unit}
    (hs : s.Fresh) (h : publishing.Runs (handleClient cores turns) s log q t) : t.Told := by
  have hagrees : Agrees .zero s := ⟨hs.rings,hs.notify,hs.stream⟩
  exact ((serveClient_tells cores turns hagrees).runs h).holds (fun _ _ h => h) fun _ _ h => h

/-- Some run of the connection leads to this. -/
def Leads (p : Program Call Answer Unit) (s : Scene) (P : Scene → Prop) : Prop :=
  ∃ (log : List (Exchange Answer)) (q : Program Call Answer Unit) (t : Scene), publishing.Runs p s log q t ∧ P t

theorem leads_ask {c : Call} {next : Answer c → Program Call Answer Unit} (r : Answer c) (hallows : s.Allows ⟨c,r⟩)
    (hrest : Leads (next r) (s.note ⟨c,r⟩) P) : Leads (.ask c next) s P := by
  obtain ⟨log,q,t,hrest,ht⟩ := hrest
  exact ⟨_,q,t,.ask ⟨hallows,rfl⟩ hrest,ht⟩

theorem leads_publish {p : Program Call Answer Unit} (e : Event)
    (hbound : ∀ bus channel, (s.logs bus channel).length + 1 < journalHistory) (hrest : Leads p (s.publish e) P) :
    Leads p s P := by
  obtain ⟨log,q,t,hrest,ht⟩ := hrest
  exact ⟨log,q,t,.move ⟨e,rfl,fun bus channel => (s.length_publish e bus channel).trans_lt (hbound bus channel)⟩ hrest,ht⟩

/-- Nothing has happened yet. -/
def Scene.empty : Scene := ⟨.zero,fun _ _ => [],none,fun _ => 0,[],fun _ => none,fun _ => 0,fun _ => []⟩

theorem Scene.empty_fresh : Scene.empty.Fresh where
  rings _ _ _ _ := ⟨⟨rfl,fun p hp => absurd hp (Nat.not_lt_zero p)⟩,Nat.pos_of_ne_zero (by decide)⟩
  notify := ⟨rfl,rfl⟩
  stream _ := ⟨rfl,rfl⟩

/-- Somebody has written to a register. -/
def writtenEvent : Event := { Event.zero with type := EventType.regCommit.code, arg0 := 0x50 }

/-- A client subscribes to everything, and a register is written while the connection is on its way to look. -/
theorem subscriber_run : Leads (handleClient ⟨true,true⟩ 2) .empty fun t => t.notified = [notifyBody 0 writtenEvent] := by
  refine leads_ask (c := .expireFiles) () trivial ?_
  refine leads_ask (c := .cacheEvent) ⟨[],Nat.zero_le _⟩ trivial ?_
  refine leads_ask (c := .waitReadable) .ready trivial ?_
  refine leads_ask (c := .readHeader) (some ⟨magic ++ [0,2,0,17],rfl⟩) trivial ?_
  refine leads_ask (c := .readPayload 17) (some ⟨[6,0x10,0,1] ++ [0,0,0,0x1f,0,0,0,0x1f,0,0,0,0x1f,0],rfl⟩) trivial ?_
  refine leads_ask (c := .observerHead 0 0) (0 : ℕ) rfl ?_
  refine leads_ask (c := .observerHead 1 0) (0 : ℕ) rfl ?_
  refine leads_ask (c := .write _) true trivial ?_
  refine leads_ask (c := .expireFiles) () trivial ?_
  refine leads_publish writtenEvent (fun _ _ => (by decide : ([] : List Event).length + 1 < journalHistory)) ?_
  refine leads_ask (c := .observerRead 0 0 0) (⟨1,1,0,false,[⟨1,writtenEvent⟩]⟩ : JournalBatch) rfl ?_
  refine leads_ask (c := .write _) true trivial ?_
  exact ⟨_,_,_,.here _ _,rfl⟩

theorem handleClient_told_written : ∃ t : Scene, t.Told ∧ t.notified = [notifyBody 0 writtenEvent] := by
  obtain ⟨log,q,t,hruns,hnotified⟩ := subscriber_run
  exact ⟨t,handleClient_told Scene.empty_fresh hruns,hnotified⟩

end Bvstk.Dcp2.Server
