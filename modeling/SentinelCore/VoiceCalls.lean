import SentinelCore.VoiceClient
import SentinelCore.Lib.Check

/-!
# What the methods of the voice client do

One statement for each method below the calls: the worlds it returns in, and the worlds and exceptions
it raises with.

`Quietly w w'` says that between two worlds no user event went out. Whatever a method raises is an
`Exception`, or the answer to one of its awaits (`IsBase`).
-/

namespace Sentinel.Voice

open Py Lib Act

/-! ## Rules -/

section Rules

variable {α : Type} {w : World} {Q : α → World → Prop} {E : Stop → World → Prop}

theorem ensures_await {x : Answer α} (hq : ∀ a, x = .ok a → Q a w)
    (he : ∀ e, x = .error e → E (.raised e) w) : Ensures (await x) w Q E := by
  unfold await
  cases x with
  | ok a => exact hq a rfl
  | error e => exact he e rfl

theorem ensures_raise {e : VoiceExc} (h : E (.raised e) w) : Ensures (raise e) w Q E := h

theorem ensures_pending (h : E .pending w) : Ensures (throw .pending : Calling α) w Q E := h

theorem ensures_record {x : WireEvent} {Q : Unit → World → Prop}
    (h : Q () { w with wire := w.wire ++ [x] }) : Ensures (record x) w Q E := h

theorem ensures_tryCatching {body : Calling α} {catches : VoiceExc → Bool}
    {handler : VoiceExc → Calling α}
    (h : Ensures body w Q fun s w' =>
      match s with
      | .raised e => if catches e = true then Ensures (handler e) w' Q E else E (.raised e) w'
      | .pending => E .pending w') :
    Ensures (tryCatching body catches handler) w Q E := by
  unfold tryCatching
  refine ensures_handle (h.mono (fun _ _ hq => hq) fun s w' hs => ?_)
  cases s with
  | raised e => exact hs
  | pending => exact hs

end Rules

/-! ## The wire -/

/-- The type of an event. -/
def HasType (event : Event) (name : String) : Prop := eventType? event = some (lit name)

/-- The events of a user's turn. -/
def IsUserEvent (event : Event) : Prop :=
  HasType event "conversation.item.create" ∨ HasType event "response.create"

/-- A user event goes out. -/
def WireEvent.SendsUser : WireEvent → Prop
  | .sending _ event => IsUserEvent event
  | .opened _ _ | .sent _ _ | .received _ _ | .closing _ => False

instance (event : Event) (name : String) : Decidable (HasType event name) :=
  inferInstanceAs (Decidable (_ = _))

instance (event : Event) : Decidable (IsUserEvent event) := inferInstanceAs (Decidable (_ ∨ _))

instance : (x : WireEvent) → Decidable x.SendsUser
  | .sending _ event => inferInstanceAs (Decidable (IsUserEvent event))
  | .opened _ _ | .sent _ _ | .received _ _ | .closing _ => inferInstanceAs (Decidable False)

/-- Between the worlds no user event went out and the sink was given nothing. -/
def Quietly (w w' : World) : Prop :=
  (∃ l, w'.wire = w.wire ++ l ∧ ∀ x ∈ l, ¬x.SendsUser) ∧ w'.emitted = w.emitted

theorem Quietly.of_eq {w w' : World} (h : w'.wire = w.wire) (he : w'.emitted = w.emitted) :
    Quietly w w' :=
  ⟨⟨[], by rw [h, List.append_nil], by simp⟩, he⟩

theorem Quietly.refl (w : World) : Quietly w w := .of_eq rfl rfl

theorem Quietly.trans {w w' w'' : World} (h : Quietly w w') (h' : Quietly w' w'') :
    Quietly w w'' := by
  obtain ⟨⟨l, hl, hq⟩, he⟩ := h
  obtain ⟨⟨l', hl', hq'⟩, he'⟩ := h'
  refine ⟨⟨l ++ l', by rw [hl', hl, List.append_assoc], fun x hx => ?_⟩, he'.trans he⟩
  rcases List.mem_append.mp hx with hx | hx
  · exact hq x hx
  · exact hq' x hx

theorem Quietly.record {w w' : World} {x : WireEvent} (h : w'.wire = w.wire ++ [x])
    (hx : ¬x.SendsUser) (he : w'.emitted = w.emitted) : Quietly w w' :=
  ⟨⟨[x], h, fun y hy => by rwa [List.mem_singleton.mp hy]⟩, he⟩

theorem Quietly.subset {w w' : World} (h : Quietly w w') {x : WireEvent} (hx : x ∈ w.wire) :
    x ∈ w'.wire := by
  obtain ⟨⟨l, hl, -⟩, -⟩ := h
  rw [hl]
  exact List.mem_append_left _ hx

/-! ## Exceptions -/

/-- The exceptions the code or its library raises: neither those of an await nor those of a sink. -/
def VoiceExc.isOwn : VoiceExc → Bool
  | .configuration _ | .protocol _ | .remote _ | .python _ => true
  | .timeout | .other _ | .base _ => false

theorem VoiceExc.isException_of_isOwn {e : VoiceExc} (h : e.isOwn = true) :
    e.isException = true := by
  cases e with
  | configuration | protocol | remote | python => rfl
  | timeout | other | base => cases h

/-- The await ends with an exception that is no `Exception`: it is cancelled. -/
def IsBase {α : Type} (answer : Answer α) : Prop := ∃ e, answer = .error e ∧ e.isException = false

instance {α : Type} (answer : Answer α) : Decidable (IsBase answer) :=
  match answer with
  | .ok _ => isFalse fun ⟨_, h, _⟩ => nomatch h
  | .error e =>
    decidable_of_iff (e.isException = false)
      ⟨fun h => ⟨e, rfl, h⟩, fun ⟨_, h, he⟩ => Except.error.inj h ▸ he⟩

/-- A computation without a state raises only exceptions of its own. -/
abbrev RaisesOwn {α : Type} (x : Except VoiceExc α) : Prop := Raises x fun e => e.isOwn = true

theorem utf8Length_raisesOwn (text : PyStr) : RaisesOwn (utf8Length text) := by
  intro e h
  unfold utf8Length at h
  split at h
  · cases h
  · cases h
    rfl

theorem raiseIf_raisesOwn {p : Prop} [Decidable p] {e : VoiceExc} (he : e.isOwn = true) :
    RaisesOwn (raiseIf p e) := by
  intro e' h
  unfold raiseIf at h
  split_ifs at h
  obtain rfl := Except.error.inj h
  exact he

theorem checkPayload_raisesOwn (o : ClientOptions) (event : Event) :
    RaisesOwn (checkPayload o event) := by
  unfold checkPayload
  refine raises_bind (fun e h => ?_) fun payload _ =>
    raises_bind (utf8Length_raisesOwn payload) fun size _ => raiseIf_raisesOwn rfl
  unfold dumpsEvent at h
  split at h
  · cases h
  · cases h
    rfl

theorem decode_raisesOwn (raw : RawMessage) : RaisesOwn raw.decode := by
  intro e h
  cases raw with
  | text s =>
    simp only [RawMessage.decode] at h
    split at h
    · cases h
    · next e' he =>
      obtain rfl := Except.error.inj h
      exact utf8Length_raisesOwn s _ he
  | binary data =>
    simp only [RawMessage.decode] at h
    split at h
    · cases h
    · cases h
      rfl

theorem parseJson_raisesOwn (env : VoiceEnv) (text : PyStr) : RaisesOwn (parseJson env text) := by
  intro e h
  unfold parseJson at h
  split at h
  · cases h
  · next e' he =>
    obtain rfl := Except.error.inj h
    refine loadsPairs_hook (P := fun e => e.isOwn = true) (fun pairs e h => ?_) he
    unfold rejectDuplicateObjectPairs at h
    split_ifs at h
    cases h
    rfl
  · split_ifs at h
    · cases h
      rfl
    · cases h
      rfl

theorem toEvent_raisesOwn (value : Json) : RaisesOwn (toEvent value) := by
  intro e h
  unfold toEvent at h
  split at h
  · cases h
    rfl
  · split_ifs at h
    cases h
    rfl

theorem parseServerEvent_raisesOwn (env : VoiceEnv) (raw : RawMessage) (n : ℕ) :
    RaisesOwn (parseServerEvent env raw n) :=
  raises_bind (decode_raisesOwn raw) fun _ _ => raises_bind (raiseIf_raisesOwn rfl) fun _ _ =>
    raises_bind (parseJson_raisesOwn env _) fun value _ => toEvent_raisesOwn value

theorem createdConversation_raisesOwn (event : Event) : RaisesOwn (createdConversation event) := by
  intro e h
  unfold createdConversation at h
  split at h
  · cases h
    rfl
  · split at h
    · cases h
      rfl
    · split_ifs at h
      cases h
      rfl

theorem matchesId_of_createdConversation {event : Event} {conversationId : PyStr}
    (h : createdConversation event = .ok conversationId) : matchesId conversationId = true := by
  unfold createdConversation at h
  split at h
  · cases h
  · split at h
    · cases h
    · split_ifs at h with hid
      obtain rfl := Except.ok.inj h
      exact hid

theorem remoteError_isOwn (event : Event) : (remoteError event).isOwn = true := by
  unfold remoteError
  split
  · rfl
  · rfl

/-! ## The methods -/

/-- The client holds nothing but perhaps a conversation id. -/
def Idle (w : World) : Prop := w.websocket = none ∧ w.sessionReady = false

/-- The client holds nothing. -/
def Cleared (w : World) : Prop := Idle w ∧ w.conversationId = none

instance (w : World) : Decidable (Idle w) := inferInstanceAs (Decidable (_ ∧ _))

instance (w : World) : Decidable (Cleared w) := inferInstanceAs (Decidable (_ ∧ _))

/-- The worlds differ in the WebSocket only, which the later one does not hold. -/
def Closed (w w' : World) : Prop :=
  Idle w' ∧ Quietly w w' ∧ w'.conversationId = w.conversationId

section Methods

variable (o : ClientOptions) (w : World)

/-- `close` raises only if the await is cancelled, and clears the WebSocket before. -/
theorem close_spec (closing : Answer Unit) :
    Ensures (close closing) w
      (fun _ w' => Closed w w' ∧ (w.websocket ≠ none → ¬IsBase closing))
      fun s w' => Closed w w' ∧ ∃ e, s = .raised e ∧ closing = .error e ∧ e.isException = false := by
  unfold close
  refine ensures_get_bind (ensures_bind (ensures_modify ?_))
  cases w.websocket with
  | none => exact ensures_pure ⟨⟨⟨rfl, rfl⟩, .of_eq rfl rfl, rfl⟩, fun h => absurd rfl h⟩
  | some socket =>
    have hclosed : Closed w { w with
        websocket := none, sessionReady := false, wire := w.wire ++ [.closing socket] } :=
      ⟨⟨rfl, rfl⟩, .record rfl id rfl, rfl⟩
    refine ensures_bind (ensures_record (ensures_tryCatching (ensures_await ?_ ?_)))
    · rintro _ rfl
      exact ⟨hclosed, fun _ ⟨e, he, _⟩ => nomatch he⟩
    · rintro e rfl
      show if e.isException = true then _ else _
      by_cases hc : e.isException = true
      · rw [if_pos hc]
        refine ensures_pure ⟨hclosed, fun _ ⟨e', he, hb⟩ => ?_⟩
        obtain rfl := Except.error.inj he
        rw [hc] at hb
        cases hb
      · rw [if_neg hc]
        exact ⟨hclosed, e, rfl, rfl, Bool.not_eq_true _ ▸ hc⟩

/-- What comes of sending on a WebSocket. -/
def sendAnswer (event : Event) (answer : Answer Unit) : Answer Unit := do
  checkPayload o event
  answer

variable {w}

theorem sendEvent_spec {socket : ℕ} (hs : w.websocket = some socket) (event : Event)
    (answer : Answer Unit) :
    Ensures (sendEvent o event answer) w
      (fun _ w' => sendAnswer o event answer = .ok () ∧
        w' = { w with wire := w.wire ++ [.sending socket event] ++ [.sent socket event] })
      fun s w' => ∃ e, s = .raised e ∧ sendAnswer o event answer = .error e ∧
        (w' = w ∨ checkPayload o event = .ok () ∧
          w' = { w with wire := w.wire ++ [.sending socket event] }) := by
  unfold sendEvent
  refine ensures_get_bind ?_
  rw [hs]
  refine ensures_bind (ensures_await (fun u hu => ?_) fun e he => ?_)
  · have hanswer : sendAnswer o event answer = answer := by
      unfold sendAnswer
      rw [hu]
      rfl
    rw [hanswer]
    refine ensures_bind (ensures_record (ensures_bind (ensures_await (fun u hu => ?_) fun e he => ?_)))
    · exact ensures_record ⟨hu, rfl⟩
    · exact ⟨e, rfl, he, .inr ⟨hu, rfl⟩⟩
  · exact ⟨e, rfl, bind_eq_error.mpr (.inl he), .inl rfl⟩

/-- The event in a message. -/
def receiveAnswer (answer : Answer RawMessage) : Answer Event := do
  let raw ← answer
  parseServerEvent o.env raw o.config.maxEventBytes

/-- `_receive_event` returns the event, or raises, after closing if no message came in time. -/
theorem receiveEvent_spec {socket : ℕ} (hs : w.websocket = some socket) (closing : Answer Unit)
    (answer : Answer RawMessage) :
    Ensures (receiveEvent o closing answer) w
      (fun event w' => receiveAnswer o answer = .ok event ∧
        w' = { w with wire := w.wire ++ [.received socket event] })
      fun s w' => ∃ e, s = .raised e ∧
        (receiveAnswer o answer = .error e ∧ e ≠ .timeout ∧ w' = w ∨
          receiveAnswer o answer = .error .timeout ∧ Closed w w' ∧
            (e.isException = true ∧ ¬IsBase closing ∨ e.isException = false ∧ IsBase closing)) := by
  unfold receiveEvent
  refine ensures_get_bind ?_
  rw [hs]
  refine ensures_bind (ensures_tryCatching (ensures_await (fun raw hraw => ?_) fun e he => ?_))
  · subst hraw
    refine ensures_bind (ensures_await (fun event hevent => ?_) fun e he => ?_)
    · exact ensures_bind (ensures_record (ensures_pure ⟨hevent, rfl⟩))
    · refine ⟨e, rfl, .inl ⟨he, ?_, rfl⟩⟩
      rintro rfl
      cases parseServerEvent_raisesOwn _ _ _ _ he
  · subst he
    show if decide (e = .timeout) = true then _ else _
    by_cases hc : e = .timeout
    · subst hc
      rw [if_pos (decide_eq_true rfl)]
      refine ensures_bind ((close_spec w closing).mono ?_ ?_)
      · rintro _ w' ⟨hclosed, hb⟩
        have hheld : w.websocket ≠ none := by rw [hs]; exact Option.some_ne_none _
        exact ensures_raise ⟨_, rfl, .inr ⟨rfl, hclosed, .inl ⟨rfl, hb hheld⟩⟩⟩
      · rintro s w' ⟨hclosed, e, hs, hce, hb⟩
        exact ⟨e, hs, .inr ⟨rfl, hclosed, .inr ⟨hb, e, hce, hb⟩⟩⟩
    · rw [if_neg (by simpa using hc)]
      exact ⟨e, rfl, .inl ⟨rfl, hc, rfl⟩⟩

/-- The conversation id after an event. -/
def captured (event : Event) (conversationId : Option PyStr) : Answer (Option PyStr) :=
  if eventType? event = some (lit "conversation.created") then do
    let created ← createdConversation event
    return if o.config.resumptionEnabled then some created else conversationId
  else return conversationId

theorem captured_raisesOwn (event : Event) (conversationId : Option PyStr) :
    RaisesOwn (captured o event conversationId) := by
  unfold captured
  by_cases htype : eventType? event = some (lit "conversation.created")
  · rw [if_pos htype]
    exact raises_bind (createdConversation_raisesOwn event) fun _ _ => raises_ok
  · rw [if_neg htype]
    exact raises_ok

/-- A conversation id is the old one or well formed. -/
theorem captured_cases {event : Event} {conversationId conversationId' : Option PyStr}
    (h : captured o event conversationId = .ok conversationId') :
    conversationId' = conversationId ∨ ∃ created, conversationId' = some created ∧
      o.config.resumptionEnabled = true ∧ matchesId created = true := by
  unfold captured at h
  by_cases htype : eventType? event = some (lit "conversation.created")
  · rw [if_pos htype] at h
    obtain ⟨created, hcreated, h⟩ := bind_eq_ok.mp h
    obtain rfl := pure_eq_ok.mp h
    by_cases hr : o.config.resumptionEnabled = true
    · rw [if_pos hr]
      exact .inr ⟨created, rfl, hr, matchesId_of_createdConversation hcreated⟩
    · rw [if_neg hr]
      exact .inl rfl
  · rw [if_neg htype] at h
    exact .inl (pure_eq_ok.mp h).symm

theorem captureConversationId_spec (w : World) (event : Event) :
    Ensures (captureConversationId o event) w
      (fun _ w' => ∃ conversationId, captured o event w.conversationId = .ok conversationId ∧
        w' = { w with conversationId })
      fun s w' => w' = w ∧ ∃ e, s = .raised e ∧ captured o event w.conversationId = .error e := by
  unfold captureConversationId captured
  by_cases htype : eventType? event = some (lit "conversation.created")
  · rw [if_pos htype, if_pos htype]
    refine ensures_bind (ensures_await (fun created hcreated => ?_) fun e he => ?_)
    · rw [hcreated]
      by_cases hr : o.config.resumptionEnabled = true
      · rw [if_pos hr]
        refine ensures_modify ⟨some created, ?_, rfl⟩
        show Except.ok (if _ then _ else _) = _
        rw [if_pos hr]
      · rw [if_neg hr]
        refine ensures_pure ⟨w.conversationId, ?_, rfl⟩
        show Except.ok (if _ then _ else _) = _
        rw [if_neg hr]
    · exact ⟨rfl, e, rfl, bind_eq_error.mpr (.inl he)⟩
  · rw [if_neg htype, if_neg htype]
    exact ensures_pure ⟨w.conversationId, rfl, rfl⟩

/-- An event, and the conversation id after it. -/
def heard (conversationId : Option PyStr) (answer : Answer RawMessage) :
    Answer (Event × Option PyStr) := do
  let event ← receiveAnswer o answer
  let conversationId ← captured o event conversationId
  return (event, conversationId)

/-- A message is received and its conversation id captured. -/
theorem receive_capture_spec {α : Type} {f : Event → Calling α} {Q : α → World → Prop}
    {E : Stop → World → Prop} {socket : ℕ} (hs : w.websocket = some socket) (closing : Answer Unit)
    (answer : Answer RawMessage)
    (hq : ∀ event conversationId, heard o w.conversationId answer = .ok (event, conversationId) →
      Ensures (f event)
        { w with wire := w.wire ++ [.received socket event], conversationId } Q E)
    (he : ∀ e w', heard o w.conversationId answer = .error e → e ≠ .timeout →
      w'.toXaiVoiceClient = w.toXaiVoiceClient → Quietly w w' → E (.raised e) w')
    (ht : ∀ e w', heard o w.conversationId answer = .error .timeout → Closed w w' →
      (e.isException = true ∧ ¬IsBase closing ∨ e.isException = false ∧ IsBase closing) →
      E (.raised e) w') :
    Ensures (do
        let event ← receiveEvent o closing answer
        captureConversationId o event
        f event) w Q E := by
  refine ensures_bind ((receiveEvent_spec o hs closing answer).mono ?_ ?_)
  · rintro event w' ⟨hevent, rfl⟩
    refine ensures_bind ((captureConversationId_spec o _ event).mono ?_ ?_)
    · rintro _ w' ⟨conversationId, hid, rfl⟩
      exact hq event conversationId (bind_eq_ok.mpr ⟨event, hevent, bind_eq_ok.mpr ⟨_, hid, rfl⟩⟩)
    · rintro s w' ⟨rfl, e, rfl, hid⟩
      refine he e _ ?_ ?_ rfl (.record rfl id rfl)
      · exact bind_eq_error.mpr (.inr ⟨event, hevent, bind_eq_error.mpr (.inl hid)⟩)
      · rintro rfl
        cases captured_raisesOwn _ _ _ _ hid
  · rintro s w' ⟨e, rfl, ⟨ha, hne, rfl⟩ | ⟨ha, hc, hb⟩⟩
    · exact he e _ (bind_eq_error.mpr (.inl ha)) hne rfl (.refl _)
    · exact ht e _ (bind_eq_error.mpr (.inl ha)) hc hb

end Methods

end Sentinel.Voice
