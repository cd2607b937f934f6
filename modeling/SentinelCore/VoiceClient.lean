import SentinelCore.Voice
import SentinelCore.Py.JsonPairs
import SentinelCore.Py.Space

/-!
# The voice client

`XaiVoiceClient` of `sentinel_core/xai_voice.py`. A call is a computation on the attributes of the
client and on the record of what happened outside (`World`): what went over which WebSocket and what
the transcript sink was given.

What is awaited comes from outside as an answer, a value or the exception the await ends with; a call
that waits for a message that never comes is left pending (`Stop`). An `asyncio.CancelledError` is a
`VoiceExc.base`, which no `except Exception` catches.
-/

namespace Sentinel.Voice

open Py Lib

/-! ## Configuration -/

/-- `_validate_non_empty_text`, but for the test of the type. -/
def validateNonEmptyText (value fieldName : PyStr) (maxLength : ℕ) : Except VoiceExc Unit :=
  if strip value = [] then .error (.configuration (fieldName ++ lit " must be non-empty text"))
  else if maxLength < value.length then
    .error (.configuration (fieldName ++ lit " exceeded the maximum length"))
  else if value.contains 0 then
    .error (.configuration (fieldName ++ lit " must not contain NUL bytes"))
  else .ok ()

/-- A validated configuration. `instructions` are the effective ones. -/
structure VoiceSessionConfig where
  model : PyStr
  voice : PyStr
  instructions : PyStr
  reasoningEffort : PyStr
  resumptionEnabled : Bool
  maxEventBytes : ℕ
  limits : Limits
  model_ok : validateNonEmptyText model (lit "model") 128 = .ok ()
  voice_ok : validateNonEmptyText voice (lit "voice") 256 = .ok ()
  instructions_ok : validateNonEmptyText instructions (lit "instructions") 32000 = .ok ()
  effort_mem : reasoningEffort ∈ [lit "high", lit "none"]
  event_range : 1024 ≤ maxEventBytes ∧ maxEventBytes ≤ 16 * 1024 * 1024

/-- `_AGENT_ID_RE`, on the whole text. -/
def matchesAgentId (s : PyStr) : Bool :=
  startsWith s (lit "agent_") && 8 ≤ (s.drop 6).length && (s.drop 6).length ≤ 128 &&
    (s.drop 6).all isAsciiAlnum

/-- One byte of `quote_plus`. -/
def quoteByte (b : Byte) : PyStr :=
  let c : CodePoint := point b.val
  if isAsciiAlnum c || (lit "_.-~").contains c then [c]
  else if b.val = 0x20 then [chr '+']
  else
    let upper := fun n => if n < 10 then point (0x30 + n) else point (0x41 + (n - 10))
    [chr '%', upper (b.val / 16), upper (b.val % 16)]

/-- `quote_plus`. -/
def quotePlus (s : PyStr) : Except VoiceExc PyStr :=
  match encodeUtf8 s with
  | .ok data => .ok (data.flatMap quoteByte)
  | .error e => .error (.python e)

/-- `urlencode`. -/
def urlencode (query : List (PyStr × PyStr)) : Except VoiceExc PyStr := do
  let parts ← query.mapM fun kv => do
    let key ← quotePlus kv.1
    let value ← quotePlus kv.2
    return key ++ chr '=' :: value
  return (lit "&").intercalate parts

namespace VoiceSessionConfig

variable (config : VoiceSessionConfig)

/-- The `conversation_id` parameter of the URL. -/
def conversationQuery (conversationId : Option PyStr) : Except VoiceExc (List (PyStr × PyStr)) :=
  match conversationId with
  | none => .ok []
  | some conversationId =>
    if config.resumptionEnabled = false then
      .error (.configuration (lit "conversation_id requires resumption_enabled=true"))
    else if matchesId conversationId = false then
      .error (.configuration (lit "conversation_id has an invalid format"))
    else .ok [(lit "conversation_id", conversationId)]

/-- The `agent_id` parameter of the URL. -/
def agentQuery (agentId : Option PyStr) (allowUndocumentedAgentId : Bool) :
    Except VoiceExc (List (PyStr × PyStr)) :=
  match agentId with
  | none => .ok []
  | some agentId =>
    if allowUndocumentedAgentId = false then
      .error (.configuration (lit "agent_id is undocumented by the public xAI Voice Agent API; " ++
        lit "explicit operator opt-in is required"))
    else if matchesAgentId agentId = false then
      .error (.configuration (lit "agent_id has an invalid format"))
    else .ok [(lit "agent_id", agentId)]

def websocketUrl (conversationId agentId : Option PyStr) (allowUndocumentedAgentId : Bool) :
    Except VoiceExc PyStr := do
  let conversation ← config.conversationQuery conversationId
  let agent ← agentQuery agentId allowUndocumentedAgentId
  let query ← urlencode ([(lit "model", config.model)] ++ conversation ++ agent)
  return lit "wss://api.x.ai/v1/realtime" ++ chr '?' :: query

/-- `{"format": {"type": "audio/pcm", "rate": …}}`. -/
def formatJson : Json :=
  .obj [(lit "format", .obj [(lit "type", .str (lit "audio/pcm")),
    (lit "rate", .int config.limits.sampleRate)])]

def sessionUpdateEvent : Event where
  fields := [(lit "type", .str (lit "session.update")),
    (lit "session", .obj [(lit "voice", .str config.voice),
      (lit "instructions", .str config.instructions),
      (lit "reasoning", .obj [(lit "effort", .str config.reasoningEffort)]),
      (lit "turn_detection", .obj [(lit "type", .str (lit "server_vad"))]),
      (lit "resumption", .obj [(lit "enabled", .bool config.resumptionEnabled)]),
      (lit "audio", .obj [(lit "input", config.formatJson), (lit "output", config.formatJson)])])]
  wf := rfl

end VoiceSessionConfig

/-! ## Events -/

/-- The user's event and the request for a response. -/
def userEvent (prompt : PyStr) : Event where
  fields := [(lit "type", .str (lit "conversation.item.create")),
    (lit "item", .obj [(lit "type", .str (lit "message")), (lit "role", .str (lit "user")),
      (lit "content", .arr [.obj [(lit "type", .str (lit "input_text")),
        (lit "text", .str prompt)]])])]
  wf := rfl

def responseEvent : Event where
  fields := [(lit "type", .str (lit "response.create"))]
  wf := rfl

def buildUserTurnEvents (prompt : PyStr) : Except VoiceExc (Event × Event) := do
  validateNonEmptyText prompt (lit "prompt") 32000
  return (userEvent prompt, responseEvent)

/-- `_reject_duplicate_object_pairs`. -/
def rejectDuplicateObjectPairs (pairs : List (PyStr × Json)) : Except VoiceExc Json :=
  if (pairs.map Prod.fst).Nodup then .ok (.obj pairs)
  else .error (.protocol (lit "server event contains duplicate JSON keys"))

/-- A message from a WebSocket: a `str` or a `bytes`. -/
inductive RawMessage where
  | text (s : PyStr)
  | binary (data : Bytes)

/-- The text of a message, with its size in bytes. -/
def RawMessage.decode : RawMessage → Except VoiceExc (PyStr × ℕ)
  | .text s =>
    match utf8Length s with
    | .ok n => .ok (s, n)
    | .error e => .error e
  | .binary data =>
    match decodeUtf8 data with
    | .ok s => .ok (s, data.length)
    | .error _ => .error (.protocol (lit "server event is not valid UTF-8"))

/-- The call of `json.loads`. -/
def parseJson (env : VoiceEnv) (text : PyStr) : Except VoiceExc Json :=
  match loadsPairs env.toRuntime rejectDuplicateObjectPairs text with
  | .ok value => .ok value
  | .error (.inr e) => .error e
  | .error (.inl e) =>
    if e.cls.isValueError || e.cls = .typeError then
      .error (.protocol (lit "server event is not valid JSON"))
    else .error (.python e)

/-- The event a parsed message is. -/
def toEvent (value : Json) : Except VoiceExc Event :=
  match value.toDict? with
  | none => .error (.protocol (lit "server event must be a JSON object"))
  | some event =>
    if eventType? event = none then .error (.protocol (lit "server event is missing type"))
    else .ok event

/-- `parse_server_event`, for a limit in the range that it checks first; that of a configuration is
(`event_range`). -/
def parseServerEvent (env : VoiceEnv) (raw : RawMessage) (maxEventBytes : ℕ) :
    Except VoiceExc Event := do
  let decoded ← raw.decode
  raiseIf (maxEventBytes < decoded.2)
    (.protocol (lit "server event exceeded the configured size limit"))
  let value ← parseJson env decoded.1
  toEvent value

/-- `_safe_terminal_text`. -/
def safeTerminalText (value : PyStr) : PyStr :=
  value.filter fun c => c = chr '\n' || c = chr '\r' || c = chr '\t' ||
    (32 ≤ c.val && !(127 ≤ c.val && c.val ≤ 159))

/-- `_safe_remote_field`; the empty text counts as none. -/
def safeRemoteField (value : Json) (maxLength : ℕ) : Option PyStr :=
  value.str?.bind fun s =>
    let cleaned := ((lit " ").intercalate (splitWords (safeTerminalText s) [])).take maxLength
    if cleaned = [] then none else some cleaned

def remoteError (event : Event) : VoiceExc :=
  match (event.get (lit "error")).toDict? with
  | none => .remote (lit "xAI returned an unspecified error")
  | some error =>
    let code := safeRemoteField (error.get (lit "code")) 80
    let message := safeRemoteField (error.get (lit "message")) 300
    .remote ((lit "; ").intercalate ([lit "xAI returned an error"] ++
      (code.map fun c => lit "code=" ++ c).toList ++
      (message.map fun m => lit "message=" ++ m).toList))

/-! ## The client and what it meets -/

/-- The attributes of a client that change; a WebSocket is known by its number. -/
structure XaiVoiceClient where
  conversationId : Option PyStr
  websocket : Option ℕ
  sessionReady : Bool
  deriving DecidableEq

/-- What happens on a WebSocket. `sending` is the call of `send`, `sent` its return. -/
inductive WireEvent where
  | opened (socket : ℕ) (url : PyStr)
  | sending (socket : ℕ) (event : Event)
  | sent (socket : ℕ) (event : Event)
  | received (socket : ℕ) (event : Event)
  | closing (socket : ℕ)

/-- The client, the number of WebSockets opened so far, what happened on them, and what the sink was
given. -/
structure World extends XaiVoiceClient where
  opened : ℕ
  wire : List WireEvent
  emitted : List PyStr

/-- A client that was just made. -/
def World.initial : World := ⟨⟨none, none, false⟩, 0, [], []⟩

/-- Why a call does not return: an exception, or it still waits for a message. -/
inductive Stop where
  | raised (e : VoiceExc)
  | pending
  deriving DecidableEq

abbrev Calling := Act World Stop

/-- The answer to an await. -/
abbrev Answer (α : Type) := Except VoiceExc α

/-- What a client is made with. The sink is a function of what it was given before and of the new
text; it may raise. `installed` says whether the package `websockets` can be imported. -/
structure ClientOptions where
  env : VoiceEnv
  config : VoiceSessionConfig
  agentId : Option PyStr
  allowUndocumentedAgentId : Bool
  transcriptSink : Option (List PyStr → PyStr → Option VoiceExc)
  installed : Bool
  -- the constructor builds the URL once
  url_ok : ∃ url, config.websocketUrl none agentId allowUndocumentedAgentId = .ok url

def raise {α : Type} (e : VoiceExc) : Calling α := throw (.raised e)

/-- An answer, or a check without a state. -/
def await {α : Type} (answer : Answer α) : Calling α := Act.ofExcept (answer.mapError .raised)

/-- `try: body except …: handler`. -/
def tryCatching {α : Type} (body : Calling α) (catches : VoiceExc → Bool)
    (handler : VoiceExc → Calling α) : Calling α :=
  Act.handle body
    (fun | .raised e => catches e | .pending => false)
    (fun | .raised e => handler e | .pending => throw .pending)

def record (x : WireEvent) : Calling Unit := modify fun w => { w with wire := w.wire ++ [x] }

/-- `self._conversation_id = None`. -/
def forgetConversation : Calling Unit := modify fun w => { w with conversationId := none }

/-! ## Sending and receiving -/

section Methods

variable (o : ClientOptions)

/-- `close`; the answer is that of `websocket.close`. -/
def close (closing : Answer Unit) : Calling Unit := do
  let websocket := (← get).websocket
  modify fun w => { w with websocket := none, sessionReady := false }
  match websocket with
  | none => return ()
  | some socket =>
    record (.closing socket)
    tryCatching (await closing) VoiceExc.isException fun _ => return ()

/-- `json.dumps(event, ensure_ascii=False, separators=(",", ":"))`. -/
def dumpsEvent (event : Event) : Except VoiceExc PyStr :=
  match o.env.checkLimits event.toJson with
  | .ok () => .ok event.toJson.compactText
  | .error e => .error (.python e)

/-- The part of `_send_event` before `send`. -/
def checkPayload (event : Event) : Except VoiceExc Unit := do
  let payload ← dumpsEvent o event
  let size ← utf8Length payload
  raiseIf (o.config.maxEventBytes < size)
    (.protocol (lit "outbound event exceeded the configured size limit"))

def sendEvent (event : Event) (answer : Answer Unit) : Calling Unit := do
  match (← get).websocket with
  | none => raise (.protocol (lit "WebSocket is not connected"))
  | some socket =>
    await (checkPayload o event)
    record (.sending socket event)
    await answer
    record (.sent socket event)

/-- `_receive_event`; a `TimeoutError` of `recv` closes the WebSocket first. -/
def receiveEvent (closing : Answer Unit) (answer : Answer RawMessage) : Calling Event := do
  match (← get).websocket with
  | none => raise (.protocol (lit "WebSocket is not connected"))
  | some socket =>
    let raw ← tryCatching (await answer) (· = .timeout) fun _ => do
      close closing
      raise (.protocol (lit "timed out while waiting for a server event"))
    let event ← await (parseServerEvent o.env raw o.config.maxEventBytes)
    record (.received socket event)
    return event

/-- The id of a `conversation.created` event. -/
def createdConversation (event : Event) : Except VoiceExc PyStr :=
  match (event.get (lit "conversation")).toDict? with
  | none => .error (.protocol (lit "conversation.created is missing conversation metadata"))
  | some conversation =>
    match (conversation.get (lit "id")).str? with
    | none => .error (.protocol (lit "conversation.created is missing conversation id"))
    | some conversationId =>
      if matchesId conversationId then .ok conversationId
      else .error (.protocol (lit "conversation id has an invalid format"))

def captureConversationId (event : Event) : Calling Unit := do
  if eventType? event = some (lit "conversation.created") then
    let conversationId ← await (createdConversation event)
    if o.config.resumptionEnabled then
      modify fun w => { w with conversationId := some conversationId }

/-! ## Calls -/

/-- The answers a `connect` meets: opening, sending `session.update`, the messages, and closing. -/
structure ConnectAnswers where
  opening : Answer Unit
  update : Answer Unit
  receives : List (Answer RawMessage)
  closing : Answer Unit

/-- `_wait_for_session_ready`. -/
def waitForSessionReady (closing : Answer Unit) : List (Answer RawMessage) → Calling Unit
  | [] => throw .pending
  | answer :: rest => do
    let event ← receiveEvent o closing answer
    captureConversationId o event
    if eventType? event = some (lit "error") then raise (remoteError event)
    else if eventType? event = some (lit "session.updated") then
      modify fun w => { w with sessionReady := true }
    else waitForSessionReady closing rest

/-- `self._websocket = await websockets.connect(url, …)`. -/
def openWebsocket (url : PyStr) (opening : Answer Unit) : Calling Unit := do
  await opening
  let socket := (← get).opened
  record (.opened socket url)
  modify fun w => { w with opened := socket + 1, websocket := some socket }

/-- The `try` of `connect`. -/
def openSession (url : PyStr) (a : ConnectAnswers) : Calling Unit :=
  tryCatching
    (do
      openWebsocket url a.opening
      sendEvent o o.config.sessionUpdateEvent a.update
      waitForSessionReady o a.closing a.receives)
    VoiceExc.isException
    fun e => do
      forgetConversation
      close a.closing
      raise e

def connect (a : ConnectAnswers) : Calling Unit := do
  let w ← get
  if w.websocket ≠ none then return ()
  else if o.installed = false then
    raise (.configuration (lit "Install the voice extra with: python -m pip install -e .[voice]"))
  else
    let url ← await (o.config.websocketUrl w.conversationId o.agentId o.allowUndocumentedAgentId)
    openSession o url a

/-- The answers a `run_turn` meets. -/
structure TurnAnswers where
  connect : ConnectAnswers
  first : Answer Unit
  second : Answer Unit
  receives : List (Answer RawMessage)
  closing : Answer Unit

/-- `self._transcript_sink(transcript_delta)`, if there are both. -/
def emit (transcriptDelta : Option PyStr) : Calling Unit := do
  match transcriptDelta, o.transcriptSink with
  | some text, some sink =>
    let before := (← get).emitted
    modify fun w => { w with emitted := before ++ [text] }
    match sink before text with
    | none => return ()
    | some e => raise e
  | some _, none | none, _ => return ()

/-- The end of a turn at a completed response. -/
def finish (completed : VoiceResponse) : Calling VoiceResponse :=
  if completed.status = none ∨ completed.status = some (lit "completed") then return completed
  else
    raise (.remote (lit "xAI response ended without completion; status=" ++
      (safeRemoteField (((completed.status).map Json.str).getD .null) 80).getD (lit "unknown")))

/-- What `run_turn` does with an event, and the collector after it. -/
def process (collector : ResponseCollector) (event : Event) :
    Calling (Option VoiceResponse × ResponseCollector) :=
  if eventType? event = some (lit "error") then raise (remoteError event)
  else do
    let consumed := (consume o.env o.config.limits event).run collector
    let completed ← await consumed.1
    let transcriptDelta ← await (validatedTranscriptDelta o.env event)
    emit o transcriptDelta
    return (completed, consumed.2)

/-- The loop of `run_turn`. -/
def turnLoop (closing : Answer Unit) :
    ResponseCollector → List (Answer RawMessage) → Calling VoiceResponse
  | _, [] => throw .pending
  | collector, answer :: rest => do
    let event ← receiveEvent o closing answer
    captureConversationId o event
    let processed ← process o collector event
    match processed.1 with
    | some completed => finish completed
    | none => turnLoop closing processed.2 rest

/-- The first `try` of `run_turn`. -/
def deliver (user response : Event) (a : TurnAnswers) : Calling Unit :=
  tryCatching
    (do
      sendEvent o user a.first
      sendEvent o response a.second)
    VoiceExc.isException
    fun _ => do
      forgetConversation
      close a.closing
      raise (.protocol (lit "turn delivery became ambiguous; the client closed without " ++
        lit "automatic replay"))

/-- The second `try` of `run_turn`. -/
def collect (a : TurnAnswers) : Calling VoiceResponse :=
  tryCatching (turnLoop o a.closing .initial a.receives) (fun _ => true) fun e => do
    forgetConversation
    -- the shielded task runs up to its first await before the caller can be resumed
    close a.closing
    raise e

def runTurn (prompt : PyStr) (a : TurnAnswers) : Calling VoiceResponse := do
  let w ← get
  (if w.websocket = none ∨ w.sessionReady = false then connect o a.connect else pure ())
  let (user, response) ← await (buildUserTurnEvents prompt)
  deliver o user response a
  collect o a

end Methods

/-! ## Runs -/

/-- A call of a method, with what it meets. -/
inductive Call where
  | connect (a : ConnectAnswers)
  | runTurn (prompt : PyStr) (a : TurnAnswers)
  | close (closing : Answer Unit)

/-- How a call ends. -/
inductive Ending where
  | returned
  | response (r : VoiceResponse)
  | stopped (s : Stop)

namespace Ending

/-- The call is over. -/
def isOver : Ending → Bool
  | .stopped .pending => false
  | .stopped (.raised _) | .returned | .response _ => true

/-- The call ended with an exception. -/
def isRaised : Ending → Bool
  | .stopped (.raised _) => true
  | .stopped .pending | .returned | .response _ => false

end Ending

/-- One call. -/
def perform (o : ClientOptions) (w : World) : Call → Ending × World
  | .connect a =>
    match (connect o a).run w with
    | (.ok (), w') => (.returned, w')
    | (.error s, w') => (.stopped s, w')
  | .runTurn prompt a =>
    match (runTurn o prompt a).run w with
    | (.ok r, w') => (.response r, w')
    | (.error s, w') => (.stopped s, w')
  | .close closing =>
    match (close closing).run w with
    | (.ok (), w') => (.returned, w')
    | (.error s, w') => (.stopped s, w')

/-- A call of a run, with the worlds before and after it. -/
structure Performed where
  call : Call
  before : World
  ending : Ending
  after : World

/-- A run of calls. After a call that is left pending there is no further call. -/
def performAll (o : ClientOptions) (w : World) : List Call → List Performed
  | [] => []
  | call :: rest =>
    let (ending, after) := perform o w call
    ⟨call, w, ending, after⟩ :: if ending.isOver then performAll o after rest else []

end Sentinel.Voice
