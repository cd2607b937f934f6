import SentinelCore.Py.Json
import SentinelCore.Py.Utf8
import SentinelCore.Py.Base64
import SentinelCore.Lib.Act

/-!
# Voice responses

The accumulator of `sentinel_core/xai_voice.py`: `ResponseCollector.consume` takes the events of a
response one by one and returns the response at `response.done`.

`consume` is written over the state of the collector, which keeps what was changed before an
exception.
-/

namespace Sentinel.Voice

open Py Lib

/-- The exceptions of the voice boundary. `python` is one of the interpreter or its library, `other`
any other `Exception`, and `base` one that is no `Exception`, as `asyncio.CancelledError`. -/
inductive VoiceExc where
  | configuration (message : PyStr)
  | protocol (message : PyStr)
  | remote (message : PyStr)
  | python (exc : PyExc)
  | timeout
  | other (name : String)
  | base (name : String)
  deriving DecidableEq

/-- Whether `except Exception` catches it. -/
def VoiceExc.isException : VoiceExc → Bool
  | .base _ => false
  | .configuration _ | .protocol _ | .remote _ | .python _ | .timeout | .other _ => true

/-- `if p: raise e`. -/
def raiseIf (p : Prop) [Decidable p] (e : VoiceExc) : Except VoiceExc Unit :=
  if p then .error e else .ok ()

theorem raiseIf_eq_ok {p : Prop} [Decidable p] {e : VoiceExc} : raiseIf p e = .ok () ↔ ¬p := by
  unfold raiseIf
  split_ifs with h
  · exact iff_of_false nofun (not_not.mpr h)
  · exact iff_of_true rfl h

/-- An event from the server, parsed. -/
abbrev Event := Dict

/-- The interpreter; `compareValues` is `==` on values of which not both are strings. -/
structure VoiceEnv extends Runtime where
  compareValues : Json → Json → Except PyExc Bool

/-! ## Limits -/

def allowedSampleRates : List ℕ := [8000, 16000, 22050, 24000, 32000, 44100, 48000]

/-- What `__post_init__` lets a collector be made with. -/
structure Limits where
  sampleRate : ℕ
  maxAudioBytes : ℕ
  maxTranscriptBytes : ℕ
  maxResponseEvents : ℕ
  sampleRate_mem : sampleRate ∈ allowedSampleRates
  audio_range : 1024 ≤ maxAudioBytes ∧ maxAudioBytes ≤ 512 * 1024 * 1024
  transcript_range : 1024 ≤ maxTranscriptBytes ∧ maxTranscriptBytes ≤ 16 * 1024 * 1024
  events_range : 100 ≤ maxResponseEvents ∧ maxResponseEvents ≤ 100000

/-! ## Events -/

def transcriptDeltaEventTypes : List PyStr :=
  [lit "response.output_audio_transcript.delta", lit "response.text.delta",
    lit "response.output_text.delta"]

def audioDeltaEventTypes : List PyStr := [lit "response.output_audio.delta", lit "response.audio.delta"]

/-- `[A-Za-z0-9._:-]`. -/
def isIdChar (c : CodePoint) : Bool :=
  isAsciiAlnum c || c = chr '.' || c = chr '_' || c = chr ':' || c = chr '-'

/-- `_RESPONSE_ID_RE` and `_CONVERSATION_ID_RE`, on the whole text. -/
def matchesId (s : PyStr) : Bool := 1 ≤ s.length && s.length ≤ 256 && s.all isIdChar

/-- The event type: a non-empty string. -/
def eventType? (event : Event) : Option PyStr := (event.get (lit "type")).nonEmptyStr?

/-- `a != b`. -/
def valuesDiffer (env : VoiceEnv) (a b : Json) : Except VoiceExc Bool :=
  match a, b with
  | .str s, .str t => .ok (s != t)
  | .str _, _ | _, .str _ => .ok true
  | _, _ =>
    match env.compareValues a b with
    | .ok same => .ok (!same)
    | .error e => .error (.python e)

def validatedTranscriptDelta (env : VoiceEnv) (event : Event) : Except VoiceExc (Option PyStr) := do
  if (event.get (lit "type")).str?.any transcriptDeltaEventTypes.contains then
    let deltaValue := event.get (lit "delta")
    let textValue := event.get (lit "text")
    if deltaValue ≠ .null ∧ textValue ≠ .null then
      if ← valuesDiffer env deltaValue textValue then
        throw (.protocol (lit "transcript event contains conflicting delta and text fields"))
    let value := if deltaValue ≠ .null then deltaValue else textValue
    match value.str? with
    | none => throw (.protocol (lit "transcript delta must be a string"))
    | some text => return some text
  else return none

/-- `len(text.encode("utf-8"))`. -/
def utf8Length (text : PyStr) : Except VoiceExc ℕ :=
  match encodeUtf8 text with
  | .ok data => .ok data.length
  | .error e => .error (.python e)

/-- `base64.b64decode(delta, validate=True)`; what it raises is a `ValueError`. -/
def b64decode (delta : PyStr) : Except PyExc Bytes := do
  let data ← encodeAscii delta
  a2bBase64 true data

/-- The bytes of an audio delta. -/
def audioChunk (event : Event) : Except VoiceExc Bytes :=
  match (event.get (lit "delta")).nonEmptyStr? with
  | none => .error (.protocol (lit "audio delta must be non-empty base64 text"))
  | some delta =>
    match b64decode delta with
    | .error _ => .error (.protocol (lit "audio delta is not canonical base64"))
    | .ok chunk =>
      if chunk = [] then .error (.protocol (lit "audio delta decoded to an empty chunk"))
      else if ofBytes (b2aBase64 chunk) ≠ delta then
        .error (.protocol (lit "audio delta is not canonical base64"))
      else .ok chunk

/-- The id of a `response.created` event. -/
def createdId (event : Event) : Except VoiceExc PyStr :=
  match (event.get (lit "response")).toDict? with
  | none => .error (.protocol (lit "response.created is missing response metadata"))
  | some response =>
    match (response.get (lit "id")).nonEmptyStr? with
    | none => .error (.protocol (lit "response.created is missing a response id"))
    | some responseId =>
      if matchesId responseId then .ok responseId
      else .error (.protocol (lit "response.created contains an invalid response id"))

/-- The status of a `response.done` event. -/
def doneStatus (event : Event) : Except VoiceExc (Option PyStr) :=
  match (event.get (lit "response")).toDict? with
  | none => .ok none
  | some response =>
    match response.get (lit "status") with
    | .null => .ok none
    | .str status => .ok (some status)
    | _ => .error (.protocol (lit "response.done status must be a string or null"))

/-! ## The collector -/

structure VoiceResponse where
  responseId : PyStr
  transcript : PyStr
  pcmAudio : Bytes
  sampleRate : ℕ
  status : Option PyStr
  audioDoneSeen : Bool
  eventTypes : List PyStr
  deriving DecidableEq

structure ResponseCollector where
  responseId : Option PyStr
  transcriptParts : List PyStr
  audioParts : List Bytes
  audioBytes : ℕ
  transcriptBytes : ℕ
  eventCount : ℕ
  audioDoneSeen : Bool
  eventTypes : List PyStr
  deriving DecidableEq

namespace ResponseCollector

def initial : ResponseCollector := ⟨none, [], [], 0, 0, 0, false, []⟩

end ResponseCollector

/-- A computation on a collector. -/
abbrev Collecting := Act ResponseCollector VoiceExc

/-- `reset`. -/
def reset : Collecting Unit := set ResponseCollector.initial

def requireActiveResponse (eventType : PyStr) : Collecting Unit := do
  if (← get).responseId = none then
    throw (.protocol (eventType ++ lit " arrived without an active response"))

variable (env : VoiceEnv) (limits : Limits)

/-- The part of `consume` for `response.created`. -/
def consumeCreated (event : Event) : Collecting (Option VoiceResponse) := do
  if (← get).responseId ≠ none then
    throw (.protocol (lit "received response.created while another response is active"))
  let responseId ← Act.ofExcept (createdId event)
  modify fun c => { c with responseId := some responseId }
  return none

/-- The part for a text delta. -/
def consumeText (eventType text : PyStr) : Collecting (Option VoiceResponse) := do
  requireActiveResponse eventType
  let deltaBytes ← Act.ofExcept (utf8Length text)
  let newSize := (← get).transcriptBytes + deltaBytes
  if limits.maxTranscriptBytes < newSize then
    throw (.protocol (lit "response transcript exceeded the configured size limit"))
  modify fun c => { c with transcriptParts := c.transcriptParts ++ [text] }
  modify fun c => { c with transcriptBytes := newSize }
  return none

/-- The part for an audio delta. -/
def consumeAudio (eventType : PyStr) (event : Event) : Collecting (Option VoiceResponse) := do
  requireActiveResponse eventType
  let chunk ← Act.ofExcept (audioChunk event)
  let newSize := (← get).audioBytes + chunk.length
  if limits.maxAudioBytes < newSize then
    throw (.protocol (lit "response audio exceeded the configured size limit"))
  modify fun c => { c with audioParts := c.audioParts ++ [chunk] }
  modify fun c => { c with audioBytes := newSize }
  return none

/-- The part for `response.done`. -/
def consumeDone (eventType : PyStr) (event : Event) : Collecting (Option VoiceResponse) := do
  requireActiveResponse eventType
  let status ← Act.ofExcept (doneStatus event)
  let c ← get
  let pcmAudio := c.audioParts.flatten
  if pcmAudio.length % 2 ≠ 0 then
    throw (.protocol (lit "completed PCM16 audio has an odd byte count"))
  let completed : VoiceResponse :=
    { responseId := (c.responseId.filter (· ≠ [])).getD (lit "unknown")
      transcript := c.transcriptParts.flatten
      pcmAudio := pcmAudio
      sampleRate := limits.sampleRate
      status := status
      audioDoneSeen := c.audioDoneSeen
      eventTypes := c.eventTypes }
  reset
  return some completed

def consume (event : Event) : Collecting (Option VoiceResponse) := do
  match eventType? event with
  | none => throw (.protocol (lit "event.type must be a non-empty string"))
  | some eventType =>
    modify fun c => { c with eventCount := c.eventCount + 1 }
    if limits.maxResponseEvents < (← get).eventCount then
      throw (.protocol (lit "response exceeded the configured event-count limit"))
    modify fun c => { c with eventTypes := c.eventTypes ++ [eventType] }
    if eventType = lit "response.created" then consumeCreated event
    else
      match ← Act.ofExcept (validatedTranscriptDelta env event) with
      | some text => consumeText limits eventType text
      | none =>
        if audioDeltaEventTypes.contains eventType then consumeAudio limits eventType event
        else if eventType = lit "response.output_audio.done" then do
          requireActiveResponse eventType
          modify fun c => { c with audioDoneSeen := true }
          return none
        else if eventType = lit "response.done" then consumeDone limits eventType event
        else return none

end Sentinel.Voice
