import SentinelCore.VoiceRuns
import SentinelCore.VoiceCollector

/-!
# Errors of malformed events

What a remote event makes `parse_server_event` and `consume` raise. Within the nesting the JSON parser
can follow, every exception is an `XaiVoiceProtocolError`, with one exception for each of the two: a
message with a lone surrogate, and an event whose text delta has one (`BrokenDelta`). Both come from
encoding a text as UTF-8 outside of a `try`.
-/

namespace Sentinel.Voice

open Py Lib

/-- An `XaiVoiceProtocolError`. -/
def IsProtocol (e : VoiceExc) : Prop := ∃ message, e = .protocol message

theorem isProtocol (message : PyStr) : IsProtocol (.protocol message) := ⟨message, rfl⟩

theorem raises_protocol {α : Type} (message : PyStr) :
    Raises (.error (.protocol message) : Except VoiceExc α) IsProtocol := by
  intro e h
  rw [← Except.error.inj h]
  exact isProtocol message

theorem raiseIf_protocol {p : Prop} [Decidable p] {message : PyStr} :
    Raises (raiseIf p (.protocol message)) IsProtocol := by
  unfold raiseIf
  split_ifs
  · exact raises_protocol _
  · exact raises_ok

/-! ## Parsing -/

variable {env : VoiceEnv} {limits : Limits}

variable (env) in
/-- The parser does not reach its recursion limit on the message. -/
def NestsWithin (raw : RawMessage) : Prop :=
  ∀ decoded, raw.decode = .ok decoded →
    loadsPairs env.toRuntime rejectDuplicateObjectPairs decoded.1 ≠
      .error (.inl (.std .recursionError (.jsonLoads decoded.1)))

/-- A message of text is valid Unicode, as every text decoded from UTF-8 is. -/
def IsUnicode (raw : RawMessage) : Prop := ∀ s, raw = .text s → isEncodable s = true

theorem utf8Length_eq_error {text : PyStr} {e : VoiceExc} (h : utf8Length text = .error e) :
    isEncodable text = false ∧ ¬IsProtocol e := by
  unfold utf8Length encodeUtf8 at h
  split_ifs at h with hencodable
  rw [← Except.error.inj h]
  exact ⟨Bool.eq_false_iff.mpr hencodable, fun ⟨_, hp⟩ => by cases hp⟩

theorem decode_text (s : PyStr) :
    (RawMessage.text s).decode = (utf8Length s).map fun n => (s, n) := by
  unfold RawMessage.decode
  dsimp only
  cases utf8Length s with
  | error e => rfl
  | ok n => rfl

theorem decode_binary (data : Bytes) :
    Raises (RawMessage.binary data).decode IsProtocol := by
  unfold RawMessage.decode
  dsimp only
  split
  · exact raises_ok
  · exact raises_protocol _

theorem decode_protocol_iff {raw : RawMessage} :
    Raises raw.decode IsProtocol ↔ IsUnicode raw := by
  cases raw with
  | text s =>
    rw [decode_text]
    cases hlen : utf8Length s with
    | error e =>
      obtain ⟨hbroken, hnot⟩ := utf8Length_eq_error hlen
      refine iff_of_false (fun h => hnot (h e rfl)) fun h => ?_
      rw [h s rfl] at hbroken
      cases hbroken
    | ok n =>
      refine iff_of_true raises_ok fun t ht => ?_
      obtain rfl := RawMessage.text.inj ht
      exact (utf8Length_eq_ok.mp hlen).1
  | binary data => exact iff_of_true (decode_binary data) fun s hs => by cases hs

theorem rejectDuplicateObjectPairs_fits (depth : ℕ) (pairs : List (PyStr × Json)) (v : Json)
    (hpairs : ∀ kv ∈ pairs, FitsDepth depth kv.2) (h : rejectDuplicateObjectPairs pairs = .ok v) :
    FitsDepth (depth + 1) v := by
  unfold rejectDuplicateObjectPairs at h
  split_ifs at h with hnodup
  rw [← Except.ok.inj h]
  exact FitsDepth.obj hnodup hpairs

theorem rejectDuplicateObjectPairs_protocol (pairs : List (PyStr × Json)) :
    Raises (rejectDuplicateObjectPairs pairs) IsProtocol := by
  unfold rejectDuplicateObjectPairs
  split_ifs
  · exact raises_ok
  · exact raises_protocol _

theorem parseJson_protocol {text : PyStr}
    (hnests : loadsPairs env.toRuntime rejectDuplicateObjectPairs text ≠
      .error (.inl (.std .recursionError (.jsonLoads text)))) :
    Raises (parseJson env text) IsProtocol := by
  intro e h
  unfold parseJson at h
  cases hload : loadsPairs env.toRuntime rejectDuplicateObjectPairs text with
  | ok value => rw [hload] at h; cases h
  | error failure =>
    rw [hload] at h
    cases failure with
    | inr e' =>
      obtain rfl := Except.error.inj h
      exact loadsPairs_hook rejectDuplicateObjectPairs_protocol hload
    | inl e' =>
      rcases loadsPairs_error hload with hvalue | rfl
      · dsimp only at h
        rw [hvalue, Bool.true_or, if_pos rfl] at h
        rw [← Except.error.inj h]
        exact isProtocol _
      · exact absurd hload hnests

theorem toEvent_protocol (value : Json) : Raises (toEvent value) IsProtocol := by
  unfold toEvent
  split
  · exact raises_protocol _
  · split_ifs
    · exact raises_protocol _
    · exact raises_ok

theorem parseServerEvent_protocol_iff {raw : RawMessage} (hnests : NestsWithin env raw) (n : ℕ) :
    Raises (parseServerEvent env raw n) IsProtocol ↔ IsUnicode raw := by
  rw [← decode_protocol_iff]
  constructor
  · intro h e he
    exact h e (by unfold parseServerEvent; rw [he]; rfl)
  · intro hdecode
    exact raises_bind hdecode fun decoded hdecoded => raises_bind raiseIf_protocol fun _ _ =>
      raises_bind (parseJson_protocol (hnests decoded hdecoded)) fun value _ => toEvent_protocol value

/-- What the parser returns keeps to its nesting. -/
theorem parseServerEvent_loadable {raw : RawMessage} {n : ℕ} {event : Event}
    (h : parseServerEvent env raw n = .ok event) : env.Loadable event.toJson := by
  unfold parseServerEvent at h
  obtain ⟨decoded, -, h⟩ := bind_eq_ok.mp h
  obtain ⟨-, -, h⟩ := bind_eq_ok.mp h
  obtain ⟨value, hvalue, h⟩ := bind_eq_ok.mp h
  have hload : loadsPairs env.toRuntime rejectDuplicateObjectPairs decoded.1 = .ok value := by
    unfold parseJson at hvalue
    split at hvalue
    · next value' hv =>
      rw [hv, Except.ok.inj hvalue]
    · cases hvalue
    · split_ifs at hvalue
  have hdict : value.toDict? = some event := by
    unfold toEvent at h
    split at h
    · cases h
    · next event' hevent =>
      split_ifs at h
      rw [hevent, Except.ok.inj h]
  rw [← Json.toDict?_eq_some.mp hdict]
  exact loadsPairs_loadable rejectDuplicateObjectPairs_fits hload

theorem loadable_get {event : Event} (h : env.Loadable event.toJson) (key : PyStr) :
    env.Loadable (event.get key) := by
  unfold Dict.get
  cases hget : event.get? key with
  | none => exact ⟨rfl, Nat.zero_le _, rfl⟩
  | some v =>
    have hmem : (key, v) ∈ event.fields := mem_of_getField hget
    obtain ⟨hwf, hdepth, hints⟩ := h
    refine ⟨(Json.wellFormed_obj.mp hwf).2 _ hmem, ?_, ?_⟩
    · exact Json.depthFields_le.mp (Nat.le_of_succ_le hdepth) _ hmem
    · exact Json.intsPrintableFields_iff.mp hints _ hmem

/-! ## Consuming -/

variable (env) in
/-- Values that the parser can build are compared without an error. -/
def ComparesLoaded : Prop :=
  ∀ a b, env.Loadable a → env.Loadable b → ∃ same, env.compareValues a b = .ok same

/-- The event is a text delta with the text, in one field or in both. -/
def CarriesText (event : Event) (text : PyStr) : Prop :=
  (∃ eventType ∈ transcriptDeltaEventTypes, event.get (lit "type") = .str eventType) ∧
    (event.get (lit "delta") = .str text ∧
        (event.get (lit "text") = .null ∨ event.get (lit "text") = .str text) ∨
      event.get (lit "delta") = .null ∧ event.get (lit "text") = .str text)

variable (limits) in
/-- A text delta for the active response, with a text that has no encoding. -/
def BrokenDelta (c : ResponseCollector) (event : Event) : Prop :=
  c.responseId ≠ none ∧ c.eventCount < limits.maxResponseEvents ∧
    ∃ text, CarriesText event text ∧ isEncodable text = false

theorem valuesDiffer_loaded (hcompare : ComparesLoaded env) {a b : Json} (ha : env.Loadable a)
    (hb : env.Loadable b) : ∃ differ, valuesDiffer env a b = .ok differ := by
  unfold valuesDiffer
  split
  · exact ⟨_, rfl⟩
  · exact ⟨_, rfl⟩
  · exact ⟨_, rfl⟩
  · obtain ⟨same, hsame⟩ := hcompare a b ha hb
    rw [hsame]
    exact ⟨_, rfl⟩

/-- A text equals the same text only. -/
theorem valuesDiffer_str (env : VoiceEnv) (s : PyStr) (b : Json) :
    valuesDiffer env (.str s) b = .ok (decide (b ≠ .str s)) := by
  cases b with
  | str t =>
    show Except.ok (s != t) = _
    by_cases h : s = t
    · simp [h]
    · simp [h, Ne.symm h]
  | _ => simp [valuesDiffer]

/-- The text that is left to choose. -/
def pickText (value : Json) : Except VoiceExc (Option PyStr) :=
  match value.str? with
  | none => throw (.protocol (lit "transcript delta must be a string"))
  | some text => return some text

theorem pickText_protocol (value : Json) : Raises (pickText value) IsProtocol := by
  unfold pickText
  split
  · exact raises_protocol _
  · exact raises_ok

theorem pickText_eq_ok {value : Json} {text : PyStr} :
    pickText value = .ok (some text) ↔ value = .str text := by
  unfold pickText
  rw [← Json.str?_eq_some]
  cases value.str? with
  | none => exact iff_of_false (fun h => by cases h) fun h => by cases h
  | some t => exact ⟨fun h => Except.ok.inj h, fun h => by rw [h]; rfl⟩

/-- The three ways of a text delta: two fields that may conflict, and one field. -/
theorem validatedTranscriptDelta_eq (env : VoiceEnv) (event : Event) :
    validatedTranscriptDelta env event =
      if (event.get (lit "type")).str?.any transcriptDeltaEventTypes.contains = true then
        if event.get (lit "delta") = .null then pickText (event.get (lit "text"))
        else if event.get (lit "text") = .null then pickText (event.get (lit "delta"))
        else valuesDiffer env (event.get (lit "delta")) (event.get (lit "text")) >>= fun differ =>
          if differ = true then
            .error (.protocol (lit "transcript event contains conflicting delta and text fields"))
          else pickText (event.get (lit "delta"))
      else .ok none := by
  unfold validatedTranscriptDelta
  refine if_congr Iff.rfl ?_ rfl
  by_cases hdelta : event.get (lit "delta") = .null
  · simp only [hdelta, ne_eq, not_true_eq_false, false_and, if_false, if_true]
    rfl
  · by_cases htext : event.get (lit "text") = .null
    · simp only [hdelta, htext, ne_eq, not_true_eq_false, not_false_eq_true, and_false, if_false,
        if_true]
      rfl
    · simp only [hdelta, htext, ne_eq, not_false_eq_true, and_self, if_false, if_true]
      rfl

theorem validatedTranscriptDelta_protocol (hcompare : ComparesLoaded env) {event : Event}
    (hload : env.Loadable event.toJson) :
    Raises (validatedTranscriptDelta env event) IsProtocol := by
  rw [validatedTranscriptDelta_eq]
  split_ifs
  · exact pickText_protocol _
  · exact pickText_protocol _
  · obtain ⟨differ, hdiffer⟩ := valuesDiffer_loaded hcompare (loadable_get hload (lit "delta"))
      (loadable_get hload (lit "text"))
    rw [hdiffer]
    refine raises_bind raises_ok fun differ' _ => ?_
    split_ifs
    · exact raises_protocol _
    · exact pickText_protocol _
  · exact raises_ok

/-- The texts that reach the transcript are those the events carry. -/
theorem validatedTranscriptDelta_eq_some {event : Event} {text : PyStr} :
    validatedTranscriptDelta env event = .ok (some text) ↔ CarriesText event text := by
  rw [validatedTranscriptDelta_eq]
  unfold CarriesText
  have htype : (event.get (lit "type")).str?.any transcriptDeltaEventTypes.contains = true ↔
      ∃ eventType ∈ transcriptDeltaEventTypes, event.get (lit "type") = .str eventType := by
    rw [Option.any_eq_true]
    simp only [Json.str?_eq_some, List.contains_iff_mem]
    exact exists_congr fun eventType => and_comm
  rw [← htype]
  split_ifs with ht hdelta htext
  · rw [pickText_eq_ok, hdelta]
    simp [ht]
  · rw [pickText_eq_ok, htext]
    simp [ht, hdelta]
  · rw [bind_eq_ok]
    constructor
    · rintro ⟨differ, hdiffer, h⟩
      split_ifs at h with hd
      have hstr := pickText_eq_ok.mp h
      rw [hstr, valuesDiffer_str, Except.ok.injEq] at hdiffer
      rw [← hdiffer, decide_eq_true_eq, not_not] at hd
      exact ⟨ht, .inl ⟨hstr, .inr hd⟩⟩
    · rintro ⟨-, ⟨hstr, hnull | hsame⟩ | ⟨hnull, -⟩⟩
      · exact absurd hnull htext
      · rw [hstr, hsame, valuesDiffer_str]
        exact ⟨false, by simp, pickText_eq_ok.mpr rfl⟩
      · exact absurd hnull hdelta
  · simp [ht]

theorem utf8Length_protocol {text : PyStr} (h : isEncodable text = true) :
    Raises (utf8Length text) IsProtocol := by
  intro e he
  rw [(utf8Length_eq_error he).1] at h
  cases h

theorem createdId_protocol (event : Event) : Raises (createdId event) IsProtocol := by
  unfold createdId
  split
  · exact raises_protocol _
  split
  · exact raises_protocol _
  split_ifs
  · exact raises_ok
  · exact raises_protocol _

theorem audioChunk_protocol (event : Event) : Raises (audioChunk event) IsProtocol := by
  unfold audioChunk
  split
  · exact raises_protocol _
  split
  · exact raises_protocol _
  split_ifs
  · exact raises_protocol _
  · exact raises_protocol _
  · exact raises_ok

theorem doneStatus_protocol (event : Event) : Raises (doneStatus event) IsProtocol := by
  unfold doneStatus
  split
  · exact raises_ok
  split
  · exact raises_ok
  · exact raises_ok
  · exact raises_protocol _

/-- The exceptions of a step on a collector, whatever it returns. -/
abbrev RaisesProtocol {α : Type} (x : Collecting α) (c : ResponseCollector)
    (Q : α → ResponseCollector → Prop) : Prop :=
  Act.Ensures x c Q fun e _ => IsProtocol e

theorem requireActiveResponse_protocol (eventType : PyStr) (c : ResponseCollector) :
    RaisesProtocol (requireActiveResponse eventType) c fun _ c' => c' = c ∧ c.responseId ≠ none := by
  unfold requireActiveResponse
  refine Act.ensures_get_bind (Act.ensures_ite (fun _ => ?_) fun hactive => ?_)
  · exact Act.ensures_throw (isProtocol _)
  · exact Act.ensures_pure ⟨rfl, hactive⟩

theorem consumeCreated_protocol (event : Event) (c : ResponseCollector) :
    RaisesProtocol (consumeCreated event) c fun _ _ => True := by
  unfold consumeCreated
  refine Act.ensures_get_bind (Act.ensures_ite (fun _ => ?_) fun _ => ?_)
  · exact Act.ensures_bind (Act.ensures_throw (isProtocol _))
  · refine (Act.ensures_bind (Act.ensures_ofExcept (fun responseId _ => ?_)
      (createdId_protocol event)))
    exact trivial

theorem consumeText_protocol {text : PyStr} (eventType : PyStr) (c : ResponseCollector)
    (htext : c.responseId ≠ none → isEncodable text = true) :
    RaisesProtocol (consumeText limits eventType text) c fun _ _ => True := by
  unfold consumeText
  refine Act.ensures_bind ((requireActiveResponse_protocol eventType c).mono ?_ fun _ _ he => he)
  rintro - _ ⟨rfl, hactive⟩
  refine Act.ensures_bind (Act.ensures_ofExcept (fun n _ => ?_)
    (utf8Length_protocol (htext hactive)))
  refine Act.ensures_get_bind (Act.ensures_ite (fun _ => ?_) fun _ => ?_)
  · exact Act.ensures_bind (Act.ensures_throw (isProtocol _))
  · exact trivial

theorem consumeAudio_protocol (eventType : PyStr) (event : Event) (c : ResponseCollector) :
    RaisesProtocol (consumeAudio limits eventType event) c fun _ _ => True := by
  unfold consumeAudio
  refine Act.ensures_bind ((requireActiveResponse_protocol eventType c).mono ?_ fun _ _ he => he)
  rintro - _ ⟨rfl, -⟩
  refine Act.ensures_bind (Act.ensures_ofExcept (fun chunk _ => ?_) (audioChunk_protocol event))
  refine Act.ensures_get_bind (Act.ensures_ite (fun _ => ?_) fun _ => ?_)
  · exact Act.ensures_bind (Act.ensures_throw (isProtocol _))
  · exact trivial

theorem consumeDone_protocol (eventType : PyStr) (event : Event) (c : ResponseCollector) :
    RaisesProtocol (consumeDone limits eventType event) c fun _ _ => True := by
  unfold consumeDone
  refine Act.ensures_bind ((requireActiveResponse_protocol eventType c).mono ?_ fun _ _ he => he)
  rintro - _ ⟨rfl, -⟩
  refine Act.ensures_bind (Act.ensures_ofExcept (fun status _ => ?_) (doneStatus_protocol event))
  refine Act.ensures_get_bind (Act.ensures_ite (fun _ => ?_) fun _ => ?_)
  · exact Act.ensures_bind (Act.ensures_throw (isProtocol _))
  · exact trivial

/-- Unless a text delta is broken, consuming raises protocol errors only. -/
theorem consume_protocol (hcompare : ComparesLoaded env) {event : Event}
    (hload : env.Loadable event.toJson) {c : ResponseCollector} (hbroken : ¬BrokenDelta limits c event) :
    RaisesProtocol (consume env limits event) c fun _ _ => True := by
  unfold consume
  cases htype : eventType? event with
  | none => exact Act.ensures_throw (isProtocol _)
  | some eventType =>
    dsimp only
    refine Act.ensures_bind (Act.ensures_modify (Act.ensures_get_bind
      (Act.ensures_ite (fun _ => ?_) fun hcount => ?_)))
    · exact Act.ensures_bind (Act.ensures_throw (isProtocol _))
    refine Act.ensures_bind (Act.ensures_modify (Act.ensures_ite (fun _ => ?_) fun _ => ?_))
    · exact consumeCreated_protocol event _
    refine Act.ensures_bind (Act.ensures_ofExcept (fun text? htext => ?_)
      (validatedTranscriptDelta_protocol hcompare hload))
    cases text? with
    | some text =>
      refine consumeText_protocol eventType _ fun hactive => ?_
      by_contra hencodable
      have hlt : c.eventCount < limits.maxResponseEvents := by
        change ¬limits.maxResponseEvents < c.eventCount + 1 at hcount
        omega
      exact hbroken ⟨hactive, hlt, text, validatedTranscriptDelta_eq_some.mp htext,
        Bool.eq_false_iff.mpr hencodable⟩
    | none =>
      refine Act.ensures_ite (fun _ => ?_) fun _ => Act.ensures_ite (fun _ => ?_) fun _ =>
        Act.ensures_ite (fun _ => ?_) fun _ => ?_
      · exact consumeAudio_protocol eventType event _
      · refine Act.ensures_bind ((requireActiveResponse_protocol eventType _).mono ?_
          fun _ _ he => he)
        exact fun _ _ _ => trivial
      · exact consumeDone_protocol eventType event _
      · exact trivial

/-- The encoding of a broken text delta raises a `UnicodeEncodeError`. -/
theorem consume_brokenDelta {event : Event} {c : ResponseCollector}
    (hbroken : BrokenDelta limits c event) :
    ∃ e, (consumeFrom env limits c event).1 = .error e ∧ ¬IsProtocol e := by
  obtain ⟨hactive, hlt, text, hcarries, hencodable⟩ := hbroken
  obtain ⟨eventType, hmem, htype⟩ := hcarries.1
  have hall : ∀ t ∈ transcriptDeltaEventTypes, t ≠ [] ∧ t ≠ lit "response.created" := by decide
  obtain ⟨hne, hcreated⟩ := hall eventType hmem
  have htype? : eventType? event = some eventType := Json.nonEmptyStr?_eq_some.mpr ⟨htype, hne⟩
  cases hlen : utf8Length text with
  | ok n =>
    rw [(utf8Length_eq_ok.mp hlen).1] at hencodable
    cases hencodable
  | error e =>
    refine ⟨e, ?_, (utf8Length_eq_error hlen).2⟩
    unfold consumeFrom consume
    rw [htype?]
    simp only [Act.run_bind, Act.run_get, Act.run_ite, Act.run_modify, Act.run_ofExcept]
    rw [if_neg (show ¬limits.maxResponseEvents < c.eventCount + 1 by omega), if_neg hcreated,
      validatedTranscriptDelta_eq_some.mpr hcarries]
    unfold consumeText
    simp only [Act.run_bind, run_requireActiveResponse, if_neg hactive, Act.run_ofExcept, hlen]

variable (env limits) in
/-- What a message makes the parser and the collector raise is an `XaiVoiceProtocolError`. -/
structure OnlyProtocol (c : ResponseCollector) (raw : RawMessage) (maxEventBytes : ℕ) : Prop where
  refused : ∀ e, parseServerEvent env raw maxEventBytes = .error e → IsProtocol e
  consumed : ∀ event, parseServerEvent env raw maxEventBytes = .ok event →
    ∀ e, (consumeFrom env limits c event).1 = .error e → IsProtocol e

/-- **A message surfaces as a protocol error exactly if neither it nor the text delta it stands for
has a lone surrogate**, the latter while a response is active and the event limit is not reached. -/
theorem onlyProtocol_iff (hcompare : ComparesLoaded env) {raw : RawMessage}
    (hnests : NestsWithin env raw) (maxEventBytes : ℕ) (c : ResponseCollector) :
    OnlyProtocol env limits c raw maxEventBytes ↔
      IsUnicode raw ∧ ∀ event, parseServerEvent env raw maxEventBytes = .ok event →
        ¬BrokenDelta limits c event := by
  constructor
  · intro h
    refine ⟨(parseServerEvent_protocol_iff hnests maxEventBytes).mp h.refused,
      fun event hevent hbroken => ?_⟩
    obtain ⟨e, he, hnot⟩ := @consume_brokenDelta env limits event c hbroken
    exact hnot (h.consumed event hevent e he)
  · rintro ⟨hunicode, hbroken⟩
    refine ⟨(parseServerEvent_protocol_iff hnests maxEventBytes).mpr hunicode,
      fun event hevent e he => ?_⟩
    have hensures := consume_protocol hcompare (parseServerEvent_loadable hevent) (hbroken event hevent)
    obtain ⟨c', hrun⟩ := Act.exists_run he
    unfold RaisesProtocol Act.Ensures at hensures
    rw [hrun] at hensures
    exact hensures

theorem nestsWithin_of_parse {raw : RawMessage} {maxEventBytes : ℕ} {event : Event}
    (h : parseServerEvent env raw maxEventBytes = .ok event) : NestsWithin env raw := by
  intro decoded hdecoded hdeep
  unfold parseServerEvent at h
  obtain ⟨decoded', hdecoded', h⟩ := bind_eq_ok.mp h
  obtain rfl := Except.ok.inj (hdecoded.symm.trans hdecoded')
  obtain ⟨-, -, h⟩ := bind_eq_ok.mp h
  obtain ⟨value, hvalue, -⟩ := bind_eq_ok.mp h
  unfold parseJson at hvalue
  rw [hdeep] at hvalue
  cases hvalue

/-- The start of the response `r1`. -/
def createdMessage : RawMessage :=
  .text (lit "\x7b\"type\":\"response.created\",\"response\":\x7b\"id\":\"r1\"\x7d\x7d")

def parsed (raw : RawMessage) : Event := (parseServerEvent sampleEnv raw 1024).toOption.getD .empty

theorem createdMessage_parsed :
    parseServerEvent sampleEnv createdMessage 1024 = .ok (parsed createdMessage) :=
  eq_ok_getD (by decide +kernel)

theorem createdMessage_surfaces : OnlyProtocol sampleEnv sampleConfig.limits
    ResponseCollector.initial createdMessage 1024 := by
  refine (onlyProtocol_iff (fun _ _ _ _ => ⟨_, rfl⟩) (nestsWithin_of_parse createdMessage_parsed)
    1024 _).mpr ⟨?_, fun event _ hbroken => hbroken.1 rfl⟩
  rintro s ⟨⟩
  decide +kernel

/-- A text delta whose text is the escape of a lone surrogate. -/
def surrogateMessage : RawMessage :=
  .text (lit "\x7b\"type\":\"response.text.delta\",\"delta\":\"\\ud800\"\x7d")

/-- A `UnicodeEncodeError` leaves the collector. -/
theorem surrogateMessage_escapes : ComparesLoaded sampleEnv ∧
    NestsWithin sampleEnv surrogateMessage ∧
    ¬OnlyProtocol sampleEnv sampleConfig.limits
      (feed sampleEnv sampleConfig.limits ResponseCollector.initial [parsed createdMessage]).2
      surrogateMessage 1024 := by
  have hparsed : parseServerEvent sampleEnv surrogateMessage 1024 = .ok (parsed surrogateMessage) :=
    eq_ok_getD (by decide +kernel)
  refine ⟨fun _ _ _ _ => ⟨_, rfl⟩, nestsWithin_of_parse hparsed, fun h => ?_⟩
  obtain ⟨e, he, hnot⟩ := @consume_brokenDelta sampleEnv sampleConfig.limits (parsed surrogateMessage)
    (feed sampleEnv sampleConfig.limits ResponseCollector.initial [parsed createdMessage]).2
    ⟨by decide +kernel, by decide +kernel, [0xD800],
      ⟨⟨lit "response.text.delta", by decide, by decide +kernel⟩, by decide +kernel⟩, by decide⟩
  exact hnot (h.consumed _ hparsed e he)

end Sentinel.Voice
