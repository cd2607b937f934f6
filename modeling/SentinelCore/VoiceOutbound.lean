import SentinelCore.VoiceConnections
import SentinelCore.Py.JsonReads

/-!
# Events on the wire

The text that is sent for an event says exactly that event: whoever parses it as a server event, from the text
or from its UTF-8 bytes, gets the event (`survives_of_checked`). In every run this holds for every event that
goes out, and nothing but the three kinds of events does (`outbound_survives`).
-/

namespace Sentinel.Voice

open Py Lib

variable {o : ClientOptions} {w w' : World} {event : Event}

/-- The event has a text within the limit, and is what the text and its bytes are parsed to. -/
structure Survives (o : ClientOptions) (event : Event) (payload : PyStr) (data : Bytes) : Prop where
  dumped : dumpsEvent o event = .ok payload
  encoded : encodeUtf8 payload = .ok data
  small : data.length ≤ o.config.maxEventBytes
  text : parseServerEvent o.env (.text payload) o.config.maxEventBytes = .ok event
  binary : parseServerEvent o.env (.binary data) o.config.maxEventBytes = .ok event

theorem rejectDuplicateObjectPairs_nodup {pairs : List (PyStr × Json)} (h : (pairs.map Prod.fst).Nodup) :
    rejectDuplicateObjectPairs pairs = .ok (.obj pairs) := by
  unfold rejectDuplicateObjectPairs
  rw [if_pos h]

theorem utf8Length_data {s : PyStr} {n : ℕ} :
    utf8Length s = .ok n ↔ ∃ data, encodeUtf8 s = .ok data ∧ data.length = n := by
  unfold utf8Length
  cases encodeUtf8 s with
  | ok data => simp
  | error e => simp

/-- What a payload that passes the checks is. -/
theorem checkPayload_eq_ok : checkPayload o event = .ok () ↔ o.env.checkLimits event.toJson = .ok () ∧
    ∃ data, encodeUtf8 event.toJson.compactText = .ok data ∧ data.length ≤ o.config.maxEventBytes := by
  have hdumps : ∀ payload, dumpsEvent o event = .ok payload ↔
      o.env.checkLimits event.toJson = .ok () ∧ event.toJson.compactText = payload := by
    intro payload
    unfold dumpsEvent
    cases o.env.checkLimits event.toJson with
    | ok u => simp
    | error e => simp
  unfold checkPayload
  simp only [bind_eq_ok, hdumps, utf8Length_data]
  constructor
  · rintro ⟨_, ⟨hlimits, rfl⟩, _, ⟨data, hdata, rfl⟩, hsize⟩
    exact ⟨hlimits, data, hdata, Nat.not_lt.mp (raiseIf_eq_ok.mp hsize)⟩
  · rintro ⟨hlimits, data, hdata, hsize⟩
    exact ⟨_, ⟨hlimits, rfl⟩, _, ⟨data, hdata, rfl⟩, raiseIf_eq_ok.mpr (Nat.not_lt.mpr hsize)⟩

/-- The text of an event is parsed to the event. -/
theorem parseJson_compactText (hlimits : o.env.checkLimits event.toJson = .ok ())
    (hfloats : event.toJson.Atoms (fun _ => True) o.env.ReadsFloat) :
    parseJson o.env event.toJson.compactText = .ok event.toJson := by
  obtain ⟨hdepth, hints⟩ := (Runtime.checkLimits_ok o.env.toRuntime).mp hlimits
  have hseparated : JsonFormat.compact.IsSeparated :=
    ⟨⟨[], [], rfl, rfl, rfl⟩, ⟨[], [], rfl, rfl, rfl⟩⟩
  -- nothing outside of ASCII is escaped, so no two surrogates become one character
  have hkeeps : o.env.Keeps .compact event.toJson :=
    ⟨hseparated, event.toJson_wellFormed, hints, hfloats.mono (fun _ _ h => by cases h) fun _ h => h⟩
  have hread : loadsPairs o.env.toRuntime rejectDuplicateObjectPairs (event.toJson.render .compact 0 ++ []) =
      .ok (event.toJson.ordered .compact) :=
    loadsPairs_render (fun _ hn => rejectDuplicateObjectPairs_nodup hn) hkeeps
      (hdepth.trans o.env.maxDumpDepth_le) rfl
  rw [List.append_nil, Json.render_compact, Json.ordered_eq rfl] at hread
  unfold parseJson
  rw [hread]

/-- **An event that passes the checks survives the wire.** -/
theorem survives_of_checked (htype : eventType? event ≠ none)
    (hfloats : event.toJson.Atoms (fun _ => True) o.env.ReadsFloat) (h : checkPayload o event = .ok ()) :
    ∃ payload data, Survives o event payload data := by
  obtain ⟨hlimits, data, hdata, hsize⟩ := checkPayload_eq_ok.mp h
  have hparse : ∀ raw : RawMessage, raw.decode = .ok (event.toJson.compactText, data.length) →
      parseServerEvent o.env raw o.config.maxEventBytes = .ok event := by
    intro raw hraw
    unfold parseServerEvent
    refine bind_eq_ok.mpr ⟨_, hraw, bind_eq_ok.mpr ⟨(), raiseIf_eq_ok.mpr (Nat.not_lt.mpr hsize),
      bind_eq_ok.mpr ⟨_, parseJson_compactText hlimits hfloats, ?_⟩⟩⟩
    unfold toEvent
    rw [Dict.toDict?_toJson]
    exact if_neg htype
  refine ⟨_, data, ?_, hdata, hsize, hparse _ ?_, hparse _ ?_⟩
  · unfold dumpsEvent
    rw [hlimits]
  · simp only [RawMessage.decode, utf8Length_data.mpr ⟨data, hdata, rfl⟩]
  · simp only [RawMessage.decode, decodeUtf8_of_encodeUtf8 hdata]

theorem Outbound.type_ne_none (h : Outbound o event) : eventType? event ≠ none := by
  cases h <;> exact Option.some_ne_none _

/-- There is no float in what a client sends. -/
theorem Outbound.atoms {q : PyFloat → Prop} (h : Outbound o event) : event.toJson.Atoms (fun _ => True) q := by
  cases h <;> simp [Dict.toJson, VoiceSessionConfig.sessionUpdateEvent, VoiceSessionConfig.formatJson, userEvent,
    responseEvent, Json.Atoms, Json.AtomsItems, Json.AtomsFields]

/-- Every event that went out is one of the client's, and survives the wire. -/
def Faithful (o : ClientOptions) (wire : List WireEvent) : Prop :=
  ∀ socket event, .sending socket event ∈ wire →
    Outbound o event ∧ ∃ payload data, Survives o event payload data

theorem Faithful.concat {wire : List WireEvent} (h : Faithful o wire) {x : WireEvent}
    (hx : ∀ socket event, x = .sending socket event → Outbound o event ∧ checkPayload o event = .ok ()) :
    Faithful o (wire ++ [x]) := by
  intro socket event hmem
  rcases List.mem_append.mp hmem with hmem | hmem
  · exact h socket event hmem
  · obtain ⟨houtbound, hchecked⟩ := hx socket event (List.mem_singleton.mp hmem).symm
    exact ⟨houtbound, survives_of_checked houtbound.type_ne_none houtbound.atoms hchecked⟩

theorem Faithful.move (h : Faithful o w.wire) (hmove : Move o w w') : Faithful o w'.wire := by
  cases hmove with
  | sends _ houtbound hchecked =>
    refine h.concat fun socket event hx => ?_
    cases hx
    exact ⟨houtbound, hchecked⟩
  | opens _ _ => exact h.concat fun _ _ hx => by cases hx
  | returns _ _ => exact h.concat fun _ _ hx => by cases hx
  | hears _ _ => exact h.concat fun _ _ hx => by cases hx
  | closes _ => exact h.concat fun _ _ hx => by cases hx
  | readies _ | forgets | rests _ | emits _ => exact h

/-- **In every run, what goes over the wire says what the client means**: every event that is handed to `send` is
one of the three kinds, fits the limit, and is parsed back to itself. -/
theorem outbound_survives (o : ClientOptions) (calls : List Call) :
    ∀ step ∈ performAll o .initial calls, Faithful o step.after.wire := fun step hstep =>
  (performAll_keeps o (P := fun w => Faithful o w.wire) (fun _ _ h hmove => h.move hmove) calls
    (fun _ _ hmem => by cases hmem) step hstep).2

theorem outbound_survives_sample : ∃ step ∈ performAll sampleOptions .initial sampleCalls,
    ∃ event payload data, IsUserEvent event ∧ Survives sampleOptions event payload data := by
  obtain ⟨step, hstep, x, hx, hsends⟩ : ∃ step ∈ performAll sampleOptions .initial sampleCalls,
      ∃ x ∈ step.after.wire, x.SendsUser := by decide +kernel
  cases x with
  | sending socket event =>
    obtain ⟨-, payload, data, hsurvives⟩ := outbound_survives sampleOptions sampleCalls step hstep socket event hx
    exact ⟨step, hstep, event, payload, data, hsends, hsurvives⟩
  | _ => cases hsends

end Sentinel.Voice
