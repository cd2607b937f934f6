import SentinelCore.Voice

/-!
# The collector as a log of accepted fragments

The purpose of a collector: it follows the response that is open, which is the id of the last accepted
`response.created` and the events accepted since (`Open`, `follow`), and at `response.done` it hands
out what these events carry.

1. `consume_step`: what consuming one event can do, case by case (`Step`). An event that raises leaves
   its mark on the event counter and the event-type log only.
2. One step keeps the counters within the limits (`Invariant.step`) and represents the step of the
   log (`Represents.step`).
3. So does a whole run that goes on after rejected events, and a response that is handed out is what
   the log says (`feed_sound`).
-/

namespace Sentinel.Voice

open Py Lib

variable (env : VoiceEnv) (limits : Limits)

/-- One call of `consume`: its result and the collector after it. -/
def consumeFrom (c : ResponseCollector) (event : Event) :
    Except VoiceExc (Option VoiceResponse) × ResponseCollector :=
  (consume env limits event).run c

namespace ResponseCollector

/-- The collector with one more event counted. -/
def counted (c : ResponseCollector) : ResponseCollector := { c with eventCount := c.eventCount + 1 }

/-- The collector with one more event counted and logged. -/
def logged (c : ResponseCollector) (eventType : PyStr) : ResponseCollector :=
  { c with eventCount := c.eventCount + 1, eventTypes := c.eventTypes ++ [eventType] }

end ResponseCollector

/-! ## One step -/

/-- What consuming an event can do. -/
inductive Step (c : ResponseCollector) (event : Event) :
    Except VoiceExc (Option VoiceResponse) → ResponseCollector → Prop where
  | untyped (e : VoiceExc) : Step c event (.error e) c
  | overflow (e : VoiceExc) : Step c event (.error e) c.counted
  | rejected (e : VoiceExc) (eventType : PyStr)
      (hcount : c.eventCount + 1 ≤ limits.maxResponseEvents) :
      Step c event (.error e) (c.logged eventType)
  | created (responseId : PyStr) (hcount : c.eventCount + 1 ≤ limits.maxResponseEvents)
      (htype : eventType? event = some (lit "response.created")) (hidle : c.responseId = none)
      (hid : createdId event = .ok responseId) :
      Step c event (.ok none)
        { c.logged (lit "response.created") with responseId := some responseId }
  | text (eventType text : PyStr) (n : ℕ)
      (hcount : c.eventCount + 1 ≤ limits.maxResponseEvents)
      (htype : eventType? event = some eventType) (hne : eventType ≠ lit "response.created")
      (htext : validatedTranscriptDelta env event = .ok (some text))
      (hactive : c.responseId ≠ none) (hlen : utf8Length text = .ok n)
      (hle : c.transcriptBytes + n ≤ limits.maxTranscriptBytes) :
      Step c event (.ok none)
        { c.logged eventType with
          transcriptParts := c.transcriptParts ++ [text]
          transcriptBytes := c.transcriptBytes + n }
  | audio (eventType : PyStr) (chunk : Bytes)
      (hcount : c.eventCount + 1 ≤ limits.maxResponseEvents)
      (htype : eventType? event = some eventType) (haudio : eventType ∈ audioDeltaEventTypes)
      (htext : validatedTranscriptDelta env event = .ok none)
      (hactive : c.responseId ≠ none) (hchunk : audioChunk event = .ok chunk)
      (hle : c.audioBytes + chunk.length ≤ limits.maxAudioBytes) :
      Step c event (.ok none)
        { c.logged eventType with
          audioParts := c.audioParts ++ [chunk]
          audioBytes := c.audioBytes + chunk.length }
  | audioDone (hcount : c.eventCount + 1 ≤ limits.maxResponseEvents)
      (htype : eventType? event = some (lit "response.output_audio.done"))
      (htext : validatedTranscriptDelta env event = .ok none) (hactive : c.responseId ≠ none) :
      Step c event (.ok none)
        { c.logged (lit "response.output_audio.done") with audioDoneSeen := true }
  | done (responseId : PyStr) (status : Option PyStr)
      (hcount : c.eventCount + 1 ≤ limits.maxResponseEvents)
      (htype : eventType? event = some (lit "response.done"))
      (hactive : c.responseId = some responseId) (hstatus : doneStatus event = .ok status)
      (heven : c.audioParts.flatten.length % 2 = 0) :
      Step c event
        (.ok (some
          { responseId := (c.responseId.filter (· ≠ [])).getD (lit "unknown")
            transcript := c.transcriptParts.flatten
            pcmAudio := c.audioParts.flatten
            sampleRate := limits.sampleRate
            status := status
            audioDoneSeen := c.audioDoneSeen
            eventTypes := c.eventTypes ++ [lit "response.done"] }))
        ResponseCollector.initial
  | ignored (eventType : PyStr) (hcount : c.eventCount + 1 ≤ limits.maxResponseEvents)
      (htype : eventType? event = some eventType) (hne : eventType ≠ lit "response.created")
      (hdone : eventType ≠ lit "response.done") (haudio : eventType ∉ audioDeltaEventTypes)
      (htext : validatedTranscriptDelta env event = .ok none) :
      Step c event (.ok none) (c.logged eventType)

variable {env limits}

theorem run_requireActiveResponse (eventType : PyStr) (c : ResponseCollector) :
    (requireActiveResponse eventType).run c =
      if c.responseId = none then
        (.error (.protocol (eventType ++ lit " arrived without an active response")), c)
      else (.ok (), c) := by
  unfold requireActiveResponse
  simp only [Act.run_bind, Act.run_get, Act.run_ite, Act.run_throw, Act.run_pure]

section Parts

variable {c : ResponseCollector} {event : Event} {eventType : PyStr}
  (hcount : c.eventCount + 1 ≤ limits.maxResponseEvents) (htype : eventType? event = some eventType)

include hcount in
theorem created_step (htype : eventType? event = some (lit "response.created")) :
    Step env limits c event ((consumeCreated event).run (c.logged (lit "response.created"))).1
      ((consumeCreated event).run (c.logged (lit "response.created"))).2 := by
  unfold consumeCreated
  simp only [Act.run_bind, Act.run_get, Act.run_ite, Act.run_throw, Act.run_pure, Act.run_ofExcept,
    Act.run_modify]
  by_cases hidle : (c.logged (lit "response.created")).responseId = none
  · rw [if_neg (not_not.mpr hidle)]
    cases hid : createdId event with
    | error e => exact .rejected _ _ hcount
    | ok responseId => exact .created responseId hcount htype hidle hid
  · rw [if_pos hidle]
    exact .rejected _ _ hcount

include hcount htype in
theorem text_step (hne : eventType ≠ lit "response.created") {text : PyStr}
    (htext : validatedTranscriptDelta env event = .ok (some text)) :
    Step env limits c event ((consumeText limits eventType text).run (c.logged eventType)).1
      ((consumeText limits eventType text).run (c.logged eventType)).2 := by
  unfold consumeText
  simp only [Act.run_bind, run_requireActiveResponse, Act.run_get, Act.run_ite, Act.run_throw,
    Act.run_pure, Act.run_ofExcept, Act.run_modify]
  by_cases hactive : (c.logged eventType).responseId = none
  · rw [if_pos hactive]
    exact .rejected _ _ hcount
  · rw [if_neg hactive]
    cases hlen : utf8Length text with
    | error e => exact .rejected _ _ hcount
    | ok n =>
      by_cases hle : limits.maxTranscriptBytes < (c.logged eventType).transcriptBytes + n
      · simp only [if_pos hle]
        exact .rejected _ _ hcount
      · simp only [if_neg hle]
        exact .text eventType text n hcount htype hne htext hactive hlen (not_lt.mp hle)

include hcount htype in
theorem audio_step (haudio : eventType ∈ audioDeltaEventTypes)
    (htext : validatedTranscriptDelta env event = .ok none) :
    Step env limits c event ((consumeAudio limits eventType event).run (c.logged eventType)).1
      ((consumeAudio limits eventType event).run (c.logged eventType)).2 := by
  unfold consumeAudio
  simp only [Act.run_bind, run_requireActiveResponse, Act.run_get, Act.run_ite, Act.run_throw,
    Act.run_pure, Act.run_ofExcept, Act.run_modify]
  by_cases hactive : (c.logged eventType).responseId = none
  · rw [if_pos hactive]
    exact .rejected _ _ hcount
  · rw [if_neg hactive]
    cases hchunk : audioChunk event with
    | error e => exact .rejected _ _ hcount
    | ok chunk =>
      by_cases hle : limits.maxAudioBytes < (c.logged eventType).audioBytes + chunk.length
      · simp only [if_pos hle]
        exact .rejected _ _ hcount
      · simp only [if_neg hle]
        exact .audio eventType chunk hcount htype haudio htext hactive hchunk (not_lt.mp hle)

include hcount in
theorem audioDone_step (htype : eventType? event = some (lit "response.output_audio.done"))
    (htext : validatedTranscriptDelta env event = .ok none) {x : Collecting (Option VoiceResponse)}
    (hx : x = do
      requireActiveResponse (lit "response.output_audio.done")
      modify fun c => { c with audioDoneSeen := true }
      return none) :
    Step env limits c event (x.run (c.logged (lit "response.output_audio.done"))).1
      (x.run (c.logged (lit "response.output_audio.done"))).2 := by
  subst hx
  simp only [Act.run_bind, run_requireActiveResponse, Act.run_pure, Act.run_modify]
  by_cases hactive : (c.logged (lit "response.output_audio.done")).responseId = none
  · rw [if_pos hactive]
    exact .rejected _ _ hcount
  · rw [if_neg hactive]
    exact .audioDone hcount htype htext hactive

include hcount in
theorem done_step (htype : eventType? event = some (lit "response.done")) :
    Step env limits c event
      ((consumeDone limits (lit "response.done") event).run (c.logged (lit "response.done"))).1
      ((consumeDone limits (lit "response.done") event).run (c.logged (lit "response.done"))).2 := by
  unfold consumeDone reset
  simp only [Act.run_bind, run_requireActiveResponse, Act.run_get, Act.run_ite, Act.run_throw,
    Act.run_pure, Act.run_ofExcept, Act.run_set]
  by_cases hidle : (c.logged (lit "response.done")).responseId = none
  · rw [if_pos hidle]
    exact .rejected _ _ hcount
  · rw [if_neg hidle]
    obtain ⟨responseId, hactive⟩ := Option.ne_none_iff_exists'.mp hidle
    cases hstatus : doneStatus event with
    | error e => exact .rejected _ _ hcount
    | ok status =>
      by_cases heven : (c.logged (lit "response.done")).audioParts.flatten.length % 2 = 0
      · simp only [if_neg (not_not.mpr heven)]
        exact .done responseId status hcount htype hactive hstatus heven
      · simp only [if_pos heven]
        exact .rejected _ _ hcount

end Parts

/-- Consuming an event does one of the things of `Step`. -/
theorem consume_step (c : ResponseCollector) (event : Event) :
    Step env limits c event (consumeFrom env limits c event).1 (consumeFrom env limits c event).2 := by
  unfold consumeFrom consume
  cases htype : eventType? event with
  | none => exact .untyped _
  | some eventType =>
    simp only [Act.run_bind, Act.run_get, Act.run_ite, Act.run_throw, Act.run_modify,
      Act.run_ofExcept]
    by_cases hcount : limits.maxResponseEvents < c.eventCount + 1
    · simp only [if_pos hcount]
      exact .overflow _
    · simp only [if_neg hcount]
      have hcount : c.eventCount + 1 ≤ limits.maxResponseEvents := by omega
      by_cases hcreated : eventType = lit "response.created"
      · subst hcreated
        rw [if_pos rfl]
        exact created_step hcount htype
      · rw [if_neg hcreated]
        cases htext : validatedTranscriptDelta env event with
        | error e => exact .rejected _ _ hcount
        | ok text? =>
          cases text? with
          | some text => exact text_step hcount htype hcreated htext
          | none =>
            simp only [Act.run_ite]
            by_cases haudio : audioDeltaEventTypes.contains eventType = true
            · rw [if_pos haudio]
              exact audio_step hcount htype (List.contains_iff_mem.mp haudio) htext
            · rw [if_neg haudio]
              by_cases haudioDone : eventType = lit "response.output_audio.done"
              · subst haudioDone
                rw [if_pos rfl]
                exact audioDone_step hcount htype htext rfl
              · rw [if_neg haudioDone]
                by_cases hdone : eventType = lit "response.done"
                · subst hdone
                  rw [if_pos rfl]
                  exact done_step hcount htype
                · rw [if_neg hdone]
                  exact .ignored eventType hcount htype hcreated hdone
                    (fun h => haudio (List.contains_iff_mem.mpr h)) htext

theorem step_of_consume {c c' : ResponseCollector} {event : Event}
    {r : Except VoiceExc (Option VoiceResponse)} (h : consumeFrom env limits c event = (r, c')) :
    Step env limits c event r c' := by
  have hs := @consume_step env limits c event
  rw [h] at hs
  exact hs

/-! ## The limits -/

/-- The UTF-8 length of a text that has an encoding. -/
def utf8Size (s : PyStr) : ℕ := (s.flatMap utf8Bytes).length

theorem utf8Length_eq_ok {s : PyStr} {n : ℕ} :
    utf8Length s = .ok n ↔ isEncodable s = true ∧ utf8Size s = n := by
  unfold utf8Length encodeUtf8 utf8Size
  split_ifs with h
  · simp [h]
  · simp [h]

variable (limits) in
/-- The counters tell what is stored, within the limits, and an idle collector stores nothing. -/
structure Invariant (c : ResponseCollector) : Prop where
  audio_counted : c.audioBytes = (c.audioParts.map List.length).sum
  transcript_counted : c.transcriptBytes = (c.transcriptParts.map utf8Size).sum
  encodable : ∀ text ∈ c.transcriptParts, isEncodable text = true
  audio_le : c.audioBytes ≤ limits.maxAudioBytes
  transcript_le : c.transcriptBytes ≤ limits.maxTranscriptBytes
  types_le : c.eventTypes.length ≤ limits.maxResponseEvents
  types_le_count : c.eventTypes.length ≤ c.eventCount
  idle : c.responseId = none → c.transcriptParts = [] ∧ c.audioParts = []

theorem invariant_initial : Invariant limits ResponseCollector.initial :=
  ⟨rfl, rfl, by simp [ResponseCollector.initial], Nat.zero_le _, Nat.zero_le _, Nat.zero_le _,
    le_rfl, fun _ => ⟨rfl, rfl⟩⟩

variable {c c' : ResponseCollector} {event : Event} {r : Except VoiceExc (Option VoiceResponse)}

theorem Invariant.counted (h : Invariant limits c) : Invariant limits c.counted :=
  { h with types_le_count := h.types_le_count.trans (Nat.le_succ _) }

theorem Invariant.logged (h : Invariant limits c) (hcount : c.eventCount + 1 ≤ limits.maxResponseEvents)
    (eventType : PyStr) : Invariant limits (c.logged eventType) := by
  have hlen : (c.eventTypes ++ [eventType]).length ≤ c.eventCount + 1 := by
    rw [List.length_append]
    exact Nat.succ_le_succ h.types_le_count
  exact { h with types_le := hlen.trans hcount, types_le_count := hlen }

/-- One step keeps the counters right and within the limits. -/
theorem Invariant.step (h : Invariant limits c) (hs : Step env limits c event r c') :
    Invariant limits c' := by
  cases hs with
  | untyped e => exact h
  | overflow e => exact h.counted
  | rejected e eventType hcount => exact h.logged hcount eventType
  | created responseId hcount =>
    exact { h.logged hcount _ with idle := fun hnone => by cases hnone }
  | text eventType text n hcount htype hne htext hactive hlen hle =>
    obtain ⟨hencodable, hsize⟩ := utf8Length_eq_ok.mp hlen
    refine { h.logged hcount _ with
      transcript_counted := ?_, encodable := ?_, transcript_le := hle,
      idle := fun hnone => absurd hnone hactive }
    · rw [List.map_append, List.sum_append, ← h.transcript_counted, List.map_singleton,
        List.sum_singleton, hsize]
    · intro t ht
      rcases List.mem_append.mp ht with ht | ht
      · exact h.encodable t ht
      · rw [List.mem_singleton.mp ht]
        exact hencodable
  | audio eventType chunk hcount htype haudio htext hactive hchunk hle =>
    refine { h.logged hcount _ with
      audio_counted := ?_, audio_le := hle, idle := fun hnone => absurd hnone hactive }
    rw [List.map_append, List.sum_append, ← h.audio_counted, List.map_singleton,
      List.sum_singleton]
  | audioDone hcount => exact { h.logged hcount _ with }
  | done responseId status hcount => exact invariant_initial
  | ignored eventType hcount => exact h.logged hcount eventType

/-- A rejected event leaves its mark on the event counter and the event-type log only. -/
theorem rejected_unchanged {e : VoiceExc} (hs : Step env limits c event (.error e) c') :
    { c' with eventCount := c.eventCount, eventTypes := c.eventTypes } = c := by
  cases hs <;> rfl

/-! ## The log -/

/-- The response that is open: its id, and the events accepted since it was created. -/
abbrev Open := Option (PyStr × List Event)

/-- How the log follows an event: only accepted events count. -/
def follow (o : Open) (event : Event) (accepted : Bool) : Open :=
  if accepted = false then o
  else if eventType? event = some (lit "response.created") then
    (createdId event).toOption.map fun responseId => (responseId, [])
  else if eventType? event = some (lit "response.done") then none
  else o.map fun (responseId, events) => (responseId, events ++ [event])

variable (env) in
/-- The text an event carries. -/
def textOf (event : Event) : Option PyStr := (validatedTranscriptDelta env event).toOption.join

/-- The audio an event carries. -/
def audioOf (event : Event) : Option Bytes :=
  if (eventType? event).any audioDeltaEventTypes.contains then (audioChunk event).toOption else none

variable (env) in
/-- The collector holds what the events of the open response carry. -/
def Represents (c : ResponseCollector) : Open → Prop
  | none => c.responseId = none ∧ c.transcriptParts = [] ∧ c.audioParts = []
  | some (responseId, events) =>
    c.responseId = some responseId ∧ matchesId responseId = true ∧
      c.transcriptParts = events.filterMap (textOf env) ∧ c.audioParts = events.filterMap audioOf

theorem represents_initial : Represents env ResponseCollector.initial none := ⟨rfl, rfl, rfl⟩

theorem matchesId_of_createdId {responseId : PyStr} (h : createdId event = .ok responseId) :
    matchesId responseId = true := by
  unfold createdId at h
  split at h
  · cases h
  split at h
  · cases h
  split_ifs at h with hid
  obtain rfl := Except.ok.inj h
  exact hid

/-- An event that is neither `response.created` nor `response.done` extends the log. -/
theorem follow_accepted {o : Open} {eventType : PyStr} (htype : eventType? event = some eventType)
    (hcreated : eventType ≠ lit "response.created") (hdone : eventType ≠ lit "response.done") :
    follow o event true = o.map fun (responseId, events) => (responseId, events ++ [event]) := by
  unfold follow
  rw [if_neg (by decide), htype, if_neg (by simpa using hcreated), if_neg (by simpa using hdone)]

theorem validatedTranscriptDelta_of_notMem {eventType : PyStr}
    (htype : eventType? event = some eventType) (h : eventType ∉ transcriptDeltaEventTypes) :
    validatedTranscriptDelta env event = .ok none := by
  have hstr : (event.get (lit "type")).str? = some eventType :=
    Json.str?_eq_some.mpr (Json.nonEmptyStr?_eq_some.mp htype).1
  unfold validatedTranscriptDelta
  rw [hstr, if_neg (by simpa using h)]
  rfl

/-- Text deltas carry no audio. -/
theorem audioOf_of_text {eventType text : PyStr} (htype : eventType? event = some eventType)
    (htext : validatedTranscriptDelta env event = .ok (some text)) : audioOf event = none := by
  have hmem : eventType ∈ transcriptDeltaEventTypes := by
    by_contra h
    rw [validatedTranscriptDelta_of_notMem htype h] at htext
    cases htext
  have hdisjoint : ∀ t ∈ transcriptDeltaEventTypes, ¬audioDeltaEventTypes.contains t = true := by
    decide
  unfold audioOf
  rw [htype, Option.any_some, if_neg (hdisjoint eventType hmem)]

theorem audioOf_of_notMem {eventType : PyStr} (htype : eventType? event = some eventType)
    (h : eventType ∉ audioDeltaEventTypes) : audioOf event = none := by
  unfold audioOf
  rw [htype, Option.any_some, if_neg (by simpa using h)]

theorem audioOf_of_chunk {eventType : PyStr} {chunk : Bytes}
    (htype : eventType? event = some eventType) (h : eventType ∈ audioDeltaEventTypes)
    (hchunk : audioChunk event = .ok chunk) : audioOf event = some chunk := by
  unfold audioOf
  rw [htype, Option.any_some, if_pos (by simpa using h), hchunk]
  rfl

theorem textOf_of_ok {text? : Option PyStr} (h : validatedTranscriptDelta env event = .ok text?) :
    textOf env event = text? := by
  unfold textOf
  rw [h]
  rfl

theorem filterMap_snoc {α β : Type} (f : α → Option β) (l : List α) (a : α) :
    (l ++ [a]).filterMap f = l.filterMap f ++ (f a).toList := by
  rw [List.filterMap_append, List.filterMap_cons]
  cases f a with
  | none => rfl
  | some b => rfl

/-- An accepted event that is neither `response.created` nor `response.done` adds what it carries. -/
theorem Represents.append {o : Open} {eventType : PyStr} (h : Represents env c o)
    (htype : eventType? event = some eventType) (hcreated : eventType ≠ lit "response.created")
    (hdone : eventType ≠ lit "response.done")
    (hid : c'.responseId = c.responseId)
    (htext : c'.transcriptParts = c.transcriptParts ++ (textOf env event).toList)
    (haudio : c'.audioParts = c.audioParts ++ (audioOf event).toList)
    (hidle : c.responseId = none → textOf env event = none ∧ audioOf event = none) :
    Represents env c' (follow o event true) := by
  rw [follow_accepted htype hcreated hdone]
  cases o with
  | none =>
    obtain ⟨hnone, ht, ha⟩ := h
    obtain ⟨ht', ha'⟩ := hidle hnone
    rw [ht, ht'] at htext
    rw [ha, ha'] at haudio
    exact ⟨hid.trans hnone, htext, haudio⟩
  | some open_ =>
    obtain ⟨hsome, hmatch, ht, ha⟩ := h
    refine ⟨hid.trans hsome, hmatch, ?_, ?_⟩
    · rw [htext, ht, filterMap_snoc]
    · rw [haudio, ha, filterMap_snoc]

/-- One step of the collector represents one step of the log. -/
theorem Represents.step {o : Open} (h : Represents env c o) (hs : Step env limits c event r c') :
    Represents env c' (follow o event r.isOk) := by
  have hkeep : ∀ {d : ResponseCollector}, d.responseId = c.responseId →
      d.transcriptParts = c.transcriptParts → d.audioParts = c.audioParts → Represents env d o := by
    intro d hid ht ha
    cases o with
    | none => exact ⟨hid.trans h.1, ht.trans h.2.1, ha.trans h.2.2⟩
    | some open_ => exact ⟨hid.trans h.1, h.2.1, ht.trans h.2.2.1, ha.trans h.2.2.2⟩
  cases hs with
  | untyped e => exact h
  | overflow e => exact hkeep rfl rfl rfl
  | rejected e eventType hcount => exact hkeep rfl rfl rfl
  | created responseId hcount htype hidle hid =>
    have hfollow : follow o event true = some (responseId, []) := by
      unfold follow
      rw [if_neg (by decide), if_pos htype, hid]
      rfl
    rw [show (Except.ok none : Except VoiceExc (Option VoiceResponse)).isOk = true from rfl, hfollow]
    have hempty : c.transcriptParts = [] ∧ c.audioParts = [] := by
      cases o with
      | none => exact h.2
      | some open_ => cases hidle.symm.trans h.1
    exact ⟨rfl, matchesId_of_createdId hid, hempty.1, hempty.2⟩
  | text eventType text n hcount htype hne htext hactive =>
    have hdone : eventType ≠ lit "response.done" := by
      rintro rfl
      rw [validatedTranscriptDelta_of_notMem htype (by decide)] at htext
      cases htext
    refine h.append htype hne hdone rfl ?_ ?_ fun hnone => absurd hnone hactive
    · rw [textOf_of_ok htext]
      rfl
    · rw [audioOf_of_text htype htext]
      exact (List.append_nil _).symm
  | audio eventType chunk hcount htype haudio htext hactive hchunk =>
    have hne : ∀ t ∈ audioDeltaEventTypes, t ≠ lit "response.created" ∧ t ≠ lit "response.done" := by
      decide
    refine h.append htype (hne eventType haudio).1 (hne eventType haudio).2 rfl ?_ ?_
      fun hnone => absurd hnone hactive
    · rw [textOf_of_ok htext]
      exact (List.append_nil _).symm
    · rw [audioOf_of_chunk htype haudio hchunk]
      rfl
  | audioDone hcount htype htext hactive =>
    refine h.append htype (by decide) (by decide) rfl ?_ ?_ fun hnone => absurd hnone hactive
    · rw [textOf_of_ok htext]
      exact (List.append_nil _).symm
    · rw [audioOf_of_notMem htype (by decide)]
      exact (List.append_nil _).symm
  | done responseId status hcount htype =>
    have hfollow : follow o event true = none := by
      unfold follow
      rw [if_neg (by decide), htype, if_neg (by decide), if_pos rfl]
    rw [show (Except.ok (some _) : Except VoiceExc (Option VoiceResponse)).isOk = true from rfl, hfollow]
    exact represents_initial
  | ignored eventType hcount htype hne hdone haudio htext =>
    refine h.append htype hne hdone rfl ?_ ?_ fun _ =>
      ⟨textOf_of_ok htext, audioOf_of_notMem htype haudio⟩
    · rw [textOf_of_ok htext]
      exact (List.append_nil _).symm
    · rw [audioOf_of_notMem htype haudio]
      exact (List.append_nil _).symm

/-! ## Whole runs -/

variable (env limits) in
/-- A run on one collector: each event with what `consume` did, and the collector at the end. -/
def feed (c : ResponseCollector) :
    List Event → List (Event × Except VoiceExc (Option VoiceResponse)) × ResponseCollector
  | [] => ([], c)
  | event :: rest =>
    let (result, c) := consumeFrom env limits c event
    let (history, c) := feed c rest
    ((event, result) :: history, c)

/-- The response that is open after a run. -/
def openAfter (o : Open) (history : List (Event × Except VoiceExc (Option VoiceResponse))) : Open :=
  history.foldl (fun o (event, result) => follow o event result.isOk) o

theorem feed_preserves (events : List Event) {o : Open} (hi : Invariant limits c)
    (hr : Represents env c o) :
    Invariant limits (feed env limits c events).2 ∧
      Represents env (feed env limits c events).2 (openAfter o (feed env limits c events).1) := by
  induction events generalizing c o with
  | nil => exact ⟨hi, hr⟩
  | cons event rest ih =>
    have hs := @consume_step env limits c event
    exact ih (hi.step hs) (hr.step hs)

/-- A response is what the log of the open response says. -/
theorem response_of_step {o : Open} {response : VoiceResponse} (h : Represents env c o)
    (hs : Step env limits c event (.ok (some response)) c') :
    c' = ResponseCollector.initial ∧ ∃ responseId events, o = some (responseId, events) ∧
      response.responseId = responseId ∧ matchesId responseId = true ∧
      response.transcript = (events.filterMap (textOf env)).flatten ∧
      response.pcmAudio = (events.filterMap audioOf).flatten ∧ response.pcmAudio.length % 2 = 0 := by
  cases hs with
  | done responseId status hcount htype hactive hstatus heven =>
    cases o with
    | none => cases h.1.symm.trans hactive
    | some open_ =>
      obtain ⟨id, events⟩ := open_
      obtain ⟨hid, hmatch, ht, ha⟩ := h
      have hne : id ≠ [] := by
        rintro rfl
        cases hmatch
      refine ⟨rfl, id, events, rfl, ?_, hmatch, by rw [← ht], by rw [← ha], heven⟩
      change (c.responseId.filter (· ≠ [])).getD (lit "unknown") = id
      rw [hid, Option.filter_some, if_pos (by simpa using hne)]
      rfl

/-- **The collector refines the log of accepted fragments, within its limits.** In every state that a
run from the start reaches, the invariant holds; a rejected event changes only the event counter and
the event-type log; and a response that is handed out carries the id of the open response and exactly
what the events accepted since its `response.created` carry, in order. -/
theorem feed_sound (env : VoiceEnv) (limits : Limits) (events : List Event) :
    let run := feed env limits ResponseCollector.initial events
    Invariant limits run.2 ∧
      (∀ event e c', consumeFrom env limits run.2 event = (.error e, c') →
        { c' with eventCount := run.2.eventCount, eventTypes := run.2.eventTypes } = run.2) ∧
      ∀ event response c', consumeFrom env limits run.2 event = (.ok (some response), c') →
        c' = ResponseCollector.initial ∧ ∃ responseId accepted,
          openAfter none run.1 = some (responseId, accepted) ∧
          response.responseId = responseId ∧ matchesId responseId = true ∧
          response.transcript = (accepted.filterMap (textOf env)).flatten ∧
          response.pcmAudio = (accepted.filterMap audioOf).flatten ∧
          response.pcmAudio.length % 2 = 0 := by
  obtain ⟨hi, hr⟩ := @feed_preserves env limits _ events _ invariant_initial represents_initial
  exact ⟨hi, fun event e c' h => rejected_unchanged (step_of_consume h),
    fun event response c' h => response_of_step hr (step_of_consume h)⟩

end Sentinel.Voice
