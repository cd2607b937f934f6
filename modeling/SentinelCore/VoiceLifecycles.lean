import SentinelCore.VoiceTurns

/-!
# Response lifecycles

Whether a response mixes what belongs to different responses. The collector asks whether some response
is active, never which one an event names.

1. `follow_cases`: an accepted event opens a response, or belongs to the one that is open, if any.
2. `log_of_accepts`: so the log of the open response holds every fragment of the turn, by induction on
   the events.
3. A returned response is unmixed exactly if the server sends nothing in the turn that names another
   response than its `response.created` (`unmixed_iff_oneResponse`).
-/

namespace Sentinel.Voice

open Py Lib Act

/-! ## Ids -/

/-- An event that names no response counts as one of the active response. -/
def Names (responseId : PyStr) (value : Json) : Prop := value = .null ∨ value = .str responseId

instance (responseId : PyStr) (value : Json) : Decidable (Names responseId value) :=
  inferInstanceAs (Decidable (_ ∨ _))

/-- The id in a `response.done`. -/
def doneId (event : Event) : Json :=
  ((event.get (lit "response")).toDict?.map fun response => response.get (lit "id")).getD .null

/-- The event is a text or audio delta. -/
def IsFragment (event : Event) : Prop :=
  ∃ t ∈ transcriptDeltaEventTypes ++ audioDeltaEventTypes, eventType? event = some t

instance (event : Event) : Decidable (IsFragment event) :=
  inferInstanceAs (Decidable (∃ t ∈ transcriptDeltaEventTypes ++ audioDeltaEventTypes, _))

/-- What an event of the turn says about its response. -/
def AboutResponse (responseId : PyStr) (event : Event) : Prop :=
  (IsFragment event → Names responseId (event.get (lit "response_id"))) ∧
    (HasType event "response.done" → Names responseId (doneId event))

instance (responseId : PyStr) (event : Event) : Decidable (AboutResponse responseId event) :=
  inferInstanceAs (Decidable ((_ → _) ∧ (_ → _)))

/-- All fragments and the end name the response that was created, if they name one. -/
def OneResponse (events : List Event) : Prop :=
  ∀ created ∈ events, HasType created "response.created" →
    ∀ responseId ∈ (createdId created).toOption, ∀ event ∈ events, AboutResponse responseId event

instance (events : List Event) : Decidable (OneResponse events) :=
  inferInstanceAs (Decidable (∀ created ∈ events, HasType created "response.created" →
    ∀ responseId ∈ (createdId created).toOption, ∀ event ∈ events, AboutResponse responseId event))

/-! ## The log of a turn -/

section Log

variable {o : ClientOptions} {c c' : ResponseCollector} {event : Event} {events : List Event}

theorem isFragment_of_text (h : (textOf o.env event).isSome = true)
    (htype : eventType? event ≠ none) : IsFragment event := by
  obtain ⟨t, ht⟩ := Option.ne_none_iff_exists'.mp htype
  refine ⟨t, List.mem_append_left _ ?_, ht⟩
  by_contra hmem
  rw [textOf_of_ok (validatedTranscriptDelta_of_notMem ht hmem)] at h
  cases h

theorem isFragment_of_audio (h : (audioOf event).isSome = true) (htype : eventType? event ≠ none) :
    IsFragment event := by
  obtain ⟨t, ht⟩ := Option.ne_none_iff_exists'.mp htype
  refine ⟨t, List.mem_append_right _ ?_, ht⟩
  by_contra hmem
  rw [audioOf_of_notMem ht hmem] at h
  cases h

/-- A transcript delta that is no failure has a text. -/
theorem validatedTranscriptDelta_of_mem {env : VoiceEnv} {t : PyStr}
    (htype : eventType? event = some t) (hmem : t ∈ transcriptDeltaEventTypes) :
    validatedTranscriptDelta env event ≠ .ok none := by
  have hstr : (event.get (lit "type")).str? = some t :=
    Json.str?_eq_some.mpr (Json.nonEmptyStr?_eq_some.mp htype).1
  unfold validatedTranscriptDelta
  rw [hstr, if_pos (by simpa using hmem)]
  extract_lets deltaValue textValue value finish
  have hvalue : finish () ≠ .ok none := by
    intro h
    simp only [finish] at h
    split at h
    · cases h
    · cases h
  intro h
  by_cases hboth : deltaValue ≠ .null ∧ textValue ≠ .null
  · rw [if_pos hboth] at h
    obtain ⟨differ, -, h⟩ := bind_eq_ok.mp h
    by_cases hd : differ = true
    · rw [if_pos hd] at h
      cases h
    · rw [if_neg hd] at h
      exact hvalue h
  · rw [if_neg hboth] at h
    exact hvalue h

theorem not_isFragment_of_type {t : PyStr} (htype : eventType? event = some t)
    (h : t ∉ transcriptDeltaEventTypes ++ audioDeltaEventTypes) : ¬IsFragment event := by
  rintro ⟨t', hmem, htype'⟩
  obtain rfl := Option.some.inj (htype.symm.trans htype')
  exact h hmem

/-- A fragment that is accepted carries text or audio. -/
theorem fragment_of_step (h : consumeFrom o.env o.config.limits c event = (.ok none, c'))
    (hf : IsFragment event) : (textOf o.env event).isSome = true ∨ (audioOf event).isSome = true := by
  have hs := step_of_consume h
  cases hs with
  | created responseId hcount htype =>
    exact absurd hf (not_isFragment_of_type htype (by decide))
  | text eventType text n hcount htype hne htext =>
    rw [textOf_of_ok htext]
    exact .inl rfl
  | audio eventType chunk hcount htype haudio htext hactive hchunk =>
    rw [audioOf_of_chunk htype haudio hchunk]
    exact .inr rfl
  | audioDone hcount htype =>
    exact absurd hf (not_isFragment_of_type htype (by decide))
  | ignored eventType hcount htype hne hdone haudio htext =>
    refine absurd hf (not_isFragment_of_type htype fun hmem => ?_)
    rcases List.mem_append.mp hmem with hmem | hmem
    · exact validatedTranscriptDelta_of_mem htype hmem htext
    · exact haudio hmem

/-- An accepted event opens a response, or belongs to the one that is open, if any. -/
theorem follow_cases {open_ : Open} (hr : Represents o.env c open_)
    (h : consumeFrom o.env o.config.limits c event = (.ok none, c')) :
    (open_ = none ∧ HasType event "response.created" ∧ ¬IsFragment event ∧
        ∃ responseId, createdId event = .ok responseId ∧
          follow open_ event true = some (responseId, [])) ∨
      ¬HasType event "response.created" ∧ (IsFragment event → open_ ≠ none) ∧
        follow open_ event true =
          open_.map fun (responseId, events) => (responseId, events ++ [event]) := by
  have hactive : ∀ {d : ResponseCollector}, d.responseId ≠ none → Represents o.env d open_ →
      open_ ≠ none := by
    rintro d hd hr rfl
    exact hd hr.1
  have hother : ∀ {t : PyStr}, eventType? event = some t → t ≠ lit "response.created" →
      ¬HasType event "response.created" := by
    intro t htype hne hcreated
    exact hne (Option.some.inj (htype.symm.trans hcreated))
  have hs := step_of_consume h
  cases hs with
  | created responseId hcount htype hidle hid =>
    refine .inl ⟨?_, htype, not_isFragment_of_type htype (by decide), responseId, hid, ?_⟩
    · cases open_ with
      | none => rfl
      | some value => cases hidle.symm.trans hr.1
    · unfold follow
      rw [if_neg (by decide), if_pos htype, hid]
      rfl
  | text eventType text n hcount htype hne htext hidle =>
    have hdone : eventType ≠ lit "response.done" := by
      rintro rfl
      rw [validatedTranscriptDelta_of_notMem htype (by decide)] at htext
      cases htext
    exact .inr ⟨hother htype hne, fun _ => hactive hidle hr, follow_accepted htype hne hdone⟩
  | audio eventType chunk hcount htype haudio htext hidle =>
    have hne : ∀ t ∈ audioDeltaEventTypes, t ≠ lit "response.created" ∧ t ≠ lit "response.done" := by
      decide
    exact .inr ⟨hother htype (hne _ haudio).1, fun _ => hactive hidle hr,
      follow_accepted htype (hne _ haudio).1 (hne _ haudio).2⟩
  | audioDone hcount htype htext hidle =>
    exact .inr ⟨hother htype (by decide), fun _ => hactive hidle hr,
      follow_accepted htype (by decide) (by decide)⟩
  | ignored eventType hcount htype hne hdone haudio htext =>
    refine .inr ⟨hother htype hne, fun hf => ?_, follow_accepted htype hne hdone⟩
    rcases fragment_of_step h hf with ht | ha
    · rw [textOf_of_ok htext] at ht
      cases ht
    · rw [audioOf_of_notMem htype haudio] at ha
      cases ha

/-- No event of type `response.done` is accepted without completing the response. -/
theorem not_done_of_step (h : consumeFrom o.env o.config.limits c event = (.ok none, c')) :
    ¬HasType event "response.done" := by
  intro hdone
  have hne : ∀ t ∈ audioDeltaEventTypes, t ≠ lit "response.done" := by decide
  have hs := step_of_consume h
  cases hs with
  | created responseId hcount htype => exact absurd (Option.some.inj (htype.symm.trans hdone)) (by decide)
  | text eventType text n hcount htype hcreated htext =>
    rw [validatedTranscriptDelta_of_notMem hdone (by decide)] at htext
    cases htext
  | audio eventType chunk hcount htype haudio =>
    exact hne _ haudio (Option.some.inj (htype.symm.trans hdone))
  | audioDone hcount htype => exact absurd (Option.some.inj (htype.symm.trans hdone)) (by decide)
  | ignored eventType hcount htype hcreated hother =>
    exact hother (Option.some.inj (htype.symm.trans hdone))

theorem accepts_mem (h : Accepts o c events c') {e : Event} (he : e ∈ events) :
    ∃ c₁ c₂, consumeFrom o.env o.config.limits c₁ e = (.ok none, c₂) := by
  induction events generalizing c with
  | nil => cases he
  | cons event rest ih =>
    obtain ⟨c₁, hfirst, hrest⟩ := accepts_cons.mp h
    rcases List.mem_cons.mp he with rfl | he
    · exact ⟨c, c₁, hfirst⟩
    · exact ih hrest he

theorem eventType_of_step (h : consumeFrom o.env o.config.limits c event = (.ok none, c')) :
    eventType? event ≠ none := by
  have hs := step_of_consume h
  cases hs with
  | created responseId hcount htype | audioDone hcount htype =>
    rw [htype]
    exact Option.some_ne_none _
  | text eventType text n hcount htype | audio eventType chunk hcount htype
  | ignored eventType hcount htype =>
    rw [htype]
    exact Option.some_ne_none _

/-- The events in the log of an open response. -/
def logOf (open_ : Open) : List Event := (open_.map Prod.snd).getD []

/-- The log after accepted events: what it was, and of the new events at least every fragment; and the
id is that of every `response.created` among them. -/
theorem log_of_accepts {open_ : Open} {responseId : PyStr} {log : List Event}
    (h : Accepts o c events c') (hr : Represents o.env c open_)
    (hlast : openAfter open_ (events.map fun event => (event, .ok none)) = some (responseId, log)) :
    ∃ extra, log = logOf open_ ++ extra ∧ (∀ e ∈ extra, e ∈ events) ∧
      (∀ e ∈ events, IsFragment e → e ∈ extra) ∧
      (∀ e ∈ events, HasType e "response.created" → createdId e = .ok responseId) ∧
      (open_.map Prod.fst = some responseId ∨
        open_ = none ∧ ∃ e ∈ events, HasType e "response.created") := by
  induction events generalizing c open_ with
  | nil =>
    obtain rfl : open_ = some (responseId, log) := hlast
    exact ⟨[], (List.append_nil _).symm, by simp, by simp, by simp, .inl rfl⟩
  | cons event rest ih =>
    obtain ⟨c₁, hfirst, hrest⟩ := accepts_cons.mp h
    have hr₁ : Represents o.env c₁ (follow open_ event true) := by
      have hs := step_of_consume hfirst
      exact hr.step hs
    obtain ⟨extra, hlog, hsub, hfragments, hcreated, hid⟩ := ih hrest hr₁ hlast
    rcases follow_cases hr hfirst with ⟨rfl, htype, hnot, responseId', hid', hfollow⟩ |
      ⟨hother, hactive, hfollow⟩
    · rw [hfollow] at hlog hid
      have hsame : responseId' = responseId := by
        rcases hid with hid | ⟨hnone, -⟩
        · exact Option.some.inj hid
        · cases hnone
      subst hsame
      refine ⟨extra, hlog, fun e he => List.mem_cons_of_mem _ (hsub e he), ?_, ?_,
        .inr ⟨rfl, event, List.mem_cons_self, htype⟩⟩
      · intro e he hf
        rcases List.mem_cons.mp he with rfl | he
        · exact absurd hf hnot
        · exact hfragments e he hf
      · intro e he hc
        rcases List.mem_cons.mp he with rfl | he
        · exact hid'
        · exact hcreated e he hc
    · rw [hfollow] at hlog hid
      have hcreated' : ∀ e ∈ event :: rest, HasType e "response.created" →
          createdId e = .ok responseId := by
        intro e he hc
        rcases List.mem_cons.mp he with rfl | he
        · exact absurd hc hother
        · exact hcreated e he hc
      cases open_ with
      | none =>
        refine ⟨extra, hlog, fun e he => List.mem_cons_of_mem _ (hsub e he), ?_, hcreated', ?_⟩
        · intro e he hf
          rcases List.mem_cons.mp he with rfl | he
          · exact absurd rfl (hactive hf)
          · exact hfragments e he hf
        · rcases hid with hid | ⟨-, e, he, hc⟩
          · cases hid
          · exact .inr ⟨rfl, e, List.mem_cons_of_mem _ he, hc⟩
      | some value =>
        refine ⟨event :: extra, ?_, ?_, ?_, hcreated', ?_⟩
        · rw [hlog]
          exact List.append_assoc value.2 [event] extra
        · intro e he
          rcases List.mem_cons.mp he with rfl | he
          · exact List.mem_cons_self
          · exact List.mem_cons_of_mem _ (hsub e he)
        · intro e he hf
          rcases List.mem_cons.mp he with rfl | he
          · exact List.mem_cons_self
          · exact List.mem_cons_of_mem _ (hfragments e he hf)
        · rcases hid with hid | ⟨hnone, -⟩
          · exact .inl hid
          · cases hnone

end Log

/-! ## Returned responses -/

/-- Where a response comes from: `log` are the events of the turn since its `response.created`, and
`last` completed it. -/
structure CapturedFrom (o : ClientOptions) (events : List Event) (r : VoiceResponse)
    (log : List Event) (last : Event) : Prop where
  log_eq : ∃ before, events = before ++ [last] ∧
    openAfter none (feed o.env o.config.limits .initial before).1 = some (r.responseId, log)
  transcript_eq : r.transcript = (log.filterMap (textOf o.env)).flatten
  audio_eq : r.pcmAudio = (log.filterMap audioOf).flatten

/-- No fragment of the response and not its end names another response. -/
def Unmixed (o : ClientOptions) (responseId : PyStr) (log : List Event) (last : Event) : Prop :=
  (∀ event ∈ log, (textOf o.env event).isSome = true ∨ (audioOf event).isSome = true →
      Names responseId (event.get (lit "response_id"))) ∧
    Names responseId (doneId last)

variable {o : ClientOptions}

/-- A response of a turn is unmixed exactly if the server's events of the turn are about one
response. -/
theorem captured_iff {events : List Event} {last : Event} {c' c'' : ResponseCollector}
    {r : VoiceResponse} (haccepts : Accepts o .initial events c')
    (hdone : consumeFrom o.env o.config.limits c' last = (.ok (some r), c'')) :
    ∃ log, CapturedFrom o (events ++ [last]) r log last ∧
      (Unmixed o r.responseId log last ↔ OneResponse (events ++ [last])) := by
  have hr := (@feed_preserves o.env o.config.limits _ events _ invariant_initial
    represents_initial).2
  rw [show feed _ _ _ events = _ from haccepts] at hr
  have hs := step_of_consume hdone
  have htype : HasType last "response.done" := by
    cases hs with
    | done responseId status hcount htype => exact htype
  obtain ⟨-, responseId, log, hopen, rfl, -, htranscript, haudio, -⟩ := response_of_step hr hs
  obtain ⟨extra, hlog, hsub, hfragments, hcreated, hid⟩ :=
    log_of_accepts haccepts represents_initial hopen
  obtain rfl : log = extra := hlog
  obtain ⟨created, hmem, hctype⟩ : ∃ e ∈ events, HasType e "response.created" := by
    rcases hid with hid | ⟨-, h⟩
    · cases hid
    · exact h
  have hone : OneResponse (events ++ [last]) ↔
      ∀ event ∈ events ++ [last], AboutResponse r.responseId event := by
    constructor
    · intro h
      refine h created (List.mem_append_left _ hmem) hctype _ ?_
      rw [hcreated created hmem hctype]
      rfl
    · intro h e he hetype responseId hid
      rcases List.mem_append.mp he with he | he
      · rw [hcreated e he hetype] at hid
        exact Option.some.inj hid ▸ h
      · rw [List.mem_singleton.mp he] at hetype
        exact absurd (Option.some.inj (htype.symm.trans hetype)) (by decide)
  refine ⟨log, ⟨⟨events, rfl, ?_⟩, htranscript, haudio⟩, ?_⟩
  · rw [show feed _ _ _ events = _ from haccepts]
    exact hopen
  rw [hone]
  constructor
  · rintro ⟨hnames, hend⟩ event he
    rcases List.mem_append.mp he with he | he
    · obtain ⟨c₁, c₂, hstep⟩ := accepts_mem haccepts he
      refine ⟨fun hf => ?_, fun hdone => absurd hdone (not_done_of_step hstep)⟩
      exact hnames event (hfragments event he hf) (fragment_of_step hstep hf)
    · obtain rfl := List.mem_singleton.mp he
      exact ⟨fun hf => absurd hf (not_isFragment_of_type htype (by decide)), fun _ => hend⟩
  · intro h
    refine ⟨fun event he hcarries => ?_, (h last (List.mem_append_right _ (by simp))).2 htype⟩
    obtain ⟨c₁, c₂, hstep⟩ := accepts_mem haccepts (hsub event he)
    have hf : IsFragment event :=
      hcarries.elim (fun ht => isFragment_of_text ht (eventType_of_step hstep)) fun ha =>
        isFragment_of_audio ha (eventType_of_step hstep)
    exact (h event (List.mem_append_left _ (hsub event he))).1 hf


/-- Where the response of a turn comes from, and when it is unmixed. -/
theorem captured_of_run {prompt : PyStr} {a : TurnAnswers} {w w' : World} {r : VoiceResponse}
    (h : (runTurn o prompt a).run w = (.ok r, w')) :
    ∃ l log last, w'.wire = w.wire ++ l ∧ CapturedFrom o (turnEvents l) r log last ∧
      (Unmixed o r.responseId log last ↔ OneResponse (turnEvents l)) := by
  have hpasses := runTurn_passes (o := o) prompt a w
  unfold Ensures at hpasses
  rw [h] at hpasses
  obtain ⟨l, events, last, c', c'', hwire, hevents, haccepts, hdone, -⟩ := hpasses
  obtain ⟨log, hcaptured, hiff⟩ := captured_iff haccepts hdone
  exact ⟨l, log, last, hwire, hevents ▸ hcaptured, hevents ▸ hiff⟩

theorem perform_of_run {prompt : PyStr} {a : TurnAnswers} {w w' : World} {r : VoiceResponse}
    (h : (runTurn o prompt a).run w = (.ok r, w')) :
    perform o w (.runTurn prompt a) = (.response r, w') := by
  simp only [perform]
  rw [h]

/-- A step that returns a response is a turn that does. -/
theorem runTurn_of_response {w w' : World} {call : Call} {r : VoiceResponse}
    (h : perform o w call = (.response r, w')) :
    ∃ prompt a, call = .runTurn prompt a ∧ (runTurn o prompt a).run w = (.ok r, w') := by
  cases call with
  | connect a =>
    simp only [perform] at h
    split at h
    · cases h
    · cases h
  | close closing =>
    simp only [perform] at h
    split at h
    · cases h
    · cases h
  | runTurn prompt a =>
    simp only [perform] at h
    split at h
    · next r' w₁ hr =>
      obtain ⟨hresponse, rfl⟩ := Prod.mk.inj h
      obtain rfl := Ending.response.inj hresponse
      exact ⟨prompt, a, rfl, hr⟩
    · cases h

/-- **Responses are never mixed exactly if the server does not mix them.** In every run, each response
that a turn returns comes from the events the turn received since it requested its response; none of its
fragments and not its end names another response exactly if no text or audio delta and no
`response.done` among these events names another response than their `response.created`. -/
theorem unmixed_iff_oneResponse (o : ClientOptions) (calls : List Call) :
    ∀ step ∈ performAll o .initial calls, ∀ r, step.ending = .response r →
      ∃ l log last, step.after.wire = step.before.wire ++ l ∧ CapturedFrom o (turnEvents l) r log last ∧
        (Unmixed o r.responseId log last ↔ OneResponse (turnEvents l)) := by
  intro step hmem r hr
  have hp := (performAll_inv (P := fun _ => True) (G := fun _ => True) (fun _ _ _ _ _ => trivial)
    trivial (fun _ _ => trivial) step hmem).2
  rw [hr] at hp
  obtain ⟨prompt, a, -, hrun⟩ := runTurn_of_response hp.symm
  exact captured_of_run hrun

theorem unmixed_iff_oneResponse_sample :
    ∃ r w' l log last,
      (runTurn sampleOptions (lit "hello") sampleTurn).run .initial = (.ok r, w') ∧
      w'.wire = [] ++ l ∧ CapturedFrom sampleOptions (turnEvents l) r log last ∧
      (Unmixed sampleOptions r.responseId log last ↔ OneResponse (turnEvents l)) := by
  obtain ⟨r, w', hrun, -⟩ := sampleTurn_returns
  have hp := perform_of_run hrun
  obtain ⟨l, log, last, h⟩ := unmixed_iff_oneResponse sampleOptions
    [.runTurn (lit "hello") sampleTurn] ⟨.runTurn (lit "hello") sampleTurn, .initial, .response r, w'⟩
    (mem_performAll_cons.mpr (.inl (by rw [hp]))) r rfl
  exact ⟨r, w', l, log, last, hrun, h⟩

/-- A turn that receives a late fragment of an earlier response. -/
def mixedTurn : TurnAnswers :=
  { sampleTurn with
    receives := [
      message "\x7b\"type\":\"response.created\",\"response\":\x7b\"id\":\"r2\"\x7d\x7d",
      message "\x7b\"type\":\"response.text.delta\",\"delta\":\"Hi\",\"response_id\":\"r1\"\x7d",
      message "\x7b\"type\":\"response.done\",\"response\":\x7b\"id\":\"r2\"\x7d\x7d"] }

/-- The response `r2` is returned with the text of `r1`. -/
theorem mixedTurn_mixes :
    ¬∀ step ∈ performAll sampleOptions .initial [.runTurn (lit "hello") mixedTurn], ∀ r,
      step.ending = .response r → ∀ l log last, step.after.wire = step.before.wire ++ l →
        CapturedFrom sampleOptions (turnEvents l) r log last →
          Unmixed sampleOptions r.responseId log last := by
  intro h
  have hevaluated : ((runTurn sampleOptions (lit "hello") mixedTurn).run .initial).1.toOption.map
        VoiceResponse.responseId = some (lit "r2") ∧
      ¬OneResponse (turnEvents ((runTurn sampleOptions (lit "hello") mixedTurn).run .initial).2.wire) := by
    decide +kernel
  obtain ⟨hok, hmixed⟩ := hevaluated
  obtain ⟨r, hr, -⟩ := exists_of_map hok
  obtain ⟨w', hrun⟩ := exists_run hr
  have hp := perform_of_run hrun
  obtain ⟨l, log, last, hwire, hcaptured, hiff⟩ := captured_of_run hrun
  have hunmixed := h ⟨.runTurn (lit "hello") mixedTurn, .initial, .response r, w'⟩
    (mem_performAll_cons.mpr (.inl (by rw [hp]))) r rfl l log last hwire hcaptured
  obtain rfl : w'.wire = l := hwire
  rw [hrun] at hmixed
  exact hmixed (hiff.mp hunmixed)

end Sentinel.Voice
