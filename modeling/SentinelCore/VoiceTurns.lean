import SentinelCore.VoiceRuns
import SentinelCore.VoiceCollector

/-!
# Turns of the voice client

What a turn makes of the messages it receives.

1. `turnStep_spec`: one message. The collector consumes its event, and the sink is given the text the
   event carries; or the turn ends with an exception, and the sink is given nothing.
2. `turnLoop_spec`: the loop, by induction on the messages. The events are those the wire shows
   (`turnEvents`), and the collector accepts each of them (`Accepts`).
3. So the sink is given what the collector accepts, from each message on, and at last the transcript
   (`emitted_eq_accepted`).
4. A response holds what the events since its `response.created` carry, whatever response they name
   (`unmixed_iff`).
-/

namespace Sentinel.Voice

open Py Lib Act

/-! ## Programs that send no user event -/

/-- From every world the program sends no user event and gives the sink nothing. -/
def Quiet {α : Type} (x : Calling α) : Prop :=
  ∀ w, Ensures x w (fun _ w' => Quietly w w') fun _ w' => Quietly w w'

section Quiet

variable {α β : Type}

theorem quiet_pure (a : α) : Quiet (pure a) := fun w => ensures_pure (.refl w)

theorem quiet_raise (e : VoiceExc) : Quiet (raise e : Calling α) := fun w => ensures_raise (.refl w)

theorem quiet_pending : Quiet (throw .pending : Calling α) := fun w => ensures_pending (.refl w)

theorem quiet_await (x : Answer α) : Quiet (await x) :=
  fun w => ensures_await (fun _ _ => .refl w) fun _ _ => .refl w

theorem quiet_get : Quiet (get : Calling World) := fun w => show Quietly w w from .refl w

theorem quiet_modify {f : World → World} (h : ∀ w, Quietly w (f w)) : Quiet (modify f) :=
  fun w => ensures_modify (h w)

theorem quiet_record {x : WireEvent} (hx : ¬x.SendsUser) : Quiet (record x) :=
  fun _ => ensures_record (.record rfl hx rfl)

theorem quiet_bind {x : Calling α} {f : α → Calling β} (hx : Quiet x) (hf : ∀ a, Quiet (f a)) :
    Quiet (x >>= f) := by
  intro w
  refine ensures_bind ((hx w).mono (fun a w' hq => ?_) fun _ _ hq => hq)
  exact (hf a w').mono (fun _ _ hq' => hq.trans hq') fun _ _ hq' => hq.trans hq'

theorem quiet_tryCatching {body : Calling α} {catches : VoiceExc → Bool}
    {handler : VoiceExc → Calling α} (hbody : Quiet body) (hhandler : ∀ e, Quiet (handler e)) :
    Quiet (tryCatching body catches handler) := by
  intro w
  refine ensures_tryCatching ((hbody w).mono (fun _ _ hq => hq) fun s w' hq => ?_)
  cases s with
  | pending => exact hq
  | raised e =>
    show if catches e = true then _ else _
    by_cases hc : catches e = true
    · rw [if_pos hc]
      exact (hhandler e w').mono (fun _ _ hq' => hq.trans hq') fun _ _ hq' => hq.trans hq'
    · rw [if_neg hc]
      exact hq

theorem quiet_forgetConversation : Quiet forgetConversation :=
  quiet_modify fun _ => .of_eq rfl rfl

theorem quiet_close (closing : Answer Unit) : Quiet (close closing) := by
  intro w
  exact (close_spec w closing).mono (fun _ _ hc => hc.1.2.1) fun _ _ hc => hc.1.2.1

theorem quiet_receiveEvent (o : ClientOptions) (closing : Answer Unit) (answer : Answer RawMessage) :
    Quiet (receiveEvent o closing answer) := by
  refine quiet_bind quiet_get fun w => ?_
  cases w.websocket with
  | none => exact quiet_raise _
  | some socket =>
    refine quiet_bind (quiet_tryCatching (quiet_await _) fun _ => ?_) fun raw => ?_
    · exact quiet_bind (quiet_close closing) fun _ => quiet_raise _
    · exact quiet_bind (quiet_await _) fun event => quiet_bind (quiet_record id) fun _ => quiet_pure _

theorem quiet_captureConversationId (o : ClientOptions) (event : Event) :
    Quiet (captureConversationId o event) := by
  intro w
  refine (captureConversationId_spec o w event).mono ?_ ?_
  · rintro _ w' ⟨conversationId, -, rfl⟩
    exact .of_eq rfl rfl
  · rintro _ w' ⟨rfl, -⟩
    exact .refl _

theorem quiet_sendEvent (o : ClientOptions) {event : Event} (h : ¬IsUserEvent event)
    (answer : Answer Unit) : Quiet (sendEvent o event answer) := by
  refine quiet_bind quiet_get fun w => ?_
  cases w.websocket with
  | none => exact quiet_raise _
  | some socket =>
    refine quiet_bind (quiet_await _) fun _ => quiet_bind (quiet_record h) fun _ => ?_
    exact quiet_bind (quiet_await _) fun _ => quiet_record id

theorem quiet_waitForSessionReady (o : ClientOptions) (closing : Answer Unit)
    (receives : List (Answer RawMessage)) : Quiet (waitForSessionReady o closing receives) := by
  induction receives with
  | nil => exact quiet_pending
  | cons answer rest ih =>
    refine quiet_bind (quiet_receiveEvent o closing answer) fun event =>
      quiet_bind (quiet_captureConversationId o event) fun _ => ?_
    split_ifs
    · exact quiet_raise _
    · exact quiet_modify fun _ => .of_eq rfl rfl
    · exact ih

theorem quiet_connect (o : ClientOptions) (a : ConnectAnswers) : Quiet (connect o a) := by
  refine quiet_bind quiet_get fun w => ?_
  split_ifs
  · exact quiet_pure _
  · exact quiet_raise _
  · refine quiet_bind (quiet_await _) fun url => quiet_tryCatching ?_ fun e => ?_
    · have hupdate := not_isUserEvent_of_hasType (hasType_sessionUpdateEvent o.config)
      refine quiet_bind ?_ fun _ => quiet_bind (quiet_sendEvent o hupdate _) fun _ =>
        quiet_waitForSessionReady o _ _
      refine quiet_bind (quiet_await _) fun _ => quiet_bind quiet_get fun w =>
        quiet_bind (quiet_record id) fun _ => quiet_modify fun _ => .of_eq rfl rfl
    · exact quiet_bind quiet_forgetConversation fun _ => quiet_bind (quiet_close _) fun _ =>
        quiet_raise e

end Quiet

/-! ## One message -/

variable (o : ClientOptions)

/-- The sink never raises. -/
def SinkReturns : Prop := ∀ sink ∈ o.transcriptSink, ∀ before text, sink before text = none

/-- What the sink is given of these texts. -/
def given (texts : List PyStr) : List PyStr := if o.transcriptSink.isSome then texts else []

variable {o}

theorem given_append (texts texts' : List PyStr) :
    given o (texts ++ texts') = given o texts ++ given o texts' := by
  unfold given
  by_cases h : o.transcriptSink.isSome = true
  · rw [if_pos h, if_pos h, if_pos h]
  · rw [if_neg h, if_neg h, if_neg h]
    rfl

section Loop

variable {closing : Answer Unit}

/-- The sink is given the text. -/
theorem emit_given (w : World) (transcriptDelta : Option PyStr) :
    Ensures (emit o transcriptDelta) w
      (fun _ w' => w' = { w with emitted := w.emitted ++ given o transcriptDelta.toList })
      fun s _ => (∃ e, s = .raised e) ∧ ¬SinkReturns o := by
  unfold emit given
  cases transcriptDelta with
  | none =>
    refine ensures_pure ?_
    show w = { w with emitted := w.emitted ++ if _ then [] else [] }
    rw [ite_self, List.append_nil]
  | some text =>
    cases hsink : o.transcriptSink with
    | none =>
      refine ensures_pure ?_
      show w = { w with emitted := w.emitted ++ [] }
      rw [List.append_nil]
    | some sink =>
      refine ensures_get_bind (ensures_bind (ensures_modify ?_))
      cases htext : sink w.emitted text with
      | none => exact ensures_pure rfl
      | some e =>
        refine ensures_raise ⟨⟨e, rfl⟩, fun hreturns => ?_⟩
        rw [hreturns sink hsink] at htext
        cases htext

/-- The event is consumed and its text passed on, or the turn ends and nothing is passed on. -/
theorem process_given (w : World) (c : ResponseCollector) (event : Event) :
    Ensures (process o c event) w
      (fun processed w' => consumeFrom o.env o.config.limits c event = (.ok processed.1, processed.2) ∧
        w' = { w with emitted := w.emitted ++ given o (textOf o.env event).toList })
      fun s w' => (∃ e, s = .raised e) ∧ (SinkReturns o → w' = w) := by
  unfold process
  by_cases herror : eventType? event = some (lit "error")
  · rw [if_pos herror]
    exact ensures_raise ⟨⟨_, rfl⟩, fun _ => rfl⟩
  · rw [if_neg herror]
    refine ensures_bind (ensures_await (fun completed hcompleted => ?_) fun e _ => ⟨⟨e, rfl⟩, fun _ => rfl⟩)
    refine ensures_bind (ensures_await (fun text htext => ?_) fun e _ => ⟨⟨e, rfl⟩, fun _ => rfl⟩)
    refine ensures_bind ((emit_given w text).mono ?_ ?_)
    · rintro _ w' rfl
      rw [← textOf_of_ok htext]
      exact ensures_pure ⟨Prod.ext hcompleted rfl, rfl⟩
    · rintro s w' ⟨hs, hreturns⟩
      exact ⟨hs, fun h => absurd h hreturns⟩

variable (o closing) in
/-- One turn of the loop, up to the decision whether the response is complete. -/
def turnStep (c : ResponseCollector) (answer : Answer RawMessage) :
    Calling (Option VoiceResponse × ResponseCollector) := do
  let event ← receiveEvent o closing answer
  captureConversationId o event
  process o c event

theorem turnLoop_cons (c : ResponseCollector) (answer : Answer RawMessage)
    (rest : List (Answer RawMessage)) :
    turnLoop o closing c (answer :: rest) = (do
      let processed ← turnStep o closing c answer
      match processed.1 with
      | some completed => finish completed
      | none => turnLoop o closing processed.2 rest) := by
  rw [turnLoop]
  unfold turnStep
  refine Eq.trans ?_ (bind_assoc _ _ _).symm
  apply congrArg (receiveEvent o closing answer >>= ·)
  funext event
  exact (bind_assoc _ _ _).symm

/-- What becomes of one message. -/
theorem turnStep_spec (w : World) (c : ResponseCollector) (answer : Answer RawMessage) :
    Ensures (turnStep o closing c answer) w
      (fun processed w' => ∃ socket event,
        consumeFrom o.env o.config.limits c event = (.ok processed.1, processed.2) ∧
          w'.wire = w.wire ++ [.received socket event] ∧
          w'.emitted = w.emitted ++ given o (textOf o.env event).toList)
      fun s w' => (∃ e, s = .raised e) ∧ (SinkReturns o → w'.emitted = w.emitted) := by
  cases hs : w.websocket with
  | none =>
    refine ensures_bind (ensures_get_bind ?_)
    rw [hs]
    exact ensures_raise ⟨⟨_, rfl⟩, fun _ => rfl⟩
  | some socket =>
    refine receive_capture_spec o hs closing answer ?_ ?_ ?_
    · intro event conversationId _
      refine (process_given _ c event).mono ?_ ?_
      · rintro processed w' ⟨hconsumed, rfl⟩
        exact ⟨socket, event, hconsumed, rfl, rfl⟩
      · rintro s w' ⟨he, hw⟩
        exact ⟨he, fun h => by rw [hw h]⟩
    · exact fun e w' _ _ _ hq => ⟨⟨e, rfl⟩, fun _ => hq.2⟩
    · exact fun e w' _ hc _ => ⟨⟨e, rfl⟩, fun _ => hc.2.1.2⟩

/-! ## The loop -/

variable (o) in
/-- The collector consumes the events without an exception or a response. -/
def Accepts (c : ResponseCollector) (events : List Event) (c' : ResponseCollector) : Prop :=
  feed o.env o.config.limits c events = (events.map fun event => (event, .ok none), c')

theorem accepts_cons {c c' : ResponseCollector} {event : Event} {events : List Event} :
    Accepts o c (event :: events) c' ↔
      ∃ c₁, consumeFrom o.env o.config.limits c event = (.ok none, c₁) ∧ Accepts o c₁ events c' := by
  unfold Accepts
  rw [feed]
  cases h : consumeFrom o.env o.config.limits c event with
  | mk r c₁ =>
    constructor
    · intro heq
      obtain ⟨hhistory, hc⟩ := Prod.mk.inj heq
      obtain ⟨hfirst, hrest⟩ := List.cons.inj hhistory
      obtain ⟨-, rfl⟩ := Prod.mk.inj hfirst
      exact ⟨c₁, rfl, Prod.ext hrest hc⟩
    · rintro ⟨c₂, hc, hrest⟩
      obtain ⟨rfl, rfl⟩ := Prod.mk.inj hc
      simp only [hrest, List.map_cons]

/-- An accepted event adds its text to the transcript. -/
theorem transcriptParts_of_step {c c' : ResponseCollector} {event : Event}
    (h : consumeFrom o.env o.config.limits c event = (.ok none, c')) :
    c'.transcriptParts = c.transcriptParts ++ (textOf o.env event).toList := by
  have hs := step_of_consume h
  cases hs with
  | created responseId hcount htype =>
    rw [textOf_of_ok (validatedTranscriptDelta_of_notMem htype (by decide))]
    exact (List.append_nil _).symm
  | text eventType text n hcount htype hne htext =>
    rw [textOf_of_ok htext]
    rfl
  | audio eventType chunk hcount htype haudio htext =>
    rw [textOf_of_ok htext]
    exact (List.append_nil _).symm
  | audioDone hcount htype htext =>
    rw [textOf_of_ok htext]
    exact (List.append_nil _).symm
  | ignored eventType hcount htype hne hdone haudio htext =>
    rw [textOf_of_ok htext]
    exact (List.append_nil _).symm

theorem transcriptParts_of_accepts {c c' : ResponseCollector} {events : List Event}
    (h : Accepts o c events c') :
    c'.transcriptParts = c.transcriptParts ++ events.filterMap (textOf o.env) := by
  induction events generalizing c with
  | nil =>
    obtain rfl := (Prod.mk.inj h).2
    exact (List.append_nil _).symm
  | cons event rest ih =>
    obtain ⟨c₁, hfirst, hrest⟩ := accepts_cons.mp h
    rw [ih hrest, transcriptParts_of_step hfirst, List.append_assoc, List.filterMap_cons]
    cases textOf o.env event with
    | none => rfl
    | some text => rfl

/-- The event that completes a response carries no text. -/
theorem transcript_of_done {c c' : ResponseCollector} {event : Event} {r : VoiceResponse}
    (h : consumeFrom o.env o.config.limits c event = (.ok (some r), c')) :
    r.transcript = c.transcriptParts.flatten ∧ textOf o.env event = none := by
  have hs := step_of_consume h
  cases hs with
  | done responseId status hcount htype =>
    exact ⟨rfl, textOf_of_ok (validatedTranscriptDelta_of_notMem htype (by decide))⟩

/-- The event that came in. -/
def WireEvent.received? : WireEvent → Option Event
  | .received _ event => some event
  | .opened _ _ | .sending _ _ | .sent _ _ | .closing _ => none

variable (o) in
/-- From one world to the next exactly these events come in, and the sink is given what they carry. -/
def Passes (events : List Event) (w w' : World) : Prop :=
  (∃ l, w'.wire = w.wire ++ l ∧ l.map WireEvent.received? = events.map some) ∧
    w'.emitted = w.emitted ++ given o (events.filterMap (textOf o.env))

theorem passes_nil (w : World) : Passes o [] w w :=
  ⟨⟨[], (List.append_nil _).symm, rfl⟩, by
    show w.emitted = w.emitted ++ if _ then [] else []
    rw [ite_self, List.append_nil]⟩

theorem Passes.cons {event : Event} {events : List Event} {w w₁ w' : World} {socket : ℕ}
    (hwire : w₁.wire = w.wire ++ [.received socket event])
    (hemitted : w₁.emitted = w.emitted ++ given o (textOf o.env event).toList)
    (h : Passes o events w₁ w') : Passes o (event :: events) w w' := by
  obtain ⟨⟨l, hl, hmap⟩, he⟩ := h
  refine ⟨⟨.received socket event :: l, ?_, ?_⟩, ?_⟩
  · rw [hl, hwire, List.append_assoc, List.singleton_append]
  · rw [List.map_cons, List.map_cons, hmap]
    rfl
  · rw [he, hemitted, List.append_assoc, ← given_append, List.filterMap_cons]
    cases textOf o.env event with
    | none => rfl
    | some text => rfl

/-- What the loop makes of its messages, as long as it waits and if it returns a response. -/
theorem turnLoop_passes (c : ResponseCollector) (receives : List (Answer RawMessage)) (w : World) :
    Ensures (turnLoop o closing c receives) w
      (fun r w' => ∃ events last c' c'', Accepts o c events c' ∧
        consumeFrom o.env o.config.limits c' last = (.ok (some r), c'') ∧
        Passes o (events ++ [last]) w w')
      fun s w' => s = .pending → ∃ events c', Accepts o c events c' ∧ Passes o events w w' := by
  induction receives generalizing c w with
  | nil => exact ensures_pending fun _ => ⟨[], c, rfl, passes_nil w⟩
  | cons answer rest ih =>
    rw [turnLoop_cons]
    refine ensures_bind ((turnStep_spec w c answer).mono ?_ ?_)
    · rintro ⟨completed, c₁⟩ w₁ ⟨socket, event, hconsumed, hwire, hemitted⟩
      cases completed with
      | some completed =>
        refine (finish_spec w₁ completed).mono ?_ ?_
        · rintro r w' ⟨rfl, rfl⟩
          exact ⟨[], event, c, c₁, rfl, hconsumed, .cons hwire hemitted (passes_nil w')⟩
        · rintro s w' ⟨⟨e, rfl⟩, -⟩ hpending
          cases hpending
      | none =>
        refine (ih c₁ w₁).mono ?_ ?_
        · rintro r w' ⟨events, last, c', c'', haccepts, hdone, hpasses⟩
          exact ⟨event :: events, last, c', c'', accepts_cons.mpr ⟨c₁, hconsumed, haccepts⟩, hdone,
            .cons hwire hemitted hpasses⟩
        · intro s w' hs hpending
          obtain ⟨events, c', haccepts, hpasses⟩ := hs hpending
          exact ⟨event :: events, c', accepts_cons.mpr ⟨c₁, hconsumed, haccepts⟩,
            .cons hwire hemitted hpasses⟩
    · rintro s w' ⟨⟨e, rfl⟩, -⟩ hpending
      cases hpending

/-- If the loop raises, it does so at one of its messages, and passes nothing on from there. -/
theorem turnLoop_raised (hreturns : SinkReturns o) (receives : List (Answer RawMessage))
    (c : ResponseCollector) (w : World) {e : VoiceExc} {w' : World}
    (h : (turnLoop o closing c receives).run w = (.error (.raised e), w')) :
    ∃ k < receives.length,
      (∃ w₁, (turnLoop o closing c (receives.take k)).run w = (.error .pending, w₁) ∧
        w₁.emitted = w'.emitted) ∧
      ∃ e₁ w₁, (turnLoop o closing c (receives.take (k + 1))).run w = (.error (.raised e₁), w₁) := by
  induction receives generalizing c w with
  | nil => cases h
  | cons answer rest ih =>
    rcases (turnStep_spec w c answer).exists with
      ⟨⟨completed, c₁⟩, w₁, hrun, socket, event, hconsumed, hwire, hemitted⟩ | ⟨s, w₁, hrun, ⟨e₁, rfl⟩, he⟩
    · have hcons : ∀ rest, (turnLoop o closing c (answer :: rest)).run w =
          (match completed with
            | some completed => finish completed
            | none => turnLoop o closing c₁ rest).run w₁ := by
        intro rest
        rw [turnLoop_cons, run_bind, hrun]
      cases completed with
      | some completed =>
        have hsilent : w₁.emitted = w.emitted := by
          rw [hemitted, (transcript_of_done hconsumed).2]
          show w.emitted ++ (if _ then [] else []) = _
          rw [ite_self, List.append_nil]
        rw [hcons] at h
        rcases (finish_spec w₁ completed).exists with ⟨r, w₂, hfinish, -⟩ | ⟨s, w₂, hfinish, -, rfl⟩
        · rw [show (finish completed).run w₁ = _ from hfinish] at h
          cases h
        · obtain ⟨-, rfl⟩ := Prod.mk.inj (h.symm.trans hfinish)
          exact ⟨0, Nat.succ_pos _, ⟨w, rfl, hsilent.symm⟩, e, w', (hcons _).trans h⟩
      | none =>
        rw [hcons] at h
        obtain ⟨k, hk, ⟨w₂, hpending, hsame⟩, e₁, w₃, hraised⟩ := ih c₁ w₁ h
        refine ⟨k + 1, Nat.succ_lt_succ hk, ⟨w₂, ?_, hsame⟩, e₁, w₃, ?_⟩
        · rw [List.take_succ_cons, hcons]
          exact hpending
        · rw [List.take_succ_cons, hcons]
          exact hraised
    · have hcons : ∀ rest, (turnLoop o closing c (answer :: rest)).run w = (.error (.raised e₁), w₁) := by
        intro rest
        rw [turnLoop_cons, run_bind, hrun]
      rw [hcons] at h
      obtain ⟨-, rfl⟩ := Prod.mk.inj h
      exact ⟨0, Nat.succ_pos _, ⟨w, rfl, (he hreturns).symm⟩, e₁, w₁, hcons _⟩

/-! ## The turn -/

theorem run_tryCatching_pending {α : Type} {body : Calling α} {catches : VoiceExc → Bool}
    {handler : VoiceExc → Calling α} {w w' : World} (h : body.run w = (.error .pending, w')) :
    (tryCatching body catches handler).run w = (.error .pending, w') := by
  unfold tryCatching
  rw [run_handle, h]
  rfl

theorem run_tryCatching_raised {α : Type} {body : Calling α} {catches : VoiceExc → Bool}
    {handler : VoiceExc → Calling α} {w w' : World} {e : VoiceExc}
    (h : body.run w = (.error (.raised e), w')) (hc : catches e = true) :
    (tryCatching body catches handler).run w = (handler e).run w' := by
  unfold tryCatching
  rw [run_handle, h]
  show (if catches e = true then _ else _) = _
  rw [if_pos hc]

theorem collect_passes (a : TurnAnswers) (w : World) :
    Ensures (collect o a) w
      (fun r w' => ∃ events last c' c'', Accepts o .initial events c' ∧
        consumeFrom o.env o.config.limits c' last = (.ok (some r), c'') ∧
        Passes o (events ++ [last]) w w')
      fun s w' => s = .pending → ∃ events c', Accepts o .initial events c' ∧ Passes o events w w' := by
  refine ensures_tryCatching ((turnLoop_passes .initial a.receives w).mono (fun _ _ hq => hq) ?_)
  intro s w' hs
  cases s with
  | pending => exact hs
  | raised e =>
    refine (clear_spec w' a.closing e).mono (fun _ _ hf => hf.elim) ?_
    rintro _ _ ⟨-, e, rfl⟩ hpending
    cases hpending

/-- Where the loop raises, the turn does, and nothing more is passed on. -/
theorem collect_of_raised (a : TurnAnswers) {w w' : World} {e : VoiceExc}
    (h : (turnLoop o a.closing .initial a.receives).run w = (.error (.raised e), w')) :
    ∃ e₁ w₁, (collect o a).run w = (.error (.raised e₁), w₁) ∧ w₁.emitted = w'.emitted := by
  unfold collect
  rw [run_tryCatching_raised h rfl]
  rcases (clear_spec w' a.closing e).exists with ⟨r, w₁, -, hf⟩ | ⟨s, w₁, hr, hc, e₁, rfl⟩
  · exact hf.elim
  · exact ⟨e₁, w₁, hr, hc.2.1.2⟩

theorem collect_raised (hreturns : SinkReturns o) (a : TurnAnswers) (w : World) {e : VoiceExc}
    {w' : World} (h : (collect o a).run w = (.error (.raised e), w')) :
    ∃ k < a.receives.length,
      (∃ w₁, (collect o { a with receives := a.receives.take k }).run w = (.error .pending, w₁) ∧
        w₁.emitted = w'.emitted) ∧
      ∃ e₁ w₁, (collect o { a with receives := a.receives.take (k + 1) }).run w =
        (.error (.raised e₁), w₁) := by
  cases hr : (turnLoop o a.closing .initial a.receives).run w with
  | mk r w₀ =>
    cases r with
    | ok response =>
      unfold collect tryCatching at h
      rw [run_handle, hr] at h
      cases h
    | error s =>
      cases s with
      | pending =>
        rw [show (collect o a).run w = _ from run_tryCatching_pending hr] at h
        cases h
      | raised e₀ =>
        obtain ⟨e₁, w₁, hcollect, hsame⟩ := collect_of_raised a hr
        obtain ⟨-, rfl⟩ := Prod.mk.inj (h.symm.trans hcollect)
        obtain ⟨k, hk, ⟨w₂, hpending, hsame'⟩, e₂, w₃, hraised⟩ := turnLoop_raised hreturns _ _ _ hr
        obtain ⟨e₃, w₄, hraised', -⟩ :=
          collect_of_raised { a with receives := a.receives.take (k + 1) } hraised
        exact ⟨k, hk, ⟨w₂, run_tryCatching_pending hpending, hsame'.trans hsame.symm⟩, e₃, w₄, hraised'⟩

variable (o) in
/-- A turn until its response is requested. -/
def beginTurn (prompt : PyStr) (a : TurnAnswers) : Calling Unit := do
  let w ← get
  (if w.websocket = none ∨ w.sessionReady = false then connect o a.connect else pure ())
  let (user, response) ← await (buildUserTurnEvents prompt)
  deliver o user response a

theorem runTurn_eq (prompt : PyStr) (a : TurnAnswers) :
    runTurn o prompt a = (do beginTurn o prompt a; collect o a) := by
  unfold runTurn beginTurn
  simp only [bind_assoc]

/-- The request for a response goes out. -/
def WireEvent.requestsResponse : WireEvent → Bool
  | .sending _ event => decide (HasType event "response.create")
  | .opened _ _ | .sent _ _ | .received _ _ | .closing _ => false

/-- The server events that came in after the response was requested. -/
def turnEvents (wire : List WireEvent) : List Event :=
  (wire.dropWhile fun x => !x.requestsResponse).filterMap WireEvent.received?

theorem requestsResponse_of_quiet {x : WireEvent} (h : ¬x.SendsUser) : x.requestsResponse = false := by
  cases x with
  | sending socket event => exact decide_eq_false fun htype => h (.inr htype)
  | opened | sent | received | closing => rfl

/-- Before the response is requested no event counts. -/
theorem turnEvents_quiet {l₀ : List WireEvent} (h : ∀ x ∈ l₀, ¬x.SendsUser) (l : List WireEvent) :
    turnEvents (l₀ ++ l) = turnEvents l := by
  unfold turnEvents
  rw [List.dropWhile_append_of_pos fun x hx => by rw [requestsResponse_of_quiet (h x hx)]; rfl]

theorem sendEvent_sends (event : Event) (answer : Answer Unit) (w : World) :
    Ensures (sendEvent o event answer) w
      (fun _ w' => ∃ socket,
        w' = { w with wire := w.wire ++ [.sending socket event] ++ [.sent socket event] })
      fun s w' => (∃ e, s = .raised e) ∧ w'.emitted = w.emitted := by
  cases hs : w.websocket with
  | none =>
    refine ensures_get_bind ?_
    rw [hs]
    exact ensures_raise ⟨⟨_, rfl⟩, rfl⟩
  | some socket =>
    refine (sendEvent_spec o hs event answer).mono ?_ ?_
    · rintro _ w' ⟨-, rfl⟩
      exact ⟨socket, rfl⟩
    · rintro s w' ⟨e, rfl, -, rfl | ⟨-, rfl⟩⟩
      · exact ⟨⟨e, rfl⟩, rfl⟩
      · exact ⟨⟨e, rfl⟩, rfl⟩

/-- Sending a turn passes nothing on. -/
theorem deliver_sends (user response : Event) (a : TurnAnswers) (w : World) :
    Ensures (deliver o user response a) w
      (fun _ w' => w'.emitted = w.emitted ∧ ∃ socket socket', w'.wire = w.wire ++
        [.sending socket user, .sent socket user, .sending socket' response, .sent socket' response])
      fun s w' => (∃ e, s = .raised e) ∧ w'.emitted = w.emitted := by
  have hbody : Ensures (do
      sendEvent o user a.first
      sendEvent o response a.second) w
      (fun _ w' => w'.emitted = w.emitted ∧ ∃ socket socket', w'.wire = w.wire ++
        [.sending socket user, .sent socket user, .sending socket' response, .sent socket' response])
      fun s w' => (∃ e, s = .raised e) ∧ w'.emitted = w.emitted := by
    refine ensures_bind ((sendEvent_sends user a.first w).mono ?_ fun _ _ hs => hs)
    rintro _ w₁ ⟨socket, rfl⟩
    refine (sendEvent_sends response a.second _).mono ?_ fun _ _ hs => hs
    rintro _ w₂ ⟨socket', rfl⟩
    refine ⟨rfl, socket, socket', ?_⟩
    show w.wire ++ _ ++ _ ++ _ ++ _ = _
    simp only [List.append_assoc, List.cons_append, List.nil_append]
  refine ensures_tryCatching (hbody.mono (fun _ _ hq => hq) ?_)
  rintro _ w₁ ⟨⟨e, rfl⟩, he⟩
  show if e.isException = true then _ else _
  by_cases hex : e.isException = true
  · rw [if_pos hex]
    refine (clear_spec w₁ a.closing _).mono (fun _ _ hf => hf.elim) ?_
    rintro s w₂ ⟨hc, hs⟩
    exact ⟨hs, hc.2.1.2.trans he⟩
  · rw [if_neg hex]
    exact ⟨⟨e, rfl⟩, he⟩

/-- What `run_turn` does before it receives messages: it passes nothing on. -/
theorem beginTurn_spec (prompt : PyStr) (a : TurnAnswers) (w : World) :
    Ensures (beginTurn o prompt a) w
      (fun _ w' => w'.emitted = w.emitted ∧
        ∃ l₀, w'.wire = w.wire ++ l₀ ∧ ∀ l, turnEvents (l₀ ++ l) = l.filterMap WireEvent.received?)
      fun s w' => w'.emitted = w.emitted ∧
        (s = .pending → ∃ l₀, w'.wire = w.wire ++ l₀ ∧ turnEvents l₀ = []) := by
  have hconnect : Quiet (if w.websocket = none ∨ w.sessionReady = false then connect o a.connect
      else pure ()) := by
    split_ifs
    · exact quiet_connect o a.connect
    · exact quiet_pure ()
  refine ensures_get_bind (ensures_bind ((hconnect w).mono ?_ ?_))
  · rintro _ w₁ ⟨⟨l₀, hl₀, hquiet⟩, he⟩
    refine ensures_bind (ensures_await ?_ fun e _ => ⟨he, fun h => nomatch h⟩)
    rintro ⟨user, response⟩ hbuilt
    obtain ⟨-, -, hbuilt⟩ := bind_eq_ok.mp hbuilt
    obtain ⟨rfl, rfl⟩ := Prod.mk.inj (pure_eq_ok.mp hbuilt)
    refine (deliver_sends _ _ a w₁).mono ?_ ?_
    · rintro _ w₂ ⟨he', socket, socket', hwire⟩
      refine ⟨he'.trans he, _, by rw [hwire, hl₀, List.append_assoc], fun l => ?_⟩
      rw [List.append_assoc, turnEvents_quiet hquiet]
      rfl
    · rintro s w₂ ⟨⟨e, rfl⟩, he'⟩
      exact ⟨he'.trans he, fun h => nomatch h⟩
  · rintro s w₁ ⟨⟨l₀, hl₀, hquiet⟩, he⟩
    refine ⟨he, fun _ => ⟨l₀, hl₀, ?_⟩⟩
    rw [← List.append_nil l₀, turnEvents_quiet hquiet]
    rfl

theorem filterMap_of_map {α β : Type} {f : α → Option β} {l : List α} {l' : List β}
    (h : l.map f = l'.map some) : l.filterMap f = l' := by
  have h' := congrArg (List.filterMap id) h
  rwa [List.filterMap_map, List.filterMap_map, Function.id_comp, Function.id_comp,
    List.filterMap_some] at h'

/-- What a turn makes of its messages, while it waits and if it returns a response. -/
theorem runTurn_passes (prompt : PyStr) (a : TurnAnswers) (w : World) :
    Ensures (runTurn o prompt a) w
      (fun r w' => ∃ l events last c' c'', w'.wire = w.wire ++ l ∧ turnEvents l = events ++ [last] ∧
        Accepts o .initial events c' ∧
        consumeFrom o.env o.config.limits c' last = (.ok (some r), c'') ∧
        w'.emitted = w.emitted ++ given o ((events ++ [last]).filterMap (textOf o.env)))
      fun s w' => s = .pending → ∃ l c', w'.wire = w.wire ++ l ∧
        Accepts o .initial (turnEvents l) c' ∧
        w'.emitted = w.emitted ++ given o ((turnEvents l).filterMap (textOf o.env)) := by
  rw [runTurn_eq]
  refine ensures_bind ((beginTurn_spec prompt a w).mono ?_ ?_)
  · rintro _ w₁ ⟨he, l₀, hl₀, hevents⟩
    refine (collect_passes a w₁).mono ?_ ?_
    · rintro r w₂ ⟨events, last, c', c'', haccepts, hdone, ⟨l, hl, hmap⟩, he'⟩
      refine ⟨l₀ ++ l, events, last, c', c'', ?_, ?_, haccepts, hdone, by rw [he', he]⟩
      · rw [hl, hl₀, List.append_assoc]
      · rw [hevents, filterMap_of_map hmap]
    · intro s w₂ hs hpending
      obtain ⟨events, c', haccepts, ⟨l, hl, hmap⟩, he'⟩ := hs hpending
      have hturn : turnEvents (l₀ ++ l) = events := by rw [hevents, filterMap_of_map hmap]
      refine ⟨l₀ ++ l, c', by rw [hl, hl₀, List.append_assoc], ?_, ?_⟩
      · rwa [hturn]
      · rw [hturn, he', he]
  · rintro s w₁ ⟨he, hs⟩ hpending
    obtain ⟨l₀, hl₀, hturn⟩ := hs hpending
    refine ⟨l₀, .initial, hl₀, ?_, ?_⟩
    · rw [hturn]
      rfl
    · rw [hturn, he]
      exact (passes_nil (o := o) w).2

/-- A turn that raises passes nothing on at all, or nothing from the message on at which it raises. -/
theorem runTurn_raised (hreturns : SinkReturns o) {prompt : PyStr} {a : TurnAnswers} {w w' : World}
    {e : VoiceExc} (h : (runTurn o prompt a).run w = (.error (.raised e), w')) :
    w'.emitted = w.emitted ∨ ∃ k < a.receives.length,
      (∃ w₁, (runTurn o prompt { a with receives := a.receives.take k }).run w = (.error .pending, w₁) ∧
        w₁.emitted = w'.emitted) ∧
      ∃ e₁ w₁, (runTurn o prompt { a with receives := a.receives.take (k + 1) }).run w =
        (.error (.raised e₁), w₁) := by
  rw [runTurn_eq, run_bind] at h
  rcases (beginTurn_spec prompt a w).exists with ⟨_, w₁, hbegin, he, -⟩ | ⟨s, w₁, hbegin, he, -⟩
  · have hrun : ∀ receives, (runTurn o prompt { a with receives }).run w =
        (collect o { a with receives }).run w₁ := by
      intro receives
      rw [runTurn_eq, run_bind, show beginTurn o prompt { a with receives } = beginTurn o prompt a from rfl,
        hbegin]
    rw [hbegin] at h
    obtain ⟨k, hk, ⟨w₂, hpending, hsame⟩, e₁, w₃, hraised⟩ := collect_raised hreturns a w₁ h
    exact .inr ⟨k, hk, ⟨w₂, (hrun _).trans hpending, hsame⟩, e₁, w₃, (hrun _).trans hraised⟩
  · rw [hbegin] at h
    obtain ⟨-, rfl⟩ := Prod.mk.inj h
    exact .inl he

end Loop

/-! ## Live output -/

/-- The text fragments the collector accepts. -/
def acceptedTexts (o : ClientOptions) (events : List Event) : List PyStr :=
  (feed o.env o.config.limits .initial events).1.filterMap fun (event, result) =>
    if result.isOk then textOf o.env event else none

theorem acceptedTexts_of_accepts {o : ClientOptions} {events : List Event} {c' : ResponseCollector}
    (h : Accepts o .initial events c') : acceptedTexts o events = events.filterMap (textOf o.env) := by
  unfold acceptedTexts
  rw [show feed _ _ _ events = _ from h, List.filterMap_map]
  rfl

/-- **Live output equals accepted output**, for a sink that does not raise.

While a turn waits after its first `k` messages, the sink was given what the collector has accepted of
their events. When it returns a response, the sink was given the transcript. When it raises, the sink
was given nothing, or just what it had been given before the message at which the turn raises. -/
theorem emitted_eq_accepted (o : ClientOptions) {sink : List PyStr → PyStr → Option VoiceExc}
    (hsink : o.transcriptSink = some sink) (hreturns : ∀ before text, sink before text = none)
    (w : World) (prompt : PyStr) (a : TurnAnswers) :
    (∀ k w', (runTurn o prompt { a with receives := a.receives.take k }).run w = (.error .pending, w') →
        ∃ l emitted, w'.wire = w.wire ++ l ∧ w'.emitted = w.emitted ++ emitted ∧
          emitted.flatten = (acceptedTexts o (turnEvents l)).flatten) ∧
      (∀ r w', (runTurn o prompt a).run w = (.ok r, w') →
        ∃ emitted, w'.emitted = w.emitted ++ emitted ∧ emitted.flatten = r.transcript) ∧
      ∀ e w', (runTurn o prompt a).run w = (.error (.raised e), w') →
        w'.emitted = w.emitted ∨ ∃ k < a.receives.length,
          (∃ w₁, (runTurn o prompt { a with receives := a.receives.take k }).run w =
              (.error .pending, w₁) ∧ w₁.emitted = w'.emitted) ∧
          ∃ e₁ w₁, (runTurn o prompt { a with receives := a.receives.take (k + 1) }).run w =
            (.error (.raised e₁), w₁) := by
  have hgiven : ∀ texts, given o texts = texts := by
    intro texts
    unfold given
    rw [hsink]
    rfl
  refine ⟨fun k w' h => ?_, fun r w' h => ?_, fun e w' h => runTurn_raised ?_ h⟩
  · have hp := runTurn_passes (o := o) prompt { a with receives := a.receives.take k } w
    unfold Ensures at hp
    rw [h] at hp
    obtain ⟨l, c', hwire, haccepts, he⟩ := hp rfl
    exact ⟨l, _, hwire, he, by rw [hgiven, acceptedTexts_of_accepts haccepts]⟩
  · have hp := runTurn_passes (o := o) prompt a w
    unfold Ensures at hp
    rw [h] at hp
    obtain ⟨l, events, last, c', c'', -, -, haccepts, hdone, he⟩ := hp
    obtain ⟨htranscript, hlast⟩ := transcript_of_done hdone
    refine ⟨_, he, ?_⟩
    rw [hgiven, htranscript, transcriptParts_of_accepts haccepts, filterMap_snoc, hlast]
    exact congrArg List.flatten (List.append_nil _)
  · intro sink' hsink'
    obtain rfl := Option.some.inj (hsink.symm.trans hsink')
    exact hreturns

theorem sampleTurn_returns : ∃ r w',
    (runTurn sampleOptions (lit "hello") sampleTurn).run .initial = (.ok r, w') ∧
      r.transcript = lit "Hi" := by
  have htext : ((runTurn sampleOptions (lit "hello") sampleTurn).run .initial).1.toOption.map
      VoiceResponse.transcript = some (lit "Hi") := by decide +kernel
  obtain ⟨r, hr, ht⟩ := exists_of_map htext
  obtain ⟨w', hrun⟩ := exists_run hr
  exact ⟨r, w', hrun, ht⟩

/-- A turn whose response has one fragment. -/
theorem emitted_eq_accepted_sample :
    ∃ r w' emitted, (runTurn sampleOptions (lit "hello") sampleTurn).run .initial = (.ok r, w') ∧
      r.transcript = lit "Hi" ∧ w'.emitted = [] ++ emitted ∧ emitted.flatten = r.transcript := by
  obtain ⟨r, w', hrun, ht⟩ := sampleTurn_returns
  obtain ⟨emitted, he, hflat⟩ := (emitted_eq_accepted sampleOptions rfl (fun _ _ => rfl) .initial
    (lit "hello") sampleTurn).2.1 r w' hrun
  exact ⟨r, w', emitted, hrun, ht, he, hflat⟩

end Sentinel.Voice
