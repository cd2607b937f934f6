import SentinelCore.VoiceSessions

/-!
# Runs of the voice client

Two promises of the client, over whole runs of calls in which every await may end in any way.

1. User events go out on configured sessions only, as long as no turn that can be sent starts on a
   WebSocket without a ready session (`userEvents_configured`). Such a WebSocket is left by a
   `connect` that is cancelled.
2. A turn that does not return a response leaves nothing to reuse, nor does a `connect` without a
   session, exactly if no await is cancelled that only `except Exception` guards
   (`settled_iff_undisturbed`).
-/

namespace Sentinel.Voice

open Py Lib Act

/-! ## Delivery -/

section Turns

variable (o : ClientOptions)

/-- What comes of sending the two events of a turn. -/
def delivery (user response : Event) (a : TurnAnswers) : Answer Unit := do
  sendAnswer o user a.first
  sendAnswer o response a.second

variable {o} {w : World}

/-- A ready client stays ready when it sends. -/
theorem send_ready_spec (h : Inv o w) (hr : w.sessionReady = true) (event : Event)
    (answer : Answer Unit) :
    Ensures (sendEvent o event answer) w
      (fun _ w' => Inv o w' ∧ w'.sessionReady = true ∧ sendAnswer o event answer = .ok ())
      fun s w' => Inv o w' ∧ w'.sessionReady = true ∧
        ∃ e, s = .raised e ∧ sendAnswer o event answer = .error e := by
  obtain ⟨socket, hs, -⟩ := h.ready hr
  refine (sendEvent_spec o hs event answer).mono ?_ ?_
  · rintro _ w' ⟨ha, rfl⟩
    have hi : Inv o { w with wire := w.wire ++ [.sending socket event] } := h.sending hr hs event
    exact ⟨hi.recorded id, hr, ha⟩
  · rintro s w' ⟨e, rfl, he, rfl | ⟨-, rfl⟩⟩
    · exact ⟨h, hr, e, rfl, he⟩
    · exact ⟨h.sending hr hs event, hr, e, rfl, he⟩

/-- The first `try` of `run_turn`, until its handler. -/
theorem deliver_body_spec (h : Inv o w) (hr : w.sessionReady = true) (user response : Event)
    (a : TurnAnswers) :
    Ensures (do
        sendEvent o user a.first
        sendEvent o response a.second) w
      (fun _ w' => Inv o w' ∧ w'.sessionReady = true ∧ delivery o user response a = .ok ())
      fun s w' => Inv o w' ∧ w'.sessionReady = true ∧
        ∃ e, s = .raised e ∧ delivery o user response a = .error e := by
  refine ensures_bind ((send_ready_spec h hr user a.first).mono ?_ ?_)
  · rintro _ w₁ ⟨hi₁, hr₁, hfirst⟩
    refine (send_ready_spec hi₁ hr₁ response a.second).mono ?_ ?_
    · rintro _ w₂ ⟨hi₂, hr₂, hsecond⟩
      exact ⟨hi₂, hr₂, bind_eq_ok.mpr ⟨(), hfirst, hsecond⟩⟩
    · rintro s w₂ ⟨hi₂, hr₂, e, rfl, he⟩
      exact ⟨hi₂, hr₂, e, rfl, bind_eq_error.mpr (.inr ⟨(), hfirst, he⟩)⟩
  · rintro s w₁ ⟨hi₁, hr₁, e, rfl, he⟩
    exact ⟨hi₁, hr₁, e, rfl, bind_eq_error.mpr (.inl he)⟩

/-- A turn that cannot be sent clears the client, unless it is cancelled. -/
theorem deliver_spec (h : Inv o w) (hr : w.sessionReady = true) (user response : Event)
    (a : TurnAnswers) :
    Ensures (deliver o user response a) w
      (fun _ w' => Inv o w' ∧ w'.sessionReady = true ∧ delivery o user response a = .ok ())
      fun s w' => Inv o w' ∧ (∃ e, s = .raised e) ∧
        ∃ e, delivery o user response a = .error e ∧
          (e.isException = true ∧ Cleared w' ∨ e.isException = false ∧ w'.sessionReady = true) := by
  refine ensures_tryCatching ((deliver_body_spec h hr user response a).mono (fun _ _ hq => hq) ?_)
  rintro s w' ⟨hi, hr, e, rfl, he⟩
  show if e.isException = true then _ else _
  by_cases hex : e.isException = true
  · rw [if_pos hex]
    refine (forget_close_spec hi a.closing _).mono (fun _ _ hf => hf.elim) ?_
    rintro s w'' ⟨hi', -, hc, hs⟩
    exact ⟨hi', hs, e, he, .inl ⟨hex, hc⟩⟩
  · rw [if_neg hex]
    exact ⟨hi, ⟨e, rfl⟩, e, he, .inr ⟨Bool.not_eq_true _ ▸ hex, hr⟩⟩

/-- A turn whose first event is refused sends nothing. -/
theorem deliver_refused_spec (h : Inv o w) {socket : ℕ} (hs : w.websocket = some socket)
    {user : Event} {e : VoiceExc} (he : checkPayload o user = .error e) (response : Event)
    (a : TurnAnswers) :
    Ensures (deliver o user response a) w (fun _ _ => False) fun _ w' => Inv o w' := by
  have hanswer : sendAnswer o user a.first = .error e := bind_eq_error.mpr (.inl he)
  refine ensures_tryCatching (ensures_bind ((sendEvent_spec o hs user a.first).mono ?_ ?_))
  · rintro _ w' ⟨ha, -⟩
    rw [hanswer] at ha
    cases ha
  · rintro _ w' ⟨e', rfl, he', rfl | ⟨hok, -⟩⟩
    · obtain rfl := Except.error.inj (hanswer.symm.trans he')
      show if e.isException = true then _ else _
      rw [if_pos (VoiceExc.isException_of_isOwn (checkPayload_raisesOwn o user e he))]
      exact (forget_close_spec h a.closing _).mono (fun _ _ hf => hf) fun _ _ hs => hs.1
    · rw [he] at hok
      cases hok

/-! ## The answer to a turn -/

theorem emit_spec (w : World) (transcriptDelta : Option PyStr) :
    Ensures (emit o transcriptDelta) w
      (fun _ w' => w'.toXaiVoiceClient = w.toXaiVoiceClient ∧ w'.wire = w.wire)
      fun _ w' => w'.toXaiVoiceClient = w.toXaiVoiceClient ∧ w'.wire = w.wire := by
  unfold emit
  cases transcriptDelta with
  | none => exact ensures_pure ⟨rfl, rfl⟩
  | some text =>
    cases o.transcriptSink with
    | none => exact ensures_pure ⟨rfl, rfl⟩
    | some sink =>
      refine ensures_get_bind (ensures_bind (ensures_modify ?_))
      cases sink w.emitted text with
      | none => exact ensures_pure ⟨rfl, rfl⟩
      | some e => exact ensures_raise ⟨rfl, rfl⟩

theorem process_spec (w : World) (collector : ResponseCollector) (event : Event) :
    Ensures (process o collector event) w
      (fun _ w' => w'.toXaiVoiceClient = w.toXaiVoiceClient ∧ w'.wire = w.wire)
      fun _ w' => w'.toXaiVoiceClient = w.toXaiVoiceClient ∧ w'.wire = w.wire := by
  unfold process
  by_cases herror : eventType? event = some (lit "error")
  · rw [if_pos herror]
    exact ensures_raise ⟨rfl, rfl⟩
  · rw [if_neg herror]
    refine ensures_bind (ensures_await (fun _ _ => ?_) fun _ _ => ⟨rfl, rfl⟩)
    refine ensures_bind (ensures_await (fun _ _ => ?_) fun _ _ => ⟨rfl, rfl⟩)
    exact ensures_bind ((emit_spec w _).mono (fun _ _ hw => ensures_pure hw) fun _ _ hw => hw)

theorem finish_spec (w : World) (completed : VoiceResponse) :
    Ensures (finish completed) w (fun r w' => r = completed ∧ w' = w)
      fun s w' => (∃ e, s = .raised e) ∧ w' = w := by
  unfold finish
  split_ifs
  · exact ensures_pure ⟨rfl, rfl⟩
  · exact ensures_raise ⟨⟨_, rfl⟩, rfl⟩

/-- The loop of `run_turn` keeps the invariant, and a ready client ready as long as it goes on. -/
theorem turnLoop_spec (closing : Answer Unit) (collector : ResponseCollector)
    (receives : List (Answer RawMessage)) (h : Inv o w) (hr : w.sessionReady = true) :
    Ensures (turnLoop o closing collector receives) w
      (fun _ w' => Inv o w' ∧ w'.sessionReady = true) fun _ w' => Inv o w' := by
  induction receives generalizing w collector with
  | nil => exact ensures_pending h
  | cons answer rest ih =>
    obtain ⟨socket, hs, -⟩ := h.ready hr
    unfold turnLoop
    refine receive_capture_spec o hs closing answer ?_ ?_ ?_
    · intro event conversationId he
      have hi := h.heard hs he
      refine ensures_bind ((process_spec _ collector event).mono ?_ fun _ _ hw => hi.same hw)
      rintro ⟨completed, collector'⟩ w' hw
      have hr' : w'.sessionReady = true := by rw [hw.1]; exact hr
      cases completed with
      | some completed =>
        refine (finish_spec w' completed).mono ?_ ?_
        · rintro _ _ ⟨-, rfl⟩
          exact ⟨hi.same hw, hr'⟩
        · rintro _ _ ⟨-, rfl⟩
          exact hi.same hw
      | none => exact ih collector' (hi.same hw) hr'
    · exact fun e w' _ _ hw hq => h.unchanged hw hq
    · exact fun e w' _ hc _ => h.closed hc

/-- A turn that does not get its response clears the client. -/
theorem collect_spec (h : Inv o w) (hr : w.sessionReady = true) (a : TurnAnswers) :
    Ensures (collect o a) w (fun _ w' => Inv o w' ∧ w'.sessionReady = true) fun s w' =>
      Inv o w' ∧ ∀ e, s = .raised e → Cleared w' := by
  refine ensures_tryCatching ((turnLoop_spec a.closing .initial a.receives h hr).mono
    (fun _ _ hq => hq) ?_)
  intro s w' hi
  cases s with
  | pending => exact ⟨hi, fun e he => nomatch he⟩
  | raised e =>
    show if true = true then _ else _
    rw [if_pos rfl]
    refine (forget_close_spec hi a.closing e).mono (fun _ _ hf => hf.elim) ?_
    rintro s w'' ⟨hi', -, hc, -⟩
    exact ⟨hi', fun _ _ => hc⟩

variable (o) in
/-- The sending of a turn is not cancelled. -/
def SentWhole (prompt : PyStr) (a : TurnAnswers) : Prop :=
  ∀ events ∈ (buildUserTurnEvents prompt).toOption, ¬IsBase (delivery o events.1 events.2 a)

instance (prompt : PyStr) (a : TurnAnswers) : Decidable (SentWhole o prompt a) :=
  inferInstanceAs (Decidable (∀ events ∈ (buildUserTurnEvents prompt).toOption, _))

theorem sentWhole_of_refused {prompt : PyStr} {e : VoiceExc}
    (h : buildUserTurnEvents prompt = .error e) (a : TurnAnswers) : SentWhole o prompt a := by
  unfold SentWhole
  rw [h]
  exact fun _ hmem => nomatch hmem

theorem sentWhole_of_built {prompt : PyStr} {user response : Event}
    (h : buildUserTurnEvents prompt = .ok (user, response)) (a : TurnAnswers) :
    SentWhole o prompt a ↔ ¬IsBase (delivery o user response a) := by
  unfold SentWhole
  rw [h]
  exact ⟨fun hw => hw (user, response) rfl, fun hb _ hmem => Option.some.inj hmem ▸ hb⟩

/-- A turn left nothing to reuse, or was refused before anything was sent. -/
def Discarded (prompt : PyStr) (w : World) : Prop :=
  Cleared w ∨ w.sessionReady = true ∧ (buildUserTurnEvents prompt).toOption = none

instance (prompt : PyStr) (w : World) : Decidable (Discarded prompt w) :=
  inferInstanceAs (Decidable (_ ∨ _ ∧ _))

theorem not_cleared_of_ready (hr : w.sessionReady = true) : ¬Cleared w := by
  intro hc
  rw [hc.1.2] at hr
  cases hr

/-- A turn on a ready session. -/
theorem turn_spec (h : Inv o w) (hr : w.sessionReady = true) (prompt : PyStr) (a : TurnAnswers) :
    Ensures (do
        let (user, response) ← await (buildUserTurnEvents prompt)
        deliver o user response a
        collect o a) w
      (fun _ w' => Inv o w' ∧ w'.sessionReady = true ∧ SentWhole o prompt a)
      fun s w' => Inv o w' ∧
        match s with
        | .raised _ => Discarded prompt w' ↔ SentWhole o prompt a
        | .pending => SentWhole o prompt a := by
  refine ensures_bind (ensures_await ?_ fun e he => ?_)
  · rintro ⟨user, response⟩ hbuilt
    have hwhole := sentWhole_of_built (o := o) hbuilt a
    refine ensures_bind ((deliver_spec h hr user response a).mono ?_ ?_)
    · rintro _ w₁ ⟨hi₁, hr₁, hdelivery⟩
      have hsent : SentWhole o prompt a := by
        refine hwhole.mpr ?_
        rintro ⟨e, he, -⟩
        rw [hdelivery] at he
        cases he
      refine (collect_spec hi₁ hr₁ a).mono ?_ ?_
      · rintro _ w₂ ⟨hi₂, hr₂⟩
        exact ⟨hi₂, hr₂, hsent⟩
      · rintro s w₂ ⟨hi₂, hc⟩
        cases s with
        | pending => exact ⟨hi₂, hsent⟩
        | raised e => exact ⟨hi₂, iff_of_true (.inl (hc e rfl)) hsent⟩
    · rintro _ w₁ ⟨hi₁, ⟨_, rfl⟩, e, he, ⟨hex, hc⟩ | ⟨hbase, hr₁⟩⟩
      · refine ⟨hi₁, iff_of_true (.inl hc) (hwhole.mpr ?_)⟩
        rintro ⟨e', he', hbase⟩
        obtain rfl := Except.error.inj (he.symm.trans he')
        rw [hex] at hbase
        cases hbase
      · refine ⟨hi₁, iff_of_false ?_ fun hw => hwhole.mp hw ⟨e, he, hbase⟩⟩
        rintro (hc | ⟨-, hrefused⟩)
        · exact not_cleared_of_ready hr₁ hc
        · rw [hbuilt] at hrefused
          cases hrefused
  · exact ⟨h, iff_of_true (.inr ⟨hr, by rw [he]; rfl⟩) (sentWhole_of_refused he a)⟩

theorem Discarded.rested {prompt : PyStr} (h : Discarded prompt w) : Rested w :=
  h.elim (fun hc => .inl hc.1.1) fun hr => .inr hr.1

end Turns

/-! ## Calls -/

/-- What `connect` comes to in a call, if the call connects. -/
def Call.course (o : ClientOptions) (w : World) : Call → Course
  | .connect a => if w.websocket = none then a.course o w.conversationId else .ready
  | .runTurn _ a => if w.websocket = none then a.connect.course o w.conversationId else .ready
  | .close _ => .ready

/-- No await of the call is cancelled that only `except Exception` guards and after which something
would have to be cleared. -/
def Undisturbed (o : ClientOptions) (w : World) (call : Call) : Prop :=
  call.course o w ≠ .cut ∧
    match call with
    | .runTurn prompt a => call.course o w = .ready → SentWhole o prompt a
    | .connect _ | .close _ => True

instance (o : ClientOptions) (w : World) : (call : Call) → Decidable (Undisturbed o w call)
  | .runTurn _ _ => inferInstanceAs (Decidable (_ ∧ (_ → _)))
  | .connect _ | .close _ => inferInstanceAs (Decidable (_ ∧ True))

/-- Nothing is left to reuse: by a `connect` that ends without a ready session, and by a turn that
was begun and ends without a response. -/
def Settled (step : Performed) : Prop :=
  match step.call with
  | .connect _ => step.ending.isOver = true → step.after.sessionReady = true ∨ Cleared step.after
  | .runTurn prompt _ => step.ending.isRaised = true → Discarded prompt step.after
  | .close _ => True

instance : (step : Performed) → Decidable (Settled step)
  | ⟨.connect _, _, _, _⟩ | ⟨.runTurn _ _, _, _, _⟩ => inferInstanceAs (Decidable (_ → _))
  | ⟨.close _, _, _, _⟩ => inferInstanceAs (Decidable True)

/-- The prompt of a turn passes the checks before its first event is sent. -/
def Sendable (o : ClientOptions) (prompt : PyStr) : Prop :=
  ∃ user response, buildUserTurnEvents prompt = .ok (user, response) ∧ checkPayload o user = .ok ()

section Calls

variable {o : ClientOptions} {w : World}

theorem undisturbed_iff {prompt : PyStr} {a : TurnAnswers}
    (hcourse : (Call.runTurn prompt a).course o w = .ready) :
    Undisturbed o w (.runTurn prompt a) ↔ SentWhole o prompt a := by
  exact ⟨fun h => h.2 hcourse, fun h => ⟨by rw [hcourse]; decide, fun _ => h⟩⟩

theorem undisturbed_of_course {call : Call} (hcut : call.course o w ≠ .cut)
    (hready : call.course o w ≠ .ready) : Undisturbed o w call := by
  refine ⟨hcut, ?_⟩
  cases call with
  | runTurn prompt a => exact fun h => absurd h hready
  | connect | close => exact trivial

/-- A turn of a client that holds no unready WebSocket. -/
theorem runTurn_spec (h : Inv o w) (hrest : Rested w) (prompt : PyStr) (a : TurnAnswers) :
    Ensures (runTurn o prompt a) w
      (fun _ w' => Inv o w' ∧ w'.sessionReady = true ∧ Undisturbed o w (.runTurn prompt a))
      fun s w' => Inv o w' ∧
        match s with
        | .raised _ => Discarded prompt w' ↔ Undisturbed o w (.runTurn prompt a)
        | .pending => Undisturbed o w (.runTurn prompt a) := by
  have hturn : ∀ w₁, Inv o w₁ → w₁.sessionReady = true →
      (Call.runTurn prompt a).course o w = .ready → Ensures (do
        let (user, response) ← await (buildUserTurnEvents prompt)
        deliver o user response a
        collect o a) w₁
      (fun _ w' => Inv o w' ∧ w'.sessionReady = true ∧ Undisturbed o w (.runTurn prompt a))
      fun s w' => Inv o w' ∧
        match s with
        | .raised _ => Discarded prompt w' ↔ Undisturbed o w (.runTurn prompt a)
        | .pending => Undisturbed o w (.runTurn prompt a) := by
    intro w₁ hi₁ hr₁ hcourse
    rw [undisturbed_iff hcourse]
    refine (turn_spec hi₁ hr₁ prompt a).mono (fun _ _ hq => hq) ?_
    rintro s w' ⟨hi', hs⟩
    cases s with
    | pending => exact ⟨hi', hs⟩
    | raised e => exact ⟨hi', hs⟩
  unfold runTurn
  refine ensures_get_bind (ensures_bind ?_)
  by_cases hw : w.websocket = none
  · rw [if_pos (.inl hw)]
    have hcourse : (Call.runTurn prompt a).course o w = a.connect.course o w.conversationId :=
      if_pos hw
    refine (connect_spec h (h.idle hw) a.connect).mono ?_ ?_
    · rintro _ w₁ ⟨hi₁, -, hr₁, hready⟩
      exact hturn w₁ hi₁ hr₁ (hcourse.trans hready)
    · rintro s w₁ ⟨hi₁, -, hs⟩
      cases s with
      | pending =>
        have hwaiting := hcourse.trans hs
        refine ⟨hi₁, undisturbed_of_course ?_ ?_⟩
        · rw [hwaiting]; decide
        · rw [hwaiting]; decide
      | raised e =>
        obtain ⟨hr₁, ⟨hfailed, hc⟩ | ⟨hcut, hc⟩⟩ := hs
        · have hfailed := hcourse.trans hfailed
          refine ⟨hi₁, iff_of_true (.inl hc) (undisturbed_of_course ?_ ?_)⟩
          · rw [hfailed]; decide
          · rw [hfailed]; decide
        · refine ⟨hi₁, iff_of_false ?_ fun hu => hu.1 (hcourse.trans hcut)⟩
          rintro (hc' | ⟨hr, -⟩)
          · exact hc hc'
          · rw [hr₁] at hr
            cases hr
  · have hr := hrest.resolve_left hw
    rw [if_neg fun hor => hor.elim hw fun hno => Bool.false_ne_true (hno.symm.trans hr)]
    exact ensures_pure (hturn w h hr (if_neg hw))

/-- A turn that cannot be sent keeps the invariant from any client. -/
theorem runTurn_refused_spec (h : Inv o w) (hw : w.websocket ≠ none) {prompt : PyStr}
    (hsend : ¬Sendable o prompt) (a : TurnAnswers) :
    Ensures (runTurn o prompt a) w (fun _ _ => False) fun _ w' => Inv o w' := by
  obtain ⟨socket, hs⟩ := Option.ne_none_iff_exists'.mp hw
  have hrest : Ensures (do
      let (user, response) ← await (buildUserTurnEvents prompt)
      deliver o user response a
      collect o a) w (fun _ _ => False) fun _ w' => Inv o w' := by
    refine ensures_bind (ensures_await ?_ fun e _ => h)
    rintro ⟨user, response⟩ hbuilt
    cases hpayload : checkPayload o user with
    | ok u => exact absurd ⟨user, response, hbuilt, hpayload⟩ hsend
    | error e =>
      exact ensures_bind ((deliver_refused_spec h hs hpayload response a).mono
        (fun _ _ hf => hf.elim) fun _ _ hi => hi)
  unfold runTurn
  refine ensures_get_bind (ensures_bind ?_)
  by_cases hopen : w.websocket = none ∨ w.sessionReady = false
  · rw [if_pos hopen]
    refine (connect_of_held hw a.connect).mono ?_ fun _ _ hf => hf.elim
    rintro _ _ rfl
    exact hrest
  · rw [if_neg hopen]
    exact ensures_pure hrest

theorem perform_connect {a : ConnectAnswers} {Q : Unit → World → Prop} {E : Stop → World → Prop}
    (h : Ensures (connect o a) w Q E) :
    (∃ w', perform o w (.connect a) = (.returned, w') ∧ Q () w') ∨
      ∃ s w', perform o w (.connect a) = (.stopped s, w') ∧ E s w' := by
  simp only [perform]
  rcases h.exists with ⟨_, w', hr, hq⟩ | ⟨s, w', hr, he⟩
  · rw [hr]
    exact .inl ⟨w', rfl, hq⟩
  · rw [hr]
    exact .inr ⟨s, w', rfl, he⟩

theorem perform_runTurn {prompt : PyStr} {a : TurnAnswers} {Q : VoiceResponse → World → Prop}
    {E : Stop → World → Prop} (h : Ensures (runTurn o prompt a) w Q E) :
    (∃ r w', perform o w (.runTurn prompt a) = (.response r, w') ∧ Q r w') ∨
      ∃ s w', perform o w (.runTurn prompt a) = (.stopped s, w') ∧ E s w' := by
  simp only [perform]
  rcases h.exists with ⟨r, w', hr, hq⟩ | ⟨s, w', hr, he⟩
  · rw [hr]
    exact .inl ⟨r, w', rfl, hq⟩
  · rw [hr]
    exact .inr ⟨s, w', rfl, he⟩

theorem perform_close (closing : Answer Unit) :
    ∃ ending w', perform o w (.close closing) = (ending, w') ∧ Closed w w' := by
  simp only [perform]
  rcases (close_spec w closing).exists with ⟨_, w', hr, hc, -⟩ | ⟨s, w', hr, hc, -⟩
  · rw [hr]
    exact ⟨.returned, w', rfl, hc⟩
  · rw [hr]
    exact ⟨.stopped s, w', rfl, hc⟩

/-- What a call of a client that holds no unready WebSocket comes to. -/
theorem perform_settled (h : Inv o w) (hrest : Rested w) (call : Call) :
    Inv o (perform o w call).2 ∧
      (Settled ⟨call, w, (perform o w call).1, (perform o w call).2⟩ ↔ Undisturbed o w call) := by
  cases call with
  | close closing =>
    obtain ⟨ending, w', hp, hc⟩ := perform_close (o := o) (w := w) closing
    rw [hp]
    exact ⟨h.closed hc, iff_of_true trivial ⟨(nomatch ·), trivial⟩⟩
  | runTurn prompt a =>
    rcases perform_runTurn (runTurn_spec h hrest prompt a) with ⟨r, w', hp, hi, -, hu⟩ | ⟨s, w', hp, hi, hs⟩
    · rw [hp]
      exact ⟨hi, iff_of_true (nomatch ·) hu⟩
    · rw [hp]
      cases s with
      | pending => exact ⟨hi, iff_of_true (nomatch ·) hs⟩
      | raised e => exact ⟨hi, (forall_prop_of_true rfl).trans hs⟩
  | connect a =>
    by_cases hw : w.websocket = none
    · have hcourse : (Call.connect a).course o w = a.course o w.conversationId := if_pos hw
      have hundisturbed : Undisturbed o w (.connect a) ↔ a.course o w.conversationId ≠ .cut := by
        rw [← hcourse]
        exact ⟨And.left, fun hcut => ⟨hcut, trivial⟩⟩
      rw [hundisturbed]
      rcases perform_connect (connect_spec h (h.idle hw) a) with
        ⟨w', hp, hi, -, hr, hready⟩ | ⟨s, w', hp, hi, -, hs⟩
      · rw [hp]
        exact ⟨hi, iff_of_true (fun _ => .inl hr) (by rw [hready]; decide)⟩
      · rw [hp]
        cases s with
        | pending => exact ⟨hi, iff_of_true (nomatch ·) (by rw [show _ = Course.waiting from hs]; decide)⟩
        | raised e =>
          obtain ⟨hr, ⟨hfailed, hc⟩ | ⟨hcut, hc⟩⟩ := hs
          · exact ⟨hi, iff_of_true (fun _ => .inr hc) (by rw [hfailed]; decide)⟩
          · refine ⟨hi, iff_of_false ?_ fun hne => hne hcut⟩
            intro hs
            rcases hs rfl with hr' | hc'
            · rw [show w'.sessionReady = true from hr'] at hr
              cases hr
            · exact hc hc'
    · have hr := hrest.resolve_left hw
      have hcourse : (Call.connect a).course o w = .ready := if_neg hw
      have hundisturbed : Undisturbed o w (.connect a) :=
        ⟨by rw [hcourse]; decide, trivial⟩
      rcases perform_connect (connect_of_held (o := o) hw a) with ⟨w', hp, rfl⟩ | ⟨s, w', hp, hf⟩
      · rw [hp]
        exact ⟨h, iff_of_true (fun _ => .inl hr) hundisturbed⟩
      · exact hf.elim

/-- A client holds no unready WebSocket after a settled call, either. -/
theorem rested_of_settled (h : Inv o w) (hrest : Rested w) (call : Call)
    (hover : (perform o w call).1.isOver = true)
    (hs : Settled ⟨call, w, (perform o w call).1, (perform o w call).2⟩) :
    Rested (perform o w call).2 := by
  cases call with
  | close closing =>
    obtain ⟨ending, w', hp, hc⟩ := perform_close (o := o) (w := w) closing
    rw [hp]
    exact .inl hc.1.1
  | runTurn prompt a =>
    rcases perform_runTurn (runTurn_spec h hrest prompt a) with ⟨r, w', hp, -, hr, -⟩ | ⟨s, w', hp, -⟩
    · rw [hp]
      exact .inr hr
    · rw [hp] at hover hs ⊢
      cases s with
      | pending => cases hover
      | raised e => exact Discarded.rested (hs rfl)
  | connect a =>
    have hrested : ∀ w', w'.sessionReady = true ∨ Cleared w' → Rested w' :=
      fun _ hor => hor.elim .inr fun hc => .inl hc.1.1
    rcases perform_connect (o := o) (w := w) (a := a) (Q := fun _ _ => True) (E := fun _ _ => True)
      (by unfold Ensures; split <;> trivial) with ⟨w', hp, -⟩ | ⟨s, w', hp, -⟩
    · rw [hp] at hs ⊢
      exact hrested w' (hs rfl)
    · rw [hp] at hover hs ⊢
      exact hrested w' (hs hover)

/-- Every call keeps the invariant, but for a turn that is sent on an unready WebSocket. -/
theorem perform_inv (h : Inv o w) (call : Call)
    (hstart : ∀ prompt a, call = .runTurn prompt a → Sendable o prompt → Rested w) :
    Inv o (perform o w call).2 := by
  by_cases hrest : Rested w
  · exact (perform_settled h hrest call).1
  · have hw : w.websocket ≠ none := fun hw => hrest (.inl hw)
    cases call with
    | close closing =>
      obtain ⟨ending, w', hp, hc⟩ := perform_close (o := o) (w := w) closing
      rw [hp]
      exact h.closed hc
    | connect a =>
      rcases perform_connect (connect_of_held (o := o) hw a) with ⟨w', hp, rfl⟩ | ⟨s, w', hp, hf⟩
      · rw [hp]
        exact h
      · exact hf.elim
    | runTurn prompt a =>
      have hsend : ¬Sendable o prompt := fun hsend => hrest (hstart prompt a rfl hsend)
      rcases perform_runTurn (runTurn_refused_spec h hw hsend a) with ⟨r, w', hp, hf⟩ | ⟨s, w', hp, hi⟩
      · exact hf.elim
      · rw [hp]
        exact hi

end Calls

/-! ## Runs -/

section Runs

variable {o : ClientOptions} {w : World} {calls : List Call}

/-- The first call of a run, and the others. -/
theorem mem_performAll_cons {call : Call} {step : Performed} :
    step ∈ performAll o w (call :: calls) ↔
      step = ⟨call, w, (perform o w call).1, (perform o w call).2⟩ ∨
        (perform o w call).1.isOver = true ∧ step ∈ performAll o (perform o w call).2 calls := by
  rw [performAll, List.mem_cons]
  refine or_congr Iff.rfl ?_
  by_cases hover : (perform o w call).1.isOver = true
  · rw [if_pos hover]
    exact ⟨fun hmem => ⟨hover, hmem⟩, And.right⟩
  · rw [if_neg hover]
    exact ⟨(nomatch ·), fun hmem => absurd hmem.1 hover⟩

/-- What holds at first and is kept by every call that meets a condition holds before every call of a
run whose calls meet it. -/
theorem performAll_inv {P : World → Prop} {G : Performed → Prop}
    (hkeep : ∀ w call, P w → G ⟨call, w, (perform o w call).1, (perform o w call).2⟩ →
      (perform o w call).1.isOver = true → P (perform o w call).2)
    (h : P w) (hg : ∀ step ∈ performAll o w calls, G step) :
    ∀ step ∈ performAll o w calls, P step.before ∧
      (step.ending, step.after) = perform o step.before step.call := by
  induction calls generalizing w with
  | nil => exact fun step hstep => nomatch hstep
  | cons call rest ih =>
    intro step hmem
    rcases mem_performAll_cons.mp hmem with rfl | ⟨hover, hmem⟩
    · exact ⟨h, rfl⟩
    · have hfirst := hg _ (mem_performAll_cons.mpr (.inl rfl))
      have hrest := fun step hmem => hg step (mem_performAll_cons.mpr (.inr ⟨hover, hmem⟩))
      exact ih (hkeep w call h hfirst hover) hrest step hmem

/-- A turn that can be sent does not start on an unready WebSocket. -/
def Performed.StartsRested (o : ClientOptions) (step : Performed) : Prop :=
  ∀ prompt a, step.call = .runTurn prompt a → Sendable o prompt → Rested step.before

theorem inv_and_rested {calls : List Call}
    (h : ∀ step ∈ performAll o .initial calls, Undisturbed o step.before step.call) :
    ∀ step ∈ performAll o .initial calls, (Inv o step.before ∧ Rested step.before) ∧
      (step.ending, step.after) = perform o step.before step.call := by
  refine performAll_inv (P := fun w => Inv o w ∧ Rested w)
    (G := fun step => Undisturbed o step.before step.call) ?_ ⟨inv_initial, .inl rfl⟩ h
  rintro w call ⟨hi, hrest⟩ hu hover
  have hsettled := (perform_settled hi hrest call).2.mpr hu
  exact ⟨(perform_settled hi hrest call).1, rested_of_settled hi hrest call hover hsettled⟩

end Runs

/-! ## Sample calls -/

/-- An environment to evaluate in. -/
def sampleEnv : VoiceEnv where
  maxDepth := 994
  maxDumpDepth := 990
  two_le_maxDumpDepth := two_le_sampleDepth
  maxDumpDepth_le := sampleDepth_le
  maxReprDepth := 985
  maxCopyDepth := 495
  floatOfText := fun _ => ⟨lit "0.5", isFloatText_half⟩
  repr := fun _ => lit "..."
  excText := fun _ => lit "..."
  nfkc := id
  isIpv6 := fun _ => false
  compareValues := fun _ _ => .ok false

/-- The default configuration. -/
def sampleConfig : VoiceSessionConfig where
  model := lit "grok-voice-think-fast-1.0"
  voice := lit "ara"
  instructions :=
    lit "You are Ara, the calm voice interface for SENTINEL. Treat voice as a non-authoritative " ++
      lit "interaction layer. Never claim that evidence, a signature, a receipt, an approval, or an " ++
      lit "external action exists unless a trusted tool result explicitly proves it. State " ++
      lit "uncertainty plainly and do not infer consent from silence, tone, or emotion."
  reasoningEffort := lit "high"
  resumptionEnabled := false
  maxEventBytes := 2 * 1024 * 1024
  limits := ⟨24000, 64 * 1024 * 1024, 2 * 1024 * 1024, 10000, by decide, by decide, by decide, by decide⟩
  model_ok := rfl
  voice_ok := rfl
  instructions_ok := by decide +kernel
  effort_mem := by decide
  event_range := by decide

def sampleOptions : ClientOptions where
  env := sampleEnv
  config := sampleConfig
  agentId := none
  allowUndocumentedAgentId := false
  transcriptSink := some fun _ _ => none
  installed := true
  url_ok := ⟨_, rfl⟩

def message (text : String) : Answer RawMessage := .ok (.text (lit text))

def cancelled {α : Type} : Answer α := .error (.base "CancelledError")

def sampleConnect : ConnectAnswers where
  opening := .ok ()
  update := .ok ()
  receives := [message "\x7b\"type\":\"session.updated\"\x7d"]
  closing := .ok ()

def sampleTurn : TurnAnswers where
  connect := sampleConnect
  first := .ok ()
  second := .ok ()
  receives := [
    message "\x7b\"type\":\"response.created\",\"response\":\x7b\"id\":\"r1\"\x7d\x7d",
    message "\x7b\"type\":\"response.text.delta\",\"delta\":\"Hi\"\x7d",
    message "\x7b\"type\":\"response.done\"\x7d"]
  closing := .ok ()

/-- A connection, two turns on it, and its end. -/
def sampleCalls : List Call :=
  [.connect sampleConnect, .runTurn (lit "hello") sampleTurn, .runTurn (lit "again") sampleTurn,
    .close (.ok ())]

/-- A connection cancelled while it waits for `session.updated`, and a turn after it. -/
def cutCalls : List Call :=
  [.connect { sampleConnect with receives := [cancelled] }, .runTurn (lit "hello") sampleTurn]

/-- A turn cancelled while its first event is sent. -/
def cutTurn : List Call := [.runTurn (lit "hello") { sampleTurn with first := cancelled }]

/-! ## What every run keeps -/

/-- In a run in which no turn that can be sent starts on an unready WebSocket, user events are only
sent on WebSockets on which `session.update` was sent and `session.updated` was received. No turn
starts so if no call is disturbed. -/
theorem userEvents_configured (o : ClientOptions) (calls : List Call) :
    ((∀ step ∈ performAll o .initial calls, step.StartsRested o) →
        ∀ step ∈ performAll o .initial calls, SafeWire step.after.wire) ∧
      ((∀ step ∈ performAll o .initial calls, Undisturbed o step.before step.call) →
        ∀ step ∈ performAll o .initial calls, step.StartsRested o) := by
  constructor
  · intro h step hmem
    have hinv := performAll_inv (P := Inv o) (G := Performed.StartsRested o)
      (fun w call hi hg _ => perform_inv hi call hg) inv_initial h step hmem
    have hafter := (perform_inv hinv.1 step.call (h step hmem)).safe
    rwa [← hinv.2] at hafter
  · intro h step hmem prompt a _ _
    exact (inv_and_rested h step hmem).1.2

theorem userEvents_configured_sample :
    ∀ step ∈ performAll sampleOptions .initial sampleCalls, SafeWire step.after.wire :=
  (userEvents_configured sampleOptions sampleCalls).1
    ((userEvents_configured sampleOptions sampleCalls).2 (by decide +kernel))

/-- After a connection that was cancelled a turn is sent on a WebSocket on which `session.updated` was
never received. -/
theorem cutConnect_sends :
    ¬∀ step ∈ performAll sampleOptions .initial cutCalls, SafeWire step.after.wire := by
  have hsent : ∃ step ∈ performAll sampleOptions .initial cutCalls,
      (∃ x ∈ step.after.wire, x.SendsUser) ∧ ∀ x ∈ step.after.wire, ¬x.ReceivesUpdated := by
    decide +kernel
  obtain ⟨step, hmem, hsends, hupdated⟩ := hsent
  exact fun h => not_safeWire hsends hupdated (h step hmem)

/-- Every call of a run leaves nothing to reuse where it has to exactly if none is disturbed. -/
theorem settled_iff_undisturbed (o : ClientOptions) (calls : List Call) :
    (∀ step ∈ performAll o .initial calls, Settled step) ↔
      ∀ step ∈ performAll o .initial calls, Undisturbed o step.before step.call := by
  constructor
  · intro h step hmem
    have hinv := performAll_inv (P := fun w => Inv o w ∧ Rested w) (G := Settled)
      (fun w call ⟨hi, hrest⟩ hs hover =>
        ⟨(perform_settled hi hrest call).1, rested_of_settled hi hrest call hover hs⟩)
      ⟨inv_initial, .inl rfl⟩ h step hmem
    obtain ⟨⟨hi, hrest⟩, hp⟩ := hinv
    have hsettled := (perform_settled hi hrest step.call).2
    rw [← hp] at hsettled
    exact hsettled.mp (h step hmem)
  · intro h step hmem
    obtain ⟨⟨hi, hrest⟩, hp⟩ := inv_and_rested h step hmem
    have hsettled := (perform_settled hi hrest step.call).2
    rw [← hp] at hsettled
    exact hsettled.mpr (h step hmem)

/-- A turn that is cancelled while its first event is sent leaves its session to be reused. -/
theorem cutTurn_reusable : ¬∀ step ∈ performAll sampleOptions .initial cutTurn, Settled step := by
  decide +kernel

end Sentinel.Voice
