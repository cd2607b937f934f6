import Mathlib.Logic.Relation
import SentinelCore.VoiceRuns

/-!
# The moves of the voice client

What the client does to its attributes and on the wire, one `Move` at a time: it opens a WebSocket when it
holds none, sends the events of a turn or of the configuration, hears an event, forgets a conversation, closes.
Every call goes from its world by moves only, however it ends (`perform_moves`), so what every move keeps holds
before and after every call of a run (`performAll_keeps`).
-/

namespace Sentinel.Voice

open Py Lib Act

/-- The events a client sends. -/
inductive Outbound (o : ClientOptions) : Event → Prop
  | sessionUpdate : Outbound o o.config.sessionUpdateEvent
  | user (prompt : PyStr) (h : validateNonEmptyText prompt (lit "prompt") 32000 = .ok ()) :
    Outbound o (userEvent prompt)
  | response : Outbound o responseEvent

/-- The conversation id after an event; an event that is refused leaves it. -/
def remembered (o : ClientOptions) (event : Event) (conversationId : Option PyStr) : Option PyStr :=
  ((captured o event conversationId).toOption).getD conversationId

/-- One move of the client. -/
inductive Move (o : ClientOptions) (w : World) : World → Prop
  | opens {url : PyStr} (held : w.websocket = none)
      (built : o.config.websocketUrl w.conversationId o.agentId o.allowUndocumentedAgentId = .ok url) :
    Move o w { w with
      opened := w.opened + 1, websocket := some w.opened, wire := w.wire ++ [.opened w.opened url] }
  | sends {socket : ℕ} {event : Event} (held : w.websocket = some socket) (outbound : Outbound o event)
      (checked : checkPayload o event = .ok ()) :
    Move o w { w with wire := w.wire ++ [.sending socket event] }
  | returns {socket : ℕ} {event : Event} (held : w.websocket = some socket)
      (last : w.wire.getLast? = some (.sending socket event)) :
    Move o w { w with wire := w.wire ++ [.sent socket event] }
  | hears {socket : ℕ} {event : Event} {raw : RawMessage} (held : w.websocket = some socket)
      (parsed : parseServerEvent o.env raw o.config.maxEventBytes = .ok event) :
    Move o w { w with
      wire := w.wire ++ [.received socket event], conversationId := remembered o event w.conversationId }
  | readies (held : w.websocket ≠ none) : Move o w { w with sessionReady := true }
  | forgets : Move o w { w with conversationId := none }
  | closes {socket : ℕ} (held : w.websocket = some socket) :
    Move o w { w with websocket := none, sessionReady := false, wire := w.wire ++ [.closing socket] }
  | rests (held : w.websocket = none) : Move o w { w with sessionReady := false }
  | emits (text : PyStr) : Move o w { w with emitted := w.emitted ++ [text] }

abbrev Moves (o : ClientOptions) : World → World → Prop := Relation.ReflTransGen (Move o)

/-- What every move keeps, moves keep. -/
theorem Moves.keep {o : ClientOptions} {P : World → Prop} (hmove : ∀ w w', P w → Move o w w' → P w')
    {w w' : World} (h : Moves o w w') (hw : P w) : P w' := by
  induction h with
  | refl => exact hw
  | tail _ hlast ih => exact hmove _ _ ih hlast

/-! ## Methods -/

/-- Started in `w`, the method goes by moves, and returns with `Q`. -/
def Performs {α : Type} (o : ClientOptions) (x : Calling α) (w : World) (Q : α → World → Prop) : Prop :=
  Ensures x w (fun a w' => Moves o w w' ∧ Q a w') fun _ w' => Moves o w w'

/-- Whatever it returns. -/
abbrev GoesByMoves {α : Type} (o : ClientOptions) (x : Calling α) (w : World) : Prop :=
  Performs o x w fun _ _ => True

section Rules

variable {α β : Type} {o : ClientOptions} {w : World} {Q : α → World → Prop} {R : β → World → Prop}

theorem performs_pure {a : α} (h : Q a w) : Performs o (pure a) w Q := ⟨.refl, h⟩

theorem performs_raise (e : VoiceExc) : Performs o (raise e : Calling α) w Q :=
  Relation.ReflTransGen.refl

theorem performs_pending : Performs o (throw .pending : Calling α) w Q := Relation.ReflTransGen.refl

theorem performs_await {x : Answer α} (h : ∀ a, x = .ok a → Q a w) : Performs o (await x) w Q :=
  ensures_await (fun a ha => ⟨.refl, h a ha⟩) fun _ _ => .refl

theorem performs_bind {x : Calling α} {f : α → Calling β} (hx : Performs o x w Q)
    (hf : ∀ a w', Q a w' → Performs o (f a) w' R) : Performs o (x >>= f) w R := by
  refine ensures_bind (hx.mono ?_ fun _ _ => id)
  rintro a w' ⟨hmoves, hq⟩
  exact (hf a w' hq).mono (fun b w'' h => ⟨hmoves.trans h.1, h.2⟩) fun _ w'' h => hmoves.trans h

theorem performs_get_bind {f : World → Calling β} (h : Performs o (f w) w R) : Performs o (get >>= f) w R :=
  ensures_get_bind h

theorem performs_ite {p : Prop} [Decidable p] {x y : Calling α} (hx : p → Performs o x w Q)
    (hy : ¬p → Performs o y w Q) : Performs o (if p then x else y) w Q :=
  ensures_ite hx hy

theorem performs_mono {x : Calling α} {Q' : α → World → Prop} (h : Performs o x w Q)
    (hq : ∀ a w', Q a w' → Q' a w') : Performs o x w Q' :=
  h.mono (fun a w' ha => ⟨ha.1, hq a w' ha.2⟩) fun _ _ => id

theorem performs_modify {f : World → World} {Q : PUnit → World → Prop} (hmove : Move o w (f w))
    (h : Q ⟨⟩ (f w)) : Performs o (modify f) w Q :=
  ensures_modify ⟨.single hmove, h⟩

theorem performs_tryCatching {body : Calling α} {catches : VoiceExc → Bool} {handler : VoiceExc → Calling α}
    (hbody : Performs o body w Q) (hhandler : ∀ e w', Performs o (handler e) w' Q) :
    Performs o (tryCatching body catches handler) w Q := by
  refine ensures_tryCatching (hbody.mono (fun _ _ => id) fun s w' hmoves => ?_)
  cases s with
  | pending => exact hmoves
  | raised e =>
    show if catches e = true then _ else _
    by_cases hc : catches e = true
    · rw [if_pos hc]
      exact (hhandler e w').mono (fun a w'' h => ⟨hmoves.trans h.1, h.2⟩) fun _ w'' h => hmoves.trans h
    · rw [if_neg hc]
      exact hmoves

end Rules

section Methods

variable (o : ClientOptions) (w : World)

theorem close_moves (closing : Answer Unit) : GoesByMoves o (close closing) w := by
  unfold close
  refine ensures_get_bind (ensures_bind (ensures_modify ?_))
  cases hheld : w.websocket with
  | none =>
    have hmove : Moves o w { w with websocket := none, sessionReady := false } := by
      have hrests := Move.rests (o := o) hheld
      rw [hheld] at hrests
      exact .single hrests
    exact ensures_pure ⟨hmove, trivial⟩
  | some socket =>
    have hmove : Moves o w _ := .single (.closes hheld)
    refine ensures_bind (ensures_record (ensures_tryCatching (ensures_await ?_ ?_)))
    · exact fun _ _ => ⟨hmove, trivial⟩
    · intro e _
      show if e.isException = true then _ else _
      by_cases hc : e.isException = true
      · rw [if_pos hc]
        exact ensures_pure ⟨hmove, trivial⟩
      · rw [if_neg hc]
        exact hmove

variable {w}

theorem sendEvent_moves {event : Event} (hevent : Outbound o event) (answer : Answer Unit) :
    GoesByMoves o (sendEvent o event answer) w := by
  unfold sendEvent
  refine performs_get_bind ?_
  cases hheld : w.websocket with
  | none => exact performs_raise _
  | some socket =>
    refine performs_bind (performs_await (Q := fun _ w' => w' = w ∧ checkPayload o event = .ok ())
      fun _ hchecked => ⟨rfl, hchecked⟩) ?_
    rintro _ _ ⟨rfl, hchecked⟩
    refine performs_bind (performs_modify (.sends hheld hevent hchecked) (Q := fun _ w' =>
      w'.websocket = some socket ∧ w'.wire.getLast? = some (.sending socket event))
      ⟨hheld, List.getLast?_concat⟩) ?_
    rintro _ w' ⟨hheld', hlast⟩
    refine performs_bind (performs_await (Q := fun _ w'' => w'' = w') fun _ _ => rfl) ?_
    rintro _ _ rfl
    exact performs_modify (.returns hheld' hlast) trivial

theorem receiveEvent_moves (closing : Answer Unit) (answer : Answer RawMessage) :
    Ensures (receiveEvent o closing answer) w
      (fun event w' => ∃ socket raw, w.websocket = some socket ∧
        parseServerEvent o.env raw o.config.maxEventBytes = .ok event ∧
        w' = { w with wire := w.wire ++ [.received socket event] })
      fun _ w' => Moves o w w' := by
  unfold receiveEvent
  refine ensures_get_bind ?_
  cases hheld : w.websocket with
  | none => exact ensures_raise .refl
  | some socket =>
    have hraw : Performs o (tryCatching (await answer) (· = .timeout) fun _ => do
        close closing
        raise (.protocol (lit "timed out while waiting for a server event"))) w fun _ w' => w' = w :=
      performs_tryCatching (performs_await fun _ _ => rfl) fun e w' =>
        performs_bind (close_moves o w' closing) fun _ _ _ => performs_raise _
    refine ensures_bind (hraw.mono ?_ fun _ _ => id)
    rintro raw _ ⟨-, rfl⟩
    refine ensures_bind (ensures_await (fun event hparsed => ?_) fun _ _ => .refl)
    exact ensures_bind (ensures_record (ensures_pure ⟨socket, raw, rfl, hparsed, rfl⟩))

/-- A message is heard, and the conversation id in it taken. -/
theorem hear_moves {α : Type} {f : Event → Calling α} {Q : α → World → Prop} (closing : Answer Unit)
    (answer : Answer RawMessage)
    (hf : ∀ event w', w'.websocket ≠ none → Performs o (f event) w' Q) :
    Performs o (do
      let event ← receiveEvent o closing answer
      captureConversationId o event
      f event) w Q := by
  refine ensures_bind ((receiveEvent_moves o closing answer).mono ?_ fun _ _ => id)
  rintro event _ ⟨socket, raw, hheld, hparsed, rfl⟩
  have hmove := Move.hears hheld hparsed
  have hremembered : ∀ r, captured o event w.conversationId = r →
      remembered o event w.conversationId = r.toOption.getD w.conversationId := by
    rintro r rfl
    rfl
  refine ensures_bind ((captureConversationId_spec o _ event).mono ?_ ?_)
  · rintro _ _ ⟨conversationId, hid, rfl⟩
    rw [hremembered _ hid] at hmove
    exact (hf event _ (hheld ▸ Option.some_ne_none socket)).mono
      (fun a w'' h => ⟨.head hmove h.1, h.2⟩) fun _ w'' h => .head hmove h
  · rintro _ _ ⟨rfl, e, -, hid⟩
    rw [hremembered _ hid] at hmove
    exact .single hmove

theorem waitForSessionReady_moves (closing : Answer Unit) (receives : List (Answer RawMessage)) :
    GoesByMoves o (waitForSessionReady o closing receives) w := by
  induction receives generalizing w with
  | nil => exact performs_pending
  | cons answer rest ih =>
    unfold waitForSessionReady
    refine hear_moves o closing answer fun event w' hheld => ?_
    refine performs_ite (fun _ => performs_raise _) fun _ => performs_ite (fun _ => ?_) fun _ => ih
    exact performs_modify (.readies hheld) trivial

theorem forgetConversation_moves : GoesByMoves o forgetConversation w := performs_modify .forgets trivial

/-- The handlers of `connect` and `run_turn`: forget the conversation, close, raise. -/
theorem abandon_moves {α : Type} {Q : α → World → Prop} (closing : Answer Unit) (e : VoiceExc) :
    Performs o (do
      forgetConversation
      close closing
      raise e) w Q :=
  performs_bind (forgetConversation_moves o) fun _ w' _ =>
    performs_bind (close_moves o w' closing) fun _ _ _ => performs_raise e

theorem openWebsocket_moves {url : PyStr} (hheld : w.websocket = none)
    (hurl : o.config.websocketUrl w.conversationId o.agentId o.allowUndocumentedAgentId = .ok url)
    (opening : Answer Unit) : GoesByMoves o (openWebsocket url opening) w := by
  unfold openWebsocket
  refine performs_bind (performs_await (Q := fun _ w' => w' = w) fun _ _ => rfl) ?_
  rintro _ _ rfl
  refine performs_get_bind (ensures_bind (ensures_record (ensures_modify ?_)))
  exact ⟨.single (.opens hheld hurl), trivial⟩

theorem connect_moves (a : ConnectAnswers) : GoesByMoves o (connect o a) w := by
  unfold connect
  refine performs_get_bind (performs_ite (fun _ => performs_pure trivial) fun hheld =>
    performs_ite (fun _ => performs_raise _) fun _ => ?_)
  refine performs_bind (performs_await (Q := fun url w' => w' = w ∧
    o.config.websocketUrl w.conversationId o.agentId o.allowUndocumentedAgentId = .ok url)
    fun url hurl => ⟨rfl, hurl⟩) fun url w' hw => ?_
  obtain ⟨rfl, hurl⟩ := hw
  unfold openSession
  refine performs_tryCatching ?_ fun e w' => abandon_moves o a.closing e
  exact performs_bind (openWebsocket_moves o (not_not.mp hheld) hurl a.opening) fun _ _ _ =>
    performs_bind (sendEvent_moves o .sessionUpdate a.update) fun _ _ _ =>
      waitForSessionReady_moves o a.closing a.receives

theorem emit_moves (transcriptDelta : Option PyStr) : GoesByMoves o (emit o transcriptDelta) w := by
  unfold emit
  split
  · next text sink _ =>
    refine performs_get_bind (performs_bind (performs_modify (.emits _) (Q := fun _ _ => True) trivial)
      fun _ _ _ => ?_)
    split
    · exact performs_pure trivial
    · exact performs_raise _
  · exact performs_pure trivial
  · exact performs_pure trivial

theorem process_moves (collector : ResponseCollector) (event : Event) :
    GoesByMoves o (process o collector event) w := by
  unfold process
  refine performs_ite (fun _ => performs_raise _) fun _ => ?_
  refine performs_bind (performs_await (Q := fun _ _ => True) fun _ _ => trivial) fun completed _ _ => ?_
  refine performs_bind (performs_await (Q := fun _ _ => True) fun _ _ => trivial) fun transcriptDelta _ _ => ?_
  exact performs_bind (emit_moves o transcriptDelta) fun _ _ _ => performs_pure trivial

theorem turnLoop_moves (closing : Answer Unit) (collector : ResponseCollector)
    (receives : List (Answer RawMessage)) : GoesByMoves o (turnLoop o closing collector receives) w := by
  induction receives generalizing w collector with
  | nil => exact performs_pending
  | cons answer rest ih =>
    unfold turnLoop
    refine hear_moves o closing answer fun event w' _ => ?_
    refine performs_bind (process_moves o collector event) fun processed w'' _ => ?_
    cases processed.1 with
    | none => exact ih processed.2
    | some completed =>
      unfold finish
      exact performs_ite (fun _ => performs_pure trivial) fun _ => performs_raise _

theorem deliver_moves {user response : Event} (huser : Outbound o user) (hresponse : Outbound o response)
    (a : TurnAnswers) : GoesByMoves o (deliver o user response a) w := by
  unfold deliver
  refine performs_tryCatching ?_ fun _ _ => abandon_moves o a.closing _
  exact performs_bind (sendEvent_moves o huser a.first) fun _ _ _ => sendEvent_moves o hresponse a.second

theorem collect_moves (a : TurnAnswers) : GoesByMoves o (collect o a) w :=
  performs_tryCatching (turnLoop_moves o a.closing .initial a.receives) fun e _ => abandon_moves o a.closing e

theorem runTurn_moves (prompt : PyStr) (a : TurnAnswers) : GoesByMoves o (runTurn o prompt a) w := by
  unfold runTurn
  have hconnect : GoesByMoves o (if w.websocket = none ∨ w.sessionReady = false then connect o a.connect
      else pure ()) w :=
    performs_ite (fun _ => connect_moves o a.connect) fun _ => performs_pure trivial
  have hbuild : ∀ w', Performs o (await (buildUserTurnEvents prompt)) w' fun built _ =>
      Outbound o built.1 ∧ Outbound o built.2 := by
    refine fun w' => performs_await fun built hbuilt => ?_
    obtain ⟨_, hprompt, hbuilt⟩ := bind_eq_ok.mp hbuilt
    obtain rfl := pure_eq_ok.mp hbuilt
    exact ⟨.user prompt hprompt, .response⟩
  refine performs_get_bind (performs_bind hconnect fun _ w' _ => performs_bind (hbuild w') ?_)
  rintro ⟨user, response⟩ _ ⟨huser, hresponse⟩
  exact performs_bind (deliver_moves o huser hresponse a) fun _ _ _ => collect_moves o a

/-- **Every call goes by moves**, however it ends. -/
theorem perform_moves (w : World) (call : Call) : Moves o w (perform o w call).2 := by
  cases call with
  | connect a =>
    rcases perform_connect (connect_moves o (w := w) a) with ⟨w', hp, hmoves, -⟩ | ⟨s, w', hp, hmoves⟩
    · rwa [hp]
    · rwa [hp]
  | runTurn prompt a =>
    rcases perform_runTurn (runTurn_moves o (w := w) prompt a) with ⟨r, w', hp, hmoves, -⟩ | ⟨s, w', hp, hmoves⟩
    · rwa [hp]
    · rwa [hp]
  | close closing =>
    simp only [perform]
    rcases (close_moves o w closing).exists with ⟨_, w', hr, hmoves, -⟩ | ⟨s, w', hr, hmoves⟩
    · rwa [hr]
    · rwa [hr]

/-- What holds at first and is kept by every move holds before and after every call of a run. -/
theorem performAll_keeps {P : World → Prop} (hmove : ∀ w w', P w → Move o w w' → P w') (calls : List Call)
    (h : P w) : ∀ step ∈ performAll o w calls, P step.before ∧ P step.after := by
  have hcall : ∀ w call, P w → P (perform o w call).2 := fun w call hw => (perform_moves o w call).keep hmove hw
  intro step hstep
  obtain ⟨hbefore, hperform⟩ := performAll_inv (G := fun _ => True) (fun w call hw _ _ => hcall w call hw) h
    (fun _ _ => trivial) step hstep
  refine ⟨hbefore, ?_⟩
  rw [show step.after = (perform o step.before step.call).2 from congrArg Prod.snd hperform]
  exact hcall _ _ hbefore

end Methods

end Sentinel.Voice
