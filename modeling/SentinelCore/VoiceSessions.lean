import SentinelCore.VoiceCalls

/-!
# Sessions of the voice client

What holds of the client and the wire between any two calls, and what `connect` does.

1. `Inv`: every user event that went out went out on a WebSocket that was configured before
   (`SafeWire`), and a client that is ready holds a configured WebSocket.
2. `Course`: the end of a `connect`, read off the answers its awaits meet.
3. `connect_spec`: from an idle client `connect` comes to a ready session, or leaves the client cleared,
   unless an await that only `except Exception` guards is cancelled. It sends no user event.
-/

namespace Sentinel.Voice

open Py Lib Act

/-! ## Configured sessions -/

/-- `session.update` was sent on the WebSocket and `session.updated` was received on it. -/
def Configured (socket : ℕ) (wire : List WireEvent) : Prop :=
  (∃ event, .sent socket event ∈ wire ∧ HasType event "session.update") ∧
    ∃ event, .received socket event ∈ wire ∧ HasType event "session.updated"

/-- Whenever a user event goes out, the WebSocket was configured before. -/
def SafeWire (wire : List WireEvent) : Prop :=
  ∀ before socket event after, wire = before ++ .sending socket event :: after →
    IsUserEvent event → Configured socket before

theorem Configured.mono {socket : ℕ} {wire wire' : List WireEvent} (h : Configured socket wire)
    (hsub : ∀ x ∈ wire, x ∈ wire') : Configured socket wire' := by
  obtain ⟨⟨e, he, ht⟩, ⟨e', he', ht'⟩⟩ := h
  exact ⟨⟨e, hsub _ he, ht⟩, ⟨e', hsub _ he', ht'⟩⟩

theorem SafeWire.nil : SafeWire [] := by
  intro before socket event after h
  have := congrArg List.length h
  simp at this

/-- One more thing on the wire. -/
theorem SafeWire.snoc {wire : List WireEvent} {x : WireEvent} (h : SafeWire wire)
    (hx : ∀ socket event, x = .sending socket event → IsUserEvent event → Configured socket wire) :
    SafeWire (wire ++ [x]) := by
  intro before socket event after heq huser
  rcases List.eq_nil_or_concat after with rfl | ⟨after', y, rfl⟩
  · obtain ⟨rfl, hxe⟩ := List.append_inj' heq rfl
    exact hx socket event (List.cons.inj hxe).1 huser
  · rw [List.concat_eq_append, ← List.cons_append, ← List.append_assoc] at heq
    exact h before socket event after' (List.append_inj' heq rfl).1 huser

theorem SafeWire.append {wire l : List WireEvent} (h : SafeWire wire) (hl : ∀ x ∈ l, ¬x.SendsUser) :
    SafeWire (wire ++ l) := by
  induction l generalizing wire with
  | nil => rwa [List.append_nil]
  | cons x l ih =>
    rw [← List.singleton_append, ← List.append_assoc]
    refine ih (h.snoc fun socket event hx huser => ?_) fun y hy => hl y (List.mem_cons_of_mem _ hy)
    subst hx
    exact absurd huser (hl _ List.mem_cons_self)

/-- `session.updated` comes in. -/
def WireEvent.ReceivesUpdated : WireEvent → Prop
  | .received _ event => HasType event "session.updated"
  | .opened _ _ | .sending _ _ | .sent _ _ | .closing _ => False

instance : (x : WireEvent) → Decidable x.ReceivesUpdated
  | .received _ event => inferInstanceAs (Decidable (HasType event "session.updated"))
  | .opened _ _ | .sending _ _ | .sent _ _ | .closing _ => inferInstanceAs (Decidable False)

/-- Where `session.updated` never comes in, no user event is safe. -/
theorem not_safeWire {wire : List WireEvent} (hsends : ∃ x ∈ wire, x.SendsUser)
    (hupdated : ∀ x ∈ wire, ¬x.ReceivesUpdated) : ¬SafeWire wire := by
  intro hsafe
  obtain ⟨x, hx, huser⟩ := hsends
  obtain ⟨before, after, rfl⟩ := List.append_of_mem hx
  cases x with
  | sending socket event =>
    obtain ⟨-, updated, hmem, htype⟩ := hsafe before socket event after rfl huser
    exact hupdated _ (List.mem_append_left _ hmem) htype
  | opened | sent | received | closing => exact huser

/-! ## The invariant -/

structure Inv (o : ClientOptions) (w : World) : Prop where
  safe : SafeWire w.wire
  ready : w.sessionReady = true → ∃ socket, w.websocket = some socket ∧ Configured socket w.wire
  held : w.websocket ≠ none → o.installed = true
  conversation : ∀ conversationId, w.conversationId = some conversationId →
    o.installed = true ∧ o.config.resumptionEnabled = true ∧ matchesId conversationId = true

/-- The client holds no WebSocket without a ready session. -/
def Rested (w : World) : Prop := w.websocket = none ∨ w.sessionReady = true

section Steps

variable {o : ClientOptions} {w w' : World}

theorem inv_initial : Inv o World.initial where
  safe := .nil
  ready h := nomatch h
  held h := absurd rfl h
  conversation _ h := nomatch h

theorem Inv.idle (h : Inv o w) (hw : w.websocket = none) : Idle w := by
  refine ⟨hw, ?_⟩
  by_contra hr
  obtain ⟨socket, hs, -⟩ := h.ready (Bool.not_eq_false _ ▸ hr)
  rw [hw] at hs
  cases hs

/-- Quiet changes keep the invariant if they make no client ready. -/
theorem Inv.quietly (h : Inv o w) (hq : Quietly w w')
    (hready : w'.sessionReady = true → w.sessionReady = true ∧ w'.websocket = w.websocket)
    (hheld : w'.websocket ≠ none → o.installed = true)
    (hconv : ∀ c, w'.conversationId = some c →
      w.conversationId = some c ∨
        o.installed = true ∧ o.config.resumptionEnabled = true ∧ matchesId c = true) :
    Inv o w' where
  safe := by
    obtain ⟨⟨l, hl, hquiet⟩, -⟩ := hq
    rw [hl]
    exact h.safe.append hquiet
  ready hr := by
    obtain ⟨hr, hw⟩ := hready hr
    obtain ⟨socket, hs, hc⟩ := h.ready hr
    exact ⟨socket, hw.trans hs, hc.mono fun x hx => hq.subset hx⟩
  held := hheld
  conversation c hc := by
    rcases hconv c hc with hc | hc
    · exact h.conversation c hc
    · exact hc

theorem Inv.closed (h : Inv o w) (hc : Closed w w') : Inv o w' := by
  obtain ⟨⟨hw, hr⟩, hq, hconv⟩ := hc
  refine h.quietly hq (fun hr' => ?_) (fun hw' => absurd hw hw') fun c hc => .inl (hconv ▸ hc)
  rw [hr] at hr'
  cases hr'

theorem Inv.unchanged (h : Inv o w) (hw : w'.toXaiVoiceClient = w.toXaiVoiceClient)
    (hq : Quietly w w') : Inv o w' :=
  h.quietly hq (fun hr => ⟨hw ▸ hr, congrArg XaiVoiceClient.websocket hw⟩)
    (fun hs => h.held (hw ▸ hs)) fun _ hc => .inl (hw ▸ hc)

/-- What the sink was given does not matter. -/
theorem Inv.same (h : Inv o w) (hw : w'.toXaiVoiceClient = w.toXaiVoiceClient ∧ w'.wire = w.wire) :
    Inv o w' where
  safe := hw.2 ▸ h.safe
  ready hr := by
    rw [hw.1] at hr ⊢
    rw [hw.2]
    exact h.ready hr
  held hs := h.held (hw.1 ▸ hs)
  conversation c hc := h.conversation c (hw.1 ▸ hc)

/-- What happens on a WebSocket keeps the invariant, but for user events. -/
theorem Inv.recorded (h : Inv o w) {x : WireEvent} (hx : ¬x.SendsUser) :
    Inv o { w with wire := w.wire ++ [x] } :=
  h.quietly (.record rfl hx rfl) (fun hr => ⟨hr, rfl⟩) h.held fun _ hc => .inl hc

theorem Inv.forgot (h : Inv o w) : Inv o { w with conversationId := none } :=
  h.quietly (.of_eq rfl rfl) (fun hr => ⟨hr, rfl⟩) h.held fun _ hc => by cases hc

/-- A user event on a configured WebSocket keeps it, too. -/
theorem Inv.sending (h : Inv o w) (hr : w.sessionReady = true) {socket : ℕ}
    (hs : w.websocket = some socket) (event : Event) :
    Inv o { w with wire := w.wire ++ [.sending socket event] } where
  safe := by
    refine h.safe.snoc fun socket' event' hx _ => ?_
    obtain ⟨rfl, -⟩ := WireEvent.sending.inj hx
    obtain ⟨socket', hs', hc⟩ := h.ready hr
    rw [hs] at hs'
    exact Option.some.inj hs' ▸ hc
  ready hr := by
    obtain ⟨socket', hs', hc⟩ := h.ready hr
    exact ⟨socket', hs', hc.mono fun x hx => List.mem_append_left _ hx⟩
  held := h.held
  conversation := h.conversation

/-- Forgetting the conversation and closing clears the client, whatever comes of the closing. -/
theorem clear_spec {α : Type} (w : World) (closing : Answer Unit) (e : VoiceExc) :
    Ensures (do forgetConversation; close closing; (raise e : Calling α)) w (fun _ _ => False)
      fun s w' => Closed { w with conversationId := none } w' ∧ ∃ e, s = .raised e := by
  refine ensures_bind (ensures_modify (ensures_bind ?_))
  refine (close_spec _ closing).mono (fun _ w' hw' => ?_) fun s w' hs => ?_
  · exact ensures_raise ⟨hw'.1, e, rfl⟩
  · obtain ⟨hc, e', hs, -⟩ := hs
    exact ⟨hc, e', hs⟩

theorem forget_close_spec {α : Type} (h : Inv o w) (closing : Answer Unit) (e : VoiceExc) :
    Ensures (do forgetConversation; close closing; (raise e : Calling α)) w (fun _ _ => False)
      fun s w' => Inv o w' ∧ Quietly w w' ∧ Cleared w' ∧ ∃ e, s = .raised e := by
  refine (clear_spec w closing e).mono (fun _ _ hf => hf) ?_
  rintro s w' ⟨hc, hs⟩
  exact ⟨h.forgot.closed hc, .trans (.of_eq rfl rfl) hc.2.1, ⟨hc.1, hc.2.2⟩, hs⟩

end Steps

/-! ## The URL -/

theorem isEncodable_of_matchesId {s : PyStr} (h : matchesId s = true) : isEncodable s = true := by
  obtain ⟨-, hall⟩ := (Bool.and_eq_true _ _).mp h
  refine List.all_eq_true.mpr fun c hc => ?_
  have hid : isIdChar c = true := List.all_eq_true.mp hall c hc
  have hlt : c.val < 0x80 := by
    simp only [isIdChar, isAsciiAlnum, isAsciiDigit, isAsciiLower, isAsciiUpper, Bool.or_eq_true,
      Bool.and_eq_true, decide_eq_true_eq] at hid
    rcases hid with (((((h | h) | h) | rfl) | rfl) | rfl) | rfl
    · omega
    · omega
    · omega
    all_goals decide
  have hs : isSurrogate c.val = false := by
    unfold isSurrogate
    simp only [Bool.and_eq_false_iff, decide_eq_false_iff_not]
    omega
  rw [hs]
  rfl

theorem quotePlus_ok_iff {s : PyStr} :
    (∃ quoted, quotePlus s = .ok quoted) ↔ isEncodable s = true := by
  rw [← encodeUtf8_ok_iff]
  unfold quotePlus
  cases encodeUtf8 s with
  | ok data => exact iff_of_true ⟨_, rfl⟩ ⟨_, rfl⟩
  | error e => exact iff_of_false (fun ⟨_, h⟩ => nomatch h) fun ⟨_, h⟩ => nomatch h

/-- A query is encoded exactly when all its texts can be. -/
theorem urlencode_ok_iff {query : List (PyStr × PyStr)} :
    (∃ text, urlencode query = .ok text) ↔
      ∀ kv ∈ query, isEncodable kv.1 = true ∧ isEncodable kv.2 = true := by
  constructor
  · rintro ⟨text, h⟩ kv hkv
    obtain ⟨parts, hparts, -⟩ := bind_eq_ok.mp h
    obtain ⟨part, -, hpart⟩ := exists_of_mapM hparts hkv
    obtain ⟨key, hkey, hpart⟩ := bind_eq_ok.mp hpart
    obtain ⟨value, hvalue, -⟩ := bind_eq_ok.mp hpart
    exact ⟨quotePlus_ok_iff.mp ⟨key, hkey⟩, quotePlus_ok_iff.mp ⟨value, hvalue⟩⟩
  · intro h
    refine exists_bind (exists_mapM fun kv hkv => ?_) fun _ _ => ⟨_, rfl⟩
    have hkey := quotePlus_ok_iff.mpr (h kv hkv).1
    have hvalue := quotePlus_ok_iff.mpr (h kv hkv).2
    exact exists_bind hkey fun _ _ => exists_bind hvalue fun _ _ => ⟨_, rfl⟩

/-- The URL of a validated configuration is built with any well-formed conversation id, too. -/
theorem websocketUrl_ok {config : VoiceSessionConfig} {agentId : Option PyStr} {allow : Bool}
    (h : ∃ url, config.websocketUrl none agentId allow = .ok url) {conversationId : Option PyStr}
    (hconv : ∀ c, conversationId = some c →
      config.resumptionEnabled = true ∧ matchesId c = true) :
    ∃ url, config.websocketUrl conversationId agentId allow = .ok url := by
  cases conversationId with
  | none => exact h
  | some c =>
    obtain ⟨hr, hid⟩ := hconv c rfl
    obtain ⟨url, h⟩ := h
    obtain ⟨conversation, hnone, h⟩ := bind_eq_ok.mp h
    obtain rfl := Except.ok.inj hnone
    obtain ⟨agent, hagent, h⟩ := bind_eq_ok.mp h
    obtain ⟨query, hquery, -⟩ := bind_eq_ok.mp h
    have hparts := urlencode_ok_iff.mp ⟨query, hquery⟩
    have hconversation : config.conversationQuery (some c) = .ok [(lit "conversation_id", c)] := by
      unfold VoiceSessionConfig.conversationQuery
      simp only [hr, hid, Bool.true_eq_false, if_false]
    refine exists_bind ⟨_, hconversation⟩ fun _ hc => exists_bind ⟨agent, hagent⟩ fun _ ha =>
      exists_bind (urlencode_ok_iff.mpr fun kv hkv => ?_) fun _ _ => ⟨_, rfl⟩
    obtain rfl := Except.ok.inj (hc.symm.trans hconversation)
    obtain rfl := Except.ok.inj (ha.symm.trans hagent)
    rcases List.mem_append.mp hkv with hkv | hkv
    · rcases List.mem_append.mp hkv with hkv | hkv
      · exact hparts kv (List.mem_append_left _ (List.mem_append_left _ hkv))
      · obtain rfl := List.mem_singleton.mp hkv
        exact ⟨rfl, isEncodable_of_matchesId hid⟩
    · exact hparts kv (List.mem_append_right _ hkv)

/-! ## Connecting -/

/-- What a `connect` comes to: a ready session, a wait that does not end, nothing, or, if one of its
awaits is cancelled, a client that still holds something. -/
inductive Course where
  | ready
  | waiting
  | failed
  | cut
  deriving DecidableEq

section Connecting

variable (o : ClientOptions)

/-- What `_wait_for_session_ready` comes to. -/
def waitCourse (closing : Answer Unit) : Option PyStr → List (Answer RawMessage) → Course
  | _, [] => .waiting
  | conversationId, answer :: rest =>
    match heard o conversationId answer with
    | .ok (event, conversationId) =>
      if eventType? event = some (lit "error") then .failed
      else if eventType? event = some (lit "session.updated") then .ready
      else waitCourse closing conversationId rest
    | .error .timeout => if IsBase closing ∧ conversationId ≠ none then .cut else .failed
    | .error e => if e.isException then .failed else .cut

/-- What `connect` comes to on an idle client that holds this conversation id. -/
def ConnectAnswers.course (a : ConnectAnswers) (conversationId : Option PyStr) : Course :=
  if o.installed = false then .failed
  else
    match a.opening with
    | .error _ => if IsBase a.opening ∧ conversationId ≠ none then .cut else .failed
    | .ok () =>
      match sendAnswer o o.config.sessionUpdateEvent a.update with
      | .error e => if e.isException then .failed else .cut
      | .ok () => waitCourse o a.closing conversationId a.receives

variable {o} {w : World}

/-- A ready client, once its WebSocket is configured. -/
theorem Inv.configured (h : Inv o w) {socket : ℕ} (hs : w.websocket = some socket)
    (hc : Configured socket w.wire) : Inv o { w with sessionReady := true } where
  safe := h.safe
  ready _ := ⟨socket, hs, hc⟩
  held := h.held
  conversation := h.conversation

/-- A message keeps the invariant. -/
theorem Inv.heard (h : Inv o w) {socket : ℕ} (hs : w.websocket = some socket)
    {answer : Answer RawMessage} {event : Event} {conversationId : Option PyStr}
    (he : heard o w.conversationId answer = .ok (event, conversationId)) :
    Inv o { w with wire := w.wire ++ [.received socket event], conversationId } := by
  obtain ⟨event', -, he⟩ := bind_eq_ok.mp he
  obtain ⟨conversationId', hcaptured, he⟩ := bind_eq_ok.mp he
  obtain ⟨rfl, rfl⟩ := Prod.mk.inj (pure_eq_ok.mp he)
  refine h.quietly (.record rfl id rfl) (fun hr => ⟨hr, rfl⟩) h.held fun c hc => ?_
  rcases captured_cases o hcaptured with rfl | ⟨created, rfl, hr, hid⟩
  · exact .inl hc
  · obtain rfl := Option.some.inj hc
    exact .inr ⟨h.held (by rw [hs]; exact Option.some_ne_none _), hr, hid⟩

/-- How an exception leaves a client that is not ready: cleared, unless an await was cut. -/
def Left (course : Course) (w : World) : Prop :=
  w.sessionReady = false ∧ (course = .failed ∧ Cleared w ∨ course = .cut ∧ ¬Cleared w)

/-- What is left where an await ended in an exception on a WebSocket. -/
theorem left_of_held {course : Course} {e : VoiceExc} (hw : w.websocket ≠ none)
    (hr : w.sessionReady = false) (hc : course = if e.isException then .failed else .cut) :
    e.isException = true ∧ course = .failed ∨ e.isException = false ∧ Left course w := by
  by_cases he : e.isException = true
  · rw [if_pos he] at hc
    exact .inl ⟨he, hc⟩
  · rw [if_neg he] at hc
    exact .inr ⟨Bool.not_eq_true _ ▸ he, hr, .inr ⟨hc, fun hcleared => hw hcleared.1.1⟩⟩

/-- What is left where an await ended in an exception and the WebSocket was closed or never opened. -/
theorem left_of_idle {course : Course} {e : VoiceExc} {answer : Answer Unit} (hidle : Idle w)
    (he : e.isException = true ∧ ¬IsBase answer ∨ e.isException = false ∧ IsBase answer)
    (hc : course = if IsBase answer ∧ w.conversationId ≠ none then .cut else .failed) :
    e.isException = true ∧ course = .failed ∨ e.isException = false ∧ Left course w := by
  rcases he with ⟨he, hb⟩ | ⟨he, hb⟩
  · rw [if_neg fun h => hb h.1] at hc
    exact .inl ⟨he, hc⟩
  · refine .inr ⟨he, hidle.2, ?_⟩
    by_cases hconv : w.conversationId = none
    · rw [if_neg fun h => h.2 hconv] at hc
      exact .inl ⟨hc, hidle, hconv⟩
    · rw [if_pos ⟨hb, hconv⟩] at hc
      exact .inr ⟨hc, fun hcleared => hconv hcleared.2⟩

/-- The end of a program that stops on the way to a ready session. -/
def Stopped (course : Course) (s : Stop) (w : World) : Prop :=
  match s with
  | .raised e => e.isException = true ∧ course = .failed ∨ e.isException = false ∧ Left course w
  | .pending => course = .waiting

/-- It waits for `session.updated` on a WebSocket on which `session.update` was sent. -/
theorem waitForSessionReady_spec {socket : ℕ} (closing : Answer Unit)
    (receives : List (Answer RawMessage)) (h : Inv o w) (hs : w.websocket = some socket)
    (hr : w.sessionReady = false)
    (hsent : ∃ event, .sent socket event ∈ w.wire ∧ HasType event "session.update") :
    Ensures (waitForSessionReady o closing receives) w
      (fun _ w' => Inv o w' ∧ Quietly w w' ∧ w'.sessionReady = true ∧
        waitCourse o closing w.conversationId receives = .ready)
      fun s w' => Inv o w' ∧ Quietly w w' ∧
        Stopped (waitCourse o closing w.conversationId receives) s w' := by
  induction receives generalizing w with
  | nil => exact ensures_pending ⟨h, .refl _, rfl⟩
  | cons answer rest ih =>
    have hheld : w.websocket ≠ none := by rw [hs]; exact Option.some_ne_none _
    unfold waitForSessionReady waitCourse
    refine receive_capture_spec o hs closing answer ?_ ?_ ?_
    · intro event conversationId he
      have hi := h.heard hs he
      have hq : Quietly w { w with wire := w.wire ++ [.received socket event], conversationId } :=
        .record rfl id rfl
      simp only [he]
      by_cases herror : eventType? event = some (lit "error")
      · rw [if_pos herror, if_pos herror]
        exact ensures_raise ⟨hi, hq, .inl ⟨VoiceExc.isException_of_isOwn (remoteError_isOwn event), rfl⟩⟩
      · rw [if_neg herror, if_neg herror]
        obtain ⟨sent, hsent, htype⟩ := hsent
        by_cases hupdated : eventType? event = some (lit "session.updated")
        · rw [if_pos hupdated, if_pos hupdated]
          have hc : Configured socket (w.wire ++ [.received socket event]) :=
            ⟨⟨sent, hq.subset hsent, htype⟩, event,
              List.mem_append_right _ (List.mem_singleton_self _), hupdated⟩
          exact ensures_modify ⟨hi.configured hs hc, hq.trans (.of_eq rfl rfl), rfl, rfl⟩
        · rw [if_neg hupdated, if_neg hupdated]
          refine (ih hi hs hr ⟨sent, hq.subset hsent, htype⟩).mono ?_ ?_
          · rintro _ w' ⟨hi', hq', hready⟩
            exact ⟨hi', hq.trans hq', hready⟩
          · rintro s w' ⟨hi', hq', hstopped⟩
            exact ⟨hi', hq.trans hq', hstopped⟩
    · intro e w' he hne hw hq
      rw [he]
      refine ⟨h.unchanged hw hq, hq, left_of_held (hw ▸ hheld) (hw ▸ hr) ?_⟩
      cases e with
      | timeout => exact absurd rfl hne
      | configuration | protocol | remote | python | other | base => rfl
    · intro e w' he hc hb
      rw [he]
      exact ⟨h.closed hc, hc.2.1, left_of_idle hc.1 hb (hc.2.2 ▸ rfl)⟩

theorem Inv.opened (h : Inv o w) (hidle : Idle w) (hinst : o.installed = true) (url : PyStr) :
    Inv o { w with
      wire := w.wire ++ [.opened w.opened url], opened := w.opened + 1, websocket := some w.opened } := by
  refine h.quietly (.record rfl id rfl) (fun hr => ?_) (fun _ => hinst) fun c hc => .inl hc
  rw [show w.sessionReady = false from hidle.2] at hr
  cases hr

theorem hasType_sessionUpdateEvent (config : VoiceSessionConfig) :
    HasType config.sessionUpdateEvent "session.update" := rfl

theorem not_isUserEvent_of_hasType {event : Event} (h : HasType event "session.update") :
    ¬IsUserEvent event := by
  rintro (h' | h')
  · exact absurd (Option.some.inj (h.symm.trans h')) (by decide)
  · exact absurd (Option.some.inj (h.symm.trans h')) (by decide)

theorem openWebsocket_spec (h : Inv o w) (hidle : Idle w) (hinst : o.installed = true)
    (url : PyStr) (opening : Answer Unit) :
    Ensures (openWebsocket url opening) w
      (fun _ w' => Inv o w' ∧ Quietly w w' ∧ w'.websocket = some w.opened ∧
        w'.sessionReady = false ∧ w'.conversationId = w.conversationId ∧ opening = .ok ())
      fun s w' => w' = w ∧ ∃ e, s = .raised e ∧ opening = .error e := by
  unfold openWebsocket
  refine ensures_bind (ensures_await (fun u hu => ?_) fun e he => ⟨rfl, e, rfl, he⟩)
  refine ensures_get_bind (ensures_bind (ensures_record (ensures_modify ?_)))
  exact ⟨h.opened hidle hinst url, .record rfl id rfl, rfl, hidle.2, rfl, hu⟩

/-- `session.update` is sent. -/
theorem sendUpdate_spec (h : Inv o w) {socket : ℕ} (hs : w.websocket = some socket)
    (answer : Answer Unit) :
    Ensures (sendEvent o o.config.sessionUpdateEvent answer) w
      (fun _ w' => Inv o w' ∧ Quietly w w' ∧ w'.toXaiVoiceClient = w.toXaiVoiceClient ∧
        sendAnswer o o.config.sessionUpdateEvent answer = .ok () ∧
        ∃ event, .sent socket event ∈ w'.wire ∧ HasType event "session.update")
      fun s w' => Inv o w' ∧ Quietly w w' ∧ w'.toXaiVoiceClient = w.toXaiVoiceClient ∧
        ∃ e, s = .raised e ∧ sendAnswer o o.config.sessionUpdateEvent answer = .error e := by
  have hupdate := not_isUserEvent_of_hasType (hasType_sessionUpdateEvent o.config)
  have hq : Quietly w { w with wire := w.wire ++ [.sending socket o.config.sessionUpdateEvent] } :=
    .record rfl hupdate rfl
  refine (sendEvent_spec o hs _ answer).mono ?_ ?_
  · rintro _ w' ⟨ha, rfl⟩
    have hq' : Quietly w { w with wire := w.wire ++ [.sending socket o.config.sessionUpdateEvent] ++
        [.sent socket o.config.sessionUpdateEvent] } := hq.trans (.record rfl id rfl)
    exact ⟨h.unchanged rfl hq', hq', rfl, ha, _,
      List.mem_append_right _ (List.mem_singleton_self _), hasType_sessionUpdateEvent _⟩
  · rintro s w' ⟨e, rfl, he, rfl | ⟨-, rfl⟩⟩
    · exact ⟨h, .refl _, rfl, e, rfl, he⟩
    · exact ⟨h.unchanged rfl hq, hq, rfl, e, rfl, he⟩

/-- The `try` of `connect`, until its handler. -/
theorem openSession_body_spec (h : Inv o w) (hidle : Idle w) (hinst : o.installed = true)
    (url : PyStr) (a : ConnectAnswers) :
    Ensures (do
        openWebsocket url a.opening
        sendEvent o o.config.sessionUpdateEvent a.update
        waitForSessionReady o a.closing a.receives) w
      (fun _ w' => Inv o w' ∧ Quietly w w' ∧ w'.sessionReady = true ∧
        a.course o w.conversationId = .ready)
      fun s w' => Inv o w' ∧ Quietly w w' ∧ Stopped (a.course o w.conversationId) s w' := by
  unfold ConnectAnswers.course
  rw [if_neg fun hno => Bool.false_ne_true (hno.symm.trans hinst)]
  refine ensures_bind ((openWebsocket_spec h hidle hinst url a.opening).mono ?_ ?_)
  · rintro _ w₁ ⟨hi₁, hq₁, hs₁, hr₁, hconv₁, hopening⟩
    rw [hopening]
    refine ensures_bind ((sendUpdate_spec hi₁ hs₁ a.update).mono ?_ ?_)
    · rintro _ w₂ ⟨hi₂, hq₂, hw₂, hupdate, hsent⟩
      have hs₂ : w₂.websocket = some w.opened := by rw [hw₂, hs₁]
      have hr₂ : w₂.sessionReady = false := by rw [hw₂, hr₁]
      simp only [hupdate]
      rw [← hconv₁, ← hw₂]
      refine (waitForSessionReady_spec a.closing a.receives hi₂ hs₂ hr₂ hsent).mono ?_ ?_
      · rintro _ w₃ ⟨hi₃, hq₃, hready⟩
        exact ⟨hi₃, hq₁.trans (hq₂.trans hq₃), hready⟩
      · rintro s w₃ ⟨hi₃, hq₃, hstopped⟩
        exact ⟨hi₃, hq₁.trans (hq₂.trans hq₃), hstopped⟩
    · rintro s w₂ ⟨hi₂, hq₂, hw₂, e, rfl, he⟩
      have hheld : w₂.websocket ≠ none := by
        rw [hw₂, hs₁]
        exact Option.some_ne_none _
      simp only [he]
      exact ⟨hi₂, hq₁.trans hq₂, left_of_held hheld (by rw [hw₂, hr₁]) rfl⟩
  · rintro s w' ⟨rfl, e, rfl, he⟩
    have hb : e.isException = true ∧ ¬IsBase a.opening ∨ e.isException = false ∧ IsBase a.opening := by
      by_cases hex : e.isException = true
      · refine .inl ⟨hex, fun ⟨e', he', hb⟩ => ?_⟩
        obtain rfl := Except.error.inj (he.symm.trans he')
        rw [hex] at hb
        cases hb
      · exact .inr ⟨Bool.not_eq_true _ ▸ hex, e, he, Bool.not_eq_true _ ▸ hex⟩
    refine ⟨h, .refl _, left_of_idle hidle hb ?_⟩
    rw [he]

/-- What an opened session comes to. -/
theorem openSession_spec (h : Inv o w) (hidle : Idle w) (hinst : o.installed = true)
    (url : PyStr) (a : ConnectAnswers) :
    Ensures (openSession o url a) w
      (fun _ w' => Inv o w' ∧ Quietly w w' ∧ w'.sessionReady = true ∧
        a.course o w.conversationId = .ready)
      fun s w' => Inv o w' ∧ Quietly w w' ∧
        match s with
        | .raised _ => Left (a.course o w.conversationId) w'
        | .pending => a.course o w.conversationId = .waiting := by
  unfold openSession
  refine ensures_tryCatching ((openSession_body_spec h hidle hinst url a).mono (fun _ _ hq => hq) ?_)
  rintro s w' ⟨hi, hq, hstopped⟩
  cases s with
  | pending => exact ⟨hi, hq, hstopped⟩
  | raised e =>
    show if e.isException = true then _ else _
    by_cases hex : e.isException = true
    · rw [if_pos hex]
      refine (forget_close_spec hi a.closing e).mono (fun _ _ hf => hf.elim) ?_
      rintro s w'' ⟨hi', hq', hc, e', rfl⟩
      refine ⟨hi', hq.trans hq', hc.1.2, .inl ⟨?_, hc⟩⟩
      rcases hstopped with ⟨-, hcourse⟩ | ⟨hbase, -⟩
      · exact hcourse
      · rw [hex] at hbase
        cases hbase
    · rw [if_neg hex]
      rcases hstopped with ⟨hexc, -⟩ | ⟨-, hleft⟩
      · exact absurd hexc hex
      · exact ⟨hi, hq, hleft⟩

/-- What `connect` comes to on an idle client. -/
theorem connect_spec (h : Inv o w) (hidle : Idle w) (a : ConnectAnswers) :
    Ensures (connect o a) w
      (fun _ w' => Inv o w' ∧ Quietly w w' ∧ w'.sessionReady = true ∧
        a.course o w.conversationId = .ready)
      fun s w' => Inv o w' ∧ Quietly w w' ∧
        match s with
        | .raised _ => Left (a.course o w.conversationId) w'
        | .pending => a.course o w.conversationId = .waiting := by
  unfold connect
  refine ensures_get_bind ?_
  rw [if_neg fun hw => hw hidle.1]
  by_cases hinst : o.installed = false
  · rw [if_pos hinst]
    have hconv : w.conversationId = none := by
      -- without the package no conversation was ever created
      cases hc : w.conversationId with
      | none => rfl
      | some c => exact absurd (h.conversation c hc).1 (by rw [hinst]; exact Bool.false_ne_true)
    refine ensures_raise ⟨h, .refl _, hidle.2, .inl ⟨?_, hidle, hconv⟩⟩
    unfold ConnectAnswers.course
    rw [if_pos hinst]
  · rw [if_neg hinst]
    refine ensures_bind (ensures_await (fun url _ => ?_) fun e he => ?_)
    · exact openSession_spec h hidle (Bool.not_eq_false _ ▸ hinst) url a
    · obtain ⟨url, hurl⟩ := websocketUrl_ok o.url_ok fun c hc => (h.conversation c hc).2
      rw [hurl] at he
      cases he

/-- A client that holds a WebSocket is connected. -/
theorem connect_of_held (hw : w.websocket ≠ none) (a : ConnectAnswers) :
    Ensures (connect o a) w (fun _ w' => w' = w) fun _ _ => False := by
  unfold connect
  refine ensures_get_bind ?_
  rw [if_pos hw]
  exact ensures_pure rfl

end Connecting

end Sentinel.Voice
