import SentinelCore.VoiceMoves

/-!
# The connections of a run

What happened on the wire is one connection after the other (`wireOf`): a connection is opened, carries its
traffic and is closed before the next one is opened. In every run only the last connection can be open, and it
is the one the client holds (`connections_accounted`).

A conversation id the client holds is the last one a server named, so every URL is built without a conversation
or with that one (`resumesLast_run`).
-/

namespace Sentinel.Voice

open Py Lib

/-! ## Connections -/

/-- An event that is sent, and whether `send` returned, or an event that is received. -/
inductive Traffic where
  | out (event : Event) (returned : Bool)
  | heard (event : Event)

def Traffic.events (socket : ℕ) : Traffic → List WireEvent
  | .out event true => [.sending socket event, .sent socket event]
  | .out event false => [.sending socket event]
  | .heard event => [.received socket event]

structure Connection where
  url : PyStr
  traffic : List Traffic
  closed : Bool

namespace Connection

def events (socket : ℕ) (c : Connection) : List WireEvent :=
  .opened socket c.url :: (c.traffic.flatMap (Traffic.events socket) ++
    if c.closed then [.closing socket] else [])

def carries (c : Connection) (t : Traffic) : Connection := { c with traffic := c.traffic ++ [t] }

variable {c : Connection} {socket : ℕ}

theorem events_carries (h : c.closed = false) (t : Traffic) :
    (c.carries t).events socket = c.events socket ++ t.events socket := by
  simp [events, carries, h]

theorem events_close (h : c.closed = false) :
    { c with closed := true }.events socket = c.events socket ++ [.closing socket] := by
  simp [events, h]

/-- A connection on which `send` was called last. -/
theorem exists_sending {event : Event} (h : c.closed = false)
    (hlast : (c.events socket).getLast? = some (.sending socket event)) :
    ∃ c' : Connection, c'.closed = false ∧ c = c'.carries (.out event false) := by
  obtain ⟨url, traffic, closed⟩ := c
  obtain rfl : closed = false := h
  rcases List.eq_nil_or_concat traffic with rfl | ⟨traffic, t, rfl⟩
  · cases hlast
  · refine ⟨⟨url, traffic, false⟩, rfl, ?_⟩
    have hcarries : ((Connection.mk url traffic false).carries t).events socket = _ := events_carries rfl t
    have hevents : (t.events socket).getLast? = some (.sending socket event) := by
      have hne : (t.events socket).getLast? ≠ none := by
        cases t with
        | out event returned => cases returned <;> exact Option.some_ne_none _
        | heard event => exact Option.some_ne_none _
      rw [show traffic.concat t = traffic ++ [t] from List.concat_eq_append] at hlast
      rw [show Connection.events socket ⟨url, traffic ++ [t], false⟩ = _ from hcarries, List.getLast?_append] at hlast
      obtain ⟨x, hx⟩ := Option.ne_none_iff_exists'.mp hne
      rw [hx] at hlast ⊢
      exact hlast
    cases t with
    | heard event => cases hevents
    | out event' returned =>
      cases returned with
      | true => cases hevents
      | false =>
        cases hevents
        rw [List.concat_eq_append]
        rfl

end Connection

/-- The wire of a list of connections, numbered from 0 on. -/
def wireOf (connections : List Connection) : List WireEvent :=
  connections.zipIdx.flatMap fun p => p.1.events p.2

theorem wireOf_concat (connections : List Connection) (c : Connection) :
    wireOf (connections ++ [c]) = wireOf connections ++ c.events connections.length := by
  unfold wireOf
  rw [List.zipIdx_append, List.flatMap_append]
  simp

/-- The wire is that of closed connections, and of one more if the client holds a WebSocket. -/
inductive Accounted (w : World) : Prop
  | idle (connections : List Connection) (closed : ∀ c ∈ connections, c.closed = true)
    (wire : w.wire = wireOf connections) (opened : w.opened = connections.length) (held : w.websocket = none)
  | busy (connections : List Connection) (current : Connection) (closed : ∀ c ∈ connections, c.closed = true)
    (going : current.closed = false) (wire : w.wire = wireOf (connections ++ [current]))
    (opened : w.opened = connections.length + 1) (held : w.websocket = some connections.length)

theorem accounted_initial : Accounted .initial := .idle [] (by simp) rfl rfl rfl

section Moves

variable {o : ClientOptions} {w w' : World}

/-- What goes over the current connection is its traffic. -/
theorem Accounted.carry (h : Accounted w) {socket : ℕ} (hheld : w.websocket = some socket) (t : Traffic)
    (conversationId : Option PyStr) :
    Accounted { w with wire := w.wire ++ t.events socket, conversationId } := by
  cases h with
  | idle _ _ _ _ hnone =>
    rw [hnone] at hheld
    cases hheld
  | busy connections current hclosed hgoing hwire hopened hcurrent =>
    obtain rfl : connections.length = socket := Option.some.inj (hcurrent.symm.trans hheld)
    refine .busy connections (current.carries t) hclosed hgoing ?_ hopened hcurrent
    rw [wireOf_concat, Connection.events_carries hgoing, ← List.append_assoc, ← wireOf_concat, hwire]

/-- A `send` that returns is the last of the current connection. -/
theorem Accounted.returns (h : Accounted w) {socket : ℕ} {event : Event} (hheld : w.websocket = some socket)
    (hlast : w.wire.getLast? = some (.sending socket event)) :
    Accounted { w with wire := w.wire ++ [.sent socket event] } := by
  cases h with
  | idle _ _ _ _ hnone =>
    rw [hnone] at hheld
    cases hheld
  | busy connections current hclosed hgoing hwire hopened hcurrent =>
    obtain rfl : connections.length = socket := Option.some.inj (hcurrent.symm.trans hheld)
    rw [hwire, wireOf_concat, List.getLast?_append] at hlast
    have hevents : (current.events connections.length).getLast? = some (.sending connections.length event) := by
      cases hevents : (current.events connections.length).getLast? with
      | none => cases List.getLast?_eq_none_iff.mp hevents
      | some x =>
        rw [hevents] at hlast
        exact hlast
    obtain ⟨before, hbefore, rfl⟩ := Connection.exists_sending hgoing hevents
    refine .busy connections (before.carries (.out event true)) hclosed hbefore ?_ hopened hcurrent
    show w.wire ++ [.sent connections.length event] = _
    rw [hwire, wireOf_concat, wireOf_concat, Connection.events_carries hbefore, Connection.events_carries hbefore]
    simp [Traffic.events]

theorem Accounted.move (h : Accounted w) (hmove : Move o w w') : Accounted w' := by
  cases hmove with
  | sends hheld _ _ => exact h.carry hheld (.out _ false) w.conversationId
  | hears hheld _ => exact h.carry hheld (.heard _) _
  | returns hheld hlast => exact h.returns hheld hlast
  | @opens url hnone hurl =>
    cases h with
    | busy _ _ _ _ _ _ hcurrent =>
      rw [hcurrent] at hnone
      cases hnone
    | idle connections hclosed hwire hopened _ =>
      refine .busy connections ⟨url, [], false⟩ hclosed rfl ?_ (congrArg (· + 1) hopened) (congrArg some hopened)
      rw [wireOf_concat, hwire, hopened]
      rfl
  | closes hheld =>
    cases h with
    | idle _ _ _ _ hnone =>
      rw [hnone] at hheld
      cases hheld
    | busy connections current hclosed hgoing hwire hopened hcurrent =>
      obtain rfl := Option.some.inj (hcurrent.symm.trans hheld)
      refine .idle (connections ++ [{ current with closed := true }]) ?_ ?_ ?_ rfl
      · intro c hc
        rcases List.mem_append.mp hc with hc | hc
        · exact hclosed c hc
        · rw [List.mem_singleton.mp hc]
      · rw [hwire, wireOf_concat, wireOf_concat, Connection.events_close hgoing, List.append_assoc]
      · rw [List.length_append]
        exact hopened
  | readies _ | forgets | rests _ | emits _ =>
    cases h with
    | idle connections hclosed hwire hopened hnone => exact .idle connections hclosed hwire hopened hnone
    | busy connections current hclosed hgoing hwire hopened hcurrent =>
      exact .busy connections current hclosed hgoing hwire hopened hcurrent

/-- **In every run the connections are one after the other**: each is closed before the next one is opened, and
only the one the client holds is open. -/
theorem connections_accounted (o : ClientOptions) (calls : List Call) :
    ∀ step ∈ performAll o .initial calls, Accounted step.before ∧ Accounted step.after :=
  performAll_keeps o (fun _ _ h hmove => h.move hmove) calls accounted_initial

end Moves

/-- The sample configuration with resumption. -/
def resumingConfig : VoiceSessionConfig := { sampleConfig with resumptionEnabled := true }

def resumingOptions : ClientOptions where
  env := sampleEnv
  config := resumingConfig
  agentId := none
  allowUndocumentedAgentId := false
  transcriptSink := none
  installed := true
  url_ok := ⟨_, rfl⟩

/-- A connection on which the server names a conversation. -/
def namingConnect : ConnectAnswers where
  opening := .ok ()
  update := .ok ()
  receives := [
    message "\x7b\"type\":\"conversation.created\",\"conversation\":\x7b\"id\":\"conv_1\"\x7d\x7d",
    message "\x7b\"type\":\"session.updated\"\x7d"]
  closing := .ok ()

/-- That connection, its end, and a connection that resumes the conversation. -/
def resumingCalls : List Call := [.connect namingConnect, .close (.ok ()), .connect sampleConnect]

theorem connections_accounted_sample :
    ∃ step ∈ performAll resumingOptions .initial resumingCalls, step.after.opened = 2 ∧ Accounted step.after := by
  obtain ⟨step, hstep, hopened⟩ : ∃ step ∈ performAll resumingOptions .initial resumingCalls,
      step.after.opened = 2 := by decide +kernel
  exact ⟨step, hstep, hopened, (connections_accounted resumingOptions resumingCalls step hstep).2⟩

/-! ## Conversations -/

/-- The id in a `conversation.created` event that is received. -/
def createdIn : WireEvent → Option PyStr
  | .received _ event =>
    if eventType? event = some (lit "conversation.created") then (createdConversation event).toOption else none
  | .opened _ _ | .sending _ _ | .sent _ _ | .closing _ => none

/-- The conversation a server named last. -/
def lastConversation (wire : List WireEvent) : Option PyStr := (wire.filterMap createdIn).getLast?

theorem lastConversation_concat {wire : List WireEvent} {x : WireEvent} :
    lastConversation (wire ++ [x]) = (createdIn x).or (lastConversation wire) := by
  unfold lastConversation
  rw [List.filterMap_append, List.getLast?_append]
  cases hx : createdIn x <;> simp [hx]

/-- A conversation the client may resume after what happened on the wire. -/
def Resumable (o : ClientOptions) (wire : List WireEvent) (conversationId : Option PyStr) : Prop :=
  conversationId = none ∨ o.config.resumptionEnabled = true ∧ conversationId = lastConversation wire

/-- The URL is built with a conversation that can be resumed. -/
def Resumes (o : ClientOptions) (wire : List WireEvent) (url : PyStr) : Prop :=
  ∃ conversationId, Resumable o wire conversationId ∧
    o.config.websocketUrl conversationId o.agentId o.allowUndocumentedAgentId = .ok url

/-- The held conversation can be resumed, and so could those of all URLs when they were opened. -/
structure ResumesLast (o : ClientOptions) (w : World) : Prop where
  held : Resumable o w.wire w.conversationId
  urls : ∀ before socket url after, w.wire = before ++ .opened socket url :: after → Resumes o before url

section Moves

variable {o : ClientOptions} {w w' : World}

theorem ResumesLast.initial : ResumesLast o .initial :=
  ⟨.inl rfl, fun before _ _ after h => by cases before <;> cases h⟩

theorem urls_concat {wire : List WireEvent} {x : WireEvent}
    (h : ∀ before socket url after, wire = before ++ .opened socket url :: after → Resumes o before url)
    (hx : ∀ socket url, x = .opened socket url → Resumes o wire url) :
    ∀ before socket url after, wire ++ [x] = before ++ .opened socket url :: after → Resumes o before url := by
  intro before socket url after heq
  rcases List.eq_nil_or_concat after with rfl | ⟨after, y, rfl⟩
  · obtain ⟨rfl, hopened⟩ := List.append_inj' heq rfl
    exact hx socket url (List.cons.inj hopened).1
  · rw [List.concat_eq_append, ← List.cons_append, ← List.append_assoc] at heq
    obtain ⟨hwire, -⟩ := List.append_inj' heq rfl
    exact h before socket url after hwire

/-- What is received changes what can be resumed, and the held id with it. -/
theorem Resumable.remembered (h : Resumable o w.wire w.conversationId) (socket : ℕ) (event : Event) :
    Resumable o (w.wire ++ [.received socket event]) (remembered o event w.conversationId) := by
  unfold Resumable Voice.remembered captured
  rw [lastConversation_concat]
  unfold createdIn
  by_cases htype : eventType? event = some (lit "conversation.created")
  · simp only [if_pos htype]
    cases hcreated : createdConversation event with
    | error e => exact h
    | ok created =>
      by_cases hr : o.config.resumptionEnabled = true
      · exact .inr ⟨hr, by simp [hr, bind, Except.bind, pure, Except.pure, Except.toOption]⟩
      · rcases h with h | ⟨hr', -⟩
        · left
          simp [hr, h, bind, Except.bind, pure, Except.pure, Except.toOption]
        · exact absurd hr' hr
  · simp only [if_neg htype]
    exact h

theorem ResumesLast.move (h : ResumesLast o w) (hmove : Move o w w') : ResumesLast o w' := by
  -- nothing else that happens on the wire names a conversation
  have hquiet : ∀ {x : WireEvent}, createdIn x = none → Resumable o (w.wire ++ [x]) w.conversationId := by
    intro x hx
    unfold Resumable
    rw [lastConversation_concat, hx]
    exact h.held
  cases hmove with
  | opens hnone hurl =>
    refine ⟨hquiet rfl, urls_concat h.urls fun socket url hx => ?_⟩
    cases hx
    exact ⟨w.conversationId, h.held, hurl⟩
  | sends _ _ _ => exact ⟨hquiet rfl, urls_concat h.urls fun _ _ hx => by cases hx⟩
  | returns _ _ => exact ⟨hquiet rfl, urls_concat h.urls fun _ _ hx => by cases hx⟩
  | hears _ _ => exact ⟨h.held.remembered _ _, urls_concat h.urls fun _ _ hx => by cases hx⟩
  | closes _ => exact ⟨hquiet rfl, urls_concat h.urls fun _ _ hx => by cases hx⟩
  | forgets => exact ⟨.inl rfl, h.urls⟩
  | readies _ | rests _ | emits _ => exact ⟨h.held, h.urls⟩

theorem resumesLast_run (o : ClientOptions) (calls : List Call) :
    ∀ step ∈ performAll o .initial calls, ResumesLast o step.before ∧ ResumesLast o step.after :=
  performAll_keeps o (fun _ _ h hmove => h.move hmove) calls .initial

end Moves

end Sentinel.Voice
