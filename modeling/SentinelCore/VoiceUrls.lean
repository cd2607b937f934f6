import SentinelCore.VoiceConnections
import SentinelCore.Py.Url

/-!
# The URLs of a run

`readQuery` reads a query as a server does: pairs between `&`, a name before the first `=`, `+` for a space and
`%XX` for a byte. It reads back what `urlencode` writes (`readQuery_urlencode`), so no text of the configuration
changes another parameter, the host or the path (`websocketUrl_parsed`).

In every run each URL that is opened goes to the one endpoint and asks for the model, the agent and at most the
conversation a server named last (`opened_urls`).
-/

namespace Sentinel.Voice

open Py Lib

/-! ## Reading a query -/

def unquoteBytes : PyStr → Option Bytes
  | [] => some []
  | c :: s =>
    if c = chr '%' then
      match s with
      | high :: low :: rest => do
        let high ← hexValue high
        let low ← hexValue low
        let data ← unquoteBytes rest
        return byte (16 * high + low) :: data
      | _ => none
    else do
      let data ← unquoteBytes s
      return (if c = chr '+' then byte 0x20 else byte c.val) :: data

def unquotePlus (s : PyStr) : Option PyStr := do
  let data ← unquoteBytes s
  (decodeUtf8 data).toOption

def readPair (part : PyStr) : Option (PyStr × PyStr) := do
  let (key, value) ← partitionChar? part (chr '=')
  return (← unquotePlus key, ← unquotePlus value)

def readQuery (query : PyStr) : Option (List (PyStr × PyStr)) := (query.splitOn (chr '&')).mapM readPair

/-! ## What `quote_plus` writes -/

/-- The characters of a quoted text. -/
def isQuotedChar (c : CodePoint) : Bool := isAsciiAlnum c || (lit "_.-~+%").contains c

/-- The text is one byte, quoted. -/
def readsByte (b : Byte) : PyStr → Bool
  | [c] => c ≠ chr '%' && (if c = chr '+' then byte 0x20 else byte c.val) = b
  | [percent, high, low] => percent = chr '%' &&
    (do return byte (16 * (← hexValue high) + (← hexValue low))) = some b
  | _ => false

theorem readsByte_quoteByte : ∀ b : Byte, readsByte b (quoteByte b) = true := by decide +kernel

theorem quoteByte_chars : ∀ b : Byte, (quoteByte b).all isQuotedChar = true := by decide +kernel

theorem unquoteBytes_plain {c : CodePoint} (h : c ≠ chr '%') (s : PyStr) : unquoteBytes (c :: s) =
    (unquoteBytes s).map ((if c = chr '+' then byte 0x20 else byte c.val) :: ·) := by
  rw [unquoteBytes.eq_def]
  simp only [if_neg h]
  cases unquoteBytes s <;> rfl

theorem unquoteBytes_percent {high low : CodePoint} {n m : ℕ} (hn : hexValue high = some n)
    (hm : hexValue low = some m) (s : PyStr) :
    unquoteBytes (chr '%' :: high :: low :: s) = (unquoteBytes s).map (byte (16 * n + m) :: ·) := by
  rw [unquoteBytes.eq_def]
  simp only [if_true, hn, hm]
  cases unquoteBytes s <;> rfl

theorem unquoteBytes_byte {b : Byte} {q : PyStr} (h : readsByte b q = true) (s : PyStr) :
    unquoteBytes (q ++ s) = (unquoteBytes s).map (b :: ·) := by
  cases q with
  | nil => cases h
  | cons c q =>
    cases q with
    | nil =>
      rw [readsByte, Bool.and_eq_true, decide_eq_true_eq, decide_eq_true_eq] at h
      exact h.2 ▸ unquoteBytes_plain h.1 s
    | cons high q =>
      cases q with
      | nil => cases h
      | cons low q =>
        cases q with
        | cons _ _ => cases h
        | nil =>
          rw [readsByte, Bool.and_eq_true, decide_eq_true_eq, decide_eq_true_eq] at h
          obtain ⟨rfl, hb⟩ := h
          cases hn : hexValue high with
          | none =>
            rw [hn] at hb
            cases hb
          | some n =>
            cases hm : hexValue low with
            | none =>
              rw [hn, hm] at hb
              cases hb
            | some m =>
              rw [hn, hm] at hb
              obtain rfl := Option.some.inj hb
              exact unquoteBytes_percent hn hm s

theorem unquoteBytes_quote (data : Bytes) : unquoteBytes (data.flatMap quoteByte) = some data := by
  induction data with
  | nil => rfl
  | cons b data ih =>
    rw [List.flatMap_cons, unquoteBytes_byte (readsByte_quoteByte b), ih]
    rfl

theorem quotePlus_eq_ok {s t : PyStr} :
    quotePlus s = .ok t ↔ ∃ data, encodeUtf8 s = .ok data ∧ data.flatMap quoteByte = t := by
  unfold quotePlus
  cases encodeUtf8 s with
  | ok data => simp
  | error e => simp

theorem unquotePlus_quotePlus {s t : PyStr} (h : quotePlus s = .ok t) : unquotePlus t = some s := by
  obtain ⟨data, hdata, rfl⟩ := quotePlus_eq_ok.mp h
  unfold unquotePlus
  rw [unquoteBytes_quote, Option.bind_eq_bind, Option.bind_some, decodeUtf8_of_encodeUtf8 hdata]
  rfl

theorem quotePlus_chars {s t : PyStr} (h : quotePlus s = .ok t) : ∀ c ∈ t, isQuotedChar c = true := by
  obtain ⟨data, -, rfl⟩ := quotePlus_eq_ok.mp h
  intro c hc
  obtain ⟨b, -, hc⟩ := List.mem_flatMap.mp hc
  exact List.all_eq_true.mp (quoteByte_chars b) c hc

/-! ## What `urlencode` writes -/

/-- The characters of a query. -/
def isQueryChar (c : CodePoint) : Bool := isQuotedChar c || c = chr '&' || c = chr '='

theorem readPair_quoted {key value key' value' : PyStr} (hkey : quotePlus key = .ok key')
    (hvalue : quotePlus value = .ok value') : readPair (key' ++ chr '=' :: value') = some (key, value) := by
  have hnot : chr '=' ∉ key' := fun hmem => absurd (quotePlus_chars hkey _ hmem) (by decide)
  unfold readPair
  rw [partitionChar?_append hnot, Option.bind_eq_bind, Option.bind_some]
  simp only [unquotePlus_quotePlus hkey, unquotePlus_quotePlus hvalue]
  rfl

/-- The parts between `&`, each of them read as its pair. -/
theorem urlencode_parts {query : List (PyStr × PyStr)} {text : PyStr} (h : urlencode query = .ok text) :
    ∃ parts, text = [chr '&'].intercalate parts ∧ parts.mapM readPair = some query ∧
      ∀ part ∈ parts, chr '&' ∉ part ∧ ∀ c ∈ part, isQueryChar c = true := by
  obtain ⟨parts, hparts, htext⟩ := bind_eq_ok.mp h
  refine ⟨parts, (pure_eq_ok.mp htext).symm, ?_⟩
  clear h htext
  induction query generalizing parts with
  | nil =>
    obtain rfl := pure_eq_ok.mp hparts
    exact ⟨rfl, by simp⟩
  | cons kv query ih =>
    rw [List.mapM_cons] at hparts
    obtain ⟨part, hpart, hparts⟩ := bind_eq_ok.mp hparts
    obtain ⟨rest, hrest, hparts⟩ := bind_eq_ok.mp hparts
    obtain rfl := pure_eq_ok.mp hparts
    obtain ⟨key, hkey, hpart⟩ := bind_eq_ok.mp hpart
    obtain ⟨value, hvalue, hpart⟩ := bind_eq_ok.mp hpart
    obtain rfl := pure_eq_ok.mp hpart
    obtain ⟨hread, hchars⟩ := ih rest hrest
    refine ⟨?_, List.forall_mem_cons.mpr ⟨?_, hchars⟩⟩
    · rw [List.mapM_cons, readPair_quoted hkey hvalue, hread]
      rfl
    · have hquoted : ∀ c ∈ key ++ chr '=' :: value, isQuotedChar c = true ∨ c = chr '=' := by
        intro c hc
        rcases List.mem_append.mp hc with hc | hc
        · exact .inl (quotePlus_chars hkey c hc)
        · rcases List.mem_cons.mp hc with rfl | hc
          · exact .inr rfl
          · exact .inl (quotePlus_chars hvalue c hc)
      refine ⟨fun hmem => ?_, fun c hc => ?_⟩
      · rcases hquoted _ hmem with h | h
        · exact absurd h (by decide)
        · exact absurd h (by decide)
      · unfold isQueryChar
        rcases hquoted c hc with h | rfl
        · rw [h]
          rfl
        · rfl

/-- **A query is read back.** -/
theorem readQuery_urlencode {query : List (PyStr × PyStr)} (hne : query ≠ []) {text : PyStr}
    (h : urlencode query = .ok text) : readQuery text = some query := by
  obtain ⟨parts, rfl, hread, hparts⟩ := urlencode_parts h
  have hparts_ne : parts ≠ [] := by
    rintro rfl
    exact hne (Option.some.inj hread).symm
  unfold readQuery
  rw [List.splitOn_intercalate _ (fun part hpart => (hparts part hpart).1) hparts_ne]
  exact hread

theorem urlencode_chars {query : List (PyStr × PyStr)} {text : PyStr} (h : urlencode query = .ok text) :
    ∀ c ∈ text, isQueryChar c = true := by
  obtain ⟨parts, rfl, -, hparts⟩ := urlencode_parts h
  clear h
  intro c hc
  induction parts with
  | nil => cases hc
  | cons part parts ih =>
    cases parts with
    | nil =>
      rw [List.intercalate_singleton] at hc
      exact (hparts part List.mem_cons_self).2 c hc
    | cons next parts =>
      rw [List.intercalate_cons_cons] at hc
      rcases List.mem_append.mp hc with hc | hc
      · rcases List.mem_append.mp hc with hc | hc
        · exact (hparts part List.mem_cons_self).2 c hc
        · rw [List.mem_singleton.mp hc]
          rfl
      · exact ih (fun p hp => hparts p (List.mem_cons_of_mem _ hp)) hc

/-! ## The URL -/

/-- What a URL of the client asks for. -/
def VoiceSessionConfig.parameters (config : VoiceSessionConfig) (conversationId agentId : Option PyStr) :
    List (PyStr × PyStr) :=
  (lit "model", config.model) :: ((conversationId.map fun c => (lit "conversation_id", c)).toList ++
    (agentId.map fun a => (lit "agent_id", a)).toList)

theorem conversationQuery_eq_ok {config : VoiceSessionConfig} {conversationId : Option PyStr}
    {query : List (PyStr × PyStr)} (h : config.conversationQuery conversationId = .ok query) :
    query = (conversationId.map fun c => (lit "conversation_id", c)).toList := by
  unfold VoiceSessionConfig.conversationQuery at h
  cases conversationId with
  | none => exact (Except.ok.inj h).symm
  | some c =>
    dsimp only at h
    split_ifs at h
    exact (Except.ok.inj h).symm

theorem agentQuery_eq_ok {agentId : Option PyStr} {allow : Bool} {query : List (PyStr × PyStr)}
    (h : VoiceSessionConfig.agentQuery agentId allow = .ok query) :
    query = (agentId.map fun a => (lit "agent_id", a)).toList := by
  unfold VoiceSessionConfig.agentQuery at h
  cases agentId with
  | none => exact (Except.ok.inj h).symm
  | some a =>
    dsimp only at h
    split_ifs at h
    exact (Except.ok.inj h).symm

theorem isQueryChar_ne {c d : CodePoint} (h : isQueryChar c = true) (hd : isQueryChar d = false) : c ≠ d := by
  rintro rfl
  rw [h] at hd
  cases hd

/-- A query does not reach into the other parts of the URL. -/
theorem urlparse_realtime (rt : Runtime) {query : PyStr} (h : ∀ c ∈ query, isQueryChar c = true) :
    urlparse rt (lit "wss://api.x.ai/v1/realtime" ++ chr '?' :: query) = .ok {
      scheme := lit "wss"
      netloc := lit "api.x.ai"
      path := lit "/v1/realtime"
      params := []
      query := query
      fragment := [] } := by
  have hclean : cleanUrl (lit "wss://api.x.ai/v1/realtime" ++ chr '?' :: query) =
      lit "wss://api.x.ai/v1/realtime" ++ chr '?' :: query := by
    unfold cleanUrl
    rw [show (lit "wss://api.x.ai/v1/realtime" ++ chr '?' :: query).dropWhile (fun c => c.val ≤ 0x20) =
      lit "wss://api.x.ai/v1/realtime" ++ chr '?' :: query from rfl]
    refine List.filter_eq_self.mpr fun c hc => ?_
    rcases List.mem_append.mp hc with hc | hc
    · have hall : (lit "wss://api.x.ai/v1/realtime").all
        (fun c => c ≠ chr '\t' && c ≠ chr '\r' && c ≠ chr '\n') = true := rfl
      exact List.all_eq_true.mp hall c hc
    · rcases List.mem_cons.mp hc with rfl | hc
      · rfl
      · have hne : ∀ d, isQueryChar d = false → decide (c ≠ d) = true := fun d hd =>
          decide_eq_true (isQueryChar_ne (h c hc) hd)
        rw [hne _ rfl, hne _ rfl, hne _ rfl]
        rfl
  have hscheme : splitScheme (lit "wss://api.x.ai/v1/realtime" ++ chr '?' :: query) =
      (lit "wss", lit "//api.x.ai/v1/realtime" ++ chr '?' :: query) := by
    unfold splitScheme
    rw [show lit "wss://api.x.ai/v1/realtime" ++ chr '?' :: query =
      lit "wss" ++ chr ':' :: (lit "//api.x.ai/v1/realtime" ++ chr '?' :: query) from rfl,
      partitionChar?_append (by decide)]
    rfl
  have hnetloc : splitNetloc (lit "//api.x.ai/v1/realtime" ++ chr '?' :: query) =
      (lit "api.x.ai", lit "/v1/realtime" ++ chr '?' :: query) := rfl
  have hfragment : cutAt (lit "/v1/realtime" ++ chr '?' :: query) (chr '#') =
      (lit "/v1/realtime" ++ chr '?' :: query, []) := by
    unfold cutAt
    rw [partitionChar?_eq_none.mpr fun hmem => ?_]
    · rfl
    · rcases List.mem_append.mp hmem with hc | hc
      · exact absurd hc (by decide)
      · rcases List.mem_cons.mp hc with hc | hc
        · exact absurd hc (by decide)
        · exact isQueryChar_ne (h _ hc) rfl rfl
  have hquery : cutAt (lit "/v1/realtime" ++ chr '?' :: query) (chr '?') = (lit "/v1/realtime", query) := by
    unfold cutAt
    rw [partitionChar?_append (by decide)]
    rfl
  unfold urlparse
  rw [hclean, hscheme]
  dsimp only
  rw [hnetloc]
  dsimp only
  rw [hfragment]
  dsimp only
  rw [hquery]
  rfl

/-- **What is built is read back**: the one endpoint, and the parameters as they were given. -/
theorem websocketUrl_parsed (rt : Runtime) {config : VoiceSessionConfig} {conversationId agentId : Option PyStr}
    {allow : Bool} {url : PyStr} (h : config.websocketUrl conversationId agentId allow = .ok url) :
    ∃ query, urlparse rt url = .ok {
      scheme := lit "wss"
      netloc := lit "api.x.ai"
      path := lit "/v1/realtime"
      params := []
      query := query
      fragment := [] } ∧ readQuery query = some (config.parameters conversationId agentId) := by
  obtain ⟨conversation, hconversation, h⟩ := bind_eq_ok.mp h
  obtain ⟨agent, hagent, h⟩ := bind_eq_ok.mp h
  obtain ⟨query, hquery, h⟩ := bind_eq_ok.mp h
  obtain rfl := pure_eq_ok.mp h
  obtain rfl := conversationQuery_eq_ok hconversation
  obtain rfl := agentQuery_eq_ok hagent
  exact ⟨query, urlparse_realtime rt (urlencode_chars hquery), readQuery_urlencode (List.cons_ne_nil _ _) hquery⟩

/-- **Every URL of a run** goes to the endpoint, and asks for the configured model and agent, and for no
conversation but the one a server named last, if resumption is enabled. -/
theorem opened_urls (o : ClientOptions) (calls : List Call) :
    ∀ step ∈ performAll o .initial calls, ∀ before socket url after,
      step.after.wire = before ++ .opened socket url :: after →
      ∃ query conversationId, urlparse o.env.toRuntime url = .ok {
          scheme := lit "wss"
          netloc := lit "api.x.ai"
          path := lit "/v1/realtime"
          params := []
          query := query
          fragment := [] } ∧
        readQuery query = some (o.config.parameters conversationId o.agentId) ∧
        Resumable o before conversationId := by
  intro step hstep before socket url after hwire
  obtain ⟨conversationId, hresumable, hurl⟩ := (resumesLast_run o calls step hstep).2.urls before socket url after hwire
  obtain ⟨query, hparsed, hquery⟩ := websocketUrl_parsed o.env.toRuntime hurl
  exact ⟨query, conversationId, hparsed, hquery, hresumable⟩

def WireEvent.isOpened : WireEvent → Bool
  | .opened _ _ => true
  | .sending _ _ | .sent _ _ | .received _ _ | .closing _ => false

theorem opened_urls_sample : ∃ before url query conversationId,
    lastConversation before = some (lit "conv_1") ∧
      urlparse sampleEnv.toRuntime url = .ok {
        scheme := lit "wss"
        netloc := lit "api.x.ai"
        path := lit "/v1/realtime"
        params := []
        query := query
        fragment := [] } ∧
      readQuery query = some (resumingConfig.parameters conversationId none) ∧
      Resumable resumingOptions before conversationId := by
  -- the second connection is opened after the sixth event on the wire
  obtain ⟨step, hstep, hnamed, hopened⟩ : ∃ step ∈ performAll resumingOptions .initial resumingCalls,
      lastConversation (step.after.wire.take 6) = some (lit "conv_1") ∧
        ((step.after.wire.drop 6).head?.any WireEvent.isOpened) = true := by decide +kernel
  obtain ⟨x, after, hdrop, hopens⟩ : ∃ x after, step.after.wire.drop 6 = x :: after ∧ x.isOpened = true := by
    cases hdrop : step.after.wire.drop 6 with
    | nil =>
      rw [hdrop] at hopened
      cases hopened
    | cons x after =>
      rw [hdrop] at hopened
      exact ⟨x, after, rfl, hopened⟩
  cases x with
  | opened socket url =>
    obtain ⟨query, conversationId, h⟩ := opened_urls resumingOptions resumingCalls step hstep
      (step.after.wire.take 6) socket url after (by rw [← hdrop, List.take_append_drop])
    exact ⟨_, url, query, conversationId, hnamed, h⟩
  | _ => cases hopens

end Sentinel.Voice
