import SentinelCore.Hashchain
import SentinelCore.Py.DateTime
import SentinelCore.Py.Filed

/-!
# Trust registry

`sentinel_core/trust.py`. `resolveActiveKeyAt` gives the key a record names if that key may sign at
the time of the record (`ActiveAt`). Times are compared as moments in UTC; a time that has no moment
in the supported years raises an `OverflowError`, everything else a `TrustRegistryError`.
-/

namespace Sentinel

open Py Lib

structure TrustKey where
  keyId : PyStr
  alg : PyStr
  publicKey : PyStr
  role : PyStr
  status : PyStr
  notBefore : Option PyStr
  notAfter : Option PyStr
  deriving DecidableEq

/-- The keys, each under its `key_id`. -/
abbrev TrustRegistry := Filed TrustKey.keyId

namespace TrustRegistry

def trustRegistryError (message : PyStr) : PyExc := .raised (.derived "TrustRegistryError") message

/-- `except TrustRegistryError`. -/
def isTrustRegistryError (e : PyExc) : Bool := e.cls = .derived "TrustRegistryError"

def parseRfc3339Utc (value : PyStr) : Except PyExc Instant := do
  let parsed ← tryExcept (fromisoformat (replaceZulu value)) ExcClass.isValueError
    fun _ => .error (trustRegistryError (lit "invalid RFC3339 timestamp: " ++ value))
  match parsed.offset with
  | none => .error (trustRegistryError (lit "timestamp must include timezone: " ++ value))
  | some offset => astimezoneUtc parsed.wall offset value

def resolveActiveKey (registry : TrustRegistry) (keyId alg : PyStr) : Except PyExc TrustKey :=
  match registry.find? keyId with
  | none => .error (trustRegistryError (lit "unknown key_id: " ++ keyId))
  | some key =>
    if key.alg ≠ alg then
      .error (trustRegistryError (lit "algorithm mismatch for " ++ keyId ++ lit ": expected " ++
        key.alg ++ lit ", got " ++ alg))
    else if key.status ≠ lit "active" then
      .error (trustRegistryError (lit "key_id " ++ keyId ++ lit " is not active: " ++ key.status))
    else .ok key

/-- One end of a key's validity, if it is given. -/
def checkBound (bound : Option PyStr) (permits : Instant → Prop) [DecidablePred permits]
    (message : PyStr → PyStr) : Except PyExc Unit :=
  match bound with
  | none => .ok ()
  | some text => do
    let limit ← parseRfc3339Utc text
    if permits limit then .ok () else .error (trustRegistryError (message text))

def resolveActiveKeyAt (registry : TrustRegistry) (keyId alg issuedAt : PyStr) :
    Except PyExc TrustKey := do
  let key ← registry.resolveActiveKey keyId alg
  let issued ← parseRfc3339Utc issuedAt
  checkBound key.notBefore (fun notBefore => ¬issued < notBefore) fun text =>
    lit "key_id " ++ keyId ++ lit " is not valid before " ++ text ++ lit ": issued_at " ++ issuedAt
  checkBound key.notAfter (fun notAfter => ¬notAfter < issued) fun text =>
    lit "key_id " ++ keyId ++ lit " is not valid after " ++ text ++ lit ": issued_at " ++ issuedAt
  return key

/-! ## Times -/

theorem parseRfc3339Utc_eq_ok {text : PyStr} {t : Instant} :
    parseRfc3339Utc text = .ok t ↔ IsTimeOf text t := by
  unfold parseRfc3339Utc IsTimeOf
  cases hd : fromisoformat (replaceZulu text) with
  | error e =>
    rw [tryExcept_error, fromisoformat_error hd]
    exact iff_of_false (fun h => by cases h) fun ⟨_, _, h, _⟩ => by cases h
  | ok d =>
    rw [tryExcept_ok]
    simp only [bind, Except.bind, Except.ok.injEq, exists_and_left, exists_eq_left']
    cases ho : d.offset with
    | none => simp
    | some offset =>
      simp only [Option.some.injEq, exists_eq_left']
      exact astimezoneUtc_eq_ok

theorem parseRfc3339Utc_error {text : PyStr} {e : PyExc} (h : parseRfc3339Utc text = .error e) :
    isTrustRegistryError e = true ∨ LeavesYears text ∧ e = .std .overflowError (.astimezone text) := by
  unfold parseRfc3339Utc at h
  cases hd : fromisoformat (replaceZulu text) with
  | error e' =>
    rw [hd, tryExcept_error, fromisoformat_error hd] at h
    left
    rw [← Except.error.inj h]
    rfl
  | ok d =>
    rw [hd, tryExcept_ok] at h
    simp only [bind, Except.bind] at h
    cases ho : d.offset with
    | none =>
      rw [ho] at h
      left
      rw [← Except.error.inj h]
      rfl
    | some offset =>
      rw [ho] at h
      dsimp only at h
      refine .inr ⟨⟨d, offset, hd, ho, ?_⟩, astimezoneUtc_error h⟩
      cases ht : Instant.ofMicros? (d.wall.micros - offset) with
      | none => rfl
      | some t => rw [astimezoneUtc_ok ht] at h; cases h

/-- A timestamp outside the supported years raises an error the verifier does not expect. -/
theorem parseRfc3339Utc_leavesYears {text : PyStr} (h : LeavesYears text) :
    parseRfc3339Utc text = .error (.std .overflowError (.astimezone text)) := by
  obtain ⟨d, offset, hd, ho, hnone⟩ := h
  unfold parseRfc3339Utc
  rw [hd, tryExcept_ok]
  simp only [bind, Except.bind, ho]
  unfold astimezoneUtc
  rw [hnone]

/-! ## Keys -/

/-- The bound is not given, or it is a time the condition holds of. -/
def Permits (bound : Option PyStr) (permits : Instant → Prop) : Prop :=
  ∀ text, bound = some text → ∃ limit, IsTimeOf text limit ∧ permits limit

/-- The registry has an active key for the name and the algorithm. -/
structure Active (registry : TrustRegistry) (keyId alg : PyStr) (key : TrustKey) : Prop where
  registered : registry.find? keyId = some key
  sameAlg : key.alg = alg
  active : key.status = lit "active"

/-- The key may sign at the moment. -/
def ValidAt (key : TrustKey) (issued : Instant) : Prop :=
  Permits key.notBefore (fun notBefore => notBefore ≤ issued) ∧
    Permits key.notAfter (fun notAfter => issued ≤ notAfter)

/-- An active key that may sign at the time. -/
structure ActiveAt (registry : TrustRegistry) (keyId alg issuedAt : PyStr) (key : TrustKey) : Prop
    extends Active registry keyId alg key where
  window : ∃ issued, IsTimeOf issuedAt issued ∧ ValidAt key issued

theorem resolveActiveKey_eq_ok {registry : TrustRegistry} {keyId alg : PyStr} {key : TrustKey} :
    registry.resolveActiveKey keyId alg = .ok key ↔ Active registry keyId alg key := by
  unfold resolveActiveKey
  cases hfind : registry.find? keyId with
  | none =>
    refine iff_of_false (fun h => by cases h) fun h => ?_
    rw [h.registered] at hfind
    cases hfind
  | some found =>
    dsimp only
    constructor
    · intro h
      split_ifs at h with halg hstatus
      obtain rfl := Except.ok.inj h
      exact ⟨hfind, not_not.mp halg, not_not.mp hstatus⟩
    · intro h
      obtain rfl := Option.some.inj (hfind.symm.trans h.registered)
      rw [if_neg (not_not.mpr h.sameAlg), if_neg (not_not.mpr h.active)]

theorem resolveActiveKey_raises (registry : TrustRegistry) (keyId alg : PyStr) :
    Raises (registry.resolveActiveKey keyId alg) fun e => isTrustRegistryError e = true := by
  intro e h
  unfold resolveActiveKey at h
  cases hfind : registry.find? keyId with
  | none =>
    rw [hfind] at h
    rw [← Except.error.inj h]
    rfl
  | some found =>
    rw [hfind] at h
    dsimp only at h
    split_ifs at h <;> (rw [← Except.error.inj h]; rfl)

theorem checkBound_eq_ok {bound : Option PyStr} {permits : Instant → Prop} [DecidablePred permits]
    {message : PyStr → PyStr} {u : Unit} :
    checkBound bound permits message = .ok u ↔ Permits bound permits := by
  unfold checkBound Permits
  cases bound with
  | none => simp
  | some text =>
    simp only [bind_eq_ok, parseRfc3339Utc_eq_ok, Option.some.injEq, forall_eq']
    refine exists_congr fun limit => and_congr_right fun _ => ?_
    split_ifs with h <;> simp [h]

theorem checkBound_raises {bound : Option PyStr} {permits : Instant → Prop}
    [DecidablePred permits] {message : PyStr → PyStr}
    (htime : ∀ text, bound = some text → ¬LeavesYears text) :
    Raises (checkBound bound permits message) fun e => isTrustRegistryError e = true := by
  unfold checkBound
  cases bound with
  | none => exact raises_ok
  | some text =>
    refine raises_bind (fun e he => ?_) fun limit _ e he => ?_
    · exact (parseRfc3339Utc_error he).resolve_right fun h => htime text rfl h.1
    · split_ifs at he
      rw [← Except.error.inj he]
      rfl

/-- **A key resolves exactly when it is active at the time.** -/
theorem resolveActiveKeyAt_eq_ok {registry : TrustRegistry} {keyId alg issuedAt : PyStr}
    {key : TrustKey} :
    registry.resolveActiveKeyAt keyId alg issuedAt = .ok key ↔
      ActiveAt registry keyId alg issuedAt key := by
  unfold resolveActiveKeyAt
  simp only [bind_eq_ok, pure_eq_ok, resolveActiveKey_eq_ok, parseRfc3339Utc_eq_ok,
    checkBound_eq_ok, not_lt]
  constructor
  · rintro ⟨_, hactive, issued, hissued, -, hbefore, -, hafter, rfl⟩
    exact ⟨hactive, issued, hissued, hbefore, hafter⟩
  · rintro ⟨hactive, issued, hissued, hbefore, hafter⟩
    exact ⟨key, hactive, issued, hissued, (), hbefore, (), hafter, rfl⟩

theorem ActiveAt.unique {registry : TrustRegistry} {keyId alg issuedAt : PyStr}
    {key key' : TrustKey} (h : ActiveAt registry keyId alg issuedAt key)
    (h' : ActiveAt registry keyId alg issuedAt key') : key = key' :=
  Option.some.inj (h.registered.symm.trans h'.registered)

end TrustRegistry

end Sentinel
