import SentinelCore.Hashchain

/-!
# Signatures of evidence records

`sentinel_core/crypto.py`. The signature of a record is an Ed25519 signature over its canonical text
with the signature value blanked (`EddsaVerifies`).
-/

namespace Sentinel

open Py Lib

def cryptoVerificationError (message : PyStr) : PyExc :=
  .raised (.derived "CryptoVerificationError") message

/-- `except CryptoVerificationError`. -/
def isCryptoVerificationError (e : PyExc) : Bool := e.cls = .derived "CryptoVerificationError"

def decodeUrlsafe (value : PyStr) : Except PyExc Bytes := do
  let data ← encodeAscii (addPad value)
  urlsafeB64decode data

/-- `except (InvalidSignature, ValueError, TypeError)`. -/
def isVerificationFailure (cls : ExcClass) : Bool :=
  cls = .invalidSignature || cls.isValueError || cls = .typeError

variable (env : Env)

/-- The body of the `try` block. -/
def verifyBytes (record : Dict) (value publicKey : PyStr) : Except PyExc Unit := do
  let keyData ← decodeUrlsafe publicKey
  let key ← env.fromPublicBytes keyData
  let link ← computeChainLink env record
  let payload ← encodeUtf8 link.canonicalJson
  let signature ← decodeUrlsafe value
  if env.ed25519Verify key signature payload then .ok ()
  else .error (.raised .invalidSignature [])

def verifyEddsaRecord (record : Dict) (publicKey : PyStr) : Except PyExc Unit :=
  match (record.get (lit "signature")).toDict? with
  | none => .error (cryptoVerificationError (lit "missing signature object"))
  | some sig =>
    if sig.get (lit "alg") ≠ .str (lit "EdDSA") then
      .error (cryptoVerificationError (lit "unsupported signature algorithm"))
    else
      match (sig.get (lit "value")).nonEmptyStr? with
      | none => .error (cryptoVerificationError (lit "missing signature value"))
      | some value =>
        tryExcept (verifyBytes env record value publicKey) isVerificationFailure
          fun _ => .error (cryptoVerificationError (lit "signature verification failed"))

/-! ## Verified signatures -/

/-- The public key verifies `value` over the canonical text of the record. -/
def Ed25519Verifies (record : Dict) (value publicKey : PyStr) : Prop :=
  ∃ key signature payload link, decodeUrlsafe publicKey = .ok key ∧ key.length = 32 ∧
    computeChainLink env record = .ok link ∧ encodeUtf8 link.canonicalJson = .ok payload ∧
    decodeUrlsafe value = .ok signature ∧ env.ed25519Verify key signature payload = true

/-- The record carries an EdDSA signature the key verifies. -/
def EddsaVerifies (record : Dict) (publicKey : PyStr) : Prop :=
  ∃ (sig : Dict) (value : PyStr), record.get (lit "signature") = sig.toJson ∧
    sig.get (lit "alg") = .str (lit "EdDSA") ∧ sig.get (lit "value") = .str value ∧ value ≠ [] ∧
    Ed25519Verifies env record value publicKey

variable {env}

theorem verifyBytes_eq_ok {record : Dict} {value publicKey : PyStr} :
    verifyBytes env record value publicKey = .ok () ↔
      Ed25519Verifies env record value publicKey := by
  unfold verifyBytes Ed25519Verifies
  simp only [bind_eq_ok]
  constructor
  · rintro ⟨data, hdata, key, hkey, link, hlink, payload, hpayload, signature, hsig, h⟩
    obtain ⟨hlen, rfl⟩ := env.fromPublicBytes_ok.mp hkey
    split_ifs at h with hverify
    exact ⟨key, signature, payload, link, hdata, hlen, hlink, hpayload, hsig, hverify⟩
  · rintro ⟨key, signature, payload, link, hkey, hlen, hlink, hpayload, hsig, hverify⟩
    exact ⟨key, hkey, key, env.fromPublicBytes_ok.mpr ⟨hlen, rfl⟩, link, hlink, payload, hpayload,
      signature, hsig, if_pos hverify⟩

/-- The parts of the record's signature object that are verified. -/
theorem verifyEddsaRecord_of_parts {record sig : Dict} {value publicKey : PyStr}
    (hsig : record.get (lit "signature") = sig.toJson)
    (halg : sig.get (lit "alg") = .str (lit "EdDSA"))
    (hvalue : (sig.get (lit "value")).nonEmptyStr? = some value) :
    verifyEddsaRecord env record publicKey =
      tryExcept (verifyBytes env record value publicKey) isVerificationFailure
        fun _ => .error (cryptoVerificationError (lit "signature verification failed")) := by
  unfold verifyEddsaRecord
  rw [hsig, Dict.toDict?_toJson]
  dsimp only
  rw [if_neg (not_not.mpr halg), hvalue]

/-- A signature object without these parts is refused. -/
theorem verifyEddsaRecord_cases (env : Env) (record : Dict) (publicKey : PyStr) :
    (∃ (sig : Dict) (value : PyStr), record.get (lit "signature") = sig.toJson ∧
      sig.get (lit "alg") = .str (lit "EdDSA") ∧
      (sig.get (lit "value")).nonEmptyStr? = some value) ∨
    ∃ message, verifyEddsaRecord env record publicKey = .error (cryptoVerificationError message) := by
  unfold verifyEddsaRecord
  cases hsig : (record.get (lit "signature")).toDict? with
  | none => exact .inr ⟨_, rfl⟩
  | some sig =>
    dsimp only
    by_cases halg : sig.get (lit "alg") = .str (lit "EdDSA")
    · cases hvalue : (sig.get (lit "value")).nonEmptyStr? with
      | none => exact .inr ⟨_, if_neg (not_not.mpr halg)⟩
      | some value => exact .inl ⟨sig, value, Json.toDict?_eq_some.mp hsig, halg, hvalue⟩
    · exact .inr ⟨_, if_pos halg⟩

/-- **The signature of a record is accepted exactly when the key verifies it.** -/
theorem verifyEddsaRecord_eq_ok {record : Dict} {publicKey : PyStr} :
    verifyEddsaRecord env record publicKey = .ok () ↔ EddsaVerifies env record publicKey := by
  constructor
  · intro h
    rcases verifyEddsaRecord_cases env record publicKey with
      ⟨sig, value, hsig, halg, hvalue⟩ | ⟨message, hmessage⟩
    · rw [verifyEddsaRecord_of_parts hsig halg hvalue, tryExcept_eq_ok, verifyBytes_eq_ok] at h
      obtain ⟨hstr, hne⟩ := Json.nonEmptyStr?_eq_some.mp hvalue
      exact ⟨sig, value, hsig, halg, hstr, hne, h⟩
    · rw [hmessage] at h
      cases h
  · rintro ⟨sig, value, hsig, halg, hstr, hne, h⟩
    rw [verifyEddsaRecord_of_parts hsig halg (Json.nonEmptyStr?_eq_some.mpr ⟨hstr, hne⟩),
      tryExcept_eq_ok, verifyBytes_eq_ok]
    exact h

/-! ## Failures -/

theorem decodeUrlsafe_raises (value : PyStr) :
    Raises (decodeUrlsafe value) fun e => e.cls.isValueError = true :=
  raises_bind (encodeAscii_raises _) fun _ _ => a2bBase64_raises _ _

/-- The record has a signature to verify and the key can be read, but the record nests too deep for its
chain link to be written. -/
def ChainTooDeep (env : Env) (record : Dict) (publicKey : PyStr) : Prop :=
  (∃ (sig : Dict) (value : PyStr), record.get (lit "signature") = sig.toJson ∧
    sig.get (lit "alg") = .str (lit "EdDSA") ∧ sig.get (lit "value") = .str value ∧ value ≠ []) ∧
  (∃ data, decodeUrlsafe publicKey = .ok data ∧ data.length = 32) ∧
  env.maxDumpDepth < (unsignedRecord record).toJson.depth

theorem isVerificationFailure_of_isValueError {cls : ExcClass} (h : cls.isValueError = true) :
    isVerificationFailure cls = true := by
  unfold isVerificationFailure
  rw [h, Bool.or_true, Bool.true_or]

/-- Nothing else escapes from the `try` block. -/
theorem verifyBytes_escapes_iff {record : Dict} {publicKey : PyStr}
    (hints : record.toJson.intsPrintable = true) (value : PyStr) :
    (∃ e, verifyBytes env record value publicKey = .error e ∧ isVerificationFailure e.cls = false) ↔
      (∃ data, decodeUrlsafe publicKey = .ok data ∧ data.length = 32) ∧
        env.maxDumpDepth < (unsignedRecord record).toJson.depth := by
  constructor
  · rintro ⟨e, h, huncaught⟩
    have hnot : ¬e.cls.isValueError = true := fun hvalue => by
      rw [isVerificationFailure_of_isValueError hvalue] at huncaught
      cases huncaught
    unfold verifyBytes at h
    rcases bind_eq_error.mp h with h | ⟨data, hdata, h⟩
    · exact absurd (decodeUrlsafe_raises _ e h) hnot
    rcases bind_eq_error.mp h with h | ⟨key, hkey, h⟩
    · rw [env.fromPublicBytes_raises h] at huncaught
      cases huncaught
    refine ⟨⟨data, hdata, (env.fromPublicBytes_ok.mp hkey).1⟩, ?_⟩
    rcases bind_eq_error.mp h with h | ⟨link, -, h⟩
    · exact ((computeChainLink_error hints h).resolve_left hnot).2
    rcases bind_eq_error.mp h with h | ⟨payload, -, h⟩
    · exact absurd (encodeUtf8_raises _ e h) hnot
    rcases bind_eq_error.mp h with h | ⟨signature, -, h⟩
    · exact absurd (decodeUrlsafe_raises _ e h) hnot
    split_ifs at h
    obtain rfl := Except.error.inj h
    cases huncaught
  · rintro ⟨⟨data, hdata, hlength⟩, hdeep⟩
    refine ⟨.std .recursionError .jsonDumps, ?_, rfl⟩
    have hkey : env.fromPublicBytes data = .ok data := env.fromPublicBytes_ok.mpr ⟨hlength, rfl⟩
    unfold verifyBytes
    rw [hdata]
    refine bind_eq_error.mpr (.inr ⟨data, rfl, bind_eq_error.mpr (.inr ⟨data, hkey, ?_⟩)⟩)
    exact bind_eq_error.mpr (.inl (computeChainLink_tooDeep hdeep))

/-- A record whose integers can be printed is refused with nothing else, unless it nests too deep. -/
theorem verifyEddsaRecord_escapes_iff {record : Dict} {publicKey : PyStr}
    (hints : record.toJson.intsPrintable = true) :
    (∃ e, verifyEddsaRecord env record publicKey = .error e ∧ isCryptoVerificationError e = false) ↔
      ChainTooDeep env record publicKey := by
  constructor
  · rintro ⟨e, h, huncaught⟩
    rcases verifyEddsaRecord_cases env record publicKey with
      ⟨sig, value, hsig, halg, hvalue⟩ | ⟨message, hmessage⟩
    · rw [verifyEddsaRecord_of_parts hsig halg hvalue] at h
      obtain ⟨hstr, hne⟩ := Json.nonEmptyStr?_eq_some.mp hvalue
      refine ⟨⟨sig, value, hsig, halg, hstr, hne⟩, (verifyBytes_escapes_iff hints value).mp ?_⟩
      cases hb : verifyBytes env record value publicKey with
      | ok u => rw [hb] at h; cases h
      | error e' =>
        refine ⟨e', rfl, eq_false_of_ne_true fun hcaught => ?_⟩
        rw [hb, tryExcept_error, if_pos hcaught] at h
        obtain rfl := Except.error.inj h
        cases huncaught
    · obtain rfl := Except.error.inj (hmessage.symm.trans h)
      cases huncaught
  · rintro ⟨⟨sig, value, hsig, halg, hstr, hne⟩, hkey, hdeep⟩
    obtain ⟨e, hb, huncaught⟩ := (verifyBytes_escapes_iff hints value).mpr ⟨hkey, hdeep⟩
    rw [verifyEddsaRecord_of_parts hsig halg (Json.nonEmptyStr?_eq_some.mpr ⟨hstr, hne⟩), hb,
      tryExcept_error, huncaught]
    refine ⟨e, if_neg Bool.false_ne_true, decide_eq_false fun hcls => ?_⟩
    rw [hcls] at huncaught
    cases huncaught

end Sentinel
