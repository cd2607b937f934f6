import SentinelCore.Receipt

/-!
# One signature entry

What the body of the signature loop accepts (`accepts_verifySignature`) and where it crashes
(`crashes_verifySignature`), read off its steps one by one. `ValidSignature` is the rule for an
entry, in the terms of the receipt format.
-/

namespace Sentinel.Receipt

open Py Lib

section Steps

variable {env : Env} {e : PyExc}

theorem asDict_eq_ok {v : Json} {d : Dict} : v.asDict = .ok d ↔ v = d.toJson := by
  unfold Json.asDict
  rw [← Json.toDict?_eq_some]
  cases v.toDict? <;> simp

theorem asDict_toJson (d : Dict) : d.toJson.asDict = .ok d := asDict_eq_ok.mpr rfl

theorem accepts_trustKeyOf {registry trustKey : Dict} {kid : PyStr} :
    (trustKeyOf registry kid).Accepts trustKey ↔ registry.get kid = trustKey.toJson := by
  unfold trustKeyOf
  split
  · next h =>
    rw [h]
    refine ⟨fun h' => absurd h' Check.not_accepts_throw, fun h' => ?_⟩
    cases h'
  · rw [Check.accepts_ofExcept, asDict_eq_ok]

/-- Only a string bounds the validity of a key; it has to be a time on the right side. -/
def Permits (bound : Json) (permits : Instant → Prop) : Prop :=
  ∀ text, bound = .str text → ∃ limit, parseRfc3339Utc text = .ok limit ∧ permits limit

theorem accepts_checkBound {bound : Json} {permits : Instant → Prop} [DecidablePred permits]
    {issue : ReceiptVerificationIssue} {u : Unit} :
    (checkBound env bound permits issue).Accepts u ↔ Permits bound permits := by
  unfold checkBound Permits
  split
  · next text =>
    simp only [Check.accepts_bind, Check.accepts_attempt, Check.accepts_require]
    constructor
    · rintro ⟨limit, h⟩ text' ⟨⟩
      exact ⟨limit, h⟩
    · intro h
      exact h text rfl
  · next hstr =>
    rw [Check.accepts_pure]
    exact ⟨fun _ text h => absurd h (hstr text), fun _ => rfl⟩

/-- A key may sign at a moment. -/
def WindowPermits (trustKey : Dict) (createdAt : Instant) : Prop :=
  Permits (trustKey.get (lit "not_before")) (fun notBefore => ¬createdAt < notBefore) ∧
    Permits (trustKey.get (lit "not_after")) (fun notAfter => ¬notAfter < createdAt)

theorem accepts_checkWindow {trustKey : Dict} {kid : PyStr} {createdAt : Option Instant} {u : Unit} :
    (checkWindow env trustKey kid createdAt).Accepts u ↔
      ∀ t, createdAt = some t → WindowPermits trustKey t := by
  cases createdAt with
  | none => simp [checkWindow]
  | some t =>
    simp only [checkWindow, Check.accepts_bind, accepts_checkBound, WindowPermits,
      Option.some.injEq, forall_eq']
    exact ⟨fun ⟨_, h⟩ => h, fun h => ⟨(), h⟩⟩

theorem signatureMetadata_eq_some {signature : Dict} {kid signerRole : PyStr} :
    signatureMetadata signature = some (kid, signerRole) ↔
      signature.get (lit "kid") = .str kid ∧ signature.get (lit "signer_role") = .str signerRole ∧
        signature.get (lit "alg") = .str (lit "ES256") := by
  unfold signatureMetadata
  split
  · next kid' role' hk hr =>
    rw [hk, hr]
    split_ifs with ha <;> simp [ha]
  · next h =>
    refine ⟨fun h' => (by cases h'), fun ⟨hk, hr, _⟩ => ?_⟩
    exact absurd hr (h kid signerRole hk)

theorem signatureParts_eq_some {signature : Dict} {protectedText payload value : PyStr} :
    signatureParts signature = some (protectedText, payload, value) ↔
      (signature.get (lit "protected") = .str protectedText ∧ protectedText ≠ []) ∧
      (signature.get (lit "payload") = .str payload ∧ payload ≠ []) ∧
      signature.get (lit "signature") = .str value ∧ value ≠ [] := by
  unfold signatureParts
  simp only [Option.bind_eq_bind, Option.bind_eq_some_iff, Json.nonEmptyStr?_eq_some, Option.pure_def,
    Option.some.injEq, Prod.mk.injEq]
  constructor
  · rintro ⟨a, ha, b, hb, c, hc, rfl, rfl, rfl⟩
    exact ⟨ha, hb, hc⟩
  · rintro ⟨ha, hb, hc⟩
    exact ⟨_, ha, _, hb, _, hc, rfl, rfl, rfl⟩

end Steps

/-! ## The rule for an entry -/

variable (env : Env)

/-- The signature verifies against the JWK of the trust key. -/
def Es256Verifies (trustKey : Dict) (protectedText payload value : PyStr) : Prop :=
  ∃ jwk, trustKey.get? (lit "jwk") = some jwk ∧
    verifyEs256JwsSignature env jwk (signingInput protectedText payload) value = .ok true

/-- The protected header is an object that names the algorithm and the key. -/
def HeaderNames (protectedText kid : PyStr) : Prop :=
  ∃ header : Dict, protectedHeader env protectedText = .ok header.toJson ∧
    header.get (lit "alg") = .str (lit "ES256") ∧ header.get (lit "kid") = .str kid

/-- The entry `signature` names the active key `trustKey`, registered as `kid` for `signerRole`. -/
structure Registered (trustRegistry signature trustKey : Dict) (kid signerRole : PyStr) : Prop where
  kid_eq : signature.get (lit "kid") = .str kid
  signerRole_eq : signature.get (lit "signer_role") = .str signerRole
  alg_eq : signature.get (lit "alg") = .str (lit "ES256")
  known : trustRegistry.get kid = trustKey.toJson
  active : trustKey.get (lit "status") = .str (lit "active")
  keyAlg : trustKey.get (lit "alg") = .str (lit "ES256")
  role : trustKey.get (lit "role") = .str signerRole

/-- The entry carries a signature of `payload` by the registered key that it names. -/
structure SignedBy (trustRegistry : Dict) (payload : PyStr) (signature trustKey : Dict)
    (kid signerRole : PyStr) : Prop
    extends Registered trustRegistry signature trustKey kid signerRole where
  payload_eq : signature.get (lit "payload") = .str payload
  verifies : ∃ protectedText value, signature.get (lit "protected") = .str protectedText ∧
    signature.get (lit "signature") = .str value ∧ HeaderNames env protectedText kid ∧
      Es256Verifies env trustKey protectedText payload value

/-- The entry is a valid signature of `payload` at the moment `createdAt`. -/
structure ValidSignature (trustRegistry : Dict) (createdAt : Instant) (payload : PyStr)
    (signature trustKey : Dict) (kid signerRole : PyStr) : Prop
    extends SignedBy env trustRegistry payload signature trustKey kid signerRole where
  window : WindowPermits trustKey createdAt

variable {env}

theorem protectedHeader_ne_nil {protectedText : PyStr} {v : Json}
    (h : protectedHeader env protectedText = .ok v) : protectedText ≠ [] := by
  rintro rfl
  cases h

theorem es256_value_ne_nil {jwk : Json} {input value : PyStr}
    (h : verifyEs256JwsSignature env jwk input value = .ok true) : value ≠ [] := by
  rintro rfl
  unfold verifyEs256JwsSignature at h
  obtain ⟨d, -, h⟩ := bind_eq_ok.mp h
  obtain ⟨p, -, h⟩ := bind_eq_ok.mp h
  obtain ⟨raw, hraw, h⟩ := bind_eq_ok.mp h
  obtain ⟨rs, hrs, -⟩ := bind_eq_ok.mp h
  obtain rfl := Except.ok.inj hraw
  cases hrs

theorem getItem_eq_ok {d : Dict} {key : PyStr} {v : Json} :
    d.getItem key = .ok v ↔ d.get? key = some v := by
  unfold Dict.getItem
  cases d.get? key <;> simp

/-- The loop body accepts the entries signed by a key whose bounds, if the moment is known, permit
it. -/
theorem accepts_signedBy {registry : Dict} {createdAt : Option Instant} {payload : PyStr}
    (hpayload : payload ≠ []) {entry : Json} {kid signerRole : PyStr} :
    (verifySignature env registry createdAt payload entry).Accepts (kid, signerRole) ↔
      ∃ signature trustKey : Dict, entry = signature.toJson ∧
        SignedBy env registry payload signature trustKey kid signerRole ∧
        ∀ t, createdAt = some t → WindowPermits trustKey t := by
  unfold verifySignature
  simp only [Check.accepts_bind, Check.accepts_ofOption, Check.accepts_require,
    Check.accepts_attempt, Check.accepts_pure, accepts_trustKeyOf, accepts_checkWindow,
    Json.toDict?_eq_some, Prod.exists, Prod.mk.injEq, exists_const, signatureMetadata_eq_some,
    signatureParts_eq_some, bind_eq_ok, getItem_eq_ok]
  constructor
  · rintro ⟨signature, rfl, kid', role', ⟨hk, hr, ha⟩, trustKey, hknown, hactive, halg, hrole, hwin,
      protectedText, payload', value, ⟨⟨hp, -⟩, ⟨hpl, -⟩, hv, -⟩, header, hheader, hdict, rfl,
      hhalg, hhkid, rfl, isValid, hver, rfl, rfl, rfl⟩
    exact ⟨signature, trustKey, rfl, ⟨⟨hk, hr, ha, hknown, hactive, halg, hrole⟩, hpl,
      protectedText, value, hp, hv, ⟨hdict, hheader, hhalg, hhkid⟩, hver⟩, hwin⟩
  · rintro ⟨signature, trustKey, rfl, ⟨⟨hk, hr, ha, hknown, hactive, halg, hrole⟩, hpl,
      protectedText, value, hp, hv, ⟨header, hheader, hhalg, hhkid⟩, jwk, hjwk, hver⟩, hwin⟩
    exact ⟨signature, rfl, kid, signerRole, ⟨hk, hr, ha⟩, trustKey, hknown, hactive, halg, hrole,
      hwin, protectedText, payload, value,
      ⟨⟨hp, protectedHeader_ne_nil hheader⟩, ⟨hpl, hpayload⟩, hv, es256_value_ne_nil hver⟩,
      header.toJson, hheader, header, rfl, hhalg, hhkid, rfl, true, ⟨jwk, hjwk, hver⟩, rfl, rfl, rfl⟩

/-- **The loop body accepts exactly the valid entries.** -/
theorem accepts_verifySignature {registry : Dict} {createdAt : Instant} {payload : PyStr}
    (hpayload : payload ≠ []) {entry : Json} {kid signerRole : PyStr} :
    (verifySignature env registry (some createdAt) payload entry).Accepts (kid, signerRole) ↔
      ∃ signature trustKey : Dict, entry = signature.toJson ∧
        ValidSignature env registry createdAt payload signature trustKey kid signerRole := by
  rw [accepts_signedBy hpayload]
  refine exists_congr fun signature => exists_congr fun trustKey => and_congr_right fun _ => ?_
  constructor
  · rintro ⟨hsigned, hwin⟩
    exact ⟨hsigned, hwin createdAt rfl⟩
  · rintro ⟨hsigned, hwin⟩
    refine ⟨hsigned, ?_⟩
    rintro t ⟨⟩
    exact hwin

/-- The three texts of an entry are non-empty strings. -/
def HasParts (signature : Dict) (protectedText payload value : PyStr) : Prop :=
  (signature.get (lit "protected") = .str protectedText ∧ protectedText ≠ []) ∧
    (signature.get (lit "payload") = .str payload ∧ payload ≠ []) ∧
    signature.get (lit "signature") = .str value ∧ value ≠ []

end Sentinel.Receipt
