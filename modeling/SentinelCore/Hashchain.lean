import SentinelCore.Py.JsonText
import SentinelCore.Py.JsonSchema
import SentinelCore.Lib.Check
import SentinelCore.Lib.Sha256

/-!
# Hash chain

`sentinel_core/hashchain.py`, and what the program takes from outside: the interpreter, SHA-256 and
the packages for elliptic curves and JSON Schema. The digest of a record is that of its canonical
text with the signature value blanked.
-/

namespace Sentinel

open Py Lib

/-- A SHA-256 digest. -/
abbrev Digest := { d : Bytes // d.length = 32 }

/-- What the program runs on. `onCurveP256` decides whether two coordinates are a point of P-256,
`ecdsaVerify x y r s message` and `ed25519Verify key signature message` are the verdicts of
`public_key.verify`, and `fromPublicBytes` is `Ed25519PublicKey.from_public_bytes`, which takes 32 bytes.
`iterErrors` is `validator.iter_errors` of `jsonschema`: a value has no errors exactly when it conforms.
The messages of the errors show the values with `repr`, and what cannot be shown raises. -/
structure Env extends Runtime where
  sha256 : Bytes → Digest
  onCurveP256 : ℕ → ℕ → Bool
  ecdsaVerify : (x y r s : ℕ) → (message : Bytes) → Bool
  fromPublicBytes : Bytes → Except PyExc Bytes
  fromPublicBytes_ok : ∀ {data key}, fromPublicBytes data = .ok key ↔ data.length = 32 ∧ key = data
  fromPublicBytes_raises : ∀ {data e}, fromPublicBytes data = .error e → e.cls = .valueError
  ed25519Verify : (key signature message : Bytes) → Bool
  iterErrors : Schema → Json → Except PyExc (List SchemaError)
  iterErrors_ok_nil : ∀ {schema v}, iterErrors schema v = .ok [] ↔ schema.Valid v
  iterErrors_returns : ∀ schema {v}, v.depth ≤ maxReprDepth → v.intsPrintable = true →
    ∃ errors, iterErrors schema v = .ok errors
  iterErrors_raises : ∀ {schema v e}, iterErrors schema v = .error e → ∀ name, e.cls ≠ .derived name

/-! ## A sample environment -/

/-- The field and the constant of the curve P-256, `y² = x³ - 3x + b`. -/
def p256Prime : ℕ := 0xffffffff00000001000000000000000000000000ffffffffffffffffffffffff

def p256Constant : ℕ := 0x5ac635d8aa3a93e7b3ebbd55769886bc651d06b0cc53b0f63bce3c3e27d2604b

def isP256Point (x y : ℕ) : Bool :=
  x < p256Prime && y < p256Prime &&
    y * y % p256Prime = (x * x * x + (p256Prime - 3) * x + p256Constant) % p256Prime

def sampleDigest (data : Bytes) : Digest :=
  ⟨(Sha256.digest (data.map Fin.val)).map byte, by rw [List.length_map, Sha256.length_digest]⟩

/-- The ES256 signatures of the samples: a point, two numbers and the digest of the message. -/
def sampleEs256 : List (ℕ × ℕ × ℕ × ℕ × ℕ) := [
  (0x3405434d58311ac775ffd8afb789ed57cedae47d6306e1f086b607b53979b0e8,
    0x11990b2c4b98c7098c22bb80bc33cdbe868f6c713eb697de56c55647545dc62a,
    0x4f6139f308518100af7e76a197f88d9e90a9f57f1530747158c4d4aa3351c3f3,
    0x69de265db5473694e1b24120935a4ceafd0f744d9ad98009142209d8109f8697,
    0x5547bbe9aea76a46de09c92aac4700ed3e8b784f83e15d1ab4e310729451c12a),
  (0x92198dffecf53d1fd32eb26df221e6dc2e551d3bd2f314771ded6f28fb0d5054,
    0x007b90a359786afedb6dc8f7bf203932e8ab3fbf2b632491d4f3f15e6b6b5b87,
    0x7b9e80424abbf0014203f3a71f008694aaffc78a302381a511a524dcd72cfc16,
    0x78dacaf2870328caae8920d6a439bb827fbff1ef6c0af3569507ac6920abfbea,
    0x61145d9a92be6e1b97ab2a80931039e858404b160bffdedb472882a0433ba871),
  (0x5ad3dc0f65ee2122b0e76025ea8d61c2835a4c53d4f32b09786995803a9f6575,
    0xb4918816e9616d922e50bd52c4506652b445952b796c70faadaaf5bafb5856b6,
    0x3a4fdc8239b28d0f4a16e5aef55aa2814bc3427a088ace23023206d26df12310,
    0x148d7c427bcd166c023c22b6dce9708e282c2e97c45ee8df7cffd13a80350168,
    0x61dff071d04dac334263753fd20128213bbcc72b279e1144430e0db326be5649)]

/-- The EdDSA signatures of the samples: a key, a signature and the digest of the message. -/
def sampleEddsa : List (ℕ × ℕ × ℕ) := [
  (0xe5c3e6156ad8a7804a21c9e15a417701ea8e42ca62888850fb32d82dd46bbdec,
    0x732770b79a13e6dd3757167527da3851dfae5b57c27de035dd270f37529f339ed8f396626df58b4a7e4aae8578230a86b71e94a02a32d49d9595fbafa83e3106,
    0xa7be001b547e36d37b46992c056577ca18d3148ea671017756a042bb240b67a1)]

def samplePublicBytes (data : Bytes) : Except PyExc Bytes :=
  if data.length = 32 then .ok data else .error (.std .valueError (.publicBytes data))

theorem samplePublicBytes_ok {data key : Bytes} :
    samplePublicBytes data = .ok key ↔ data.length = 32 ∧ key = data := by
  unfold samplePublicBytes
  split_ifs with h
  · rw [Except.ok.injEq, and_iff_right h, eq_comm]
  · exact iff_of_false (fun h' => by cases h') fun h' => h h'.1

theorem samplePublicBytes_raises {data : Bytes} {e : PyExc} (h : samplePublicBytes data = .error e) :
    e.cls = .valueError := by
  unfold samplePublicBytes at h
  split_ifs at h
  rw [← Except.error.inj h]
  rfl

/-- The errors of a value, in the environment to evaluate in. -/
def sampleErrors (schema : Schema) (v : Json) : Except PyExc (List SchemaError) :=
  .ok (schema.violations (fun _ _ => lit "...") v)

theorem sampleErrors_ok_nil {schema : Schema} {v : Json} :
    sampleErrors schema v = .ok [] ↔ schema.Valid v := by
  unfold sampleErrors
  rw [Except.ok.injEq, Schema.violations_eq_nil]

/-- An environment to evaluate in. SHA-256 and the curve are the real ones, and the signatures that
verify are those of the samples. -/
def demoEnv : Env where
  maxDepth := 994
  maxDumpDepth := 990
  two_le_maxDumpDepth := two_le_sampleDepth
  maxDumpDepth_le := sampleDepth_le
  maxReprDepth := 985
  maxCopyDepth := 495
  floatOfText := fun _ => ⟨lit "0.5", isFloatText_half⟩
  repr := fun _ => lit "..."
  excText := fun _ => lit "..."
  nfkc := id
  isIpv6 := fun _ => false
  sha256 := sampleDigest
  onCurveP256 := isP256Point
  ecdsaVerify := fun x y r s message =>
    sampleEs256.contains (x, y, r, s, natOfBytes (sampleDigest message).val)
  fromPublicBytes := samplePublicBytes
  fromPublicBytes_ok := samplePublicBytes_ok
  fromPublicBytes_raises := samplePublicBytes_raises
  ed25519Verify := fun key signature message =>
    sampleEddsa.contains (natOfBytes key, natOfBytes signature, natOfBytes (sampleDigest message).val)
  iterErrors := sampleErrors
  iterErrors_ok_nil := sampleErrors_ok_nil
  iterErrors_returns := fun _ _ _ _ => ⟨_, rfl⟩
  iterErrors_raises := fun h => by cases h

/-- The chain start, `"sha256:" + "0" * 64`. -/
def zeroHash : PyStr := lit "sha256:" ++ List.replicate 64 (chr '0')

structure ChainLink where
  canonicalJson : PyStr
  digest : PyStr
  deriving DecidableEq

/-- `hexdigest()`. -/
def hexText (data : Bytes) : PyStr := data.flatMap fun b => [hexDigit (b.val / 16), hexDigit (b.val % 16)]

variable (env : Env)

def canonicalizeJson (value : Json) : Except PyExc PyStr := env.dumps value

/-- `sha256_prefixed` of a text. -/
def sha256Prefixed (data : PyStr) : Except PyExc PyStr := do
  let bytes ← encodeUtf8 data
  return lit "sha256:" ++ hexText (env.sha256 bytes).val

/-- `{**signature, "value": ""}`. -/
def blankValue (signature : Dict) : Dict := signature.set (lit "value") (.str []) (by decide)

/-- The record with the value of its signature object blanked. -/
def unsignedRecord (record : Dict) : Dict :=
  match (record.get (lit "signature")).toDict? with
  | some signature =>
    record.set (lit "signature") (blankValue signature).toJson (blankValue signature).toJson_wellFormed
  | none => record

def computeChainLink (record : Dict) : Except PyExc ChainLink := do
  let canonical ← canonicalizeJson env (unsignedRecord record).toJson
  let digest ← sha256Prefixed env canonical
  return { canonicalJson := canonical, digest := digest }

/-! ## Digests -/

variable {env}

theorem sha256Prefixed_eq_ok {s t : PyStr} :
    sha256Prefixed env s = .ok t ↔
      ∃ data, encodeUtf8 s = .ok data ∧ lit "sha256:" ++ hexText (env.sha256 data).val = t := by
  unfold sha256Prefixed
  simp only [bind_eq_ok, pure_eq_ok]

theorem isAscii_hexText (data : Bytes) : isAscii (hexText data) = true := by
  unfold isAscii hexText
  rw [List.all_eq_true]
  intro c hc
  obtain ⟨b, -, hc⟩ := List.mem_flatMap.mp hc
  have key : ∀ n < 16, decide ((hexDigit n).val < 0x80) = true := by decide
  have hb := b.isLt
  rcases List.mem_cons.mp hc with rfl | hc
  · exact key _ (by omega)
  · rw [List.mem_singleton.mp hc]
    exact key _ (by omega)

theorem isAscii_sha256Prefixed {s t : PyStr} (h : sha256Prefixed env s = .ok t) :
    isAscii t = true := by
  obtain ⟨data, -, rfl⟩ := sha256Prefixed_eq_ok.mp h
  unfold isAscii
  rw [List.all_append, Bool.and_eq_true]
  exact ⟨by decide, isAscii_hexText _⟩

theorem computeChainLink_eq_ok {record : Dict} {link : ChainLink} :
    computeChainLink env record = .ok link ↔
      canonicalizeJson env (unsignedRecord record).toJson = .ok link.canonicalJson ∧
        sha256Prefixed env link.canonicalJson = .ok link.digest := by
  unfold computeChainLink
  simp only [bind_eq_ok, pure_eq_ok]
  constructor
  · rintro ⟨canonical, hc, digest, hd, rfl⟩
    exact ⟨hc, hd⟩
  · rintro ⟨hc, hd⟩
    exact ⟨_, hc, _, hd, rfl⟩

/-! ## Failures -/

/-- Blanking the signature value keeps a record within the limits. -/
theorem unsignedRecord_limits {record : Dict} {n : ℕ} (hdepth : record.toJson.depth ≤ n)
    (hints : record.toJson.intsPrintable = true) :
    (unsignedRecord record).toJson.depth ≤ n ∧ (unsignedRecord record).toJson.intsPrintable = true := by
  unfold unsignedRecord
  cases hsig : (record.get (lit "signature")).toDict? with
  | none => exact ⟨hdepth, hints⟩
  | some signature =>
    have hget : record.get (lit "signature") = signature.toJson := Json.toDict?_eq_some.mp hsig
    have hsigDepth : signature.toJson.depth < n := by
      rw [← hget]
      exact (record.depth_get_lt _).trans_le hdepth
    have hsigInts : signature.toJson.intsPrintable = true := by
      rw [← hget]
      exact Dict.get_intsPrintable hints _
    have hblank : (blankValue signature).toJson.depth + 1 ≤ n := by
      refine le_trans (Nat.succ_le_succ (Json.depth_setField le_rfl ?_)) hsigDepth
      rw [Json.depth]
      exact Nat.succ_le_succ (Nat.zero_le _)
    exact ⟨Json.depth_setField hdepth hblank,
      Json.intsPrintable_setField hints (Json.intsPrintable_setField hsigInts rfl)⟩

/-- A record that nests too deep has no chain link. -/
theorem computeChainLink_tooDeep {record : Dict}
    (h : env.maxDumpDepth < (unsignedRecord record).toJson.depth) :
    computeChainLink env record = .error (.std .recursionError .jsonDumps) := by
  unfold computeChainLink canonicalizeJson Runtime.dumps Runtime.checkLimits Runtime.limitsOf
  rw [if_pos h]
  rfl

/-- A record has a chain link, unless it has a lone surrogate or nests too deep to be written. -/
theorem computeChainLink_error {record : Dict} {e : PyExc} (hints : record.toJson.intsPrintable = true)
    (h : computeChainLink env record = .error e) :
    e.cls.isValueError = true ∨
      e.cls = .recursionError ∧ env.maxDumpDepth < (unsignedRecord record).toJson.depth := by
  by_cases hdeep : env.maxDumpDepth < (unsignedRecord record).toJson.depth
  · obtain rfl := Except.error.inj ((computeChainLink_tooDeep hdeep).symm.trans h)
    exact .inr ⟨rfl, hdeep⟩
  have hunsigned := (unsignedRecord_limits le_rfl hints).2
  rcases bind_eq_error.mp h with h | ⟨canonical, -, h⟩
  · cases ((Runtime.dumps_ok _).mpr ⟨(Runtime.checkLimits_ok _).mpr ⟨not_lt.mp hdeep, hunsigned⟩,
      rfl⟩).symm.trans h
  · have hdigest : Raises (sha256Prefixed env canonical) fun e => e.cls.isValueError = true :=
      raises_bind (encodeUtf8_raises _) fun _ _ => raises_ok
    exact .inl (raises_bind hdigest (fun _ _ => raises_ok) e h)

end Sentinel
