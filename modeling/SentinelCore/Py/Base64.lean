import SentinelCore.Py.Utf8
import SentinelCore.Lib.Check
import Mathlib.Data.List.DropRight

/-!
# base64

`binascii.a2b_base64` in both of its modes, as the loop of CPython 3.11 runs it, and the two decoders
and the encoder of the `base64` module built on it. The lenient mode skips every byte outside the
alphabet and stops at a completed padding; the strict mode (`validate=True`) refuses both.

`b64urlText data` is the unpadded URL-safe text of `data`. `b64urlText_decode` says that padding
it again and decoding it, in either mode, gives `data` back.
-/

namespace Py

/-- `=` -/
def padByte : Byte := 0x3D

/-- The byte of the standard alphabet for a six-bit value. -/
def sextetByte (v : ℕ) : Byte :=
  if v < 26 then byte (0x41 + v)
  else if v < 52 then byte (0x61 + (v - 26))
  else if v < 62 then byte (0x30 + (v - 52))
  else if v = 62 then 0x2B
  else 0x2F

/-- The six-bit value of a byte of the standard alphabet. -/
def sextet (b : Byte) : Option ℕ :=
  if 0x41 ≤ b.val ∧ b.val ≤ 0x5A then some (b.val - 0x41)
  else if 0x61 ≤ b.val ∧ b.val ≤ 0x7A then some (b.val - 0x61 + 26)
  else if 0x30 ≤ b.val ∧ b.val ≤ 0x39 then some (b.val - 0x30 + 52)
  else if b.val = 0x2B then some 62
  else if b.val = 0x2F then some 63
  else none

/-- `b64encode`, with padding. -/
def b2aBase64 : Bytes → Bytes
  | [] => []
  | [a] => [sextetByte (a.val / 4), sextetByte (a.val % 4 * 16), padByte, padByte]
  | [a, b] =>
    [sextetByte (a.val / 4), sextetByte (a.val % 4 * 16 + b.val / 16),
      sextetByte (b.val % 16 * 4), padByte]
  | a :: b :: c :: rest =>
    sextetByte (a.val / 4) :: sextetByte (a.val % 4 * 16 + b.val / 16) ::
      sextetByte (b.val % 16 * 4 + c.val / 64) :: sextetByte (c.val % 64) :: b2aBase64 rest

/-- The loop of `binascii.a2b_base64`. `quad` is the position in the current group of four, `left`
the bits of the group not written yet, `pads` the run of pad bytes just read and `padded` whether
a pad byte was read at all. -/
def a2bLoop (strict : Bool) : Bytes → (quad left pads : ℕ) → (padded : Bool) → Option Bytes
  | [], quad, _, _, _ => if quad = 0 then some [] else none
  | b :: rest, quad, left, pads, padded =>
    if b = padByte then
      if strict && quad = 0 then none
      else if 2 ≤ quad then
        if 4 ≤ quad + (pads + 1) then
          if strict && !rest.isEmpty then none else some []
        else a2bLoop strict rest quad left (pads + 1) true
      else a2bLoop strict rest quad left pads true
    else
      match sextet b with
      | none => if strict then none else a2bLoop strict rest quad left pads padded
      | some v =>
        if strict && padded then none
        else
          match quad with
          | 0 => a2bLoop strict rest 1 v 0 padded
          | 1 => (a2bLoop strict rest 2 (v % 16) 0 padded).map (byte (left * 4 + v / 16) :: ·)
          | 2 => (a2bLoop strict rest 3 (v % 4) 0 padded).map (byte (left * 16 + v / 4) :: ·)
          | _ => (a2bLoop strict rest 0 0 0 padded).map (byte (left * 64 + v) :: ·)

/-- `binascii.a2b_base64(data, strict_mode=strict)`. -/
def a2bBase64 (strict : Bool) (data : Bytes) : Except PyExc Bytes :=
  match a2bLoop strict data 0 0 0 false with
  | some out => .ok out
  | none => .error (.std .binasciiError (.a2bBase64 data))

/-- `-_` for `+/`. -/
def toUrlsafe (b : Byte) : Byte := if b = 0x2B then 0x2D else if b = 0x2F then 0x5F else b

/-- `+/` for `-_`; `+` and `/` themselves are kept. -/
def fromUrlsafe (b : Byte) : Byte := if b = 0x2D then 0x2B else if b = 0x5F then 0x2F else b

/-- `base64.urlsafe_b64encode`. -/
def urlsafeB64encode (data : Bytes) : Bytes := (b2aBase64 data).map toUrlsafe

/-- `base64.urlsafe_b64decode`. -/
def urlsafeB64decode (data : Bytes) : Except PyExc Bytes := a2bBase64 false (data.map fromUrlsafe)

/-- `base64.b64decode(data, altchars=b"-_", validate=True)`. -/
def urlsafeB64decodeStrict (data : Bytes) : Except PyExc Bytes :=
  a2bBase64 true (data.map fromUrlsafe)

/-- `text.rstrip("=")`. -/
def rstripPad (s : PyStr) : PyStr := s.rdropWhile (· = chr '=')

/-- `-n % 4` -/
def padCount (n : ℕ) : ℕ := (4 - n % 4) % 4

/-- `value + "=" * (-len(value) % 4)`. -/
def addPad (s : PyStr) : PyStr := s ++ List.replicate (padCount s.length) (chr '=')

/-- The unpadded URL-safe text of a byte string. -/
def b64urlText (data : Bytes) : PyStr := rstripPad (ofBytes (urlsafeB64encode data))

/-! ## Decoding undoes encoding -/

theorem sextet_sextetByte : ∀ v < 64, sextet (sextetByte v) = some v := by decide

theorem sextetByte_ne_pad : ∀ v < 64, sextetByte v ≠ padByte := by decide

theorem fromUrlsafe_toUrlsafe : ∀ v < 64,
    fromUrlsafe (toUrlsafe (sextetByte v)) = sextetByte v := by decide

theorem toUrlsafe_sextetByte_lt : ∀ v < 64, (toUrlsafe (sextetByte v)).val < 0x80 := by decide

theorem toUrlsafe_sextetByte_ne : ∀ v < 64, toUrlsafe (sextetByte v) ≠ padByte := by decide

/-- The encoding before the padding. -/
def b2aCore : Bytes → List ℕ
  | [] => []
  | [a] => [a.val / 4, a.val % 4 * 16]
  | [a, b] => [a.val / 4, a.val % 4 * 16 + b.val / 16, b.val % 16 * 4]
  | a :: b :: c :: rest =>
    a.val / 4 :: (a.val % 4 * 16 + b.val / 16) :: (b.val % 16 * 4 + c.val / 64) :: c.val % 64 ::
      b2aCore rest

theorem b2aCore_lt (data : Bytes) : ∀ v ∈ b2aCore data, v < 64 := by
  induction data using b2aCore.induct with
  | case1 => simp [b2aCore]
  | case2 a => simp [b2aCore]; omega
  | case3 a b => simp [b2aCore]; omega
  | case4 a b c rest ih =>
    simp only [b2aCore, List.mem_cons, forall_eq_or_imp]
    exact ⟨by omega, by omega, by omega, by omega, ih⟩

theorem b2aBase64_eq (data : Bytes) :
    b2aBase64 data = (b2aCore data).map sextetByte ++
      List.replicate (padCount (b2aCore data).length) padByte := by
  induction data using b2aCore.induct with
  | case1 => rfl
  | case2 a => rfl
  | case3 a b => rfl
  | case4 a b c rest ih =>
    have hp : padCount ((b2aCore rest).length + 1 + 1 + 1 + 1) =
        padCount (b2aCore rest).length := by unfold padCount; omega
    simp only [b2aCore, b2aBase64, List.map_cons, List.length_cons, hp, ih, List.cons_append]

section Groups

variable (strict : Bool) {v : ℕ} (hv : v < 64) (rest : Bytes) (left pads : ℕ)

include hv

theorem a2bLoop_zero : a2bLoop strict (sextetByte v :: rest) 0 left pads false =
    a2bLoop strict rest 1 v 0 false := by
  rw [a2bLoop, if_neg (sextetByte_ne_pad v hv), sextet_sextetByte v hv]
  simp only [Bool.and_false, Bool.false_eq_true, if_false]

theorem a2bLoop_one : a2bLoop strict (sextetByte v :: rest) 1 left pads false =
    (a2bLoop strict rest 2 (v % 16) 0 false).map (byte (left * 4 + v / 16) :: ·) := by
  rw [a2bLoop, if_neg (sextetByte_ne_pad v hv), sextet_sextetByte v hv]
  simp only [Bool.and_false, Bool.false_eq_true, if_false]

theorem a2bLoop_two : a2bLoop strict (sextetByte v :: rest) 2 left pads false =
    (a2bLoop strict rest 3 (v % 4) 0 false).map (byte (left * 16 + v / 4) :: ·) := by
  rw [a2bLoop, if_neg (sextetByte_ne_pad v hv), sextet_sextetByte v hv]
  simp only [Bool.and_false, Bool.false_eq_true, if_false]

theorem a2bLoop_three : a2bLoop strict (sextetByte v :: rest) 3 left pads false =
    (a2bLoop strict rest 0 0 0 false).map (byte (left * 64 + v) :: ·) := by
  rw [a2bLoop, if_neg (sextetByte_ne_pad v hv), sextet_sextetByte v hv]
  simp only [Bool.and_false, Bool.false_eq_true, if_false]

end Groups

theorem a2bLoop_b2aBase64 (strict : Bool) (data : Bytes) :
    ∀ pads, a2bLoop strict (b2aBase64 data) 0 0 pads false = some data := by
  induction data using b2aBase64.induct with
  | case1 => intro pads; rfl
  | case2 a =>
    intro pads
    have ha := a.isLt
    have ha' : byte (a.val / 4 * 4 + a.val % 4 * 16 / 16) = a := byte_eq (by omega)
    rw [b2aBase64, a2bLoop_zero strict (by omega), a2bLoop_one strict (by omega), ha']
    simp [a2bLoop]
  | case3 a b =>
    intro pads
    have ha := a.isLt
    have hb := b.isLt
    have ha' : byte (a.val / 4 * 4 + (a.val % 4 * 16 + b.val / 16) / 16) = a := byte_eq (by omega)
    have hb' : byte ((a.val % 4 * 16 + b.val / 16) % 16 * 16 + b.val % 16 * 4 / 4) = b :=
      byte_eq (by omega)
    rw [b2aBase64, a2bLoop_zero strict (by omega), a2bLoop_one strict (by omega),
      a2bLoop_two strict (by omega), ha', hb']
    simp [a2bLoop]
  | case4 a b c rest ih =>
    intro pads
    have ha := a.isLt
    have hb := b.isLt
    have hc := c.isLt
    have ha' : byte (a.val / 4 * 4 + (a.val % 4 * 16 + b.val / 16) / 16) = a := byte_eq (by omega)
    have hb' : byte ((a.val % 4 * 16 + b.val / 16) % 16 * 16 +
        (b.val % 16 * 4 + c.val / 64) / 4) = b := byte_eq (by omega)
    have hc' : byte ((b.val % 16 * 4 + c.val / 64) % 4 * 64 + c.val % 64) = c :=
      byte_eq (by omega)
    rw [b2aBase64, a2bLoop_zero strict (by omega), a2bLoop_one strict (by omega),
      a2bLoop_two strict (by omega), a2bLoop_three strict (by omega), ha', hb', hc', ih]
    rfl

theorem map_fromUrlsafe_encode (data : Bytes) :
    (urlsafeB64encode data).map fromUrlsafe = b2aBase64 data := by
  have hcore : ∀ l : List ℕ, (∀ v ∈ l, v < 64) →
      ((l.map sextetByte).map toUrlsafe).map fromUrlsafe = l.map sextetByte := by
    intro l hl
    rw [List.map_map, List.map_map]
    exact List.map_congr_left fun v hv => fromUrlsafe_toUrlsafe v (hl v hv)
  rw [urlsafeB64encode, b2aBase64_eq, List.map_append, List.map_append, hcore _ (b2aCore_lt data),
    List.map_replicate, List.map_replicate]
  rfl

/-- The text of the alphabet part of an encoding. -/
def coreText (data : Bytes) : PyStr := ofBytes ((b2aCore data).map fun v => toUrlsafe (sextetByte v))

theorem coreText_length (data : Bytes) : (coreText data).length = (b2aCore data).length := by
  simp [coreText, ofBytes]

theorem ofBytes_urlsafeB64encode (data : Bytes) :
    ofBytes (urlsafeB64encode data) =
      coreText data ++ List.replicate (padCount (b2aCore data).length) (chr '=') := by
  rw [urlsafeB64encode, b2aBase64_eq, List.map_append, List.map_map, ofBytes, List.map_append,
    List.map_replicate, List.map_replicate]
  rfl

theorem coreText_ne_pad (data : Bytes) : ∀ c ∈ coreText data, c ≠ chr '=' := by
  intro c hc
  simp only [coreText, ofBytes, List.map_map, List.mem_map] at hc
  obtain ⟨v, hv, rfl⟩ := hc
  intro h
  refine toUrlsafe_sextetByte_ne v (b2aCore_lt data v hv) (Fin.ext ?_)
  exact Fin.mk.inj h

theorem rstripPad_append (s : PyStr) (hs : ∀ c ∈ s, c ≠ chr '=') :
    ∀ n, rstripPad (s ++ List.replicate n (chr '=')) = s := by
  intro n
  induction n with
  | zero =>
    rw [List.replicate_zero, List.append_nil, rstripPad, List.rdropWhile_eq_self_iff]
    intro hne
    simpa using hs _ (List.getLast_mem hne)
  | succ n ih =>
    rw [List.replicate_succ', ← List.append_assoc, rstripPad,
      List.rdropWhile_concat, if_pos (by simp), ← rstripPad, ih]

theorem b64urlText_eq (data : Bytes) : b64urlText data = coreText data := by
  rw [b64urlText, ofBytes_urlsafeB64encode, rstripPad_append _ (coreText_ne_pad data)]

/-- Padding the text again gives the padded encoding back. -/
theorem addPad_b64urlText (data : Bytes) :
    addPad (b64urlText data) = ofBytes (urlsafeB64encode data) := by
  rw [b64urlText_eq, addPad, coreText_length, ofBytes_urlsafeB64encode]

theorem encodeAscii_ofBytes {data : Bytes} (h : ∀ b ∈ data, b.val < 0x80) :
    encodeAscii (ofBytes data) = .ok data := by
  have hall : isAscii (ofBytes data) = true := by
    simpa [isAscii, ofBytes] using h
  rw [encodeAscii, if_pos hall, ofBytes, List.map_map]
  congr 1
  conv_rhs => rw [← List.map_id data]
  exact List.map_congr_left fun b _ => Fin.ext (Nat.mod_eq_of_lt b.isLt)

theorem urlsafeB64encode_lt (data : Bytes) : ∀ b ∈ urlsafeB64encode data, b.val < 0x80 := by
  intro b hb
  rw [urlsafeB64encode, b2aBase64_eq, List.map_append, List.mem_append] at hb
  rcases hb with hb | hb
  · simp only [List.map_map, List.mem_map] at hb
    obtain ⟨v, hv, rfl⟩ := hb
    exact toUrlsafe_sextetByte_lt v (b2aCore_lt data v hv)
  · rw [List.map_replicate] at hb
    rw [List.eq_of_mem_replicate hb]
    decide

theorem encodeAscii_addPad (data : Bytes) :
    encodeAscii (addPad (b64urlText data)) = .ok (urlsafeB64encode data) := by
  rw [addPad_b64urlText, encodeAscii_ofBytes (urlsafeB64encode_lt data)]

/-- **Decoding undoes encoding**, in either mode. -/
theorem b64urlText_decode (strict : Bool) (data : Bytes) :
    a2bBase64 strict ((urlsafeB64encode data).map fromUrlsafe) = .ok data := by
  rw [map_fromUrlsafe_encode, a2bBase64, a2bLoop_b2aBase64]

theorem b64urlText_injective : Function.Injective b64urlText := by
  intro a b h
  have hab : urlsafeB64encode a = urlsafeB64encode b :=
    ofBytes_injective (by rw [← addPad_b64urlText, ← addPad_b64urlText, h])
  have := b64urlText_decode false a
  rw [hab, b64urlText_decode] at this
  exact (Except.ok.inj this).symm

/-! ## Failures -/

theorem encodeAscii_raises (s : PyStr) :
    Lib.Raises (encodeAscii s) fun e => e.cls.isValueError = true := by
  intro e h
  unfold encodeAscii at h
  split_ifs at h
  cases h
  rfl

theorem encodeUtf8_raises (s : PyStr) :
    Lib.Raises (encodeUtf8 s) fun e => e.cls.isValueError = true := by
  intro e h
  unfold encodeUtf8 at h
  split_ifs at h
  cases h
  rfl

theorem encodeUtf8_ok_iff {s : PyStr} : (∃ data, encodeUtf8 s = .ok data) ↔ isEncodable s = true := by
  unfold encodeUtf8
  split_ifs with h <;> simp [h]

theorem a2bBase64_raises (strict : Bool) (data : Bytes) :
    Lib.Raises (a2bBase64 strict data) fun e => e.cls.isValueError = true := by
  intro e h
  unfold a2bBase64 at h
  split at h <;> cases h
  rfl

end Py
