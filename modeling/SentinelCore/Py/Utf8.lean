import SentinelCore.Py.Text
import Mathlib.Tactic.SplitIfs
import Mathlib.Tactic.Ring

/-!
# The UTF-8 codec

`str.encode("utf-8")` and `bytes.decode("utf-8")`. A lone surrogate has no encoding; an overlong
form, a truncated sequence, an encoded surrogate and a value past `0x10FFFF` are not decoded. The
two directions are inverse to each other, so encoding is injective.
-/

namespace Py

/-- Surrogates, which UTF-8 does not encode. -/
def isSurrogate (n : ℕ) : Bool := 0xD800 ≤ n && n < 0xE000

def byte (n : ℕ) : Byte := Fin.ofNat 256 n

def point (n : ℕ) : CodePoint := Fin.ofNat 0x110000 n

theorem byte_val {n : ℕ} (h : n < 256) : (byte n).val = n := Nat.mod_eq_of_lt h

theorem point_val (c : CodePoint) : point c.val = c := Fin.ext (Nat.mod_eq_of_lt c.isLt)

/-- The last `k` bytes of a code point's encoding, six bits each. -/
def tailBytes : ℕ → ℕ → Bytes
  | 0, _ => []
  | k + 1, n => byte (0x80 + n / 64 ^ k % 64) :: tailBytes k n

/-- The bytes of a code point that is not a surrogate. -/
def utf8Bytes (c : CodePoint) : Bytes :=
  if c.val < 0x80 then [byte c.val]
  else if c.val < 0x800 then byte (0xC0 + c.val / 64) :: tailBytes 1 c.val
  else if c.val < 0x10000 then byte (0xE0 + c.val / 64 ^ 2) :: tailBytes 2 c.val
  else byte (0xF0 + c.val / 64 ^ 3) :: tailBytes 3 c.val

/-- Whether a text has a UTF-8 encoding. -/
def isEncodable (s : PyStr) : Bool := s.all fun c => !isSurrogate c.val

/-- `s.encode("utf-8")`. -/
def encodeUtf8 (s : PyStr) : Except PyExc Bytes :=
  if isEncodable s then .ok (s.flatMap utf8Bytes)
  else .error (.std .unicodeEncodeError (.encodeUtf8 s))

/-- Whether a multi-byte sequence may spell `n`: not overlong, in range and not a surrogate. -/
def isSpelled (low n : ℕ) : Bool := low ≤ n && n < 0x110000 && !isSurrogate n

/-- The code points a byte string spells. `need` continuation bytes are owed to a code point whose
leading bits are `acc` and which must be at least `low`. -/
def utf8Points : Bytes → (need acc low : ℕ) → Option PyStr
  | [], 0, _, _ => some []
  | [], _ + 1, _, _ => none
  | b :: rest, 0, _, _ =>
    if b.val < 0x80 then (utf8Points rest 0 0 0).map (point b.val :: ·)
    else if b.val < 0xC0 then none
    else if b.val < 0xE0 then utf8Points rest 1 (b.val - 0xC0) 0x80
    else if b.val < 0xF0 then utf8Points rest 2 (b.val - 0xE0) 0x800
    else utf8Points rest 3 (b.val - 0xF0) 0x10000
  | b :: rest, 1, acc, low =>
    if 0x80 ≤ b.val ∧ b.val < 0xC0 then
      if isSpelled low (acc * 64 + (b.val - 0x80)) then
        (utf8Points rest 0 0 0).map (point (acc * 64 + (b.val - 0x80)) :: ·)
      else none
    else none
  | b :: rest, k + 2, acc, low =>
    if 0x80 ≤ b.val ∧ b.val < 0xC0 then
      utf8Points rest (k + 1) (acc * 64 + (b.val - 0x80)) low
    else none

/-- `data.decode("utf-8")`. -/
def decodeUtf8 (data : Bytes) : Except PyExc PyStr :=
  match utf8Points data 0 0 0 with
  | some s => .ok s
  | none => .error (.std .unicodeDecodeError (.decodeUtf8 data))

/-! ## Decoding undoes encoding -/

theorem tail_val (n k : ℕ) : (byte (0x80 + n / 64 ^ k % 64)).val = 0x80 + n / 64 ^ k % 64 :=
  byte_val (by omega)

/-- Shifting the next six bits in. -/
theorem shift_in (n k : ℕ) :
    n / 64 ^ (k + 1) * 64 + (0x80 + n / 64 ^ k % 64 - 0x80) = n / 64 ^ k := by
  have h : n / 64 ^ (k + 1) = n / 64 ^ k / 64 := by rw [pow_succ, Nat.div_div_eq_div_mul]
  omega

theorem utf8Points_tailBytes (n low : ℕ) (rest : Bytes) (h : isSpelled low n = true) :
    ∀ k, utf8Points (tailBytes (k + 1) n ++ rest) (k + 1) (n / 64 ^ (k + 1)) low =
      (utf8Points rest 0 0 0).map (point n :: ·) := by
  intro k
  induction k with
  | zero =>
    have hs := shift_in n 0
    rw [tailBytes, tailBytes, List.cons_append, List.nil_append, utf8Points, tail_val, hs,
      if_pos (by omega), pow_zero, Nat.div_one, if_pos h]
  | succ k ih =>
    rw [tailBytes, List.cons_append, utf8Points, tail_val, shift_in, if_pos (by omega), ih]

theorem utf8Points_bytes_append (c : CodePoint) (hc : isSurrogate c.val = false) (rest : Bytes) :
    utf8Points (utf8Bytes c ++ rest) 0 0 0 = (utf8Points rest 0 0 0).map (c :: ·) := by
  have hlt := c.isLt
  have hsp : ∀ low, low ≤ c.val → isSpelled low c.val = true := by
    intro low hlow
    simp [isSpelled, hc, hlow, hlt]
  unfold utf8Bytes
  split_ifs with h1 h2 h3
  · rw [List.cons_append, List.nil_append, utf8Points, byte_val (by omega), if_pos h1, point_val]
  · rw [List.cons_append, utf8Points, byte_val (by omega), if_neg (by omega), if_neg (by omega),
      if_pos (by omega), Nat.add_sub_cancel_left]
    have := utf8Points_tailBytes c.val 0x80 rest (hsp _ (by omega)) 0
    rw [point_val] at this
    simpa using this
  · rw [List.cons_append, utf8Points, byte_val (by omega), if_neg (by omega), if_neg (by omega),
      if_neg (by omega), if_pos (by omega), Nat.add_sub_cancel_left]
    have := utf8Points_tailBytes c.val 0x800 rest (hsp _ (by omega)) 1
    rwa [point_val] at this
  · rw [List.cons_append, utf8Points, byte_val (by omega), if_neg (by omega), if_neg (by omega),
      if_neg (by omega), if_neg (by omega), Nat.add_sub_cancel_left]
    have := utf8Points_tailBytes c.val 0x10000 rest (hsp _ (by omega)) 2
    rwa [point_val] at this

theorem utf8Points_flatMap : ∀ s : PyStr, isEncodable s = true →
    utf8Points (s.flatMap utf8Bytes) 0 0 0 = some s := by
  intro s
  induction s with
  | nil => intro _; rfl
  | cons c s ih =>
    intro h
    have hcs : isSurrogate c.val = false ∧ isEncodable s = true := by
      simpa [isEncodable] using h
    rw [List.flatMap_cons, utf8Points_bytes_append c hcs.1, ih hcs.2]
    rfl

/-- **Decoding undoes encoding.** -/
theorem decodeUtf8_of_encodeUtf8 {s : PyStr} {data : Bytes} (h : encodeUtf8 s = .ok data) :
    decodeUtf8 data = .ok s := by
  unfold encodeUtf8 at h
  split at h
  · next hs =>
    obtain rfl := Except.ok.inj h
    unfold decodeUtf8
    rw [utf8Points_flatMap s hs]
  · cases h

theorem encodeUtf8_inj {s t : PyStr} {data : Bytes} (hs : encodeUtf8 s = .ok data)
    (ht : encodeUtf8 t = .ok data) : s = t :=
  Except.ok.inj ((decodeUtf8_of_encodeUtf8 hs).symm.trans (decodeUtf8_of_encodeUtf8 ht))

/-- An ASCII text has the same bytes in both codecs. -/
theorem encodeUtf8_of_encodeAscii {s : PyStr} {data : Bytes} (h : encodeAscii s = .ok data) :
    encodeUtf8 s = .ok data := by
  unfold encodeAscii at h
  split at h
  · next hs =>
    have hlt : ∀ c ∈ s, c.val < 0x80 := fun c hc => by simpa using List.all_eq_true.mp hs c hc
    have henc : isEncodable s = true := by
      refine List.all_eq_true.mpr fun c hc => ?_
      have := hlt c hc
      simp [isSurrogate]
      omega
    have hflat : s.flatMap utf8Bytes = s.map fun c => byte c.val := by
      rw [List.map_eq_flatMap]
      refine List.flatMap_congr fun c hc => ?_
      rw [utf8Bytes, if_pos (hlt c hc)]
    unfold encodeUtf8
    rw [if_pos henc, hflat]
    exact h
  · cases h

/-! ## Encoding undoes decoding -/

theorem byte_eq {b : Byte} {n : ℕ} (h : n = b.val) : byte n = b := by
  subst h; exact Fin.ext (Nat.mod_eq_of_lt b.isLt)

theorem map_cons_eq_some {o : Option PyStr} {c : CodePoint} {s : PyStr}
    (h : o.map (c :: ·) = some s) : ∃ t, o = some t ∧ s = c :: t := by
  cases o with
  | none => cases h
  | some t => exact ⟨t, rfl, (Option.some.inj h).symm⟩

theorem isEncodable_cons {low : ℕ} {c : CodePoint} {t : PyStr}
    (hc : isSpelled low c.val = true) (ht : isEncodable t = true) :
    isEncodable (c :: t) = true := by
  simp only [isSpelled, Bool.and_eq_true] at hc
  rw [isEncodable, List.all_cons, ← isEncodable, ht, hc.2]; rfl

/-- What a decoded byte string is: the encoding of the text when no byte is owed, and otherwise
the rest of the encoding of the text's first code point, then the encoding of the others. -/
theorem utf8Points_sound : ∀ (data : Bytes) (need acc low : ℕ) (s : PyStr),
    utf8Points data need acc low = some s →
      match need with
      | 0 => isEncodable s = true ∧ s.flatMap utf8Bytes = data
      | k + 1 => ∃ c t, s = c :: t ∧ isEncodable t = true ∧ isSpelled low c.val = true ∧
          c.val / 64 ^ (k + 1) = acc ∧ tailBytes (k + 1) c.val ++ t.flatMap utf8Bytes = data := by
  intro data
  induction data with
  | nil =>
    intro need acc low s h
    cases need with
    | zero => cases h; exact ⟨rfl, rfl⟩
    | succ k => cases k <;> cases h
  | cons b rest ih =>
    intro need acc low s h
    match need with
    | 0 =>
      rw [utf8Points] at h
      split_ifs at h with h1 h2 h3 h4
      · obtain ⟨t, ht, rfl⟩ := map_cons_eq_some h
        obtain ⟨hte, hts⟩ := ih _ _ _ _ ht
        have hp : (point b.val).val = b.val := Nat.mod_eq_of_lt (by omega)
        refine ⟨?_, ?_⟩
        · rw [isEncodable, List.all_cons, ← isEncodable, hte, hp]
          simp [isSurrogate]; omega
        · rw [List.flatMap_cons, hts, utf8Bytes, hp, if_pos h1, byte_eq rfl]; rfl
      all_goals
        obtain ⟨c, t, rfl, hte, hsp, hacc, hdata⟩ := ih _ _ _ _ h
        have hlow := hsp
        simp only [isSpelled, Bool.and_eq_true, decide_eq_true_eq] at hlow
        simp only [Nat.reduceAdd, Nat.reducePow] at hacc
        refine ⟨isEncodable_cons hsp hte, ?_⟩
        rw [List.flatMap_cons, utf8Bytes]
      · have hb : byte (0xC0 + c.val / 64) = b := byte_eq (by omega)
        rw [if_neg (by omega), if_pos (by omega), List.cons_append, hdata, hb]
      · have hb : byte (0xE0 + c.val / 64 ^ 2) = b := byte_eq (by omega)
        rw [if_neg (by omega), if_neg (by omega), if_pos (by omega), List.cons_append, hdata, hb]
      · have hb : byte (0xF0 + c.val / 64 ^ 3) = b := byte_eq (by omega)
        rw [if_neg (by omega), if_neg (by omega), if_neg (by omega), List.cons_append, hdata, hb]
    | 1 =>
      rw [utf8Points] at h
      split_ifs at h with h1 h2
      obtain ⟨t, ht, rfl⟩ := map_cons_eq_some h
      obtain ⟨hte, hts⟩ := ih _ _ _ _ ht
      have hn : (point (acc * 64 + (b.val - 0x80))).val = acc * 64 + (b.val - 0x80) := by
        simp only [isSpelled, Bool.and_eq_true, decide_eq_true_eq] at h2
        exact Nat.mod_eq_of_lt h2.1.2
      refine ⟨_, t, rfl, hte, ?_, ?_, ?_⟩
      · rw [hn]; exact h2
      · rw [hn, Nat.zero_add, pow_one]; omega
      · have hb : byte (0x80 + (acc * 64 + (b.val - 0x80)) % 64) = b := byte_eq (by omega)
        rw [hn, tailBytes, tailBytes, hts, pow_zero, Nat.div_one, hb]; rfl
    | k + 2 =>
      rw [utf8Points] at h
      split_ifs at h with h1
      obtain ⟨c, t, rfl, hte, hsp, hacc, hdata⟩ := ih _ _ _ _ h
      have hdiv : c.val / 64 ^ (k + 1 + 1) = c.val / 64 ^ (k + 1) / 64 := by
        rw [pow_succ 64 (k + 1), Nat.div_div_eq_div_mul]
      refine ⟨c, t, rfl, hte, hsp, by omega, ?_⟩
      have hb : byte (0x80 + (acc * 64 + (b.val - 0x80)) % 64) = b := byte_eq (by omega)
      rw [tailBytes, hacc, hb, List.cons_append, hdata]

/-- **Encoding undoes decoding.** -/
theorem encodeUtf8_of_decodeUtf8 {data : Bytes} {s : PyStr} (h : decodeUtf8 data = .ok s) :
    encodeUtf8 s = .ok data := by
  unfold decodeUtf8 at h
  split at h
  · next t ht =>
    obtain rfl := Except.ok.inj h
    obtain ⟨he, hd⟩ := utf8Points_sound data 0 0 0 t ht
    rw [encodeUtf8, if_pos he, hd]
  · cases h

end Py
