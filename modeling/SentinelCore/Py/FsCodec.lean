import SentinelCore.Py.JsonTokens

/-!
# File names as texts

`os.fsdecode` and `os.fsencode` on a system with UTF-8: a byte that is no part of a UTF-8 sequence stands in a
text as a lone low surrogate (`surrogateescape`). Every byte string is kept (`fsencode_fsdecode`), so distinct
names have distinct texts, and no text of a name has two surrogates that a JSON reader would join
(`fsdecode_separable`).
-/

namespace Py

/-- The code point a byte string starts with, and the bytes after it. -/
def headPoint? (data : Bytes) : Option (CodePoint × Bytes) :=
  [1, 2, 3, 4].findSome? fun k =>
    match utf8Points (data.take k) 0 0 0 with
    | some [c] => some (c, data.drop k)
    | _ => none

/-- The surrogate that stands for a byte. -/
def escapedByte (b : Byte) : CodePoint := point (0xDC00 + b.val)

/-- The text of at most `fuel` characters. -/
def fsdecodeFrom : ℕ → Bytes → PyStr
  | 0, _ => []
  | _ + 1, [] => []
  | fuel + 1, b :: rest =>
    match headPoint? (b :: rest) with
    | some (c, after) => c :: fsdecodeFrom fuel after
    | none => escapedByte b :: fsdecodeFrom fuel rest

/-- `os.fsdecode(data)`. -/
def fsdecode (data : Bytes) : PyStr := fsdecodeFrom data.length data

/-- The bytes of a character in a file name. -/
def fsencodeChar (c : CodePoint) : Option Bytes :=
  if 0xDC80 ≤ c.val ∧ c.val ≤ 0xDCFF then some [byte (c.val - 0xDC00)]
  else if isSurrogate c.val then none
  else some (utf8Bytes c)

/-- `os.fsencode(text)`, if there is a name with that text. -/
def fsencode : PyStr → Option Bytes
  | [] => some []
  | c :: s => do
    let data ← fsencodeChar c
    let rest ← fsencode s
    return data ++ rest

/-! ## Characters -/

/-- A character of a name: one that UTF-8 encodes, or the surrogate of a byte. -/
def IsNameChar (c : CodePoint) : Prop := isSurrogate c.val = false ∨ ∃ b : Byte, 0x80 ≤ b.val ∧ c = escapedByte b

theorem escapedByte_val (b : Byte) : (escapedByte b).val = 0xDC00 + b.val :=
  Nat.mod_eq_of_lt (by have := b.isLt; omega)

theorem fsencodeChar_escaped {b : Byte} (h : 0x80 ≤ b.val) : fsencodeChar (escapedByte b) = some [b] := by
  have hb := b.isLt
  have hval := escapedByte_val b
  unfold fsencodeChar
  rw [if_pos (by omega), hval, Nat.add_sub_cancel_left]
  exact congrArg (fun x => some [x]) (Fin.ext (byte_val hb))

theorem fsencodeChar_point {c : CodePoint} (h : isSurrogate c.val = false) :
    fsencodeChar c = some (utf8Bytes c) := by
  have hnot : ¬(0xDC80 ≤ c.val ∧ c.val ≤ 0xDCFF) := by
    simp only [isSurrogate, Bool.and_eq_false_iff, decide_eq_false_iff_not] at h
    omega
  unfold fsencodeChar
  rw [if_neg hnot, h]
  rfl

/-! ## Decoding -/

/-- The code point is encoded by the bytes that are taken for it. -/
theorem headPoint?_eq_some {data after : Bytes} {c : CodePoint} (h : headPoint? data = some (c, after)) :
    isSurrogate c.val = false ∧ data = utf8Bytes c ++ after ∧ after.length < data.length := by
  unfold headPoint? at h
  obtain ⟨k, hk, hpoints⟩ := List.exists_of_findSome?_eq_some h
  split at hpoints
  · next c' htake =>
    obtain ⟨rfl, rfl⟩ := Prod.mk.inj (Option.some.inj hpoints)
    have hdecode : decodeUtf8 (data.take k) = .ok [c'] := by
      unfold decodeUtf8
      rw [htake]
    have hencode := encodeUtf8_of_decodeUtf8 hdecode
    unfold encodeUtf8 at hencode
    split_ifs at hencode with hencodable
    have hbytes : utf8Bytes c' = data.take k := by
      simpa using Except.ok.inj hencode
    refine ⟨by simpa [isEncodable] using hencodable, by rw [hbytes, List.take_append_drop], ?_⟩
    have hpos : 0 < k := by
      simp only [List.mem_cons, List.not_mem_nil, or_false] at hk
      omega
    have hdata : data ≠ [] := by
      rintro rfl
      rw [List.take_nil] at htake
      cases htake
    rw [List.length_drop]
    have := List.length_pos_iff.mpr hdata
    omega
  · cases hpoints

/-- Only a byte outside of ASCII starts no code point. -/
theorem le_of_headPoint?_eq_none {b : Byte} {rest : Bytes} (h : headPoint? (b :: rest) = none) : 0x80 ≤ b.val := by
  by_contra hlt
  have hpoints : utf8Points ((b :: rest).take 1) 0 0 0 = some [point b.val] := by
    rw [List.take_succ_cons, List.take_zero, utf8Points, if_pos (by omega)]
    rfl
  unfold headPoint? at h
  rw [List.findSome?_cons, hpoints] at h
  cases h

/-- What is decoded are characters of names, and they are encoded by the bytes. -/
theorem fsdecodeFrom_spec {fuel : ℕ} {data : Bytes} (h : data.length ≤ fuel) :
    fsencode (fsdecodeFrom fuel data) = some data ∧ ∀ c ∈ fsdecodeFrom fuel data, IsNameChar c := by
  induction fuel generalizing data with
  | zero =>
    obtain rfl := List.length_eq_zero_iff.mp (Nat.le_zero.mp h)
    exact ⟨rfl, fun c hc => by cases hc⟩
  | succ fuel ih =>
    cases data with
    | nil => exact ⟨rfl, fun c hc => by cases hc⟩
    | cons b rest =>
      rw [fsdecodeFrom]
      cases hhead : headPoint? (b :: rest) with
      | none =>
        have hfuel : rest.length ≤ fuel := Nat.le_of_succ_le_succ h
        obtain ⟨hencode, hchars⟩ := ih hfuel
        have hb := le_of_headPoint?_eq_none hhead
        refine ⟨?_, List.forall_mem_cons.mpr ⟨.inr ⟨b, hb, rfl⟩, hchars⟩⟩
        rw [fsencode, fsencodeChar_escaped hb, hencode]
        rfl
      | some p =>
        obtain ⟨c, after⟩ := p
        obtain ⟨hc, hdata, hlen⟩ := headPoint?_eq_some hhead
        have hfuel : after.length ≤ fuel := by omega
        obtain ⟨hencode, hchars⟩ := ih hfuel
        refine ⟨?_, List.forall_mem_cons.mpr ⟨.inl hc, hchars⟩⟩
        rw [fsencode, fsencodeChar_point hc, hencode, hdata]
        rfl

/-- **Every file name is kept.** -/
theorem fsencode_fsdecode (data : Bytes) : fsencode (fsdecode data) = some data := (fsdecodeFrom_spec le_rfl).1

theorem fsdecode_injective : Function.Injective fsdecode := by
  intro a b h
  have ha := fsencode_fsdecode a
  rw [h, fsencode_fsdecode b] at ha
  exact (Option.some.inj ha).symm

/-- There is no high surrogate in the text of a name. -/
theorem IsNameChar.not_high {c : CodePoint} (h : IsNameChar c) : isHighSurrogate c.val = false := by
  unfold isHighSurrogate
  rw [Bool.and_eq_false_iff, decide_eq_false_iff_not, decide_eq_false_iff_not]
  rcases h with h | ⟨b, hb, rfl⟩
  · simp only [isSurrogate, Bool.and_eq_false_iff, decide_eq_false_iff_not] at h
    omega
  · rw [escapedByte_val]
    omega

theorem fsdecode_separable (f : JsonFormat) (data : Bytes) : f.Separable (fsdecode data) := by
  have hnone : ∀ s : PyStr, (∀ c ∈ s, IsNameChar c) → hasSurrogatePair s = false := by
    intro s h
    induction s with
    | nil => rfl
    | cons c s ih =>
      cases s with
      | nil => rfl
      | cons d s =>
        rw [hasSurrogatePair, (h c List.mem_cons_self).not_high, Bool.false_and, Bool.false_or]
        exact ih fun e he => h e (List.mem_cons_of_mem _ he)
  exact fun _ => hnone _ (fsdecodeFrom_spec le_rfl).2

end Py
