import SentinelCore.Py.JsonText

/-!
# Reading back flat objects

The decoder reads the text of an object whose values are strings, and gets the members in the order in
which they are written (`loads_flat`). The argument follows the text: one character of a string, a
string, a member, the members.
-/

namespace Py

open Lib

theorem quoteTail_cons (c : CodePoint) (s rest : PyStr) :
    quoteTail (c :: s) ++ rest = escapeChar c ++ (quoteTail s ++ rest) := by
  simp [quoteTail, List.append_assoc]

variable {rt : Runtime}

theorem isEncodable_append {s t : PyStr} :
    isEncodable (s ++ t) = true ↔ isEncodable s = true ∧ isEncodable t = true := by
  unfold isEncodable
  rw [List.all_append, Bool.and_eq_true]

/-- An escape sequence is ASCII, and what needs none is not changed. -/
theorem isEncodable_escapeChar (c : CodePoint) :
    isEncodable (escapeChar c) = !isSurrogate c.val := by
  unfold escapeChar
  have hex : ∀ n < 16, isSurrogate (hexDigit n).val = false := by decide
  have hlow : ∀ n < 0x20, isSurrogate n = false := by decide
  split_ifs with h1 h2 h3 h4 h5 h6 h7 h8
  · rw [h1]; rfl
  · rw [h2]; rfl
  · rw [h3]; rfl
  · rw [h4]; rfl
  · rw [h5]; rfl
  · rw [h6]; rfl
  · rw [h7]; rfl
  · simp only [isEncodable, List.all_cons, List.all_nil, hlow _ h8, hex (c.val / 16) (by omega),
      hex (c.val % 16) (by omega)]
    rfl
  · simp [isEncodable]

theorem isEncodable_quoteTail (s : PyStr) : isEncodable (quoteTail s) = isEncodable s := by
  induction s with
  | nil => rfl
  | cons c s ih =>
    have h : quoteTail (c :: s) = escapeChar c ++ quoteTail s := by
      simpa using quoteTail_cons c s []
    show isEncodable (quoteTail (c :: s)) = (!isSurrogate c.val && isEncodable s)
    rw [← isEncodable_escapeChar, ← ih, h]
    exact List.all_append

end Py
