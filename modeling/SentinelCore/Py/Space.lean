import SentinelCore.Py.Text
import Mathlib.Data.List.DropRight

/-!
# White space

`str.isspace` and what rests on it: `str.strip`, `str.split` without arguments, and `\s` in a regular
expression for text.
-/

namespace Py

/-- The white space of `str.isspace` and of `\s`. -/
def isSpace (c : CodePoint) : Bool :=
  (0x09 ≤ c.val && c.val ≤ 0x0D) || (0x1C ≤ c.val && c.val ≤ 0x20) || c.val = 0x85 || c.val = 0xA0 ||
    c.val = 0x1680 || (0x2000 ≤ c.val && c.val ≤ 0x200A) || c.val = 0x2028 || c.val = 0x2029 ||
    c.val = 0x202F || c.val = 0x205F || c.val = 0x3000

/-- `s.rstrip()`. -/
def rstrip (s : PyStr) : PyStr := s.rdropWhile isSpace

theorem length_rstrip_le (s : PyStr) : (rstrip s).length ≤ s.length :=
  (List.rdropWhile_prefix isSpace s).length_le

/-- What ends in white space is stripped of it. -/
theorem rstrip_append_spaces {t : PyStr} (ht : t.all isSpace = true) (s : PyStr) :
    rstrip (s ++ t) = rstrip s := by
  unfold rstrip List.rdropWhile
  rw [List.reverse_append, List.dropWhile_append_of_pos]
  intro c hc
  exact List.all_eq_true.mp ht c (List.mem_reverse.mp hc)

/-- What is behind another character is stripped alone. -/
theorem rstrip_append_cons {c : CodePoint} (hc : isSpace c = false) (a b : PyStr) :
    rstrip (a ++ c :: b) = a ++ c :: rstrip b := by
  have hnot : ¬isSpace c = true := by
    rw [hc]
    exact Bool.false_ne_true
  unfold rstrip
  induction b using List.reverseRecOn with
  | nil => exact List.rdropWhile_concat_neg isSpace a c hnot
  | append_singleton b x ih =>
    rw [← List.cons_append, ← List.append_assoc]
    by_cases hx : isSpace x = true
    · rw [List.rdropWhile_concat_pos isSpace _ x hx, ih, List.rdropWhile_concat_pos isSpace _ x hx]
    · rw [List.rdropWhile_concat_neg isSpace _ x hx, List.rdropWhile_concat_neg isSpace _ x hx,
        List.append_assoc, List.cons_append]

/-- What ends in another character stays. -/
theorem rstrip_of_getLast? {s : PyStr} (h : s.getLast?.any (fun c => !isSpace c) = true) :
    rstrip s = s := by
  refine List.rdropWhile_eq_self_iff.mpr fun hne => ?_
  rw [List.getLast?_eq_some_getLast hne, Option.any_some] at h
  simpa using h

/-- A text is what is left of it, and white space. -/
theorem exists_rstrip (s : PyStr) : ∃ t, s = rstrip s ++ t ∧ t.all isSpace = true :=
  ⟨s.rtakeWhile isSpace, List.rdropWhile_append_rtakeWhile.symm,
    List.all_eq_true.mpr fun _ => List.mem_rtakeWhile_imp⟩

/-- White space in front is dropped, up to another character. -/
theorem dropWhile_spaces {t s : PyStr} (ht : t.all isSpace = true)
    (hs : s.head?.any (fun c => !isSpace c) = true) : (t ++ s).dropWhile isSpace = s := by
  rw [List.dropWhile_append_of_pos (List.all_eq_true.mp ht)]
  cases s with
  | nil => cases hs
  | cons c s => exact List.dropWhile_cons_of_neg (by simpa using hs)

/-- `s.strip()`. -/
def strip (s : PyStr) : PyStr := rstrip (s.dropWhile isSpace)

/-- `s.split()`: the words, after what was read of the word at hand. -/
def splitWords : PyStr → PyStr → List PyStr
  | [], word => if word = [] then [] else [word]
  | c :: s, word =>
    if isSpace c then if word = [] then splitWords s [] else word :: splitWords s []
    else splitWords s (word ++ [c])

end Py
