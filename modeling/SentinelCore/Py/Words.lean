import SentinelCore.Py.Space

/-!
# Words

`s.split()` gives the words of a text, and `" ".join(words)` puts one blank between two of them. A text
without white space that stands in joined words stands in one of the words (`exists_of_joinWords`), and
white space in them is the one blank between two words (`next_word`).
-/

namespace Py

/-- The pieces of a text have none of the characters it is cut at. -/
theorem of_mem_splitOnP {p : CodePoint → Bool} {s w : PyStr} (h : w ∈ s.splitOnP p) :
    ∀ c ∈ w, p c = false := by
  induction s generalizing w with
  | nil =>
    obtain rfl := List.mem_singleton.mp h
    exact fun c hc => absurd hc List.not_mem_nil
  | cons d s ih =>
    obtain ⟨first, rest, hsplit⟩ := List.exists_cons_of_ne_nil (List.splitOnP_ne_nil p s)
    rw [List.splitOnP_cons_eq_if_modifyHead, hsplit] at h
    rw [hsplit] at ih
    split_ifs at h with hd
    · rcases List.mem_cons.mp h with rfl | h
      · exact fun c hc => absurd hc List.not_mem_nil
      · exact ih h
    · rcases List.mem_cons.mp h with rfl | h
      · intro c hc
        rcases List.mem_cons.mp hc with rfl | hc
        · exact Bool.eq_false_of_not_eq_true hd
        · exact ih List.mem_cons_self c hc
      · exact ih (List.mem_cons_of_mem _ h)

/-- `s.split()` cuts a text at its white space and keeps what is not empty. -/
theorem splitWords_eq (s w : PyStr) :
    splitWords s w = ((s.splitOnP isSpace).modifyHead (w ++ ·)).filter (· ≠ []) := by
  induction s generalizing w with
  | nil =>
    rw [splitWords, List.splitOnP_nil, List.modifyHead_cons, List.append_nil]
    by_cases hw : w = []
    · rw [if_pos hw, hw]
      rfl
    · rw [if_neg hw]
      show [w] = [w].filter _
      simp [hw]
  | cons c s ih =>
    have hrest : splitWords s [] = (s.splitOnP isSpace).filter (· ≠ []) := by
      rw [ih []]
      cases s.splitOnP isSpace with
      | nil => rfl
      | cons first rest => rfl
    rw [splitWords, List.splitOnP_cons_eq_if_modifyHead]
    by_cases hc : isSpace c = true
    · rw [if_pos hc, if_pos hc, hrest, List.modifyHead_cons, List.append_nil]
      by_cases hw : w = []
      · rw [if_pos hw, hw, List.filter_cons_of_neg (by simp)]
      · rw [if_neg hw]
        exact (List.filter_cons_of_pos (by simpa using hw)).symm
    · rw [if_neg hc, if_neg hc, ih]
      cases s.splitOnP isSpace with
      | nil => rfl
      | cons first rest => simp only [List.modifyHead_cons, List.append_assoc, List.singleton_append]

/-- A text of one character or more, none of them white space. -/
def isSolid (w : PyStr) : Bool := w ≠ [] && w.all fun c => !isSpace c

theorem isSolid_iff {w : PyStr} : isSolid w = true ↔ w ≠ [] ∧ ∀ c ∈ w, isSpace c = false := by
  simp [isSolid]

/-- `" ".join(ws)`. -/
def joinWords (ws : List PyStr) : PyStr := (lit " ").intercalate ws

/-- What the words add behind another word. -/
def wordsBehind (ws : List PyStr) : PyStr := ws.flatMap fun w => chr ' ' :: w

/-- What the words add in front of another word. -/
def wordsBefore (ws : List PyStr) : PyStr := ws.flatMap fun w => w ++ [chr ' ']

theorem joinWords_cons (w : PyStr) (ws : List PyStr) : joinWords (w :: ws) = w ++ wordsBehind ws := by
  induction ws generalizing w with
  | nil => exact List.intercalate_singleton.trans (List.append_nil w).symm
  | cons v ws ih =>
    have hstep : joinWords (w :: v :: ws) = w ++ lit " " ++ joinWords (v :: ws) :=
      List.intercalate_cons_cons
    rw [hstep, ih, List.append_assoc]
    rfl

theorem joinWords_append (front : List PyStr) (w : PyStr) (back : List PyStr) :
    joinWords (front ++ w :: back) = wordsBefore front ++ (w ++ wordsBehind back) := by
  induction front with
  | nil => exact joinWords_cons w back
  | cons v front ih =>
    have hfront : wordsBefore (v :: front) = v ++ chr ' ' :: wordsBefore front := by
      show v ++ [chr ' '] ++ wordsBefore front = _
      rw [List.append_assoc, List.singleton_append]
    rw [List.cons_append, joinWords_cons, hfront, List.append_assoc, List.cons_append, ← ih]
    cases front with
    | nil => rw [List.nil_append, joinWords_cons]; rfl
    | cons v' front => rw [List.cons_append, joinWords_cons]; rfl

/-- A text without white space at the beginning stands in the first word. -/
theorem first_word {w t b : PyStr} {back : List PyStr} (ht : ∀ c ∈ t, isSpace c = false)
    (h : w ++ wordsBehind back = t ++ b) : ∃ y, w = t ++ y ∧ b = y ++ wordsBehind back := by
  rcases List.append_eq_append_iff.mp h with ⟨d, rfl, hd⟩ | ⟨y, rfl, hb⟩
  · cases d with
    | nil => exact ⟨[], by rw [List.append_nil, List.append_nil], hd.symm⟩
    | cons c d =>
      cases back with
      | nil => cases hd
      | cons v back =>
        obtain ⟨hc, -⟩ := List.cons.inj hd
        have hspace := ht c (List.mem_append_right w List.mem_cons_self)
        rw [← hc] at hspace
        cases hspace
  · exact ⟨y, rfl, hb⟩

/-- **A text without white space in joined words stands in one of them.** -/
theorem exists_of_joinWords {ws : List PyStr} {a t b : PyStr} (ht : isSolid t = true)
    (h : joinWords ws = a ++ (t ++ b)) : ∃ front x y back, ws = front ++ (x ++ (t ++ y)) :: back ∧
      a = wordsBefore front ++ x ∧ b = y ++ wordsBehind back := by
  obtain ⟨hne, hsolid⟩ := isSolid_iff.mp ht
  induction ws generalizing a with
  | nil =>
    have hnil := List.append_eq_nil_iff.mp (h.symm.trans List.intercalate_nil)
    exact absurd (List.append_eq_nil_iff.mp hnil.2).1 hne
  | cons w ws ih =>
    rw [joinWords_cons] at h
    rcases List.append_eq_append_iff.mp h with ⟨d, rfl, hd⟩ | ⟨x, rfl, hx⟩
    · -- the text stands behind the first word, and so behind the blank
      cases ws with
      | nil =>
        have hnil := (List.append_eq_nil_iff.mp hd.symm).2
        exact absurd (List.append_eq_nil_iff.mp hnil).1 hne
      | cons v ws =>
        have hblank : wordsBehind (v :: ws) = chr ' ' :: joinWords (v :: ws) := by
          rw [joinWords_cons]
          rfl
        rw [hblank] at hd
        cases d with
        | nil =>
          obtain ⟨c, t', rfl⟩ := List.exists_cons_of_ne_nil hne
          obtain ⟨hc, -⟩ := List.cons.inj hd
          have hspace := hsolid c List.mem_cons_self
          rw [← hc] at hspace
          cases hspace
        | cons c d =>
          obtain ⟨rfl, hjoin⟩ := List.cons.inj hd
          obtain ⟨front, x, y, back, hws, rfl, hb⟩ := ih hjoin
          refine ⟨w :: front, x, y, back, by rw [hws, List.cons_append], ?_, hb⟩
          show _ = w ++ [chr ' '] ++ wordsBefore front ++ x
          simp only [List.append_assoc, List.cons_append, List.nil_append]
    · obtain ⟨y, rfl, hb⟩ := first_word hsolid hx.symm
      exact ⟨[], a, y, ws, rfl, rfl, hb⟩

/-- **White space in joined words is the blank between two of them.** -/
theorem next_word {y m b : PyStr} {back : List PyStr} (hy : ∀ c ∈ y, isSpace c = false)
    (hback : ∀ w ∈ back, isSolid w = true) (hm : m.all isSpace = true) (hne : m ≠ [])
    (h : y ++ wordsBehind back = m ++ b) :
    y = [] ∧ ∃ w rest, back = w :: rest ∧ m = [chr ' '] ∧ b = w ++ wordsBehind rest := by
  obtain ⟨c, m, rfl⟩ := List.exists_cons_of_ne_nil hne
  have hspaces := List.all_eq_true.mp hm
  cases y with
  | cons d y =>
    obtain ⟨rfl, -⟩ := List.cons.inj h
    have hc := hspaces d List.mem_cons_self
    rw [hy d List.mem_cons_self] at hc
    cases hc
  | nil =>
    cases back with
    | nil => cases h
    | cons w rest =>
      obtain ⟨hc, hrest⟩ : chr ' ' = c ∧ w ++ wordsBehind rest = m ++ b := List.cons.inj h
      obtain ⟨hw, hsolid⟩ := isSolid_iff.mp (hback w List.mem_cons_self)
      cases m with
      | nil => exact ⟨rfl, w, rest, rfl, by rw [hc], hrest.symm⟩
      | cons d m =>
        obtain ⟨e, w, rfl⟩ := List.exists_cons_of_ne_nil hw
        obtain ⟨rfl, -⟩ := List.cons.inj hrest
        have hd := hspaces e (List.mem_cons_of_mem _ List.mem_cons_self)
        rw [hsolid e List.mem_cons_self] at hd
        cases hd

end Py
