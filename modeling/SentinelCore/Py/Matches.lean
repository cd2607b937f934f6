import SentinelCore.Py.Regex

/-!
# What an expression matches

`Matches r a m b` says that `r` matches `m` between `a` and `b`, without the order in which `re` tries
its alternatives. `search` finds a match exactly if there is one (`search_iff`).
-/

namespace Py

/-- The place behind `a` in `a ++ s`. -/
def Cursor.behind (a s : PyStr) : Cursor := ⟨a.getLast?, s⟩

theorem Cursor.advance_behind {a m b : PyStr} {k : ℕ} (hk : m.length = k) :
    (Cursor.behind a (m ++ b)).advance k = Cursor.behind (a ++ m) b := by
  subst hk
  cases m using List.reverseRecOn with
  | nil => rw [List.append_nil]; rfl
  | append_singleton m x =>
    have hlength : (m ++ [x]).length = m.length + 1 := List.length_append
    rw [hlength]
    show Cursor.mk (m ++ [x] ++ b)[m.length]? ((m ++ [x] ++ b).drop (m.length + 1)) = _
    rw [← hlength, List.drop_left, List.append_assoc, List.singleton_append,
      List.getElem?_append_right le_rfl, Nat.sub_self, List.getElem?_cons_zero, Cursor.behind,
      ← List.append_assoc, List.getLast?_concat]

namespace Re

variable (isWord : CodePoint → Bool)

/-- The expression matches `m` with `a` in front of it and `b` behind. -/
def Matches : Re → PyStr → PyStr → PyStr → Prop
  | text s, _, m, _ => m = s
  | run p least most, _, m, _ =>
    m.all p = true ∧ least ≤ m.length ∧ most.all (fun n => m.length ≤ n) = true
  | boundary, a, m, b => m = [] ∧ a.getLast?.any isWord ≠ b.head?.any isWord
  | seq r q, a, m, b => ∃ m₁ m₂, m = m₁ ++ m₂ ∧ Matches r a m₁ (m₂ ++ b) ∧ Matches q (a ++ m₁) m₂ b
  | alt r q, a, m, b => Matches r a m b ∨ Matches q a m b
  | opt r, a, m, b => Matches r a m b ∨ m = []

variable {isWord}

/-! ## The ends of a match -/

section Leaves

variable {a s t : PyStr} {e : Cursor}

theorem mem_ends_text : e ∈ (text t).ends isWord (.behind a s) ↔
    ∃ m b, s = m ++ b ∧ Matches isWord (text t) a m b ∧ e = .behind (a ++ m) b := by
  show e ∈ (if startsWith s t then [(Cursor.behind a s).advance t.length] else []) ↔ _
  constructor
  · intro h
    split at h
    · rename_i hstarts
      obtain ⟨b, rfl⟩ := List.isPrefixOf_iff_prefix.mp hstarts
      rw [List.mem_singleton.mp h]
      exact ⟨t, b, rfl, rfl, Cursor.advance_behind rfl⟩
    · cases h
  · rintro ⟨m, b, rfl, rfl, rfl⟩
    have hstarts : startsWith (m ++ b) m = true :=
      List.isPrefixOf_iff_prefix.mpr (List.prefix_append m b)
    rw [if_pos hstarts, Cursor.advance_behind rfl]
    exact List.mem_singleton_self _

theorem mem_ends_run {p : CodePoint → Bool} {least : ℕ} {most : Option ℕ} :
    e ∈ (run p least most).ends isWord (.behind a s) ↔
      ∃ m b, s = m ++ b ∧ Matches isWord (run p least most) a m b ∧ e = .behind (a ++ m) b := by
  show e ∈ ((List.range ((s.takeWhile p).length + 1)).filter fun k =>
    least ≤ k && most.all fun n => k ≤ n).map (Cursor.behind a s).advance ↔ _
  simp only [List.mem_map, List.mem_filter, List.mem_range, Bool.and_eq_true, decide_eq_true_eq]
  constructor
  · rintro ⟨k, ⟨hk, hleast, hmost⟩, rfl⟩
    have hprefix := List.takeWhile_prefix p (l := s)
    have hle : k ≤ (s.takeWhile p).length := Nat.lt_succ_iff.mp hk
    have htake : (s.take k).length = k := List.length_take_of_le (hle.trans hprefix.length_le)
    have hsub : s.take k <+: s.takeWhile p :=
      List.prefix_of_prefix_length_le (List.take_prefix k s) hprefix (by rwa [htake])
    refine ⟨s.take k, s.drop k, (List.take_append_drop k s).symm, ⟨?_, ?_, ?_⟩, ?_⟩
    · exact List.all_eq_true.mpr fun c hc => List.mem_takeWhile_imp (hsub.subset hc)
    · rwa [htake]
    · rwa [htake]
    · conv_lhs => rw [← List.take_append_drop k s]
      exact Cursor.advance_behind htake
  · rintro ⟨m, b, rfl, ⟨hp, hleast, hmost⟩, rfl⟩
    refine ⟨m.length, ⟨?_, hleast, hmost⟩, Cursor.advance_behind rfl⟩
    rw [List.takeWhile_append_of_pos (List.all_eq_true.mp hp), List.length_append]
    omega

theorem mem_ends_boundary : e ∈ boundary.ends isWord (.behind a s) ↔
    ∃ m b, s = m ++ b ∧ Matches isWord boundary a m b ∧ e = .behind (a ++ m) b := by
  show e ∈ (if a.getLast?.any isWord = s.head?.any isWord then [] else [Cursor.behind a s]) ↔ _
  constructor
  · intro h
    split at h
    · cases h
    · rename_i hne
      rw [List.mem_singleton.mp h]
      exact ⟨[], s, rfl, ⟨rfl, hne⟩, by rw [List.append_nil]⟩
  · rintro ⟨m, b, rfl, ⟨rfl, hne⟩, rfl⟩
    rw [List.nil_append, List.append_nil, if_neg hne]
    exact List.mem_singleton_self _

end Leaves

/-- The ends of a match from a place on are the ends of what the expression matches there. -/
theorem mem_ends {r : Re} {a s : PyStr} {e : Cursor} :
    e ∈ r.ends isWord (.behind a s) ↔
      ∃ m b, s = m ++ b ∧ Matches isWord r a m b ∧ e = .behind (a ++ m) b := by
  induction r generalizing a s e with
  | text t => exact mem_ends_text
  | run p least most => exact mem_ends_run
  | boundary => exact mem_ends_boundary
  | seq r q ihr ihq =>
    unfold ends
    rw [List.mem_flatMap]
    constructor
    · rintro ⟨_, hr, hq⟩
      obtain ⟨m₁, _, rfl, h₁, rfl⟩ := ihr.mp hr
      obtain ⟨m₂, b, rfl, h₂, rfl⟩ := ihq.mp hq
      exact ⟨m₁ ++ m₂, b, (List.append_assoc _ _ _).symm, ⟨m₁, m₂, rfl, h₁, h₂⟩,
        by rw [List.append_assoc]⟩
    · rintro ⟨_, b, rfl, ⟨m₁, m₂, rfl, h₁, h₂⟩, rfl⟩
      refine ⟨.behind (a ++ m₁) (m₂ ++ b), ihr.mpr ⟨m₁, m₂ ++ b, ?_, h₁, rfl⟩,
        ihq.mpr ⟨m₂, b, rfl, h₂, ?_⟩⟩
      · rw [List.append_assoc]
      · rw [List.append_assoc]
  | alt r q ihr ihq =>
    unfold ends
    rw [List.mem_append, ihr, ihq]
    constructor
    · rintro (⟨m, b, hs, h, he⟩ | ⟨m, b, hs, h, he⟩)
      · exact ⟨m, b, hs, .inl h, he⟩
      · exact ⟨m, b, hs, .inr h, he⟩
    · rintro ⟨m, b, hs, h | h, he⟩
      · exact .inl ⟨m, b, hs, h, he⟩
      · exact .inr ⟨m, b, hs, h, he⟩
  | opt r ih =>
    unfold ends
    rw [List.mem_append, ih, List.mem_singleton]
    constructor
    · rintro (⟨m, b, hs, h, he⟩ | rfl)
      · exact ⟨m, b, hs, .inl h, he⟩
      · exact ⟨[], s, rfl, .inr rfl, by rw [List.append_nil]⟩
    · rintro ⟨m, b, rfl, h | rfl, rfl⟩
      · exact .inl ⟨m, b, rfl, h, rfl⟩
      · exact .inr (by rw [List.append_nil, List.nil_append])

/-- **A search finds a match if there is one.** -/
theorem search_iff {r : Re} {s : PyStr} :
    search isWord r s = true ↔ ∃ a m b, s = a ++ m ++ b ∧ Matches isWord r a m b := by
  have hplace : ∀ {a t : PyStr}, a ++ t = s →
      Cursor.advance ⟨none, s⟩ a.length = .behind a t := by
    rintro a t rfl
    exact @Cursor.advance_behind [] a t _ rfl
  unfold search
  simp only [List.any_eq_true, List.mem_range, Bool.not_eq_true', List.isEmpty_eq_false_iff]
  constructor
  · rintro ⟨k, hk, hne⟩
    obtain ⟨e, he⟩ := List.exists_mem_of_ne_nil _ hne
    have hlength : (s.take k).length = k := List.length_take_of_le (by omega)
    have hcursor := hplace (List.take_append_drop k s)
    rw [hlength] at hcursor
    rw [hcursor] at he
    obtain ⟨m, b, hb, hm, -⟩ := mem_ends.mp he
    exact ⟨s.take k, m, b, by rw [List.append_assoc, ← hb, List.take_append_drop], hm⟩
  · rintro ⟨a, m, b, rfl, hm⟩
    refine ⟨a.length, ?_, ?_⟩
    · simp only [List.length_append]
      omega
    · rw [hplace (List.append_assoc a m b).symm]
      exact List.ne_nil_of_mem (mem_ends.mpr ⟨m, b, rfl, hm, rfl⟩)

/-- One of the words is a text of its own. -/
theorem matches_words {w : String} {ws : List String} {a m b : PyStr} :
    Matches isWord (words (w :: ws)) a m b ↔ ∃ v ∈ w :: ws, m = lit v := by
  induction ws generalizing w with
  | nil => simp only [words, Matches, List.mem_singleton, exists_eq_left]
  | cons v vs ih =>
    show (m = lit w ∨ Matches isWord (words (v :: vs)) a m b) ↔ _
    rw [ih]
    simp only [List.mem_cons, exists_eq_or_imp]

end Re

end Py
