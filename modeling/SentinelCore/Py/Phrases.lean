import SentinelCore.Py.Matches
import SentinelCore.Py.Words

/-!
# Expressions on joined words

What an expression of lower-case words, `\s+` and `\b` finds in joined words, read word by word. A place
is a cut through one of the words: `front` and `x` stand before it, `y` and `back` behind it. `Leads` says
that an expression matches from a place on, and each rule takes one part off the expression.
-/

namespace Py

def isLowerWord (t : PyStr) : Bool := t ≠ [] && t.all isAsciiLower

/-- Some words of lower-case letters. -/
def areLower (ts : List String) : Bool := ts ≠ [] && ts.all fun t => isLowerWord (lit t)

theorem isSpace_of_lower {c : CodePoint} (h : isAsciiLower c = true) : isSpace c = false := by
  simp only [isAsciiLower, Bool.and_eq_true, decide_eq_true_eq] at h
  simp only [isSpace, Bool.or_eq_false_iff, Bool.and_eq_false_imp, decide_eq_true_eq,
    decide_eq_false_iff_not]
  omega

theorem isLowerWord_iff {t : PyStr} :
    isLowerWord t = true ↔ t ≠ [] ∧ ∀ c ∈ t, isAsciiLower c = true := by
  simp [isLowerWord]

theorem isSolid_of_lower {t : PyStr} (h : isLowerWord t = true) : isSolid t = true :=
  isSolid_iff.mpr ⟨(isLowerWord_iff.mp h).1, fun c hc => isSpace_of_lower ((isLowerWord_iff.mp h).2 c hc)⟩

theorem areLower_iff {ts : List String} :
    areLower ts = true ↔ ts ≠ [] ∧ ∀ t ∈ ts, isLowerWord (lit t) = true := by
  simp [areLower]

/-- What `\w` has to be on the blank and the letters `a` to `z`. -/
structure ReadsLetters (isWord : CodePoint → Bool) : Prop where
  lower : ∀ c, isAsciiLower c = true → isWord c = true
  blank : isWord (chr ' ') = false

namespace Re

variable {isWord : CodePoint → Bool} (hw : ReadsLetters isWord)

include hw

theorem head_lower {t b : PyStr} (ht : isLowerWord t = true) : (t ++ b).head?.any isWord = true := by
  obtain ⟨hne, hlower⟩ := isLowerWord_iff.mp ht
  obtain ⟨c, t, rfl⟩ := List.exists_cons_of_ne_nil hne
  exact hw.lower c (hlower c List.mem_cons_self)

theorem getLast_lower {a t : PyStr} (ht : isLowerWord t = true) :
    (a ++ t).getLast?.any isWord = true := by
  obtain ⟨hne, hlower⟩ := isLowerWord_iff.mp ht
  rw [List.getLast?_append_of_ne_nil a hne, List.getLast?_eq_some_getLast hne]
  exact hw.lower _ (hlower _ (List.getLast_mem hne))

theorem head_behind (y : PyStr) (back : List PyStr) :
    (y ++ wordsBehind back).head?.any isWord = y.head?.any isWord := by
  cases y with
  | cons c y => rfl
  | nil =>
    cases back with
    | nil => rfl
    | cons w back => exact hw.blank

theorem getLast_before (front : List PyStr) (x : PyStr) :
    (wordsBefore front ++ x).getLast?.any isWord = x.getLast?.any isWord := by
  by_cases hx : x = []
  · rw [hx, List.append_nil]
    cases front using List.reverseRecOn with
    | nil => rfl
    | append_singleton front w =>
      have hlast : wordsBefore (front ++ [w]) = wordsBefore front ++ w ++ [chr ' '] := by
        unfold wordsBefore
        rw [List.flatMap_append, List.flatMap_singleton, List.append_assoc]
      rw [hlast, List.getLast?_concat]
      exact hw.blank
  · rw [List.getLast?_append_of_ne_nil _ hx]

omit hw

variable (isWord) in
/-- The expression matches from a place in the words on. -/
def Leads (ws : List PyStr) (r : Re) (front : List PyStr) (x y : PyStr) (back : List PyStr) : Prop :=
  ws = front ++ (x ++ y) :: back ∧
    ∃ m b, y ++ wordsBehind back = m ++ b ∧ Matches isWord r (wordsBefore front ++ x) m b

variable {ws front back : List PyStr} {x y : PyStr} {r q p : Re}

/-! ## Alternatives -/

theorem leads_seq : Leads isWord ws (seq (seq p q) r) front x y back ↔
    Leads isWord ws (seq p (seq q r)) front x y back := by
  unfold Leads
  refine and_congr_right fun _ => exists_congr fun m => exists_congr fun b => and_congr_right fun _ => ?_
  constructor
  · rintro ⟨_, m₃, rfl, ⟨m₁, m₂, rfl, hp, hq⟩, hr⟩
    rw [← List.append_assoc] at hr
    exact ⟨m₁, m₂ ++ m₃, List.append_assoc _ _ _, (List.append_assoc m₂ m₃ b).symm ▸ hp,
      m₂, m₃, rfl, hq, hr⟩
  · rintro ⟨m₁, _, rfl, hp, m₂, m₃, rfl, hq, hr⟩
    rw [List.append_assoc] at hp hr
    exact ⟨m₁ ++ m₂, m₃, (List.append_assoc _ _ _).symm, ⟨m₁, m₂, rfl, hp, hq⟩, hr⟩

theorem leads_alt : Leads isWord ws (seq (alt p q) r) front x y back ↔
    Leads isWord ws (seq p r) front x y back ∨ Leads isWord ws (seq q r) front x y back := by
  constructor
  · rintro ⟨hws, m, b, hm, m₁, m₂, hsplit, h | h, hr⟩
    · exact .inl ⟨hws, m, b, hm, m₁, m₂, hsplit, h, hr⟩
    · exact .inr ⟨hws, m, b, hm, m₁, m₂, hsplit, h, hr⟩
  · rintro (⟨hws, m, b, hm, m₁, m₂, hsplit, h, hr⟩ | ⟨hws, m, b, hm, m₁, m₂, hsplit, h, hr⟩)
    · exact ⟨hws, m, b, hm, m₁, m₂, hsplit, .inl h, hr⟩
    · exact ⟨hws, m, b, hm, m₁, m₂, hsplit, .inr h, hr⟩

theorem leads_opt : Leads isWord ws (seq (opt p) r) front x y back ↔
    Leads isWord ws (seq p r) front x y back ∨ Leads isWord ws r front x y back := by
  constructor
  · rintro ⟨hws, m, b, hm, m₁, m₂, rfl, h | rfl, hr⟩
    · exact .inl ⟨hws, m₁ ++ m₂, b, hm, m₁, m₂, rfl, h, hr⟩
    · rw [List.append_nil] at hr
      exact .inr ⟨hws, m₂, b, hm, hr⟩
  · rintro (⟨hws, m, b, hm, m₁, m₂, hsplit, h, hr⟩ | ⟨hws, m, b, hm, hr⟩)
    · exact ⟨hws, m, b, hm, m₁, m₂, hsplit, .inl h, hr⟩
    · exact ⟨hws, m, b, hm, [], m, rfl, .inr rfl, by rwa [List.append_nil]⟩

/-! ## Words -/

/-- One of some words leads on from behind it. -/
theorem leads_words {ts : List String} (hts : areLower ts = true) :
    Leads isWord ws (seq (words ts) r) front x y back ↔
      ∃ t ∈ ts, ∃ z, y = lit t ++ z ∧ Leads isWord ws r front (x ++ lit t) z back := by
  obtain ⟨hne, hlower⟩ := areLower_iff.mp hts
  obtain ⟨s, ss, rfl⟩ := List.exists_cons_of_ne_nil hne
  constructor
  · rintro ⟨rfl, _, b, hm, m₁, m₂, rfl, h, hr⟩
    obtain ⟨t, ht, rfl⟩ := matches_words.mp h
    rw [List.append_assoc] at hm
    have hsolid := (isSolid_iff.mp (isSolid_of_lower (hlower t ht))).2
    obtain ⟨z, rfl, hz⟩ := first_word hsolid hm
    exact ⟨t, ht, z, rfl, by rw [List.append_assoc], m₂, b, hz.symm, List.append_assoc .. ▸ hr⟩
  · rintro ⟨t, ht, z, rfl, rfl, m, b, hm, hr⟩
    refine ⟨by rw [List.append_assoc], lit t ++ m, b, ?_, lit t, m, rfl, matches_words.mpr ⟨t, ht, rfl⟩, ?_⟩
    · rw [List.append_assoc, List.append_assoc, hm]
    · rwa [List.append_assoc]

/-- White space leads on from the next word. -/
theorem leads_spaces (hws : ∀ w ∈ ws, isSolid w = true) :
    Leads isWord ws (seq (run isSpace 1 none) r) front x y back ↔
      y = [] ∧ ∃ w rest, back = w :: rest ∧ Leads isWord ws r (front ++ [x]) [] w rest := by
  have hbefore : wordsBefore front ++ x ++ [chr ' '] = wordsBefore (front ++ [x]) ++ [] := by
    unfold wordsBefore
    rw [List.flatMap_append, List.flatMap_singleton, List.append_assoc, List.append_nil]
  constructor
  · rintro ⟨rfl, _, b, hm, m₁, m₂, rfl, ⟨hspaces, hleast, -⟩, hr⟩
    have hy : ∀ c ∈ y, isSpace c = false := fun c hc =>
      (isSolid_iff.mp (hws _ (List.mem_append_right _ List.mem_cons_self))).2 c
        (List.mem_append_right x hc)
    have hback : ∀ w ∈ back, isSolid w = true := fun w hmem =>
      hws w (List.mem_append_right _ (List.mem_cons_of_mem _ hmem))
    rw [List.append_assoc] at hm
    obtain ⟨rfl, w, rest, rfl, rfl, hrest⟩ :=
      next_word hy hback hspaces (List.ne_nil_of_length_pos hleast) hm
    rw [hbefore] at hr
    refine ⟨rfl, w, rest, rfl, ?_, m₂, b, hrest.symm, hr⟩
    rw [List.append_nil, List.nil_append, List.append_assoc, List.singleton_append]
  · rintro ⟨rfl, w, rest, rfl, rfl, m, b, hm, hr⟩
    rw [← hbefore] at hr
    refine ⟨?_, chr ' ' :: m, b, ?_, [chr ' '], m, rfl, ⟨by decide, le_rfl, rfl⟩, hr⟩
    · rw [List.append_nil, List.nil_append, List.append_assoc, List.singleton_append]
    · exact congrArg (chr ' ' :: ·) hm

/-- One of some words and white space lead on from the next word, if the one at hand ends there. -/
theorem leads_words_spaces {ts : List String} (hts : areLower ts = true)
    (hws : ∀ w ∈ ws, isSolid w = true) :
    Leads isWord ws (seq (words ts) (seq (run isSpace 1 none) r)) front x y back ↔
      ∃ t ∈ ts, y = lit t ∧ ∃ w rest, back = w :: rest ∧
        Leads isWord ws r (front ++ [x ++ lit t]) [] w rest := by
  rw [leads_words hts]
  simp only [leads_spaces hws]
  refine exists_congr fun t => and_congr_right fun _ => ?_
  constructor
  · rintro ⟨_, rfl, rfl, h⟩
    exact ⟨List.append_nil _, h⟩
  · rintro ⟨rfl, h⟩
    exact ⟨[], (List.append_nil _).symm, rfl, h⟩

/-! ## Boundaries -/

include hw

/-- Behind a word of letters, `\b` says that no further letter stands there. -/
theorem leads_boundary {t : PyStr} (ht : isLowerWord t = true) :
    Leads isWord ws (seq boundary r) front (x ++ t) y back ↔
      y.head?.any isWord = false ∧ Leads isWord ws r front (x ++ t) y back := by
  have hbefore : (wordsBefore front ++ (x ++ t)).getLast?.any isWord = true := by
    rw [← List.append_assoc]
    exact getLast_lower hw ht
  constructor
  · rintro ⟨hws, _, b, hm, _, m, rfl, ⟨rfl, hne⟩, hr⟩
    rw [List.nil_append] at hm
    rw [List.append_nil] at hr
    rw [← hm, head_behind hw, hbefore] at hne
    exact ⟨Bool.eq_false_of_not_eq_true hne.symm, hws, m, b, hm, hr⟩
  · rintro ⟨hhead, hws, m, b, hm, hr⟩
    refine ⟨hws, m, b, hm, [], m, rfl, ⟨rfl, ?_⟩, by rwa [List.append_nil]⟩
    rw [← hm, head_behind hw, hbefore, hhead]
    nofun

theorem leads_end {t : PyStr} (ht : isLowerWord t = true) :
    Leads isWord ws boundary front (x ++ t) y back ↔
      y.head?.any isWord = false ∧ ws = front ++ (x ++ t ++ y) :: back := by
  have hempty : Leads isWord ws boundary front (x ++ t) y back ↔
      Leads isWord ws (seq boundary (text [])) front (x ++ t) y back := by
    constructor
    · rintro ⟨hws, m, b, hm, rfl, hne⟩
      exact ⟨hws, [], b, hm, [], [], rfl, ⟨rfl, hne⟩, rfl⟩
    · rintro ⟨hws, _, b, hm, _, _, rfl, ⟨rfl, hne⟩, rfl⟩
      exact ⟨hws, [], b, hm, rfl, hne⟩
  rw [hempty, leads_boundary hw ht]
  refine and_congr_right fun _ => ⟨fun h => h.1, fun h => ⟨h, [], _, rfl, rfl⟩⟩

/-- One of the texts stands behind a place, with `n` characters or fewer before it, and is not a part of
a longer word. -/
def Near (isWord : CodePoint → Bool) (n : ℕ) (ts : List String) (y : PyStr) (back : List PyStr) : Prop :=
  ∃ g z, ∃ t ∈ ts, y ++ wordsBehind back = g ++ (lit t ++ z) ∧ g.length ≤ n ∧
    g.getLast?.any (fun c => !isWord c) = true ∧ z.head?.any isWord = false

omit hw in
/-- Behind a place there are blanks and other characters that are no white space. -/
theorem newline_notMem_behind (hy : ∀ c ∈ y, isSpace c = false)
    (hback : ∀ w ∈ back, isSolid w = true) : chr '\n' ∉ y ++ wordsBehind back := by
  intro hmem
  have hsolid : ∀ w : PyStr, (∀ c ∈ w, isSpace c = false) → chr '\n' ∉ w := by
    intro w hw' hc
    cases hw' _ hc
  rcases List.mem_append.mp hmem with h | h
  · exact hsolid y hy h
  · obtain ⟨w, hwmem, h⟩ := List.mem_flatMap.mp h
    rcases List.mem_cons.mp h with h | h
    · exact absurd h (by decide)
    · exact hsolid w (isSolid_iff.mp (hback w hwmem)).2 h

/-- What stands between a word and another is not empty, and the other is no part of a longer word. -/
theorem near_of_match {a t g z u : PyStr} (ht : isLowerWord t = true) (hu : isLowerWord u = true)
    (hopen : (a ++ t ++ g).getLast?.any isWord ≠ (u ++ z).head?.any isWord)
    (hclose : (a ++ t ++ g ++ u).getLast?.any isWord ≠ z.head?.any isWord) :
    g.getLast?.any (fun c => !isWord c) = true ∧ z.head?.any isWord = false := by
  rw [head_lower hw hu] at hopen
  rw [getLast_lower hw hu] at hclose
  refine ⟨?_, Bool.eq_false_of_not_eq_true hclose.symm⟩
  cases g using List.reverseRecOn with
  | nil =>
    rw [List.append_nil, getLast_lower hw ht] at hopen
    exact absurd rfl hopen
  | append_singleton g c =>
    rw [← List.append_assoc, List.getLast?_concat, Option.any_some] at hopen
    rw [List.getLast?_concat, Option.any_some, Bool.eq_false_of_not_eq_true hopen]
    rfl

theorem match_of_near {a g z u : PyStr} (hu : isLowerWord u = true)
    (hopen : g.getLast?.any (fun c => !isWord c) = true) (hclose : z.head?.any isWord = false) :
    (a ++ g).getLast?.any isWord ≠ (u ++ z).head?.any isWord ∧
      (a ++ g ++ u).getLast?.any isWord ≠ z.head?.any isWord := by
  rw [head_lower hw hu, getLast_lower hw hu, hclose]
  refine ⟨?_, nofun⟩
  cases g using List.reverseRecOn with
  | nil => cases hopen
  | append_singleton g c =>
    rw [List.getLast?_concat, Option.any_some] at hopen
    rw [← List.append_assoc, List.getLast?_concat, Option.any_some]
    intro h
    rw [h] at hopen
    cases hopen

theorem leads_near {t : PyStr} {n : ℕ} {ts : List String} (ht : isLowerWord t = true)
    (hts : areLower ts = true) (hws : ∀ w ∈ ws, isSolid w = true) :
    Leads isWord ws (seqs [run (fun c => c ≠ chr '\n') 0 (some n), boundary, words ts, boundary])
        front (x ++ t) y back ↔
      ws = front ++ (x ++ t ++ y) :: back ∧ Near isWord n ts y back := by
  obtain ⟨hne, hlower⟩ := areLower_iff.mp hts
  obtain ⟨s, ss, rfl⟩ := List.exists_cons_of_ne_nil hne
  refine and_congr_right fun heq => ?_
  have hmem : x ++ t ++ y ∈ ws := heq ▸ List.mem_append_right _ List.mem_cons_self
  have hy : ∀ c ∈ y, isSpace c = false := fun c hc =>
    (isSolid_iff.mp (hws _ hmem)).2 c (List.mem_append_right _ hc)
  have hback : ∀ w ∈ back, isSolid w = true := fun w hw' =>
    hws w (heq ▸ List.mem_append_right _ (List.mem_cons_of_mem _ hw'))
  constructor
  · rintro ⟨_, b, hm, g, _, rfl, ⟨-, -, hmost⟩, _, _, rfl, ⟨rfl, hopen⟩, o, _, rfl, ho, rfl, hclose⟩
    obtain ⟨u, hu, rfl⟩ := matches_words.mp ho
    rw [List.append_nil, List.append_assoc] at hm
    rw [List.append_nil, ← List.append_assoc] at hopen
    rw [List.append_nil, ← List.append_assoc] at hclose
    obtain ⟨hbefore, hbehind⟩ := near_of_match hw ht (hlower u hu) hopen hclose
    exact ⟨g, b, u, hu, hm, of_decide_eq_true hmost, hbefore, hbehind⟩
  · rintro ⟨g, b, u, hu, hm, hlength, hbefore, hbehind⟩
    obtain ⟨hopen, hclose⟩ := @match_of_near _ hw (wordsBefore front ++ (x ++ t)) _ _ _ (hlower u hu)
      hbefore hbehind
    refine ⟨g ++ lit u, b, by rw [List.append_assoc, hm], g, lit u, rfl, ⟨?_, Nat.zero_le _, ?_⟩,
      [], lit u, rfl, ⟨rfl, hopen⟩, lit u, [], (List.append_nil _).symm, matches_words.mpr ⟨u, hu, rfl⟩,
      rfl, ?_⟩
    · refine List.all_eq_true.mpr fun c hc => decide_eq_true fun hnew => ?_
      apply newline_notMem_behind hy hback
      rw [hm, ← hnew]
      exact List.mem_append_left _ hc
    · exact decide_eq_true hlength
    · rwa [List.append_nil]

theorem leads_words_end {ts : List String} (hts : areLower ts = true) :
    Leads isWord ws (seq (words ts) boundary) front x y back ↔
      ∃ t ∈ ts, ∃ z, y = lit t ++ z ∧ z.head?.any isWord = false ∧
        ws = front ++ (x ++ lit t ++ z) :: back := by
  rw [leads_words hts]
  refine exists_congr fun t => and_congr_right fun ht => exists_congr fun z => and_congr_right fun _ => ?_
  exact leads_end hw ((areLower_iff.mp hts).2 t ht)

theorem leads_words_near {n : ℕ} {vs ts : List String} (hvs : areLower vs = true)
    (hts : areLower ts = true) (hws : ∀ w ∈ ws, isSolid w = true) :
    Leads isWord ws
        (seqs [words vs, boundary, run (fun c => c ≠ chr '\n') 0 (some n), boundary, words ts, boundary])
        front x y back ↔
      ∃ v ∈ vs, ∃ z, y = lit v ++ z ∧ z.head?.any isWord = false ∧
        ws = front ++ (x ++ lit v ++ z) :: back ∧ Near isWord n ts z back := by
  show Leads isWord ws (seq (words vs) (seq boundary _)) front x y back ↔ _
  rw [leads_words hvs]
  refine exists_congr fun v => and_congr_right fun hv => exists_congr fun z => and_congr_right fun _ => ?_
  have hlow := (areLower_iff.mp hvs).2 v hv
  rw [leads_boundary hw hlow, ← leads_near hw hlow hts hws]

/-- What begins with a word begins to match in one of the words, where no longer word stands. -/
theorem search_words (ws : List PyStr) {ts : List String} (hts : areLower ts = true) :
    search isWord (seq boundary (seq (words ts) r)) (joinWords ws) = true ↔
      ∃ front x y back, x.getLast?.any isWord = false ∧
        Leads isWord ws (seq (words ts) r) front x y back := by
  obtain ⟨hne, hlower⟩ := areLower_iff.mp hts
  obtain ⟨s, ss, rfl⟩ := List.exists_cons_of_ne_nil hne
  rw [search_iff]
  constructor
  · rintro ⟨a, _, b, hjoin, _, m, rfl, ⟨rfl, hopen⟩, hm⟩
    obtain ⟨_, m₂, rfl, ht, hr⟩ := hm
    obtain ⟨t, htmem, rfl⟩ := matches_words.mp ht
    have hlow := hlower t htmem
    rw [List.append_assoc, head_lower hw hlow] at hopen
    rw [List.append_nil] at hr
    have hplace : joinWords ws = a ++ (lit t ++ (m₂ ++ b)) := by
      rw [hjoin, List.nil_append, List.append_assoc, List.append_assoc]
    obtain ⟨front, x, y, back, hws, rfl, hrest⟩ := exists_of_joinWords (isSolid_of_lower hlow) hplace
    rw [getLast_before hw] at hopen
    refine ⟨front, x, lit t ++ y, back, Bool.eq_false_of_not_eq_true hopen, hws, lit t ++ m₂, b, ?_,
      lit t, m₂, rfl, matches_words.mpr ⟨t, htmem, rfl⟩, hr⟩
    rw [List.append_assoc, List.append_assoc, hrest]
  · rintro ⟨front, x, y, back, hx, rfl, m, b, hm, hmatch⟩
    refine ⟨wordsBefore front ++ x, m, b, ?_, [], m, rfl, ⟨rfl, ?_⟩, by rwa [List.append_nil]⟩
    · rw [joinWords_append, List.append_assoc, hm, List.append_assoc, List.append_assoc]
    · obtain ⟨_, m₂, rfl, ht, -⟩ := hmatch
      obtain ⟨t, htmem, rfl⟩ := matches_words.mp ht
      rw [getLast_before hw, hx, List.append_assoc, head_lower hw (hlower t htmem)]
      nofun

end Re

end Py
