import SentinelCore.VoiceFaults
import SentinelCore.VoiceCollector
import SentinelCore.VoiceRuns
import SentinelCore.Py.Path

/-!
# The names of artifacts

The files of a recording are named after the id of the response. What a name keeps of an id is the text from
its first letter or digit to its last one, with each run of other characters than `[A-Za-z0-9._-]` read as one
underscore, and of that 120 characters (`Keeps`).

1. `_safe_file_component` gives what the name keeps (`keeps_iff`), and with it the three names of an artifact
   are determined (`fileName_inj`).
2. A recording does nothing to other names (`record_untouched`), so recordings of ids of which the names keep
   different texts never meet, whatever fails (`apart_iff`).
3. Every artifact is a file in the output directory (`isChild_path`).
4. The ids that a collector returns are those of the form `[A-Za-z0-9._:-]+` of at most 256 characters
   (`returned_iff`), of which some have the same names (`sameNames_returned`).
-/

namespace Sentinel.Voice.Artifacts

open Py Lib Prog

/-! ## What a name keeps of an id -/

/-- The second text is the first one with each run of unsafe characters read as one underscore. -/
inductive ReadAs : PyStr → PyStr → Prop
  | nil : ReadAs [] []
  | char {c : CodePoint} {s t : PyStr} (hc : isSafeFileChar c = true) (h : ReadAs s t) :
      ReadAs (c :: s) (c :: t)
  | run {r s t : PyStr} (hne : r ≠ []) (hr : ∀ c ∈ r, isSafeFileChar c = false)
      (hs : s.head?.all isSafeFileChar = true) (h : ReadAs s t) : ReadAs (r ++ s) (chr '_' :: t)

/-- No character of the text is a letter or a digit. -/
def Wordless (s : PyStr) : Prop := ∀ c ∈ s, isAsciiAlnum c = false

/-- What a file name keeps of an id. -/
inductive Keeps : PyStr → PyStr → Prop
  | nothing {id : PyStr} (h : Wordless id) : Keeps id (lit "unknown")
  | core {front core back text : PyStr} (hfront : Wordless front) (hback : Wordless back)
      (hfirst : core.head?.any isAsciiAlnum = true) (hlast : core.getLast?.any isAsciiAlnum = true)
      (hread : ReadAs core text) : Keeps (front ++ (core ++ back)) (text.take 120)

/-- The file names keep the same of both ids. -/
def Alike (a b : PyStr) : Prop := ∃ kept, Keeps a kept ∧ Keeps b kept

variable {c : CodePoint} {s t r id kept : PyStr}

theorem isSafeFileChar_of_alnum (h : isAsciiAlnum c = true) : isSafeFileChar c = true := by
  unfold isSafeFileChar
  rw [h]
  rfl

/-- A text is replaced piece by piece where no run of unsafe characters is cut. -/
theorem replaceUnsafe_append
    (h : s.getLast?.all isSafeFileChar = true ∨ t.head?.all isSafeFileChar = true) :
    replaceUnsafe (s ++ t) = replaceUnsafe s ++ replaceUnsafe t := by
  induction s with
  | nil => rfl
  | cons c s ih =>
    have hrest : s.getLast?.all isSafeFileChar = true ∨ t.head?.all isSafeFileChar = true := by
      refine h.imp_left fun hlast => ?_
      cases s with
      | nil => rfl
      | cons d s => rwa [List.getLast?_cons_cons] at hlast
    rw [List.cons_append, replaceUnsafe, replaceUnsafe, ih hrest]
    by_cases hc : isSafeFileChar c = true
    · rw [if_pos hc, if_pos hc, List.cons_append]
    · rw [if_neg hc, if_neg hc]
      cases s with
      | cons d s =>
        rw [List.cons_append, List.head?_cons, List.head?_cons]
        split_ifs
        · rfl
        · rfl
      | nil =>
        have ht : t.head?.all isSafeFileChar = true := by
          rcases h with hlast | ht
          · exact absurd hlast hc
          · exact ht
        have hany : t.head?.any (fun d => !isSafeFileChar d) = false := by
          cases t with
          | nil => rfl
          | cons d t =>
            have hd : isSafeFileChar d = true := ht
            rw [List.head?_cons, Option.any_some, hd]
            rfl
        rw [List.nil_append, hany]
        rfl

/-- A run of unsafe characters is replaced by one underscore. -/
theorem replaceUnsafe_run (hne : r ≠ []) (hr : ∀ c ∈ r, isSafeFileChar c = false) :
    replaceUnsafe r = [chr '_'] := by
  induction r with
  | nil => exact absurd rfl hne
  | cons c r ih =>
    rw [List.forall_mem_cons] at hr
    rw [replaceUnsafe, if_neg (by rw [hr.1]; exact Bool.false_ne_true)]
    cases r with
    | nil => rfl
    | cons d r =>
      have hd := hr.2 d List.mem_cons_self
      rw [List.head?_cons, Option.any_some, hd, if_pos (by rfl)]
      exact ih (List.cons_ne_nil _ _) hr.2

theorem ReadAs.eq (h : ReadAs s t) : t = replaceUnsafe s := by
  induction h with
  | nil => rfl
  | char hc _ ih => rw [replaceUnsafe, if_pos hc, ih]
  | run hne hr hs _ ih =>
    rw [replaceUnsafe_append (.inr hs), replaceUnsafe_run hne hr, ih]
    rfl

/-- Every text is read. -/
theorem exists_readAs (s : PyStr) : ∃ t, ReadAs s t := by
  induction hn : s.length using Nat.strong_induction_on generalizing s with
  | _ n ih =>
    cases s with
    | nil => exact ⟨[], .nil⟩
    | cons c s =>
      rw [List.length_cons] at hn
      by_cases hc : isSafeFileChar c = true
      · obtain ⟨t, ht⟩ := ih s.length (by omega) s rfl
        exact ⟨c :: t, .char hc ht⟩
      · have hsplit := List.takeWhile_append_dropWhile (p := fun d => !isSafeFileChar d) (l := s)
        have hshort := (List.dropWhile_suffix (l := s) fun d => !isSafeFileChar d).length_le
        obtain ⟨t, ht⟩ := ih _ (by omega) (s.dropWhile fun d => !isSafeFileChar d) rfl
        refine ⟨chr '_' :: t, ?_⟩
        rw [← hsplit, ← List.cons_append]
        refine .run (List.cons_ne_nil _ _) ?_ ?_ ht
        · rw [List.forall_mem_cons]
          refine ⟨Bool.eq_false_iff.mpr hc, fun d hd => ?_⟩
          have hunsafe := List.mem_takeWhile_imp hd
          exact (Bool.not_eq_true' _).mp hunsafe
        · have hhead := List.head?_dropWhile_not (fun d => !isSafeFileChar d) s
          revert hhead
          cases (s.dropWhile fun d => !isSafeFileChar d).head? <;> simp

/-! ## The component of a file name -/

/-- `[._-]`. -/
def isMark (c : CodePoint) : Bool := c = chr '.' || c = chr '_' || c = chr '-'

theorem stripMarks_eq (s : PyStr) : stripMarks s = (s.dropWhile isMark).rdropWhile isMark := rfl

theorem isSafeFileChar_eq (c : CodePoint) : isSafeFileChar c = (isAsciiAlnum c || isMark c) := by
  unfold isSafeFileChar isMark
  rw [Bool.or_assoc, Bool.or_assoc, Bool.or_assoc]

theorem not_isMark_of_alnum (h : isAsciiAlnum c = true) : isMark c = false := by
  unfold isMark
  by_contra hmark
  rw [Bool.not_eq_false, Bool.or_eq_true, Bool.or_eq_true, decide_eq_true_eq, decide_eq_true_eq,
    decide_eq_true_eq] at hmark
  rcases hmark with (rfl | rfl) | rfl
  · exact absurd h (by decide)
  · exact absurd h (by decide)
  · exact absurd h (by decide)

theorem mem_replaceUnsafe (h : c ∈ replaceUnsafe s) : (c ∈ s ∧ isSafeFileChar c = true) ∨ c = chr '_' := by
  induction s with
  | nil => cases h
  | cons d s ih =>
    have later : c ∈ replaceUnsafe s → (c ∈ d :: s ∧ isSafeFileChar c = true) ∨ c = chr '_' := fun h =>
      (ih h).imp_left (And.imp_left (List.mem_cons_of_mem d))
    rw [replaceUnsafe] at h
    split_ifs at h with hd
    · rcases List.mem_cons.mp h with rfl | h
      · exact .inl ⟨List.mem_cons_self, hd⟩
      · exact later h
    · exact later h
    · rcases List.mem_cons.mp h with rfl | h
      · exact .inr rfl
      · exact later h

/-- Nothing but marks is left of a text without letters and digits. -/
theorem isMark_of_wordless (h : Wordless s) (hc : c ∈ replaceUnsafe s) : isMark c = true := by
  rcases mem_replaceUnsafe hc with ⟨hmem, hsafe⟩ | rfl
  · rw [isSafeFileChar_eq, h c hmem] at hsafe
    exact hsafe
  · rfl

theorem stripMarks_wordless (h : Wordless s) : stripMarks (replaceUnsafe s) = [] := by
  have hall : (replaceUnsafe s).dropWhile isMark = [] :=
    List.dropWhile_eq_nil_iff.mpr fun c hc => isMark_of_wordless h hc
  rw [stripMarks_eq, hall]
  rfl

/-- The marks around a text that starts and ends otherwise are stripped. -/
theorem stripMarks_append {front text back : PyStr} (hfront : ∀ c ∈ front, isMark c = true)
    (hback : ∀ c ∈ back, isMark c = true) (hfirst : text.head?.any isMark = false)
    (hlast : text.getLast?.any isMark = false) (hne : text ≠ []) :
    stripMarks (front ++ (text ++ back)) = text := by
  have hstart : (front ++ (text ++ back)).dropWhile isMark = text ++ back := by
    rw [List.dropWhile_append_of_pos hfront]
    obtain ⟨c, text, rfl⟩ := List.exists_cons_of_ne_nil hne
    have hc : isMark c = false := hfirst
    exact List.dropWhile_cons_of_neg (Bool.eq_false_iff.mp hc)
  have hend : (text ++ back).rdropWhile isMark = text := by
    have hlast' : ¬isMark (text.getLast hne) = true := by
      rw [List.getLast?_eq_some_getLast hne, Option.any_some] at hlast
      exact Bool.eq_false_iff.mp hlast
    rw [List.rdropWhile, List.reverse_append,
      List.dropWhile_append_of_pos fun c hc => hback c (List.mem_reverse.mp hc)]
    exact List.rdropWhile_eq_self_iff.mpr fun _ => hlast'
  rw [stripMarks_eq, hstart, hend]

/-- What is read of a core starts and ends with a letter or a digit as the core does. -/
theorem core_ends {core : PyStr} (hfirst : core.head?.any isAsciiAlnum = true)
    (hlast : core.getLast?.any isAsciiAlnum = true) :
    replaceUnsafe core ≠ [] ∧ (replaceUnsafe core).head?.any isMark = false ∧
      (replaceUnsafe core).getLast?.any isMark = false := by
  have hfirst' : (replaceUnsafe core).head? = core.head? := by
    cases core with
    | nil => rfl
    | cons c core =>
      rw [replaceUnsafe, if_pos (isSafeFileChar_of_alnum hfirst)]
      rfl
  have hlast' : (replaceUnsafe core).getLast? = core.getLast? := by
    rcases List.eq_nil_or_concat core with rfl | ⟨front, c, rfl⟩
    · rfl
    · rw [List.concat_eq_append] at hlast ⊢
      rw [List.getLast?_concat, Option.any_some] at hlast
      have hsafe := isSafeFileChar_of_alnum hlast
      have hhead : [c].head?.all isSafeFileChar = true := hsafe
      rw [replaceUnsafe_append (.inr hhead), replaceUnsafe, if_pos hsafe]
      exact List.getLast?_concat.trans List.getLast?_concat.symm
  have hnot : ∀ o : Option CodePoint, o.any isAsciiAlnum = true → o.any isMark = false := by
    intro o ho
    cases o with
    | none => rfl
    | some c => exact not_isMark_of_alnum ho
  refine ⟨?_, hfirst' ▸ hnot _ hfirst, hlast' ▸ hnot _ hlast⟩
  intro hnil
  rw [hnil] at hfirst'
  rw [← hfirst'] at hfirst
  cases hfirst

/-- `_safe_file_component` gives what the name keeps. -/
theorem Keeps.eq (h : Keeps id kept) : kept = safeFileComponent id := by
  unfold safeFileComponent
  cases h with
  | nothing h =>
    rw [stripMarks_wordless h]
    decide
  | @core front core back text hfront hback hfirst hlast hread =>
    obtain ⟨hne, hstart, hend⟩ := core_ends hfirst hlast
    have hsafe : ∀ o : Option CodePoint, o.any isAsciiAlnum = true → o.all isSafeFileChar = true := by
      intro o ho
      cases o with
      | none => rfl
      | some c => exact isSafeFileChar_of_alnum ho
    have hhead : (core ++ back).head?.all isSafeFileChar = true := by
      cases core with
      | nil => cases hfirst
      | cons c core => exact hsafe _ hfirst
    rw [replaceUnsafe_append (.inr hhead), replaceUnsafe_append (.inl (hsafe _ hlast)),
      stripMarks_append (fun c => isMark_of_wordless hfront) (fun c => isMark_of_wordless hback) hstart hend
        hne]
    dsimp only
    rw [if_neg hne, hread.eq]

/-- The first letter or digit of a text. -/
theorem exists_first (h : ¬Wordless s) :
    ∃ front c rest, s = front ++ c :: rest ∧ Wordless front ∧ isAsciiAlnum c = true := by
  induction s with
  | nil => exact absurd (fun c hc => by cases hc) h
  | cons c s ih =>
    by_cases hc : isAsciiAlnum c = true
    · exact ⟨[], c, s, rfl, fun d hd => (by cases hd), hc⟩
    · have hother := Bool.eq_false_iff.mpr hc
      have hs : ¬Wordless s := fun hs => h (List.forall_mem_cons.mpr ⟨hother, hs⟩)
      obtain ⟨front, d, rest, rfl, hfront, hd⟩ := ih hs
      exact ⟨c :: front, d, rest, rfl, List.forall_mem_cons.mpr ⟨hother, hfront⟩, hd⟩

/-- The last one. -/
theorem exists_last (h : ¬Wordless s) :
    ∃ front c back, s = front ++ c :: back ∧ isAsciiAlnum c = true ∧ Wordless back := by
  have hreverse : ¬Wordless s.reverse := fun hs => h fun c hc => hs c (List.mem_reverse.mpr hc)
  obtain ⟨back, c, front, heq, hback, hc⟩ := exists_first hreverse
  refine ⟨front.reverse, c, back.reverse, ?_, hc, fun d hd => hback d (List.mem_reverse.mp hd)⟩
  rw [← List.reverse_reverse s, heq]
  simp

/-- Every id has a text that the name keeps. -/
theorem exists_keeps (id : PyStr) : ∃ kept, Keeps id kept := by
  by_cases hword : Wordless id
  · exact ⟨_, .nothing hword⟩
  · obtain ⟨front, c, rest, rfl, hfront, hc⟩ := exists_first hword
    have hrest : ¬Wordless (c :: rest) := by
      intro hrest
      rw [hrest c List.mem_cons_self] at hc
      cases hc
    obtain ⟨middle, d, back, heq, hd, hback⟩ := exists_last hrest
    obtain ⟨text, htext⟩ := exists_readAs (middle ++ [d])
    have hfirst : (middle ++ [d]).head?.any isAsciiAlnum = true := by
      cases middle with
      | nil => exact hd
      | cons e middle =>
        obtain ⟨rfl, -⟩ := List.cons.inj heq
        exact hc
    have hlast : (middle ++ [d]).getLast?.any isAsciiAlnum = true := by
      rw [List.getLast?_concat]
      exact hd
    refine ⟨text.take 120, ?_⟩
    rw [heq, List.append_cons]
    exact .core hfront hback hfirst hlast htext

/-- **The component of a file name is what the name keeps of the id.** -/
theorem keeps_iff : Keeps id kept ↔ kept = safeFileComponent id := by
  refine ⟨Keeps.eq, ?_⟩
  rintro rfl
  obtain ⟨kept, h⟩ := exists_keeps id
  rwa [← h.eq]

theorem alike_iff {a b : PyStr} : Alike a b ↔ safeFileComponent a = safeFileComponent b := by
  constructor
  · rintro ⟨kept, ha, hb⟩
    rw [← ha.eq, ← hb.eq]
  · intro h
    exact ⟨_, keeps_iff.mpr rfl, keeps_iff.mpr h⟩

theorem readAs_safe (h : ∀ c ∈ s, isSafeFileChar c = true) : ReadAs s s := by
  induction s with
  | nil => exact .nil
  | cons c s ih =>
    obtain ⟨hc, hs⟩ := List.forall_mem_cons.mp h
    exact .char hc (ih hs)

/-- An id that is its own file name component. -/
structure Plain (id : PyStr) : Prop where
  safe : ∀ c ∈ id, isSafeFileChar c = true
  first : id.head?.any isAsciiAlnum = true
  last : id.getLast?.any isAsciiAlnum = true
  short : id.length ≤ 120

theorem Plain.keeps (h : Plain id) : Keeps id id := by
  have hcore : Keeps ([] ++ (id ++ [])) (id.take 120) :=
    .core (fun c hc => by cases hc) (fun c hc => by cases hc) h.first h.last (readAs_safe h.safe)
  rwa [List.nil_append, List.append_nil, List.take_of_length_le h.short] at hcore

/-- Names tell plain ids apart. -/
theorem Plain.alike_iff {a b : PyStr} (ha : Plain a) (hb : Plain b) : Alike a b ↔ a = b := by
  rw [Artifacts.alike_iff, ← ha.keeps.eq, ← hb.keeps.eq]

/-! ## File names -/

theorem isSafe_literal : (∀ c ∈ lit "unknown", isSafeFileChar c = true) ∧
    (∀ c ∈ lit "response_", isSafeFileChar c = true) ∧
      ∀ kind : Kind, ∀ c ∈ kind.suffix, isSafeFileChar c = true := by
  refine ⟨List.all_eq_true.mp (by decide), List.all_eq_true.mp (by decide), fun kind => ?_⟩
  cases kind <;> exact List.all_eq_true.mp (by decide)

theorem isSafe_of_mem_component (h : c ∈ safeFileComponent id) : isSafeFileChar c = true := by
  unfold safeFileComponent at h
  dsimp only at h
  replace h := List.mem_of_mem_take h
  split_ifs at h
  · exact isSafe_literal.1 c h
  · rw [stripMarks_eq] at h
    have hmem := (List.dropWhile_suffix _).subset ((List.rdropWhile_prefix _ _).subset h)
    rcases mem_replaceUnsafe hmem with ⟨-, hsafe⟩ | rfl
    · exact hsafe
    · decide

theorem isSafe_of_mem_fileName {kind : Kind} (h : c ∈ fileName (safeFileComponent id) kind) :
    isSafeFileChar c = true := by
  rcases List.mem_append.mp h with h | h
  · rcases List.mem_append.mp h with h | h
    · exact isSafe_literal.2.1 c h
    · exact isSafe_of_mem_component h
  · exact isSafe_literal.2.2 kind c h

/-- Names of different kinds differ in their last character. -/
theorem fileName_inj {a b : PyStr} {kind kind' : Kind} (h : fileName a kind = fileName b kind') : a = b := by
  have hlast : kind.suffix.getLast? = kind'.suffix.getLast? := by
    have hne : ∀ kind : Kind, kind.suffix ≠ [] := by
      intro kind
      cases kind <;> exact List.cons_ne_nil _ _
    have heq := congrArg List.getLast? h
    unfold fileName at heq
    rwa [List.getLast?_append_of_ne_nil _ (hne kind), List.getLast?_append_of_ne_nil _ (hne kind')] at heq
  have hkind : kind = kind' := by
    revert hlast
    cases kind <;> cases kind' <;> decide +kernel
  subst hkind
  exact List.append_cancel_left (List.append_cancel_right h)

/-- Every artifact is a file in the output directory, with the name it is given. -/
theorem isChild_path (outputDir : PurePath) (recording : Recording) (kind : Kind) :
    (outputDir.join (.ofText (recording.path kind))).IsChild outputDir ∧
      (outputDir.join (.ofText (recording.path kind))).name = recording.path kind := by
  have hshape : ∃ rest, recording.path kind = chr 'r' :: chr 'e' :: rest := ⟨_, rfl⟩
  have hslash : chr '/' ∉ recording.path kind := by
    intro hmem
    exact absurd (isSafe_of_mem_fileName hmem) (by decide)
  obtain ⟨rest, hrest⟩ := hshape
  have hpart : IsPart (recording.path kind) := by
    refine ⟨?_, ?_, hslash⟩
    · rw [hrest]
      exact List.cons_ne_nil _ _
    · rw [hrest]
      intro hdot
      exact absurd (List.cons.inj hdot).1 (by decide)
  have hparent : recording.path kind ≠ lit ".." := by
    rw [hrest]
    intro hdots
    exact absurd (List.cons.inj hdots).1 (by decide)
  rw [ofText_of_isPart hpart]
  refine ⟨⟨⟨⟨recording.path kind, hpart⟩, hparent⟩, rfl⟩, ?_⟩
  show ((outputDir.parts ++ [_]).getLast?.map PathPart.text).getD [] = _
  rw [List.getLast?_concat]
  rfl

/-! ## Two recordings -/

/-- The recording comes to its end, with no call failing. -/
def Succeeds (env : RecorderEnv) (recording : Recording) (d : Directory Unit) : Prop :=
  ∃ artifacts, (record env recording none d).1 = .ok artifacts

/-- No file of one recording has a name of the other; whatever fails, the first one leaves the names of the
second as they were; and the second one succeeds after it if it did before. -/
structure Apart (env : RecorderEnv) (a b : Recording) : Prop where
  names : ∀ kind kind', a.path kind ≠ b.path kind'
  untouched : ∀ fault d kind,
    (record env a fault d).2.entries (b.path kind) = d.entries (b.path kind)
  unhindered : ∀ fault d, Succeeds env b d → Succeeds env b (record env a fault d).2

variable {env : RecorderEnv} {recording a b : Recording} {fault : Fault} {d : Directory Unit}

/-- A recording does nothing to other names, whatever fails. -/
theorem record_untouched {path : PyStr} (h : ∀ kind, recording.path kind ≠ path) :
    (record env recording fault d).2.entries path = d.entries path := by
  have hnotMem : ∀ contents, path ∉ (recording.files contents).map Prod.fst := by
    intro contents hmem
    rw [files_fst] at hmem
    obtain ⟨kind, -, hkind⟩ := List.mem_map.mp hmem
    exact h kind hkind
  have hto := @record_to fault d env recording
  generalize record env recording fault d = outcome at hto ⊢
  cases hto with
  | refused ht => exact congrFun ht path
  | @behind e t contents hwould h =>
    obtain ⟨file, hfile, -, ht⟩ := h
    show t.entries path = _
    rw [ht, Function.update_of_ne]
    rintro rfl
    exact hnotMem contents (List.mem_map_of_mem hfile)
  | @written artifacts t contents hwould hcontents ht =>
    show t.entries path = _
    rw [ht, addFiles_of_notMem (hnotMem contents)]

theorem succeeds_iff : Succeeds env recording d ↔ WouldWrite env recording d := by
  have hquiet : ∀ c, ¬Strikes none c := by
    rintro c ⟨e, he⟩
    cases he
  have hto := @record_to none d env recording
  unfold Succeeds
  generalize record env recording none d = outcome at hto ⊢
  cases hto with
  | refused ht h =>
    refine iff_of_false (fun ⟨artifacts, h⟩ => (by cases h)) ?_
    rcases h with ⟨c, hstrikes, -⟩ | hnot
    · exact absurd hstrikes (hquiet c)
    · exact hnot
  | behind hwould h =>
    obtain ⟨file, -, hstrikes, -⟩ := h
    exact absurd hstrikes (hquiet _)
  | written hwould => exact iff_of_true ⟨_, rfl⟩ hwould

/-- No call makes a usable output directory unusable. -/
theorem outputUsable_record (h : OutputUsable d) : OutputUsable (record env recording fault d).2 := by
  refine Process.run_preserves (fun c s hs => ?_) _ h
  have hanswer : OutputUsable (answer () c s).2 := by
    cases c with
    | makeOutput =>
      rcases hs with hs | hs
      · simp only [answer, hs]
        exact .inr rfl
      · simp only [answer, hs]
        exact .inr hs
    | temp path call =>
      cases call with
      | link =>
        unfold answer
        dsimp only
        split <;> exact hs
      | _ => exact hs
    | unlink path =>
      unfold answer
      dsimp only
      split <;> exact hs
    | _ => exact hs
  unfold answerFaulty
  split
  · split_ifs
    · exact hs
    · exact hanswer
  · exact hanswer

/-- After the first of two recordings that are alike, the second one is refused. -/
theorem Alike.hinders (h : Alike a.response.responseId b.response.responseId) (ha : Succeeds env a d) :
    ¬Succeeds env b (record env a none d).2 := by
  have hpath : b.path .manifest = a.path .manifest := by
    unfold Recording.path Recording.safeId
    rw [alike_iff.mp h]
  have hto := @record_to none d env a
  obtain ⟨artifacts, ha⟩ := ha
  rw [succeeds_iff]
  generalize record env a none d = outcome at hto ha ⊢
  cases hto with
  | refused => cases ha
  | behind => cases ha
  | @written artifacts t contents hwould hcontents ht =>
    intro hb
    have hfree : t.entries (b.path .manifest) = none := hb.free .manifest (mem_kinds_manifest b)
    rw [hpath, entry_addFiles ht (mem_kinds_manifest a)] at hfree
    cases hfree

theorem Alike.not_apart (h : Alike a.response.responseId b.response.responseId) : ¬Apart env a b := by
  intro apart
  refine apart.names .manifest .manifest ?_
  unfold Recording.path Recording.safeId
  rw [alike_iff.mp h]

/-- **Recordings are apart exactly if the names keep different texts of the ids.** -/
theorem apart_iff : Apart env a b ↔ ¬Alike a.response.responseId b.response.responseId := by
  refine ⟨fun apart h => h.not_apart apart, fun h => ?_⟩
  have hnames : ∀ kind kind', a.path kind ≠ b.path kind' := fun kind kind' heq =>
    h (alike_iff.mpr (fileName_inj heq))
  have huntouched : ∀ fault d kind,
      (record env a fault d).2.entries (b.path kind) = d.entries (b.path kind) :=
    fun fault d kind => record_untouched fun kind' => hnames kind' kind
  refine ⟨hnames, huntouched, fun fault d hb => ?_⟩
  rw [succeeds_iff] at hb ⊢
  refine ⟨hb.requested, outputUsable_record hb.output, fun kind hkind => ?_, hb.contents⟩
  rw [huntouched, hb.free kind hkind]

/-! ## Responses of a collector -/

/-- A response that a collector hands out in some run. -/
def Returned (voiceEnv : VoiceEnv) (limits : Limits) (response : VoiceResponse) : Prop :=
  ∃ events event c', consumeFrom voiceEnv limits
    (feed voiceEnv limits ResponseCollector.initial events).2 event = (.ok (some response), c')

section Returned

variable {voiceEnv : VoiceEnv} {limits : Limits}

theorem Returned.matchesId {response : VoiceResponse} (h : Returned voiceEnv limits response) :
    matchesId response.responseId = true := by
  obtain ⟨events, event, c', h⟩ := h
  obtain ⟨-, hr⟩ := @feed_preserves voiceEnv limits _ events _ invariant_initial represents_initial
  obtain ⟨-, responseId, -, -, hid, hmatch, -⟩ := response_of_step hr (step_of_consume h)
  rwa [hid]

/-- The collector with the response of an id open. -/
def opened (id : PyStr) : ResponseCollector :=
  { ResponseCollector.initial.logged (lit "response.created") with responseId := some id }

/-- The metadata of a response. -/
def createdMetadata (id : PyStr) : Dict := Dict.empty.set (lit "id") (.str id) (Json.wellFormed_str id)

def createdEvent (id : PyStr) : Event :=
  (Dict.empty.set (lit "type") (.str (lit "response.created")) rfl).set (lit "response")
    (createdMetadata id).toJson (createdMetadata id).toJson_wellFormed

def doneEvent : Event := Dict.empty.set (lit "type") (.str (lit "response.done")) rfl

theorem createdId_createdEvent (h : Voice.matchesId id = true) :
    createdId (createdEvent id) = .ok id := by
  have hne : id ≠ [] := by
    rintro rfl
    cases h
  have hresponse : ((createdEvent id).get (lit "response")).toDict? = some (createdMetadata id) := by
    unfold createdEvent
    rw [Dict.get_set, if_pos rfl, Dict.toDict?_toJson]
  have hid : ((createdMetadata id).get (lit "id")).nonEmptyStr? = some id :=
    Json.nonEmptyStr?_eq_some.mpr ⟨(Dict.get_set _ _ _ _ _).trans (if_pos rfl), hne⟩
  unfold createdId
  simp only [hresponse, hid, h, if_true]

theorem consume_created (h : Voice.matchesId id = true) :
    consumeFrom voiceEnv limits ResponseCollector.initial (createdEvent id) =
      (.ok none, opened id) := by
  have htype : eventType? (createdEvent id) = some (lit "response.created") := rfl
  have hcount : ¬limits.maxResponseEvents < ResponseCollector.initial.eventCount + 1 := by
    have hrange := limits.events_range.1
    show ¬limits.maxResponseEvents < 0 + 1
    omega
  have hidle : ¬ResponseCollector.initial.responseId ≠ none := not_not.mpr rfl
  unfold consumeFrom consume consumeCreated
  simp only [htype, Act.run_bind, Act.run_get, Act.run_modify, Act.run_ofExcept, Act.run_pure,
    createdId_createdEvent h, if_neg hcount, if_true, if_neg hidle]
  rfl

theorem consume_done {c : ResponseCollector} (hid : c.responseId = some id) (hne : id ≠ [])
    (hcount : c.eventCount < limits.maxResponseEvents) (haudio : c.audioParts = []) :
    ∃ response, consumeFrom voiceEnv limits c doneEvent = (.ok (some response), ResponseCollector.initial) ∧
      response.responseId = id := by
  have htype : eventType? doneEvent = some (lit "response.done") := rfl
  have hcount : ¬limits.maxResponseEvents < c.eventCount + 1 := by omega
  have hactive : ¬c.responseId = none := by
    rw [hid]
    exact Option.some_ne_none id
  have htext : validatedTranscriptDelta voiceEnv doneEvent = .ok none :=
    validatedTranscriptDelta_of_notMem htype (by decide)
  have hstatus : doneStatus doneEvent = .ok none := rfl
  have heven : ¬c.audioParts.flatten.length % 2 ≠ 0 := by
    rw [haudio]
    decide
  unfold consumeFrom consume consumeDone reset
  simp only [htype, htext, hstatus, Act.run_bind, run_requireActiveResponse, Act.run_get, Act.run_ite,
    Act.run_modify, Act.run_ofExcept, Act.run_pure, Act.run_set, if_neg hcount, if_neg hactive,
    if_neg heven]
  refine ⟨_, rfl, ?_⟩
  show (c.responseId.filter (· ≠ [])).getD (lit "unknown") = id
  rw [hid, Option.filter_some, if_pos (by simpa using hne)]
  rfl

/-- Every id of the right form is that of a response that is handed out. -/
theorem exists_returned (h : Voice.matchesId id = true) :
    ∃ response, Returned voiceEnv limits response ∧ response.responseId = id := by
  have hne : id ≠ [] := by
    rintro rfl
    cases h
  have hcount : 1 < limits.maxResponseEvents := by
    have hrange := limits.events_range.1
    omega
  have hfeed : (feed voiceEnv limits ResponseCollector.initial [createdEvent id]).2 = opened id := by
    rw [feed, consume_created h]
    rfl
  obtain ⟨response, hdone, hid⟩ := @consume_done id voiceEnv limits (opened id) rfl hne hcount rfl
  refine ⟨response, ⟨[createdEvent id], doneEvent, .initial, ?_⟩, hid⟩
  rw [hfeed]
  exact hdone

/-- The ids of returned responses. -/
theorem returned_iff : (∃ response, Returned voiceEnv limits response ∧ response.responseId = id) ↔
    Voice.matchesId id = true := by
  refine ⟨?_, exists_returned⟩
  rintro ⟨response, h, rfl⟩
  exact h.matchesId

end Returned

/-! ## The artifacts of different responses -/

/-- **Recordings of different ids are apart exactly if the names keep different texts of the ids, and every
artifact is a file in the output directory.** -/
theorem artifacts_apart (env : RecorderEnv) :
    (∀ a b : Recording, Apart env a b ↔ ¬Alike a.response.responseId b.response.responseId) ∧
      ∀ (outputDir : PurePath) (recording : Recording) (kind : Kind),
        (outputDir.join (.ofText (recording.path kind))).IsChild outputDir ∧
          (outputDir.join (.ofText (recording.path kind))).name = recording.path kind :=
  ⟨fun _ _ => apart_iff, isChild_path⟩

/-- The ids `a:b` and `a_b` of two responses have the same names. -/
theorem sameNames_returned : ¬∀ (voiceEnv : VoiceEnv) (limits : Limits) (env : RecorderEnv)
    (a b : Recording), Returned voiceEnv limits a.response → Returned voiceEnv limits b.response →
      a.response.responseId ≠ b.response.responseId → Apart env a b := by
  intro h
  obtain ⟨first, hfirst, hfirstId⟩ :=
    (@returned_iff (lit "a:b") sampleEnv sampleConfig.limits).mpr (by decide)
  obtain ⟨second, hsecond, hsecondId⟩ :=
    (@returned_iff (lit "a_b") sampleEnv sampleConfig.limits).mpr (by decide)
  have hne : first.responseId ≠ second.responseId := by
    rw [hfirstId, hsecondId]
    decide
  have halike : Alike first.responseId second.responseId := by
    rw [hfirstId, hsecondId, alike_iff]
    decide
  exact Alike.not_apart halike
    (h sampleEnv sampleConfig.limits demoRecorder { sampleRecording with response := first }
      { sampleRecording with response := second } hfirst hsecond hne)

end Sentinel.Voice.Artifacts
