import SentinelCore.Py.JsonTokens

/-!
# Reading back values

`json.loads` on a text of `json.dumps` gives the value, with the members of its objects in the order in
which the format writes them (`loads_render`), also when a hook for objects looks at the members of each
object (`loadsPairs_render`), for every value whose tokens are read back (`Keeps`).

The argument follows the text: the items of a container one after the other, a container, a value.
-/

namespace Py

open Lib

/-! ## Containers -/

theorem skipSpace_newLine (f : JsonFormat) (level : ℕ) (r : PyStr) :
    skipSpace (f.newLine level ++ r) = skipSpace r := by
  unfold JsonFormat.newLine skipSpace
  cases f.indent with
  | none => rfl
  | some n =>
    rw [List.dropWhile_append_of_pos]
    intro c hc
    rcases List.mem_cons.mp hc with rfl | hc
    · decide
    · rw [List.eq_of_mem_replicate hc]
      decide

/-- White space is skipped. -/
theorem skipSpace_white {w : PyStr} (hw : skipSpace w = []) (r : PyStr) : skipSpace (w ++ r) = skipSpace r :=
  List.dropWhile_append_of_pos (List.dropWhile_eq_nil_iff.mp hw)

/-- The separators are a comma and a colon, with nothing but white space around them. -/
structure JsonFormat.IsSeparated (f : JsonFormat) : Prop where
  item : ∃ before after, f.itemSeparator = before ++ chr ',' :: after ∧
    skipSpace before = [] ∧ skipSpace after = []
  key : ∃ before after, f.keySeparator = before ++ chr ':' :: after ∧
    skipSpace before = [] ∧ skipSpace after = []

theorem isSeparated_canonical : JsonFormat.canonical.IsSeparated :=
  ⟨⟨[], [], rfl, rfl, rfl⟩, ⟨[], [], rfl, rfl, rfl⟩⟩

/-- So are the separators that `json.dumps` takes on its own. -/
theorem isSeparated_ofArgs (ensureAscii sortKeys : Bool) (indent : Option ℕ) :
    (JsonFormat.ofArgs ensureAscii sortKeys indent).IsSeparated := by
  refine ⟨?_, ⟨[], lit " ", rfl, rfl, rfl⟩⟩
  unfold JsonFormat.ofArgs
  dsimp only
  split_ifs
  · exact ⟨[], lit " ", rfl, rfl, rfl⟩
  · exact ⟨[], [], rfl, rfl, rfl⟩

/-- The characters a value may open with are among these. -/
def opensValue (c : CodePoint) : Bool := !isJsonSpace c && !isDelimiter c && c.val < 0x80

/-- The text starts with such a character. -/
def Starts (t : PyStr) : Prop := ∃ c u, t = c :: u ∧ opensValue c = true

theorem opensValue_iff {c : CodePoint} :
    opensValue c = true ↔ isJsonSpace c = false ∧ isDelimiter c = false ∧ c.val < 0x80 := by
  simp [opensValue, and_assoc]

theorem skipSpace_of_head {c : CodePoint} (h : isJsonSpace c = false) (r : PyStr) :
    skipSpace (c :: r) = c :: r := List.dropWhile_cons_of_neg (by simp [h])

theorem Starts.skipSpace {t : PyStr} (h : Starts t) (r : PyStr) : skipSpace (t ++ r) = t ++ r := by
  obtain ⟨c, u, rfl, hc⟩ := h
  exact skipSpace_of_head (opensValue_iff.mp hc).1 (u ++ r)

theorem Starts.head {t : PyStr} (h : Starts t) {d : CodePoint} (hd : isDelimiter d = true) (r : PyStr) :
    (t ++ r).head? ≠ some d := by
  obtain ⟨c, u, rfl, hc⟩ := h
  intro heq
  obtain rfl := Option.some.inj heq
  rw [(opensValue_iff.mp hc).2.1] at hd
  cases hd

section Containers

variable {ε : Type} (rt : Runtime) (hook : List (PyStr × Json) → Except ε Json) (f : JsonFormat)
  (level depth : ℕ)

/-- The text is read as the value, whatever follows it. -/
structure ReadAs (t : PyStr) (v : Json) : Prop where
  starts : Starts t
  reads : ∀ fuel r, t.length < fuel → Ends r → pairsValue rt hook fuel depth (t ++ r) = .ok (v, r)

variable {rt hook f level depth}

/-- A separator between items is read: white space, a comma, and white space again. -/
theorem JsonFormat.IsSeparated.skip_item (hf : f.IsSeparated) (r : PyStr) :
    ∃ rest, skipSpace (f.itemSeparator ++ r) = chr ',' :: rest ∧ skipSpace rest = skipSpace r := by
  obtain ⟨before, after, hitem, hbefore, hafter⟩ := hf.item
  refine ⟨after ++ r, ?_, skipSpace_white hafter r⟩
  rw [hitem, List.append_assoc, skipSpace_white hbefore]
  exact skipSpace_of_head (by decide) _

theorem JsonFormat.IsSeparated.skip_key (hf : f.IsSeparated) (r : PyStr) :
    ∃ rest, skipSpace (f.keySeparator ++ r) = chr ':' :: rest ∧ skipSpace rest = skipSpace r := by
  obtain ⟨before, after, hkey, hbefore, hafter⟩ := hf.key
  refine ⟨after ++ r, ?_, skipSpace_white hafter r⟩
  rw [hkey, List.append_assoc, skipSpace_white hbefore]
  exact skipSpace_of_head (by decide) _

variable (level) in
theorem ends_moreItems (hf : f.IsSeparated) (items : List PyStr) {c : CodePoint} (hc : isDelimiter c = true)
    (r : PyStr) : Ends (f.moreItems level items ++ (f.newLine level ++ c :: r)) := by
  cases items with
  | cons t ts =>
    obtain ⟨before, after, hitem, hbefore, -⟩ := hf.item
    have hwhite := List.dropWhile_eq_nil_iff.mp hbefore
    unfold JsonFormat.moreItems
    rw [List.flatMap_cons, hitem]
    cases before with
    | nil => exact ends_cons (.inl (by decide))
    | cons d before => exact ends_cons (.inr (hwhite d List.mem_cons_self))
  | nil =>
    unfold JsonFormat.moreItems JsonFormat.newLine
    cases f.indent with
    | none => exact ends_cons (.inl hc)
    | some n => exact ends_cons (.inr (by decide))

variable (f level) in
theorem moreItems_cons (t : PyStr) (ts : List PyStr) (r : PyStr) : f.moreItems level (t :: ts) ++ r =
    f.itemSeparator ++ (f.newLine (level + 1) ++ (t ++ (f.moreItems level ts ++ r))) := by
  simp [JsonFormat.moreItems, List.append_assoc]

/-- Before the next item a comma is read. -/
theorem skipSpace_moreItems (hf : f.IsSeparated) {t : PyStr} (ht : Starts t) (ts : List PyStr) (r : PyStr) :
    ∃ rest, skipSpace (f.moreItems level (t :: ts) ++ r) = chr ',' :: rest ∧
      skipSpace rest = t ++ (f.moreItems level ts ++ r) := by
  obtain ⟨rest, hskip, hrest⟩ := hf.skip_item (f.newLine (level + 1) ++ (t ++ (f.moreItems level ts ++ r)))
  refine ⟨rest, by rw [moreItems_cons, hskip], ?_⟩
  rw [hrest, skipSpace_newLine, ht.skipSpace]

variable (level) in
theorem length_moreItems (hf : f.IsSeparated) (t : PyStr) (ts : List PyStr) :
    t.length + (f.moreItems level ts).length < (f.moreItems level (t :: ts)).length := by
  have h := congrArg List.length (moreItems_cons f level t ts [])
  obtain ⟨before, after, hitem, -⟩ := hf.item
  rw [hitem] at h
  simp only [List.append_nil, List.length_append, List.length_cons] at h
  omega

/-! ### Steps -/

section Steps

variable {fuel : ℕ} {s s' r : PyStr} {v : Json} (hv : pairsValue rt hook fuel depth s = .ok (v, s'))

include hv

theorem pairsItems_last (acc : List Json) (hs : skipSpace s' = chr ']' :: r) :
    pairsItems rt hook (fuel + 1) depth acc s = .ok (.arr (acc ++ [v]), r) := by
  show pairsValue rt hook fuel depth s >>= _ = _
  rw [hv]
  simp only [bind, Except.bind, hs]
  rfl

theorem pairsItems_next (acc : List Json) (hs : skipSpace s' = chr ',' :: r) :
    pairsItems rt hook (fuel + 1) depth acc s = pairsItems rt hook fuel depth (acc ++ [v]) (skipSpace r) := by
  show pairsValue rt hook fuel depth s >>= _ = _
  rw [hv]
  simp only [bind, Except.bind, hs]
  rfl

end Steps

/-- The items of an array are read one after the other. -/
theorem pairsItems_read (hf : f.IsSeparated) {tv : PyStr × Json} {tvs : List (PyStr × Json)}
    (h : ∀ p ∈ tv :: tvs, ReadAs rt hook depth p.1 p.2) (acc : List Json) (r : PyStr) {fuel : ℕ}
    (hfuel : tv.1.length + (f.moreItems level (tvs.map Prod.fst)).length + 1 < fuel) :
    pairsItems rt hook fuel depth acc
        (tv.1 ++ (f.moreItems level (tvs.map Prod.fst) ++ (f.newLine level ++ chr ']' :: r))) =
      .ok (.arr (acc ++ (tv :: tvs).map Prod.snd), r) := by
  induction tvs generalizing tv acc fuel with
  | nil =>
    obtain ⟨fuel, rfl⟩ := Nat.exists_eq_add_one_of_ne_zero (Nat.ne_of_gt (Nat.zero_lt_of_lt hfuel))
    have hread := (h tv List.mem_cons_self).reads fuel _ (by omega)
      (ends_moreItems level hf [] (by decide : isDelimiter (chr ']') = true) r)
    refine pairsItems_last hread acc ?_
    show skipSpace (f.newLine level ++ chr ']' :: r) = _
    rw [skipSpace_newLine, skipSpace_of_head (by decide)]
  | cons tv' tvs ih =>
    obtain ⟨fuel, rfl⟩ := Nat.exists_eq_add_one_of_ne_zero (Nat.ne_of_gt (Nat.zero_lt_of_lt hfuel))
    rw [List.map_cons] at hfuel ⊢
    have hlen := length_moreItems level hf tv'.1 (tvs.map Prod.fst)
    have hstart := (h tv' (List.mem_cons_of_mem _ List.mem_cons_self)).1
    have hread := (h tv List.mem_cons_self).reads fuel _ (by omega) (ends_moreItems level hf
      (tv'.1 :: tvs.map Prod.fst) (by decide : isDelimiter (chr ']') = true) r)
    obtain ⟨rest, hcomma, hrest⟩ := skipSpace_moreItems hf hstart (tvs.map Prod.fst)
      (f.newLine level ++ chr ']' :: r)
    rw [pairsItems_next hread acc hcomma, hrest,
      ih (fun p hp => h p (List.mem_cons_of_mem _ hp)) (acc ++ [tv.2]) (by omega)]
    simp

/-! ### Members -/

section MemberSteps

variable {fuel : ℕ} {key : PyStr} {s s' r : PyStr} {v : Json} (hf : f.IsSeparated) (hkey : f.Separable key)
  (hstart : Starts s) (hv : pairsValue rt hook fuel depth s = .ok (v, s'))

include hf hkey hstart hv

theorem pairsMembers_last (pairs : List (PyStr × Json)) (hs : skipSpace s' = chr '}' :: r) :
    pairsMembers rt hook (fuel + 1) depth pairs (f.quote key ++ (f.keySeparator ++ s)) =
      closeObject hook (pairs ++ [(key, v)]) r := by
  have hhead : (f.quote key ++ (f.keySeparator ++ s)).head? = some (chr '"') := rfl
  obtain ⟨rest, hcolon, hrest⟩ := hf.skip_key s
  have hstarts := hstart.skipSpace []
  rw [List.append_nil] at hstarts
  rw [pairsMembers, if_pos hhead, scanString_string hkey]
  dsimp only
  rw [hcolon, if_pos List.head?_cons, List.tail_cons, hrest, hstarts, hv]
  simp only [bind, Except.bind, hs]
  rfl

theorem pairsMembers_next (pairs : List (PyStr × Json)) (hs : skipSpace s' = chr ',' :: r) :
    pairsMembers rt hook (fuel + 1) depth pairs (f.quote key ++ (f.keySeparator ++ s)) =
      pairsMembers rt hook fuel depth (pairs ++ [(key, v)]) (skipSpace r) := by
  have hhead : (f.quote key ++ (f.keySeparator ++ s)).head? = some (chr '"') := rfl
  obtain ⟨rest, hcolon, hrest⟩ := hf.skip_key s
  have hstarts := hstart.skipSpace []
  rw [List.append_nil] at hstarts
  rw [pairsMembers, if_pos hhead, scanString_string hkey]
  dsimp only
  rw [hcolon, if_pos List.head?_cons, List.tail_cons, hrest, hstarts, hv]
  simp only [bind, Except.bind, hs]
  rfl

end MemberSteps

/-- The members of an object are read one after the other. -/
theorem pairsMembers_read (hf : f.IsSeparated) {m : PyStr × PyStr × Json} {ms : List (PyStr × PyStr × Json)}
    (h : ∀ p ∈ m :: ms, f.Separable p.1 ∧ ReadAs rt hook depth p.2.1 p.2.2)
    (pairs : List (PyStr × Json)) (r : PyStr) {fuel : ℕ}
    (hfuel : (f.member (m.1, m.2.1)).length +
      (f.moreItems level (ms.map fun p => f.member (p.1, p.2.1))).length < fuel) :
    pairsMembers rt hook fuel depth pairs
        (f.member (m.1, m.2.1) ++ (f.moreItems level (ms.map fun p => f.member (p.1, p.2.1)) ++
          (f.newLine level ++ chr '}' :: r))) =
      closeObject hook (pairs ++ (m :: ms).map fun p => (p.1, p.2.2)) r := by
  have hmember : ∀ (p : PyStr × PyStr × Json) (x : PyStr),
      f.member (p.1, p.2.1) ++ x = f.quote p.1 ++ (f.keySeparator ++ (p.2.1 ++ x)) := by
    intro p x
    simp [JsonFormat.member, List.append_assoc]
  have hlength : ∀ p : PyStr × PyStr × Json, p.2.1.length + 1 < (f.member (p.1, p.2.1)).length := by
    intro p
    have hcolon : 1 ≤ f.keySeparator.length := by
      obtain ⟨before, after, hcolon, -⟩ := hf.key
      rw [hcolon, List.length_append, List.length_cons]
      omega
    simp only [JsonFormat.member, JsonFormat.quote, List.length_append, List.length_cons]
    have := length_tail (f := f) p.1
    omega
  have hstarts : ∀ {t v} (x : PyStr), ReadAs rt hook depth t v → Starts (t ++ x) := by
    rintro t v x ⟨⟨c, u, rfl, hc⟩, -⟩
    exact ⟨c, u ++ x, rfl, hc⟩
  induction ms generalizing m pairs fuel with
  | nil =>
    obtain ⟨fuel, rfl⟩ := Nat.exists_eq_add_one_of_ne_zero (Nat.ne_of_gt (Nat.zero_lt_of_lt hfuel))
    obtain ⟨hkey, hreads⟩ := h m List.mem_cons_self
    have hlen := hlength m
    have hread := hreads.reads fuel _ (by omega)
      (ends_moreItems level hf [] (by decide : isDelimiter (chr '}') = true) r)
    have hrest : skipSpace (f.moreItems level [] ++ (f.newLine level ++ chr '}' :: r)) = chr '}' :: r := by
      show skipSpace (f.newLine level ++ chr '}' :: r) = _
      rw [skipSpace_newLine, skipSpace_of_head (by decide)]
    rw [List.map_nil, hmember, pairsMembers_last hf hkey (hstarts _ hreads) hread pairs hrest]
    rfl
  | cons m' ms ih =>
    obtain ⟨fuel, rfl⟩ := Nat.exists_eq_add_one_of_ne_zero (Nat.ne_of_gt (Nat.zero_lt_of_lt hfuel))
    obtain ⟨hkey, hreads⟩ := h m List.mem_cons_self
    rw [List.map_cons] at hfuel ⊢
    have hlen := hlength m
    have hmore := length_moreItems level hf (f.member (m'.1, m'.2.1))
      (ms.map fun p => f.member (p.1, p.2.1))
    have hread := hreads.reads fuel _ (by omega) (ends_moreItems level hf
      (f.member (m'.1, m'.2.1) :: ms.map fun p => f.member (p.1, p.2.1))
      (by decide : isDelimiter (chr '}') = true) r)
    have hquote : Starts (f.member (m'.1, m'.2.1)) := ⟨chr '"', _, rfl, by decide⟩
    obtain ⟨rest, hcomma, hrest⟩ := skipSpace_moreItems hf hquote
      (ms.map fun p => f.member (p.1, p.2.1)) (f.newLine level ++ chr '}' :: r)
    rw [hmember, pairsMembers_next hf hkey (hstarts _ hreads) hread pairs hcomma, hrest,
      ih (fun p hp => h p (List.mem_cons_of_mem _ hp)) _ (by omega)]
    simp

/-! ### Whole containers -/

/-- A character that opens no container and no string opens a scalar. -/
theorem pairsValue_scalar {c : CodePoint} {s : PyStr} (h : c ≠ chr '"' ∧ c ≠ chr '{' ∧ c ≠ chr '[') (fuel : ℕ) :
    pairsValue rt hook (fuel + 1) depth (c :: s) = (scanScalar rt (c :: s)).mapError .scan := by
  have hne : ∀ d, c ≠ d → (c :: s).head? ≠ some d := fun d hd heq => hd (Option.some.inj heq)
  show (if (c :: s).head? = some (chr '"') then _ else if (c :: s).head? = some (chr '{') then _ else
    if (c :: s).head? = some (chr '[') then _ else _) = _
  rw [if_neg (hne _ h.1), if_neg (hne _ h.2.1), if_neg (hne _ h.2.2)]

theorem pairsValue_string {s t rest : PyStr} (h : scanString ((chr '"' :: s).length + 1) s = some (t, rest))
    (fuel : ℕ) : pairsValue rt hook (fuel + 1) depth (chr '"' :: s) = .ok (.str t, rest) := by
  have hhead : (chr '"' :: s).head? = some (chr '"') := rfl
  rw [pairsValue.eq_def]
  dsimp only
  rw [if_pos hhead, List.tail_cons, h]

theorem pairsValue_array {s : PyStr} (h : (skipSpace s).head? ≠ some (chr ']')) (fuel : ℕ) :
    pairsValue rt hook (fuel + 1) (depth + 1) (chr '[' :: s) =
      pairsItems rt hook fuel depth [] (skipSpace s) := by
  show (if (skipSpace s).head? = some (chr ']') then Except.ok (Json.arr [], (skipSpace s).tail)
    else pairsItems rt hook fuel depth [] (skipSpace s)) = _
  rw [if_neg h]

theorem pairsValue_object {s : PyStr} (h : (skipSpace s).head? ≠ some (chr '}')) (fuel : ℕ) :
    pairsValue rt hook (fuel + 1) (depth + 1) (chr '{' :: s) =
      pairsMembers rt hook fuel depth [] (skipSpace s) := by
  show (if (skipSpace s).head? = some (chr '}') then closeObject hook [] (skipSpace s).tail
    else pairsMembers rt hook fuel depth [] (skipSpace s)) = _
  rw [if_neg h]

/-- A block with items, and what follows it. -/
theorem block_cons (opening closing : CodePoint) (t : PyStr) (ts : List PyStr) (r : PyStr) :
    f.block opening closing level (t :: ts) ++ r = opening :: (f.newLine (level + 1) ++
      (t ++ (f.moreItems level ts ++ (f.newLine level ++ closing :: r)))) := by
  simp [JsonFormat.block, List.append_assoc]

variable (f level) in
theorem length_block (opening closing : CodePoint) (t : PyStr) (ts : List PyStr) :
    t.length + (f.moreItems level ts).length + 2 ≤ (f.block opening closing level (t :: ts)).length := by
  simp only [JsonFormat.block, List.length_cons, List.length_append, List.length_nil]
  omega

variable (level) in
/-- An array is read when its items are. -/
theorem readAs_arr (hf : f.IsSeparated) {tvs : List (PyStr × Json)}
    (h : ∀ p ∈ tvs, ReadAs rt hook depth p.1 p.2) :
    ReadAs rt hook (depth + 1) (f.block (chr '[') (chr ']') level (tvs.map Prod.fst))
      (.arr (tvs.map Prod.snd)) := by
  cases tvs with
  | nil =>
    refine ⟨⟨_, _, rfl, by decide⟩, fun fuel r hfuel _ => ?_⟩
    obtain ⟨fuel, rfl⟩ := Nat.exists_eq_add_one_of_ne_zero (Nat.ne_of_gt (Nat.zero_lt_of_lt hfuel))
    rfl
  | cons tv tvs =>
    refine ⟨⟨_, _, rfl, by decide⟩, fun fuel r hfuel _ => ?_⟩
    obtain ⟨fuel, rfl⟩ := Nat.exists_eq_add_one_of_ne_zero (Nat.ne_of_gt (Nat.zero_lt_of_lt hfuel))
    have hstart := (h tv List.mem_cons_self).1
    have hlen := length_block f level (chr '[') (chr ']') tv.1 (tvs.map Prod.fst)
    rw [List.map_cons] at hfuel ⊢
    have hskip := skipSpace_newLine f (level + 1) (tv.1 ++ (f.moreItems level (tvs.map Prod.fst) ++
      (f.newLine level ++ chr ']' :: r)))
    rw [hstart.skipSpace] at hskip
    rw [block_cons, pairsValue_array (by rw [hskip]; exact hstart.head (by decide) _), hskip,
      pairsItems_read hf h [] r (by omega)]
    rfl

variable (level) in
/-- An object is read when its members are, and the hook decides. -/
theorem readAs_obj (hf : f.IsSeparated) (hhook : ∀ pairs : List (PyStr × Json), (pairs.map Prod.fst).Nodup →
      hook pairs = .ok (.obj pairs)) {ms : List (PyStr × PyStr × Json)} (hn : (ms.map Prod.fst).Nodup)
    (h : ∀ p ∈ ms, f.Separable p.1 ∧ ReadAs rt hook depth p.2.1 p.2.2) :
    ReadAs rt hook (depth + 1) (f.block (chr '{') (chr '}') level (ms.map fun p => f.member (p.1, p.2.1)))
      (.obj (ms.map fun p => (p.1, p.2.2))) := by
  have hclose : ∀ r, closeObject hook (ms.map fun p => (p.1, p.2.2)) r =
      .ok (.obj (ms.map fun p => (p.1, p.2.2)), r) := by
    intro r
    unfold closeObject
    rw [hhook _ (by rw [List.map_map]; exact hn)]
  cases ms with
  | nil =>
    refine ⟨⟨_, _, rfl, by decide⟩, fun fuel r hfuel _ => ?_⟩
    obtain ⟨fuel, rfl⟩ := Nat.exists_eq_add_one_of_ne_zero (Nat.ne_of_gt (Nat.zero_lt_of_lt hfuel))
    exact hclose r
  | cons m ms =>
    refine ⟨⟨_, _, rfl, by decide⟩, fun fuel r hfuel _ => ?_⟩
    obtain ⟨fuel, rfl⟩ := Nat.exists_eq_add_one_of_ne_zero (Nat.ne_of_gt (Nat.zero_lt_of_lt hfuel))
    have hquote : Starts (f.member (m.1, m.2.1)) := ⟨chr '"', _, rfl, by decide⟩
    have hlen := length_block f level (chr '{') (chr '}') (f.member (m.1, m.2.1))
      (ms.map fun p => f.member (p.1, p.2.1))
    rw [List.map_cons (f := fun p : PyStr × PyStr × Json => f.member (p.1, p.2.1))] at hfuel ⊢
    have hskip := skipSpace_newLine f (level + 1) (f.member (m.1, m.2.1) ++ (f.moreItems level
      (ms.map fun p => f.member (p.1, p.2.1)) ++ (f.newLine level ++ chr '}' :: r)))
    rw [hquote.skipSpace] at hskip
    rw [block_cons, pairsValue_object (by rw [hskip]; exact hquote.head (by decide) _), hskip,
      pairsMembers_read hf h [] r (by omega)]
    exact hclose r

end Containers

/-! ## Values -/

theorem foldl_setField {pairs acc : List (PyStr × Json)} (h : ((acc ++ pairs).map Prod.fst).Nodup) :
    pairs.foldl (fun fields kv => setField fields kv.1 kv.2) acc = acc ++ pairs := by
  have hnew : ∀ (fields : List (PyStr × Json)) (key : PyStr) (v : Json), key ∉ fields.map Prod.fst →
      setField fields key v = fields ++ [(key, v)] := by
    intro fields key v hkey
    induction fields with
    | nil => rfl
    | cons kv rest ih =>
      rw [List.map_cons, List.mem_cons, not_or] at hkey
      rw [setField, if_neg (Ne.symm hkey.1), ih hkey.2, List.cons_append]
  induction pairs generalizing acc with
  | nil => rw [List.foldl_nil, List.append_nil]
  | cons kv pairs ih =>
    have hfresh : kv.1 ∉ acc.map Prod.fst := by
      rw [List.map_append, List.nodup_append'] at h
      exact fun hmem => h.2.2 hmem (List.mem_map_of_mem List.mem_cons_self)
    rw [List.foldl_cons, hnew acc kv.1 kv.2 hfresh, ih (by rwa [List.append_assoc]), List.append_assoc]
    rfl

theorem overwrite_nodup {ε : Type} {pairs : List (PyStr × Json)} (h : (pairs.map Prod.fst).Nodup) :
    overwrite ε pairs = .ok (.obj pairs) := by
  unfold overwrite
  rw [foldl_setField (by rwa [List.nil_append]), List.nil_append]

/-- The value is kept by writing and reading. -/
structure Runtime.Keeps (rt : Runtime) (f : JsonFormat) (v : Json) : Prop where
  separated : f.IsSeparated
  wellFormed : v.wellFormed = true
  intsPrintable : v.intsPrintable = true
  atoms : v.Atoms f.Separable rt.ReadsFloat

section Values

variable {ε : Type} {rt : Runtime} {hook : List (PyStr × Json) → Except ε Json} {f : JsonFormat}
  (hhook : ∀ pairs : List (PyStr × Json), (pairs.map Prod.fst).Nodup → hook pairs = .ok (.obj pairs))

/-- A text that is no string and no container is read as a scalar. -/
theorem readAs_scalar {depth : ℕ} {t : PyStr} {v : Json} {c : CodePoint} {u : PyStr} (ht : t = c :: u)
    (hc : c ≠ chr '"' ∧ c ≠ chr '{' ∧ c ≠ chr '[') (hs : opensValue c = true)
    (h : ∀ r, Ends r → scanScalar rt (t ++ r) = .ok (v, r)) : ReadAs rt hook depth t v := by
  refine ⟨⟨c, u, ht, hs⟩, fun fuel r hfuel hr => ?_⟩
  obtain ⟨fuel, rfl⟩ := Nat.exists_eq_add_one_of_ne_zero (Nat.ne_of_gt (Nat.zero_lt_of_lt hfuel))
  have hscan := h r hr
  rw [ht, List.cons_append] at hscan ⊢
  rw [pairsValue_scalar hc, hscan]
  rfl

/-- The first character of a number. -/
theorem number_head {t : PyStr} {p : PyStr × Bool × PyStr} (h : matchNumber t = some p) :
    ∃ c u, t = c :: u ∧ (c ≠ chr '"' ∧ c ≠ chr '{' ∧ c ≠ chr '[') ∧ opensValue c = true := by
  have hmark : ∀ c : CodePoint, isAsciiDigit c = true ∨ c = chr '-' →
      (c ≠ chr '"' ∧ c ≠ chr '{' ∧ c ≠ chr '[') ∧ opensValue c = true := by
    intro c hc
    have hne : ∀ d, isAsciiDigit d = false → d ≠ chr '-' → c ≠ d := by
      rintro d hd hminus rfl
      rcases hc with hc | hc
      · rw [hd] at hc
        cases hc
      · exact hminus hc
    refine ⟨⟨hne _ (by decide) (by decide), hne _ (by decide) (by decide), hne _ (by decide) (by decide)⟩,
      opensValue_iff.mpr ⟨?_, ?_, ?_⟩⟩
    · simp [isJsonSpace, hne (chr ' ') (by decide) (by decide), hne (chr '\t') (by decide) (by decide),
        hne (chr '\n') (by decide) (by decide), hne (chr '\r') (by decide) (by decide)]
    · simp [isDelimiter, hne (chr ',') (by decide) (by decide), hne (chr ']') (by decide) (by decide),
        hne (chr '}') (by decide) (by decide)]
    · rcases hc with hc | rfl
      · simp only [isAsciiDigit, Bool.and_eq_true, decide_eq_true_eq] at hc
        omega
      · decide
  obtain ⟨c, u, hc, rfl | rfl⟩ := matchNumber_head h
  · exact ⟨c, u, rfl, hmark c (.inl hc)⟩
  · exact ⟨_, _, rfl, hmark _ (.inr rfl)⟩

include hhook

/-- A value that is kept is read from its text. -/
theorem readAs_render {v : Json} (level : ℕ) {depth : ℕ} (h : rt.Keeps f v) (hdepth : v.depth ≤ depth) :
    ReadAs rt hook depth (v.render f level) (v.ordered f) := by
  obtain ⟨hf, hwf, hints, hatoms⟩ := h
  induction v using Json.induct generalizing level depth with
  | null => exact readAs_scalar rfl (by decide) (by decide) fun r _ => rfl
  | bool b =>
    cases b with
    | true => exact readAs_scalar rfl (by decide) (by decide) fun r _ => rfl
    | false => exact readAs_scalar rfl (by decide) (by decide) fun r _ => rfl
  | int i =>
    obtain ⟨c, u, ht, hc, hs⟩ := number_head (matchNumber_intText i)
    exact readAs_scalar ht hc hs fun r hr => scanScalar_int hints hr
  | float x =>
    have hread : rt.ReadsFloat x := hatoms
    have hhead : ∃ c u, x.text = c :: u ∧ (c ≠ chr '"' ∧ c ≠ chr '{' ∧ c ≠ chr '[') ∧
        opensValue c = true := by
      rcases hread with hmem | ⟨hmatch, -⟩
      · simp only [List.mem_cons, List.not_mem_nil, or_false] at hmem
        rcases hmem with h | h | h <;> exact ⟨_, _, h, by decide, by decide⟩
      · exact number_head hmatch
    obtain ⟨c, u, ht, hc, hs⟩ := hhead
    exact readAs_scalar ht hc hs fun r hr => scanScalar_float hread hr
  | str s =>
    refine ⟨⟨chr '"', _, rfl, by decide⟩, fun fuel r hfuel _ => ?_⟩
    obtain ⟨fuel, rfl⟩ := Nat.exists_eq_add_one_of_ne_zero (Nat.ne_of_gt (Nat.zero_lt_of_lt hfuel))
    exact pairsValue_string (scanString_string hatoms r) fuel
  | arr items ih =>
    obtain ⟨depth, rfl⟩ := Nat.exists_eq_add_one_of_ne_zero (Nat.ne_of_gt (Nat.zero_lt_of_lt hdepth))
    have hitems : ∀ p ∈ items.map fun v => (v.render f (level + 1), v.ordered f),
        ReadAs rt hook depth p.1 p.2 := by
      intro p hp
      obtain ⟨v, hv, rfl⟩ := List.mem_map.mp hp
      exact ih v hv (level + 1) (Json.depthItems_le.mp (Nat.le_of_succ_le_succ hdepth) v hv)
        (Json.wellFormed_arr.mp hwf v hv) (Json.intsPrintableItems_iff.mp hints v hv)
        (Json.atoms_arr.mp hatoms v hv)
    have hread := readAs_arr level hf hitems
    rw [List.map_map, List.map_map] at hread
    rw [Json.render_arr, Json.ordered_arr]
    exact hread
  | obj fields ih =>
    obtain ⟨depth, rfl⟩ := Nat.exists_eq_add_one_of_ne_zero (Nat.ne_of_gt (Nat.zero_lt_of_lt hdepth))
    obtain ⟨hn, hfields⟩ := Json.wellFormed_obj.mp hwf
    have hmembers : ∀ p ∈ (f.order fields).map fun kv => (kv.1, kv.2.render f (level + 1), kv.2.ordered f),
        f.Separable p.1 ∧ ReadAs rt hook depth p.2.1 p.2.2 := by
      intro p hp
      obtain ⟨kv, hkv, rfl⟩ := List.mem_map.mp hp
      have hmem := JsonFormat.order_perm.mem_iff.mp hkv
      exact ⟨(Json.atoms_obj.mp hatoms kv hmem).1, ih kv hmem (level + 1)
        (Json.depthFields_le.mp (Nat.le_of_succ_le_succ hdepth) kv hmem) (hfields kv hmem)
        (Json.intsPrintableFields_iff.mp hints kv hmem) (Json.atoms_obj.mp hatoms kv hmem).2⟩
    have hkeys : (((f.order fields).map fun kv => (kv.1, kv.2.render f (level + 1), kv.2.ordered f)).map
        Prod.fst).Nodup := by
      rw [List.map_map]
      exact JsonFormat.order_nodup hn
    have hread := readAs_obj level hf hhook hkeys hmembers
    rw [List.map_map, List.map_map] at hread
    rw [Json.render_obj, Json.ordered_obj, JsonFormat.order_map, JsonFormat.order_map, List.map_map]
    exact hread

/-- **The decoder reads back what was written**, with its objects in order, whatever white space follows. -/
theorem loadsPairs_render {v : Json} (h : rt.Keeps f v) (hdepth : v.depth ≤ rt.maxDepth) {w : PyStr}
    (hw : skipSpace w = []) :
    loadsPairs rt hook (v.render f 0 ++ w) = .ok (v.ordered f) := by
  obtain ⟨⟨c, u, ht, hc⟩, hread⟩ := readAs_render (f := f) hhook 0 h hdepth
  have hends : Ends w := by
    intro d hd
    cases w with
    | nil => cases hd
    | cons e w =>
      obtain rfl : e = d := by simpa using hd
      by_contra hno
      rw [not_or, Bool.not_eq_true, Bool.not_eq_true] at hno
      rw [skipSpace_of_head hno.2] at hw
      cases hw
  have hmark : (v.render f 0 ++ w).head? ≠ some 0xFEFF := by
    rw [ht]
    intro heq
    have hlt := (opensValue_iff.mp hc).2.2
    rw [Option.some.inj heq] at hlt
    exact absurd hlt (by decide)
  have hstart : skipSpace (v.render f 0 ++ w) = v.render f 0 ++ w :=
    Starts.skipSpace ⟨c, u, ht, hc⟩ w
  unfold loadsPairs
  dsimp only
  rw [if_neg hmark, hstart, hread _ w (by rw [List.length_append]; omega) hends]
  dsimp only
  rw [if_pos hw]

end Values

/-- Without a hook. -/
theorem loads_render {rt : Runtime} {f : JsonFormat} {v : Json} (h : rt.Keeps f v)
    (hdepth : v.depth ≤ rt.maxDepth) {w : PyStr} (hw : skipSpace w = []) :
    loads rt (v.render f 0 ++ w) = .ok (v.ordered f) := by
  have hpairs : loadsPairs rt (overwrite Empty) (v.render f 0 ++ w) = .ok (v.ordered f) :=
    loadsPairs_render (fun pairs hn => overwrite_nodup hn) h hdepth hw
  rw [loadsPairs_overwrite] at hpairs
  cases hloads : loads rt (v.render f 0 ++ w) with
  | error e =>
    rw [hloads] at hpairs
    cases hpairs
  | ok v' =>
    rw [hloads] at hpairs
    exact congrArg Except.ok (Except.ok.inj hpairs)

/-! ## Encodable texts -/

theorem isEncodable_cons_iff {c : CodePoint} {s : PyStr} :
    isEncodable (c :: s) = true ↔ isSurrogate c.val = false ∧ isEncodable s = true := by
  simp [isEncodable]

theorem isEncodable_joinComma {ts : List PyStr} :
    isEncodable (joinComma ts) = true ↔ ∀ t ∈ ts, isEncodable t = true := by
  induction ts with
  | nil => simp [joinComma, isEncodable]
  | cons t ts ih =>
    cases ts with
    | nil => simp [joinComma]
    | cons u ts =>
      have hcomma : ∀ s, isEncodable (chr ',' :: s) = isEncodable s := fun _ => rfl
      rw [joinComma, isEncodable_append, hcomma, ih, List.forall_mem_cons (a := t)]

/-- A value with an encodable text has encodable strings only. -/
theorem Json.atoms_of_encodable {v : Json} :
    isEncodable v.text = true → v.Atoms (fun s => isEncodable s = true) fun _ => True := by
  induction v using Json.induct with
  | null | bool | int | float => exact fun _ => trivial
  | str s =>
    intro h
    have hquote : isEncodable (quote s) = isEncodable s := isEncodable_quoteTail s
    show isEncodable s = true
    rw [← hquote]
    exact h
  | arr items ih =>
    intro h
    rw [text_arr] at h
    have hitems := (isEncodable_append.mp (isEncodable_cons_iff.mp h).2).1
    refine atoms_arr.mpr fun v hv => ih v hv ?_
    exact isEncodable_joinComma.mp hitems _ (List.mem_map_of_mem hv)
  | obj fields ih =>
    intro h
    rw [text_obj] at h
    have hitems := (isEncodable_append.mp (isEncodable_cons_iff.mp h).2).1
    refine atoms_obj.mpr fun kv hkv => ?_
    have hmember : isEncodable (memberText (kv.1, kv.2.text)) = true := by
      refine isEncodable_joinComma.mp hitems _ (List.mem_map.mpr ⟨kv, ?_, rfl⟩)
      exact (sortFields_perm fields).mem_iff.mpr hkv
    obtain ⟨hkey, hvalue⟩ := isEncodable_append.mp hmember
    have hquote : isEncodable (quote kv.1) = isEncodable kv.1 := isEncodable_quoteTail kv.1
    exact ⟨hquote ▸ hkey, ih kv hkv (isEncodable_cons_iff.mp hvalue).2⟩

/-- Without surrogates a string is kept by every format. -/
theorem JsonFormat.separable_of_encodable (f : JsonFormat) {s : PyStr} (h : isEncodable s = true) :
    f.Separable s := by
  have hnone : ∀ s : PyStr, isEncodable s = true → hasSurrogatePair s = false := by
    intro s h
    induction s with
    | nil => rfl
    | cons c s ih =>
      obtain ⟨hc, hs⟩ := isEncodable_cons_iff.mp h
      cases s with
      | nil => rfl
      | cons d s =>
        have hhigh : isHighSurrogate c.val = false := by
          simp only [isSurrogate, Bool.and_eq_false_iff, decide_eq_false_iff_not] at hc
          simp only [isHighSurrogate, Bool.and_eq_false_iff, decide_eq_false_iff_not]
          omega
        rw [hasSurrogatePair, hhigh, Bool.false_and, Bool.false_or]
        exact ih hs
  exact fun _ => hnone s h

end Py
