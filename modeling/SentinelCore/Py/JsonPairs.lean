import SentinelCore.Py.JsonDecoder

/-!
# Objects as pairs

`json.loads(text, object_pairs_hook=hook)`: each object of the text is handed to the hook as the list
of its members, in order and with repeated keys, when its closing brace is read; an exception of the
hook stops the scan.

`loadsPairs_overwrite`: with the hook that overwrites earlier members it is `json.loads` without one.

`compactText` is the text of `json.dumps(value, ensure_ascii=False, separators=(",", ":"))`, with the
members of objects in insertion order.
-/

namespace Py

/-! ## Reading -/

/-- Why scanning with a hook stops. -/
inductive PairsError (ε : Type) where
  | scan (e : ScanError)
  | hook (e : ε)
  deriving DecidableEq

section Scan

variable {ε : Type} (rt : Runtime) (hook : List (PyStr × Json) → Except ε Json)

/-- What the hook makes of an object, before the rest of the text. -/
def closeObject (pairs : List (PyStr × Json)) (rest : PyStr) : Except (PairsError ε) (Json × PyStr) :=
  match hook pairs with
  | .ok v => .ok (v, rest)
  | .error e => .error (.hook e)

mutual

/-- One value. -/
def pairsValue : ℕ → ℕ → PyStr → Except (PairsError ε) (Json × PyStr)
  | 0, _, _ => .error (.scan .invalid)
  | fuel + 1, depth, s =>
    if s.head? = some (chr '"') then
      match scanString (s.length + 1) s.tail with
      | some (t, rest) => .ok (.str t, rest)
      | none => .error (.scan .invalid)
    else if s.head? = some (chr '{') then
      match depth with
      | 0 => .error (.scan .tooDeep)
      | depth + 1 =>
        let s := skipSpace s.tail
        if s.head? = some (chr '}') then closeObject hook [] s.tail
        else pairsMembers fuel depth [] s
    else if s.head? = some (chr '[') then
      match depth with
      | 0 => .error (.scan .tooDeep)
      | depth + 1 =>
        let s := skipSpace s.tail
        if s.head? = some (chr ']') then .ok (.arr [], s.tail)
        else pairsItems fuel depth [] s
    else (scanScalar rt s).mapError .scan

/-- The items of an array from the next one on. -/
def pairsItems : ℕ → ℕ → List Json → PyStr → Except (PairsError ε) (Json × PyStr)
  | 0, _, _, _ => .error (.scan .invalid)
  | fuel + 1, depth, items, s => do
    let (v, s) ← pairsValue fuel depth s
    let items := items ++ [v]
    let s := skipSpace s
    if s.head? = some (chr ']') then .ok (.arr items, s.tail)
    else if s.head? = some (chr ',') then pairsItems fuel depth items (skipSpace s.tail)
    else .error (.scan .invalid)

/-- The members of an object from the next one on. -/
def pairsMembers : ℕ → ℕ → List (PyStr × Json) → PyStr → Except (PairsError ε) (Json × PyStr)
  | 0, _, _, _ => .error (.scan .invalid)
  | fuel + 1, depth, pairs, s =>
    if s.head? = some (chr '"') then
      match scanString (s.length + 1) s.tail with
      | none => .error (.scan .invalid)
      | some (key, s) =>
        let s := skipSpace s
        if s.head? = some (chr ':') then do
          let (v, s) ← pairsValue fuel depth (skipSpace s.tail)
          let pairs := pairs ++ [(key, v)]
          let s := skipSpace s
          if s.head? = some (chr '}') then closeObject hook pairs s.tail
          else if s.head? = some (chr ',') then
            pairsMembers fuel depth pairs (skipSpace s.tail)
          else .error (.scan .invalid)
        else .error (.scan .invalid)
    else .error (.scan .invalid)

end

/-- The exception of a scan that stops, when the hook raised none. -/
def ScanError.toExc (text : PyStr) : ScanError → PyExc
  | .invalid => .std .jsonDecodeError (.jsonLoads text)
  | .tooDeep => .std .recursionError (.jsonLoads text)
  | .tooManyDigits => .std .valueError (.jsonLoads text)

/-- `json.loads(text, object_pairs_hook=hook)`; an exception of the hook stands on the right. -/
def loadsPairs (text : PyStr) : Except (PyExc ⊕ ε) Json :=
  let invalid := ScanError.toExc text .invalid
  if text.head? = some 0xFEFF then .error (.inl invalid)
  else
    match pairsValue rt hook (text.length + 1) rt.maxDepth (skipSpace text) with
    | .ok (v, rest) => if skipSpace rest = [] then .ok v else .error (.inl invalid)
    | .error (.scan e) => .error (.inl (e.toExc text))
    | .error (.hook e) => .error (.inr e)

end Scan

/-! ### What the hook raises -/

section Hook

variable {ε : Type} {rt : Runtime} {hook : List (PyStr × Json) → Except ε Json} {P : ε → Prop}
  (hhook : ∀ pairs e, hook pairs = .error e → P e)

include hhook

theorem closeObject_hook {pairs : List (PyStr × Json)} {rest : PyStr} {e : ε}
    (h : closeObject hook pairs rest = .error (.hook e)) : P e := by
  unfold closeObject at h
  split at h
  · cases h
  · next e' he =>
    obtain rfl := PairsError.hook.inj (Except.error.inj h)
    exact hhook pairs _ he

/-- The exceptions of the hook are the only ones a scan adds. -/
theorem pairs_hook : ∀ fuel,
    (∀ depth s e, pairsValue rt hook fuel depth s = .error (.hook e) → P e) ∧
    (∀ depth items s e, pairsItems rt hook fuel depth items s = .error (.hook e) → P e) ∧
    (∀ depth pairs s e, pairsMembers rt hook fuel depth pairs s = .error (.hook e) → P e) := by
  intro fuel
  induction fuel with
  | zero =>
    refine ⟨fun _ _ _ h => ?_, fun _ _ _ _ h => ?_, fun _ _ _ _ h => ?_⟩
    · cases h
    · cases h
    · cases h
  | succ fuel ih =>
    obtain ⟨ihv, ihi, ihm⟩ := ih
    refine ⟨fun depth s e h => ?_, fun depth items s e h => ?_, fun depth pairs s e h => ?_⟩
    · rw [pairsValue.eq_def] at h
      dsimp only at h
      split at h
      · split at h <;> cases h
      split at h
      · split at h
        · cases h
        · split at h
          · exact closeObject_hook hhook h
          · exact ihm _ _ _ _ h
      split at h
      · split at h
        · cases h
        · split at h
          · cases h
          · exact ihi _ _ _ _ h
      · cases hs : scanScalar rt s with
        | ok r =>
          rw [hs] at h
          cases h
        | error e' =>
          rw [hs] at h
          cases h
    · rw [pairsItems.eq_def] at h
      dsimp only at h
      cases hv : pairsValue rt hook fuel depth s with
      | error e' =>
        rw [hv] at h
        obtain rfl := Except.error.inj h
        exact ihv _ _ _ hv
      | ok r =>
        rw [hv] at h
        simp only [bind, Except.bind] at h
        split_ifs at h
        · exact ihi _ _ _ _ h
        · cases h
    · rw [pairsMembers.eq_def] at h
      dsimp only at h
      split_ifs at h
      · split at h
        · cases h
        · split_ifs at h
          · cases hv : pairsValue rt hook fuel depth _ with
            | error e' =>
              rw [hv] at h
              obtain rfl := Except.error.inj h
              exact ihv _ _ _ hv
            | ok r =>
              rw [hv] at h
              simp only [bind, Except.bind] at h
              split_ifs at h
              · exact closeObject_hook hhook h
              · exact ihm _ _ _ _ h
              · cases h
          · cases h
      · cases h

theorem loadsPairs_hook {text : PyStr} {e : ε} (h : loadsPairs rt hook text = .error (.inr e)) :
    P e := by
  unfold loadsPairs at h
  dsimp only at h
  split at h
  · cases h
  · split at h
    · split_ifs at h
      cases h
    · cases h
    · next e' he =>
      obtain rfl := Sum.inr.inj (Except.error.inj h)
      exact (pairs_hook hhook _).1 _ _ _ he

end Hook

/-! ### What the scan gives -/

section Fits

variable {ε : Type} {rt : Runtime} {hook : List (PyStr × Json) → Except ε Json}
  (hhook : ∀ depth pairs v, (∀ kv ∈ pairs, FitsDepth depth kv.2) → hook pairs = .ok v →
    FitsDepth (depth + 1) v)

include hhook

theorem closeObject_fits {depth : ℕ} {pairs : List (PyStr × Json)} {rest rest' : PyStr} {v : Json}
    (hpairs : ∀ kv ∈ pairs, FitsDepth depth kv.2)
    (h : closeObject hook pairs rest = .ok (v, rest')) : FitsDepth (depth + 1) v := by
  unfold closeObject at h
  cases hv : hook pairs with
  | error e => rw [hv] at h; cases h
  | ok v' =>
    rw [hv] at h
    obtain ⟨rfl, -⟩ := Prod.mk.inj (Except.ok.inj h)
    exact hhook depth pairs _ hpairs hv

/-- If the hook makes objects of one more level, what is read keeps to the nesting depth. -/
theorem pairs_fits : ∀ fuel,
    (∀ depth s v rest, pairsValue rt hook fuel depth s = .ok (v, rest) → FitsDepth depth v) ∧
    (∀ depth items s v rest, (∀ x ∈ items, FitsDepth depth x) →
      pairsItems rt hook fuel depth items s = .ok (v, rest) → FitsDepth (depth + 1) v) ∧
    (∀ depth pairs s v rest, (∀ kv ∈ pairs, FitsDepth depth kv.2) →
      pairsMembers rt hook fuel depth pairs s = .ok (v, rest) → FitsDepth (depth + 1) v) := by
  intro fuel
  induction fuel with
  | zero =>
    refine ⟨fun _ _ _ _ h => ?_, fun _ _ _ _ _ _ h => ?_, fun _ _ _ _ _ _ h => ?_⟩
    · cases h
    · cases h
    · cases h
  | succ fuel ih =>
    obtain ⟨ihv, ihi, ihm⟩ := ih
    refine ⟨fun depth s v rest h => ?_, fun depth items s v rest hitems h => ?_,
      fun depth pairs s v rest hpairs h => ?_⟩
    · rw [pairsValue.eq_def] at h
      dsimp only at h
      split at h
      · split at h
        · cases h
          exact ⟨rfl, Nat.zero_le _, rfl⟩
        · cases h
      split at h
      · split at h
        · cases h
        · split at h
          · exact closeObject_fits hhook (by simp) h
          · exact ihm _ _ _ _ _ (by simp) h
      split at h
      · split at h
        · cases h
        · split at h
          · cases h
            exact FitsDepth.arr (by simp)
          · exact ihi _ _ _ _ _ (by simp) h
      · cases hs : scanScalar rt s with
        | error e => rw [hs] at h; cases h
        | ok r =>
          rw [hs] at h
          obtain rfl : r = (v, rest) := Except.ok.inj h
          exact scanScalar_fits hs
    · rw [pairsItems.eq_def] at h
      dsimp only at h
      cases hv : pairsValue rt hook fuel depth s with
      | error e => rw [hv] at h; cases h
      | ok r =>
        rw [hv] at h
        have hall : ∀ x ∈ items ++ [r.1], FitsDepth depth x := by
          intro x hx
          rcases List.mem_append.mp hx with hx | hx
          · exact hitems x hx
          · rw [List.mem_singleton.mp hx]
            exact ihv _ _ _ _ hv
        simp only [bind, Except.bind] at h
        split_ifs at h
        · cases h
          exact FitsDepth.arr hall
        · exact ihi _ _ _ _ _ hall h
    · rw [pairsMembers.eq_def] at h
      dsimp only at h
      split_ifs at h
      split at h
      · cases h
      · next key s' _ =>
        split_ifs at h
        cases hv : pairsValue rt hook fuel depth (skipSpace (skipSpace s').tail) with
        | error e => rw [hv] at h; cases h
        | ok r =>
          rw [hv] at h
          have hall : ∀ kv ∈ pairs ++ [(key, r.1)], FitsDepth depth kv.2 := by
            intro kv hkv
            rcases List.mem_append.mp hkv with hkv | hkv
            · exact hpairs kv hkv
            · rw [List.mem_singleton.mp hkv]
              exact ihv _ _ _ _ hv
          simp only [bind, Except.bind] at h
          split_ifs at h
          · exact closeObject_fits hhook hall h
          · exact ihm _ _ _ _ _ hall h

theorem loadsPairs_loadable {text : PyStr} {v : Json} (h : loadsPairs rt hook text = .ok v) :
    rt.Loadable v := by
  unfold loadsPairs at h
  dsimp only at h
  split at h
  · cases h
  · split at h
    · next v' rest hs =>
      split_ifs at h
      obtain rfl := Except.ok.inj h
      exact (pairs_fits hhook _).1 _ _ _ _ hs
    · cases h
    · cases h

omit hhook in
/-- The failures of the scan itself are a `ValueError` or a `RecursionError`. -/
theorem loadsPairs_error {text : PyStr} {e : PyExc} (h : loadsPairs rt hook text = .error (.inl e)) :
    e.cls.isValueError = true ∨ e = .std .recursionError (.jsonLoads text) := by
  unfold loadsPairs at h
  dsimp only at h
  split at h
  · cases h
    exact .inl rfl
  · split at h
    · split_ifs at h
      cases h
      exact .inl rfl
    · next e' he =>
      obtain rfl := Sum.inl.inj (Except.error.inj h)
      cases e' with
      | invalid => exact .inl rfl
      | tooDeep => exact .inr rfl
      | tooManyDigits => exact .inl rfl
    · cases h

end Fits

/-- The hook of `json.loads` itself: a later member overwrites an earlier one. -/
def overwrite (ε : Type) (pairs : List (PyStr × Json)) : Except ε Json :=
  .ok (.obj (pairs.foldl (fun fields kv => setField fields kv.1 kv.2) []))

section Overwrite

variable (ε : Type) (rt : Runtime)

/-- With the overwriting hook the scan is that of `json.loads`. -/
theorem pairs_eq_scan : ∀ fuel,
    (∀ depth s, pairsValue rt (overwrite ε) fuel depth s =
      (scanValue rt fuel depth s).mapError .scan) ∧
    (∀ depth items s, pairsItems rt (overwrite ε) fuel depth items s =
      (scanItems rt fuel depth items s).mapError .scan) ∧
    (∀ depth pairs s, pairsMembers rt (overwrite ε) fuel depth pairs s =
      (scanMembers rt fuel depth
        (pairs.foldl (fun fields kv => setField fields kv.1 kv.2) []) s).mapError .scan) := by
  intro fuel
  induction fuel with
  | zero => exact ⟨fun _ _ => rfl, fun _ _ _ => rfl, fun _ _ _ => rfl⟩
  | succ fuel ih =>
    obtain ⟨ihv, ihi, ihm⟩ := ih
    refine ⟨fun depth s => ?_, fun depth items s => ?_, fun depth pairs s => ?_⟩
    · rw [pairsValue.eq_def, scanValue.eq_def]
      dsimp only
      split_ifs
      · cases scanString (s.length + 1) s.tail with
        | none => rfl
        | some r => rfl
      · cases depth with
        | zero => rfl
        | succ depth => rfl
      · cases depth with
        | zero => rfl
        | succ depth => exact ihm depth [] _
      · cases depth with
        | zero => rfl
        | succ depth => rfl
      · cases depth with
        | zero => rfl
        | succ depth => exact ihi depth [] _
      · rfl
    · rw [pairsItems.eq_def, scanItems.eq_def]
      dsimp only
      rw [ihv]
      cases scanValue rt fuel depth s with
      | error e => rfl
      | ok r =>
        simp only [Except.mapError, bind, Except.bind]
        split_ifs
        · rfl
        · exact ihi depth _ _
        · rfl
    · rw [pairsMembers.eq_def, scanMembers.eq_def]
      dsimp only
      split_ifs
      · cases scanString (s.length + 1) s.tail with
        | none => rfl
        | some ks =>
          dsimp only
          split_ifs
          · rw [ihv]
            cases scanValue rt fuel depth (skipSpace (skipSpace ks.2).tail) with
            | error e => rfl
            | ok r =>
              have hfold : ∀ kv : PyStr × Json,
                  (pairs ++ [kv]).foldl (fun fields kv => setField fields kv.1 kv.2) [] =
                    setField (pairs.foldl (fun fields kv => setField fields kv.1 kv.2) [])
                      kv.1 kv.2 := by
                intro kv
                rw [List.foldl_append]
                rfl
              simp only [Except.mapError, bind, Except.bind]
              split_ifs
              · rw [← hfold (ks.1, r.1)]
                rfl
              · rw [ihm, hfold]
                rfl
              · rfl
          · rfl
      · rfl

/-- `json.loads` is `json.loads` with the overwriting hook. -/
theorem loadsPairs_overwrite (text : PyStr) :
    loadsPairs rt (overwrite ε) text = (loads rt text).mapError .inl := by
  unfold loadsPairs loads
  dsimp only
  rw [(pairs_eq_scan ε rt _).1]
  split_ifs
  · rfl
  · cases scanValue rt (text.length + 1) rt.maxDepth (skipSpace text) with
    | ok r =>
      simp only [Except.mapError]
      split_ifs <;> rfl
    | error e => cases e <;> rfl

end Overwrite

/-! ## Writing -/

namespace Json

mutual

/-- The text of a value with the members of objects in insertion order. -/
def compactText : Json → PyStr
  | .null => lit "null"
  | .bool true => lit "true"
  | .bool false => lit "false"
  | .int i => intText i
  | .float x => x.text
  | .str s => quote s
  | .arr items => chr '[' :: joinComma (compactItems items) ++ [chr ']']
  | .obj fields => chr '{' :: joinComma (compactMembers fields) ++ [chr '}']

def compactItems : List Json → List PyStr
  | [] => []
  | v :: rest => compactText v :: compactItems rest

def compactMembers : List (PyStr × Json) → List PyStr
  | [] => []
  | (k, v) :: rest => memberText (k, compactText v) :: compactMembers rest

end

end Json

end Py
