import Mathlib.Data.List.Lex
import Mathlib.Data.Fin.Basic
import Mathlib.Tactic.Ring

/-!
# Python text, bytes and exceptions

A Python `str` is a list of code points, lone surrogates included, so it is not a Lean `String`.
Exceptions carry their class and their text: the text is either written by the program or is the
one the standard library gives for a failed call, which stays symbolic (`StdCall`).
-/

namespace Py

/-- A Unicode code point; the surrogates `0xD800`–`0xDFFF` are included. -/
abbrev CodePoint := Fin 0x110000

/-- A Python `str`. -/
abbrev PyStr := List CodePoint

abbrev Byte := Fin 256

/-- A Python `bytes` object. -/
abbrev Bytes := List Byte

-- The facts that literals and membership tests of these types rest on.
instance neZero_codePoints : NeZero 0x110000 := ⟨by decide⟩

instance neZero_bytes : NeZero 256 := ⟨by decide⟩

instance lawfulBEq_codePoint : LawfulBEq CodePoint := inferInstance

instance lawfulBEq_pyStr : LawfulBEq PyStr := inferInstance

/-- The code point of a Lean character. -/
def chr (c : Char) : CodePoint :=
  ⟨c.toNat, by
    have h : c.val.toNat.isValidChar := c.valid
    unfold Nat.isValidChar at h
    change c.val.toNat < _
    omega⟩

/-- A string literal of the source. -/
def lit (s : String) : PyStr := s.toList.map chr

/-- A literal is the list of its characters, which is what an evaluation should begin with. -/
theorem lit_ofList (l : List Char) : lit (String.ofList l) = l.map chr := by
  rw [lit, String.toList_ofList]

theorem lit_append (s t : String) : lit (s ++ t) = lit s ++ lit t := by
  rw [lit, String.toList_append, List.map_append, lit, lit]

theorem chr_injective : Function.Injective chr := by
  intro a b h
  have hv : a.toNat = b.toNat := Fin.mk.inj h
  exact Char.toNat_inj.mp hv

@[simp] theorem lit_inj {a b : String} : lit a = lit b ↔ a = b := by
  unfold lit
  rw [List.map_inj_right (fun _ _ h => chr_injective h), String.toList_inj]

/-! ## Exceptions -/

/-- The standard library call that failed, with the arguments its message depends on. -/
inductive StdCall where
  | fromisoformat (text : PyStr)
  | astimezone (text : PyStr)
  | encodeUtf8 (text : PyStr)
  | encodeAscii (text : PyStr)
  | decodeUtf8 (data : Bytes)
  | a2bBase64 (data : Bytes)
  | jsonLoads (text : PyStr)
  | jsonDumps
  | strOfInt
  | repr
  | unhashable
  | noAttribute (name : PyStr)
  | missingKey (key : PyStr)
  | compareDigest
  | urlparse (url : PyStr)
  | deepcopy
  | publicNumbers (x y : ℕ)
  | publicBytes (data : Bytes)
  deriving DecidableEq

/-- Exception classes. `invalidSignature` is that of the package `cryptography`, and `derived name` a
class the program derives from `ValueError`. -/
inductive ExcClass where
  | valueError
  | unicodeEncodeError
  | unicodeDecodeError
  | jsonDecodeError
  | binasciiError
  | typeError
  | keyError
  | attributeError
  | overflowError
  | recursionError
  | invalidSignature
  | derived (name : String)
  deriving DecidableEq

/-- Whether `except ValueError` catches the class. -/
def ExcClass.isValueError : ExcClass → Bool
  | .valueError | .unicodeEncodeError | .unicodeDecodeError | .jsonDecodeError
  | .binasciiError | .derived _ => true
  | .typeError | .keyError | .attributeError | .overflowError | .recursionError
  | .invalidSignature => false

/-- The text of an exception. -/
inductive ExcText where
  | text (message : PyStr)
  | std (call : StdCall)
  deriving DecidableEq

structure PyExc where
  cls : ExcClass
  text : ExcText
  deriving DecidableEq

/-- An exception the program raises with a message of its own. -/
def PyExc.raised (cls : ExcClass) (message : PyStr) : PyExc := ⟨cls, .text message⟩

/-- An exception a standard library call raises. -/
def PyExc.std (cls : ExcClass) (call : StdCall) : PyExc := ⟨cls, .std call⟩

/-- `try: body except classes as exc: handler(exc)`. -/
def tryExcept {α : Type} (body : Except PyExc α) (catches : ExcClass → Bool)
    (handler : PyExc → Except PyExc α) : Except PyExc α :=
  match body with
  | .ok a => .ok a
  | .error e => if catches e.cls then handler e else .error e

@[simp] theorem tryExcept_ok {α : Type} (a : α) (catches : ExcClass → Bool)
    (handler : PyExc → Except PyExc α) : tryExcept (.ok a) catches handler = .ok a := rfl

theorem tryExcept_error {α : Type} (e : PyExc) (catches : ExcClass → Bool)
    (handler : PyExc → Except PyExc α) :
    tryExcept (.error e) catches handler =
      if catches e.cls then handler e else .error e := rfl

theorem tryExcept_eq_ok {α : Type} {body : Except PyExc α} {catches : ExcClass → Bool}
    {error : PyExc → PyExc} {a : α} :
    tryExcept body catches (fun e => .error (error e)) = .ok a ↔ body = .ok a := by
  cases body with
  | ok b => rfl
  | error e' =>
    rw [tryExcept_error]
    refine iff_of_false (fun h => ?_) fun h => by cases h
    cases hc : catches e'.cls with
    | true => rw [hc] at h; cases h
    | false => rw [hc] at h; cases h

/-- `if not p: raise e`. -/
def raiseUnless (p : Prop) [Decidable p] (e : PyExc) : Except PyExc Unit :=
  if p then .ok () else .error e

@[simp] theorem raiseUnless_eq_ok {p : Prop} [Decidable p] {e : PyExc} {u : Unit} :
    raiseUnless p e = .ok u ↔ p := by
  unfold raiseUnless
  by_cases h : p <;> simp [h]

/-! ## String methods -/

/-- `s.replace(c, new)` for a one-character pattern. -/
def replaceChar (s : PyStr) (c : CodePoint) (new : PyStr) : PyStr :=
  s.flatMap fun d => if d = c then new else [d]

theorem replaceChar_append (a b : PyStr) (c : CodePoint) (new : PyStr) :
    replaceChar (a ++ b) c new = replaceChar a c new ++ replaceChar b c new := List.flatMap_append

theorem replaceChar_cons_self (s : PyStr) (c : CodePoint) (new : PyStr) :
    replaceChar (c :: s) c new = new ++ replaceChar s c new := by
  unfold replaceChar
  rw [List.flatMap_cons, if_pos rfl]

/-- A text without the character stays as it is. -/
theorem replaceChar_of_notMem {s : PyStr} {c : CodePoint} (h : c ∉ s) (new : PyStr) :
    replaceChar s c new = s := by
  induction s with
  | nil => rfl
  | cons d s ih =>
    rw [List.mem_cons, not_or] at h
    unfold replaceChar at ih ⊢
    rw [List.flatMap_cons, if_neg fun hd => h.1 hd.symm, ih h.2]
    rfl

/-- `s.partition(c)` when `c` occurs in `s`. -/
def partitionChar? (s : PyStr) (c : CodePoint) : Option (PyStr × PyStr) :=
  if c ∈ s then some (s.takeWhile (· ≠ c), (s.dropWhile (· ≠ c)).tail) else none

theorem partitionChar?_append {a b : PyStr} {c : CodePoint} (ha : c ∉ a) :
    partitionChar? (a ++ c :: b) c = some (a, b) := by
  have hpos : ∀ d ∈ a, decide (d ≠ c) = true := fun d hd =>
    decide_eq_true fun h => ha (h ▸ hd)
  unfold partitionChar?
  rw [if_pos (List.mem_append_right _ List.mem_cons_self), List.takeWhile_append_of_pos hpos,
    List.takeWhile_cons_of_neg (by simp), List.dropWhile_append_of_pos hpos,
    List.dropWhile_cons_of_neg (by simp), List.append_nil, List.tail_cons]

theorem partitionChar?_eq_none {s : PyStr} {c : CodePoint} : partitionChar? s c = none ↔ c ∉ s := by
  unfold partitionChar?
  by_cases h : c ∈ s
  · rw [if_pos h]
    exact iff_of_false (nomatch ·) (not_not.mpr h)
  · rw [if_neg h]
    exact iff_of_true rfl h

theorem partitionChar?_eq_some {s a b : PyStr} {c : CodePoint} (h : partitionChar? s c = some (a, b)) :
    s = a ++ c :: b ∧ c ∉ a := by
  by_cases hc : c ∈ s
  · obtain ⟨a', b', rfl, ha'⟩ := List.eq_append_cons_of_mem hc
    rw [partitionChar?_append ha'] at h
    obtain ⟨rfl, rfl⟩ := Prod.mk.inj (Option.some.inj h)
    exact ⟨rfl, ha'⟩
  · rw [partitionChar?_eq_none.mpr hc] at h
    cases h

/-- `s.endswith(tail)`. -/
def endsWith (s tail : PyStr) : Bool := tail.isSuffixOf s

/-- `s.startswith(head)`. -/
def startsWith (s head : PyStr) : Bool := head.isPrefixOf s

def isAsciiDigit (c : CodePoint) : Bool := 0x30 ≤ c.val && c.val ≤ 0x39

def isAsciiLower (c : CodePoint) : Bool := 0x61 ≤ c.val && c.val ≤ 0x7A

def isAsciiUpper (c : CodePoint) : Bool := 0x41 ≤ c.val && c.val ≤ 0x5A

/-- `[A-Za-z0-9]`. -/
def isAsciiAlnum (c : CodePoint) : Bool := isAsciiDigit c || isAsciiLower c || isAsciiUpper c

/-- `[0-9a-f]`. -/
def isLowerHex (c : CodePoint) : Bool := isAsciiDigit c || (0x61 ≤ c.val && c.val ≤ 0x66)

/-- `[0-9A-Fa-f]`. -/
def isHexDigit (c : CodePoint) : Bool := isLowerHex c || (0x41 ≤ c.val && c.val ≤ 0x46)

def isAscii (s : PyStr) : Bool := s.all fun c => c.val < 0x80

/-- The value of a run of decimal digits. -/
def digitsValue (s : PyStr) : ℕ := s.foldl (fun n c => n * 10 + (c.val - 0x30)) 0

/-- `int.from_bytes(data, "big")`. -/
def natOfBytes (data : Bytes) : ℕ := data.foldl (fun n b => n * 256 + b.val) 0

/-- `hmac.compare_digest` on strings. -/
def compareDigest (a b : PyStr) : Except PyExc Bool :=
  if isAscii a && isAscii b then .ok (a == b) else .error (.std .typeError .compareDigest)

/-- The text of a byte string whose bytes are ASCII. -/
def ofBytes (data : Bytes) : PyStr := data.map fun b => ⟨b.val, by omega⟩

/-- `s.encode("ascii")`. -/
def encodeAscii (s : PyStr) : Except PyExc Bytes :=
  if isAscii s then .ok (s.map fun c => Fin.ofNat 256 c.val)
  else .error (.std .unicodeEncodeError (.encodeAscii s))

theorem ofBytes_injective : Function.Injective ofBytes := by
  intro a b h
  refine List.map_injective_iff.mpr (fun x y hxy => ?_) h
  exact Fin.ext (Fin.mk.inj hxy)

theorem digitsValue_lt {s : PyStr} (h : ∀ c ∈ s, isAsciiDigit c = true) :
    digitsValue s < 10 ^ s.length := by
  have key : ∀ (s : PyStr) (n : ℕ), (∀ c ∈ s, isAsciiDigit c = true) →
      s.foldl (fun n c => n * 10 + (c.val - 0x30)) n < (n + 1) * 10 ^ s.length := by
    intro s
    induction s with
    | nil => intro n _; simp
    | cons c s ih =>
      intro n h
      have hc := h c List.mem_cons_self
      simp only [isAsciiDigit, Bool.and_eq_true, decide_eq_true_eq] at hc
      refine (ih (n * 10 + (c.val - 0x30)) fun d hd =>
        h d (List.mem_cons_of_mem _ hd)).trans_le ?_
      have hstep : n * 10 + (c.val - 0x30) + 1 ≤ (n + 1) * 10 := by omega
      calc (n * 10 + (c.val - 0x30) + 1) * 10 ^ s.length
          ≤ (n + 1) * 10 * 10 ^ s.length := Nat.mul_le_mul_right _ hstep
        _ = (n + 1) * 10 ^ (c :: s).length := by rw [List.length_cons, pow_succ]; ring
  simpa [digitsValue] using key s 0 h

end Py
