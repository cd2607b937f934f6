import SentinelCore.Py.Space

/-!
# Regular expressions

The expressions of `re` that are made of words, runs of one class of characters, `\b`, alternatives and
options. A `Cursor` is a place in a text: the character before it and the text after it. `ends` lists
the places where a match from a place on can end, and `search` asks for a match anywhere.
-/

namespace Py

structure Cursor where
  before : Option CodePoint
  after : PyStr

/-- The place `k` characters on. -/
def Cursor.advance (c : Cursor) : ℕ → Cursor
  | 0 => c
  | k + 1 => ⟨c.after[k]?, c.after.drop (k + 1)⟩

inductive Re where
  | text (s : PyStr)
  /-- At least `least` characters of a class, and at most `most` if it is given. -/
  | run (p : CodePoint → Bool) (least : ℕ) (most : Option ℕ)
  | boundary
  | seq (a b : Re)
  | alt (a b : Re)
  | opt (a : Re)

namespace Re

/-- One expression after the other. -/
def seqs : List Re → Re
  | [] => text []
  | [a] => a
  | a :: as => seq a (seqs as)

/-- One of several words. -/
def words : List String → Re
  | [] => text []
  | [s] => text (lit s)
  | s :: rest => alt (text (lit s)) (words rest)

/-- The places where a match can end; `isWord` is the class `\w`. -/
def ends (isWord : CodePoint → Bool) : Re → Cursor → List Cursor
  | text s, c => if startsWith c.after s then [c.advance s.length] else []
  | run p least most, c =>
    ((List.range ((c.after.takeWhile p).length + 1)).filter fun k =>
      least ≤ k && most.all fun m => k ≤ m).map c.advance
  | boundary, c => if c.before.any isWord = c.after.head?.any isWord then [] else [c]
  | seq a b, c => (a.ends isWord c).flatMap (b.ends isWord)
  | alt a b, c => a.ends isWord c ++ b.ends isWord c
  | opt a, c => a.ends isWord c ++ [c]

/-- `pattern.search(text) is not None`. -/
def search (isWord : CodePoint → Bool) (r : Re) (s : PyStr) : Bool :=
  (List.range (s.length + 1)).any fun k => !(r.ends isWord (Cursor.advance ⟨none, s⟩ k)).isEmpty

end Re

end Py
