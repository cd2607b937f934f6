import SentinelCore.Py.Text
import SentinelCore.Lib.FileTree

/-!
# Paths

`pathlib.PurePosixPath`: a text is split at its slashes, and what is empty or a single dot is dropped. Two
dots are a part like any other; only in a file system they lead up. The names in a file system are the other
parts.
-/

namespace Py

open Lib

/-- A part of a path: not empty, not a dot, and without a slash. -/
def IsPart (s : PyStr) : Prop := s ≠ [] ∧ s ≠ lit "." ∧ chr '/' ∉ s

instance : DecidablePred IsPart := fun s => by unfold IsPart; infer_instance

structure PathPart where
  text : PyStr
  isPart : IsPart text
  deriving DecidableEq

/-- The name of an entry of a directory. -/
structure FileName extends PathPart where
  not_parent : text ≠ lit ".."
  deriving DecidableEq

/-- The part that a component of a text is, if it is one. -/
def part? (component : PyStr) : Option PathPart :=
  if h : IsPart component then some ⟨component, h⟩ else none

namespace PathPart

/-- The name that the part is, if it is one. -/
def name? (part : PathPart) : Option FileName :=
  if h : part.text = lit ".." then none else some ⟨part, h⟩

/-- What the part does on the way through a file system. -/
def move (part : PathPart) : Move FileName :=
  match part.name? with
  | none => .up
  | some name => .enter name

end PathPart

/-- A path: whether it starts at the root, and its parts. -/
structure PurePath where
  absolute : Bool
  parts : List PathPart
  deriving DecidableEq

namespace PurePath

/-- `PurePosixPath(text)`. -/
def ofText (text : PyStr) : PurePath where
  absolute := text.head? = some (chr '/')
  parts := (text.splitOn (chr '/')).filterMap part?

/-- The path of a place. -/
def ofPlace (place : Place FileName) : PurePath := ⟨true, place.map FileName.toPathPart⟩

/-- `path / other`. -/
def join (path other : PurePath) : PurePath :=
  if other.absolute then other else ⟨path.absolute, path.parts ++ other.parts⟩

/-- `path.name`. -/
def name (path : PurePath) : PyStr := (path.parts.getLast?.map PathPart.text).getD []

def moves (path : PurePath) : List (Move FileName) := path.parts.map PathPart.move

/-- The names among the parts. -/
def names (path : PurePath) : List FileName := path.parts.filterMap PathPart.name?

/-- The path is that of an entry of the directory. -/
def IsChild (path directory : PurePath) : Prop :=
  ∃ name : FileName, path = ⟨directory.absolute, directory.parts ++ [name.toPathPart]⟩

end PurePath

theorem PathPart.name?_of_ne {part : PathPart} (h : part.text ≠ lit "..") :
    part.name? = some ⟨part, h⟩ := dif_neg h

@[simp] theorem FileName.move_toPathPart (name : FileName) : name.toPathPart.move = .enter name := by
  unfold PathPart.move
  rw [PathPart.name?_of_ne name.not_parent]

/-- The way to a place. -/
theorem moves_ofPlace (place : Place FileName) : (PurePath.ofPlace place).moves = place.map .enter := by
  unfold PurePath.moves PurePath.ofPlace
  rw [List.map_map]
  exact List.map_congr_left fun name _ => name.move_toPathPart

/-- A path without `..` enters its names. -/
theorem moves_eq_names {path : PurePath} (h : ∀ part ∈ path.parts, part.text ≠ lit "..") :
    path.moves = path.names.map .enter := by
  obtain ⟨absolute, parts⟩ := path
  unfold PurePath.moves PurePath.names
  dsimp only at h ⊢
  induction parts with
  | nil => rfl
  | cons part parts ih =>
    rw [List.forall_mem_cons] at h
    rw [List.map_cons, ih h.2, List.filterMap_cons, PathPart.move, PathPart.name?_of_ne h.1]
    rfl

theorem part?_of_isPart {s : PyStr} (h : IsPart s) : part? s = some ⟨s, h⟩ := dif_pos h

/-- A text that is a part is the path of this one part. -/
theorem ofText_of_isPart {s : PyStr} (h : IsPart s) : PurePath.ofText s = ⟨false, [⟨s, h⟩]⟩ := by
  have hslash : ∀ c ∈ s, (c == chr '/') = false := by
    intro c hc
    rw [beq_eq_false_iff_ne]
    rintro rfl
    exact h.2.2 hc
  unfold PurePath.ofText
  rw [List.splitOn_eq_splitOnP, List.splitOnP_eq_singleton hslash, List.filterMap_cons, part?_of_isPart h]
  obtain ⟨c, rest, rfl⟩ := List.exists_cons_of_ne_nil h.1
  have hc : c ≠ chr '/' := fun hc => h.2.2 (hc ▸ List.mem_cons_self)
  simp [hc]

end Py
