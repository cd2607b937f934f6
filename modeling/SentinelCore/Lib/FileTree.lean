import Mathlib.Data.List.Basic
import Mathlib.Data.List.Infix

/-!
# File trees with symbolic links

A tree of files, directories and links. A place is the list of names from the root to a node. A route is
taken move by move: `Resolves` says where it leads when every link on it is followed, and it leads to at
most one place. Two ways of computing it are sound: `walk`, which a system call takes and which fails where
nothing is, and `resolve`, which goes on by name where nothing is.

A route of names leads to what the last link on it resolves to, with the names behind it
(`resolves_names_iff`).
-/

namespace Lib

/-- One component of a route. -/
inductive Move (ν : Type) where
  | stay
  | up
  | enter (name : ν)
  deriving DecidableEq

/-- A tree over names and contents. A link leads from the root or from the directory it is in. -/
inductive Node (ν β : Type) where
  | file (content : β)
  | dir (entries : List (ν × Node ν β))
  | link (absolute : Bool) (target : List (Move ν))

/-- The names from the root to a node. -/
abbrev Place (ν : Type) := List ν

namespace Node

variable {ν β : Type} [DecidableEq ν]

/-- The entry of a directory. -/
def entry? : Node ν β → ν → Option (Node ν β)
  | dir entries, name => entries.lookup name
  | file _, _ => none
  | link _ _, _ => none

/-- The node at a place. -/
def find : Place ν → Node ν β → Option (Node ν β)
  | [], node => some node
  | name :: place, node => (node.entry? name).bind (find place)

def isDir : Node ν β → Bool
  | dir _ => true
  | file _ => false
  | link _ _ => false

/-- A link and where it leads. -/
def link? : Node ν β → Option (Bool × List (Move ν))
  | link absolute target => some (absolute, target)
  | file _ => none
  | dir _ => none

/-- The link at a place, if one is there. -/
def linkAt (tree : Node ν β) (place : Place ν) : Option (Bool × List (Move ν)) :=
  (tree.find place).bind link?

/-- Whether a directory is at the place. -/
def dirAt (tree : Node ν β) (place : Place ν) : Bool := (tree.find place).any isDir

/-- Where the target of a link in the directory starts. -/
def linkStart (absolute : Bool) (directory : Place ν) : Place ν := if absolute then [] else directory

variable (tree : Node ν β)

/-- The moves of a system call, which looks names up in directories; `follow` goes on behind a link. -/
def walkWith (follow : Place ν → List (Move ν) → Option (Place ν)) :
    Place ν → List (Move ν) → Option (Place ν)
  | place, [] => some place
  | place, .stay :: moves => if tree.dirAt place then walkWith follow place moves else none
  | place, .up :: moves => if tree.dirAt place then walkWith follow place.dropLast moves else none
  | place, .enter name :: moves =>
    if tree.dirAt place then
      match tree.find (place ++ [name]) with
      | none => none
      | some (link absolute target) => follow (linkStart absolute place) (target ++ moves)
      | some (file _) => walkWith follow (place ++ [name]) moves
      | some (dir _) => walkWith follow (place ++ [name]) moves
    else none

/-- The walk of a system call that follows at most the given number of links. -/
def walk : ℕ → Place ν → List (Move ν) → Option (Place ν)
  | 0 => tree.walkWith fun _ _ => none
  | links + 1 => tree.walkWith (walk links)

/-- The moves by name, which do not ask whether anything but a link is there; `enter` resolves the target of a
link. -/
def resolveWith (enter : Place ν → List (Move ν) → Option (Place ν)) :
    Place ν → List (Move ν) → Option (Place ν)
  | place, [] => some place
  | place, .stay :: moves => resolveWith enter place moves
  | place, .up :: moves => resolveWith enter place.dropLast moves
  | place, .enter name :: moves =>
    match tree.linkAt (place ++ [name]) with
    | none => resolveWith enter (place ++ [name]) moves
    | some (absolute, target) =>
      (enter (linkStart absolute place) target).bind fun place => resolveWith enter place moves

/-- The resolved place, with links in the targets of links up to the given depth. -/
def resolve : ℕ → Place ν → List (Move ν) → Option (Place ν)
  | 0 => tree.resolveWith fun _ _ => none
  | depth + 1 => tree.resolveWith (resolve depth)

/-- From the first place the moves lead to the second. -/
inductive Resolves : Place ν → List (Move ν) → Place ν → Prop
  | done {place : Place ν} : Resolves place [] place
  | stay {place dest : Place ν} {moves : List (Move ν)} (h : Resolves place moves dest) :
      Resolves place (.stay :: moves) dest
  | up {place dest : Place ν} {moves : List (Move ν)} (h : Resolves place.dropLast moves dest) :
      Resolves place (.up :: moves) dest
  | enter {place dest : Place ν} {name : ν} {moves : List (Move ν)}
      (hlink : tree.linkAt (place ++ [name]) = none) (h : Resolves (place ++ [name]) moves dest) :
      Resolves place (.enter name :: moves) dest
  | follow {place mid dest : Place ν} {name : ν} {absolute : Bool} {target moves : List (Move ν)}
      (hlink : tree.linkAt (place ++ [name]) = some (absolute, target))
      (htarget : Resolves (linkStart absolute place) target mid) (h : Resolves mid moves dest) :
      Resolves place (.enter name :: moves) dest

variable {tree} {place dest mid : Place ν} {moves : List (Move ν)} {names : List ν}

/-! ## Where a route leads -/

theorem Resolves.unique {dest' : Place ν} (h : tree.Resolves place moves dest)
    (h' : tree.Resolves place moves dest') : dest = dest' := by
  induction h generalizing dest' with
  | done =>
    cases h' with
    | done => rfl
  | stay _ ih =>
    cases h' with
    | stay h' => exact ih h'
  | up _ ih =>
    cases h' with
    | up h' => exact ih h'
  | enter hlink _ ih =>
    cases h' with
    | enter _ h' => exact ih h'
    | follow hlink' _ _ =>
      rw [hlink] at hlink'
      cases hlink'
  | follow hlink _ _ ihtarget ih =>
    cases h' with
    | enter hlink' _ =>
      rw [hlink] at hlink'
      cases hlink'
    | follow hlink' htarget' h' =>
      rw [hlink] at hlink'
      obtain ⟨rfl, rfl⟩ := Prod.mk.inj (Option.some.inj hlink')
      rw [← ihtarget htarget'] at h'
      exact ih h'

theorem Resolves.append {moves' : List (Move ν)} (h : tree.Resolves place moves mid)
    (h' : tree.Resolves mid moves' dest) : tree.Resolves place (moves ++ moves') dest := by
  induction h with
  | done => exact h'
  | stay _ ih => exact .stay (ih h')
  | up _ ih => exact .up (ih h')
  | enter hlink _ ih => exact .enter hlink (ih h')
  | follow hlink htarget _ _ ih => exact .follow hlink htarget (ih h')

theorem Resolves.split {moves' : List (Move ν)} (h : tree.Resolves place (moves ++ moves') dest) :
    ∃ mid, tree.Resolves place moves mid ∧ tree.Resolves mid moves' dest := by
  induction moves generalizing place with
  | nil => exact ⟨place, .done, h⟩
  | cons move moves ih =>
    cases h with
    | stay h =>
      obtain ⟨mid, hmid, hdest⟩ := ih h
      exact ⟨mid, .stay hmid, hdest⟩
    | up h =>
      obtain ⟨mid, hmid, hdest⟩ := ih h
      exact ⟨mid, .up hmid, hdest⟩
    | enter hlink h =>
      obtain ⟨mid, hmid, hdest⟩ := ih h
      exact ⟨mid, .enter hlink hmid, hdest⟩
    | follow hlink htarget h =>
      obtain ⟨mid, hmid, hdest⟩ := ih h
      exact ⟨mid, .follow hlink htarget hmid, hdest⟩

/-! ## Computing it -/

theorem linkAt_of_find {node : Node ν β} (h : tree.find place = some node) :
    tree.linkAt place = node.link? := by
  unfold linkAt
  rw [h]
  rfl

theorem resolves_of_walkWith {follow : Place ν → List (Move ν) → Option (Place ν)}
    (hfollow : ∀ place moves dest, follow place moves = some dest → tree.Resolves place moves dest)
    (h : tree.walkWith follow place moves = some dest) : tree.Resolves place moves dest := by
  induction moves generalizing place with
  | nil =>
    obtain rfl := Option.some.inj h
    exact .done
  | cons move moves ih =>
    cases move with
    | stay =>
      rw [walkWith] at h
      split_ifs at h
      exact .stay (ih h)
    | up =>
      rw [walkWith] at h
      split_ifs at h
      exact .up (ih h)
    | enter name =>
      rw [walkWith] at h
      split_ifs at h
      cases hfind : tree.find (place ++ [name]) with
      | none =>
        simp only [hfind] at h
        cases h
      | some node =>
        cases node with
        | file content =>
          simp only [hfind] at h
          exact .enter (linkAt_of_find hfind) (ih h)
        | dir entries =>
          simp only [hfind] at h
          exact .enter (linkAt_of_find hfind) (ih h)
        | link absolute target =>
          simp only [hfind] at h
          obtain ⟨mid, htarget, hrest⟩ := (hfollow _ _ _ h).split
          exact .follow (linkAt_of_find hfind) htarget hrest

/-- A system call goes where the route leads. -/
theorem resolves_of_walk {links : ℕ} (h : tree.walk links place moves = some dest) :
    tree.Resolves place moves dest := by
  induction links generalizing place moves dest with
  | zero => exact resolves_of_walkWith (fun _ _ _ hnone => by cases hnone) h
  | succ links ih => exact resolves_of_walkWith (fun _ _ _ => ih) h

theorem resolves_of_resolveWith {enter : Place ν → List (Move ν) → Option (Place ν)}
    (henter : ∀ place moves dest, enter place moves = some dest → tree.Resolves place moves dest)
    (h : tree.resolveWith enter place moves = some dest) : tree.Resolves place moves dest := by
  induction moves generalizing place with
  | nil =>
    obtain rfl := Option.some.inj h
    exact .done
  | cons move moves ih =>
    cases move with
    | stay => exact .stay (ih h)
    | up => exact .up (ih h)
    | enter name =>
      rw [resolveWith] at h
      cases hlink : tree.linkAt (place ++ [name]) with
      | none =>
        rw [hlink] at h
        exact .enter hlink (ih h)
      | some link =>
        rw [hlink] at h
        obtain ⟨mid, htarget, hrest⟩ := Option.bind_eq_some_iff.mp h
        exact .follow hlink (henter _ _ _ htarget) (ih hrest)

/-- So does the resolution by name. -/
theorem resolves_of_resolve {depth : ℕ} (h : tree.resolve depth place moves = some dest) :
    tree.Resolves place moves dest := by
  induction depth generalizing place moves dest with
  | zero => exact resolves_of_resolveWith (fun _ _ _ hnone => by cases hnone) h
  | succ depth ih => exact resolves_of_resolveWith (fun _ _ _ => ih) h

/-! ## Places without links -/

/-- No link is at the place or on the way to it. -/
def Plain (tree : Node ν β) (place : Place ν) : Prop :=
  ∀ front name, front ++ [name] <+: place → tree.linkAt (front ++ [name]) = none

/-- No link is on the way from the place by the names. -/
def Unlinked (tree : Node ν β) (place : Place ν) (names : List ν) : Prop :=
  ∀ front name, front ++ [name] <+: names → tree.linkAt (place ++ front ++ [name]) = none

theorem plain_nil : tree.Plain [] := by
  intro front name h
  have hnil := List.prefix_nil.mp h
  exact absurd hnil (List.append_ne_nil_of_right_ne_nil _ (List.cons_ne_nil _ _))

theorem Plain.of_prefix {place' : Place ν} (h : tree.Plain place) (hp : place' <+: place) :
    tree.Plain place' := fun front name hfront => h front name (hfront.trans hp)

theorem Plain.concat {name : ν} (h : tree.Plain place) (hlink : tree.linkAt (place ++ [name]) = none) :
    tree.Plain (place ++ [name]) := by
  intro front name' hfront
  rcases List.prefix_concat_iff.mp hfront with heq | hp
  · rw [heq]
    exact hlink
  · exact h front name' hp

theorem Plain.linkStart {absolute : Bool} (h : tree.Plain place) :
    tree.Plain (linkStart absolute place) := by
  cases absolute with
  | true => exact plain_nil
  | false => exact h

theorem find_append (place rest : Place ν) (node : Node ν β) :
    node.find (place ++ rest) = (node.find place).bind (find rest) := by
  induction place generalizing node with
  | nil => rfl
  | cons name place ih =>
    rw [List.cons_append, find, find, Option.bind_assoc]
    exact congrArg (Option.bind (node.entry? name)) (funext ih)

theorem isDir_of_find {node node' : Node ν β} (h : node.find place = some node')
    (hdir : node'.isDir = true) : node.isDir = true := by
  cases place with
  | nil =>
    obtain rfl := Option.some.inj h
    exact hdir
  | cons name place =>
    obtain ⟨inner, hentry, -⟩ := Option.bind_eq_some_iff.mp h
    cases node with
    | dir entries => rfl
    | file content => cases hentry
    | link absolute target => cases hentry

/-- A directory has no link on the way to it. -/
theorem plain_of_dirAt (h : tree.dirAt place = true) : tree.Plain place := by
  intro front name hfront
  rw [dirAt, Option.any_eq_true] at h
  obtain ⟨node, hfind, hdir⟩ := h
  obtain ⟨rest, rfl⟩ := hfront
  rw [find_append] at hfind
  obtain ⟨inner, hinner, hrest⟩ := Option.bind_eq_some_iff.mp hfind
  rw [linkAt_of_find hinner]
  cases inner with
  | file content => rfl
  | dir entries => rfl
  | link absolute target => cases isDir_of_find hrest hdir

/-- What a route leads to has no link on the way to it. -/
theorem Resolves.plain (h : tree.Resolves place moves dest) (hplain : tree.Plain place) :
    tree.Plain dest := by
  induction h with
  | done => exact hplain
  | stay _ ih => exact ih hplain
  | up _ ih => exact ih (hplain.of_prefix (List.dropLast_prefix _))
  | enter hlink _ ih => exact ih (hplain.concat hlink)
  | follow _ _ _ ihtarget ih => exact ih (ihtarget hplain.linkStart)

/-- Names without links lead to themselves. -/
theorem Unlinked.resolves (h : tree.Unlinked place names) :
    tree.Resolves place (names.map .enter) (place ++ names) := by
  induction names generalizing place with
  | nil =>
    rw [List.append_nil]
    exact .done
  | cons name names ih =>
    have hlink := h [] name (List.prefix_append [name] names)
    rw [List.append_nil] at hlink
    refine .enter hlink ?_
    rw [List.append_cons place name names]
    refine ih fun front name' hfront => ?_
    have hnext := h (name :: front) name' (List.cons_prefix_cons.mpr ⟨rfl, hfront⟩)
    rwa [List.append_cons place name front] at hnext

theorem Plain.resolves (h : tree.Plain place) : tree.Resolves [] (place.map .enter) place := by
  have hunlinked : tree.Unlinked [] place := h
  exact hunlinked.resolves

/-! ## The last link -/

/-- Of the links on the way from the place by the names the last one resolves to `mid`, and the names `rest`
are behind it. -/
def LastLink (tree : Node ν β) (place : Place ν) (names : List ν) (mid : Place ν) (rest : List ν) : Prop :=
  ∃ front name directory absolute target, names = front ++ name :: rest ∧
    tree.Resolves place (front.map .enter) directory ∧
    tree.linkAt (directory ++ [name]) = some (absolute, target) ∧
    tree.Resolves (linkStart absolute directory) target mid ∧ tree.Unlinked mid rest

theorem LastLink.resolves {rest : List ν} (h : tree.LastLink place names mid rest) :
    tree.Resolves place (names.map .enter) (mid ++ rest) := by
  obtain ⟨front, name, directory, absolute, target, rfl, hfront, hlink, htarget, hrest⟩ := h
  rw [List.map_append, List.map_cons]
  exact hfront.append (.follow hlink htarget hrest.resolves)

/-- Names lead to what the last link on the way resolves to, with the names behind it. -/
theorem resolves_names_iff : tree.Resolves place (names.map .enter) dest ↔
    (tree.Unlinked place names ∧ dest = place ++ names) ∨
      ∃ mid rest, tree.LastLink place names mid rest ∧ dest = mid ++ rest := by
  constructor
  · intro h
    induction names generalizing place with
    | nil =>
      cases h
      refine .inl ⟨fun front name hfront => ?_, (List.append_nil _).symm⟩
      exact absurd (List.prefix_nil.mp hfront)
        (List.append_ne_nil_of_right_ne_nil _ (List.cons_ne_nil _ _))
    | cons name names ih =>
      cases h with
      | enter hlink h =>
        rcases ih h with ⟨hunlinked, rfl⟩ | ⟨mid, rest, hlast, rfl⟩
        · refine .inl ⟨fun front name' hfront => ?_, by simp⟩
          cases front with
          | nil =>
            obtain ⟨rfl, -⟩ := List.cons_prefix_cons.mp hfront
            rwa [List.append_nil]
          | cons first front =>
            obtain ⟨rfl, htail⟩ := List.cons_prefix_cons.mp hfront
            have hnext := hunlinked front name' htail
            rwa [List.append_assoc place] at hnext
        · obtain ⟨front, name', directory, absolute, target, rfl, hfront, hrest⟩ := hlast
          exact .inr ⟨mid, rest, ⟨name :: front, name', directory, absolute, target, rfl,
            .enter hlink hfront, hrest⟩, rfl⟩
      | @follow _ at' _ _ absolute target _ hlink htarget h =>
        rcases ih h with ⟨hunlinked, rfl⟩ | ⟨mid, rest, hlast, rfl⟩
        · exact .inr ⟨at', names, ⟨[], name, place, absolute, target, rfl, .done, hlink, htarget, hunlinked⟩,
            rfl⟩
        · obtain ⟨front, name', directory, absolute', target', rfl, hfront, hrest⟩ := hlast
          exact .inr ⟨mid, rest, ⟨name :: front, name', directory, absolute', target', rfl,
            .follow hlink htarget hfront, hrest⟩, rfl⟩
  · rintro (⟨hunlinked, rfl⟩ | ⟨mid, rest, hlast, rfl⟩)
    · exact hunlinked.resolves
    · exact hlast.resolves

end Node

end Lib
