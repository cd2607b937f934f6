import SentinelCore.VoiceFaults
import SentinelCore.Lib.Interleave

/-!
# Concurrent recordings of one response id

Any number of recordings write to the same three names of one directory. The names are ordered as they
are written, and each recording keeps a note of the files that it made, of its temporary file and of
the name at which it gave up.

1. Every file at one of the names belongs to the recording whose note has it (`Inv.owner`), so a
   roll-back removes the files of its own recording only.
2. A recording gives up at a name that is taken, and whoever has taken it blocks that name from then on:
   it goes on with its file, or gives up itself at a later name (`Inv.blame`). So not every recording
   gives up, and only one can have the manifest.

`one_recording_wins` puts this together for every interleaving.
-/

namespace Sentinel.Voice.Artifacts

open Py Lib Prog

/-! ## Notes -/

/-- The place of a name in the order of writing. -/
def Kind.rank : Kind → ℕ
  | .wav => 0
  | .transcript => 1
  | .manifest => 2

/-- What a recording knows of itself: the files that it made and has not removed, the temporary file
with what is in it, the name at which it gave up, and whether it has just seen the output directory. -/
structure Note where
  held : List (Kind × Bytes)
  temp : Option (Kind × Bytes)
  failed : Option Kind
  seen : Bool

def Note.start : Note := ⟨[], none, none, false⟩

/-- The recording has a file at the name or after it and goes on, or it gave up after it. -/
def Note.Blocks (note : Note) (kind : Kind) : Prop :=
  note.failed = none ∧ (∃ file ∈ note.held, kind.rank ≤ file.1.rank) ∨
    ∃ later, note.failed = some later ∧ kind.rank < later.rank

section Invariant

variable {ι : Type}

/-- The note of the recording `i` says what it has in the directory. -/
structure Note.Fits (safeId : PyStr) (d : Directory ι) (i : ι) (note : Note) : Prop where
  owner : ∀ kind data, d.entries (fileName safeId kind) = some (.file (some i) data) ↔
    (kind, data) ∈ note.held
  temps : ∀ path, d.temps i path =
    note.temp.bind fun file => if path = fileName safeId file.1 then some file.2 else none
  below : ∀ kind, note.failed = some kind → ∀ file ∈ note.held, file.1.rank < kind.rank
  seen : note.seen = true → d.output = .directory

/-- The notes of the recordings and the directory. `start` is what the directory was before. -/
structure Inv (safeId : PyStr) (start : Directory ι) (notes : ι → Note) (d : Directory ι) : Prop where
  output : d.output = .absent ∨ d.output = .directory
  outside : ∀ path, (∀ kind, path ≠ fileName safeId kind) → d.entries path = start.entries path
  entry : ∀ kind, d.entries (fileName safeId kind) = none ∨
    ∃ i data, d.entries (fileName safeId kind) = some (.file (some i) data)
  fits : ∀ i, (notes i).Fits safeId d i
  blame : ∀ i kind, (notes i).failed = some kind → ∃ j, (notes j).Blocks kind

/-- A step leaves the files of the others alone, the temporary ones among them. -/
def KeepsOthers (i : ι) (d d' : Directory ι) : Prop :=
  ∀ j ≠ i, d'.temps j = d.temps j ∧ ∀ path data, d.entries path = some (.file (some j) data) →
    d'.entries path = some (.file (some j) data)

/-- The step rule of one recording among the others. -/
abbrev racing [DecidableEq ι] (safeId : PyStr) (start : Directory ι) (i : ι) :
    FsCall → Note → (FsAnswer → Note → Prop) → Prop :=
  Pool.acting answer (Inv safeId start) KeepsOthers i

variable {safeId : PyStr} {start d : Directory ι} {notes : ι → Note} {i : ι} {note : Note}

theorem KeepsOthers.refl : KeepsOthers i d d := fun _ _ => ⟨rfl, fun _ _ h => h⟩

/-- A step that changes the entry of one name, where no other has a file. -/
theorem KeepsOthers.setEntry {ι : Type} [DecidableEq ι] {i : ι} {d : Directory ι} {path : PyStr}
    {entry : Option (Entry ι)} (h : ∀ j ≠ i, ∀ data, d.entries path ≠ some (.file (some j) data)) :
    KeepsOthers i d (d.setEntry path entry) := by
  refine fun j hj => ⟨rfl, fun path' data hother => ?_⟩
  have hne : path' ≠ path := by
    rintro rfl
    exact h j hj data hother
  show Function.update d.entries path entry path' = _
  rw [Function.update_of_ne hne]
  exact hother

/-- A name that is free is in nobody's note. -/
theorem Inv.not_held (h : Inv safeId start notes d) {kind : Kind}
    (hfree : d.entries (fileName safeId kind) = none) (j : ι) (data : Bytes) :
    (kind, data) ∉ (notes j).held := by
  intro hmem
  rw [((h.fits j).owner kind data).mpr hmem] at hfree
  cases hfree

/-- Whoever has a file at a name blocks it. -/
theorem Inv.blocks_of_held (h : Inv safeId start notes d) {j : ι} {file : Kind × Bytes}
    (hfile : file ∈ (notes j).held) : (notes j).Blocks file.1 := by
  cases hfailed : (notes j).failed with
  | none => exact .inl ⟨hfailed, file, hfile, le_rfl⟩
  | some later => exact .inr ⟨later, hfailed, (h.fits j).below later hfailed file hfile⟩

/-- A taken name that is not one's own is blocked by someone else. -/
theorem Inv.blocked (h : Inv safeId start notes d) {kind : Kind}
    (htaken : d.entries (fileName safeId kind) ≠ none) (hown : ∀ file ∈ (notes i).held, file.1 ≠ kind) :
    ∃ j, j ≠ i ∧ (notes j).Blocks kind := by
  rcases h.entry kind with hnone | ⟨j, data, hentry⟩
  · exact absurd hnone htaken
  · have hheld := ((h.fits j).owner kind data).mp hentry
    refine ⟨j, ?_, h.blocks_of_held hheld⟩
    rintro rfl
    exact hown _ hheld rfl

/-- The entry of one name is changed: the other names are as before. -/
theorem entries_setEntry_of_ne {kind kind' : Kind} {entry : Option (Entry ι)} (h : kind' ≠ kind) :
    (d.setEntry (fileName safeId kind) entry).entries (fileName safeId kind') =
      d.entries (fileName safeId kind') :=
  Function.update_of_ne (fun heq => h (fileName_injective safeId heq)) ..

theorem entries_setEntry_self {kind : Kind} {entry : Option (Entry ι)} :
    (d.setEntry (fileName safeId kind) entry).entries (fileName safeId kind) = entry :=
  Function.update_self ..

theorem entries_setEntry_outside {kind : Kind} {entry : Option (Entry ι)} {path : PyStr}
    (h : ∀ kind, path ≠ fileName safeId kind) :
    (d.setEntry (fileName safeId kind) entry).entries path = d.entries path :=
  Function.update_of_ne (h kind) ..

variable [DecidableEq ι]

/-- What a new note of one recording has to be for the blocking to go on. -/
theorem blame_update (h : Inv safeId start notes d) {note' : Note}
    (hblocks : ∀ kind, (notes i).Blocks kind → note'.Blocks kind)
    (hfailed : ∀ kind, note'.failed = some kind →
      (notes i).failed = some kind ∨ ∃ j, j ≠ i ∧ (notes j).Blocks kind) :
    ∀ j kind, (Function.update notes i note' j).failed = some kind →
      ∃ k, (Function.update notes i note' k).Blocks kind := by
  have hkeep : ∀ k kind, (notes k).Blocks kind → (Function.update notes i note' k).Blocks kind := by
    intro k kind hk
    by_cases hki : k = i
    · subst hki
      rw [Function.update_self]
      exact hblocks kind hk
    · rwa [Function.update_of_ne hki]
  have hold : ∀ k kind, (notes k).failed = some kind →
      ∃ k', (Function.update notes i note' k').Blocks kind := by
    intro k kind hk
    obtain ⟨k', hk'⟩ := h.blame k kind hk
    exact ⟨k', hkeep k' kind hk'⟩
  intro j kind hj
  by_cases hji : j = i
  · subst hji
    rw [Function.update_self] at hj
    rcases hfailed kind hj with hold' | ⟨k, -, hk⟩
    · exact hold j kind hold'
    · exact ⟨k, hkeep k kind hk⟩
  · rw [Function.update_of_ne hji] at hj
    exact hold j kind hj

/-! ## What one call does to the invariant -/

/-- The notes fit when the new one does and those of the others still do. -/
theorem fits_update {note' : Note} (hself : note'.Fits safeId d i)
    (hothers : ∀ j, j ≠ i → (notes j).Fits safeId d j) (j : ι) :
    (Function.update notes i note' j).Fits safeId d j :=
  (Function.forall_update_iff notes fun j note => note.Fits safeId d j).mpr ⟨hself, hothers⟩ j

theorem Inv.fail (h : Inv safeId start notes d) (hi : notes i = note) {kind : Kind}
    (hbelow : ∀ file ∈ note.held, file.1.rank < kind.rank) (hgoing : note.failed = none)
    (htaken : d.entries (fileName safeId kind) ≠ none) :
    Inv safeId start (Function.update notes i { note with failed := some kind }) d := by
  subst hi
  have hfits := h.fits i
  refine ⟨h.output, h.outside, h.entry, fits_update ⟨hfits.owner, hfits.temps, ?_, hfits.seen⟩
    fun j _ => h.fits j, ?_⟩
  · intro kind' hkind'
    obtain rfl := Option.some.inj hkind'
    exact hbelow
  · refine blame_update h (fun kind' hblocks => ?_) fun kind' hkind' => ?_
    · rcases hblocks with ⟨-, file, hfile, hrank⟩ | ⟨later, hlater, -⟩
      · exact .inr ⟨kind, rfl, hrank.trans_lt (hbelow file hfile)⟩
      · rw [hgoing] at hlater
        cases hlater
    · obtain rfl := Option.some.inj hkind'
      refine .inr (h.blocked htaken fun file hfile heq => ?_)
      have hlt := hbelow file hfile
      rw [heq] at hlt
      omega

theorem Inv.setTemp (h : Inv safeId start notes d) (hi : notes i = note) {kind : Kind}
    (htemp : ∀ file, note.temp = some file → file.1 = kind) (data : Option Bytes) :
    Inv safeId start (Function.update notes i { note with temp := data.map fun data => (kind, data) })
      (d.setTemp i (fileName safeId kind) data) := by
  subst hi
  have hfits := h.fits i
  refine ⟨h.output, h.outside, h.entry, fits_update ⟨hfits.owner, fun path => ?_, hfits.below, hfits.seen⟩
    fun j hj => ⟨(h.fits j).owner, fun path => ?_, (h.fits j).below, (h.fits j).seen⟩,
    blame_update h (fun _ hblocks => hblocks) fun _ hfailed => .inl hfailed⟩
  · show Function.update d.temps i _ i path = _
    rw [Function.update_self]
    by_cases hpath : path = fileName safeId kind
    · subst hpath
      rw [Function.update_self]
      cases data with
      | none => rfl
      | some data => simp
    · rw [Function.update_of_ne hpath, hfits.temps path]
      have hold : (notes i).temp.bind (fun file =>
          if path = fileName safeId file.1 then some file.2 else none) = none := by
        rw [Option.bind_eq_none_iff]
        intro file hfile
        rw [htemp file hfile, if_neg hpath]
      rw [hold]
      cases data with
      | none => rfl
      | some data => simp [hpath]
  · show Function.update d.temps i _ j path = _
    rw [Function.update_of_ne hj]
    exact (h.fits j).temps path

theorem Inv.link (h : Inv safeId start notes d) (hi : notes i = note) {kind : Kind} {data : Bytes}
    (hgoing : note.failed = none) (hfree : d.entries (fileName safeId kind) = none) :
    Inv safeId start (Function.update notes i { note with held := note.held ++ [(kind, data)] })
      (d.setEntry (fileName safeId kind) (some (.file (some i) data))) := by
  subst hi
  refine ⟨h.output, fun path hpath => ?_, fun kind' => ?_,
    fits_update ⟨fun kind' data' => ?_, (h.fits i).temps, fun kind' hkind' => ?_, (h.fits i).seen⟩
      fun j hj => ⟨fun kind' data' => ?_, (h.fits j).temps, (h.fits j).below, (h.fits j).seen⟩, ?_⟩
  · rw [entries_setEntry_outside hpath]
    exact h.outside path hpath
  · by_cases hkind : kind' = kind
    · subst hkind
      exact .inr ⟨i, data, entries_setEntry_self⟩
    · rw [entries_setEntry_of_ne hkind]
      exact h.entry kind'
  · rw [List.mem_append, List.mem_singleton]
    by_cases hkind : kind' = kind
    · subst hkind
      rw [entries_setEntry_self, or_iff_right (h.not_held hfree i data')]
      simp [eq_comm]
    · rw [entries_setEntry_of_ne hkind, (h.fits i).owner, or_iff_left]
      exact fun heq => hkind (Prod.mk.inj heq).1
  · rw [hgoing] at hkind'
    cases hkind'
  · by_cases hkind : kind' = kind
    · subst hkind
      rw [entries_setEntry_self]
      refine iff_of_false (fun heq => hj ?_) (h.not_held hfree j data')
      cases heq
      rfl
    · rw [entries_setEntry_of_ne hkind]
      exact (h.fits j).owner kind' data'
  · refine blame_update h (fun kind' hblocks => ?_) fun _ hfailed => .inl hfailed
    rcases hblocks with ⟨hnone, file, hfile, hrank⟩ | hlater
    · exact .inl ⟨hnone, file, List.mem_append_left _ hfile, hrank⟩
    · exact .inr hlater

theorem Inv.remove (h : Inv safeId start notes d) (hi : notes i = note) {kind : Kind} {data : Bytes}
    {before : List (Kind × Bytes)} (hheld : note.held = before ++ [(kind, data)])
    (hnew : ∀ file ∈ before, file.1 ≠ kind) (hfailed : note.failed ≠ none) :
    Inv safeId start (Function.update notes i { note with held := before })
      (d.setEntry (fileName safeId kind) none) := by
  subst hi
  have hentry : d.entries (fileName safeId kind) = some (.file (some i) data) :=
    ((h.fits i).owner kind data).mpr (by simp [hheld])
  refine ⟨h.output, fun path hpath => ?_, fun kind' => ?_,
    fits_update ⟨fun kind' data' => ?_, (h.fits i).temps, fun kind' hkind' file hfile => ?_,
      (h.fits i).seen⟩
      fun j hj => ⟨fun kind' data' => ?_, (h.fits j).temps, (h.fits j).below, (h.fits j).seen⟩, ?_⟩
  · rw [entries_setEntry_outside hpath]
    exact h.outside path hpath
  · by_cases hkind : kind' = kind
    · subst hkind
      exact .inl entries_setEntry_self
    · rw [entries_setEntry_of_ne hkind]
      exact h.entry kind'
  · by_cases hkind : kind' = kind
    · subst hkind
      rw [entries_setEntry_self]
      exact iff_of_false (fun heq => by cases heq) fun hmem => hnew _ hmem rfl
    · rw [entries_setEntry_of_ne hkind, (h.fits i).owner, hheld, List.mem_append,
        List.mem_singleton, or_iff_left]
      exact fun heq => hkind (Prod.mk.inj heq).1
  · refine (h.fits i).below kind' hkind' file ?_
    rw [hheld]
    exact List.mem_append_left _ hfile
  · by_cases hkind : kind' = kind
    · subst hkind
      rw [entries_setEntry_self]
      refine iff_of_false (fun heq => by cases heq) fun hmem => hj ?_
      have hother := ((h.fits j).owner kind' data').mpr hmem
      rw [hentry] at hother
      cases hother
      rfl
    · rw [entries_setEntry_of_ne hkind]
      exact (h.fits j).owner kind' data'
  · refine blame_update h (fun kind' hblocks => ?_) fun _ hfailed' => .inl hfailed'
    rcases hblocks with ⟨hnone, -⟩ | hlater
    · exact absurd hnone hfailed
    · exact .inr hlater

/-- The recording looks at the output directory, or forgets that it did. -/
theorem Inv.look (h : Inv safeId start notes d) (hi : notes i = note) (seen : Bool)
    (hseen : seen = true → d.output = .directory) :
    Inv safeId start (Function.update notes i { note with seen := seen }) d := by
  subst hi
  have hfits := h.fits i
  exact ⟨h.output, h.outside, h.entry,
    fits_update ⟨hfits.owner, hfits.temps, hfits.below, hseen⟩ fun j _ => h.fits j,
    blame_update h (fun _ hblocks => hblocks) fun _ hfailed => .inl hfailed⟩

omit [DecidableEq ι] in
theorem Inv.makeOutput (h : Inv safeId start notes d) :
    Inv safeId start notes { d with output := .directory } :=
  ⟨.inr rfl, h.outside, h.entry,
    fun j => ⟨(h.fits j).owner, (h.fits j).temps, (h.fits j).below, fun _ => rfl⟩, h.blame⟩

/-! ## The calls -/

/-- A call that changes nothing. -/
theorem racing_same {c : FsCall} {K : FsAnswer → Note → Prop}
    (h : ∀ notes d, Inv safeId start notes d → notes i = note →
      ∃ r, answer i c d = (r, d) ∧ K r note) : racing safeId start i c note K := by
  intro notes d hinv hi
  obtain ⟨r, hr, hk⟩ := h notes d hinv hi
  rw [hr]
  refine ⟨KeepsOthers.refl, note, ?_, hk⟩
  rw [← hi, Function.update_eq_self]
  exact hinv

/-- The program ends with one note, and does not raise. -/
abbrev Ends {α : Type} (safeId : PyStr) (start : Directory ι) (i : ι) (p : Recorder α)
    (note note' : Note) : Prop :=
  Meets (racing safeId start i) p (fun _ n => n = note') (fun _ _ => False) note

theorem ends_perform {c : FsCall} (h : ∀ d : Directory ι, answer i c d = (.ok true, d)) :
    Ends safeId start i (perform c) note note :=
  meets_perform.mpr (racing_same fun _ d _ _ => ⟨.ok true, h d, rfl⟩)

theorem ends_attempt {c : FsCall} (h : ∀ d : Directory ι, answer i c d = (.ok true, d)) :
    Ends safeId start i (attempt c) note note :=
  meets_attempt.mpr (racing_same fun _ d _ _ => ⟨.ok true, h d, rfl⟩)

theorem ends_bind {α β : Type} {p : Recorder α} {f : α → Recorder β} {note' : Note}
    {Q : β → Note → Prop} {E : ArtifactExc → Note → Prop} (hp : Ends safeId start i p note note')
    (hf : ∀ a, Meets (racing safeId start i) (f a) Q E note') :
    Meets (racing safeId start i) (p >>= f) Q E note := by
  rw [meets_bind]
  refine hp.mono (Pool.acting_monotone i) (fun a n hn => ?_) fun _ _ h => h.elim
  rw [hn]
  exact hf a

/-- A call about the temporary file. -/
theorem ends_setTemp {c : FsCall} {kind : Kind} (data : Option Bytes)
    (h : ∀ d : Directory ι, answer i c d = (.ok true, d.setTemp i (fileName safeId kind) data))
    (htemp : ∀ file, note.temp = some file → file.1 = kind) :
    Ends safeId start i (perform c) note { note with temp := data.map fun data => (kind, data) } := by
  apply meets_perform.mpr
  intro notes d hinv hi
  rw [h d]
  refine ⟨fun j hj => ⟨?_, fun _ _ hentry => hentry⟩, _, hinv.setTemp hi htemp data, rfl⟩
  exact Function.update_of_ne hj ..

theorem ends_openTemp (path : PyStr) : Ends safeId start i (openTemp path) note note := by
  have hbody : Ends safeId start i (do perform (.temp path .chmod); perform (.temp path .fdopen))
      note note :=
    ends_bind (ends_perform fun _ => rfl) fun _ => ends_perform fun _ => rfl
  unfold openTemp
  apply meets_handle.mpr
  exact hbody.mono (Pool.acting_monotone i) (fun _ _ h => h) fun _ _ h => h.elim

/-- A recording that goes on, at a name after those it has. -/
structure Note.Before (note : Note) (kind : Kind) : Prop where
  going : note.failed = none
  below : ∀ file ∈ note.held, file.1.rank < kind.rank

theorem occupied_race {kind : Kind} (stage : Stage) (hnote : note.Before kind) :
    Meets (racing safeId start i) (occupied (fileName safeId kind) stage)
      (fun b n => b = false ∧ n = note ∨ b = true ∧ n = { note with failed := some kind })
      (fun _ _ => False) note := by
  have hentries : ∀ notes d, Inv safeId start notes d →
      (d.entries (fileName safeId kind)).any Entry.resolves =
        (d.entries (fileName safeId kind)).isSome ∧
      (d.entries (fileName safeId kind)).any Entry.isSymlink = false := by
    intro notes d hinv
    rcases hinv.entry kind with h | ⟨j, data, h⟩
    · rw [h]
      exact ⟨rfl, rfl⟩
    · rw [h]
      exact ⟨rfl, rfl⟩
  unfold occupied
  rw [meets_bind, meets_query]
  intro notes d hinv hi
  obtain ⟨hexists, -⟩ := hentries notes d hinv
  simp only [answer, hexists]
  cases hsome : (d.entries (fileName safeId kind)).isSome with
  | true =>
    refine ⟨KeepsOthers.refl, _, hinv.fail hi hnote.below hnote.going fun hnone => ?_,
      meets_pure.mpr (.inr ⟨rfl, rfl⟩)⟩
    rw [hnone] at hsome
    cases hsome
  | false =>
    refine ⟨KeepsOthers.refl, note, ?_, ?_⟩
    · rw [← hi, Function.update_eq_self]
      exact hinv
    · show Meets _ (query _) _ _ _
      rw [meets_query]
      refine racing_same fun notes' d' hinv' _ => ⟨_, rfl, ?_⟩
      rw [(hentries notes' d' hinv').2]
      exact .inl ⟨rfl, rfl⟩

/-- What comes after the check of a name. -/
theorem meets_checked_race {α : Type} {kind : Kind} {stage : Stage} {p : Recorder α}
    {Q : α → Note → Prop} {E : ArtifactExc → Note → Prop} (hnote : note.Before kind)
    (hp : Meets (racing safeId start i) p Q E note)
    (he : ∀ e, E e { note with failed := some kind }) :
    Meets (racing safeId start i)
      (do raiseWhen (← occupied (fileName safeId kind) stage) (refusing (fileName safeId kind)); p)
      Q E note := by
  rw [meets_bind]
  refine (occupied_race stage hnote).mono (Pool.acting_monotone i) ?_ fun _ _ h => h.elim
  rintro b n (⟨rfl, rfl⟩ | ⟨rfl, rfl⟩)
  · exact meets_bind.mpr (meets_raiseWhen.mpr hp)
  · exact meets_bind.mpr (meets_raiseWhen.mpr (he _))

theorem linkTemp_race {kind : Kind} {data : Bytes} (hnote : note.Before kind)
    (htemp : note.temp = some (kind, data)) :
    Meets (racing safeId start i) (linkTemp (fileName safeId kind))
      (fun _ n => n = { note with held := note.held ++ [(kind, data)] })
      (fun _ n => n = { note with failed := some kind }) note := by
  unfold linkTemp
  rw [meets_bind, meets_ask]
  intro notes d hinv hi
  have hdata : d.temps i (fileName safeId kind) = some data := by
    rw [(hinv.fits i).temps, hi, htemp]
    exact if_pos rfl
  cases hentry : d.entries (fileName safeId kind) with
  | none =>
    simp only [answer, hdata, hentry]
    refine ⟨KeepsOthers.setEntry fun j hj data' => ?_, _, hinv.link hi hnote.going hentry, rfl⟩
    rw [hentry]
    exact (Option.some_ne_none _).symm
  | some entry =>
    simp only [answer, hdata, hentry]
    refine ⟨KeepsOthers.refl, _, hinv.fail hi hnote.below hnote.going fun hnone => ?_, rfl⟩
    rw [hnone] at hentry
    cases hentry

/-! ## The programs -/

/-- The temporary file is filled. -/
theorem ends_writeTemp {kind : Kind} {data : Bytes}
    (htemp : ∀ file, note.temp = some file → file.1 = kind) :
    Ends safeId start i
      (tryFinally
        (do
          perform (.temp (fileName safeId kind) (.write data))
          perform (.temp (fileName safeId kind) .flush)
          perform (.temp (fileName safeId kind) .fsync))
        (perform (.temp (fileName safeId kind) .close)))
      note { note with temp := some (kind, data) } := by
  have hbody : Ends safeId start i
      (do
        perform (.temp (fileName safeId kind) (.write data))
        perform (.temp (fileName safeId kind) .flush)
        perform (.temp (fileName safeId kind) .fsync))
      note { note with temp := some (kind, data) } :=
    ends_bind (ends_setTemp (some data) (fun _ => rfl) htemp) fun _ =>
      ends_bind (ends_perform fun _ => rfl) fun _ => ends_perform fun _ => rfl
  apply meets_tryFinally.mpr
  refine hbody.mono (Pool.acting_monotone i) (fun _ n hn => ?_) fun _ _ h => h.elim
  subst hn
  exact ends_perform fun _ => rfl

/-- **One artifact**: the recording has it then, or gives up at its name. -/
theorem atomicWrite_race {held : List (Kind × Bytes)} {kind : Kind} {data : Bytes}
    (hbelow : ∀ file ∈ held, file.1.rank < kind.rank) :
    Meets (racing safeId start i) (atomicWrite (fileName safeId kind) data)
      (fun _ n => n = ⟨held ++ [(kind, data)], none, none, false⟩)
      (fun _ n => n = ⟨held, none, some kind, false⟩) ⟨held, none, none, false⟩ := by
  have hunlink : ∀ held failed, Ends safeId start i (perform (.temp (fileName safeId kind) .unlink))
      ⟨held, some (kind, data), failed, false⟩ ⟨held, none, failed, false⟩ := fun held failed =>
    ends_setTemp none (fun _ => rfl) fun file hfile => by
      obtain rfl := Option.some.inj hfile
      rfl
  unfold atomicWrite
  refine meets_checked_race ⟨rfl, hbelow⟩ ?_ fun _ => rfl
  refine ends_bind (ends_setTemp (some []) (fun _ => rfl) nofun) fun _ => ?_
  apply meets_tryFinally.mpr
  refine ends_bind (ends_openTemp _) fun _ => ?_
  refine ends_bind (ends_writeTemp fun file hfile => ?_) fun _ => ?_
  · obtain rfl := Option.some.inj hfile
    rfl
  · apply meets_bind.mpr
    refine (linkTemp_race ⟨rfl, hbelow⟩ rfl).mono (Pool.acting_monotone i) (fun _ n hn => ?_)
      fun _ n hn => ?_
    · subst hn
      refine (ends_attempt fun _ => rfl).mono (Pool.acting_monotone i) (fun _ n hn => ?_)
        fun _ _ h => h.elim
      subst hn
      exact (hunlink _ _).mono (Pool.acting_monotone i) (fun _ _ h => h) fun _ _ h => h.elim
    · subst hn
      exact (hunlink _ _).mono (Pool.acting_monotone i) (fun _ _ h => h) fun _ _ h => h.elim

/-- Files in the order of writing. -/
abbrev Ordered (files : List (Kind × Bytes)) : Prop := files.Pairwise fun a b => a.1.rank < b.1.rank

/-- **The roll-back** removes the recording's own files, the last one first. -/
theorem rollback_race {before created : List (Kind × Bytes)} {failed : Option Kind}
    (hordered : Ordered (before ++ created)) (hfailed : failed ≠ none) :
    Ends safeId start i (rollback (created.map fun file => fileName safeId file.1))
      ⟨before ++ created, none, failed, false⟩ ⟨before, none, failed, false⟩ := by
  induction created generalizing before with
  | nil =>
    rw [List.append_nil]
    exact meets_pure.mpr rfl
  | cons file created ih =>
    rw [List.append_cons] at hordered ⊢
    refine ends_bind (ih hordered) fun _ => ?_
    have hnew : ∀ file' ∈ before, file'.1 ≠ file.1 := by
      intro file' hfile' heq
      have hlt := (List.pairwise_append.mp (List.pairwise_append.mp hordered).1).2.2 file' hfile'
        file (List.mem_singleton_self file)
      rw [heq] at hlt
      omega
    apply meets_attempt.mpr
    intro notes d hinv hi
    have hentry : d.entries (fileName safeId file.1) = some (.file (some i) file.2) := by
      apply ((hinv.fits i).owner file.1 file.2).mpr
      rw [hi]
      exact List.mem_append_right _ (List.mem_singleton_self file)
    simp only [answer, hentry]
    refine ⟨KeepsOthers.setEntry fun j hj data => ?_, _, hinv.remove hi rfl hnew hfailed, rfl⟩
    rw [hentry]
    intro heq
    cases heq
    exact hj rfl

/-- The recording gave up and has nothing any more. -/
def Note.GaveUp (note : Note) : Prop := ∃ kind, note = ⟨[], none, some kind, false⟩

theorem writeArtifacts_race {created files : List (Kind × Bytes)}
    (hordered : Ordered (created ++ files)) :
    Meets (racing safeId start i)
      (writeArtifacts (created.map fun file => fileName safeId file.1)
        (files.map fun file => (fileName safeId file.1, file.2)))
      (fun _ n => n = ⟨created ++ files, none, none, false⟩) (fun _ n => n.GaveUp)
      ⟨created, none, none, false⟩ := by
  induction files generalizing created with
  | nil =>
    rw [List.append_nil]
    exact meets_pure.mpr rfl
  | cons file files ih =>
    have hbelow : ∀ file' ∈ created, file'.1.rank < file.1.rank := fun file' hfile' =>
      (List.pairwise_append.mp hordered).2.2 file' hfile' file List.mem_cons_self
    rw [List.append_cons] at hordered
    rw [List.map_cons]
    unfold writeArtifacts
    apply meets_bind.mpr
    apply meets_handle.mpr
    refine (atomicWrite_race hbelow).mono (Pool.acting_monotone i) (fun _ n hn => ?_) fun e n hn => ?_
    · subst hn
      have hrest := ih hordered
      rw [List.map_append] at hrest
      rw [List.append_cons created file files]
      exact hrest
    · subst hn
      have hcreated : Ordered ([] ++ created) :=
        (List.pairwise_append.mp (List.pairwise_append.mp hordered).1).1
      exact ends_bind (rollback_race hcreated (Option.some_ne_none _)) fun _ =>
        meets_throw.mpr ⟨file.1, rfl⟩

theorem preflight_race (kinds : List Kind) :
    Meets (racing safeId start i) (preflight (kinds.map (fileName safeId)))
      (fun _ n => n = Note.start) (fun _ n => n.GaveUp) Note.start := by
  induction kinds with
  | nil => exact meets_pure.mpr rfl
  | cons kind kinds ih =>
    exact meets_checked_race ⟨rfl, nofun⟩ ih fun _ => ⟨kind, rfl⟩

/-- A directory that was seen stays one, so nothing else is ever found in its place. -/
theorem occupiedByOther_race (hseen : note.seen = false) :
    Meets (racing safeId start i) occupiedByOther (fun b n => b = false ∧ n = note)
      (fun _ _ => False) note := by
  unfold occupiedByOther
  apply meets_bind.mpr
  apply meets_query.mpr
  intro notes d hinv hi
  refine ⟨KeepsOthers.refl, { note with seen := decide (d.output ≠ .absent) }, hinv.look hi _ ?_, ?_⟩
  · intro h
    exact hinv.output.resolve_left (of_decide_eq_true h)
  · show Meets _ (if decide (d.output ≠ .absent) then _ else _) _ _ _
    cases hexists : decide (d.output ≠ .absent) with
    | false =>
      refine meets_pure.mpr ⟨rfl, ?_⟩
      rw [← hseen]
    | true =>
      apply meets_bind.mpr
      apply meets_query.mpr
      intro notes' d' hinv' hi'
      have hdir : d'.output = .directory := (hinv'.fits i).seen (by rw [hi'])
      refine ⟨KeepsOthers.refl, note, ?_, ?_⟩
      · have hforget := hinv'.look hi' false nofun
        rw [← hseen] at hforget
        exact hforget
      · exact meets_pure.mpr ⟨by simp [hdir], rfl⟩

theorem prepareOutput_race (hseen : note.seen = false) :
    Ends safeId start i prepareOutput note note := by
  unfold prepareOutput
  apply meets_bind.mpr
  apply meets_query.mpr
  refine racing_same fun notes d hinv _ => ⟨.ok false, ?_, ?_⟩
  · have houtput : d.output ≠ .symlink := by
      rcases hinv.output with h | h
      · rw [h]
        exact nofun
      · rw [h]
        exact nofun
    simp only [answer, decide_eq_false houtput]
  · apply meets_bind.mpr
    apply meets_raiseWhen.mpr
    apply meets_bind.mpr
    refine (occupiedByOther_race hseen).mono (Pool.acting_monotone i) ?_ fun _ _ h => h.elim
    rintro b n ⟨rfl, rfl⟩
    apply meets_bind.mpr
    apply meets_raiseWhen.mpr
    apply meets_bind.mpr
    apply meets_perform.mpr
    intro notes d hinv hi
    have hmake : answer i .makeOutput d = (.ok true, { d with output := .directory }) := by
      rcases hinv.output with h | h
      · simp only [answer, h]
      · simp only [answer, h]
        rw [← h]
    rw [hmake]
    refine ⟨fun j _ => ⟨rfl, fun _ _ h => h⟩, n, ?_, ends_attempt fun _ => rfl⟩
    rw [← hi, Function.update_eq_self]
    exact hinv.makeOutput

/-- The note of a recording that succeeded: all its files are there. -/
def finished (recording : Recording) (contents : Recording.Contents) : Note :=
  ⟨recording.kinds.map fun kind => (kind, contents.of kind), none, none, false⟩

theorem ordered_kinds (recording : Recording) (f : Kind → Bytes) :
    Ordered (recording.kinds.map fun kind => (kind, f kind)) := by
  have hkinds : recording.kinds.Pairwise fun a b => a.rank < b.rank := by
    unfold Recording.kinds
    cases recording.persistAudio <;> cases recording.persistTranscript <;> decide
  exact List.pairwise_map.mpr hkinds

theorem persist_race {env : RecorderEnv} {recording : Recording} {contents : Recording.Contents}
    (hname : recording.safeId = safeId)
    (hflags : (recording.persistAudio || recording.persistTranscript) = true)
    (hcontents : recording.contents env = .ok contents) :
    Meets (racing safeId start i) (persistVoiceResponse env recording)
      (fun _ n => n = finished recording contents) (fun _ n => n.GaveUp) Note.start := by
  have hpaths : recording.path = fileName safeId := by
    funext kind
    rw [Recording.path, hname]
  have hdisabled : (!recording.persistAudio && !recording.persistTranscript) = false := by
    rw [← Bool.not_or, hflags]
    rfl
  unfold persistVoiceResponse
  rw [hpaths, hdisabled, hcontents]
  apply meets_bind.mpr
  apply meets_raiseWhen.mpr
  refine ends_bind (prepareOutput_race rfl) fun _ => ?_
  apply meets_bind.mpr
  refine (preflight_race recording.kinds).mono (Pool.acting_monotone i) (fun _ n hn => ?_)
    fun _ _ h => h
  subst hn
  apply meets_bind.mpr
  apply meets_ofExcept.mpr
  show Meets _ _ _ _ _
  apply meets_bind.mpr
  have hordered : Ordered ([] ++ recording.kinds.map fun kind => (kind, contents.of kind)) :=
    ordered_kinds recording contents.of
  have hfiles : (recording.kinds.map fun kind => (fileName safeId kind, contents.of kind)) =
      (recording.kinds.map fun kind => (kind, contents.of kind)).map
        fun file => (fileName safeId file.1, file.2) := by
    rw [List.map_map]
    rfl
  rw [hfiles]
  refine (writeArtifacts_race hordered).mono (Pool.acting_monotone i) (fun _ n hn => ?_)
    fun _ _ h => h
  exact meets_pure.mpr hn

end Invariant

/-! ## Any number of recordings -/

section Races

variable {n : ℕ}

/-- Recordings of one response id that want to write to one directory. None of the names is taken, and
each recording asks for something and can make what it writes. -/
structure Races (env : RecorderEnv) (safeId : PyStr) (recordings : Fin n → Recording)
    (start : Directory (Fin n)) : Prop where
  names : ∀ i, (recordings i).safeId = safeId
  requested : ∀ i, ((recordings i).persistAudio || (recordings i).persistTranscript) = true
  contents : ∀ i, ∃ contents, (recordings i).contents env = .ok contents
  output : start.output = .absent ∨ start.output = .directory
  free : ∀ kind, start.entries (fileName safeId kind) = none
  temps : ∀ i path, start.temps i path = none

abbrev RecorderPool (n : ℕ) :=
  Pool (Fin n) FsCall FsAnswer (Except ArtifactExc PersistedVoiceArtifacts) (Directory (Fin n))

/-- All calls are made at once. -/
def raceStart (env : RecorderEnv) (recordings : Fin n → Recording) (start : Directory (Fin n)) :
    RecorderPool n :=
  ⟨fun i => (persistVoiceResponse env (recordings i)).run, start⟩

/-- The directory has the requested files of the recording `i` with its bytes, and no other artifact. -/
structure HoldsOnly (safeId : PyStr) (start : Directory (Fin n)) (i : Fin n) (recording : Recording)
    (contents : Recording.Contents) (d : Directory (Fin n)) : Prop where
  requested : ∀ kind ∈ recording.kinds,
    d.entries (fileName safeId kind) = some (.file (some i) (contents.of kind))
  others : ∀ kind ∉ recording.kinds, d.entries (fileName safeId kind) = none
  outside : ∀ path, (∀ kind, path ≠ fileName safeId kind) → d.entries path = start.entries path
  temps : ∀ j path, d.temps j path = none

/-- What a note has to be when its recording has ended. -/
def Settles (env : RecorderEnv) (recording : Recording) :
    Except ArtifactExc PersistedVoiceArtifacts → Note → Prop
  | .ok _, note => ∃ contents, recording.contents env = .ok contents ∧ note = finished recording contents
  | .error _, note => note.GaveUp

variable {env : RecorderEnv} {safeId : PyStr} {recordings : Fin n → Recording}
  {start : Directory (Fin n)}

theorem Races.kept (h : Races env safeId recordings start) :
    ∃ notes, Pool.Kept answer (Inv safeId start) KeepsOthers
      (fun i => Settles env (recordings i)) (raceStart env recordings start) notes := by
  refine ⟨fun _ => Note.start, ⟨h.output, fun _ _ => rfl, fun kind => .inl (h.free kind),
    fun i => ⟨fun kind data => ?_, h.temps i, nofun, nofun⟩, nofun⟩, fun i => ?_⟩
  · show start.entries _ = _ ↔ _
    rw [h.free kind]
    exact iff_of_false nofun List.not_mem_nil
  · obtain ⟨contents, hcontents⟩ := h.contents i
    refine Process.wp_mono (Pool.acting_monotone i) (fun r note hr => ?_)
      (persist_race (h.names i) (h.requested i) hcontents)
    cases r with
    | ok paths => exact ⟨contents, hcontents, hr⟩
    | error e => exact hr

variable {notes : Fin n → Note} {d : Directory (Fin n)}

/-- Not every recording gives up: the one that gives up at the last name was kept from it by another. -/
theorem Inv.exists_going (hinv : Inv safeId start notes d) (hn : 0 < n) :
    ∃ i, (notes i).failed = none := by
  by_contra hall
  have hfailed : ∀ i, ∃ kind, (notes i).failed = some kind := fun i =>
    Option.ne_none_iff_exists'.mp fun hnone => hall ⟨i, hnone⟩
  have hclimb : ∀ m, ∃ i kind, (notes i).failed = some kind ∧ m ≤ kind.rank := by
    intro m
    induction m with
    | zero =>
      obtain ⟨kind, hkind⟩ := hfailed ⟨0, hn⟩
      exact ⟨_, kind, hkind, Nat.zero_le _⟩
    | succ m ih =>
      obtain ⟨i, kind, hkind, hm⟩ := ih
      obtain ⟨j, ⟨hnone, -⟩ | ⟨later, hlater, hrank⟩⟩ := hinv.blame i kind hkind
      · exact absurd ⟨j, hnone⟩ hall
      · exact ⟨j, later, hlater, by omega⟩
  obtain ⟨-, kind, -, hrank⟩ := hclimb 3
  cases kind with
  | wav => exact absurd hrank (by decide)
  | transcript => exact absurd hrank (by decide)
  | manifest => exact absurd hrank (by decide)

/-- Two recordings cannot both have the manifest. -/
theorem Inv.holder_unique (hinv : Inv safeId start notes d) {i j : Fin n} {kind : Kind}
    {data data' : Bytes} (hi : (kind, data) ∈ (notes i).held) (hj : (kind, data') ∈ (notes j).held) :
    i = j := by
  have hentry := ((hinv.fits i).owner kind data).mpr hi
  rw [((hinv.fits j).owner kind data').mpr hj] at hentry
  cases hentry
  rfl

theorem Inv.holdsOnly (hinv : Inv safeId start notes d) {winner : Fin n} {recording : Recording}
    {contents : Recording.Contents} (hwinner : notes winner = finished recording contents)
    (hothers : ∀ i ≠ winner, (notes i).GaveUp) :
    HoldsOnly safeId start winner recording contents d := by
  refine ⟨fun kind hkind => ?_, fun kind hkind => ?_, hinv.outside, fun i path => ?_⟩
  · apply ((hinv.fits winner).owner kind _).mpr
    rw [hwinner]
    exact List.mem_map_of_mem hkind
  · refine (hinv.entry kind).resolve_right ?_
    rintro ⟨i, data, hentry⟩
    have hmem := ((hinv.fits i).owner kind data).mp hentry
    by_cases hi : i = winner
    · subst hi
      rw [hwinner] at hmem
      obtain ⟨kind', hkind', heq⟩ := List.mem_map.mp hmem
      obtain ⟨rfl, -⟩ := Prod.mk.inj heq
      exact hkind hkind'
    · obtain ⟨failed, hnote⟩ := hothers i hi
      rw [hnote] at hmem
      cases hmem
  · rw [(hinv.fits i).temps path]
    by_cases hi : i = winner
    · subst hi
      rw [hwinner]
      rfl
    · obtain ⟨failed, hnote⟩ := hothers i hi
      rw [hnote]
      rfl

/-- **Recordings of one response id neither clobber nor mix**, in any interleaving: no step changes a
file of another recording, and when all have ended, exactly one has succeeded and the directory holds
what it was asked for. -/
theorem one_recording_wins (h : Races env safeId recordings start) (hn : 0 < n) :
    (∀ pool pool' i, Pool.Reaches answer (raceStart env recordings start) pool →
      Pool.Step answer i pool pool' → KeepsOthers i pool.state pool'.state) ∧
    ∀ pool, Pool.Reaches answer (raceStart env recordings start) pool →
      (∀ i, ∃ r, pool.procs i = .done r) →
      ∃ winner paths contents, pool.procs winner = .done (.ok paths) ∧
        (recordings winner).contents env = .ok contents ∧
        (∀ i ≠ winner, ∃ e, pool.procs i = .done (.error e)) ∧
        HoldsOnly safeId start winner (recordings winner) contents pool.state := by
  refine ⟨fun pool pool' i hr hs => Pool.guarantee_of_kept h.kept hr hs, fun pool hr hdone => ?_⟩
  obtain ⟨notes, hinv, hprocs⟩ := Pool.kept_reaches h.kept hr
  have hsettles : ∀ i r, pool.procs i = .done r → Settles env (recordings i) r (notes i) := by
    intro i r hi
    have hi' := hprocs i
    rw [hi] at hi'
    exact hi'
  obtain ⟨winner, hgoing⟩ := hinv.exists_going hn
  obtain ⟨r, hwinner⟩ := hdone winner
  cases r with
  | error e =>
    obtain ⟨kind, hnote⟩ := hsettles winner _ hwinner
    rw [hnote] at hgoing
    cases hgoing
  | ok paths =>
    obtain ⟨contents, hcontents, hnote⟩ := hsettles winner _ hwinner
    have hmanifest : ∀ i contents, notes i = finished (recordings i) contents →
        (Kind.manifest, contents.of .manifest) ∈ (notes i).held := by
      intro i contents hi
      rw [hi]
      refine List.mem_map_of_mem ?_
      simp [Recording.kinds]
    have hothers : ∀ i ≠ winner, ∃ e, pool.procs i = .done (.error e) := by
      intro i hi
      obtain ⟨r', hr'⟩ := hdone i
      cases r' with
      | error e => exact ⟨e, hr'⟩
      | ok paths' =>
        obtain ⟨contents', -, hnote'⟩ := hsettles i _ hr'
        exact absurd (hinv.holder_unique (hmanifest i _ hnote') (hmanifest winner _ hnote)) hi
    refine ⟨winner, paths, contents, hwinner, hcontents, hothers, hinv.holdsOnly hnote ?_⟩
    intro i hi
    obtain ⟨e, he⟩ := hothers i hi
    exact hsettles i _ he

/-! ## Two recordings -/

/-- One caller asks for both files, the other for the transcript. -/
def sampleRecordings : Fin 2 → Recording
  | 0 => sampleRecording
  | 1 => { sampleRecording with persistAudio := false }

def noDirectory : Directory (Fin 2) := ⟨.absent, fun _ => none, fun _ _ => none⟩

theorem sampleRaces : Races demoRecorder (lit "r1") sampleRecordings noDirectory := by
  have hcontents : ∀ i, ((sampleRecordings i).contents demoRecorder).isOk = true := by decide +kernel
  refine ⟨by decide +kernel, by decide, fun i => ?_, .inl rfl, fun _ => rfl, fun _ _ => rfl⟩
  have hi := hcontents i
  cases h : (sampleRecordings i).contents demoRecorder with
  | ok contents => exact ⟨contents, rfl⟩
  | error e =>
    rw [h] at hi
    cases hi

/-- They come to an end, and then one of them has won. -/
theorem sampleRecordings_winner :
    ∃ pool, Pool.Reaches answer (raceStart demoRecorder sampleRecordings noDirectory) pool ∧
      ∃ winner paths contents, pool.procs winner = .done (.ok paths) ∧
        (sampleRecordings winner).contents demoRecorder = .ok contents ∧
        (∀ i ≠ winner, ∃ e, pool.procs i = .done (.error e)) ∧
        HoldsOnly (lit "r1") noDirectory winner (sampleRecordings winner) contents pool.state := by
  obtain ⟨pool, hreaches, hdone⟩ :=
    Pool.exists_ended answer (raceStart demoRecorder sampleRecordings noDirectory)
  exact ⟨pool, hreaches, (one_recording_wins sampleRaces (by decide)).2 pool hreaches hdone⟩

end Races

end Sentinel.Voice.Artifacts
