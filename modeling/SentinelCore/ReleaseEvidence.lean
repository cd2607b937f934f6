import SentinelCore.Hashchain
import SentinelCore.Py.Path
import Mathlib.Data.List.Dedup

/-!
# Release evidence

`sentinel_core/release_evidence.py`: the manifest of the digests of all tracked files. A tracked path is
checked as a text; the file is then opened through the file system, which follows links.

1. What the check leaves is a path of names, and such a path leads below the root unless a link is on the way
   (`location_iff`).
2. The records are in order, one for each tracked path, and each is the digest of the file the path leads to
   (`build_spec`). These files lie in the repository exactly if no last link leads out of it
   (`covers_iff`).
-/

namespace Sentinel.Release

open Py Lib

/-- The exceptions of the manifest: its own errors, links that `resolve` cannot follow to an end, and what a
system call raises. -/
inductive ReleaseExc where
  | valueError (message : PyStr)
  | symlinkLoop
  | os (errno : ℕ)
  deriving DecidableEq

/-- The file system, the directory the process is in, how many links a system call follows, and how deep
`resolve` goes into links that lead to links. -/
structure Host where
  tree : Node FileName Bytes
  cwd : Place FileName
  cwd_dir : tree.dirAt cwd = true
  maxLinks : ℕ
  maxDepth : ℕ

namespace Host

variable (host : Host)

/-- Where a path starts. -/
def start (path : PurePath) : Place FileName := if path.absolute then [] else host.cwd

/-- `path.resolve()`. -/
def resolve (path : PurePath) : Except ReleaseExc PurePath :=
  match host.tree.resolve host.maxDepth (host.start path) path.moves with
  | some place => .ok (.ofPlace place)
  | none => .error .symlinkLoop

/-- `path.stat()`: the node that a system call finds. -/
def stat (path : PurePath) : Option (Node FileName Bytes) :=
  (host.tree.walk host.maxLinks (host.start path) path.moves).bind fun place => host.tree.find place

/-- `path.is_file()`. -/
def isFile (path : PurePath) : Bool :=
  match host.stat path with
  | some (.file _) => true
  | some (.dir _) => false
  | some (.link _ _) => false
  | none => false

/-- What `path.open("rb")` reads. -/
def contentOf (path : PurePath) : Except ReleaseExc Bytes :=
  match host.stat path with
  | some (.file content) => .ok content
  | some (.dir _) => .error (.os 21)
  | some (.link _ _) => .error (.os 40)
  | none => .error (.os 2)

end Host

/-- `_CHUNK_SIZE`. -/
def chunkSize : ℕ := 1024 * 1024

/-- `iter(lambda: handle.read(size), b"")`: the reads up to the first empty one, `fuel` at most. -/
def chunks (size : ℕ) : ℕ → Bytes → List Bytes
  | 0, _ => []
  | fuel + 1, data =>
    if data.take size = [] then [] else data.take size :: chunks size fuel (data.drop size)

/-- The digest after an update with each chunk. -/
def digestOfChunks (env : Env) (updates : List Bytes) : Digest := env.sha256 updates.flatten

variable (env : Env) (host : Host)

def sha256File (path : PurePath) : Except ReleaseExc PyStr := do
  let content ← host.contentOf path
  return hexText (digestOfChunks env (chunks chunkSize content.length content)).val

/-- `f"{message}{value!r}"`. -/
def pathError (message : String) (value : PyStr) : ReleaseExc :=
  .valueError (lit message ++ env.repr (.str value))

/-- `_validated_relative_path`. -/
def validatedRelativePath (value : PyStr) : Except ReleaseExc PurePath :=
  let path := PurePath.ofText value
  if value = [] ∨ path.absolute = true ∨ lit ".." ∈ path.parts.map PathPart.text then
    .error (pathError env "tracked path must stay inside the repository: " value)
  else .ok path

structure FileRecord where
  path : PyStr
  sha256 : PyStr
  deriving DecidableEq

/-- The body of the loop. -/
def fileRecord (root : PurePath) (rawPath : PyStr) : Except ReleaseExc FileRecord := do
  let relative ← validatedRelativePath env rawPath
  let fullPath := root.join relative
  if host.isFile fullPath then
    let sha256 ← sha256File env host fullPath
    return ⟨rawPath, sha256⟩
  else throw (pathError env "tracked path is not a regular file: " rawPath)

/-- `sorted(set(tracked_paths))`. -/
def sortedPaths (trackedPaths : List PyStr) : List PyStr := trackedPaths.dedup.insertionSort (· ≤ ·)

def buildTrackedFileRecords (repoRoot : PurePath) (trackedPaths : List PyStr) :
    Except ReleaseExc (List FileRecord) := do
  let root ← host.resolve repoRoot
  (sortedPaths trackedPaths).mapM (fileRecord env host root)

/-! ## What the manifest should cover -/

/-- The resolved repository root. -/
def RootOf (repoRoot : PurePath) (root : Place FileName) : Prop :=
  host.tree.Resolves (host.start repoRoot) repoRoot.moves root

/-- The fully resolved location of a tracked path. -/
def LocationOf (root : Place FileName) (path : PyStr) (location : Place FileName) : Prop :=
  host.tree.Resolves [] ((PurePath.ofPlace root).join (.ofText path)).moves location

/-- The digest is that of the regular file at the location. -/
def DigestOf (location : Place FileName) (digest : PyStr) : Prop :=
  ∃ content, host.tree.find location = some (.file content) ∧ digest = hexText (env.sha256 content).val

/-- The records cover the tracked paths and only repository content: they are in strict order, one for each
tracked path, and each digest is that of a regular file whose location lies inside of the root. -/
structure Covers (root : Place FileName) (trackedPaths : List PyStr) (records : List FileRecord) :
    Prop where
  sorted : (records.map FileRecord.path).Pairwise (· < ·)
  exact : ∀ path, path ∈ records.map FileRecord.path ↔ path ∈ trackedPaths
  inside : ∀ record ∈ records, ∃ location, LocationOf host root record.path location ∧
    DigestOf env host location record.sha256 ∧ root <+: location

/-- Wherever the last link on the way of the tracked path leads, the names behind it end inside of the root. -/
def LinksStayInside (root : Place FileName) (path : PyStr) : Prop :=
  ∀ mid rest, host.tree.LastLink root (PurePath.ofText path).names mid rest → root <+: mid ++ rest

variable {env host} {repoRoot relative : PurePath} {root location : Place FileName} {rawPath : PyStr}
  {trackedPaths : List PyStr} {records : List FileRecord}

/-! ## Digests -/

/-- The chunks of a file are the file. -/
theorem flatten_chunks {size : ℕ} (hsize : 0 < size) {fuel : ℕ} {data : Bytes} (h : data.length ≤ fuel) :
    (chunks size fuel data).flatten = data := by
  induction fuel generalizing data with
  | zero => exact (List.length_eq_zero_iff.mp (Nat.le_zero.mp h)).symm
  | succ fuel ih =>
    rw [chunks]
    by_cases hend : data.take size = []
    · rw [if_pos hend]
      rcases List.take_eq_nil_iff.mp hend with hzero | hnil
      · omega
      · exact hnil.symm
    · have hrest : (data.drop size).length ≤ fuel := by
        rw [List.length_drop]
        omega
      rw [if_neg hend, List.flatten_cons, ih hrest, List.take_append_drop]

theorem sha256File_eq_ok {path : PurePath} {digest : PyStr} : sha256File env host path = .ok digest ↔
    ∃ content, host.stat path = some (.file content) ∧ digest = hexText (env.sha256 content).val := by
  have hdigest : ∀ content : Bytes,
      digestOfChunks env (chunks chunkSize content.length content) = env.sha256 content := by
    intro content
    unfold digestOfChunks
    rw [flatten_chunks (by decide) le_rfl]
  unfold sha256File
  simp only [bind_eq_ok, pure_eq_ok, hdigest]
  unfold Host.contentOf
  constructor
  · rintro ⟨content, hread, rfl⟩
    cases hstat : host.stat path with
    | none =>
      rw [hstat] at hread
      cases hread
    | some node =>
      rw [hstat] at hread
      cases node with
      | file content' =>
        obtain rfl := Except.ok.inj hread
        exact ⟨content', rfl, rfl⟩
      | dir entries => cases hread
      | link absolute target => cases hread
  · rintro ⟨content, hstat, rfl⟩
    refine ⟨content, ?_, rfl⟩
    rw [hstat]

/-! ## Locations -/

theorem validatedRelativePath_eq_ok : validatedRelativePath env rawPath = .ok relative ↔
    relative = .ofText rawPath ∧ rawPath ≠ [] ∧ relative.absolute = false ∧
      ∀ part ∈ relative.parts, part.text ≠ lit ".." := by
  unfold validatedRelativePath
  dsimp only
  split_ifs with hbad
  · refine ⟨fun h => (by cases h), ?_⟩
    rintro ⟨rfl, hne, habsolute, hparts⟩
    rcases hbad with hnil | hroot | hup
    · exact absurd hnil hne
    · rw [habsolute] at hroot
      cases hroot
    · obtain ⟨part, hpart, htext⟩ := List.mem_map.mp hup
      exact absurd htext (hparts part hpart)
  · obtain ⟨hne, habsolute, hparts⟩ : rawPath ≠ [] ∧ ¬(PurePath.ofText rawPath).absolute = true ∧
        lit ".." ∉ (PurePath.ofText rawPath).parts.map PathPart.text := by
      simpa only [not_or] using hbad
    rw [Except.ok.injEq, eq_comm]
    refine ⟨?_, And.left⟩
    rintro rfl
    exact ⟨rfl, hne, Bool.eq_false_iff.mpr habsolute,
      fun part hpart htext => hparts (List.mem_map.mpr ⟨part, hpart, htext⟩)⟩

/-- The way to a tracked path that passed the check: the names of the root, and then its own. -/
theorem moves_join (h : validatedRelativePath env rawPath = .ok relative) :
    ((PurePath.ofPlace root).join relative).moves =
      root.map .enter ++ (PurePath.ofText rawPath).names.map .enter := by
  obtain ⟨rfl, -, habsolute, hparts⟩ := validatedRelativePath_eq_ok.mp h
  have hjoin : (PurePath.ofPlace root).join (.ofText rawPath) =
      ⟨true, (PurePath.ofPlace root).parts ++ (PurePath.ofText rawPath).parts⟩ := by
    unfold PurePath.join
    rw [habsolute]
    rfl
  rw [hjoin, ← moves_ofPlace, ← moves_eq_names hparts]
  exact List.map_append

/-- A tracked path that passed the check leads from the root by its names. -/
theorem location_iff (h : validatedRelativePath env rawPath = .ok relative) (hroot : host.tree.Plain root) :
    LocationOf host root rawPath location ↔
      host.tree.Resolves root ((PurePath.ofText rawPath).names.map .enter) location := by
  unfold LocationOf
  obtain ⟨rfl, -⟩ := validatedRelativePath_eq_ok.mp h
  rw [moves_join h]
  constructor
  · intro hlocation
    obtain ⟨mid, hmid, hrest⟩ := hlocation.split
    rwa [hmid.unique hroot.resolves] at hrest
  · exact hroot.resolves.append

theorem stat_spec {path : PurePath} {node : Node FileName Bytes} (h : host.stat path = some node) :
    ∃ location, host.tree.Resolves (host.start path) path.moves location ∧
      host.tree.find location = some node := by
  obtain ⟨location, hwalk, hfind⟩ := Option.bind_eq_some_iff.mp h
  exact ⟨location, Node.resolves_of_walk hwalk, hfind⟩

theorem resolve_spec {path : PurePath} (h : host.resolve repoRoot = .ok path) :
    ∃ root, path = .ofPlace root ∧ RootOf host repoRoot root := by
  unfold Host.resolve at h
  cases hroot : host.tree.resolve host.maxDepth (host.start repoRoot) repoRoot.moves with
  | none =>
    rw [hroot] at h
    cases h
  | some root =>
    rw [hroot] at h
    exact ⟨root, (Except.ok.inj h).symm, Node.resolves_of_resolve hroot⟩

/-- No link is on the way to the resolved root. -/
theorem RootOf.plain (h : RootOf host repoRoot root) : host.tree.Plain root := by
  refine Node.Resolves.plain h ?_
  unfold Host.start
  split_ifs
  · exact Node.plain_nil
  · exact Node.plain_of_dirAt host.cwd_dir

/-! ## The manifest -/

/-- A record is made of a path that passed the check and of the file it leads to. -/
theorem fileRecord_eq_ok {record : FileRecord} {path : PurePath}
    (h : fileRecord env host path rawPath = .ok record) :
    record.path = rawPath ∧ ∃ relative content, validatedRelativePath env rawPath = .ok relative ∧
      host.stat (path.join relative) = some (.file content) ∧
      record.sha256 = hexText (env.sha256 content).val := by
  unfold fileRecord at h
  obtain ⟨relative, hrelative, h⟩ := bind_eq_ok.mp h
  dsimp only at h
  split_ifs at h with hfile
  obtain ⟨digest, hdigest, h⟩ := bind_eq_ok.mp h
  obtain rfl := pure_eq_ok.mp h
  obtain ⟨content, hstat, rfl⟩ := sha256File_eq_ok.mp hdigest
  exact ⟨rfl, relative, content, hrelative, hstat, rfl⟩

theorem mem_sortedPaths : rawPath ∈ sortedPaths trackedPaths ↔ rawPath ∈ trackedPaths := by
  unfold sortedPaths
  rw [List.mem_insertionSort, List.mem_dedup]

theorem pairwise_sortedPaths : (sortedPaths trackedPaths).Pairwise (· < ·) := by
  have hsorted : (sortedPaths trackedPaths).Pairwise (· ≤ ·) := List.pairwise_insertionSort _ _
  have hdistinct : (sortedPaths trackedPaths).Nodup :=
    (List.perm_insertionSort _ _).nodup_iff.mpr (List.nodup_dedup _)
  exact (hsorted.and hdistinct).imp fun h => lt_of_le_of_ne h.1 h.2

theorem map_path_of_mapM {path : PurePath} {paths : List PyStr}
    (h : List.Forall₂ (fun rawPath record => fileRecord env host path rawPath = .ok record) paths records) :
    records.map FileRecord.path = paths := by
  induction h with
  | nil => rfl
  | cons hrecord _ ih => rw [List.map_cons, (fileRecord_eq_ok hrecord).1, ih]

/-- The records of a manifest: in order, one for each tracked path, each the digest of the file that the path
leads to. -/
theorem build_spec (h : buildTrackedFileRecords env host repoRoot trackedPaths = .ok records)
    (hroot : RootOf host repoRoot root) :
    records.map FileRecord.path = sortedPaths trackedPaths ∧
      ∀ record ∈ records, ∃ relative location, validatedRelativePath env record.path = .ok relative ∧
        LocationOf host root record.path location ∧ DigestOf env host location record.sha256 := by
  obtain ⟨path, hpath, h⟩ := bind_eq_ok.mp h
  obtain ⟨root', rfl, hroot'⟩ := resolve_spec hpath
  obtain rfl : root = root' := Node.Resolves.unique hroot hroot'
  constructor
  · exact map_path_of_mapM (mapM_eq_ok.mp h)
  · intro record hrecord
    obtain ⟨rawPath, -, hok⟩ := (mem_of_mapM h).mp hrecord
    obtain ⟨rfl, relative, content, hrelative, hstat, hdigest⟩ := fileRecord_eq_ok hok
    obtain ⟨location, hlocation, hfind⟩ := stat_spec hstat
    obtain ⟨rfl, -, habsolute, -⟩ := validatedRelativePath_eq_ok.mp hrelative
    refine ⟨_, location, hrelative, ?_, content, hfind, hdigest⟩
    have hstart : host.start ((PurePath.ofPlace root).join (.ofText record.path)) = [] := by
      unfold Host.start PurePath.join
      rw [habsolute]
      rfl
    rw [hstart] at hlocation
    exact hlocation

/-- **The manifest covers only repository content exactly if no tracked path leaves it by its last link.** -/
theorem covers_iff (h : buildTrackedFileRecords env host repoRoot trackedPaths = .ok records)
    (hroot : RootOf host repoRoot root) :
    Covers env host root trackedPaths records ↔
      ∀ path ∈ trackedPaths, LinksStayInside host root path := by
  obtain ⟨hpaths, hrecords⟩ := build_spec h hroot
  have hplain := hroot.plain
  have hexact : ∀ path, path ∈ records.map FileRecord.path ↔ path ∈ trackedPaths := fun path => by
    rw [hpaths]
    exact mem_sortedPaths
  constructor
  · intro covers path hpath mid rest hlast
    obtain ⟨record, hrecord, rfl⟩ := List.mem_map.mp ((hexact path).mpr hpath)
    obtain ⟨relative, -, hrelative, -, -⟩ := hrecords record hrecord
    obtain ⟨location, hlocation, -, hin⟩ := covers.inside record hrecord
    rw [location_iff hrelative hplain] at hlocation
    rwa [hlocation.unique hlast.resolves] at hin
  · intro hinside
    refine ⟨hpaths ▸ pairwise_sortedPaths, hexact, fun record hrecord => ?_⟩
    obtain ⟨relative, location, hrelative, hlocation, hdigest⟩ := hrecords record hrecord
    refine ⟨location, hlocation, hdigest, ?_⟩
    rw [location_iff hrelative hplain, Node.resolves_names_iff] at hlocation
    rcases hlocation with ⟨-, rfl⟩ | ⟨mid, rest, hlast, rfl⟩
    · exact List.prefix_append _ _
    · have htracked := (hexact record.path).mp (List.mem_map.mpr ⟨record, hrecord, rfl⟩)
      exact hinside record.path htracked mid rest hlast

/-! ## A repository with links -/

def repoName : FileName := ⟨⟨lit "repo", by decide⟩, by decide⟩

def readmeName : FileName := ⟨⟨lit "README", by decide⟩, by decide⟩

def latestName : FileName := ⟨⟨lit "latest", by decide⟩, by decide⟩

def notesName : FileName := ⟨⟨lit "notes", by decide⟩, by decide⟩

def secretName : FileName := ⟨⟨lit "secret", by decide⟩, by decide⟩

/-- A repository with a link to a file of its own and one to a file next to it. -/
def sampleTree : Node FileName Bytes :=
  .dir [
    (repoName, .dir [
      (readmeName, .file [byte 1, byte 2]),
      (latestName, .link false [.enter readmeName]),
      (notesName, .link false [.up, .enter secretName])]),
    (secretName, .file [byte 3])]

def sampleHost : Host where
  tree := sampleTree
  cwd := []
  cwd_dir := rfl
  maxLinks := 40
  maxDepth := 100

def sampleRoot : PurePath := ⟨true, [repoName.toPathPart]⟩

theorem rootOf_sample : RootOf sampleHost sampleRoot [repoName] := by
  have hroot : sampleTree.resolve 0 [] sampleRoot.moves = some [repoName] := by decide +kernel
  exact Node.resolves_of_resolve hroot

theorem covers_iff_sample : ∃ records,
    buildTrackedFileRecords demoEnv sampleHost sampleRoot [lit "latest", lit "README"] = .ok records ∧
      (Covers demoEnv sampleHost [repoName] [lit "latest", lit "README"] records ↔
        ∀ path ∈ [lit "latest", lit "README"], LinksStayInside sampleHost [repoName] path) := by
  obtain ⟨records, h⟩ := exists_ok_of_isSome (x := buildTrackedFileRecords demoEnv sampleHost sampleRoot
    [lit "latest", lit "README"]) (by decide +kernel)
  exact ⟨records, h, covers_iff h rootOf_sample⟩

/-- A tracked link is recorded with the digest of the file it leads to outside of the repository. -/
theorem notes_escape : ¬ ∀ (env : Env) (host : Host) (repoRoot : PurePath) (trackedPaths : List PyStr)
    (records : List FileRecord) (root : Place FileName),
    buildTrackedFileRecords env host repoRoot trackedPaths = .ok records → RootOf host repoRoot root →
      Covers env host root trackedPaths records := by
  intro h
  obtain ⟨records, hbuild⟩ := exists_ok_of_isSome (x := buildTrackedFileRecords demoEnv sampleHost sampleRoot
    [lit "notes"]) (by decide +kernel)
  have covers := h demoEnv sampleHost sampleRoot _ records _ hbuild rootOf_sample
  obtain ⟨record, hrecord, hpath⟩ := List.mem_map.mp ((covers.exact (lit "notes")).mpr List.mem_cons_self)
  obtain ⟨location, hlocation, -, hin⟩ := covers.inside record hrecord
  rw [hpath] at hlocation
  have hsecret : sampleTree.resolve 1 [] ((PurePath.ofPlace [repoName]).join (.ofText (lit "notes"))).moves =
      some [secretName] := by decide +kernel
  rw [hlocation.unique (Node.resolves_of_resolve hsecret)] at hin
  exact absurd hin (by decide)

end Sentinel.Release
