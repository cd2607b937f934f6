import SentinelCore.ReleaseEvidence
import SentinelCore.Py.FsCodec
import SentinelCore.Py.JsonReads

/-!
# The release manifest

`tracked_paths_from_git` and `write_tracked_file_manifest` of `sentinel_core/release_evidence.py`, from the bytes
`git ls-files -z` prints to the bytes of the manifest.

The manifest is written whenever its records can be built, whatever bytes the names of files have
(`writeTrackedFileManifest_eq_ok`). Who reads it as JSON finds exactly the names git listed, byte for byte, each
once and with the digest of the file it leads to (`manifest_lists_tracked`), and the bytes depend on the set of
the names only.
-/

namespace Sentinel.Release

open Py Lib

/-! ## Model -/

/-- The names between NUL bytes that are not empty. -/
def trackedNames (raw : Bytes) : List Bytes := (raw.splitOn 0).filter (· ≠ [])

/-- `tracked_paths_from_git`; `raw` is what `git ls-files -z` prints. -/
def trackedPathsFromGit (raw : Bytes) : List PyStr := (trackedNames raw).map fsdecode

def FileRecord.toJson (record : FileRecord) : Json :=
  .obj [(lit "path", .str record.path), (lit "sha256", .str record.sha256)]

/-- `ensure_ascii=True, indent=2, sort_keys=True`. -/
def manifestFormat : JsonFormat := .ofArgs true true (some 2)

/-- The exceptions of the manifest: those of its records, and those of writing its text. -/
inductive ManifestExc where
  | release (exc : ReleaseExc)
  | python (exc : PyExc)
  deriving DecidableEq

/-- `write_tracked_file_manifest`: the bytes that are written. -/
def writeTrackedFileManifest (env : Env) (host : Host) (repoRoot : PurePath) (raw : Bytes) :
    Except ManifestExc Bytes := do
  let records ← (buildTrackedFileRecords env host repoRoot (trackedPathsFromGit raw)).mapError .release
  let text ← (env.dumpsWith manifestFormat (.arr (records.map FileRecord.toJson))).mapError .python
  (encodeUtf8 (text ++ lit "\n")).mapError .python

variable {env : Env} {host : Host} {repoRoot : PurePath} {root : Place FileName} {raw raw' data : Bytes}
  {records : List FileRecord}

/-! ## Writing -/

/-- The records as a value. -/
def recordsJson (records : List FileRecord) : Json := .arr (records.map FileRecord.toJson)

theorem wellFormed_records (records : List FileRecord) : (recordsJson records).wellFormed = true := by
  refine Json.wellFormed_arr.mpr (List.forall_mem_map.mpr fun record _ => ?_)
  rfl

theorem checkLimits_records (records : List FileRecord) : env.checkLimits (recordsJson records) = .ok () := by
  refine (Runtime.checkLimits_ok env.toRuntime).mpr ⟨?_, ?_⟩
  · refine (Nat.succ_le_succ (Json.depthItems_le.mpr (List.forall_mem_map.mpr fun record _ => ?_))).trans
      env.two_le_maxDumpDepth
    exact le_rfl
  · exact Json.intsPrintableItems_iff.mpr (List.forall_mem_map.mpr fun record _ => rfl)

/-- The members of a record are in order. -/
theorem ordered_records (records : List FileRecord) :
    (recordsJson records).ordered manifestFormat = recordsJson records := by
  unfold recordsJson
  rw [Json.ordered_arr, List.map_map]
  refine congrArg Json.arr (List.map_congr_left fun record _ => ?_)
  rfl

theorem atoms_records {p : PyStr → Prop} {q : PyFloat → Prop} (hpath : p (lit "path")) (hsha : p (lit "sha256"))
    (h : ∀ record ∈ records, p record.path ∧ p record.sha256) : (recordsJson records).Atoms p q :=
  Json.atoms_arr.mpr (List.forall_mem_map.mpr fun record hrecord =>
    ⟨⟨hpath, (h record hrecord).1⟩, ⟨hsha, (h record hrecord).2⟩, trivial⟩)

/-- The text of a manifest, which can always be encoded. -/
theorem encode_records (records : List FileRecord) :
    ∃ data, encodeUtf8 ((recordsJson records).render manifestFormat 0 ++ lit "\n") = .ok data := by
  have hascii := Json.isAscii_render (f := manifestFormat) rfl rfl rfl (v := recordsJson records)
    (atoms_records trivial trivial fun _ _ => ⟨trivial, trivial⟩) 0
  exact encodeUtf8_ok_iff.mpr (isEncodable_append.mpr ⟨Json.isEncodable_of_isAscii hascii, rfl⟩)

/-- The manifest is written exactly when its records can be built. -/
theorem writeTrackedFileManifest_eq_ok : writeTrackedFileManifest env host repoRoot raw = .ok data ↔
    ∃ records, buildTrackedFileRecords env host repoRoot (trackedPathsFromGit raw) = .ok records ∧
      encodeUtf8 ((recordsJson records).render manifestFormat 0 ++ lit "\n") = .ok data := by
  unfold writeTrackedFileManifest
  simp only [bind_eq_ok, mapError_eq_ok, Runtime.dumpsWith_eq_ok]
  constructor
  · rintro ⟨records, hbuild, _, ⟨-, rfl⟩, hdata⟩
    exact ⟨records, hbuild, hdata⟩
  · rintro ⟨records, hbuild, hdata⟩
    exact ⟨records, hbuild, _, ⟨checkLimits_records records, rfl⟩, hdata⟩

/-! ## Reading -/

/-- The records of a manifest as a reader takes them: each names a tracked file by the bytes of its name, and has
the digest of the file it leads to. -/
structure Tracks (env : Env) (host : Host) (root : Place FileName) (name : Bytes) (record : FileRecord) : Prop where
  name : fsencode record.path = some name
  content : ∃ location, LocationOf host root record.path location ∧ DigestOf env host location record.sha256

/-- The manifest does not depend on how often and in what order git lists the names. -/
theorem sortedPaths_congr {paths paths' : List PyStr} (h : ∀ path, path ∈ paths ↔ path ∈ paths') :
    sortedPaths paths = sortedPaths paths' := by
  refine List.Pairwise.eq_of_mem_iff pairwise_sortedPaths pairwise_sortedPaths fun path => ?_
  rw [mem_sortedPaths, mem_sortedPaths, h]

/-- **The manifest lists what git tracks.** It is written whenever its records can be built. Who reads its
bytes finds one record for each name that git listed, byte for byte, and the digest of its file. A listing of the
same names gives the same bytes. -/
theorem manifest_lists_tracked (raw : Bytes) (hroot : RootOf host repoRoot root) :
    ((∃ data, writeTrackedFileManifest env host repoRoot raw = .ok data) ↔
      ∃ records, buildTrackedFileRecords env host repoRoot (trackedPathsFromGit raw) = .ok records) ∧
    ∀ data, writeTrackedFileManifest env host repoRoot raw = .ok data →
      (∃ text names records, decodeUtf8 data = .ok text ∧
        loads env.toRuntime text = .ok (recordsJson records) ∧
        List.Forall₂ (Tracks env host root) names records ∧ names.Nodup ∧
        ∀ name, name ∈ names ↔ name ∈ trackedNames raw) ∧
      ∀ raw', (∀ name, name ∈ trackedNames raw' ↔ name ∈ trackedNames raw) →
        writeTrackedFileManifest env host repoRoot raw' = .ok data := by
  refine ⟨⟨?_, ?_⟩, fun data h => ?_⟩
  · rintro ⟨data, h⟩
    obtain ⟨records, hbuild, -⟩ := writeTrackedFileManifest_eq_ok.mp h
    exact ⟨records, hbuild⟩
  · rintro ⟨records, hbuild⟩
    obtain ⟨data, hdata⟩ := encode_records records
    exact ⟨data, writeTrackedFileManifest_eq_ok.mpr ⟨records, hbuild, hdata⟩⟩
  obtain ⟨records, hbuild, hdata⟩ := writeTrackedFileManifest_eq_ok.mp h
  obtain ⟨hpaths, hrecords⟩ := build_spec hbuild hroot
  constructor
  · have htracked : ∀ path, path ∈ records.map FileRecord.path ↔
        ∃ name ∈ trackedNames raw, fsdecode name = path := by
      intro path
      rw [hpaths, mem_sortedPaths]
      exact List.mem_map
    have hread : loads env.toRuntime ((recordsJson records).render manifestFormat 0 ++ lit "\n") =
        .ok (recordsJson records) := by
      have hkeeps : env.Keeps manifestFormat (recordsJson records) := by
        refine ⟨isSeparated_ofArgs _ _ _, wellFormed_records records,
          ((Runtime.checkLimits_ok env.toRuntime).mp (checkLimits_records records)).2,
          atoms_records (fun _ => by decide) (fun _ => by decide) fun record hrecord => ⟨?_, ?_⟩⟩
        · obtain ⟨name, -, hname⟩ := (htracked record.path).mp (List.mem_map_of_mem hrecord)
          rw [← hname]
          exact fsdecode_separable manifestFormat name
        · obtain ⟨_, _, -, -, content, -, hdigest⟩ := hrecords record hrecord
          rw [hdigest]
          exact manifestFormat.separable_of_encodable (Json.isEncodable_of_isAscii (isAscii_hexText _))
      have hloads := loads_render hkeeps
        (((Runtime.checkLimits_ok env.toRuntime).mp (checkLimits_records records)).1.trans env.maxDumpDepth_le)
        (w := lit "\n") rfl
      rwa [ordered_records] at hloads
    let nameOf : FileRecord → Bytes := fun record => (fsencode record.path).getD []
    have hname : ∀ record ∈ records, fsencode record.path = some (nameOf record) ∧
        fsdecode (nameOf record) = record.path ∧ nameOf record ∈ trackedNames raw := by
      intro record hrecord
      obtain ⟨name, hmem, hpath⟩ := (htracked record.path).mp (List.mem_map_of_mem hrecord)
      have hencode : fsencode record.path = some name := hpath ▸ fsencode_fsdecode name
      have hof : nameOf record = name := congrArg (fun o => o.getD []) hencode
      rw [hof]
      exact ⟨hencode, hpath, hmem⟩
    have hdecode : (records.map nameOf).map fsdecode = records.map FileRecord.path := by
      rw [List.map_map]
      exact List.map_congr_left fun record hrecord => (hname record hrecord).2.1
    refine ⟨_, records.map nameOf, records, decodeUtf8_of_encodeUtf8 hdata, hread, ?_, ?_, fun name => ?_⟩
    · refine List.forall₂_map_left_iff.mpr (List.forall₂_same.mpr fun record hrecord => ?_)
      obtain ⟨_, location, -, hlocation, hdigest⟩ := hrecords record hrecord
      exact ⟨(hname record hrecord).1, location, hlocation, hdigest⟩
    · refine List.Nodup.of_map fsdecode ?_
      rw [hdecode, hpaths]
      exact pairwise_sortedPaths.imp ne_of_lt
    · constructor
      · intro hmem
        obtain ⟨record, hrecord, rfl⟩ := List.mem_map.mp hmem
        exact (hname record hrecord).2.2
      · intro hmem
        obtain ⟨record, hrecord, hpath⟩ := List.mem_map.mp ((htracked (fsdecode name)).mpr ⟨name, hmem, rfl⟩)
        refine List.mem_map.mpr ⟨record, hrecord, fsdecode_injective ?_⟩
        rw [(hname record hrecord).2.1, hpath]
  · intro raw' hnames
    refine writeTrackedFileManifest_eq_ok.mpr ⟨records, ?_, hdata⟩
    have hsame : sortedPaths (trackedPathsFromGit raw') = sortedPaths (trackedPathsFromGit raw) :=
      sortedPaths_congr fun path => by
        unfold trackedPathsFromGit
        simp only [List.mem_map, hnames]
    unfold buildTrackedFileRecords at hbuild ⊢
    rw [hsame]
    exact hbuild

/-- What git prints for a repository with a link and a file. -/
def sampleListing : Bytes :=
  (lit "latest").map (fun c => byte c.val) ++ 0 :: ((lit "README").map (fun c => byte c.val) ++ [0])

theorem manifest_lists_tracked_sample : ∃ data text names records,
    writeTrackedFileManifest demoEnv sampleHost sampleRoot sampleListing = .ok data ∧ decodeUtf8 data = .ok text ∧
      loads demoEnv.toRuntime text = .ok (recordsJson records) ∧
      List.Forall₂ (Tracks demoEnv sampleHost [repoName]) names records ∧
      ∀ name, name ∈ names ↔ name ∈ trackedNames sampleListing := by
  obtain ⟨data, hdata⟩ := exists_ok_of_isSome (x := writeTrackedFileManifest demoEnv sampleHost sampleRoot
    sampleListing) (by decide +kernel)
  obtain ⟨⟨text, names, records, htext, hread, htracks, -, hnames⟩, -⟩ :=
    (manifest_lists_tracked sampleListing rootOf_sample).2 data hdata
  exact ⟨data, text, names, records, hdata, htext, hread, htracks, hnames⟩

end Sentinel.Release
