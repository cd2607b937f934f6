import SentinelCore.Voice
import SentinelCore.Hashchain
import SentinelCore.Lib.Process
import SentinelCore.Py.Struct

/-!
# Voice artifacts

`persist_voice_response` and `_atomic_write` of `sentinel_core/xai_voice.py`. A response is recorded as
up to three files in one directory. Each is written to a temporary file, which is then linked to its
name; when a file cannot be written, those that were linked before it are removed again.

The two functions are programs that make calls of the file system. What a call does is said by
`answer`, for any number of callers of one directory. A path is the name of a file in it.
-/

namespace Sentinel.Voice.Artifacts

open Py Lib

/-! ## Names -/

/-- `[A-Za-z0-9._-]`. -/
def isSafeFileChar (c : CodePoint) : Bool :=
  isAsciiAlnum c || c = chr '.' || c = chr '_' || c = chr '-'

/-- `_SAFE_FILE_COMPONENT_RE.sub("_", value)`: a run of other characters becomes one `_`. -/
def replaceUnsafe : PyStr → PyStr
  | [] => []
  | c :: s =>
    if isSafeFileChar c then c :: replaceUnsafe s
    else if s.head?.any (fun d => !isSafeFileChar d) then replaceUnsafe s
    else chr '_' :: replaceUnsafe s

/-- `value.strip("._-")`. -/
def stripMarks (value : PyStr) : PyStr :=
  let isMark : CodePoint → Bool := fun c => c = chr '.' || c = chr '_' || c = chr '-'
  ((value.dropWhile isMark).reverse.dropWhile isMark).reverse

def safeFileComponent (value : PyStr) : PyStr :=
  let cleaned := stripMarks (replaceUnsafe value)
  (if cleaned = [] then lit "unknown" else cleaned).take 120

/-- The three files of a recording, in the order in which they are written. -/
inductive Kind where
  | wav
  | transcript
  | manifest
  deriving DecidableEq

def Kind.suffix : Kind → PyStr
  | .wav => lit ".wav"
  | .transcript => lit ".txt"
  | .manifest => lit ".manifest.json"

/-- `f"response_{safe_id}.wav"` and its companions. -/
def fileName (safeId : PyStr) (kind : Kind) : PyStr := lit "response_" ++ safeId ++ kind.suffix

theorem fileName_injective (safeId : PyStr) : Function.Injective (fileName safeId) := by
  intro a b h
  have hsuffix : a.suffix = b.suffix := List.append_cancel_left h
  cases a <;> cases b <;> first | rfl | exact absurd hsuffix (by decide)

/-! ## Contents -/

/-- The interpreter with SHA-256; `duration` is `round(response.duration_seconds, 6)`. -/
structure RecorderEnv extends Env where
  duration : (pcmBytes sampleRate : ℕ) → PyFloat

/-- The arguments of one call of `persist_voice_response`, and the text of the moment it is made. -/
structure Recording where
  response : VoiceResponse
  persistAudio : Bool
  persistTranscript : Bool
  createdAt : PyStr

/-- The `OSError` of a call of the file system. -/
inductive OsExc where
  | fileExists
  | other (errno : ℕ)
  deriving DecidableEq

/-- The exceptions of a recording: those of the voice boundary, `FileExistsError` with a message, and
what a call of the file system raises. -/
inductive ArtifactExc where
  | voice (exc : VoiceExc)
  | fileExists (message : PyStr)
  | os (exc : OsExc)
  deriving DecidableEq

def asciiBytes (s : String) : Bytes := s.toList.map fun c => byte c.toNat

def createPcm16Wav (pcmAudio : Bytes) (sampleRate : ℕ) : Except VoiceExc Bytes := do
  raiseIf (sampleRate ∉ allowedSampleRates) (.configuration (lit "sample_rate is unsupported"))
  raiseIf (pcmAudio.length % 2 ≠ 0)
    (.protocol (lit "PCM16 audio length must be divisible by two"))
  raiseIf (0xFFFFFFFF - 36 < pcmAudio.length)
    (.protocol (lit "PCM data is too large for a RIFF/WAVE container"))
  let channels := 1
  let bitDepth := 16
  let blockAlign := channels * bitDepth / 8
  let byteRate := sampleRate * blockAlign
  match structPack [
    .bytes 4 (asciiBytes "RIFF"),
    .uint 4 (36 + pcmAudio.length),
    .bytes 4 (asciiBytes "WAVE"),
    .bytes 4 (asciiBytes "fmt "),
    .uint 4 16,
    .uint 2 1,
    .uint 2 channels,
    .uint 4 sampleRate,
    .uint 4 byteRate,
    .uint 2 blockAlign,
    .uint 2 bitDepth,
    .bytes 4 (asciiBytes "data"),
    .uint 4 pcmAudio.length] with
  | some header => return header ++ pcmAudio
  | none => throw (.other "struct.error")

/-- A line break and the indentation of a level. -/
def newLine (level : ℕ) : PyStr := chr '\n' :: List.replicate (2 * level) (chr ' ')

/-- The lines of a container, one item a line. -/
def indentedBlock (opening closing : CodePoint) (level : ℕ) : List PyStr → PyStr
  | [] => [opening, closing]
  | item :: items =>
    opening :: newLine (level + 1) ++ item ++
      items.flatMap (fun item => chr ',' :: newLine (level + 1) ++ item) ++
      newLine level ++ [closing]

mutual

/-- `json.dumps(value, ensure_ascii=False, indent=2)` at a level. -/
def indentedText (level : ℕ) : Json → PyStr
  | .null => lit "null"
  | .bool true => lit "true"
  | .bool false => lit "false"
  | .int i => intText i
  | .float x => x.text
  | .str s => quote s
  | .arr items => indentedBlock (chr '[') (chr ']') level (indentedItems level items)
  | .obj fields => indentedBlock (chr '{') (chr '}') level (indentedFields level fields)

def indentedItems (level : ℕ) : List Json → List PyStr
  | [] => []
  | v :: rest => indentedText (level + 1) v :: indentedItems level rest

def indentedFields (level : ℕ) : List (PyStr × Json) → List PyStr
  | [] => []
  | (k, v) :: rest => (quote k ++ lit ": " ++ indentedText (level + 1) v) :: indentedFields level rest

end

namespace Recording

variable (env : RecorderEnv) (recording : Recording)

def safeId : PyStr := safeFileComponent recording.response.responseId

def path (kind : Kind) : PyStr := fileName recording.safeId kind

/-- The kinds of the requested paths. -/
def kinds : List Kind :=
  (if recording.persistAudio then [.wav] else []) ++
    (if recording.persistTranscript then [.transcript] else []) ++ [.manifest]

/-- `_sha256_prefixed` of bytes. -/
def digestText (data : Bytes) : PyStr := lit "sha256:" ++ hexText (env.sha256 data).val

def optionalStr : Option PyStr → Json
  | some s => .str s
  | none => .null

/-- The `"audio"` member of the manifest. -/
def audioEntry (wavDigest : Option PyStr) : Json :=
  let response := recording.response
  .obj [(lit "format", .str (lit "audio/pcm")),
    (lit "encoding", .str (lit "Linear16 little-endian")),
    (lit "sample_rate", .int response.sampleRate),
    (lit "channels", .int 1),
    (lit "bit_depth", .int 16),
    (lit "pcm_bytes", .int response.pcmAudio.length),
    (lit "duration_seconds", .float (env.duration response.pcmAudio.length response.sampleRate)),
    (lit "pcm_sha256", .str (digestText env response.pcmAudio)),
    (lit "audio_done_seen", .bool response.audioDoneSeen),
    (lit "persisted", .bool recording.persistAudio),
    (lit "wav_filename",
      optionalStr (if recording.persistAudio then some (recording.path .wav) else none)),
    (lit "wav_sha256", optionalStr wavDigest)]

/-- The `"transcript"` member of the manifest. -/
def transcriptEntry (transcriptBytes : Bytes) (transcriptDigest : Option PyStr) : Json :=
  .obj [(lit "characters", .int recording.response.transcript.length),
    (lit "utf8_bytes", .int transcriptBytes.length),
    (lit "sha256", .str (digestText env transcriptBytes)),
    (lit "persisted", .bool recording.persistTranscript),
    (lit "filename",
      optionalStr (if recording.persistTranscript then some (recording.path .transcript) else none)),
    (lit "file_sha256", optionalStr transcriptDigest)]

def manifest (wavBytes : Option Bytes) (transcriptBytes : Bytes) : Json :=
  let wavDigest := wavBytes.map (digestText env)
  let transcriptDigest :=
    if recording.persistTranscript then some (digestText env transcriptBytes) else none
  .obj [(lit "schema", .str (lit "sentinel.xai-voice-artifact-manifest.v1")),
    (lit "created_at", .str recording.createdAt),
    (lit "response_id", .str recording.response.responseId),
    (lit "status", optionalStr recording.response.status),
    (lit "authoritative", .bool false),
    (lit "warning", .str
      (lit "This manifest provides local integrity metadata only. It is not a SENTINEL " ++
        lit "receipt, signature, consent record, approval, or verification decision.")),
    (lit "audio", recording.audioEntry env wavDigest),
    (lit "transcript", recording.transcriptEntry env transcriptBytes transcriptDigest),
    (lit "event_types", .arr (recording.response.eventTypes.map .str))]

/-- The bytes of the three files; the wav bytes are made only when they are asked for. -/
structure Contents where
  wavBytes : Option Bytes
  transcriptBytes : Bytes
  manifestBytes : Bytes

def wavBytes : Except VoiceExc (Option Bytes) :=
  if recording.persistAudio then
    (createPcm16Wav recording.response.pcmAudio recording.response.sampleRate).map some
  else .ok none

/-- The bytes that are written, or what goes wrong in making them. -/
def contents : Except VoiceExc Contents := do
  let response := recording.response
  let wavBytes ← recording.wavBytes
  let transcriptBytes ← (encodeUtf8 response.transcript).mapError .python
  raiseIf (response.sampleRate = 0) (.other "ZeroDivisionError")
  let manifest := recording.manifest env wavBytes transcriptBytes
  (env.checkLimits manifest).mapError .python
  let manifestBytes ← (encodeUtf8 (indentedText 0 manifest ++ lit "\n")).mapError .python
  return { wavBytes := wavBytes, transcriptBytes := transcriptBytes, manifestBytes := manifestBytes }

/-- The bytes of a requested file. -/
def Contents.of (contents : Contents) : Kind → Bytes
  | .wav => contents.wavBytes.getD []
  | .transcript => contents.transcriptBytes
  | .manifest => contents.manifestBytes

end Recording

/-! ## The file system -/

/-- The two places where the name of an artifact is looked at. -/
inductive Stage where
  | preflight
  | writing
  deriving DecidableEq

/-- A call about the temporary file of an artifact. -/
inductive TempCall where
  | chmod
  | fdopen
  | write (data : Bytes)
  | flush
  | fsync
  | close
  | closeDescriptor
  | link
  | unlink
  deriving DecidableEq

/-- The calls of the file system. A temporary file is named by the path it is made for. -/
inductive FsCall where
  | outputIsSymlink
  | outputExists
  | outputIsDir
  | makeOutput
  | chmodOutput
  | exists (path : PyStr) (stage : Stage)
  | isSymlink (path : PyStr) (stage : Stage)
  | mkstemp (path : PyStr)
  | temp (path : PyStr) (call : TempCall)
  | chmod (path : PyStr)
  | unlink (path : PyStr)
  deriving DecidableEq

/-- An answer: a yes or no where one is asked for. -/
abbrev FsAnswer := Except OsExc Bool

/-- What the path of the output directory is. -/
inductive OutputDir where
  | absent
  | symlink
  | directory
  | other
  deriving DecidableEq

/-- An entry of the directory. A file knows the caller that made it, if one did. -/
inductive Entry (ι : Type) where
  | file (creator : Option ι) (data : Bytes)
  | symlink (resolves : Bool)
  | other
  deriving DecidableEq

/-- `path.exists()`. -/
def Entry.resolves {ι : Type} : Entry ι → Bool
  | .file _ _ | .other => true
  | .symlink resolves => resolves

def Entry.isSymlink {ι : Type} : Entry ι → Bool
  | .symlink _ => true
  | .file _ _ | .other => false

/-- The output directory. `mkstemp` chooses names that are not taken, so the temporary files of the
callers are kept apart from the entries. -/
structure Directory (ι : Type) where
  output : OutputDir
  entries : PyStr → Option (Entry ι)
  temps : ι → PyStr → Option Bytes

namespace Directory

variable {ι : Type} [DecidableEq ι]

def setEntry (d : Directory ι) (path : PyStr) (entry : Option (Entry ι)) : Directory ι :=
  { d with entries := Function.update d.entries path entry }

def setTemp (d : Directory ι) (i : ι) (path : PyStr) (data : Option Bytes) : Directory ι :=
  { d with temps := Function.update d.temps i (Function.update (d.temps i) path data) }

end Directory

open Directory

/-- What a call by the caller `i` does. -/
def answer {ι : Type} [DecidableEq ι] (i : ι) (c : FsCall) (d : Directory ι) : FsAnswer × Directory ι :=
  match c with
  | .outputIsSymlink => (.ok (d.output = .symlink), d)
  | .outputExists => (.ok (d.output ≠ .absent), d)
  | .outputIsDir => (.ok (d.output = .directory), d)
  | .makeOutput =>
    match d.output with
    | .absent => (.ok true, { d with output := .directory })
    | .directory => (.ok true, d)
    | .symlink | .other => (.error .fileExists, d)
  | .chmodOutput => (.ok true, d)
  | .exists path _ => (.ok ((d.entries path).any Entry.resolves), d)
  | .isSymlink path _ => (.ok ((d.entries path).any Entry.isSymlink), d)
  | .mkstemp path => (.ok true, d.setTemp i path (some []))
  | .temp path (.write data) => (.ok true, d.setTemp i path (some data))
  | .temp path .link =>
    match d.temps i path, d.entries path with
    | none, _ => (.error (.other 2), d)
    | some _, some _ => (.error .fileExists, d)
    | some data, none => (.ok true, d.setEntry path (some (.file (some i) data)))
  | .temp path .unlink => (.ok true, d.setTemp i path none)
  | .temp _ _ => (.ok true, d)
  | .chmod _ => (.ok true, d)
  | .unlink path =>
    match d.entries path with
    | some .other => (.error (.other 21), d)
    | some (.file _ _) | some (.symlink _) | none => (.ok true, d.setEntry path none)

/-! ## The programs -/

/-- A computation of the recorder. -/
abbrev Recorder := Prog FsCall FsAnswer ArtifactExc

/-- A call whose failure is raised as it is. -/
def query (c : FsCall) : Recorder Bool := do
  match ← Prog.ask c with
  | .ok b => return b
  | .error e => throw (.os e)

def perform (c : FsCall) : Recorder Unit := do
  let _ ← query c
  return ()

/-- `try: … except OSError: pass`. -/
def attempt (c : FsCall) : Recorder Unit := do
  let _ ← Prog.ask c
  return ()

/-- `if b: raise e`. -/
def raiseWhen (b : Bool) (e : ArtifactExc) : Recorder Unit := if b then throw e else return ()

/-- `path.exists() or path.is_symlink()`. -/
def occupied (path : PyStr) (stage : Stage) : Recorder Bool := do
  if ← query (.exists path stage) then return true
  query (.isSymlink path stage)

def refusing (path : PyStr) : ArtifactExc :=
  .fileExists (lit "refusing to overwrite existing artifact: " ++ path)

/-- `os.link(temporary_path, path)` and its `except` clauses. -/
def linkTemp (path : PyStr) : Recorder Unit := do
  match ← Prog.ask (.temp path .link) with
  | .ok _ => return ()
  | .error .fileExists => throw (refusing path)
  | .error (.other _) =>
    throw (.voice (.configuration
      (lit "artifact filesystem does not support secure no-clobber linking")))

/-- The descriptor is open until `fdopen` takes it, so the `finally` clause closes it when one of the
first two calls fails, and only then. -/
def openTemp (path : PyStr) : Recorder Unit :=
  Prog.handle
    (do
      perform (.temp path .chmod)
      perform (.temp path .fdopen))
    fun e => do
      attempt (.temp path .closeDescriptor)
      throw e

def atomicWrite (path : PyStr) (data : Bytes) : Recorder Unit := do
  raiseWhen (← occupied path .writing) (refusing path)
  perform (.mkstemp path)
  Prog.tryFinally
    (do
      openTemp path
      Prog.tryFinally
        (do
          perform (.temp path (.write data))
          perform (.temp path .flush)
          perform (.temp path .fsync))
        (perform (.temp path .close))
      linkTemp path
      attempt (.chmod path))
    (perform (.temp path .unlink))

/-- `created_path.unlink(missing_ok=True)`, in reverse order of creation. -/
def rollback : List PyStr → Recorder Unit
  | [] => return ()
  | path :: rest => do
    rollback rest
    attempt (.unlink path)

/-- The writes, one after the other. `created` are the paths that were created before; the `except`
clause removes them. -/
def writeArtifacts (created : List PyStr) : List (PyStr × Bytes) → Recorder Unit
  | [] => return ()
  | (path, data) :: rest => do
    Prog.handle (atomicWrite path data) fun e => do
      rollback created
      throw e
    writeArtifacts (created ++ [path]) rest

/-- The check of the names before anything is written. -/
def preflight : List PyStr → Recorder Unit
  | [] => return ()
  | path :: rest => do
    raiseWhen (← occupied path .preflight) (refusing path)
    preflight rest

/-- `output_dir.exists() and not output_dir.is_dir()`. -/
def occupiedByOther : Recorder Bool := do
  if ← query .outputExists then return !(← query .outputIsDir)
  return false

/-- The checks of the output directory. -/
def prepareOutput : Recorder Unit := do
  raiseWhen (← query .outputIsSymlink)
    (.voice (.configuration (lit "output_dir must not be a symbolic link")))
  raiseWhen (← occupiedByOther) (.voice (.configuration (lit "output_dir must be a directory")))
  perform .makeOutput
  attempt .chmodOutput

structure PersistedVoiceArtifacts where
  wavPath : Option PyStr
  transcriptPath : Option PyStr
  manifestPath : PyStr
  deriving DecidableEq

def persistVoiceResponse (env : RecorderEnv) (recording : Recording) :
    Recorder PersistedVoiceArtifacts := do
  raiseWhen (!recording.persistAudio && !recording.persistTranscript)
    (.voice (.configuration
      (lit "at least one of persist_audio or persist_transcript must be enabled")))
  prepareOutput
  preflight (recording.kinds.map recording.path)
  let contents ← Prog.ofExcept ((recording.contents env).mapError .voice)
  writeArtifacts [] (recording.kinds.map fun kind => (recording.path kind, contents.of kind))
  return {
    wavPath := if recording.persistAudio then some (recording.path .wav) else none
    transcriptPath := if recording.persistTranscript then some (recording.path .transcript) else none
    manifestPath := recording.path .manifest }

/-! ## Rules for the calls -/

section Rules

open Prog

variable {γ : Type} {step : FsCall → γ → (FsAnswer → γ → Prop) → Prop} {E : ArtifactExc → γ → Prop}
  {g : γ}

theorem meets_query {c : FsCall} {Q : Bool → γ → Prop} :
    Meets step (query c) Q E g ↔
      step c g fun r g' => match r with | .ok b => Q b g' | .error e => E (.os e) g' := by
  unfold query
  rw [meets_bind, meets_ask]
  refine iff_of_eq (congrArg (step c g) ?_)
  funext r g'
  cases r with
  | ok b => rfl
  | error e => rfl

theorem meets_perform {c : FsCall} {Q : Unit → γ → Prop} :
    Meets step (perform c) Q E g ↔
      step c g fun r g' => match r with | .ok _ => Q () g' | .error e => E (.os e) g' := by
  unfold perform
  rw [meets_bind, meets_query]
  exact Iff.rfl

theorem meets_attempt {c : FsCall} {Q : Unit → γ → Prop} :
    Meets step (attempt c) Q E g ↔ step c g fun _ g' => Q () g' := by
  unfold attempt
  rw [meets_bind, meets_ask]
  exact Iff.rfl

theorem meets_raiseWhen {b : Bool} {e : ArtifactExc} {Q : Unit → γ → Prop} :
    Meets step (raiseWhen b e) Q E g ↔ if b then E e g else Q () g := by
  cases b with
  | true => exact Iff.rfl
  | false => exact Iff.rfl

end Rules

end Sentinel.Voice.Artifacts
