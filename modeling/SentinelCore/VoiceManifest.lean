import SentinelCore.VoiceRaces
import SentinelCore.VoiceWav
import SentinelCore.Py.JsonReads

/-!
# The manifest of a recording

The text of a manifest is read back as the manifest (`manifest_read`). A recording that returned, among any
number of recordings of one directory and in any interleaving, has left a manifest that says what is in its
other files, and these hold the response (`returned_recording_described`).
-/

namespace Sentinel.Voice.Artifacts

open Py Lib

/-! ## The text -/

/-- `ensure_ascii=False, indent=2`. -/
def indented : JsonFormat := .ofArgs false false (some 2)

theorem indentedBlock_eq (opening closing : CodePoint) (level : ℕ) (items : List PyStr) :
    indentedBlock opening closing level items = indented.block opening closing level items := by
  cases items with
  | nil => rfl
  | cons item items =>
    simp [indentedBlock, JsonFormat.block, JsonFormat.moreItems, JsonFormat.newLine, newLine, indented,
      JsonFormat.ofArgs, lit]

/-- The text of a manifest is one of the texts of `json.dumps`. -/
theorem indentedText_eq (v : Json) : ∀ level, indentedText level v = v.render indented level := by
  have hquote : ∀ s, indented.quote s = quote s := Json.quote_ascii_off rfl
  induction v using Json.induct with
  | null => exact fun _ => rfl
  | bool b => exact fun _ => by cases b <;> rfl
  | int | float => exact fun _ => rfl
  | str s => exact fun _ => (hquote s).symm
  | arr items ih =>
    intro level
    have hitems : indentedItems level items = items.map (Json.render indented (level + 1)) := by
      induction items with
      | nil => rfl
      | cons v rest ihrest =>
        exact congrArg₂ List.cons (ih v List.mem_cons_self (level + 1))
          (ihrest fun w hw => ih w (List.mem_cons_of_mem _ hw))
    rw [Json.render_arr, ← hitems]
    exact indentedBlock_eq _ _ _ _
  | obj fields ih =>
    intro level
    have hmember : ∀ k t, indented.member (k, t) = quote k ++ lit ": " ++ t := by
      intro k t
      rw [List.append_assoc, ← hquote]
      rfl
    have hfields : indentedFields level fields =
        (fields.map fun kv => (kv.1, kv.2.render indented (level + 1))).map indented.member := by
      induction fields with
      | nil => rfl
      | cons kv rest ihrest =>
        refine congrArg₂ List.cons ?_ (ihrest fun kv' hkv' => ih kv' (List.mem_cons_of_mem _ hkv'))
        rw [hmember, ← ih kv List.mem_cons_self (level + 1)]
    rw [Json.render_obj]
    show indentedBlock _ _ level (indentedFields level fields) = _
    rw [hfields]
    exact indentedBlock_eq _ _ _ _

/-! ## The contents of a recording -/

section Contents

variable {env : RecorderEnv} {recording : Recording} {contents : Recording.Contents}

/-- The bytes of a manifest are read back as the manifest. -/
theorem manifest_read {wav : Option Bytes} {transcriptBytes data : Bytes}
    (hlimits : env.checkLimits (recording.manifest env wav transcriptBytes) = .ok ())
    (hduration : env.ReadsFloat (env.duration recording.response.pcmAudio.length recording.response.sampleRate))
    (hdata : encodeUtf8 (indentedText 0 (recording.manifest env wav transcriptBytes) ++ lit "\n") = .ok data) :
    ∃ text, decodeUtf8 data = .ok text ∧
      loads env.toRuntime text = .ok (recording.manifest env wav transcriptBytes) := by
  obtain ⟨hdepth, hints⟩ := (Runtime.checkLimits_ok env.toRuntime).mp hlimits
  have hoptional : ∀ s, (Recording.optionalStr s).Atoms indented.Separable env.ReadsFloat := by
    intro s
    cases s with
    | none => trivial
    | some s => exact fun h => by cases h
  have hseparable : ∀ s, indented.Separable s := fun s h => by cases h
  have hatoms : (recording.manifest env wav transcriptBytes).Atoms indented.Separable env.ReadsFloat := by
    have htypes : ∀ v ∈ recording.response.eventTypes.map Json.str, v.Atoms indented.Separable env.ReadsFloat := by
      intro v hv
      obtain ⟨s, -, rfl⟩ := List.mem_map.mp hv
      exact hseparable s
    simp [Recording.manifest, Recording.audioEntry, Recording.transcriptEntry, Json.Atoms, Json.AtomsFields,
      hseparable, hoptional, hduration]
    exact Json.atoms_arr.mpr htypes
  have hwf : (recording.manifest env wav transcriptBytes).wellFormed = true := by
    have hoptional : ∀ s, (Recording.optionalStr s).wellFormed = true := by
      intro s
      cases s <;> rfl
    have haudio : (recording.audioEntry env (wav.map (Recording.digestText env))).wellFormed = true := by
      refine Json.wellFormed_obj.mpr ⟨of_decide_eq_true rfl, ?_⟩
      simp only [List.forall_mem_cons]
      exact ⟨rfl, rfl, rfl, rfl, rfl, rfl, rfl, rfl, rfl, rfl, hoptional _, hoptional _, by simp⟩
    have htranscript : ∀ digest, (recording.transcriptEntry env transcriptBytes digest).wellFormed = true := by
      intro digest
      refine Json.wellFormed_obj.mpr ⟨of_decide_eq_true rfl, ?_⟩
      simp only [List.forall_mem_cons]
      exact ⟨rfl, rfl, rfl, rfl, hoptional _, hoptional _, by simp⟩
    refine Json.wellFormed_obj.mpr ⟨of_decide_eq_true rfl, ?_⟩
    simp only [List.forall_mem_cons]
    refine ⟨rfl, rfl, rfl, hoptional _, rfl, rfl, haudio, htranscript _, ?_, by simp⟩
    refine Json.wellFormed_arr.mpr fun v hv => ?_
    obtain ⟨s, -, rfl⟩ := List.mem_map.mp hv
    rfl
  have hread := loads_render (f := indented) ⟨isSeparated_ofArgs _ _ _, hwf, hints, hatoms⟩
    (hdepth.trans env.maxDumpDepth_le) (w := lit "\n") rfl
  rw [Json.ordered_eq rfl, ← indentedText_eq] at hread
  exact ⟨_, decodeUtf8_of_encodeUtf8 hdata, hread⟩

theorem limits_of_contents (h : recording.contents env = .ok contents) :
    env.checkLimits (recording.manifest env contents.wavBytes contents.transcriptBytes) = .ok () := by
  unfold Recording.contents at h
  simp only [bind_eq_ok, mapError_eq_ok, pure_eq_ok] at h
  obtain ⟨_, _, _, _, _, _, _, hlimits, _, _, rfl⟩ := h
  exact hlimits

/-- A WAV file that is made holds the audio. -/
theorem wav_read {pcmAudio file : Bytes} {sampleRate : ℕ} (h : createPcm16Wav pcmAudio sampleRate = .ok file) :
    readWav file = wavOf pcmAudio sampleRate := by
  obtain ⟨_, hrate, hrest⟩ := bind_eq_ok.mp h
  obtain ⟨_, heven, hrest⟩ := bind_eq_ok.mp hrest
  obtain ⟨_, hsize, -⟩ := bind_eq_ok.mp hrest
  obtain ⟨header, hfile, -, hread, -⟩ := isRecordable (not_ne_iff.mp (raiseIf_eq_ok.mp heven))
    (not_lt.mp (raiseIf_eq_ok.mp hsize)) (not_not.mp (raiseIf_eq_ok.mp hrate))
  obtain rfl := Except.ok.inj (h.symm.trans hfile)
  exact hread

end Contents

/-! ## The directory -/

section Races

variable {n : ℕ} {env : RecorderEnv} {safeId : PyStr} {recordings : Fin n → Recording}
  {start : Directory (Fin n)}

/-- The files of a recording say what they hold: the manifest is read from its bytes and gives the digests of the
other files, and these give back the transcript and the audio. -/
structure Described (env : RecorderEnv) (safeId : PyStr) (recording : Recording) (i : Fin n)
    (d : Directory (Fin n)) (wav : Option Bytes) (transcript : Bytes) : Prop where
  manifest : ∃ data text, d.entries (fileName safeId .manifest) = some (.file (some i) data) ∧
    decodeUtf8 data = .ok text ∧ loads env.toRuntime text = .ok (recording.manifest env wav transcript)
  audio : recording.persistAudio = true → ∃ data, wav = some data ∧
    d.entries (fileName safeId .wav) = some (.file (some i) data) ∧
    readWav data = wavOf recording.response.pcmAudio recording.response.sampleRate
  text : decodeUtf8 transcript = .ok recording.response.transcript
  transcriptFile : recording.persistTranscript = true →
    d.entries (fileName safeId .transcript) = some (.file (some i) transcript)

/-- **A recording that returned has left files that describe themselves**, among any number of recordings of one
directory and at any point of any interleaving from then on. -/
theorem returned_recording_described (h : Races env safeId recordings start) {pool : RecorderPool n}
    (hreaches : Pool.Reaches answer (raceStart env recordings start) pool) {i : Fin n}
    {paths : PersistedVoiceArtifacts} (hdone : pool.procs i = .done (.ok paths))
    (hduration : env.ReadsFloat
      (env.duration (recordings i).response.pcmAudio.length (recordings i).response.sampleRate)) :
    ∃ contents, (recordings i).contents env = .ok contents ∧
      Described env safeId (recordings i) i pool.state contents.wavBytes contents.transcriptBytes := by
  obtain ⟨notes, hinv, hprocs⟩ := Pool.kept_reaches h.kept hreaches
  have hsettles : Settles env (recordings i) (.ok paths) (notes i) := by
    have hi := hprocs i
    rw [hdone] at hi
    exact hi
  obtain ⟨contents, hcontents, hnote⟩ := hsettles
  have hfile : ∀ kind ∈ (recordings i).kinds,
      pool.state.entries (fileName safeId kind) = some (.file (some i) (contents.of kind)) := by
    intro kind hkind
    refine ((hinv.fits i).owner kind _).mpr ?_
    rw [hnote]
    exact List.mem_map_of_mem hkind
  obtain ⟨haudio, htranscript, hmanifest⟩ := contents_eq_ok hcontents
  obtain ⟨text, hdecode, hread⟩ := manifest_read (limits_of_contents hcontents) hduration hmanifest
  refine ⟨contents, hcontents, ⟨_, text, hfile .manifest (by simp [Recording.kinds]), hdecode, hread⟩, ?_,
    decodeUtf8_of_encodeUtf8 htranscript, fun hpersist => hfile .transcript (by simp [Recording.kinds, hpersist])⟩
  intro hpersist
  obtain ⟨data, hdata, hwav⟩ := haudio hpersist
  have hentry := hfile .wav (by simp [Recording.kinds, hpersist])
  rw [show contents.of .wav = data from by rw [Recording.Contents.of, hdata]; rfl] at hentry
  exact ⟨data, hdata, hentry, wav_read hwav⟩

/-- Of two recordings that have ended, the one that goes on has returned. -/
theorem returned_recording_described_sample : ∃ pool i paths contents,
    Pool.Reaches answer (raceStart demoRecorder sampleRecordings noDirectory) pool ∧
      pool.procs i = .done (.ok paths) ∧ (sampleRecordings i).contents demoRecorder = .ok contents ∧
      Described demoRecorder (lit "r1") (sampleRecordings i) i pool.state contents.wavBytes
        contents.transcriptBytes := by
  obtain ⟨pool, hreaches, hended⟩ := Pool.exists_ended answer (raceStart demoRecorder sampleRecordings noDirectory)
  obtain ⟨notes, hinv, hprocs⟩ := Pool.kept_reaches sampleRaces.kept hreaches
  obtain ⟨i, hgoing⟩ := hinv.exists_going (by decide)
  obtain ⟨r, hr⟩ := hended i
  have hsettles := hprocs i
  rw [hr] at hsettles
  cases r with
  | error e =>
    obtain ⟨kind, hnote⟩ := hsettles
    rw [hnote] at hgoing
    cases hgoing
  | ok paths =>
    have hhalf : matchNumber (lit "0.5") = some (lit "0.5", true, []) := by decide
    obtain ⟨contents, hcontents, hdescribed⟩ :=
      returned_recording_described sampleRaces hreaches hr (.inr ⟨hhalf, rfl⟩)
    exact ⟨pool, i, paths, contents, hreaches, hr, hcontents, hdescribed⟩

end Races

end Sentinel.Voice.Artifacts
