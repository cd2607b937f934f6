import SentinelCore.VoiceArtifacts
import SentinelCore.VoiceCollector

/-!
# Recordings as WAV files

`create_pcm16_wav` on what a collector hands out. The collector keeps the audio of a response even in
length and below its cap, at an allowed rate, and that is what the header needs: every number fits its
slot, and a reader of the file finds the audio again (`readWav`).
-/

namespace Sentinel.Voice

open Py Lib Artifacts

/-- What a reader finds in a RIFF/WAVE file with one format chunk and one data chunk. -/
structure WavFile where
  riff : Bytes
  riffSize : ℕ
  wave : Bytes
  fmt : Bytes
  fmtSize : ℕ
  format : ℕ
  channels : ℕ
  sampleRate : ℕ
  byteRate : ℕ
  blockAlign : ℕ
  bitDepth : ℕ
  dataTag : Bytes
  dataSize : ℕ
  data : Bytes

def readWav (file : Bytes) : WavFile where
  riff := slice file 0 4
  riffSize := fromLittle (slice file 4 4)
  wave := slice file 8 4
  fmt := slice file 12 4
  fmtSize := fromLittle (slice file 16 4)
  format := fromLittle (slice file 20 2)
  channels := fromLittle (slice file 22 2)
  sampleRate := fromLittle (slice file 24 4)
  byteRate := fromLittle (slice file 28 4)
  blockAlign := fromLittle (slice file 32 2)
  bitDepth := fromLittle (slice file 34 2)
  dataTag := slice file 36 4
  dataSize := fromLittle (slice file 40 4)
  data := slice file 44 (fromLittle (slice file 40 4))

/-- The file of mono PCM16 audio at a rate. -/
def wavOf (pcmAudio : Bytes) (sampleRate : ℕ) : WavFile where
  riff := asciiBytes "RIFF"
  riffSize := 36 + pcmAudio.length
  wave := asciiBytes "WAVE"
  fmt := asciiBytes "fmt "
  fmtSize := 16
  format := 1
  channels := 1
  sampleRate := sampleRate
  byteRate := 2 * sampleRate
  blockAlign := 2
  bitDepth := 16
  dataTag := asciiBytes "data"
  dataSize := pcmAudio.length
  data := pcmAudio

/-- The audio can be written as a file that holds it behind a header of 44 bytes. -/
def IsRecordable (pcmAudio : Bytes) (sampleRate : ℕ) : Prop :=
  ∃ header, createPcm16Wav pcmAudio sampleRate = .ok (header ++ pcmAudio) ∧ header.length = 44 ∧
    readWav (header ++ pcmAudio) = wavOf pcmAudio sampleRate ∧
    (readWav (header ++ pcmAudio)).riffSize = (header ++ pcmAudio).length - 8

/-- The arguments of `struct.pack`. -/
def headerItems (pcmAudio : Bytes) (sampleRate : ℕ) : List StructItem :=
  [.bytes 4 (asciiBytes "RIFF"), .uint 4 (36 + pcmAudio.length), .bytes 4 (asciiBytes "WAVE"),
    .bytes 4 (asciiBytes "fmt "), .uint 4 16, .uint 2 1, .uint 2 1, .uint 4 sampleRate,
    .uint 4 (sampleRate * 2), .uint 2 2, .uint 2 16, .bytes 4 (asciiBytes "data"),
    .uint 4 pcmAudio.length]

variable {pcmAudio : Bytes} {sampleRate : ℕ}

theorem sampleRate_le (hrate : sampleRate ∈ allowedSampleRates) : sampleRate ≤ 48000 := by
  have hall : ∀ rate ∈ allowedSampleRates, rate ≤ 48000 := by decide
  exact hall sampleRate hrate

/-- No number of the header overflows its slot. -/
theorem headerItems_fit (hrate : sampleRate ∈ allowedSampleRates)
    (hsize : pcmAudio.length ≤ 0xFFFFFFFF - 36) :
    ∀ item ∈ headerItems pcmAudio sampleRate, item.Fits := by
  have hle := sampleRate_le hrate
  unfold headerItems
  simp only [List.forall_mem_cons, StructItem.Fits]
  refine ⟨trivial, ?_, trivial, trivial, by decide, by decide, by decide, ?_, ?_, by decide,
    by decide, trivial, ?_, by simp⟩
  all_goals omega

/-- The items of the header stand one behind the other. -/
theorem map_width_headerItems : (headerItems pcmAudio sampleRate).map StructItem.width =
    [4, 4, 4, 4, 4, 2, 2, 4, 4, 2, 2, 4, 4] := rfl

theorem length_header :
    ((headerItems pcmAudio sampleRate).flatMap StructItem.packed).length = 44 := by
  rw [List.length_flatMap, List.map_congr_left fun item _ => item.length_packed,
    map_width_headerItems]
  rfl

theorem start_of_widths (i : ℕ) {start : ℕ}
    (h : ([4, 4, 4, 4, 4, 2, 2, 4, 4, 2, 2, 4, 4].take i).sum = start) :
    (((headerItems pcmAudio sampleRate).take i).map StructItem.width).sum = start := by
  rw [List.map_take, map_width_headerItems, h]

theorem createPcm16Wav_eq (heven : pcmAudio.length % 2 = 0)
    (hsize : pcmAudio.length ≤ 0xFFFFFFFF - 36) (hrate : sampleRate ∈ allowedSampleRates) :
    createPcm16Wav pcmAudio sampleRate =
      .ok ((headerItems pcmAudio sampleRate).flatMap StructItem.packed ++ pcmAudio) := by
  have hpack : structPack (headerItems pcmAudio sampleRate) =
      some ((headerItems pcmAudio sampleRate).flatMap StructItem.packed) :=
    structPack_eq_some.mpr ⟨headerItems_fit hrate hsize, rfl⟩
  unfold createPcm16Wav raiseIf
  rw [if_neg (not_not.mpr hrate), if_neg (not_not.mpr heven), if_neg (not_lt.mpr hsize)]
  show Except.bind (.ok ()) _ = _
  simp only [Except.bind]
  split
  · next header hheader =>
    obtain rfl := Option.some.inj (hpack.symm.trans hheader)
    rfl
  · next hheader => cases hpack.symm.trans hheader

/-- The header of a file is read back. -/
theorem readWav_headerItems (hrate : sampleRate ∈ allowedSampleRates)
    (hsize : pcmAudio.length ≤ 0xFFFFFFFF - 36) :
    readWav ((headerItems pcmAudio sampleRate).flatMap StructItem.packed ++ pcmAudio) =
      wavOf pcmAudio sampleRate := by
  have hle := sampleRate_le hrate
  have hdataSize : fromLittle (slice ((headerItems pcmAudio sampleRate).flatMap StructItem.packed ++
      pcmAudio) 40 4) = pcmAudio.length :=
    fromLittle_slice 12 rfl (by omega) _ (start_of_widths 12 (by decide))
  unfold readWav wavOf
  rw [hdataSize, WavFile.mk.injEq]
  refine ⟨slice_packed 0 rfl _ (start_of_widths 0 (by decide)),
    fromLittle_slice 1 rfl (by omega) _ (start_of_widths 1 (by decide)),
    slice_packed 2 rfl _ (start_of_widths 2 (by decide)),
    slice_packed 3 rfl _ (start_of_widths 3 (by decide)),
    fromLittle_slice 4 rfl (by decide) _ (start_of_widths 4 (by decide)),
    fromLittle_slice 5 rfl (by decide) _ (start_of_widths 5 (by decide)),
    fromLittle_slice 6 rfl (by decide) _ (start_of_widths 6 (by decide)),
    fromLittle_slice 7 rfl (by omega) _ (start_of_widths 7 (by decide)), ?_,
    fromLittle_slice 9 rfl (by decide) _ (start_of_widths 9 (by decide)),
    fromLittle_slice 10 rfl (by decide) _ (start_of_widths 10 (by decide)),
    slice_packed 11 rfl _ (start_of_widths 11 (by decide)), rfl, ?_⟩
  · rw [mul_comm]
    exact fromLittle_slice 8 rfl (by omega) _ (start_of_widths 8 (by decide))
  · unfold slice
    rw [List.drop_left' length_header, List.take_length]

theorem isRecordable (heven : pcmAudio.length % 2 = 0) (hsize : pcmAudio.length ≤ 0xFFFFFFFF - 36)
    (hrate : sampleRate ∈ allowedSampleRates) : IsRecordable pcmAudio sampleRate := by
  refine ⟨_, createPcm16Wav_eq heven hsize hrate, length_header, readWav_headerItems hrate hsize, ?_⟩
  rw [readWav_headerItems hrate hsize, List.length_append, length_header]
  show 36 + pcmAudio.length = 44 + pcmAudio.length - 8
  omega

/-- What a collector hands out is even in length, within the cap and at the rate of its limits. -/
theorem audio_of_step {env : VoiceEnv} {limits : Limits} {c c' : ResponseCollector} {event : Event}
    {response : VoiceResponse} (hi : Invariant limits c)
    (hs : Step env limits c event (.ok (some response)) c') :
    response.pcmAudio.length % 2 = 0 ∧ response.pcmAudio.length ≤ limits.maxAudioBytes ∧
      response.sampleRate = limits.sampleRate := by
  cases hs with
  | done responseId status hcount htype hactive hstatus heven =>
    refine ⟨heven, ?_, rfl⟩
    show c.audioParts.flatten.length ≤ _
    rw [List.length_flatten, ← hi.audio_counted]
    exact hi.audio_le

/-- **Every response of a collector can be written as a WAV file that decodes back to it**, as can
every even byte string that a RIFF container holds, at every allowed rate. -/
theorem responses_recordable (env : VoiceEnv) (limits : Limits) (events : List Event) :
    (∀ event response c', consumeFrom env limits
        (feed env limits ResponseCollector.initial events).2 event = (.ok (some response), c') →
      IsRecordable response.pcmAudio response.sampleRate) ∧
    ∀ pcmAudio : Bytes, pcmAudio.length % 2 = 0 → pcmAudio.length ≤ 2 ^ 32 - 1 - 36 →
      ∀ sampleRate ∈ allowedSampleRates, IsRecordable pcmAudio sampleRate := by
  refine ⟨fun event response c' h => ?_, fun pcmAudio heven hsize sampleRate hrate =>
    isRecordable heven hsize hrate⟩
  obtain ⟨hi, -⟩ := @feed_preserves env limits _ events none invariant_initial represents_initial
  obtain ⟨heven, hle, hrate⟩ := audio_of_step hi (step_of_consume h)
  have hcap := limits.audio_range.2
  rw [hrate]
  exact isRecordable heven (by omega) limits.sampleRate_mem

end Sentinel.Voice
