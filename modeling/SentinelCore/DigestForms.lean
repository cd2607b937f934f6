import SentinelCore.EvidenceChain
import SentinelCore.EvidenceContent
import SentinelCore.ReceiptRule
import SentinelCore.VerifierRule

/-!
# The digest validators

Four places check the form of a digest, in three ways.

1. A receipt is checked with `re.fullmatch` (`isSha256Urn_iff`).
2. The schema is checked with `re.search`, whose `$` also matches before a line break at the end
   (`search_iff`), in two fields of a record (`validates_set_iff`).
3. Go cuts the prefix off and looks at the length, the case and the digits (`validateSHA256Digest_eq_ok`).

They agree on a text unless it is a digest with a line break after it (`digestValidators_agree_iff`).
-/

namespace Sentinel

open Py Lib Go

/-- `sha256:` and 64 characters from `0-9a-f`. -/
def IsDigestText (s : PyStr) : Prop :=
  ∃ hex : PyStr, s = lit "sha256:" ++ hex ∧ hex.length = 64 ∧ ∀ c ∈ hex, isLowerHex c = true

/-! ## Python -/

theorem isSha256Urn_iff {s : PyStr} : Receipt.isSha256Urn s = true ↔ IsDigestText s := by
  show Receipt.isSha256UrnStr (.str s) = true ↔ _
  simp only [Receipt.isSha256UrnStr_iff, Json.str.injEq, IsDigestText]

/-! ## The schema -/

theorem fullmatch_iff {s : PyStr} : digestPattern.fullmatch s = true ↔ IsDigestText s :=
  isSha256Urn_iff (s := s)

theorem search_iff {s : PyStr} : digestPattern.search s = true ↔
    IsDigestText s ∨ ∃ t, IsDigestText t ∧ s = t ++ [chr '\n'] := by
  unfold Pattern.search
  rw [Bool.or_eq_true, Bool.and_eq_true, decide_eq_true_eq, fullmatch_iff, fullmatch_iff]
  apply or_congr_right
  constructor
  · rintro ⟨hlast, ht⟩
    exact ⟨s.dropLast, ht, (List.dropLast_append_getLast? _ hlast).symm⟩
  · rintro ⟨t, ht, rfl⟩
    rw [List.getLast?_concat, List.dropLast_concat]
    exact ⟨rfl, ht⟩

/-- A valid record with a new value in a field is valid exactly when the value fits. -/
theorem valid_record_set {properties : List (PyStr × Schema)} {fields : List (PyStr × Json)}
    (hnodup : (properties.map Prod.fst).Nodup) (h : (Schema.record properties).Valid (.obj fields))
    {field : PyStr} {schema : Schema} (hfield : (field, schema) ∈ properties) {v : Json} :
    (Schema.record properties).Valid (.obj (setField fields field v)) ↔ schema.Valid v := by
  obtain ⟨_, ⟨⟩, hkeys, hmembers⟩ := Schema.valid_record.mp h
  rw [Schema.valid_record]
  constructor
  · rintro ⟨_, ⟨⟩, -, hall⟩
    obtain ⟨w, hw, hvalid⟩ := hall _ hfield
    rw [getField_setField, if_pos rfl] at hw
    obtain rfl := Option.some.inj hw
    exact hvalid
  · intro hv
    refine ⟨_, rfl, fun kv hkv => ?_, fun kv hkv => ?_⟩
    · rcases mem_setField hkv with rfl | hkv
      · exact List.mem_map_of_mem hfield
      · exact hkeys kv hkv
    · rw [getField_setField]
      by_cases hk : field = kv.1
      · obtain rfl : kv = (field, schema) := List.inj_on_of_nodup_map hnodup hkv hfield hk.symm
        exact ⟨v, if_pos rfl, hv⟩
      · rw [if_neg hk]
        exact hmembers kv hkv

/-- The two fields take the texts that match. -/
theorem validates_set_iff {env : Env} {record : Dict} (h : Conforms record) {field : PyStr}
    (hfield : field = lit "artifact_hash" ∨ field = lit "previous_hash") {s : PyStr} :
    validateEvidenceSchema env (record.set field (.str s) rfl) = .ok () ↔
      digestPattern.search s = true := by
  rw [validateEvidenceSchema_ok]
  have hvalid : (Schema.string [.pattern digestPattern]).Valid (.str s) ↔
      digestPattern.search s = true := by
    rw [Schema.valid_string]
    simp [Assertion.holds]
  refine (valid_record_set (by decide) h ?_).trans hvalid
  rcases hfield with rfl | rfl <;> simp

/-! ## Go -/

theorem hexDecodeString_isOk {s : GoStr} (heven : s.length % 2 = 0) :
    (∃ data, hexDecodeString s = .ok data) ↔ ∀ b ∈ s, (hexValue b).isSome = true := by
  induction s using hexDecodeString.induct with
  | case1 => exact iff_of_true ⟨[], rfl⟩ (by simp)
  | case2 p hp => exact absurd heven (by simp)
  | case3 p n hp => exact absurd heven (by simp)
  | case4 p q rest hp => simp [hexDecodeString, hp]
  | case5 p q rest a hp hq => simp [hexDecodeString, hp, hq]
  | case6 p q rest a b hq hp ih =>
    have hrest : rest.length % 2 = 0 := by
      simp only [List.length_cons] at heven
      omega
    rw [hexDecodeString, hp, hq]
    simp only [List.forall_mem_cons, hp, hq, Option.isSome_some, true_and, ← ih hrest]
    constructor
    · rintro ⟨data, h⟩
      cases hd : hexDecodeString rest with
      | error e =>
        rw [hd] at h
        cases h
      | ok data' => exact ⟨data', rfl⟩
    · rintro ⟨data, hd⟩
      exact ⟨_, by rw [hd]; rfl⟩

/-- A lowercase digit is a digit that lowering leaves alone. -/
theorem lowerHex_iff : ∀ b : Byte, b.val < 0x80 → (isLowerHex (point b.val) = true ↔
    (hexValue b).isSome = true ∧ Evidence.lowerAscii b = b) := by
  decide +kernel

theorem ascii_ofBytes {s : GoStr} : ascii (ofBytes s) = s := by
  rw [ascii, ofBytes, List.map_map]
  refine (List.map_congr_left fun b _ => Fin.ext ?_).trans (List.map_id s)
  exact Nat.mod_eq_of_lt b.isLt

theorem isAscii_digest {s : PyStr} (h : IsDigestText s) : isAscii s = true := by
  obtain ⟨hex, rfl, -, hhex⟩ := h
  refine List.all_eq_true.mpr fun c hc => ?_
  rcases List.mem_append.mp hc with hc | hc
  · exact List.all_eq_true.mp (show (lit "sha256:").all (fun c => c.val < 0x80) = true by decide) c hc
  · have hc := hhex c hc
    simp only [isLowerHex, isAsciiDigit, Bool.or_eq_true, Bool.and_eq_true, decide_eq_true_eq] at hc
    exact decide_eq_true (by omega)

theorem validateSHA256Digest_eq_ok {env : Evidence.GoEnv} {value : GoStr} :
    Evidence.validateSHA256Digest env value = .ok () ↔ ∃ s, IsDigestText s ∧ value = ascii s := by
  unfold Evidence.validateSHA256Digest
  dsimp only
  constructor
  · intro h
    split_ifs at h with hpre hlength hlower
    obtain ⟨rest, rfl⟩ := List.isPrefixOf_iff_prefix.mp hpre
    rw [List.drop_left, not_not] at hlength hlower
    rw [List.drop_left] at h
    have hdecodes : ∃ data, hexDecodeString rest = .ok data := by
      cases hd : hexDecodeString rest with
      | error e =>
        rw [hd] at h
        cases h
      | ok data => exact ⟨data, rfl⟩
    obtain ⟨data, hd⟩ := hdecodes
    have hascii := ascii_of_hexDecodeString hd
    have hdigits := (hexDecodeString_isOk (by omega)).mp ⟨data, hd⟩
    rw [env.toLower_ascii _ hascii] at hlower
    have hsame : ∀ b ∈ rest, Evidence.lowerAscii b = b :=
      List.map_inj_left.mp (hlower.trans (List.map_id rest).symm)
    refine ⟨lit "sha256:" ++ ofBytes rest, ⟨ofBytes rest, rfl, ?_, ?_⟩, ?_⟩
    · rw [ofBytes, List.length_map, hlength]
    · intro c hc
      obtain ⟨b, hb, rfl⟩ := List.mem_map.mp hc
      have hpoint : (⟨b.val, by omega⟩ : CodePoint) = point b.val := (point_val _).symm
      rw [hpoint]
      exact (lowerHex_iff b (hascii b hb)).mpr ⟨hdigits b hb, hsame b hb⟩
    · show _ = List.map _ (_ ++ _)
      rw [List.map_append]
      exact congrArg (Evidence.digestPrefix ++ ·) ascii_ofBytes.symm
  · rintro ⟨s, hs, rfl⟩
    have hs' := isAscii_digest hs
    obtain ⟨hex, rfl, hlength, hhex⟩ := hs
    have hbyte : ∀ b ∈ ascii hex, b.val < 0x80 ∧ isLowerHex (point b.val) = true := by
      intro b hb
      obtain ⟨c, hc, rfl⟩ := List.mem_map.mp hb
      have hc' : c.val < 0x80 :=
        of_decide_eq_true (List.all_eq_true.mp hs' c (List.mem_append_right _ hc))
      have hv : (byte c.val).val = c.val := byte_val (by omega)
      rw [hv, point_val]
      exact ⟨hc', hhex c hc⟩
    have hlower : env.toLower (ascii hex) = ascii hex := by
      rw [env.toLower_ascii _ fun b hb => (hbyte b hb).1]
      refine (List.map_congr_left fun b hb => ?_).trans (List.map_id _)
      exact ((lowerHex_iff b (hbyte b hb).1).mp (hbyte b hb).2).2
    have hlen : (ascii hex).length = 64 := by rw [ascii, List.length_map, hlength]
    obtain ⟨data, hd⟩ := (hexDecodeString_isOk (by rw [hlen])).mpr fun b hb =>
      ((lowerHex_iff b (hbyte b hb).1).mp (hbyte b hb).2).1
    have hvalue : ascii (lit "sha256:" ++ hex) = Evidence.digestPrefix ++ ascii hex := List.map_append
    rw [hvalue, List.drop_left, if_neg (not_not.mpr (List.isPrefixOf_iff_prefix.mpr ⟨_, rfl⟩)),
      if_neg (not_not.mpr hlen), if_neg (not_not.mpr hlower), hd]
    rfl

/-- A character whose bytes are all ASCII is one byte. -/
theorem utf8Bytes_ascii {c : CodePoint} (h : ∀ b ∈ utf8Bytes c, b.val < 0x80) : c.val < 0x80 := by
  by_contra hc
  have hlead : ∃ n rest, utf8Bytes c = byte n :: rest ∧ 0x80 ≤ n ∧ n < 256 := by
    unfold utf8Bytes
    split_ifs with h2 h3
    · exact ⟨_, _, rfl, by omega, by omega⟩
    · exact ⟨_, _, rfl, by omega, by omega⟩
    · exact ⟨_, _, rfl, by omega, by omega⟩
  obtain ⟨n, rest, heq, hlow, hhigh⟩ := hlead
  have hn := h (byte n) (heq ▸ List.mem_cons_self)
  rw [byte_val hhigh] at hn
  omega

theorem utf8_of_ascii {s : PyStr} (hs : isAscii s = true) : s.flatMap utf8Bytes = ascii s := by
  rw [ascii, List.map_eq_flatMap]
  refine List.flatMap_congr fun c hc => ?_
  have hc' : c.val < 0x80 := of_decide_eq_true (List.all_eq_true.mp hs c hc)
  rw [utf8Bytes, if_pos hc']

/-- The text of ASCII bytes is an ASCII text. -/
theorem utf8_eq_ascii {s t : PyStr} (ht : isAscii t = true) : s.flatMap utf8Bytes = ascii t ↔ s = t := by
  constructor
  · intro h
    have hs : isAscii s = true := by
      refine List.all_eq_true.mpr fun c hc => decide_eq_true (utf8Bytes_ascii fun b hb => ?_)
      have hb : b ∈ ascii t := h ▸ List.mem_flatMap.mpr ⟨c, hc, hb⟩
      obtain ⟨d, hd, rfl⟩ := List.mem_map.mp hb
      have hd' : d.val < 0x80 := of_decide_eq_true (List.all_eq_true.mp ht d hd)
      rwa [byte_val (by omega)]
    exact ascii_inj hs ht ((utf8_of_ascii hs).symm.trans h)
  · rintro rfl
    exact utf8_of_ascii ht

/-! ## All of them -/

/-- Every validator accepts the text, or every one refuses it, and they accept the digests. -/
structure ValidatorsAgree (env : Env) (goEnv : Evidence.GoEnv) (s : PyStr) : Prop where
  receipt : Receipt.isSha256Urn s = true ↔ IsDigestText s
  artifactHash : ∀ record, Conforms record →
    (validateEvidenceSchema env (record.set (lit "artifact_hash") (.str s) rfl) = .ok () ↔
      IsDigestText s)
  previousHash : ∀ record, Conforms record →
    (validateEvidenceSchema env (record.set (lit "previous_hash") (.str s) rfl) = .ok () ↔
      IsDigestText s)
  digest : Evidence.validateSHA256Digest goEnv (s.flatMap utf8Bytes) = .ok () ↔ IsDigestText s

/-- **The validators agree unless a digest has a line break after it.** -/
theorem digestValidators_agree_iff (env : Env) (goEnv : Evidence.GoEnv) (s : PyStr) :
    ValidatorsAgree env goEnv s ↔ ¬∃ t, IsDigestText t ∧ s = t ++ [chr '\n'] := by
  have hnot : ∀ t, IsDigestText t → ¬IsDigestText (t ++ [chr '\n']) := by
    rintro _ ⟨hex, rfl, hlength, -⟩ ⟨hex', heq, hlength', -⟩
    have hlen := congrArg List.length heq
    simp only [List.length_append, List.length_singleton] at hlen
    omega
  constructor
  · rintro h ⟨t, ht, rfl⟩
    have hconforms := sampleRecord_accepted.conforms
    have hfield := h.artifactHash _ hconforms
    rw [validates_set_iff hconforms (.inl rfl), search_iff] at hfield
    exact hnot t ht (hfield.mp (.inr ⟨t, ht, rfl⟩))
  · intro hbreak
    have hsearch : digestPattern.search s = true ↔ IsDigestText s := by
      rw [search_iff]
      exact or_iff_left hbreak
    refine ⟨isSha256Urn_iff, fun record h => ?_, fun record h => ?_, ?_⟩
    · rw [validates_set_iff h (.inl rfl), hsearch]
    · rw [validates_set_iff h (.inr rfl), hsearch]
    · rw [validateSHA256Digest_eq_ok]
      constructor
      · rintro ⟨t, ht, heq⟩
        rwa [(utf8_eq_ascii (isAscii_digest ht)).mp heq]
      · exact fun h => ⟨s, h, utf8_of_ascii (isAscii_digest h)⟩

/-- The digest of zeros with a line break passes the schema and nothing else. -/
theorem brokenDigest_splits : ¬∀ (env : Env) (goEnv : Evidence.GoEnv) (s : PyStr),
    ValidatorsAgree env goEnv s := by
  intro hall
  have hconforms := sampleRecord_accepted.conforms
  have h := hall demoEnv Evidence.demoGoEnv (zeroHash ++ [chr '\n'])
  have hschema := (h.artifactHash _ hconforms).mp
    ((validates_set_iff hconforms (.inl rfl)).mpr (by decide +kernel))
  exact absurd (h.receipt.mpr hschema) (by decide +kernel)

end Sentinel
