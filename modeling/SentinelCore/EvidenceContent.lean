import SentinelCore.EvidenceChain

/-!
# What the head hash of a chain pins

The hash of a record is that of its JSON text, and JSON text has no place for bytes that are not
UTF-8: `json.Marshal` writes each of them in the same way, and `Validate` lets them pass in most
fields.

1. The JSON text of a record determines its fields up to such bytes (`written_of_text`).
2. Going back along the chain from the head hash, two chains with one head hash have the same texts
   (`sameWritten_of_head`). The hash fields are ASCII, so each text pins the hash before it.
3. So the records are equal exactly if none of their strings differ in such bytes only
   (`sameContent_iff_agree`, `sameContent_of_head`).
-/

namespace Sentinel.Evidence

open Py (Bytes byte)
open Go Lib

variable {env : GoEnv}

/-! ## Equal records -/

/-- The records are equal in every field: a nil map has the entries of an empty one, and times are
compared as they are rendered. -/
structure SameContent (r r' : Record) : Prop where
  version : r.version = r'.version
  sequence : r.sequence = r'.sequence
  subject : r.subject = r'.subject
  kind : r.kind = r'.kind
  payloadHash : r.payloadHash = r'.payloadHash
  previousHash : r.previousHash = r'.previousHash
  policyID : r.policyID = r'.policyID
  actor : r.actor = r'.actor
  actorRole : r.actorRole = r'.actorRole
  issuedAt : r.issuedAt.marshalText = r'.issuedAt.marshalText
  metadata : r.entries = r'.entries

/-- The string is valid UTF-8, or the other string is the same. -/
def Agree (s t : GoStr) : Prop := validString s = true ∨ s = t

/-- Wherever a string of `r` is not valid UTF-8, it is the same in `r'`; entries of the metadata are
compared in the order of their keys. -/
structure AgreeWhereInvalid (r r' : Record) : Prop where
  version : Agree r.version r'.version
  subject : Agree r.subject r'.subject
  kind : Agree r.kind r'.kind
  policyID : Agree r.policyID r'.policyID
  actor : Agree r.actor r'.actor
  actorRole : Agree r.actorRole r'.actorRole
  metadata : List.Forall₂ (fun kv kv' => Agree kv.1 kv'.1 ∧ Agree kv.2 kv'.2) r.entries r'.entries

/-- No two records of the lists have different JSON texts with one SHA-256 digest. -/
def NoCollision (env : GoEnv) (records records' : List Record) : Prop :=
  ∀ r ∈ records, ∀ r' ∈ records', ∀ t t', r.marshal = .ok t → r'.marshal = .ok t' →
    env.sum256 t = env.sum256 t' → t = t'

/-! ## The text of a record -/

/-- The records are equal up to invalid bytes. -/
structure SameWritten (r r' : Record) : Prop where
  version : written r.version = written r'.version
  sequence : r.sequence = r'.sequence
  subject : written r.subject = written r'.subject
  kind : written r.kind = written r'.kind
  payloadHash : written r.payloadHash = written r'.payloadHash
  previousHash : written r.previousHash = written r'.previousHash
  policyID : written r.policyID = written r'.policyID
  actor : written r.actor = written r'.actor
  actorRole : written r.actorRole = written r'.actorRole
  issuedAt : r.issuedAt.marshalText = r'.issuedAt.marshalText
  metadata : r.entries.map writtenEntry = r'.entries.map writtenEntry

theorem Record.metadataText_eq (r : Record) :
    r.metadataText = if r.entries = [] then []
      else str ",\"metadata\":\x7b" ++ (entriesText r.entries ++ [byte 0x7D]) := by
  unfold metadataText entries
  cases r.metadata with
  | none => rfl
  | some m => rfl

theorem written_of_metadataText {r r' : Record}
    (h : r.metadataText ++ str "\x7d" = r'.metadataText ++ str "\x7d") :
    r.entries.map writtenEntry = r'.entries.map writtenEntry := by
  rw [Record.metadataText_eq, Record.metadataText_eq] at h
  by_cases hr : r.entries = []
  · by_cases hr' : r'.entries = []
    · rw [hr, hr']
    · rw [if_pos hr, if_neg hr'] at h
      exact absurd (List.cons.inj h).1 (by decide)
  · by_cases hr' : r'.entries = []
    · rw [if_neg hr, if_pos hr'] at h
      exact absurd (List.cons.inj h).1 (by decide)
    · rw [if_neg hr, if_neg hr', List.append_assoc, List.append_assoc, List.append_assoc,
        List.append_assoc] at h
      exact (entriesText_append_inj (List.append_cancel_left h)).1

/-- The JSON text of a record determines its fields up to invalid bytes. -/
theorem written_of_text {r r' : Record} {t t' : GoStr} (ht : r.issuedAt.marshalText = .ok t)
    (ht' : r'.issuedAt.marshalText = .ok t') (h : r.text t = r'.text t') : SameWritten r r' := by
  unfold Record.text at h
  obtain ⟨hversion, h⟩ := quote_append_inj (List.append_cancel_left h)
  obtain ⟨hsequence, h⟩ := decimal_append_inj (List.append_cancel_left h)
  obtain ⟨hsubject, h⟩ := quote_append_inj (List.append_cancel_left h)
  obtain ⟨hkind, h⟩ := quote_append_inj (List.append_cancel_left h)
  obtain ⟨hpayload, h⟩ := quote_append_inj (List.append_cancel_left h)
  obtain ⟨hprevious, h⟩ := quote_append_inj (List.append_cancel_left h)
  obtain ⟨hpolicy, h⟩ := quote_append_inj (List.append_cancel_left h)
  obtain ⟨hactor, h⟩ := quote_append_inj (List.append_cancel_left h)
  obtain ⟨hrole, h⟩ := quote_append_inj (List.append_cancel_left h)
  obtain ⟨hissued, hmetadata⟩ := append_cons_inj (Time.quote_notMem_marshalText ht)
    (Time.quote_notMem_marshalText ht') (List.append_cancel_left h)
  exact ⟨hversion, UInt64.toNat_inj.mp hsequence, hsubject, hkind, hpayload, hprevious, hpolicy,
    hactor, hrole, by rw [ht, ht', hissued], written_of_metadataText hmetadata⟩

/-! ## Digests -/

theorem validString_of_digest {value : GoStr} (h : validateSHA256Digest env value = .ok ()) :
    validString value = true := by
  unfold validateSHA256Digest at h
  simp only at h
  split_ifs at h with hpre hlen hlow
  obtain ⟨rest, rfl⟩ := List.isPrefixOf_iff_prefix.mp hpre
  rw [List.drop_left] at h
  cases hd : hexDecodeString rest with
  | error e =>
    rw [hd] at h
    cases h
  | ok data =>
    refine validString_of_ascii fun b hb => ?_
    rcases List.mem_append.mp hb with hb | hb
    · have hall : digestPrefix.all (fun b => b.val < 0x80) = true := by decide
      exact of_decide_eq_true (List.all_eq_true.mp hall b hb)
    · exact ascii_of_hexDecodeString hd b hb

/-- The hash fields of a valid record are ASCII. -/
theorem Record.validString_of_validate {r : Record} (h : r.validate env = .ok ()) :
    validString r.payloadHash = true ∧ validString r.previousHash = true := by
  unfold validate at h
  simp only [bind_eq_ok, mapError_eq_ok] at h
  obtain ⟨_, -, _, -, _, -, _, hpayload, _, hprevious, -⟩ := h
  exact ⟨validString_of_digest hpayload, validString_of_digest hprevious⟩

theorem sha256Hex_inj {t t' : Bytes} (h : sha256Hex env t = sha256Hex env t') :
    env.sum256 t = env.sum256 t' :=
  Subtype.ext (hexText_injective (List.append_cancel_left h))

/-! ## Back along the chain -/

theorem sameWritten_of_hash {r r' : Record} {h : GoStr} (hh : r.hash env = .ok h)
    (hh' : r'.hash env = .ok h)
    (hcol : ∀ t t', r.marshal = .ok t → r'.marshal = .ok t' → env.sum256 t = env.sum256 t' → t = t') :
    SameWritten r r' := by
  obtain ⟨-, t, ht, hsum⟩ := Record.hash_eq_ok.mp hh
  obtain ⟨-, t', ht', hsum'⟩ := Record.hash_eq_ok.mp hh'
  have htt := hcol t t' ht ht' (sha256Hex_inj (hsum.trans hsum'.symm))
  unfold Record.marshal at ht ht'
  cases hi : r.issuedAt.marshalText with
  | error e =>
    rw [hi] at ht
    cases ht
  | ok issued =>
    cases hi' : r'.issuedAt.marshalText with
    | error e =>
      rw [hi'] at ht'
      cases ht'
    | ok issued' =>
      rw [hi] at ht
      rw [hi'] at ht'
      exact written_of_text hi hi'
        ((Except.ok.inj ht).trans (htt.trans (Except.ok.inj ht').symm))

theorem sameWritten_of_head {records records' : List Record} (hw : WellFormed env records)
    (hw' : WellFormed env records') (hlen : records.length = records'.length)
    (hcol : NoCollision env records records')
    (hhead : (chain env).lastHash records = (chain env).lastHash records') :
    List.Forall₂ SameWritten records records' := by
  refine Chain.forall₂_of_lastHash (wellFormed_iff.mp hw) (wellFormed_iff.mp hw') hlen
    (fun r hr r' hr' hrr' => ?_) (fun r hr r' _ hsame => ?_) hhead
  · obtain ⟨h, hh⟩ := hw.hashed r hr
    have hh' : r'.hash env = .ok h := by
      rw [← chain_hash_eq_some, ← hrr', chain_hash_eq_some]
      exact hh
    exact sameWritten_of_hash hh hh' (hcol r hr r' hr')
  · have hvalid := (Record.validString_of_validate (hw.valid r hr)).2
    exact eq_of_written hsame.previousHash (.inl hvalid)

/-! ## Equal or not -/

theorem agree_of_eq {s t : GoStr} (h : s = t) : Agree s t := .inr h

theorem agree_entries_iff {es fs : List (GoStr × GoStr)}
    (h : es.map writtenEntry = fs.map writtenEntry) :
    es = fs ↔ List.Forall₂ (fun kv kv' => Agree kv.1 kv'.1 ∧ Agree kv.2 kv'.2) es fs := by
  constructor
  · rintro rfl
    exact List.forall₂_same.mpr fun kv _ => ⟨agree_of_eq rfl, agree_of_eq rfl⟩
  · intro hall
    induction hall with
    | nil => rfl
    | cons hab _ ih =>
      obtain ⟨hhead, htail⟩ := List.cons.inj h
      rw [ih htail, Prod.ext (eq_of_written (congrArg Prod.fst hhead) hab.1)
        (eq_of_written (congrArg Prod.snd hhead) hab.2)]

/-- Records that are equal up to invalid bytes are equal exactly if they agree on every string that
has such bytes. -/
theorem sameContent_iff_agree {r r' : Record} (hv : r.validate env = .ok ())
    (h : SameWritten r r') : SameContent r r' ↔ AgreeWhereInvalid r r' := by
  obtain ⟨hpayload, hprevious⟩ := Record.validString_of_validate hv
  constructor
  · intro hs
    exact ⟨agree_of_eq hs.version, agree_of_eq hs.subject, agree_of_eq hs.kind,
      agree_of_eq hs.policyID, agree_of_eq hs.actor, agree_of_eq hs.actorRole,
      (agree_entries_iff h.metadata).mp hs.metadata⟩
  · intro ha
    exact ⟨eq_of_written h.version ha.version, h.sequence, eq_of_written h.subject ha.subject,
      eq_of_written h.kind ha.kind, eq_of_written h.payloadHash (.inl hpayload),
      eq_of_written h.previousHash (.inl hprevious), eq_of_written h.policyID ha.policyID,
      eq_of_written h.actor ha.actor, eq_of_written h.actorRole ha.actorRole, h.issuedAt,
      (agree_entries_iff h.metadata).mpr ha.metadata⟩

theorem forall₂_congr {α : Type} {R P Q : α → α → Prop} {l l' : List α} (h : List.Forall₂ R l l')
    (hpq : ∀ a ∈ l, ∀ b, R a b → (P a b ↔ Q a b)) : List.Forall₂ P l l' ↔ List.Forall₂ Q l l' := by
  induction h with
  | nil => simp
  | cons hab _ ih =>
    rw [List.forall₂_cons, List.forall₂_cons, hpq _ List.mem_cons_self _ hab,
      ih fun a ha => hpq a (List.mem_cons_of_mem _ ha)]

/-- **The head hash pins the chain except for invalid bytes.** Two accepted chains of one length with
one head hash are equal, record by record, exactly if every string that is not valid UTF-8 in the
first is the same in the second. -/
theorem sameContent_of_head (records records' : Slice Record)
    (hok : (verifyChain env records).ok = true) (hok' : (verifyChain env records').ok = true)
    (hlen : records.elems.length = records'.elems.length)
    (hhead : (chain env).lastHash records.elems = (chain env).lastHash records'.elems)
    (hcol : NoCollision env records.elems records'.elems) :
    List.Forall₂ SameContent records.elems records'.elems ↔
      List.Forall₂ AgreeWhereInvalid records.elems records'.elems := by
  have hw := wellFormed_iff.mpr ((verifyChain_linked records).mp hok)
  have hw' := wellFormed_iff.mpr ((verifyChain_linked records').mp hok')
  exact forall₂_congr (sameWritten_of_head hw hw' hlen hcol hhead) fun r hr r' hsame =>
    sameContent_iff_agree (hw.valid r hr) hsame

/-! ## Two chains with one head hash -/

/-- A chain of two records. The subject of the first is one byte that starts no rune. -/
def invalidSubject (b : Py.Byte) : Slice Record :=
  let first := sampleRecord 1 [b] genesisPreviousHash
  ⟨[first, sampleRecord 2 (str "fixture") ((first.hash demoGoEnv).toOption.getD [])], by simp⟩

theorem invalidSubject_accepted :
    (verifyChain demoGoEnv (invalidSubject 0xFF)).ok = true ∧
      (verifyChain demoGoEnv (invalidSubject 0xFE)).ok = true := by
  decide +kernel

theorem invalidSubject_head :
    (chain demoGoEnv).lastHash (invalidSubject 0xFF).elems =
      (chain demoGoEnv).lastHash (invalidSubject 0xFE).elems := by
  decide +kernel

theorem invalidSubject_noCollision :
    NoCollision demoGoEnv (invalidSubject 0xFF).elems (invalidSubject 0xFE).elems := by
  have hall : ∀ r ∈ (invalidSubject 0xFF).elems, ∀ r' ∈ (invalidSubject 0xFE).elems,
      r.marshal.toOption = r'.marshal.toOption ∨
        (r.marshal.map demoGoEnv.sum256).toOption ≠ (r'.marshal.map demoGoEnv.sum256).toOption := by
    decide +kernel
  intro r hr r' hr' t t' ht ht' hsum
  have hpair := hall r hr r' hr'
  rw [ht, ht'] at hpair
  obtain htext | hne := hpair
  · exact Option.some.inj htext
  · exact absurd (congrArg some hsum) hne

/-- The subjects `"\xff"` and `"\xfe"` give accepted chains with one head hash, and no collision of
SHA-256 is needed for it. -/
theorem head_shared_by_invalid_subjects :
    (verifyChain demoGoEnv (invalidSubject 0xFF)).ok = true ∧
      (verifyChain demoGoEnv (invalidSubject 0xFE)).ok = true ∧
      (invalidSubject 0xFF).elems.length = (invalidSubject 0xFE).elems.length ∧
      (chain demoGoEnv).lastHash (invalidSubject 0xFF).elems =
        (chain demoGoEnv).lastHash (invalidSubject 0xFE).elems ∧
      NoCollision demoGoEnv (invalidSubject 0xFF).elems (invalidSubject 0xFE).elems ∧
      ¬List.Forall₂ SameContent (invalidSubject 0xFF).elems (invalidSubject 0xFE).elems := by
  refine ⟨invalidSubject_accepted.1, invalidSubject_accepted.2, rfl, invalidSubject_head,
    invalidSubject_noCollision, fun h => ?_⟩
  cases h with
  | cons h _ => exact absurd h.subject (by decide)

theorem sameContent_of_head_invalidSubject :
    List.Forall₂ SameContent (invalidSubject 0xFF).elems (invalidSubject 0xFE).elems ↔
      List.Forall₂ AgreeWhereInvalid (invalidSubject 0xFF).elems (invalidSubject 0xFE).elems :=
  sameContent_of_head _ _ invalidSubject_accepted.1 invalidSubject_accepted.2 rfl
    invalidSubject_head invalidSubject_noCollision

end Sentinel.Evidence
