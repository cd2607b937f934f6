import SentinelCore.Evidence

/-!
# What `VerifyChain` accepts

`VerifyChain` goes on after an error, with the hash of the last record it could hash. Its flag never
comes back once it is false, so a chain it accepts was checked record by record against the right
predecessor.

1. One run of the loop accepts exactly the linked records (`verifyFrom_ok`), and it reports an error
   exactly when the flag is false (`verifyFrom_errors`).
2. `verifyChain_ok_iff`: in terms of the list, these are the well-formed chains.
3. `verifyChain_rearranged`: of the lists made of the records of an accepted chain, those that are
   accepted are its prefixes.
-/

namespace Sentinel.Evidence

open Go Lib

variable {env : GoEnv}

theorem Record.hash_eq_ok {r : Record} {h : GoStr} :
    r.hash env = .ok h ↔ r.validate env = .ok () ∧
      ∃ canonical, r.marshal = .ok canonical ∧ sha256Hex env canonical = h := by
  unfold Record.hash
  simp only [bind_eq_ok, pure_eq_ok]
  constructor
  · rintro ⟨u, hv, hrest⟩
    exact ⟨hv, hrest⟩
  · rintro ⟨hv, hrest⟩
    exact ⟨(), hv, hrest⟩

/-! ## The loop -/

namespace ChainValidationResult

variable {result : ChainValidationResult}

/-- The flag says whether there are errors. -/
def Consistent (result : ChainValidationResult) : Prop := result.ok = true ↔ result.errors = []

@[simp] theorem ok_fail (err : GoStr) : (result.fail err).ok = false := rfl

theorem consistent_fail (err : GoStr) : (result.fail err).Consistent := by
  simp [Consistent, fail]

theorem ok_failIf {p : Prop} [Decidable p] {err : GoStr} :
    (result.failIf p err).ok = true ↔ result.ok = true ∧ ¬p := by
  unfold failIf
  split_ifs with h <;> simp [h]

theorem Consistent.failIf (h : result.Consistent) (p : Prop) [Decidable p] (err : GoStr) :
    (result.failIf p err).Consistent := by
  unfold ChainValidationResult.failIf
  split_ifs
  · exact consistent_fail err
  · exact h

end ChainValidationResult

open ChainValidationResult

variable (env) in
/-- How the chain reads a record. -/
def chain : Chain Record GoStr where
  position r := r.sequence.toNat
  previous := Record.previousHash
  hash r := (r.hash env).toOption

theorem chain_hash_eq_some {r : Record} {h : GoStr} :
    (chain env).hash r = some h ↔ r.hash env = .ok h := by
  change (r.hash env).toOption = some h ↔ _
  cases r.hash env <;> simp [Except.toOption]

/-- The comparison of a sequence number with `uint64(i+1)`. -/
theorem sequence_eq_ofNat {n : UInt64} {i : ℕ} (hi : i < 2 ^ 63) :
    n = UInt64.ofNat (i + 1) ↔ n.toNat = i + 1 := by
  rw [← UInt64.toNat_inj, UInt64.toNat_ofNat_of_lt' (by rw [UInt64.size]; omega)]

/-- **One run of the loop.** -/
theorem verifyFrom_ok {records : List Record} {i : ℕ} {previousHash : GoStr}
    {result : ChainValidationResult} (hlen : i + records.length ≤ 2 ^ 63) :
    (verifyFrom env i previousHash result records).ok = true ↔
      result.ok = true ∧ (chain env).Linked (i + 1) previousHash records := by
  induction records generalizing i previousHash result with
  | nil => simp [verifyFrom, Chain.Linked]
  | cons record rest ih =>
    rw [List.length_cons] at hlen
    have hnot : ∀ err : GoStr, (∀ h, record.hash env ≠ .ok h) →
        ((verifyFrom env (i + 1) previousHash (result.fail err) rest).ok = true ↔
          result.ok = true ∧ (chain env).Linked (i + 1) previousHash (record :: rest)) := by
      intro err hne
      rw [ih (by omega), ok_fail]
      refine iff_of_false (by simp) ?_
      rintro ⟨-, -, -, h, hh, -⟩
      exact hne h (chain_hash_eq_some.mp hh)
    rw [verifyFrom]
    cases hv : record.validate env with
    | error err =>
      refine hnot _ fun h hh => ?_
      rw [(Record.hash_eq_ok.mp hh).1] at hv
      cases hv
    | ok =>
      cases hh : record.hash env with
      | error err =>
        simp only
        rw [ih (by omega), ok_fail]
        refine iff_of_false (by simp) ?_
        rintro ⟨-, -, -, h, hh', -⟩
        rw [chain_hash_eq_some.mp hh'] at hh
        cases hh
      | ok hash =>
        simp only
        rw [ih (by omega), ok_failIf, ok_failIf, not_not, not_not, sequence_eq_ofNat (by omega),
          Chain.linked_cons, chain_hash_eq_some.mpr hh]
        simp only [Option.some.injEq, exists_eq_left', and_assoc]
        rfl

theorem verifyFrom_errors {records : List Record} {i : ℕ} {previousHash : GoStr}
    {result : ChainValidationResult} (h : result.Consistent) :
    (verifyFrom env i previousHash result records).Consistent := by
  induction records generalizing i previousHash result with
  | nil => exact h
  | cons record rest ih =>
    rw [verifyFrom]
    cases record.validate env with
    | error err => exact ih (consistent_fail _)
    | ok =>
      cases record.hash env with
      | error err => exact ih (consistent_fail _)
      | ok hash => exact ih ((h.failIf _ _).failIf _ _)

theorem verifyChain_linked (records : Slice Record) :
    (verifyChain env records).ok = true ↔
      (chain env).Linked 1 genesisPreviousHash records.elems := by
  have hlen := records.length_lt
  rw [verifyChain, verifyFrom_ok (by omega)]
  simp

/-! ## Well-formed chains -/

variable (env) in
structure WellFormed (records : List Record) : Prop where
  valid : ∀ r ∈ records, r.validate env = .ok ()
  hashed : ∀ r ∈ records, ∃ h, r.hash env = .ok h
  sequence : ∀ i r, records[i]? = some r → r.sequence.toNat = i + 1
  genesis : ∀ r, records[0]? = some r → r.previousHash = genesisPreviousHash
  linked : ∀ i r s, records[i]? = some r → records[i + 1]? = some s → r.hash env = .ok s.previousHash

theorem wellFormed_iff {records : List Record} :
    WellFormed env records ↔ (chain env).Linked 1 genesisPreviousHash records := by
  rw [Chain.linked_iff]
  simp only [chain_hash_eq_some]
  constructor
  · intro h
    refine ⟨h.hashed, fun i r hr => ?_, h.genesis, h.linked⟩
    rw [Nat.add_comm]
    exact h.sequence i r hr
  · rintro ⟨hhashed, hseq, hgenesis, hlinked⟩
    refine ⟨fun r hr => ?_, hhashed, fun i r hr => ?_, hgenesis, hlinked⟩
    · obtain ⟨h, hh⟩ := hhashed r hr
      exact (Record.hash_eq_ok.mp hh).1
    · rw [Nat.add_comm]
      exact hseq i r hr

/-- **`VerifyChain` accepts exactly the well-formed chains**, and reports no error exactly then. -/
theorem verifyChain_ok_iff (records : Slice Record) :
    ((verifyChain env records).ok = true ↔ WellFormed env records.elems) ∧
      ((verifyChain env records).errors = [] ↔ WellFormed env records.elems) := by
  have hok : (verifyChain env records).ok = true ↔ WellFormed env records.elems :=
    (verifyChain_linked records).trans wellFormed_iff.symm
  have hcons : (verifyChain env records).Consistent := verifyFrom_errors (by simp [Consistent])
  exact ⟨hok, hcons.symm.trans hok⟩

/-! ## Rearrangements -/

/-- **Reordering, deletion, duplication and splicing are detected.** -/
theorem verifyChain_rearranged (records records' : Slice Record)
    (h : (verifyChain env records).ok = true) (hmem : ∀ r ∈ records'.elems, r ∈ records.elems) :
    (verifyChain env records').ok = true ↔ records'.elems <+: records.elems := by
  rw [verifyChain_linked] at h ⊢
  exact h.iff_isPrefix hmem

/-! ## A chain of two records -/

/-- An environment to evaluate in, with the real SHA-256. -/
def demoGoEnv : GoEnv where
  sum256 := sampleDigest
  toLower s := s.map lowerAscii
  toLower_ascii _ _ := rfl

def sampleRecord (sequence : UInt64) (subject previousHash : GoStr) : Record where
  version := str "sentinel.evidence.v0.1"
  sequence := sequence
  subject := subject
  kind := str "TEST"
  payloadHash := genesisPreviousHash
  previousHash := previousHash
  policyID := str "policy://test/v0.1"
  actor := str "tester"
  actorRole := str "auditor"
  issuedAt := ⟨63917884800, 0, by decide, 0⟩
  metadata := none

def sampleFirst : Record := sampleRecord 1 (str "fixture") genesisPreviousHash

def sampleSecond : Record :=
  sampleRecord 2 (str "fixture") (((sampleFirst.hash demoGoEnv).toOption).getD [])

theorem sample_accepted :
    (verifyChain demoGoEnv ⟨[sampleFirst, sampleSecond], by decide⟩).ok = true := by
  decide +kernel

/-- Dropping the first of two records is detected. -/
theorem verifyChain_rearranged_second :
    (verifyChain demoGoEnv ⟨[sampleSecond], by decide⟩).ok = true ↔
      [sampleSecond] <+: [sampleFirst, sampleSecond] :=
  verifyChain_rearranged ⟨[sampleFirst, sampleSecond], by decide⟩ ⟨[sampleSecond], by decide⟩
    sample_accepted (by simp)

end Sentinel.Evidence
