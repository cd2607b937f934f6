import SentinelCore.Policy

/-!
# Later versions of a policy

A registry has one policy for each `policy_id`: a later version takes the place of the one that records
were made under. `authorizeRecord_publish_iff` says when a record keeps its outcome.
-/

namespace Sentinel

open Py Lib

/-- `registry.add(policy)` for each policy. -/
def PolicyRegistry.publish (registry : PolicyRegistry) (added : List PolicyVersion) :
    PolicyRegistry :=
  added.foldl Filed.add registry

/-- No policy has the id and the version of another, or of a registered one. -/
def NewVersions (registry : PolicyRegistry) (added : List PolicyVersion) : Prop :=
  (added.map fun policy => (policy.policyId, policy.version)).Nodup ∧
    ∀ policy ∈ added, ∀ old, registry.find? policy.policyId = some old →
      old.version ≠ policy.version

/-- Whether the first rule for the role allows the decision, if there is such a rule. -/
def PolicyVersion.verdict (policy : PolicyVersion) (role decision source : PyStr) : Option Bool :=
  (policy.rules.find? fun rule => rule.role = role).map fun rule =>
    decide (rule.allows decision source)

/-- What `authorize_record` does with the verdict of the record's policy. -/
def verdictOutcome (policyId role decision : PyStr) : Option Bool → Except PyExc Unit
  | none => .error (policyError
      (lit "role is not authorized by policy " ++ policyId ++ lit ": " ++ role))
  | some true => .ok ()
  | some false => .error (policyError (lit "role " ++ role ++
      lit " is not allowed to issue decision " ++ decision ++ lit " under " ++ policyId))

/-- The two refusals differ in length, whatever the names are. -/
theorem verdictOutcome_injective (policyId role decision : PyStr) :
    Function.Injective (verdictOutcome policyId role decision) := by
  have hne : lit "role is not authorized by policy " ++ policyId ++ lit ": " ++ role ≠
      lit "role " ++ role ++ lit " is not allowed to issue decision " ++ decision ++
        lit " under " ++ policyId := by
    intro h
    have hlength := congrArg List.length h
    simp only [List.length_append] at hlength
    have h1 : (lit "role is not authorized by policy ").length = 33 := rfl
    have h2 : (lit ": ").length = 2 := rfl
    have h3 : (lit "role ").length = 5 := rfl
    have h4 : (lit " is not allowed to issue decision ").length = 34 := rfl
    have h5 : (lit " under ").length = 7 := rfl
    omega
  have hmessage : ∀ {m m' : PyStr},
      (Except.error (policyError m) : Except PyExc Unit) = .error (policyError m') → m = m' := by
    intro m m' h
    injection Except.error.inj h with _ htext
    exact ExcText.text.inj htext
  rintro (_ | _ | _) (_ | _ | _) h
  · rfl
  · exact absurd (hmessage h) hne
  · cases h
  · exact absurd (hmessage h.symm) hne
  · rfl
  · cases h
  · cases h
  · cases h
  · rfl

/-- A record with its three texts gets the verdict of the policy it names. -/
theorem authorizeRecord_verdict {record : Dict} {policyId decision source : PyStr}
    (hid : HasText record "policy_id" policyId) (hdecision : HasText record "decision" decision)
    (hsource : HasText record "source" source) {registry : PolicyRegistry} {policy : PolicyVersion}
    (hfind : registry.find? policyId = some policy) (role : PyStr) :
    authorizeRecord record role registry =
      verdictOutcome policyId role decision (policy.verdict role decision source) := by
  have hpolicyId : policy.policyId = policyId := Filed.key_of_find? hfind
  unfold authorizeRecord
  rw [requiredField_eq_ok.mpr hid, requiredField_eq_ok.mpr hdecision,
    requiredField_eq_ok.mpr hsource]
  simp only [bind, Except.bind, resolve_eq_ok.mpr hfind]
  unfold PolicyVersion.ruleForRole PolicyVersion.verdict
  cases policy.rules.find? fun rule => rule.role = role with
  | none =>
    rw [hpolicyId]
    rfl
  | some rule =>
    by_cases hallows : rule.allows decision source
    · simp [hallows, verdictOutcome]
    · simp [hallows, verdictOutcome]

/-- Without its three texts a record is refused whatever the registry is. -/
theorem authorizeRecord_textless {record : Dict}
    (h : ¬∃ policyId decision source, HasText record "policy_id" policyId ∧
      HasText record "decision" decision ∧ HasText record "source" source)
    (role : PyStr) (registry registry' : PolicyRegistry) :
    authorizeRecord record role registry = authorizeRecord record role registry' := by
  unfold authorizeRecord
  cases hid : requiredField record "policy_id" with
  | error e => rfl
  | ok policyId =>
    cases hdecision : requiredField record "decision" with
    | error e => rfl
    | ok decision =>
      cases hsource : requiredField record "source" with
      | error e => rfl
      | ok source =>
        exact absurd ⟨policyId, decision, source, requiredField_eq_ok.mp hid,
          requiredField_eq_ok.mp hdecision, requiredField_eq_ok.mp hsource⟩ h

/-- **A record of a registered policy keeps its outcome exactly if the newest version added under its
`policy_id` has the same verdict on it.** -/
theorem authorizeRecord_publish_iff {registry : PolicyRegistry} {record : Dict} {policyId : PyStr}
    {old : PolicyVersion} (hid : record.get (lit "policy_id") = .str policyId)
    (hold : registry.find? policyId = some old) (role : PyStr) (added : List PolicyVersion) :
    authorizeRecord record role (registry.publish added) = authorizeRecord record role registry ↔
      ∀ newest, added.reverse.find? (·.policyId = policyId) = some newest →
        ∀ decision source, HasText record "policy_id" policyId → HasText record "decision" decision →
          HasText record "source" source →
          newest.verdict role decision source = old.verdict role decision source := by
  have hfind : (registry.publish added).find? policyId =
      some ((added.reverse.find? (·.policyId = policyId)).getD old) := by
    unfold PolicyRegistry.publish
    rw [Filed.find?_foldl_add, hold]
    cases added.reverse.find? (·.policyId = policyId) <;> rfl
  constructor
  · intro hsame newest hnewest decision source hid' hdecision hsource
    rw [hnewest] at hfind
    rw [authorizeRecord_verdict hid' hdecision hsource hfind,
      authorizeRecord_verdict hid' hdecision hsource hold] at hsame
    exact verdictOutcome_injective policyId role decision hsame
  · intro hverdict
    by_cases htexts : ∃ policyId decision source, HasText record "policy_id" policyId ∧
        HasText record "decision" decision ∧ HasText record "source" source
    · obtain ⟨policyId', decision, source, hid', hdecision, hsource⟩ := htexts
      obtain rfl : policyId = policyId' := Json.str.inj (hid.symm.trans hid'.1)
      rw [authorizeRecord_verdict hid' hdecision hsource hfind,
        authorizeRecord_verdict hid' hdecision hsource hold]
      cases hnewest : added.reverse.find? (·.policyId = policyId) with
      | none => rfl
      | some newest =>
        rw [Option.getD_some, hverdict newest hnewest decision source hid' hdecision hsource]
    · exact authorizeRecord_textless htexts role _ _

/-- The policy `p1` in a version, with one rule. -/
def sensorPolicy (version decision : String) : PolicyVersion :=
  ⟨lit "p1", lit version, [openRule "sensor" [decision]]⟩

def reviewRegistry : PolicyRegistry := .ofList [sensorPolicy "1" "review"]

def reviewRecord : Dict :=
  ((Dict.empty.set (lit "policy_id") (.str (lit "p1")) rfl).set (lit "decision")
    (.str (lit "review")) rfl).set (lit "source") (.str (lit "s1")) rfl

theorem reviewRecord_kept : authorizeRecord reviewRecord (lit "sensor")
      (reviewRegistry.publish [⟨lit "p2", lit "1", []⟩]) =
    authorizeRecord reviewRecord (lit "sensor") reviewRegistry := by
  refine (@authorizeRecord_publish_iff _ _ _ (sensorPolicy "1" "review") rfl rfl _ _).mpr ?_
  intro newest hnewest
  cases hnewest

/-- A new version of the policy refuses the record. -/
theorem reviewRecord_lost :
    NewVersions reviewRegistry [sensorPolicy "2" "quarantine"] ∧
      reviewRegistry.find? (lit "p1") = some (sensorPolicy "1" "review") ∧
      reviewRecord.get (lit "policy_id") = .str (lit "p1") ∧
      authorizeRecord reviewRecord (lit "sensor") reviewRegistry = .ok () ∧
      authorizeRecord reviewRecord (lit "sensor")
        (reviewRegistry.publish [sensorPolicy "2" "quarantine"]) ≠ .ok () := by
  refine ⟨⟨List.nodup_singleton _, ?_⟩, rfl, rfl, ?_, ?_⟩
  · intro policy hpolicy old hold
    rw [List.mem_singleton.mp hpolicy] at hold ⊢
    obtain rfl : sensorPolicy "1" "review" = old := Option.some.inj hold
    decide
  · exact eq_ok_getD (d := ()) (by decide)
  · exact ne_ok_of_isNone (by decide) ()

end Sentinel
