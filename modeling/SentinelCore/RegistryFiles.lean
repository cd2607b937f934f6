import SentinelCore.RegistryLoader

/-!
# What a registry file lists

A registry keeps one entry of a file for each name: the last one. So a key the file revokes in one
entry is active if a later entry for the name is (`keepsEntries_iff`), and of the rules a file lists
for a policy and a role only the first one of the last policy counts (`authorizeRecord_file`).
-/

namespace Sentinel

open Py Lib

/-! ## Entries -/

/-- A field of an entry; `null` if the entry has no such field. -/
def entryField (entry : Json) (name : String) : Json := entry.dictOrEmpty.get (lit name)

/-- A list in an entry; empty if the entry has no such list. -/
def entryItems (entry : Json) (name : String) : List Json :=
  ((entryField entry name).items?).getD []

/-- The last entry with the name in the field. -/
def lastWith (entries : List Json) (field : String) (name : PyStr) : Option Json :=
  entries.reverse.find? fun entry => entryField entry field = .str name

variable (env : Env)

/-- The file has an array of the given name with the given entries. -/
def FileLists (path : PyStr) (file : Bytes) (array : String) (entries : List Json) : Prop :=
  ∃ data, loadJsonObject env path file = .ok data ∧ data.get (lit array) = .arr entries

variable {env} {path : PyStr} {file : Bytes} {entries : List Json}

theorem FileLists.unique {array : String} {entries' : List Json}
    (h : FileLists env path file array entries) (h' : FileLists env path file array entries') :
    entries = entries' := by
  obtain ⟨data, hdata, hentries⟩ := h
  obtain ⟨data', hdata', hentries'⟩ := h'
  obtain rfl := Except.ok.inj (hdata.symm.trans hdata')
  exact Json.arr.inj (hentries.symm.trans hentries')

theorem entryField_of_dict {entry : Json} {d : Dict} (h : entry.toDict? = some d) (name : String) :
    entryField entry name = d.get (lit name) := by
  unfold entryField Json.dictOrEmpty
  rw [h]
  rfl

/-- Searches that agree on related values find related values. -/
theorem find?_related {α β : Type} {R : α → β → Prop} {p : α → Bool} {q : β → Bool} {xs : List α}
    {ys : List β} (h : List.Forall₂ R xs ys) (hpq : ∀ x y, R x y → p x = q y) :
    Option.Rel R (xs.find? p) (ys.find? q) := by
  induction h with
  | nil => exact .none
  | @cons x y xs ys hxy hrest ih =>
    rw [List.find?_cons, List.find?_cons, hpq x y hxy]
    cases q y with
    | true => exact .some hxy
    | false => exact ih

/-- The last entry with a name belongs to the value the registry keeps for the name. -/
theorem lastWith_related {α : Type} {R : Json → α → Prop} {key : α → PyStr} {values : List α}
    {field : String} (h : List.Forall₂ R entries values)
    (hkey : ∀ entry value, R entry value → entryField entry field = .str (key value))
    (name : PyStr) :
    Option.Rel R (lastWith entries field name) ((Filed.ofList values : Filed key).find? name) := by
  rw [Filed.find?_ofList]
  refine find?_related (List.rel_reverse h) fun entry value hr => ?_
  simp [hkey entry value hr]

/-! ## Trust registry -/

/-- The bound as the file gives it. -/
def boundJson : Option PyStr → Json
  | none => .null
  | some text => .str text

/-- The entry gives the fields of the key; the status is active unless it is given. -/
structure Declares (entry : Json) (key : TrustKey) : Prop where
  keyId : entryField entry "key_id" = .str key.keyId
  alg : entryField entry "alg" = .str key.alg
  publicKey : entryField entry "public_key" = .str key.publicKey
  role : entryField entry "role" = .str key.role
  status : (entry.dictOrEmpty.get? (lit "status")).getD (.str (lit "active")) = .str key.status
  notBefore : entryField entry "not_before" = boundJson key.notBefore
  notAfter : entryField entry "not_after" = boundJson key.notAfter

theorem boundJson_injective : Function.Injective boundJson := by
  rintro (_ | a) (_ | b) h
  · rfl
  · cases h
  · cases h
  · rw [Json.str.inj h]

theorem Declares.unique {entry : Json} {key key' : TrustKey} (h : Declares entry key)
    (h' : Declares entry key') : key = key' := by
  have hid := Json.str.inj (h.keyId.symm.trans h'.keyId)
  have halg := Json.str.inj (h.alg.symm.trans h'.alg)
  have hpublic := Json.str.inj (h.publicKey.symm.trans h'.publicKey)
  have hrole := Json.str.inj (h.role.symm.trans h'.role)
  have hstatus := Json.str.inj (h.status.symm.trans h'.status)
  have hbefore := boundJson_injective (h.notBefore.symm.trans h'.notBefore)
  have hafter := boundJson_injective (h.notAfter.symm.trans h'.notAfter)
  cases key
  cases key'
  simp only [TrustKey.mk.injEq]
  exact ⟨hid, halg, hpublic, hrole, hstatus, hbefore, hafter⟩

theorem requiredStr_eq_ok {value : Json} {field text : PyStr} :
    requiredStr value field = .ok text ↔ value = .str text ∧ text ≠ [] := by
  unfold requiredStr
  rw [orLoaderError_eq_ok, Json.nonEmptyStr?_eq_some]

theorem optionalTime_boundJson {value : Json} {field : PyStr} {bound : Option PyStr}
    (h : optionalTime env value field = .ok bound) : value = boundJson bound := by
  unfold optionalTime at h
  split at h
  · obtain rfl := Except.ok.inj h
    rfl
  · obtain ⟨text, htext, h⟩ := bind_eq_ok.mp h
    obtain ⟨t, -, h⟩ := bind_eq_ok.mp h
    obtain rfl := Except.ok.inj h
    exact (Json.nonEmptyStr?_eq_some.mp (orLoaderError_eq_ok.mp htext)).1

theorem loadTrustKey_declares {index : ℕ} {raw : Json} {key : TrustKey}
    (h : loadTrustKey env index raw = .ok key) : Declares raw key := by
  unfold loadTrustKey at h
  simp only [bind_eq_ok, pure_eq_ok, orLoaderError_eq_ok, requiredStr_eq_ok] at h
  obtain ⟨rawKey, hraw, keyId, ⟨hid, -⟩, alg, ⟨halg, -⟩, publicKey, ⟨hpublic, -⟩, role, ⟨hrole, -⟩,
    status, ⟨hstatus, -⟩, -, -, -, -, -, -, notBefore, hbefore, notAfter, hafter, rfl⟩ := h
  have hfield := entryField_of_dict hraw
  refine ⟨by rw [hfield, hid], by rw [hfield, halg], by rw [hfield, hpublic], by rw [hfield, hrole],
    ?_, by rw [hfield, optionalTime_boundJson hbefore], by rw [hfield, optionalTime_boundJson hafter]⟩
  unfold Json.dictOrEmpty
  rw [hraw]
  exact hstatus

/-- A list with its indices, mapped by what does not depend on them. -/
theorem forall₂_of_zipIdx_mapM {α β : Type} {f : α × ℕ → Except PyExc β} {R : α → β → Prop}
    {xs : List α} {ys : List β} (h : xs.zipIdx.mapM f = .ok ys)
    (hf : ∀ x i y, f (x, i) = .ok y → R x y) : List.Forall₂ R xs ys := by
  have hzip := mapM_eq_ok.mp h
  rw [← List.zipIdx_map_fst 0 xs, List.forall₂_map_left_iff]
  exact hzip.imp fun x y hxy => hf x.1 x.2 y hxy

/-- The registry of a file has the keys its entries give. -/
theorem loadTrustRegistry_lists {registry : TrustRegistry}
    (h : loadTrustRegistry env path file = .ok registry) : ∃ entries keys,
      FileLists env path file "keys" entries ∧ List.Forall₂ Declares entries keys ∧
        registry = .ofList keys := by
  unfold loadTrustRegistry at h
  simp only [bind_eq_ok, pure_eq_ok, orLoaderError_eq_ok, Json.items?_eq_some] at h
  obtain ⟨data, hdata, entries, hentries, keys, hkeys, rfl⟩ := h
  exact ⟨entries, keys, ⟨data, hdata, hentries⟩,
    forall₂_of_zipIdx_mapM hkeys fun _ _ _ hload => loadTrustKey_declares hload, rfl⟩

/-- The registry gives the key for the name, now or for some time of issue. -/
def Resolves (registry : TrustRegistry) (keyId : PyStr) (key : TrustKey) : Prop :=
  ∃ alg, registry.resolveActiveKey keyId alg = .ok key ∨
    ∃ issuedAt, registry.resolveActiveKeyAt keyId alg issuedAt = .ok key

theorem resolves_iff {registry : TrustRegistry} {keyId : PyStr} {key : TrustKey} :
    Resolves registry keyId key ↔
      registry.find? keyId = some key ∧ key.status = lit "active" := by
  unfold Resolves
  simp only [TrustRegistry.resolveActiveKey_eq_ok, TrustRegistry.resolveActiveKeyAt_eq_ok]
  constructor
  · rintro ⟨alg, h | ⟨issuedAt, h⟩⟩
    · exact ⟨h.registered, h.active⟩
    · exact ⟨h.registered, h.active⟩
  · rintro ⟨hfind, hactive⟩
    exact ⟨key.alg, .inl ⟨hfind, rfl, hactive⟩⟩

/-- The name of every entry resolves to the key of the entry only, and to no key at all if some
entry for the name is revoked or expired. -/
structure KeepsEntries (entries : List Json) (registry : TrustRegistry) : Prop where
  same : ∀ entry ∈ entries, ∃ key, Declares entry key ∧
    ∀ found, Resolves registry key.keyId found → found = key
  revoked : ∀ entry ∈ entries, ∀ key, Declares entry key → key.status ≠ lit "active" →
    ∀ found, ¬Resolves registry key.keyId found

/-- Where the last entry for a name gives an active key, every entry for the name gives that key. -/
def LastAgrees (entries : List Json) : Prop :=
  ∀ entry ∈ entries, ∀ key, Declares entry key →
    ∀ last, lastWith entries "key_id" key.keyId = some last →
      ∀ current, Declares last current → current.status = lit "active" → current = key

/-- The registry has the key of the last entry for the name. -/
theorem registered_iff_last {keys : List TrustKey} (h : List.Forall₂ Declares entries keys)
    {keyId : PyStr} {key : TrustKey} :
    (Filed.ofList keys : TrustRegistry).find? keyId = some key ↔
      ∃ last, lastWith entries "key_id" keyId = some last ∧ Declares last key := by
  have hrel := lastWith_related h (fun _ _ hd => Declares.keyId hd) keyId
  constructor
  · intro hfind
    rw [hfind] at hrel
    cases hlast : lastWith entries "key_id" keyId with
    | none => rw [hlast] at hrel; cases hrel
    | some last =>
      rw [hlast] at hrel
      cases hrel with
      | some hd => exact ⟨last, rfl, hd⟩
  · rintro ⟨last, hlast, hd⟩
    rw [hlast] at hrel
    generalize (Filed.ofList keys : TrustRegistry).find? keyId = found at hrel
    cases hrel with
    | some hd' => rw [hd'.unique hd]

/-- **Loading a trust registry keeps its entries exactly if no active key replaces another entry.** -/
theorem keepsEntries_iff {registry : TrustRegistry}
    (h : loadTrustRegistry env path file = .ok registry)
    (hlists : FileLists env path file "keys" entries) :
    KeepsEntries entries registry ↔ LastAgrees entries := by
  obtain ⟨entries', keys, hlists', hdeclares, rfl⟩ := loadTrustRegistry_lists h
  obtain rfl := hlists.unique hlists'
  constructor
  · intro hkeeps entry hentry key hkey last hlast current hcurrent hactive
    obtain ⟨key', hkey', hsame⟩ := hkeeps.same entry hentry
    obtain rfl := hkey'.unique hkey
    have hfind := (registered_iff_last hdeclares).mpr ⟨last, hlast, hcurrent⟩
    exact hsame current (resolves_iff.mpr ⟨hfind, hactive⟩)
  · intro hagrees
    have hsame : ∀ entry ∈ entries, ∀ key, Declares entry key →
        ∀ found, Resolves (.ofList keys) key.keyId found →
          found = key ∧ found.status = lit "active" := by
      intro entry hentry key hkey found hfound
      obtain ⟨hfind, hactive⟩ := resolves_iff.mp hfound
      obtain ⟨last, hlast, hd⟩ := (registered_iff_last hdeclares).mp hfind
      exact ⟨hagrees entry hentry key hkey last hlast found hd hactive, hactive⟩
    refine ⟨fun entry hentry => ?_, fun entry hentry key hkey hstatus found hfound => ?_⟩
    · obtain ⟨key, -, hkey⟩ := exists_of_forall₂ hdeclares hentry
      exact ⟨key, hkey, fun found hfound => (hsame entry hentry key hkey found hfound).1⟩
    · obtain ⟨rfl, hactive⟩ := hsame entry hentry key hkey found hfound
      exact hstatus hactive

/-- In a file that lists every name once, the last entry for a name is the only one. -/
theorem lastAgrees_of_nodup (h : (entries.map (entryField · "key_id")).Nodup) :
    LastAgrees entries := by
  intro entry hentry key hkey last hlast current hcurrent _
  unfold lastWith at hlast
  have hmem : last ∈ entries := List.mem_reverse.mp (List.mem_of_find?_eq_some hlast)
  have hname : entryField last "key_id" = .str key.keyId := by simpa using List.find?_some hlast
  obtain rfl := List.inj_on_of_nodup_map h hmem hentry (hname.trans hkey.keyId.symm)
  exact hcurrent.unique hkey

/-- A file with an active key and a revoked one. -/
def signerFile : Bytes :=
  ((encodeUtf8 (lit "\x7b\"keys\":[\x7b\"key_id\":\"k1\",\"alg\":\"EdDSA\"," ++
    lit "\"public_key\":\"AA\",\"role\":\"auditor\"\x7d," ++
    lit "\x7b\"key_id\":\"k2\",\"alg\":\"EdDSA\"," ++
    lit "\"public_key\":\"AA\",\"role\":\"auditor\",\"status\":\"revoked\"\x7d]\x7d")).toOption).getD []

def signerRegistry : TrustRegistry := (loadTrustRegistry demoEnv [] signerFile).toOption.getD .empty

def signerEntry (keyId : PyStr) (status : List (PyStr × Json)) : Json :=
  .obj ([(lit "key_id", .str keyId), (lit "alg", .str (lit "EdDSA")),
    (lit "public_key", .str (lit "AA")), (lit "role", .str (lit "auditor"))] ++ status)

/-- The entry for the key, revoked. -/
def revokedEntry (keyId : PyStr) : Json :=
  signerEntry keyId [(lit "status", .str (lit "revoked"))]

def signerEntries : List Json := [signerEntry (lit "k1") [], revokedEntry (lit "k2")]

theorem signerFile_lists : FileLists demoEnv [] signerFile "keys" signerEntries :=
  exists_of_map (by decide +kernel)

theorem signerFile_keeps : KeepsEntries signerEntries signerRegistry :=
  (keepsEntries_iff (eq_ok_getD (by decide +kernel)) signerFile_lists).mpr
    (lastAgrees_of_nodup (by decide +kernel))

/-- A file that revokes the key and lists it once more. -/
def reissuedFile : Bytes :=
  ((encodeUtf8 (lit "\x7b\"keys\":[\x7b\"key_id\":\"k1\",\"alg\":\"EdDSA\"," ++
    lit "\"public_key\":\"AA\",\"role\":\"auditor\",\"status\":\"revoked\"\x7d," ++
    lit "\x7b\"key_id\":\"k1\",\"alg\":\"EdDSA\"," ++
    lit "\"public_key\":\"AA\",\"role\":\"auditor\"\x7d]\x7d")).toOption).getD []

def reissuedEntries : List Json := [revokedEntry (lit "k1"), signerEntry (lit "k1") []]

def reissuedRegistry : TrustRegistry :=
  (loadTrustRegistry demoEnv [] reissuedFile).toOption.getD .empty

/-- The revoked key resolves as active. -/
theorem reissuedKey_resolves :
    loadTrustRegistry demoEnv [] reissuedFile = .ok reissuedRegistry ∧
      FileLists demoEnv [] reissuedFile "keys" reissuedEntries ∧
      ¬KeepsEntries reissuedEntries reissuedRegistry := by
  refine ⟨eq_ok_getD (by decide +kernel),
    exists_of_map (by decide +kernel), fun hkeeps => ?_⟩
  have hrevoked : Declares (revokedEntry (lit "k1"))
      ⟨lit "k1", lit "EdDSA", lit "AA", lit "auditor", lit "revoked", none, none⟩ :=
    ⟨by decide +kernel, by decide +kernel, by decide +kernel, by decide +kernel, by decide +kernel,
      by decide +kernel, by decide +kernel⟩
  refine hkeeps.revoked _ List.mem_cons_self _ hrevoked (by decide)
    ⟨lit "k1", lit "EdDSA", lit "AA", lit "auditor", lit "active", none, none⟩
    (resolves_iff.mpr ⟨?_, rfl⟩)
  decide +kernel

/-! ## Policy registry -/

/-- The rule lists the decision, and the source unless it lists no source. -/
def Grants (rule : Json) (decision source : PyStr) : Prop :=
  Json.str decision ∈ entryItems rule "allowed_decisions" ∧
    (entryItems rule "allowed_sources" = [] ∨ Json.str source ∈ entryItems rule "allowed_sources")

/-- Some rule for the role, of some policy with the id, grants the decision. -/
def ListsGrant (entries : List Json) (policyId role decision source : PyStr) : Prop :=
  ∃ policy ∈ entries, entryField policy "policy_id" = .str policyId ∧
    ∃ rule ∈ entryItems policy "rules", entryField rule "role" = .str role ∧
      Grants rule decision source

/-- The first rule for the role, in the last policy with the id. -/
def CurrentRule (entries : List Json) (policyId role : PyStr) (rule : Json) : Prop :=
  ∃ policy, lastWith entries "policy_id" policyId = some policy ∧
    (entryItems policy "rules").find? (fun rule => entryField rule "role" = .str role) = some rule

/-- The rule has the role, the decisions and the sources of the entry. -/
structure RuleOf (entry : Json) (rule : PolicyRule) : Prop where
  role : entryField entry "role" = .str rule.role
  allows : ∀ decision source, rule.allows decision source ↔ Grants entry decision source

/-- The policy has the id and the rules of the entry. -/
structure PolicyOf (entry : Json) (policy : PolicyVersion) : Prop where
  policyId : entryField entry "policy_id" = .str policy.policyId
  rules : List.Forall₂ RuleOf (entryItems entry "rules") policy.rules

theorem loadPolicyRule_ruleOf {index : ℕ} {raw : Json} {rule : PolicyRule}
    (h : loadPolicyRule env index raw = .ok rule) : RuleOf raw rule := by
  unfold loadPolicyRule at h
  simp only [bind_eq_ok, pure_eq_ok, orLoaderError_eq_ok, requiredStr_eq_ok, Json.strItems?_eq_some,
    Option.filter_eq_some_iff, Json.items?_eq_some] at h
  obtain ⟨rawRule, hraw, role, ⟨hrole, -⟩, -, -, items, ⟨hitems, -⟩, decisions, rfl, -, -,
    sourceItems, hsources, sources, rfl, rfl⟩ := h
  have hfield := entryField_of_dict hraw
  refine ⟨by rw [hfield, hrole], fun decision source => ?_⟩
  have hdecisions : entryItems raw "allowed_decisions" = decisions.map .str := by
    unfold entryItems
    rw [hfield, hitems]
    rfl
  have hsourceItems : entryItems raw "allowed_sources" = sources.map .str := by
    unfold entryItems
    rw [hfield, Dict.get]
    cases hget : rawRule.get? (lit "allowed_sources") with
    | none =>
      rw [hget] at hsources
      exact Json.arr.inj hsources
    | some value =>
      rw [hget] at hsources
      rw [show value = .arr (sources.map .str) from hsources]
      rfl
  unfold PolicyRule.allows Grants
  rw [hdecisions, hsourceItems]
  simp

theorem loadPolicy_policyOf {index : ℕ} {raw : Json} {policy : PolicyVersion}
    (h : loadPolicy env index raw = .ok policy) : PolicyOf raw policy := by
  unfold loadPolicy at h
  simp only [bind_eq_ok, pure_eq_ok, orLoaderError_eq_ok, requiredStr_eq_ok,
    Json.items?_eq_some] at h
  obtain ⟨rawPolicy, hraw, policyId, ⟨hid, -⟩, version, -, rulesData, hdata, rules, hrules, rfl⟩ := h
  have hfield := entryField_of_dict hraw
  refine ⟨by rw [hfield, hid], ?_⟩
  unfold entryItems
  rw [hfield, hdata]
  exact forall₂_of_zipIdx_mapM hrules fun _ _ _ hload => loadPolicyRule_ruleOf hload

/-- The registry of a file has the policies its entries give. -/
theorem loadPolicyRegistry_lists {registry : PolicyRegistry}
    (h : loadPolicyRegistry env path file = .ok registry) : ∃ entries policies,
      FileLists env path file "policies" entries ∧ List.Forall₂ PolicyOf entries policies ∧
        registry = .ofList policies := by
  unfold loadPolicyRegistry at h
  simp only [bind_eq_ok, pure_eq_ok, orLoaderError_eq_ok, Json.items?_eq_some] at h
  obtain ⟨data, hdata, entries, hentries, policies, hpolicies, rfl⟩ := h
  exact ⟨entries, policies, ⟨data, hdata, hentries⟩,
    forall₂_of_zipIdx_mapM hpolicies fun _ _ _ hload => loadPolicy_policyOf hload, rfl⟩

theorem ruleOf_find? {rules : List PolicyRule} {items : List Json}
    (h : List.Forall₂ RuleOf items rules) (role decision source : PyStr) :
    (∃ rule, rules.find? (fun rule => rule.role = role) = some rule ∧ rule.allows decision source) ↔
      ∃ item, items.find? (fun item => entryField item "role" = .str role) = some item ∧
        Grants item decision source := by
  have hrel := @find?_related _ _ RuleOf (fun item => entryField item "role" = .str role)
    (fun rule => rule.role = role) _ _ h fun item rule hr => by simp [hr.role]
  generalize items.find? _ = found at hrel ⊢
  generalize rules.find? _ = found' at hrel ⊢
  cases hrel with
  | none => simp
  | some hr => simp [hr.allows]

/-- **Of what a file lists for a policy and a role, the first rule of the last policy counts.** -/
theorem authorizeRecord_file {registry : PolicyRegistry}
    (h : loadPolicyRegistry env path file = .ok registry)
    (hlists : FileLists env path file "policies" entries) {record : Dict}
    {policyId decision source : PyStr} (hid : HasText record "policy_id" policyId)
    (hdecision : HasText record "decision" decision) (hsource : HasText record "source" source)
    (role : PyStr) :
    authorizeRecord record role registry = .ok () ↔
      ∃ rule, CurrentRule entries policyId role rule ∧ Grants rule decision source := by
  obtain ⟨entries', policies, hlists', hpolicies, rfl⟩ := loadPolicyRegistry_lists h
  obtain rfl := hlists.unique hlists'
  have hauthorized : authorizeRecord record role (.ofList policies) = .ok () ↔
      ∃ policy, (Filed.ofList policies : PolicyRegistry).find? policyId = some policy ∧
        ∃ rule, policy.rules.find? (fun rule => rule.role = role) = some rule ∧
          rule.allows decision source := by
    rw [authorizeRecord_eq_ok]
    constructor
    · rintro ⟨policyId', decision', source', policy, rule, hid', hdecision', hsource', hfind, hrule,
        hallows⟩
      obtain rfl := Json.str.inj (hid.1.symm.trans hid'.1)
      obtain rfl := Json.str.inj (hdecision.1.symm.trans hdecision'.1)
      obtain rfl := Json.str.inj (hsource.1.symm.trans hsource'.1)
      exact ⟨policy, hfind, rule, hrule, hallows⟩
    · rintro ⟨policy, hfind, rule, hrule, hallows⟩
      exact ⟨_, _, _, policy, rule, hid, hdecision, hsource, hfind, hrule, hallows⟩
  rw [hauthorized]
  have hrel := lastWith_related hpolicies (fun _ _ hp => PolicyOf.policyId hp) policyId
  unfold CurrentRule
  generalize lastWith entries "policy_id" policyId = last at hrel
  generalize (Filed.ofList policies : PolicyRegistry).find? policyId = found at hrel
  cases hrel with
  | none => simp
  | some hp => simp only [Option.some.injEq, exists_eq_left', ruleOf_find? hp.rules]

/-- A file whose policy has two rules for one role. -/
def overlappingFile : Bytes :=
  ((encodeUtf8 (lit "\x7b\"policies\":[\x7b\"policy_id\":\"p1\",\"version\":\"1\",\"rules\":[" ++
    lit "\x7b\"role\":\"sensor\",\"allowed_decisions\":[\"review\"]\x7d," ++
    lit "\x7b\"role\":\"sensor\",\"allowed_decisions\":[\"allow\"]\x7d]\x7d]\x7d")).toOption).getD []

def overlappingRegistry : PolicyRegistry :=
  (loadPolicyRegistry demoEnv [] overlappingFile).toOption.getD .empty

def sensorRule (decision : String) : Json :=
  .obj [(lit "role", .str (lit "sensor")), (lit "allowed_decisions", .arr [.str (lit decision)])]

def overlappingPolicy : Json :=
  .obj [(lit "policy_id", .str (lit "p1")), (lit "version", .str (lit "1")),
    (lit "rules", .arr [sensorRule "review", sensorRule "allow"])]

theorem overlappingFile_loaded :
    loadPolicyRegistry demoEnv [] overlappingFile = .ok overlappingRegistry :=
  eq_ok_getD (by decide +kernel)

theorem overlappingFile_lists :
    FileLists demoEnv [] overlappingFile "policies" [overlappingPolicy] :=
  exists_of_map (by decide +kernel)

def decisionRecord (decision : String) : Dict :=
  ((Dict.empty.set (lit "policy_id") (.str (lit "p1")) (Json.wellFormed_str _)).set (lit "decision")
    (.str (lit decision)) (Json.wellFormed_str _)).set (lit "source") (.str (lit "s1"))
      (Json.wellFormed_str _)

theorem decisionRecord_texts (decision : String) (hne : lit decision ≠ []) :
    HasText (decisionRecord decision) "policy_id" (lit "p1") ∧
      HasText (decisionRecord decision) "decision" (lit decision) ∧
      HasText (decisionRecord decision) "source" (lit "s1") :=
  ⟨⟨rfl, by decide⟩, ⟨rfl, hne⟩, ⟨rfl, by decide⟩⟩

theorem reviewRecord_authorized :
    authorizeRecord (decisionRecord "review") (lit "sensor") overlappingRegistry = .ok () := by
  obtain ⟨hid, hdecision, hsource⟩ := decisionRecord_texts "review" (by decide)
  refine (authorizeRecord_file overlappingFile_loaded overlappingFile_lists hid hdecision hsource
    (lit "sensor")).mpr ⟨sensorRule "review", ⟨overlappingPolicy, ?_, ?_⟩, ?_, .inl ?_⟩
  all_goals decide +kernel

/-- The second rule of the role grants a decision that is refused. -/
theorem allowRecord_refused :
    loadPolicyRegistry demoEnv [] overlappingFile = .ok overlappingRegistry ∧
      FileLists demoEnv [] overlappingFile "policies" [overlappingPolicy] ∧
      (HasText (decisionRecord "allow") "policy_id" (lit "p1") ∧
        HasText (decisionRecord "allow") "decision" (lit "allow") ∧
        HasText (decisionRecord "allow") "source" (lit "s1")) ∧
      ListsGrant [overlappingPolicy] (lit "p1") (lit "sensor") (lit "allow") (lit "s1") ∧
      authorizeRecord (decisionRecord "allow") (lit "sensor") overlappingRegistry ≠ .ok () := by
  refine ⟨overlappingFile_loaded, overlappingFile_lists,
    decisionRecord_texts "allow" (by decide), ?_, fun h => ?_⟩
  · refine ⟨overlappingPolicy, List.mem_singleton_self _, by decide +kernel, sensorRule "allow",
      ?_, by decide +kernel, ?_, .inl ?_⟩
    all_goals decide +kernel
  · exact ne_ok_of_isNone (by decide +kernel) () h

end Sentinel
