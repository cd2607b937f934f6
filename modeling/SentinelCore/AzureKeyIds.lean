import SentinelCore.AzureContract

/-!
# Azure key identifiers

`validateAzureKeyId` reads the parts of a parsed URL. The parser drops blanks and line breaks, puts the
scheme in lower case, and does not tell an empty parameter, query or fragment from none. `Spelled` is
what a text has to be for the parts to pass (`validateAzureKeyId_eq_ok`), and `IsAzureKeyId` what the
documentation of the adapter names. The first contains the second, and `accepts_exactly_iff` says at which
texts they differ.
-/

namespace Sentinel.Azure

open Py Lib Sentinel.Signing

/-! ## Cutting texts -/

/-- A text with nothing after the character lacks it or has it as its end. -/
theorem cutAt_nil {s a : PyStr} {c : CodePoint} (h : cutAt s c = (a, [])) :
    ∃ t, s = a ++ t ∧ t.Sublist [c] := by
  unfold cutAt at h
  cases hp : partitionChar? s c with
  | none =>
    rw [hp] at h
    exact ⟨[], (Prod.mk.inj h).1.trans (List.append_nil a).symm, List.nil_sublist _⟩
  | some ab =>
    rw [hp] at h
    obtain rfl : ab = (a, []) := h
    exact ⟨[c], (partitionChar?_eq_some hp).1, List.Sublist.refl _⟩

theorem cutAt_of_notMem {s : PyStr} {c : CodePoint} (h : c ∉ s) : cutAt s c = (s, []) := by
  rw [cutAt, partitionChar?_eq_none.mpr h]
  rfl

theorem cutAt_append {a : PyStr} {c : CodePoint} (h : c ∉ a) : cutAt (a ++ [c]) c = (a, []) := by
  rw [cutAt, partitionChar?_append h]
  rfl

theorem splitParams_nil {s path : PyStr} (h : splitParams s = (path, [])) :
    ∃ t, s = path ++ t ∧ t.Sublist [chr ';'] := by
  unfold splitParams at h
  dsimp only at h
  have hlast : ∃ front, s = front ++ (s.reverse.takeWhile (· ≠ chr '/')).reverse := by
    refine ⟨(s.reverse.dropWhile (· ≠ chr '/')).reverse, ?_⟩
    rw [← List.reverse_append, List.takeWhile_append_dropWhile, List.reverse_reverse]
  obtain ⟨front, hfront⟩ := hlast
  generalize (s.reverse.takeWhile (· ≠ chr '/')).reverse = last at h hfront
  cases hp : partitionChar? last (chr ';') with
  | none =>
    rw [hp] at h
    exact ⟨[], (Prod.mk.inj h).1.trans (List.append_nil path).symm, List.nil_sublist _⟩
  | some ab =>
    obtain ⟨segment, params⟩ := ab
    rw [hp] at h
    obtain ⟨hpath, rfl⟩ := Prod.mk.inj h
    refine ⟨[chr ';'], ?_, List.Sublist.refl _⟩
    have htake : s.take (s.length - last.length) = front := by
      rw [hfront, List.length_append, Nat.add_sub_cancel, List.take_left]
    rw [← hpath, htake, List.append_assoc, ← (partitionChar?_eq_some hp).1]
    exact hfront

theorem splitParams_of_last {front last : PyStr} (hfront : front = [] ∨ front.getLast? = some (chr '/'))
    (hlast : chr '/' ∉ last) : splitParams (front ++ last) =
      match partitionChar? last (chr ';') with
      | some (segment, params) => (front ++ segment, params)
      | none => (front ++ last, []) := by
  have htake : ((front ++ last).reverse.takeWhile (· ≠ chr '/')).reverse = last := by
    have hpos : ∀ d ∈ last.reverse, decide (d ≠ chr '/') = true := fun d hd =>
      decide_eq_true fun h => hlast (h ▸ List.mem_reverse.mp hd)
    rw [List.reverse_append, List.takeWhile_append_of_pos hpos]
    have hstop : front.reverse.takeWhile (· ≠ chr '/') = [] := by
      rcases hfront with rfl | h
      · rfl
      · rw [← List.head?_reverse] at h
        cases hr : front.reverse with
        | nil => rfl
        | cons d rest =>
          rw [hr] at h
          obtain rfl := Option.some.inj h
          exact List.takeWhile_cons_of_neg (by simp)
    rw [hstop, List.append_nil, List.reverse_reverse]
  have hleft : (front ++ last).take ((front ++ last).length - last.length) = front := by
    rw [List.length_append, Nat.add_sub_cancel, List.take_left]
  unfold splitParams
  cases hsplit : partitionChar? last (chr ';') with
  | none => simp only [htake, hsplit]
  | some parts => simp only [htake, hleft, hsplit]

/-! ## The form of an identifier -/

/-- A vault name: 3 to 24 lowercase letters, digits and hyphens, a letter or digit at both ends. -/
def IsVault (vault : PyStr) : Prop :=
  3 ≤ vault.length ∧ vault.length ≤ 24 ∧ vault.all isVaultChar = true ∧
    vault.head?.any isVaultEnd = true ∧ vault.getLast?.any isVaultEnd = true

/-- `https://<vault>.vault.azure.net/keys/<name>/<version>`, with the scheme and what follows the
version left open. -/
def keyIdText (scheme vault name version tail : PyStr) : PyStr :=
  scheme ++ chr ':' :: (lit "//" ++ (vault ++ vaultSuffix) ++
    (lit "/keys/" ++ name ++ chr '/' :: (version ++ tail)))

/-- The documented form. -/
def IsAzureKeyId (k : PyStr) : Prop :=
  ∃ vault name version, k = keyIdText (lit "https") vault name version [] ∧ IsVault vault ∧
    keyNameRe name = true ∧ keyVersionRe version = true

/-- A spelling the parser takes for an identifier: after cleaning, the scheme in some case, a vault
name that may be one character, and empty parts at the end. -/
structure Spelled (k scheme vault name version tail : PyStr) : Prop where
  text : cleanUrl k = keyIdText scheme vault name version tail
  scheme_https : scheme.map asciiLower = lit "https"
  vault_ok : vaultRe vault = true
  name_ok : keyNameRe name = true
  version_ok : keyVersionRe version = true
  tail_empty : tail.Sublist (lit ";?#")

/-- A spelling that differs from the documented form. -/
def Respelled (k : PyStr) : Prop :=
  ∃ scheme vault name version tail, Spelled k scheme vault name version tail ∧
    (cleanUrl k ≠ k ∨ scheme ≠ lit "https" ∨ vault.length = 1 ∨ tail ≠ [])

theorem vaultRe_iff {vault : PyStr} : vaultRe vault = true ↔
    IsVault vault ∨ (vault.length = 1 ∧ vault.all isVaultEnd = true) := by
  unfold IsVault
  cases vault with
  | nil => simp [vaultRe]
  | cons c rest =>
    by_cases hrest : rest = []
    · subst hrest
      simp [vaultRe]
    · have hlen : 0 < rest.length := List.length_pos_iff.mpr hrest
      obtain ⟨front, last, rfl⟩ : ∃ front last, rest = front ++ [last] :=
        ⟨_, _, (List.dropLast_append_getLast hrest).symm⟩
      have hend : ∀ d, isVaultEnd d = true → isVaultChar d = true := fun d hd => by
        simp [isVaultChar, hd]
      simp only [vaultRe, List.dropLast_concat, List.getLast?_append,
        List.length_append, List.length_cons, List.length_nil, List.all_append, List.all_cons,
        List.all_nil, Bool.and_eq_true, Bool.or_eq_true, decide_eq_true_eq, List.head?_cons,
        Option.any_some, List.getLast?_cons]
      constructor
      · rintro ⟨hc, hnil | ⟨⟨⟨h2, h23⟩, hall⟩, hlast⟩⟩
        · exact absurd hnil (by simp)
        · exact .inl ⟨by omega, by omega, ⟨hend c hc, hall, hend last hlast, trivial⟩, hc, hlast⟩
      · rintro (⟨h3, h24, ⟨-, hall, -⟩, hc, hlast⟩ | ⟨hone, -⟩)
        · exact ⟨hc, .inr ⟨⟨⟨by omega, by omega⟩, hall⟩, hlast⟩⟩
        · omega

/-! ## Plain characters -/

/-- A letter, a digit, a hyphen or a dot: nothing the parser looks for. -/
def isPlain (c : CodePoint) : Bool := isKeyChar c || c = chr '.'

theorem notMem_of_plain {s : PyStr} {c : CodePoint} (hs : s.all isPlain = true)
    (hc : isPlain c = false) : c ∉ s := by
  intro h
  rw [List.all_eq_true.mp hs c h] at hc
  cases hc

theorem isPlain_of_isKeyChar {c : CodePoint} (h : isKeyChar c = true) : isPlain c = true := by
  rw [isPlain, h, Bool.true_or]

theorem isPlain_of_isVaultChar {c : CodePoint} (h : isVaultChar c = true) : isPlain c = true := by
  simp only [isVaultChar, isVaultEnd, isPlain, isKeyChar, isAsciiAlnum, Bool.or_eq_true] at h ⊢
  tauto

theorem isVaultChar_of_vaultRe {vault : PyStr} (h : vaultRe vault = true) :
    ∀ c ∈ vault, isVaultChar c = true := by
  intro c hc
  rcases vaultRe_iff.mp h with ⟨-, -, hall, -⟩ | ⟨-, hall⟩
  · exact List.all_eq_true.mp hall c hc
  · rw [isVaultChar, List.all_eq_true.mp hall c hc, Bool.true_or]

theorem plain_of_vault {vault : PyStr} (h : vaultRe vault = true) : vault.all isPlain = true := by
  exact List.all_eq_true.mpr fun c hc => isPlain_of_isVaultChar (isVaultChar_of_vaultRe h c hc)

theorem plain_of_host {vault : PyStr} (h : vaultRe vault = true) :
    (vault ++ vaultSuffix).all isPlain = true := by
  rw [List.all_append, plain_of_vault h]
  rfl

theorem plain_of_name {name : PyStr} (h : keyNameRe name = true) : name.all isPlain = true := by
  simp only [keyNameRe, Bool.and_eq_true] at h
  exact List.all_eq_true.mpr fun c hc => isPlain_of_isKeyChar (List.all_eq_true.mp h.2 c hc)

theorem plain_of_version {version : PyStr} (h : keyVersionRe version = true) :
    version.all isPlain = true := by
  simp only [keyVersionRe, Bool.and_eq_true] at h
  exact List.all_eq_true.mpr fun c hc => isPlain_of_isKeyChar (List.all_eq_true.mp h.2 c hc)

theorem ne_nil_of_name {name : PyStr} (h : keyNameRe name = true) : name ≠ [] := by
  rintro rfl
  cases h

theorem ne_nil_of_version {version : PyStr} (h : keyVersionRe version = true) : version ≠ [] := by
  rintro rfl
  cases h

/-! ## The path -/

/-- The path of an identifier. -/
def keyPath (name version : PyStr) : PyStr := lit "/keys/" ++ name ++ chr '/' :: version

theorem keyPath_eq_intercalate (name version : PyStr) :
    keyPath name version = chr '/' :: (lit "/").intercalate [lit "keys", name, version] := by
  show _ = chr '/' :: (lit "keys" ++ (lit "/" ++ (name ++ (lit "/" ++ (version ++ [])))))
  rw [List.append_nil, keyPath, List.append_assoc]
  rfl

theorem pathParts_keyPath {name version : PyStr} (hname : keyNameRe name = true)
    (hversion : keyVersionRe version = true) :
    pathParts (keyPath name version) = [lit "keys", name, version] := by
  have hsplit : (keyPath name version).splitOn (chr '/') = [[], lit "keys", name, version] := by
    rw [keyPath_eq_intercalate]
    show ((lit "/").intercalate [[], lit "keys", name, version]).splitOn (chr '/') = _
    apply List.splitOn_intercalate _ _ (List.cons_ne_nil _ _)
    intro part hpart
    simp only [List.mem_cons, List.not_mem_nil, or_false] at hpart
    rcases hpart with rfl | rfl | rfl | rfl
    · exact List.not_mem_nil
    · decide
    · exact notMem_of_plain (plain_of_name hname) rfl
    · exact notMem_of_plain (plain_of_version hversion) rfl
  have hkeys : lit "keys" ≠ [] := by decide
  rw [pathParts, hsplit]
  simp [hkeys, ne_nil_of_name hname, ne_nil_of_version hversion]

/-! ## The parser on an identifier -/

theorem splitScheme_of_https {scheme rest : PyStr} (h : scheme.map asciiLower = lit "https") :
    splitScheme (scheme ++ chr ':' :: rest) = (lit "https", rest) := by
  have hletter : ∀ c ∈ scheme, (isAsciiLower c || isAsciiUpper c) = true := by
    intro c hc
    have hlower : isAsciiLower (asciiLower c) = true := by
      have hmem : asciiLower c ∈ lit "https" := h ▸ List.mem_map_of_mem hc
      have hall : (lit "https").all isAsciiLower = true := by decide
      exact List.all_eq_true.mp hall _ hmem
    unfold asciiLower at hlower
    by_cases hu : isAsciiUpper c = true
    · rw [hu, Bool.or_true]
    · rw [if_neg hu] at hlower
      rw [hlower, Bool.true_or]
  have hcolon : chr ':' ∉ scheme := fun hc => by
    have hno : (isAsciiLower (chr ':') || isAsciiUpper (chr ':')) = false := by decide
    rw [hletter _ hc] at hno
    cases hno
  have hhead : scheme.head?.any (fun c => isAsciiLower c || isAsciiUpper c) = true := by
    cases scheme with
    | nil => cases h
    | cons c _ => exact hletter c List.mem_cons_self
  have hall : scheme.all isSchemeChar = true := by
    refine List.all_eq_true.mpr fun c hc => ?_
    have hc := hletter c hc
    simp only [isSchemeChar, isAsciiAlnum, Bool.or_eq_true] at hc ⊢
    tauto
  rw [splitScheme, partitionChar?_append hcolon]
  show (if _ then _ else _) = _
  rw [if_pos (by rw [hhead, hall]; rfl), h]

theorem splitNetloc_of_plain {host rest : PyStr} (hhost : host.all isPlain = true) :
    splitNetloc (lit "//" ++ host ++ (chr '/' :: rest)) = (host, chr '/' :: rest) := by
  have hpos : ∀ c ∈ host, (!isNetlocEnd c) = true := by
    intro c hc
    have hends : ∀ d, isNetlocEnd d = true → isPlain d = false := by
      intro d hd
      simp only [isNetlocEnd, Bool.or_eq_true, decide_eq_true_eq] at hd
      rcases hd with (rfl | rfl) | rfl <;> rfl
    cases he : isNetlocEnd c with
    | false => rfl
    | true => exact absurd hc (notMem_of_plain hhost (hends c he))
  have hdrop : (lit "//" ++ host ++ (chr '/' :: rest)).drop 2 = host ++ chr '/' :: rest := by
    rw [List.append_assoc]
    rfl
  rw [splitNetloc, if_pos (by rw [List.append_assoc]; rfl), hdrop, List.takeWhile_append_of_pos hpos,
    List.dropWhile_append_of_pos hpos]
  simp [isNetlocEnd]

/-- An empty part at the end is dropped, with its delimiter. -/
theorem cutAt_optional {a t : PyStr} {c : CodePoint} (h : c ∉ a) (ht : t.Sublist [c]) :
    cutAt (a ++ t) c = (a, []) := by
  rcases List.sublist_singleton.mp ht with rfl | rfl
  · rw [List.append_nil]
    exact cutAt_of_notMem h
  · exact cutAt_append h

theorem splitParams_optional {name version t : PyStr} (h : version.all isPlain = true)
    (ht : t.Sublist [chr ';']) :
    splitParams (keyPath name version ++ t) = (keyPath name version, []) := by
  have hslash : chr '/' ∉ version := notMem_of_plain h rfl
  have hsemicolon : chr ';' ∉ version := notMem_of_plain h rfl
  have hfront : (lit "/keys/" ++ name ++ [chr '/']).getLast? = some (chr '/') :=
    List.getLast?_concat
  have hshape : keyPath name version ++ t = lit "/keys/" ++ name ++ [chr '/'] ++ (version ++ t) := by
    simp [keyPath]
  have hpath : keyPath name version = lit "/keys/" ++ name ++ [chr '/'] ++ version := by
    simp [keyPath]
  rcases List.sublist_singleton.mp ht with rfl | rfl
  · rw [List.append_nil] at hshape ⊢
    rw [hpath, splitParams_of_last (.inr hfront) hslash, partitionChar?_eq_none.mpr hsemicolon]
  · have hlast : chr '/' ∉ version ++ [chr ';'] := by
      rw [List.mem_append, not_or]
      exact ⟨hslash, by decide⟩
    rw [hshape, splitParams_of_last (.inr hfront) hlast, partitionChar?_append hsemicolon, hpath]

/-- The texts with at most one of each delimiter, in order. -/
theorem tail_split {tail : PyStr} (h : tail.Sublist (lit ";?#")) : ∃ params query fragment,
    tail = params ++ query ++ fragment ∧ params.Sublist [chr ';'] ∧ query.Sublist [chr '?'] ∧
      fragment.Sublist [chr '#'] := by
  obtain ⟨front, fragment, rfl, hfront, hfragment⟩ :=
    List.sublist_append_iff.mp (show tail.Sublist (lit ";?" ++ [chr '#']) from h)
  obtain ⟨params, query, rfl, hparams, hquery⟩ :=
    List.sublist_append_iff.mp (show front.Sublist ([chr ';'] ++ [chr '?']) from hfront)
  exact ⟨params, query, fragment, rfl, hparams, hquery, hfragment⟩

theorem isAscii_of_plain {s : PyStr} (h : s.all isPlain = true) : isAscii s = true := by
  refine List.all_eq_true.mpr fun c hc => ?_
  have hc := List.all_eq_true.mp h c hc
  simp only [isPlain, isKeyChar, isAsciiAlnum, isAsciiDigit, isAsciiLower, isAsciiUpper,
    Bool.or_eq_true, Bool.and_eq_true, decide_eq_true_eq] at hc
  rcases hc with ((h | h) | rfl) | rfl
  · exact decide_eq_true (by omega)
  · exact decide_eq_true (by omega)
  · rfl
  · rfl

variable {env : AzureEnv}

theorem lower_host {vault : PyStr} (h : vaultRe vault = true) :
    env.lower (vault ++ vaultSuffix) = vault ++ vaultSuffix := by
  have hupper : ∀ c ∈ vault ++ vaultSuffix, isAsciiUpper c = false := by
    intro c hc
    rcases List.mem_append.mp hc with hc | hc
    · have hvault : ∀ d, isVaultChar d = true → isAsciiUpper d = false := by
        intro d hd
        cases hu : isAsciiUpper d with
        | false => rfl
        | true =>
          simp only [isVaultChar, isVaultEnd, isAsciiLower, isAsciiDigit, isAsciiUpper,
            Bool.or_eq_true, Bool.and_eq_true, decide_eq_true_eq] at hd hu
          rcases hd with (hd | hd) | rfl
          · omega
          · omega
          · exact absurd hu (by decide)
      exact hvault c (isVaultChar_of_vaultRe h c hc)
    · have hall : vaultSuffix.all (fun d => !isAsciiUpper d) = true := by decide
      exact Bool.not_eq_true' _ ▸ List.all_eq_true.mp hall c hc
  rw [env.lower_ascii _ (isAscii_of_plain (plain_of_host h))]
  refine (List.map_congr_left fun c hc => ?_).trans (List.map_id _)
  rw [asciiLower, hupper c hc]
  rfl

theorem rpartitionChar?_eq_none {s : PyStr} {c : CodePoint} (h : c ∉ s) :
    rpartitionChar? s c = none := by
  rw [rpartitionChar?, partitionChar?_eq_none.mpr (fun hc => h (List.mem_reverse.mp hc))]
  rfl

theorem userinfo_of_plain {parsed : ParseResult} (h : parsed.netloc.all isPlain = true) :
    parsed.userinfo = (none, none) := by
  rw [ParseResult.userinfo, rpartitionChar?_eq_none (notMem_of_plain h rfl)]

theorem hostinfo_of_plain {parsed : ParseResult} (h : parsed.netloc.all isPlain = true) :
    parsed.hostinfo = (parsed.netloc, none) := by
  have hno : ∀ c, isPlain c = false → c ∉ parsed.netloc := fun c hc => notMem_of_plain h hc
  simp only [ParseResult.hostinfo, rpartitionChar?_eq_none (hno (chr '@') rfl), Option.map_none,
    Option.getD_none, partitionChar?_eq_none.mpr (hno (chr '[') rfl),
    cutAt_of_notMem (hno (chr ':') rfl), if_true]

theorem hostname_of_plain {parsed : ParseResult} (h : parsed.netloc.all isPlain = true)
    (hne : parsed.netloc ≠ []) (lower : PyStr → PyStr) :
    parsed.hostname lower = some (lower parsed.netloc) := by
  simp only [ParseResult.hostname, hostinfo_of_plain h, if_neg hne,
    partitionChar?_eq_none.mpr (notMem_of_plain h (rfl : isPlain (chr '%') = false))]

theorem port_of_plain {parsed : ParseResult} (h : parsed.netloc.all isPlain = true) (rt : Runtime) :
    parsed.port rt = .ok none := by
  simp only [ParseResult.port, hostinfo_of_plain h]

/-! ## What the validator accepts -/

theorem validateAzureKeyId_eq_ok {k : PyStr} : validateAzureKeyId env k = .ok () ↔
    k ≠ [] ∧ ∃ parsed port, urlparse env.toRuntime k = .ok parsed ∧
      parsed.port env.toRuntime = .ok port ∧ IsVaultKey env parsed port := by
  unfold validateAzureKeyId
  simp only [bind_eq_ok, requireAzure_eq_ok, orSigningError_eq_ok, pure_eq_ok]
  constructor
  · rintro ⟨_, hne, ⟨_, _⟩, ⟨parsed, hparsed, port, hport, hpair⟩, hkey⟩
    obtain ⟨rfl, rfl⟩ := Prod.mk.inj hpair
    exact ⟨hne, _, _, hparsed, hport, hkey⟩
  · rintro ⟨hne, parsed, port, hparsed, hport, hkey⟩
    exact ⟨(), hne, (parsed, port), ⟨parsed, hparsed, port, hport, rfl⟩, hkey⟩

/-- The parts of a spelling of an identifier. -/
theorem urlparse_of_spelled {k scheme vault name version tail : PyStr}
    (h : Spelled k scheme vault name version tail) : urlparse env.toRuntime k = .ok {
      scheme := lit "https"
      netloc := vault ++ vaultSuffix
      path := keyPath name version
      params := []
      query := []
      fragment := [] } := by
  obtain ⟨params, query, fragment, rfl, hparams, hquery, hfragment⟩ := tail_split h.tail_empty
  have hhost := plain_of_host h.vault_ok
  have hname := plain_of_name h.name_ok
  have hversion := plain_of_version h.version_ok
  have hrest : lit "/keys/" ++ name ++ chr '/' :: (version ++ (params ++ query ++ fragment)) =
      keyPath name version ++ params ++ query ++ fragment := by
    simp [keyPath]
  have hpath : ∀ c, isPlain c = false → c ≠ chr '/' → c ∉ keyPath name version := by
    intro c hc hslash hmem
    simp only [keyPath, List.mem_append, List.mem_cons] at hmem
    rcases hmem with (hmem | hmem) | rfl | hmem
    · have hkeys : (lit "/keys/").all (fun d => d = chr '/' || isPlain d) = true := by decide
      have hmem := List.all_eq_true.mp hkeys c hmem
      rw [hc, Bool.or_false, decide_eq_true_eq] at hmem
      exact hslash hmem
    · exact notMem_of_plain hname hc hmem
    · exact hslash rfl
    · exact notMem_of_plain hversion hc hmem
  have hbrackets : bracketsValid env.toRuntime (vault ++ vaultSuffix) = true := by
    have hno : ∀ c, isPlain c = false → (vault ++ vaultSuffix).contains c = false := by
      intro c hc
      simpa using notMem_of_plain hhost hc
    rw [bracketsValid, hno (chr '[') rfl, hno (chr ']') rfl]
    rfl
  have hascii : netlocValid env.toRuntime (vault ++ vaultSuffix) = true := by
    simp only [netlocValid, isAscii_of_plain hhost, Bool.true_or]
  have hfragment' : chr '#' ∉ keyPath name version ++ params ++ query := by
    simp only [List.mem_append, not_or]
    refine ⟨⟨hpath _ rfl (by decide), ?_⟩, ?_⟩
    · exact fun hmem => absurd (hparams.subset hmem) (by decide)
    · exact fun hmem => absurd (hquery.subset hmem) (by decide)
  have hquery' : chr '?' ∉ keyPath name version ++ params := by
    simp only [List.mem_append, not_or]
    exact ⟨hpath _ rfl (by decide), fun hmem => absurd (hparams.subset hmem) (by decide)⟩
  have hnetloc : splitNetloc (lit "//" ++ (vault ++ vaultSuffix) ++
      (keyPath name version ++ params ++ query ++ fragment)) =
        (vault ++ vaultSuffix, keyPath name version ++ params ++ query ++ fragment) :=
    splitNetloc_of_plain hhost
  have huses : usesParams.contains (lit "https") = true := by decide +kernel
  rw [urlparse, h.text, keyIdText, splitScheme_of_https h.scheme_https, hrest]
  simp only [hnetloc, cutAt_optional hfragment' hfragment, cutAt_optional hquery' hquery,
    splitParams_optional hversion hparams, huses, hbrackets, hascii, Bool.and_self, if_true]

theorem splitScheme_eq_https {url rest : PyStr} (h : splitScheme url = (lit "https", rest)) :
    ∃ scheme, scheme.map asciiLower = lit "https" ∧ url = scheme ++ chr ':' :: rest := by
  have hne : ([] : PyStr) ≠ lit "https" := by decide
  unfold splitScheme at h
  cases hp : partitionChar? url (chr ':') with
  | none =>
    rw [hp] at h
    exact absurd (Prod.mk.inj h).1 hne
  | some ab =>
    obtain ⟨scheme, rest'⟩ := ab
    rw [hp] at h
    dsimp only at h
    split_ifs at h
    · obtain ⟨hscheme, rfl⟩ := Prod.mk.inj h
      exact ⟨scheme, hscheme, (partitionChar?_eq_some hp).1⟩
    · exact absurd (Prod.mk.inj h).1 hne

theorem splitNetloc_eq {url netloc rest : PyStr} (h : splitNetloc url = (netloc, rest))
    (hne : netloc ≠ []) : url = lit "//" ++ netloc ++ rest := by
  unfold splitNetloc at h
  by_cases hs : startsWith url (lit "//") = true
  · rw [if_pos hs] at h
    obtain ⟨rfl, rfl⟩ := Prod.mk.inj h
    obtain ⟨tail, rfl⟩ := List.isPrefixOf_iff_prefix.mp hs
    rw [List.append_assoc, List.takeWhile_append_dropWhile]
    rfl
  · rw [if_neg hs] at h
    exact absurd (Prod.mk.inj h).1.symm hne

/-- A host that passes ends in the suffix after a vault name. -/
theorem vaultHostRe_eq {host : PyStr} (h : vaultHostRe host = true) :
    ∃ vault, vaultRe vault = true ∧ host = vault ++ vaultSuffix := by
  obtain ⟨hends, hvault⟩ := Bool.and_eq_true_iff.mp h
  obtain ⟨vault, rfl⟩ := List.isSuffixOf_iff_suffix.mp hends
  refine ⟨vault, ?_, rfl⟩
  rwa [List.length_append, Nat.add_sub_cancel, List.take_left] at hvault

/-- The parts of the path that pass are those of an identifier. -/
theorem path_of_vaultKey {parsed : ParseResult} {port : Option ℕ} (h : IsVaultKey env parsed port) :
    ∃ name version, keyNameRe name = true ∧ keyVersionRe version = true ∧
      parsed.path = keyPath name version := by
  obtain ⟨-, -, -, -, -, -, -, -, hpath, hlength, hkeys, hname, hversion⟩ := h
  obtain ⟨keys, name, version, hparts⟩ := List.length_eq_three.mp hlength
  rw [hparts] at hpath hkeys hname hversion
  obtain rfl := Option.some.inj hkeys
  exact ⟨name, version, hname, hversion, hpath.trans (keyPath_eq_intercalate name version).symm⟩

theorem spelled_of_urlparse {k : PyStr} {parsed : ParseResult} {port : Option ℕ}
    (hparsed : urlparse env.toRuntime k = .ok parsed) (h : IsVaultKey env parsed port) :
    ∃ scheme vault name version tail, Spelled k scheme vault name version tail := by
  obtain ⟨name, version, hname, hversion, hpath⟩ := path_of_vaultKey h
  obtain ⟨hscheme, -, -, hparams, hquery, hfragment, -, hhost, -⟩ := h
  obtain ⟨vault, hvault, hnetloc⟩ := vaultHostRe_eq hhost
  unfold urlparse at hparsed
  rcases h1 : splitScheme (cleanUrl k) with ⟨scheme', rest1⟩
  rcases h2 : splitNetloc rest1 with ⟨netloc, rest2⟩
  rcases h3 : cutAt rest2 (chr '#') with ⟨rest3, fragment⟩
  rcases h4 : cutAt rest3 (chr '?') with ⟨rest4, query⟩
  simp only [h1, h2, h3, h4] at hparsed
  split_ifs at hparsed with hvalid huses
  · obtain rfl := Except.ok.inj hparsed
    dsimp only at hscheme hparams hquery hfragment hpath hnetloc
    subst hscheme hquery hfragment hnetloc
    obtain ⟨scheme, hmap, hurl⟩ := splitScheme_eq_https h1
    have hrest1 := splitNetloc_eq h2 (List.append_ne_nil_of_right_ne_nil _ (by decide))
    have h5 : splitParams rest4 = (keyPath name version, []) := Prod.ext hpath hparams
    obtain ⟨t₃, rfl, ht₃⟩ := cutAt_nil h3
    obtain ⟨t₂, rfl, ht₂⟩ := cutAt_nil h4
    obtain ⟨t₁, rfl, ht₁⟩ := splitParams_nil h5
    have hsub : (t₁ ++ t₂ ++ t₃).Sublist (lit ";?#") := (ht₁.append ht₂).append ht₃
    refine ⟨scheme, vault, name, version, _, ?_, hmap, hvault, hname, hversion, hsub⟩
    rw [hurl, hrest1, keyIdText, keyPath]
    simp only [List.append_assoc, List.cons_append]
  · obtain rfl := Except.ok.inj hparsed
    have hmem : usesParams.contains (lit "https") = true := by decide
    have hscheme : scheme' = lit "https" := hscheme
    rw [hscheme] at huses
    exact absurd hmem huses

/-- **The validator accepts the spellings of an identifier.** -/
theorem accepts_iff_spelled {k : PyStr} : validateAzureKeyId env k = .ok () ↔
    ∃ scheme vault name version tail, Spelled k scheme vault name version tail := by
  rw [validateAzureKeyId_eq_ok]
  constructor
  · rintro ⟨-, parsed, port, hparsed, -, hkey⟩
    exact spelled_of_urlparse hparsed hkey
  · rintro ⟨scheme, vault, name, version, tail, h⟩
    have hne : k ≠ [] := by
      rintro rfl
      have hlength := congrArg List.length h.text
      simp [cleanUrl, keyIdText] at hlength
    have hhost := plain_of_host h.vault_ok
    have hnonempty : vault ++ vaultSuffix ≠ [] := List.append_ne_nil_of_right_ne_nil _ (by decide)
    refine ⟨hne, _, none, urlparse_of_spelled h, port_of_plain hhost _, ?_⟩
    have hmatch : vaultHostRe (vault ++ vaultSuffix) = true := by
      rw [vaultHostRe, List.length_append, Nat.add_sub_cancel, List.take_left, h.vault_ok,
        Bool.and_true]
      exact List.isSuffixOf_iff_suffix.mpr (List.suffix_append _ _)
    have hparts := pathParts_keyPath h.name_ok h.version_ok
    refine ⟨rfl, userinfo_of_plain hhost, rfl, rfl, rfl, rfl, ?_, hmatch, ?_, ?_, ?_, ?_, ?_⟩
    · rw [hostname_of_plain hhost hnonempty, lower_host h.vault_ok]
    · rw [hparts]
      exact keyPath_eq_intercalate name version
    · rw [hparts]
      rfl
    · rw [hparts]
      rfl
    · rw [hparts]
      exact h.name_ok
    · rw [hparts]
      exact h.version_ok

/-! ## Where the two differ -/

/-- A documented identifier is untouched by the cleaning. -/
theorem spelled_of_azureKeyId {vault name version : PyStr} (hvault : IsVault vault)
    (hname : keyNameRe name = true) (hversion : keyVersionRe version = true) :
    Spelled (keyIdText (lit "https") vault name version []) (lit "https") vault name version [] := by
  have hre := vaultRe_iff.mpr (.inl hvault)
  refine ⟨?_, by decide, hre, hname, hversion, List.nil_sublist _⟩
  have hplain : ∀ s : PyStr, s.all isPlain = true →
      (s.all fun c => c ≠ chr '\t' && c ≠ chr '\r' && c ≠ chr '\n') = true := by
    intro s hs
    refine List.all_eq_true.mpr fun c hc => ?_
    have hne : ∀ d, isPlain d = false → c ≠ d := by
      rintro d hd rfl
      exact notMem_of_plain hs hd hc
    simp [hne (chr '\t') rfl, hne (chr '\r') rfl, hne (chr '\n') rfl]
  have hkeep : ((keyIdText (lit "https") vault name version []).all
      fun c => c ≠ chr '\t' && c ≠ chr '\r' && c ≠ chr '\n') = true := by
    simp only [keyIdText, List.all_append, List.all_cons, List.append_nil,
      hplain _ (plain_of_vault hre), hplain _ (plain_of_name hname), hplain _ (plain_of_version hversion)]
    decide
  have hdrop : (keyIdText (lit "https") vault name version []).dropWhile (fun c => c.val ≤ 0x20) =
      keyIdText (lit "https") vault name version [] := rfl
  rw [cleanUrl, hdrop]
  exact List.filter_eq_self.mpr (List.all_eq_true.mp hkeep)

/-- A text is spelled in one way: the parser finds the names, and the scheme has five letters. -/
theorem Spelled.unique (env : AzureEnv) {k scheme vault name version tail scheme' vault' name' version' tail' : PyStr}
    (h : Spelled k scheme vault name version tail)
    (h' : Spelled k scheme' vault' name' version' tail') :
    scheme = scheme' ∧ vault = vault' ∧ name = name' ∧ version = version' ∧ tail = tail' := by
  have hparsed := (@urlparse_of_spelled env _ _ _ _ _ _ h).symm.trans (urlparse_of_spelled h')
  obtain ⟨-, hhost, hpath, -⟩ := ParseResult.mk.inj (Except.ok.inj hparsed)
  obtain rfl := List.append_cancel_right hhost
  have hparts := congrArg pathParts hpath
  rw [pathParts_keyPath h.name_ok h.version_ok, pathParts_keyPath h'.name_ok h'.version_ok] at hparts
  obtain ⟨-, rfl, rfl, -⟩ : lit "keys" = lit "keys" ∧ name = name' ∧ version = version' ∧ True := by
    simpa using hparts
  have hlength : scheme.length = scheme'.length := by
    rw [← List.length_map (f := asciiLower), h.scheme_https, ← h'.scheme_https, List.length_map]
  obtain ⟨rfl, hrest⟩ := List.append_inj (h.text.symm.trans h'.text) hlength
  refine ⟨rfl, rfl, rfl, rfl, ?_⟩
  simpa using hrest

/-- **The validator accepts exactly the documented form, except at the other spellings of it.** -/
theorem accepts_exactly_iff (env : AzureEnv) (k : PyStr) :
    (validateAzureKeyId env k = .ok () ↔ IsAzureKeyId k) ↔ ¬Respelled k := by
  rw [accepts_iff_spelled]
  constructor
  · rintro hiff ⟨scheme, vault, name, version, tail, h, hdiff⟩
    obtain ⟨vault', name', version', rfl, hvault', hname', hversion'⟩ :=
      hiff.mp ⟨scheme, vault, name, version, tail, h⟩
    have h' := spelled_of_azureKeyId hvault' hname' hversion'
    obtain ⟨rfl, rfl, rfl, rfl, rfl⟩ := h.unique env h'
    rcases hdiff with hclean | hscheme | hshort | htail
    · exact hclean h'.text
    · exact hscheme rfl
    · have hlong := hvault'.1
      omega
    · exact htail rfl
  · intro hno
    constructor
    · rintro ⟨scheme, vault, name, version, tail, h⟩
      have hsame : cleanUrl k = k ∧ scheme = lit "https" ∧ vault.length ≠ 1 ∧ tail = [] := by
        by_contra hdiff
        refine hno ⟨scheme, vault, name, version, tail, h, ?_⟩
        tauto
      obtain ⟨hclean, rfl, hlong, rfl⟩ := hsame
      refine ⟨vault, name, version, hclean.symm.trans h.text, ?_, h.name_ok, h.version_ok⟩
      exact (vaultRe_iff.mp h.vault_ok).resolve_right fun hshort => hlong hshort.1
    · rintro ⟨vault, name, version, rfl, hvault, hname, hversion⟩
      exact ⟨_, _, _, _, _, spelled_of_azureKeyId hvault hname hversion⟩

/-- The documentation asks for a vault name of three characters; the expression takes one. -/
theorem shortVault_accepted :
    ¬∀ (env : AzureEnv) (k : PyStr), validateAzureKeyId env k = .ok () ↔ IsAzureKeyId k := by
  intro hall
  have hspelled : Spelled (lit "https://v.vault.azure.net/keys/n/1") (lit "https") (lit "v") (lit "n")
      (lit "1") [] :=
    ⟨by decide, by decide, by decide, by decide, by decide, List.nil_sublist _⟩
  obtain ⟨vault, name, version, hk, hvault, hname, hversion⟩ :=
    (hall sampleAzureEnv _).mp (accepts_iff_spelled.mpr ⟨_, _, _, _, _, hspelled⟩)
  obtain ⟨-, rfl, -⟩ := hspelled.unique sampleAzureEnv (hk ▸ spelled_of_azureKeyId hvault hname hversion)
  exact absurd hvault.1 (by decide)

end Sentinel.Azure
