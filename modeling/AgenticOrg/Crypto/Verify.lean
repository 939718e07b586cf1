import AgenticOrg.Lib.Fallible
import AgenticOrg.Lib.Table
import AgenticOrg.Crypto.Vault

namespace AgenticOrg.Crypto

open JsonText Tables Fallible

section Parsers

-- A column's value as the driver returns it. Bytes are known by their reading as UTF-8, if they have one.
inductive Raw where
  | bytes (utf8 : Option Text)
  | value (json : Json)

def Raw.null : Raw := .value .null

def Raw.str (t : Text) : Raw := .value (.str t)

def Raw.isNull : Raw → Bool
  | .value .null => true
  | _ => false

inductive RefKind where
  | vault
  | envelope
  deriving DecidableEq

structure KeyRef where
  kind : RefKind
  ref : Text
  deriving DecidableEq

inductive ScanError where
  | notUtf8
  | malformedEnvelope
  deriving DecidableEq

-- What `str.strip` removes.
def isBlank (c : CodePoint) : Bool :=
  let n := c.val
  (9 ≤ n && n ≤ 13) || (28 ≤ n && n ≤ 32) || n = 133 || n = 160 || n = 5760 || (8192 ≤ n && n ≤ 8202) ||
    n = 8232 || n = 8233 || n = 8239 || n = 8287 || n = 12288

def strip (t : Text) : Text := ((t.dropWhile isBlank).reverse.dropWhile isBlank).reverse

-- `_VAULT_PREFIX`
def vaultPrefix (t : Text) : Option Text := (prefixMatch t).map (·.1)

def envelopeRef (json : Json) : Option KeyRef :=
  match json.get? (text "kek") with
  | some (.str kek) =>
      if kek ≠ [] ∧ (json.get? (text "wrapped_dek")).isSome then some ⟨.envelope, kek⟩ else none
  | _ => none

def parseText (blob : Text) : Option KeyRef :=
  let s := strip blob
  if s = [] then none
  else
    match vaultPrefix s with
    | some kid => some ⟨.vault, kid⟩
    | none =>
        let envelope := if s.head? = some (code '{') then (loads s).bind envelopeRef else none
        some (envelope.getD ⟨.vault, text "legacy"⟩)

def parseCiphertext : Raw → Option KeyRef
  | .bytes none => none
  | .bytes (some t) => parseText t
  | .value (.str t) => parseText t
  | .value (.obj entries) => envelopeRef (.obj entries)
  | .value _ => none

-- The value inside a container, or the value itself.
def unwrapped (json : Json) : Json :=
  match json with
  | .str t => ((loads t).bind (·.get? (text "_encrypted"))).getD json
  | _ => (json.get? (text "_encrypted")).getD json

def ENVELOPE_PREFIX : Text := text "env1:"

def isFilled : Option Json → Bool
  | some (.str t) => strip t ≠ []
  | _ => false

-- A value behind the envelope prefix has to be an envelope.
def opened (json : Json) : Except ScanError Json :=
  match json with
  | .str t =>
      if ENVELOPE_PREFIX.isPrefixOf t then
        match loads (t.drop ENVELOPE_PREFIX.length) with
        | some envelope =>
            if isFilled (envelope.get? (text "kek")) ∧ isFilled (envelope.get? (text "wrapped_dek")) then .ok envelope
            else .error .malformedEnvelope
        | none => .error .malformedEnvelope
      else .ok json
  | _ => .ok json

def parseEncryptedContainer (raw : Raw) : Except ScanError (Option KeyRef) :=
  match raw with
  | .bytes none => .error .notUtf8
  | .bytes (some t) => (opened (unwrapped (.str t))).map fun json => parseCiphertext (.value json)
  | .value json => (opened (unwrapped json)).map fun json => parseCiphertext (.value json)

end Parsers

section Stamped

theorem loads_letter (rest : Text) : loads (code 'a' :: rest) = none := by
  have hskip : skipSpace (code 'a' :: rest) = code 'a' :: rest := by
    rw [skipSpace, List.dropWhile_cons_of_neg (by decide)]
  have hliteral : scanLiteral (code 'a' :: rest) = none := by
    rw [scanLiteral, Option.map_eq_none_iff, List.find?_eq_none]
    intro literal hl
    simp only [literals, List.mem_cons, List.not_mem_nil, or_false] at hl
    rcases hl with rfl | rfl | rfl | rfl | rfl | rfl <;> exact Bool.false_ne_true
  have hnumber : scanNumber (code 'a' :: rest) = none := rfl
  have hmark : (code 'a' :: rest).head? ≠ some 0xFEFF := by
    rw [List.head?_cons]
    decide
  rw [loads, if_neg hmark, hskip, List.length_cons, scanValue,
    if_neg (by decide), if_neg (by decide), if_neg (by decide), hliteral, hnumber]
  rfl

variable (kid token : Text)

-- Stripping a stamped text leaves its stamp alone.
theorem strip_stamped : ∃ left, strip (STAMP ++ kid ++ code '$' :: token) = STAMP ++ kid ++ code '$' :: left := by
  have hfront : (STAMP ++ kid ++ code '$' :: token).dropWhile isBlank = STAMP ++ kid ++ code '$' :: token :=
    List.dropWhile_cons_of_neg (by decide)
  rw [strip, hfront]
  have hback (back : Text) : ∃ left, (back ++ (code '$' :: (STAMP ++ kid).reverse)).dropWhile isBlank =
      left ++ (code '$' :: (STAMP ++ kid).reverse) := by
    induction back with
    | nil => exact ⟨[], List.dropWhile_cons_of_neg (by decide)⟩
    | cons c rest ih =>
        by_cases hc : isBlank c = true
        · rw [List.cons_append, List.dropWhile_cons_of_pos hc]
          exact ih
        · rw [List.cons_append, List.dropWhile_cons_of_neg hc]
          exact ⟨c :: rest, rfl⟩
  obtain ⟨left, hleft⟩ := hback token.reverse
  have hrev : (STAMP ++ kid ++ code '$' :: token).reverse = token.reverse ++ (code '$' :: (STAMP ++ kid).reverse) := by
    rw [List.reverse_append, List.reverse_cons, List.append_assoc, List.singleton_append]
  refine ⟨left.reverse, ?_⟩
  rw [hrev, hleft, List.reverse_append, List.reverse_cons, List.reverse_reverse, List.append_assoc,
    List.singleton_append]

theorem unwrapped_stamped :
    unwrapped (.str (STAMP ++ kid ++ code '$' :: token)) = .str (STAMP ++ kid ++ code '$' :: token) := by
  have hloads : loads (STAMP ++ kid ++ code '$' :: token) = none := loads_letter _
  rw [unwrapped, hloads]
  rfl

variable (hne : kid ≠ []) (hd : code '$' ∉ kid)

include hne hd

theorem parseText_stamped : parseText (STAMP ++ kid ++ code '$' :: token) = some ⟨.vault, kid⟩ := by
  obtain ⟨left, hstrip⟩ := strip_stamped kid token
  rw [parseText, hstrip, vaultPrefix, prefixMatch_stamped kid left hne hd]
  rfl

theorem opened_stamped :
    (opened (.str (STAMP ++ kid ++ code '$' :: token))).map (fun json => parseCiphertext (.value json)) =
      .ok (some ⟨.vault, kid⟩) := by
  have hopen : opened (.str (STAMP ++ kid ++ code '$' :: token)) = .ok (.str (STAMP ++ kid ++ code '$' :: token)) :=
    rfl
  rw [hopen]
  exact congrArg Except.ok (parseText_stamped kid token hne hd)

end Stamped

section Scans

structure Row where
  label : String
  id : ℕ
  tenant : ℕ
  company : Option ℕ
  raw : Raw

instance : Keyed Row (String × ℕ) := ⟨fun row => (row.label, row.id)⟩

structure TenantCompanyScope where
  tenant : ℕ
  company : Option ℕ
  deriving DecidableEq

-- A registered column, and whether its table has a `company_id`.
structure Scanner where
  label : String
  companyScoped : Bool
  deriving DecidableEq

-- `_SCANNERS`
def SCANNERS : List Scanner :=
  [⟨"demo_delivery_jobs.payload_encrypted", false⟩, ⟨"connector_configs.credentials_encrypted", true⟩,
    ⟨"gstn_credentials.password_encrypted", true⟩, ⟨"tenant_ai_credentials.credentials_encrypted", false⟩,
    ⟨"voice_calls.transcript_encrypted", false⟩, ⟨"case_pseudonym_maps.mapping_encrypted", false⟩,
    ⟨"speech_recordings.content", false⟩, ⟨"speech_recordings.transcript_encrypted", false⟩,
    ⟨"speech_recordings.summary_encrypted", false⟩, ⟨"speech_live_sessions.turns_encrypted", false⟩,
    ⟨"personalisation_profiles.attributes", false⟩, ⟨"lineage_sync_sources.token", false⟩]

-- The tenants of the catalogue, each with its companies.
def discoverTenantCompanyScopes (tenants : List ℕ) (companies : ℕ → List ℕ) : List TenantCompanyScope :=
  tenants.flatMap fun tenant => ⟨tenant, none⟩ :: (companies tenant).map fun company => ⟨tenant, some company⟩

def scopesForScanner (scanner : Scanner) (scopes : List TenantCompanyScope) : List TenantCompanyScope :=
  if scanner.companyScoped then scopes else scopes.filter (·.company = none)

-- A column in a scope: what one session looks at.
structure Position where
  scanner : Scanner
  scope : TenantCompanyScope
  deriving DecidableEq

def scopePlan (scanners : List Scanner) (scopes : List TenantCompanyScope) : List Position :=
  scanners.flatMap fun scanner => (scopesForScanner scanner scopes).map (⟨scanner, ·⟩)

def Position.holds (position : Position) (row : Row) : Bool :=
  row.label = position.scanner.label && row.tenant = position.scope.tenant &&
    (!position.scanner.companyScoped || row.company = position.scope.company)

def fetchColumn (table : Table Row) (position : Position) : List Raw :=
  (table.rows.filter position.holds).map (·.raw)

def scanEncryptedColumnsAllScopes (table : Table Row) (scopes : List TenantCompanyScope) :
    Except ScanError (List (String × List (Option KeyRef))) :=
  (scopePlan SCANNERS scopes).mapM fun position =>
    ((fetchColumn table position).mapM parseEncryptedContainer).map (position.scanner.label, ·)

inductive RetirementError where
  | scan (error : ScanError)
  | stillReferenced (columns : List String)
  deriving DecidableEq

def assertKeyUnreferenced (table : Table Row) (scopes : List TenantCompanyScope) (keyRef : Text) :
    Except RetirementError Unit :=
  match scanEncryptedColumnsAllScopes table scopes with
  | .error error => .error (.scan error)
  | .ok refs =>
      let locations := refs.filter fun found => found.2.any fun ref => ref.any (·.ref = keyRef)
      if locations = [] then .ok () else .error (.stillReferenced (locations.map (·.1)))

-- A key that is called unreferenced is named by no row a scan comes by.
theorem not_referenced (table : Table Row) (scopes : List TenantCompanyScope) (keyRef : Text)
    (hok : assertKeyUnreferenced table scopes keyRef = .ok ()) (position : Position)
    (hp : position ∈ scopePlan SCANNERS scopes) (row : Row) (hr : row ∈ table.rows)
    (hrow : position.holds row = true) (ref : KeyRef) (href : parseEncryptedContainer row.raw = .ok (some ref)) :
    ref.ref ≠ keyRef := by
  rw [assertKeyUnreferenced] at hok
  split at hok
  · cases hok
  · rename_i refs hscan
    dsimp only at hok
    split at hok
    · rename_i hnone
      obtain ⟨found, hfound, hcolumn⟩ := mem_results_of_mapM_ok _ _ _ hscan position hp
      obtain ⟨parsed, hparsed, rfl⟩ := (map_ok _ _ _).mp hcolumn
      have hraw : row.raw ∈ fetchColumn table position :=
        List.mem_map_of_mem (List.mem_filter.mpr ⟨hr, hrow⟩)
      obtain ⟨result, hresult, hof⟩ := mem_results_of_mapM_ok _ _ _ hparsed row.raw hraw
      rw [href] at hof
      cases hof
      intro hkey
      have hmem := List.filter_eq_nil_iff.mp hnone _ hfound
      refine hmem (List.any_eq_true.mpr ⟨some ref, hresult, ?_⟩)
      simp [hkey]
    · cases hok

end Scans

end AgenticOrg.Crypto
