import AgenticOrg.Governance.AuditChain

namespace AgenticOrg.Governance

open JsonText

section Witnessing

def WITNESS_SOURCE : String := "agenticorg"

def WITNESS_CHAIN : String := "audit_log"

-- The claims of a countersignature; of the two times what is read of them.
structure WitnessClaims where
  iss : Option String
  source : Option String
  chain : Option String
  tenantRef : Option String
  headSeq : Option ℤ
  headHash : Option String
  jti : Option String
  anchoredAt : Option ℤ
  witnessedAt : Option ℤ

structure WitnessBody where
  source : String
  tenantRef : String
  chain : String
  headSeq : ℤ
  headHash : String

def witnessBody (tenantId : String) (headSeq : ℤ) (headHash : String) : WitnessBody where
  source := WITNESS_SOURCE
  tenantRef := tenantId
  chain := WITNESS_CHAIN
  headSeq := headSeq
  headHash := headHash

def checkWitnessClaims (claims : WitnessClaims) (body : WitnessBody) (issuer : String) (witnessId : Option String) :
    Option String :=
  let checks : List (Bool × String) :=
    [(issuer ≠ "" && claims.iss = some issuer, "issuer_mismatch"),
      (claims.source = some body.source, "source_mismatch"),
      (claims.tenantRef = some body.tenantRef, "tenant_ref_mismatch"),
      (claims.chain = some body.chain, "chain_mismatch"),
      (claims.headSeq = some body.headSeq, "head_seq_mismatch"),
      (claims.headHash = some body.headHash, "head_hash_mismatch"),
      (claims.anchoredAt.isSome, "anchored_at_missing"),
      (claims.witnessedAt.isSome, "witnessed_at_missing"),
      (witnessId.isSome && claims.jti = witnessId, "witness_id_mismatch")]
  (checks.find? fun check => !check.1).map Prod.snd

inductive WitnessStatus where
  | witnessed
  | fork
  deriving DecidableEq

-- A row of `audit_chain_witness_checkpoints`.
structure WitnessCheckpoint where
  tenantId : String
  headSeq : ℤ
  headHash : String
  status : WitnessStatus
  witnessId : Option String
  countersignature : Option String
  createdAt : ℤ
  deriving DecidableEq

-- The same head of a tenant is stored once under each status.
def storeCheckpoint (rows : List WitnessCheckpoint) (row : WitnessCheckpoint) : List WitnessCheckpoint :=
  if rows.any fun other => other.tenantId = row.tenantId && other.headSeq = row.headSeq &&
      other.headHash = row.headHash && other.status = row.status then rows
  else rows ++ [row]

-- Grantex as it is reached: its issuer, and what its keys make of a token.
structure GrantexService where
  issuer : String
  verifyToken : String → Option WitnessClaims

inductive WitnessAnswer where
  | unreachable
  | response (statusCode : ℕ) (code : Option String) (witnessId countersignature : Option String)

-- What the table holds once a head was posted and answered.
def witnessHead (service : GrantexService) (rows : List WitnessCheckpoint) (tenantId : String) (headSeq : ℤ)
    (headHash : String) (answer : WitnessAnswer) (now : ℤ) : List WitnessCheckpoint :=
  if headSeq < 1 then rows
  else
    let body := witnessBody tenantId headSeq headHash
    match answer with
    | .unreachable => rows
    | .response statusCode code witnessId countersignature =>
        if statusCode = 409 ∧ code = some "WITNESS_FORK" then
          storeCheckpoint rows ⟨tenantId, body.headSeq, body.headHash, .fork, none, none, now⟩
        else if statusCode ≠ 200 ∧ statusCode ≠ 201 then rows
        else
          match countersignature.bind service.verifyToken with
          | none => rows
          | some claims =>
              match checkWitnessClaims claims body service.issuer witnessId with
              | some _ => rows
              | none =>
                  storeCheckpoint rows
                    ⟨tenantId, body.headSeq, body.headHash, .witnessed, witnessId, countersignature, now⟩

def newerHead (a b : WitnessCheckpoint) : Bool :=
  b.headSeq < a.headSeq || (a.headSeq = b.headSeq && b.createdAt ≤ a.createdAt)

def listCheckpoints (rows : List WitnessCheckpoint) (tenantId : String) (limit : ℕ) : List WitnessCheckpoint :=
  ((rows.filter fun row => row.tenantId = tenantId).mergeSort newerHead).take (max 1 (min limit 1000))

-- The audit tables with the checkpoints beside them.
structure Ledger (δ : Type) where
  store : Store δ
  checkpoints : List WitnessCheckpoint

def emptyLedger {δ : Type} : Ledger δ := ⟨emptyStore, []⟩

inductive LedgerStep (δ : Type) where
  | audit (step : StoreStep δ)
  | witness (tenantId : String) (headSeq : ℤ) (headHash : String) (answer : WitnessAnswer) (now : ℤ)

-- Only a head that a sealing came to is posted.
def Ledger.step {δ : Type} (platform : Platform δ) (service : GrantexService) (ledger : Ledger δ) :
    LedgerStep δ → Ledger δ
  | .audit step => { ledger with store := ledger.store.step platform step }
  | .witness tenantId headSeq headHash answer now =>
      if ledger.store.logged.any fun entry =>
          entry.1 = tenantId && entry.2.seq = headSeq && entry.2.hash = headHash then
        { ledger with checkpoints := witnessHead service ledger.checkpoints tenantId headSeq headHash answer now }
      else ledger

def Ledger.run {δ : Type} (platform : Platform δ) (service : GrantexService) (ledger : Ledger δ)
    (steps : List (LedgerStep δ)) : Ledger δ := steps.foldl (Ledger.step platform service) ledger

end Witnessing

section Exporting

variable {δ : Type} (platform : Platform δ)

def EXPORT_FORMAT : String := "agenticorg-commerce-ledger-export-v1"

def MAX_EXPORT_ROWS : ℕ := 5000

-- A sealed row with its signed columns in their canonical form.
structure ExportedRow (δ : Type) where
  id : String
  tenantId : String
  eventType : String
  actorType : String
  actorId : String
  agentId : Option String
  workflowRunId : Option String
  resourceType : Option String
  resourceId : Option String
  action : String
  outcome : String
  details : Value δ
  traceId : Option String
  createdAt : String
  signature : Option String
  chainSeq : ℤ
  chainPrev : Option String
  chainHash : Option String

def exportRow (row : AuditLog δ) : ExportedRow δ where
  id := row.id
  tenantId := row.tenantId
  eventType := row.eventType
  actorType := row.actorType
  actorId := row.actorId
  agentId := row.agentId
  workflowRunId := row.workflowRunId
  resourceType := row.resourceType
  resourceId := row.resourceId
  action := row.action
  outcome := row.outcome
  details := detailsValue row.details
  traceId := row.traceId
  createdAt := platform.isoformat row.createdAt
  signature := row.signature
  chainSeq := seqOf row
  chainPrev := row.chainPrev
  chainHash := row.chainHash

structure WitnessView where
  headSeq : ℤ
  headHash : String
  status : WitnessStatus
  witnessId : Option String
  countersignature : Option String

def witnessView (row : WitnessCheckpoint) : WitnessView where
  headSeq := row.headSeq
  headHash := row.headHash
  status := row.status
  witnessId := row.witnessId
  countersignature := row.countersignature

-- The issuer that was pinned and its keys, as what they make of a token.
structure Grantex where
  issuer : Option String
  jwks : Option (String → Option WitnessClaims)

structure LedgerExport (δ : Type) where
  format : String
  tenantId : String
  version : String
  fromSeq : ℤ
  toSeq : ℤ
  prevLink : Option String
  head : Head
  rows : List (ExportedRow δ)
  anchor : Option Head
  witnesses : List WitnessView
  grantex : Grantex

-- What each statement of an export finds committed when it runs.
structure ExportReads (δ : Type) where
  head : Ledger δ
  rows : Ledger δ
  before : Ledger δ
  anchor : Ledger δ
  witnesses : Ledger δ

def Ledger.exported (ledger : Ledger δ) : ExportReads δ := ⟨ledger, ledger, ledger, ledger, ledger⟩

def exportEnd (head : Head) (start : ℤ) (toSeq : Option ℤ) : ℤ :=
  min ((toSeq.map fun last => min last head.seq).getD head.seq) (start + MAX_EXPORT_ROWS - 1)

def exportedRows (rows : List (AuditLog δ)) (tenantId : String) (start last : ℤ) : List (AuditLog δ) :=
  if start ≤ last then (sealedRows rows tenantId start (last - start + 1).toNat).filter fun row => seqOf row ≤ last
  else []

def prevLinkOf (rows : List (AuditLog δ)) (tenantId : String) (start : ℤ) : Option String :=
  if 1 < start then
    match (sealedRows rows tenantId (start - 1) 1).head? with
    | none => none
    | some row => if seqOf row = start - 1 then some (row.chainHash.getD "None") else none
  else some GENESIS

def buildExportBundle (reads : ExportReads δ) (tenantId : String) (fromSeq : ℤ) (toSeq : Option ℤ)
    (grantex : Grantex) : LedgerExport δ :=
  let start := max 1 fromSeq
  let head := headOf (headRow reads.head.store.rows tenantId)
  let rows := (exportedRows reads.rows.store.rows tenantId start (exportEnd head start toSeq)).map (exportRow platform)
  { format := EXPORT_FORMAT
    tenantId
    version := CHAIN_VERSION
    fromSeq := start
    toSeq := (rows.getLast?.map ExportedRow.chainSeq).getD (start - 1)
    prevLink := prevLinkOf reads.before.store.rows tenantId start
    head
    rows
    anchor := reads.anchor.store.anchors tenantId
    witnesses := (listCheckpoints reads.witnesses.checkpoints tenantId 1000).map witnessView
    grantex := { grantex with issuer := grantex.issuer.filter (· ≠ "") } }

end Exporting

section Verifying

variable {δ : Type} (platform : Platform δ)

inductive OfflineReason where
  | format
  | chain (reason : BreakReason)
  | witnessCountersignature
  deriving DecidableEq

structure OfflineBreak where
  seq : Option ℤ
  reason : OfflineReason
  deriving DecidableEq

structure OfflineReport where
  firstBreak : Option OfflineBreak
  checked : ℕ
  anchorsChecked : ℕ
  witnessesVerified : ℕ
  deriving DecidableEq

-- The canonical columns of a row that was exported in canonical form.
def offlineColumns (row : ExportedRow δ) : List (String × Value δ) :=
  [("action", .str row.action), ("actor_id", .str row.actorId), ("actor_type", .str row.actorType),
    ("agent_id", textValue row.agentId), ("created_at", .str row.createdAt), ("details", detailsValue row.details),
    ("event_type", .str row.eventType), ("outcome", .str row.outcome), ("resource_id", textValue row.resourceId),
    ("resource_type", textValue row.resourceType), ("tenant_id", .str row.tenantId), ("trace_id", textValue row.traceId),
    ("workflow_run_id", textValue row.workflowRunId)]

def offlinePayload (row : ExportedRow δ) : Text := dumps platform.float (.obj (offlineColumns row))

def offlineLinkHash (prevHash : String) (row : ExportedRow δ) : String :=
  platform.sha256 (text CHAIN_VERSION ++ code '|' :: (text prevHash ++ code '|' :: (offlinePayload platform row ++
    code '|' :: text (row.signature.getD ""))))

-- Whether the row carries the signature the secret makes.
def signedUnder (hmac : Text → String) (row : ExportedRow δ) : Bool :=
  match row.signature with
  | none => false
  | some stored => stored ≠ "" && hmac (offlinePayload platform row) = stored

-- How far the rows of an export have been checked, and their links by number.
structure OfflineWalk where
  expected : ℤ
  prev : String
  bySeq : List (ℤ × String)

-- Without the secret the signatures are not checked.
def checkExported (secret : Option (Text → String)) (walk : OfflineWalk) (row : ExportedRow δ) : Option OfflineBreak :=
  if row.chainSeq ≠ walk.expected then some ⟨some walk.expected, .chain .sequenceGap⟩
  else if row.chainPrev ≠ some walk.prev then some ⟨some row.chainSeq, .chain .previousLink⟩
  else if row.chainHash ≠ some (offlineLinkHash platform walk.prev row) then some ⟨some row.chainSeq, .chain .linkHash⟩
  else if secret.any fun hmac => !signedUnder platform hmac row then some ⟨some row.chainSeq, .chain .signature⟩
  else none

def OfflineWalk.past (walk : OfflineWalk) (row : ExportedRow δ) : OfflineWalk where
  expected := row.chainSeq + 1
  prev := offlineLinkHash platform walk.prev row
  bySeq := walk.bySeq ++ [(row.chainSeq, offlineLinkHash platform walk.prev row)]

def walkExported (secret : Option (Text → String)) (walk : OfflineWalk) :
    List (ExportedRow δ) → OfflineWalk × Option OfflineBreak
  | [] => (walk, none)
  | row :: rest =>
      match checkExported platform secret walk row with
      | some found => (walk, some found)
      | none => walkExported secret (walk.past platform row) rest

-- The anchors in turn: one beyond the exported head, or another link at a number that was checked.
def checkAnchors (fromSeq lastSeq headSeq : ℤ) (bySeq : List (ℤ × String)) :
    List (ℤ × String) → ℕ → Option OfflineBreak × ℕ
  | [], checked => (none, checked)
  | (seq, hash) :: rest, checked =>
      if headSeq < seq then (some ⟨some (headSeq + 1), .chain .truncated⟩, checked)
      else if seq < fromSeq ∨ lastSeq < seq then checkAnchors fromSeq lastSeq headSeq bySeq rest checked
      else if bySeq.lookup seq ≠ some hash then (some ⟨some seq, .chain .anchorMismatch⟩, checked + 1)
      else checkAnchors fromSeq lastSeq headSeq bySeq rest (checked + 1)

def linkOf (head : Head) : ℤ × String := (head.seq, head.hash)

inductive WitnessProblem where
  | unverified
  | claim (key : String)
  | issuer
  deriving DecidableEq

-- The claims that must name the stored witness.
def witnessProblem (jwks : String → Option WitnessClaims) (issuer : Option String) (witness : WitnessView)
    (tenantId : String) : Option WitnessProblem :=
  match witness.countersignature.bind jwks with
  | none => some .unverified
  | some claims =>
      if claims.source ≠ some "agenticorg" then some (.claim "source")
      else if claims.chain ≠ some "audit_log" then some (.claim "chain")
      else if claims.tenantRef ≠ some tenantId then some (.claim "tenant_ref")
      else if claims.headSeq ≠ some witness.headSeq then some (.claim "head_seq")
      else if claims.headHash ≠ some witness.headHash then some (.claim "head_hash")
      else if claims.jti ≠ witness.witnessId then some (.claim "jti")
      else if issuer.any fun pinned => pinned ≠ "" && claims.iss ≠ some pinned then some .issuer
      else none

def witnessedHeads (bundle : LedgerExport δ) : List WitnessView :=
  bundle.witnesses.filter fun witness => witness.status = .witnessed

-- The countersignatures in turn, and how many verified; without keys none is checked.
def checkWitnesses (bundle : LedgerExport δ) : List WitnessView → ℕ → Option OfflineBreak × ℕ
  | [], verified => (none, verified)
  | witness :: rest, verified =>
      match bundle.grantex.jwks with
      | none => checkWitnesses bundle rest verified
      | some jwks =>
          if (witnessProblem jwks bundle.grantex.issuer witness bundle.tenantId).isSome then
            (some ⟨some witness.headSeq, .witnessCountersignature⟩, verified)
          else checkWitnesses bundle rest (verified + 1)

-- The anchors of an export: the stored one, the witnessed heads, the head the caller supplies and the exported one.
def anchorsOf (bundle : LedgerExport δ) (expectedHead : Option (ℤ × String)) (lastSeq : ℤ) : List (ℤ × String) :=
  ((bundle.anchor.filter fun anchor => 0 < anchor.seq).map linkOf).toList ++
    ((witnessedHeads bundle).map fun witness => (witness.headSeq, witness.headHash)) ++ expectedHead.toList ++
      if lastSeq = bundle.head.seq ∧ bundle.fromSeq ≤ bundle.head.seq then [linkOf bundle.head] else []

-- What is checked once every row has been.
def verifyAnchors (bundle : LedgerExport δ) (expectedHead : Option (ℤ × String)) (walk : OfflineWalk) : OfflineReport :=
  let lastSeq := walk.expected - 1
  let checked := walk.bySeq.length
  if bundle.toSeq ≠ lastSeq then ⟨some ⟨some (lastSeq + 1), .chain .truncated⟩, checked, 0, 0⟩
  else
    match checkWitnesses bundle (witnessedHeads bundle) 0 with
    | (some found, verified) => ⟨some found, checked, 0, verified⟩
    | (none, verified) =>
        if bundle.head.seq < lastSeq then
          ⟨some ⟨some (bundle.head.seq + 1), .chain .anchorMismatch⟩, checked, 0, verified⟩
        else
          let result := checkAnchors bundle.fromSeq lastSeq bundle.head.seq walk.bySeq
            (anchorsOf bundle expectedHead lastSeq) 0
          ⟨result.1, checked, result.2, verified⟩

def startLink (bundle : LedgerExport δ) : Option String := if bundle.fromSeq = 1 then some GENESIS else bundle.prevLink

def verifyBundle (bundle : LedgerExport δ) (expectedHead : Option (ℤ × String)) (secret : Option (Text → String)) :
    OfflineReport :=
  if bundle.format ≠ EXPORT_FORMAT ∨ bundle.version ≠ CHAIN_VERSION then ⟨some ⟨none, .format⟩, 0, 0, 0⟩
  else
    match startLink bundle with
    | none => ⟨some ⟨some (bundle.fromSeq - 1), .chain .sequenceGap⟩, 0, 0, 0⟩
    | some prev =>
        match walkExported platform secret ⟨bundle.fromSeq, prev, []⟩ bundle.rows with
        | (walk, some found) => ⟨some found, walk.bySeq.length, 0, 0⟩
        | (walk, none) => verifyAnchors bundle expectedHead walk

end Verifying

end AgenticOrg.Governance
