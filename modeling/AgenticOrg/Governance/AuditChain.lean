import Mathlib.Logic.Function.Basic
import AgenticOrg.Lib.HashChain
import AgenticOrg.Lib.Json.Canonical
import AgenticOrg.Lib.Replay

namespace AgenticOrg.Governance

open JsonText

section Rows

variable {δ : Type}

-- A row of `audit_log`; a uuid stands as its text, a time as microseconds.
structure AuditLog (δ : Type) where
  id : String
  tenantId : String
  eventType : String
  actorType : String
  actorId : String
  agentId : Option String
  workflowRunId : Option String
  resourceType : Option String
  resourceId : Option String
  action : String
  outcome : String
  details : Value δ
  signature : Option String
  traceId : Option String
  chainSeq : Option ℤ
  chainPrev : Option String
  chainHash : Option String
  sealedAt : Option ℤ
  createdAt : ℤ

-- The platform's digests, how it writes a time and how it writes a float.
structure Platform (δ : Type) where
  float : FloatText δ
  isoformat : ℤ → String
  sha256 : Text → String
  hexdigest : ∀ material, (sha256 material).length = 64
  -- the audit key's signature of a payload
  hmac : Text → String

def CHAIN_VERSION : String := "1"

def GENESIS : String := String.ofList (List.replicate 64 '0')

end Rows

section Links

variable {δ : Type} (platform : Platform δ)

def textValue : Option String → Value δ
  | none => .null
  | some value => .str value

-- Anything but an object is written as an empty one.
def detailsValue : Value δ → Value δ
  | .null => .null
  | .obj members => .obj members
  | _ => .obj []

-- The signed columns, by their names in order.
def signedColumns (row : AuditLog δ) : List (String × Value δ) :=
  [("action", .str row.action), ("actor_id", .str row.actorId), ("actor_type", .str row.actorType),
    ("agent_id", textValue row.agentId), ("created_at", .str (platform.isoformat row.createdAt)),
    ("details", detailsValue row.details), ("event_type", .str row.eventType), ("outcome", .str row.outcome),
    ("resource_id", textValue row.resourceId), ("resource_type", textValue row.resourceType),
    ("tenant_id", .str row.tenantId), ("trace_id", textValue row.traceId),
    ("workflow_run_id", textValue row.workflowRunId)]

def canonicalAuditPayload (row : AuditLog δ) : Text := dumps platform.float (.obj (signedColumns platform row))

def linkMaterial (prevHash : String) (row : AuditLog δ) : Text :=
  text CHAIN_VERSION ++ code '|' :: (text prevHash ++ code '|' :: (canonicalAuditPayload platform row ++
    code '|' :: text (row.signature.getD "")))

def linkHash (prevHash : String) (row : AuditLog δ) : String := platform.sha256 (linkMaterial platform prevHash row)

def verifyAuditRow (row : AuditLog δ) : Bool :=
  match row.signature with
  | none => false
  | some stored => stored ≠ "" && platform.hmac (canonicalAuditPayload platform row) = stored

end Links

section Queries

variable {δ : Type}

structure Head where
  seq : ℤ
  hash : String
  sealedAt : Option ℤ
  deriving DecidableEq

def NO_HEAD : Head := ⟨0, GENESIS, none⟩

def seqOf (row : AuditLog δ) : ℤ := row.chainSeq.getD 0

def hashOf (row : AuditLog δ) : String := row.chainHash.getD ""

variable (rows : List (AuditLog δ)) (tenantId : String)

def isSealed (row : AuditLog δ) : Bool := row.tenantId = tenantId && row.chainSeq.isSome

-- All sealed rows of the tenant, in the order of their numbers.
def sealedInOrder : List (AuditLog δ) := Replay.ordered seqOf (rows.filter (isSealed tenantId))

def sealedRows (fromSeq : ℤ) (limit : ℕ) : List (AuditLog δ) :=
  ((sealedInOrder rows tenantId).filter fun row => fromSeq ≤ seqOf row).take limit

def headRow : Option (AuditLog δ) := (sealedInOrder rows tenantId).getLast?

def headOf : Option (AuditLog δ) → Head
  | none => NO_HEAD
  | some row => ⟨seqOf row, if hashOf row = "" then GENESIS else hashOf row, row.sealedAt⟩

def writtenBefore (a b : AuditLog δ) : Bool := a.createdAt < b.createdAt || (a.createdAt = b.createdAt && a.id ≤ b.id)

def unsealed : List (AuditLog δ) := rows.filter fun row => row.tenantId = tenantId && row.chainSeq.isNone

def unsealedRows (limit : ℕ) : List (AuditLog δ) := ((unsealed rows tenantId).insertionSort (writtenBefore · ·)).take limit

end Queries

section Sealing

variable {δ : Type} (platform : Platform δ)

-- `audit_log`, the anchors, and the heads that were logged when rows were sealed.
structure Store (δ : Type) where
  rows : List (AuditLog δ)
  anchors : String → Option Head
  logged : List (String × Head)

def emptyStore : Store δ := ⟨[], fun _ => none, []⟩

def sealRows (now : ℤ) : ℤ → String → List (AuditLog δ) → List (AuditLog δ)
  | _, _, [] => []
  | seq, prev, row :: rest =>
      { row with
        chainSeq := some (seq + 1)
        chainPrev := some prev
        chainHash := some (linkHash platform prev row)
        sealedAt := some now } :: sealRows now (seq + 1) (linkHash platform prev row) rest

-- The rows that were sealed stand in the place of what they were.
def updated (rows changed : List (AuditLog δ)) : List (AuditLog δ) :=
  rows.map fun row => (changed.find? fun other => other.id = row.id).getD row

def lastHead (now : ℤ) (head : Head) (changed : List (AuditLog δ)) : Head :=
  match changed.getLast? with
  | none => head
  | some row => ⟨seqOf row, hashOf row, some now⟩

def Store.seal (store : Store δ) (tenantId : String) (batch : ℕ) (now : ℤ) : Store δ :=
  let head := headOf (headRow store.rows tenantId)
  let changed := sealRows platform now head.seq head.hash (unsealedRows store.rows tenantId (max 1 batch))
  if changed.isEmpty then store
  else
    { rows := updated store.rows changed
      anchors := Function.update store.anchors tenantId (some (lastHead now head changed))
      logged := store.logged ++ [(tenantId, lastHead now head changed)] }

inductive StoreStep (δ : Type) where
  | insert (row : AuditLog δ)
  | sealing (tenantId : String) (batch : ℕ) (now : ℤ)

-- A row is written unsealed, under an id of its own.
def Store.step (store : Store δ) : StoreStep δ → Store δ
  | .insert row =>
      if row.id ∈ store.rows.map AuditLog.id then store
      else
        { store with
          rows := store.rows ++ [{ row with chainSeq := none, chainPrev := none, chainHash := none, sealedAt := none }] }
  | .sealing tenantId batch now => store.seal platform tenantId batch now

def Store.run (store : Store δ) (steps : List (StoreStep δ)) : Store δ := steps.foldl (Store.step platform) store

end Sealing

section Verifying

variable {δ : Type} (platform : Platform δ)

inductive BreakReason where
  | sequenceGap
  | previousLink
  | linkHash
  | signature
  | truncated
  | anchorMismatch
  deriving DecidableEq

structure Break where
  seq : ℤ
  rowId : Option String
  reason : BreakReason
  deriving DecidableEq

def checkRow (row : AuditLog δ) (expected : ℤ) (prev : String) : Option BreakReason :=
  if seqOf row ≠ expected then some .sequenceGap
  else if row.chainPrev.getD "" ≠ prev then some .previousLink
  else if hashOf row ≠ linkHash platform prev row then some .linkHash
  else if row.signature.any (· ≠ "") ∧ verifyAuditRow platform row = false then some .signature
  else none

-- How far a verification has come.
structure Progress where
  verified : ℕ
  unsigned : ℕ
  checkedTo : ℤ
  prev : String
  expected : ℤ
  deriving DecidableEq

def Progress.past (progress : Progress) (row : AuditLog δ) : Progress where
  verified := progress.verified + 1
  unsigned := if row.signature.any (· ≠ "") then progress.unsigned else progress.unsigned + 1
  checkedTo := seqOf row
  prev := hashOf row
  expected := seqOf row + 1

def walkRows (progress : Progress) : List (AuditLog δ) → Progress × Option Break
  | [] => (progress, none)
  | row :: rest =>
      match checkRow platform row progress.expected progress.prev with
      | some reason => (progress, some ⟨seqOf row, some row.id, reason⟩)
      | none => walkRows (progress.past row) rest

def PAGE : ℕ := 1000

def pageSize : Option ℕ → ℕ
  | none => PAGE
  | some remaining => min PAGE remaining

-- Page after page, each read from the store as it is by then; nothing while a page is still to be read.
def walkPages (tenantId : String) : List (Store δ) → Option ℕ → Progress → Option (Progress × Option Break)
  | [], remaining, progress => if remaining = some 0 then some (progress, none) else none
  | store :: later, remaining, progress =>
      if remaining = some 0 then some (progress, none)
      else
        let page := sealedRows store.rows tenantId progress.expected (pageSize remaining)
        if page.isEmpty then some (progress, none)
        else
          match walkRows platform progress page with
          | (after, some found) => some (after, some found)
          | (after, none) =>
              if page.length < pageSize remaining then some (after, none)
              else walkPages tenantId later (remaining.map (· - page.length)) after

def anchorBreak (rows : List (AuditLog δ)) (tenantId : String) (head anchor : Head) : Option Break :=
  if anchor.seq ≤ 0 then none
  else if head.seq < anchor.seq then some ⟨head.seq + 1, none, .truncated⟩
  else
    match (sealedRows rows tenantId anchor.seq 1).head? with
    | none => some ⟨anchor.seq, none, .sequenceGap⟩
    | some row =>
        if seqOf row ≠ anchor.seq then some ⟨anchor.seq, none, .sequenceGap⟩
        else if hashOf row ≠ anchor.hash then some ⟨anchor.seq, some row.id, .anchorMismatch⟩
        else none

-- What each statement of a verification finds committed when it runs.
structure Reads (δ : Type) where
  head : Store δ
  backlog : Store δ
  anchor : Store δ
  anchored : Store δ
  expected : Store δ
  before : Store δ
  pages : List (Store δ)

structure Verification where
  head : Head
  unsealed : ℕ
  checkedFrom : ℤ
  checkedTo : ℤ
  verified : ℕ
  unsigned : ℕ
  anchor : Option Head
  firstBreak : Option Break
  deriving DecidableEq

-- The stored anchor first, then the head the caller supplies.
def anchorsBreak (reads : Reads δ) (tenantId : String) (expected : Option Head) : Option Break :=
  let head := headOf (headRow reads.head.rows tenantId)
  ((reads.anchor.anchors tenantId).bind (anchorBreak reads.anchored.rows tenantId head)).or
    (expected.bind (anchorBreak reads.expected.rows tenantId head))

-- The link before the range, or the break that there is none.
def linkBefore (rows : List (AuditLog δ)) (tenantId : String) (start : ℤ) : Except Break String :=
  if 1 < start then
    match (sealedRows rows tenantId (start - 1) 1).head? with
    | none => .error ⟨start - 1, none, .sequenceGap⟩
    | some row => if seqOf row = start - 1 then .ok (hashOf row) else .error ⟨start - 1, none, .sequenceGap⟩
  else .ok GENESIS

-- Where a verification starts from.
def unwalked (start : ℤ) (prev : String) : Progress := ⟨0, 0, 0, prev, start⟩

def walkFrom (reads : Reads δ) (tenantId : String) (start : ℤ) (limit : Option ℕ) : Option (Progress × Option Break) :=
  match linkBefore reads.before.rows tenantId start with
  | .error found => some (unwalked start GENESIS, some found)
  | .ok prev => walkPages platform tenantId reads.pages limit (unwalked start prev)

def verifyStart (fromSeq : ℤ) : ℤ := max 1 fromSeq

-- Nothing while a read is still outstanding.
def verify (reads : Reads δ) (tenantId : String) (fromSeq : ℤ) (limit : Option ℕ) (expected : Option Head) :
    Option Verification :=
  let head := headOf (headRow reads.head.rows tenantId)
  let start := verifyStart fromSeq
  let report := fun (walked : Progress × Option Break) =>
    (⟨head, (unsealed reads.backlog.rows tenantId).length, start, walked.1.checkedTo, walked.1.verified,
      walked.1.unsigned, reads.anchor.anchors tenantId, walked.2⟩ : Verification)
  match anchorsBreak reads tenantId expected with
  | some found => some (report (unwalked start GENESIS, some found))
  | none =>
      if head.seq = 0 then some (report (unwalked start GENESIS, none))
      else (walkFrom platform reads tenantId start limit).map report

-- A verification that nothing is committed during: each page but the last brings a row.
def Store.snapshot (store : Store δ) : Reads δ where
  head := store
  backlog := store
  anchor := store
  anchored := store
  expected := store
  before := store
  pages := List.replicate (store.rows.length + 1) store

end Verifying

end AgenticOrg.Governance
