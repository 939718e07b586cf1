import AgenticOrg.Lib.Replay
import AgenticOrg.Crypto.Verify

namespace AgenticOrg.Crypto

open JsonText Tables

section Columns

inductive RowError where
  | malformedEnvelope
  | notBytes
  | notUtf8
  | decryptFailed (label : String) (id : ℕ)
  | notExactlyOneRow (label : String) (id : ℕ)
  deriving DecidableEq

def JSONB_ENCRYPTED_COLUMNS : List String :=
  ["connector_configs.credentials_encrypted", "tenant_ai_credentials.credentials_encrypted",
    "voice_calls.transcript_encrypted", "case_pseudonym_maps.mapping_encrypted",
    "speech_recordings.transcript_encrypted", "speech_recordings.summary_encrypted",
    "speech_live_sessions.turns_encrypted", "personalisation_profiles.attributes"]

def BYTEA_ENCRYPTED_COLUMNS : List String := ["speech_recordings.content"]

def ENCRYPTED_MEMBER : Text := text "_encrypted"

-- The ciphertext of a container's member, when it is a text.
def memberText? (json : Json) : Option Text :=
  match json.get? ENCRYPTED_MEMBER with
  | some (.str ciphertext) => some ciphertext
  | _ => none

def extractCiphertext (label : String) (raw : Raw) : Except RowError (Option Text) :=
  if raw.isNull then .ok none
  else if BYTEA_ENCRYPTED_COLUMNS.contains label then
    match raw with
    | .bytes (some ciphertext) => .ok (some ciphertext)
    | .bytes none => .error .notUtf8
    | .value _ => .error .notBytes
  else if JSONB_ENCRYPTED_COLUMNS.contains label then
    match raw with
    | .value (.str t) =>
        match loads t with
        | none => .ok (some t)
        | some json => .ok (memberText? json)
    | .value json => .ok (memberText? json)
    | .bytes _ => .ok none
  else
    match raw with
    | .value (.str t) => .ok (some t)
    | _ => .ok none

def wrapCiphertextForColumn (label : String) (ciphertext : Text) : Raw :=
  if JSONB_ENCRYPTED_COLUMNS.contains label then .value (.obj [(ENCRYPTED_MEMBER, .str ciphertext)])
  else if BYTEA_ENCRYPTED_COLUMNS.contains label then .bytes (some ciphertext)
  else .str ciphertext

-- The key a ciphertext is stamped with; none for an envelope, which the vault does not rotate.
def stampKid : Option Text → Except RowError (Option Text)
  | none => .ok none
  | some ciphertext =>
      if strip ciphertext = [] then .ok none
      else
        match parseEncryptedContainer (.str ciphertext) with
        | .error _ => .error .malformedEnvelope
        | .ok keyRef =>
            let isEnvelope := keyRef.any (·.kind = .envelope)
            if ENVELOPE_PREFIX.isPrefixOf ciphertext ∧ ¬isEnvelope then .error .malformedEnvelope
            else if isEnvelope then .ok none
            else .ok (some (((prefixMatch ciphertext).map (·.1)).getD (text "legacy")))

end Columns

section Run

-- The keyring with its Fernet, and what a KMS makes of an envelope.
structure Vault (Key Nonce : Type) where
  fernet : Fernet Key Nonce
  ring : Keyring Key
  decryptFromString : Text → Option Text

structure Flags where
  onlyColumn : Option String
  onlyKid : Option Text
  batchSize : ℤ
  dryRun : Bool

inductive Phase where
  | counting (plan : List Position) (after : Option ℕ) (pending : ℕ)
  | writing (plan : List Position) (after : Option ℕ)
  | batch (position : Position) (plan : List Position) (after : Option ℕ) (read written : List Row)
      (lastId : Option ℕ) (exhausted : Bool)
  | done (exitCode : ℕ)

variable {Key Nonce : Type} (vault : Vault Key Nonce) (flags : Flags)

def decryptForTenant (ciphertext : Text) : Option Text :=
  if ENVELOPE_PREFIX.isPrefixOf ciphertext then vault.decryptFromString (ciphertext.drop ENVELOPE_PREFIX.length)
  else decryptCredential vault.fernet vault.ring ciphertext

-- What the application reads from a value of a registered column.
def readValue (label : String) (raw : Raw) : Option Text :=
  match extractCiphertext label raw with
  | .ok (some ciphertext) => decryptForTenant vault ciphertext
  | _ => none

def isPending (row : Row) : Except RowError Bool := do
  let ciphertext ← extractCiphertext row.label row.raw
  let kid ← stampKid ciphertext
  .ok (kid.any fun kid => flags.onlyKid.all (· = kid) && kid ≠ vault.ring.active.id)

def pendingRows : List Row → Except RowError (List Row)
  | [] => .ok []
  | row :: rest => do
      let pending ← isPending vault flags row
      let more ← pendingRows rest
      .ok (if pending then row :: more else more)

-- `SELECT ... ORDER BY id LIMIT`: the page after an id.
def page (table : Table Row) (position : Position) (limit : ℕ) (after : Option ℕ) : List Row :=
  (Replay.ordered Row.id (table.rows.filter fun row =>
    position.holds row && !row.raw.isNull && after.all (· < row.id))).take limit

def fetchRows (table : Table Row) (position : Position) (limit : ℕ) (after : Option ℕ) :
    Except RowError (List Row × Option ℕ × Bool) :=
  let rawRows := page table position limit after
  (pendingRows vault flags rawRows).map fun rows =>
    (rows, (rawRows.getLast?.map Row.id).or after, rawRows.length < limit)

-- The row with its ciphertext made anew, or nothing when there is no ciphertext in it.
def rewrapRow (nonce : Nonce) (row : Row) : Except RowError (Option Row) := do
  match ← extractCiphertext row.label row.raw with
  | none => .ok none
  | some ciphertext =>
      let _ ← stampKid (some ciphertext)
      match decryptCredential vault.fernet vault.ring ciphertext with
      | none => .error (.decryptFailed row.label row.id)
      | some plaintext =>
          let newCiphertext := encryptCredential vault.fernet vault.ring nonce plaintext
          .ok (some { row with raw := wrapCiphertextForColumn row.label newCiphertext })

-- `UPDATE ... WHERE id = :id` within the scope has to meet one row.
def updateRow (table : Table Row) (position : Position) (row : Row) : Except RowError Row :=
  if (table.rows.filter fun other => position.holds other && other.id = row.id).length = 1 then .ok row
  else .error (.notExactlyOneRow row.label row.id)

def storeValue (table : Table Row) (key : String × ℕ) (raw : Raw) : Table Row :=
  table.modify key (fun old => { old with raw := raw }) fun _ => rfl

def storeRow (table : Table Row) (row : Row) : Table Row := storeValue table (row.label, row.id) row.raw

-- After a page: the next one, or the next scope.
def advance (position : Position) (plan : List Position) (after lastId : Option ℕ) (exhausted : Bool) : Phase :=
  if exhausted then .writing plan none
  else if lastId = none ∨ lastId = after then .done 1
  else .writing (position :: plan) lastId

def COUNT_PAGE_SIZE : ℕ := 1000

def runColumns : List Scanner := SCANNERS.filter fun scanner => flags.onlyColumn.all (· = scanner.label)

def runPlan (scopes : List TenantCompanyScope) : List Position := scopePlan (runColumns flags) scopes

def startRun (scopes : List TenantCompanyScope) : Phase :=
  if flags.onlyColumn.isSome ∧ runColumns flags = [] then .done 2
  else if flags.batchSize < 1 then .done 2
  else .counting (runPlan flags scopes) none 0

-- The next statement of a run. An update waits while the row is locked.
def rewrapStep (scopes : List TenantCompanyScope) (table : Table Row) (locked : String × ℕ → Bool) (nonce : Nonce) :
    Phase → Option (Phase × Table Row)
  | .counting [] _ pending =>
      some (if flags.dryRun ∨ pending = 0 then .done 0 else .writing (runPlan flags scopes) none, table)
  | .counting (position :: plan) after pending =>
      match fetchRows vault flags table position COUNT_PAGE_SIZE after with
      | .error _ => some (.done 1, table)
      | .ok (rows, lastId, exhausted) =>
          some (if exhausted then .counting plan none (pending + rows.length)
            else if lastId = none ∨ lastId = after then .done 1
            else .counting (position :: plan) lastId (pending + rows.length), table)
  | .writing [] _ => some (.done 0, table)
  | .writing (position :: plan) after =>
      match fetchRows vault flags table position flags.batchSize.toNat after with
      | .error _ => some (.done 1, table)
      | .ok (rows, lastId, exhausted) => some (.batch position plan after rows [] lastId exhausted, table)
  | .batch position plan after [] written lastId exhausted =>
      some (advance position plan after lastId exhausted, written.foldl storeRow table)
  | .batch position plan after (row :: read) written lastId exhausted =>
      match rewrapRow vault nonce row with
      | .error _ => some (.done 1, table)
      | .ok none => some (.batch position plan after read written lastId exhausted, table)
      | .ok (some new) =>
          match updateRow table position new with
          | .error _ => some (.done 1, table)
          | .ok new =>
              if locked (row.label, row.id) then none
              else some (.batch position plan after read (written ++ [new]) lastId exhausted, table)
  | .done _ => none

end Run

end AgenticOrg.Crypto
