import AgenticOrg.Crypto.Rewrap.Concurrent

namespace AgenticOrg.Crypto

open JsonText Tables

section Content

def isRegistered (label : String) : Bool := SCANNERS.any fun scanner => scanner.label = label

-- How a column that is not registered is read: what its own reader takes out of a value.
variable (others : String → Raw → Option Text)

-- The ciphertext the application reads in a column.
def ciphertextOf (label : String) (raw : Raw) : Option Text :=
  if isRegistered label then
    match extractCiphertext label raw with
    | .ok ciphertext => ciphertext
    | .error _ => none
  else others label raw

-- A value that keeps a ciphertext the way the column's writers do.
def Keeps (label : String) (raw : Raw) (ciphertext : Text) : Prop :=
  if isRegistered label then raw = wrapCiphertextForColumn label ciphertext
  else others label raw = some ciphertext

variable {Key Nonce : Type} (fernet : Fernet Key Nonce)

-- What is stored: a plaintext sealed by the vault, or something that is none of the vault's.
def Stored (ring : Keyring Key) (label : String) (raw : Raw) : Option (Nonce × Text) → Prop
  | some (nonce, plaintext) => Keeps others label raw (encryptCredential fernet ring nonce plaintext)
  | none => True

-- Every database the application comes to, writing under a keyring that only ever grows.
inductive Produced : Keyring Key → Table Row → (String × ℕ → Option Text) → Prop
  | empty (entry : Entry Key) (hd : code '$' ∉ entry.id) : Produced ⟨entry, []⟩ .empty fun _ => none
  | rotate (ring : Keyring Key) (table : Table Row) (said : String × ℕ → Option Text) (entry : Entry Key)
      (h : Produced ring table said) (hd : code '$' ∉ entry.id) (hnew : ∀ old ∈ ring.entries, old.id ≠ entry.id) :
      Produced (ring.extend entry) table said
  | insert (ring : Keyring Key) (table table' : Table Row) (said : String × ℕ → Option Text) (row : Row)
      (content : Option (Nonce × Text)) (h : Produced ring table said)
      (hstored : Stored others fernet ring row.label row.raw content) (htable : table.insert? row = some table') :
      Produced ring table' (Function.update said (row.label, row.id) (content.map (·.2)))
  | replace (ring : Keyring Key) (table : Table Row) (said : String × ℕ → Option Text) (label : String) (id : ℕ)
      (raw : Raw) (content : Option (Nonce × Text)) (h : Produced ring table said)
      (hstored : Stored others fernet ring label raw content) :
      Produced ring (storeValue table (label, id) raw) (Function.update said (label, id) (content.map (·.2)))
  | delete (ring : Keyring Key) (table : Table Row) (said : String × ℕ → Option Text) (keep : Row → Bool)
      (h : Produced ring table said) : Produced ring (table.filter keep) said

-- A row that holds a secret of the application under an entry.
def SealedUnder (said : String × ℕ → Option Text) (row : Row) (entry : Entry Key) : Prop :=
  ∃ nonce plaintext, said (row.label, row.id) = some plaintext ∧
    Keeps others row.label row.raw (sealedUnder fernet entry nonce plaintext)

-- The row's secret is what the vault opens it to.
def Readable (ring : Keyring Key) (said : String × ℕ → Option Text) (row : Row) : Prop :=
  ∀ plaintext, said (row.label, row.id) = some plaintext →
    (ciphertextOf others row.label row.raw).bind (decryptCredential fernet ring) = some plaintext

-- A row that the scans come by: of a registered column, and of a tenant and company that are found.
def Scanned (scopes : List TenantCompanyScope) (row : Row) : Prop :=
  ∃ position ∈ scopePlan SCANNERS scopes, position.holds row = true

end Content

section Provenance

variable {others : String → Raw → Option Text} {Key Nonce : Type} {fernet : Fernet Key Nonce}

theorem ciphertextOf_keeps (label : String) (raw : Raw) (ciphertext : Text) (h : Keeps others label raw ciphertext) :
    ciphertextOf others label raw = some ciphertext := by
  rw [ciphertextOf]
  rw [Keeps] at h
  split_ifs at h ⊢
  · rw [h, extract_wrap]
  · exact h

structure Keyring.Lawful (ring : Keyring Key) : Prop where
  distinct : (ring.entries.map (·.id)).Nodup
  plain : ∀ entry ∈ ring.entries, code '$' ∉ entry.id

theorem Keyring.Lawful.eq_of_id (ring : Keyring Key) (h : ring.Lawful) (entry found : Entry Key)
    (he : entry ∈ ring.entries) (hf : found ∈ ring.entries) (hid : found.id = entry.id) : found = entry :=
  List.inj_on_of_nodup_map h.distinct hf he hid

-- Every secret is under an entry of the ring.
structure Provenance (others : String → Raw → Option Text) (fernet : Fernet Key Nonce) (ring : Keyring Key)
    (said : String × ℕ → Option Text) (row : Row) : Prop where
  of_said : ∀ plaintext, said (row.label, row.id) = some plaintext →
    ∃ entry ∈ ring.entries, ∃ nonce, Keeps others row.label row.raw (sealedUnder fernet entry nonce plaintext)

theorem Stored.provenance (ring : Keyring Key) (said : String × ℕ → Option Text) (row : Row)
    (content : Option (Nonce × Text)) (h : Stored others fernet ring row.label row.raw content) :
    Provenance others fernet ring (Function.update said (row.label, row.id) (content.map (·.2))) row where
  of_said plaintext hs := by
    rw [Function.update_self, Option.map_eq_some_iff] at hs
    obtain ⟨⟨nonce, written⟩, rfl, rfl⟩ := hs
    exact ⟨ring.active, List.mem_cons_self, nonce, h⟩

theorem Provenance.update_of_ne (ring : Keyring Key) (said : String × ℕ → Option Text) (row : Row) (key : String × ℕ)
    (content : Option Text) (h : Provenance others fernet ring said row) (hk : (row.label, row.id) ≠ key) :
    Provenance others fernet ring (Function.update said key content) row where
  of_said plaintext hs := by
    rw [Function.update_of_ne hk] at hs
    exact h.of_said plaintext hs

theorem Produced.invariant {ring : Keyring Key} {table : Table Row} {said : String × ℕ → Option Text}
    (h : Produced others fernet ring table said) :
    ring.Lawful ∧ ∀ row ∈ table.rows, Provenance others fernet ring said row := by
  induction h with
  | empty entry hd =>
      refine ⟨⟨List.nodup_singleton _, fun found hf => ?_⟩, fun row hr => absurd hr List.not_mem_nil⟩
      rw [List.mem_singleton.mp hf]
      exact hd
  | rotate ring table said entry h hd hnew ih =>
      obtain ⟨⟨hdistinct, hplain⟩, hrows⟩ := ih
      refine ⟨⟨List.nodup_cons.mpr ⟨fun hm => ?_, hdistinct⟩, List.forall_mem_cons.mpr ⟨hd, hplain⟩⟩,
        fun row hr => ⟨fun plaintext hs => ?_⟩⟩
      · obtain ⟨old, hold, hid⟩ := List.mem_map.mp hm
        exact hnew old hold hid
      · obtain ⟨found, hfound, nonce, hkeeps⟩ := (hrows row hr).of_said plaintext hs
        exact ⟨found, List.mem_cons_of_mem _ hfound, nonce, hkeeps⟩
  | insert ring table table' said row content h hstored htable ih =>
      refine ⟨ih.1, fun other ho => ?_⟩
      obtain ⟨hrows, hfresh⟩ := Table.rows_insert? table table' row htable
      rw [hrows] at ho
      rcases List.mem_append.mp ho with ho | ho
      · exact (ih.2 other ho).update_of_ne _ _ _ _ _ (hfresh other ho)
      · rw [List.mem_singleton.mp ho]
        exact hstored.provenance ring said row content
  | replace ring table said label id raw content h hstored ih =>
      refine ⟨ih.1, fun row hr => ?_⟩
      obtain ⟨old, hold, _, ⟨hk, rfl⟩ | ⟨hk, hraw⟩⟩ := mem_storeValue table _ _ row hr
      · exact (ih.2 row hold).update_of_ne _ _ _ _ _ hk
      · obtain ⟨rfl, rfl⟩ := Prod.mk.inj hk
        rw [← hraw] at hstored
        exact hstored.provenance ring said row content
  | delete ring table said keep h ih =>
      exact ⟨ih.1, fun row hr => ih.2 row (List.mem_of_mem_filter hr)⟩

end Provenance

section Alone

variable {Key Nonce : Type} (vault : Vault Key Nonce) (flags : Flags) (scopes : List TenantCompanyScope)

-- A run that nothing comes between keeps what every rewrap of a row keeps, and every row.
theorem alone_keeps (Good : Row → Prop)
    (hrewrap : ∀ (table : Table Row) (nonce : Nonce), ∀ position ∈ runPlan flags scopes, ∀ row new,
      Carried Good table position row → isPending vault flags row = .ok true →
      rewrapRow vault nonce row = .ok (some new) → Good new)
    (nonces : List Nonce) (s s' : State) (hrun : run vault flags scopes s (nonces.map .rewrap) = some s')
    (hgood : ∀ row ∈ s.table.rows, Good row) (hsound : s.phase.Sound vault flags scopes Good s.table) :
    s'.said = s.said ∧ (∀ row ∈ s'.table.rows, Good row) ∧ ∀ row, Placed s.table row → Placed s'.table row := by
  induction nonces generalizing s with
  | nil =>
      cases hrun
      exact ⟨rfl, hgood, fun _ hp => hp⟩
  | cons nonce rest ih =>
      rw [run, List.map_cons, List.foldlM_cons] at hrun
      obtain ⟨next, hnext, hrest⟩ := Option.bind_eq_some_iff.mp hrun
      rw [step, Option.map_eq_some_iff] at hnext
      obtain ⟨⟨phase', table'⟩, hstep, rfl⟩ := hnext
      have hmove := rewrapStep_moves vault flags scopes s.table s.locked nonce s.phase phase' table' hstep
      obtain ⟨hgood', hsound'⟩ := hmove.keeps vault flags scopes Good (hrewrap s.table nonce) hgood hsound
      obtain ⟨hsaid, hrows, hplaced⟩ := ih _ hrest hgood' hsound'
      exact ⟨hsaid, hrows, fun row hp => hplaced row (hmove.placed vault flags scopes row hp)⟩

end Alone

section Retirement

theorem holds_of_place (position : Position) (row other : Row) (hp : row.place = other.place) :
    position.holds row = position.holds other := by
  simp only [Row.place, Prod.mk.injEq] at hp
  rw [Position.holds, Position.holds, hp.1, hp.2.2.1, hp.2.2.2]

theorem mem_runPlan (flags : Flags) (scopes : List TenantCompanyScope) (position : Position)
    (h : position ∈ runPlan flags scopes) : position ∈ scopePlan SCANNERS scopes := by
  obtain ⟨scanner, hs, hp⟩ := List.mem_flatMap.mp h
  exact List.mem_flatMap.mpr ⟨scanner, List.mem_of_mem_filter hs, hp⟩

theorem isRegistered_of_holds (scopes : List TenantCompanyScope) (position : Position)
    (h : position ∈ scopePlan SCANNERS scopes) (row : Row) (hrow : position.holds row = true) :
    isRegistered row.label = true := by
  obtain ⟨scanner, hs, hp⟩ := List.mem_flatMap.mp h
  obtain ⟨scope, _, rfl⟩ := List.mem_map.mp hp
  rw [Position.holds, Bool.and_eq_true, Bool.and_eq_true, decide_eq_true_eq] at hrow
  exact List.any_eq_true.mpr ⟨scanner, hs, decide_eq_true hrow.1.1.symm⟩

-- The reference of a sealed value in a registered column is the id of its entry.
theorem parse_wrap {Key Nonce : Type} (fernet : Fernet Key Nonce) (label : String) (entry : Entry Key) (nonce : Nonce)
    (plaintext : Text) (hd : code '$' ∉ entry.id) :
    parseEncryptedContainer (wrapCiphertextForColumn label (sealedUnder fernet entry nonce plaintext)) =
      .ok (some ⟨.vault, entry.id⟩) := by
  have hopened := opened_stamped entry.id (fernet.encrypt entry.key nonce plaintext) entry.named hd
  rw [wrapCiphertextForColumn]
  split_ifs
  · exact hopened
  · rw [parseEncryptedContainer, sealedUnder, unwrapped_stamped]
    exact hopened
  · rw [Raw.str, parseEncryptedContainer, sealedUnder, unwrapped_stamped]
    exact hopened

variable {others : String → Raw → Option Text} {Key Nonce : Type} (vault : Vault Key Nonce) (flags : Flags)
  (scopes : List TenantCompanyScope)

-- What a run that nothing comes between leaves of each row.
structure Rewrapped (others : String → Raw → Option Text) (table : Table Row) (said : String × ℕ → Option Text)
    (row : Row) : Prop where
  origin : ∃ old ∈ table.rows, old.place = row.place ∧ (¬Scanned scopes old → row.raw = old.raw)
  provenance : Provenance others vault.fernet vault.ring said row

theorem decrypt_own (hlawful : vault.ring.Lawful) (entry : Entry Key) (he : entry ∈ vault.ring.entries) (nonce : Nonce)
    (plaintext : Text) :
    decryptCredential vault.fernet vault.ring (sealedUnder vault.fernet entry nonce plaintext) = some plaintext := by
  refine decryptCredential_sealedUnder vault.fernet entry nonce plaintext vault.ring (hlawful.plain entry he) ?_
    ⟨entry, he, rfl⟩
  intro found hf hid
  rw [hlawful.eq_of_id vault.ring entry found he hf hid]

theorem Rewrapped.rewrapRow (hlawful : vault.ring.Lawful) (table : Table Row) (said : String × ℕ → Option Text)
    (current : Table Row) (nonce : Nonce) (position : Position) (hp : position ∈ runPlan flags scopes) (row new : Row)
    (h : Carried (Rewrapped vault scopes others table said) current position row)
    (hnew : rewrapRow vault nonce row = .ok (some new)) : Rewrapped vault scopes others table said new := by
  obtain ⟨ciphertext, plaintext, newCiphertext, hct, hdecrypt, rfl, rfl⟩ := of_rewrapRow vault nonce row new hnew
  have hplan := mem_runPlan flags scopes position hp
  have hregistered := isRegistered_of_holds scopes position hplan row h.holds
  obtain ⟨⟨old, hold, hplace, _⟩, hprovenance⟩ := h.good
  refine ⟨⟨old, hold, hplace, fun hnot => ?_⟩, ⟨fun secret hs => ?_⟩⟩
  · exact absurd ⟨position, hplan, (holds_of_place position old row hplace).trans h.holds⟩ hnot
  · obtain ⟨entry, he, used, hkeeps⟩ := hprovenance.of_said secret hs
    rw [Keeps, if_pos hregistered] at hkeeps
    rw [hkeeps, extract_wrap] at hct
    cases hct
    rw [decrypt_own vault hlawful entry he] at hdecrypt
    cases hdecrypt
    refine ⟨vault.ring.active, List.mem_cons_self, nonce, ?_⟩
    rw [Keeps, if_pos hregistered]
    rfl

theorem mem_without (ring : Keyring Key) (kid : Text) (entry : Entry Key) (h : entry ∈ (ring.without kid).entries) :
    entry ∈ ring.entries := by
  rcases List.mem_cons.mp h with rfl | h
  · exact List.mem_cons_self
  · exact List.mem_cons_of_mem _ (List.mem_of_mem_filter h)

-- Without the entry of an id, what the other entries sealed is opened as before.
theorem decrypt_without (ring : Keyring Key) (hlawful : ring.Lawful) (retired entry : Entry Key)
    (he : entry ∈ ring.entries) (nonce : Nonce) (plaintext : Text)
    (h : ∃ found ∈ (ring.without retired.id).entries, found.key = entry.key) :
    decryptCredential vault.fernet (ring.without retired.id) (sealedUnder vault.fernet entry nonce plaintext) =
      some plaintext := by
  refine decryptCredential_sealedUnder vault.fernet entry nonce plaintext _ (hlawful.plain entry he) ?_ h
  intro found hf hid
  rw [hlawful.eq_of_id ring entry found he (mem_without ring retired.id found hf) hid]

theorem mem_without_of_ne (ring : Keyring Key) (retired entry : Entry Key) (he : entry ∈ ring.entries)
    (hne : entry.id ≠ retired.id) : entry ∈ (ring.without retired.id).entries := by
  rcases List.mem_cons.mp he with rfl | he
  · exact List.mem_cons_self
  · exact List.mem_cons_of_mem _ (List.mem_filter.mpr ⟨he, decide_eq_true hne⟩)

-- After a rewrap that nothing came between, with a check that calls a retired id unreferenced, every secret
-- stays readable without the id's entry if and only if each row under it is one the scans come by,
-- or another entry has the same key.
theorem retirement_exact (table : Table Row) (said : String × ℕ → Option Text)
    (hproduced : Produced others vault.fernet vault.ring table said) (retired : Entry Key)
    (hretired : retired ∈ vault.ring.others) (nonces : List Nonce) (s' : State)
    (hrun : run vault flags scopes ⟨table, said, [], startRun flags scopes⟩ (nonces.map .rewrap) = some s')
    (hcheck : assertKeyUnreferenced s'.table scopes retired.id = .ok ()) :
    (∀ row ∈ s'.table.rows, Readable others vault.fernet (vault.ring.without retired.id) s'.said row) ↔
      ∀ row ∈ table.rows, SealedUnder others vault.fernet said row retired →
        Scanned scopes row ∨ ∃ entry ∈ (vault.ring.without retired.id).entries, entry.key = retired.key := by
  obtain ⟨hlawful, hrows⟩ := hproduced.invariant
  have hentry : retired ∈ vault.ring.entries := List.mem_cons_of_mem _ hretired
  obtain ⟨hsaid, hdone, hplaced⟩ := alone_keeps vault flags scopes (Rewrapped vault scopes others table said)
    (fun current nonce position hp row new hc _ hnew =>
      Rewrapped.rewrapRow vault flags scopes hlawful table said current nonce position hp row new hc hnew)
    nonces _ s' hrun (fun row hr => ⟨⟨row, hr, rfl, fun _ => rfl⟩, hrows row hr⟩)
    (startRun_sound vault flags scopes _ table)
  constructor
  · intro hread row hr hsealed
    by_contra hnot
    push Not at hnot
    obtain ⟨hunscanned, hforeign⟩ := hnot
    obtain ⟨nonce, plaintext, hs, hkeeps⟩ := hsealed
    obtain ⟨left, hleft, hplace⟩ := hplaced row ⟨row, hr, rfl⟩
    obtain ⟨⟨old, hold, hsame, hkept⟩, _⟩ := hdone left hleft
    have hrow : old = row := by
      refine table.eq_of_key old row hold hr ?_
      exact (Row.key_of_place old left hsame).trans (Row.key_of_place left row hplace)
    rw [hrow] at hkept
    have heq : left = row := Row.eq_of_place left row hplace (hkept hunscanned)
    rw [heq] at hleft
    have hopen := hread row hleft plaintext (hsaid ▸ hs)
    rw [ciphertextOf_keeps _ _ _ hkeeps, Option.bind_some,
      decryptCredential_foreign vault.fernet retired nonce plaintext _ (hlawful.plain retired hentry) hforeign] at hopen
    cases hopen
  · intro hcovered row hr plaintext hs
    rw [hsaid] at hs
    obtain ⟨⟨old, hold, hsame, hkept⟩, hprovenance⟩ := hdone row hr
    obtain ⟨entry, he, nonce, hkeeps⟩ := hprovenance.of_said plaintext hs
    rw [ciphertextOf_keeps _ _ _ hkeeps, Option.bind_some]
    refine decrypt_without vault vault.ring hlawful retired entry he nonce plaintext ?_
    by_cases hid : entry.id = retired.id
    · have hsameEntry := hlawful.eq_of_id vault.ring retired entry hentry he hid
      subst hsameEntry
      -- the check saw no such row, so this one is where no scan looks, and as it was before the run
      have hunscanned : ¬Scanned scopes old := by
        rintro ⟨position, hposition, hholds⟩
        have hrow : position.holds row = true := (holds_of_place position old row hsame) ▸ hholds
        have hregistered := isRegistered_of_holds scopes position hposition row hrow
        rw [Keeps, if_pos hregistered] at hkeeps
        refine not_referenced s'.table scopes entry.id hcheck position hposition row hr hrow ⟨.vault, entry.id⟩ ?_ rfl
        rw [hkeeps]
        exact parse_wrap vault.fernet row.label entry nonce plaintext (hlawful.plain entry he)
      have heq : old = row := Row.eq_of_place old row hsame (hkept hunscanned).symm
      rw [heq] at hunscanned hold
      exact (hcovered row hold ⟨nonce, plaintext, hs, hkeeps⟩).resolve_left hunscanned
    · exact ⟨entry, mem_without_of_ne vault.ring retired entry he hid, rfl⟩

end Retirement

section Example

def allFlags : Flags := ⟨none, none, 100, false⟩

def oneTenant : List TenantCompanyScope := discoverTenantCompanyScopes [1] fun _ => [7]

def SIGNING_KEYS : String := "case_push_endpoints.signing_keys_encrypted"

-- `decrypt_keys`
def storedKeys (raw : Raw) : Option Text :=
  match raw with
  | .value json => (memberText? json).filter (· ≠ [])
  | .bytes _ => none

def pushReader (label : String) (raw : Raw) : Option Text := if label = SIGNING_KEYS then storedKeys raw else none

-- `_encrypt_keys`
def pushRow (plaintext : Text) : Row where
  label := SIGNING_KEYS
  id := 1
  tenant := 1
  company := none
  raw := .value (.obj [(ENCRYPTED_MEMBER, .str (sealedUnder letterFernet firstEntry () plaintext))])

def connectorRow (plaintext : Text) : Row := ⟨CONNECTORS, 1, 1, some 7, connectorValue firstEntry plaintext⟩

-- One secret, written under the first key before the second came.
def secretState (row : Row) (plaintext : Text) : State where
  table := ⟨[row], List.nodup_singleton _⟩
  said := Function.update (fun _ => none) (row.label, row.id) (some plaintext)
  held := []
  phase := startRun allFlags oneTenant

theorem secretState_produced (row : Row) (plaintext : Text)
    (h : Keeps pushReader row.label row.raw (sealedUnder letterFernet firstEntry () plaintext)) :
    Produced pushReader letterFernet rotatedVault.ring (secretState row plaintext).table
      (secretState row plaintext).said := by
  have hfirst : Produced pushReader letterFernet ⟨firstEntry, []⟩ .empty fun _ => none := .empty firstEntry (by decide)
  have hinsert := Produced.insert _ _ (secretState row plaintext).table _ row (some ((), plaintext)) hfirst h rfl
  exact Produced.rotate _ _ _ secondEntry hinsert (by decide) (by decide)

theorem keeps_connectorRow (plaintext : Text) :
    Keeps pushReader (connectorRow plaintext).label (connectorRow plaintext).raw
      (sealedUnder letterFernet firstEntry () plaintext) := by
  have hregistered : isRegistered CONNECTORS = true := by decide
  rw [connectorRow, Keeps, if_pos hregistered]
  rfl

theorem keeps_pushRow (plaintext : Text) :
    Keeps pushReader (pushRow plaintext).label (pushRow plaintext).raw
      (sealedUnder letterFernet firstEntry () plaintext) := by
  have hregistered : ¬isRegistered SIGNING_KEYS = true := by decide
  rw [pushRow, Keeps, if_neg hregistered]
  rfl

-- How a run ended, whether the check calls the first key unreferenced, and each row's secret beside
-- what it reads as without that key.
structure Retired where
  exitCode : Option ℕ
  unreferenced : Bool
  secrets : List (Option Text × Option Text)
  deriving DecidableEq

def State.retired (s : State) : Retired where
  exitCode := s.phase.exitCode?
  unreferenced := (assertKeyUnreferenced s.table oneTenant firstEntry.id).toBool
  secrets := s.table.rows.map fun row => (s.said (row.label, row.id),
    (ciphertextOf pushReader row.label row.raw).bind
      (decryptCredential letterFernet (rotatedVault.ring.without firstEntry.id)))

theorem ok_of_toBool (check : Except RetirementError Unit) (h : check.toBool = true) : check = .ok () := by
  cases check with
  | error => cases h
  | ok => rfl

-- A connector's secret outlives the key it was written under.
theorem retirement_exact_connector : ∃ s' : State, s'.phase.exitCode? = some 0 ∧ s'.table.rows.length = 1 ∧
    ∀ row ∈ s'.table.rows, Readable pushReader letterFernet (rotatedVault.ring.without firstEntry.id) s'.said row := by
  have hrun : (run rotatedVault allFlags oneTenant (secretState (connectorRow (text "token")) (text "token"))
      ((List.replicate 45 ()).map .rewrap)).map State.retired =
      some ⟨some 0, true, [(some (text "token"), some (text "token"))]⟩ := by decide +kernel
  obtain ⟨s', hs', hfinal⟩ := Option.map_eq_some_iff.mp hrun
  have hcheck := ok_of_toBool _ (congrArg Retired.unreferenced hfinal)
  have hlength : s'.table.rows.length = 1 := by simpa [State.retired] using congrArg (·.secrets.length) hfinal
  refine ⟨s', congrArg Retired.exitCode hfinal, hlength, ?_⟩
  refine (retirement_exact rotatedVault allFlags oneTenant _ _ (secretState_produced _ _ (keeps_connectorRow _)) firstEntry
    List.mem_cons_self _ s' hs' hcheck).mpr ?_
  intro row hr _
  have hrow : row = connectorRow (text "token") := List.mem_singleton.mp hr
  refine .inl ⟨⟨⟨CONNECTORS, true⟩, ⟨1, some 7⟩⟩, by decide, ?_⟩
  rw [hrow]
  decide

-- A push endpoint's signing keys do not: the run ends well, the check passes, and the keys are lost.
theorem signing_keys_lost : Produced pushReader letterFernet rotatedVault.ring
      (secretState (pushRow (text "keys")) (text "keys")).table (secretState (pushRow (text "keys")) (text "keys")).said ∧
    ∃ s' : State, run rotatedVault allFlags oneTenant (secretState (pushRow (text "keys")) (text "keys"))
      ((List.replicate 15 ()).map .rewrap) = some s' ∧
    s'.phase.exitCode? = some 0 ∧ assertKeyUnreferenced s'.table oneTenant firstEntry.id = .ok () ∧
    s'.retired.secrets = [(some (text "keys"), none)] := by
  have hrun : (run rotatedVault allFlags oneTenant (secretState (pushRow (text "keys")) (text "keys"))
      ((List.replicate 15 ()).map .rewrap)).map State.retired =
      some ⟨some 0, true, [(some (text "keys"), none)]⟩ := by decide +kernel
  obtain ⟨s', hs', hfinal⟩ := Option.map_eq_some_iff.mp hrun
  exact ⟨secretState_produced _ _ (keeps_pushRow _), s', hs', congrArg Retired.exitCode hfinal,
    ok_of_toBool _ (congrArg Retired.unreferenced hfinal), congrArg Retired.secrets hfinal⟩

end Example

end AgenticOrg.Crypto
