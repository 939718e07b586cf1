import AgenticOrg.Crypto.Rewrap

namespace AgenticOrg.Crypto

open JsonText Tables Fallible

section Storage

-- Everything of a row but its value.
def Row.place (row : Row) : String × ℕ × ℕ × Option ℕ := (row.label, row.id, row.tenant, row.company)

theorem Row.eq_of_place (row other : Row) (hp : row.place = other.place) (hr : row.raw = other.raw) :
    row = other := by
  cases row
  cases other
  simp only [Row.place, Prod.mk.injEq] at hp
  simp only [Row.mk.injEq]
  exact ⟨hp.1, hp.2.1, hp.2.2.1, hp.2.2.2, hr⟩

theorem Row.key_of_place (row other : Row) (hp : row.place = other.place) : Keyed.key row = Keyed.key other := by
  simp only [Row.place, Prod.mk.injEq] at hp
  exact Prod.ext hp.1 hp.2.1

def Placed (table : Table Row) (row : Row) : Prop := ∃ old ∈ table.rows, old.place = row.place

-- A value stored under a key is the value of the key's row, which stays where it is.
theorem mem_storeValue (table : Table Row) (key : String × ℕ) (raw : Raw) (row : Row)
    (hr : row ∈ (storeValue table key raw).rows) :
    ∃ old ∈ table.rows, old.place = row.place ∧
      ((Keyed.key row ≠ key ∧ row = old) ∨ (Keyed.key row = key ∧ row.raw = raw)) := by
  obtain ⟨old, hold, ⟨hk, rfl⟩ | ⟨hk, rfl⟩⟩ := table.mem_modify _ _ _ _ hr
  · exact ⟨row, hold, rfl, .inl ⟨hk, rfl⟩⟩
  · exact ⟨old, hold, rfl, .inr ⟨hk, rfl⟩⟩

theorem placed_storeValue (table : Table Row) (key : String × ℕ) (raw : Raw) (other : Row) (h : Placed table other) :
    Placed (storeValue table key raw) other := by
  obtain ⟨old, hold, hp⟩ := h
  by_cases hk : Keyed.key old = key
  · refine ⟨{ old with raw := raw }, ?_, hp⟩
    exact List.mem_map.mpr ⟨old, hold, if_pos hk⟩
  · exact ⟨old, table.mem_modify_of_ne _ _ _ old hold hk, hp⟩

theorem mem_storeRow (table : Table Row) (row other : Row) (hplaced : Placed table row)
    (ho : other ∈ (storeRow table row).rows) : other ∈ table.rows ∨ other = row := by
  obtain ⟨old, hold, hp⟩ := hplaced
  obtain ⟨before, hb, hpb, ⟨hk, rfl⟩ | ⟨hk, hraw⟩⟩ := mem_storeValue table _ _ _ ho
  · exact .inl hb
  · have hbefore : before = old := by
      refine table.eq_of_key before old hb hold ?_
      rw [Row.key_of_place old row hp, Row.key_of_place before other hpb]
      exact hk
    refine .inr (Row.eq_of_place _ _ ?_ hraw)
    rw [← hp, ← hbefore, hpb]

-- What holds of every row and of every row stored holds of the rows afterwards.
theorem storeRows_keeps (Good : Row → Prop) (written : List Row) (table : Table Row)
    (hrows : ∀ row ∈ table.rows, Good row) (hw : ∀ row ∈ written, Placed table row ∧ Good row) :
    ∀ row ∈ (written.foldl storeRow table).rows, Good row := by
  induction written generalizing table with
  | nil => exact hrows
  | cons first rest ih =>
      obtain ⟨⟨hplaced, hgood⟩, hrest⟩ := List.forall_mem_cons.mp hw
      refine ih (storeRow table first) (fun row hr => ?_) fun row hr => ?_
      · obtain hr | rfl := mem_storeRow table first row hplaced hr
        · exact hrows row hr
        · exact hgood
      · exact ⟨placed_storeValue table _ _ row (hrest row hr).1, (hrest row hr).2⟩

theorem placed_storeRows (written : List Row) (table : Table Row) (other : Row) (h : Placed table other) :
    Placed (written.foldl storeRow table) other := by
  induction written generalizing table with
  | nil => exact h
  | cons first rest ih => exact ih (storeRow table first) (placed_storeValue table _ _ other h)

end Storage

section Values

-- What is wrapped for a column is extracted from it again.
theorem extract_wrap (label : String) (ciphertext : Text) :
    extractCiphertext label (wrapCiphertextForColumn label ciphertext) = .ok (some ciphertext) := by
  rw [wrapCiphertextForColumn]
  by_cases hj : JSONB_ENCRYPTED_COLUMNS.contains label = true
  · have hb : ¬BYTEA_ENCRYPTED_COLUMNS.contains label = true := by
      intro hb
      rw [BYTEA_ENCRYPTED_COLUMNS, List.contains_iff_mem, List.mem_singleton] at hb
      rw [hb] at hj
      revert hj
      decide
    have hnull : (Raw.value (.obj [(ENCRYPTED_MEMBER, .str ciphertext)])).isNull = false := rfl
    rw [if_pos hj, extractCiphertext, hnull, if_neg Bool.false_ne_true, if_neg hb, if_pos hj]
    rfl
  · by_cases hb : BYTEA_ENCRYPTED_COLUMNS.contains label = true
    · have hnull : (Raw.bytes (some ciphertext)).isNull = false := rfl
      rw [if_neg hj, if_pos hb, extractCiphertext, hnull, if_neg Bool.false_ne_true, if_pos hb]
    · have hnull : (Raw.value (.str ciphertext)).isNull = false := rfl
      rw [if_neg hj, if_neg hb, Raw.str, extractCiphertext, hnull, if_neg Bool.false_ne_true, if_neg hb, if_neg hj]

variable {Key Nonce : Type} (vault : Vault Key Nonce) (flags : Flags)

theorem decryptForTenant_stamped (kid token : Text) :
    decryptForTenant vault (STAMP ++ kid ++ code '$' :: token) =
      decryptCredential vault.fernet vault.ring (STAMP ++ kid ++ code '$' :: token) := rfl

theorem readValue_wrap (label : String) (entry : Entry Key) (nonce : Nonce) (plaintext : Text) :
    readValue vault label (wrapCiphertextForColumn label (sealedUnder vault.fernet entry nonce plaintext)) =
      decryptCredential vault.fernet vault.ring (sealedUnder vault.fernet entry nonce plaintext) := by
  rw [readValue, extract_wrap]
  exact decryptForTenant_stamped vault _ _

-- A pending row has a ciphertext that is no envelope.
theorem of_isPending (row : Row) (h : isPending vault flags row = .ok true) :
    ∃ ciphertext, extractCiphertext row.label row.raw = .ok (some ciphertext) ∧
      ¬ENVELOPE_PREFIX.isPrefixOf ciphertext = true := by
  rw [isPending, bind_ok] at h
  obtain ⟨ciphertext, hct, h⟩ := h
  obtain ⟨kid, hkid, h⟩ := (bind_ok _ _ _).mp h
  have hany := Except.ok.inj h
  cases ciphertext with
  | none =>
      cases hkid
      cases hany
  | some ciphertext =>
      refine ⟨ciphertext, hct, fun henv => ?_⟩
      rw [stampKid] at hkid
      split at hkid
      · cases hkid
        cases hany
      · split at hkid
        · cases hkid
        · dsimp only at hkid
          split at hkid
          · cases hkid
          · rename_i hnot
            split at hkid
            · cases hkid
              cases hany
            · rename_i hne
              exact hnot ⟨henv, hne⟩

theorem mem_pendingRows (rows found : List Row) (h : pendingRows vault flags rows = .ok found) (row : Row)
    (hr : row ∈ found) : row ∈ rows ∧ isPending vault flags row = .ok true := by
  induction rows generalizing found with
  | nil =>
      cases h
      cases hr
  | cons first rest ih =>
      rw [pendingRows, bind_ok] at h
      obtain ⟨pending, hp, h⟩ := h
      obtain ⟨more, hm, h⟩ := (bind_ok _ _ _).mp h
      have hfound := Except.ok.inj h
      cases pending with
      | false =>
          rw [if_neg Bool.false_ne_true] at hfound
          obtain ⟨hrest, hpend⟩ := ih more hm (hfound ▸ hr)
          exact ⟨List.mem_cons_of_mem _ hrest, hpend⟩
      | true =>
          rw [if_pos rfl] at hfound
          rw [← hfound] at hr
          rcases List.mem_cons.mp hr with rfl | hr
          · exact ⟨List.mem_cons_self, hp⟩
          · obtain ⟨hrest, hpend⟩ := ih more hm hr
            exact ⟨List.mem_cons_of_mem _ hrest, hpend⟩

theorem mem_page (table : Table Row) (position : Position) (limit : ℕ) (after : Option ℕ) (row : Row)
    (hr : row ∈ page table position limit after) : row ∈ table.rows ∧ position.holds row = true := by
  have hmem := (Replay.mem_ordered _ _ _).mp (List.mem_of_mem_take hr)
  obtain ⟨hrow, htest⟩ := List.mem_filter.mp hmem
  rw [Bool.and_eq_true, Bool.and_eq_true] at htest
  exact ⟨hrow, htest.1.1⟩

-- The rows a page is worked through for are rows of the table, in scope and pending.
theorem mem_fetchRows (table : Table Row) (position : Position) (limit : ℕ) (after lastId : Option ℕ)
    (rows : List Row) (exhausted : Bool)
    (h : fetchRows vault flags table position limit after = .ok (rows, lastId, exhausted)) (row : Row)
    (hr : row ∈ rows) : row ∈ table.rows ∧ position.holds row = true ∧ isPending vault flags row = .ok true := by
  rw [fetchRows, map_ok] at h
  obtain ⟨found, hfound, he⟩ := h
  cases he
  obtain ⟨hpage, hpending⟩ := mem_pendingRows vault flags _ _ hfound row hr
  obtain ⟨hrow, hholds⟩ := mem_page table position limit after row hpage
  exact ⟨hrow, hholds, hpending⟩

theorem of_rewrapRow (nonce : Nonce) (row new : Row) (h : rewrapRow vault nonce row = .ok (some new)) :
    ∃ ciphertext plaintext newCiphertext, extractCiphertext row.label row.raw = .ok (some ciphertext) ∧
      decryptCredential vault.fernet vault.ring ciphertext = some plaintext ∧
      newCiphertext = encryptCredential vault.fernet vault.ring nonce plaintext ∧
      new = { row with raw := wrapCiphertextForColumn row.label newCiphertext } := by
  rw [rewrapRow, bind_ok] at h
  obtain ⟨found, hct, h⟩ := h
  cases found with
  | none => cases h
  | some ciphertext =>
      obtain ⟨kid, _, h⟩ := (bind_ok _ _ _).mp h
      split at h
      · cases h
      · rename_i plaintext hp
        cases h
        exact ⟨ciphertext, plaintext, _, hct, hp, rfl, rfl⟩

-- A rewrap reads back as what the row read as before it.
theorem readValue_rewrapRow (hd : code '$' ∉ vault.ring.active.id) (nonce : Nonce) (row new : Row)
    (hpending : isPending vault flags row = .ok true) (h : rewrapRow vault nonce row = .ok (some new)) :
    readValue vault new.label new.raw = readValue vault row.label row.raw := by
  obtain ⟨ciphertext, plaintext, newCiphertext, hct, hp, rfl, rfl⟩ := of_rewrapRow vault nonce row new h
  obtain ⟨found, hfound, henv⟩ := of_isPending vault flags row hpending
  rw [hct] at hfound
  cases hfound
  have hold : readValue vault row.label row.raw = some plaintext := by
    rw [readValue, hct]
    dsimp only
    rw [decryptForTenant, if_neg henv, hp]
  rw [hold]
  dsimp only
  rw [encryptCredential, readValue_wrap]
  exact decryptCredential_encryptCredential vault.fernet nonce plaintext vault.ring hd

end Values

section Steps

variable {Key Nonce : Type} (vault : Vault Key Nonce) (flags : Flags) (scopes : List TenantCompanyScope)

-- What a run carries along: rows read and rows written, of a scope of the plan.
structure Carried (Good : Row → Prop) (table : Table Row) (position : Position) (row : Row) : Prop where
  holds : position.holds row = true
  placed : Placed table row
  good : Good row

def Phase.remaining : Phase → List Position
  | .counting plan _ _ => plan
  | .writing plan _ => plan
  | .batch position plan _ _ _ _ _ => position :: plan
  | .done _ => []

def Phase.Carries (Good : Row → Prop) (table : Table Row) : Phase → Prop
  | .batch position _ _ read written _ _ =>
      (∀ row ∈ read, Carried Good table position row ∧ isPending vault flags row = .ok true) ∧
        ∀ row ∈ written, Carried Good table position row
  | _ => True

structure Phase.Sound (Good : Row → Prop) (table : Table Row) (phase : Phase) : Prop where
  planned : ∀ position ∈ phase.remaining, position ∈ runPlan flags scopes
  carries : phase.Carries vault flags Good table

variable (Good : Row → Prop) (table : Table Row)

theorem done_sound (exitCode : ℕ) : (Phase.done exitCode).Sound vault flags scopes Good table :=
  ⟨fun _ ho => absurd ho List.not_mem_nil, trivial⟩

theorem startRun_sound : (startRun flags scopes).Sound vault flags scopes Good table := by
  rw [startRun]
  split_ifs
  · exact done_sound vault flags scopes Good table 2
  · exact done_sound vault flags scopes Good table 2
  · exact ⟨fun _ ho => ho, trivial⟩

theorem updateRow_ok (position : Position) (row stored : Row) (h : updateRow table position row = .ok stored) :
    stored = row := by
  rw [updateRow] at h
  split at h
  · exact (Except.ok.inj h).symm
  · cases h

theorem carried_rewrapRow (position : Position) (nonce : Nonce) (row new : Row)
    (h : Carried Good table position row) (hnew : rewrapRow vault nonce row = .ok (some new)) (hgood : Good new) :
    Carried Good table position new := by
  obtain ⟨_, _, _, _, _, _, rfl⟩ := of_rewrapRow vault nonce row new hnew
  exact ⟨h.holds, h.placed, hgood⟩

variable (locked : String × ℕ → Bool) (nonce : Nonce)

-- A phase in which no batch is open.
def Phase.Between : Phase → Prop
  | .batch _ _ _ _ _ _ _ => False
  | _ => True

theorem advance_between (position : Position) (plan : List Position) (after lastId : Option ℕ) (exhausted : Bool) :
    (advance position plan after lastId exhausted).Between ∧
      ∀ other ∈ (advance position plan after lastId exhausted).remaining, other ∈ position :: plan := by
  rw [advance]
  split_ifs
  · exact ⟨trivial, fun other ho => List.mem_cons_of_mem _ ho⟩
  · exact ⟨trivial, fun other ho => absurd ho List.not_mem_nil⟩
  · exact ⟨trivial, fun other ho => ho⟩

-- All that one statement of a run can do.
inductive RewrapMove : Phase → Phase → Table Row → Prop
  | between (phase phase' : Phase) (hbetween : phase'.Between)
      (hplan : ∀ position ∈ phase'.remaining, position ∈ phase.remaining ∨ position ∈ runPlan flags scopes) :
      RewrapMove phase phase' table
  | fetch (position : Position) (plan : List Position) (after lastId : Option ℕ) (rows : List Row) (exhausted : Bool)
      (hfetch : fetchRows vault flags table position flags.batchSize.toNat after = .ok (rows, lastId, exhausted)) :
      RewrapMove (.writing (position :: plan) after) (.batch position plan after rows [] lastId exhausted) table
  | skip (position : Position) (plan : List Position) (after lastId : Option ℕ) (row : Row) (read written : List Row)
      (exhausted : Bool) :
      RewrapMove (.batch position plan after (row :: read) written lastId exhausted)
        (.batch position plan after read written lastId exhausted) table
  | write (position : Position) (plan : List Position) (after lastId : Option ℕ) (row new : Row)
      (read written : List Row) (exhausted : Bool) (hnew : rewrapRow vault nonce row = .ok (some new))
      (hfree : ¬locked (row.label, row.id) = true) :
      RewrapMove (.batch position plan after (row :: read) written lastId exhausted)
        (.batch position plan after read (written ++ [new]) lastId exhausted) table
  | commit (position : Position) (plan : List Position) (after lastId : Option ℕ) (written : List Row)
      (exhausted : Bool) :
      RewrapMove (.batch position plan after [] written lastId exhausted)
        (advance position plan after lastId exhausted) (written.foldl storeRow table)

theorem rewrapStep_moves (phase phase' : Phase) (table' : Table Row)
    (hstep : rewrapStep vault flags scopes table locked nonce phase = some (phase', table')) :
    RewrapMove vault flags scopes table locked nonce phase phase' table' := by
  have hdone (phase : Phase) (exitCode : ℕ) :
      RewrapMove vault flags scopes table locked nonce phase (.done exitCode) table :=
    .between _ _ trivial fun _ ho => absurd ho List.not_mem_nil
  cases phase with
  | done exitCode => cases hstep
  | counting plan after pending =>
      cases plan with
      | nil =>
          cases hstep
          split_ifs
          · exact hdone _ 0
          · exact .between _ _ trivial fun _ ho => .inr ho
      | cons position plan =>
          rw [rewrapStep] at hstep
          split at hstep
          · cases hstep
            exact hdone _ 1
          · cases hstep
            split_ifs
            · exact .between _ _ trivial fun _ ho => .inl (List.mem_cons_of_mem _ ho)
            · exact hdone _ 1
            · exact .between _ _ trivial fun _ ho => .inl ho
  | writing plan after =>
      cases plan with
      | nil =>
          cases hstep
          exact hdone _ 0
      | cons position plan =>
          rw [rewrapStep] at hstep
          split at hstep
          · cases hstep
            exact hdone _ 1
          · rename_i hfetch
            cases hstep
            exact .fetch _ _ _ _ _ _ hfetch
  | batch position plan after read written lastId exhausted =>
      cases read with
      | nil =>
          cases hstep
          exact .commit _ _ _ _ _ _
      | cons row read =>
          rw [rewrapStep] at hstep
          split at hstep
          · cases hstep
            exact hdone _ 1
          · cases hstep
            exact .skip _ _ _ _ _ _ _ _
          · rename_i new hnew
            split at hstep
            · cases hstep
              exact hdone _ 1
            · rename_i stored hupdate
              split at hstep
              · cases hstep
              · rename_i hfree
                cases hstep
                rw [updateRow_ok table position new stored hupdate]
                exact .write _ _ _ _ _ _ _ _ _ hnew hfree

theorem Phase.Between.carries (phase : Phase) (h : phase.Between) : phase.Carries vault flags Good table := by
  cases phase with
  | batch => exact h.elim
  | counting => trivial
  | writing => trivial
  | done => trivial

variable {table locked nonce}

-- One statement of a run keeps what every rewrap of a row keeps.
theorem RewrapMove.keeps {phase phase' : Phase} {table' : Table Row}
    (hmove : RewrapMove vault flags scopes table locked nonce phase phase' table')
    (hrewrap : ∀ position ∈ runPlan flags scopes, ∀ row new, Carried Good table position row →
      isPending vault flags row = .ok true → rewrapRow vault nonce row = .ok (some new) → Good new)
    (hgood : ∀ row ∈ table.rows, Good row) (hsound : phase.Sound vault flags scopes Good table) :
    (∀ row ∈ table'.rows, Good row) ∧ phase'.Sound vault flags scopes Good table' := by
  obtain ⟨hplan, hcarry⟩ := hsound
  cases hmove with
  | between _ _ hbetween hnext =>
      exact ⟨hgood, fun position hp => (hnext position hp).elim (hplan position) id,
        hbetween.carries vault flags Good table⟩
  | fetch position plan after lastId rows exhausted hfetch =>
      refine ⟨hgood, hplan, fun row hr => ?_, fun row hr => absurd hr List.not_mem_nil⟩
      obtain ⟨hrow, hholds, hpending⟩ := mem_fetchRows vault flags _ _ _ _ _ _ _ hfetch row hr
      exact ⟨⟨hholds, ⟨row, hrow, rfl⟩, hgood row hrow⟩, hpending⟩
  | skip position plan after lastId row read written exhausted =>
      exact ⟨hgood, hplan, fun other ho => hcarry.1 other (List.mem_cons_of_mem _ ho), hcarry.2⟩
  | write position plan after lastId row new read written exhausted hnew hfree =>
      obtain ⟨⟨hcarried, hpending⟩, hread⟩ := List.forall_mem_cons.mp hcarry.1
      refine ⟨hgood, hplan, hread, fun other ho => ?_⟩
      rcases List.mem_append.mp ho with ho | ho
      · exact hcarry.2 other ho
      · rw [List.mem_singleton.mp ho]
        exact carried_rewrapRow vault Good table position nonce row new hcarried hnew
          (hrewrap position (hplan position List.mem_cons_self) row new hcarried hpending hnew)
  | commit position plan after lastId written exhausted =>
      obtain ⟨hbetween, hnext⟩ := advance_between position plan after lastId exhausted
      refine ⟨?_, fun other ho => hplan other (hnext other ho), hbetween.carries vault flags Good _⟩
      exact storeRows_keeps Good written table hgood fun row hr =>
        ⟨(hcarry.2 row hr).placed, (hcarry.2 row hr).good⟩

-- No row leaves the table.
theorem RewrapMove.placed {phase phase' : Phase} {table' : Table Row}
    (hmove : RewrapMove vault flags scopes table locked nonce phase phase' table') (row : Row)
    (h : Placed table row) : Placed table' row := by
  cases hmove with
  | between => exact h
  | fetch => exact h
  | skip => exact h
  | write => exact h
  | commit position plan after lastId written exhausted => exact placed_storeRows written table row h

end Steps

end AgenticOrg.Crypto
