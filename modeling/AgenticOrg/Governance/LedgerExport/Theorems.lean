import AgenticOrg.Governance.AuditChain.Interleaved
import AgenticOrg.Governance.LedgerExport
import AgenticOrg.Lib.Lists

namespace AgenticOrg.Governance

open JsonText HashChains

section Rows

variable {δ : Type} (platform : Platform δ)

-- Columns in canonical form stay as they are.
theorem offlineColumns_exportRow (row : AuditLog δ) :
    offlineColumns (exportRow platform row) = signedColumns platform row := by
  have hdetails : detailsValue (detailsValue row.details) = detailsValue row.details := by
    cases row.details with
    | null => rfl
    | obj members => rfl
    | _ => rfl
  rw [offlineColumns, exportRow, hdetails, signedColumns]

theorem offlinePayload_exportRow (row : AuditLog δ) :
    offlinePayload platform (exportRow platform row) = canonicalAuditPayload platform row := by
  rw [offlinePayload, offlineColumns_exportRow, canonicalAuditPayload]

theorem offlineLinkHash_exportRow (prev : String) (row : AuditLog δ) :
    offlineLinkHash platform prev (exportRow platform row) = linkHash platform prev row := by
  rw [offlineLinkHash, offlinePayload_exportRow, linkHash, linkMaterial]
  rfl

theorem signedUnder_exportRow (row : AuditLog δ) :
    signedUnder platform platform.hmac (exportRow platform row) = verifyAuditRow platform row := by
  rw [signedUnder, offlinePayload_exportRow, verifyAuditRow]
  rfl

-- What the holder of the audit secret asks of a row.
def Verifies (secret : Option (Text → String)) (row : AuditLog δ) : Prop :=
  ∀ hmac ∈ secret, signedUnder platform hmac (exportRow platform row) = true

theorem checkExported_none (secret : Option (Text → String)) (walk : OfflineWalk) (row : AuditLog δ) (hprev : walk.prev ≠ "") :
    checkExported platform secret walk (exportRow platform row) = none ↔
      seqOf row = walk.expected ∧ row.chainPrev.getD "" = walk.prev ∧ hashOf row = linkHash platform walk.prev row ∧
        Verifies platform secret row := by
  have hread : ∀ (column : Option String) (value : String), value ≠ "" → (column = some value ↔ column.getD "" = value) := by
    intro column value hv
    cases column with
    | none => exact ⟨fun h => absurd h (Option.some_ne_none _).symm, fun h => absurd h.symm hv⟩
    | some column => exact Option.some_inj
  have hsecret : (secret.any fun hmac => !signedUnder platform hmac (exportRow platform row)) = true ↔
      ¬Verifies platform secret row := by
    cases secret with
    | none => exact ⟨fun h => absurd h Bool.false_ne_true, fun h => absurd (fun _ hm => absurd hm (Option.not_mem_none _)) h⟩
    | some hmac =>
        rw [Option.any_some, Bool.not_eq_true', ← Bool.not_eq_true]
        exact not_congr ⟨fun h other ho => Option.mem_some_iff.mp ho ▸ h, fun h => h hmac rfl⟩
  rw [checkExported, offlineLinkHash_exportRow]
  rw [← hread row.chainPrev walk.prev hprev, hashOf, ← hread row.chainHash _ (linkHash_ne platform walk.prev row)]
  have hcolumns : (exportRow platform row).chainSeq = seqOf row ∧ (exportRow platform row).chainPrev = row.chainPrev ∧
      (exportRow platform row).chainHash = row.chainHash := ⟨rfl, rfl, rfl⟩
  rw [hcolumns.1, hcolumns.2.1, hcolumns.2.2]
  split_ifs with hseq hlink hhash hsig
  · exact ⟨fun h => h.elim, fun h => absurd h.1 hseq⟩
  · exact ⟨fun h => h.elim, fun h => absurd h.2.1 hlink⟩
  · exact ⟨fun h => h.elim, fun h => absurd h.2.2.1 hhash⟩
  · exact ⟨fun h => h.elim, fun h => absurd h.2.2.2 (hsecret.mp hsig)⟩
  · have hverifies := not_not.mp (mt hsecret.mpr hsig)
    exact ⟨fun _ => ⟨not_not.mp hseq, not_not.mp hlink, not_not.mp hhash, hverifies⟩, fun _ => rfl⟩

-- By induction on the rows: an export of a chain is walked to its end, and nothing else is.
theorem walkExported_none (secret : Option (Text → String)) (rows : List (AuditLog δ)) (walk : OfflineWalk)
    (hprev : walk.prev ≠ "") :
    (walkExported platform secret walk (rows.map (exportRow platform))).2 = none ↔
      Chained platform walk.expected walk.prev rows ∧ ∀ row ∈ rows, Verifies platform secret row := by
  induction rows generalizing walk with
  | nil => exact ⟨fun _ => ⟨trivial, fun _ hr => absurd hr List.not_mem_nil⟩, fun _ => rfl⟩
  | cons row rest ih =>
      have hlinked : Chained platform walk.expected walk.prev (row :: rest) ↔
          seqOf row = walk.expected ∧ row.chainPrev.getD "" = walk.prev ∧ hashOf row = linkHash platform walk.prev row ∧
            Chained platform (walk.expected + 1) (hashOf row) rest := Iff.rfl
      rw [List.map_cons, walkExported, hlinked, List.forall_mem_cons]
      have hcheck := checkExported_none platform secret walk row hprev
      cases hfound : checkExported platform secret walk (exportRow platform row) with
      | some found =>
          refine ⟨fun h => absurd h (Option.some_ne_none _), fun h => ?_⟩
          rw [hcheck.mpr ⟨h.1.1, h.1.2.1, h.1.2.2.1, h.2.1⟩] at hfound
          cases hfound
      | none =>
          obtain ⟨hseq, hlink, hhash, hsigned⟩ := hcheck.mp hfound
          have hrest := ih (walk.past platform (exportRow platform row))
            (by rw [OfflineWalk.past, offlineLinkHash_exportRow]; exact linkHash_ne platform _ row)
          have hnext : (walk.past platform (exportRow platform row)).expected = walk.expected + 1 ∧
              (walk.past platform (exportRow platform row)).prev = hashOf row := by
            refine ⟨congrArg (· + 1) hseq, ?_⟩
            rw [OfflineWalk.past, offlineLinkHash_exportRow, hhash]
          rw [hnext.1, hnext.2] at hrest
          exact hrest.trans ⟨fun h => ⟨⟨hseq, hlink, hhash, h.1⟩, hsigned, h.2⟩, fun h => ⟨h.1.2.2.2, h.2.2⟩⟩

def linksIn (rows : List (AuditLog δ)) : List (ℤ × String) := rows.map fun row => (seqOf row, hashOf row)

theorem walkExported_after (secret : Option (Text → String)) (rows : List (AuditLog δ)) (walk : OfflineWalk)
    (hprev : walk.prev ≠ "") (h : (walkExported platform secret walk (rows.map (exportRow platform))).2 = none) :
    (walkExported platform secret walk (rows.map (exportRow platform))).1.expected = walk.expected + rows.length ∧
      (walkExported platform secret walk (rows.map (exportRow platform))).1.bySeq = walk.bySeq ++ linksIn rows := by
  induction rows generalizing walk with
  | nil => exact ⟨(add_zero _).symm, (List.append_nil _).symm⟩
  | cons row rest ih =>
      rw [List.map_cons, walkExported] at h ⊢
      cases hfound : checkExported platform secret walk (exportRow platform row) with
      | some found =>
          rw [hfound] at h
          exact absurd h (Option.some_ne_none _)
      | none =>
          rw [hfound] at h
          obtain ⟨hseq, _, hhash, _⟩ := (checkExported_none platform secret walk row hprev).mp hfound
          obtain ⟨hexpected, hlinks⟩ := ih (walk.past platform (exportRow platform row))
            (by rw [OfflineWalk.past, offlineLinkHash_exportRow]; exact linkHash_ne platform _ row) h
          refine ⟨hexpected.trans ?_, hlinks.trans ?_⟩
          · have hnext : (walk.past platform (exportRow platform row)).expected = walk.expected + 1 := congrArg (· + 1) hseq
            rw [hnext, List.length_cons]
            push_cast
            omega
          · rw [OfflineWalk.past, offlineLinkHash_exportRow, ← hhash, List.append_assoc]
            rfl

end Rows

section Anchors

variable {δ : Type} {platform : Platform δ}

theorem checkAnchors_none (fromSeq lastSeq headSeq : ℤ) (bySeq anchors : List (ℤ × String)) (checked : ℕ) :
    (checkAnchors fromSeq lastSeq headSeq bySeq anchors checked).1 = none ↔
      ∀ anchor ∈ anchors, anchor.1 ≤ headSeq ∧
        (fromSeq ≤ anchor.1 → anchor.1 ≤ lastSeq → bySeq.lookup anchor.1 = some anchor.2) := by
  induction anchors generalizing checked with
  | nil => exact ⟨fun _ _ ha => absurd ha List.not_mem_nil, fun _ => rfl⟩
  | cons anchor rest ih =>
      obtain ⟨seq, hash⟩ := anchor
      rw [checkAnchors, List.forall_mem_cons]
      split_ifs with hahead hout hlink
      · exact ⟨fun h => h.elim, fun h => absurd hahead (not_lt.mpr h.1.1)⟩
      · rw [ih]
        refine ⟨fun h => ⟨⟨not_lt.mp hahead, fun hfrom hlast => ?_⟩, h⟩, fun h => h.2⟩
        dsimp only at hfrom hlast
        omega
      · rw [not_or, not_lt, not_lt] at hout
        exact ⟨fun h => h.elim, fun h => absurd (h.1.2 hout.1 hout.2) hlink⟩
      · rw [ih]
        exact ⟨fun h => ⟨⟨not_lt.mp hahead, fun _ _ => not_not.mp hlink⟩, h⟩, fun h => h.2⟩

-- The link at a number of a chain is found by it.
theorem lookup_links (seq : ℤ) (prev : String) (rows : List (AuditLog δ)) (h : Chained platform seq prev rows)
    (number : ℤ) (hash : String) :
    (linksIn rows).lookup number = some hash ↔ ∃ row ∈ rows, seqOf row = number ∧ hashOf row = hash := by
  have hnodup : ((linksIn rows).map (·.1)).Nodup := by
    rw [linksIn, List.map_map, List.Nodup, List.pairwise_map]
    exact (chained_ascending platform seq prev rows h).imp fun hlt => hlt.ne
  constructor
  · intro hlookup
    obtain ⟨front, rest, hsplit, _⟩ := List.lookup_eq_some_iff.mp hlookup
    have hmem : (number, hash) ∈ linksIn rows := hsplit ▸ List.mem_append_right _ List.mem_cons_self
    obtain ⟨row, hr, heq⟩ := List.mem_map.mp hmem
    exact ⟨row, hr, congrArg Prod.fst heq, congrArg Prod.snd heq⟩
  · rintro ⟨row, hr, rfl, rfl⟩
    exact Lists.lookup_of_mem _ _ _ hnodup (List.mem_map_of_mem hr)

theorem chained_last (seq : ℤ) (prev : String) (rows : List (AuditLog δ)) (h : Chained platform seq prev rows) :
    ((rows.map (exportRow platform)).getLast?.map ExportedRow.chainSeq).getD (seq - 1) = seq + rows.length - 1 := by
  rcases List.eq_nil_or_concat rows with rfl | ⟨init, row, rfl⟩
  · rw [List.length_nil]
    exact (by omega : seq - 1 = seq + ((0 : ℕ) : ℤ) - 1)
  · rw [List.concat_eq_append] at *
    obtain ⟨_, hrow, _⟩ := (chained_append platform seq prev init [row]).mp h
    have hnumber : seqOf row = seq + init.length := hrow
    rw [List.map_append, List.map_singleton, List.getLast?_append, List.getLast?_singleton, Option.some_or, Option.map_some,
      Option.getD_some, List.length_append, List.length_singleton]
    change seqOf row = _
    push_cast
    omega

end Anchors

section Bundles

variable {δ : Type} (platform : Platform δ)

-- What the keys of an export ask of a witness.
def Countersigned (grantex : Grantex) (tenantId : String) (witness : WitnessView) : Prop :=
  ∀ jwks ∈ grantex.jwks, witnessProblem jwks grantex.issuer witness tenantId = none

theorem checkWitnesses_none (bundle : LedgerExport δ) (witnesses : List WitnessView) (verified : ℕ) :
    (checkWitnesses bundle witnesses verified).1 = none ↔
      ∀ witness ∈ witnesses, Countersigned bundle.grantex bundle.tenantId witness := by
  induction witnesses generalizing verified with
  | nil => exact ⟨fun _ _ hw => absurd hw List.not_mem_nil, fun _ => rfl⟩
  | cons witness rest ih =>
      rw [checkWitnesses, List.forall_mem_cons]
      cases hkeys : bundle.grantex.jwks with
      | none =>
          have hfree : Countersigned bundle.grantex bundle.tenantId witness := fun jwks hj => by
            rw [hkeys] at hj
            cases hj
          exact (ih verified).trans ⟨fun h => ⟨hfree, h⟩, fun h => h.2⟩
      | some jwks =>
          have hone : Countersigned bundle.grantex bundle.tenantId witness ↔
              witnessProblem jwks bundle.grantex.issuer witness bundle.tenantId = none := by
            unfold Countersigned
            rw [hkeys]
            exact ⟨fun h => h jwks rfl, fun h other ho => Option.mem_some_iff.mp ho ▸ h⟩
          dsimp only
          rw [hone]
          split_ifs with hproblem
          · exact ⟨fun h => h.elim, fun h => absurd (Option.isSome_iff_ne_none.mp hproblem) (not_not.mpr h.1)⟩
          · have hnone := Option.not_isSome_iff_eq_none.mp hproblem
            exact (ih (verified + 1)).trans ⟨fun h => ⟨hnone, h⟩, fun h => h.2⟩

-- A bundle verifies when its rows are a chain from the link before them, carry their signatures, hold every anchor that
-- falls among them, and its witnesses are countersigned.
theorem verifyBundle_none (bundle : LedgerExport δ) (rows : List (AuditLog δ)) (prev : String)
    (expectedHead : Option (ℤ × String)) (secret : Option (Text → String))
    (hformat : bundle.format = EXPORT_FORMAT) (hversion : bundle.version = CHAIN_VERSION)
    (hstart : startLink bundle = some prev) (hprev : prev ≠ "") (hrows : bundle.rows = rows.map (exportRow platform))
    (hto : bundle.toSeq = (bundle.rows.getLast?.map ExportedRow.chainSeq).getD (bundle.fromSeq - 1)) :
    (verifyBundle platform bundle expectedHead secret).firstBreak = none ↔
      (Chained platform bundle.fromSeq prev rows ∧ ∀ row ∈ rows, Verifies platform secret row) ∧
        (∀ witness ∈ witnessedHeads bundle, Countersigned bundle.grantex bundle.tenantId witness) ∧
        bundle.fromSeq + rows.length - 1 ≤ bundle.head.seq ∧
        ∀ anchor ∈ anchorsOf bundle expectedHead (bundle.fromSeq + rows.length - 1), anchor.1 ≤ bundle.head.seq ∧
          (bundle.fromSeq ≤ anchor.1 → anchor.1 ≤ bundle.fromSeq + rows.length - 1 →
            ∃ row ∈ rows, seqOf row = anchor.1 ∧ hashOf row = anchor.2) := by
  have hknown : ¬(bundle.format ≠ EXPORT_FORMAT ∨ bundle.version ≠ CHAIN_VERSION) :=
    not_or.mpr ⟨not_not.mpr hformat, not_not.mpr hversion⟩
  have hwalk := walkExported_none platform secret rows ⟨bundle.fromSeq, prev, []⟩ hprev
  have hafter := walkExported_after platform secret rows ⟨bundle.fromSeq, prev, []⟩ hprev
  rw [verifyBundle, if_neg hknown, hstart, hrows]
  dsimp only
  cases hresult : walkExported platform secret ⟨bundle.fromSeq, prev, []⟩ (rows.map (exportRow platform)) with
  | mk walk found =>
      rw [hresult] at hwalk hafter
      cases found with
      | some found =>
          exact ⟨fun h => absurd h (Option.some_ne_none _), fun h => absurd (hwalk.mpr h.1) (Option.some_ne_none _)⟩
      | none =>
          obtain ⟨hchain, hsigned⟩ := hwalk.mp rfl
          obtain ⟨hexpected, hlinks⟩ := hafter rfl
          have hlast : walk.expected - 1 = bundle.fromSeq + rows.length - 1 := congrArg (· - 1) hexpected
          have hbySeq : walk.bySeq = linksIn rows := hlinks
          have hreached : bundle.toSeq = bundle.fromSeq + rows.length - 1 := by
            rw [hto, hrows]
            exact chained_last bundle.fromSeq prev rows hchain
          dsimp only
          rw [verifyAnchors, hlast, hbySeq, if_neg (not_not.mpr hreached)]
          have hwitnesses := checkWitnesses_none bundle (witnessedHeads bundle) 0
          cases hsigners : checkWitnesses bundle (witnessedHeads bundle) 0 with
          | mk problem verified =>
              rw [hsigners] at hwitnesses
              cases problem with
              | some problem =>
                  exact ⟨fun h => absurd h (Option.some_ne_none _),
                    fun h => absurd (hwitnesses.mpr h.2.1) (Option.some_ne_none _)⟩
              | none =>
                  have hcountersigned := hwitnesses.mp rfl
                  dsimp only
                  split_ifs with hpast
                  · exact ⟨fun h => h.elim, fun h => absurd hpast (not_lt.mpr h.2.2.1)⟩
                  · dsimp only
                    rw [checkAnchors_none]
                    simp only [lookup_links bundle.fromSeq prev rows hchain]
                    exact ⟨fun h => ⟨⟨hchain, hsigned⟩, hcountersigned, not_lt.mp hpast, h⟩, fun h => h.2.2.2⟩

-- An export is checked against the stored anchor, the witnessed heads, the head the caller supplies and its own head.
theorem forall_anchorsOf (bundle : LedgerExport δ) (expected : Option Head) (lastSeq : ℤ) (P : ℤ × String → Prop) :
    (∀ anchor ∈ anchorsOf bundle (expected.map linkOf) lastSeq, P anchor) ↔
      (∀ anchor, bundle.anchor = some anchor → 0 < anchor.seq → P (linkOf anchor)) ∧
        (∀ witness ∈ witnessedHeads bundle, P (witness.headSeq, witness.headHash)) ∧
          (∀ head, expected = some head → P (linkOf head)) ∧
            (lastSeq = bundle.head.seq → bundle.fromSeq ≤ bundle.head.seq → P (linkOf bundle.head)) := by
  rw [anchorsOf, List.append_assoc, List.append_assoc, List.forall_mem_append, List.forall_mem_append,
    List.forall_mem_append, List.forall_mem_map]
  refine and_congr ⟨fun h anchor ha hpos => ?_, fun h link hl => ?_⟩ (and_congr Iff.rfl
    (and_congr ⟨fun h head he => ?_, fun h link hl => ?_⟩ ?_))
  · refine h _ (Option.mem_toList.mpr (Option.mem_map_of_mem linkOf ?_))
    exact Option.mem_filter_iff.mpr ⟨ha, decide_eq_true hpos⟩
  · obtain ⟨anchor, ha, rfl⟩ := Option.mem_map.mp (Option.mem_toList.mp hl)
    obtain ⟨hstored, hpos⟩ := Option.mem_filter_iff.mp ha
    exact h anchor hstored (of_decide_eq_true hpos)
  · exact h _ (Option.mem_toList.mpr (Option.mem_map_of_mem linkOf he))
  · obtain ⟨head, he, rfl⟩ := Option.mem_map.mp (Option.mem_toList.mp hl)
    exact h head he
  · split_ifs with hwhole
    · rw [List.forall_mem_singleton]
      exact ⟨fun h _ _ => h, fun h => h hwhole.1 hwhole.2⟩
    · exact ⟨fun _ hlast hfrom => absurd ⟨hlast, hfrom⟩ hwhole, fun _ _ hl => absurd hl List.not_mem_nil⟩

theorem verifies_audit (row : AuditLog δ) :
    Verifies platform (some platform.hmac) row ↔ Signed platform row ∧ row.signature.any (· ≠ "") = true := by
  have hverify : Verifies platform (some platform.hmac) row ↔ verifyAuditRow platform row = true := by
    rw [← signedUnder_exportRow]
    exact ⟨fun h => h platform.hmac rfl, fun h hmac hm => Option.mem_some_iff.mp hm ▸ h⟩
  rw [hverify]
  refine ⟨fun h => ⟨fun _ => h, ?_⟩, fun h => h.1 h.2⟩
  rw [verifyAuditRow] at h
  cases hsignature : row.signature with
  | none =>
      rw [hsignature] at h
      exact absurd h Bool.false_ne_true
  | some stored =>
      rw [hsignature] at h
      exact (Bool.and_eq_true_iff.mp h).1

-- Of rows that are signed as the platform signs, the holder of the secret only asks for the signature.
theorem verifies_signed (rows : List (AuditLog δ)) (hsigned : ∀ row ∈ rows, Signed platform row)
    (secret : Option (Text → String)) (hsecret : ∀ hmac ∈ secret, hmac = platform.hmac) :
    (∀ row ∈ rows, Verifies platform secret row) ↔
      (secret.isSome = true → ∀ row ∈ rows, row.signature.any (· ≠ "") = true) := by
  cases secret with
  | none => exact ⟨fun _ h => absurd h Bool.false_ne_true, fun _ _ _ _ hm => absurd hm (Option.not_mem_none _)⟩
  | some hmac =>
      obtain rfl := hsecret hmac rfl
      simp only [verifies_audit]
      exact ⟨fun h _ row hr => (h row hr).2, fun h row hr => ⟨hsigned row hr, h rfl row hr⟩⟩

end Bundles

section Checkpoints

theorem mem_listCheckpoints (rows : List WitnessCheckpoint) (tenantId : String) (limit : ℕ) (row : WitnessCheckpoint)
    (h : row ∈ listCheckpoints rows tenantId limit) : row ∈ rows ∧ row.tenantId = tenantId := by
  rw [listCheckpoints] at h
  have hmem := List.mem_mergeSort.mp (List.mem_of_mem_take h)
  exact (List.mem_filter.mp hmem).imp id of_decide_eq_true

-- The witnessed heads of an export are those of the checkpoints it lists.
theorem forall_witnessedHeads {δ : Type} (platform : Platform δ) (reads : ExportReads δ) (tenantId : String) (fromSeq : ℤ)
    (toSeq : Option ℤ) (grantex : Grantex) (P : WitnessView → Prop) :
    (∀ witness ∈ witnessedHeads (buildExportBundle platform reads tenantId fromSeq toSeq grantex), P witness) ↔
      ∀ row ∈ listCheckpoints reads.witnesses.checkpoints tenantId 1000, row.status = .witnessed → P (witnessView row) := by
  constructor
  · intro h row hr hstatus
    exact h _ (List.mem_filter.mpr ⟨List.mem_map_of_mem hr, decide_eq_true hstatus⟩)
  · intro h witness hw
    obtain ⟨hview, hstatus⟩ := List.mem_filter.mp hw
    obtain ⟨row, hr, rfl⟩ := List.mem_map.mp hview
    exact h row hr (of_decide_eq_true hstatus)

-- An empty issuer asks for none.
theorem countersigned_issuer (grantex : Grantex) (tenantId : String) (witness : WitnessView) :
    Countersigned { grantex with issuer := grantex.issuer.filter (· ≠ "") } tenantId witness ↔
      Countersigned grantex tenantId witness := by
  have hany : ∀ claims : WitnessClaims,
      ((grantex.issuer.filter (· ≠ "")).any fun pinned => pinned ≠ "" && claims.iss ≠ some pinned) =
        grantex.issuer.any fun pinned => pinned ≠ "" && claims.iss ≠ some pinned := by
    intro claims
    cases grantex.issuer with
    | none => rfl
    | some pinned =>
        by_cases hempty : pinned = ""
        · subst hempty
          rfl
        · rw [Option.filter_some, if_pos (decide_eq_true hempty)]
  unfold Countersigned witnessProblem
  simp only [hany]

end Checkpoints

section Contents

variable {δ : Type} {platform : Platform δ} {store : Store δ} {tenantId : String}

-- Numbers that go up take no more rows than there are numbers.
theorem ascending_length (rows : List (AuditLog δ)) (hasc : rows.Pairwise fun a b => seqOf a < seqOf b) (first last : ℤ)
    (hle : first ≤ last + 1) (h : ∀ row ∈ rows, first ≤ seqOf row ∧ seqOf row ≤ last) :
    (rows.length : ℤ) ≤ last - first + 1 := by
  induction rows generalizing first with
  | nil =>
      rw [List.length_nil]
      push_cast
      omega
  | cons row rest ih =>
      obtain ⟨hlater, hrest⟩ := List.pairwise_cons.mp hasc
      have hrow := h row List.mem_cons_self
      have hlength := ih hrest (seqOf row + 1) (by omega) fun other ho =>
        ⟨hlater other ho, (h other (List.mem_cons_of_mem _ ho)).2⟩
      rw [List.length_cons]
      push_cast
      omega

theorem UniqueSeqs.le_head (h : UniqueSeqs store.rows tenantId) (row : AuditLog δ)
    (hr : row ∈ sealedInOrder store.rows tenantId) : seqOf row ≤ store.headSeq tenantId := by
  rcases List.eq_nil_or_concat (sealedInOrder store.rows tenantId) with hnil | ⟨init, last, hlast⟩
  · rw [hnil] at hr
    cases hr
  · rw [List.concat_eq_append] at hlast
    have hasc := h.ascending
    have hhead : store.headSeq tenantId = seqOf last := by
      rw [Store.headSeq, headRow, hlast, List.getLast?_append, List.getLast?_singleton]
      rfl
    rw [hlast] at hr hasc
    rw [hhead]
    rcases List.mem_append.mp hr with hr | hr
    · exact ((List.pairwise_append.mp hasc).2.2 row hr last (List.mem_singleton.mpr rfl)).le
    · rw [List.mem_singleton.mp hr]

theorem mem_sealedFrom (rows : List (AuditLog δ)) (fromSeq : ℤ) (row : AuditLog δ) :
    row ∈ sealedFrom rows tenantId fromSeq ↔ row ∈ sealedInOrder rows tenantId ∧ fromSeq ≤ seqOf row := by
  rw [sealedFrom, List.mem_filter, decide_eq_true_eq]

theorem UniqueSeqs.length_le (h : UniqueSeqs store.rows tenantId) (hhead : 0 ≤ store.headSeq tenantId) :
    ((sealedFrom store.rows tenantId 1).length : ℤ) ≤ store.headSeq tenantId := by
  have hlength := ascending_length (sealedFrom store.rows tenantId 1) (h.ascending.filter _) 1 (store.headSeq tenantId)
    (by omega) fun row hr => by
      obtain ⟨hmem, hfrom⟩ := (mem_sealedFrom store.rows 1 row).mp hr
      exact ⟨hfrom, h.le_head row hmem⟩
  omega

-- A chain of one export holds every row of the store.
theorem UniqueSeqs.exported_all (h : UniqueSeqs store.rows tenantId) (hhead : 0 ≤ store.headSeq tenantId)
    (hmax : store.headSeq tenantId ≤ MAX_EXPORT_ROWS) :
    exportedRows store.rows tenantId 1 (exportEnd (headOf (headRow store.rows tenantId)) 1 none) =
      sealedFrom store.rows tenantId 1 := by
  have hend : exportEnd (headOf (headRow store.rows tenantId)) 1 none = store.headSeq tenantId := by
    have hfits : store.headSeq tenantId ≤ 1 + (MAX_EXPORT_ROWS : ℤ) - 1 := by omega
    exact min_eq_left hfits
  have hlength := h.length_le hhead
  have hall : (sealedFrom store.rows tenantId 1).filter (fun row => seqOf row ≤ store.headSeq tenantId) =
      sealedFrom store.rows tenantId 1 :=
    List.filter_eq_self.mpr fun row hr => decide_eq_true (h.le_head row ((mem_sealedFrom store.rows 1 row).mp hr).1)
  rw [hend, exportedRows]
  split_ifs with hsome
  · have htake : sealedRows store.rows tenantId 1 (store.headSeq tenantId - 1 + 1).toNat = sealedFrom store.rows tenantId 1 :=
      List.take_of_length_le (by rw [← sealedFrom]; omega)
    rw [htake, hall]
  · have hempty : (sealedFrom store.rows tenantId 1).length = 0 := by omega
    rw [List.length_eq_zero_iff.mp hempty]

-- The head of a whole chain is its last link.
theorem UniqueSeqs.head_chained (h : UniqueSeqs store.rows tenantId) (hhead : 0 ≤ store.headSeq tenantId)
    (hchain : Chained platform 1 GENESIS (sealedFrom store.rows tenantId 1)) :
    store.headSeq tenantId = (sealedFrom store.rows tenantId 1).length ∧
      (1 ≤ store.headSeq tenantId → ∃ row ∈ sealedFrom store.rows tenantId 1,
        seqOf row = store.headSeq tenantId ∧ hashOf row = (headOf (headRow store.rows tenantId)).hash) := by
  have hlength := h.length_le hhead
  cases hrow : headRow store.rows tenantId with
  | none =>
      have hzero : store.headSeq tenantId = 0 := by
        rw [Store.headSeq, hrow]
        rfl
      exact ⟨by omega, fun hpos => by omega⟩
  | some row =>
      have hseq : store.headSeq tenantId = seqOf row := by
        rw [Store.headSeq, hrow]
        rfl
      by_cases hpos : 1 ≤ seqOf row
      · have hmem : row ∈ sealedFrom store.rows tenantId 1 :=
          (mem_sealedFrom store.rows 1 row).mpr ⟨List.mem_of_getLast? hrow, hpos⟩
        have hlt := (chained_seq platform 1 GENESIS _ hchain row hmem).2
        obtain ⟨before, hlink⟩ := linked_hash (linkHash platform) 1 GENESIS _ hchain (entryOf row) (List.mem_map_of_mem hmem)
        have hne : hashOf row ≠ "" := fun he => linkHash_ne platform before row (hlink.symm.trans he)
        refine ⟨by omega, fun _ => ⟨row, hmem, hseq.symm, ?_⟩⟩
        rw [headOf, if_neg hne]
      · exact ⟨by omega, fun hpos' => by omega⟩

-- The two verifiers read an anchor alike once the rows are a chain.
theorem UniqueSeqs.anchor_agrees (h : UniqueSeqs store.rows tenantId) (hhead : 0 ≤ store.headSeq tenantId) (anchor : Head) :
    anchorBreak store.rows tenantId (headOf (headRow store.rows tenantId)) anchor = none ↔
      anchor.seq ≤ store.headSeq tenantId ∧ (1 ≤ anchor.seq → anchor.seq ≤ store.headSeq tenantId →
        ∃ row ∈ sealedFrom store.rows tenantId 1, seqOf row = anchor.seq ∧ hashOf row = anchor.hash) := by
  by_cases hpos : 0 < anchor.seq
  · rw [anchorBreak_none h.ascending _ anchor hpos]
    constructor
    · rintro ⟨hle, row, hr, hseq, hhash⟩
      exact ⟨hle, fun hfirst _ => ⟨row, (mem_sealedFrom store.rows 1 row).mpr ⟨hr, by omega⟩, hseq, hhash⟩⟩
    · rintro ⟨hle, hlink⟩
      obtain ⟨row, hr, hseq, hhash⟩ := hlink (by omega) hle
      exact ⟨hle, row, ((mem_sealedFrom store.rows 1 row).mp hr).1, hseq, hhash⟩
  · rw [anchorBreak, if_pos (not_lt.mp hpos)]
    exact ⟨fun _ => ⟨by omega, fun hfirst => by omega⟩, fun _ => rfl⟩

-- The offline verifier finds no break in a whole export exactly when the online one finds none, no row lacks a signature,
-- and each witnessed head it lists is countersigned and, held against the chain as an anchor, no break.
theorem offline_agrees (ledger : Ledger δ) (grantex : Grantex) (hunique : UniqueSeqs ledger.store.rows tenantId)
    (hhead : 0 ≤ ledger.store.headSeq tenantId) (hmax : ledger.store.headSeq tenantId ≤ MAX_EXPORT_ROWS)
    (expected : Option Head) (report : Verification)
    (hreport : verify platform ledger.store.snapshot tenantId 1 none expected = some report) :
    (verifyBundle platform (buildExportBundle platform ledger.exported tenantId 1 none grantex) (expected.map linkOf)
      (some platform.hmac)).firstBreak = none ↔
      report.firstBreak = none ∧
        (∀ row ∈ sealedFrom ledger.store.rows tenantId 1, row.signature.any (· ≠ "") = true) ∧
        ∀ row ∈ listCheckpoints ledger.checkpoints tenantId 1000, row.status = .witnessed →
          Countersigned grantex tenantId (witnessView row) ∧
            anchorBreak ledger.store.rows tenantId (headOf (headRow ledger.store.rows tenantId))
              ⟨row.headSeq, row.headHash, none⟩ = none := by
  obtain ⟨walked, hwalked, honline⟩ := verify_snapshot platform ledger.store tenantId hunique expected
  obtain rfl : walked = report := Option.some.inj (hwalked.symm.trans hreport)
  generalize hbundle : buildExportBundle platform ledger.exported tenantId 1 none grantex = bundle
  have hrows : bundle.rows = (sealedFrom ledger.store.rows tenantId 1).map (exportRow platform) := by
    rw [← hbundle]
    exact congrArg (List.map (exportRow platform)) (hunique.exported_all hhead hmax)
  have hformat : bundle.format = EXPORT_FORMAT ∧ bundle.version = CHAIN_VERSION ∧ startLink bundle = some GENESIS ∧
      bundle.toSeq = (bundle.rows.getLast?.map ExportedRow.chainSeq).getD (bundle.fromSeq - 1) := by
    rw [← hbundle]
    exact ⟨rfl, rfl, rfl, rfl⟩
  have hfields : bundle.fromSeq = 1 ∧ bundle.head = headOf (headRow ledger.store.rows tenantId) ∧
      bundle.anchor = ledger.store.anchors tenantId ∧ bundle.tenantId = tenantId ∧
      bundle.grantex = { grantex with issuer := grantex.issuer.filter (· ≠ "") } := by
    rw [← hbundle]
    exact ⟨rfl, rfl, rfl, rfl, rfl⟩
  have hwitnesses : ∀ P : WitnessView → Prop, (∀ witness ∈ witnessedHeads bundle, P witness) ↔
      ∀ row ∈ listCheckpoints ledger.checkpoints tenantId 1000, row.status = .witnessed → P (witnessView row) := by
    rw [← hbundle]
    exact forall_witnessedHeads platform ledger.exported tenantId 1 none grantex
  have hoffline := verifyBundle_none platform bundle (sealedFrom ledger.store.rows tenantId 1) GENESIS
    (expected.map linkOf) (some platform.hmac) hformat.1 hformat.2.1 hformat.2.2.1 (by decide) hrows hformat.2.2.2
  have hheadSeq : (headOf (headRow ledger.store.rows tenantId)).seq = ledger.store.headSeq tenantId := rfl
  rw [hfields.1, hfields.2.1, hfields.2.2.2.1, hfields.2.2.2.2, hheadSeq, hwitnesses] at hoffline
  simp only [countersigned_issuer] at hoffline
  rw [hoffline, honline, walkRows_none]
  -- the signatures the secret's holder asks for, and those the platform does
  have hsigned : (∀ row ∈ sealedFrom ledger.store.rows tenantId 1, Verifies platform (some platform.hmac) row) ↔
      (∀ row ∈ sealedFrom ledger.store.rows tenantId 1, Signed platform row) ∧
        ∀ row ∈ sealedFrom ledger.store.rows tenantId 1, row.signature.any (· ≠ "") = true := by
    simp only [verifies_audit, imp_and, forall_and]
  have hlist : anchorsBreak ledger.store.snapshot tenantId expected = none ↔
      (∀ anchor, ledger.store.anchors tenantId = some anchor →
        anchorBreak ledger.store.rows tenantId (headOf (headRow ledger.store.rows tenantId)) anchor = none) ∧
      ∀ anchor, expected = some anchor →
        anchorBreak ledger.store.rows tenantId (headOf (headRow ledger.store.rows tenantId)) anchor = none := by
    rw [anchorsBreak, Option.or_eq_none_iff, Option.bind_eq_none_iff, Option.bind_eq_none_iff]
    rfl
  have hempty : ledger.store.headSeq tenantId = 0 → sealedFrom ledger.store.rows tenantId 1 = [] := by
    intro hzero
    have hlength := hunique.length_le hhead
    exact List.length_eq_zero_iff.mp (by omega)
  rw [hsigned, hlist]
  constructor
  · rintro ⟨⟨hchain, hplain, hpresent⟩, hcountersigned, _, hheld⟩
    obtain ⟨hlast, _⟩ := hunique.head_chained hhead hchain
    have hend : 1 + ((sealedFrom ledger.store.rows tenantId 1).length : ℤ) - 1 = ledger.store.headSeq tenantId := by omega
    rw [hend, forall_anchorsOf, hwitnesses, hfields.2.2.1] at hheld
    obtain ⟨hstored, hposted, hsupplied, _⟩ := hheld
    refine ⟨⟨⟨fun anchor ha => ?_, fun anchor ha => ?_⟩, .inr ⟨hchain, hplain⟩⟩, hpresent, fun row hr hstatus => ?_⟩
    · by_cases hpos : 0 < anchor.seq
      · exact (hunique.anchor_agrees hhead anchor).mpr (hstored anchor ha hpos)
      · exact if_pos (not_lt.mp hpos)
    · exact (hunique.anchor_agrees hhead anchor).mpr (hsupplied anchor ha)
    · refine ⟨hcountersigned row hr hstatus, (hunique.anchor_agrees hhead _).mpr ?_⟩
      exact hposted row hr hstatus
  · rintro ⟨⟨⟨hstored, hsupplied⟩, hwalk⟩, hpresent, hposted⟩
    have hwhole : Chained platform 1 GENESIS (sealedFrom ledger.store.rows tenantId 1) ∧
        ∀ row ∈ sealedFrom ledger.store.rows tenantId 1, Signed platform row := by
      rcases hwalk with hzero | hwhole
      · rw [hempty hzero]
        exact ⟨trivial, fun _ hr => absurd hr List.not_mem_nil⟩
      · exact hwhole
    obtain ⟨hlast, hlink⟩ := hunique.head_chained hhead hwhole.1
    have hend : 1 + ((sealedFrom ledger.store.rows tenantId 1).length : ℤ) - 1 = ledger.store.headSeq tenantId := by omega
    rw [hend, forall_anchorsOf, hwitnesses, hfields.1, hfields.2.1, hfields.2.2.1]
    refine ⟨⟨hwhole.1, hwhole.2, hpresent⟩, fun row hr hstatus => (hposted row hr hstatus).1, le_refl _, ?_, ?_, ?_, ?_⟩
    · exact fun anchor ha _ => (hunique.anchor_agrees hhead anchor).mp (hstored anchor ha)
    · exact fun row hr hstatus => (hunique.anchor_agrees hhead ⟨row.headSeq, row.headHash, none⟩).mp
        (hposted row hr hstatus).2
    · exact fun head he => (hunique.anchor_agrees hhead head).mp (hsupplied head he)
    · exact fun _ _ => ⟨le_refl _, fun hfirst _ => hlink hfirst⟩

def sampleLedger : Ledger Empty := ⟨sampleStore, []⟩

theorem unsigned_export_breaks :
    (verifyBundle samplePlatform (buildExportBundle samplePlatform sampleLedger.exported "acme" 1 none ⟨none, none⟩) none
      (some samplePlatform.hmac)).firstBreak ≠ none := by
  intro h
  have hagrees := @offline_agrees _ samplePlatform "acme" sampleLedger ⟨none, none⟩
    (List.nodup_singleton _) (by decide) (by decide) none
    ⟨⟨1, linkHash samplePlatform GENESIS sampleRow, some 0⟩, 0, 1, 1, 1, 1,
      some ⟨1, linkHash samplePlatform GENESIS sampleRow, some 0⟩, none⟩ rfl
  have hsigned := (hagrees.mp h).2.1
  obtain ⟨row, hr, hunsigned⟩ : ∃ row ∈ sealedFrom sampleStore.rows "acme" 1, row.signature = none :=
    ⟨_, List.mem_singleton.mpr rfl, rfl⟩
  have hpresent := hsigned row hr
  rw [hunsigned] at hpresent
  exact Bool.false_ne_true hpresent

end Contents

section Exports

variable {δ : Type} {platform : Platform δ} {tenantId : String}

variable (platform) (service : GrantexService)

def LedgerStep.WellSigned : LedgerStep δ → Prop
  | .audit step => step.WellSigned platform
  | .witness _ _ _ _ _ => True

def Ledger.Follows (ledger later : Ledger δ) : Prop :=
  ∃ steps : List (LedgerStep δ), (∀ step ∈ steps, step.WellSigned platform) ∧ later = ledger.run platform service steps

-- Rows are written and sealed, and heads witnessed, between any two reads.
def ExportReads.Interleaved (reads : ExportReads δ) : Prop :=
  List.IsChain (Ledger.Follows platform service)
    [emptyLedger, reads.head, reads.rows, reads.before, reads.anchor, reads.witnesses]

-- A witnessed head was sealed, and its countersignature verified and names it.
structure Witnessed (ledger : Ledger δ) (row : WitnessCheckpoint) : Prop where
  logged : ∃ entry ∈ ledger.store.logged,
    entry.1 = row.tenantId ∧ entry.2.seq = row.headSeq ∧ entry.2.hash = row.headHash
  verified : ∃ claims, row.countersignature.bind service.verifyToken = some claims ∧
    checkWitnessClaims claims (witnessBody row.tenantId row.headSeq row.headHash) service.issuer row.witnessId = none

structure Ledger.Kept (ledger : Ledger δ) : Prop where
  store : Governance.Kept platform ledger.store
  witnessed : ∀ row ∈ ledger.checkpoints, row.status = .witnessed → Witnessed service ledger row

variable {platform service}

theorem Witnessed.mono {ledger later : Ledger δ} {row : WitnessCheckpoint} (h : Witnessed service ledger row)
    (hgrown : Grown ledger.store later.store) : Witnessed service later row := by
  obtain ⟨entry, he, hnames⟩ := h.logged
  exact ⟨⟨entry, hgrown.logged.subset he, hnames⟩, h.verified⟩

-- What is stored of an answer is a fork, or a head whose countersignature verified.
theorem mem_witnessHead (rows : List WitnessCheckpoint) (tenantId : String) (headSeq : ℤ) (headHash : String)
    (answer : WitnessAnswer) (now : ℤ) (row : WitnessCheckpoint)
    (h : row ∈ witnessHead service rows tenantId headSeq headHash answer now) (hstatus : row.status = .witnessed) :
    row ∈ rows ∨ (row.tenantId = tenantId ∧ row.headSeq = headSeq ∧ row.headHash = headHash ∧
      ∃ claims, row.countersignature.bind service.verifyToken = some claims ∧
        checkWitnessClaims claims (witnessBody tenantId headSeq headHash) service.issuer row.witnessId = none) := by
  have hstored : ∀ new : WitnessCheckpoint, row ∈ storeCheckpoint rows new → row ∈ rows ∨ row = new := by
    intro new hr
    rw [storeCheckpoint] at hr
    split_ifs at hr
    · exact .inl hr
    · exact (List.mem_append.mp hr).imp id List.mem_singleton.mp
  rw [witnessHead] at h
  split_ifs at h
  · exact .inl h
  · cases answer with
    | unreachable => exact .inl h
    | response statusCode code witnessId countersignature =>
        dsimp only at h
        split_ifs at h
        · rcases hstored _ h with hold | rfl
          · exact .inl hold
          · cases hstatus
        · exact .inl h
        · cases hverify : countersignature.bind service.verifyToken with
          | none =>
              rw [hverify] at h
              exact .inl h
          | some claims =>
              rw [hverify] at h
              dsimp only at h
              cases hcheck : checkWitnessClaims claims (witnessBody tenantId headSeq headHash) service.issuer witnessId with
              | some problem =>
                  rw [hcheck] at h
                  exact .inl h
              | none =>
                  rw [hcheck] at h
                  rcases hstored _ h with hold | rfl
                  · exact .inl hold
                  · exact .inr ⟨rfl, rfl, rfl, claims, hverify, hcheck⟩

theorem Ledger.Kept.step {ledger : Ledger δ} (h : ledger.Kept platform service) (step : LedgerStep δ)
    (hs : step.WellSigned platform) :
    (ledger.step platform service step).Kept platform service ∧
      Grown ledger.store (ledger.step platform service step).store := by
  cases step with
  | audit step =>
      obtain ⟨hnext, hgrown⟩ := h.store.invariant.step step
      refine ⟨⟨⟨hnext, h.store.invariant.signed_step step hs h.store.signed⟩, fun row hr hstatus => ?_⟩, hgrown⟩
      exact (h.witnessed row hr hstatus).mono hgrown
  | witness tenantId headSeq headHash answer now =>
      rw [Ledger.step]
      split_ifs with hsealed
      · refine ⟨⟨h.store, fun row hr hstatus => ?_⟩, Grown.refl _⟩
        rcases mem_witnessHead _ _ _ _ _ _ _ hr hstatus with hold | ⟨rfl, rfl, rfl, hverified⟩
        · exact (h.witnessed row hold hstatus).mono (Grown.refl _)
        · obtain ⟨entry, he, hnames⟩ := List.any_eq_true.mp hsealed
          rw [Bool.and_eq_true, Bool.and_eq_true, decide_eq_true_eq, decide_eq_true_eq, decide_eq_true_eq, and_assoc]
            at hnames
          exact ⟨⟨entry, he, hnames⟩, hverified⟩
      · exact ⟨h, Grown.refl _⟩

theorem Ledger.Kept.run {ledger : Ledger δ} (h : ledger.Kept platform service) (steps : List (LedgerStep δ))
    (hs : ∀ step ∈ steps, step.WellSigned platform) :
    (ledger.run platform service steps).Kept platform service ∧
      Grown ledger.store (ledger.run platform service steps).store := by
  induction steps generalizing ledger with
  | nil => exact ⟨h, Grown.refl _⟩
  | cons step rest ih =>
      obtain ⟨hnext, hgrown⟩ := h.step step (hs step List.mem_cons_self)
      obtain ⟨hlast, hlater⟩ := ih hnext fun other ho => hs other (List.mem_cons_of_mem _ ho)
      exact ⟨hlast, hgrown.trans hlater⟩

theorem emptyLedger_kept : (emptyLedger : Ledger δ).Kept platform service :=
  ⟨emptyStore_kept platform, fun _ hr => absurd hr List.not_mem_nil⟩

-- What the reads of an export find when rows are written and sealed, and heads witnessed, between them.
structure ExportReads.Committed (platform : Platform δ) (service : GrantexService) (reads : ExportReads δ) : Prop where
  head : Governance.Kept platform reads.head.store
  rows : Governance.Kept platform reads.rows.store
  before : Governance.Kept platform reads.before.store
  anchor : Governance.Kept platform reads.anchor.store
  witnesses : reads.witnesses.Kept platform service
  head_rows : Grown reads.head.store reads.rows.store
  rows_before : Grown reads.rows.store reads.before.store
  rows_anchor : Grown reads.rows.store reads.anchor.store
  rows_witnesses : Grown reads.rows.store reads.witnesses.store

theorem ExportReads.Interleaved.committed {reads : ExportReads δ} (h : reads.Interleaved platform service) :
    reads.Committed platform service := by
  obtain ⟨hall, hpairs⟩ := invariant_chain (Ledger.Follows platform service) (fun a b => Grown a.store b.store)
    (Ledger.Kept platform service) (fun _ _ hkept ⟨steps, hsigned, hrun⟩ => hrun ▸ hkept.run steps hsigned)
    (fun _ _ _ => Grown.trans) [reads.head, reads.rows, reads.before, reads.anchor, reads.witnesses] emptyLedger
    emptyLedger_kept h
  simp only [List.pairwise_cons, List.mem_cons, List.not_mem_nil, or_false, forall_eq_or_imp, forall_eq] at hall hpairs
  exact {
    head := hall.1.1.store
    rows := hall.2.1.1.store
    before := hall.2.2.1.1.store
    anchor := hall.2.2.2.1.1.store
    witnesses := hall.2.2.2.2.1
    head_rows := hpairs.1.1
    rows_before := hpairs.2.1.1
    rows_anchor := hpairs.2.1.2.1
    rows_witnesses := hpairs.2.1.2.2 }

-- The claims that named a head when it was stored are those the export's keys ask for.
theorem Witnessed.countersigned {ledger : Ledger δ} {row : WitnessCheckpoint} (h : Witnessed service ledger row)
    (grantex : Grantex) (hkeys : ∀ jwks ∈ grantex.jwks, ∀ token claims, service.verifyToken token = some claims →
      jwks token = some claims) (hissuer : ∀ issuer ∈ grantex.issuer, issuer = service.issuer) :
    Countersigned grantex row.tenantId (witnessView row) := by
  intro jwks hj
  obtain ⟨claims, hverify, hcheck⟩ := h.verified
  obtain ⟨token, htoken, hclaims⟩ := Option.bind_eq_some_iff.mp hverify
  have hsame : (witnessView row).countersignature.bind jwks = some claims := by
    show row.countersignature.bind jwks = some claims
    rw [htoken]
    exact hkeys jwks hj token claims hclaims
  rw [checkWitnessClaims, Option.map_eq_none_iff, List.find?_eq_none] at hcheck
  simp only [List.mem_cons, List.not_mem_nil, or_false, forall_eq_or_imp, forall_eq, Bool.not_eq_true', Bool.not_eq_false,
    Bool.and_eq_true, decide_eq_true_eq] at hcheck
  obtain ⟨⟨_, hiss⟩, hsource, htenant, hchain, hseq, hhash, _, _, _, hjti⟩ := hcheck
  have hpinned : (grantex.issuer.any fun pinned => pinned ≠ "" && claims.iss ≠ some pinned) = false := by
    cases hgiven : grantex.issuer with
    | none => rfl
    | some pinned =>
        obtain rfl := hissuer pinned hgiven
        rw [Option.any_some, decide_eq_false (not_not.mpr hiss), Bool.and_false]
  replace hsource : claims.source = some "agenticorg" := hsource
  replace hchain : claims.chain = some "audit_log" := hchain
  replace htenant : claims.tenantRef = some row.tenantId := htenant
  replace hseq : claims.headSeq = some (witnessView row).headSeq := hseq
  replace hhash : claims.headHash = some (witnessView row).headHash := hhash
  replace hjti : claims.jti = (witnessView row).witnessId := hjti
  rw [witnessProblem, hsame]
  dsimp only
  rw [if_neg (not_not.mpr hsource), if_neg (not_not.mpr hchain), if_neg (not_not.mpr htenant), if_neg (not_not.mpr hseq),
    if_neg (not_not.mpr hhash), if_neg (not_not.mpr hjti), hpinned]
  exact if_neg Bool.false_ne_true

-- What an export from a number on, at most as far as a head that was reached, takes of a chain.
theorem Kept.exported {store : Store δ} (h : Kept platform store) (start last : ℤ) (prev : String)
    (hreached : Reached (sealedInOrder store.rows tenantId) (unwalked start prev))
    (hlast : last ≤ store.headSeq tenantId) (hle : start ≤ last + 1) :
    Chained platform start prev (exportedRows store.rows tenantId start last) ∧
      start + (exportedRows store.rows tenantId start last).length - 1 = last ∧
      ∀ row, row ∈ exportedRows store.rows tenantId start last ↔
        row ∈ sealedInOrder store.rows tenantId ∧ start ≤ seqOf row ∧ seqOf row ≤ last := by
  rw [exportedRows]
  split_ifs with hsome
  · obtain ⟨front, rest, hsplit, hexpected, hprev⟩ := hreached
    have hfront : start = 1 + front.length := hexpected
    have hpage := h.page_eq (unwalked start prev) (last - start + 1).toNat front rest hsplit hexpected
    have hsealed : sealedRows store.rows tenantId start (last - start + 1).toNat = rest.take (last - start + 1).toNat := hpage
    have hchain := h.invariant.chained tenantId
    rw [hsplit] at hchain
    obtain ⟨hfrontChain, hrest⟩ := (chained_append platform 1 GENESIS front rest).mp hchain
    rw [← hfront, ← (hprev : prev = _)] at hrest
    have hlength := h.headSeq_eq tenantId
    rw [hsplit, List.length_append] at hlength
    have htake : (rest.take (last - start + 1).toNat).length = (last - start + 1).toNat := by
      rw [List.length_take]
      omega
    rw [← List.take_append_drop (last - start + 1).toNat rest] at hrest
    obtain ⟨hmid, hbehind⟩ := (chained_append platform start prev _ _).mp hrest
    have hall : (rest.take (last - start + 1).toNat).filter (fun row => seqOf row ≤ last) =
        rest.take (last - start + 1).toNat := by
      refine List.filter_eq_self.mpr fun row hr => decide_eq_true ?_
      have hlt := (chained_seq platform _ _ _ hmid row hr).2
      omega
    rw [hsealed, hall]
    refine ⟨hmid, by omega, fun row => ⟨fun hr => ?_, ?_⟩⟩
    · have hseq := chained_seq platform _ _ _ hmid row hr
      exact ⟨hsplit ▸ List.mem_append_right _ (List.mem_of_mem_take hr), hseq.1, by omega⟩
    · rintro ⟨hr, hfirst, hend⟩
      rw [hsplit] at hr
      rcases List.mem_append.mp hr with hr | hr
      · have hlt := (chained_seq platform _ _ _ hfrontChain row hr).2
        omega
      · rw [← List.take_append_drop (last - start + 1).toNat rest] at hr
        rcases List.mem_append.mp hr with hr | hr
        · exact hr
        · have hge := (chained_seq platform _ _ _ hbehind row hr).1
          omega
  · refine ⟨trivial, ?_, fun row => ⟨fun hr => absurd hr List.not_mem_nil, fun hr => ?_⟩⟩
    · rw [List.length_nil]
      push_cast
      omega
    · omega

-- The link before an export that starts behind a row of a chain.
theorem Kept.startLink_reached {store : Store δ} (h : Kept platform store) (start : ℤ) (prev : String)
    (hreached : Reached (sealedInOrder store.rows tenantId) (unwalked start prev)) :
    (if start = 1 then some GENESIS else prevLinkOf store.rows tenantId start) = some prev := by
  obtain ⟨front, rest, hsplit, hexpected, hprev⟩ := hreached
  have hfront : start = 1 + front.length := hexpected
  have hlink : prev = tip GENESIS (front.map entryOf) := hprev
  rcases List.eq_nil_or_concat front with rfl | ⟨init, row, rfl⟩
  · rw [List.length_nil] at hfront
    rw [if_pos (by omega), hlink]
    rfl
  · rw [List.length_concat] at hfront
    rw [List.concat_eq_append] at hsplit hlink
    have hchain := h.invariant.chained tenantId
    rw [hsplit, List.append_assoc] at hchain
    obtain ⟨_, hrow, _, hhash, _⟩ := (chained_append platform 1 GENESIS init _).mp hchain
    have hseq : seqOf row = start - 1 := by
      have hnumber : seqOf row = 1 + init.length := hrow
      omega
    have hlinked : hashOf row = linkHash platform (tip GENESIS (init.map entryOf)) row := hhash
    have hstored : row.chainHash.getD "None" = hashOf row := by
      rw [hashOf] at hlinked ⊢
      cases hcolumn : row.chainHash with
      | none =>
          rw [hcolumn] at hlinked
          exact absurd hlinked.symm (linkHash_ne platform _ row)
      | some hash => rfl
    have hmem : row ∈ sealedInOrder store.rows tenantId := hsplit ▸ by simp
    rw [if_neg (by omega), prevLinkOf, if_pos (by omega), ← hseq, sealedRows_at (h.invariant.ascending tenantId) row hmem]
    dsimp only
    rw [if_pos rfl, hstored, hlink, List.map_append, tip_append]
    rfl

theorem tip_ne (seq : ℤ) (start : String) (rows : List (AuditLog δ)) (hs : start ≠ "") (h : Chained platform seq start rows) :
    tip start (rows.map entryOf) ≠ "" := by
  rcases List.eq_nil_or_concat rows with rfl | ⟨init, row, rfl⟩
  · exact hs
  · rw [List.concat_eq_append] at *
    obtain ⟨_, _, _, hhash, _⟩ := (chained_append platform seq start init [row]).mp h
    rw [List.map_append, tip_append]
    exact fun he => linkHash_ne platform _ row (hhash.symm.trans he)

-- A row of the later chain that is numbered within the earlier one was in it.
theorem Grown.mem_of_le {store later : Store δ} (h : Grown store later) (hs : Kept platform store)
    (hl : Kept platform later) (row : AuditLog δ) (hr : row ∈ sealedInOrder later.rows tenantId)
    (hle : seqOf row ≤ store.headSeq tenantId) : row ∈ sealedInOrder store.rows tenantId := by
  obtain ⟨more, hmore⟩ := h.chain tenantId
  have hchain := hl.invariant.chained tenantId
  rw [← hmore] at hr hchain
  obtain ⟨_, hbehind⟩ := (chained_append platform 1 GENESIS _ more).mp hchain
  rw [hs.headSeq_eq] at hle
  rcases List.mem_append.mp hr with hr | hr
  · exact hr
  · have hge := (chained_seq platform _ _ more hbehind row hr).1
    omega

theorem Kept.reached_ne {store : Store δ} (h : Kept platform store) (start : ℤ) (prev : String)
    (hreached : Reached (sealedInOrder store.rows tenantId) (unwalked start prev)) : prev ≠ "" := by
  obtain ⟨front, rest, hsplit, _, htip⟩ := hreached
  have hwhole := h.invariant.chained tenantId
  rw [hsplit] at hwhole
  have hlinked : prev = tip GENESIS (front.map entryOf) := htip
  rw [hlinked]
  exact tip_ne 1 GENESIS front (by decide) ((chained_append platform 1 GENESIS front rest).mp hwhole).1

-- The head of a chain that is not empty is its newest link, and so is its anchor.
theorem Kept.head_link {store : Store δ} (h : Kept platform store) (hpos : 0 < store.headSeq tenantId) :
    store.anchors tenantId = some (headOf (headRow store.rows tenantId)) ∧
      ∃ row ∈ sealedInOrder store.rows tenantId, seqOf row = store.headSeq tenantId ∧
        hashOf row = (headOf (headRow store.rows tenantId)).hash := by
  rw [h.invariant.anchored tenantId]
  rw [Store.headSeq] at hpos ⊢
  cases hrow : headRow store.rows tenantId with
  | none =>
      rw [hrow] at hpos
      exact absurd hpos (lt_irrefl 0)
  | some row =>
      have hmem : row ∈ sealedInOrder store.rows tenantId := List.mem_of_getLast? hrow
      obtain ⟨before, hlink⟩ := linked_hash (linkHash platform) 1 GENESIS _ (h.invariant.chained tenantId) (entryOf row)
        (List.mem_map_of_mem hmem)
      have hne : hashOf row ≠ "" := fun he => linkHash_ne platform before row (hlink.symm.trans he)
      refine ⟨rfl, row, hmem, rfl, ?_⟩
      rw [headOf, if_neg hne]

-- An anchor of a chain is its head.
theorem Kept.anchor_head {store : Store δ} (h : Kept platform store) (anchor : Head)
    (ha : store.anchors tenantId = some anchor) : anchor = headOf (headRow store.rows tenantId) := by
  rw [h.invariant.anchored tenantId] at ha
  cases hrow : headRow store.rows tenantId with
  | none =>
      rw [hrow] at ha
      cases ha
  | some row =>
      rw [hrow] at ha
      exact (Option.some.inj ha).symm

-- An export between whose reads rows are written and sealed and heads witnessed verifies exactly when no row of the
-- tenant was sealed after its head was read and before its anchor was, no head it lists as witnessed is beyond the head
-- it read, and no row it carries lacks a signature that is asked for.
theorem export_interleaved (reads : ExportReads δ) (hreads : reads.Interleaved platform service) (fromSeq : ℤ)
    (grantex : Grantex) (hkeys : ∀ jwks ∈ grantex.jwks, ∀ token claims, service.verifyToken token = some claims →
      jwks token = some claims) (hissuer : ∀ issuer ∈ grantex.issuer, issuer = service.issuer)
    (expected : Option Head) (hexpected : ∀ head ∈ expected, (tenantId, head) ∈ reads.head.store.logged)
    (hfrom : fromSeq ≤ reads.head.store.headSeq tenantId + 1)
    (secret : Option (Text → String)) (hsecret : ∀ hmac ∈ secret, hmac = platform.hmac) :
    (verifyBundle platform (buildExportBundle platform reads tenantId fromSeq none grantex) (expected.map linkOf)
      secret).firstBreak = none ↔
      reads.anchor.store.headSeq tenantId ≤ reads.head.store.headSeq tenantId ∧
        (∀ row ∈ listCheckpoints reads.witnesses.checkpoints tenantId 1000, row.status = .witnessed →
          row.headSeq ≤ reads.head.store.headSeq tenantId) ∧
        (secret.isSome = true → ∀ row ∈ exportedRows reads.rows.store.rows tenantId (max 1 fromSeq)
          (exportEnd (headOf (headRow reads.head.store.rows tenantId)) (max 1 fromSeq) none),
            row.signature.any (· ≠ "") = true) := by
  have h := hreads.committed
  have hfirst : 0 ≤ reads.head.store.headSeq tenantId := by
    rw [h.head.headSeq_eq]
    omega
  have hlater := h.head_rows.headSeq_le h.head h.rows tenantId
  generalize hstart : max 1 fromSeq = start
  have hpos : 1 ≤ start ∧ start ≤ reads.head.store.headSeq tenantId + 1 := by omega
  generalize hend : exportEnd (headOf (headRow reads.head.store.rows tenantId)) start none = last
  have hlast : last ≤ reads.head.store.headSeq tenantId ∧ start ≤ last + 1 := by
    have hmin : last = min (reads.head.store.headSeq tenantId) (start + MAX_EXPORT_ROWS - 1) := hend.symm
    rw [hmin]
    exact ⟨min_le_left _ _, by omega⟩
  obtain ⟨prev, _, hreached⟩ := @Kept.linkBefore_reached _ _ tenantId _ h.rows start hpos.1 (by omega)
  obtain ⟨hchain, hcount, hmem⟩ := h.rows.exported start last prev hreached (by omega) hlast.2
  have hlink := h.before.startLink_reached start prev (hreached.mono (h.rows_before.chain tenantId))
  generalize hbundle : buildExportBundle platform reads tenantId fromSeq none grantex = bundle
  have hformat : bundle.format = EXPORT_FORMAT ∧ bundle.version = CHAIN_VERSION ∧ startLink bundle = some prev ∧
      bundle.rows = (exportedRows reads.rows.store.rows tenantId start last).map (exportRow platform) ∧
      bundle.toSeq = (bundle.rows.getLast?.map ExportedRow.chainSeq).getD (bundle.fromSeq - 1) := by
    subst hbundle hstart hend
    exact ⟨rfl, rfl, hlink, rfl, rfl⟩
  have hfields : bundle.fromSeq = start ∧ bundle.head = headOf (headRow reads.head.store.rows tenantId) ∧
      bundle.anchor = reads.anchor.store.anchors tenantId ∧ bundle.tenantId = tenantId ∧
      bundle.grantex = { grantex with issuer := grantex.issuer.filter (· ≠ "") } := by
    subst hbundle hstart
    exact ⟨rfl, rfl, rfl, rfl, rfl⟩
  have hwitnesses : ∀ P : WitnessView → Prop, (∀ witness ∈ witnessedHeads bundle, P witness) ↔
      ∀ row ∈ listCheckpoints reads.witnesses.checkpoints tenantId 1000, row.status = .witnessed →
        P (witnessView row) := by
    subst hbundle
    exact forall_witnessedHeads platform reads tenantId fromSeq none grantex
  have hverified := verifyBundle_none platform bundle (exportedRows reads.rows.store.rows tenantId start last) prev
    (expected.map linkOf) secret hformat.1 hformat.2.1 hformat.2.2.1 (h.rows.reached_ne start prev hreached)
    hformat.2.2.2.1 hformat.2.2.2.2
  have hsigned : ∀ row ∈ exportedRows reads.rows.store.rows tenantId start last, Signed platform row := fun row hr =>
    h.rows.signed row ((mem_sealedInOrder _ _ _).mp ((hmem row).mp hr).1).1
  rw [hverified, hfields.1, hcount, forall_anchorsOf, hwitnesses, hwitnesses, hfields.1, hfields.2.1, hfields.2.2.1,
    hfields.2.2.2.1, hfields.2.2.2.2, verifies_signed platform _ hsigned secret hsecret]
  simp only [countersigned_issuer]
  -- a link of the chain is held by the export when it falls into its range
  have hheld : ∀ (link : ℤ × String) (row : AuditLog δ), row ∈ sealedInOrder reads.rows.store.rows tenantId →
      seqOf row = link.1 → hashOf row = link.2 → start ≤ link.1 → link.1 ≤ last →
        ∃ other ∈ exportedRows reads.rows.store.rows tenantId start last, seqOf other = link.1 ∧ hashOf other = link.2 :=
    fun _ row hr hseq hhash hlow hhigh => ⟨row, (hmem row).mpr ⟨hr, hseq ▸ hlow, hseq ▸ hhigh⟩, hseq, hhash⟩
  have hposted : ∀ row ∈ listCheckpoints reads.witnesses.checkpoints tenantId 1000, row.status = .witnessed →
      row.tenantId = tenantId ∧ Witnessed service reads.witnesses row := fun row hr hstatus =>
    have hlisted := mem_listCheckpoints _ _ _ row hr
    ⟨hlisted.2, h.witnesses.witnessed row hlisted.1 hstatus⟩
  constructor
  · rintro ⟨⟨_, hpresent⟩, _, _, hstored, hwitnessed, _⟩
    refine ⟨?_, fun row hr hstatus => (hwitnessed row hr hstatus).1, hpresent⟩
    by_cases hsome : 0 < reads.anchor.store.headSeq tenantId
    · exact (hstored _ (h.anchor.head_link hsome).1 hsome).1
    · omega
  · rintro ⟨hle, hwithin, hpresent⟩
    refine ⟨⟨hchain, hpresent⟩, fun row hr hstatus => ?_, hlast.1, fun anchor ha hsome => ?_, fun row hr hstatus => ?_,
      fun head he => ?_, fun _ hreach => ?_⟩
    · obtain ⟨rfl, hwitness⟩ := hposted row hr hstatus
      exact hwitness.countersigned grantex hkeys hissuer
    · obtain rfl := h.anchor.anchor_head anchor ha
      obtain ⟨_, row, hr, hseq, hhash⟩ := h.anchor.head_link hsome
      exact ⟨hle, hheld _ row (h.rows_anchor.mem_of_le h.rows h.anchor row hr (by omega)) hseq hhash⟩
    · obtain ⟨rfl, hwitness⟩ := hposted row hr hstatus
      obtain ⟨entry, he, htenant, hentrySeq, hentryHash⟩ := hwitness.logged
      obtain ⟨own, ho, hseq, hhash⟩ := h.witnesses.store.invariant.logged entry he
      rw [htenant] at ho
      have hown := hwithin row hr hstatus
      exact ⟨hown, hheld (row.headSeq, row.headHash) own
        (h.rows_witnesses.mem_of_le h.rows h.witnesses.store own ho (by omega)) (hseq.trans hentrySeq)
        (hhash.trans hentryHash)⟩
    · obtain ⟨row, hr, hseq, hhash⟩ := h.head.invariant.logged (tenantId, head) (hexpected head he)
      have hlt := (chained_seq platform 1 GENESIS _ (h.head.invariant.chained tenantId) row hr).2
      have hnumber : (linkOf head).1 = seqOf row := hseq.symm
      have hreached' : (headOf (headRow reads.head.store.rows tenantId)).seq = _ := h.head.headSeq_eq tenantId
      exact ⟨by omega, hheld _ row ((h.head_rows.chain tenantId).subset hr) hseq hhash⟩
    · have hsome : 0 < reads.head.store.headSeq tenantId := lt_of_lt_of_le (by omega) hreach
      obtain ⟨_, row, hr, hseq, hhash⟩ := h.head.head_link hsome
      exact ⟨le_refl _, hheld _ row ((h.head_rows.chain tenantId).subset hr) hseq hhash⟩

-- The sealed head of the sample as its witness signs it.
def sampleClaims : WitnessClaims where
  iss := some "grantex"
  source := some WITNESS_SOURCE
  chain := some WITNESS_CHAIN
  tenantRef := some "acme"
  headSeq := some 1
  headHash := some (linkHash samplePlatform GENESIS sampleRow)
  jti := some "wit_1"
  anchoredAt := some 0
  witnessedAt := some 1

def sampleService : GrantexService := ⟨"grantex", fun token => if token = "jws" then some sampleClaims else none⟩

def sampleGrantex : Grantex := ⟨some "grantex", some sampleService.verifyToken⟩

def samplePosted : List (LedgerStep Empty) :=
  [.witness "acme" 1 (linkHash samplePlatform GENESIS sampleRow) (.response 201 none (some "wit_1") (some "jws")) 1]

def witnessedLedger : Ledger Empty := sampleLedger.run samplePlatform sampleService samplePosted

-- The head is witnessed while an export is taken, which it leaves good, unless the export read an earlier head.
theorem export_witnessed :
    (verifyBundle samplePlatform (buildExportBundle samplePlatform
      ⟨sampleLedger, sampleLedger, sampleLedger, sampleLedger, witnessedLedger⟩ "acme" 1 none sampleGrantex)
        none none).firstBreak = none ∧
    (verifyBundle samplePlatform (buildExportBundle samplePlatform
      ⟨emptyLedger, emptyLedger, emptyLedger, emptyLedger, witnessedLedger⟩ "acme" 1 none sampleGrantex)
        none none).firstBreak ≠ none := by
  have hnone : ∀ step ∈ ([] : List (LedgerStep Empty)), step.WellSigned samplePlatform :=
    fun _ hs => absurd hs List.not_mem_nil
  have hsame : ∀ ledger : Ledger Empty, ledger.Follows samplePlatform sampleService ledger :=
    fun ledger => ⟨[], hnone, rfl⟩
  have hsealed : ∀ step ∈ sampleSteps.map LedgerStep.audit, step.WellSigned samplePlatform := by
    intro step hs
    obtain ⟨own, ho, rfl⟩ := List.mem_map.mp hs
    exact sampleSteps_signed own ho
  have hposted : ∀ step ∈ samplePosted, step.WellSigned samplePlatform := by
    intro step hs
    rw [List.mem_singleton.mp hs]
    trivial
  have hkeys : ∀ jwks ∈ sampleGrantex.jwks, ∀ token claims, sampleService.verifyToken token = some claims →
      jwks token = some claims := by
    intro jwks hj token claims hclaims
    obtain rfl := Option.mem_some_iff.mp hj
    exact hclaims
  have hissuer : ∀ issuer ∈ sampleGrantex.issuer, issuer = sampleService.issuer := fun issuer hi =>
    (Option.mem_some_iff.mp hi).symm
  have hlisted : listCheckpoints witnessedLedger.checkpoints "acme" 1000 = [⟨"acme", 1,
      linkHash samplePlatform GENESIS sampleRow, .witnessed, some "wit_1", some "jws", 1⟩] := by
    decide +kernel
  have hlate : ExportReads.Interleaved samplePlatform sampleService
      ⟨emptyLedger, emptyLedger, emptyLedger, emptyLedger, witnessedLedger⟩ :=
    .cons_cons (hsame _) (.cons_cons (hsame _) (.cons_cons (hsame _) (.cons_cons (hsame _) (.cons_cons
      ⟨sampleSteps.map .audit ++ samplePosted, fun step hs => (List.mem_append.mp hs).elim (hsealed step) (hposted step),
        rfl⟩ (.singleton _)))))
  have hreads : ExportReads.Interleaved samplePlatform sampleService
      ⟨sampleLedger, sampleLedger, sampleLedger, sampleLedger, witnessedLedger⟩ :=
    .cons_cons ⟨sampleSteps.map .audit, hsealed, rfl⟩ (.cons_cons (hsame _) (.cons_cons (hsame _) (.cons_cons (hsame _)
      (.cons_cons ⟨samplePosted, hposted, rfl⟩ (.singleton _)))))
  constructor
  · refine (@export_interleaved _ samplePlatform "acme" sampleService _ hreads 1 sampleGrantex hkeys hissuer none
      (fun _ he => absurd he (Option.not_mem_none _)) (by decide) none
      fun _ hm => absurd hm (Option.not_mem_none _)).mpr ⟨le_refl _, fun row hr _ => ?_, fun h => by cases h⟩
    rw [hlisted] at hr
    rw [List.mem_singleton.mp hr]
    decide
  · intro h
    obtain ⟨_, hwithin, _⟩ := (@export_interleaved _ samplePlatform "acme" sampleService _ hlate 1 sampleGrantex hkeys
      hissuer none (fun _ he => absurd he (Option.not_mem_none _)) (by decide) none
      fun _ hm => absurd hm (Option.not_mem_none _)).mp h
    rw [hlisted] at hwithin
    exact absurd (hwithin _ (List.mem_singleton.mpr rfl) rfl) (by decide)

end Exports

end AgenticOrg.Governance
