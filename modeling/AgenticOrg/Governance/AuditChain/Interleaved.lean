import AgenticOrg.Governance.AuditChain.Walks
import AgenticOrg.Lib.Json.Written

namespace AgenticOrg.Governance

open JsonText HashChains

section Committed

variable {δ : Type} {platform : Platform δ} {reads : Reads δ} {tenantId : String}

theorem Kept.headSeq_eq {store : Store δ} (h : Kept platform store) (tenantId : String) :
    store.headSeq tenantId = (sealedInOrder store.rows tenantId).length := (h.invariant.head tenantId).1

theorem Grown.headSeq_le {store later : Store δ} (h : Grown store later) (hs : Kept platform store)
    (hl : Kept platform later) (tenantId : String) : store.headSeq tenantId ≤ later.headSeq tenantId := by
  rw [hs.headSeq_eq, hl.headSeq_eq]
  exact_mod_cast (h.chain tenantId).length_le

-- What the reads of a verification find when rows are written and sealed between them.
structure Reads.Committed (platform : Platform δ) (reads : Reads δ) : Prop where
  head : Kept platform reads.head
  anchor : Kept platform reads.anchor
  anchored : Kept platform reads.anchored
  expected : Kept platform reads.expected
  before : Kept platform reads.before
  pages : ∀ store ∈ reads.pages, Kept platform store
  head_anchor : Grown reads.head reads.anchor
  anchor_anchored : Grown reads.anchor reads.anchored
  head_expected : Grown reads.head reads.expected
  head_before : Grown reads.head reads.before
  before_pages : ∀ store ∈ reads.pages, Grown reads.before store
  pages_grown : reads.pages.Pairwise Grown

theorem emptyStore_kept (platform : Platform δ) : Kept platform (emptyStore : Store δ) :=
  ⟨emptyStore_chained platform, fun _ hr => absurd hr List.not_mem_nil⟩

theorem Reads.Interleaved.committed (h : reads.Interleaved platform) : reads.Committed platform := by
  obtain ⟨hall, hpairs⟩ := kept_chain platform reads.inOrder emptyStore (emptyStore_kept platform) h
  have hkept : ∀ store ∈ reads.inOrder, Kept platform store := fun store hs => (hall store hs).1
  rw [Reads.inOrder, List.pairwise_append] at hpairs
  obtain ⟨hfirst, hpages, hcross⟩ := hpairs
  simp only [List.pairwise_cons, List.mem_cons, List.not_mem_nil, or_false, forall_eq_or_imp, forall_eq] at hfirst
  exact {
    head := hkept _ (by simp [Reads.inOrder])
    anchor := hkept _ (by simp [Reads.inOrder])
    anchored := hkept _ (by simp [Reads.inOrder])
    expected := hkept _ (by simp [Reads.inOrder])
    before := hkept _ (by simp [Reads.inOrder])
    pages := fun store hs => hkept store (List.mem_append_right _ hs)
    head_anchor := hfirst.1.2.1
    anchor_anchored := hfirst.2.2.1.1
    head_expected := hfirst.1.2.2.2.1
    head_before := hfirst.1.2.2.2.2
    before_pages := fun store hs => hcross _ (by simp) store hs
    pages_grown := hpages }

-- The stored anchor is ahead of the head exactly when rows were sealed between the two reads.
theorem Reads.Committed.anchorsBreak_eq (h : reads.Committed platform) (expected : Option Head)
    (hexpected : ∀ head ∈ expected, (tenantId, head) ∈ reads.head.logged) :
    anchorsBreak reads tenantId expected =
      if reads.head.headSeq tenantId < reads.anchor.headSeq tenantId then
        some ⟨reads.head.headSeq tenantId + 1, none, .truncated⟩
      else none := by
  have hsupplied : expected.bind
      (anchorBreak reads.expected.rows tenantId (headOf (headRow reads.head.rows tenantId))) = none := by
    cases expected with
    | none => rfl
    | some head =>
        obtain ⟨row, hr, hseq, hhash⟩ := h.head.invariant.logged (tenantId, head) (hexpected head rfl)
        have hle := (chained_seq platform 1 GENESIS _ (h.head.invariant.chained tenantId) row hr).2
        have hhead := h.head.headSeq_eq tenantId
        rw [Store.headSeq] at hhead
        rw [Option.bind_some]
        have hnumber : seqOf row = head.seq := hseq
        exact h.expected.invariant.anchorBreak_none _ head (by omega) row ((h.head_expected.chain tenantId).subset hr)
          hseq hhash
  rw [anchorsBreak, hsupplied, h.anchor.invariant.anchored tenantId, Option.or_none]
  have hheadSeq : reads.anchor.headSeq tenantId = (headOf (headRow reads.anchor.rows tenantId)).seq := rfl
  have hle := h.head_anchor.headSeq_le h.head h.anchor tenantId
  cases hrow : headRow reads.anchor.rows tenantId with
  | none =>
      rw [hrow] at hheadSeq
      have hzero : reads.anchor.headSeq tenantId = 0 := hheadSeq
      have hfirst : 0 ≤ reads.head.headSeq tenantId := by
        rw [h.head.headSeq_eq]
        omega
      rw [if_neg (by omega)]
      rfl
  | some row =>
      rw [hrow] at hheadSeq
      have hmem : row ∈ sealedInOrder reads.anchor.rows tenantId := List.mem_of_getLast? hrow
      rw [Option.map_some, Option.bind_some]
      split_ifs with hlater
      · have hpos := (chained_seq platform 1 GENESIS _ (h.anchor.invariant.chained tenantId) row hmem).1
        have hseq : (headOf (some row)).seq = seqOf row := rfl
        rw [anchorBreak, if_neg (by omega), ← hheadSeq]
        exact if_pos hlater
      · have hhash : hashOf row = (headOf (some row)).hash := by
          have htip := (h.anchor.invariant.head tenantId).2
          rw [hrow] at htip
          have hchain := h.anchor.invariant.chained tenantId
          obtain ⟨front, hfront⟩ := List.getLast?_eq_some_iff.mp hrow
          rw [htip, hfront, List.map_append, tip_append]
          rfl
        refine h.anchored.invariant.anchorBreak_none _ _ ?_ row ((h.anchor_anchored.chain tenantId).subset hmem) rfl hhash
        rw [← hheadSeq]
        exact not_lt.mp hlater

-- The link before a range that starts within the chain.
theorem Kept.linkBefore_reached {store : Store δ} (h : Kept platform store) (start : ℤ) (hpos : 1 ≤ start)
    (hle : start ≤ store.headSeq tenantId + 1) :
    ∃ prev, linkBefore store.rows tenantId start = .ok prev ∧
      Reached (sealedInOrder store.rows tenantId) (unwalked start prev) := by
  rw [h.headSeq_eq] at hle
  rw [linkBefore]
  split_ifs with hlater
  · obtain ⟨count, hcount⟩ := Int.eq_ofNat_of_zero_le (show 0 ≤ start - 1 by omega)
    have hchain := h.invariant.chained tenantId
    have hsplit := List.take_append_drop count (sealedInOrder store.rows tenantId)
    have hlength : ((sealedInOrder store.rows tenantId).take count).length = count := by
      rw [List.length_take]
      omega
    rcases List.eq_nil_or_concat ((sealedInOrder store.rows tenantId).take count) with hnil | ⟨front, row, hlast⟩
    · rw [hnil, List.length_nil] at hlength
      omega
    · rw [hlast, List.length_concat] at hlength
      rw [hlast, List.concat_eq_append] at hsplit
      have hseq : seqOf row = start - 1 := by
        rw [← hsplit, List.append_assoc] at hchain
        obtain ⟨_, hrow, _⟩ := (chained_append platform 1 GENESIS front _).mp hchain
        have hnumber : seqOf row = 1 + front.length := hrow
        omega
      have hmem : row ∈ sealedInOrder store.rows tenantId := hsplit ▸ by simp
      refine ⟨hashOf row, ?_, front ++ [row], _, hsplit.symm, ?_, ?_⟩
      · rw [← hseq, sealedRows_at (h.invariant.ascending tenantId) row hmem]
        exact if_pos rfl
      · rw [unwalked, List.length_append, List.length_singleton]
        dsimp only
        omega
      · rw [List.map_append, tip_append]
        rfl
  · obtain rfl : start = 1 := by omega
    exact ⟨GENESIS, rfl, [], _, rfl, rfl, rfl⟩

-- Enough page reads to come up with the chain.
def Reads.Enough (reads : Reads δ) (tenantId : String) : Prop :=
  reads.pages ≠ [] ∧ ∀ store ∈ reads.pages, (sealedInOrder store.rows tenantId).length < reads.pages.length

-- A verification between whose reads rows are written and sealed finds a break exactly when rows of the
-- tenant were sealed after the head was read and before the anchor was.
theorem verify_interleaved (hreads : reads.Interleaved platform) (fromSeq : ℤ) (limit : Option ℕ) (expected : Option Head)
    (hexpected : ∀ head ∈ expected, (tenantId, head) ∈ reads.head.logged)
    (hfrom : fromSeq ≤ reads.head.headSeq tenantId + 1) (henough : reads.Enough tenantId) :
    (verify platform reads tenantId fromSeq limit expected).map (·.firstBreak) =
      some (if reads.head.headSeq tenantId < reads.anchor.headSeq tenantId then
        some ⟨reads.head.headSeq tenantId + 1, none, .truncated⟩ else none) := by
  have h := hreads.committed
  rw [verify, h.anchorsBreak_eq expected hexpected]
  by_cases hlater : reads.head.headSeq tenantId < reads.anchor.headSeq tenantId
  · rw [if_pos hlater]
    rfl
  rw [if_neg hlater]
  dsimp only
  by_cases hzero : (headOf (headRow reads.head.rows tenantId)).seq = 0
  · rw [if_pos hzero]
    rfl
  · have hfirst : 0 ≤ reads.head.headSeq tenantId := by
      rw [h.head.headSeq_eq]
      omega
    have hbefore := h.head_before.headSeq_le h.head h.before tenantId
    obtain ⟨prev, hlink, hreached⟩ := @Kept.linkBefore_reached _ _ tenantId _ h.before (verifyStart fromSeq)
      (le_max_left _ _) (by rw [verifyStart]; omega)
    obtain ⟨store, hstore⟩ := List.exists_mem_of_ne_nil _ henough.1
    have hlong := henough.2 store hstore
    have hgrown := (h.before_pages store hstore).headSeq_le h.before (h.pages store hstore) tenantId
    rw [(h.pages store hstore).headSeq_eq] at hgrown
    obtain ⟨after, hwalk⟩ := @walkPages_grown _ _ tenantId reads.pages limit (unwalked (verifyStart fromSeq) prev)
      (reads.pages.length - 1) h.pages h.pages_grown
      (fun other ho => hreached.mono ((h.before_pages other ho).chain tenantId))
      (fun other ho => by have := henough.2 other ho; omega)
      (by rw [unwalked]; dsimp only; rw [verifyStart]; omega)
      (by rw [unwalked]; dsimp only; rw [verifyStart]; omega)
    have hfound : walkFrom platform reads tenantId (verifyStart fromSeq) limit = some (after, none) := by
      unfold walkFrom
      rw [hlink]
      exact hwalk
    rw [if_neg hzero, hfound]
    rfl

end Committed

section Sample

def sampleFloat : FloatText Empty where
  write := Empty.elim
  starts := fun d => d.elim
  open_ := fun d => d.elim
  marked := fun d => d.elim

-- The time at zero, and a mark for each microsecond before or after it.
def sampleTime (time : ℤ) : String :=
  String.ofList ("1970-01-01T00:00:00+00:00".toList ++ (List.replicate time.toNat '+' ++ List.replicate (-time).toNat '-'))

-- Tells the first link from the others.
def sampleDigest (material : Text) : String :=
  String.ofList (List.replicate 64 (if (material.drop 2).head? = some (code '0') then 'a' else 'b'))

def samplePlatform : Platform Empty where
  float := sampleFloat
  isoformat := sampleTime
  sha256 := sampleDigest
  hexdigest := fun material => by
    rw [sampleDigest, String.length_ofList, List.length_replicate]
  hmac := sampleDigest

def sampleRow : AuditLog Empty where
  id := "1"
  tenantId := "acme"
  eventType := "tool.search"
  actorType := "agent"
  actorId := "agent-1"
  agentId := none
  workflowRunId := none
  resourceType := none
  resourceId := none
  action := "search"
  outcome := "success"
  details := .obj []
  signature := none
  traceId := none
  chainSeq := none
  chainPrev := none
  chainHash := none
  sealedAt := none
  createdAt := 0

def sampleSteps : List (StoreStep Empty) := [.insert sampleRow, .sealing "acme" 1 0]

def sampleStore : Store Empty := emptyStore.run samplePlatform sampleSteps

-- A row is sealed while a verification stands between its reads of the head and of the anchor.
def sampleReads : Reads Empty := { sampleStore.snapshot with head := emptyStore, backlog := emptyStore }

theorem sampleSteps_signed : ∀ step ∈ sampleSteps, step.WellSigned samplePlatform := by
  intro step hs
  rcases List.mem_cons.mp hs with rfl | hs
  · exact fun h => absurd h Bool.false_ne_true
  · rw [List.mem_singleton.mp hs]
    trivial

theorem verify_sealed_between :
    (verify samplePlatform sampleReads "acme" 1 none none).map (·.firstBreak) = some (some ⟨1, none, .truncated⟩) := by
  have hsame : ∀ store : Store Empty, Follows samplePlatform store store :=
    fun store => ⟨[], fun _ hs => absurd hs List.not_mem_nil, rfl⟩
  have hreads : sampleReads.Interleaved samplePlatform :=
    .cons_cons (hsame _) (.cons_cons (hsame _) (.cons_cons ⟨sampleSteps, sampleSteps_signed, rfl⟩ (.cons_cons (hsame _)
      (.cons_cons (hsame _) (.cons_cons (hsame _) (.cons_cons (hsame _) (.cons_cons (hsame _) (.singleton _))))))))
  have henough : sampleReads.Enough "acme" := by
    refine ⟨List.cons_ne_nil _ _, fun store hs => ?_⟩
    rw [List.eq_of_mem_replicate hs]
    decide
  exact verify_interleaved hreads 1 none none (fun _ h => absurd h (Option.not_mem_none _)) (by decide) henough

end Sample

section Materials

variable {δ : Type} (platform : Platform δ)

-- Two rows that say the same; numbers of the details are told by how they are written.
structure SameSigned (a b : AuditLog δ) : Prop where
  tenantId : a.tenantId = b.tenantId
  eventType : a.eventType = b.eventType
  actorType : a.actorType = b.actorType
  actorId : a.actorId = b.actorId
  agentId : a.agentId = b.agentId
  workflowRunId : a.workflowRunId = b.workflowRunId
  resourceType : a.resourceType = b.resourceType
  resourceId : a.resourceId = b.resourceId
  action : a.action = b.action
  outcome : a.outcome = b.outcome
  details : (detailsValue a.details).written platform.float = (detailsValue b.details).written platform.float
  traceId : a.traceId = b.traceId
  createdAt : a.createdAt = b.createdAt
  signature : a.signature.getD "" = b.signature.getD ""

-- What goes into a link besides the link before it.
def signedPart (row : AuditLog δ) : List (String × Value WrittenNumber) × String :=
  (writtenMembers platform.float (signedColumns platform row), row.signature.getD "")

theorem textValue_written (a b : Option String)
    (h : (textValue a).written platform.float = (textValue b).written platform.float) : a = b := by
  cases a with
  | none =>
      cases b with
      | none => rfl
      | some b => cases h
  | some a =>
      cases b with
      | none => cases h
      | some b => rw [Value.str.inj h]

theorem sameSigned_of_part (hiso : Function.Injective platform.isoformat) (a b : AuditLog δ)
    (h : signedPart platform a = signedPart platform b) : SameSigned platform a b := by
  obtain ⟨hcolumns, hsignature⟩ := Prod.mk.inj h
  simp only [signedColumns, writtenMembers, List.cons.injEq, Prod.mk.injEq, true_and, and_true] at hcolumns
  obtain ⟨haction, hactorId, hactorType, hagent, hcreated, hdetails, hevent, houtcome, hresource, htype, htenant, htrace,
    hworkflow⟩ := hcolumns
  exact {
    tenantId := Value.str.inj htenant
    eventType := Value.str.inj hevent
    actorType := Value.str.inj hactorType
    actorId := Value.str.inj hactorId
    agentId := textValue_written platform _ _ hagent
    workflowRunId := textValue_written platform _ _ hworkflow
    resourceType := textValue_written platform _ _ htype
    resourceId := textValue_written platform _ _ hresource
    action := Value.str.inj haction
    outcome := Value.str.inj houtcome
    details := hdetails
    traceId := textValue_written platform _ _ htrace
    createdAt := hiso (Value.str.inj hcreated)
    signature := hsignature }

-- A material is read back: the link before it is of one length, and the payload ends where its object does.
theorem linkMaterial_inj (prev other : String) (hp : prev.length = 64) (ho : other.length = 64) (a b : AuditLog δ)
    (h : linkMaterial platform prev a = linkMaterial platform other b) :
    prev = other ∧ signedPart platform a = signedPart platform b := by
  rw [linkMaterial, linkMaterial] at h
  have hlinks := (List.cons.inj (List.append_cancel_left h)).2
  have hlength : (text prev).length = (text other).length := by
    rw [text, text, List.length_map, List.length_map, String.length_toList, String.length_toList, hp, ho]
  obtain ⟨hprev, hrest⟩ := List.append_inj hlinks hlength
  obtain ⟨hcolumns, hend⟩ := obj_written_inj platform.float _ _ _ _ (List.cons.inj hrest).2
  have hsignature := text_injective (List.cons.inj hend).2
  exact ⟨text_injective hprev, Prod.ext hcolumns hsignature⟩

def linksOf (rows : List (AuditLog δ)) : List String := GENESIS :: rows.map hashOf

-- Of the materials the rows can be linked by, no two have one digest.
def CollisionFree (rows : List (AuditLog δ)) : Prop :=
  ∀ a ∈ rows, ∀ b ∈ rows, ∀ prev ∈ linksOf rows, ∀ other ∈ linksOf rows,
    linkHash platform prev a = linkHash platform other b → linkMaterial platform prev a = linkMaterial platform other b

theorem CollisionFree.binding {rows : List (AuditLog δ)} (h : CollisionFree platform rows) :
    Binding (linkHash platform) (signedPart platform) (fun hash => hash ∈ linksOf rows ∧ hash.length = 64) (· ∈ rows) := by
  intro prev a other b hprev hother ha hb hlink
  exact linkMaterial_inj platform prev other hprev.2 hother.2 a b (h a ha b hb prev hprev.1 other hother.1 hlink)

end Materials

section Tampering

variable {δ : Type} (platform : Platform δ) {tenantId : String}

-- The rows of a chain up to a number.
def rowsUpTo (rows : List (AuditLog δ)) (tenantId : String) (seq : ℤ) : List (AuditLog δ) :=
  (sealedFrom rows tenantId 1).filter fun row => seqOf row ≤ seq

theorem upTo_entries (rows : List (AuditLog δ)) (seq : ℤ) :
    ((rows.map entryOf).filter fun entry => entry.seq ≤ seq).map (fun entry => signedPart platform entry.row) =
      (rows.filter fun row => seqOf row ≤ seq).map (signedPart platform) := by
  rw [List.filter_map, List.map_map]
  rfl

theorem forall₂_of_parts (hiso : Function.Injective platform.isoformat) (xs ys : List (AuditLog δ))
    (h : xs.map (signedPart platform) = ys.map (signedPart platform)) : List.Forall₂ (SameSigned platform) xs ys := by
  have hparts : List.Forall₂ Eq (xs.map (signedPart platform)) (ys.map (signedPart platform)) := by
    rw [List.forall₂_eq_eq_eq]
    exact h
  exact (List.forall₂_map_right_iff.mp (List.forall₂_map_left_iff.mp hparts)).imp
    fun a b hab => sameSigned_of_part platform hiso a b hab

-- Whatever became of the store, a verification that finds no break against a head that was logged finds the
-- rows that were sealed up to it.
theorem tampering_noticed (steps : List (StoreStep δ)) (head : Head) (other : Store δ) (report : Verification)
    (hlogged : (tenantId, head) ∈ (emptyStore.run platform steps).logged)
    (hunique : UniqueSeqs other.rows tenantId)
    (hiso : Function.Injective platform.isoformat)
    (hfree : CollisionFree platform ((emptyStore.run platform steps).rows ++ other.rows))
    (hreport : verify platform other.snapshot tenantId 1 none (some head) = some report)
    (hsound : report.firstBreak = none) :
    List.Forall₂ (SameSigned platform) (rowsUpTo (emptyStore.run platform steps).rows tenantId head.seq)
      (rowsUpTo other.rows tenantId head.seq) := by
  obtain ⟨hinv, _⟩ := (emptyStore_chained platform).run steps
  generalize emptyStore.run platform steps = store at *
  obtain ⟨row, hr, hseq, hhash⟩ := hinv.logged (tenantId, head) hlogged
  have hchain := hinv.chained tenantId
  have hfirst := (chained_seq platform 1 GENESIS _ hchain row hr).1
  have hnumber : seqOf row = head.seq := hseq
  -- the verification walked a chain that holds the head
  obtain ⟨walked, hwalked, hnone⟩ := verify_snapshot platform other tenantId hunique (some head)
  obtain rfl : walked = report := Option.some.inj (hwalked.symm.trans hreport)
  obtain ⟨hanchors, hwalk⟩ := hnone.mp hsound
  obtain ⟨_, hsupplied⟩ := Option.or_eq_none_iff.mp hanchors
  obtain ⟨hle, found, hf, hfseq, hfhash⟩ := (anchorBreak_none hunique.ascending _ head (by omega)).mp hsupplied
  have hnonzero : other.headSeq tenantId ≠ 0 := by
    intro hzero
    have hle' : head.seq ≤ other.headSeq tenantId := hle
    omega
  obtain ⟨hother, _⟩ := (walkRows_none platform _ _).mp (hwalk.resolve_left hnonzero)
  have hfmem : found ∈ sealedFrom other.rows tenantId 1 := List.mem_filter.mpr ⟨hf, decide_eq_true (by omega)⟩
  -- and so is made of the same rows
  have hgood : ∀ (seq : ℤ) (rows : List (AuditLog δ)), Chained platform seq GENESIS rows →
      (∀ row ∈ rows, row ∈ store.rows ++ other.rows) → ∀ entry ∈ rows.map entryOf,
        (entry.hash ∈ linksOf (store.rows ++ other.rows) ∧ entry.hash.length = 64) ∧ entry.row ∈ store.rows ++ other.rows := by
    intro seq rows hlinked hsub entry he
    obtain ⟨before, hbefore⟩ := linked_hash (linkHash platform) seq GENESIS _ hlinked entry he
    obtain ⟨row, hr, rfl⟩ := List.mem_map.mp he
    refine ⟨⟨List.mem_cons_of_mem _ (List.mem_map_of_mem (hsub row hr)), ?_⟩, hsub row hr⟩
    rw [hbefore]
    exact platform.hexdigest _
  have hparts := linked_agree_upTo (linkHash platform) (signedPart platform) _ _ hfree.binding 1 GENESIS
    ((sealedInOrder store.rows tenantId).map entryOf) ((sealedFrom other.rows tenantId 1).map entryOf) hchain hother
    ⟨List.mem_cons_self, rfl⟩
    (fun entry he => (List.mem_append.mp he).elim
      (hgood 1 _ hchain (fun row hr => List.mem_append_left _ ((mem_sealedInOrder _ _ _).mp hr).1) entry)
      (hgood 1 _ hother (fun row hr => List.mem_append_right _
        ((mem_sealedInOrder _ _ _).mp (List.mem_filter.mp hr).1).1) entry))
    (entryOf row) (entryOf found) (List.mem_map_of_mem hr) (List.mem_map_of_mem hfmem)
    (hnumber.trans hfseq.symm) (hhash.trans hfhash.symm)
  have hall : sealedFrom store.rows tenantId 1 = sealedInOrder store.rows tenantId :=
    List.filter_eq_self.mpr fun row hr => decide_eq_true (chained_seq platform 1 GENESIS _ hchain row hr).1
  rw [upTo_entries, upTo_entries] at hparts
  refine forall₂_of_parts platform hiso _ _ ?_
  rw [rowsUpTo, rowsUpTo, hall, ← hnumber]
  exact hparts

end Tampering

section Sample

theorem sampleTime_injective : Function.Injective sampleTime := by
  intro a b h
  have hmarks := List.append_cancel_left (String.ofList_injective h)
  have hplus := congrArg (List.count '+') hmarks
  have hminus := congrArg (List.count '-') hmarks
  simp only [List.count_append, List.count_replicate] at hplus hminus
  simp at hplus hminus
  omega

-- Tells a link by how the one before it starts and by whether its row is signed.
def tellingLetter (first last : Option CodePoint) : Char :=
  if first = some (code '0') then if last = some (code '|') then 'a' else 'b'
  else if first = some (code 'a') then if last = some (code '|') then 'c' else 'd'
  else if last = some (code '|') then 'e' else 'f'

def tellingDigest (material : Text) : String :=
  String.ofList (List.replicate 64 (tellingLetter (material.drop 2).head? material.getLast?))

def tellingPlatform : Platform Empty where
  float := sampleFloat
  isoformat := sampleTime
  sha256 := tellingDigest
  hexdigest := fun material => by
    rw [tellingDigest, String.length_ofList, List.length_replicate]
  hmac := fun _ => "s"

def signedRow : AuditLog Empty :=
  { sampleRow with id := "2", outcome := "failure", signature := some "s", createdAt := 1 }

def tellingSteps : List (StoreStep Empty) := [.insert sampleRow, .insert signedRow, .sealing "acme" 2 0]

def tellingStore : Store Empty := emptyStore.run tellingPlatform tellingSteps

-- The anchor is gone, and the rows lie the other way round under other ids and with other times of sealing.
def shuffledStore : Store Empty where
  rows := tellingStore.rows.reverse.map fun row => { row with id := row.id ++ "b", sealedAt := none }
  anchors := fun _ => none
  logged := []

def tellingLinks : List String := ['0', 'a', 'd'].map fun letter => String.ofList (List.replicate 64 letter)

-- What is looked at of a link's material.
theorem tellingDigest_link (prev : String) (row : AuditLog Empty) :
    linkHash tellingPlatform prev row = String.ofList (List.replicate 64
      (tellingLetter (text prev ++ [code '|']).head? (code '|' :: text (row.signature.getD "")).getLast?)) := by
  have hfirst : ((linkMaterial tellingPlatform prev row).drop 2).head? = (text prev ++ [code '|']).head? := by
    have hdrop : (linkMaterial tellingPlatform prev row).drop 2 = text prev ++ code '|' ::
        (canonicalAuditPayload tellingPlatform row ++ code '|' :: text (row.signature.getD "")) := rfl
    rw [hdrop, List.head?_append, List.head?_append]
    rfl
  have hlast : (linkMaterial tellingPlatform prev row).getLast? =
      (code '|' :: text (row.signature.getD "")).getLast? := by
    have hsplit : linkMaterial tellingPlatform prev row = (text CHAIN_VERSION ++ code '|' :: (text prev ++ code '|' ::
        canonicalAuditPayload tellingPlatform row)) ++ code '|' :: text (row.signature.getD "") := by
      simp only [linkMaterial, List.append_assoc, List.cons_append]
    rw [hsplit, List.getLast?_append, List.getLast?_cons, Option.some_or]
  rw [← hfirst, ← hlast]
  rfl

theorem tellingPlatform_collisionFree : CollisionFree tellingPlatform (tellingStore.rows ++ shuffledStore.rows) := by
  have hrows : ∀ row ∈ tellingStore.rows ++ shuffledStore.rows, ∃ own ∈ [sampleRow, signedRow],
      ∀ prev, linkMaterial tellingPlatform prev row = linkMaterial tellingPlatform prev own := by
    intro row hr
    rcases List.mem_cons.mp hr with rfl | hr
    · exact ⟨sampleRow, List.mem_cons_self, fun _ => rfl⟩
    rcases List.mem_cons.mp hr with rfl | hr
    · exact ⟨signedRow, List.mem_cons_of_mem _ List.mem_cons_self, fun _ => rfl⟩
    rcases List.mem_cons.mp hr with rfl | hr
    · exact ⟨signedRow, List.mem_cons_of_mem _ List.mem_cons_self, fun _ => rfl⟩
    · rw [List.mem_singleton.mp hr]
      exact ⟨sampleRow, List.mem_cons_self, fun _ => rfl⟩
  have hlinks : ∀ prev ∈ linksOf (tellingStore.rows ++ shuffledStore.rows), prev ∈ tellingLinks := by
    decide +kernel
  have hfirst : ∀ letter, (text (String.ofList (List.replicate 64 letter)) ++ [code '|']).head? =
      some (code letter) := by
    intro letter
    rw [text, String.toList_ofList]
    rfl
  have hdistinct : (([sampleRow, signedRow].product tellingLinks).map fun link =>
      tellingLetter (text link.2 ++ [code '|']).head? (code '|' :: text (link.1.signature.getD "")).getLast?).Nodup := by
    have hletters : (([sampleRow, signedRow].product tellingLinks).map fun link =>
        tellingLetter (text link.2 ++ [code '|']).head?
          (code '|' :: text (link.1.signature.getD "")).getLast?) = ['a', 'c', 'e', 'b', 'd', 'f'] := by
      simp only [tellingLinks, List.product, List.map_cons, List.map_nil, List.flatMap_cons, List.flatMap_nil,
        List.cons_append, List.nil_append, hfirst]
      decide
    rw [hletters]
    decide
  intro a ha b hb prev hp other ho h
  obtain ⟨own, hown, hsame⟩ := hrows a ha
  obtain ⟨another, hanother, hsame'⟩ := hrows b hb
  have hlinked : linkHash tellingPlatform prev own = linkHash tellingPlatform other another := by
    rw [linkHash, linkHash, ← hsame, ← hsame']
    exact h
  rw [tellingDigest_link, tellingDigest_link] at hlinked
  have hletter := List.replicate_right_injective (by decide : 64 ≠ 0) (String.ofList_injective hlinked)
  have hlink : (own, prev) = (another, other) := List.inj_on_of_nodup_map hdistinct
    (List.pair_mem_product.mpr ⟨hown, hlinks prev hp⟩) (List.pair_mem_product.mpr ⟨hanother, hlinks other ho⟩) hletter
  obtain ⟨rfl, rfl⟩ := Prod.mk.inj hlink
  rw [hsame, hsame']

theorem tampering_noticed_without_anchor :
    List.Forall₂ (SameSigned tellingPlatform) (rowsUpTo tellingStore.rows "acme" 2)
      (rowsUpTo shuffledStore.rows "acme" 2) :=
  tampering_noticed tellingPlatform tellingSteps ⟨2, String.ofList (List.replicate 64 'd'), some 0⟩ shuffledStore
    ⟨⟨2, String.ofList (List.replicate 64 'd'), none⟩, 0, 1, 2, 2, 1, none, none⟩
    (by decide +kernel) (by unfold UniqueSeqs; decide +kernel) sampleTime_injective tellingPlatform_collisionFree (by decide +kernel) rfl

end Sample

end AgenticOrg.Governance
