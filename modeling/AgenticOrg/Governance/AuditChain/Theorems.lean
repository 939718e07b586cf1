import AgenticOrg.Governance.AuditChain

namespace AgenticOrg.Governance

open JsonText HashChains

section Rows

variable {δ : Type} (platform : Platform δ)

def entryOf (row : AuditLog δ) : Entry (AuditLog δ) String := ⟨seqOf row, row.chainPrev.getD "", hashOf row, row⟩

def Chained (seq : ℤ) (prev : String) (rows : List (AuditLog δ)) : Prop :=
  Linked (linkHash platform) seq prev (rows.map entryOf)

-- A row that carries a signature carries its own.
def Signed (row : AuditLog δ) : Prop := row.signature.any (· ≠ "") = true → verifyAuditRow platform row = true

theorem linkHash_ne (prev : String) (row : AuditLog δ) : linkHash platform prev row ≠ "" := by
  intro h
  have hlength := platform.hexdigest (linkMaterial platform prev row)
  rw [← linkHash, h] at hlength
  exact absurd hlength (by decide)

theorem chained_append (seq : ℤ) (prev : String) (xs ys : List (AuditLog δ)) :
    Chained platform seq prev (xs ++ ys) ↔
      Chained platform seq prev xs ∧ Chained platform (seq + xs.length) (tip prev (xs.map entryOf)) ys := by
  rw [Chained, List.map_append, linked_append, List.length_map]
  rfl

theorem chained_ascending (seq : ℤ) (prev : String) (rows : List (AuditLog δ)) (h : Chained platform seq prev rows) :
    rows.Pairwise fun a b => seqOf a < seqOf b := by
  have hasc := linked_ascending (linkHash platform) seq prev _ h
  rwa [List.pairwise_map] at hasc

theorem chained_seq (seq : ℤ) (prev : String) (rows : List (AuditLog δ)) (h : Chained platform seq prev rows)
    (row : AuditLog δ) (hr : row ∈ rows) : seq ≤ seqOf row ∧ seqOf row < seq + rows.length := by
  have hseq := linked_seq (linkHash platform) seq prev _ h (entryOf row) (List.mem_map_of_mem hr)
  rwa [List.length_map] at hseq

-- The head is the number of links and the newest of them.
theorem headOf_chained (rows : List (AuditLog δ)) (h : Chained platform 1 GENESIS rows) :
    (headOf rows.getLast?).seq = rows.length ∧ (headOf rows.getLast?).hash = tip GENESIS (rows.map entryOf) := by
  rcases List.eq_nil_or_concat rows with rfl | ⟨init, row, rfl⟩
  · exact ⟨rfl, rfl⟩
  · rw [List.concat_eq_append] at *
    obtain ⟨_, hseq, _, hhash, _⟩ := (chained_append platform 1 GENESIS init [row]).mp h
    have hne : hashOf row ≠ "" := by
      intro he
      exact linkHash_ne platform _ row (hhash.symm.trans he)
    rw [List.getLast?_append, List.getLast?_singleton, Option.some_or, headOf, if_neg hne, List.map_append, tip_append,
      List.length_append, List.length_singleton]
    refine ⟨?_, rfl⟩
    have hnumber : seqOf row = 1 + (init.length : ℤ) := hseq
    push_cast
    omega

end Rows

section Order

variable {δ : Type}

theorem ordered_of_perm (xs ys : List (AuditLog δ)) (hperm : xs.Perm ys) (hasc : ys.Pairwise fun a b => seqOf a < seqOf b) :
    Replay.ordered seqOf xs = ys := by
  have hnodup : (ys.map seqOf).Nodup := by
    rw [List.Nodup, List.pairwise_map]
    exact hasc.imp fun hlt => hlt.ne
  refine Replay.eq_of_ascending seqOf _ _
    (Replay.ordered_ascending seqOf xs ((hperm.map seqOf).nodup_iff.mpr hnodup)) hasc fun row => ?_
  rw [Replay.mem_ordered]
  exact hperm.mem_iff

theorem mem_sealedInOrder (rows : List (AuditLog δ)) (tenantId : String) (row : AuditLog δ) :
    row ∈ sealedInOrder rows tenantId ↔ row ∈ rows ∧ row.tenantId = tenantId ∧ row.chainSeq.isSome = true := by
  rw [sealedInOrder, Replay.mem_ordered, List.mem_filter, isSealed, Bool.and_eq_true, decide_eq_true_eq]

end Order

section Sealing

variable {δ : Type} (platform : Platform δ)

-- What sealing does to a row.
def SealOf (row changed : AuditLog δ) : Prop :=
  changed.chainSeq.isSome = true ∧
    changed = { row with
      chainSeq := changed.chainSeq
      chainPrev := changed.chainPrev
      chainHash := changed.chainHash
      sealedAt := changed.sealedAt }

theorem SealOf.id {row changed : AuditLog δ} (h : SealOf row changed) : changed.id = row.id := by rw [h.2]

theorem SealOf.tenantId {row changed : AuditLog δ} (h : SealOf row changed) : changed.tenantId = row.tenantId := by
  rw [h.2]

theorem SealOf.signed {row changed : AuditLog δ} (h : SealOf row changed) (hs : Signed platform row) :
    Signed platform changed := by
  rw [h.2]
  exact hs

theorem sealRows_chained (now seq : ℤ) (prev : String) (rows : List (AuditLog δ)) :
    Chained platform (seq + 1) prev (sealRows platform now seq prev rows) := by
  induction rows generalizing seq prev with
  | nil => trivial
  | cons row rest ih => exact ⟨rfl, rfl, rfl, ih (seq + 1) _⟩

theorem sealRows_ids (now seq : ℤ) (prev : String) (rows : List (AuditLog δ)) :
    (sealRows platform now seq prev rows).map AuditLog.id = rows.map AuditLog.id := by
  induction rows generalizing seq prev with
  | nil => rfl
  | cons row rest ih => rw [sealRows, List.map_cons, List.map_cons, ih]

theorem sealRows_sealOf (now seq : ℤ) (prev : String) (rows : List (AuditLog δ)) (changed : AuditLog δ)
    (hc : changed ∈ sealRows platform now seq prev rows) :
    ∃ row ∈ rows, SealOf row changed ∧ changed.sealedAt = some now := by
  induction rows generalizing seq prev with
  | nil => cases hc
  | cons row rest ih =>
      rcases List.mem_cons.mp hc with rfl | hc
      · exact ⟨row, List.mem_cons_self, ⟨rfl, rfl⟩, rfl⟩
      · obtain ⟨other, ho, h⟩ := ih _ _ hc
        exact ⟨other, List.mem_cons_of_mem _ ho, h⟩

theorem mem_unsealedRows (rows : List (AuditLog δ)) (tenantId : String) (limit : ℕ) (row : AuditLog δ)
    (hr : row ∈ unsealedRows rows tenantId limit) : row ∈ rows ∧ row.tenantId = tenantId ∧ row.chainSeq = none := by
  have hmem := List.mem_of_mem_take hr
  rw [List.mem_insertionSort, unsealed, List.mem_filter, Bool.and_eq_true, decide_eq_true_eq, Option.isNone_iff_eq_none] at hmem
  exact hmem

theorem unsealedRows_ids (rows : List (AuditLog δ)) (tenantId : String) (limit : ℕ)
    (hd : (rows.map AuditLog.id).Nodup) : ((unsealedRows rows tenantId limit).map AuditLog.id).Nodup := by
  have hunsealed : ((unsealed rows tenantId).map AuditLog.id).Nodup := (List.filter_sublist.map _).nodup hd
  have hsorted := ((List.perm_insertionSort (writtenBefore · ·) (unsealed rows tenantId)).map AuditLog.id).nodup_iff.mpr
    hunsealed
  exact ((List.take_sublist _ _).map _).nodup hsorted

end Sealing

section Updates

variable {δ : Type} (rows changed : List (AuditLog δ)) (tenantId : String)

-- What is written back: rows of the tenant that were not sealed before.
structure Fills : Prop where
  distinct : (rows.map AuditLog.id).Nodup
  once : (changed.map AuditLog.id).Nodup
  fills : ∀ other ∈ changed, ∃ row ∈ rows, SealOf row other ∧ row.tenantId = tenantId ∧ row.chainSeq = none

variable {rows changed tenantId}

def newOf (changed : List (AuditLog δ)) (row : AuditLog δ) : AuditLog δ :=
  (changed.find? fun other => other.id = row.id).getD row

theorem Fills.newOf_cases (h : Fills rows changed tenantId) (row : AuditLog δ) (hr : row ∈ rows) :
    newOf changed row = row ∨
      newOf changed row ∈ changed ∧ SealOf row (newOf changed row) ∧ row.tenantId = tenantId ∧ row.chainSeq = none := by
  rw [newOf]
  cases hf : changed.find? fun other => other.id = row.id with
  | none => exact .inl rfl
  | some other =>
      have hmem := List.mem_of_find?_eq_some hf
      have hid : other.id = row.id := by simpa using List.find?_some hf
      obtain ⟨old, ho, hseal, htenant, hopen⟩ := h.fills other hmem
      obtain rfl : old = row := List.inj_on_of_nodup_map h.distinct ho hr (hseal.id.symm.trans hid)
      exact .inr ⟨hmem, hseal, htenant, hopen⟩

theorem Fills.newOf_sealed (h : Fills rows changed tenantId) (row : AuditLog δ) (hr : row ∈ rows)
    (hs : row.chainSeq.isSome = true) : newOf changed row = row := by
  rcases h.newOf_cases row hr with hsame | ⟨_, _, _, hopen⟩
  · exact hsame
  · rw [hopen] at hs
    cases hs

theorem Fills.newOf_changed (h : Fills rows changed tenantId) (other : AuditLog δ) (ho : other ∈ changed) :
    ∃ row ∈ rows, newOf changed row = other := by
  obtain ⟨row, hr, hseal, _, _⟩ := h.fills other ho
  refine ⟨row, hr, ?_⟩
  cases hf : changed.find? fun another => another.id = row.id with
  | none => exact absurd (decide_eq_true hseal.id) (List.find?_eq_none.mp hf other ho)
  | some another =>
      have hid : another.id = row.id := by simpa using List.find?_some hf
      rw [newOf, hf, Option.getD_some]
      exact List.inj_on_of_nodup_map h.once (List.mem_of_find?_eq_some hf) ho (hid.trans hseal.id.symm)

theorem updated_eq : updated rows changed = rows.map (newOf changed) := rfl

theorem Fills.ids (h : Fills rows changed tenantId) : (updated rows changed).map AuditLog.id = rows.map AuditLog.id := by
  rw [updated_eq, List.map_map]
  refine List.map_congr_left fun row hr => ?_
  rcases h.newOf_cases row hr with hsame | ⟨_, hseal, _, _⟩
  · exact congrArg AuditLog.id hsame
  · exact hseal.id

-- The chains of the other tenants stay as they are.
theorem Fills.sealed_other (h : Fills rows changed tenantId) (other : String) (hne : other ≠ tenantId) :
    sealedInOrder (updated rows changed) other = sealedInOrder rows other := by
  have hfilter : (updated rows changed).filter (isSealed other) = rows.filter (isSealed other) := by
    rw [updated_eq, List.filter_map]
    have hkept : ∀ row ∈ rows, isSealed other (newOf changed row) = isSealed other row ∧
        (isSealed other row = true → newOf changed row = row) := by
      intro row hr
      rcases h.newOf_cases row hr with hsame | ⟨_, hseal, htenant, hopen⟩
      · exact ⟨congrArg (isSealed other) hsame, fun _ => hsame⟩
      · have hneither : ∀ any : AuditLog δ, any.tenantId = tenantId → isSealed other any = false := by
          intro any ht
          rw [isSealed, ht, decide_eq_false (Ne.symm hne), Bool.false_and]
        rw [hneither _ (hseal.tenantId.trans htenant), hneither row htenant]
        exact ⟨rfl, fun hfalse => absurd hfalse Bool.false_ne_true⟩
    rw [List.filter_congr (p := isSealed other ∘ newOf changed) (q := isSealed other) fun row hr => (hkept row hr).1]
    refine (List.map_congr_left fun row hr => ?_).trans (List.map_id _)
    exact (hkept row (List.mem_of_mem_filter hr)).2 (List.of_mem_filter hr)
  rw [sealedInOrder, hfilter, sealedInOrder]

-- The tenant's own chain goes on with what was sealed.
theorem Fills.sealed_same (h : Fills rows changed tenantId)
    (hasc : (sealedInOrder rows tenantId ++ changed).Pairwise fun a b => seqOf a < seqOf b) :
    sealedInOrder (updated rows changed) tenantId = sealedInOrder rows tenantId ++ changed := by
  refine ordered_of_perm _ _ ((List.perm_ext_iff_of_nodup ?_ ?_).mpr fun row => ?_) hasc
  · exact (List.Nodup.of_map _ (h.ids ▸ h.distinct : ((updated rows changed).map AuditLog.id).Nodup)).filter _
  · exact hasc.imp fun {a b} (hlt : seqOf a < seqOf b) (he : a = b) => lt_irrefl (seqOf b) (he ▸ hlt)
  · rw [List.mem_append, mem_sealedInOrder, List.mem_filter, isSealed, Bool.and_eq_true, decide_eq_true_eq, updated_eq,
      List.mem_map]
    constructor
    · rintro ⟨⟨old, ho, rfl⟩, htenant, hs⟩
      rcases h.newOf_cases old ho with hsame | ⟨hmem, _⟩
      · rw [hsame] at htenant hs ⊢
        exact .inl ⟨ho, htenant, hs⟩
      · exact .inr hmem
    · rintro (⟨hr, htenant, hs⟩ | hc)
      · exact ⟨⟨row, hr, h.newOf_sealed row hr hs⟩, htenant, hs⟩
      · obtain ⟨old, ho, hnew⟩ := h.newOf_changed row hc
        obtain ⟨_, _, hseal, htenant, _⟩ := h.fills row hc
        exact ⟨⟨old, ho, hnew⟩, hseal.tenantId.trans htenant, hseal.1⟩

end Updates

section Invariant

variable {δ : Type} (platform : Platform δ)

structure ChainInvariant (store : Store δ) : Prop where
  distinct : (store.rows.map AuditLog.id).Nodup
  chained : ∀ tenantId, Chained platform 1 GENESIS (sealedInOrder store.rows tenantId)
  anchored : ∀ tenantId, store.anchors tenantId = (headRow store.rows tenantId).map fun row => headOf (some row)
  logged : ∀ entry ∈ store.logged,
    ∃ row ∈ sealedInOrder store.rows entry.1, seqOf row = entry.2.seq ∧ hashOf row = entry.2.hash

-- The rows are written with their own signatures, or with none.
def StoreStep.WellSigned : StoreStep δ → Prop
  | .insert row => Signed platform row
  | .sealing _ _ _ => True

-- A later state of the store: every tenant's chain goes on from where it was.
structure Grown (store later : Store δ) : Prop where
  chain : ∀ tenantId, sealedInOrder store.rows tenantId <+: sealedInOrder later.rows tenantId
  logged : store.logged <+: later.logged

theorem Grown.refl (store : Store δ) : Grown store store := ⟨fun _ => List.prefix_rfl, List.prefix_rfl⟩

theorem Grown.trans {a b c : Store δ} (h : Grown a b) (h' : Grown b c) : Grown a c :=
  ⟨fun tenantId => (h.chain tenantId).trans (h'.chain tenantId), h.logged.trans h'.logged⟩

theorem emptyStore_chained : ChainInvariant platform (emptyStore : Store δ) where
  distinct := List.nodup_nil
  chained := fun _ => trivial
  anchored := fun _ => rfl
  logged := fun _ he => absurd he List.not_mem_nil

theorem ChainInvariant.head {platform : Platform δ} {store : Store δ} (h : ChainInvariant platform store)
    (tenantId : String) :
    (headOf (headRow store.rows tenantId)).seq = (sealedInOrder store.rows tenantId).length ∧
      (headOf (headRow store.rows tenantId)).hash = tip GENESIS ((sealedInOrder store.rows tenantId).map entryOf) :=
  headOf_chained platform _ (h.chained tenantId)

theorem sealedInOrder_insert (rows : List (AuditLog δ)) (row : AuditLog δ) (hopen : row.chainSeq = none)
    (tenantId : String) : sealedInOrder (rows ++ [row]) tenantId = sealedInOrder rows tenantId := by
  have hout : [row].filter (isSealed tenantId) = [] := by
    rw [List.filter_singleton, isSealed, hopen, Option.isSome_none, Bool.and_false]
    rfl
  rw [sealedInOrder, List.filter_append, hout, List.append_nil, sealedInOrder]

theorem ChainInvariant.insert {platform : Platform δ} {store : Store δ} (h : ChainInvariant platform store)
    (row : AuditLog δ) :
    ChainInvariant platform (store.step platform (.insert row)) ∧ Grown store (store.step platform (.insert row)) := by
  rw [Store.step]
  split
  next => exact ⟨h, .refl store⟩
  next hfresh =>
    have hsame : ∀ tenantId, sealedInOrder (store.rows ++
        [{ row with chainSeq := none, chainPrev := none, chainHash := none, sealedAt := none }]) tenantId =
          sealedInOrder store.rows tenantId := sealedInOrder_insert store.rows _ rfl
    refine ⟨⟨?_, ?_, ?_, ?_⟩, ⟨?_, List.prefix_rfl⟩⟩
    · rw [List.map_append, List.map_singleton]
      exact List.nodup_append.mpr ⟨h.distinct, List.nodup_singleton _, fun a ha b hb => by
        rw [List.mem_singleton.mp hb]
        rintro rfl
        exact hfresh ha⟩
    · exact fun tenantId => (hsame tenantId).symm ▸ h.chained tenantId
    · intro tenantId
      rw [headRow, hsame]
      exact h.anchored tenantId
    · intro entry he
      rw [hsame]
      exact h.logged entry he
    · exact fun tenantId => (hsame tenantId).symm ▸ List.prefix_rfl

-- What a sealing writes back.
def sealedBatch (store : Store δ) (tenantId : String) (batch : ℕ) (now : ℤ) : List (AuditLog δ) :=
  sealRows platform now (headOf (headRow store.rows tenantId)).seq (headOf (headRow store.rows tenantId)).hash
    (unsealedRows store.rows tenantId (max 1 batch))

theorem ChainInvariant.fills {platform : Platform δ} {store : Store δ} (h : ChainInvariant platform store)
    (tenantId : String) (batch : ℕ) (now : ℤ) :
    Fills store.rows (sealedBatch platform store tenantId batch now) tenantId where
  distinct := h.distinct
  once := by
    rw [sealedBatch, sealRows_ids]
    exact unsealedRows_ids store.rows tenantId _ h.distinct
  fills := by
    intro other ho
    obtain ⟨row, hr, hseal, _⟩ := sealRows_sealOf platform _ _ _ _ other ho
    obtain ⟨hmem, htenant, hopen⟩ := mem_unsealedRows store.rows tenantId _ row hr
    exact ⟨row, hmem, hseal, htenant, hopen⟩

theorem ChainInvariant.extended {platform : Platform δ} {store : Store δ} (h : ChainInvariant platform store)
    (tenantId : String) (batch : ℕ) (now : ℤ) :
    Chained platform 1 GENESIS
      (sealedInOrder store.rows tenantId ++ sealedBatch platform store tenantId batch now) := by
  obtain ⟨hseq, hhash⟩ := h.head tenantId
  refine (chained_append platform 1 GENESIS _ _).mpr ⟨h.chained tenantId, ?_⟩
  rw [sealedBatch, ← hhash, add_comm, ← hseq]
  exact sealRows_chained platform now _ _ _

theorem ChainInvariant.seal {platform : Platform δ} {store : Store δ} (h : ChainInvariant platform store)
    (tenantId : String) (batch : ℕ) (now : ℤ) :
    ChainInvariant platform (store.seal platform tenantId batch now) ∧
      Grown store (store.seal platform tenantId batch now) := by
  have hfills := h.fills tenantId batch now
  have hchain := h.extended tenantId batch now
  have hmine := hfills.sealed_same (chained_ascending platform 1 GENESIS _ hchain)
  rw [Store.seal, ← sealedBatch]
  split
  next => exact ⟨h, .refl store⟩
  next hsome =>
    obtain ⟨init, last, hlast⟩ := (List.eq_nil_or_concat (sealedBatch platform store tenantId batch now)).resolve_left
      fun hnil => hsome (by rw [hnil]; rfl)
    rw [List.concat_eq_append] at hlast
    have hgetLast : (sealedBatch platform store tenantId batch now).getLast? = some last := by
      rw [hlast, List.getLast?_append, List.getLast?_singleton, Option.some_or]
    have hmem : last ∈ sealedBatch platform store tenantId batch now := List.mem_of_getLast? hgetLast
    obtain ⟨_, _, _, hsealedAt⟩ := sealRows_sealOf platform now _ _ _ last hmem
    have hheadRow : (sealedInOrder store.rows tenantId ++ sealedBatch platform store tenantId batch now).getLast? =
        some last := by
      rw [List.getLast?_append, hgetLast, Option.some_or]
    have hne : hashOf last ≠ "" := by
      intro he
      rw [hlast, ← List.append_assoc] at hchain
      obtain ⟨_, _, _, hlink, _⟩ := (chained_append platform 1 GENESIS _ [last]).mp hchain
      exact linkHash_ne platform _ last (hlink.symm.trans he)
    have hhead : lastHead now (headOf (headRow store.rows tenantId)) (sealedBatch platform store tenantId batch now) =
        headOf (some last) := by
      rw [lastHead, hgetLast, headOf, if_neg hne, hsealedAt]
    have hgrown : ∀ other, sealedInOrder store.rows other <+:
        sealedInOrder (updated store.rows (sealedBatch platform store tenantId batch now)) other := by
      intro other
      by_cases ho : other = tenantId
      · rw [ho, hmine]
        exact List.prefix_append _ _
      · exact (hfills.sealed_other other ho).symm ▸ List.prefix_rfl
    refine ⟨⟨?_, ?_, ?_, ?_⟩, ⟨hgrown, List.prefix_append _ _⟩⟩
    · rw [hfills.ids]
      exact h.distinct
    · intro other
      by_cases ho : other = tenantId
      · rw [ho, hmine]
        exact hchain
      · rw [hfills.sealed_other other ho]
        exact h.chained other
    · intro other
      change Function.update store.anchors tenantId _ other =
        (sealedInOrder (updated store.rows (sealedBatch platform store tenantId batch now)) other).getLast?.map _
      by_cases ho : other = tenantId
      · rw [ho, Function.update_self, hmine, hheadRow, hhead]
        rfl
      · rw [Function.update_of_ne ho, hfills.sealed_other other ho]
        exact h.anchored other
    · intro entry he
      rcases List.mem_append.mp he with he | he
      · obtain ⟨row, hr, hlink⟩ := h.logged entry he
        exact ⟨row, (hgrown entry.1).subset hr, hlink⟩
      · rw [List.mem_singleton.mp he, hhead]
        refine ⟨last, hmine ▸ List.mem_append_right _ hmem, rfl, ?_⟩
        rw [headOf, if_neg hne]

theorem ChainInvariant.step {platform : Platform δ} {store : Store δ} (h : ChainInvariant platform store)
    (step : StoreStep δ) :
    ChainInvariant platform (store.step platform step) ∧ Grown store (store.step platform step) := by
  cases step with
  | insert row => exact h.insert row
  | sealing tenantId batch now => exact h.seal tenantId batch now

theorem ChainInvariant.run {platform : Platform δ} {store : Store δ} (h : ChainInvariant platform store)
    (steps : List (StoreStep δ)) :
    ChainInvariant platform (store.run platform steps) ∧ Grown store (store.run platform steps) := by
  induction steps generalizing store with
  | nil => exact ⟨h, .refl store⟩
  | cons step rest ih =>
      obtain ⟨hstep, hgrown⟩ := h.step step
      obtain ⟨hrest, hlater⟩ := ih hstep
      exact ⟨hrest, hgrown.trans hlater⟩

-- Sealing leaves the signatures good.
theorem ChainInvariant.signed_step {platform : Platform δ} {store : Store δ} (h : ChainInvariant platform store)
    (step : StoreStep δ) (hs : step.WellSigned platform) (hrows : ∀ row ∈ store.rows, Signed platform row) :
    ∀ row ∈ (store.step platform step).rows, Signed platform row := by
  cases step with
  | insert row =>
      rw [Store.step]
      split
      next => exact hrows
      next =>
        intro other ho
        rcases List.mem_append.mp ho with ho | ho
        · exact hrows other ho
        · rw [List.mem_singleton.mp ho]
          exact hs
  | sealing tenantId batch now =>
      rw [Store.step, Store.seal, ← sealedBatch]
      split
      next => exact hrows
      next =>
        intro row hr
        obtain ⟨old, ho, rfl⟩ := List.mem_map.mp hr
        rcases (h.fills tenantId batch now).newOf_cases old ho with hsame | ⟨_, hseal, _, _⟩
        · exact (hsame ▸ hrows old ho : Signed platform (newOf _ old))
        · exact hseal.signed platform (hrows old ho)

theorem ChainInvariant.signed_run {platform : Platform δ} {store : Store δ} (h : ChainInvariant platform store)
    (steps : List (StoreStep δ)) (hs : ∀ step ∈ steps, step.WellSigned platform)
    (hrows : ∀ row ∈ store.rows, Signed platform row) :
    ∀ row ∈ (store.run platform steps).rows, Signed platform row := by
  induction steps generalizing store with
  | nil => exact hrows
  | cons step rest ih =>
      exact ih (h.step step).1 (fun other ho => hs other (List.mem_cons_of_mem _ ho))
        (h.signed_step step (hs step List.mem_cons_self) hrows)

end Invariant

end AgenticOrg.Governance
