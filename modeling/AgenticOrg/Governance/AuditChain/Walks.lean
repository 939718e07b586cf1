import AgenticOrg.Governance.AuditChain.Theorems

namespace AgenticOrg.Governance

open JsonText HashChains

section Rows

variable {δ : Type} (platform : Platform δ)

-- A row passes when it is the next link and carries no signature but its own.
theorem checkRow_none (row : AuditLog δ) (expected : ℤ) (prev : String) :
    checkRow platform row expected prev = none ↔
      seqOf row = expected ∧ row.chainPrev.getD "" = prev ∧ hashOf row = linkHash platform prev row ∧
        Signed platform row := by
  have hsigned : ¬(row.signature.any (· ≠ "") = true ∧ verifyAuditRow platform row = false) ↔ Signed platform row := by
    rw [not_and, Bool.not_eq_false, Signed]
  rw [checkRow, ← hsigned]
  split_ifs with hseq hprev hhash hsig
  · exact ⟨fun h => h.elim, fun h => absurd h.1 hseq⟩
  · exact ⟨fun h => h.elim, fun h => absurd h.2.1 hprev⟩
  · exact ⟨fun h => h.elim, fun h => absurd h.2.2.1 hhash⟩
  · exact ⟨fun h => h.elim, fun h => absurd hsig h.2.2.2⟩
  · exact ⟨fun _ => ⟨not_not.mp hseq, not_not.mp hprev, not_not.mp hhash, hsig⟩, fun _ => rfl⟩

-- By induction on the rows: a walk ends without a break when the rows are a chain from where it stands.
theorem walkRows_none (rows : List (AuditLog δ)) (progress : Progress) :
    (walkRows platform progress rows).2 = none ↔
      Chained platform progress.expected progress.prev rows ∧ ∀ row ∈ rows, Signed platform row := by
  induction rows generalizing progress with
  | nil => exact ⟨fun _ => ⟨trivial, fun _ hr => absurd hr List.not_mem_nil⟩, fun _ => rfl⟩
  | cons row rest ih =>
      have hlinked : Chained platform progress.expected progress.prev (row :: rest) ↔
          seqOf row = progress.expected ∧ row.chainPrev.getD "" = progress.prev ∧
            hashOf row = linkHash platform progress.prev row ∧
              Chained platform (progress.expected + 1) (hashOf row) rest := Iff.rfl
      rw [walkRows, hlinked, List.forall_mem_cons]
      cases hcheck : checkRow platform row progress.expected progress.prev with
      | some reason =>
          refine ⟨fun h => absurd h (Option.some_ne_none _), fun h => ?_⟩
          have hnone := (checkRow_none platform row _ _).mpr ⟨h.1.1, h.1.2.1, h.1.2.2.1, h.2.1⟩
          rw [hcheck] at hnone
          cases hnone
      | none =>
          obtain ⟨hseq, hprev, hhash, hsigned⟩ := (checkRow_none platform row _ _).mp hcheck
          have hrest := ih (progress.past row)
          rw [Progress.past, hseq] at hrest
          dsimp only
          rw [Progress.past, hseq]
          exact hrest.trans ⟨fun h => ⟨⟨rfl, hprev, hhash, h.1⟩, hsigned, h.2⟩, fun h => ⟨h.1.2.2.2, h.2.2⟩⟩

-- Where a walk without a break stands afterwards.
theorem walkRows_progress (rows : List (AuditLog δ)) (progress : Progress)
    (h : (walkRows platform progress rows).2 = none) :
    (walkRows platform progress rows).1.expected = progress.expected + rows.length ∧
      (walkRows platform progress rows).1.prev = tip progress.prev (rows.map entryOf) := by
  induction rows generalizing progress with
  | nil => exact ⟨(add_zero _).symm, rfl⟩
  | cons row rest ih =>
      rw [walkRows] at h ⊢
      cases hcheck : checkRow platform row progress.expected progress.prev with
      | some reason =>
          rw [hcheck] at h
          cases h
      | none =>
          rw [hcheck] at h
          obtain ⟨hseq, _⟩ := (checkRow_none platform row _ _).mp hcheck
          obtain ⟨hexpected, hprev⟩ := ih (progress.past row) h
          refine ⟨hexpected.trans ?_, hprev⟩
          rw [Progress.past, hseq, List.length_cons]
          push_cast
          omega

theorem walkRows_append (xs ys : List (AuditLog δ)) (progress : Progress) :
    walkRows platform progress (xs ++ ys) =
      match walkRows platform progress xs with
      | (after, some found) => (after, some found)
      | (after, none) => walkRows platform after ys := by
  induction xs generalizing progress with
  | nil => rfl
  | cons row rest ih =>
      rw [List.cons_append, walkRows, walkRows]
      cases checkRow platform row progress.expected progress.prev with
      | some reason => rfl
      | none => exact ih (progress.past row)

end Rows

section Pages

variable {δ : Type} (platform : Platform δ) (rows : List (AuditLog δ)) (tenantId : String)

-- The unique index of the sequence numbers.
def UniqueSeqs : Prop := ((rows.filter (isSealed tenantId)).map seqOf).Nodup

def sealedFrom (fromSeq : ℤ) : List (AuditLog δ) := (sealedInOrder rows tenantId).filter fun row => fromSeq ≤ seqOf row

variable {rows tenantId}

theorem UniqueSeqs.ascending (h : UniqueSeqs rows tenantId) :
    (sealedInOrder rows tenantId).Pairwise fun a b => seqOf a < seqOf b :=
  Replay.ordered_ascending seqOf _ h

theorem length_sealedFrom (fromSeq : ℤ) : (sealedFrom rows tenantId fromSeq).length ≤ rows.length := by
  refine (List.length_filter_le _ _).trans ?_
  rw [sealedInOrder, Replay.ordered, List.length_insertionSort]
  exact List.length_filter_le _ _

-- What follows a row in the order is what has larger numbers.
theorem sealedFrom_after (hasc : (sealedInOrder rows tenantId).Pairwise fun a b => seqOf a < seqOf b) (fromSeq : ℤ)
    (front rest : List (AuditLog δ)) (row : AuditLog δ) (h : sealedFrom rows tenantId fromSeq = (front ++ [row]) ++ rest) :
    sealedFrom rows tenantId (seqOf row + 1) = rest := by
  have hmem : row ∈ sealedFrom rows tenantId fromSeq := h ▸ by simp
  have hfrom : fromSeq ≤ seqOf row := of_decide_eq_true (List.mem_filter.mp hmem).2
  have hsorted : (sealedFrom rows tenantId fromSeq).Pairwise fun a b => seqOf a < seqOf b := hasc.filter _
  rw [h, List.pairwise_append, List.pairwise_append] at hsorted
  obtain ⟨⟨_, _, hfront⟩, _, hrest⟩ := hsorted
  have htwice : sealedFrom rows tenantId (seqOf row + 1) =
      (sealedFrom rows tenantId fromSeq).filter fun other => seqOf row + 1 ≤ seqOf other := by
    rw [sealedFrom, sealedFrom, List.filter_filter]
    refine List.filter_congr fun other _ => ?_
    rw [eq_comm, Bool.and_eq_left_iff_imp]
    intro hlater
    have hle := of_decide_eq_true hlater
    exact decide_eq_true (by omega)
  rw [htwice, h, List.filter_append]
  have hdropped : (front ++ [row]).filter (fun other => seqOf row + 1 ≤ seqOf other) = [] := by
    refine List.filter_eq_nil_iff.mpr fun other ho hle => ?_
    have hlater := of_decide_eq_true hle
    rcases List.mem_append.mp ho with ho | ho
    · have := hfront other ho row (List.mem_singleton.mpr rfl)
      omega
    · rw [List.mem_singleton.mp ho] at hlater
      omega
  rw [hdropped, List.nil_append]
  refine List.filter_eq_self.mpr fun other ho => decide_eq_true ?_
  exact hrest row (by simp) other ho

-- The first of the rows from a row's number on is the row.
theorem sealedRows_at (hasc : (sealedInOrder rows tenantId).Pairwise fun a b => seqOf a < seqOf b) (row : AuditLog δ)
    (hr : row ∈ sealedInOrder rows tenantId) : (sealedRows rows tenantId (seqOf row) 1).head? = some row := by
  obtain ⟨front, rest, hsplit⟩ := List.append_of_mem hr
  rw [hsplit, List.pairwise_append] at hasc
  have hdropped : front.filter (fun other => seqOf row ≤ seqOf other) = [] := by
    refine List.filter_eq_nil_iff.mpr fun other ho hle => ?_
    have hlt := hasc.2.2 other ho row List.mem_cons_self
    exact absurd (of_decide_eq_true hle) (not_le.mpr hlt)
  rw [sealedRows, hsplit, List.filter_append, hdropped, List.nil_append, List.filter_cons_of_pos (by simp)]
  rfl

-- What is left to walk under a limit.
def limited (remaining : Option ℕ) (xs : List (AuditLog δ)) : List (AuditLog δ) :=
  match remaining with
  | none => xs
  | some limit => xs.take limit

theorem limited_page (remaining : Option ℕ) (xs : List (AuditLog δ)) :
    limited remaining xs = xs.take (pageSize remaining) ++
      limited (remaining.map (· - (xs.take (pageSize remaining)).length)) (xs.drop (pageSize remaining)) := by
  cases remaining with
  | none => exact (List.take_append_drop _ xs).symm
  | some limit =>
      rw [limited, pageSize, Option.map_some, limited, List.length_take]
      by_cases hlong : min PAGE limit ≤ xs.length
      · rw [min_eq_left hlong, ← List.take_add, Nat.add_sub_cancel' (min_le_right _ _)]
      · rw [List.drop_eq_nil_of_le (by omega), List.take_nil, List.append_nil, List.take_of_length_le (by omega),
          List.take_of_length_le (by omega)]

theorem limited_short (remaining : Option ℕ) (xs : List (AuditLog δ)) (h : xs.length < pageSize remaining) :
    limited remaining xs = xs := by
  cases remaining with
  | none => rfl
  | some limit =>
      rw [pageSize] at h
      exact List.take_of_length_le (by omega)

theorem pageSize_pos (remaining : Option ℕ) (h : remaining ≠ some 0) : 1 ≤ pageSize remaining := by
  cases remaining with
  | none => exact (by decide : 1 ≤ PAGE)
  | some limit =>
      have hpos : limit ≠ 0 := fun hz => h (congrArg some hz)
      rw [pageSize]
      exact le_min (by decide) (by omega)

-- The pages of one store are one pass over its rows: by induction on the pages, each but the last of which is full.
theorem walkPages_snapshot (store : Store δ) (h : UniqueSeqs store.rows tenantId) (pages : ℕ) (remaining : Option ℕ)
    (progress : Progress) (hpages : (sealedFrom store.rows tenantId progress.expected).length < pages) :
    walkPages platform tenantId (List.replicate pages store) remaining progress =
      some (walkRows platform progress (limited remaining (sealedFrom store.rows tenantId progress.expected))) := by
  induction pages generalizing remaining progress with
  | zero => omega
  | succ pages ih =>
      rw [List.replicate_succ, walkPages]
      split_ifs with hzero
      · rw [hzero, limited, List.take_zero]
        rfl
      · have hpos := pageSize_pos remaining hzero
        have hpage : sealedRows store.rows tenantId progress.expected (pageSize remaining) =
            (sealedFrom store.rows tenantId progress.expected).take (pageSize remaining) := rfl
        rw [hpage]
        have hsplit := limited_page remaining (sealedFrom store.rows tenantId progress.expected)
        generalize hleft : sealedFrom store.rows tenantId progress.expected = left at *
        rcases List.eq_nil_or_concat (left.take (pageSize remaining)) with hnil | ⟨front, row, hlast⟩
        · have hempty : left = [] := by
            rcases List.take_eq_nil_iff.mp hnil with hz | hz
            · omega
            · exact hz
          subst hempty
          rw [limited_short remaining [] (by rw [List.length_nil]; omega), List.take_nil]
          rfl
        · have hnonempty : (left.take (pageSize remaining)).isEmpty = false := by
            rw [hlast, List.concat_eq_append]
            simp
          dsimp only
          rw [hnonempty, hsplit, walkRows_append, if_neg Bool.false_ne_true]
          cases hwalk : walkRows platform progress (left.take (pageSize remaining)) with
          | mk after found =>
              cases found with
              | some found => rfl
              | none =>
                  dsimp only
                  obtain ⟨hchained, _⟩ := (walkRows_none platform _ progress).mp (congrArg Prod.snd hwalk)
                  have hafter := (walkRows_progress platform _ progress (congrArg Prod.snd hwalk)).1
                  rw [hwalk] at hafter
                  -- the page ends at its last row, and the next one starts behind it
                  have hrest : sealedFrom store.rows tenantId after.expected = left.drop (pageSize remaining) := by
                    have hseq : after.expected = seqOf row + 1 := by
                      rw [hlast, List.concat_eq_append] at hchained
                      obtain ⟨_, hrow, _⟩ := (chained_append platform _ _ front [row]).mp hchained
                      have hnumber : seqOf row = progress.expected + front.length := hrow
                      rw [hafter, hnumber, hlast, List.length_concat]
                      push_cast
                      omega
                    rw [hseq]
                    refine sealedFrom_after h.ascending progress.expected front _ row ?_
                    rw [hleft, ← List.concat_eq_append, ← hlast, List.take_append_drop]
                  split_ifs with hshort
                  · have hdone : left.drop (pageSize remaining) = [] := by
                      rw [List.length_take] at hshort
                      exact List.drop_eq_nil_of_le (by omega)
                    have hlimited : ∀ limit : Option ℕ, limited limit ([] : List (AuditLog δ)) = [] := by
                      intro limit
                      cases limit with
                      | none => rfl
                      | some limit => exact List.take_nil
                    rw [hdone, hlimited]
                    rfl
                  · rw [ih _ after ?_, hrest]
                    rw [hrest, List.length_drop]
                    rw [List.length_take] at hshort
                    omega

end Pages

section Snapshots

variable {δ : Type} (platform : Platform δ) (store : Store δ) (tenantId : String)

def Store.headSeq : ℤ := (headOf (headRow store.rows tenantId)).seq

-- A whole verification of one state of the store is one pass over its rows.
theorem verify_snapshot (h : UniqueSeqs store.rows tenantId) (expected : Option Head) :
    ∃ report, verify platform store.snapshot tenantId 1 none expected = some report ∧
      (report.firstBreak = none ↔ anchorsBreak store.snapshot tenantId expected = none ∧
        (store.headSeq tenantId = 0 ∨ (walkRows platform (unwalked 1 GENESIS) (sealedFrom store.rows tenantId 1)).2 = none)) := by
  have hpages : (sealedFrom store.rows tenantId (unwalked 1 GENESIS).expected).length < store.rows.length + 1 :=
    Nat.lt_succ_of_le (length_sealedFrom 1)
  have hwalk : walkFrom platform store.snapshot tenantId 1 none =
      some (walkRows platform (unwalked 1 GENESIS) (sealedFrom store.rows tenantId 1)) :=
    walkPages_snapshot platform store h _ none (unwalked 1 GENESIS) hpages
  unfold verify
  cases hanchors : anchorsBreak store.snapshot tenantId expected with
  | some found => exact ⟨_, rfl, fun hnone => absurd hnone (Option.some_ne_none _), fun hnone => absurd hnone.1 (Option.some_ne_none _)⟩
  | none =>
      dsimp only
      by_cases hzero : (headOf (headRow store.snapshot.head.rows tenantId)).seq = 0
      · rw [if_pos hzero]
        exact ⟨_, rfl, fun _ => ⟨rfl, .inl hzero⟩, fun _ => rfl⟩
      · rw [if_neg hzero, verifyStart, max_self, hwalk]
        refine ⟨_, rfl, fun hnone => ⟨rfl, .inr hnone⟩, fun hsound => hsound.2.resolve_left hzero⟩

variable {tenantId} {rows : List (AuditLog δ)}

-- An anchor shows no break when it is a link of the chain.
theorem anchorBreak_none (hasc : (sealedInOrder rows tenantId).Pairwise fun a b => seqOf a < seqOf b)
    (head anchor : Head) (hpos : 0 < anchor.seq) :
    anchorBreak rows tenantId head anchor = none ↔ anchor.seq ≤ head.seq ∧
      ∃ row ∈ sealedInOrder rows tenantId, seqOf row = anchor.seq ∧ hashOf row = anchor.hash := by
  rw [anchorBreak, if_neg (not_le.mpr hpos)]
  constructor
  · intro h
    split_ifs at h with hshort
    cases hrow : (sealedRows rows tenantId anchor.seq 1).head? with
    | none =>
        rw [hrow] at h
        cases h
    | some row =>
        rw [hrow] at h
        dsimp only at h
        split_ifs at h with hseq hhash
        have hmem := List.mem_of_mem_take (List.mem_of_mem_head? hrow)
        exact ⟨not_lt.mp hshort, row, (List.mem_filter.mp hmem).1, not_not.mp hseq, not_not.mp hhash⟩
  · rintro ⟨hle, row, hr, hseq, hhash⟩
    rw [if_neg (not_lt.mpr hle), ← hseq, sealedRows_at hasc row hr]
    dsimp only
    rw [if_neg (not_not.mpr rfl), if_neg (not_not.mpr hhash)]

end Snapshots

section Committed

variable {δ : Type} (platform : Platform δ)

def Follows (store later : Store δ) : Prop :=
  ∃ steps : List (StoreStep δ), (∀ step ∈ steps, step.WellSigned platform) ∧ later = store.run platform steps

def Reads.inOrder (reads : Reads δ) : List (Store δ) :=
  [reads.head, reads.backlog, reads.anchor, reads.anchored, reads.expected, reads.before] ++ reads.pages

-- Rows are written and sealed between any two reads.
def Reads.Interleaved (reads : Reads δ) : Prop := List.IsChain (Follows platform) (emptyStore :: reads.inOrder)

-- A store whose rows are chained and well signed.
structure Kept (store : Store δ) : Prop where
  invariant : ChainInvariant platform store
  signed : ∀ row ∈ store.rows, Signed platform row

-- States one after another keep what each move keeps, and are related in pairs as each move relates them.
theorem invariant_chain {α : Type} (move grows : α → α → Prop) (holds : α → Prop)
    (hmove : ∀ a b, holds a → move a b → holds b ∧ grows a b)
    (htrans : ∀ a b c, grows a b → grows b c → grows a c) (states : List α) (first : α) (h : holds first)
    (hchain : List.IsChain move (first :: states)) :
    (∀ state ∈ states, holds state ∧ grows first state) ∧ states.Pairwise grows := by
  induction states generalizing first with
  | nil => exact ⟨fun _ hs => absurd hs List.not_mem_nil, List.Pairwise.nil⟩
  | cons second rest ih =>
      obtain ⟨hfirst, hrest⟩ := List.isChain_cons_cons.mp hchain
      obtain ⟨hsecond, hgrown⟩ := hmove first second h hfirst
      obtain ⟨hall, hpairs⟩ := ih second hsecond hrest
      refine ⟨fun state hs => ?_, List.pairwise_cons.mpr ⟨fun state hs => (hall state hs).2, hpairs⟩⟩
      rcases List.mem_cons.mp hs with rfl | hs
      · exact ⟨hsecond, hgrown⟩
      · exact ⟨(hall state hs).1, htrans _ _ _ hgrown (hall state hs).2⟩

theorem kept_chain (stores : List (Store δ)) (first : Store δ) (h : Kept platform first)
    (hchain : List.IsChain (Follows platform) (first :: stores)) :
    (∀ store ∈ stores, Kept platform store ∧ Grown first store) ∧ stores.Pairwise Grown := by
  refine invariant_chain (Follows platform) Grown (Kept platform) ?_ (fun _ _ _ => Grown.trans) stores first h hchain
  rintro store _ hkept ⟨steps, hsigned, rfl⟩
  obtain ⟨hnext, hgrown⟩ := hkept.invariant.run steps
  exact ⟨⟨hnext, hkept.invariant.signed_run steps hsigned hkept.signed⟩, hgrown⟩

variable {platform} {store : Store δ} {tenantId : String}

theorem ChainInvariant.ascending (h : ChainInvariant platform store) (tenantId : String) :
    (sealedInOrder store.rows tenantId).Pairwise fun a b => seqOf a < seqOf b :=
  chained_ascending platform 1 GENESIS _ (h.chained tenantId)

theorem ChainInvariant.anchorBreak_none (h : ChainInvariant platform store) (head anchor : Head)
    (hle : anchor.seq ≤ head.seq) (row : AuditLog δ) (hr : row ∈ sealedInOrder store.rows tenantId)
    (hseq : seqOf row = anchor.seq) (hhash : hashOf row = anchor.hash) :
    anchorBreak store.rows tenantId head anchor = none := by
  have hpos := (chained_seq platform 1 GENESIS _ (h.chained tenantId) row hr).1
  exact (Governance.anchorBreak_none (h.ascending tenantId) head anchor (by omega)).mpr ⟨hle, row, hr, hseq, hhash⟩

-- Where a walk stands in a chain.
def Reached (chain : List (AuditLog δ)) (progress : Progress) : Prop :=
  ∃ front rest, chain = front ++ rest ∧ progress.expected = 1 + front.length ∧
    progress.prev = tip GENESIS (front.map entryOf)

theorem Reached.mono {chain later : List (AuditLog δ)} {progress : Progress} (h : Reached chain progress)
    (hgrown : chain <+: later) : Reached later progress := by
  obtain ⟨front, rest, rfl, hexpected, hprev⟩ := h
  obtain ⟨more, rfl⟩ := hgrown
  exact ⟨front, rest ++ more, List.append_assoc _ _ _, hexpected, hprev⟩

theorem Kept.page_eq (h : Kept platform store) (progress : Progress) (size : ℕ) (front rest : List (AuditLog δ))
    (hsplit : sealedInOrder store.rows tenantId = front ++ rest) (hexpected : progress.expected = 1 + front.length) :
    sealedRows store.rows tenantId progress.expected size = rest.take size := by
  have hchain := h.invariant.chained tenantId
  rw [sealedRows, hsplit, List.filter_append]
  rw [hsplit] at hchain
  obtain ⟨hfront, hrest⟩ := (chained_append platform 1 GENESIS front rest).mp hchain
  have hdropped : front.filter (fun row => progress.expected ≤ seqOf row) = [] := by
    refine List.filter_eq_nil_iff.mpr fun row hr hle => ?_
    have hlt := (chained_seq platform _ _ front hfront row hr).2
    have hlater := of_decide_eq_true hle
    omega
  have hall : rest.filter (fun row => progress.expected ≤ seqOf row) = rest := by
    refine List.filter_eq_self.mpr fun row hr => decide_eq_true ?_
    have hge := (chained_seq platform _ _ rest hrest row hr).1
    omega
  rw [hdropped, hall, List.nil_append]

-- A page read from where the walk stands holds the next links.
theorem Kept.page (h : Kept platform store) (progress : Progress) (size : ℕ)
    (hreached : Reached (sealedInOrder store.rows tenantId) progress) :
    (walkRows platform progress (sealedRows store.rows tenantId progress.expected size)).2 = none ∧
      Reached (sealedInOrder store.rows tenantId)
        (walkRows platform progress (sealedRows store.rows tenantId progress.expected size)).1 := by
  obtain ⟨front, rest, hsplit, hexpected, hprev⟩ := hreached
  have hchain := h.invariant.chained tenantId
  have hkept := h.page_eq progress size front rest hsplit hexpected
  rw [hsplit, ← List.take_append_drop size rest, ← List.append_assoc] at hchain
  obtain ⟨hpage, _⟩ := (chained_append platform 1 GENESIS (front ++ rest.take size) _).mp hchain
  obtain ⟨_, hnext⟩ := (chained_append platform 1 GENESIS front (rest.take size)).mp hpage
  rw [← hexpected, ← hprev] at hnext
  have hsigned : ∀ row ∈ rest.take size, Signed platform row := by
    intro row hr
    have hmem : row ∈ sealedInOrder store.rows tenantId :=
      hsplit ▸ List.mem_append_right _ (List.mem_of_mem_take hr)
    exact h.signed row ((mem_sealedInOrder _ _ _).mp hmem).1
  rw [hkept]
  have hnone := (walkRows_none platform (rest.take size) progress).mpr ⟨hnext, hsigned⟩
  obtain ⟨hafter, hlink⟩ := walkRows_progress platform (rest.take size) progress hnone
  refine ⟨hnone, front ++ rest.take size, rest.drop size, ?_, ?_, ?_⟩
  · rw [hsplit, List.append_assoc, List.take_append_drop]
  · rw [hafter, hexpected, List.length_append]
    push_cast
    omega
  · rw [hlink, hprev, List.map_append, tip_append]

-- By induction on the pages: a walk over a chain that goes on growing finds no break, and ends once it has come up with it.
theorem walkPages_grown (pages : List (Store δ)) (remaining : Option ℕ) (progress : Progress) (bound : ℕ)
    (hinv : ∀ store ∈ pages, Kept platform store) (hgrown : pages.Pairwise Grown)
    (hreached : ∀ store ∈ pages, Reached (sealedInOrder store.rows tenantId) progress)
    (hbound : ∀ store ∈ pages, (sealedInOrder store.rows tenantId).length ≤ bound)
    (hle : progress.expected ≤ bound + 1) (hpages : (bound : ℤ) < pages.length + (progress.expected - 1)) :
    ∃ after, walkPages platform tenantId pages remaining progress = some (after, none) := by
  induction pages generalizing remaining progress with
  | nil =>
      rw [List.length_nil] at hpages
      push_cast at hpages
      omega
  | cons store later ih =>
      rw [walkPages]
      split_ifs with hzero
      · exact ⟨progress, rfl⟩
      · have hpos := pageSize_pos remaining hzero
        obtain ⟨hnone, hnext⟩ := (hinv store List.mem_cons_self).page progress (pageSize remaining)
          (hreached store List.mem_cons_self)
        obtain ⟨hafter, _⟩ := walkRows_progress platform _ progress hnone
        generalize sealedRows store.rows tenantId progress.expected (pageSize remaining) = page at *
        dsimp only
        cases hempty : page.isEmpty with
        | true => exact ⟨progress, rfl⟩
        | false =>
            rw [if_neg Bool.false_ne_true]
            cases hwalk : walkRows platform progress page with
            | mk after found =>
                rw [hwalk] at hnone hnext hafter
                obtain rfl : found = none := hnone
                dsimp only
                split_ifs with hshort
                · exact ⟨after, rfl⟩
                · obtain ⟨front, rest, hsplit, hexpected, _⟩ := hnext
                  have hlength := hbound store List.mem_cons_self
                  rw [hsplit, List.length_append] at hlength
                  have hafter' : after.expected = progress.expected + page.length := hafter
                  have hexpected' : after.expected = 1 + front.length := hexpected
                  refine ih _ after (fun other ho => hinv other (List.mem_cons_of_mem _ ho))
                    (List.pairwise_cons.mp hgrown).2 (fun other ho => ?_)
                    (fun other ho => hbound other (List.mem_cons_of_mem _ ho)) (by omega) ?_
                  · exact Reached.mono ⟨front, rest, hsplit, hexpected, by assumption⟩
                      (((List.pairwise_cons.mp hgrown).1 other ho).chain tenantId)
                  · rw [List.length_cons] at hpages
                    push_cast at hpages
                    omega

end Committed

end AgenticOrg.Governance
