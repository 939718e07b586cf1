import AgenticOrg.Lib.Lists
import AgenticOrg.Spend.Gaps

namespace AgenticOrg.Spend.Gaps

open OrderedDict

section Definitions

def total (kind : Kind) (counts : List (Kind × ℕ)) : ℕ := ((counts.filter (·.1 = kind)).map (·.2)).sum

def GapState.aggregated (state : GapState) : List (Kind × ℕ) := kinds (fun key => key.kind) state.gaps.entries

def GapState.inHand (state : GapState) : List (Kind × ℕ) :=
  kinds (fun key => key.kind) (state.batches.flatMap (·.gaps))

def GapState.accounted (state : GapState) : List (Kind × ℕ) :=
  state.aggregated ++ (state.inHand ++ (state.written ++ (state.overflowed ++ state.lost)))

-- The aggregator is within its bound, and every count is somewhere.
structure Kept (state : GapState) : Prop where
  bounded : state.gaps.size ≤ MAX_GAP_KEYS
  balanced : ∀ kind, total kind state.added = total kind state.aggregated + total kind state.inHand +
    total kind state.written + total kind state.overflowed + total kind state.lost

-- A pass over all tenants comes to no gaps of a tenant whose id is no UUID.
def Sound (validTenant : String → Bool) (state : GapState) : GapStep → Prop
  | .passFlushed index _ _ => ∀ batch ∈ state.batches[index]?, ∀ tenantId, batch.holder = .pass tenantId →
      validTenant tenantId = true ∨ ∀ gap ∈ batch.gaps, gap.2 = 0
  | _ => True

def SoundAlong (validTenant : String → Bool) : GapState → List GapStep → Prop
  | _, [] => True
  | state, step :: rest => Sound validTenant state step ∧ SoundAlong validTenant (state.step validTenant step) rest

-- What a pass leaves out.
def dropped (validTenant : String → Bool) (state : GapState) : GapStep → List (Kind × ℕ)
  | .passFlushed index _ _ =>
      match state.batches[index]? with
      | some ⟨.pass tenantId, gaps⟩ => if validTenant tenantId then [] else kinds (fun key => key.kind) gaps
      | _ => []
  | _ => []

end Definitions

section Totals

variable (kind : Kind)

theorem total_append (a b : List (Kind × ℕ)) : total kind (a ++ b) = total kind a + total kind b := by
  rw [total, List.filter_append, List.map_append, List.sum_append]
  rfl

theorem total_cons (entry : Kind × ℕ) (rest : List (Kind × ℕ)) :
    total kind (entry :: rest) = (if entry.1 = kind then entry.2 else 0) + total kind rest := by
  unfold total
  rw [List.filter_cons]
  by_cases h : entry.1 = kind
  · rw [if_pos h, if_pos (decide_eq_true h), List.map_cons, List.sum_cons]
  · rw [if_neg h, if_neg (by simpa using h), Nat.zero_add]

theorem total_singleton (entry : Kind × ℕ) : total kind [entry] = if entry.1 = kind then entry.2 else 0 := by
  rw [total_cons]
  rfl

theorem total_perm (a b : List (Kind × ℕ)) (h : a.Perm b) : total kind a = total kind b :=
  ((h.filter _).map _).sum_eq

theorem total_eq_zero (counts : List (Kind × ℕ)) (h : ∀ entry ∈ counts, entry.2 = 0) : total kind counts = 0 := by
  induction counts with
  | nil => rfl
  | cons entry rest ih =>
      rw [total_cons, ih fun other ho => h other (List.mem_cons_of_mem _ ho), h entry List.mem_cons_self, ite_self]

theorem total_pos (counts : List (Kind × ℕ)) (entry : Kind × ℕ) (he : entry ∈ counts) (hpos : entry.2 ≠ 0) :
    0 < total entry.1 counts := by
  induction counts with
  | nil => cases he
  | cons first rest ih =>
      rw [total_cons]
      rcases List.mem_cons.mp he with rfl | he
      · rw [if_pos rfl]
        omega
      · have hrest := ih he
        omega

theorem total_accounted (state : GapState) : total kind state.accounted = total kind state.aggregated +
    total kind state.inHand + total kind state.written + total kind state.overflowed + total kind state.lost := by
  unfold GapState.accounted
  rw [total_append, total_append, total_append, total_append]
  omega

theorem kinds_append {κ : Type} (kindOf : κ → Kind) (a b : List (κ × ℕ)) :
    kinds kindOf (a ++ b) = kinds kindOf a ++ kinds kindOf b := List.map_append

-- A count that is added to a key's.
theorem total_put {κ : Type} [DecidableEq κ] (kindOf : κ → Kind) (key : κ) (count : ℕ) (entries : List (κ × ℕ)) :
    total kind (kinds kindOf (Dict.put key
      ((((entries.find? (·.1 == key)).map Prod.snd).getD 0) + count) entries)) =
        total kind (kinds kindOf entries) + if kindOf key = kind then count else 0 := by
  induction entries with
  | nil =>
      rw [List.find?_nil, Dict.put, kinds, kinds, List.map_singleton, total_singleton]
      simp [total]
  | cons entry rest ih =>
      rw [Dict.put, List.find?_cons]
      by_cases hk : entry.1 = key
      · rw [beq_iff_eq.mpr hk, if_pos rfl]
        unfold kinds
        rw [List.map_cons, List.map_cons, total_cons, total_cons, hk]
        split_ifs
        · show entry.2 + count + _ = entry.2 + _ + count
          omega
        · omega
      · rw [beq_false_of_ne hk, if_neg Bool.false_ne_true]
        unfold kinds at ih ⊢
        rw [List.map_cons, List.map_cons, total_cons, total_cons, ih]
        omega

theorem total_insert {κ : Type} [DecidableEq κ] (kindOf : κ → Kind) (dict : Dict κ ℕ) (key : κ) (count : ℕ) :
    total kind (kinds kindOf (dict.insert key ((dict.get? key).getD 0 + count)).entries) =
      total kind (kinds kindOf dict.entries) + if kindOf key = kind then count else 0 :=
  total_put kind kindOf key count dict.entries

end Totals

section Gains

-- The counts that a state has more than another, in the same batches.
structure Gains (state next : GapState) (counts : List (Kind × ℕ)) : Prop where
  batches : next.batches = state.batches
  added : next.added = state.added
  accounted : ∀ kind, total kind next.accounted = total kind state.accounted + total kind counts
  bounded : state.gaps.size ≤ MAX_GAP_KEYS → next.gaps.size ≤ MAX_GAP_KEYS

theorem Gains.refl (state : GapState) : Gains state state [] := ⟨rfl, rfl, fun _ => rfl, id⟩

theorem Gains.trans (state next later : GapState) (a b : List (Kind × ℕ)) (hn : Gains state next a)
    (hl : Gains next later b) : Gains state later (a ++ b) where
  batches := hl.batches.trans hn.batches
  added := hl.added.trans hn.added
  accounted := by
    intro kind
    rw [hl.accounted, hn.accounted, total_append]
    omega
  bounded := fun h => hl.bounded (hn.bounded h)

theorem gains_foldl {ι : Type} (move : GapState → ι → GapState) (counts : ι → List (Kind × ℕ))
    (hmove : ∀ state item, Gains state (move state item) (counts item)) (items : List ι) (state : GapState) :
    Gains state (items.foldl move state) (items.flatMap counts) := by
  induction items generalizing state with
  | nil => exact .refl state
  | cons item rest ih => exact .trans state _ _ _ _ (hmove state item) (ih (move state item))

-- A new key comes in below the bound only.
theorem addGapLocked_size (gaps : Dict GapKey ℕ) (key : GapKey) (count : ℕ) (h : gaps.size ≤ MAX_GAP_KEYS) :
    (addGapLocked gaps key count).1.size ≤ MAX_GAP_KEYS := by
  unfold addGapLocked
  split_ifs with hroom hcoarse
  · by_cases hc : gaps.contains key = true
    · rw [Dict.size_insert_of_contains _ _ _ hc]
      exact h
    · rw [Bool.not_eq_true] at hc
      rw [hc, Bool.false_or, decide_eq_true_eq] at hroom
      have hentries := Dict.entries_insert_of_fresh gaps key ((gaps.get? key).getD 0 + count) hc
      unfold Dict.size at hroom ⊢
      rw [hentries, List.length_append, List.length_singleton]
      omega
  · rw [Dict.size_insert_of_contains _ _ _ hcoarse]
    exact h
  · exact h

theorem addGapLocked_total (gaps : Dict GapKey ℕ) (key : GapKey) (count : ℕ) (kind : Kind) :
    total kind (kinds (fun key => key.kind) (addGapLocked gaps key count).1.entries) +
        total kind [(key.kind, (addGapLocked gaps key count).2)] =
      total kind (kinds (fun key => key.kind) gaps.entries) + total kind [(key.kind, count)] := by
  have hzero : total kind [(key.kind, 0)] = 0 := total_eq_zero kind _ (by simp)
  have hcount : total kind [(key.kind, count)] = if key.kind = kind then count else 0 := total_singleton kind _
  by_cases hroom : (gaps.contains key || gaps.size < MAX_GAP_KEYS) = true
  · rw [addGapLocked, if_pos hroom]
    dsimp only
    rw [total_insert, hzero, hcount, Nat.add_zero]
  · by_cases hcoarse : gaps.contains key.coarse = true
    · rw [addGapLocked, if_neg hroom, if_pos hcoarse]
      dsimp only
      rw [total_insert, hzero, hcount, Nat.add_zero]
      rfl
    · rw [addGapLocked, if_neg hroom, if_neg hcoarse]

theorem gains_addGap (state : GapState) (tenantId : String) (day : ℤ) (usageType reason detail : String) (count : ℕ) :
    Gains state (addGap state tenantId day usageType reason detail count) [((usageType, reason), count)] := by
  have hbound := addGapLocked_size state.gaps (gapKey tenantId day usageType reason detail) count
  have htotal := addGapLocked_total state.gaps (gapKey tenantId day usageType reason detail) count
  unfold addGap gapOverflowed
  dsimp only
  generalize addGapLocked state.gaps (gapKey tenantId day usageType reason detail) count = kept at hbound htotal
  have haccounted : ∀ kind more, total kind more = total kind [((usageType, reason), kept.2)] →
      total kind { state with gaps := kept.1, overflowed := state.overflowed ++ more }.accounted =
        total kind state.accounted + total kind [((usageType, reason), count)] := by
    intro kind more hover
    have hkept : total kind (kinds (fun key => key.kind) kept.1.entries) +
        total kind [((usageType, reason), kept.2)] =
          total kind state.aggregated + total kind [((usageType, reason), count)] := htotal kind
    rw [GapState.aggregated] at hkept
    simp only [total_accounted, GapState.aggregated, GapState.inHand, total_append, hover]
    omega
  split_ifs with hzero
  · refine ⟨rfl, rfl, fun kind => ?_, hbound⟩
    have hnone := haccounted kind [] (total_eq_zero kind _ (by simpa using hzero)).symm
    rw [List.append_nil] at hnone
    exact hnone
  · exact ⟨rfl, rfl, fun kind => haccounted kind [_] rfl, hbound⟩

theorem gains_gapsLost (state : GapState) (gaps : List (GapKey × ℕ)) :
    Gains state (gapsLost state gaps) (kinds (fun key => key.kind) gaps) where
  batches := rfl
  added := rfl
  accounted := by
    intro kind
    simp only [gapsLost, total_accounted, GapState.aggregated, GapState.inHand, total_append]
    omega
  bounded := id

theorem gains_noteGap (closed : Bool) (state : GapState) (tenantId : String) (day : ℤ)
    (usageType reason detail : String) (count : ℕ) :
    Gains state (noteGap closed state tenantId day usageType reason detail count) [((usageType, reason), count)] := by
  unfold noteGap
  split_ifs
  · exact gains_gapsLost state _
  · exact gains_addGap state tenantId day usageType reason detail count

theorem gains_restoreGaps (state : GapState) (gaps : List (GapKey × ℕ)) :
    Gains state (restoreGaps state gaps) (kinds (fun key => key.kind) gaps) := by
  have hfold := gains_foldl (fun state (gap : GapKey × ℕ) =>
    addGap state gap.1.tenantId gap.1.day gap.1.usageType gap.1.reason gap.1.detail gap.2)
    (fun gap => [((gap.1.usageType, gap.1.reason), gap.2)])
    (fun state gap => gains_addGap state _ _ _ _ _ _) gaps state
  rw [← List.map_eq_flatMap] at hfold
  exact hfold

theorem gains_restoreOrLose (closed : Bool) (state : GapState) (gaps : List (GapKey × ℕ)) :
    Gains state (restoreOrLose closed state gaps) (kinds (fun key => key.kind) gaps) := by
  unfold restoreOrLose
  split_ifs
  · exact gains_gapsLost state gaps
  · exact gains_restoreGaps state gaps

theorem gains_written (state : GapState) (counts : List (Kind × ℕ)) :
    Gains state { state with written := state.written ++ counts } counts where
  batches := rfl
  added := rfl
  accounted := by
    intro kind
    simp only [total_accounted, GapState.aggregated, GapState.inHand, total_append]
    omega
  bounded := id

end Gains

section Writing

-- Gaps of one tenant, each once.
structure Single (gaps : List (GapKey × ℕ)) : Prop where
  distinct : gaps.Pairwise fun a b => (a.1 == b.1) = false
  tenant : ∀ a ∈ gaps, ∀ b ∈ gaps, a.1.tenantId = b.1.tenantId

-- Without their tenant they are still told apart.
theorem Single.tenantGaps_entries (gaps : List (GapKey × ℕ)) (h : Single gaps) :
    (tenantGaps gaps).entries = gaps.map fun gap => (gap.1.toDayGap, gap.2) := by
  refine Dict.entries_foldl_insert _ _ ?_
  rw [Dict.empty, List.nil_append, List.pairwise_map]
  refine h.distinct.imp_of_mem fun {a b} ha hb hne => ?_
  refine beq_false_of_ne fun hday => Bool.eq_false_iff.mp hne (beq_iff_eq.mpr ?_)
  have htenant := h.tenant a ha b hb
  have hsame : a.1.toDayGap = b.1.toDayGap := hday
  show (⟨a.1.toDayGap, a.1.tenantId⟩ : GapKey) = ⟨b.1.toDayGap, b.1.tenantId⟩
  rw [hsame, htenant]

theorem total_upsertGaps (kind : Kind) (gaps : Dict DayGap ℕ) :
    total kind (upsertGaps gaps) = total kind (kinds DayGap.kind gaps.entries) := by
  unfold upsertGaps
  induction gaps.entries with
  | nil => rfl
  | cons gap rest ih =>
      unfold kinds at ih ⊢
      rw [List.filter_cons]
      split_ifs with hpos
      · rw [List.map_cons, List.map_cons, total_cons, total_cons, ih]
      · have hzero : gap.2 = 0 := by simpa using hpos
        rw [List.map_cons, total_cons, ih, hzero, ite_self, Nat.zero_add]

theorem total_writeGaps (kind : Kind) (own : List DayGap) (gaps : Dict DayGap ℕ) :
    total kind (kinds DayGap.kind (writeGaps gaps own).entries) =
      total kind (kinds DayGap.kind gaps.entries) + total kind (own.map fun gap => (gap.kind, 1)) := by
  induction own generalizing gaps with
  | nil => rfl
  | cons gap rest ih =>
      rw [List.map_cons, total_cons]
      refine (ih (gaps.insert gap ((gaps.get? gap).getD 0 + 1))).trans ?_
      rw [total_insert]
      dsimp only
      omega

theorem Single.total_tenantGaps (gaps : List (GapKey × ℕ)) (h : Single gaps) (kind : Kind) :
    total kind (kinds DayGap.kind (tenantGaps gaps).entries) = total kind (kinds (fun key => key.kind) gaps) := by
  rw [h.tenantGaps_entries]
  unfold kinds
  rw [List.map_map]
  rfl

theorem Gains.congr (state next : GapState) (a b : List (Kind × ℕ)) (h : Gains state next a)
    (hsame : ∀ kind, total kind a = total kind b) : Gains state next b :=
  { h with accounted := fun kind => (h.accounted kind).trans (congrArg _ (hsame kind)) }

theorem gains_tenantFlushed (closed : Bool) (outcome : FlushOutcome) (state : GapState) (gaps : List (GapKey × ℕ))
    (h : Single gaps) :
    Gains state (tenantFlushed closed outcome state gaps) (kinds (fun key => key.kind) gaps ++ outcome.counts) := by
  cases outcome with
  | written own =>
      refine .congr state _ _ _ (gains_written state _) fun kind => ?_
      rw [total_upsertGaps, total_writeGaps, h.total_tenantGaps, total_append]
      rfl
  | busy => exact .congr state _ _ _ (gains_restoreOrLose closed state gaps) fun kind => by rw [total_append]; rfl
  | raised => exact .congr state _ _ _ (gains_restoreOrLose closed state gaps) fun kind => by rw [total_append]; rfl

theorem gains_passFlushed (validTenant : String → Bool) (closed written : Bool) (tenantId : String)
    (state : GapState) (gaps : List (GapKey × ℕ)) (h : Single gaps) :
    Gains state (passFlushed validTenant closed written tenantId state gaps)
      (if validTenant tenantId then kinds (fun key => key.kind) gaps else []) := by
  unfold passFlushed
  by_cases hvalid : validTenant tenantId = true
  · rw [hvalid, if_pos rfl, if_neg (by simp)]
    split_ifs
    · refine .congr state _ _ _ (gains_written state _) fun kind => ?_
      rw [total_upsertGaps, h.total_tenantGaps]
    · exact gains_restoreOrLose closed state gaps
  · rw [if_neg hvalid, if_pos (by simpa using hvalid)]
    exact .refl state

end Writing

section Taking

theorem total_split {κ : Type} (kind : Kind) (kindOf : κ → Kind) (test : κ × ℕ → Bool) (gaps : List (κ × ℕ)) :
    total kind (kinds kindOf (gaps.filter test)) + total kind (kinds kindOf (gaps.filter fun gap => !test gap)) =
      total kind (kinds kindOf gaps) := by
  rw [← total_append, ← kinds_append]
  exact total_perm kind _ _ ((List.filter_append_perm test gaps).map _)

theorem popped_distinct (state : GapState) (tenantId : Option String) :
    (popped state tenantId).Pairwise fun a b => (a.1 == b.1) = false := state.gaps.distinct.filter _

theorem single_popped (state : GapState) (tenantId : String) : Single (popped state (some tenantId)) where
  distinct := popped_distinct state _
  tenant := by
    have hsame : ∀ gap ∈ popped state (some tenantId), gap.1.tenantId = tenantId := by
      intro gap hgap
      have htest := (List.mem_filter.mp hgap).2
      simpa using htest
    intro a ha b hb
    rw [hsame a ha, hsame b hb]

-- What is taken leaves the aggregator, and nothing else does.
theorem total_popGaps (state : GapState) (tenantId : Option String) (kind : Kind) :
    total kind (popGaps state tenantId).aggregated + total kind (kinds (fun key => key.kind) (popped state tenantId)) =
      total kind state.aggregated := by
  rw [Nat.add_comm]
  exact total_split kind (fun key : GapKey => key.kind) (fun gap => tenantId.all (gap.1.tenantId = ·))
    state.gaps.entries

theorem size_popGaps (state : GapState) (tenantId : Option String) :
    (popGaps state tenantId).gaps.size ≤ state.gaps.size := List.length_filter_le _ _

theorem foldl_group (gaps : List (GapKey × ℕ)) (found : Option (List (GapKey × ℕ))) :
    gaps.foldl (fun found gap => some (found.getD [] ++ [gap])) found =
      if gaps = [] then found else some (found.getD [] ++ gaps) := by
  induction gaps generalizing found with
  | nil => rfl
  | cons gap rest ih =>
      rw [List.foldl_cons, ih, if_neg (List.cons_ne_nil _ _)]
      by_cases hrest : rest = []
      · rw [if_pos hrest, hrest]
      · rw [if_neg hrest, Option.getD_some, List.append_assoc]
        rfl

-- A tenant's batch is the gaps of the tenant.
theorem mem_byTenant (gaps : List (GapKey × ℕ)) (batch : Batch) (h : batch ∈ byTenant gaps) :
    ∃ tenantId, batch = ⟨.pass tenantId, gaps.filter fun gap => gap.1.tenantId == tenantId⟩ := by
  obtain ⟨group, hgroup, rfl⟩ := List.mem_map.mp h
  refine ⟨group.1, congrArg (Batch.mk _) ?_⟩
  have hget := Dict.get?_of_mem _ group hgroup
  rw [Dict.get?_gather, foldl_group] at hget
  split_ifs at hget
  exact (Option.some.inj hget).symm

theorem byTenant_perm (gaps : List (GapKey × ℕ)) : ((byTenant gaps).flatMap (·.gaps)).Perm gaps := by
  unfold byTenant
  rw [List.flatMap_map]
  refine Dict.gather_perm _ _ id (fun old gap => ?_) gaps
  cases old with
  | none => rfl
  | some found => rfl

end Taking

section Steps

variable (validTenant : String → Bool)

-- The batches of the flushes are of one tenant each.
def Batched (state : GapState) : Prop := ∀ batch ∈ state.batches, batch.holder ≠ .caller → Single batch.gaps

-- What a step leaves of the counts and the batches.
structure Moves (state next : GapState) (counts left : List (Kind × ℕ)) : Prop where
  batched : Batched next
  added : next.added = state.added ++ counts
  accounted : ∀ kind, total kind next.accounted + total kind left = total kind state.accounted + total kind counts
  bounded : state.gaps.size ≤ MAX_GAP_KEYS → next.gaps.size ≤ MAX_GAP_KEYS

theorem Gains.moves (state next : GapState) (counts : List (Kind × ℕ)) (h : Gains state next counts)
    (hb : Batched state) : Moves state (next.add counts) counts [] where
  batched := by
    unfold Batched GapState.add
    rw [h.batches]
    exact hb
  added := congrArg (· ++ counts) h.added
  accounted := h.accounted
  bounded := h.bounded

-- Taking gaps into batches.
theorem moves_popGaps (state : GapState) (tenantId : Option String) (batches : List Batch) (hb : Batched state)
    (hsingle : ∀ batch ∈ batches, batch.holder ≠ .caller → Single batch.gaps)
    (hperm : (batches.flatMap (·.gaps)).Perm (popped state tenantId)) :
    Moves state (GapState.add { popGaps state tenantId with batches := state.batches ++ batches } []) [] [] where
  batched := by
    intro batch hbatch
    rcases List.mem_append.mp hbatch with hbatch | hbatch
    · exact hb batch hbatch
    · exact hsingle batch hbatch
  added := rfl
  accounted := by
    intro kind
    have htaken := total_popGaps state tenantId kind
    have hsame : total kind (kinds (fun key => key.kind) (batches.flatMap (·.gaps))) =
        total kind (kinds (fun key => key.kind) (popped state tenantId)) := total_perm kind _ _ (hperm.map _)
    unfold GapState.aggregated at htaken
    simp only [GapState.add, total_accounted, GapState.aggregated, GapState.inHand, List.flatMap_append,
      kinds_append, total_append, hsame]
    show total kind (kinds _ (popGaps state tenantId).gaps.entries) + _ + total kind state.written +
      total kind state.overflowed + total kind state.lost + _ = _
    omega
  bounded := fun h => (size_popGaps state tenantId).trans h

theorem settle_stays (state : GapState) (index : ℕ)
    (finish : Holder → Option (GapState → List (GapKey × ℕ) → GapState))
    (h : ∀ batch ∈ state.batches[index]?, finish batch.holder = none) : state.settle index finish = state := by
  unfold GapState.settle
  cases hbatch : state.batches[index]? with
  | none => rfl
  | some batch =>
      dsimp only
      rw [h batch hbatch]

theorem settle_ends (state : GapState) (index : ℕ)
    (finish : Holder → Option (GapState → List (GapKey × ℕ) → GapState)) (batch : Batch)
    (ended : GapState → List (GapKey × ℕ) → GapState) (hbatch : state.batches[index]? = some batch)
    (hended : finish batch.holder = some ended) :
    state.settle index finish = ended { state with batches := state.batches.eraseIdx index } batch.gaps := by
  unfold GapState.settle
  rw [hbatch]
  dsimp only
  rw [hended]

theorem batch_perm (state : GapState) (index : ℕ) (batch : Batch) (h : state.batches[index]? = some batch) :
    (batch :: state.batches.eraseIdx index).Perm state.batches := by
  obtain ⟨hlt, hget⟩ := List.getElem?_eq_some_iff.mp h
  rw [← hget]
  exact List.getElem_cons_eraseIdx_perm hlt

theorem total_eraseIdx (state : GapState) (index : ℕ) (batch : Batch) (h : state.batches[index]? = some batch)
    (kind : Kind) : total kind (GapState.accounted { state with batches := state.batches.eraseIdx index }) +
      total kind (kinds (fun key => key.kind) batch.gaps) = total kind state.accounted := by
  have hin : total kind state.inHand = total kind (kinds (fun key => key.kind) batch.gaps) +
      total kind (kinds (fun key => key.kind) ((state.batches.eraseIdx index).flatMap (·.gaps))) := by
    rw [← total_append, ← kinds_append, ← List.flatMap_cons]
    exact (total_perm kind _ _ (((batch_perm state index batch h).flatMap_right _).map _)).symm
  rw [total_accounted kind state, hin, total_accounted]
  simp only [GapState.aggregated, GapState.inHand]
  omega

-- Putting a batch to its end.
theorem moves_settle (state : GapState) (index : ℕ)
    (finish : Holder → Option (GapState → List (GapKey × ℕ) → GapState)) (own left : List (Kind × ℕ))
    (hb : Batched state) (hnone : (∀ batch ∈ state.batches[index]?, finish batch.holder = none) → own = [] ∧ left = [])
    (hfinish : ∀ batch ∈ state.batches[index]?, ∀ ended ∈ finish batch.holder, ∀ rest, ∃ kept,
      Gains rest (ended rest batch.gaps) kept ∧ ∀ kind, total kind kept + total kind left =
        total kind (kinds (fun key => key.kind) batch.gaps) + total kind own) :
    Moves state ((state.settle index finish).add own) own left := by
  by_cases hstays : ∀ batch ∈ state.batches[index]?, finish batch.holder = none
  · obtain ⟨rfl, rfl⟩ := hnone hstays
    rw [settle_stays state index finish hstays]
    exact Gains.moves state state [] (.refl state) hb
  · push Not at hstays
    obtain ⟨batch, hbatch, hends⟩ := hstays
    obtain ⟨ended, hended⟩ := Option.ne_none_iff_exists'.mp hends
    obtain ⟨kept, hgains, htotal⟩ := hfinish batch hbatch ended hended
      { state with batches := state.batches.eraseIdx index }
    rw [settle_ends state index finish batch ended hbatch hended]
    refine ⟨?_, congrArg (· ++ own) hgains.added, fun kind => ?_, hgains.bounded⟩
    · intro other ho
      have hrest : other ∈ state.batches.eraseIdx index := Eq.mp (congrArg (other ∈ ·) hgains.batches) ho
      exact hb other ((batch_perm state index batch hbatch).mem_iff.mp (List.mem_cons_of_mem _ hrest))
    · have hkept := hgains.accounted kind
      have hsum := htotal kind
      have hrest := total_eraseIdx state index batch hbatch kind
      show total kind (ended _ batch.gaps).accounted + _ = _
      omega

theorem moves_caller (state : GapState) (index : ℕ) (ended : GapState → List (GapKey × ℕ) → GapState)
    (hb : Batched state) (h : ∀ rest gaps, Gains rest (ended rest gaps) (kinds (fun key => key.kind) gaps)) :
    Moves state ((state.settle index (forCaller ended)).add []) [] [] := by
  refine moves_settle state index _ [] [] hb (fun _ => ⟨rfl, rfl⟩) fun batch _ other hother rest => ?_
  have hsame : other = ended := by
    cases hholder : batch.holder <;> rw [hholder] at hother <;> cases hother
    rfl
  rw [hsame]
  exact ⟨_, h rest batch.gaps, fun kind => rfl⟩

theorem moves_tenantFlushed (state : GapState) (index : ℕ) (closed : Bool) (outcome : FlushOutcome)
    (hb : Batched state) :
    Moves state (state.step validTenant (.tenantFlushed index closed outcome))
      (GapStep.counts state (.tenantFlushed index closed outcome)) [] := by
  refine moves_settle state index _ _ [] hb (fun hnone => ⟨?_, rfl⟩) fun batch hbatch ended hended rest => ?_
  · refine if_neg fun hany => ?_
    obtain ⟨batch, hbatch, hholder⟩ := (Option.any_eq_true _ _).mp hany
    have hends := hnone batch hbatch
    rw [of_decide_eq_true hholder] at hends
    cases hends
  · cases hholder : batch.holder <;> rw [hholder] at hended <;> cases hended
    have hsingle := hb batch (List.mem_of_getElem? hbatch) (by rw [hholder]; exact nofun)
    refine ⟨_, gains_tenantFlushed closed outcome rest batch.gaps hsingle, fun kind => ?_⟩
    have hany : (state.batches[index]?).any (·.holder = .flush) = true := by
      rw [hbatch]
      exact decide_eq_true hholder
    rw [total_append, GapStep.counts, if_pos hany]
    rfl

theorem moves_passFlushed (state : GapState) (index : ℕ) (closed written : Bool) (hb : Batched state) :
    Moves state (state.step validTenant (.passFlushed index closed written)) []
      (dropped validTenant state (.passFlushed index closed written)) := by
  refine moves_settle state index _ [] _ hb (fun hnone => ⟨rfl, ?_⟩) fun batch hbatch ended hended rest => ?_
  · unfold dropped
    dsimp only
    split
    · rename_i tenantId gaps hbatch
      cases hnone _ hbatch
    · rfl
  · obtain ⟨holder, gaps⟩ := batch
    cases holder <;> cases hended
    rename_i tenantId
    have hsingle := hb _ (List.mem_of_getElem? hbatch) nofun
    refine ⟨_, gains_passFlushed validTenant closed written tenantId rest gaps hsingle, fun kind => ?_⟩
    have hdropped : dropped validTenant state (.passFlushed index closed written) =
        if validTenant tenantId then [] else kinds (fun key => key.kind) gaps := by
      unfold dropped
      dsimp only
      rw [hbatch]
    rw [hdropped]
    split_ifs
    · rfl
    · exact Nat.add_comm _ _

-- One step: its counts come in, and a pass may leave some out.
theorem moves_step (state : GapState) (hb : Batched state) (step : GapStep) :
    Moves state (state.step validTenant step) (step.counts state) (dropped validTenant state step) := by
  cases step with
  | addGap tenantId day usageType reason detail count =>
      exact (gains_addGap state tenantId day usageType reason detail count).moves _ _ _ hb
  | noteGap closed tenantId day usageType reason detail count =>
      exact (gains_noteGap closed state tenantId day usageType reason detail count).moves _ _ _ hb
  | popGaps tenantId =>
      refine moves_popGaps state tenantId [⟨.caller, popped state tenantId⟩] hb ?_ ?_
      · intro batch hbatch hholder
        rw [List.mem_singleton.mp hbatch] at hholder
        exact absurd rfl hholder
      · rw [List.flatMap_singleton]
  | restoreGaps index => exact moves_caller state index _ hb gains_restoreGaps
  | gapsLost index => exact moves_caller state index _ hb gains_gapsLost
  | flushTenant tenantId paused events =>
      cases paused with
      | true =>
          have hfold := gains_foldl (fun state (event : ℤ × String) =>
            addGap state tenantId event.1 event.2 "paused" "" 1) (fun event => [((event.2, "paused"), 1)])
            (fun state event => gains_addGap state _ _ _ _ _ _) events state
          rw [← List.map_eq_flatMap] at hfold
          exact hfold.moves _ _ _ hb
      | false =>
          by_cases hvalid : validTenant tenantId = true
          · have hstep : state.step validTenant (.flushTenant tenantId false events) =
                GapState.add { popGaps state (some tenantId) with
                  batches := state.batches ++ [⟨.flush, popped state (some tenantId)⟩] } [] := by
              show GapState.add (Gaps.flushTenant validTenant state tenantId false events) [] = _
              rw [Gaps.flushTenant, if_neg Bool.false_ne_true, if_neg (by simpa using hvalid)]
            rw [hstep]
            refine moves_popGaps state (some tenantId) _ hb ?_ ?_
            · intro batch hbatch _
              rw [List.mem_singleton.mp hbatch]
              exact single_popped state tenantId
            · rw [List.flatMap_singleton]
          · have hstep : state.step validTenant (.flushTenant tenantId false events) = state.add [] := by
              show GapState.add (Gaps.flushTenant validTenant state tenantId false events) [] = _
              rw [Gaps.flushTenant, if_neg Bool.false_ne_true, if_pos (by simpa using hvalid)]
            rw [hstep]
            exact Gains.moves state state [] (.refl state) hb
  | tenantFlushed index closed outcome => exact moves_tenantFlushed validTenant state index closed outcome hb
  | flushGaps =>
      refine moves_popGaps state none (byTenant (popped state none)) hb ?_ (byTenant_perm _)
      intro batch hbatch _
      obtain ⟨tenantId, rfl⟩ := mem_byTenant _ batch hbatch
      refine ⟨(popped_distinct state none).filter _, fun a ha b hb => ?_⟩
      rw [eq_of_beq (List.mem_filter.mp ha).2, eq_of_beq (List.mem_filter.mp hb).2]
  | passFlushed index closed written => exact moves_passFlushed validTenant state index closed written hb

end Steps

section Conservation

variable (validTenant : String → Bool)

-- A step that is sound leaves nothing out, and only such a step does.
theorem sound_iff (state : GapState) (step : GapStep) :
    Sound validTenant state step ↔ ∀ kind, total kind (dropped validTenant state step) = 0 := by
  cases step with
  | passFlushed index closed written =>
      unfold Sound dropped
      dsimp only
      cases hbatch : state.batches[index]? with
      | none => exact iff_of_true nofun fun kind => rfl
      | some batch =>
          obtain ⟨holder, gaps⟩ := batch
          cases holder with
          | pass tenantId =>
              dsimp only
              by_cases hvalid : validTenant tenantId = true
              · refine iff_of_true (fun batch hin other hother => .inl ?_) fun kind => by rw [if_pos hvalid]; rfl
                cases hin
                cases hother
                exact hvalid
              · rw [if_neg hvalid]
                constructor
                · intro hsound kind
                  have hzero := (hsound _ rfl tenantId rfl).resolve_left hvalid
                  refine total_eq_zero kind _ fun entry hentry => ?_
                  obtain ⟨gap, hgap, rfl⟩ := List.mem_map.mp hentry
                  exact hzero gap hgap
                · intro hzero batch hin other _
                  cases hin
                  refine .inr fun gap hgap => ?_
                  by_contra hpos
                  have hmem : (gap.1.kind, gap.2) ∈ kinds (fun key : GapKey => key.kind) gaps :=
                    List.mem_map_of_mem (f := fun gap : GapKey × ℕ => (gap.1.kind, gap.2)) hgap
                  have htotal : 0 < total gap.1.kind (kinds (fun key : GapKey => key.kind) gaps) :=
                    total_pos _ _ hmem hpos
                  exact absurd (hzero gap.1.kind) (Nat.pos_iff_ne_zero.mp htotal)
          | caller =>
              refine iff_of_true (fun batch hin other hother => ?_) fun kind => rfl
              cases hin
              cases hother
          | flush =>
              refine iff_of_true (fun batch hin other hother => ?_) fun kind => rfl
              cases hin
              cases hother
  | _ => exact iff_of_true trivial fun kind => rfl

theorem Kept.step (state : GapState) (hb : Batched state) (step : GapStep) (h : Kept state) :
    Kept (state.step validTenant step) ↔ Sound validTenant state step := by
  have hmoves := moves_step validTenant state hb step
  rw [sound_iff]
  constructor
  · intro hnext kind
    have hbefore := h.balanced kind
    have hafter := hnext.balanced kind
    have hmoved := hmoves.accounted kind
    rw [hmoves.added, total_append] at hafter
    rw [total_accounted, total_accounted] at hmoved
    omega
  · intro hsound
    refine ⟨hmoves.bounded h.bounded, fun kind => ?_⟩
    have hbefore := h.balanced kind
    have hmoved := hmoves.accounted kind
    have hnone := hsound kind
    rw [hmoves.added, total_append]
    rw [total_accounted, total_accounted] at hmoved
    omega

theorem kept_initial : Kept .initial := ⟨Nat.zero_le _, fun _ => rfl⟩

theorem kept_along (steps : List GapStep) (state : GapState) (hb : Batched state) (h : Kept state) :
    (∀ front, front <+: steps → Kept (state.run validTenant front)) ↔ SoundAlong validTenant state steps := by
  induction steps generalizing state with
  | nil =>
      refine iff_of_true (fun front hfront => ?_) trivial
      rw [List.prefix_nil.mp hfront]
      exact h
  | cons step rest ih =>
      have hbatched := (moves_step validTenant state hb step).batched
      constructor
      · intro hall
        have hnext : Kept (state.step validTenant step) := hall [step] ⟨rest, rfl⟩
        refine ⟨(h.step validTenant state hb step).mp hnext, (ih _ hbatched hnext).mp fun front hfront => ?_⟩
        exact hall (step :: front) (List.cons_prefix_cons.mpr ⟨rfl, hfront⟩)
      · rintro ⟨hsound, hrest⟩ front hfront
        have hnext := (h.step validTenant state hb step).mpr hsound
        cases front with
        | nil => exact h
        | cons first front =>
            obtain ⟨rfl, htail⟩ := List.cons_prefix_cons.mp hfront
            exact (ih _ hbatched hnext).mpr hrest front htail

-- The counts stay within the bound and add up in every state of a run exactly where its passes come to no gaps of a
-- tenant whose id is no UUID.
theorem gaps_conserved (steps : List GapStep) :
    (∀ front, front <+: steps → Kept (GapState.initial.run validTenant front)) ↔
      SoundAlong validTenant .initial steps :=
  kept_along validTenant steps .initial (fun _ hbatch => absurd hbatch List.not_mem_nil) kept_initial

-- The id of the tenant of a call is kept as it was given where it is no UUID.
theorem gap_vanishes : ¬∀ (validTenant : String → Bool) (steps front : List GapStep), front <+: steps →
    Kept (GapState.initial.run validTenant front) := by
  intro h
  have hkept := h (fun tenantId => tenantId.length = 36)
    [.noteGap false "acme" 739798 "llm_tokens" "failed_no_usage" "cancelled:openai" 1, .flushGaps,
      .passFlushed 0 false true] _ (List.prefix_refl _)
  have hbalanced := hkept.balanced ("llm_tokens", "failed_no_usage")
  revert hbalanced
  decide

end Conservation

end AgenticOrg.Spend.Gaps
