import AgenticOrg.Commerce.Ucp.Evaluation
import AgenticOrg.Commerce.Ucp.LineItems.Ids

namespace AgenticOrg.Commerce.Ucp

open Fresh
open AgenticOrg.Workflows (Json Scalar)

section Calls

variable (py : Python) (consents : ConsentParser)

-- One evaluation of the checkout or cart: the shop and what is negotiated may change in between.
structure Call where
  resource : Resource
  shop : Shop
  negotiated : Negotiated
  body : Json

-- A body that is refused leaves the state as it was.
def callOnce (previous : Option State) (call : Call) : Option State :=
  match evaluate py consents call.resource call.shop call.negotiated call.body previous with
  | .ok state => some state
  | .error _ => previous

def after (calls : List Call) : Option State := calls.foldl (callOnce py consents) none

theorem after_append (first second : List Call) :
    after py consents (first ++ second) = second.foldl (callOnce py consents) (after py consents first) :=
  List.foldl_append

end Calls

section Invariant

-- The ids of a state: distinct, and of numbers from 1 below the counter.
structure WellNumbered (previous : Option State) : Prop where
  issued : Issued previousIdsOf nextSeqOf lineId 1 previous
  counter : ∀ state, previous = some state → 1 ≤ state.nextLineSeq

theorem wellNumbered_none : WellNumbered none :=
  ⟨⟨List.nodup_nil, fun _ hid => absurd hid List.not_mem_nil⟩, fun _ h => by cases h⟩

theorem nextSeqOf_some (state : State) (h : 1 ≤ state.nextLineSeq) : nextSeqOf (some state) = state.nextLineSeq :=
  if_neg (by omega)

theorem one_le_nextSeqOf (previous : Option State) : 1 ≤ nextSeqOf previous := by
  cases previous with
  | none => exact Nat.le_refl 1
  | some state =>
      unfold nextSeqOf
      dsimp only
      split_ifs <;> omega

variable (py : Python) (consents : ConsentParser)

theorem callOnce_wellNumbered (previous : Option State) (call : Call) (h : WellNumbered previous) :
    WellNumbered (callOnce py consents previous call) ∧
      Renews previousIdsOf nextSeqOf lineId previous (callOnce py consents previous call) := by
  unfold callOnce
  cases he : evaluate py consents call.resource call.shop call.negotiated call.body previous with
  | error refusal => exact ⟨h, Renews.refl _ _ _ previous⟩
  | ok state =>
      obtain ⟨reading, _, rfl⟩ := (evaluate_ok py consents _ _ _ _ _ _).mp he
      have hpos := one_le_nextSeqOf previous
      obtain ⟨hle, hnodup, hids⟩ := priceLines_ids py.strip (previousIdsOf previous)
        (call.shop.catalog (reading.parsed.map ParsedItem.itemId)) reading.parsed 0 [] (nextSeqOf previous) none
        h.issued.numbered (fun id hid => absurd hid List.not_mem_nil) hpos
      have hcounter : 1 ≤ (reading.state py call.shop call.negotiated previous).nextLineSeq := Nat.le_trans hpos hle
      have hnext := nextSeqOf_some _ hcounter
      refine ⟨⟨⟨hnodup, fun id hid => ?_⟩, fun other ho => ?_⟩, ⟨?_, fun id hid => ?_⟩⟩
      · rw [hnext]
        rcases (hids id hid).2 with hp | hn
        · exact (h.issued.numbered id hp).mono lineId _ _ _ _ id (Nat.le_refl _) hle
        · exact hn.mono lineId _ _ _ _ id hpos (Nat.le_refl _)
      · cases ho
        exact hcounter
      · rw [hnext]
        exact hle
      · rw [hnext]
        exact (hids id hid).2

theorem after_wellNumbered (calls : List Call) : WellNumbered (after py consents calls) :=
  (foldl_renews previousIdsOf nextSeqOf lineId (callOnce py consents) WellNumbered
    (callOnce_wellNumbered py consents) calls none wellNumbered_none).1

theorem after_renews (first second : List Call) :
    Renews previousIdsOf nextSeqOf lineId (after py consents first) (after py consents (first ++ second)) := by
  rw [after_append]
  exact (foldl_renews previousIdsOf nextSeqOf lineId (callOnce py consents) WellNumbered
    (callOnce_wellNumbered py consents) second _ (after_wellNumbered py consents first)).2

theorem after_counter (calls : List Call) (state : State) (h : after py consents calls = some state) :
    nextSeqOf (after py consents calls) = state.nextLineSeq := by
  have hcounter := (after_wellNumbered py consents calls).counter state h
  rw [h]
  exact nextSeqOf_some state hcounter

end Invariant

-- Line ids are distinct and numbered below a counter that never goes back; the ones a state does not
-- have from the state before are new numbers, and one that was dropped never returns.
theorem line_ids_never_reused (py : Python) (consents : ConsentParser) (first second third : List Call) :
    (∀ state, after py consents first = some state → state.lineIds.Nodup ∧
      ∀ id ∈ state.lineIds, ∃ k, id = lineId k ∧ 1 ≤ k ∧ k < state.nextLineSeq) ∧
    (∀ before now, after py consents first = some before → after py consents (first ++ second) = some now →
      before.nextLineSeq ≤ now.nextLineSeq ∧
        ∀ id ∈ now.lineIds, id ∈ before.lineIds ∨ ∃ k, id = lineId k ∧ before.nextLineSeq ≤ k) ∧
    (∀ before now later, after py consents first = some before → after py consents (first ++ second) = some now →
      after py consents (first ++ second ++ third) = some later →
      ∀ id ∈ before.lineIds, id ∉ now.lineIds → id ∉ later.lineIds) := by
  have hissued := (after_wellNumbered py consents first).issued
  have hrenews := after_renews py consents first second
  refine ⟨fun state h => ?_, fun before now hb hn => ?_, fun before now later hb hn hl id hid hgone => ?_⟩
  · have hseq := after_counter py consents first state h
    have hnumbered := hissued.numbered
    have hdistinct := hissued.distinct
    rw [hseq] at hnumbered
    rw [h] at hnumbered hdistinct
    exact ⟨hdistinct, hnumbered⟩
  · have hgrows := hrenews.grows
    have hkept := hrenews.kept
    rw [after_counter py consents _ _ hb, after_counter py consents _ _ hn] at hgrows
    rw [after_counter py consents _ _ hb, hb, hn] at hkept
    refine ⟨hgrows, fun id hid => ?_⟩
    rcases hkept id hid with hold | ⟨k, hk, hle, _⟩
    · exact .inl hold
    · exact .inr ⟨k, hk, hle⟩
  · have hgone' := gone_forever previousIdsOf nextSeqOf lineId lineId_injective 1 _ _ _ hissued hrenews
      (after_renews py consents (first ++ second) third) id
    rw [hb, hn, hl] at hgone'
    exact hgone' hid hgone

end AgenticOrg.Commerce.Ucp
