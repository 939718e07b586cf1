import Mathlib.Data.List.Induction
import AgenticOrg.Lib.History
import AgenticOrg.Commerce.Arbiter.Store
import AgenticOrg.Commerce.Arbiter.Theorems

namespace AgenticOrg.Commerce.Arbiter

open History
open JsonText (Value)
open Tables

section Histories

variable {δ : Type} (platform : Platform δ) (issuer : String)

-- The decision a step writes, when it is the one of the id.
def writes (decisionId : String) : ArbiterStep δ → Option (Decision × String)
  | .persist action context =>
      ((platform.uuid context.tenantId).map fun tenantId => (decide platform action context, tenantId)).filter
        fun written => written.1.decisionId = decisionId
  | _ => none

-- The first decision written of an id, and its tenant.
def firstDecision (steps : List (ArbiterStep δ)) (decisionId : String) : Option (Decision × String) :=
  steps.findSome? (writes platform decisionId)

-- An executor is let through on the decision.
def LetThrough (decisionId : String) (earlier : List (ArbiterStep δ)) (step : ArbiterStep δ) : Prop :=
  ∃ request store, step = .consume request ∧ request.decisionId = some decisionId ∧
    requireAllowDecision platform (emptyStore.run platform issuer earlier) (emptyStore.run platform issuer earlier)
      request = .ok store

-- Grantex gives a grant for the decision, which was written.
def GivenGrant (decisionId : String) (tenantId : String) (earlier : List (ArbiterStep δ)) (step : ArbiterStep δ) :
    Prop :=
  ∃ action context postEnabled answer moment jti,
    step = .countersign action context postEnabled answer moment ∧
      (decide platform action context).decisionId = decisionId ∧ platform.uuid context.tenantId = some tenantId ∧
      grantJti (decide platform action context) issuer postEnabled answer moment = some jti ∧
      (firstDecision platform earlier decisionId).isSome = true

end Histories

section Steps

variable {δ : Type} (platform : Platform δ) (issuer : String)

theorem find?_persistDecision (store : ArbiterStore) (decision : Decision) (tenantId : String) (decisionId : String) :
    (persistDecision store decision tenantId).decisions.find? decisionId =
      (store.decisions.find? decisionId).or
        (if decision.decisionId = decisionId then some ⟨decision, tenantId, none, none, none⟩ else none) := by
  rw [persistDecision]
  dsimp only
  by_cases hid : decision.decisionId = decisionId
  · obtain rfl := hid
    rw [if_pos rfl]
    cases hfind : store.decisions.find? decision.decisionId with
    | none =>
        obtain ⟨table, htable, _⟩ := store.decisions.insert?_of_absent ⟨decision, tenantId, none, none, none⟩ hfind
        rw [htable, Option.getD_some, Table.find?_of_insert? _ _ _ htable]
        exact if_pos rfl
    | some row =>
        rw [Table.insert?_of_taken store.decisions ⟨decision, tenantId, none, none, none⟩ row hfind,
          Option.getD_none, hfind]
        rfl
  · rw [if_neg hid, Option.or_none]
    cases htable : store.decisions.insert? ⟨decision, tenantId, none, none, none⟩ with
    | none => rfl
    | some table =>
        rw [Option.getD_some, Table.find?_of_insert? _ _ _ htable]
        exact if_neg hid

theorem find?_attachGrant (store : ArbiterStore) (decision : Decision) (tenantId : String) (jti : String)
    (recordedAt : ℤ) (decisionId : String) :
    (attachGrant store decision tenantId jti recordedAt).decisions.find? decisionId =
      (store.decisions.find? decisionId).map fun row =>
        if decision.decisionId = decisionId ∧ row.attachable tenantId = true then row.granted (clip 255 jti) recordedAt
        else row := by
  rw [attachGrant]
  by_cases hid : decision.decisionId = decisionId
  · obtain rfl := hid
    cases hfind : store.decisions.find? decision.decisionId with
    | none =>
        dsimp only
        rw [hfind]
        rfl
    | some row =>
        dsimp only
        rw [Option.map_some]
        by_cases hattach : row.attachable tenantId = true
        · rw [if_pos hattach]
          dsimp only
          rw [Table.find?_modify, if_pos rfl, hfind, Option.map_some, if_pos ⟨rfl, hattach⟩]
        · rw [if_neg hattach, hfind, if_neg fun h => hattach h.2]
  · have hsame : (fun row : DecisionRow => if decision.decisionId = decisionId ∧ row.attachable tenantId = true then
        row.granted (clip 255 jti) recordedAt else row) = id := by
      funext row
      exact if_neg fun h => hid h.1
    rw [hsame, Option.map_id, id]
    cases store.decisions.find? decision.decisionId with
    | none => rfl
    | some row =>
        dsimp only
        split_ifs
        · exact (Table.find?_modify _ _ _ (key_granted _ _) _).trans (if_neg hid)
        · rfl

theorem consume_eq_some (store store' : ArbiterStore) (tenantId : String) (decisionId : String) (request : Request) :
    consume store tenantId decisionId request = some store' ↔
      ∃ row, store.decisions.find? decisionId = some row ∧ row.consumable tenantId request = true ∧
        store' =
          { decisions := store.decisions.modify decisionId (·.consumedBy request.now)
              (key_consumedBy request.now)
            ledger := store.ledger ++
              [.consumed decisionId tenantId request.action request.payloadHash request.now] } := by
  rw [consume]
  cases store.decisions.find? decisionId with
  | none => simp
  | some row =>
      dsimp only
      by_cases hrow : row.consumable tenantId request = true
      · rw [if_pos hrow, Option.some.injEq]
        constructor
        · rintro rfl
          exact ⟨row, rfl, hrow, rfl⟩
        · rintro ⟨_, _, _, rfl⟩
          rfl
      · simp [hrow]

theorem requireAllowDecision_ok (store reread store' : ArbiterStore) (request : Request) :
    requireAllowDecision platform store reread request = .ok store' ↔
      ∃ decisionId tenantId, filled request.decisionId = some decisionId ∧
        platform.uuid request.tenantId = some tenantId ∧
        consume store tenantId decisionId request = some store' := by
  rw [requireAllowDecision]
  cases hid : filled request.decisionId with
  | none => simp
  | some decisionId =>
      cases htenant : platform.uuid request.tenantId with
      | none => simp
      | some tenantId =>
          cases hconsume : consume store tenantId decisionId request with
          | none => simp [hconsume]
          | some consumed => simp [hconsume]

theorem find?_consume (store store' : ArbiterStore) (tenantId : String) (decisionId : String) (request : Request)
    (h : consume store tenantId decisionId request = some store') (other : String) :
    store'.decisions.find? other =
      (store.decisions.find? other).map fun row => if decisionId = other then row.consumedBy request.now else row := by
  obtain ⟨row, _, _, rfl⟩ := (consume_eq_some store store' tenantId decisionId request).mp h
  dsimp only
  rw [Table.find?_modify]
  by_cases hid : decisionId = other
  · simp only [hid, if_true]
  · simp only [hid, if_false, Option.map_id']

theorem run_append (store : ArbiterStore) (steps : List (ArbiterStep δ)) (step : ArbiterStep δ) :
    store.run platform issuer (steps ++ [step]) = (store.run platform issuer steps).step platform issuer step := by
  rw [ArbiterStore.run, List.foldl_append]
  rfl

theorem firstDecision_append (steps : List (ArbiterStep δ)) (step : ArbiterStep δ) (decisionId : String) :
    firstDecision platform (steps ++ [step]) decisionId =
      (firstDecision platform steps decisionId).or (writes platform decisionId step) := by
  rw [firstDecision, List.findSome?_append, firstDecision]
  cases hwrites : writes platform decisionId step <;> simp [hwrites]

end Steps

section Rows

variable {δ : Type} (platform : Platform δ) (issuer : String)

-- What a row says is what happened to its decision.
structure Recorded (steps : List (ArbiterStep δ)) (row : DecisionRow) : Prop where
  decision : firstDecision platform steps row.decision.decisionId = some (row.decision, row.tenantId)
  consumedAt : row.consumedAt.isSome = true ↔ Happened (LetThrough platform issuer row.decision.decisionId) steps
  grant : row.decision.outcome = .allow →
    (row.grantexGrantJti.isSome = true ↔
      Happened (GivenGrant platform issuer row.decision.decisionId row.tenantId) steps)

-- Nothing happened to a decision that has no row.
structure Unrecorded (steps : List (ArbiterStep δ)) (decisionId : String) : Prop where
  decision : firstDecision platform steps decisionId = none
  consumedAt : ¬Happened (LetThrough platform issuer decisionId) steps
  grant : ∀ tenantId, ¬Happened (GivenGrant platform issuer decisionId tenantId) steps

structure AllRecorded (steps : List (ArbiterStep δ)) (store : ArbiterStore) : Prop where
  absent : ∀ decisionId, store.decisions.find? decisionId = none → Unrecorded platform issuer steps decisionId
  found : ∀ decisionId row, store.decisions.find? decisionId = some row → Recorded platform issuer steps row

variable {platform issuer} {steps : List (ArbiterStep δ)} {step : ArbiterStep δ}

theorem Recorded.firstDecision_concat {row : DecisionRow} (h : Recorded platform issuer steps row) :
    firstDecision platform (steps ++ [step]) row.decision.decisionId = some (row.decision, row.tenantId) := by
  rw [firstDecision_append, h.decision, Option.some_or]

theorem Recorded.concat {row : DecisionRow} (h : Recorded platform issuer steps row)
    (hlet : ¬LetThrough platform issuer row.decision.decisionId steps step)
    (hgrant : ¬GivenGrant platform issuer row.decision.decisionId row.tenantId steps step) :
    Recorded platform issuer (steps ++ [step]) row := by
  refine ⟨h.firstDecision_concat, ?_, fun hallow => ?_⟩
  · rw [happened_concat, h.consumedAt, or_iff_left hlet]
  · rw [happened_concat, h.grant hallow, or_iff_left hgrant]

theorem Unrecorded.concat {decisionId : String} (h : Unrecorded platform issuer steps decisionId)
    (hwrites : writes platform decisionId step = none) (hlet : ¬LetThrough platform issuer decisionId steps step) :
    Unrecorded platform issuer (steps ++ [step]) decisionId := by
  refine ⟨?_, ?_, fun tenantId => ?_⟩
  · rw [firstDecision_append, h.decision, hwrites]
    rfl
  · rw [happened_concat, not_or]
    exact ⟨h.consumedAt, hlet⟩
  · rw [happened_concat, not_or]
    refine ⟨h.grant tenantId, ?_⟩
    rintro ⟨_, _, _, _, _, _, _, _, _, _, hfirst⟩
    rw [h.decision] at hfirst
    cases hfirst

theorem Unrecorded.written {decision : Decision} {tenantId : String}
    (h : Unrecorded platform issuer steps decision.decisionId)
    (hwrites : writes platform decision.decisionId step = some (decision, tenantId))
    (hlet : ¬LetThrough platform issuer decision.decisionId steps step) :
    Recorded platform issuer (steps ++ [step]) ⟨decision, tenantId, none, none, none⟩ := by
  refine ⟨?_, ?_, fun _ => ?_⟩
  · rw [firstDecision_append, h.decision, hwrites]
    rfl
  · rw [happened_concat, or_iff_left hlet]
    exact iff_of_false Bool.false_ne_true h.consumedAt
  · refine iff_of_false Bool.false_ne_true ?_
    rw [happened_concat, not_or]
    refine ⟨h.grant tenantId, ?_⟩
    rintro ⟨_, _, _, _, _, _, _, _, _, _, hfirst⟩
    rw [h.decision] at hfirst
    cases hfirst

section Persisting

variable {action : String} {context : ArbiterContext δ}

theorem not_letThrough_persist (decisionId : String) :
    ¬LetThrough platform issuer decisionId steps (.persist action context) := by
  rintro ⟨_, _, h, _⟩
  cases h

theorem not_givenGrant_persist (decisionId : String) (tenantId : String) :
    ¬GivenGrant platform issuer decisionId tenantId steps (.persist action context) := by
  rintro ⟨_, _, _, _, _, _, h, _⟩
  cases h

theorem AllRecorded.persist (h : AllRecorded platform issuer steps (emptyStore.run platform issuer steps)) :
    AllRecorded platform issuer (steps ++ [.persist action context])
      (emptyStore.run platform issuer (steps ++ [.persist action context])) := by
  rw [run_append]
  generalize emptyStore.run platform issuer steps = store at h
  rw [ArbiterStore.step]
  cases htenant : platform.uuid context.tenantId with
  | none =>
      have hwrites : ∀ decisionId, writes platform decisionId (.persist action context) = none := by
        intro decisionId
        rw [writes, htenant]
        rfl
      exact
        { absent := fun decisionId hnone =>
            (h.absent decisionId hnone).concat (hwrites decisionId) (not_letThrough_persist decisionId)
          found := fun decisionId row hrow =>
            (h.found decisionId row hrow).concat (not_letThrough_persist _) (not_givenGrant_persist _ _) }
  | some tenantId =>
      have hwrites : ∀ decisionId, writes platform decisionId (.persist action context) =
          if (decide platform action context).decisionId = decisionId then
            some (decide platform action context, tenantId) else none := by
        intro decisionId
        rw [writes, htenant, Option.map_some, Option.filter_some]
        simp only [decide_eq_true_eq]
      refine ⟨fun decisionId hnone => ?_, fun decisionId row hrow => ?_⟩
      · rw [find?_persistDecision, Option.or_eq_none_iff] at hnone
        refine (h.absent decisionId hnone.1).concat ?_ (not_letThrough_persist decisionId)
        rw [hwrites]
        by_cases hid : (decide platform action context).decisionId = decisionId
        · rw [if_pos hid] at hnone
          cases hnone.2
        · exact if_neg hid
      · rw [find?_persistDecision] at hrow
        cases hfind : store.decisions.find? decisionId with
        | some old =>
            rw [hfind, Option.some_or, Option.some.injEq] at hrow
            subst hrow
            exact (h.found decisionId old hfind).concat (not_letThrough_persist _) (not_givenGrant_persist _ _)
        | none =>
            rw [hfind, Option.none_or] at hrow
            split_ifs at hrow with hid
            cases hrow
            obtain rfl := hid
            exact (h.absent _ hfind).written ((hwrites _).trans (if_pos rfl)) (not_letThrough_persist _)

end Persisting

section Countersigning

variable {action : String} {context : ArbiterContext δ} {postEnabled : Bool} {answer : GrantexAnswer δ} {moment : ℤ}

theorem not_letThrough_countersign (decisionId : String) :
    ¬LetThrough platform issuer decisionId steps (.countersign action context postEnabled answer moment) := by
  rintro ⟨_, _, h, _⟩
  cases h

theorem Unrecorded.countersign {decisionId : String} (h : Unrecorded platform issuer steps decisionId) :
    Unrecorded platform issuer (steps ++ [.countersign action context postEnabled answer moment]) decisionId :=
  h.concat rfl (not_letThrough_countersign decisionId)

theorem AllRecorded.countersign (h : AllRecorded platform issuer steps (emptyStore.run platform issuer steps)) :
    AllRecorded platform issuer (steps ++ [.countersign action context postEnabled answer moment])
      (emptyStore.run platform issuer (steps ++ [.countersign action context postEnabled answer moment])) := by
  rw [run_append]
  generalize emptyStore.run platform issuer steps = store at h
  rw [ArbiterStore.step]
  cases hjti : grantJti (decide platform action context) issuer postEnabled answer moment with
  | none =>
      refine ⟨fun decisionId hnone => (h.absent decisionId hnone).countersign, fun decisionId row hrow => ?_⟩
      refine (h.found decisionId row hrow).concat (not_letThrough_countersign _) ?_
      rintro ⟨_, _, _, _, _, _, hstep, _, _, hgiven, _⟩
      cases hstep
      rw [hjti] at hgiven
      cases hgiven
  | some jti =>
      cases htenant : platform.uuid context.tenantId with
      | none =>
          refine ⟨fun decisionId hnone => (h.absent decisionId hnone).countersign, fun decisionId row hrow => ?_⟩
          refine (h.found decisionId row hrow).concat (not_letThrough_countersign _) ?_
          rintro ⟨_, _, _, _, _, _, hstep, _, huuid, _, _⟩
          cases hstep
          rw [htenant] at huuid
          cases huuid
      | some tenantId =>
          refine ⟨fun decisionId hnone => ?_, fun decisionId row hrow => ?_⟩
          · rw [find?_attachGrant, Option.map_eq_none_iff] at hnone
            exact (h.absent decisionId hnone).countersign
          · rw [find?_attachGrant, Option.map_eq_some_iff] at hrow
            obtain ⟨old, hfind, rfl⟩ := hrow
            have hold := h.found decisionId old hfind
            have hkey := (Table.mem_of_find? _ _ _ hfind).2
            change old.decision.decisionId = decisionId at hkey
            split_ifs with hattach
            · -- the grant is attached by this step
              obtain ⟨hid, hattachable⟩ := hattach
              rw [DecisionRow.attachable, Bool.and_eq_true, Bool.and_eq_true, decide_eq_true_eq] at hattachable
              refine ⟨hold.firstDecision_concat, ?_, fun _ => ?_⟩
              · exact hold.consumedAt.trans
                  (by rw [happened_concat, or_iff_left (not_letThrough_countersign _)]; rfl)
              · refine iff_of_true rfl ((happened_concat _ _ _).mpr (.inr ?_))
                refine ⟨action, context, postEnabled, answer, moment, jti, rfl, hid.trans hkey.symm,
                  htenant.trans (congrArg some hattachable.1.1.symm), hjti, ?_⟩
                exact Option.isSome_of_eq_some hold.decision
            · refine ⟨hold.firstDecision_concat, ?_, fun hallow => ?_⟩
              · rw [happened_concat, hold.consumedAt, or_iff_left (not_letThrough_countersign _)]
              · rw [happened_concat, ← hold.grant hallow]
                refine ⟨.inl, fun hgiven => hgiven.elim id ?_⟩
                -- a grant that came too late for this row
                rintro ⟨_, _, _, _, _, _, hstep, hid, huuid, _, _⟩
                cases hstep
                rw [htenant, Option.some.injEq] at huuid
                by_contra hnone
                refine hattach ⟨hid.trans hkey, ?_⟩
                rw [DecisionRow.attachable, Bool.and_eq_true, Bool.and_eq_true]
                simp only [decide_eq_true_eq]
                exact ⟨⟨huuid.symm, hallow⟩, Option.not_isSome_iff_eq_none.mp hnone⟩

end Countersigning

section Consuming

variable {request : Request}

theorem not_givenGrant_consume (decisionId : String) (tenantId : String) :
    ¬GivenGrant platform issuer decisionId tenantId steps (.consume request) := by
  rintro ⟨_, _, _, _, _, _, h, _⟩
  cases h

theorem AllRecorded.consume (h : AllRecorded platform issuer steps (emptyStore.run platform issuer steps)) :
    AllRecorded platform issuer (steps ++ [.consume request])
      (emptyStore.run platform issuer (steps ++ [.consume request])) := by
  rw [run_append, ArbiterStore.step]
  have hlet : ∀ decisionId, LetThrough platform issuer decisionId steps (.consume request) →
      request.decisionId = some decisionId ∧ ∃ store, requireAllowDecision platform
        (emptyStore.run platform issuer steps) (emptyStore.run platform issuer steps) request = .ok store := by
    rintro decisionId ⟨_, store, hstep, hid, hok⟩
    cases hstep
    exact ⟨hid, store, hok⟩
  cases hresult : requireAllowDecision platform (emptyStore.run platform issuer steps)
      (emptyStore.run platform issuer steps) request with
  | error code =>
      have hrefused : ∀ decisionId, ¬LetThrough platform issuer decisionId steps (.consume request) := by
        intro decisionId hthrough
        obtain ⟨_, _, hok⟩ := hlet decisionId hthrough
        rw [hresult] at hok
        cases hok
      exact
        { absent := fun decisionId hnone => (h.absent decisionId hnone).concat rfl (hrefused decisionId)
          found := fun decisionId row hrow =>
            (h.found decisionId row hrow).concat (hrefused _) (not_givenGrant_consume _ _) }
  | ok consumed =>
      obtain ⟨decisionId, tenantId, hid, _, hconsume⟩ := (requireAllowDecision_ok platform _ _ _ _).mp hresult
      obtain ⟨given, hgiven, _⟩ := (consume_eq_some _ _ _ _ _).mp hconsume
      have hpresented := ((filled_eq_some_iff _ _).mp hid).1
      have hthrough : LetThrough platform issuer decisionId steps (.consume request) :=
        ⟨request, consumed, rfl, hpresented, hresult⟩
      have hother : ∀ other, other ≠ decisionId →
          ¬LetThrough platform issuer other steps (.consume request) := by
        intro other hne hthrough
        have hboth := (hlet other hthrough).1.symm.trans hpresented
        exact hne (Option.some.inj hboth)
      dsimp only
      refine ⟨fun other hnone => ?_, fun other row hrow => ?_⟩
      · rw [find?_consume _ _ _ _ _ hconsume, Option.map_eq_none_iff] at hnone
        refine (h.absent other hnone).concat rfl (hother other ?_)
        rintro rfl
        rw [hgiven] at hnone
        cases hnone
      · rw [find?_consume _ _ _ _ _ hconsume, Option.map_eq_some_iff] at hrow
        obtain ⟨old, hfind, rfl⟩ := hrow
        have hold := h.found other old hfind
        have hkey := (Table.mem_of_find? _ _ _ hfind).2
        change old.decision.decisionId = other at hkey
        split_ifs with hsame
        · refine ⟨hold.firstDecision_concat, ?_, fun hallow => ?_⟩
          · exact iff_of_true rfl ((happened_concat _ _ _).mpr (.inr (hkey.trans hsame.symm ▸ hthrough)))
          · exact (hold.grant hallow).trans
              (by rw [happened_concat, or_iff_left (not_givenGrant_consume _ _)]; rfl)
        · exact hold.concat (hother _ fun he => hsame (he.symm.trans hkey)) (not_givenGrant_consume _ _)

end Consuming

-- In every run the rows say what happened.
theorem run_allRecorded (steps : List (ArbiterStep δ)) :
    AllRecorded platform issuer steps (emptyStore.run platform issuer steps) := by
  induction steps using List.reverseRecOn with
  | nil =>
      refine ⟨fun decisionId _ => ⟨rfl, not_happened_nil _, fun _ => not_happened_nil _⟩, fun decisionId row h => ?_⟩
      cases h
  | append_singleton steps step ih =>
      cases step with
      | persist action context => exact ih.persist
      | countersign action context postEnabled answer moment => exact ih.countersign
      | consume request => exact ih.consume

end Rows

section Authority

variable {δ : Type} (platform : Platform δ) (issuer : String)

-- The decision is the first one written of its id.
def FirstWritten (steps : List (ArbiterStep δ)) (decisionId : String) (tenantId : String) (action : String)
    (context : ArbiterContext δ) : Prop :=
  ∃ earlier later, steps = earlier ++ .persist action context :: later ∧
    platform.uuid context.tenantId = some tenantId ∧ (decide platform action context).decisionId = decisionId ∧
    ∀ step ∈ earlier, writes platform decisionId step = none

-- What lets an executor through.
structure Authorised (steps : List (ArbiterStep δ)) (request : Request) (decisionId : String) (tenantId : String)
    (context : ArbiterContext δ) : Prop where
  presented : filled request.decisionId = some decisionId
  tenant : platform.uuid request.tenantId = some tenantId
  written : FirstWritten platform steps decisionId tenantId request.action context
  allowed : (decide platform request.action context).allowed = true
  payload : platform.payloadHash context.payload = request.payloadHash
  fresh : request.now < context.now + DECISION_TTL
  unspent : ¬Happened (LetThrough platform issuer decisionId) steps
  grant : request.requireGrantexGrant = true → Happened (GivenGrant platform issuer decisionId tenantId) steps

variable {platform issuer}

theorem writes_eq_some {decisionId : String} {step : ArbiterStep δ} {decision : Decision} {tenantId : String} :
    writes platform decisionId step = some (decision, tenantId) ↔
      ∃ action context, step = .persist action context ∧ platform.uuid context.tenantId = some tenantId ∧
        decide platform action context = decision ∧ decision.decisionId = decisionId := by
  cases step with
  | persist action context =>
      rw [writes, Option.filter_eq_some_iff, Option.map_eq_some_iff]
      constructor
      · rintro ⟨⟨found, hfound, hpair⟩, hid⟩
        cases hpair
        exact ⟨action, context, rfl, hfound, rfl, of_decide_eq_true hid⟩
      · rintro ⟨_, _, hstep, htenant, rfl, hid⟩
        cases hstep
        exact ⟨⟨tenantId, htenant, rfl⟩, decide_eq_true hid⟩
  | countersign action context postEnabled answer moment => simp [writes]
  | consume request => simp [writes]

theorem firstDecision_eq_some {steps : List (ArbiterStep δ)} {decisionId : String} {decision : Decision}
    {tenantId : String} :
    firstDecision platform steps decisionId = some (decision, tenantId) ↔
      ∃ action context, FirstWritten platform steps decisionId tenantId action context ∧
        decide platform action context = decision := by
  rw [firstDecision, List.findSome?_eq_some_iff]
  constructor
  · rintro ⟨earlier, step, later, hsplit, hwrites, hbefore⟩
    obtain ⟨action, context, rfl, htenant, rfl, hid⟩ := writes_eq_some.mp hwrites
    exact ⟨action, context, ⟨earlier, later, hsplit, htenant, hid, hbefore⟩, rfl⟩
  · rintro ⟨action, context, ⟨earlier, later, hsplit, htenant, hid, hbefore⟩, rfl⟩
    exact ⟨earlier, _, later, hsplit, writes_eq_some.mpr ⟨action, context, rfl, htenant, rfl, hid⟩, hbefore⟩

theorem consumable_iff (row : DecisionRow) (tenantId : String) (request : Request) :
    row.consumable tenantId request = true ↔
      row.tenantId = tenantId ∧ row.decision.action = request.action ∧
        row.decision.payloadHash = request.payloadHash ∧ row.decision.outcome = .allow ∧ row.consumedAt = none ∧
        request.now < row.decision.expiresAt ∧
        (request.requireGrantexGrant = true → row.grantexGrantJti.isSome = true) := by
  simp only [DecisionRow.consumable, Bool.and_eq_true, decide_eq_true_eq, Bool.or_eq_true, Bool.not_eq_true',
    and_assoc, ← Bool.not_eq_true]
  rw [imp_iff_not_or]

section Rows

variable {steps : List (ArbiterStep δ)} {store : ArbiterStore} (hall : AllRecorded platform issuer steps store)
  {decisionId : String}
include hall

-- A row holds the first decision written of its id.
theorem AllRecorded.written_of_row {row : DecisionRow} (hrow : store.decisions.find? decisionId = some row) :
    ∃ action context, FirstWritten platform steps decisionId row.tenantId action context ∧
      decide platform action context = row.decision := by
  have hkey := (Table.mem_of_find? _ _ _ hrow).2
  change row.decision.decisionId = decisionId at hkey
  have hfirst := (hall.found decisionId row hrow).decision
  rw [hkey] at hfirst
  exact firstDecision_eq_some.mp hfirst

-- A decision that was written has the row that holds it.
theorem AllRecorded.row_of_written {tenantId action : String} {context : ArbiterContext δ}
    (hwritten : FirstWritten platform steps decisionId tenantId action context) :
    ∃ row, store.decisions.find? decisionId = some row ∧ row.decision = decide platform action context ∧
      row.tenantId = tenantId := by
  have hfirst := firstDecision_eq_some.mpr ⟨action, context, hwritten, rfl⟩
  cases hrow : store.decisions.find? decisionId with
  | none =>
      rw [(hall.absent decisionId hrow).decision] at hfirst
      cases hfirst
  | some row =>
      have hkey := (Table.mem_of_find? _ _ _ hrow).2
      change row.decision.decisionId = decisionId at hkey
      have hsame := (hall.found decisionId row hrow).decision
      rw [hkey, hfirst, Option.some.injEq, Prod.mk.injEq] at hsame
      exact ⟨row, rfl, hsame.1.symm, hsame.2.symm⟩

-- What a row says of the executors let through on it and of the grants given for it.
theorem AllRecorded.row_history {row : DecisionRow} (hrow : store.decisions.find? decisionId = some row) :
    (row.consumedAt.isSome = true ↔ Happened (LetThrough platform issuer decisionId) steps) ∧
      (row.decision.outcome = .allow →
        (row.grantexGrantJti.isSome = true ↔ Happened (GivenGrant platform issuer decisionId row.tenantId) steps)) := by
  have hkey := (Table.mem_of_find? _ _ _ hrow).2
  change row.decision.decisionId = decisionId at hkey
  have hrecorded := hall.found decisionId row hrow
  exact hkey ▸ ⟨hrecorded.consumedAt, hrecorded.grant⟩

end Rows

-- An executor is let through exactly on the first decision written of the id it presents, when that allowed
-- this action on this payload within the last ten minutes, nobody was let through on it before, and Grantex
-- granted it where a grant is asked for.
theorem letThrough_iff (steps : List (ArbiterStep δ)) (reread : ArbiterStore) (request : Request) :
    (∃ store, requireAllowDecision platform (emptyStore.run platform issuer steps) reread request = .ok store) ↔
      ∃ decisionId tenantId context, Authorised platform issuer steps request decisionId tenantId context := by
  have hall : AllRecorded platform issuer steps (emptyStore.run platform issuer steps) := run_allRecorded steps
  generalize emptyStore.run platform issuer steps = store at hall
  simp only [requireAllowDecision_ok, consume_eq_some, consumable_iff]
  constructor
  · rintro ⟨_, decisionId, tenantId, hid, huuid, row, hrow, ⟨htenant, haction, hpayload, hallow, hunspent, hfresh,
      hgrant⟩, _⟩
    obtain ⟨action, context, hwritten, hdecision⟩ := hall.written_of_row hrow
    obtain rfl : action = request.action := by rw [← haction, ← hdecision]; rfl
    obtain rfl := htenant
    obtain ⟨hspent, hgranted⟩ := hall.row_history hrow
    rw [hunspent] at hspent
    refine ⟨decisionId, row.tenantId, context, hid, huuid, hwritten, ?_, ?_, ?_, ?_, ?_⟩
    · rw [hdecision, Decision.allowed]
      exact decide_eq_true hallow
    · rw [← hpayload, ← hdecision]
      rfl
    · rw [← hdecision] at hfresh
      exact hfresh
    · exact fun h => Bool.false_ne_true (hspent.mpr h)
    · exact fun h => (hgranted hallow).mp (hgrant h)
  · rintro ⟨decisionId, tenantId, context, h⟩
    obtain ⟨row, hrow, hdecision, rfl⟩ := hall.row_of_written h.written
    obtain ⟨hspent, hgranted⟩ := hall.row_history hrow
    have hallow : row.decision.outcome = .allow := by
      rw [hdecision]
      exact of_decide_eq_true h.allowed
    refine ⟨_, decisionId, row.tenantId, h.presented, h.tenant, row, hrow, ⟨rfl, ?_, ?_, hallow, ?_, ?_, ?_⟩, rfl⟩
    · rw [hdecision]
      rfl
    · rw [hdecision]
      exact h.payload
    · exact Option.not_isSome_iff_eq_none.mp fun hsome => h.unspent (hspent.mp hsome)
    · rw [hdecision]
      exact h.fresh
    · exact fun hdemanded => (hgranted hallow).mpr (h.grant hdemanded)

end Authority

end AgenticOrg.Commerce.Arbiter
