import AgenticOrg.Policy.Engine.Theorems
import Mathlib.Algebra.Order.BigOperators.Group.List

namespace AgenticOrg.Policies

open OrderedDict Kleene Fallible

section Sample

-- Python's own answers for the texts of the policy below.
def plainPython : Python where
  repr := fun _ => ""
  casefold := fun text => text.toLower
  isSpace := fun c => c.isWhitespace
  isAlnum := fun c => c.isAlphanum
  isAlpha := fun c => c.isAlpha
  isDecimal := fun c => c.isDigit
  floatRepr := fun value => toString value
  quote := fun text => "\"" ++ text ++ "\""
  sha256 := fun text =>
    if text = "\x7b\"amount\":50\x7d" then
      "0b8895843d28a813c0a0552270feec179fa3d49d5ffca9ed450c81983c60da61"
    else if text = "\x7b\"amount\":null\x7d" then
      "2ccd94e2ba19c54ed10b40a18c17a6122ae49060dad6bb43051c9a65894d578b"
    else "c5ada6616e4acf951462067e53b3475c72684c9d899347c027a8ad9321f04695"

def spendDocument : Yaml :=
  .mapping
    [("policy", .scalar (.str "spend")), ("version", .scalar (.str "1.0.0")),
      ("rules", .list
        [.mapping
          [("id", .scalar (.str "over")),
            ("when", .mapping [("amount", .mapping [("gt", .scalar (.int 100))])]),
            ("effect", .mapping
              [("tier", .scalar (.str "high")), ("reason", .scalar (.str "Over the limit"))])]])]

def spendPolicy : Policy where
  policyId := "spend"
  version := "1.0.0"
  status := .example_
  reviewedBy := none
  description := none
  rules :=
    [⟨"over", .compare ⟨"amount", ["amount"], .gt, .scalar (.int 100)⟩, ⟨.high, "Over the limit", 50⟩, none⟩]
  scoreThresholds := []
  contentHash := "sha256:0"
  source := "spend.yaml"
  referencedPaths := ["amount"]

end Sample

section Total

-- An accepted policy is evaluated without a fault on every mapping: all its paths are indexed,
-- and the inputs are values that the canonical JSON takes.
theorem evaluate_total (py : Python) (source : String) (document : Yaml) (contentHash : String)
    (policy : Policy) (h : compilePolicy py source document contentHash = .ok policy)
    (entries : List (String × Option Evidence)) :
    (∀ leaf ∈ policy.leaves, (indexRules policy (.mapping entries)).contains leaf.path = true) ∧
      ∃ result, evaluate py policy (.mapping entries) = .ok result ∧
        ∀ input ∈ result.inputs, ∃ shown, input.2.json py = .ok shown := by
  have hc := compilePolicy_compiled py source document contentHash policy h
  refine ⟨fun leaf hl => contains_indexRules (.mapping entries) policy leaf hl, ?_⟩
  obtain ⟨result, he, _, _, _, _, hj⟩ := evaluate_ok py policy hc entries
  exact ⟨result, he, hj⟩

theorem evaluate_total_nan :
    compilePolicy plainPython "spend.yaml" spendDocument "sha256:0" = .ok spendPolicy ∧
      ∃ result,
        evaluate plainPython spendPolicy (.mapping [("amount", some (.scalar (.float .nan)))]) =
          .ok result := by
  have hload : compilePolicy plainPython "spend.yaml" spendDocument "sha256:0" = .ok spendPolicy := rfl
  obtain ⟨_, result, he, _⟩ := evaluate_total plainPython "spend.yaml" spendDocument "sha256:0"
    spendPolicy hload [("amount", some (.scalar (.float .nan)))]
  exact ⟨hload, result, he⟩

end Total

section Lost

-- A reading that no comparison of the policy at this path can use: nothing, or a value of
-- another kind than theirs.
def Reading.Lost (policy : Policy) (path : String) (reading : Reading) : Prop :=
  ∀ value kind, reading.usable = some (value, kind) →
    ∀ leaf ∈ policy.leaves, leaf.path = path → ∀ item ∈ leaf.operand.items, item.kind ≠ some kind

-- The second evidence is the first one with some of the paths lost.
def Loses (policy : Policy) (evidence lesser : Evidence) : Prop :=
  ∀ path ∈ policy.referencedPaths,
    read lesser (segmentsOf path) = read evidence (segmentsOf path) ∨
      (read lesser (segmentsOf path)).Lost policy path

theorem compareReading_lost (op : Operator) (operand : Operand) (reading : Reading)
    (hp : op ∉ PRESENCE_OPERATORS) (hne : operand.items ≠ [])
    (hl : ∀ value kind, reading.usable = some (value, kind) → ∀ item ∈ operand.items, item.kind ≠ some kind) :
    compareReading op operand reading = .ok none := by
  have hexist : op ≠ .exist := by
    rintro rfl
    exact hp (by decide)
  have hmissing : op ≠ .missing := by
    rintro rfl
    exact hp (by decide)
  unfold compareReading
  split
  · rfl
  · rw [if_neg hexist, if_neg hmissing]
    split
    · rfl
    · rename_i value kind hu
      have hother := hl value kind hu
      split
      · obtain ⟨first, rest, hi⟩ := List.exists_cons_of_ne_nil hne
        have hk : some kind ≠ first.kind := by
          refine (hother first ?_).symm
          rw [hi]
          exact List.mem_cons_self
        rw [compareMember, hi]
        exact if_pos hk
      · split
        · rfl
        · rename_i bound
          have hk : some kind ≠ bound.kind := (hother bound (List.mem_singleton_self bound)).symm
          rw [if_pos hk]

theorem blurs_verdict (policy : Policy) (hc : policy.Compiled)
    (hp : ∀ leaf ∈ policy.leaves, leaf.op ∉ PRESENCE_OPERATORS) (evidence lesser : Evidence)
    (hl : Loses policy evidence lesser) (leaf : Compare) (hm : leaf ∈ policy.leaves) :
    Blurs (verdict evidence leaf) (verdict lesser leaf) := by
  have hleaf := hc.leaves _ leaf hm
  rcases hl leaf.path ((hc.paths leaf.path).mpr ⟨leaf, hm, rfl⟩) with hsame | hlost
  · right
    rw [verdict, verdict, hleaf.segments, hsame]
  · left
    obtain ⟨kind, hf⟩ := hleaf.operand
    rw [verdict, hleaf.segments, compareReading_lost leaf.op leaf.operand _ (hp leaf hm) hf.items
      fun value kind hu => hlost value kind hu leaf hm rfl]

theorem fires_of_loses (policy : Policy) (hc : policy.Compiled)
    (hp : ∀ leaf ∈ policy.leaves, leaf.op ∉ PRESENCE_OPERATORS) (evidence lesser : Evidence)
    (hl : Loses policy evidence lesser) (rule : Rule) (hr : rule ∈ policy.rules)
    (hf : rule.fires evidence = true) : rule.fires lesser = true := by
  have hb := blurs_meaning (verdict evidence) (verdict lesser) rule.when fun leaf hm =>
    blurs_verdict policy hc hp evidence lesser hl leaf (List.mem_flatMap.mpr ⟨rule, hr, hm⟩)
  rcases hb with hb | hb
  · simp [Rule.fires, hb]
  · rw [Rule.fires, hb]
    exact hf

end Lost

section Severity

theorem rank_raiseTier (tier other : Tier) : (raiseTier tier other).rank = max tier.rank other.rank := by
  unfold raiseTier
  split
  · omega
  · omega

theorem rank_tierOfReasons_le_iff (reasons : List PolicyReason) (bound : Nat) :
    (tierOfReasons reasons).rank ≤ bound ↔ ∀ reason ∈ reasons, reason.tier.rank ≤ bound := by
  have hfold : ∀ (start : Tier),
      (reasons.foldl (fun tier reason => raiseTier tier reason.tier) start).rank ≤ bound ↔
        start.rank ≤ bound ∧ ∀ reason ∈ reasons, reason.tier.rank ≤ bound := by
    induction reasons with
    | nil => simp
    | cons reason rest ih =>
        intro start
        rw [List.foldl_cons, ih, rank_raiseTier, List.forall_mem_cons, Nat.max_le, and_assoc]
  rw [tierOfReasons, hfold]
  simp [Tier.rank]

theorem rank_escalate_le_iff (score : Int) (thresholds : List (Tier × Int)) (start : Tier × String)
    (bound : Nat) :
    (escalate score thresholds start).1.rank ≤ bound ↔
      start.1.rank ≤ bound ∧ ∀ threshold ∈ thresholds, threshold.2 ≤ score → threshold.1.rank ≤ bound := by
  induction thresholds generalizing start with
  | nil => simp [escalate]
  | cons threshold rest ih =>
      have hstep : escalate score (threshold :: rest) start =
          escalate score rest
            (if score ≥ threshold.2 ∧ threshold.1.rank > start.1.rank then (threshold.1, "score_threshold")
            else start) := rfl
      rw [hstep, ih, List.forall_mem_cons, ← and_assoc]
      refine and_congr_left fun _ => ?_
      split
      · rename_i h
        constructor
        · intro hb
          have hrank : threshold.1.rank ≤ bound := hb
          exact ⟨by omega, fun _ => hrank⟩
        · rintro ⟨_, hb⟩
          exact hb h.1
      · rename_i h
        constructor
        · intro hb
          exact ⟨hb, fun hs => by omega⟩
        · exact And.left

theorem scoreOf_eq (reasons : List PolicyReason) :
    scoreOf reasons = min MAX_SCORE ((reasons.map PolicyReason.yields).map fun entry => entry.2.2).sum := by
  rw [scoreOf, ← List.sum_eq_foldl, List.map_map]
  rfl

theorem filter_sublist_filter (rules : List Rule) (p q : Rule → Bool)
    (h : ∀ rule ∈ rules, p rule = true → q rule = true) : (rules.filter p).Sublist (rules.filter q) := by
  have hand : rules.filter p = (rules.filter q).filter p := by
    rw [List.filter_filter]
    refine List.filter_congr fun rule hr => ?_
    cases hp : p rule with
    | false => rfl
    | true => rw [h rule hr hp, Bool.and_self]
  rw [hand]
  exact List.filter_sublist

end Severity

section Monotone

-- With no comparison about presence, losing evidence never lowers a tier.
theorem tier_mono_of_loses (py : Python) (source : String) (document : Yaml) (contentHash : String)
    (policy : Policy) (h : compilePolicy py source document contentHash = .ok policy)
    (hp : ∀ leaf ∈ policy.leaves, leaf.op ≠ .exist ∧ leaf.op ≠ .missing)
    (entries lesser : List (String × Option Evidence))
    (hl : Loses policy (.mapping entries) (.mapping lesser)) :
    ∃ result result', evaluate py policy (.mapping entries) = .ok result ∧
      evaluate py policy (.mapping lesser) = .ok result' ∧
      result.firedRules ⊆ result'.firedRules ∧
      result.score ≤ result'.score ∧ result.tier.rank ≤ result'.tier.rank := by
  have hc := compilePolicy_compiled py source document contentHash policy h
  have hpresence : ∀ leaf ∈ policy.leaves, leaf.op ∉ PRESENCE_OPERATORS := by
    intro leaf hm
    simp [PRESENCE_OPERATORS, hp leaf hm]
  have hsub := filter_sublist_filter policy.rules (fun rule => rule.fires (.mapping entries))
    (fun rule => rule.fires (.mapping lesser))
    (fires_of_loses policy hc hpresence (.mapping entries) (.mapping lesser) hl)
  obtain ⟨result, he, hperm, hids, hscore, htier, _⟩ := evaluate_ok py policy hc entries
  obtain ⟨result', he', hperm', hids', hscore', htier', _⟩ := evaluate_ok py policy hc lesser
  have hreasons : ∀ reason ∈ result.reasons, ∃ other ∈ result'.reasons, other.yields = reason.yields := by
    intro reason hr
    have hm := hperm.mem_iff.mp (List.mem_map_of_mem hr)
    exact List.mem_map.mp (hperm'.mem_iff.mpr ((hsub.map Rule.yields).subset hm))
  have hscores : result.score ≤ result'.score := by
    rw [hscore, hscore', scoreOf_eq, scoreOf_eq, (hperm.map _).sum_eq, (hperm'.map _).sum_eq]
    have hsum := List.Sublist.sum_le_sum ((hsub.map Rule.yields).map fun entry => entry.2.2) (by
      intro score hs
      rw [List.map_map] at hs
      obtain ⟨rule, hr, rfl⟩ := List.mem_map.mp hs
      exact hc.scores rule (List.mem_of_mem_filter hr))
    exact min_le_min_left MAX_SCORE hsum
  have htiers : (tierOfReasons result.reasons).rank ≤ (tierOfReasons result'.reasons).rank := by
    rw [rank_tierOfReasons_le_iff]
    intro reason hr
    obtain ⟨other, ho, hy⟩ := hreasons reason hr
    have hsame : other.tier = reason.tier := congrArg (fun entry => entry.2.1) hy
    rw [← hsame]
    exact (rank_tierOfReasons_le_iff result'.reasons _).mp le_rfl other ho
  refine ⟨result, result', he, he', ?_, hscores, ?_⟩
  · intro ruleId hr
    rw [hids] at hr
    obtain ⟨reason, hm, rfl⟩ := List.mem_map.mp hr
    obtain ⟨other, ho, hy⟩ := hreasons reason hm
    rw [hids']
    exact List.mem_map.mpr ⟨other, ho, congrArg Prod.fst hy⟩
  · rw [htier, htier', rank_escalate_le_iff]
    obtain ⟨hstart, hall⟩ := (rank_escalate_le_iff result'.score policy.scoreThresholds
      (tierOfReasons result'.reasons, "rules") _).mp le_rfl
    exact ⟨htiers.trans hstart, fun threshold hm hs => hall threshold hm (hs.trans hscores)⟩

theorem tier_mono_spend :
    Loses spendPolicy (.mapping [("amount", some (.scalar (.int 50)))]) (.mapping []) ∧
      ∃ result result',
        evaluate plainPython spendPolicy (.mapping [("amount", some (.scalar (.int 50)))]) = .ok result ∧
        evaluate plainPython spendPolicy (.mapping []) = .ok result' ∧
        result.firedRules ⊆ result'.firedRules ∧
        result.score ≤ result'.score ∧ result.tier.rank ≤ result'.tier.rank := by
  have hl : Loses spendPolicy (.mapping [("amount", some (.scalar (.int 50)))]) (.mapping []) := by
    intro path hm
    rw [List.mem_singleton.mp hm]
    right
    intro value kind hu
    cases hu
  refine ⟨hl, tier_mono_of_loses plainPython "spend.yaml" spendDocument "sha256:0" spendPolicy rfl ?_ _ _ hl⟩
  intro leaf hm
  rw [List.mem_singleton.mp hm]
  exact ⟨by decide, by decide⟩

end Monotone

end AgenticOrg.Policies
