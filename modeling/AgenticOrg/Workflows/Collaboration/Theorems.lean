import AgenticOrg.Workflows.Collaboration
import AgenticOrg.Workflows.Parallel.Theorems

namespace AgenticOrg.Workflows

open OrderedDict

section Counts

variable (repr : Json → String)

theorem votesFor_perm (results other : List (String × AgentResult)) (h : other.Perm results) (decision : String) :
    votesFor repr other decision = votesFor repr results decision :=
  (h.filterMap _).countP_eq _

theorem foldl_count (items : List (String × String)) (count : ℕ) :
    items.foldl (fun found _ => some (found.getD 0 + 1)) (some count) = some (count + items.length) := by
  induction items generalizing count with
  | nil => rfl
  | cons item rest ih =>
      rw [List.foldl_cons, Option.getD_some, ih, List.length_cons]
      congr 1
      omega

theorem get?_votes (results : List (String × AgentResult)) (decision : String) :
    (votes repr results).get? decision =
      if votesFor repr results decision = 0 then none else some (votesFor repr results decision) := by
  rw [votes, Dict.get?_gather, votesFor, List.countP_eq_length_filter]
  cases (ballots repr results).filter (·.1 == decision) with
  | nil => rfl
  | cons ballot rest =>
      rw [List.foldl_cons, Option.getD_none, foldl_count, if_neg (by simp), List.length_cons]
      congr 1
      omega

theorem voteCount_votes (results : List (String × AgentResult)) (decision : String) :
    voteCount (votes repr results) decision = votesFor repr results decision := by
  rw [voteCount, get?_votes]
  split_ifs with h
  · exact h.symm
  · rfl

theorem mem_keys_votes (results : List (String × AgentResult)) (decision : String) :
    decision ∈ (votes repr results).keys ↔ 0 < votesFor repr results decision := by
  have hget := get?_votes repr results decision
  constructor
  · intro h
    obtain ⟨ballot, hb, rfl⟩ := Dict.mem_keys_gather _ _ _ _ h
    exact List.countP_pos_iff.mpr ⟨ballot, hb, beq_self_eq_true _⟩
  · intro h
    rw [if_neg (by omega)] at hget
    exact List.mem_map_of_mem (Dict.mem_of_get? _ _ _ hget)

-- The decision reported is one of those with the most votes.
theorem greatest_of_winner (results : List (String × AgentResult)) (decision : String)
    (h : winningDecision (votes repr results) = some decision) : Greatest repr results decision := by
  refine ⟨(mem_keys_votes repr results decision).mp (List.argmax_mem h), fun other => ?_⟩
  by_cases ho : 0 < votesFor repr results other
  · have hle := List.le_of_mem_argmax ((mem_keys_votes repr results other).mpr ho) h
    rwa [voteCount_votes, voteCount_votes] at hle
  · omega

theorem decision_aggregateVote (results : List (String × AgentResult)) :
    (aggregateVote repr results).decision = winningDecision (votes repr results) := by
  rw [aggregateVote]
  cases winningDecision (votes repr results) <;> rfl

theorem voteCount_aggregateVote (results : List (String × AgentResult)) (decision : String) :
    votesFor repr results decision ≤ (aggregateVote repr results).voteCount := by
  rw [aggregateVote]
  cases h : winningDecision (votes repr results) with
  | some winner =>
      show votesFor repr results decision ≤ voteCount (votes repr results) winner
      rw [voteCount_votes]
      exact (greatest_of_winner repr results winner h).2 decision
  | none =>
      have hkeys : (votes repr results).keys = [] := List.argmax_eq_none.mp h
      have hnot := (mem_keys_votes repr results decision).not.mp (by rw [hkeys]; exact List.not_mem_nil)
      exact Nat.le_of_eq (Nat.eq_zero_of_not_pos hnot)

end Counts

section Orders

variable (repr : Json → String)

theorem head_insert (dict : Dict String ℕ) (key first : String) (value : ℕ) (h : dict.keys.head? = some first) :
    (dict.insert key value).keys.head? = some first := by
  obtain ⟨entries, hd⟩ := dict
  cases entries with
  | nil => cases h
  | cons entry rest =>
      cases h
      show ((Dict.put key value (entry :: rest)).map Prod.fst).head? = some entry.1
      rw [Dict.put]
      split_ifs with he
      · rw [eq_of_beq he]
        rfl
      · rfl

theorem head_votes (results : List (String × AgentResult)) (ballot : String × String) (rest : List (String × String))
    (h : ballots repr results = ballot :: rest) : (votes repr results).keys.head? = some ballot.1 := by
  have hfold (dict : Dict String ℕ) (hd : dict.keys.head? = some ballot.1) :
      (rest.foldl (fun dict item => dict.insert item.1 ((dict.get? item.1).getD 0 + 1)) dict).keys.head? =
        some ballot.1 := by
    clear h
    induction rest generalizing dict with
    | nil => exact hd
    | cons item tail ih => exact ih _ (head_insert dict item.1 ballot.1 _ hd)
  rw [votes, h]
  exact hfold _ rfl

-- A decision with the most votes wins when an agent that made it comes first.
theorem winner_of_first (results : List (String × AgentResult)) (decision : String)
    (h : Greatest repr results decision) :
    ∃ other, other.Perm results ∧ winningDecision (votes repr other) = some decision := by
  obtain ⟨ballot, hb, hd⟩ := List.countP_pos_iff.mp h.1
  obtain ⟨entry, he, hv⟩ := List.mem_filterMap.mp hb
  obtain ⟨before, after, rfl⟩ := List.append_of_mem he
  have hperm : (entry :: (before ++ after)).Perm (before ++ entry :: after) := List.perm_middle.symm
  have hfirst : ballots repr (entry :: (before ++ after)) = ballot :: ballots repr (before ++ after) :=
    List.filterMap_cons_some hv
  have hhead := head_votes repr _ ballot _ hfirst
  rw [eq_of_beq hd] at hhead
  refine ⟨_, hperm, List.argmax_eq_some_iff.mpr ⟨List.mem_of_mem_head? hhead, ?_, ?_⟩⟩
  · intro other ho
    rw [voteCount_votes, voteCount_votes, votesFor_perm repr _ _ hperm, votesFor_perm repr _ _ hperm]
    exact h.2 other
  · intro other ho _
    obtain ⟨rest, hkeys⟩ := List.head?_eq_some_iff.mp hhead
    rw [hkeys, List.idxOf_cons_self]
    exact Nat.zero_le _

-- The decision is the same in every order exactly when no two have the most votes.
theorem vote_exact (results : List (String × AgentResult)) :
    (∀ other, other.Perm results →
        (aggregateVote repr other).decision = (aggregateVote repr results).decision ∧
          ∀ decision, votesFor repr results decision ≤ (aggregateVote repr other).voteCount) ↔
      ∀ first second, Greatest repr results first → Greatest repr results second → first = second := by
  simp only [decision_aggregateVote]
  constructor
  · intro h first second hf hs
    obtain ⟨one, hperm, hone⟩ := winner_of_first repr results first hf
    obtain ⟨two, hperm', htwo⟩ := winner_of_first repr results second hs
    have heq := (h one hperm).1.trans (h two hperm').1.symm
    rw [hone, htwo] at heq
    exact Option.some.inj heq
  · intro h other hperm
    constructor
    · have hgreatest (decision : String) (hw : winningDecision (votes repr other) = some decision) :
          Greatest repr results decision := by
        obtain ⟨hpos, hle⟩ := greatest_of_winner repr other decision hw
        rw [votesFor_perm repr _ _ hperm] at hpos
        simp only [votesFor_perm repr _ _ hperm] at hle
        exact ⟨hpos, hle⟩
      cases hw : winningDecision (votes repr other) with
      | some decision =>
          cases hr : winningDecision (votes repr results) with
          | some found => rw [h decision found (hgreatest decision hw) (greatest_of_winner repr results found hr)]
          | none =>
              have hkeys : (votes repr results).keys = [] := List.argmax_eq_none.mp hr
              have hm := (mem_keys_votes repr results decision).mpr (hgreatest decision hw).1
              rw [hkeys] at hm
              cases hm
      | none =>
          cases hr : winningDecision (votes repr results) with
          | none => rfl
          | some found =>
              have hkeys : (votes repr other).keys = [] := List.argmax_eq_none.mp hw
              have hpos := (greatest_of_winner repr results found hr).1
              rw [← votesFor_perm repr _ _ hperm, ← mem_keys_votes, hkeys] at hpos
              cases hpos
    · intro decision
      rw [← votesFor_perm repr _ _ hperm]
      exact voteCount_aggregateVote repr other decision

end Orders

section Collection

variable (agents : List String) (timeoutSeconds : Scalar)

def entryOf (result : AgentResult) : String × AgentResult := (result.agent, result)

def timedOutEntries (done : List AgentResult) : List (String × AgentResult) :=
  (agents.filter (!(done.map AgentResult.agent).contains ·)).map fun name =>
    (name, agentTimedOut timeoutSeconds name)

theorem entries_runAllAgents (done : List AgentResult) (hd : (done.map AgentResult.agent).Nodup)
    (ha : agents.Nodup) :
    (runAllAgents agents timeoutSeconds done).entries = done.map entryOf ++ timedOutEntries agents timeoutSeconds done := by
  have hnames : (done.map entryOf ++ timedOutEntries agents timeoutSeconds done).map Prod.fst =
      done.map AgentResult.agent ++ agents.filter (!(done.map AgentResult.agent).contains ·) := by
    simp [entryOf, timedOutEntries, Function.comp_def]
  have hdistinct : (done.map entryOf ++ timedOutEntries agents timeoutSeconds done).Pairwise
      fun a b => (a.1 == b.1) = false := by
    have hnodup : ((done.map entryOf ++ timedOutEntries agents timeoutSeconds done).map Prod.fst).Nodup := by
      rw [hnames]
      refine List.nodup_append.mpr ⟨hd, ha.filter _, ?_⟩
      intro name hn other ho he
      subst he
      obtain ⟨-, hc⟩ := List.mem_filter.mp ho
      rw [List.contains_iff_mem.mpr hn] at hc
      cases hc
    exact (List.pairwise_map.mp hnodup).imp fun hne => beq_false_of_ne hne
  have hdone := Dict.entries_foldl_insert (done.map entryOf) Dict.empty
    (hdistinct.sublist (List.sublist_append_left _ _))
  have hkeys : (Dict.ofList (done.map entryOf)).keys = done.map AgentResult.agent := by
    rw [Dict.keys, Dict.ofList, hdone, Dict.empty, List.nil_append, List.map_map]
    rfl
  have hall := Dict.entries_foldl_insert (done.map entryOf ++ timedOutEntries agents timeoutSeconds done) Dict.empty hdistinct
  rw [List.foldl_append] at hall
  have hrun : runAllAgents agents timeoutSeconds done =
      (timedOutEntries agents timeoutSeconds done).foldl (fun results entry => results.insert entry.1 entry.2)
        (Dict.ofList (done.map entryOf)) := by
    rw [timedOutEntries, ← hkeys]
    rfl
  rw [hrun]
  exact hall

-- Whichever way the set of finished tasks is iterated, the same results are
-- collected, in some order.
theorem runAllAgents_perm (done other : List AgentResult) (h : other.Perm done)
    (hd : (done.map AgentResult.agent).Nodup) (ha : agents.Nodup) :
    (runAllAgents agents timeoutSeconds other).entries.Perm (runAllAgents agents timeoutSeconds done).entries := by
  have hagents := h.map AgentResult.agent
  rw [entries_runAllAgents agents timeoutSeconds other (hagents.nodup_iff.mpr hd) ha,
    entries_runAllAgents agents timeoutSeconds done hd ha]
  have htimedOut : timedOutEntries agents timeoutSeconds other = timedOutEntries agents timeoutSeconds done := by
    have hsame : (fun name => !(other.map AgentResult.agent).contains name) =
        fun name => !(done.map AgentResult.agent).contains name := by
      funext name
      rw [hagents.contains_eq]
    rw [timedOutEntries, hsame]
    rfl
  rw [htimedOut]
  exact (h.map entryOf).append_right _

def votedFor (name decision : String) : AgentResult where
  agent := name
  status := .str "completed"
  output := .obj [("decision", .str decision)]

def tiedResults (done : List AgentResult) : List (String × AgentResult) :=
  (runAllAgents ["a", "b"] (.int 300) done).entries

-- Two agents, one vote each: the decision is that of the one whose task comes first.
theorem vote_tie :
    ¬∀ other, other.Perm (tiedResults [votedFor "a" "approve", votedFor "b" "reject"]) →
      (aggregateVote noRepr other).decision =
          (aggregateVote noRepr (tiedResults [votedFor "a" "approve", votedFor "b" "reject"])).decision ∧
        ∀ decision, votesFor noRepr (tiedResults [votedFor "a" "approve", votedFor "b" "reject"]) decision ≤
          (aggregateVote noRepr other).voteCount := by
  have hfirst : (aggregateVote noRepr (tiedResults [votedFor "a" "approve", votedFor "b" "reject"])).decision =
      some "approve" := by decide
  have hsecond : (aggregateVote noRepr (tiedResults [votedFor "b" "reject", votedFor "a" "approve"])).decision =
      some "reject" := by decide
  intro h
  have hsame := (h (tiedResults [votedFor "b" "reject", votedFor "a" "approve"])
    (runAllAgents_perm ["a", "b"] (.int 300) _ _ (List.Perm.swap _ _ _) (by decide) (by decide))).1
  rw [hfirst, hsecond] at hsame
  exact absurd hsame (by decide)

end Collection

end AgenticOrg.Workflows
