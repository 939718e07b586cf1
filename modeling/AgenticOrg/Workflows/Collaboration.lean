import Mathlib.Data.List.MinMax
import AgenticOrg.Workflows.Parallel

namespace AgenticOrg.Workflows

open OrderedDict

section Agents

-- What `_run_agent` returns, and what a task ends with.
structure AgentResult where
  agent : String
  status : Json
  output : Json
  error : Option Json := none

def agentTimedOut (timeoutSeconds : Scalar) (name : String) : AgentResult where
  agent := name
  status := .str "timed_out"
  output := .obj []
  error := some (.str ("Agent " ++ name ++ " timed out after " ++ timeoutSeconds.display ++ "s"))

-- `agents` are the keys of the tasks, and `done` the results of those that ended
-- before the timeout, in the order in which the set of them is iterated.
def runAllAgents (agents : List String) (timeoutSeconds : Scalar) (done : List AgentResult) :
    Dict String AgentResult :=
  let results := Dict.ofList (done.map fun result => (result.agent, result))
  let completedNames := results.keys
  ((agents.filter (!completedNames.contains ·)).map fun name => (name, agentTimedOut timeoutSeconds name)).foldl
    (fun results entry => results.insert entry.1 entry.2) results

end Agents

section Voting

variable (repr : Json → String)

-- The vote of an agent: `str(output["decision"])`.
def decisionOf (result : AgentResult) : Option String :=
  if result.output.isDict then
    match result.output.get "decision" with
    | .scalar .null => none
    | decision => some (strOf repr decision)
  else none

def ballots (results : List (String × AgentResult)) : List (String × String) :=
  results.filterMap fun entry => (decisionOf repr entry.2).map fun decision => (decision, entry.1)

def votes (results : List (String × AgentResult)) : Dict String ℕ :=
  Dict.gather Prod.fst (fun found _ => found.getD 0 + 1) (ballots repr results)

def voters (results : List (String × AgentResult)) : Dict String (List String) :=
  Dict.gather Prod.fst (fun found ballot => found.getD [] ++ [ballot.2]) (ballots repr results)

structure VoteResult where
  status : StepStatus
  decision : Option String
  reason : Option String := none
  voteCount : ℕ := 0
  totalVotes : ℕ := 0
  voters : List String := []
  votes : Dict String ℕ
  agentsRun : ℕ

def voteCount (votes : Dict String ℕ) (decision : String) : ℕ := (votes.get? decision).getD 0

-- `max(votes, key=...)`: of several, the decision that was voted for first.
def winningDecision (votes : Dict String ℕ) : Option String := votes.keys.argmax (voteCount votes)

def aggregateVote (results : List (String × AgentResult)) : VoteResult :=
  let votes := votes repr results
  match winningDecision votes with
  | none =>
      { status := if results.isEmpty then .completed else .failed
        decision := none
        reason := some "No agents provided a decision"
        votes := votes
        agentsRun := results.length }
  | some winner =>
      { status := .completed
        decision := some winner
        voteCount := voteCount votes winner
        totalVotes := (votes.entries.map Prod.snd).sum
        voters := ((voters repr results).get? winner).getD []
        votes := votes
        agentsRun := results.length }

-- How many agents decided so.
def votesFor (results : List (String × AgentResult)) (decision : String) : ℕ :=
  (ballots repr results).countP (·.1 == decision)

def Greatest (results : List (String × AgentResult)) (decision : String) : Prop :=
  0 < votesFor repr results decision ∧ ∀ other, votesFor repr results other ≤ votesFor repr results decision

end Voting

end AgenticOrg.Workflows
