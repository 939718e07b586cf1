import AgenticOrg.Workflows.Runs.Alone
import AgenticOrg.Workflows.Walk.Theorems

namespace AgenticOrg.Workflows

open OrderedDict VersionedStore

section Fragments

variable (repository : Repository) (runId : String) (answer : (query : Query) → query.Answer)
  (row : Row Engine) (older : List (Row Engine)) (store : Store Engine)
  (hh : store.history = row :: older)

end Fragments

section Lift

variable (repository : Repository) (runId : String) (handler : Step → RunState → Except String Json)
  (answer : (query : Query) → query.Answer)

def Top (store : Store Engine) (s : RunState) : Prop :=
  ∃ row older, store.history = row :: older ∧ row.state = s

variable (definition : Definition) (time : Int)

section Drive

variable (row : Row Engine) (older : List (Row Engine)) (store : Store Engine)
  (hh : store.history = row :: older) (s : RunState) (hs : row.state = s)
  (next : List Scalar → Copy Engine → Prog Engine)

include hh hs

end Drive

end Lift

section Agreement

theorem Top.unique (store : Store Engine) (s s' : RunState) (h : Top store s) (h' : Top store s') : s = s' := by
  obtain ⟨row, older, hh, rfl⟩ := h
  obtain ⟨row', older', hh', rfl⟩ := h'
  rw [hh] at hh'
  cases hh'
  rfl

section Start

variable (runId : String) (handler : Step → RunState → Except String Json) (info : RunInfo)
  (definition : Definition) (now : Int) (hreplan : definition.replanOnFailure = false)
  (hhours : definition.timeoutHours = none)

include hreplan hhours

end Start

end Agreement

end AgenticOrg.Workflows
