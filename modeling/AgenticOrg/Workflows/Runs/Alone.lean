import AgenticOrg.Workflows.Runs

namespace AgenticOrg.Workflows

open OrderedDict VersionedStore

-- One operation at a time: what its accesses come to when the row is there.
section Alone

variable (repository : Repository) (runId : String) (answer : (query : Query) → query.Answer)

abbrev runAlone (prog : Prog Engine) (store : Store Engine) : Store Engine × Stop Engine :=
  prog.run (repository.backend Op Result) answer store

theorem runAlone_loadState (scope : Repository) (failed : Prog Engine)
    (next : Option (Copy Engine) → Prog Engine) (store : Store Engine) (row : Row Engine)
    (rest : List (Row Engine)) (hh : store.history = row :: rest) :
    runAlone repository answer (loadState scope runId failed next) store =
      runAlone repository answer (next (some ⟨some row.version, row.state⟩)) store := by
  simp only [runAlone, loadState, Prog.run, Store.read, hh, List.head?_cons, Option.map_some]

-- A save whose key is in the transitions already is dropped, and the rest goes on.
theorem commit_duplicate (history : List (Row Engine)) (copy : Copy Engine) (note : Note)
    (key : String) (hkey : note.key = some key) (hd : ∃ row ∈ history, row.note.key = some key) :
    (repository.backend Op Result).commit history copy note = (.duplicate, history) := by
  obtain ⟨row, hm, hr⟩ := hd
  have hany : (history.any fun row => row.note.key == note.key) = true := by
    rw [List.any_eq_true]
    exact ⟨row, hm, by rw [hr, hkey]; exact beq_self_eq_true _⟩
  have hcond : (((repository.backend Op Result).key note).isSome &&
      history.any fun row => (repository.backend Op Result).key row.note ==
        (repository.backend Op Result).key note) = true := by
    show (note.key.isSome && history.any fun row => row.note.key == note.key) = true
    rw [hany, hkey]
    rfl
  unfold Backend.commit
  exact if_pos hcond

theorem commit_accepted (row : Row Engine) (rest : List (Row Engine)) (s : RunState) (note : Note)
    (hkey : ∀ key, note.key = some key → ∀ found ∈ row :: rest, found.note.key ≠ some key)
    (hs : repository.storable s note = true) :
    (repository.backend Op Result).commit (row :: rest) ⟨some row.version, s⟩ note =
      (.accepted (row.version + 1), ⟨row.version + 1, jsonSafe s, note⟩ :: row :: rest) := by
  have hcond : (((repository.backend Op Result).key note).isSome &&
      (row :: rest).any fun row => (repository.backend Op Result).key row.note ==
        (repository.backend Op Result).key note) = false := by
    show (note.key.isSome && (row :: rest).any fun row => row.note.key == note.key) = false
    cases hk : note.key with
    | none => rfl
    | some key =>
        rw [Option.isSome_some, Bool.true_and, List.any_eq_false]
        intro found hf
        simpa using hkey key hk found hf
  have hstore : (repository.backend Op Result).storable s note = true := hs
  unfold Backend.commit
  refine (if_neg (by rw [hcond]; simp)).trans ?_
  simp only [if_true, Backend.accept, hstore]
  rfl

theorem runAlone_saveState (row : Row Engine) (rest : List (Row Engine)) (s : RunState) (note : Note)
    (next : Copy Engine → Prog Engine) (stale failed : Prog Engine) (store : Store Engine)
    (hh : store.history = row :: rest)
    (hkey : ∀ key, note.key = some key → ∀ found ∈ row :: rest, found.note.key ≠ some key)
    (hs : repository.storable s note = true) :
    runAlone repository answer (saveState ⟨some row.version, s⟩ note next stale failed) store =
      runAlone repository answer (next ⟨some (row.version + 1), s⟩)
        ⟨⟨row.version + 1, jsonSafe s, note⟩ :: row :: rest, some (jsonSafe s)⟩ := by
  have hc := commit_accepted repository row rest s note hkey hs
  rw [← hh] at hc
  simp only [runAlone, saveState, Prog.run, hc]
  rw [hh]
  rfl

end Alone

end AgenticOrg.Workflows
