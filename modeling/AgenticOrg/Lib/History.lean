import Mathlib.Data.List.Basic

namespace History

variable {α : Type} (event : List α → α → Prop)

-- A step did something, after those before it.
def Happened (steps : List α) : Prop := ∃ earlier step later, steps = earlier ++ step :: later ∧ event earlier step

theorem not_happened_nil : ¬Happened event [] := by
  rintro ⟨earlier, step, later, h, _⟩
  cases earlier <;> cases h

theorem happened_concat (steps : List α) (last : α) :
    Happened event (steps ++ [last]) ↔ Happened event steps ∨ event steps last := by
  constructor
  · rintro ⟨earlier, step, later, h, hevent⟩
    rcases List.eq_nil_or_concat later with rfl | ⟨front, final, rfl⟩
    · obtain ⟨rfl, hlast⟩ := List.append_inj' h rfl
      cases hlast
      exact .inr hevent
    · refine .inl ⟨earlier, step, front, ?_, hevent⟩
      rw [List.concat_eq_append, ← List.cons_append, ← List.append_assoc] at h
      exact (List.append_inj' h rfl).1
  · rintro (⟨earlier, step, later, rfl, hevent⟩ | hevent)
    · exact ⟨earlier, step, later ++ [last], by simp, hevent⟩
    · exact ⟨steps, last, [], rfl, hevent⟩

-- Every step is in order, after those before it.
def Always (steps : List α) : Prop := ∀ earlier step later, steps = earlier ++ step :: later → event earlier step

theorem always_iff (steps : List α) : Always event steps ↔ ¬Happened (fun earlier step => ¬event earlier step) steps := by
  constructor
  · rintro h ⟨earlier, step, later, hsplit, hevent⟩
    exact hevent (h earlier step later hsplit)
  · intro h earlier step later hsplit
    by_contra hevent
    exact h ⟨earlier, step, later, hsplit, hevent⟩

theorem always_nil : Always event [] := (always_iff event []).mpr (not_happened_nil _)

theorem always_concat (steps : List α) (last : α) :
    Always event (steps ++ [last]) ↔ Always event steps ∧ event steps last := by
  rw [always_iff, always_iff, happened_concat, not_or, not_not]

end History
