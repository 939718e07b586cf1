import Mathlib.Data.List.Nodup
import Mathlib.Logic.Relation

namespace Fresh

variable {σ ι : Type} (live : σ → List ι) (next : σ → ℕ) (label : ℕ → ι)

-- The label of a number from `low` on and below `high`.
def Numbered (low high : ℕ) (id : ι) : Prop := ∃ k, id = label k ∧ low ≤ k ∧ k < high

-- Distinct ids, all labels of numbers given out.
structure Issued (low : ℕ) (state : σ) : Prop where
  distinct : (live state).Nodup
  numbered : ∀ id ∈ live state, Numbered label low (next state) id

-- A step keeps ids or gives out the labels of new numbers.
structure Renews (before after : σ) : Prop where
  grows : next before ≤ next after
  kept : ∀ id ∈ live after, id ∈ live before ∨ Numbered label (next before) (next after) id

theorem Numbered.mono (low high low' high' : ℕ) (id : ι) (h : Numbered label low high id) (hlow : low' ≤ low)
    (hhigh : high ≤ high') : Numbered label low' high' id := by
  obtain ⟨k, hid, hl, hh⟩ := h
  exact ⟨k, hid, by omega, by omega⟩

theorem Renews.refl (state : σ) : Renews live next label state state :=
  ⟨Nat.le_refl _, fun _ h => .inl h⟩

theorem Renews.trans (first second third : σ) (h : Renews live next label first second)
    (h' : Renews live next label second third) : Renews live next label first third := by
  refine ⟨Nat.le_trans h.grows h'.grows, fun id hid => ?_⟩
  rcases h'.kept id hid with hkept | hnew
  · rcases h.kept id hkept with hkept | hnew
    · exact .inl hkept
    · exact .inr (hnew.mono label _ _ _ _ id (Nat.le_refl _) h'.grows)
  · exact .inr (hnew.mono label _ _ _ _ id h.grows (Nat.le_refl _))

-- What is kept along a whole run, from what each step keeps.
theorem foldl_renews {α : Type} (step : σ → α → σ) (Inv : σ → Prop)
    (hstep : ∀ state action, Inv state → Inv (step state action) ∧ Renews live next label state (step state action))
    (actions : List α) (state : σ) (h : Inv state) :
    Inv (actions.foldl step state) ∧ Renews live next label state (actions.foldl step state) := by
  induction actions generalizing state with
  | nil => exact ⟨h, Renews.refl live next label state⟩
  | cons action rest ih =>
      obtain ⟨hinv, hone⟩ := hstep state action h
      obtain ⟨hend, hrest⟩ := ih (step state action) hinv
      exact ⟨hend, Renews.trans live next label _ _ _ hone hrest⟩

-- An id that is gone stays gone: its number has been given out, and only new numbers come.
theorem gone_forever (hlabel : Function.Injective label) (low : ℕ) (first second third : σ)
    (hissued : Issued live next label low first) (h : Renews live next label first second)
    (h' : Renews live next label second third) (id : ι) (hlive : id ∈ live first) (hgone : id ∉ live second) :
    id ∉ live third := by
  intro hback
  obtain ⟨k, hk, _, hlt⟩ := hissued.numbered id hlive
  rcases h'.kept id hback with hkept | ⟨j, hj, hle, _⟩
  · exact hgone hkept
  · have heq : k = j := hlabel (hk.symm.trans hj)
    have hgrows := h.grows
    omega

end Fresh
