import AgenticOrg.Workflows.Conditions.Formulas
import AgenticOrg.Workflows.Conditions.Splits

namespace AgenticOrg.Workflows

open Directive Kleene

namespace Conditions

section Cutting

def Flat.prepend (literal : Literal) (word : Word) (piece : Flat) : Flat :=
  ⟨literal, (word, piece.first) :: piece.rest⟩

-- The flat pieces between the words that pass the test.
def cutWhere (test : Word → Bool) (literal : Literal) : List (Word × Literal) → List Flat
  | [] => [⟨literal, []⟩]
  | entry :: rest =>
      if test entry.1 then ⟨literal, []⟩ :: cutWhere test entry.2 rest
      else (cutWhere test entry.2 rest).modifyHead (Flat.prepend literal entry.1)

def Flat.cut (test : Word → Bool) (flat : Flat) : List Flat := cutWhere test flat.first flat.rest

def Flat.literals (flat : Flat) : List Literal := flat.first :: flat.rest.map Prod.snd

variable (test other : Word → Bool)

theorem cutWhere_cons (literal : Literal) (rest : List (Word × Literal)) :
    ∃ more pieces, cutWhere test literal rest = ⟨literal, more⟩ :: pieces := by
  induction rest generalizing literal with
  | nil => exact ⟨[], [], rfl⟩
  | cons entry rest ih =>
      obtain ⟨more, pieces, h⟩ := ih entry.2
      rw [cutWhere, h]
      by_cases ht : test entry.1 = true
      · rw [if_pos ht]
        exact ⟨[], _, rfl⟩
      · rw [if_neg ht]
        exact ⟨(entry.1, entry.2) :: more, pieces, rfl⟩

theorem cut_prepend (literal : Literal) (word : Word) (piece : Flat) :
    (piece.prepend literal word).cut test =
      if test word then ⟨literal, []⟩ :: piece.cut test else (piece.cut test).modifyHead (Flat.prepend literal word) := rfl

-- Cutting at some words and then at others is cutting at all of them.
theorem flatMap_cut (flat : Flat) :
    (flat.cut test).flatMap (Flat.cut other) = flat.cut fun word => test word || other word := by
  obtain ⟨literal, rest⟩ := flat
  show (cutWhere test literal rest).flatMap (Flat.cut other) = cutWhere _ literal rest
  induction rest generalizing literal with
  | nil => rfl
  | cons entry rest ih =>
      have hrest := ih entry.2
      rw [cutWhere, cutWhere, ← hrest]
      by_cases ht : test entry.1 = true
      · rw [if_pos ht, if_pos (by rw [ht]; rfl), List.flatMap_cons]
        rfl
      · obtain ⟨more, pieces, h⟩ := cutWhere_cons test entry.2 rest
        obtain ⟨inner, cuts, hcut⟩ := cutWhere_cons other entry.2 more
        have hhead : Flat.cut other ⟨entry.2, more⟩ = ⟨entry.2, inner⟩ :: cuts := hcut
        rw [if_neg ht, h, List.modifyHead_cons, List.flatMap_cons, List.flatMap_cons, cut_prepend, hhead]
        by_cases ho : other entry.1 = true
        · rw [if_pos ho, if_pos (by rw [ho, Bool.or_true])]
          rfl
        · rw [if_neg ho, if_neg (by simp [ht, ho])]
          rfl

theorem cut_eq_self (flat : Flat) (h : ∀ entry ∈ flat.rest, test entry.1 = false) : flat.cut test = [flat] := by
  obtain ⟨literal, rest⟩ := flat
  show cutWhere test literal rest = _
  induction rest generalizing literal with
  | nil => rfl
  | cons entry rest ih =>
      obtain ⟨hentry, hrest⟩ := List.forall_mem_cons.mp h
      rw [cutWhere, hentry, if_neg (by simp), ih entry.2 hrest]
      rfl

theorem length_cut (flat : Flat) (entry : Word × Literal) (he : entry ∈ flat.rest) (ht : test entry.1 = true) :
    2 ≤ (flat.cut test).length := by
  obtain ⟨literal, rest⟩ := flat
  show 2 ≤ (cutWhere test literal rest).length
  induction rest generalizing literal with
  | nil => cases he
  | cons first rest ih =>
      rw [cutWhere]
      by_cases hf : test first.1 = true
      · obtain ⟨more, pieces, h⟩ := cutWhere_cons test first.2 rest
        rw [if_pos hf, h]
        simp
      · rw [if_neg hf, List.length_modifyHead]
        obtain rfl | hm := List.mem_cons.mp he
        · exact absurd ht hf
        · exact ih first.2 hm

-- What a piece is made of.
theorem mem_cut (flat piece : Flat) (h : piece ∈ flat.cut test) :
    (∀ entry ∈ piece.rest, entry ∈ flat.rest ∧ test entry.1 = false) ∧
      ∀ literal ∈ piece.literals, literal ∈ flat.literals := by
  obtain ⟨literal, rest⟩ := flat
  change piece ∈ cutWhere test literal rest at h
  induction rest generalizing literal piece with
  | nil =>
      obtain rfl := List.mem_singleton.mp h
      exact ⟨fun _ he => absurd he List.not_mem_nil, fun _ hl => hl⟩
  | cons entry rest ih =>
      have hbelow (found : Flat) (hf : found ∈ cutWhere test entry.2 rest) :
          (∀ e ∈ found.rest, e ∈ entry :: rest ∧ test e.1 = false) ∧
            ∀ l ∈ found.literals, l ∈ (Flat.mk literal (entry :: rest)).literals := by
        obtain ⟨hentries, hliterals⟩ := ih found entry.2 hf
        exact ⟨fun e he => ⟨List.mem_cons_of_mem _ (hentries e he).1, (hentries e he).2⟩,
          fun l hl => List.mem_cons_of_mem _ (hliterals l hl)⟩
      rw [cutWhere] at h
      by_cases ht : test entry.1 = true
      · rw [if_pos ht] at h
        obtain rfl | hm := List.mem_cons.mp h
        · refine ⟨fun _ he => absurd he List.not_mem_nil, fun l hl => ?_⟩
          rw [List.mem_singleton.mp hl]
          exact List.mem_cons_self
        · exact hbelow piece hm
      · obtain ⟨more, pieces, hcut⟩ := cutWhere_cons test entry.2 rest
        rw [if_neg ht, hcut, List.modifyHead_cons] at h
        obtain rfl | hm := List.mem_cons.mp h
        · obtain ⟨hentries, hliterals⟩ := hbelow ⟨entry.2, more⟩ (by rw [hcut]; exact List.mem_cons_self)
          constructor
          · intro e he
            obtain rfl | he := List.mem_cons.mp he
            · exact ⟨List.mem_cons_self, Bool.not_eq_true _ ▸ ht⟩
            · exact hentries e he
          · intro l hl
            obtain rfl | hl := List.mem_cons.mp hl
            · exact List.mem_cons_self
            · exact hliterals l hl
        · exact hbelow piece (by rw [hcut]; exact List.mem_cons_of_mem _ hm)

end Cutting

section Clearness

theorem clearBetween_none_prev (literal : Literal) (prev next : Option Word) (h : literal.ClearBetween prev next) :
    literal.ClearBetween none next := by
  intro word before after hf
  rcases h word before after hf with ⟨hb, -⟩ | hright
  · exact .inl ⟨hb, fun p hp => by cases hp⟩
  · exact .inr hright

theorem clearBetween_none_next (literal : Literal) (prev next : Option Word) (h : literal.ClearBetween prev next) :
    literal.ClearBetween prev none := by
  intro word before after hf
  rcases h word before after hf with hleft | ⟨ha, -⟩
  · exact .inl hleft
  · exact .inr ⟨ha, fun n hn => by cases hn⟩

theorem clearFrom_none (prev : Option Word) (literal : Literal) (rest : List (Word × Literal))
    (h : clearFrom prev literal rest) : clearFrom none literal rest := by
  cases rest with
  | nil => exact clearBetween_none_prev literal prev none h
  | cons entry rest => exact ⟨clearBetween_none_prev literal prev (some entry.1) h.1, h.2⟩

theorem clear_cut (test : Word → Bool) (prev : Option Word) (literal : Literal) (rest : List (Word × Literal))
    (h : clearFrom prev literal rest) :
    ∃ more pieces, cutWhere test literal rest = ⟨literal, more⟩ :: pieces ∧ clearFrom prev literal more ∧
      ∀ piece ∈ pieces, clearFrom none piece.first piece.rest := by
  induction rest generalizing literal prev with
  | nil => exact ⟨[], [], rfl, h, fun _ hp => absurd hp List.not_mem_nil⟩
  | cons entry rest ih =>
      obtain ⟨more, pieces, hcut, hclear, hpieces⟩ := ih (some entry.1) entry.2 h.2
      rw [cutWhere, hcut]
      by_cases ht : test entry.1 = true
      · rw [if_pos ht]
        refine ⟨[], _, rfl, clearBetween_none_next literal prev _ h.1, ?_⟩
        rw [List.forall_mem_cons]
        exact ⟨clearFrom_none (some entry.1) entry.2 more hclear, hpieces⟩
      · rw [if_neg ht]
        exact ⟨(entry.1, entry.2) :: more, pieces, rfl, ⟨h.1, hclear⟩, hpieces⟩

theorem clear_pieces (test : Word → Bool) (flat : Flat) (h : clearFrom none flat.first flat.rest) :
    ∀ piece ∈ flat.cut test, clearFrom none piece.first piece.rest := by
  obtain ⟨more, pieces, hcut, hclear, hpieces⟩ := clear_cut test none flat.first flat.rest h
  rw [Flat.cut, hcut, List.forall_mem_cons]
  exact ⟨hclear, hpieces⟩

end Clearness

section Layout

theorem joined_append (first second : List Text) (hf : first ≠ []) (hs : second ≠ []) :
    joined (first ++ second) = joined first ++ ' ' :: joined second := by
  induction first with
  | nil => exact absurd rfl hf
  | cons field rest ih =>
      cases rest with
      | nil =>
          cases second with
          | nil => exact absurd rfl hs
          | cons next more => rfl
      | cons next more =>
          have hrest := ih (by simp)
          show field ++ ' ' :: joined ((next :: more) ++ second) = _
          rw [hrest]
          show _ = field ++ ' ' :: joined (next :: more) ++ ' ' :: joined second
          simp

theorem joined_splitOn (text : Text) : joined (text.splitOn ' ') = text := by
  have hjoined (fields : List Text) : joined fields = [' '].intercalate fields := by
    induction fields with
    | nil => rfl
    | cons field rest ih =>
        cases rest with
        | nil => simp [joined, List.intercalate]
        | cons next more =>
            rw [joined, ih]
            simp [List.intercalate]
  rw [hjoined, List.intercalate_splitOn]

def Flat.fields (flat : Flat) : List Text :=
  flat.first.fields ++ flat.rest.flatMap fun entry => entry.1.text :: entry.2.fields

def Flat.print (flat : Flat) : Text :=
  flat.first.print ++ flat.rest.flatMap fun entry => spaced entry.1.text ++ entry.2.print

theorem fields_ne_nil (literal : Literal) : literal.fields ≠ [] := by
  rw [Literal.fields]
  cases literal.negation with
  | none => exact List.splitOn_ne_nil ' ' _
  | some capitals => simp

theorem joined_literal (literal : Literal) : joined literal.fields = literal.print := by
  rw [Literal.fields, Literal.print]
  cases literal.negation with
  | none => exact joined_splitOn _
  | some capitals =>
      have h := joined_append [notText capitals] (literal.atom.text.splitOn ' ') (by simp) (List.splitOn_ne_nil ' ' _)
      rw [joined_splitOn] at h
      exact h

theorem joined_flat (flat : Flat) : joined flat.fields = flat.print := by
  obtain ⟨literal, rest⟩ := flat
  induction rest generalizing literal with
  | nil =>
      rw [Flat.fields, Flat.print]
      simp [joined_literal]
  | cons entry rest ih =>
      have hrest := ih entry.2
      have hne : Flat.fields ⟨entry.2, rest⟩ ≠ [] := by simp [Flat.fields, fields_ne_nil]
      have hfields : Flat.fields ⟨literal, entry :: rest⟩ =
          literal.fields ++ ([entry.1.text] ++ Flat.fields ⟨entry.2, rest⟩) := by simp [Flat.fields]
      have hprint : Flat.print ⟨literal, entry :: rest⟩ =
          literal.print ++ (spaced entry.1.text ++ Flat.print ⟨entry.2, rest⟩) := by simp [Flat.print]
      rw [hfields, hprint, joined_append _ _ (fields_ne_nil literal) (by simp),
        joined_append [entry.1.text] _ (by simp) hne, hrest, joined_literal]
      simp [joined, spaced]

end Layout

end Conditions

end AgenticOrg.Workflows
