import AgenticOrg.Lib.Fallible
import AgenticOrg.Workflows.Conditions.Cuts

namespace AgenticOrg.Workflows

open Directive Kleene Fallible

namespace Conditions

section Fields

theorem isField_splitOn (text : Text) : ∀ field ∈ text.splitOn ' ', IsField field := by
  induction text with
  | nil => simp [IsField]
  | cons c rest ih =>
      rw [List.splitOn_cons_eq_if_modifyHead]
      by_cases hc : (c == ' ') = true
      · rw [if_pos hc, List.forall_mem_cons]
        exact ⟨List.not_mem_nil, ih⟩
      · rw [if_neg hc]
        cases hs : rest.splitOn ' ' with
        | nil => simp
        | cons field more =>
            rw [hs, List.forall_mem_cons] at ih
            rw [List.modifyHead_cons, List.forall_mem_cons]
            refine ⟨fun hm => ?_, ih.2⟩
            obtain he | hm := List.mem_cons.mp hm
            · exact hc (by rw [← he]; rfl)
            · exact ih.1 hm

theorem isField_word (word : Word) : IsField word.text := by
  show ' ' ∉ word.text
  cases word <;> decide

theorem isField_literal (literal : Literal) : ∀ field ∈ literal.fields, IsField field := by
  rw [Literal.fields]
  cases literal.negation with
  | none => exact isField_splitOn _
  | some capitals =>
      rw [List.forall_mem_cons]
      refine ⟨?_, isField_splitOn _⟩
      show ' ' ∉ notText capitals
      cases capitals <;> decide

theorem isField_flat (flat : Flat) : ∀ field ∈ flat.fields, IsField field := by
  rw [Flat.fields, List.forall_mem_append]
  refine ⟨isField_literal flat.first, ?_⟩
  intro field hf
  obtain ⟨entry, -, hf⟩ := List.mem_flatMap.mp hf
  obtain rfl | hf := List.mem_cons.mp hf
  · exact isField_word entry.1
  · exact isField_literal entry.2 field hf

theorem text_injective (word other : Word) (h : word.text = other.text) : word = other := by
  cases word <;> cases other <;> first | rfl | exact absurd h (by decide)

end Fields

section Edges

variable (literal : Literal) (prev next : Option Word) (word : Word)

-- With no word of a lower rank behind the literal, a word in it is its first field
-- or its last.
theorem edge_cases (h : literal.ClearBetween prev next) (hn : ∀ n, next = some n → word.rank ≤ n.rank)
    (before after : List Text) (hf : literal.fields = before ++ word.text :: after) :
    (before = [] ∧ ∀ p, prev = some p → p.rank ≤ word.rank) ∨ (after = [] ∧ next = none) := by
  rcases h word before after hf with hleft | ⟨ha, hright⟩
  · exact .inl hleft
  · cases next with
    | none => exact .inr ⟨ha, rfl⟩
    | some n =>
        have hle := hn n rfl
        have hlt := hright n rfl
        omega

theorem not_mem_tail (n : Word) (h : literal.ClearBetween prev (some n)) (hn : word.rank ≤ n.rank)
    (first : Text) (more : List Text) (hf : literal.fields = first :: more) : word.text ∉ more := by
  intro hm
  obtain ⟨before, after, rfl⟩ := List.append_of_mem hm
  rcases edge_cases literal prev (some n) word h (fun _ he => by cases he; exact hn) (first :: before) after hf with
    ⟨hb, -⟩ | ⟨-, hnone⟩
  · cases hb
  · cases hnone

theorem not_mem_tail_end (h : literal.ClearBetween prev none) (first : Text) (more : List Text)
    (hf : literal.fields = first :: more) : word.text ∉ more.dropLast := by
  intro hm
  obtain ⟨before, after, ha⟩ := List.append_of_mem hm
  have hne : more ≠ [] := by
    rintro rfl
    cases hm
  have hmore : more = before ++ word.text :: (after ++ [more.getLast hne]) := by
    rw [← List.cons_append, ← List.append_assoc, ← ha, List.dropLast_append_getLast]
  rcases edge_cases literal prev none word h (fun _ he => by cases he) (first :: before)
    (after ++ [more.getLast hne]) (by rw [hf, List.cons_append, ← hmore]) with ⟨hb, -⟩ | ⟨hnil, -⟩
  · cases hb
  · simp at hnil

theorem not_mem_fields (p n : Word) (h : literal.ClearBetween (some p) (some n)) (hp : word.rank < p.rank)
    (hn : word.rank ≤ n.rank) : word.text ∉ literal.fields := by
  intro hm
  obtain ⟨before, after, hf⟩ := List.append_of_mem hm
  rcases edge_cases literal (some p) (some n) word h (fun _ he => by cases he; exact hn) before after hf with
    ⟨-, hle⟩ | ⟨-, hnone⟩
  · have := hle p rfl
    omega
  · cases hnone

theorem not_mem_fields_end (p : Word) (h : literal.ClearBetween (some p) none) (hp : word.rank < p.rank) :
    word.text ∉ literal.fields.dropLast := by
  intro hm
  obtain ⟨before, after, ha⟩ := List.append_of_mem hm
  have hne := fields_ne_nil literal
  have hfields : literal.fields = before ++ word.text :: (after ++ [literal.fields.getLast hne]) := by
    rw [← List.cons_append, ← List.append_assoc, ← ha, List.dropLast_append_getLast]
  rcases edge_cases literal (some p) none word h (fun _ he => by cases he) before _ hfields with ⟨-, hle⟩ | ⟨hnil, -⟩
  · have := hle p rfl
    omega
  · simp at hnil

end Edges

section CutFields

theorem cutFields_end (word first : Text) (fields : List Text) (h : word ∉ fields.dropLast) :
    cutFields word first fields = [first :: fields] := by
  induction fields generalizing first with
  | nil => rfl
  | cons field rest ih =>
      cases rest with
      | nil => rfl
      | cons next more =>
          rw [List.dropLast_cons_cons, List.mem_cons, not_or] at h
          rw [cutFields, if_neg (Ne.symm h.1), ih field h.2]
          rfl

theorem cutFields_next (word first other next : Text) (fields rest : List Text) (h : word ∉ fields) :
    cutFields word first (fields ++ other :: next :: rest) =
      if other = word then (first :: fields) :: cutFields word next rest
      else (cutFields word other (next :: rest)).modifyHead ((first :: fields) ++ ·) := by
  induction fields generalizing first with
  | nil =>
      rw [List.nil_append, cutFields]
      rfl
  | cons field more ih =>
      rw [List.mem_cons, not_or] at h
      have hstep : cutFields word first (field :: (more ++ other :: next :: rest)) =
          (cutFields word field (more ++ other :: next :: rest)).modifyHead (first :: ·) := by
        cases more with
        | nil => rw [List.nil_append, cutFields, if_neg (Ne.symm h.1)]
        | cons m more => rw [List.cons_append, cutFields, if_neg (Ne.symm h.1)]
      rw [List.cons_append, hstep, ih field h.2]
      by_cases ho : other = word
      · rw [if_pos ho, if_pos ho]
        rfl
      · rw [if_neg ho, if_neg ho]
        cases cutFields word other (next :: rest) <;> rfl

theorem length_cutFields (word first : Text) (rest : List Text) :
    (cutFields word first rest).length = 1 ↔ word ∉ rest.dropLast := by
  constructor
  · intro h
    fun_induction cutFields word first rest with
    | case1 first => simp
    | case2 first last => simp
    | case3 first next rest ih =>
        obtain ⟨more, parts, hc⟩ := cutFields_cons word next rest
        rw [hc] at h
        simp at h
    | case4 first field next rest hne ih =>
        rw [List.length_modifyHead] at h
        rw [List.dropLast_cons_cons, List.mem_cons, not_or]
        exact ⟨Ne.symm hne, ih h⟩
  · intro h
    rw [cutFields_end word first rest h]
    rfl

def restFields (rest : List (Word × Literal)) : List Text := rest.flatMap fun entry => entry.1.text :: entry.2.fields

theorem fields_prepend (literal : Literal) (word : Word) (piece : Flat) :
    (piece.prepend literal word).fields = literal.fields ++ word.text :: piece.fields := by
  simp [Flat.prepend, Flat.fields]

-- The fields of a formula are cut where its words are.
theorem cutFields_flat (word : Word) (prev : Option Word) (literal : Literal) (rest : List (Word × Literal))
    (hclear : clearFrom prev literal rest) (hranks : ∀ entry ∈ rest, word.rank ≤ entry.1.rank) :
    (∀ first more, literal.fields = first :: more →
        cutFields word.text first (more ++ restFields rest) =
          (cutWhere (· == word) literal rest).map Flat.fields) ∧
      ∀ p, prev = some p → word.rank < p.rank →
        cutFields word.text p.text (literal.fields ++ restFields rest) =
          ((cutWhere (· == word) literal rest).map Flat.fields).modifyHead (p.text :: ·) := by
  induction rest generalizing literal prev with
  | nil =>
      constructor
      · intro first more hf
        have hend := cutFields_end word.text first more
          (not_mem_tail_end literal prev word hclear first more hf)
        rw [restFields, List.flatMap_nil, List.append_nil, hend]
        simp [cutWhere, Flat.fields, hf]
      · rintro p rfl hp
        have hend := cutFields_end word.text p.text literal.fields
          (not_mem_fields_end literal word p hclear hp)
        rw [restFields, List.flatMap_nil, List.append_nil, hend]
        simp [cutWhere, Flat.fields]
  | cons entry rest ih =>
      obtain ⟨hliteral, hclear⟩ := hclear
      obtain ⟨hrank, hrest⟩ := List.forall_mem_cons.mp hranks
      obtain ⟨hstart, hinside⟩ := ih (some entry.1) entry.2 hclear hrest
      obtain ⟨next, fields, hnext⟩ := List.exists_cons_of_ne_nil (fields_ne_nil entry.2)
      have hlayout : restFields (entry :: rest) = entry.1.text :: next :: (fields ++ restFields rest) := by
        simp [restFields, hnext]
      have hsame : (entry.1 == word) = true ↔ entry.1.text = word.text := by
        rw [beq_iff_eq]
        exact ⟨fun h => by rw [h], text_injective _ _⟩
      -- the pieces, once the fields of this literal are read
      have hpieces (first : Text) (more : List Text) (hword : word.text ∉ more) :
          cutFields word.text first (more ++ restFields (entry :: rest)) =
            if entry.1 == word then (first :: more) :: (cutWhere (· == word) entry.2 rest).map Flat.fields
            else ((cutWhere (· == word) entry.2 rest).map Flat.fields).modifyHead
              fun piece => (first :: more) ++ entry.1.text :: piece := by
        rw [hlayout, cutFields_next word.text first entry.1.text next more _ hword]
        by_cases he : (entry.1 == word) = true
        · rw [if_pos (hsame.mp he), if_pos he, hstart next fields hnext]
        · have hlt : word.rank < entry.1.rank := by
            refine Nat.lt_of_le_of_ne hrank fun heq => he ?_
            rw [beq_iff_eq]
            revert heq
            cases word <;> cases entry.1 <;> simp [Word.rank]
          have hcut := hinside entry.1 rfl hlt
          rw [hnext, List.cons_append] at hcut
          rw [if_neg fun h => he (hsame.mpr h), if_neg he, hcut]
          cases (cutWhere (· == word) entry.2 rest).map Flat.fields <;> rfl
      have hcuts : (cutWhere (· == word) literal (entry :: rest)).map Flat.fields =
          if entry.1 == word then literal.fields :: (cutWhere (· == word) entry.2 rest).map Flat.fields
          else ((cutWhere (· == word) entry.2 rest).map Flat.fields).modifyHead
            fun piece => literal.fields ++ entry.1.text :: piece := by
        rw [cutWhere]
        by_cases he : (entry.1 == word) = true
        · rw [if_pos he, if_pos he]
          simp [Flat.fields]
        · rw [if_neg he, if_neg he]
          cases cutWhere (· == word) entry.2 rest with
          | nil => rfl
          | cons piece pieces => simp [fields_prepend]
      constructor
      · intro first more hf
        rw [hpieces first more (not_mem_tail literal prev word entry.1 hliteral hrank first more hf), hcuts, hf]
      · rintro p rfl hp
        rw [hpieces p.text literal.fields (not_mem_fields literal word p entry.1 hliteral hp hrank), hcuts]
        by_cases he : (entry.1 == word) = true
        · rw [if_pos he, if_pos he]
          rfl
        · rw [if_neg he, if_neg he]
          cases (cutWhere (· == word) entry.2 rest).map Flat.fields <;> rfl

end CutFields

end Conditions

end AgenticOrg.Workflows
