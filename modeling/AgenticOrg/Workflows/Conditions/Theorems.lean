import AgenticOrg.Workflows.Conditions.Connectives
import AgenticOrg.Workflows.Conditions.Knowledge

namespace AgenticOrg.Workflows

open Directive Kleene Fallible

namespace Conditions

section Separators

variable (flat : Flat) (hclear : clearFrom none flat.first flat.rest) (word : Word)
  (hranks : ∀ entry ∈ flat.rest, word.rank ≤ entry.1.rank)

include hclear hranks

theorem cutFields_fields :
    ∃ first more, flat.fields = first :: more ∧
      cutFields word.text first more = (flat.cut (· == word)).map Flat.fields := by
  obtain ⟨first, more, hf⟩ := List.exists_cons_of_ne_nil (fields_ne_nil flat.first)
  refine ⟨first, more ++ restFields flat.rest, ?_, ?_⟩
  · rw [Flat.fields, hf]
    rfl
  · exact (cutFields_flat word none flat.first flat.rest hclear hranks).1 first more hf

-- The text of a formula is split where the word stands in the formula.
theorem split_flat : split (spaced word.text) 0 flat.print = (flat.cut (· == word)).map Flat.print := by
  obtain ⟨first, more, hf, hcut⟩ := cutFields_fields flat hclear word hranks
  have hfields := isField_flat flat
  rw [hf, List.forall_mem_cons] at hfields
  rw [← joined_flat, hf, split_joined word.text (isField_word word) first more hfields.1 hfields.2, hcut, List.map_map]
  exact List.map_congr_left fun piece _ => joined_flat piece

theorem occurs_flat : occurs (spaced word.text) flat.print = true ↔ ∃ entry ∈ flat.rest, entry.1 = word := by
  obtain ⟨first, more, hf, hcut⟩ := cutFields_fields flat hclear word hranks
  have hfields := isField_flat flat
  rw [hf, List.forall_mem_cons] at hfields
  have hlength := length_cutFields word.text first more
  rw [hcut, List.length_map] at hlength
  rw [← joined_flat, hf, occurs_joined word.text (isField_word word) first more hfields.1 hfields.2,
    ← not_not (a := word.text ∈ _), ← hlength]
  constructor
  · intro hmany
    by_contra hnone
    have hself := cut_eq_self (· == word) flat fun entry he => by
      rw [beq_eq_false_iff_ne]
      exact fun heq => hnone ⟨entry, he, heq⟩
    exact hmany (by rw [hself]; rfl)
  · rintro ⟨entry, he, hw⟩ hone
    have := length_cut (· == word) flat entry he (by rw [hw, beq_self_eq_true])
    omega

end Separators

section Edges

def Front (text : Text) : Prop := ∃ c rest, text = c :: rest ∧ isSpace c = false

def Back (text : Text) : Prop := ∃ rest c, text = rest ++ [c] ∧ isSpace c = false

theorem strip_of_edges (text : Text) (hf : Front text) (hb : Back text) : strip text = text := by
  obtain ⟨c, rest, hc, hspace⟩ := hf
  obtain ⟨init, d, hd, hlast⟩ := hb
  have hdrop : text.dropWhile isSpace = text := by
    rw [hc, List.dropWhile_cons, hspace, if_neg (by simp)]
  have hback : text.reverse.dropWhile isSpace = text.reverse := by
    rw [hd, List.reverse_append, List.reverse_singleton, List.singleton_append, List.dropWhile_cons, hlast,
      if_neg (by simp)]
  rw [strip, hdrop, hback, List.reverse_reverse]

theorem edges_of_strip (text : Text) (hne : text ≠ []) (h : strip text = text) : Front text ∧ Back text := by
  have hlength := congrArg List.length h
  rw [strip, List.length_reverse] at hlength
  have hback := (List.dropWhile_sublist (l := (text.dropWhile isSpace).reverse) isSpace).length_le
  have hfront := (List.dropWhile_sublist (l := text) isSpace).length_le
  rw [List.length_reverse] at hback
  have hdrop : text.dropWhile isSpace = text :=
    (List.dropWhile_sublist isSpace).eq_of_length (by omega)
  rw [hdrop] at hlength
  have hreverse : text.reverse.dropWhile isSpace = text.reverse :=
    (List.dropWhile_sublist isSpace).eq_of_length (by rw [List.length_reverse]; exact hlength)
  constructor
  · cases text with
    | nil => exact absurd rfl hne
    | cons c rest =>
        refine ⟨c, rest, rfl, ?_⟩
        cases hc : isSpace c with
        | false => rfl
        | true =>
            rw [List.dropWhile_cons, hc, if_pos rfl] at hdrop
            have := (List.dropWhile_sublist (l := rest) isSpace).length_le
            rw [hdrop, List.length_cons] at this
            omega
  · obtain ⟨init, c, rfl⟩ := List.eq_nil_or_concat' text |>.resolve_left hne
    refine ⟨init, c, rfl, ?_⟩
    cases hc : isSpace c with
    | false => rfl
    | true =>
        rw [List.reverse_append, List.reverse_singleton, List.singleton_append, List.dropWhile_cons, hc,
          if_pos rfl] at hreverse
        have := (List.dropWhile_sublist (l := init.reverse) isSpace).length_le
        rw [hreverse, List.length_cons] at this
        omega

theorem front_append (text rest : Text) (h : Front text) : Front (text ++ rest) := by
  obtain ⟨c, more, rfl, hc⟩ := h
  exact ⟨c, more ++ rest, rfl, hc⟩

theorem back_append (text rest : Text) (h : Back rest) : Back (text ++ rest) := by
  obtain ⟨init, c, rfl, hc⟩ := h
  exact ⟨text ++ init, c, by rw [List.append_assoc], hc⟩

theorem edges_literal (literal : Literal) : Front literal.print ∧ Back literal.print := by
  have hatom := edges_of_strip literal.atom.text literal.atom.ne literal.atom.trimmed
  rw [Literal.print]
  cases literal.negation with
  | none => exact hatom
  | some capitals =>
      refine ⟨front_append _ _ ?_, back_append _ _ (back_append [' '] _ hatom.2)⟩
      cases capitals with
      | true => exact ⟨'N', ['O', 'T'], rfl, by decide⟩
      | false => exact ⟨'n', ['o', 't'], rfl, by decide⟩

theorem edges_flat (flat : Flat) : Front flat.print ∧ Back flat.print := by
  obtain ⟨literal, rest⟩ := flat
  refine ⟨front_append _ _ (edges_literal literal).1, ?_⟩
  induction rest generalizing literal with
  | nil =>
      rw [Flat.print, List.flatMap_nil, List.append_nil]
      exact (edges_literal literal).2
  | cons entry rest ih =>
      have hprint : Flat.print ⟨literal, entry :: rest⟩ =
          literal.print ++ (spaced entry.1.text ++ Flat.print ⟨entry.2, rest⟩) := by simp [Flat.print]
      rw [hprint]
      exact back_append _ _ (back_append _ _ (ih entry.2))

theorem strip_flat (flat : Flat) : strip flat.print = flat.print :=
  strip_of_edges flat.print (edges_flat flat).1 (edges_flat flat).2

theorem isEmpty_flat (flat : Flat) : ¬flat.print.isEmpty = true := by
  obtain ⟨c, rest, h, -⟩ := (edges_flat flat).1
  rw [h]
  simp

end Edges

section Quotes

theorem openQuote_append (quote : Option Char) (text rest : Text) :
    openQuote quote (text ++ rest) = openQuote (openQuote quote text) rest := by
  induction text generalizing quote with
  | nil => cases rest <;> cases quote <;> rfl
  | cons c more ih => cases quote <;> exact ih _

def Closes (text : Text) : Prop := openQuote none text = none

theorem closes_append (text rest : Text) (ht : Closes text) (hr : Closes rest) : Closes (text ++ rest) := by
  rw [Closes, openQuote_append, ht]
  exact hr

theorem closes_iff (text : Text) : unbalancedQuotes text = false ↔ Closes text := by
  rw [unbalancedQuotes, Option.isSome_eq_false_iff, Option.isNone_iff_eq_none]
  rfl

theorem closes_literal (literal : Literal) (h : Closes literal.atom.text) : Closes literal.print := by
  rw [Literal.print]
  cases literal.negation with
  | none => exact h
  | some capitals =>
      refine closes_append _ _ ?_ (closes_append [' '] _ rfl h)
      cases capitals <;> rfl

theorem closes_flat (flat : Flat) (h : ∀ literal ∈ flat.literals, Closes literal.atom.text) : Closes flat.print := by
  obtain ⟨literal, rest⟩ := flat
  induction rest generalizing literal with
  | nil =>
      rw [Flat.print, List.flatMap_nil, List.append_nil]
      exact closes_literal literal (h literal List.mem_cons_self)
  | cons entry rest ih =>
      have hprint : Flat.print ⟨literal, entry :: rest⟩ =
          literal.print ++ (spaced entry.1.text ++ Flat.print ⟨entry.2, rest⟩) := by simp [Flat.print]
      have hword : Closes (spaced entry.1.text) := by cases entry.1 <;> rfl
      rw [hprint]
      refine closes_append _ _ (closes_literal literal (h literal List.mem_cons_self)) (closes_append _ _ hword ?_)
      exact ih entry.2 fun l hl => h l (List.mem_cons_of_mem _ hl)

end Quotes

section Steps

variable (world : World) (context : world.Value)

def Word.together (word : Word) : List Truth → Truth := if word.isOr then any else all

theorem splitKeyword_or (text : Text) :
    splitKeyword text .or =
      if occurs (spaced Word.orUpper.text) text then some (split (spaced Word.orUpper.text) 0 text)
      else if occurs (spaced Word.orLower.text) text then some (split (spaced Word.orLower.text) 0 text)
      else none := rfl

theorem splitKeyword_and (text : Text) :
    splitKeyword text .and =
      if occurs (spaced Word.andUpper.text) text then some (split (spaced Word.andUpper.text) 0 text)
      else if occurs (spaced Word.andLower.text) text then some (split (spaced Word.andLower.text) 0 text)
      else none := rfl

-- With no word of a lower rank in it, a formula is split at the words of this one.
theorem evaluate_split (flat : Flat) (hclear : clearFrom none flat.first flat.rest) (word : Word)
    (hranks : ∀ entry ∈ flat.rest, word.rank ≤ entry.1.rank) (hmem : ∃ entry ∈ flat.rest, entry.1 = word)
    (fuel : ℕ) :
    evaluate world context (fuel + 1) flat.print =
      combine word.together (evaluate world context fuel) ((flat.cut (· == word)).map Flat.print) := by
  have hoccurs := (occurs_flat flat hclear word hranks).mpr hmem
  have hsplit := split_flat flat hclear word hranks
  have habsent (other : Word) (hlt : other.rank < word.rank) : ¬occurs (spaced other.text) flat.print = true := by
    intro h
    obtain ⟨entry, he, hw⟩ := (occurs_flat flat hclear other fun e he => by
      have := hranks e he
      omega).mp h
    have := hranks entry he
    rw [hw] at this
    omega
  rw [evaluate, strip_flat, if_neg (isEmpty_flat flat)]
  cases word with
  | orUpper =>
      have hor : splitKeyword flat.print .or = some ((flat.cut (· == .orUpper)).map Flat.print) := by
        rw [splitKeyword_or, if_pos hoccurs, hsplit]
      rw [hor]
      rfl
  | orLower =>
      have hor : splitKeyword flat.print .or = some ((flat.cut (· == .orLower)).map Flat.print) := by
        rw [splitKeyword_or, if_neg (habsent .orUpper (by decide)), if_pos hoccurs, hsplit]
      rw [hor]
      rfl
  | andUpper =>
      have hor : splitKeyword flat.print .or = none := by
        rw [splitKeyword_or, if_neg (habsent .orUpper (by decide)), if_neg (habsent .orLower (by decide))]
      have hand : splitKeyword flat.print .and = some ((flat.cut (· == .andUpper)).map Flat.print) := by
        rw [splitKeyword_and, if_pos hoccurs, hsplit]
      rw [hor, hand]
      rfl
  | andLower =>
      have hor : splitKeyword flat.print .or = none := by
        rw [splitKeyword_or, if_neg (habsent .orUpper (by decide)), if_neg (habsent .orLower (by decide))]
      have hand : splitKeyword flat.print .and = some ((flat.cut (· == .andLower)).map Flat.print) := by
        rw [splitKeyword_and, if_neg (habsent .andUpper (by decide)), if_pos hoccurs, hsplit]
      rw [hor, hand]
      rfl

variable (value : Text → Truth)

theorem evaluate_literal (literal : Literal) (hclear : clearFrom none literal [])
    (hv : evaluateConditionStrict world context literal.atom.text = .ok (value literal.atom.text)) (fuel : ℕ)
    (hfuel : literal.print.length < fuel) : evaluate world context fuel literal.print = .ok (literal.truth value) := by
  have habsent (word : Word) : ¬occurs (spaced word.text) literal.print = true := by
    have h := occurs_flat ⟨literal, []⟩ hclear word fun _ he => absurd he List.not_mem_nil
    have hprint : Flat.print ⟨literal, []⟩ = literal.print := by simp [Flat.print]
    rw [hprint] at h
    intro ho
    obtain ⟨entry, he, -⟩ := h.mp ho
    cases he
  obtain ⟨hfront, hback⟩ := edges_literal literal
  cases hn : literal.negation with
  | none =>
      have hprint : literal.print = literal.atom.text := by rw [Literal.print, hn]
      rw [hprint] at hfuel ⊢
      rw [evaluate_enough world context fuel _ hfuel, hv, Literal.truth, hn]
  | some capitals =>
      have hprint : literal.print = notText capitals ++ ' ' :: literal.atom.text := by rw [Literal.print, hn]
      have hor : splitKeyword literal.print .or = none := by
        rw [splitKeyword_or, if_neg (habsent .orUpper), if_neg (habsent .orLower)]
      have hand : splitKeyword literal.print .and = none := by
        rw [splitKeyword_and, if_neg (habsent .andUpper), if_neg (habsent .andLower)]
      have hnot : startsWithNot literal.print = true := by
        rw [hprint]
        cases capitals <;> simp [startsWithNot, notText, List.isPrefixOf]
      have hdrop : literal.print.drop 4 = literal.atom.text := by
        rw [hprint]
        cases capitals <;> rfl
      have hlength : literal.print.length = literal.atom.text.length + 4 := by
        rw [hprint]
        cases capitals <;> rfl
      have hempty : ¬literal.print.isEmpty = true := by
        rw [List.isEmpty_iff_length_eq_zero]
        omega
      cases fuel with
      | zero => exact absurd hfuel (Nat.not_lt_zero _)
      | succ fuel =>
          rw [evaluate, strip_of_edges _ hfront hback, if_neg hempty, hor, hand]
          dsimp only
          rw [if_pos hnot, hdrop, evaluate_enough world context fuel _ (by omega), hv, Literal.truth, hn]
          rfl

end Steps

section Levels

variable (world : World) (context : world.Value) (value : Text → Truth)

-- The value of a formula that is cut at one word after the other.
def Flat.truth : List Word → Flat → Truth
  | [], flat => flat.first.truth value
  | word :: words, flat => word.together ((flat.cut (· == word)).map (Flat.truth words))

theorem together_singleton (word : Word) (truth : Truth) : word.together [truth] = truth := by
  cases word
  · exact any_singleton truth
  · exact any_singleton truth
  · exact all_singleton truth
  · exact all_singleton truth

theorem length_print_cut (test : Word → Bool) (flat : Flat) (word : Word) (htest : test = (· == word))
    (hclear : clearFrom none flat.first flat.rest) (hranks : ∀ entry ∈ flat.rest, word.rank ≤ entry.1.rank)
    (hmem : ∃ entry ∈ flat.rest, entry.1 = word) :
    ∀ piece ∈ flat.cut test, piece.print.length < flat.print.length := by
  intro piece hp
  rw [htest] at hp
  refine length_split_lt _ _ ((occurs_flat flat hclear word hranks).mpr hmem) piece.print ?_
  rw [split_flat flat hclear word hranks]
  exact List.mem_map_of_mem hp

-- Evaluating cuts at one word after the other, in the order of their ranks.
theorem evaluate_flat (words : List Word) (hsorted : words.Pairwise fun a b => a.rank < b.rank) (flat : Flat)
    (hwords : ∀ entry ∈ flat.rest, entry.1 ∈ words) (hclear : clearFrom none flat.first flat.rest)
    (hquotes : flat.rest ≠ [] → ∀ literal ∈ flat.literals, Closes literal.atom.text)
    (hv : ∀ literal ∈ flat.literals,
      evaluateConditionStrict world context literal.atom.text = .ok (value literal.atom.text))
    (fuel : ℕ) (hfuel : flat.print.length < fuel) :
    evaluate world context fuel flat.print = .ok (flat.truth value words) := by
  induction words generalizing flat fuel with
  | nil =>
      obtain ⟨literal, rest⟩ := flat
      cases rest with
      | cons entry rest => exact absurd (hwords entry List.mem_cons_self) List.not_mem_nil
      | nil =>
          have hprint : Flat.print ⟨literal, []⟩ = literal.print := by simp [Flat.print]
          rw [hprint] at hfuel ⊢
          exact evaluate_literal world context value literal hclear (hv literal List.mem_cons_self) fuel hfuel
  | cons word words ih =>
      obtain ⟨hword, hsorted⟩ := List.pairwise_cons.mp hsorted
      have hranks : ∀ entry ∈ flat.rest, word.rank ≤ entry.1.rank := by
        intro entry he
        obtain heq | hm := List.mem_cons.mp (hwords entry he)
        · rw [heq]
        · exact Nat.le_of_lt (hword _ hm)
      by_cases hmem : ∃ entry ∈ flat.rest, entry.1 = word
      · have hne : flat.rest ≠ [] := by
          obtain ⟨entry, he, -⟩ := hmem
          exact List.ne_nil_of_mem he
        have hcloses := hquotes hne
        cases fuel with
        | zero => exact absurd hfuel (Nat.not_lt_zero _)
        | succ fuel =>
            have hbalanced : ((flat.cut (· == word)).map Flat.print).any unbalancedQuotes = false := by
              rw [List.any_eq_false, List.forall_mem_map]
              intro piece hp
              rw [Bool.not_eq_true, closes_iff]
              exact closes_flat piece fun l hl => hcloses l ((mem_cut _ flat piece hp).2 l hl)
            have hpieces : ((flat.cut (· == word)).map Flat.print).mapM (evaluate world context fuel) =
                .ok ((flat.cut (· == word)).map (Flat.truth value words)) := by
              rw [List.mapM_map]
              refine mapM_eq_map _ _ _ fun piece hp => ?_
              obtain ⟨hentries, hliterals⟩ := mem_cut (· == word) flat piece hp
              have hlt := length_print_cut _ flat word rfl hclear hranks hmem piece hp
              refine ih hsorted piece ?_ (clear_pieces _ flat hclear piece hp)
                (fun _ l hl => hcloses l (hliterals l hl)) (fun l hl => hv l (hliterals l hl)) fuel (by omega)
              intro entry he
              obtain ⟨hin, hno⟩ := hentries entry he
              obtain heq | hm := List.mem_cons.mp (hwords entry hin)
              · rw [heq, beq_self_eq_true] at hno
                cases hno
              · exact hm
            rw [evaluate_split world context flat hclear word hranks hmem fuel, combine, hbalanced, hpieces]
            rfl
      · have habsent : ∀ entry ∈ flat.rest, (entry.1 == word) = false := by
          intro entry he
          rw [beq_eq_false_iff_ne]
          exact fun heq => hmem ⟨entry, he, heq⟩
        have hrest : ∀ entry ∈ flat.rest, entry.1 ∈ words := by
          intro entry he
          obtain heq | hm := List.mem_cons.mp (hwords entry he)
          · exact absurd ⟨entry, he, heq⟩ hmem
          · exact hm
        rw [Flat.truth, cut_eq_self (· == word) flat habsent, List.map_singleton, together_singleton]
        exact ih hsorted flat hrest hclear hquotes hv fuel hfuel

end Levels

section Meaning

variable (value : Text → Truth)

def WORDS : List Word := [.orUpper, .orLower, .andUpper, .andLower]

def Conjunction.flat (conjunction : Conjunction) : Flat := ⟨conjunction.first, conjunction.flatRest⟩

theorem cutWhere_append (test : Word → Bool) (literal : Literal) (before after : List (Word × Literal))
    (entry : Word × Literal) (hb : ∀ e ∈ before, test e.1 = false) (ht : test entry.1 = true) :
    cutWhere test literal (before ++ entry :: after) = ⟨literal, before⟩ :: cutWhere test entry.2 after := by
  induction before generalizing literal with
  | nil => rw [List.nil_append, cutWhere, if_pos ht]
  | cons first rest ih =>
      obtain ⟨hfirst, hrest⟩ := List.forall_mem_cons.mp hb
      rw [List.cons_append, cutWhere, hfirst, if_neg (by simp), ih first.2 hrest]
      rfl

theorem cutWhere_all (test : Word → Bool) (literal : Literal) (rest : List (Word × Literal))
    (h : ∀ entry ∈ rest, test entry.1 = true) :
    cutWhere test literal rest = (literal :: rest.map Prod.snd).map fun found => ⟨found, []⟩ := by
  induction rest generalizing literal with
  | nil => rfl
  | cons entry rest ih =>
      obtain ⟨hentry, hrest⟩ := List.forall_mem_cons.mp h
      rw [cutWhere, if_pos hentry, ih entry.2 hrest]
      rfl

theorem flatRest_and (conjunction : Conjunction) : ∀ entry ∈ conjunction.flatRest, entry.1.isOr = false := by
  intro entry he
  obtain ⟨found, -, rfl⟩ := List.mem_map.mp he
  cases found.1 <;> rfl

-- The pieces between the words for "or" are the conjunctions.
theorem cut_formula (formula : Formula) :
    formula.flat.cut Word.isOr = formula.conjunctions.map Conjunction.flat := by
  obtain ⟨first, rest⟩ := formula
  induction rest generalizing first with
  | nil =>
      have h := cut_eq_self Word.isOr first.flat (flatRest_and first)
      simpa [Formula.flat, Formula.conjunctions, Conjunction.flat] using h
  | cons entry rest ih =>
      have hentry : (Word.ofOr entry.1).isOr = true := by cases entry.1 <;> rfl
      have happend := cutWhere_append Word.isOr first.first first.flatRest
        (entry.2.flatRest ++ rest.flatMap fun entry => (Word.ofOr entry.1, entry.2.first) :: entry.2.flatRest)
        (Word.ofOr entry.1, entry.2.first) (flatRest_and first) hentry
      show cutWhere Word.isOr first.first (first.flatRest ++ _) = _
      rw [List.flatMap_cons, List.cons_append, happend]
      exact congrArg (first.flat :: ·) (ih entry.2)

theorem cut_conjunction (conjunction : Conjunction) :
    conjunction.flat.cut (!Word.isOr ·) = conjunction.literals.map fun literal => ⟨literal, []⟩ := by
  have h := cutWhere_all (!Word.isOr ·) conjunction.first conjunction.flatRest fun entry he => by
    rw [flatRest_and conjunction entry he]
    rfl
  have hliterals : conjunction.flatRest.map Prod.snd = conjunction.rest.map Prod.snd := by
    simp [Conjunction.flatRest, Function.comp_def]
  rw [hliterals] at h
  exact h

-- Cutting at one word and then at another, under one connective.
theorem any_cut (test other : Word → Bool) (flat : Flat) (f : Flat → Truth) :
    any ((flat.cut test).map fun piece => any ((piece.cut other).map f)) =
      any ((flat.cut fun word => test word || other word).map f) := by
  rw [← flatMap_cut, List.map_flatMap, List.flatMap, ← any_flatten, List.map_map]
  rfl

theorem all_cut (test other : Word → Bool) (flat : Flat) (f : Flat → Truth) :
    all ((flat.cut test).map fun piece => all ((piece.cut other).map f)) =
      all ((flat.cut fun word => test word || other word).map f) := by
  rw [← flatMap_cut, List.map_flatMap, List.flatMap, ← all_flatten, List.map_map]
  rfl

theorem truth_conjunction (conjunction : Conjunction) :
    conjunction.flat.truth value [.andUpper, .andLower] = conjunction.truth value := by
  have hand : (fun word : Word => word == .andUpper || word == .andLower) = (!Word.isOr ·) := by
    funext word
    cases word <;> rfl
  have h := all_cut (· == .andUpper) (· == .andLower) conjunction.flat (Flat.truth value [])
  rw [hand, cut_conjunction, List.map_map] at h
  exact h

theorem truth_formula (formula : Formula) : formula.flat.truth value WORDS = formula.truth value := by
  have hor : (fun word : Word => word == .orUpper || word == .orLower) = Word.isOr := by
    funext word
    cases word <;> rfl
  have h := any_cut (· == .orUpper) (· == .orLower) formula.flat (Flat.truth value [.andUpper, .andLower])
  rw [hor, cut_formula, List.map_map] at h
  refine h.trans (congrArg any ?_)
  exact List.map_congr_left fun conjunction _ => truth_conjunction value conjunction

theorem print_formula (formula : Formula) : formula.print = formula.flat.print := by
  have hconjunction (conjunction : Conjunction) : conjunction.print = conjunction.first.print ++
      conjunction.flatRest.flatMap fun entry => spaced entry.1.text ++ entry.2.print := by
    rw [Conjunction.print, Conjunction.flatRest, List.flatMap_map]
  rw [Formula.print, Flat.print, Formula.flat]
  simp only [List.flatMap_append, List.flatMap_assoc, List.flatMap_cons, hconjunction, List.append_assoc]

theorem literals_formula (formula : Formula) : formula.flat.literals = formula.literals := by
  simp [Formula.flat, Flat.literals, Formula.literals, Formula.conjunctions, Conjunction.literals,
    Conjunction.flatRest, List.flatMap_map, List.map_flatMap, Function.comp_def]

end Meaning

section Formulas

variable (world : World) (context : world.Value) (value : Text → Truth)

-- A formula whose atoms make no keywords and leave no quotes open has its strong
-- Kleene value.
theorem formula_truth (formula : Formula) (hclear : formula.Clear) (hbalanced : formula.Balanced)
    (hv : ∀ literal ∈ formula.literals,
      evaluateConditionStrict world context literal.atom.text = .ok (value literal.atom.text)) :
    evaluateConditionStrict world context formula.print = .ok (formula.truth value) := by
  have hquotes : formula.flat.rest ≠ [] → ∀ literal ∈ formula.flat.literals, Closes literal.atom.text := by
    intro hne literal hl
    have hmany : 2 ≤ formula.literals.length := by
      rw [← literals_formula, Flat.literals, List.length_cons, List.length_map]
      have := List.length_pos_iff.mpr hne
      omega
    rw [literals_formula] at hl
    exact (closes_iff _).mp (hbalanced hmany literal hl)
  rw [print_formula, ← truth_formula value formula]
  refine evaluate_flat world context value WORDS (by decide) formula.flat ?_ hclear hquotes ?_ _ (Nat.lt_succ_self _)
  · intro entry _
    cases entry.1 <;> decide
  · rw [literals_formula]
    exact hv

end Formulas

section Cases

def equals (name digit : String) (h : strip (name ++ " == " ++ digit).toList = (name ++ " == " ++ digit).toList)
    (hne : (name ++ " == " ++ digit).toList ≠ []) : Atom := ⟨(name ++ " == " ++ digit).toList, hne, h⟩

-- `a == 1 AND or == 2`
def orField : Formula where
  first := { first := { atom := equals "a" "1" (by decide) (by decide) }
             rest := [(true, { atom := equals "or" "2" (by decide) (by decide) })] }

-- `NOT a == 2 or b == 3 AND a == 1`
def mixedCases : Formula where
  first := { first := { atom := equals "a" "2" (by decide) (by decide), negation := some true } }
  rest := [(false, { first := { atom := equals "b" "3" (by decide) (by decide) }
                     rest := [(true, { atom := equals "a" "1" (by decide) (by decide) })] })]

theorem clearBetween_of_not_mem (literal : Literal) (prev next : Option Word)
    (h : ∀ word : Word, word.text ∉ literal.fields) : literal.ClearBetween prev next := by
  intro word before after hf
  refine absurd ?_ (h word)
  rw [hf]
  exact List.mem_append_right _ List.mem_cons_self

theorem formula_truth_mixed :
    evaluateConditionStrict jsonWorld (knowing [("a", 1)]) mixedCases.print = .ok (some true) :=
  formula_truth jsonWorld (knowing [("a", 1)]) (fun text => if text = "b == 3".toList then none
      else some (text = "a == 1".toList)) mixedCases
    ⟨clearBetween_of_not_mem _ _ _ (by intro word; cases word <;> decide),
      clearBetween_of_not_mem _ _ _ (by intro word; cases word <;> decide),
      clearBetween_of_not_mem _ _ _ (by intro word; cases word <;> decide)⟩
    (fun _ => by decide)
    (by
      show ∀ literal ∈ [_, _, _], _
      simp only [List.forall_mem_cons]
      exact ⟨rfl, rfl, rfl, fun _ h => absurd h List.not_mem_nil⟩)

-- A field of the name `or` next to an `AND`: the text is split in the wrong place.
theorem orField_unknown :
    (∀ literal ∈ orField.literals, (∀ word : Word, occurs (spaced word.text) literal.atom.text = false) ∧
        evaluateConditionStrict jsonWorld (knowing [("a", 1), ("or", 2)]) literal.atom.text = .ok (some true)) ∧
      orField.truth (fun _ => some true) = some true ∧
      evaluateConditionStrict jsonWorld (knowing [("a", 1), ("or", 2)]) orField.print = .ok none := by
  refine ⟨?_, rfl, rfl⟩
  show ∀ literal ∈ [_, _], _
  simp only [List.forall_mem_cons]
  refine ⟨⟨fun word => ?_, rfl⟩, ⟨fun word => ?_, rfl⟩, fun _ h => absurd h List.not_mem_nil⟩
  · cases word <;> decide
  · cases word <;> decide

end Cases

end Conditions

end AgenticOrg.Workflows
