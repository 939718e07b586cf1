import AgenticOrg.Lib.Splice

namespace Splices

variable {α : Type}

section Layouts

-- The text with each stretch beside what is put in for it.
def layout (input : List α) : ℕ → List (Edit α) → List (Segment α)
  | cursor, [] => (input.drop cursor).map .keep
  | cursor, edit :: rest =>
      ((input.drop cursor).take (edit.start - cursor)).map .keep ++
        .swap ((input.drop edit.start).take (edit.stop - edit.start)) edit.target :: layout input edit.stop rest

variable (input : List α)

theorem targetOf_layout (edits : List (Edit α)) (cursor : ℕ) :
    targetOf (layout input cursor edits) = splice input cursor edits := by
  induction edits generalizing cursor with
  | nil => exact targetOf_keep _
  | cons edit rest ih =>
      rw [layout, targetOf_append, targetOf_cons, targetOf_keep, ih, splice, List.append_assoc]
      rfl

theorem sourceOf_layout (edits : List (Edit α)) (cursor : ℕ) (h : Ordered input.length cursor edits) :
    sourceOf (layout input cursor edits) = input.drop cursor := by
  induction edits generalizing cursor with
  | nil => exact sourceOf_keep _
  | cons edit rest ih =>
      obtain ⟨hstart, hlt, _, hrest⟩ := h
      rw [layout, sourceOf_append, sourceOf_cons, sourceOf_keep, ih edit.stop hrest]
      have hstop : edit.stop = edit.start + (edit.stop - edit.start) := by omega
      have hnext : edit.start = cursor + (edit.start - cursor) := by omega
      conv_lhs =>
        enter [2]
        rw [Segment.source, hstop, ← List.drop_drop, ← hstop, List.take_append_drop]
      conv_lhs =>
        enter [2]
        rw [hnext, ← List.drop_drop]
      exact List.take_append_drop _ _

theorem swap_not_mem_keep (source target text : List α) : .swap source target ∉ text.map Segment.keep := by
  intro h
  obtain ⟨_, _, he⟩ := List.mem_map.mp h
  cases he

theorem mem_layout (edits : List (Edit α)) (cursor : ℕ) (source target : List α) :
    .swap source target ∈ layout input cursor edits ↔
      ∃ edit ∈ edits, source = (input.drop edit.start).take (edit.stop - edit.start) ∧ target = edit.target := by
  induction edits generalizing cursor with
  | nil =>
      refine ⟨fun h => absurd h (swap_not_mem_keep source target _), ?_⟩
      rintro ⟨_, h, _⟩
      cases h
  | cons edit rest ih =>
      rw [layout, List.mem_append, List.mem_cons, ih, List.exists_mem_cons_iff, Segment.swap.injEq]
      exact or_iff_right (swap_not_mem_keep source target _)

theorem ordered_start (edits : List (Edit α)) (limit cursor : ℕ) (h : Ordered limit cursor edits) (edit : Edit α)
    (he : edit ∈ edits) : cursor ≤ edit.start := by
  induction edits generalizing cursor with
  | nil => cases he
  | cons first rest ih =>
      obtain ⟨hstart, hlt, _, hrest⟩ := h
      rcases List.mem_cons.mp he with rfl | he
      · exact hstart
      · have hlater := ih first.stop hrest he
        omega

end Layouts

section Stretches

variable (word : List α)

def Segment.kept? : Segment α → Option α
  | .keep c => some c
  | .swap _ _ => none

theorem filterMap_keep (text : List α) : (text.map Segment.keep).filterMap Segment.kept? = text := by
  induction text with
  | nil => rfl
  | cons c rest ih => exact congrArg (c :: ·) ih

theorem keep_infix_keep (text : List α) : word.map Segment.keep <:+: text.map .keep ↔ word <:+: text := by
  constructor
  · intro h
    have hkept := h.filterMap Segment.kept?
    rwa [filterMap_keep, filterMap_keep] at hkept
  · exact fun h => h.map _

-- A kept stretch lies on one side of what was put in.
theorem keep_infix_append (text source target : List α) (rest : List (Segment α)) :
    word.map .keep <:+: text.map .keep ++ .swap source target :: rest ↔
      word <:+: text ∨ word.map .keep <:+: rest := by
  rw [← keep_infix_keep word text]
  constructor
  · rintro ⟨before, after, h⟩
    rcases List.append_eq_append_iff.mp h with ⟨more, hmore, _⟩ | ⟨more, hmore, hafter⟩
    · exact .inl ⟨before, more, hmore.symm⟩
    · cases more with
      | nil => exact .inl ⟨before, [], by rw [hmore, List.append_nil, List.append_nil]⟩
      | cons segment more =>
          obtain ⟨rfl, hrest⟩ := List.cons.inj hafter
          rcases List.append_eq_append_iff.mp hmore with ⟨between, _, hbetween⟩ | ⟨between, _, hbetween⟩
          · exact absurd (by rw [hbetween]; simp) (swap_not_mem_keep source target word)
          · cases between with
            | nil =>
                refine absurd ?_ (swap_not_mem_keep source target word)
                rw [← List.nil_append (word.map Segment.keep), ← hbetween]
                exact List.mem_cons_self
            | cons other between =>
                obtain ⟨_, hin⟩ := List.cons.inj hbetween
                exact .inr ⟨between, after, by rw [hrest, hin]; rfl⟩
  · rintro (h | h)
    · exact h.trans (List.prefix_append _ _).isInfix
    · exact h.trans ((List.suffix_cons _ _).trans (List.suffix_append _ _)).isInfix

theorem infix_take_iff (input : List α) (cursor count : ℕ) :
    word <:+: (input.drop cursor).take count ↔
      ∃ place, cursor ≤ place ∧ place + word.length ≤ cursor + count ∧ word <+: input.drop place := by
  constructor
  · intro h
    obtain ⟨tail, hword, htail⟩ := List.infix_iff_prefix_suffix.mp h
    rw [List.suffix_iff_eq_drop.mp htail, List.drop_take, List.drop_drop, List.prefix_take_iff] at hword
    have hlength : ((input.drop cursor).take count).length ≤ count := List.length_take_le _ _
    exact ⟨_, Nat.le_add_right _ _, by omega, hword.1⟩
  · rintro ⟨place, hcursor, hfits, hword⟩
    refine List.infix_iff_prefix_suffix.mpr ⟨((input.drop cursor).take count).drop (place - cursor), ?_,
      List.drop_suffix _ _⟩
    rw [List.drop_take, List.drop_drop, List.prefix_take_iff, Nat.add_sub_cancel' hcursor]
    exact ⟨hword, by omega⟩

-- A word that was kept as a whole stands in the text clear of every edit.
theorem keep_infix_layout (hw : word ≠ []) (input : List α) (edits : List (Edit α)) (cursor : ℕ)
    (hcursor : cursor ≤ input.length) (h : Ordered input.length cursor edits) :
    word.map .keep <:+: layout input cursor edits ↔
      ∃ place, cursor ≤ place ∧ word <+: input.drop place ∧
        ∀ edit ∈ edits, place + word.length ≤ edit.start ∨ edit.stop ≤ place := by
  induction edits generalizing cursor with
  | nil =>
      rw [layout, keep_infix_keep]
      have hwhole := infix_take_iff word input cursor (input.length - cursor)
      rw [← List.length_drop, List.take_length] at hwhole
      rw [hwhole]
      constructor
      · rintro ⟨place, hplace, _, hword⟩
        exact ⟨place, hplace, hword, fun _ he => absurd he List.not_mem_nil⟩
      · rintro ⟨place, hplace, hword, _⟩
        refine ⟨place, hplace, ?_, hword⟩
        have hlength := hword.length_le
        have hpos := List.length_pos_iff.mpr hw
        rw [List.length_drop] at hlength ⊢
        omega
  | cons edit rest ih =>
      obtain ⟨hstart, hlt, hstop, hrest⟩ := h
      rw [layout, keep_infix_append, infix_take_iff, ih edit.stop hstop hrest]
      constructor
      · rintro (⟨place, hplace, hfits, hword⟩ | ⟨place, hplace, hword, hclear⟩)
        · refine ⟨place, hplace, hword, fun other ho => .inl ?_⟩
          rcases List.mem_cons.mp ho with rfl | ho
          · omega
          · have hlater := ordered_start rest _ _ hrest other ho
            omega
        · refine ⟨place, by omega, hword, fun other ho => ?_⟩
          rcases List.mem_cons.mp ho with rfl | ho
          · exact .inr hplace
          · exact hclear other ho
      · rintro ⟨place, hplace, hword, hclear⟩
        rcases hclear edit List.mem_cons_self with hbefore | hafter
        · exact .inl ⟨place, hplace, by omega, hword⟩
        · exact .inr ⟨place, hafter, hword, fun other ho => hclear other (List.mem_cons_of_mem _ ho)⟩

end Stretches

section Backwards

variable (input : List α)

def replaceAt (edit : Edit α) : List α := input.take edit.start ++ edit.target ++ input.drop edit.stop

-- Replacing from the end keeps every earlier position: the edits come out as in one pass from the start.
theorem foldr_replaceAt (edits : List (Edit α)) (cursor : ℕ) (hcursor : cursor ≤ input.length)
    (h : Ordered input.length cursor edits) :
    edits.foldr (fun edit text => replaceAt text edit) input = input.take cursor ++ splice input cursor edits := by
  induction edits generalizing cursor with
  | nil => exact (List.take_append_drop cursor input).symm
  | cons edit rest ih =>
      obtain ⟨hstart, hlt, hstop, hrest⟩ := h
      have hlength : (input.take edit.stop).length = edit.stop := by
        rw [List.length_take]
        omega
      have hbefore : (input.take edit.stop ++ splice input edit.stop rest).take edit.start = input.take edit.start := by
        rw [List.take_append_of_le_length (by omega), List.take_take, Nat.min_eq_left (by omega)]
      have hafter : (input.take edit.stop ++ splice input edit.stop rest).drop edit.stop =
          splice input edit.stop rest := by
        rw [List.drop_append_of_le_length (by omega), List.drop_eq_nil_of_le (by omega), List.nil_append]
      have hsplit : input.take edit.start = input.take cursor ++ (input.drop cursor).take (edit.start - cursor) := by
        have hadd : edit.start = cursor + (edit.start - cursor) := by omega
        conv_lhs => rw [hadd, List.take_add]
      rw [List.foldr_cons, ih edit.stop hstop hrest, replaceAt, hbefore, hafter, hsplit, splice]
      simp only [List.append_assoc]

-- What stands between two positions is what stood there before anything behind it was replaced.
theorem slice_replaced (rest : List α) (start stop : ℕ) (hstop : stop ≤ input.length) :
    ((input.take stop ++ rest).drop start).take (stop - start) = (input.drop start).take (stop - start) := by
  have hlength : (input.take stop).length = stop := by
    rw [List.length_take]
    omega
  rw [← List.drop_take, ← List.drop_take, List.take_append_of_le_length (by omega), List.take_take, Nat.min_self]

end Backwards

end Splices
