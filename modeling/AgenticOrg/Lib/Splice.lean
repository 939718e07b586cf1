import Mathlib.Data.List.Basic

namespace Splices

variable {α : Type}

section Segments

-- A text beside another one that was made of it: characters kept, and stretches put in the place of others.
inductive Segment (α : Type) where
  | keep (c : α)
  | swap (source target : List α)
  deriving DecidableEq

namespace Segment

def source : Segment α → List α
  | keep c => [c]
  | swap source _ => source

def target : Segment α → List α
  | keep c => [c]
  | swap _ target => target

def isSwap : Segment α → Bool
  | keep _ => false
  | swap _ _ => true

end Segment

def sourceOf (segments : List (Segment α)) : List α := segments.flatMap Segment.source

def targetOf (segments : List (Segment α)) : List α := segments.flatMap Segment.target

-- What was put in, in order.
def swapsOf (segments : List (Segment α)) : List (List α) := (segments.filter Segment.isSwap).map Segment.target

@[simp] theorem sourceOf_nil : sourceOf ([] : List (Segment α)) = [] := rfl

@[simp] theorem targetOf_nil : targetOf ([] : List (Segment α)) = [] := rfl

@[simp] theorem sourceOf_cons (segment : Segment α) (rest : List (Segment α)) :
    sourceOf (segment :: rest) = segment.source ++ sourceOf rest := List.flatMap_cons

@[simp] theorem targetOf_cons (segment : Segment α) (rest : List (Segment α)) :
    targetOf (segment :: rest) = segment.target ++ targetOf rest := List.flatMap_cons

@[simp] theorem sourceOf_append (xs ys : List (Segment α)) : sourceOf (xs ++ ys) = sourceOf xs ++ sourceOf ys :=
  List.flatMap_append

@[simp] theorem targetOf_append (xs ys : List (Segment α)) : targetOf (xs ++ ys) = targetOf xs ++ targetOf ys :=
  List.flatMap_append

theorem sourceOf_keep (text : List α) : sourceOf (text.map .keep) = text := by
  induction text with
  | nil => rfl
  | cons c rest ih =>
      rw [List.map_cons, sourceOf_cons, ih]
      rfl

theorem targetOf_keep (text : List α) : targetOf (text.map .keep) = text := by
  induction text with
  | nil => rfl
  | cons c rest ih =>
      rw [List.map_cons, targetOf_cons, ih]
      rfl

-- Nothing was put in: the two texts are one.
theorem targetOf_eq_sourceOf (segments : List (Segment α)) (h : ∀ segment ∈ segments, segment.isSwap = false) :
    targetOf segments = sourceOf segments := by
  induction segments with
  | nil => rfl
  | cons segment rest ih =>
      rw [targetOf_cons, sourceOf_cons, ih fun other ho => h other (List.mem_cons_of_mem _ ho)]
      have hkeep := h segment List.mem_cons_self
      cases segment with
      | keep c => rfl
      | swap source target => cases hkeep

-- Up to the first stretch that was put in.
theorem first_swap (segments : List (Segment α)) :
    (∀ segment ∈ segments, segment.isSwap = false) ∨
      ∃ before source target after, segments = before ++ .swap source target :: after ∧
        ∀ segment ∈ before, segment.isSwap = false := by
  induction segments with
  | nil => exact .inl fun _ h => absurd h List.not_mem_nil
  | cons segment rest ih =>
      cases segment with
      | swap source target => exact .inr ⟨[], source, target, rest, rfl, fun _ h => absurd h List.not_mem_nil⟩
      | keep c =>
          rcases ih with hall | ⟨before, source, target, after, rfl, hbefore⟩
          · refine .inl fun other ho => ?_
            rcases List.mem_cons.mp ho with rfl | ho
            · rfl
            · exact hall other ho
          · refine .inr ⟨.keep c :: before, source, target, after, rfl, fun other ho => ?_⟩
            rcases List.mem_cons.mp ho with rfl | ho
            · rfl
            · exact hbefore other ho

end Segments

section Edits

-- Stretches of a text to be put something else for.
structure Edit (α : Type) where
  start : ℕ
  stop : ℕ
  target : List α

def splice (input : List α) : ℕ → List (Edit α) → List α
  | cursor, [] => input.drop cursor
  | cursor, edit :: rest =>
      (input.drop cursor).take (edit.start - cursor) ++ edit.target ++ splice input edit.stop rest

-- One after the other, none of them empty.
def Ordered (limit : ℕ) : ℕ → List (Edit α) → Prop
  | _, [] => True
  | cursor, edit :: rest =>
      cursor ≤ edit.start ∧ edit.start < edit.stop ∧ edit.stop ≤ limit ∧ Ordered limit edit.stop rest

-- An edit leaves alone what was put in before.
def Avoids (offset : ℕ) (segments : List (Segment α)) (edit : Edit α) : Prop :=
  ∀ before source target after, segments = before ++ .swap source target :: after →
    edit.stop ≤ offset + (targetOf before).length ∨
      offset + (targetOf before).length + target.length ≤ edit.start

theorem Avoids.of_append (offset : ℕ) (xs ys : List (Segment α)) (edit : Edit α) (h : Avoids offset (xs ++ ys) edit) :
    Avoids (offset + (targetOf xs).length) ys edit := by
  intro before source target after hys
  have hat := h (xs ++ before) source target after (by rw [hys, List.append_assoc])
  rw [targetOf_append, List.length_append] at hat
  omega

-- A place that is in no stretch that was put in parts the segments.
theorem exists_split (segments : List (Segment α)) (size : ℕ) (hsize : size ≤ (targetOf segments).length)
    (h : ∀ before source target after, segments = before ++ .swap source target :: after →
      size ≤ (targetOf before).length ∨ (targetOf before).length + target.length ≤ size) :
    ∃ xs ys, segments = xs ++ ys ∧ (targetOf xs).length = size := by
  induction segments generalizing size with
  | nil =>
      refine ⟨[], [], rfl, ?_⟩
      simp at hsize ⊢
      omega
  | cons segment rest ih =>
      by_cases hzero : size = 0
      · exact ⟨[], segment :: rest, rfl, hzero.symm⟩
      · have hle : segment.target.length ≤ size := by
          cases segment with
          | keep c => exact Nat.one_le_iff_ne_zero.mpr hzero
          | swap source target =>
              have hat := h [] source target rest rfl
              rw [targetOf_nil, List.length_nil] at hat
              change target.length ≤ size
              omega
        rw [targetOf_cons, List.length_append] at hsize
        obtain ⟨xs, ys, rfl, hxs⟩ := ih (size - segment.target.length) (by omega)
          (fun before source target after hrest => by
            have hat := h (segment :: before) source target after (by rw [hrest]; rfl)
            rw [targetOf_cons, List.length_append] at hat
            omega)
        refine ⟨segment :: xs, ys, rfl, ?_⟩
        rw [targetOf_cons, List.length_append, hxs]
        omega

-- The segments that an edit replaces were kept as they were.
theorem Avoids.split (offset : ℕ) (segments : List (Segment α)) (edit : Edit α) (h : Avoids offset segments edit)
    (hne : ∀ source target, .swap source target ∈ segments → target ≠ []) (hstart : offset ≤ edit.start)
    (hlt : edit.start < edit.stop) (hstop : edit.stop ≤ offset + (targetOf segments).length) :
    ∃ xs ys zs, segments = xs ++ (ys ++ zs) ∧ offset + (targetOf xs).length = edit.start ∧
      (targetOf ys).length = edit.stop - edit.start ∧ ∀ segment ∈ ys, segment.isSwap = false := by
  obtain ⟨xs, rest, rfl, hxs⟩ := exists_split segments (edit.start - offset) (by omega)
    fun before source target after hs => by
      have hat := h before source target after hs
      omega
  obtain ⟨ys, zs, rfl, hys⟩ := exists_split rest (edit.stop - edit.start)
    (by rw [targetOf_append, List.length_append] at hstop; omega)
    fun before source target after hs => by
      have hat := h (xs ++ before) source target after (by rw [hs, List.append_assoc])
      rw [targetOf_append, List.length_append] at hat
      omega
  refine ⟨xs, ys, zs, rfl, by omega, hys, fun segment hs => ?_⟩
  cases segment with
  | keep c => rfl
  | swap source target =>
      have hpos : 0 < target.length :=
        List.length_pos_iff.mpr (hne source target (List.mem_append_right _ (List.mem_append_left _ hs)))
      obtain ⟨before, after, rfl⟩ := List.append_of_mem hs
      have hat := h (xs ++ before) source target (after ++ zs) (by simp)
      simp only [targetOf_append, targetOf_cons, List.length_append, Segment.target] at hat hys
      omega

-- Edits of the text that was made are more stretches put in, of what stands there in the text it was made of.
theorem splice_segments (edits : List (Edit α)) (input : List α) (cursor : ℕ) (segments : List (Segment α))
    (hinput : input.drop cursor = targetOf segments) (hcursor : cursor ≤ input.length)
    (hne : ∀ source target, .swap source target ∈ segments → target ≠ [])
    (hordered : Ordered input.length cursor edits) (havoids : ∀ edit ∈ edits, Avoids cursor segments edit) :
    ∃ segments', sourceOf segments' = sourceOf segments ∧ targetOf segments' = splice input cursor edits ∧
      ∀ source target, .swap source target ∈ segments' → .swap source target ∈ segments ∨
        ∃ edit ∈ edits, target = edit.target ∧ source = (input.drop edit.start).take (edit.stop - edit.start) := by
  induction edits generalizing cursor segments with
  | nil => exact ⟨segments, rfl, hinput.symm, fun _ _ h => .inl h⟩
  | cons edit rest ih =>
      obtain ⟨hstart, hlt, hstop, hrest⟩ := hordered
      have hlength : cursor + (targetOf segments).length = input.length := by
        rw [← hinput, List.length_drop]
        omega
      obtain ⟨xs, ys, zs, rfl, hxs, hys, hkept⟩ := (havoids edit List.mem_cons_self).split cursor segments edit hne hstart
        hlt (by omega)
      have hsame := targetOf_eq_sourceOf ys hkept
      have hdrop : input.drop edit.start = targetOf ys ++ targetOf zs := by
        rw [← hxs, ← List.drop_drop, hinput, targetOf_append, List.drop_left, targetOf_append]
      have hslice : (input.drop edit.start).take (edit.stop - edit.start) = sourceOf ys := by
        rw [hdrop, ← hys, List.take_left, hsame]
      have hnext : input.drop edit.stop = targetOf zs := by
        have hadd : edit.stop = edit.start + (targetOf ys).length := by omega
        rw [hadd, ← List.drop_drop, hdrop, List.drop_left]
      have hprefix : (input.drop cursor).take (edit.start - cursor) = targetOf xs := by
        have hsub : edit.start - cursor = (targetOf xs).length := by omega
        rw [hinput, hsub, targetOf_append, List.take_left]
      have hzs : ∀ other ∈ rest, Avoids edit.stop zs other := by
        intro other ho
        have hall := havoids other (List.mem_cons_of_mem _ ho)
        rw [← List.append_assoc] at hall
        have hafter := Avoids.of_append cursor (xs ++ ys) zs other hall
        rw [targetOf_append, List.length_append] at hafter
        have hadd : edit.stop = cursor + ((targetOf xs).length + (targetOf ys).length) := by omega
        rw [hadd]
        exact hafter
      obtain ⟨zs', hsource, htarget, hswaps⟩ := ih edit.stop zs hnext (by omega)
        (fun source target hm => hne source target (by simp [hm])) hrest hzs
      refine ⟨xs ++ .swap (sourceOf ys) edit.target :: zs', ?_, ?_, fun source target hm => ?_⟩
      · rw [sourceOf_append, sourceOf_cons, sourceOf_append, sourceOf_append, hsource]
        rfl
      · rw [targetOf_append, targetOf_cons, htarget, splice, hprefix, List.append_assoc]
        rfl
      · rcases List.mem_append.mp hm with hm | hm
        · exact .inl (by simp [hm])
        · rcases List.mem_cons.mp hm with he | hm
          · cases he
            exact .inr ⟨edit, List.mem_cons_self, rfl, hslice.symm⟩
          · rcases hswaps source target hm with hm | ⟨other, ho, hboth⟩
            · exact .inl (by simp [hm])
            · exact .inr ⟨other, List.mem_cons_of_mem _ ho, hboth⟩

end Edits

end Splices
