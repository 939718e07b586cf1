import AgenticOrg.Lib.Splice

namespace Splices

variable {α : Type}

section Alternatives

variable [DecidableEq α]

-- The first of the alternatives that stands at the start of a text.
def firstAt (tokens : List (List α)) (input : List α) : Option (List α) :=
  tokens.find? fun token => token.isPrefixOf input

-- A text as one pass over it reads it.
inductive Part (α : Type) where
  | char (c : α)
  | token (found : List α)
  deriving DecidableEq

-- From left to right, skipping what has been read; no alternative is empty.
def parts (tokens : List (List α)) : ℕ → List α → List (Part α)
  | _, [] => []
  | skip + 1, _ :: rest => parts tokens skip rest
  | 0, c :: rest =>
      match firstAt tokens (c :: rest) with
      | some found => .token found :: parts tokens (found.length - 1) rest
      | none => .char c :: parts tokens 0 rest

def Part.replaced (replace : List α → List α) : Part α → List α
  | .char c => [c]
  | .token found => replace found

def substitute (tokens : List (List α)) (replace : List α → List α) (input : List α) : List α :=
  (parts tokens 0 input).flatMap (Part.replaced replace)

def Segment.part : Segment α → Part α
  | .keep c => .char c
  | .swap _ target => .token target

-- No alternative stands where a character was kept, and where something was put in that is the first that does.
def Clear (tokens : List (List α)) : List (Segment α) → Prop
  | [] => True
  | .keep c :: rest => firstAt tokens (c :: targetOf rest) = none ∧ Clear tokens rest
  | .swap _ target :: rest => firstAt tokens (target ++ targetOf rest) = some target ∧ Clear tokens rest

theorem parts_skip (tokens : List (List α)) (x y : List α) : parts tokens x.length (x ++ y) = parts tokens 0 y := by
  induction x with
  | nil => rfl
  | cons c rest ih =>
      rw [List.length_cons, List.cons_append, parts]
      exact ih

theorem parts_cons (tokens : List (List α)) (c : α) (rest : List α) :
    parts tokens 0 (c :: rest) = match firstAt tokens (c :: rest) with
      | some found => .token found :: parts tokens (found.length - 1) rest
      | none => .char c :: parts tokens 0 rest := rfl

-- What a pass finds is what was put in, and nothing else.
theorem parts_eq_iff (tokens : List (List α)) (segments : List (Segment α))
    (hne : ∀ source target, .swap source target ∈ segments → target ≠ []) :
    parts tokens 0 (targetOf segments) = segments.map Segment.part ↔ Clear tokens segments := by
  induction segments with
  | nil => exact ⟨fun _ => trivial, fun _ => rfl⟩
  | cons segment rest ih =>
      have hrest := ih fun source target h => hne source target (List.mem_cons_of_mem _ h)
      cases segment with
      | keep c =>
          show parts tokens 0 (c :: targetOf rest) = .char c :: rest.map Segment.part ↔ _ ∧ _
          rw [parts_cons, ← hrest]
          cases hfirst : firstAt tokens (c :: targetOf rest) with
          | none => simp
          | some found => simp
      | swap source target =>
          obtain ⟨c, body, rfl⟩ := List.exists_cons_of_ne_nil (hne source target List.mem_cons_self)
          show parts tokens 0 (c :: (body ++ targetOf rest)) = .token (c :: body) :: rest.map Segment.part ↔ _ ∧ _
          rw [parts_cons, ← hrest, List.cons_append]
          cases hfirst : firstAt tokens (c :: (body ++ targetOf rest)) with
          | none => simp
          | some found =>
              simp only [List.cons.injEq, Part.token.injEq, Option.some.injEq]
              refine and_congr_right fun hfound => ?_
              rw [hfound, List.length_cons, Nat.add_sub_cancel, parts_skip]

-- Then each one goes back to what it was put in for.
theorem substitute_eq (tokens : List (List α)) (replace : List α → List α) (segments : List (Segment α))
    (hparts : parts tokens 0 (targetOf segments) = segments.map Segment.part)
    (hreplace : ∀ source target, .swap source target ∈ segments → replace target = source) :
    substitute tokens replace (targetOf segments) = sourceOf segments := by
  rw [substitute, hparts, sourceOf, List.flatMap_map]
  refine List.flatMap_congr fun segment hm => ?_
  cases segment with
  | keep c => rfl
  | swap source target => exact hreplace source target hm

theorem firstAt_none (tokens : List (List α)) (input : List α) :
    firstAt tokens input = none ↔ ∀ token ∈ tokens, ¬token <+: input := by
  simp only [firstAt, List.find?_eq_none, List.isPrefixOf_iff_prefix]

theorem firstAt_prefix (tokens : List (List α)) (input found : List α) (h : firstAt tokens input = some found) :
    found <+: input := by
  have hp := List.find?_some h
  exact List.isPrefixOf_iff_prefix.mp hp

theorem Clear.append (tokens : List (List α)) (xs ys : List (Segment α)) (h : Clear tokens (xs ++ ys)) :
    Clear tokens ys := by
  induction xs with
  | nil => exact h
  | cons segment rest ih =>
      cases segment with
      | keep c => exact ih h.2
      | swap source target => exact ih h.2

end Alternatives

section Brackets

variable (opening closing : α)

-- Its brackets stand at its two ends only.
def Bracketed (token : List α) : Prop :=
  ∃ body, token = opening :: (body ++ [closing]) ∧ opening ∉ body ∧ closing ∉ body

theorem closed_eq (x y rest rest' : List α) (hx : closing ∉ x) (hy : closing ∉ y)
    (h : x ++ closing :: rest = y ++ closing :: rest') : x = y := by
  rcases List.append_eq_append_iff.mp h with ⟨more, rfl, hmore⟩ | ⟨more, rfl, hmore⟩
  · cases more with
    | nil => exact (List.append_nil x).symm
    | cons c more =>
        obtain ⟨rfl, _⟩ := List.cons.inj hmore
        exact absurd (List.mem_append_right x List.mem_cons_self) hy
  · cases more with
    | nil => exact List.append_nil y
    | cons c more =>
        obtain ⟨rfl, _⟩ := List.cons.inj hmore
        exact absurd (List.mem_append_right y List.mem_cons_self) hx

theorem Bracketed.eq_of_start (token other input : List α) (ht : Bracketed opening closing token)
    (ho : Bracketed opening closing other) (h : token <+: input) (h' : other <+: input) : token = other := by
  obtain ⟨body, rfl, _, hbody⟩ := ht
  obtain ⟨body', rfl, _, hbody'⟩ := ho
  obtain ⟨rest, rfl⟩ := h
  obtain ⟨rest', hrest⟩ := h'
  simp only [List.cons_append, List.append_assoc, List.nil_append, List.cons.injEq, true_and] at hrest
  rw [closed_eq closing body' body rest' rest hbody' hbody hrest]

-- A stretch without an opening bracket that stands where a character was kept was kept as a whole.
theorem kept_of_prefix (word : List α) (segments : List (Segment α))
    (hopen : ∀ source target, .swap source target ∈ segments → Bracketed opening closing target)
    (hword : opening ∉ word) (h : word <+: targetOf segments) : word.map .keep <+: segments := by
  induction word generalizing segments with
  | nil => exact List.nil_prefix
  | cons d rest ih =>
      cases segments with
      | nil => exact absurd (List.prefix_nil.mp h) (List.cons_ne_nil _ _)
      | cons segment others =>
          cases segment with
          | keep c =>
              obtain ⟨rfl, hprefix⟩ := List.cons_prefix_cons.mp h
              exact List.cons_prefix_cons.mpr ⟨rfl, ih others (fun source target hm =>
                hopen source target (List.mem_cons_of_mem _ hm)) (fun hm => hword (List.mem_cons_of_mem _ hm)) hprefix⟩
          | swap source target =>
              obtain ⟨body, rfl, _, _⟩ := hopen source target List.mem_cons_self
              obtain ⟨rfl, _⟩ := List.cons_prefix_cons.mp h
              exact absurd List.mem_cons_self hword

-- With brackets at their ends, the alternatives are found where they were put if none was there before.
theorem clear_iff [DecidableEq α] (hne : opening ≠ closing) (tokens : List (List α)) (segments : List (Segment α))
    (htokens : ∀ token ∈ tokens, Bracketed opening closing token)
    (hswaps : ∀ source target, .swap source target ∈ segments → target ∈ tokens) :
    Clear tokens segments ↔ ∀ token ∈ tokens, ¬token.map .keep <:+: segments := by
  constructor
  · intro hclear token ht hwithin
    obtain ⟨body, htoken, _, _⟩ := htokens token ht
    obtain ⟨before, after, rfl⟩ := hwithin
    rw [List.append_assoc] at hclear
    have hhere := hclear.append
    rw [htoken, List.map_cons, List.cons_append] at hhere
    refine (firstAt_none _ _).mp hhere.1 token ht ⟨targetOf after, ?_⟩
    rw [htoken, targetOf_append, targetOf_keep]
    rfl
  · intro hnone
    induction segments with
    | nil => trivial
    | cons segment rest ih =>
        have hrest := ih (fun source target h => hswaps source target (List.mem_cons_of_mem _ h))
          fun token ht hwithin => hnone token ht (hwithin.trans (List.suffix_cons _ _).isInfix)
        cases segment with
        | keep c =>
            refine ⟨(firstAt_none _ _).mpr fun token ht hprefix => hnone token ht (List.IsPrefix.isInfix ?_), hrest⟩
            obtain ⟨body, rfl, hopen, _⟩ := htokens token ht
            obtain ⟨rfl, htail⟩ := List.cons_prefix_cons.mp hprefix
            refine List.cons_prefix_cons.mpr ⟨rfl, kept_of_prefix opening closing _ rest (fun source target h =>
              htokens target (hswaps source target (List.mem_cons_of_mem _ h))) ?_ htail⟩
            intro hm
            rcases List.mem_append.mp hm with hm | hm
            · exact hopen hm
            · exact hne (List.mem_singleton.mp hm)
        | swap source target =>
            have htarget := hswaps source target List.mem_cons_self
            refine ⟨?_, hrest⟩
            cases hfirst : firstAt tokens (target ++ targetOf rest) with
            | none => exact absurd (List.prefix_append _ _) ((firstAt_none _ _).mp hfirst target htarget)
            | some found =>
                have hfound := firstAt_prefix tokens _ found hfirst
                rw [(htokens found (List.mem_of_find?_eq_some hfirst)).eq_of_start opening closing found target _
                  (htokens target htarget) hfound (List.prefix_append _ _)]

end Brackets

end Splices
