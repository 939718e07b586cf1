import AgenticOrg.Lib.Dict
import Mathlib.Algebra.Order.Ring.Rat

namespace Memos

open OrderedDict

-- Values by key, each with the time it was remembered at.
abbrev Memo (κ ρ : Type) [BEq κ] := Dict κ (ℚ × ρ)

-- A function behind a memo: what a call is filed under and when it is made, the calls that go past the memo,
-- what is computed for a call, and what a call is told of a computed value.
structure Memoised (ι κ ρ α : Type) where
  life : ℚ
  room : ℕ
  key : ι → κ
  time : ι → ℚ
  aside : ι → Option α
  compute : ι → ρ
  tell : ρ → ι → α

section Operations

variable {ι κ ρ α : Type} [BEq κ]

def recalled (life : ℚ) (memo : Memo κ ρ) (now : ℚ) (key : κ) : Option ρ :=
  (memo.get? key).bind fun entry => if now - entry.1 < life then some entry.2 else none

-- A full memo is emptied first.
def remember (room : ℕ) (memo : Memo κ ρ) (now : ℚ) (key : κ) (value : ρ) : Memo κ ρ :=
  (if room ≤ memo.size then .empty else memo).insert key (now, value)

def Memoised.serve (m : Memoised ι κ ρ α) (memo : Memo κ ρ) (call : ι) : α × Memo κ ρ :=
  match m.aside call with
  | some told => (told, memo)
  | none =>
      match recalled m.life memo (m.time call) (m.key call) with
      | some value => (m.tell value call, memo)
      | none =>
          (m.tell (m.compute call) call, remember m.room memo (m.time call) (m.key call) (m.compute call))

def Memoised.serveAll (m : Memoised ι κ ρ α) (memo : Memo κ ρ) : List ι → List α
  | [] => []
  | call :: rest => (m.serve memo call).1 :: m.serveAll (m.serve memo call).2 rest

-- Who is told a value that was computed for another call, behind that call.
-- The memo holds calls in place of their values: neither computes anything here.
def Memoised.reuses (m : Memoised ι κ ρ α) (fills : Memo κ ι) : List ι → List (ι × ι)
  | [] => []
  | call :: rest =>
      match m.aside call with
      | some _ => m.reuses fills rest
      | none =>
          match recalled m.life fills (m.time call) (m.key call) with
          | some first => (first, call) :: m.reuses fills rest
          | none => m.reuses (remember m.room fills (m.time call) (m.key call) call) rest

def computed (compute : ι → ρ) (fills : Memo κ ι) : Memo κ ρ :=
  fills.mapValues fun entry => (entry.1, compute entry.2)

end Operations

section Lemmas

variable {ι κ ρ α : Type} [BEq κ]

theorem recalled_empty (life : ℚ) (now : ℚ) (key : κ) : recalled life (.empty : Memo κ ρ) now key = none := rfl

theorem recalled_computed (compute : ι → ρ) (life : ℚ) (fills : Memo κ ι) (now : ℚ) (key : κ) :
    recalled life (computed compute fills) now key = (recalled life fills now key).map compute := by
  unfold recalled computed
  rw [Dict.get?_mapValues]
  cases fills.get? key with
  | none => rfl
  | some entry =>
      rw [Option.map_some, Option.bind_some, Option.bind_some]
      by_cases hage : now - entry.1 < life
      · rw [if_pos hage, if_pos hage, Option.map_some]
      · rw [if_neg hage, if_neg hage, Option.map_none]

theorem remember_computed (compute : ι → ρ) (room : ℕ) (fills : Memo κ ι) (now : ℚ) (key : κ) (call : ι) :
    remember room (computed compute fills) now key (compute call) =
      computed compute (remember room fills now key call) := by
  unfold remember computed
  rw [Dict.size_mapValues, Dict.mapValues_insert]
  by_cases hfull : room ≤ fills.size
  · rw [if_pos hfull, if_pos hfull, Dict.mapValues_empty]
  · rw [if_neg hfull, if_neg hfull]

variable (m : Memoised ι κ ρ α)

theorem serve_aside (memo : Memo κ ρ) (call : ι) (told : α) (ha : m.aside call = some told) :
    m.serve memo call = (told, memo) := by
  simp only [Memoised.serve, ha]

theorem serve_reused (fills : Memo κ ι) (call first : ι) (ha : m.aside call = none)
    (hr : recalled m.life fills (m.time call) (m.key call) = some first) :
    m.serve (computed m.compute fills) call =
      (m.tell (m.compute first) call, computed m.compute fills) := by
  simp only [Memoised.serve, ha, recalled_computed, hr, Option.map_some]

theorem serve_computed (fills : Memo κ ι) (call : ι) (ha : m.aside call = none)
    (hr : recalled m.life fills (m.time call) (m.key call) = none) :
    m.serve (computed m.compute fills) call =
      (m.tell (m.compute call) call,
        computed m.compute (remember m.room fills (m.time call) (m.key call) call)) := by
  simp only [Memoised.serve, ha, recalled_computed, hr, Option.map_none, remember_computed]

theorem serve_alone (call : ι) (ha : m.aside call = none) :
    (m.serve .empty call).1 = m.tell (m.compute call) call := by
  simp only [Memoised.serve, ha, recalled_empty]

-- A call is told what it would be told alone, unless it is told another's value.
theorem serveAll_eq_iff (fills : Memo κ ι) (calls : List ι) :
    m.serveAll (computed m.compute fills) calls = calls.map (fun call => (m.serve .empty call).1) ↔
      ∀ reuse ∈ m.reuses fills calls,
        m.tell (m.compute reuse.1) reuse.2 = m.tell (m.compute reuse.2) reuse.2 := by
  induction calls generalizing fills with
  | nil => simp [Memoised.serveAll, Memoised.reuses]
  | cons call rest ih =>
      rw [Memoised.serveAll, Memoised.reuses, List.map_cons, List.cons.injEq]
      cases haside : m.aside call with
      | some told =>
          rw [serve_aside m _ call told haside, serve_aside m _ call told haside, ih]
          exact and_iff_right rfl
      | none =>
          rw [serve_alone m call haside]
          cases hhit : recalled m.life fills (m.time call) (m.key call) with
          | some first =>
              rw [serve_reused m fills call first haside hhit, ih, List.forall_mem_cons]
          | none =>
              rw [serve_computed m fills call haside hhit, ih]
              exact and_iff_right rfl

def Filed (key : ι → κ) (fills : Memo κ ι) : Prop :=
  ∀ k entry, fills.get? k = some entry → key entry.2 = k

theorem filed_empty (key : ι → κ) : Filed key (.empty : Memo κ ι) := by
  intro k entry h
  cases h

variable [LawfulBEq κ]

theorem filed_remember (key : ι → κ) (room : ℕ) (fills : Memo κ ι) (now : ℚ) (call : ι)
    (hf : Filed key fills) : Filed key (remember room fills now (key call) call) := by
  intro k entry h
  rw [remember, Dict.get?_insert] at h
  split at h
  · rename_i hk
    rw [← Option.some.inj h]
    exact eq_of_beq hk
  · split at h
    · cases h
    · exact hf k entry h

-- A value is told under the key that it was computed under.
theorem key_of_mem_reuses (fills : Memo κ ι) (calls : List ι) (hf : Filed m.key fills) :
    ∀ reuse ∈ m.reuses fills calls, m.key reuse.1 = m.key reuse.2 := by
  induction calls generalizing fills with
  | nil => exact fun _ h => absurd h List.not_mem_nil
  | cons call rest ih =>
      rw [Memoised.reuses]
      cases haside : m.aside call with
      | some told => exact ih fills hf
      | none =>
          cases hhit : recalled m.life fills (m.time call) (m.key call) with
          | none => exact ih _ (filed_remember m.key m.room fills _ call hf)
          | some first =>
              intro reuse hr
              rcases List.mem_cons.mp hr with rfl | hr
              · obtain ⟨entry, he, hage⟩ := Option.bind_eq_some_iff.mp hhit
                split at hage
                · rw [← Option.some.inj hage]
                  exact hf _ entry he
                · cases hage
              · exact ih fills hf reuse hr

end Lemmas

end Memos
