import AgenticOrg.Lib.Json.Canonical

-- A text tells a value up to the numbers that are written the same.
namespace JsonText

section Numbers

-- A number with a fraction, as it is written.
structure WrittenNumber where
  written : Text
  starts : written.head?.any isNumberStart = true
  open_ : written.all (fun c => !isClosing c) = true
  marked : written.all isIntChar = false

def writtenFloat : FloatText WrittenNumber where
  write := WrittenNumber.written
  starts := WrittenNumber.starts
  open_ := WrittenNumber.open_
  marked := WrittenNumber.marked

theorem writtenFloat_apart (a b : List WrittenNumber) : Apart writtenFloat a b := by
  rintro ⟨x, _, _, _⟩ _ ⟨y, _, _, _⟩ _ h
  obtain rfl : x = y := h
  rfl

end Numbers

section Values

variable {δ : Type} (float : FloatText δ)

def FloatText.number (d : δ) : WrittenNumber := ⟨float.write d, float.starts d, float.open_ d, float.marked d⟩

mutual

def Value.written : Value δ → Value WrittenNumber
  | .null => .null
  | .bool value => .bool value
  | .int n => .int n
  | .decimal d => .decimal (float.number d)
  | .str s => .str s
  | .arr items => .arr (writtenItems items)
  | .obj members => .obj (writtenMembers members)

def writtenItems : List (Value δ) → List (Value WrittenNumber)
  | [] => []
  | item :: rest => item.written :: writtenItems rest

def writtenMembers : List (String × Value δ) → List (String × Value WrittenNumber)
  | [] => []
  | (key, value) :: rest => (key, value.written) :: writtenMembers rest

end

mutual

theorem dumps_written : ∀ v : Value δ, dumps writtenFloat (v.written float) = dumps float v
  | .null => rfl
  | .bool true => rfl
  | .bool false => rfl
  | .int _ => rfl
  | .decimal _ => rfl
  | .str _ => rfl
  | .arr [] => rfl
  | .arr (item :: rest) => by
      rw [Value.written, writtenItems, dumps, dumps, dumps_written item, dumpsItems_written rest]
  | .obj [] => rfl
  | .obj ((key, value) :: rest) => by
      rw [Value.written, writtenMembers, dumps, dumps, dumps_written value, dumpsMembers_written rest]

theorem dumpsItems_written : ∀ items : List (Value δ), dumpsItems writtenFloat (writtenItems float items) = dumpsItems float items
  | [] => rfl
  | item :: rest => by
      rw [writtenItems, dumpsItems, dumpsItems, dumps_written item, dumpsItems_written rest]

theorem dumpsMembers_written : ∀ members : List (String × Value δ),
    dumpsMembers writtenFloat (writtenMembers float members) = dumpsMembers float members
  | [] => rfl
  | (key, value) :: rest => by
      rw [writtenMembers, dumpsMembers, dumpsMembers, dumps_written value, dumpsMembers_written rest]

end

-- An object ends where it ends, whatever follows.
theorem obj_written_inj (members others : List (String × Value δ)) (x y : Text)
    (h : dumps float (.obj members) ++ x = dumps float (.obj others) ++ y) :
    writtenMembers float members = writtenMembers float others ∧ x = y := by
  rw [← dumps_written float (.obj members), ← dumps_written float (.obj others)] at h
  exact obj_append_inj writtenFloat _ _ x y (writtenFloat_apart _ _) h

end Values

end JsonText
