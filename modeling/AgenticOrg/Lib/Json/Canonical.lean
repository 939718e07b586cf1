import Mathlib.Data.List.Basic
import AgenticOrg.Lib.Json.Theorems

-- Values written by `json.dumps` with sorted keys and no spaces, and how they are told apart again.
namespace JsonText

section Writing

variable {δ : Type}

-- A JSON value of a database column; the members of an object stand by their keys. A number without
-- a fraction is an integer, the others are left to `δ`.
inductive Value (δ : Type) where
  | null
  | bool (value : Bool)
  | int (value : ℤ)
  | decimal (value : δ)
  | str (value : String)
  | arr (items : List (Value δ))
  | obj (members : List (String × Value δ))

def intText : ℤ → Text
  | .ofNat n => (Nat.toDigits 10 n).map code
  | .negSucc n => code '-' :: (Nat.toDigits 10 (n + 1)).map code

def isIntChar (c : CodePoint) : Bool := isDigit c || c = code '-'

-- What stands at the start of a number: a digit, a sign or the I of an infinity.
def isNumberStart (c : CodePoint) : Bool := isIntChar c || c = code 'I'

def isClosing (c : CodePoint) : Bool := c = code ',' || c = code ']' || c = code '}'

-- How a number with a fraction is written once it is read as a float.
structure FloatText (δ : Type) where
  write : δ → Text
  starts : ∀ d, (write d).head?.any isNumberStart = true
  open_ : ∀ d, (write d).all (fun c => !isClosing c) = true
  marked : ∀ d, (write d).all isIntChar = false

variable (float : FloatText δ)

mutual

def dumps : Value δ → Text
  | .null => text "null"
  | .bool true => text "true"
  | .bool false => text "false"
  | .int n => intText n
  | .decimal d => float.write d
  | .str s => quote (text s)
  | .arr [] => [code '[', code ']']
  | .arr (item :: rest) => code '[' :: (dumps item ++ dumpsItems rest)
  | .obj [] => [code '{', code '}']
  | .obj ((key, value) :: rest) => code '{' :: (quote (text key) ++ code ':' :: (dumps value ++ dumpsMembers rest))

-- The items after the first one.
def dumpsItems : List (Value δ) → Text
  | [] => [code ']']
  | item :: rest => code ',' :: (dumps item ++ dumpsItems rest)

def dumpsMembers : List (String × Value δ) → Text
  | [] => [code '}']
  | (key, value) :: rest => code ',' :: (quote (text key) ++ code ':' :: (dumps value ++ dumpsMembers rest))

end

mutual

def Value.decimals : Value δ → List δ
  | .decimal d => [d]
  | .arr items => itemDecimals items
  | .obj members => memberDecimals members
  | _ => []

def itemDecimals : List (Value δ) → List δ
  | [] => []
  | item :: rest => item.decimals ++ itemDecimals rest

def memberDecimals : List (String × Value δ) → List δ
  | [] => []
  | (_, value) :: rest => value.decimals ++ memberDecimals rest

end

end Writing

section Characters

theorem code_injective : Function.Injective code := by
  intro a b h
  exact Char.toNat_inj.mp (Fin.mk.inj_iff.mp h)

theorem text_injective : Function.Injective text := by
  intro a b h
  exact String.toList_inj.mp (List.map_injective_iff.mpr code_injective h)

theorem code_not_high (c : Char) : isHighSurrogate (code c).val = false := by
  rw [Bool.eq_false_iff]
  intro h
  rw [isHighSurrogate_iff] at h
  have hcode : (code c).val = c.toNat := rfl
  rcases c.valid with hlow | hhigh
  · have : c.toNat < 0xD800 := hlow
    omega
  · have : 0xDFFF < c.toNat := hhigh.1
    omega

-- No character of a string is a surrogate.
theorem unjoined_text (s : String) : Unjoined (text s) := by
  refine List.Pairwise.isChain (List.pairwise_of_forall_mem_list fun a ha b _ hboth => ?_)
  obtain ⟨c, _, rfl⟩ := List.mem_map.mp ha
  rw [code_not_high] at hboth
  exact Bool.false_ne_true hboth.1

theorem quote_append_inj (s t : String) (x y : Text) (h : quote (text s) ++ x = quote (text t) ++ y) :
    s = t ∧ x = y := by
  have hscan := congrArg scanString h
  rw [scanString_quote _ _ (unjoined_text s), scanString_quote _ _ (unjoined_text t), Option.some.injEq,
    Prod.mk.injEq] at hscan
  exact ⟨text_injective hscan.1, hscan.2⟩

end Characters

section Numbers

theorem isClosing_iff (c : CodePoint) : isClosing c = true ↔ c = code ',' ∨ c = code ']' ∨ c = code '}' := by
  simp [isClosing, or_assoc]

-- A text without closing marks ends where the first of them stands.
theorem append_inj_of_open (a b x y : Text) (ha : a.all (fun c => !isClosing c) = true)
    (hb : b.all (fun c => !isClosing c) = true) (hx : Ends x) (hy : Ends y) (h : a ++ x = b ++ y) :
    a = b ∧ x = y := by
  have htake : ∀ (z rest : Text), z.all (fun c => !isClosing c) = true → Ends rest →
      (z ++ rest).takeWhile (fun c => !isClosing c) = z := by
    intro z rest hz hrest
    rw [List.takeWhile_append_of_pos fun c hc => List.all_eq_true.mp hz c hc]
    cases rest with
    | nil => exact List.append_nil z
    | cons c tail =>
        have hc := (isClosing_iff c).mpr (hrest c rfl)
        rw [List.takeWhile_cons_of_neg (by rw [hc]; decide), List.append_nil]
  have hab : a = b := by
    have heq := congrArg (List.takeWhile fun c => !isClosing c) h
    rwa [htake a x ha hx, htake b y hb hy] at heq
  subst hab
  exact ⟨rfl, List.append_cancel_left h⟩

theorem isDigit_code (c : Char) (h : c.isDigit = true) : isDigit (code c) = true := by
  have hval : (code c).val = c.toNat := rfl
  simp only [Char.isDigit, Bool.and_eq_true, decide_eq_true_eq] at h
  have hlow : 48 ≤ c.toNat := h.1
  have hhigh : c.toNat ≤ 57 := h.2
  simp only [isDigit, hval, Bool.and_eq_true, decide_eq_true_eq]
  exact ⟨hlow, hhigh⟩

theorem all_isDigit_digits (n : ℕ) : ((Nat.toDigits 10 n).map code).all isDigit = true := by
  rw [List.all_eq_true]
  intro c hc
  obtain ⟨digit, hd, rfl⟩ := List.mem_map.mp hc
  exact isDigit_code digit (Nat.isDigit_of_mem_toDigits (by decide) (by decide) hd)

theorem digits_injective (m n : ℕ) (h : (Nat.toDigits 10 m).map code = (Nat.toDigits 10 n).map code) : m = n := by
  have hlist := List.map_injective_iff.mpr code_injective h
  have hread := congrArg (fun digits => Nat.ofDigitChars 10 digits 0) hlist
  simpa only [Nat.ofDigitChars_toDigits (show 1 < 10 by decide) (show 10 ≤ 10 by decide)] using hread

theorem head_digits (n : ℕ) : ∃ c rest, (Nat.toDigits 10 n).map code = c :: rest ∧ isDigit c = true := by
  have hne : (Nat.toDigits 10 n).map code ≠ [] := List.map_eq_nil_iff.not.mpr Nat.toDigits_ne_nil
  obtain ⟨c, rest, hlist⟩ := List.exists_cons_of_ne_nil hne
  have hall := all_isDigit_digits n
  rw [hlist, List.all_cons, Bool.and_eq_true] at hall
  exact ⟨c, rest, hlist, hall.1⟩

theorem intText_injective : Function.Injective intText := by
  intro a b h
  cases a with
  | ofNat m =>
      cases b with
      | ofNat n => exact congrArg _ (digits_injective m n h)
      | negSucc n =>
          obtain ⟨c, rest, hlist, hc⟩ := head_digits m
          change (Nat.toDigits 10 m).map code = code '-' :: _ at h
          rw [hlist] at h
          rw [(List.cons.inj h).1] at hc
          exact absurd hc (by decide)
  | negSucc m =>
      cases b with
      | ofNat n =>
          obtain ⟨c, rest, hlist, hc⟩ := head_digits n
          change code '-' :: _ = (Nat.toDigits 10 n).map code at h
          rw [hlist] at h
          rw [← (List.cons.inj h).1] at hc
          exact absurd hc (by decide)
      | negSucc n =>
          have hdigits := digits_injective _ _ (List.cons.inj h).2
          rw [Nat.succ.inj hdigits]

theorem all_isIntChar_intText (n : ℤ) : (intText n).all isIntChar = true := by
  have hdigits : ∀ m : ℕ, ((Nat.toDigits 10 m).map code).all isIntChar = true := by
    intro m
    rw [List.all_eq_true]
    intro c hc
    have hdigit := List.all_eq_true.mp (all_isDigit_digits m) c hc
    rw [isIntChar, hdigit, Bool.true_or]
  cases n with
  | ofNat m => exact hdigits m
  | negSucc m =>
      rw [intText, List.all_cons, hdigits, Bool.and_true]
      decide

theorem isClosing_of_isIntChar (c : CodePoint) (h : isIntChar c = true) : isClosing c = false := by
  rw [Bool.eq_false_iff]
  intro hc
  rcases (isClosing_iff c).mp hc with rfl | rfl | rfl
  · exact absurd h (by decide)
  · exact absurd h (by decide)
  · exact absurd h (by decide)

theorem intText_open (n : ℤ) : (intText n).all (fun c => !isClosing c) = true := by
  rw [List.all_eq_true]
  intro c hc
  rw [isClosing_of_isIntChar c (List.all_eq_true.mp (all_isIntChar_intText n) c hc)]
  rfl

theorem intText_starts (n : ℤ) : (intText n).head?.any isNumberStart = true := by
  have hall := all_isIntChar_intText n
  cases htext : intText n with
  | nil =>
      exfalso
      cases n with
      | ofNat m => exact List.map_eq_nil_iff.not.mpr Nat.toDigits_ne_nil htext
      | negSucc m => exact List.cons_ne_nil _ _ htext
  | cons c rest =>
      rw [htext, List.all_cons, Bool.and_eq_true] at hall
      simp [isNumberStart, hall.1]

end Numbers

section Telling

variable {δ : Type} (float : FloatText δ)

inductive Kind where
  | null
  | bool
  | str
  | arr
  | obj
  | number
  deriving DecidableEq

def Value.kind : Value δ → Kind
  | .null => .null
  | .bool _ => .bool
  | .str _ => .str
  | .arr _ => .arr
  | .obj _ => .obj
  | .int _ => .number
  | .decimal _ => .number

-- What the first character of a value says about it.
def kindOf (c : CodePoint) : Kind :=
  if c = code 'n' then .null
  else if c = code 't' ∨ c = code 'f' then .bool
  else if c = code '"' then .str
  else if c = code '[' then .arr
  else if c = code '{' then .obj
  else .number

-- No value begins as an array ends.
theorem kindOf_number (c : CodePoint) (h : isNumberStart c = true) : kindOf c = .number ∧ c ≠ code ']' := by
  have hne : ∀ d, isNumberStart d = false → c ≠ d := fun d hd hcd => by
    rw [hcd, hd] at h
    exact Bool.false_ne_true h
  have hbool : ¬(c = code 't' ∨ c = code 'f') := not_or.mpr ⟨hne _ (by decide), hne _ (by decide)⟩
  refine ⟨?_, hne _ (by decide)⟩
  rw [kindOf, if_neg (hne _ (by decide)), if_neg hbool, if_neg (hne _ (by decide)), if_neg (hne _ (by decide)),
    if_neg (hne _ (by decide))]

theorem kind_number (written : Text) (h : written.head?.any isNumberStart = true) :
    ∃ c rest, written = c :: rest ∧ kindOf c = .number ∧ c ≠ code ']' := by
  cases written with
  | nil => exact absurd h (by decide)
  | cons c rest => exact ⟨c, rest, rfl, kindOf_number c h⟩

theorem dumps_kind (v : Value δ) : ∃ c rest, dumps float v = c :: rest ∧ kindOf c = v.kind ∧ c ≠ code ']' := by
  have hkind : ∀ c kind, kindOf c = kind → kind ≠ .number → kindOf c = kind ∧ c ≠ code ']' := by
    intro c kind hc hne
    refine ⟨hc, ?_⟩
    rintro rfl
    exact hne (hc.symm.trans (by decide))
  cases v with
  | null => exact ⟨code 'n', text "ull", by rw [dumps]; decide, hkind _ .null (by decide) (by decide)⟩
  | bool b =>
      cases b with
      | true => exact ⟨code 't', text "rue", by rw [dumps]; decide, hkind _ .bool (by decide) (by decide)⟩
      | false => exact ⟨code 'f', text "alse", by rw [dumps]; decide, hkind _ .bool (by decide) (by decide)⟩
  | int n =>
      rw [dumps]
      exact kind_number _ (intText_starts n)
  | decimal d =>
      rw [dumps]
      exact kind_number _ (float.starts d)
  | str s => exact ⟨_, _, by rw [dumps]; rfl, hkind _ .str (by decide) (by decide)⟩
  | arr items =>
      cases items with
      | nil => exact ⟨_, _, by rw [dumps], hkind _ .arr (by decide) (by decide)⟩
      | cons item rest => exact ⟨_, _, by rw [dumps], hkind _ .arr (by decide) (by decide)⟩
  | obj members =>
      cases members with
      | nil => exact ⟨_, _, by rw [dumps], hkind _ .obj (by decide) (by decide)⟩
      | cons member rest => exact ⟨_, _, by rw [dumps], hkind _ .obj (by decide) (by decide)⟩

theorem kind_eq (v w : Value δ) (x y : Text) (h : dumps float v ++ x = dumps float w ++ y) : v.kind = w.kind := by
  obtain ⟨c, rest, hv, hc, _⟩ := dumps_kind float v
  obtain ⟨d, more, hw, hd, _⟩ := dumps_kind float w
  rw [hv, hw] at h
  rw [← hc, ← hd, (List.cons.inj h).1]

theorem dumps_not_close (v : Value δ) (x y : Text) : code ']' :: x ≠ dumps float v ++ y := by
  obtain ⟨c, rest, hv, _, hc⟩ := dumps_kind float v
  rw [hv]
  intro h
  exact hc (List.cons.inj h).1.symm

def Apart (a b : List δ) : Prop := ∀ d ∈ a, ∀ e ∈ b, float.write d = float.write e → d = e

theorem Apart.left {float : FloatText δ} {a b c d : List δ} (h : Apart float (a ++ b) (c ++ d)) : Apart float a c :=
  fun x hx y hy => h x (List.mem_append_left _ hx) y (List.mem_append_left _ hy)

theorem Apart.right {float : FloatText δ} {a b c d : List δ} (h : Apart float (a ++ b) (c ++ d)) : Apart float b d :=
  fun x hx y hy => h x (List.mem_append_right _ hx) y (List.mem_append_right _ hy)

theorem ends_dumpsItems (items : List (Value δ)) (x : Text) : Ends (dumpsItems float items ++ x) := by
  cases items with
  | nil =>
      rw [dumpsItems]
      exact ends_cons _ _ (.inr (.inl rfl))
  | cons item rest =>
      rw [dumpsItems]
      exact ends_cons _ _ (.inl rfl)

theorem ends_dumpsMembers (members : List (String × Value δ)) (x : Text) : Ends (dumpsMembers float members ++ x) := by
  cases members with
  | nil =>
      rw [dumpsMembers]
      exact ends_cons _ _ (.inr (.inr rfl))
  | cons member rest =>
      rw [dumpsMembers]
      exact ends_cons _ _ (.inl rfl)

theorem numbers_inj (v w : Value δ) (hv : v.kind = .number) (hw : w.kind = .number) (x y : Text) (hx : Ends x) (hy : Ends y)
    (hapart : Apart float v.decimals w.decimals) (h : dumps float v ++ x = dumps float w ++ y) : v = w ∧ x = y := by
  have hopen : ∀ u : Value δ, u.kind = .number → (dumps float u).all (fun c => !isClosing c) = true := by
    intro u hu
    cases u with
    | int n => rw [dumps]; exact intText_open n
    | decimal d => rw [dumps]; exact float.open_ d
    | _ => cases hu
  obtain ⟨htext, hrest⟩ := append_inj_of_open _ _ x y (hopen v hv) (hopen w hw) hx hy h
  refine ⟨?_, hrest⟩
  cases v with
  | int n =>
      cases w with
      | int m =>
          rw [dumps, dumps] at htext
          rw [intText_injective htext]
      | decimal d =>
          rw [dumps, dumps] at htext
          have hmarked := float.marked d
          rw [← htext, all_isIntChar_intText] at hmarked
          exact absurd hmarked (by decide)
      | _ => cases hw
  | decimal d =>
      cases w with
      | int m =>
          rw [dumps, dumps] at htext
          have hmarked := float.marked d
          rw [htext, all_isIntChar_intText] at hmarked
          exact absurd hmarked (by decide)
      | decimal e =>
          rw [dumps, dumps] at htext
          rw [hapart d (by simp [Value.decimals]) e (by simp [Value.decimals]) htext]
      | _ => cases hw
  | _ => cases hv

mutual

-- Structural on the first value: its first character names the kind, the parts follow in order.
theorem dumps_append_inj : ∀ (v w : Value δ) (x y : Text), Ends x → Ends y → Apart float v.decimals w.decimals →
    dumps float v ++ x = dumps float w ++ y → v = w ∧ x = y
  | .null, w, x, y, _, _, _, h => by
      have hkind := kind_eq float _ _ x y h
      cases w with
      | null => exact ⟨rfl, List.append_cancel_left h⟩
      | _ => cases hkind
  | .bool a, w, x, y, _, _, _, h => by
      have hkind := kind_eq float _ _ x y h
      cases w with
      | bool b =>
          cases a <;> cases b
          · exact ⟨rfl, List.append_cancel_left h⟩
          · exact absurd (List.cons.inj h).1 (by decide)
          · exact absurd (List.cons.inj h).1 (by decide)
          · exact ⟨rfl, List.append_cancel_left h⟩
      | _ => cases hkind
  | .int n, w, x, y, hx, hy, hapart, h =>
      numbers_inj float _ w rfl (kind_eq float _ _ x y h).symm x y hx hy hapart h
  | .decimal d, w, x, y, hx, hy, hapart, h =>
      numbers_inj float _ w rfl (kind_eq float _ _ x y h).symm x y hx hy hapart h
  | .str s, w, x, y, _, _, _, h => by
      have hkind := kind_eq float _ _ x y h
      cases w with
      | str t =>
          rw [dumps, dumps] at h
          obtain ⟨rfl, hrest⟩ := quote_append_inj s t x y h
          exact ⟨rfl, hrest⟩
      | _ => cases hkind
  | .arr items, w, x, y, _, _, hapart, h => by
      have hkind := kind_eq float _ _ x y h
      cases w with
      | arr others =>
          obtain ⟨rfl, hrest⟩ := arr_append_inj items others x y hapart h
          exact ⟨rfl, hrest⟩
      | _ => cases hkind
  | .obj members, w, x, y, _, _, hapart, h => by
      have hkind := kind_eq float _ _ x y h
      cases w with
      | obj others =>
          obtain ⟨rfl, hrest⟩ := obj_append_inj members others x y hapart h
          exact ⟨rfl, hrest⟩
      | _ => cases hkind

theorem arr_append_inj : ∀ (items others : List (Value δ)) (x y : Text),
    Apart float (itemDecimals items) (itemDecimals others) →
      dumps float (.arr items) ++ x = dumps float (.arr others) ++ y → items = others ∧ x = y
  | [], [], x, y, _, h => ⟨rfl, List.append_cancel_left h⟩
  | [], other :: more, x, y, _, h => by
      rw [dumps, dumps, List.cons_append (a := code '['), List.cons_append (a := code '['), List.append_assoc] at h
      exact absurd (List.cons.inj h).2 (dumps_not_close float other x _)
  | item :: rest, [], x, y, _, h => by
      rw [dumps, dumps, List.cons_append, List.cons_append, List.append_assoc] at h
      exact absurd (List.cons.inj h).2.symm (dumps_not_close float item y _)
  | item :: rest, other :: more, x, y, hapart, h => by
      rw [dumps, dumps, List.cons_append, List.cons_append, List.append_assoc, List.append_assoc] at h
      rw [itemDecimals, itemDecimals] at hapart
      obtain ⟨rfl, htail⟩ := dumps_append_inj item other _ _ (ends_dumpsItems float rest x)
        (ends_dumpsItems float more y) hapart.left (List.cons.inj h).2
      obtain ⟨rfl, hrest⟩ := items_append_inj rest more x y hapart.right htail
      exact ⟨rfl, hrest⟩

theorem items_append_inj : ∀ (items others : List (Value δ)) (x y : Text),
    Apart float (itemDecimals items) (itemDecimals others) →
      dumpsItems float items ++ x = dumpsItems float others ++ y → items = others ∧ x = y
  | [], [], x, y, _, h => ⟨rfl, List.append_cancel_left h⟩
  | [], other :: more, x, y, _, h => by
      rw [dumpsItems, dumpsItems] at h
      exact absurd (List.cons.inj h).1 (by decide)
  | item :: rest, [], x, y, _, h => by
      rw [dumpsItems, dumpsItems] at h
      exact absurd (List.cons.inj h).1 (by decide)
  | item :: rest, other :: more, x, y, hapart, h => by
      rw [dumpsItems, dumpsItems, List.cons_append, List.cons_append, List.append_assoc, List.append_assoc] at h
      rw [itemDecimals, itemDecimals] at hapart
      obtain ⟨rfl, htail⟩ := dumps_append_inj item other _ _ (ends_dumpsItems float rest x)
        (ends_dumpsItems float more y) hapart.left (List.cons.inj h).2
      obtain ⟨rfl, hrest⟩ := items_append_inj rest more x y hapart.right htail
      exact ⟨rfl, hrest⟩

theorem obj_append_inj : ∀ (members others : List (String × Value δ)) (x y : Text),
    Apart float (memberDecimals members) (memberDecimals others) →
      dumps float (.obj members) ++ x = dumps float (.obj others) ++ y → members = others ∧ x = y
  | [], [], x, y, _, h => ⟨rfl, List.append_cancel_left h⟩
  | [], (key, value) :: more, x, y, _, h => by
      rw [dumps, dumps] at h
      exact absurd (List.cons.inj (List.cons.inj h).2).1 (by decide)
  | (key, value) :: rest, [], x, y, _, h => by
      rw [dumps, dumps] at h
      exact absurd (List.cons.inj (List.cons.inj h).2).1 (by decide)
  | (key, value) :: rest, (other, found) :: more, x, y, hapart, h => by
      rw [dumps, dumps, List.cons_append, List.cons_append, List.append_assoc, List.append_assoc] at h
      rw [memberDecimals, memberDecimals] at hapart
      obtain ⟨rfl, htail⟩ := quote_append_inj key other _ _ (List.cons.inj h).2
      rw [List.cons_append, List.cons_append, List.append_assoc, List.append_assoc] at htail
      obtain ⟨rfl, hlast⟩ := dumps_append_inj value found _ _ (ends_dumpsMembers float rest x)
        (ends_dumpsMembers float more y) hapart.left (List.cons.inj htail).2
      obtain ⟨rfl, hrest⟩ := members_append_inj rest more x y hapart.right hlast
      exact ⟨rfl, hrest⟩

theorem members_append_inj : ∀ (members others : List (String × Value δ)) (x y : Text),
    Apart float (memberDecimals members) (memberDecimals others) →
      dumpsMembers float members ++ x = dumpsMembers float others ++ y → members = others ∧ x = y
  | [], [], x, y, _, h => ⟨rfl, List.append_cancel_left h⟩
  | [], (key, value) :: more, x, y, _, h => by
      rw [dumpsMembers, dumpsMembers] at h
      exact absurd (List.cons.inj h).1 (by decide)
  | (key, value) :: rest, [], x, y, _, h => by
      rw [dumpsMembers, dumpsMembers] at h
      exact absurd (List.cons.inj h).1 (by decide)
  | (key, value) :: rest, (other, found) :: more, x, y, hapart, h => by
      rw [dumpsMembers, dumpsMembers, List.cons_append, List.cons_append, List.append_assoc, List.append_assoc] at h
      rw [memberDecimals, memberDecimals] at hapart
      obtain ⟨rfl, htail⟩ := quote_append_inj key other _ _ (List.cons.inj h).2
      rw [List.cons_append, List.cons_append, List.append_assoc, List.append_assoc] at htail
      obtain ⟨rfl, hlast⟩ := dumps_append_inj value found _ _ (ends_dumpsMembers float rest x)
        (ends_dumpsMembers float more y) hapart.left (List.cons.inj htail).2
      obtain ⟨rfl, hrest⟩ := members_append_inj rest more x y hapart.right hlast
      exact ⟨rfl, hrest⟩

end

end Telling

end JsonText
