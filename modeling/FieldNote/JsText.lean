import Mathlib.Data.List.DropRight
import Mathlib.Data.String.Basic

/-!
# JavaScript string operations

`trim` and `slice(0, n)` as ECMAScript defines them. Strings are sequences of Unicode
scalar values here; `slice` counts UTF-16 code units, and half of a surrogate pair that it
cuts off reaches the database as U+FFFD.
-/
namespace FieldNote.JsText

/-- White space and line terminators of ECMAScript. -/
def isSpace (c : Char) : Bool :=
  let n := c.toNat
  (9 ≤ n && n ≤ 13) || n = 0x20 || n = 0xA0 || n = 0x1680 || (0x2000 ≤ n && n ≤ 0x200A) ||
    n = 0x2028 || n = 0x2029 || n = 0x202F || n = 0x205F || n = 0x3000 || n = 0xFEFF

def trimChars (cs : List Char) : List Char :=
  ((cs.dropWhile isSpace).reverse.dropWhile isSpace).reverse

def trim (s : String) : String := String.ofList (trimChars s.toList)

theorem dropWhile_trimChars (cs : List Char) :
    (trimChars cs).dropWhile isSpace = trimChars cs := by
  -- the first character that is left is the first one that is no space
  rw [List.dropWhile_eq_self_iff]
  intro hlen
  have hpre : trimChars cs <+: cs.dropWhile isSpace := by
    have hsuf := List.dropWhile_suffix isSpace (l := (cs.dropWhile isSpace).reverse)
    simpa [trimChars] using List.reverse_prefix.mpr hsuf
  have hrest : 0 < (cs.dropWhile isSpace).length := hlen.trans_le hpre.length_le
  have hfirst : (trimChars cs)[0] = (cs.dropWhile isSpace)[0] := hpre.getElem hlen
  rw [hfirst]
  exact List.dropWhile_eq_self_iff.mp (List.dropWhile_idempotent _ _) _

theorem trimChars_trimChars (cs : List Char) : trimChars (trimChars cs) = trimChars cs := by
  have hright : (trimChars cs).reverse.dropWhile isSpace = (trimChars cs).reverse := by
    simp only [trimChars, List.reverse_reverse]
    exact List.dropWhile_idempotent _ _
  calc trimChars (trimChars cs)
      = (((trimChars cs).dropWhile isSpace).reverse.dropWhile isSpace).reverse := rfl
    _ = trimChars cs := by rw [dropWhile_trimChars, hright, List.reverse_reverse]

@[simp] theorem trim_trim (s : String) : trim (trim s) = trim s := by
  simp [trim, trimChars_trimChars]

/-- The number of code units, which JavaScript calls the length. -/
def length (s : String) : ℕ :=
  s.toList.foldl (fun n c => n + if c.toNat < 0x10000 then 1 else 2) 0

/-- A variation selector, which asks for the text or the emoji form of what it follows. -/
def isSelector (c : Char) : Bool := c.toNat = 0xFE0E || c.toNat = 0xFE0F

/-- The characters that a selector follows. -/
def presentationSequences : List Char → ℕ
  | a :: b :: cs =>
      (if !isSelector a && isSelector b then 1 else 0) + presentationSequences (b :: cs)
  | _ => 0

/-- The length that class-validator's `MinLength` and `MaxLength` see: surrogate pairs and
presentation sequences count as one character. -/
def charCount (s : String) : ℕ := s.length - presentationSequences s.toList

theorem presentationSequences_lt (c : Char) (cs : List Char) :
    presentationSequences (c :: cs) ≤ cs.length := by
  induction cs generalizing c with
  | nil => exact Nat.le_refl 0
  | cons d ds ih =>
      have htail := ih d
      simp only [presentationSequences, List.length_cons]
      split_ifs <;> omega

/-- Only the empty text has no characters. -/
theorem one_le_charCount {s : String} : 1 ≤ charCount s ↔ s ≠ "" := by
  constructor
  · rintro h rfl
    simp [charCount] at h
  · intro hne
    cases hcs : s.toList with
    | nil => exact (hne (String.toList_eq_nil_iff.mp hcs)).elim
    | cons c cs =>
        have hlt := presentationSequences_lt c cs
        rw [charCount, ← String.length_toList, hcs, List.length_cons]
        omega

/-- The first `n` code units of a character list. -/
def takeUnits : ℕ → List Char → List Char
  | 0, _ => []
  | _ + 1, [] => []
  | n + 1, c :: cs =>
      if c.toNat < 0x10000 then c :: takeUnits n cs
      else
        match n with
        | 0 => [Char.ofNat 0xFFFD]
        | n + 1 => c :: takeUnits n cs

/-- `s.slice(0, n)`. -/
def slice (n : ℕ) (s : String) : String := String.ofList (takeUnits n s.toList)

/-- The code units of a character. -/
def units (c : Char) : ℕ := if c.toNat < 0x10000 then 1 else 2

@[simp] theorem length_empty : length "" = 0 := rfl

theorem length_cons (c : Char) (cs : List Char) :
    length (String.ofList (c :: cs)) = units c + length (String.ofList cs) := by
  have hfrom (n : ℕ) : cs.foldl (fun n c => n + if c.toNat < 0x10000 then 1 else 2) n =
      n + cs.foldl (fun n c => n + if c.toNat < 0x10000 then 1 else 2) 0 := by
    induction cs generalizing n with
    | nil => simp
    | cons c cs ih =>
        rw [List.foldl_cons, ih, List.foldl_cons, ih (0 + _)]
        omega
  have hunits := hfrom (units c)
  simpa [length, units] using hunits

/-- class-validator counts no more than JavaScript. -/
theorem charCount_le_length (s : String) : charCount s ≤ length s := by
  have hone (cs : List Char) : cs.length ≤ length (String.ofList cs) := by
    induction cs with
    | nil => simp
    | cons c cs ih =>
        rw [List.length_cons, length_cons, units]
        split_ifs <;> omega
  have hchars := hone s.toList
  rw [String.ofList_toList, String.length_toList] at hchars
  rw [charCount]
  omega

theorem takeUnits_le (n : ℕ) (cs : List Char) : length (String.ofList (takeUnits n cs)) ≤ n := by
  induction n, cs using takeUnits.induct with
  | case1 cs => simp [takeUnits]
  | case2 n => simp [takeUnits]
  | case3 n c cs hc ih =>
      rw [takeUnits.eq_def]
      simp only [if_pos hc, length_cons, units]
      omega
  | case4 c cs hc =>
      rw [takeUnits.eq_def]
      simp only [if_neg hc]
      decide
  | case5 c cs hc n ih =>
      rw [takeUnits.eq_def]
      simp only [if_neg hc, length_cons, units]
      omega

/-- A slice is not longer than asked for. -/
theorem length_slice_le (n : ℕ) (s : String) : length (slice n s) ≤ n :=
  takeUnits_le n s.toList

example : trim " a b\n" = "a b" := by decide

end FieldNote.JsText
