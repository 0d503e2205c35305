import FieldNote.JsonPrinting

/-!
# Reading and writing the fields of JSON objects

A writer gives a value for each field of a record, a reader takes the fields it knows by name
and leaves the others. An optional field is read as absent when it is missing or null.
-/
namespace FieldNote.Json

def ofNat (n : ℕ) : Json := .number (toString n)

def ofOption {α : Type} (write : α → Json) : Option α → Json
  | none => .null
  | some a => write a

def asString : Json → Option String
  | .string s => some s
  | _ => none

/-- A number that is written with digits alone. -/
def asNat : Json → Option ℕ
  | .number literal =>
      if literal.toList.all Char.isDigit then some (Nat.ofDigitChars 10 literal.toList 0) else none
  | _ => none

def asList {α : Type} (read : Json → Option α) : Json → Option (List α)
  | .array items => items.mapM read
  | _ => none

def field {α : Type} (name : String) (read : Json → Option α) : Json → Option α
  | .object members => (member name members).bind read
  | _ => none

def fieldIfPresent {α : Type} (name : String) (read : Json → Option α) :
    Json → Option (Option α)
  | .object members =>
      match member name members with
      | none | some .null => some none
      | some j => (read j).map some
  | _ => none

section Nat

theorem next_digit {d : ℕ} (h : d < 10) : NumberPart.next d.digitChar .digits = some .digits := by
  revert d
  decide

theorem begin_digit {d : ℕ} (h : d < 10) (hpos : 0 < d) :
    NumberPart.begin d.digitChar = some .digits := by
  revert hpos
  revert d
  decide

/-- The automaton on the digits of a positive number, which do not start with a zero. -/
theorem toDigits_part (n : ℕ) (hpos : 0 < n) : ∃ c cs, Nat.toDigits 10 n = c :: cs ∧
    (NumberPart.begin c).bind (cs.foldlM fun part c => part.next c) =
      some .digits := by
  induction n using Nat.strong_induction_on with
  | _ n ih =>
      by_cases hsmall : n < 10
      · exact ⟨n.digitChar, [], Nat.toDigits_of_lt_base hsmall, by simp [begin_digit hsmall hpos]⟩
      · obtain ⟨c, cs, heq, hrun⟩ := ih (n / 10) (by omega) (by omega)
        refine ⟨c, cs ++ [(n % 10).digitChar], ?_, ?_⟩
        · rw [Nat.toDigits_of_base_le (by decide) (by omega), heq, List.cons_append]
        · obtain ⟨part, hpart, hrest⟩ := Option.bind_eq_some_iff.mp hrun
          have hlast := next_digit (Nat.mod_lt n (show 0 < 10 by decide))
          simp [hpart, List.foldlM_append, hrest, hlast]

theorem isLiteral_toString (n : ℕ) : isLiteral (toString n) = true := by
  rcases Nat.eq_zero_or_pos n with rfl | hpos
  · decide
  · obtain ⟨c, cs, heq, hrun⟩ := toDigits_part n hpos
    simp [isLiteral, heq, hrun, NumberPart.complete]

@[simp] theorem asNat_ofNat (n : ℕ) : asNat (ofNat n) = some n := by
  have htext : (toString n).toList = Nat.toDigits 10 n := by
    rw [Nat.toString_eq_repr, Nat.toList_repr]
  have hdigits : (Nat.toDigits 10 n).all Char.isDigit = true := by
    rw [List.all_eq_true]
    intro c hc
    exact Nat.isDigit_of_mem_toDigits (by decide) (by decide) hc
  simp only [asNat, ofNat, htext, hdigits, if_true, Nat.ofDigitChars_ten_toDigits]

@[simp] theorem wellFormed_ofNat (n : ℕ) : (ofNat n).WellFormed := by
  simpa [ofNat, WellFormed] using isLiteral_toString n

end Nat

section Composite

variable {α : Type}

@[simp] theorem asString_string (s : String) : asString (.string s) = some s := rfl

@[simp] theorem wellFormed_string (s : String) : (Json.string s).WellFormed := trivial

@[simp] theorem wellFormed_object (members : List (String × Json)) :
    (Json.object members).WellFormed ↔ ∀ m ∈ members, m.2.WellFormed := by
  have hmembers : WellFormedMembers members ↔ ∀ m ∈ members, m.2.WellFormed := by
    induction members with
    | nil => simp [WellFormedMembers]
    | cons m members ih => simp [WellFormedMembers, ih]
  simpa [WellFormed] using hmembers

@[simp] theorem wellFormed_array (items : List Json) :
    (Json.array items).WellFormed ↔ ∀ j ∈ items, j.WellFormed := by
  have hitems : WellFormedItems items ↔ ∀ j ∈ items, j.WellFormed := by
    induction items with
    | nil => simp [WellFormedItems]
    | cons j items ih => simp [WellFormedItems, ih]
  simpa [WellFormed] using hitems

theorem wellFormed_ofOption {write : α → Json} (h : ∀ a, (write a).WellFormed) (a : Option α) :
    (ofOption write a).WellFormed := by
  cases a with
  | none => trivial
  | some a => exact h a

/-- A list whose items are read back is read back. -/
theorem asList_map {read : Json → Option α} {write : α → Json} {items : List α}
    (h : ∀ a ∈ items, read (write a) = some a) :
    asList read (.array (items.map write)) = some items := by
  change (items.map write).mapM read = some items
  induction items with
  | nil => rfl
  | cons a items ih =>
      have hhead := h a List.mem_cons_self
      have htail := ih fun b hb => h b (List.mem_cons_of_mem a hb)
      simp [hhead, htail]

@[simp] theorem field_object (name : String) (read : Json → Option α)
    (members : List (String × Json)) :
    field name read (.object members) = (member name members).bind read := rfl

/-- An optional field that is written as null when it is absent. -/
theorem fieldIfPresent_ofOption {name : String} {read : Json → Option α} {write : α → Json}
    {members : List (String × Json)} {a : Option α}
    (hmember : member name members = some (ofOption write a))
    (hread : ∀ a, read (write a) = some a) (hnull : ∀ a, write a ≠ .null) :
    fieldIfPresent name read (.object members) = some a := by
  cases a with
  | none => simp [fieldIfPresent, hmember, ofOption]
  | some a =>
      simp only [fieldIfPresent, hmember, ofOption]
      split
      · rename_i hnone
        cases hnone
      · rename_i hsome
        exact (hnull a (Option.some.inj hsome)).elim
      · rename_i j _ hsome
        rw [← Option.some.inj hsome, hread a, Option.map_some]

end Composite

end FieldNote.Json
