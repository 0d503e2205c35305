import FieldNote.JsText
import FieldNote.JsonText

/-!
# Checking a JSON value against a schema

A check is a function of the place and of the value there, which is missing where an object
lacks the member. It gives back the value it has read, as a type whose values satisfy the
schema, or every issue it found, in the order of the checks. Places, texts and order are
those of the zod library.
-/
namespace FieldNote.JsonSchema

inductive PathItem where
  | key (name : String)
  | index (i : ℕ)
deriving DecidableEq

abbrev Path := List PathItem

structure Issue where
  path : Path
  message : String
deriving DecidableEq

abbrev Checked (α : Type) := Except (List Issue) α

/-- The schema of a type. -/
abbrev Check (α : Type) := Path → Option Json → Checked α

def typeName : Json → String
  | .null => "null"
  | .bool _ => "boolean"
  | .number _ => "number"
  | .string _ => "string"
  | .array _ => "array"
  | .object _ => "object"

def mismatch (path : Path) (expected : String) : Option Json → Issue
  | none => ⟨path, "Required"⟩
  | some value => ⟨path, "Expected " ++ expected ++ ", received " ++ typeName value⟩

variable {α β : Type}

/-- Both checks are made, whatever the first one finds. -/
def both : Checked α → Checked β → Checked (α × β)
  | .ok a, .ok b => .ok (a, b)
  | .ok _, .error ys => .error ys
  | .error xs, .ok _ => .error xs
  | .error xs, .error ys => .error (xs ++ ys)

/-- The check of every item, from the given index on. -/
def each (check : ℕ → Json → Checked α) : ℕ → List Json → Checked (List α)
  | _, [] => .ok []
  | i, item :: items => (both (check i item) (each check (i + 1) items)).map fun p => p.1 :: p.2

/-- The texts that `z.string().trim().min(1).max(n)` gives back. -/
structure BoundedText (n : ℕ) where
  value : String
  trimmed : JsText.trim value = value
  nonempty : 1 ≤ JsText.length value
  bounded : JsText.length value ≤ n

/-- The lists that `z.array(..).max(n)` gives back. -/
structure BoundedList (α : Type) (n : ℕ) where
  items : List α
  bounded : items.length ≤ n

/-- `z.string().trim().min(1).max(n)`. -/
def boundedText (n : ℕ) : Check (BoundedText n)
  | path, some (.string s) =>
      if hmin : JsText.length (JsText.trim s) < 1 then
        .error [⟨path, "String must contain at least 1 character(s)"⟩]
      else if hmax : n < JsText.length (JsText.trim s) then
        .error [⟨path, "String must contain at most " ++ toString n ++ " character(s)"⟩]
      else .ok ⟨JsText.trim s, JsText.trim_trim s, Nat.le_of_not_lt hmin, Nat.le_of_not_lt hmax⟩
  | path, value => .error [mismatch path "string" value]

/-- The options of an enumeration as its errors list them. -/
def optionNames (options : List (String × α)) : String :=
  String.intercalate " | " (options.map fun o => "'" ++ o.1 ++ "'")

/-- `z.enum(options)`. -/
def oneOf (options : List (String × α)) : Check α
  | path, some (.string s) =>
      match options.find? fun o => o.1 = s with
      | some o => .ok o.2
      | none => .error [⟨path, "Invalid enum value. Expected " ++ optionNames options ++
          ", received '" ++ s ++ "'"⟩]
  | path, value => .error [mismatch path (optionNames options) value]

theorem each_length {check : ℕ → Json → Checked α} {i : ℕ} {items : List Json} {as : List α}
    (h : each check i items = .ok as) : as.length = items.length := by
  induction items generalizing i as with
  | nil =>
      cases h
      rfl
  | cons item items ih =>
      unfold each at h
      cases hitem : check i item with
      | error xs =>
          rw [hitem] at h
          cases hrest : each check (i + 1) items <;> rw [hrest] at h <;> cases h
      | ok a =>
          rw [hitem] at h
          cases hrest : each check (i + 1) items with
          | error ys =>
              rw [hrest] at h
              cases h
          | ok bs =>
              rw [hrest] at h
              cases h
              rw [List.length_cons, List.length_cons, ih hrest]

/-- `z.array(item).max(n)`; the items of a list that is too long are checked as well. -/
def arrayOf (n : ℕ) (item : Check α) : Check (BoundedList α n)
  | path, some (.array items) =>
      match h : each (fun i value => item (path ++ [.index i]) (some value)) 0 items with
      | .ok as =>
          if hmax : n < items.length then
            .error [⟨path, "Array must contain at most " ++ toString n ++ " element(s)"⟩]
          else .ok ⟨as, (each_length h).symm ▸ Nat.le_of_not_lt hmax⟩
      | .error issues =>
          if n < items.length then
            .error (⟨path, "Array must contain at most " ++ toString n ++ " element(s)"⟩ :: issues)
          else .error issues
  | path, value => .error [mismatch path "array" value]

/-- The value must be an object; its members are read by name. -/
def object (members : (String → Option Json) → Path → Checked α) : Check α
  | path, some (.object ms) => members (fun name => Json.member name ms) path
  | path, value => .error [mismatch path "object" value]

/-- The check of a member, at its place in the object. -/
def field (name : String) (check : Check α) (members : String → Option Json) (path : Path) :
    Checked α :=
  check (path ++ [.key name]) (members name)

/-- A check that fails says where: it has an issue, at or below the place it looked at. -/
def Located (path : Path) (checked : Checked α) : Prop :=
  ∀ issues, checked = .error issues → issues ≠ [] ∧ ∀ issue ∈ issues, path <+: issue.path

theorem located_one {path : Path} {issue : Issue} (h : issue.path = path) :
    Located path (.error [issue] : Checked α) := by
  intro issues he
  cases he
  refine ⟨by simp, ?_⟩
  intro issue' hissue
  have hpath : path = issue'.path := by rw [List.mem_singleton.mp hissue, h]
  exact ⟨[], by rw [List.append_nil, hpath]⟩

theorem mismatch_path (path : Path) (expected : String) (value : Option Json) :
    (mismatch path expected value).path = path := by
  cases value <;> rfl

theorem Located.deepen {path : Path} {suffix : Path} {checked : Checked α}
    (h : Located (path ++ suffix) checked) : Located path checked := by
  intro issues he
  obtain ⟨hsome, hall⟩ := h issues he
  refine ⟨hsome, ?_⟩
  intro issue hissue
  exact (List.prefix_append path suffix).trans (hall issue hissue)

theorem Located.map {path : Path} {checked : Checked α} {f : α → β} (h : Located path checked) :
    Located path (checked.map f) := by
  intro issues he
  cases checked with
  | error xs =>
      cases he
      exact h _ rfl
  | ok a => cases he

theorem Located.both {path : Path} {x : Checked α} {y : Checked β} (hx : Located path x)
    (hy : Located path y) : Located path (both x y) := by
  intro issues he
  cases x with
  | ok a =>
      cases y with
      | ok b => cases he
      | error ys =>
          cases he
          exact hy _ rfl
  | error xs =>
      cases y with
      | ok b =>
          cases he
          exact hx _ rfl
      | error ys =>
          cases he
          obtain ⟨hsome, hxs⟩ := hx xs rfl
          obtain ⟨-, hys⟩ := hy ys rfl
          refine ⟨by simp [hsome], ?_⟩
          intro issue hissue
          rcases List.mem_append.mp hissue with hmem | hmem
          · exact hxs issue hmem
          · exact hys issue hmem

theorem located_each {path : Path} {check : ℕ → Json → Checked α}
    (h : ∀ i value, Located path (check i value)) (i : ℕ) (items : List Json) :
    Located path (each check i items) := by
  induction items generalizing i with
  | nil =>
      intro issues he
      cases he
  | cons item items ih => exact ((h i item).both (ih (i + 1))).map

theorem located_boundedText (n : ℕ) (path : Path) (value : Option Json) :
    Located path (boundedText n path value) := by
  unfold boundedText
  split
  · split_ifs
    · exact located_one rfl
    · exact located_one rfl
    · intro issues he
      cases he
  · exact located_one (mismatch_path _ _ _)

theorem located_oneOf (options : List (String × α)) (path : Path) (value : Option Json) :
    Located path (oneOf options path value) := by
  unfold oneOf
  split
  · split
    · intro issues he
      cases he
    · exact located_one rfl
  · exact located_one (mismatch_path _ _ _)

theorem located_arrayOf {n : ℕ} {item : Check α} (hitem : ∀ path value, Located path (item path value))
    (path : Path) (value : Option Json) : Located path (arrayOf n item path value) := by
  have heach : ∀ items, Located path
      (each (fun i value => item (path ++ [.index i]) (some value)) 0 items) := by
    intro items
    exact located_each (fun i value => (hitem _ _).deepen) 0 items
  unfold arrayOf
  split
  · rename_i items
    split
    · split_ifs
      · exact located_one rfl
      · intro issues he
        cases he
    · rename_i issues₀ hissues
      obtain ⟨hsome, hall⟩ := heach items issues₀ hissues
      split_ifs
      · intro issues he
        cases he
        refine ⟨by simp, ?_⟩
        intro issue hissue
        rcases List.mem_cons.mp hissue with rfl | hmem
        · exact List.prefix_refl path
        · exact hall issue hmem
      · intro issues he
        cases he
        exact ⟨hsome, hall⟩
  · exact located_one (mismatch_path _ _ _)

theorem located_object {members : (String → Option Json) → Path → Checked α}
    (h : ∀ ms path, Located path (members ms path)) (path : Path) (value : Option Json) :
    Located path (object members path value) := by
  unfold object
  split
  · exact h _ _
  · exact located_one (mismatch_path _ _ _)

theorem located_field {name : String} {check : Check α}
    (h : ∀ path value, Located path (check path value)) (members : String → Option Json)
    (path : Path) : Located path (field name check members path) :=
  (h _ _).deepen

end FieldNote.JsonSchema
