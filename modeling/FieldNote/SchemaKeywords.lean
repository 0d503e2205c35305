import FieldNote.JsonText

/-!
# Validation by JSON Schema keywords

The keywords are `type`, `enum`, `items`, `properties`, `required` and
`additionalProperties`; annotations assert nothing and are left out. An object's members are
looked up by name, so of members with one name the last one is the property's value.
-/
namespace FieldNote

/-- `additionalProperties` is whether properties that are not listed are allowed. -/
inductive Schema where
  | string (enum : Option (List String))
  | array (items : Schema)
  | object (additionalProperties : Bool) (required : List String)
      (properties : List (String × Schema))

namespace Schema

mutual

def valid : Schema → Json → Bool
  | .string none, .string _ => true
  | .string (some options), .string s => options.contains s
  | .array items, .array values => values.all (valid items)
  | .object additionalProperties required properties, .object members =>
      required.all (fun name => (Json.member name members).isSome) &&
        (additionalProperties ||
          members.all fun m => (properties.map Prod.fst).contains m.1) &&
        validProperties properties members
  | _, _ => false

/-- The listed properties that the object has are valid. -/
def validProperties : List (String × Schema) → List (String × Json) → Bool
  | [], _ => true
  | (name, schema) :: rest, members =>
      (match Json.member name members with
        | some value => valid schema value
        | none => true) && validProperties rest members

end

/-- Every member of an object has one of the names. -/
def Closed (names : List String) : Json → Prop
  | .object members => ∀ m ∈ members, m.1 ∈ names
  | _ => True

theorem valid_text {value : Json} :
    valid (.string none) value = true ↔ ∃ s, value = .string s := by
  cases value <;> simp [valid]

theorem valid_enum {options : List String} {value : Json} :
    valid (.string (some options)) value = true ↔ ∃ s ∈ options, value = .string s := by
  cases value <;> simp [valid]

theorem valid_array {items : Schema} {value : Json} :
    valid (.array items) value = true ↔
      ∃ values, value = .array values ∧ ∀ v ∈ values, valid items v = true := by
  cases value <;> simp [valid]

theorem validProperties_iff {properties : List (String × Schema)}
    {members : List (String × Json)} :
    validProperties properties members = true ↔ ∀ property ∈ properties, ∀ value,
      Json.member property.1 members = some value → valid property.2 value = true := by
  induction properties with
  | nil => simp [validProperties]
  | cons property properties ih =>
      obtain ⟨name, schema⟩ := property
      cases hmember : Json.member name members <;>
        simp [validProperties, hmember, ih]

/-- An object whose properties are all required and which allows no other. -/
theorem valid_closed {required : List String} {properties : List (String × Schema)}
    {value : Json} (hrequired : required = properties.map Prod.fst) :
    valid (.object false required properties) value = true ↔
      ∃ members, value = .object members ∧ Closed required value ∧
        ∀ property ∈ properties, ∃ v, Json.member property.1 members = some v ∧
          valid property.2 v = true := by
  subst hrequired
  cases value with
  | object members =>
      simp only [valid, Bool.false_or, Bool.and_eq_true, List.all_eq_true, validProperties_iff,
        List.contains_iff_mem, Json.object.injEq, exists_eq_left', Closed]
      constructor
      · rintro ⟨⟨hrequired, hclosed⟩, hvalid⟩
        refine ⟨hclosed, fun property hproperty => ?_⟩
        obtain ⟨v, hv⟩ := Option.isSome_iff_exists.mp
          (hrequired property.1 (List.mem_map_of_mem hproperty))
        exact ⟨v, hv, hvalid property hproperty v hv⟩
      · rintro ⟨hclosed, hall⟩
        refine ⟨⟨fun name hname => ?_, hclosed⟩, fun property hproperty value hvalue => ?_⟩
        · obtain ⟨property, hproperty, rfl⟩ := List.mem_map.mp hname
          obtain ⟨v, hv, -⟩ := hall property hproperty
          exact Option.isSome_iff_exists.mpr ⟨v, hv⟩
        · obtain ⟨v, hv, hvalid⟩ := hall property hproperty
          obtain rfl : v = value := by simpa [hv] using hvalue
          exact hvalid
  | _ => simp [valid]

end Schema
end FieldNote
