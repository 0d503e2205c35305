import FieldNote.JsonText

/-!
# Printing JSON and reading it back

The compact text of a value has the escapes that a JSON printer has to write; a printer may
also escape the slash. Reading it back gives the value, whatever arrays and objects are open
around it: a number is only known to have ended at the character behind it, so the state
after a value is described by what it does next.
-/
namespace FieldNote.Json

def NumberPart.begin (c : Char) : Option NumberPart :=
  if c = '-' then some .minus else if c = '0' then some .zero
  else if isDigit c then some .digits else none

/-- A text that stands for a number. -/
def isLiteral (literal : String) : Bool :=
  match literal.toList with
  | [] => false
  | c :: cs =>
      ((NumberPart.begin c).bind (cs.foldlM fun part c => part.next c)).any NumberPart.complete

def hexChar (d : ℕ) : Char := if d < 10 then Char.ofNat (48 + d) else Char.ofNat (87 + d)

/-- One character of a string; `slash` is whether the printer escapes slashes. -/
def escape (slash : Bool) (c : Char) : List Char :=
  if slash = true ∧ c = '/' then ['\\', '/']
  else if c = '"' then ['\\', '"']
  else if c = '\\' then ['\\', '\\']
  else if c.toNat = 8 then ['\\', 'b']
  else if c.toNat = 12 then ['\\', 'f']
  else if c = '\n' then ['\\', 'n']
  else if c = '\r' then ['\\', 'r']
  else if c = '\t' then ['\\', 't']
  else if c.toNat < 0x20 then
    ['\\', 'u', '0', '0', hexChar (c.toNat / 16), hexChar (c.toNat % 16)]
  else [c]

def quote (slash : Bool) (s : String) : List Char :=
  '"' :: s.toList.flatMap (escape slash) ++ ['"']

mutual

def print (slash : Bool) : Json → List Char
  | .null => ['n', 'u', 'l', 'l']
  | .bool true => ['t', 'r', 'u', 'e']
  | .bool false => ['f', 'a', 'l', 's', 'e']
  | .number literal => literal.toList
  | .string value => quote slash value
  | .array items => '[' :: printItems slash true items
  | .object members => '{' :: printMembers slash true members

/-- The items of an array and its end, a comma before each item but the first. -/
def printItems (slash first : Bool) : List Json → List Char
  | [] => [']']
  | item :: items =>
      (if first then [] else [',']) ++ print slash item ++ printItems slash false items

def printMembers (slash first : Bool) : List (String × Json) → List Char
  | [] => ['}']
  | (name, value) :: members =>
      (if first then [] else [',']) ++ quote slash name ++ ':' :: print slash value ++
        printMembers slash false members

end

/-- The text of a value. -/
def stringify (slash : Bool) (j : Json) : String := String.ofList (print slash j)

mutual

/-- Every number in the value is a number literal. -/
def WellFormed : Json → Prop
  | .number literal => isLiteral literal = true
  | .array items => WellFormedItems items
  | .object members => WellFormedMembers members
  | _ => True

def WellFormedItems : List Json → Prop
  | [] => True
  | item :: items => item.WellFormed ∧ WellFormedItems items

def WellFormedMembers : List (String × Json) → Prop
  | [] => True
  | (_, value) :: members => value.WellFormed ∧ WellFormedMembers members

end

mutual

def decideWellFormed : (j : Json) → Decidable j.WellFormed
  | .null | .bool _ | .string _ => .isTrue trivial
  | .number literal => inferInstanceAs (Decidable (isLiteral literal = true))
  | .array items => decideItems items
  | .object members => decideMembers members

def decideItems : (items : List Json) → Decidable (WellFormedItems items)
  | [] => .isTrue trivial
  | item :: items => @instDecidableAnd _ _ (decideWellFormed item) (decideItems items)

def decideMembers : (members : List (String × Json)) → Decidable (WellFormedMembers members)
  | [] => .isTrue trivial
  | (_, value) :: members => @instDecidableAnd _ _ (decideWellFormed value) (decideMembers members)

end

instance (j : Json) : Decidable j.WellFormed := decideWellFormed j

section Text

variable {slash : Bool} {frames : List Frame} {purpose : Purpose} {reversed : List ℕ}

theorem hexDigit_hexChar {d : ℕ} (h : d < 16) : hexDigit (hexChar d) = some d := by
  revert d
  decide

theorem toNat_bound (c : Char) : c.toNat < 0xD800 ∨ 0xDFFF < c.toNat ∧ c.toNat < 0x110000 :=
  c.valid

/-- The code units of a character read as the character, whatever follows them. -/
theorem decode_units (c : Char) (rest : List ℕ) :
    decode (units c ++ rest) = c :: decode rest := by
  have hbound := toNat_bound c
  have hself : Char.ofNat c.toNat = c := Char.ofNat_toNat c
  unfold units
  dsimp only
  split_ifs with hsmall
  · have hplain : (isHigh c.toNat || isLow c.toNat) = false := by
      simp [isHigh, isLow]
      omega
    obtain ⟨hhigh, hlow⟩ := Bool.or_eq_false_iff.mp hplain
    cases rest with
    | nil => simp [decode, hhigh, hlow, hself]
    | cons v rest => simp [decode, hhigh, hlow, hself]
  · have hhigh : isHigh (0xD800 + (c.toNat - 0x10000) / 0x400) = true := by
      simp [isHigh]
      omega
    have hlow : isLow (0xDC00 + (c.toNat - 0x10000) % 0x400) = true := by
      simp [isLow]
      omega
    have hsum : 0x10000 + (0xD800 + (c.toNat - 0x10000) / 0x400 - 0xD800) * 0x400 +
        (0xDC00 + (c.toNat - 0x10000) % 0x400 - 0xDC00) = c.toNat := by
      omega
    simp only [List.cons_append, List.nil_append, decode, hhigh, hlow, Bool.and_self, if_true,
      hsum, hself]

theorem decode_flatMap (cs : List Char) : decode (cs.flatMap units) = cs := by
  induction cs with
  | nil => rfl
  | cons c cs ih => rw [List.flatMap_cons, decode_units, ih]

/-- An escaped character is read as its code units. -/
theorem step_escape (c : Char) :
    (escape slash c).foldlM step ⟨.text purpose reversed .plain, frames⟩ =
      some ⟨.text purpose ((units c).reverse ++ reversed) .plain, frames⟩ := by
  have hsmall (h : c.toNat < 0x20) : units c = [c.toNat] := by
    simp [units, show c.toNat < 0x10000 by omega]
  unfold escape
  split_ifs with h₀ h₁ h₂ h₃ h₄ h₅ h₆ h₇ h₈
  · rw [h₀.2]
    rfl
  · subst h₁
    rfl
  · subst h₂
    rfl
  · rw [hsmall (by omega), h₃]
    rfl
  · rw [hsmall (by omega), h₄]
    rfl
  · subst h₅
    rfl
  · subst h₆
    rfl
  · subst h₇
    rfl
  · have hhigh := hexDigit_hexChar (d := c.toNat / 16) (by omega)
    have hlow := hexDigit_hexChar (d := c.toNat % 16) (by omega)
    have hzero : hexDigit '0' = some 0 := by decide
    have hvalue : c.toNat / 16 * 16 + c.toNat % 16 = c.toNat := by omega
    simp [step, stepText, hhigh, hlow, hzero, hsmall h₈, hvalue]
  · simp [step, stepText, h₁, h₂, h₈]

theorem step_escapes (cs : List Char) :
    (cs.flatMap (escape slash)).foldlM step ⟨.text purpose reversed .plain, frames⟩ =
      some ⟨.text purpose ((cs.flatMap units).reverse ++ reversed) .plain, frames⟩ := by
  induction cs generalizing reversed with
  | nil => rfl
  | cons c cs ih =>
      rw [List.flatMap_cons, List.foldlM_append, step_escape]
      simpa [List.flatMap_cons] using ih

/-- A quoted string behind its opening quote. -/
theorem step_quoted (slash : Bool) (frames : List Frame) (purpose : Purpose) (s : String) :
    (s.toList.flatMap (escape slash) ++ ['"']).foldlM step ⟨.text purpose [] .plain, frames⟩ =
      some (endText frames (s.toList.flatMap units).reverse purpose) := by
  rw [List.foldlM_append, step_escapes]
  simp [step, stepText]

theorem endText_value (s : String) :
    endText frames (s.toList.flatMap units).reverse .value = ⟨.done (.string s), frames⟩ := by
  simp [endText, decode_flatMap]

theorem endText_name (before : List (String × Json)) (s : String) :
    endText frames (s.toList.flatMap units).reverse (.name before) =
      ⟨.colon before s, frames⟩ := by
  simp [endText, decode_flatMap]

end Text

/-- What a state behind a value does next. -/
structure Behind (s : State) (j : Json) (frames : List Frame) : Prop where
  follows : ∀ c, c = ',' ∨ c = ']' ∨ c = '}' → step s c = afterValue j c frames
  finishes : frames = [] → finish s = some j

/-- The text of a value leads behind the value, whatever is open around it. -/
structure Reads (cs : List Char) (j : Json) : Prop where
  reads : ∃ c rest, cs = c :: rest ∧ isBlank c = false ∧ c ≠ ']' ∧
    ∀ frames, ∃ s, (beginValue frames c).bind (rest.foldlM step) = some s ∧ Behind s j frames

theorem behind_done (j : Json) (frames : List Frame) : Behind ⟨.done j, frames⟩ j frames := by
  constructor
  · rintro c (rfl | rfl | rfl) <;> rfl
  · rintro rfl
    rfl

theorem Reads.of_done {c : Char} {rest : List Char} {j : Json} (hb : isBlank c = false)
    (hc : c ≠ ']')
    (h : ∀ frames, (beginValue frames c).bind (rest.foldlM step) = some ⟨.done j, frames⟩) :
    Reads (c :: rest) j :=
  ⟨c, rest, rfl, hb, hc, fun frames => ⟨_, h frames, behind_done j frames⟩⟩

section Number

variable {frames : List Frame} {part part' : NumberPart} {cs reversed : List Char}

/-- The characters of a literal are kept while its end is still open. -/
theorem step_number (h : cs.foldlM (fun part c => NumberPart.next c part) part = some part') :
    cs.foldlM step ⟨.number reversed part, frames⟩ =
      some ⟨.number (cs.reverse ++ reversed) part', frames⟩ := by
  induction cs generalizing part reversed with
  | nil =>
      cases h
      rfl
  | cons c cs ih =>
      obtain ⟨mid, hmid, h⟩ := Option.bind_eq_some_iff.mp h
      have hstep : step ⟨.number reversed part, frames⟩ c =
          some ⟨.number (c :: reversed) mid, frames⟩ := by
        simp [step, hmid]
      rw [List.foldlM_cons, hstep]
      simpa using ih h

theorem next_closing {c : Char} (h : c = ',' ∨ c = ']' ∨ c = '}') (part : NumberPart) :
    part.next c = none ∧ isBlank c = false := by
  rcases h with rfl | rfl | rfl <;> cases part <;> decide

theorem beginValue_number {c : Char} (h : NumberPart.begin c = some part) (frames : List Frame) :
    beginValue frames c = some ⟨.number [c] part, frames⟩ ∧ isBlank c = false ∧ c ≠ ']' := by
  have hdigit (d : Char) (h : isDigit d = true) (e : Char) (he : isDigit e = false) :
      d ≠ e := by
    rintro rfl
    rw [h] at he
    cases he
  unfold NumberPart.begin at h
  split_ifs at h with h₁ h₂ h₃
  · cases h
    subst h₁
    exact ⟨rfl, by decide, by decide⟩
  · cases h
    subst h₂
    exact ⟨rfl, by decide, by decide⟩
  · cases h
    have hne := hdigit c h₃
    refine ⟨?_, ?_, hne ']' (by decide)⟩
    · simp [beginValue, h₁, h₂, h₃, hne '{' (by decide), hne '[' (by decide),
        hne '"' (by decide)]
    · simp [isBlank, hne ' ' (by decide), hne '\t' (by decide), hne '\n' (by decide),
        hne '\r' (by decide)]

theorem reads_number {literal : String} (h : isLiteral literal = true) :
    Reads literal.toList (.number literal) := by
  unfold isLiteral at h
  cases hl : literal.toList with
  | nil => simp [hl] at h
  | cons c cs =>
      rw [hl] at h
      obtain ⟨part, hpart, hcomplete⟩ := (Option.any_eq_true _ _).mp h
      obtain ⟨first, hfirst, hrest⟩ := Option.bind_eq_some_iff.mp hpart
      have hbegin := beginValue_number hfirst
      refine ⟨c, cs, rfl, (hbegin []).2.1, (hbegin []).2.2, ?_⟩
      intro frames
      have htext : String.ofList (cs.reverse ++ [c]).reverse = literal := by
        simp [← hl]
      refine ⟨⟨.number (cs.reverse ++ [c]) part, frames⟩, ?_, ?_, ?_⟩
      · rw [(hbegin frames).1]
        exact step_number hrest
      · intro d hd
        obtain ⟨hnext, hblank⟩ := next_closing hd part
        simp [step, hnext, hcomplete, hblank, ← hl]
      · rintro rfl
        simp [finish, hcomplete, ← hl]

end Number

/-- A value read inside an array or object. -/
theorem Reads.value {cs : List Char} {j : Json} (h : Reads cs j) (frames : List Frame) :
    ∃ s, cs.foldlM step ⟨.value, frames⟩ = some s ∧ Behind s j frames := by
  obtain ⟨c, rest, rfl, hblank, -, hreads⟩ := h.reads
  obtain ⟨s, hs, hbehind⟩ := hreads frames
  refine ⟨s, ?_, hbehind⟩
  simpa [List.foldlM_cons, step, hblank] using hs

/-- The first item of an array. -/
theorem Reads.firstItem {cs : List Char} {j : Json} (h : Reads cs j) (frames : List Frame) :
    ∃ s, cs.foldlM step ⟨.firstItem, frames⟩ = some s ∧
      Behind s j (.array [] :: frames) := by
  obtain ⟨c, rest, rfl, hblank, hclose, hreads⟩ := h.reads
  obtain ⟨s, hs, hbehind⟩ := hreads (.array [] :: frames)
  refine ⟨s, ?_, hbehind⟩
  simpa [List.foldlM_cons, step, hblank, hclose] using hs

/-- A member's name, in a state that waits for one. -/
theorem step_name {slash : Bool} {mode : Mode} {before : List (String × Json)} {frames : List Frame}
    (name : String)
    (hmode : step ⟨mode, frames⟩ '"' = some ⟨.text (.name before) [] .plain, frames⟩) :
    (quote slash name).foldlM step ⟨mode, frames⟩ = some ⟨.colon before name, frames⟩ := by
  rw [quote, List.cons_append, List.foldlM_cons, hmode, ← endText_name]
  exact step_quoted slash frames (.name before) name

theorem step_colon (before : List (String × Json)) (name : String) (frames : List Frame) :
    step ⟨.colon before name, frames⟩ ':' = some ⟨.value, .object before name :: frames⟩ := rfl

mutual

/-- By recursion on the value; an array and an object read their parts in turn. -/
theorem reads_print (slash : Bool) (j : Json) (h : j.WellFormed) : Reads (j.print slash) j := by
  match j with
  | .null => exact .of_done (by decide) (by decide) fun _ => rfl
  | .bool true => exact .of_done (by decide) (by decide) fun _ => rfl
  | .bool false => exact .of_done (by decide) (by decide) fun _ => rfl
  | .number literal => exact reads_number h
  | .string value =>
      refine .of_done (by decide) (by decide) ?_
      intro frames
      simpa [beginValue, endText_value] using step_quoted slash frames .value value
  | .array [] => exact .of_done (by decide) (by decide) fun _ => rfl
  | .array (item :: items) =>
      refine .of_done (by decide) (by decide) ?_
      intro frames
      obtain ⟨s, hs, hbehind⟩ := (reads_print slash item h.1).firstItem frames
      have hrest := reads_items slash items h.2 [] item frames hbehind
      simpa [beginValue, printItems, List.foldlM_append, hs] using hrest
  | .object [] => exact .of_done (by decide) (by decide) fun _ => rfl
  | .object ((name, value) :: members) =>
      refine .of_done (by decide) (by decide) ?_
      intro frames
      obtain ⟨s, hs, hbehind⟩ := (reads_print slash value h.1).value (.object [] name :: frames)
      have hname : (quote slash name).foldlM step ⟨.firstName, frames⟩ =
          some ⟨.colon [] name, frames⟩ := step_name name rfl
      have hrest := reads_members slash members h.2 [] name value frames hbehind
      simpa [beginValue, printMembers, List.foldlM_append, hname, step_colon, hs] using hrest

theorem reads_items (slash : Bool) (items : List Json) (h : WellFormedItems items)
    (before : List Json) (last : Json) (frames : List Frame) {s : State}
    (hs : Behind s last (.array before :: frames)) :
    (printItems slash false items).foldlM step s =
      some ⟨.done (.array (before.reverse ++ last :: items)), frames⟩ := by
  match items with
  | [] =>
      have hclose := hs.follows ']' (by simp)
      simp [printItems, hclose, afterValue]
  | item :: items =>
      have hcomma := hs.follows ',' (by simp)
      obtain ⟨t, ht, hbehind⟩ :=
        (reads_print slash item h.1).value (.array (last :: before) :: frames)
      have hrest := reads_items slash items h.2 (last :: before) item frames hbehind
      simpa [printItems, hcomma, afterValue, List.foldlM_append, ht] using hrest

theorem reads_members (slash : Bool) (members : List (String × Json))
    (h : WellFormedMembers members) (before : List (String × Json)) (name : String)
    (last : Json) (frames : List Frame) {s : State}
    (hs : Behind s last (.object before name :: frames)) :
    (printMembers slash false members).foldlM step s =
      some ⟨.done (.object (before.reverse ++ (name, last) :: members)), frames⟩ := by
  match members with
  | [] =>
      have hclose := hs.follows '}' (by simp)
      simp [printMembers, hclose, afterValue]
  | (name', value) :: members =>
      have hcomma := hs.follows ',' (by simp)
      obtain ⟨t, ht, hbehind⟩ :=
        (reads_print slash value h.1).value (.object ((name, last) :: before) name' :: frames)
      have hname : (quote slash name').foldlM step ⟨.nextName ((name, last) :: before), frames⟩ =
          some ⟨.colon ((name, last) :: before) name', frames⟩ := step_name name' rfl
      have hrest :=
        reads_members slash members h.2 ((name, last) :: before) name' value frames hbehind
      simpa [printMembers, hcomma, afterValue, List.foldlM_append, hname, step_colon, ht]
        using hrest

end

/-- A printed value is read back. -/
theorem parse_stringify (slash : Bool) {j : Json} (h : j.WellFormed) :
    parse (j.stringify slash) = some j := by
  obtain ⟨s, hs, hbehind⟩ := (reads_print slash j h).value []
  have hrun : (print slash j).foldlM step start = some s := hs
  simp [parse, stringify, hrun, hbehind.finishes rfl]

end FieldNote.Json
