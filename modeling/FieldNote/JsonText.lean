import Mathlib.Data.String.Basic

/-!
# JSON values and their texts

`parse` reads a text character by character; its state is what may come next together with
the arrays and objects that are still open, so it stops on every text. Texts are checked
against the grammar of RFC 8259. A number is kept as its literal, and a string is decoded as
UTF-16 code units, a lone surrogate reading as U+FFFD.
-/
namespace FieldNote

inductive Json where
  | null
  | bool (value : Bool)
  | number (literal : String)
  | string (value : String)
  | array (items : List Json)
  | object (members : List (String × Json))

namespace Json

/-- The value of a member; of members with one name the last one counts. -/
def member (name : String) (members : List (String × Json)) : Option Json :=
  (members.reverse.find? fun m => m.1 = name).map Prod.snd

/-- The code units of a character. -/
def units (c : Char) : List ℕ :=
  let n := c.toNat
  if n < 0x10000 then [n] else [0xD800 + (n - 0x10000) / 0x400, 0xDC00 + (n - 0x10000) % 0x400]

def isHigh (u : ℕ) : Bool := 0xD800 ≤ u && u < 0xDC00
def isLow (u : ℕ) : Bool := 0xDC00 ≤ u && u < 0xE000

/-- The characters that a list of code units spells. -/
def decode : List ℕ → List Char
  | [] => []
  | [u] => [if isHigh u || isLow u then Char.ofNat 0xFFFD else Char.ofNat u]
  | u :: v :: rest =>
      if isHigh u && isLow v then
        Char.ofNat (0x10000 + (u - 0xD800) * 0x400 + (v - 0xDC00)) :: decode rest
      else
        (if isHigh u || isLow u then Char.ofNat 0xFFFD else Char.ofNat u) :: decode (v :: rest)

/-- Where a number literal stands; it may end at `zero`, `digits`, `decimals` and
`exponent`. -/
inductive NumberPart where
  | minus
  | zero
  | digits
  | point
  | decimals
  | e
  | sign
  | exponent
deriving DecidableEq

def isDigit (c : Char) : Bool := '0' ≤ c && c ≤ '9'

def NumberPart.next (c : Char) : NumberPart → Option NumberPart
  | .minus => if c = '0' then some .zero else if isDigit c then some .digits else none
  | .zero =>
      if c = '.' then some .point else if c = 'e' || c = 'E' then some .e else none
  | .digits =>
      if isDigit c then some .digits else if c = '.' then some .point
      else if c = 'e' || c = 'E' then some .e else none
  | .point => if isDigit c then some .decimals else none
  | .decimals =>
      if isDigit c then some .decimals else if c = 'e' || c = 'E' then some .e else none
  | .e =>
      if isDigit c then some .exponent else if c = '+' || c = '-' then some .sign else none
  | .sign | .exponent => if isDigit c then some .exponent else none

def NumberPart.complete : NumberPart → Bool
  | .zero | .digits | .decimals | .exponent => true
  | _ => false

/-- Inside a string: plain, behind a backslash, or in the digits of a `\u` escape. -/
inductive Escape where
  | plain
  | slash
  | hex (digits value : ℕ)
deriving DecidableEq

/-- What a string is read for: a value, or the name of the next member of an object. -/
inductive Purpose where
  | value
  | name (before : List (String × Json))

/-- An open array or object, with the items before the one that is being read, latest
first. -/
inductive Frame where
  | array (before : List Json)
  | object (before : List (String × Json)) (name : String)

inductive Mode where
  | value
  | firstItem
  | firstName
  | nextName (before : List (String × Json))
  | colon (before : List (String × Json)) (name : String)
  | text (purpose : Purpose) (reversed : List ℕ) (escape : Escape)
  | number (reversed : List Char) (part : NumberPart)
  | word (rest : List Char) (value : Json)
  | done (value : Json)

/-- What may come next, and the frames around it, innermost first. -/
structure State where
  mode : Mode
  frames : List Frame

def start : State := ⟨.value, []⟩

def isBlank (c : Char) : Bool := c = ' ' || c = '\t' || c = '\n' || c = '\r'

/-- The first character of a value. -/
def beginValue (frames : List Frame) (c : Char) : Option State :=
  if c = '{' then some ⟨.firstName, frames⟩
  else if c = '[' then some ⟨.firstItem, frames⟩
  else if c = '"' then some ⟨.text .value [] .plain, frames⟩
  else if c = '-' then some ⟨.number [c] .minus, frames⟩
  else if c = '0' then some ⟨.number [c] .zero, frames⟩
  else if isDigit c then some ⟨.number [c] .digits, frames⟩
  else if c = 't' then some ⟨.word ['r', 'u', 'e'] (.bool true), frames⟩
  else if c = 'f' then some ⟨.word ['a', 'l', 's', 'e'] (.bool false), frames⟩
  else if c = 'n' then some ⟨.word ['u', 'l', 'l'] .null, frames⟩
  else none

/-- The character behind a value: the end of its frame or the next item. -/
def afterValue (value : Json) (c : Char) : List Frame → Option State
  | .array before :: frames =>
      if c = ',' then some ⟨.value, .array (value :: before) :: frames⟩
      else if c = ']' then some ⟨.done (.array (value :: before).reverse), frames⟩
      else none
  | .object before name :: frames =>
      if c = ',' then some ⟨.nextName ((name, value) :: before), frames⟩
      else if c = '}' then some ⟨.done (.object ((name, value) :: before).reverse), frames⟩
      else none
  | [] => none

def hexDigit (c : Char) : Option ℕ :=
  if isDigit c then some (c.toNat - '0'.toNat)
  else if 'a' ≤ c && c ≤ 'f' then some (c.toNat - 'a'.toNat + 10)
  else if 'A' ≤ c && c ≤ 'F' then some (c.toNat - 'A'.toNat + 10)
  else none

/-- The character that a one-letter escape stands for. -/
def escaped (c : Char) : Option Char :=
  if c = '"' || c = '\\' || c = '/' then some c
  else if c = 'b' then some (Char.ofNat 8)
  else if c = 'f' then some (Char.ofNat 12)
  else if c = 'n' then some '\n'
  else if c = 'r' then some '\r'
  else if c = 't' then some '\t'
  else none

def endText (frames : List Frame) (reversed : List ℕ) : Purpose → State
  | .value => ⟨.done (.string (String.ofList (decode reversed.reverse))), frames⟩
  | .name before => ⟨.colon before (String.ofList (decode reversed.reverse)), frames⟩

/-- One character of a string; control characters must be escaped. -/
def stepText (frames : List Frame) (purpose : Purpose) (reversed : List ℕ) (c : Char) :
    Escape → Option State
  | .plain =>
      if c = '"' then some (endText frames reversed purpose)
      else if c = '\\' then some ⟨.text purpose reversed .slash, frames⟩
      else if c.toNat < 0x20 then none
      else some ⟨.text purpose ((units c).reverse ++ reversed) .plain, frames⟩
  | .slash =>
      if c = 'u' then some ⟨.text purpose reversed (.hex 0 0), frames⟩
      else (escaped c).map fun c' => ⟨.text purpose (c'.toNat :: reversed) .plain, frames⟩
  | .hex digits value =>
      (hexDigit c).map fun d =>
        if digits = 3 then ⟨.text purpose ((value * 16 + d) :: reversed) .plain, frames⟩
        else ⟨.text purpose reversed (.hex (digits + 1) (value * 16 + d)), frames⟩

def step (s : State) (c : Char) : Option State :=
  match s.mode with
  | .text purpose reversed escape => stepText s.frames purpose reversed c escape
  | .number reversed part =>
      match part.next c with
      | some part => some ⟨.number (c :: reversed) part, s.frames⟩
      | none =>
          let value := Json.number (String.ofList reversed.reverse)
          if !part.complete then none
          else if isBlank c then some ⟨.done value, s.frames⟩
          else afterValue value c s.frames
  | .word rest value =>
      match rest with
      | [] => none
      | [last] => if c = last then some ⟨.done value, s.frames⟩ else none
      | first :: rest => if c = first then some ⟨.word rest value, s.frames⟩ else none
  | .value => if isBlank c then some s else beginValue s.frames c
  | .firstItem =>
      if isBlank c then some s
      else if c = ']' then some ⟨.done (.array []), s.frames⟩
      else beginValue (.array [] :: s.frames) c
  | .firstName =>
      if isBlank c then some s
      else if c = '}' then some ⟨.done (.object []), s.frames⟩
      else if c = '"' then some ⟨.text (.name []) [] .plain, s.frames⟩
      else none
  | .nextName before =>
      if isBlank c then some s
      else if c = '"' then some ⟨.text (.name before) [] .plain, s.frames⟩
      else none
  | .colon before name =>
      if isBlank c then some s
      else if c = ':' then some ⟨.value, .object before name :: s.frames⟩
      else none
  | .done value => if isBlank c then some s else afterValue value c s.frames

/-- A text may end behind its value, outside of every array and object. -/
def finish (s : State) : Option Json :=
  match s.mode, s.frames with
  | .done value, [] => some value
  | .number reversed part, [] =>
      if part.complete then some (.number (String.ofList reversed.reverse)) else none
  | _, _ => none

/-- `JSON.parse`; `none` where it throws a `SyntaxError`. -/
def parse (text : String) : Option Json := (text.toList.foldlM step start).bind finish

example : (parse "\x7b\"a\": [1, -0.5e+3, null]\x7d").isSome = true := by decide
example : (parse "[1,]").isNone = true := by decide

end Json
end FieldNote
