/-
Decoding of JSON values whose form is known.

A member that is missing or null has its default, where there is one; a value of another type
than the one that is asked for is an error that says what was expected.
-/
import DocIndex.Json.Value

namespace DocIndex

/-- What decoding gives: a value, or what was expected. -/
abbrev Decoded := Except String

namespace Json

/-- The value of a member unless it is missing or null. -/
def given? (j : Json) (key : String) : Option Json :=
  match j.member? key with
  | some .null => none
  | found => found

/-- The value of a member. -/
def need (j : Json) (key : String) : Decoded Json :=
  match j.member? key with
  | some value => .ok value
  | none => .error key

def asText : Json → Decoded String
  | .text s => .ok s
  | _ => .error "text"

def asInt : Json → Decoded Int
  | .int n => .ok n
  | _ => .error "integer"

def asNat (j : Json) : Decoded Nat := j.asInt.map Int.toNat

def asBool : Json → Decoded Bool
  | .bool b => .ok b
  | _ => .error "boolean"

def asDouble : Json → Decoded Double
  | .int n => .ok (Double.ofInt n)
  | .double x => .ok x
  | _ => .error "number"

def asItems : Json → Decoded (List Json)
  | .array items => .ok items
  | _ => .error "array"

def asMembers : Json → Decoded (List (String × Json))
  | .object members => .ok members
  | _ => .error "object"

def asTexts (j : Json) : Decoded (List String) := do (← j.asItems).mapM asText

def asNats (j : Json) : Decoded (List Nat) := do (← j.asItems).mapM asNat

/-- A member that is decoded if it is given. -/
def optional {α : Type} (j : Json) (key : String) (decode : Json → Decoded α) :
    Decoded (Option α) :=
  match j.given? key with
  | some value => (decode value).map some
  | none => .ok none

/-- A member that is decoded, or its default. -/
def memberOr {α : Type} (j : Json) (key : String) (default : α) (decode : Json → Decoded α) :
    Decoded α :=
  (j.optional key decode).map fun found => found.getD default

def textAt (j : Json) (key : String) : Decoded String := j.need key >>= asText

def textOr (j : Json) (key default : String) : Decoded String := j.memberOr key default asText

def natOr (j : Json) (key : String) (default : Nat) : Decoded Nat := j.memberOr key default asNat

def boolOr (j : Json) (key : String) (default : Bool) : Decoded Bool :=
  j.memberOr key default asBool

/-- The items of a member, none by default. -/
def itemsAt (j : Json) (key : String) : Decoded (List Json) := j.memberOr key [] asItems

/-- The texts of a member, none by default. -/
def textsAt (j : Json) (key : String) : Decoded (List String) := j.memberOr key [] asTexts

/-! ### Making values -/

def ofNat (n : Nat) : Json := .int n

/-- A value, or null. -/
def ofOption {α : Type} (encode : α → Json) : Option α → Json
  | some value => encode value
  | none => .null

/-- The array of encoded values. -/
def ofList {α : Type} (encode : α → Json) (values : List α) : Json := .array (values.map encode)

def ofTexts (texts : List String) : Json := ofList .text texts

end Json

end DocIndex
