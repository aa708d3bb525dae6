/-
What a document is to the index: a list of named fields, each with a value of one of the
kinds that the index can hold.
-/
import DocIndex.Data.Bytes
import DocIndex.Number.Double

namespace DocIndex

/-- The kinds of values that the index holds, in the order in which they are listed. -/
inductive FieldKind where
  /-- An exact term. -/
  | term
  /-- Text that is cut into terms. -/
  | text
  | long
  | double
  /-- Bytes that are kept but not searched. -/
  | stored
deriving DecidableEq, Ord, Repr

namespace FieldKind

/-- The kind's name. -/
def name : FieldKind → String
  | term => "Term"
  | text => "Text"
  | long => "Long"
  | double => "Double"
  | stored => "Stored"

def all : List FieldKind := [term, text, long, double, stored]

/-- The kind of a name. -/
def ofName? (s : String) : Option FieldKind := all.find? fun kind => kind.name == s

/-- Whether the index holds terms of the field. -/
def isLexical : FieldKind → Bool
  | term | text => true
  | _ => false

/-- Whether the index holds numbers of the field. -/
def isNumeric : FieldKind → Bool
  | long | double => true
  | _ => false

end FieldKind

/-- The value of a field. -/
inductive FieldValue where
  | term (value : String)
  | text (value analyzer : String)
  | long (value : Int)
  | double (value : Double)
  | stored (bytes : Bytes)
deriving DecidableEq

namespace FieldValue

def kind : FieldValue → FieldKind
  | term _ => .term
  | text _ _ => .text
  | long _ => .long
  | double _ => .double
  | stored _ => .stored

end FieldValue

/-- A named value, and whether it is kept and searched. -/
structure Field where
  name : String
  value : FieldValue
  stored : Bool
  indexed : Bool
deriving DecidableEq

namespace Field

/-- A searched exact term. -/
def term (name value : String) : Field := ⟨name, .term value, false, true⟩

/-- Searched text. -/
def text (name value analyzer : String) : Field := ⟨name, .text value analyzer, false, true⟩

/-- A searched integer. -/
def long (name : String) (value : Int) : Field := ⟨name, .long value, false, true⟩

/-- A searched floating point number. -/
def double (name : String) (value : Double) : Field := ⟨name, .double value, false, true⟩

/-- Bytes that are only kept. -/
def bytes (name : String) (value : Bytes) : Field := ⟨name, .stored value, true, false⟩

def kind (f : Field) : FieldKind := f.value.kind

/-- The name of a derived field, such as the ticks of a date. -/
def derivedName (name part : String) : String := name ++ ".@" ++ part

end Field

/-- The fields of a document, in order. -/
abbrev Document := List Field

namespace Document

/-- The fields of one name. -/
def named (d : Document) (name : String) : List Field := d.filter fun f => f.name == name

end Document

end DocIndex
