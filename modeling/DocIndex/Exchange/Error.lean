/-
JSON forms of errors.

An error is shown by its kind and its message.  Where the message would only repeat what a
codec or the system says, it is left out, and what a reader of JSON says is left open.
-/
import DocIndex.Error
import DocIndex.Json.Decode

namespace DocIndex

namespace Error

/-- The message as it is shown. -/
def shownMessage? : Error → Option String
  | inaccessible _ | damaged .codec | damaged .record => none
  | malformedJson => some "JSON error: ..."
  | damaged .segmentsFile => some "segments file: ..."
  | e => some e.message

def toJson (e : Error) : Json :=
  .ofMembers (("error", .text e.kind.name) ::
    (e.shownMessage?.map fun message => ("message", Json.text message)).toList)

end Error

/-- The JSON form of a result: what was made, or the error. -/
def Json.ofResult {α : Type} (encode : α → Json) : Except Error α → Json
  | .ok a => encode a
  | .error e => e.toJson

def Query.SyntaxError.toJson (e : Query.SyntaxError) : Json :=
  .ofMembers [("error", .text "ParseError"), ("position", .ofNat e.position),
    ("message", .text e.problem.message)]

end DocIndex
