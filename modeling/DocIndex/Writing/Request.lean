/-
Requests to change the documents of an index, and the edits that they are converted to.

Requests are converted in chunks.  If one request of a chunk cannot be converted, nothing of
the chunk is.
-/
import DocIndex.Document.Builder
import DocIndex.Text.Identifier

namespace DocIndex

/-- A request to change the documents of an index. -/
inductive WriteRequest where
  /-- Adds a document, whether or not there is one of its identity. -/
  | create (document : Json)
  /-- Puts a document in place of all of its identity. -/
  | update (document : Json)
  /-- Deletes all documents of an identity. -/
  | delete (id : String)

/-- A request in the form in which it is made. -/
inductive Edit where
  | add (document : BuiltDocument)
  | replace (document : BuiltDocument)
  | delete (id : String)

namespace DocumentBuilder

variable (builder : DocumentBuilder)

/-- Converts a request; a new document without an identity takes `freshId`. -/
def convertOne (freshId : String) : WriteRequest → Except Error Edit
  | .create document => do
    return .add (← builder.build (← builder.prepare document freshId))
  | .update document =>
    if (builder.identity? document).isSome then do
      return .replace (← builder.build (← builder.prepare document freshId))
    else .error (.updateWithoutIdentity builder.config.identityField)
  | .delete id => .ok (.delete id)

/-- Converts a chunk of requests up to the first that cannot be converted. -/
def convert (next : IdentifierSupply) : List WriteRequest → Except Error (List Edit)
  | [] => .ok []
  | request :: rest => do
    let edit ← builder.convertOne (Identifier.ofNat next) request
    return edit :: (← convert (next + 1) rest)

end DocumentBuilder

end DocIndex
