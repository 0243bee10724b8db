import Runbook.Error.Failure
import Runbook.Host.Files
import Runbook.Text.Lines
import Runbook.Yaml.Document

set_option autoImplicit false

/-! # Documents from text and from files -/

namespace Runbook

namespace Node

/-- What a fault in a text does to the reading of a document. Whatever is not well-formed is
    reported as such; a value that its type does not admit is an error of its own. -/
def sourceFailure : Yaml.Fault → Failure
  | .malformed => .because .badYaml (.of .yaml)
  | fault => .of (.badValue fault)

/-- The document that a text holds. -/
def ofSource (text : String) : Except Failure Node := (Yaml.read text).mapError sourceFailure

end Node

namespace Node

/-- A document that is handed on in writing. -/
def written (n : Node) : Except Failure Node := if n.isWritable then .ok n else .error .unwritable

end Node

/-- The text of some bytes, with the line ends of a file. -/
def sourceOfBytes (content : Bytes) : Except Failure String :=
  match Text.decode content with
  | .ok cs => .ok (String.ofList (Text.unifyNewlines cs.toList))
  | .error fault => .error (.of (.undecodable fault))

namespace Path

/-- Reads the document in a file. -/
def document (p : Path) : Action Node := do
  let content ← p.call (.openDocument p.toText) FileTree.read
  Effect.ofExcept ((sourceOfBytes content).bind Node.ofSource)

end Path
end Runbook
