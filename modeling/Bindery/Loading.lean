import Bindery.Json.Reader
import Bindery.Location.Basic
import Bindery.Text.Case
import Bindery.Yaml.Reading

/-!
# Loading documents

A document is the text of a file, of a response or of the standard input.  The
ending of its name tells its format; where it tells none, the text is read as
YAML and, if that fails, as JSON.  The root of a document is a mapping.
-/

namespace Bindery

inductive Format where
  | json
  | yaml
deriving DecidableEq, Repr

namespace Loading

def readYaml (content : String) : Except Fault (Except String Value) :=
  match Yaml.read content with
  | .ok value => .ok (.ok value)
  | .error (.malformed reason) => .ok (.error ("YAML error: " ++ reason))
  | .error (.unusable cause) => .error (.shape cause)

def readJson (content : String) : Except String Value :=
  (Json.read content).mapError ("JSON error: " ++ ·)

/-- Reads a text in a format, or in any if none is given; the reasons of all failures. -/
def readValue (content : String) : Option Format → Except Fault (Except (List String) Value)
  | some .json => .ok ((readJson content).mapError ([·]))
  | some .yaml => do return (← readYaml content).mapError ([·])
  | none => do
    match ← readYaml content with
    | .ok value => return .ok value
    | .error reason => return (readJson content).mapError ([reason, ·])

/-- The word for what stands at the root instead of a mapping. -/
def rootWord : Value → String
  | .null => "empty document"
  | value => value.kindName

def read (content : String) (format : Option Format) (origin : String) : Except Fault Value := do
  match ← readValue content format with
  | .error reasons => throw (.document (.unparsable origin reasons))
  | .ok (.map entries) => return .map entries
  | .ok value => throw (.document (.rootKind origin (rootWord value)))

def formatOfFile (path : String) : Option Format :=
  match Text.lower (Path.ofText path).suffix with
  | ".json" => some .json
  | ".yaml" => some .yaml
  | ".yml" => some .yaml
  | _ => none

def ofFile (path content : String) : Except Fault Value :=
  let content := Text.unifyLineEnds content
  if Text.isBlankText content then .error (.document (.empty path))
  else read content (formatOfFile path) path

def ofBytes (path : String) (bytes : List UInt8) : Except Fault Value :=
  match Text.ofUtf8? bytes with
  | none => .error (.shape .badEncoding)
  | some content => ofFile path content

def ofInput (content : String) : Except Fault Value :=
  if Text.isBlankText content then .error (.document .noInput)
  else read content none "stdin"

def formatOfUrl (url : String) : Option Format :=
  if Text.endsWith (Text.lower (Text.cut '?' url).1) ".json" then some .json else none

def ofResponse (url : String) (status : Nat) (body : String) : Except Fault Value :=
  if 200 ≤ status ∧ status < 300 then read body (formatOfUrl url) url
  else .error (.document (.httpStatus status url))

end Loading

end Bindery
