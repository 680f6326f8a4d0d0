import Bindery.Diagnostic
import Bindery.Dialect.Lift

/-!
# Normal documents

Every document is brought to the 3.1 shape before anything reads it: a 2.0 document
by both conversions, a 3.0 document by the second, and any other as it is.
-/

namespace Bindery

structure NormalDocument where
  location : String
  dialect : Dialect
  root : Entries
deriving DecidableEq

structure Server where
  url : String
  description : Option String
deriving DecidableEq, Repr

namespace NormalDocument

def checkEntries (entries : Entries) : Except Fault Entries :=
  if !entries.has "swagger" && !entries.has "openapi" then .error (.document .noVersion)
  else
    match entries.get? "info" with
    | some (.map _) =>
      match entries.get? "paths" with
      | none => .ok entries
      | some (.scalar .null) => .ok entries
      | some (.map _) => .ok entries
      | some _ => .error (.document .pathsNotMapping)
    | _ => .error (.document .noInfo)

def check : Value → Except Fault Entries
  | .map entries => checkEntries entries
  | _ => .error (.document .rootNotMapping)

def unknownVersion (entries : Entries) (location : String) : Diagnostic :=
  let version := ((entries.get? "openapi").orElse fun _ => entries.get? "swagger").getD .null
  { code := .unknownDialect
    message := "Unrecognised version " ++ version.literal ++ "; document passed through unchanged"
    location := some location }

def convert (document : Value) : Dialect → Except Fault Value
  | .v20 => do Dialect.upgrade (← Dialect.lift document)
  | .v30 => Dialect.upgrade document
  | .v31 => .ok document
  | .unknown => .ok document

def checkKeys (root : Entries) : Except Fault Unit :=
  if root.all fun entry => entry.1.isTextual then .ok ()
  else .error (.invalid .document [{ field := "tree", fault := .notText }])

def ofDocument (document : Value) (location : String) :
    Except Fault (NormalDocument × List Diagnostic) := do
  let entries ← check document
  let dialect := Dialect.ofEntries entries
  let root ← (← convert document dialect).needEntries
  let _ ← checkKeys root
  let diagnostics := if dialect = .unknown then [unknownVersion entries location] else []
  return ({ location, dialect, root }, diagnostics)

def tree (document : NormalDocument) : Value := .map document.root

def version (document : NormalDocument) : String :=
  ((document.root.get? "openapi").map Value.text).getD ""

def title (document : NormalDocument) : Except Fault String := do
  let info ← Value.entriesOrNone (document.root.present? "info")
  return ((info.get? "title").map Value.text).getD "Untitled API"

def paths (document : NormalDocument) : Value :=
  (document.root.present? "paths").getD (.map [])

def components (document : NormalDocument) : Value :=
  (document.root.present? "components").getD (.map [])

/-- The security requirements of the whole document, whatever their shape. -/
def security (document : NormalDocument) : Value :=
  (document.root.present? "security").getD (.list [])

def server (entries : Entries) : Except Fault Server :=
  let url : Except FieldProblem String := match entries.get? "url" with
    | none => .ok "/"
    | some (.str url) => .ok url
    | some _ => .error { field := "url", fault := .notText }
  let description : Except FieldProblem (Option String) := match entries.get? "description" with
    | none => .ok none
    | some .null => .ok none
    | some (.str description) => .ok (some description)
    | some _ => .error { field := "description", fault := .notText }
  match url, description with
  | .ok url, .ok description => .ok { url, description }
  | .error first, .error second => .error (.invalid .server [first, second])
  | .error problem, _ => .error (.invalid .server [problem])
  | _, .error problem => .error (.invalid .server [problem])

/-- The servers; entries that are no maps are left out. -/
def servers (document : NormalDocument) : Except Fault (List Server) := do
  let items ← Value.itemsOrNone (document.root.present? "servers")
  (items.filterMap Value.toEntries?).mapM server

end NormalDocument

end Bindery
