import Bindery.Location.Path
import Bindery.Naming.Reserved
import Bindery.Record.Field
import Bindery.Text.Identifier

/-!
# Settings of a run

The settings say which document is read, where the package goes and what it is
called, and which parts of it are emitted.  They are built once from entries of
unchecked values; every field whose value cannot be read is reported.
-/

namespace Bindery

structure Settings where
  input : String
  output : Path
  package : String := "api"
  client : Bool := true
  server : Bool := false
  strictObjects : Bool := false
  forceValidation : Bool := false
  fetchTimeout : Double := .ofFraction false 30 1

namespace Settings

def isPackageName (name : String) : Bool :=
  Text.isIdentifier name && !Naming.isKeyword name

def packageName (value : Value) : Except FieldFault String := do
  let name ← Field.text value
  if isPackageName name then return name else throw .rejected

def path (value : Value) : Except FieldFault Path :=
  match value with
  | .str text => .ok (Path.ofText text)
  | _ => .error .notPath

def fieldOr {α : Type} (read : Value → Except FieldFault α) (default : α) (entries : Entries)
    (name : String) : Except FieldFault α :=
  match entries.get? name with
  | none => .ok default
  | some value => read value

def ofEntries (entries : Entries) : Except (List FieldProblem) Settings :=
  let input := Field.text ((entries.get? "input").getD .null)
  let output := path ((entries.get? "output_dir").getD .null)
  let package := fieldOr packageName "api" entries "package"
  let client := fieldOr Field.truth true entries "client"
  let server := fieldOr Field.truth false entries "server"
  let strictObjects := fieldOr Field.truth false entries "strict_objects"
  let forceValidation := fieldOr Field.truth false entries "force_validation"
  let fetchTimeout := fieldOr Field.number (.ofFraction false 30 1) entries "fetch_timeout"
  match input, output, package, client, server, strictObjects, forceValidation, fetchTimeout with
  | .ok input, .ok output, .ok package, .ok client, .ok server, .ok strictObjects,
      .ok forceValidation, .ok fetchTimeout =>
    .ok { input, output, package, client, server, strictObjects, forceValidation, fetchTimeout }
  | _, _, _, _, _, _, _, _ =>
    .error (Field.problem? "input" input ++ Field.problem? "output_dir" output ++
      Field.problem? "package" package ++ Field.problem? "client" client ++
      Field.problem? "server" server ++ Field.problem? "strict_objects" strictObjects ++
      Field.problem? "force_validation" forceValidation ++
      Field.problem? "fetch_timeout" fetchTimeout)

end Settings

end Bindery
