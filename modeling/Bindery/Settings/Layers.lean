import Bindery.Json.Reader
import Bindery.Settings.Basic
import Bindery.Text.Case
import Bindery.Value.Shape

/-!
# Layers of settings

Settings come in layers: the options of the command line, the environment, the
project file in the working directory, and the defaults.  An upper layer stands
before the lower ones, field by field.
-/

namespace Bindery

structure Options where
  input : Option String := none
  output : Option Path := none
  package : Option String := none
  client : Option Bool := none
  server : Option Bool := none
  strictObjects : Option Bool := none
  forceValidation : Option Bool := none
  fetchTimeout : Option Double := none

namespace Settings

def projectFile : String := "specgen.json"

def projectEntries (place : String) (content : String) : Except Fault Entries :=
  match Json.read (Text.unifyLineEnds content) with
  | .error message => .error (.settings (.unreadable place message))
  | .ok (.map entries) => .ok entries
  | .ok _ => .error (.settings (.notObject place))

def textVariables : List (String × String) :=
  [("input", "SPECGEN_INPUT"), ("output_dir", "SPECGEN_OUTPUT"), ("package", "SPECGEN_PACKAGE")]

def truthVariables : List (String × String) :=
  [("strict_objects", "SPECGEN_STRICT"), ("force_validation", "SPECGEN_FORCE_VALIDATION")]

def readTruth (variableName raw : String) : Except Fault Bool :=
  let word := Text.lower (Text.trim raw)
  if ["1", "true", "yes", "on"].contains word then .ok true
  else if ["0", "false", "no", "off", ""].contains word then .ok false
  else .error (.settings (.badFlag variableName raw))

def environmentEntries (environment : List (String × String)) : Except Fault Entries := do
  let texts : Entries := textVariables.filterMap fun (field, variableName) =>
    (environment.lookup variableName).map fun raw => (.str field, .str raw)
  let truths ← truthVariables.filterMapM fun (field, variableName) =>
    match environment.lookup variableName with
    | none => pure none
    | some raw => do return some (Scalar.str field, Value.bool (← readTruth variableName raw))
  return texts ++ truths

def optionEntries (options : Options) : Entries :=
  let given {α : Type} (field : String) (encode : α → Value) (option : Option α) : Entries :=
    (option.map fun value => (Scalar.str field, encode value)).toList
  given "input" .str options.input ++
    given "output_dir" (fun (path : Path) => .str path.text) options.output ++
    given "package" .str options.package ++ given "client" .bool options.client ++
    given "server" .bool options.server ++ given "strict_objects" .bool options.strictObjects ++
    given "force_validation" .bool options.forceValidation ++
    given "fetch_timeout" .float options.fetchTimeout

def overlay (lower upper : Entries) : Entries :=
  upper.foldl (fun merged entry => merged.put entry.1 entry.2) lower

def checkGiven (merged : Entries) (field setting option variableName : String) :
    Except Fault Unit :=
  if (merged.present? field).isSome then .ok ()
  else .error (.settings (.missing setting option variableName field projectFile))

/-- The settings of a run, from the text of the project file if there is one, the environment, and
the options. -/
def resolve (projectPlace : String) (project : Option String)
    (environment : List (String × String)) (options : Options) : Except Fault Settings := do
  let base ← match project with
    | none => pure []
    | some content => projectEntries projectPlace content
  let merged := overlay (overlay base (← environmentEntries environment)) (optionEntries options)
  checkGiven merged "input" "input" "INPUT argument" "SPECGEN_INPUT"
  checkGiven merged "output_dir" "output dir" "--output" "SPECGEN_OUTPUT"
  match ofEntries merged with
  | .error problems => throw (.settings (.invalid problems))
  | .ok settings =>
    if settings.client || settings.server then return settings else throw .nothingSelected

end Settings

end Bindery
