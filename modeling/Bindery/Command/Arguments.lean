import Bindery.Console.Basic
import Bindery.Number.Decimal
import Bindery.Settings.Layers
import Bindery.Text.Digit

/-!
# Arguments of the command line

The arguments are options and words.  An option is a flag or takes a value; those
before the command are options of the console, the others of the command.
-/

namespace Bindery

open Text Console

namespace Command

inductive UsageFault where
  | unknownOption (name : String)
  | missingValue (name : String)
  | needlessValue (name : String)
  | notNumber (name text : String)
  | missingCommand
  | unknownCommand (name : String)
  | missingArgument (name : String)
  | extraArguments (words : List String)
deriving DecidableEq, Repr

def UsageFault.message : UsageFault → String
  | .unknownOption name => "No such option: " ++ name
  | .missingValue name => "Option '" ++ name ++ "' requires an argument."
  | .needlessValue name => "Option '" ++ name ++ "' does not take a value."
  | .notNumber name text =>
    "Invalid value for '" ++ name ++ "': " ++ quoted text ++ " is not a valid float."
  | .missingCommand => "Missing command."
  | .unknownCommand name => "No such command " ++ quoted name ++ "."
  | .missingArgument name => "Missing argument '" ++ name ++ "'."
  | .extraArguments words => "Got unexpected extra arguments (" ++ join " " words ++ ")"

/-- What an option does to the record of what was asked for. -/
inductive Effect (Record : Type) where
  | flag (apply : Record → Record)
  | value (apply : String → Record → Except UsageFault Record)

abbrev OptionTable (Record : Type) := List (String × Effect Record)

/-- What became of an argument: it was read, or it is an option that awaits its value. -/
inductive Progress (Record : Type) where
  | read (record : Record)
  | awaiting (name : String) (apply : String → Record → Except UsageFault Record) (record : Record)

namespace OptionTable

variable {Record : Type}

/-- Reads short options that are written together; what follows one that takes a value is its
value. -/
def readShort (table : OptionTable Record) :
    List Char → Record → Except UsageFault (Progress Record)
  | [], record => .ok (.read record)
  | letter :: rest, record =>
    let name := String.ofList ['-', letter]
    match List.lookup name table with
    | none => .error (.unknownOption name)
    | some (.flag apply) => readShort table rest (apply record)
    | some (.value apply) =>
      if rest.isEmpty then .ok (.awaiting name apply record)
      else (apply (String.ofList rest) record).map .read

def readOption (table : OptionTable Record) (argument : String) (record : Record) :
    Except UsageFault (Progress Record) :=
  if beginsWith argument "--" then
    let (name, given) := cut '=' argument
    match List.lookup name table, given with
    | none, _ => .error (.unknownOption name)
    | some (.flag apply), none => .ok (.read (apply record))
    | some (.flag _), some _ => .error (.needlessValue name)
    | some (.value apply), none => .ok (.awaiting name apply record)
    | some (.value apply), some text => (apply text record).map .read
  else readShort table (argument.toList.drop 1) record

/-- Whether an argument is an option; a single dash is a word. -/
def isOption (argument : String) : Bool :=
  beginsWith argument "-" && argument != "-"

/-- Reads the options among arguments, and gives the words.  If the options do not stand among the
words, everything from the first word on is left as it is. -/
def read (table : OptionTable Record) (mixed : Bool) :
    List String → Record → Except UsageFault (Record × List String)
  | [], record => .ok (record, [])
  | argument :: rest, record =>
    if argument = "--" then .ok (record, rest)
    else if isOption argument then
      match table.readOption argument record with
      | .error fault => .error fault
      | .ok (.read record) => read table mixed rest record
      | .ok (.awaiting name apply record) =>
        match rest with
        | [] => .error (.missingValue name)
        | text :: rest => do read table mixed rest (← apply text record)
    else if mixed then do
      let (record, words) ← read table mixed rest record
      return (record, argument :: words)
    else .ok (record, argument :: rest)

end OptionTable

inductive Task where
  | generate (options : Options)
  | inspect (source : String) (asJson : Bool)

inductive Request where
  | version
  | help
  | run (wishes : Wishes) (task : Task)

structure Opening where
  wishes : Wishes := {}
  /-- What is asked for instead of a run. -/
  instead : Option Request := none

namespace Opening

/-- Asks for something instead of a run; the first such wish counts. -/
def ask (request : Request) (opening : Opening) : Opening :=
  { opening with instead := opening.instead.or (some request) }

def wish (change : Wishes → Wishes) (opening : Opening) : Opening :=
  { opening with wishes := change opening.wishes }

def quiet : Effect Opening :=
  .flag (wish fun wishes => { wishes with quiet := true })

def verbose : Effect Opening :=
  .flag (wish fun wishes => { wishes with verbose := true })

def table : OptionTable Opening :=
  [("--version", .flag (ask .version)), ("--help", .flag (ask .help)),
    ("--no-color", .flag (wish fun wishes => { wishes with noColour := true })),
    ("--quiet", quiet), ("-q", quiet), ("--verbose", verbose), ("-v", verbose)]

end Opening

def joinDigits : (afterDigit : Bool) → List Char → List Char
  | _, [] => []
  | afterDigit, '_' :: c :: rest =>
    if afterDigit && c.isDigit then c :: joinDigits true rest
    else '_' :: joinDigits false (c :: rest)
  | _, c :: rest => c :: joinDigits c.isDigit rest

def plainDigit (c : Char) : Char :=
  match decimalDigit? c with
  | some digit => hexDigit digit
  | none => c

def readNumber (name text : String) : Except UsageFault Double :=
  match Double.read? (joinDigits false ((trim text).toList.map plainDigit)) with
  | some number => .ok number
  | none => .error (.notNumber name text)

structure Generate where
  options : Options := {}
  help : Bool := false

namespace Generate

def flag (change : Options → Options) : Effect Generate :=
  .flag fun record => { record with options := change record.options }

def value (change : String → Options → Options) : Effect Generate :=
  .value fun text record => .ok { record with options := change text record.options }

def output : Effect Generate :=
  value fun text options => { options with output := some (Path.ofText text) }

def package : Effect Generate :=
  value fun text options => { options with package := some text }

def table : OptionTable Generate :=
  [("--output", output), ("-o", output), ("--package", package), ("-p", package),
    ("--client", flag fun options => { options with client := some true }),
    ("--no-client", flag fun options => { options with client := some false }),
    ("--server", flag fun options => { options with server := some true }),
    ("--no-server", flag fun options => { options with server := some false }),
    ("--strict", flag fun options => { options with strictObjects := some true }),
    ("--no-strict", flag fun options => { options with strictObjects := some false }),
    ("--force-validation", flag fun options => { options with forceValidation := some true }),
    ("--lazy-validation", flag fun options => { options with forceValidation := some false }),
    ("--timeout", .value fun text record => do
      let number ← readNumber "--timeout" text
      return { record with options := { record.options with fetchTimeout := some number } }),
    ("--help", .flag fun record => { record with help := true })]

def read (wishes : Wishes) (arguments : List String) : Except UsageFault Request := do
  let (record, words) ← table.read true arguments {}
  if record.help then return .help
  match words with
  | [] => return .run wishes (.generate record.options)
  | [source] => return .run wishes (.generate { record.options with input := some source })
  | _ :: extra => throw (.extraArguments extra)

end Generate

structure Inspect where
  asJson : Bool := false
  help : Bool := false

namespace Inspect

/-- The options of `inspect`; the time allowed for a fetch has no bearing on what is shown. -/
def table : OptionTable Inspect :=
  [("--json", .flag fun record => { record with asJson := true }),
    ("--timeout", .value fun text record => do
      let _ ← readNumber "--timeout" text
      return record),
    ("--help", .flag fun record => { record with help := true })]

def read (wishes : Wishes) (arguments : List String) : Except UsageFault Request := do
  let (record, words) ← table.read true arguments {}
  if record.help then return .help
  match words with
  | [] => throw (.missingArgument "INPUT")
  | [source] => return .run wishes (.inspect source record.asJson)
  | _ :: extra => throw (.extraArguments extra)

end Inspect

def Request.ofArguments (arguments : List String) : Except UsageFault Request := do
  let (opening, words) ← Opening.table.read false arguments {}
  match opening.instead, words with
  | some request, _ => return request
  | none, [] => throw .missingCommand
  | none, "generate" :: rest => Generate.read opening.wishes rest
  | none, "inspect" :: rest => Inspect.read opening.wishes rest
  | none, name :: _ => throw (.unknownCommand name)

end Command

end Bindery
