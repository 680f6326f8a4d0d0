import Bindery.Console.Grid
import Bindery.Diagnostic
import Bindery.Json.Writer
import Bindery.Value.Shape

/-!
# The console

The standard output carries data only: tables and JSON.  Everything that a run has
to say about itself goes to the standard error.
-/

namespace Bindery

namespace Console

inductive Format where
  | json
  | plain
  | grid
deriving DecidableEq, Repr

structure Written where
  data : String := ""
  messages : String := ""
deriving DecidableEq, Repr

instance : Append Written where
  append before after :=
    { data := before.data ++ after.data
      messages := before.messages ++ after.messages }

structure Wishes where
  /-- How tables are written; it depends on the terminal if it is not given. -/
  format : Option Format := none
  noColour : Bool := false
  quiet : Bool := false
  verbose : Bool := false
deriving DecidableEq, Repr

end Console

structure Console where
  format : Console.Format
  plain : Bool
  style : Console.GridStyle
  quiet : Bool
  verbose : Bool

namespace Console

def screen : Nat := 80

def asksPlain (environment : List (String × String)) : Bool :=
  (environment.lookup "NO_COLOR").isSome || environment.lookup "TERM" = some "dumb"

def isSimpleTerminal (environment : List (String × String)) : Bool :=
  ["dumb", "unknown"].contains (((environment.lookup "TERM").getD "").map Char.toLower)

/-- The console for some wishes, in an environment; `terminal` says whether the standard output is
a terminal. -/
def ofWishes (wishes : Wishes) (environment : List (String × String)) (terminal : Bool) :
    Console :=
  let plain := wishes.noColour || asksPlain environment
  { format := wishes.format.getD (if terminal && !plain then .grid else .plain)
    plain
    style := if isSimpleTerminal environment then {} else .ofTerminal (!plain)
    quiet := wishes.quiet
    verbose := wishes.verbose }

def line (text : String) : Written where
  data := text ++ "\n"

def value (value : Value) : Written :=
  line (Json.write (.indented 2) value)

def rowMap (headings row : List String) : Value :=
  .map ((headings.zip row).foldl
    (fun (entries : Entries) (cell : String × String) =>
      entries.put (.str cell.1) (.str cell.2)) [])

def table (console : Console) (table : Table) : Written :=
  match console.format with
  | .json => value (.list (table.rows.map (rowMap table.headings)))
  | .plain =>
    { data := String.join ((table.headings :: table.rows).map fun row =>
        Text.join "\t" row ++ "\n") }
  | .grid => { data := grid console.style screen table }

def say (console : Console) (message : String) (style : Option String := none) : Written :=
  let lines :=
    if console.plain then [message.toList]
    else (Text.wrap .fold screen (Text.dropControls (shown style message.toList))).map
      (Text.Overflow.cut .fold screen)
  { messages := String.ofList (lines.flatMap fun line => line ++ ['\n']) }

def info (console : Console) (message : String) : Written :=
  if console.quiet then {} else console.say message

def success (console : Console) (message : String) : Written :=
  if console.quiet then {} else console.say message (some "green")

def warning (console : Console) (message : String) : Written :=
  console.say ("Warning: " ++ message) (some "yellow")

def error (console : Console) (message : String) : Written :=
  console.say ("Error: " ++ message) (some "bold red")

def debug (console : Console) (message : String) : Written :=
  if console.verbose then console.say ("[debug] " ++ message) (some "dim") else {}

def diagnostic (console : Console) (diagnostic : Diagnostic) : Written :=
  match diagnostic.severity with
  | .error => console.error diagnostic.render
  | .warning => console.warning diagnostic.render
  | .info => console.debug diagnostic.render

def diagnostics (console : Console) (diagnostics : List Diagnostic) : Written :=
  (diagnostics.map console.diagnostic).foldl (· ++ ·) {}

end Console

end Bindery
