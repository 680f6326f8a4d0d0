import Bindery.Code.Fragment
import Bindery.Code.TypeExpr
import Bindery.Diagnostic
import Bindery.Pattern.Check
import Bindery.Run
import Bindery.Schema.Node

/-!
# Types of primitive schemas and enumerations

A primitive schema becomes a base type with its limits, which is strict unless the
value arrives as text and has to be converted.
-/

namespace Bindery

abbrev Compilation := Run (List Diagnostic)

namespace Compilation

def report (diagnostic : Diagnostic) : Compilation Unit :=
  modify fun diagnostics => diagnostics ++ [diagnostic]

end Compilation

namespace Code

abbrev TypeFragment := Fragment TypeExpr

def anything : TypeFragment := { code := .any }

def baseType (coerce : Bool) : PrimitiveKind → TypeExpr
  | .string => .base (if coerce then "str" else "StrictStr")
  | .integer => .base (if coerce then "int" else "StrictInt")
  | .number => .base (if coerce then "float" else "StrictFloat")
  | .boolean => .base (if coerce then "bool" else "StrictBool")

def formatTypes : List (String × String) :=
  [("uuid", "UUID"), ("date-time", "datetime"), ("date", "date"), ("time", "time"),
    ("duration", "timedelta"), ("uri", "AnyUrl"), ("url", "AnyUrl"), ("ipv4", "IPv4Address"),
    ("ipv6", "IPv6Address")]

/-- The scalar of a limit, which is an integer if the number is whole. -/
def limitValue (double : Double) : Scalar :=
  match double.toInt? with
  | some n => .int n
  | none => .float double

def limitMarks (limits : List (String × Option Scalar)) : List Mark :=
  let given := limits.filterMap fun limit => limit.2.map fun value => (limit.1, value)
  if given.isEmpty then [] else [.limits given]

def numberMarks (constraints : Constraints) : List Mark :=
  limitMarks [("ge", constraints.minimum.map limitValue),
    ("le", constraints.maximum.map limitValue),
    ("gt", constraints.exclusiveMinimum.map limitValue),
    ("lt", constraints.exclusiveMaximum.map limitValue),
    ("multiple_of", constraints.multipleOf.map limitValue)]

def lengthMarks (least most : Option Int) : List Mark :=
  limitMarks [("min_length", least.map .int), ("max_length", most.map .int)]

def unusablePattern (pattern hint : String) : Diagnostic where
  code := .unsupportedKeyword
  message := "Pattern " ++ Text.quoted pattern ++
    " is not a valid Python regular expression; ignored"
  location := some hint

def patternMarks (hint : String) : Option String → Compilation (List Mark)
  | none => return []
  | some pattern =>
    match Pattern.check pattern with
    | .ok () => return [.pattern pattern]
    | .error .malformed => do
      Compilation.report (unusablePattern pattern hint)
      return []
    | .error .tooLarge => throw (.shape .tooLarge)
    | .error .conflictingFlags => throw (.shape .badValue)

def textType (coerce : Bool) (hint : String) (format : Option String)
    (constraints : Constraints) : Compilation TypeExpr := do
  let lengths := lengthMarks constraints.minLength constraints.maxLength
  if format = some "binary" then return (TypeExpr.base "bytes").mark lengths
  let patterns ← patternMarks hint constraints.pattern
  let emails : List Mark := if format = some "email" then [.email] else []
  let type := (baseType coerce .string).mark (lengths ++ patterns ++ emails)
  match format.bind (fun name => formatTypes.lookup name) with
  | none => return type
  | some parsed => return .formatted parsed type

def primitiveType (coerce : Bool) (hint : String) (kind : PrimitiveKind) (format : Option String)
    (constraints : Constraints) : Compilation TypeExpr :=
  match kind with
  | .string => textType coerce hint format constraints
  | .integer => return (baseType coerce .integer).mark (numberMarks constraints)
  | .number => return (baseType coerce .number).mark (numberMarks constraints)
  | .boolean => return baseType coerce .boolean

def isLiteralValue : Value → Bool
  | .scalar .null => true
  | .scalar (.bool _) => true
  | .scalar (.int _) => true
  | .scalar (.str _) => true
  | _ => false

/-- The types a text is converted to before it is compared with the values. -/
def textKinds (values : List Value) : List String :=
  let isInt : Value → Bool
    | .scalar (.int _) => true
    | _ => false
  let isFloat : Value → Bool
    | .scalar (.float _) => true
    | _ => false
  let isBool : Value → Bool
    | .scalar (.bool _) => true
    | _ => false
  (if values.any isInt then ["int"] else []) ++ (if values.any isFloat then ["float"] else []) ++
    (if values.any isBool then ["bool"] else [])

def enumerationType (coerce : Bool) (values : List Value) (extensible : Bool) : TypeExpr :=
  if values.isEmpty then .any
  else
    let listed : TypeExpr := if values.all isLiteralValue then .literal values else .choice values
    let kinds := if coerce then textKinds values else []
    let converted := listed.mark (if kinds.isEmpty then [] else [.fromText kinds])
    if extensible then .union [converted, baseType coerce .string] else converted

end Code

end Bindery
