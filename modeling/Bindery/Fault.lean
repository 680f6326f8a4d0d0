import Bindery.Text.Quoted

/-!
# Why a run stops

A run stops for one of a few classes of reasons.  Each class is a type of causes, and
the wording of a cause is given in one place.
-/

namespace Bindery

inductive FaultClass where
  | general
  | usage
  | document
  | resolution
  | generation
  | settings
deriving DecidableEq, Repr

def FaultClass.exitCode : FaultClass → Nat
  | .general => 1
  | .usage => 2
  | .document => 7
  | .resolution => 8
  | .generation => 9
  | .settings => 1

inductive DocumentFault where
  | rootNotMapping
  | noVersion
  | noInfo
  | pathsNotMapping
  | noInput
  | httpStatus (status : Nat) (url : String)
  | unreachable (url reason : String)
  | notFound (path : String)
  | empty (path : String)
  | unparsable (origin : String) (causes : List String)
  | rootKind (origin kind : String)
deriving DecidableEq, Repr

def DocumentFault.message : DocumentFault → String
  | .rootNotMapping => "Document root must be a mapping"
  | .noVersion => "Missing 'openapi' or 'swagger' field. Is this an API description?"
  | .noInfo => "Missing or invalid 'info' object"
  | .pathsNotMapping => "'paths' must be a mapping of path templates to path items"
  | .noInput => "No input received from stdin"
  | .httpStatus status url => "HTTP " ++ Text.decimal status ++ " fetching document from " ++ url
  | .unreachable url reason => "Failed to fetch document from " ++ url ++ ": " ++ reason
  | .notFound path => "Document not found: " ++ path
  | .empty path => "Document is empty: " ++ path
  | .unparsable origin causes => "Failed to parse " ++ origin ++ "\n  " ++ Text.join "\n  " causes
  | .rootKind origin kind => origin ++ " must contain a mapping at its root (got " ++ kind ++ ")"

inductive ResolutionFault where
  | unloadable (location : String) (cause : DocumentFault)
  | missingKey (reference key : String)
  | badIndex (reference segment : String)
  | notNavigable (reference kind : String)
  | cycle (reference : String)
  | declined (reference reason : String)
deriving DecidableEq, Repr

def ResolutionFault.message : ResolutionFault → String
  | .unloadable location cause => "Cannot load " ++ location ++ ": " ++ cause.message
  | .missingKey reference key =>
    "Cannot resolve $ref '" ++ reference ++ "': key '" ++ key ++ "' not found"
  | .badIndex reference segment =>
    "Cannot resolve $ref '" ++ reference ++ "': invalid array index '" ++ segment ++ "'"
  | .notNavigable reference kind =>
    "Cannot resolve $ref '" ++ reference ++ "': cannot navigate into " ++ kind
  | .cycle reference => "Reference cycle through '" ++ reference ++ "'"
  | .declined _ reason => reason

def ResolutionFault.subject : ResolutionFault → String
  | .unloadable location _ => location
  | .missingKey reference _ => reference
  | .badIndex reference _ => reference
  | .notNavigable reference _ => reference
  | .cycle reference => reference
  | .declined reference _ => reference

inductive GenerationFault where
  | dangling (owner name : String)
  | noDirectory (directory cause : String)
  | notWritten (target cause : String)
deriving DecidableEq, Repr

def GenerationFault.message : GenerationFault → String
  | .dangling owner name => owner ++ " depends on '" ++ name ++ "', which has no emitted unit"
  | .noDirectory directory cause => "Cannot create output directory " ++ directory ++ ": " ++ cause
  | .notWritten target cause => "Cannot write package " ++ target ++ ": " ++ cause

inductive FieldFault where
  | notText
  | notPath
  | notInteger
  | integerText
  | fractional
  | tooManyDigits
  | notFinite
  | notNumber
  | numberText
  | notTruth
  | truthText
  | rejected
deriving DecidableEq, Repr

structure FieldProblem where
  field : String
  fault : FieldFault
deriving DecidableEq, Repr

inductive RecordKind where
  | document
  | server
  | constraints
  | array
  | object
  | discriminator
  | reference
  | media
  | parameter
  | body
  | response
  | operation
  | diagnostic
  | settings
deriving DecidableEq, Repr

def RecordKind.text : RecordKind → String
  | .document => "document"
  | .server => "server"
  | .constraints => "constraints"
  | .array => "array schema"
  | .object => "object schema"
  | .discriminator => "discriminator"
  | .reference => "reference"
  | .media => "media type"
  | .parameter => "parameter"
  | .body => "request body"
  | .response => "response"
  | .operation => "operation"
  | .diagnostic => "diagnostic"
  | .settings => "settings"

inductive SettingsFault where
  | unreadable (path cause : String)
  | notObject (path : String)
  | badFlag (variableName raw : String)
  | missing (setting option variableName field file : String)
  | invalid (problems : List FieldProblem)
deriving DecidableEq, Repr

def SettingsFault.message : SettingsFault → String
  | .unreadable path cause => "Invalid project config at " ++ path ++ ": " ++ cause
  | .notObject path => "Invalid project config at " ++ path ++ ": expected a JSON object"
  | .badFlag variableName raw =>
    "Environment variable " ++ variableName ++ " must be a boolean, got " ++ Text.quoted raw
  | .missing setting option variableName field file =>
    "No " ++ setting ++ " configured; pass " ++ option ++ ", set " ++ variableName ++
      ", or add '" ++ field ++ "' to " ++ file
  | .invalid problems =>
    "Invalid configuration: " ++ Text.join ", " (problems.map fun problem => problem.field)

inductive ShapeFault where
  /-- A map, list or text was needed to look inside. -/
  | noMember
  /-- An operation does not apply to a value of this kind. -/
  | wrongKind
  | noKey
  /-- A value is outside the range of its kind. -/
  | badValue
  | noIndex
  | badEncoding
  | tooLarge
  | longName
deriving DecidableEq, Repr

inductive Fault where
  | nothingSelected
  | document (cause : DocumentFault)
  | resolution (cause : ResolutionFault)
  | generation (cause : GenerationFault)
  | settings (cause : SettingsFault)
  | invalid (record : RecordKind) (problems : List FieldProblem)
  | shape (cause : ShapeFault)
deriving DecidableEq, Repr

namespace Fault

/-- The class of a reported fault; the faults of records and shapes are not reported. -/
def class? : Fault → Option FaultClass
  | .nothingSelected => some .usage
  | .document _ => some .document
  | .resolution _ => some .resolution
  | .generation _ => some .generation
  | .settings _ => some .settings
  | .invalid .. => none
  | .shape _ => none

def message : Fault → String
  | .nothingSelected => "Nothing to generate: enable at least one of --client or --server"
  | .document cause => cause.message
  | .resolution cause => cause.message
  | .generation cause => cause.message
  | .settings cause => cause.message
  | .invalid record problems =>
    Text.decimal problems.length ++ " invalid field(s) in " ++ record.text
  | .shape _ => "unsupported document shape"

end Fault

end Bindery
