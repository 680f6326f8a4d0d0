import Bindery.Record.Field
import Bindery.Schema.Node

/-!
# Reading the limits of a schema

The limits of a primitive schema are read from the values of its keywords.  A
truth value under a keyword is a mark and not a limit, and is left out.
-/

namespace Bindery.Constraints

def ofEntries (values : Entries) : Except Fault Constraints :=
  let length (name : String) := Field.optional Field.integer (values.get? name)
  let bound (name : String) := Field.optional Field.number (values.get? name)
  let pattern := Field.optional Field.text (values.get? "pattern")
  match length "min_length", length "max_length", pattern, bound "minimum", bound "maximum",
    bound "exclusive_minimum", bound "exclusive_maximum", bound "multiple_of" with
  | .ok minLength, .ok maxLength, .ok pattern, .ok minimum, .ok maximum, .ok exclusiveMinimum,
    .ok exclusiveMaximum, .ok multipleOf =>
    .ok { minLength, maxLength, pattern, minimum, maximum, exclusiveMinimum, exclusiveMaximum,
          multipleOf }
  | a, b, c, d, e, f, g, h =>
    .error (.invalid .constraints
      (Field.problem? "min_length" a ++ Field.problem? "max_length" b ++
        Field.problem? "pattern" c ++ Field.problem? "minimum" d ++ Field.problem? "maximum" e ++
        Field.problem? "exclusive_minimum" f ++ Field.problem? "exclusive_maximum" g ++
        Field.problem? "multiple_of" h))

def keywords : List (String × String) :=
  [("minLength", "min_length"), ("maxLength", "max_length"), ("pattern", "pattern"),
    ("minimum", "minimum"), ("maximum", "maximum"), ("exclusiveMinimum", "exclusive_minimum"),
    ("exclusiveMaximum", "exclusive_maximum"), ("multipleOf", "multiple_of")]

def ofSchema (schema : Value) : Except Fault Constraints :=
  ofEntries (keywords.filterMap fun (keyword, name) =>
    match schema.get? keyword with
    | none => none
    | some (.bool _) => none
    | some value => some (.str name, value))

end Bindery.Constraints
