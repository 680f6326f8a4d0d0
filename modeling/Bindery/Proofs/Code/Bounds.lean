import Bindery.Code.Compile
import Bindery.Proofs.Number.Nearest
import Bindery.Proofs.Schema.Keywords

/-!
# Bounds of integers

A bound is kept as a double on its way from the schema to the condition of the
type.  So what is written there is the whole number nearest to the bound that is
equal to a double, which is the bound itself only if a double can hold it.
-/

namespace Bindery.Code

open Constraints Schema

inductive Bound where
  | minimum
  | maximum
  | exclusiveMinimum
  | exclusiveMaximum
  | multipleOf

namespace Bound

def keyword : Bound → String
  | minimum => "minimum"
  | maximum => "maximum"
  | exclusiveMinimum => "exclusiveMinimum"
  | exclusiveMaximum => "exclusiveMaximum"
  | multipleOf => "multipleOf"

def field : Bound → String
  | minimum => "minimum"
  | maximum => "maximum"
  | exclusiveMinimum => "exclusive_minimum"
  | exclusiveMaximum => "exclusive_maximum"
  | multipleOf => "multiple_of"

def argument : Bound → String
  | minimum => "ge"
  | maximum => "le"
  | exclusiveMinimum => "gt"
  | exclusiveMaximum => "lt"
  | multipleOf => "multiple_of"

def alone (double : Double) : Bound → Constraints
  | minimum => { minimum := double }
  | maximum => { maximum := double }
  | exclusiveMinimum => { exclusiveMinimum := double }
  | exclusiveMaximum => { exclusiveMaximum := double }
  | multipleOf => { multipleOf := double }

def entries (bound : Bound) (limit : Int) : Entries :=
  [(.str "type", .str "integer"), (.str bound.keyword, .int limit)]

/-- The bound is read as a number under its own name. -/
theorem ofSchema_entries (bound : Bound) (limit : Int) :
    ofSchema (.map (bound.entries limit)) =
      match Double.ofInt? limit with
      | some double => .ok (bound.alone double)
      | none => .error (.invalid .constraints [{ field := bound.field, fault := .notNumber }]) := by
  have single : ofSchema (.map (bound.entries limit)) =
      ofEntries [(.str bound.field, .int limit)] := by
    cases bound <;> rfl
  rw [single]
  cases converted : Double.ofInt? limit <;> cases bound <;>
    simp [ofEntries, field, Entries.get?, alone, Field.problem?, Field.optional,
      Field.number, converted, Except.map]

theorem get?_entries {keyword : String} {bound : Bound} (limit : Int)
    (other : keyword ≠ "type" ∧ keyword ≠ bound.keyword) :
    (bound.entries limit).get? keyword = none := by
  simp [entries, Entries.get?, other.1.symm, other.2.symm]

theorem read_entries {State : Type} (bound : Bound) (surroundings : Surroundings State)
    (limit : Int) (place : String) :
    read surroundings (.map (bound.entries limit)) place =
      Run.ofExcept (primitiveNode (.map (bound.entries limit)) {} .integer) := by
  have others : ∀ keyword ∈ ("$ref" :: "nullable" :: enumerationKeywords) ++
      (compositionKeywords ++ unsupportedKeywords),
        keyword ≠ "type" ∧ keyword ≠ bound.keyword := by
    cases bound <;> decide
  have note : noteOf (.map (bound.entries limit)) = {} := by cases bound <;> rfl
  rw [← note]
  refine read_primitive surroundings rfl rfl ?_ ?_ place
  · intro keyword listed
    exact get?_entries limit (others keyword (List.mem_append_left _ listed))
  · intro keyword listed
    exact get?_entries limit (others keyword (List.mem_append_right _ listed))

theorem numberMarks_alone (bound : Bound) (double : Double) :
    numberMarks (bound.alone double) = [.limits [(bound.argument, limitValue double)]] := by
  cases bound <;> rfl

end Bound

/-- An integer bound is written as the nearest whole number that is equal to a double, which is the
bound itself exactly if it is equal to one; bounds beyond all doubles are refused. -/
theorem integer_bound_rounded {State : Type} (surroundings : Surroundings State) (place : String)
    (scope : Scope) (coerce : Bool) (hint : String) (bound : Bound) (limit : Int) :
    (limit.natAbs < Double.overflow →
      ∃ node fragment whole,
        Schema.read surroundings (.map (bound.entries limit)) place = pure node ∧
        compile scope coerce hint node = pure fragment ∧
        fragment.code.text = "Annotated[" ++ (baseType coerce .integer).text ++ ", Field(" ++
          bound.argument ++ "=" ++ Text.integer whole ++ ")]" ∧
        Double.IsNearest limit whole ∧ (whole = limit ↔ Double.Holds limit)) ∧
    (Double.overflow ≤ limit.natAbs →
      Schema.read surroundings (.map (bound.entries limit)) place =
        throw (.invalid .constraints [{ field := bound.field, fault := .notNumber }])) := by
  rw [bound.read_entries surroundings limit place, Schema.primitiveNode, bound.ofSchema_entries]
  constructor
  · intro small
    obtain ⟨double, whole, converted, value, nearest⟩ := Double.ofInt?_nearest small
    rw [converted]
    refine ⟨_, _, whole, rfl, rfl, ?_, nearest, nearest.eq_iff⟩
    rw [bound.numberMarks_alone, limitValue, value]
    -- The equations of the printer are slow to derive; this one holds by computation.
    have printed (inner : TypeExpr) (argument : String) :
        (inner.mark [.limits [(argument, .int whole)]]).text = "Annotated[" ++ (inner.text ++
          ", " ++ ("Field(" ++ (argument ++ "=" ++ Text.integer whole) ++ ")")) ++ "]" := rfl
    simp only [printed, String.append_assoc]
    rfl
  · intro large
    rw [Double.ofInt?_overflow large]
    rfl

/-- The greatest 64-bit integer is beyond the integers that bounds keep. -/
theorem int64_maximum_rounded :
    ((Schema.read (⟨fun _ => pure ⟨"", false⟩, fun _ => pure ()⟩ : Surroundings (List Diagnostic))
        (.map (Bound.maximum.entries 9223372036854775807)) "" >>=
      compile {} false "Model").start []).1.map (·.code.text) =
        .ok "Annotated[StrictInt, Field(le=9223372036854775808)]" := by
  rw [Bound.read_entries]
  decide +kernel

end Bindery.Code
