import Bindery.Code.Primitive
import Bindery.Proofs.Code.TypeText
import Bindery.Proofs.Course
import Bindery.Proofs.Schema.Scalars

/-!
# Primitive types and enumerations are expressions

The type of a primitive schema and that of an enumeration are leaves: texts of
expressions in which no named type occurs.  Their names are those that type
expressions use and those in the literals of the bounds and of the listed values.
-/

namespace Bindery.Code

open TypeExpr List Pattern Option

variable {plain : String → Prop} (basic : Basic plain)

abbrev ValueUsable (plain : String → Prop) (value : Value) : Prop :=
  ∀ scalar ∈ value.scalars, Usable plain scalar

theorem Usable.limitValue {double : Double} (usable : Usable plain (.float double)) :
    Usable plain (limitValue double) := by
  rw [Code.limitValue]
  split
  · exact fun word member => absurd member not_mem_nil
  · exact usable

/-- A type whose text is an expression, and in which no named type occurs. -/
structure Leaf (plain : String → Prop) (type : TypeExpr) : Prop where
  written : Written plain .expression type.text
  closed : type.occurrences = []

theorem Leaf.sound {type : TypeExpr} (leaf : Leaf plain type) : Sound plain type := by
  rw [Sound, leaf.closed]
  exact leaf.written.shown

theorem leaf_of_sound {type : TypeExpr} (sound : Sound plain type)
    (closed : type.occurrences = []) : Leaf plain type := by
  rw [Sound, closed] at sound
  exact ⟨sound.written_of_nil, closed⟩

/-- If the pattern of a text is looked at, only some faults can refuse it. -/
def IsCheckable (faults : Fault → Prop) (kind : PrimitiveKind) (format : Option String)
    (constraints : Constraints) : Prop :=
  kind = .string → format ≠ some "binary" → ∀ pattern ∈ constraints.pattern,
    (check pattern = .error .tooLarge → faults (.shape .tooLarge)) ∧
      (check pattern = .error .conflictingFlags → faults (.shape .badValue))

variable {faults : Fault → Prop}

theorem report_adds (diagnostic : Diagnostic) :
    Run.Adds faults (Compilation.report diagnostic) fun _ => True :=
  .add diagnostic

section Types

include basic

theorem leaf_base {word : String} (known : word ∈ ownNames) : Leaf plain (.base word) :=
  ⟨basic.written known, by rw [occurrences]⟩

theorem leaf_none : Leaf plain .none :=
  ⟨basic.written (by decide), by rw [occurrences]⟩

theorem leaf_any : Leaf plain .any :=
  ⟨basic.written (by decide), by rw [occurrences]⟩

theorem Leaf.mark {inner : TypeExpr} {marks : List Mark} (leaf : Leaf plain inner)
    (each : ∀ mark ∈ marks, Written plain .expression mark.text) :
    Leaf plain (inner.mark marks) :=
  ⟨written_mark basic leaf.written each, by rw [occurrences_mark, leaf.closed]⟩

theorem written_limitMarks {limits : List (String × Option Scalar)}
    (each : ∀ limit ∈ limits, isIdentifier limit.1 = true ∧ ∀ value ∈ limit.2, Usable plain value) :
    ∀ mark ∈ limitMarks limits, Written plain .expression mark.text := by
  intro mark member
  rw [limitMarks] at member
  split at member
  · cases member
  · rw [mem_singleton.mp member]
    refine written_limits basic fun bound inside => ?_
    obtain ⟨limit, listed, given⟩ := mem_filterMap.mp inside
    obtain ⟨value, present, rfl⟩ := map_eq_some_iff.mp given
    exact ⟨(each limit listed).1, (each limit listed).2 value present⟩

variable {constraints : Constraints} {format : Option String}

theorem written_numberMarks (each : ∀ scalar ∈ constraints.scalars, Usable plain scalar) :
    ∀ mark ∈ numberMarks constraints, Written plain .expression mark.text := by
  have bounded : ∀ bound ∈ [constraints.minimum, constraints.maximum,
      constraints.exclusiveMinimum, constraints.exclusiveMaximum, constraints.multipleOf],
        ∀ value ∈ bound.map limitValue, Usable plain value := by
    intro bound listed value given
    obtain ⟨double, present, rfl⟩ := map_eq_some_iff.mp given
    refine Usable.limitValue (each _ (mem_filterMap.mpr ⟨bound, listed, ?_⟩))
    rw [present, map_some]
  apply written_limitMarks basic
  simp only [forall_mem_cons, not_mem_nil, false_implies, implies_true, and_true]
    at bounded ⊢
  obtain ⟨least, most, above, below, multiple⟩ := bounded
  exact ⟨⟨rfl, least⟩, ⟨rfl, most⟩, ⟨rfl, above⟩, ⟨rfl, below⟩, rfl, multiple⟩

theorem written_lengthMarks (least most : Option Int) :
    ∀ mark ∈ lengthMarks least most, Written plain .expression mark.text := by
  have counted : ∀ length : Option Int, ∀ value ∈ length.map Scalar.int, Usable plain value := by
    intro length value given
    obtain ⟨count, _, rfl⟩ := map_eq_some_iff.mp given
    exact fun word member => absurd member not_mem_nil
  apply written_limitMarks basic
  simp only [forall_mem_cons, not_mem_nil, false_implies, implies_true, and_true]
  exact ⟨⟨rfl, counted least⟩, rfl, counted most⟩

theorem leaf_baseType (coerce : Bool) (kind : PrimitiveKind) :
    Leaf plain (baseType coerce kind) := by
  have member : ∃ word ∈ ownNames, baseType coerce kind = .base word := by
    cases kind <;> cases coerce <;> exact ⟨_, by decide, rfl⟩
  obtain ⟨word, member, same⟩ := member
  rw [same]
  exact leaf_base basic member

omit basic in
theorem formatTypes_subset : ∀ format ∈ formatTypes, format.2 ∈ ownNames :=
  by decide

theorem patternMarks_written (hint : String) {pattern : Option String}
    (checked : ∀ source ∈ pattern,
      (check source = .error .tooLarge → faults (.shape .tooLarge)) ∧
        (check source = .error .conflictingFlags → faults (.shape .badValue))) :
    Run.Adds faults (patternMarks hint pattern) fun marks =>
      ∀ mark ∈ marks, Written plain .expression mark.text := by
  cases pattern with
  | none => exact .pure (forall_mem_nil _)
  | some source =>
    rw [patternMarks]
    split
    · exact .pure (forall_mem_singleton.mpr (written_pattern basic source))
    · exact .bind (report_adds _) fun _ _ => .pure (forall_mem_nil _)
    next refused => exact .throw ((checked source rfl).1 refused)
    next refused => exact .throw ((checked source rfl).2 refused)

theorem textType_leaf (coerce : Bool) (hint : String)
    (checkable : IsCheckable faults .string format constraints) :
    Run.Adds faults (textType coerce hint format constraints) (Leaf plain) := by
  have lengths := written_lengthMarks basic constraints.minLength constraints.maxLength
  unfold textType
  split
  · have bytes : Leaf plain (.base "bytes") := leaf_base basic (by decide)
    exact .pure (bytes.mark basic lengths)
  next text =>
    refine .bind (patternMarks_written basic hint (checkable rfl text)) fun patterns written => ?_
    have email : Written plain .expression Mark.email.text := basic.written (by decide)
    have emails : ∀ mark ∈ (if format = some "email" then [Mark.email] else []),
        Written plain .expression mark.text := by
      split
      · exact forall_mem_singleton.mpr email
      · exact forall_mem_nil _
    have marks := forall_mem_append.mpr ⟨forall_mem_append.mpr ⟨lengths, written⟩, emails⟩
    have marked := (leaf_baseType basic coerce .string).mark basic marks
    cases found : format.bind fun name => formatTypes.lookup name with
    | none => exact .pure marked
    | some parsed =>
      obtain ⟨name, _, listed⟩ := bind_eq_some_iff.mp found
      have known := formatTypes_subset _ (mem_of_lookup listed)
      refine .pure ⟨written_formatted basic known marked.written, ?_⟩
      rw [occurrences, marked.closed]

theorem primitiveType_leaf (coerce : Bool) (hint : String) {kind : PrimitiveKind}
    (checkable : IsCheckable faults kind format constraints)
    (each : ∀ scalar ∈ constraints.scalars, Usable plain scalar) :
    Run.Adds faults (primitiveType coerce hint kind format constraints) (Leaf plain) := by
  have numbers := written_numberMarks basic each
  cases kind with
  | string => exact textType_leaf basic coerce hint checkable
  | integer => exact .pure ((leaf_baseType basic coerce _).mark basic numbers)
  | number => exact .pure ((leaf_baseType basic coerce _).mark basic numbers)
  | boolean => exact .pure (leaf_baseType basic coerce _)

omit basic in
theorem textKinds_subset (values : List Value) : ∀ kind ∈ textKinds values, kind ∈ ownNames := by
  have one (found : Bool) (word : String) (known : word ∈ ownNames) :
      ∀ kind ∈ (if found then [word] else []), kind ∈ ownNames := by
    cases found with
    | true => exact forall_mem_singleton.mpr known
    | false => exact forall_mem_nil _
  rw [textKinds]
  exact forall_mem_append.mpr ⟨forall_mem_append.mpr
    ⟨one _ "int" (by decide), one _ "float" (by decide)⟩, one _ "bool" (by decide)⟩

theorem leaf_enumerationType (coerce : Bool) {values : List Value} (extensible : Bool)
    (each : ∀ value ∈ values, ValueUsable plain value) :
    Leaf plain (enumerationType coerce values extensible) := by
  have literals : ∀ value ∈ values, Written plain .expression value.literal :=
    fun value member => written_value value (each value member)
  rw [enumerationType]
  split
  · exact leaf_any basic
  next nonempty =>
    have listed : Leaf plain
        (if values.all isLiteralValue then literal values else .choice values) := by
      split
      · exact ⟨written_literal basic (by simpa using nonempty) literals,
          by rw [occurrences]⟩
      · exact ⟨written_choice basic literals, by rw [occurrences]⟩
    have kinds : ∀ kind ∈ (if coerce then textKinds values else []), kind ∈ ownNames := by
      split
      · exact textKinds_subset values
      · exact forall_mem_nil _
    dsimp only
    generalize (if values.all isLiteralValue then literal values else .choice values)
      = type at listed ⊢
    generalize (if coerce then textKinds values else []) = texts at kinds ⊢
    have marks : ∀ mark ∈ (if texts.isEmpty then [] else [Mark.fromText texts]),
        Written plain .expression mark.text := by
      split
      · exact forall_mem_nil _
      · exact forall_mem_singleton.mpr (written_fromText basic kinds)
    have converted := listed.mark basic marks
    split
    · have other := leaf_baseType basic coerce .string
      refine leaf_of_sound (sound_union basic ?_) ?_
      · simpa only [forall_mem_cons, not_mem_nil, false_implies, implies_true, and_true]
          using ⟨converted.sound, other.sound⟩
      · simp only [occurrences, occurrencesList, converted.closed, other.closed,
          append_nil]
    · exact converted

end Types

end Bindery.Code
