import Bindery.Proofs.Code.Literal

/-!
# Texts of type expressions

The text of a type expression is the text of an expression of the grammar, if
the texts of its parts are, and it shows the occurrences of named types that its
parts show.  Besides the names in its parts it uses names of the runtime unit and
built-in names only.  What comes from a document stands in quoted literals: names
of properties and models, patterns, tags and defaults.
-/

namespace Bindery.Code

open Text List

open TypeExpr

/-- The names that type expressions use besides those of named types and those in literals. -/
def typeNames : List String :=
  ["Any", "None", "True", "Annotated", "Literal", "Optional", "Field", "StrictStr", "StrictInt",
    "StrictFloat", "StrictBool", "str", "int", "float", "bool", "bytes", "list", "dict", "UUID",
    "datetime", "date", "time", "timedelta", "AnyUrl", "IPv4Address", "IPv6Address", "union",
    "one_of", "all_of", "tagged", "lazy", "model", "prop", "pattern", "email", "unique", "choice",
    "formatted", "from_text"]

theorem isIdentifier_typeNames : ∀ word ∈ typeNames, isIdentifier word = true :=
  all_eq_true.mp (by decide)

/-- The names that type expressions use, apart from the one that defers a named type. -/
def ownNames : List String :=
  typeNames.erase "lazy"

/-! ## Deferred types -/

theorem spells_lazy (name : String) : ∃ literal,
    Spells (Occurrence.lazy name).text (.name "lazy" :: enclosed '(' ')' [literal]) ∧
      Derives (fun _ => False) .expression literal := by
  obtain ⟨literal, spells, derives⟩ : Written (fun _ => False) .expression (quoted name) :=
    written_quoted name
  have word : Exhibits (fun _ => True) [] "lazy" [.name "lazy"] :=
    (spells_name rfl).exhibits fun _ _ => trivial
  have argument : Forall₂ (fun piece part => Exhibits (fun _ => True) piece.2 piece.1 part)
      [(quoted name, [])] [literal] :=
    .cons (spells.exhibits fun _ _ => trivial) .nil
  have opens : "(".toList = ['('] := rfl
  have closes : ")".toList = [')'] := rfl
  have whole := (word.bracketed opens closes ⟨rfl, rfl⟩ argument).spells
  exact ⟨literal, whole, derives⟩

theorem shown_lazy {plain : String → Prop} (name : String) :
    Shown plain [.lazy name] .expression (Occurrence.lazy name).text := by
  obtain ⟨literal, spells, derives⟩ := spells_lazy name
  have begins : Begins plain [.lazy name] "lazy" :=
    .inr ⟨.lazy name, mem_singleton_self _, rfl⟩
  refine ⟨_, ⟨spells, fun front found back same => ?_,
    forall_mem_singleton.mpr ⟨[], standsBehind_self _⟩⟩, ?_⟩
  · cases front with
    | nil =>
      obtain ⟨same, -⟩ := cons.inj same
      exact .inr ⟨.lazy name, mem_singleton_self _, Token.name.inj same,
        standsBehind_self _⟩
    | cons head rest =>
      have named : .name found ∈ enclosed '(' ')' [literal] := by
        simp [(cons.inj same).2]
      have member : .name found ∈ literal := by simpa [enclosed, separated] using named
      exact absurd (derives.usable_of_mem member) id
  · have called : Derives (Begins plain [.lazy name]) .expression [.name "lazy"] := .name begins
    exact called.call (forall_mem_singleton.mpr (derives.mono fun _ => False.elim))
      (forall_mem_nil _)

section Texts

variable {usable : String → Prop}

/-- The names that type expressions use are usable. -/
def Standard (usable : String → Prop) : Prop :=
  ∀ word ∈ typeNames, usable word

/-- The names that type expressions use are usable, apart from the one that defers a named type. -/
def Basic (usable : String → Prop) : Prop :=
  ∀ word ∈ ownNames, usable word

theorem Standard.basic (standard : Standard usable) : Basic usable :=
  fun word member => standard word (mem_of_mem_erase member)

theorem Basic.written (basic : Basic usable) {word : String} (member : word ∈ ownNames) :
    Written usable .expression word :=
  written_name (isIdentifier_typeNames word (mem_of_mem_erase member)) (basic word member)

variable (basic : Basic usable)
include basic

/-! ## Conditions -/

theorem written_limits {bounds : List (String × Scalar)}
    (each : ∀ limit ∈ bounds, isIdentifier limit.1 = true ∧ Usable usable limit.2) :
    Written usable .expression (Mark.limits bounds).text := by
  have keywords : ∀ text ∈ bounds.map fun limit => limit.1 ++ "=" ++ limit.2.literal,
      Written usable .keyword text := by
    intro text member
    obtain ⟨limit, inside, rfl⟩ := mem_map.mp member
    exact written_keyword (each limit inside).1 (written_scalar (each limit inside).2)
  have function : Written usable .expression "Field" := basic.written (by decide)
  have whole := written_call function (forall_mem_nil _) keywords
  exact whole

theorem written_pattern (source : String) :
    Written usable .expression (Mark.pattern source).text := by
  have function : Written usable .expression "pattern" := basic.written (by decide)
  have whole := written_call function (forall_mem_singleton.mpr (written_quoted source))
    (forall_mem_nil _)
  exact whole

theorem written_fromText {kinds : List String} (each : ∀ kind ∈ kinds, kind ∈ ownNames) :
    Written usable .expression (Mark.fromText kinds).text := by
  have function : Written usable .expression "from_text" := basic.written (by decide)
  have whole := written_call function (fun kind member => basic.written (each kind member))
    (forall_mem_nil _)
  rw [append_nil] at whole
  exact whole

/-! ## Types -/

variable {inner : TypeExpr}

variable {marks : List Mark} {values : List Value} {item : TypeExpr}
  {branches : List (Scalar × TypeExpr)} {properties : List (String × TypeExpr × Presence)}

theorem shown_mark {occurrences : List Occurrence}
    (shown : Shown usable occurrences .expression inner.text)
    (each : ∀ mark ∈ marks, Written usable .expression mark.text) :
    Shown usable occurrences .expression (inner.mark marks).text := by
  rw [mark]
  split
  · exact shown
  · have object : Written usable .expression "Annotated" := basic.written (by decide)
    have parts : ∀ piece ∈ (inner.text, occurrences) :: plainPieces (marks.map Mark.text),
        Shown usable piece.2 .expression piece.1 :=
      forall_mem_cons.mpr ⟨shown, shown_plainPieces (forall_mem_map.mpr each)⟩
    have whole := shown_index object (cons_ne_nil _ _) parts
    rw [flatMap_cons, flatMap_plainPieces, append_nil, map_cons,
      map_plainPieces] at whole
    exact whole

theorem written_mark (written : Written usable .expression inner.text)
    (each : ∀ mark ∈ marks, Written usable .expression mark.text) :
    Written usable .expression (inner.mark marks).text :=
  (shown_mark basic written.shown each).written_of_nil

theorem written_formatted {format : String} (known : format ∈ ownNames)
    (written : Written usable .expression inner.text) :
    Written usable .expression (formatted format inner).text := by
  have function : Written usable .expression "formatted" := basic.written (by decide)
  have parts : ∀ text ∈ [format, inner.text], Written usable .expression text := by
    simpa using ⟨basic.written known, written⟩
  have whole := written_call function parts (List.forall_mem_nil _)
  show Written usable .expression ("formatted" ++ "(" ++ format ++ ", " ++ inner.text ++ ")")
  simpa only [join, List.append_nil, String.append_assoc] using whole

theorem written_literal (nonempty : values ≠ [])
    (each : ∀ value ∈ values, Written usable .expression value.literal) :
    Written usable .expression (literal values).text := by
  have object : Written usable .expression "Literal" := basic.written (by decide)
  have parts : ∀ text ∈ values.map Value.literal, Written usable .expression text := by
    simpa using each
  have whole := written_index object (by simpa using nonempty) parts
  exact whole

theorem written_choice (each : ∀ value ∈ values, Written usable .expression value.literal) :
    Written usable .expression (choice values).text := by
  have function : Written usable .expression "choice" := basic.written (by decide)
  have parts : ∀ text ∈ values.map Value.literal, Written usable .expression text := by
    simpa using each
  have whole := written_call function parts (forall_mem_nil _)
  rw [append_nil] at whole
  exact whole

variable {occurrences : List Occurrence}

theorem shown_indexed {object text : String} (known : object ∈ ownNames)
    (shown : Shown usable occurrences .expression text) :
    Shown usable occurrences .expression (object ++ "[" ++ text ++ "]") := by
  have parts : ∀ piece ∈ [(text, occurrences)], Shown usable piece.2 .expression piece.1 :=
    forall_mem_singleton.mpr shown
  have whole := shown_index (basic.written known) (cons_ne_nil _ _) parts
  rwa [flatMap_singleton] at whole

theorem shown_listOf (shown : Shown usable occurrences .expression item.text) :
    Shown usable occurrences .expression (list item).text := by
  have known : "list" ∈ ownNames := by decide
  exact shown_indexed basic known shown

theorem shown_dict (shown : Shown usable occurrences .expression item.text) :
    Shown usable occurrences .expression (dict item).text := by
  have object : Written usable .expression "dict" := basic.written (by decide)
  have key : Written usable .expression "str" := basic.written (by decide)
  have parts : ∀ piece ∈ [("str", []), (item.text, occurrences)],
      Shown usable piece.2 .expression piece.1 := by
    simpa using ⟨key.shown, shown⟩
  have whole := shown_index object (List.cons_ne_nil _ _) parts
  show Shown usable occurrences .expression ("dict" ++ "[" ++ "str" ++ ", " ++ item.text ++ "]")
  simpa only [join, List.map_cons, List.map_nil, List.flatMap_cons, List.flatMap_nil,
    List.nil_append, List.append_nil, String.append_assoc] using whole

theorem shown_optional (shown : Shown usable occurrences .expression inner.text) :
    Shown usable occurrences .expression (optional inner).text := by
  have known : "Optional" ∈ ownNames := by decide
  exact shown_indexed basic known shown

omit basic in
theorem textList_eq_map (members : List TypeExpr) :
    textList members = members.map text := by
  induction members with
  | nil => rfl
  | cons member rest ih => rw [textList, ih, map_cons]

/-- The text of a type shows the occurrences in it. -/
abbrev Sound (usable : String → Prop) (type : TypeExpr) : Prop :=
  Shown usable type.occurrences .expression type.text

variable {members : List TypeExpr}

/-- Members are put together by a function of the runtime unit. -/
theorem shown_members {function : String} (known : function ∈ ownNames)
    (each : ∀ member ∈ members, Sound usable member) :
    Shown usable (occurrencesList members) .expression
      (function ++ "(" ++ join ", " (textList members) ++ ")") := by
  have parts : ∀ piece ∈ members.map fun member => (member.text, member.occurrences),
      Shown usable piece.2 .expression piece.1 := by
    simpa using each
  have whole := shown_call (basic.written known) parts (forall_mem_nil _)
  rw [textList_eq_map, occurrencesList_eq_flatMap]
  simpa [flatMap_map, Function.comp_def] using whole

theorem sound_union (each : ∀ member ∈ members, Sound usable member) :
    Sound usable (.union members) := by
  have known : "union" ∈ ownNames := by decide
  have whole := shown_members basic known each
  exact whole

theorem sound_oneOf (each : ∀ member ∈ members, Sound usable member) :
    Sound usable (.oneOf members) := by
  have known : "one_of" ∈ ownNames := by decide
  have whole := shown_members basic known each
  exact whole

theorem sound_allOf (each : ∀ member ∈ members, Sound usable member) :
    Sound usable (.allOf members) := by
  have known : "all_of" ∈ ownNames := by decide
  have whole := shown_members basic known each
  exact whole

/-! ## Tagged unions -/

omit basic in
theorem textBranches_eq_map (branches : List (Scalar × TypeExpr)) :
    textBranches branches =
      branches.map fun branch => branch.1.literal ++ ": " ++ branch.2.text := by
  induction branches with
  | nil => rfl
  | cons branch rest ih => rw [textBranches, ih, map_cons]

omit basic in
theorem shown_branches (each : ∀ branch ∈ branches, Usable usable branch.1 ∧ Sound usable branch.2) :
    Shown usable (occurrencesBranches branches) .expression
      ("\x7b" ++ join ", " (textBranches branches) ++ "\x7d") := by
  have entries : ∀ piece ∈ branches.map fun branch =>
      (branch.1.literal ++ ": " ++ branch.2.text, branch.2.occurrences),
        Shown usable piece.2 .entry piece.1 :=
    List.forall_mem_map.mpr fun branch member =>
      shown_entry (written_scalar (each branch member).1) (each branch member).2
  have whole := shown_map entries
  rw [List.map_map, List.flatMap_map] at whole
  rw [textBranches_eq_map, occurrencesBranches_eq_flatMap]
  exact whole

theorem sound_tagged {property : String}
    (each : ∀ branch ∈ branches, Usable usable branch.1 ∧ Sound usable branch.2) :
    Sound usable (.tagged property branches) := by
  have function : Written usable .expression "tagged" := basic.written (by decide)
  have table := shown_branches each
  have parts : ∀ piece ∈ [(quoted property, []),
      ("\x7b" ++ join ", " (textBranches branches) ++ "\x7d",
        occurrencesBranches branches)], Shown usable piece.2 .expression piece.1 := by
    simpa using ⟨(written_quoted property).shown, table⟩
  have whole := shown_call function parts (List.forall_mem_nil _)
  show Shown usable (occurrencesBranches branches) .expression
    ("tagged" ++ "(" ++ quoted property ++ (", " ++ "\x7b") ++
      join ", " (textBranches branches) ++ ("\x7d" ++ ")"))
  simpa only [join, List.append_nil, List.map_cons, List.map_nil, List.flatMap_cons,
    List.flatMap_nil, List.nil_append, String.append_assoc] using whole

/-! ## Models -/

/-- The scalars in the text of the presence of a property are usable. -/
def PresenceUsable (usable : String → Prop) : Presence → Prop
  | .required => True
  | .default value => ∀ scalar ∈ value.scalars, Usable usable scalar
  | .optional => True

/-- The argument by name that tells the presence of a property. -/
def presenceArguments : Presence → List String
  | .required => ["required" ++ "=" ++ "True"]
  | .default value => ["default" ++ "=" ++ value.literal]
  | .optional => []

omit basic in
theorem append_presence (text : String) (presence : Presence) :
    text ++ presence.text = join ", " (text :: presenceArguments presence) := by
  cases presence with
  | required =>
    show text ++ (", " ++ "required" ++ "=" ++ "True") = _
    simp only [presenceArguments, join, String.append_assoc]
  | default value =>
    show text ++ (", " ++ "default" ++ "=" ++ value.literal) = _
    simp only [presenceArguments, join, String.append_assoc]
  | optional => exact String.append_empty

theorem written_presence {presence : Presence} (present : PresenceUsable usable presence) :
    ∀ text ∈ presenceArguments presence, Written usable .keyword text := by
  cases presence with
  | required =>
    have truth : Written usable .expression "True" := basic.written (by decide)
    exact forall_mem_singleton.mpr (written_keyword rfl truth)
  | default value =>
    exact forall_mem_singleton.mpr (written_keyword rfl (written_value value present))
  | optional => exact forall_mem_nil _

theorem shown_property {type : TypeExpr} {presence : Presence} (name : String)
    (shown : Shown usable occurrences .expression type.text)
    (present : PresenceUsable usable presence) :
    Shown usable occurrences .entry
      (quoted name ++ ": prop(" ++ type.text ++ presence.text ++ ")") := by
  have function : Written usable .expression "prop" := basic.written (by decide)
  have lone : ∀ piece ∈ [(type.text, occurrences)], Shown usable piece.2 .expression piece.1 :=
    forall_mem_singleton.mpr shown
  have whole := shown_entry (written_quoted name)
    (shown_call function lone (shown_plainPieces (written_presence basic present)))
  rw [flatMap_append, flatMap_plainPieces, append_nil, flatMap_singleton,
    map_append, map_plainPieces, map_singleton, singleton_append, ← append_presence] at whole
  show Shown usable occurrences .entry
    (quoted name ++ (": " ++ "prop" ++ "(") ++ type.text ++ presence.text ++ ")")
  simpa only [String.append_assoc] using whole

omit basic in
theorem textProperties_eq_map (properties : List (String × TypeExpr × Presence)) :
    textProperties properties = properties.map fun property =>
      quoted property.1 ++ ": prop(" ++ property.2.1.text ++ property.2.2.text ++ ")" := by
  induction properties with
  | nil => rfl
  | cons property rest ih => rw [textProperties, ih, map_cons]

theorem shown_properties
    (each : ∀ property ∈ properties, Sound usable property.2.1 ∧ PresenceUsable usable property.2.2) :
    Shown usable (occurrencesProperties properties) .expression
      ("\x7b" ++ join ", " (textProperties properties) ++ "\x7d") := by
  have entries : ∀ piece ∈ properties.map fun property =>
      (quoted property.1 ++ ": prop(" ++ property.2.1.text ++ property.2.2.text ++ ")",
        property.2.1.occurrences), Shown usable piece.2 .entry piece.1 :=
    List.forall_mem_map.mpr fun property member =>
      shown_property basic property.1 (each property member).1 (each property member).2
  have whole := shown_map entries
  rw [List.map_map, List.flatMap_map] at whole
  rw [textProperties_eq_map, occurrencesProperties_eq_flatMap]
  exact whole

/-- The argument by name that tells the type of further properties. -/
def extraArguments (extra : Option TypeExpr) : List (String × List Occurrence) :=
  extra.toList.map fun type => ("extra_type" ++ "=" ++ type.text, type.occurrences)

omit basic in
theorem append_extra (text : String) (extra : Option TypeExpr) :
    text ++ textExtra extra = join ", " (text :: (extraArguments extra).map (·.1)) := by
  cases extra with
  | none => exact String.append_empty
  | some type =>
    show text ++ (", " ++ "extra_type" ++ "=" ++ type.text) = _
    simp only [extraArguments, Option.toList_some, map_cons, map_nil, join, String.append_assoc]

omit basic in
theorem occurrencesExtra_eq (extra : Option TypeExpr) :
    occurrencesExtra extra = (extraArguments extra).flatMap (·.2) := by
  rw [occurrencesExtra_eq_flatMap, extraArguments, flatMap_map]

theorem sound_model {name : String} {closed : Bool} {extra : Option TypeExpr}
    (each : ∀ property ∈ properties, Sound usable property.2.1 ∧ PresenceUsable usable property.2.2)
    (typed : ∀ type ∈ extra, Sound usable type) :
    Sound usable (.model name properties closed extra) := by
  have function : Written usable .expression "model" := basic.written (by decide)
  have parts : ∀ piece ∈ [(quoted name, []),
      ("\x7b" ++ join ", " (textProperties properties) ++ "\x7d",
        occurrencesProperties properties)], Shown usable piece.2 .expression piece.1 := by
    simpa using ⟨(written_quoted name).shown, shown_properties basic each⟩
  have word : Written usable .expression (if closed then "'forbid'" else "'allow'") := by
    cases closed with
    | true => exact written_quoted "forbid"
    | false => exact written_quoted "allow"
  have mode : Shown usable [] .keyword
      ("extra" ++ "=" ++ (if closed then "'forbid'" else "'allow'")) :=
    shown_keyword rfl word.shown
  have further : ∀ piece ∈ extraArguments extra, Shown usable piece.2 .keyword piece.1 :=
    forall_mem_map.mpr fun type member =>
      shown_keyword rfl (typed type (Option.mem_toList.mp member))
  have keywords : ∀ piece ∈
      ("extra" ++ "=" ++ (if closed then "'forbid'" else "'allow'"), []) :: extraArguments extra,
        Shown usable piece.2 .keyword piece.1 := forall_mem_cons.mpr ⟨mode, further⟩
  have whole := shown_call function parts keywords
  simp only [cons_append, nil_append, map_cons, flatMap_cons, join, ← append_extra,
    ← occurrencesExtra_eq, String.append_assoc] at whole
  show Shown usable (occurrencesProperties properties ++ occurrencesExtra extra) .expression
    ("model" ++ "(" ++ quoted name ++ (", " ++ "\x7b") ++
    join ", " (textProperties properties) ++ ("\x7d" ++ ", " ++ "extra" ++ "=") ++
    (if closed then "'forbid'" else "'allow'") ++ textExtra extra ++ ")")
  simpa only [String.append_assoc] using whole

end Texts

end Bindery.Code
