import Bindery.Proofs.Code.Assembly
import Bindery.Proofs.Code.Imports
import Bindery.Proofs.Code.Primitive

/-!
# Fragments record the names in their code

A fragment records a named type as imported if the type occurs bare in its code,
and as forward if it occurs in lazy calls only.  Combining fragments keeps this, so
every compiled fragment records exactly what occurs in its code.  Nothing occurs in
the code of a schema that the schema does not mention, and only what it mentions
directly occurs bare.
-/

namespace Bindery

open TypeExpr List Run Node

namespace Fragment

variable {Code Part : Type}

/-- What a fragment records of a name, which is in its code as a bare name or deferred. -/
structure Records (fragment : Fragment Code) (name : String) (bare deferred : Prop) : Prop where
  imports : name ∈ fragment.imports ↔ bare
  dependencies : name ∈ fragment.dependencies ↔ bare ∨ deferred
  forward : name ∈ fragment.forward ↔ deferred ∧ ¬bare

theorem mem_imports_combine {code : Code} {parts : List (Fragment Part)} {name : String} :
    name ∈ (combine code parts).imports ↔ ∃ part ∈ parts, name ∈ part.imports := by
  rw [imports, mem_filter, ← mem_flatMap]
  simp only [combine, mem_append, mem_eraseDups, mem_filter, contains_eq_mem]
  by_cases direct : name ∈ parts.flatMap imports <;> simp [direct]

theorem records_combine {code : Code} {parts : List (Fragment Part)} {name : String}
    {bare deferred : Fragment Part → Prop}
    (each : ∀ part ∈ parts, part.Records name (bare part) (deferred part)) :
    (combine code parts).Records name (∃ part ∈ parts, bare part)
      (∃ part ∈ parts, deferred part) := by
  have direct : (∃ part ∈ parts, name ∈ part.imports) ↔ ∃ part ∈ parts, bare part :=
    exists_congr fun part => and_congr_right fun member => (each part member).imports
  have forward : name ∈ (combine code parts).forward ↔
      (∃ part ∈ parts, deferred part) ∧ ¬∃ part ∈ parts, bare part := by
    simp only [combine, mem_eraseDups, mem_filter, contains_eq_mem, Bool.not_eq_true',
      decide_eq_false_iff_not, mem_flatMap, direct]
    refine and_congr_left fun unmentioned => exists_congr fun part => and_congr_right fun member => ?_
    rw [(each part member).forward]
    exact and_iff_left fun here => unmentioned ⟨part, member, here⟩
  refine ⟨mem_imports_combine.trans direct, ?_, forward⟩
  show name ∈ (parts.flatMap imports).eraseDups ++ (combine code parts).forward ↔ _
  rw [mem_append, mem_eraseDups, mem_flatMap, direct, forward]
  by_cases mentioned : ∃ part ∈ parts, bare part
  · simp only [mentioned, true_or]
  · simp only [mentioned, false_or, not_false_eq_true, and_true]
end Fragment

namespace Code

open Fragment

/-! ## Exact fragments -/

/-- The types that occur by their bare names have identifiers for names. -/
def Identified (occurrences : List Occurrence) : Prop :=
  ∀ name, .bare name ∈ occurrences → isIdentifier name = true

/-- The names that code may use: plain ones, and those of the types that it may mention and that it
may mention bare. -/
structure Vocabulary where
  plain : String → Prop
  mentioned : List String
  direct : List String

/-- Whether a type may occur in code in some way. -/
def Vocabulary.Admits (words : Vocabulary) : Occurrence → Prop
  | .bare name => name ∈ words.mentioned ∧ name ∈ words.direct
  | .lazy name => name ∈ words.mentioned

/-- A fragment records the occurrences in its code, which are admitted; the text of the code shows
them if it can be read, and its default value has plain names. -/
structure Exact (words : Vocabulary) (fragment : TypeFragment) : Prop where
  code : Identified fragment.code.occurrences → Sound words.plain fragment.code
  records : ∀ name, fragment.Records name (.bare name ∈ fragment.code.occurrences)
    (.lazy name ∈ fragment.code.occurrences)
  admitted : ∀ occurrence ∈ fragment.code.occurrences, words.Admits occurrence
  default : ∀ value ∈ fragment.default, ValueUsable words.plain value

section Compilation

variable {words : Vocabulary} (basic : Basic words.plain)

variable {fragment : TypeFragment} {default : Option Value} {code : TypeExpr}
  {parts : List TypeFragment} {target : String} {node : Node}

theorem Exact.within (held : Exact words fragment) :
    fragment.Within words.mentioned words.direct where
  dependencies name member := by
    rcases (held.records name).dependencies.mp member with bare | deferred
    · exact (held.admitted _ bare).1
    · exact held.admitted _ deferred
  forward name member := held.admitted _ ((held.records name).forward.mp member).1
  imports name member := (held.admitted _ ((held.records name).imports.mp member)).2

theorem Exact.withDefault (held : Exact words fragment)
    (given : ∀ value ∈ default, ValueUsable words.plain value) :
    Exact words (fragment.withDefault default) where
  code := held.code
  records name := ⟨(held.records name).imports, (held.records name).dependencies,
    (held.records name).forward⟩
  admitted := held.admitted
  default value member := by
    rw [Fragment.withDefault, Option.mem_def, Option.or_eq_some_iff] at member
    rcases member with own | ⟨_, other⟩
    · exact held.default value own
    · exact given value other

theorem exact_leaf (leaf : Leaf words.plain code)
    (given : ∀ value ∈ default, ValueUsable words.plain value) : Exact words { code, default } where
  code := fun _ => leaf.sound
  records name := by
    constructor <;> simp [imports, leaf.closed]
  admitted := by simp [leaf.closed]
  default := given

/-- Code that is built from exact parts is exact, if the parts hold all its occurrences. -/
theorem exact_combine
    (occurrences : code.occurrences = parts.flatMap fun part => part.code.occurrences)
    (sound : (∀ part ∈ parts, Sound words.plain part.code) → Sound words.plain code)
    (each : ∀ part ∈ parts, Exact words part) : Exact words (combine code parts) where
  code identified := by
    refine sound fun part member => (each part member).code fun name bare => identified name ?_
    show _ ∈ code.occurrences
    rw [occurrences]
    exact mem_flatMap.mpr ⟨part, member, bare⟩
  records name := by
    have whole : (combine code parts).Records name _ _ :=
      records_combine fun part member => (each part member).records name
    simpa only [combine, occurrences, mem_flatMap] using whole
  admitted occurrence member := by
    obtain ⟨part, inside, here⟩ := mem_flatMap.mp (occurrences ▸ member)
    exact (each part inside).admitted occurrence here
  default := by rintro _ ⟨⟩

theorem exact_members {constructor : List TypeExpr → TypeExpr} {members : List TypeFragment}
    (sound : ∀ {types}, (∀ type ∈ types, Sound words.plain type) →
      Sound words.plain (constructor types))
    (occurrences : ∀ types, (constructor types).occurrences = occurrencesList types)
    (each : ∀ member ∈ members, Exact words member) :
    Exact words (combine (constructor (members.map (·.code))) members) := by
  refine exact_combine ?_ (fun parts => sound (forall_mem_map.mpr parts)) each
  rw [occurrences, occurrencesList_eq_flatMap, flatMap_map]

/-! ## Parts and wholes -/

/-- Only some faults arise from the value that tells a member apart, if the mapping does not. -/
def TagPermits (faults : Fault → Prop) (scope : Scope) (discriminator : Discriminator)
    (member : Node) : Prop :=
  member.target?.any discriminator.targets.contains = false →
    ∀ value, member.inferredTag scope.types discriminator.property = some value →
      ∀ fault, value.needKey = .error fault → faults fault

/-- Only some faults arise from a schema itself; `coerce` marks values that arrive as text. -/
def Permits (faults : Fault → Prop) (scope : Scope) (coerce : Bool) : Node → Prop
  | .primitive _ kind format constraints => IsCheckable faults kind format constraints
  | .reference _ target _ => coerce = true → ∀ note kind format constraints,
      scope.types.lookup target = some (.primitive note kind format constraints) →
        IsCheckable faults kind format constraints
  | .composition _ mode members (some discriminator) =>
    mode ≠ .allOf → 1 < members.length →
      ∀ member ∈ members, TagPermits faults scope discriminator member
  | _ => True

variable {faults : Fault → Prop}

/-- The scalars of the types in a scope have plain names. -/
def ScopeUsable (plain : String → Prop) (scope : Scope) : Prop :=
  ∀ type ∈ scope.types, ∀ scalar ∈ type.2.scalars, Usable plain scalar

theorem usable_default {note : Note} (each : ∀ scalar ∈ note.scalars, Usable words.plain scalar) :
    ∀ value ∈ note.default, ValueUsable words.plain value :=
  fun _ given scalar member => each scalar (Note.mem_scalars given member)

theorem valueUsable_list {values : List Value}
    (each : ∀ scalar ∈ Value.scalarsList values, Usable words.plain scalar) :
    ∀ value ∈ values, ValueUsable words.plain value :=
  fun value member scalar inside => each scalar (Value.mem_scalarsList.mpr ⟨value, member, inside⟩)

theorem exact_deferred (member : target ∈ words.mentioned) :
    Exact words (.deferred (.lazy target) target) where
  code := fun _ => shown_lazy target
  records name := by
    constructor <;> simp [Fragment.deferred, imports, occurrences]
  admitted := forall_mem_singleton.mpr member
  default := by rintro _ ⟨⟩

theorem exact_referenceType {forward : Bool} (member : target ∈ words.mentioned)
    (imported : forward = false → target ∈ words.direct) :
    Exact words (referenceType target forward) := by
  cases forward with
  | true => exact exact_deferred member
  | false =>
    refine ⟨fun identified => ?_, fun name => ?_, ?_, by rintro _ ⟨⟩⟩
    · exact shown_bare (identified target (mem_singleton_self _))
    · constructor <;> simp [referenceType, Fragment.direct, imports, occurrences]
    · exact forall_mem_singleton.mpr ⟨member, imported rfl⟩

section Wholes

include basic

theorem exact_anything : Exact words anything :=
  exact_leaf (leaf_any basic) (by rintro _ ⟨⟩)

theorem compileReference_exact {scope : Scope} (known : ScopeUsable words.plain scope)
    {coerce : Bool} {note : Note} {target : String} {forward : Bool}
    (permits : Permits faults scope coerce (.reference note target forward))
    (member : target ∈ words.mentioned) (imported : forward = false → target ∈ words.direct) :
    Run.Adds faults (compileReference scope coerce target forward) (Exact words) := by
  have plainly : Run.Adds faults (pure (referenceType target forward) : Compilation TypeFragment)
      (Exact words) := .pure (exact_referenceType member imported)
  unfold compileReference
  split
  next coerced =>
    split
    next note kind format constraints found =>
      have each := List.forall_mem_append.mp (known _ (mem_of_lookup found))
      have checkable := permits coerced note kind format constraints found
      exact .bind (primitiveType_leaf basic true target checkable each.2)
        fun type leaf => .pure (exact_leaf leaf (usable_default each.1))
    next note values extensible found =>
      have each := List.forall_mem_append.mp (known _ (mem_of_lookup found))
      exact .pure (exact_leaf (leaf_enumerationType basic true extensible
        (valueUsable_list each.2)) (usable_default each.1))
    next => exact plainly
  · exact plainly

theorem exact_arrayOf {item : TypeFragment} (held : Exact words item)
    (least most : Option Int) (unique : Bool) :
    Exact words (arrayOf item least most unique) := by
  have lengths := written_lengthMarks basic least most
  have uniqueMark : Written words.plain .expression Mark.unique.text := basic.written (by decide)
  have uniques : ∀ mark ∈ (if unique then [Mark.unique] else []),
      Written words.plain .expression mark.text := by
    split
    · exact forall_mem_singleton.mpr uniqueMark
    · exact forall_mem_nil _
  refine exact_combine ?_ (fun parts => ?_) (forall_mem_singleton.mpr held)
  · rw [occurrences_mark, occurrences, flatMap_singleton]
  · rw [Sound, occurrences_mark, occurrences]
    exact shown_mark basic (shown_listOf basic (parts item mem_cons_self))
      (forall_mem_append.mpr ⟨lengths, uniques⟩)

theorem exact_modelOf (hint : String) {properties : List (String × TypeFragment)}
    (required : List String) (closed : Bool) {extra : Option TypeFragment}
    (declared : ∀ property ∈ properties, Exact words property.2)
    (typed : ∀ fragment ∈ extra, Exact words fragment) :
    Exact words (modelOf hint properties required closed extra) := by
  unfold modelOf
  dsimp only
  split
  · have value : Exact words (extra.getD anything) := by
      cases extra with
      | none => exact exact_anything basic
      | some fragment => exact typed fragment rfl
    refine exact_combine ?_ (fun parts => ?_) (forall_mem_singleton.mpr value)
    · rw [occurrences, flatMap_singleton]
    · rw [Sound, occurrences]
      exact shown_dict basic (parts _ mem_cons_self)
  · refine exact_combine ?_ (fun parts => sound_model basic (fun property member => ?_)
      fun type member => ?_) fun part member => ?_
    · simp only [occurrences, occurrencesProperties_eq_flatMap,
        occurrencesExtra_eq_flatMap, flatMap_append, flatMap_map,
        Option.toList_map]
    · obtain ⟨⟨name, fragment⟩, inside, rfl⟩ := mem_map.mp member
      have here := parts fragment (mem_append_left _ (mem_map.mpr ⟨_, inside, rfl⟩))
      refine ⟨here, ?_⟩
      dsimp only
      split
      · trivial
      · split
        next value given => exact (declared _ inside).default value given
        next => trivial
    · obtain ⟨fragment, given, rfl⟩ := Option.map_eq_some_iff.mp member
      exact parts fragment (mem_append_right _ (by simpa using given))
    · rcases mem_append.mp member with here | there
      · obtain ⟨property, inside, rfl⟩ := mem_map.mp here
        exact declared property inside
      · exact typed part (by simpa using there)

end Wholes

/-! ## Unions -/

/-- Every branch records its names, and its tag has plain names. -/
def BranchesExact (words : Vocabulary) (branches : Branches) : Prop :=
  ∀ branch ∈ branches, Usable words.plain branch.1 ∧ Exact words branch.2

theorem BranchesExact.append {branches : Branches} {tag : Scalar}
    (held : BranchesExact words branches) (usable : Usable words.plain tag)
    (more : Exact words fragment) : BranchesExact words (branches ++ [(tag, fragment)]) :=
  forall_mem_append.mpr ⟨held, forall_mem_singleton.mpr ⟨usable, more⟩⟩

theorem usable_str (text : String) : Usable words.plain (.str text) :=
  fun _ member => absurd member not_mem_nil

/-- The members of a union with the fragments they are compiled to. -/
def MembersExact (words : Vocabulary) (members : List (Node × TypeFragment)) : Prop :=
  ∀ member ∈ members, (∀ scalar ∈ member.1.scalars, Usable words.plain scalar) ∧
    Exact words member.2

theorem exact_mappedBranches {mapping : List (String × String)}
    {members : List (Node × TypeFragment)} (mapped : mapping.map (·.2) ⊆ words.mentioned)
    (each : MembersExact words members) :
    BranchesExact words (mappedBranches mapping members) := by
  intro branch member
  obtain ⟨⟨tag, target⟩, inside, rfl⟩ := mem_map.mp member
  refine ⟨usable_str tag, ?_⟩
  dsimp only
  cases found : members.reverse.find? fun member => member.1.target? == some target with
  | none => exact exact_deferred (mapped (mem_map.mpr ⟨_, inside, rfl⟩))
  | some member =>
    exact (each member (mem_reverse.mp (mem_of_find?_eq_some found))).2

section Tagging

variable {scope : Scope} (known : ScopeUsable words.plain scope) {hint : String}
  {discriminator : Discriminator}

include known

theorem addBranches_exact {members : List ((Node × TypeFragment) × Nat)} {branches : Branches}
    (permits : ∀ member ∈ members, TagPermits faults scope discriminator member.1.1)
    (each : MembersExact words (members.map (·.1))) (held : BranchesExact words branches) :
    Adds faults (addBranches scope hint discriminator members branches) fun result =>
      ∀ branches ∈ result, BranchesExact words branches := by
  induction members generalizing branches with
  | nil => exact .pure (by simpa using held)
  | cons member rest ih =>
    obtain ⟨⟨node, fragment⟩, index⟩ := member
    obtain ⟨⟨scalars, first⟩, others⟩ := forall_mem_cons.mp each
    obtain ⟨allowed, permits⟩ := forall_mem_cons.mp permits
    rw [addBranches]
    split
    · exact ih permits others held
    next uncovered =>
      split
      · exact .bind (report_adds _) fun _ _ => .pure (by simp)
      next value found =>
        have usable := inferredTag_holds known scalars usable_str _ value found
        refine .bind (.ofExcept (fun key made => usable key (Value.mem_scalars_of_needKey made))
          (allowed (by simpa using uncovered) value found)) fun tag usable => ?_
        split
        · split
          · exact ih permits others held
          · exact .bind (report_adds _) fun _ _ => .pure (by simp)
        · exact ih permits others (held.append usable first)

include basic

theorem taggedUnion?_exact {members : List (Node × TypeFragment)}
    (permits : ∀ member ∈ members, TagPermits faults scope discriminator member.1)
    (mapped : discriminator.targets ⊆ words.mentioned) (each : MembersExact words members) :
    Adds faults (taggedUnion? scope hint discriminator members) fun result =>
      ∀ fragment ∈ result, Exact words fragment := by
  have indexed : MembersExact words (members.zipIdx.map (·.1)) := by
    rwa [zipIdx_map_fst]
  rw [taggedUnion?_eq]
  refine .bind (addBranches_exact known
    (fun member listed => permits member.1 (fst_mem_of_mem_zipIdx listed)) indexed
    (exact_mappedBranches mapped each)) fun branches? held => .pure fun fragment made => ?_
  obtain ⟨branches, found, rfl⟩ := Option.map_eq_some_iff.mp made
  refine exact_combine ?_ (fun parts => sound_tagged basic fun branch member => ?_)
    fun part member => ?_
  · simp only [occurrences, occurrencesBranches_eq_flatMap, flatMap_map]
  · obtain ⟨made, inside, rfl⟩ := mem_map.mp member
    exact ⟨(held branches found made inside).1, parts made.2 (mem_map_of_mem inside)⟩
  · obtain ⟨branch, inside, rfl⟩ := mem_map.mp member
    exact (held branches found branch inside).2

theorem unionOf_exact {mode : Composition} {discriminator : Option Discriminator}
    {nodes : List Node} {members : List TypeFragment}
    (permits : ∀ tags ∈ discriminator, mode ≠ .allOf →
      ∀ node ∈ nodes, TagPermits faults scope tags node)
    (mapped : Discriminator.targetsOf discriminator ⊆ words.mentioned)
    (scalars : ∀ node ∈ nodes, ∀ scalar ∈ node.scalars, Usable words.plain scalar)
    (each : ∀ member ∈ members, Exact words member) :
    Adds faults (unionOf scope hint mode discriminator nodes members) (Exact words) := by
  have paired : MembersExact words (nodes.zip members) := fun member inside =>
    ⟨scalars member.1 (of_mem_zip inside).1, each member.2 (of_mem_zip inside).2⟩
  have tagging (choice : mode ≠ .allOf) :
      Adds faults (tagged? scope hint discriminator (nodes.zip members)) fun result =>
        ∀ fragment ∈ result, Exact words fragment := by
    cases discriminator with
    | none => exact .pure nofun
    | some tags =>
      exact taggedUnion?_exact basic known (fun member inside =>
        permits tags rfl choice member.1 (of_mem_zip inside).1) mapped paired
  have overlapping : Adds faults (reportOverlap scope hint mode nodes) fun _ => True := by
    unfold reportOverlap
    split
    · exact report_adds _
    · exact .pure trivial
  have untagging : Exact words (combine (untagged mode members) members) := by
    unfold untagged
    split
    · exact exact_members (sound_union basic) (fun _ => by rw [occurrences]) each
    · exact exact_members (sound_oneOf basic) (fun _ => by rw [occurrences]) each
  rw [unionOf_eq]
  split
  · exact .pure (exact_members (sound_allOf basic) (fun _ => by rw [occurrences]) each)
  next choice =>
    refine .bind (tagging choice) fun tagged? told => ?_
    cases tagged? with
    | some tagged => exact .pure (told tagged rfl)
    | none => exact .bind overlapping fun _ _ => .pure untagging

end Tagging

/-! ## Schemas -/

/-- The scalars and the targets of a schema are in a vocabulary. -/
structure Covers (words : Vocabulary) (node : Node) : Prop where
  scalars : ∀ scalar ∈ node.scalars, Usable words.plain scalar
  mentioned : node.mentions true ⊆ words.mentioned
  direct : node.mentions false ⊆ words.direct

theorem Covers.child {child : Node} (covers : Covers words node) (member : child ∈ node.children) :
    Covers words child where
  scalars scalar inside := covers.scalars scalar (scalars_subset_of_mem_children member inside)
  mentioned _ inside := covers.mentioned (mentions_subset_of_mem_children true member inside)
  direct _ inside := covers.direct (mentions_subset_of_mem_children false member inside)

variable {scope : Scope} {coerce : Bool}

/-- What is assembled from exact fragments is exact. -/
theorem assemble_exact (basic : Basic words.plain) (known : ScopeUsable words.plain scope)
    (permits : Permits faults scope coerce node) (covers : Covers words node) {hint : String}
    (complete : (placedParts hint node).length = parts.length)
    (each : ∀ part ∈ parts, Exact words part) :
    Run.Adds faults (assemble scope coerce hint node parts) (Exact words) := by
  cases node with
  | primitive note kind format constraints =>
    exact .bind (primitiveType_leaf basic coerce hint permits
      (List.forall_mem_append.mp covers.scalars).2) fun type leaf =>
        .pure (exact_leaf leaf nofun)
  | null note => exact .pure (exact_leaf (leaf_none basic) nofun)
  | any note => exact .pure (exact_anything basic)
  | enumeration note values extensible =>
    exact .pure (exact_leaf (leaf_enumerationType basic coerce extensible
      (valueUsable_list (List.forall_mem_append.mp covers.scalars).2)) nofun)
  | reference note target forward =>
    refine compileReference_exact basic known permits (covers.mentioned (by simp [Node.mentions]))
      fun direct => covers.direct (by simp [Node.mentions, direct])
  | array note items least most unique =>
    refine .pure (exact_arrayOf basic ?_ _ _ _)
    cases parts with
    | nil => exact exact_anything basic
    | cons part rest => exact each part List.mem_cons_self
  | object note properties required extras declared title =>
    have named {parts : List TypeFragment} (each : ∀ part ∈ parts, Exact words part) :
        ∀ property ∈ (properties.map (·.1)).zip parts, Exact words property.2 :=
      fun property inside => each _ (List.of_mem_zip inside).2
    delta assemble
    dsimp only
    split
    next extra parts =>
      obtain ⟨first, others⟩ := List.forall_mem_cons.mp each
      exact .pure (exact_modelOf basic _ _ _ (named others) (by simpa using first))
    next => exact .pure (exact_modelOf basic _ _ _ (named each) nofun)
  | typeArray note members =>
    delta assemble
    dsimp only
    split
    · refine .pure (exact_combine ?_ (fun parts => ?_) each)
      · rw [occurrences, List.flatMap_singleton]
      · rw [Sound, occurrences]
        exact shown_optional basic (parts _ List.mem_cons_self)
    · exact .pure (each _ List.mem_cons_self)
    · exact .pure (exact_members (sound_union basic) (fun _ => by rw [occurrences]) each)
  | composition note mode members discriminator =>
    delta assemble
    dsimp only
    split
    · exact .pure (exact_anything basic)
    · exact .pure (each _ List.mem_cons_self)
    next empty single =>
      have many : 1 < members.length := by
        rw [placedParts, List.length_map, List.length_zipIdx] at complete
        rcases parts with _ | ⟨part, _ | ⟨other, parts⟩⟩
        · exact absurd rfl empty
        · exact absurd rfl (single part)
        · rw [complete]
          exact Nat.le_add_left 2 _
      refine unionOf_exact basic known (fun tags given choice => ?_)
        (List.append_subset.mp covers.mentioned).2 (fun inner inside scalar used => ?_) each
      · cases given
        exact permits choice many
      · exact covers.scalars scalar (Node.scalars_subset_of_mem_children inside used)

/-- Every schema is compiled to a fragment that records the names in its code, and only some faults
stop this. -/
theorem compile_exact (basic : Basic words.plain) (known : ScopeUsable words.plain scope)
    (permits : ∀ part, PartOf part node → Permits faults scope coerce part)
    (covers : Covers words node) (hint : String) :
    Adds faults (compile scope coerce hint node) (Exact words) := by
  induction node using induction generalizing hint with
  | step node ih =>
    have each : ∀ part ∈ placedParts hint node,
        Adds faults (compilePart scope coerce part) (Exact words) := by
      intro part member
      have child := mem_children_of_placed member
      exact ih part.2 child (fun inner inside => permits inner (.child child inside))
        (covers.child child) part.1
    have default := usable_default fun scalar inside =>
      covers.scalars scalar (node.note_scalars_subset inside)
    rw [compile_eq]
    refine .bind (.mapM each) fun parts compiled => ?_
    exact .bind (assemble_exact basic known (permits node .itself) covers compiled.length_eq
      (forall_mem_of_forall₂ compiled)) fun fragment held => .pure (held.withDefault default)

end Compilation

/-- The vocabulary of a schema in which some names are plain. -/
def vocabularyOf (plain : String → Prop) (node : Node) : Vocabulary :=
  ⟨plain, node.mentions true, node.mentions false⟩

/-- Nothing but the shape of values stops the compilation of a schema. -/
theorem permits_of_shape {faults : Fault → Prop} (allowed : ∀ cause, faults (.shape cause))
    (scope : Scope) (coerce : Bool) (node : Node) : Permits faults scope coerce node := by
  have checkable (kind : PrimitiveKind) (format : Option String) (constraints : Constraints) :
      IsCheckable faults kind format constraints :=
    fun _ _ _ _ => ⟨fun _ => allowed _, fun _ => allowed _⟩
  cases node with
  | primitive => exact checkable _ _ _
  | reference => exact fun _ _ _ _ _ _ => checkable _ _ _
  | composition note mode members discriminator =>
    cases discriminator with
    | none => trivial
    | some tags =>
      rintro _ _ member _ _ (_ | _ | _) _ fault ⟨⟩
      · exact allowed _
      · exact allowed _
  | _ => trivial

/-- Every schema is compiled with its own vocabulary. -/
theorem compile_gives {plain : String → Prop} (basic : Basic plain) {scope : Scope}
    (known : ScopeUsable plain scope) {node : Node}
    (scalars : ∀ scalar ∈ node.scalars, Usable plain scalar) (coerce : Bool) (hint : String) :
    Gives (compile scope coerce hint node) (Exact (vocabularyOf plain node)) := by
  have covers : Covers (vocabularyOf plain node) node :=
    ⟨scalars, Subset.refl _, Subset.refl _⟩
  have permits (part : Node) : Permits (∀ cause, · ≠ .generation cause) scope coerce part :=
    permits_of_shape (fun _ _ => nofun) scope coerce part
  exact (compile_exact basic known (fun part _ => permits part) covers hint).gives
    fun cause other => other cause rfl

/-- The code of a schema mentions only what the schema mentions, and imports only what it mentions
directly. -/
theorem faithful (scope : Scope) (coerce : Bool) (node : Node) (hint : String) :
    Gives (compile scope coerce hint node)
      (Fragment.Within (node.mentions true) (node.mentions false)) := by
  have basic : Basic fun _ => True := fun _ _ => trivial
  have known : ScopeUsable (fun _ => True) scope := fun _ _ _ _ _ _ => trivial
  exact (compile_gives basic known (fun _ _ _ _ => trivial) coerce hint).mono
    fun fragment held => held.within

end Code

end Bindery
