import Mathlib
import Bindery.Proofs.Course
import Bindery.Proofs.Dialect.Walks
import Bindery.Proofs.Schema.Keywords
import Bindery.Proofs.Value.Entries

/-!
# Schemas that accept the absent value

The conversion turns the null mark of a schema into a type, and the reader looks at
the type of a schema last, behind references, listed values and compositions.  So
the mark of a schema with a type is lost exactly if one of these takes the place of
its type.

Unless the type is overridden, whatever node the schema is read as admits the absent
value; and if it is overridden, the schema is read as if it had no mark at all.
-/

namespace Bindery

open Entries Value List Option

namespace Node

mutual

/-- Whether a schema accepts the absent value. -/
def admitsNull : Node → Bool
  | .primitive .. => false
  | .null _ => true
  | .any _ => true
  | .array .. => false
  | .object .. => false
  | .composition _ .allOf members _ => allAdmitNull members
  | .composition _ _ members _ => someAdmitsNull members
  | .reference .. => false
  | .enumeration _ values _ => values.contains .null
  | .typeArray _ members => someAdmitsNull members

def allAdmitNull : List Node → Bool
  | [] => true
  | node :: rest => admitsNull node && allAdmitNull rest

def someAdmitsNull : List Node → Bool
  | [] => false
  | node :: rest => admitsNull node || someAdmitsNull rest

end

end Node

namespace Schema

variable {State : Type} (surroundings : Surroundings State)

/-! ## Types that list the absent value -/

theorem eq_of_isText {value : Value} {text : String} (is : value.isText text = true) :
    value = .str text := by
  have found : value.toText? = some text := by simpa [isText] using is
  cases value with
  | scalar word =>
    cases word with
    | str other => simpa [toText?] using found
    | _ => cases found
  | list items => cases found
  | map entries => cases found

variable {kinds : List Value} (schema : Value) (listed : kinds.any (·.isText "null") = true)
  (place : String)

include listed

theorem readTypes_admitsNull : (readTypes surroundings schema kinds place).Returns fun nodes =>
      Node.someAdmitsNull nodes = true := by
  induction kinds with
  | nil => cases listed
  | cons kind rest ih =>
    rw [readTypes]
    by_cases null : kind.isText "null" = true
    · simp only [null, if_true, pure_bind]
      exact .after _ fun nodes => .pure rfl
    · have later : rest.any (·.isText "null") = true := by
        simpa [null] using listed
      simp only [null, Bool.false_eq_true, if_false]
      refine Run.Returns.after _ fun node => Run.Returns.bind (ih later) fun nodes admits => ?_
      apply Run.Returns.pure
      show (node.admitsNull || Node.someAdmitsNull nodes) = true
      rw [admits, Bool.or_true]

/-- A schema is read as one that admits the absent value if its types list it. -/
theorem readTyped_admitsNull (note : Note) :
    (readTyped surroundings schema (.list kinds) place note).Returns fun node =>
      node.admitsNull = true := by
  by_cases single : ∃ kind, kinds = [kind]
  · obtain ⟨kind, rfl⟩ := single
    have null : kind = .str "null" := eq_of_isText (by simpa using listed)
    subst null
    rw [readTyped, readTyped]
    exact .pure rfl
  · rw [readTyped]
    · exact .bind (readTypes_admitsNull surroundings schema listed place)
        fun nodes admits => .pure admits
    · exact fun kind same => single ⟨kind, same⟩

end Schema

namespace Dialect

/-! ## Keywords through the conversions -/

theorem get?_walkEntries (rule : Entries → Entries) (name : String) (entries : Entries) :
    get? name (walkEntries rule entries) =
      (entries.get? name).map (walkPart rule (.str name)) := by
  rw [walkEntries_eq_map]
  exact get?_map (walkPart rule) name entries

/-- A walk shows the same to a view that does not look into lists and maps. -/
theorem view_walkPart {β : Type} (view : Value → β)
    (lists : ∀ items items', view (.list items) = view (.list items'))
    (maps : ∀ entries entries', view (.map entries) = view (.map entries'))
    (rule : Entries → Entries) (key : Scalar) (value : Value) :
    view (walkPart rule key value) = view value := by
  cases value with
  | scalar _ => rw [walkPart]
  | list items =>
    rw [walkPart]
    split
    · exact lists _ _
    · rfl
  | map entries =>
    rw [walkPart]
    split
    · exact maps _ _
    · split
      · exact maps _ _
      · rfl

variable {name : String}

theorem get?_upgradeExclusive {exclusive bound : String} (first : name ≠ exclusive)
    (second : name ≠ bound) (node : Entries) :
    (upgradeExclusive exclusive bound node).get? name = node.get? name := by
  rw [upgradeExclusive]
  split
  · split <;> simp [get?_set, get?_erase, first, second]
  · simp [get?_erase, first]
  · rfl

theorem get?_upgradeExample (first : name ≠ "example") (second : name ≠ "examples")
    (node : Entries) : (upgradeExample node).get? name = node.get? name := by
  rw [upgradeExample]
  split
  · split
    · rfl
    · simp [get?_set, get?_erase, first, second]
  · rfl

/-- Keywords that the rule from 3.0 to 3.1 is about beside the null mark. -/
def upgradedKeywords : List String :=
  ["exclusiveMinimum", "minimum", "exclusiveMaximum", "maximum", "example", "examples"]

theorem get?_upgradeNode (other : name ∉ upgradedKeywords) (node : Entries) :
    (upgradeNode node).get? name = (upgradeNull node).get? name := by
  simp only [upgradedKeywords, mem_cons, not_mem_nil, or_false, not_or] at other
  obtain ⟨exclusiveMinimum, minimum, exclusiveMaximum, maximum, sample, samples⟩ := other
  rw [upgradeNode, get?_upgradeExample sample samples,
    get?_upgradeExclusive exclusiveMaximum maximum, get?_upgradeExclusive exclusiveMinimum minimum]

theorem get?_addNullMember (other : name ≠ "enum") (node : Entries) :
    (addNullMember node).get? name = node.get? name := by
  rw [addNullMember]
  split
  · split
    · rfl
    · exact get?_set_of_ne other _ _
  · rfl

theorem get?_upgradeNull (other : name ∉ ["nullable", "type", "enum"]) (node : Entries) :
    (upgradeNull node).get? name = node.get? name := by
  simp only [mem_cons, not_mem_nil, or_false, not_or] at other
  obtain ⟨mark, kind, values⟩ := other
  simp only [upgradeNull]
  split
  · split
    · simp [get?_addNullMember values, get?_set, get?_erase, mark, kind]
    · simp [get?_set, get?_erase, mark]
  · simp [get?_erase, mark]

theorem get?_upgradeNull_nullable {node : Entries} (typed : node.has "type" = true) :
    (upgradeNull node).get? "nullable" = none := by
  simp only [upgradeNull]
  split
  · split
    · rw [get?_addNullMember (by decide)]
      simp [get?_set, get?_erase]
    next absent =>
      rw [get?_erase, if_neg (by decide)] at absent
      simp [has, absent] at typed
  · simp [get?_erase]

theorem get?_liftNull (extension : name ≠ "x-nullable") (mark : name ≠ "nullable")
    (node : Entries) : (liftNull node).get? name = node.get? name := by
  simp only [liftNull]
  split <;> simp [get?_set, get?_erase, extension, mark]

theorem get?_liftFile (kind : name ≠ "type") (format : name ≠ "format") (node : Entries) :
    (liftFile node).get? name = node.get? name := by
  rw [liftFile]
  split
  · simp [get?_set, kind, format]
  · rfl

theorem get?_liftDiscriminator (tag : name ≠ "discriminator") (node : Entries) :
    (liftDiscriminator node).get? name = node.get? name := by
  rw [liftDiscriminator]
  split
  · exact get?_set_of_ne tag _ _
  · rfl

theorem get?_liftNode (other : name ∉ ["x-nullable", "nullable", "type", "format", "discriminator"])
    (node : Entries) : (liftNode node).get? name = node.get? name := by
  simp only [mem_cons, not_mem_nil, or_false, not_or] at other
  obtain ⟨extension, mark, kind, format, tag⟩ := other
  rw [liftNode, get?_liftDiscriminator tag, get?_liftFile kind format,
    get?_liftNull extension mark]

theorem has_liftNode_type (node : Entries) : (liftNode node).has "type" = node.has "type" := by
  rw [has, liftNode, get?_liftDiscriminator (by decide), liftFile]
  split
  next file =>
    rw [get?_liftNull (by decide) (by decide)] at file
    simp [get?_set, has, file]
  next =>
    rw [get?_liftNull (by decide) (by decide), has]

theorem get?_liftNode_nullable {node : Entries}
    (marked : node.get? "x-nullable" = some (.bool true)) :
    (liftNode node).get? "nullable" = some (.bool true) := by
  rw [liftNode, get?_liftDiscriminator (by decide), get?_liftFile (by decide) (by decide), liftNull,
    if_pos marked]
  exact get?_set_self _ _ _

theorem get?_liftNode_discriminator {first second : Entries}
    (same : first.get? "discriminator" = second.get? "discriminator") :
    (liftNode first).get? "discriminator" = (liftNode second).get? "discriminator" := by
  have tag (node : Entries) : (liftFile (liftNull node)).get? "discriminator" =
      node.get? "discriminator" := by
    rw [get?_liftFile (by decide) (by decide), get?_liftNull (by decide) (by decide)]
  simp only [liftNode, liftDiscriminator, tag, same]
  split
  · rw [get?_set_self, get?_set_self]
  · rw [tag, tag, same]

end Dialect

namespace Schema

open Dialect

/-! ## Overridden types -/

def lists (keyword : String) (schema : Entries) : Bool :=
  (schema.get? keyword).any fun value => value.toList?.isSome

def refers (schema : Entries) : Bool :=
  (schema.get? "$ref").any fun value => value.toText?.isSome

/-- The type of a schema is overridden: a reference, an open enumeration, a constant or a
composition takes its place.  A closed enumeration takes the place of the last two. -/
def Overridden (schema : Entries) : Prop :=
  schema.has "type" = true ∧
    (refers schema = true ∨ lists "x-extensible-enum" schema = true ∨
      lists "enum" schema = false ∧
        (schema.has "const" = true ∨ ["allOf", "anyOf", "oneOf"].any (lists · schema) = true))

instance (schema : Entries) : Decidable (Overridden schema) :=
  inferInstanceAs (Decidable (_ ∧ _))

variable {keyword : String} {schema : Entries}

theorem lists_eq_true_iff :
    lists keyword schema = true ↔ ∃ items, schema.get? keyword = some (.list items) := by
  constructor
  · intro listed
    rw [lists] at listed
    cases found : schema.get? keyword with
    | none => simp [found] at listed
    | some value =>
      cases value with
      | list items => exact ⟨items, rfl⟩
      | scalar _ => simp [found, toList?] at listed
      | map _ => simp [found, toList?] at listed
  · rintro ⟨items, found⟩
    rw [lists, found]
    rfl

theorem refers_eq_true_iff :
    refers schema = true ↔ ∃ text, schema.get? "$ref" = some (.str text) := by
  constructor
  · intro referring
    rw [refers] at referring
    cases found : schema.get? "$ref" with
    | none => simp [found] at referring
    | some value =>
      obtain ⟨text, shape⟩ : ∃ text, value.toText? = some text := by
        simpa [found, isSome_iff_exists] using referring
      exact ⟨text, congrArg some (eq_of_isText (by simp [isText, shape]))⟩
  · rintro ⟨text, found⟩
    rw [refers, found]
    rfl

section

variable (rule : Entries → Entries)

theorem lists_walkEntries (keyword : String) (schema : Entries) :
    lists keyword (walkEntries rule schema) = lists keyword schema := by
  rw [lists, lists, get?_walkEntries]
  cases schema.get? keyword with
  | none => rfl
  | some value =>
    exact view_walkPart (·.toList?.isSome) (fun _ _ => rfl) (fun _ _ => rfl) rule (.str keyword)
      value

theorem refers_walkEntries (schema : Entries) :
    refers (walkEntries rule schema) = refers schema := by
  rw [refers, refers, get?_walkEntries]
  cases schema.get? "$ref" with
  | none => rfl
  | some value =>
    exact view_walkPart (·.toText?.isSome) (fun _ _ => rfl) (fun _ _ => rfl) rule (.str "$ref")
      value

theorem has_walkEntries (keyword : String) (schema : Entries) :
    has keyword (walkEntries rule schema) = schema.has keyword := by
  rw [has, has, get?_walkEntries, isSome_map]

theorem overridden_walkEntries (schema : Entries) :
    Overridden (walkEntries rule schema) ↔ Overridden schema := by
  simp only [Overridden, has_walkEntries, refers_walkEntries, lists_walkEntries]

end

theorem overridden_liftNode (schema : Entries) :
    Overridden (liftNode schema) ↔ Overridden schema := by
  have kept {keyword : String}
      (other : keyword ∉ ["x-nullable", "nullable", "type", "format", "discriminator"]) :
      lists keyword (liftNode schema) = lists keyword schema := by
    rw [lists, lists, get?_liftNode other]
  have reference : refers (liftNode schema) = refers schema := by
    rw [refers, refers, get?_liftNode (by decide)]
  have constant : (liftNode schema).has "const" = schema.has "const" := by
    rw [has, has, get?_liftNode (by decide)]
  simp only [Overridden, has_liftNode_type, reference, constant, any_cons, any_nil,
    kept (by decide : "x-extensible-enum" ∉ _), kept (by decide : "enum" ∉ _),
    kept (by decide : "allOf" ∉ _), kept (by decide : "anyOf" ∉ _),
    kept (by decide : "oneOf" ∉ _)]

/-! ## Marks that count -/

variable {State : Type} (surroundings : Surroundings State)

/-- A null mark that is left in a schema counts. -/
theorem read_admitsNull_of_nullable (marked : schema.get? "nullable" = some (.bool true))
    (place : String) :
    (read surroundings (.map schema) place).Returns fun node => node.admitsNull = true := by
  have admits (note : Note) (node : Node) :
      (Node.typeArray note [node, .null {}]).admitsNull = true := by
    simp [Node.admitsNull, Node.someAdmitsNull]
  rw [read]
  split
  · refine .after _ fun target => .pure ?_
    simp [marked, admits]
  · refine .after _ fun node => .pure ?_
    simp [marked, admits]

theorem enumeration?_of_closed (closed : lists "x-extensible-enum" schema = false) :
    enumeration? (.map schema) =
      match schema.get? "enum" with
      | some (.list values) => some (.enumeration (noteOf (.map schema)) values false)
      | _ => (schema.get? "const").map fun value =>
        .enumeration (noteOf (.map schema)) [value] false := by
  have notListed (values : List Value) :
      get? (.map schema) "x-extensible-enum" ≠ some (.list values) := by
    intro found
    have listed := lists_eq_true_iff.mpr ⟨values, found⟩
    rw [closed] at listed
    cases listed
  rw [enumeration?]
  split
  next values found => exact absurd found (notListed values)
  next => rfl

theorem isSome_composition? (schema : Entries) :
    (composition? (.map schema)).isSome = ["allOf", "anyOf", "oneOf"].any (lists · schema) := by
  have each (mode : Composition) :
      (membersOf (.map schema) mode).isSome = lists mode.text schema := by
    rw [membersOf, lists]
    show (bind (get? mode.text schema) _).isSome = _
    cases get? mode.text schema <;> rfl
  have first := each .allOf
  have second := each .anyOf
  have third := each .oneOf
  simp only [Composition.text] at first second third
  simp only [composition?, findSome?_cons, findSome?_nil, any_cons, any_nil,
    ← first, ← second, ← third]
  cases membersOf (.map schema) .allOf <;> cases membersOf (.map schema) .anyOf <;>
    cases membersOf (.map schema) .oneOf <;> rfl

theorem addNullType_lists (kind : Value) :
    ∃ kinds, addNullType kind = .list kinds ∧ kinds.any (·.isText "null") = true := by
  have completed (kinds : List Value) :
      any (if kinds.any (·.isText "null") then kinds else kinds ++ [.str "null"])
        (·.isText "null") = true := by
    split
    next listed => exact listed
    next => simp [isText, toText?]
  exact ⟨_, rfl, completed _⟩

theorem addNullMember_lists {node : Entries} (listed : lists "enum" node = true) :
    ∃ values, (addNullMember node).get? "enum" = some (.list values) ∧
      values.contains .null = true := by
  obtain ⟨values, found⟩ := lists_eq_true_iff.mp listed
  by_cases present : values.contains .null = true
  · refine ⟨values, ?_, present⟩
    simp only [addNullMember, found, present, if_true]
  · refine ⟨values ++ [.null], ?_, by simp⟩
    simp only [addNullMember, found, present]
    exact get?_set_self _ _ _

theorem addNullMember_of_not_lists {node : Entries} (unlisted : lists "enum" node = false) :
    addNullMember node = node := by
  rw [addNullMember]
  split
  next values found =>
    rw [lists_eq_true_iff.mpr ⟨values, found⟩] at unlisted
    cases unlisted
  next => rfl

section

variable (other : keyword ∉ ["nullable", "type", "enum"] ++ upgradedKeywords) (node : Entries)

include other

theorem get?_upgradeNode_of_kept : (upgradeNode node).get? keyword = node.get? keyword := by
  rw [mem_append, not_or] at other
  rw [get?_upgradeNode other.2, get?_upgradeNull other.1]

theorem lists_upgradeNode : lists keyword (upgradeNode node) = lists keyword node := by
  rw [lists, lists, get?_upgradeNode_of_kept other]

end

theorem isSome_composition?_upgradeNode (node : Entries) :
    (composition? (.map (upgradeNode node))).isSome = (composition? (.map node)).isSome := by
  simp only [isSome_composition?, any_cons, any_nil,
    lists_upgradeNode (by decide : "allOf" ∉ _), lists_upgradeNode (by decide : "anyOf" ∉ _),
    lists_upgradeNode (by decide : "oneOf" ∉ _)]

section Marked

variable {node : Entries} {kind : Value} (marked : node.get? "nullable" = some (.bool true))
  (typed : node.get? "type" = some kind)

include marked typed

theorem upgradeNull_of_typed :
    upgradeNull node = addNullMember ((node.erase "nullable").set "type" (addNullType kind)) := by
  have kept : (node.erase "nullable").get? "type" = some kind := by
    rw [get?_erase, if_neg (by decide), typed]
  simp only [upgradeNull, marked, if_true, kept]

theorem get?_type_upgradeNode :
    (upgradeNode node).get? "type" = some (addNullType kind) := by
  rw [get?_upgradeNode (by decide), upgradeNull_of_typed marked typed,
    get?_addNullMember (by decide), get?_set_self]

/-- A marked schema with a type that counts is read by values that list the absent value, or by a
type that does. -/
theorem readBody_admitsNull (plain : ¬Overridden node) (place : String) :
    (readBody surroundings (.map (upgradeNode node)) place).Returns fun node =>
      node.admitsNull = true := by
  have hasType : node.has "type" = true := by rw [has, typed]; rfl
  have closed : lists "x-extensible-enum" (upgradeNode node) = false := by
    rw [lists_upgradeNode (by decide), ← Bool.not_eq_true]
    exact fun opened => plain ⟨hasType, .inr (.inl opened)⟩
  let inner := (node.erase "nullable").set "type" (addNullType kind)
  have same : lists "enum" inner = lists "enum" node := by
    simp [lists, inner, get?_set, get?_erase]
  have values : (upgradeNode node).get? "enum" = (addNullMember inner).get? "enum" := by
    rw [get?_upgradeNode (by decide), upgradeNull_of_typed marked typed]
  rw [readBody_eq]
  refine .after _ fun _ => ?_
  -- Values are looked at before the type, so an enumeration has to list the absent value itself.
  cases listed : lists "enum" node with
  | true =>
    obtain ⟨members, found, null⟩ := addNullMember_lists (same.trans listed)
    rw [enumeration?_of_closed closed, values, found]
    exact .pure null
  | false =>
    have noConstant : node.get? "const" = none := by
      rw [← not_isSome_iff_eq_none]
      exact fun constant => plain ⟨hasType, .inr (.inr ⟨listed, .inl constant⟩)⟩
    have noComposition : composition? (.map (upgradeNode node)) = none := by
      rw [← not_isSome_iff_eq_none, isSome_composition?_upgradeNode, isSome_composition?]
      exact fun composed => plain ⟨hasType, .inr (.inr ⟨listed, .inr composed⟩)⟩
    have unlisted : enumeration? (.map (upgradeNode node)) = none := by
      rw [enumeration?_of_closed closed, values,
        addNullMember_of_not_lists (same.trans listed),
        get?_upgradeNode_of_kept (by decide), noConstant]
      split
      next members found =>
        have enumerated := lists_eq_true_iff.mpr ⟨members, found⟩
        rw [same, listed] at enumerated
        cases enumerated
      next => rfl
    obtain ⟨kinds, shape, null⟩ := addNullType_lists kind
    have type' : (map (upgradeNode node)).get? "type" = some (.list kinds) := by
      rw [← shape]
      exact get?_type_upgradeNode marked typed
    rw [unlisted]
    simp only [readShape, noComposition, type', getD_some]
    exact readTyped_admitsNull surroundings _ null place _

end Marked

/-- Unless its type is overridden, a marked 3.0 schema is read as one that admits the absent
value. -/
theorem read_upgradeSchema_admitsNull (marked : schema.get? "nullable" = some (.bool true))
    (plain : ¬Overridden schema) (place : String) :
    (read surroundings (upgradeSchema (.map schema)) place).Returns fun node =>
      node.admitsNull = true := by
  have marked' : get? "nullable" (walkEntries upgradeNode schema) = some (.bool true) := by
    rw [get?_walkEntries, marked]
    simp [walkPart]
  have plain' : ¬Overridden (walkEntries upgradeNode schema) :=
    fun overridden => plain ((overridden_walkEntries upgradeNode schema).mp overridden)
  show (read surroundings (.map (upgradeNode (walkEntries upgradeNode schema))) place).Returns _
  generalize walkEntries upgradeNode schema = node at marked' plain'
  cases typed : get? "type" node with
  | none =>
    apply read_admitsNull_of_nullable
    have untyped : (erase "nullable" node).get? "type" = none := by
      rw [get?_erase, if_neg (by decide), typed]
    rw [get?_upgradeNode (by decide)]
    simp only [upgradeNull, marked', if_true, untyped]
    exact get?_set_self _ _ _
  | some kind =>
    have hasType : has "type" node = true := by rw [has, typed]; rfl
    have noReference : ¬∃ text, (upgradeNode node).get? "$ref" = some (.str text) := by
      rw [get?_upgradeNode_of_kept (by decide), ← refers_eq_true_iff]
      exact fun referring => plain' ⟨hasType, .inl referring⟩
    have unmarked : (upgradeNode node).get? "nullable" = none := by
      rw [get?_upgradeNode (by decide), get?_upgradeNull_nullable hasType]
    rw [read]
    split
    next text found => exact absurd ⟨text, found⟩ noReference
    next =>
      refine .bind (readBody_admitsNull surroundings marked' typed plain' place)
        fun body admits => .pure ?_
      simpa [unmarked] using admits

/-! ## Marks without effect -/

/-- Keywords that a schema with an overridden type is read by. -/
def overridingKeywords : List String :=
  "$ref" :: enumerationKeywords ++ unsupportedKeywords ++ compositionKeywords ++ objectKeywords ++
    noteKeywords

theorem enumeration?_of_open {values : List Value}
    (opened : schema.get? "x-extensible-enum" = some (.list values)) :
    enumeration? (.map schema) = some (.enumeration (noteOf (.map schema)) values true) := by
  have found : (map schema).get? "x-extensible-enum" = some (.list values) := opened
  rw [enumeration?, found]

theorem isSome_enumeration? (constant : schema.has "const" = true) :
    (enumeration? (.map schema)).isSome = true := by
  rw [enumeration?]
  split
  · rfl
  · split
    · rfl
    · rw [isSome_map]
      exact constant

theorem get?_enum_upgradeNode {node : Entries} (unlisted : lists "enum" node = false) :
    (upgradeNode node).get? "enum" = node.get? "enum" := by
  have kept (mark : Value) : lists "enum" ((node.erase "nullable").set "type" mark) = false := by
    simpa [lists, get?_set, get?_erase] using unlisted
  rw [get?_upgradeNode (by decide)]
  simp only [upgradeNull]
  split
  · split
    · rw [addNullMember_of_not_lists (kept _)]
      simp [get?_set, get?_erase]
    · simp [get?_set, get?_erase]
  · simp [get?_erase]

/-- Keywords that a schema with an overridden type is read by and that the rule from 3.0 to 3.1
keeps. -/
def keptKeywords : List String := overridingKeywords.filter (· ≠ "enum")

variable {first second : Entries}

theorem agree_upgradeNode (same : Agree overridingKeywords (.map first) (.map second)) :
    Agree keptKeywords (.map (upgradeNode first)) (.map (upgradeNode second)) := by
  have others : ∀ keyword ∈ keptKeywords,
      keyword ∉ ["nullable", "type", "enum"] ++ upgradedKeywords := by
    decide
  intro keyword member
  show get? keyword _ = get? keyword _
  rw [get?_upgradeNode_of_kept (others keyword member),
    get?_upgradeNode_of_kept (others keyword member)]
  exact same keyword (mem_filter.mp member).1

theorem readBody_upgradeNode_of_overridden (overridden : Overridden first)
    (noReference : refers first = false)
    (same : Agree overridingKeywords (.map first) (.map second)) (place : String) :
    readBody surroundings (.map (upgradeNode first)) place =
      readBody surroundings (.map (upgradeNode second)) place := by
  have agree := agree_upgradeNode same
  have note := noteOf_congr (agree.mono (by decide : noteKeywords ⊆ _))
  have opened := agree "x-extensible-enum" (by decide)
  have shape := agree.mono
    (by decide : unsupportedKeywords ++ compositionKeywords ++ objectKeywords ++ noteKeywords ⊆ _)
  -- The two sides may differ in their types only, and none of the ways in which a type is
  -- overridden looks at it.
  obtain ⟨-, referring | listed | ⟨unlisted, untyped⟩⟩ := overridden
  · rw [noReference] at referring
    cases referring
  · obtain ⟨values, found⟩ := lists_eq_true_iff.mp
      ((lists_upgradeNode (by decide) first).trans listed)
    have found' : (upgradeNode second).get? "x-extensible-enum" = some (.list values) :=
      opened.symm.trans found
    apply readBody_congr_of_untyped surroundings shape
    · rw [enumeration?_of_open found, enumeration?_of_open found', note]
    · rw [enumeration?_of_open found]
      nofun
  · have unlisted' : lists "enum" second = false := by
      rw [← unlisted, lists, lists]
      exact congrArg _ (same "enum" (by decide)).symm
    have values : (map (upgradeNode first)).get? "enum" =
        (map (upgradeNode second)).get? "enum" := by
      show get? "enum" _ = get? "enum" _
      rw [get?_enum_upgradeNode unlisted, get?_enum_upgradeNode unlisted']
      exact same "enum" (by decide)
    apply readBody_congr_of_untyped surroundings shape
    · apply enumeration?_congr
      intro keyword member
      by_cases enumerated : keyword = "enum"
      · rw [enumerated, values]
      · apply agree
        revert keyword
        decide
    · intro absent
      rcases untyped with constant | composed
      · have constant' : (upgradeNode first).has "const" = true := by
          rw [has, get?_upgradeNode_of_kept (by decide)]
          exact constant
        have listed := isSome_enumeration? constant'
        rw [absent] at listed
        cases listed
      · rw [isSome_composition?_upgradeNode, isSome_composition?, composed]

theorem agree_walkEntries (rule : Entries → Entries) {names : List String}
    (same : Agree names (.map first) (.map second)) :
    Agree names (.map (walkEntries rule first)) (.map (walkEntries rule second)) := by
  intro keyword member
  show get? keyword _ = get? keyword _
  rw [get?_walkEntries, get?_walkEntries]
  exact congrArg _ (same keyword member)

/-- A schema with an overridden type is read by its other keywords: neither the type nor the null
mark has an effect. -/
theorem read_upgradeSchema_of_overridden (overridden : Overridden first)
    (typed : second.has "type" = true) (same : Agree overridingKeywords (.map first) (.map second))
    (place : String) :
    read surroundings (upgradeSchema (.map first)) place =
      read surroundings (upgradeSchema (.map second)) place := by
  have walked := agree_walkEntries upgradeNode same
  have overridden' := (overridden_walkEntries upgradeNode first).mpr overridden
  have typed' := (has_walkEntries upgradeNode "type" second).trans typed
  show read surroundings (.map (upgradeNode (walkEntries upgradeNode first))) place =
    read surroundings (.map (upgradeNode (walkEntries upgradeNode second))) place
  generalize walkEntries upgradeNode first = left at walked overridden'
  generalize walkEntries upgradeNode second = right at walked typed'
  have agree := agree_upgradeNode walked
  have note := noteOf_congr (agree.mono (by decide : noteKeywords ⊆ _))
  have reference : (upgradeNode left).get? "$ref" = (upgradeNode right).get? "$ref" :=
    agree "$ref" (by decide)
  have unmarked : (upgradeNode left).get? "nullable" = none := by
    rw [get?_upgradeNode (by decide), get?_upgradeNull_nullable overridden'.1]
  have unmarked' : (upgradeNode right).get? "nullable" = none := by
    rw [get?_upgradeNode (by decide), get?_upgradeNull_nullable typed']
  cases referring : refers left with
  | true =>
    obtain ⟨text, found⟩ := refers_eq_true_iff.mp referring
    have found' : (upgradeNode left).get? "$ref" = some (.str text) := by
      rw [get?_upgradeNode_of_kept (by decide), found]
    simp only [read, note, unmarked, unmarked', ← reference, found']
  | false =>
    have body :=
      readBody_upgradeNode_of_overridden surroundings overridden' referring walked place
    simp only [read, note, unmarked, unmarked', ← reference, body]

theorem agree_liftNode (same : Agree overridingKeywords (.map first) (.map second)) :
    Agree overridingKeywords (.map (liftNode first)) (.map (liftNode second)) := by
  have others : ∀ keyword ∈ overridingKeywords, keyword ≠ "discriminator" →
      keyword ∉ ["x-nullable", "nullable", "type", "format", "discriminator"] := by
    decide
  intro keyword member
  show get? keyword _ = get? keyword _
  by_cases tag : keyword = "discriminator"
  · rw [tag]
    exact get?_liftNode_discriminator (same "discriminator" (by decide))
  · rw [get?_liftNode (others keyword member tag), get?_liftNode (others keyword member tag)]
    exact same keyword member

theorem agree_erase {mark : String} {names : List String} (other : mark ∉ names)
    (schema : Entries) : Agree names (.map schema) (.map (schema.erase mark)) := by
  intro keyword member
  show get? keyword _ = get? keyword _
  have apart : keyword ≠ mark := by
    rintro rfl
    exact other member
  rw [get?_erase, if_neg apart]

/-! ## The mark of a dialect -/

/-- The key under which a dialect marks a schema that accepts the absent value. -/
def nullMark? : Dialect → Option String
  | .v20 => some "x-nullable"
  | .v30 => some "nullable"
  | .v31 => none
  | .unknown => none

/-- A marked schema is read as one that admits the absent value, whatever its other keywords are,
unless its type is overridden; then it is read as if it had no mark. -/
theorem null_mark_counts_unless_overridden {dialect : Dialect} {mark : String}
    (named : nullMark? dialect = some mark) {schema : Entries}
    (marked : schema.get? mark = some (.bool true)) (place : String) :
    (¬Overridden schema →
      (read surroundings (convertSchema (.map schema) dialect) place).Returns fun node =>
        node.admitsNull = true) ∧
    (Overridden schema →
      read surroundings (convertSchema (.map schema) dialect) place =
        read surroundings (convertSchema (.map (schema.erase mark)) dialect) place) := by
  have erased (other : mark ≠ "type") : (schema.erase mark).has "type" = schema.has "type" := by
    rw [has, get?_erase, if_neg (Ne.symm other), has]
  cases dialect with
  | v20 =>
    cases named
    -- Lifting turns the mark of 2.0 into that of 3.0, and then the same argument applies.
    have lifted : (liftNode (walkEntries liftNode schema)).get? "nullable" =
        some (.bool true) := by
      apply get?_liftNode_nullable
      rw [get?_walkEntries, marked]
      simp [walkPart]
    have kept : Overridden (liftNode (walkEntries liftNode schema)) ↔ Overridden schema :=
      (overridden_liftNode _).trans (overridden_walkEntries liftNode schema)
    constructor
    · intro plain
      exact read_upgradeSchema_admitsNull surroundings lifted (mt kept.mp plain) place
    · intro overridden
      refine read_upgradeSchema_of_overridden surroundings (kept.mpr overridden) ?_ ?_ place
      · rw [has_liftNode_type, has_walkEntries, erased (by decide)]
        exact overridden.1
      · exact agree_liftNode (agree_walkEntries liftNode (agree_erase (by decide) schema))
  | v30 =>
    cases named
    constructor
    · intro plain
      exact read_upgradeSchema_admitsNull surroundings marked plain place
    · intro overridden
      refine read_upgradeSchema_of_overridden surroundings overridden ?_ ?_ place
      · rw [erased (by decide)]
        exact overridden.1
      · exact agree_erase (by decide) schema
  | v31 => cases named
  | unknown => cases named

/-- Surroundings in which every reference leads to itself. -/
def idle : Surroundings Unit where
  resolve text := return { key := text, forward := false }
  report _ := return ()

/-- A 2.0 schema whose type counts, and a 3.0 schema whose type is overridden by a constant. -/
theorem null_mark_counts_unless_overridden_of_examples :
    let typed : Entries := [(.str "type", .str "file"), (.str "x-nullable", .bool true)]
    let constant : Entries :=
      [(.str "type", .str "string"), (.str "const", .str "a"), (.str "nullable", .bool true)]
    ((read idle (convertSchema (.map typed) .v20) "").Returns fun node =>
        node.admitsNull = true) ∧
      read idle (convertSchema (.map constant) .v30) "" =
        read idle (convertSchema (.map (constant.erase "nullable")) .v30) "" :=
  ⟨(null_mark_counts_unless_overridden idle (show nullMark? .v20 = some "x-nullable" from rfl)
      rfl "").1 (by decide),
    (null_mark_counts_unless_overridden idle (show nullMark? .v30 = some "nullable" from rfl)
      rfl "").2 (by decide)⟩

/-- The null mark of a schema with a type and a constant is lost. -/
theorem null_mark_lost_of_constant :
    ∃ node, (read idle (convertSchema (.map [(.str "type", .str "string"), (.str "const", .str "a"),
        (.str "nullable", .bool true)]) .v30) "").start () = (.ok node, ()) ∧
      node.admitsNull = false := by
  refine ⟨.enumeration {} [.str "a"] false, ?_, rfl⟩
  cbv

end Schema

end Bindery
