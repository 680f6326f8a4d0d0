import Bindery.Proofs.Schema.Asked
import Bindery.Proofs.Schema.Comparison

/-!
# Reading a schema

The reader is followed here through a schema and all parts of it: it reads every
schema alike on both sides of a comparison.  What is known of every schema that is
read comes from some comparison.  In surroundings that keep to a course the reader
keeps to it, it asks only for references that are written in the schema, and in
surroundings that do the same it does the same.
-/

namespace Bindery

open Value List

/-! ## Tags -/

namespace Value

/-- No two tags of a discriminator in a schema have the same text. -/
def TagsApart (schema : Value) : Prop :=
  ∀ entries inner mapping, PartOf (.map entries) schema →
    (.str "discriminator", .map inner) ∈ entries → (.str "mapping", .map mapping) ∈ inner →
      (mapping.map (·.1.text)).Nodup

theorem TagsApart.part {whole part : Value} (apart : whole.TagsApart) (inside : part.PartOf whole) :
    part.TagsApart :=
  fun entries inner mapping deeper => apart entries inner mapping (deeper.trans inside)

theorem mem_of_discriminator {schema : Value} {entries : Entries}
    (found : (schema.get? "discriminator").bind toEntries? = some entries) :
    ∃ whole, schema = .map whole ∧ (.str "discriminator", .map entries) ∈ whole := by
  obtain ⟨value, stored, shape⟩ := Option.bind_eq_some_iff.mp found
  cases value with
  | map inner =>
    cases shape
    cases schema with
    | map whole => exact ⟨whole, rfl, Entries.mem_of_get? stored⟩
    | scalar _ => simp [get?] at stored
    | list _ => simp [get?] at stored
  | scalar _ => simp [toEntries?] at shape
  | list _ => simp [toEntries?] at shape

theorem TagsApart.mapping {schema : Value} (apart : schema.TagsApart) {entries mapping : Entries}
    (found : (schema.get? "discriminator").bind toEntries? = some entries)
    (mapped : entries.get? "mapping" = some (.map mapping)) : (mapping.map (·.1.text)).Nodup := by
  obtain ⟨whole, rfl, stored⟩ := mem_of_discriminator found
  exact apart whole entries mapping .itself stored (Entries.mem_of_get? mapped)

end Value

namespace Schema

/-- What holds of a schema is promised. -/
def promised (schema : Value) : Promise where
  json := schema.IsJson
  apart := schema.TagsApart

/-- A schema is to be read by both sides of a comparison: its references may be asked for, and it
is what was promised. -/
structure Presents {State Other : Type} (compare : Comparison State Other) (promise : Promise)
    (schema : Value) (place place' : String) : Prop where
  written : asked .plain schema ⊆ compare.texts
  json : promise.json → schema.IsJson
  apart : promise.apart → schema.TagsApart
  placed : compare.placed → place = place'

/-- A reference with a null mark, which keeps no note. -/
def IsMarkedReference (schema : Value) : Prop :=
  (∃ reference, schema.get? "$ref" = some (.str reference)) ∧
    schema.get? "nullable" = some (.bool true)

/-- Both sides of a comparison read a schema alike. -/
def ReadAlike {State Other : Type} (compare : Comparison State Other) (promise : Promise)
    (schema : Value) : Prop :=
  ∀ place place', Presents compare promise schema place place' →
    compare.holds (read compare.first schema place) (read compare.second schema place')
      fun answers node node' => OfNode promise answers node node' ∧
        (node.note = noteOf schema ∨ IsMarkedReference schema)

/-- Both sides of a comparison read a part of a schema alike, wherever the part stands. -/
def ReadsPart {State Other : Type} (compare : Comparison State Other) (promise : Promise)
    (place place' : String) (part : Value) : Prop :=
  ∀ path, compare.holds (read compare.first part (place ++ path))
    (read compare.second part (place' ++ path)) (OfNode promise)

section Reader

variable {State Other : Type} {compare : Comparison State Other} {promise : Promise} {schema : Value}
  {place place' : String}

theorem ReadsPart.under {part : Value} (reads : ReadsPart compare promise place place' part)
    (path : String) : ReadsPart compare promise (place ++ path) (place' ++ path) part := by
  intro further
  simpa only [String.append_assoc] using reads (path ++ further)

namespace Presents

theorem part (presents : Presents compare promise schema place place') {part : Value}
    (inside : part.PartOf schema) (path : String) :
    Presents compare promise part (place ++ path) (place' ++ path) where
  written := Subset.trans (asked_subset_of_part inside) presents.written
  json holds := (presents.json holds).part inside
  apart holds := (presents.apart holds).part inside
  placed both := by rw [presents.placed both]

theorem note (presents : Presents compare promise schema place place') :
    promise.json → (noteOf schema).IsJson := by
  intro holds scalar member
  cases given : schema.get? "default" with
  | none => simp [Note.scalars, noteOf, given] at member
  | some value =>
    apply (presents.json holds).get? given scalar
    simpa [Note.scalars, noteOf, given] using member

end Presents

theorem isJson_empty : ({} : Note).IsJson := by
  simp [Note.IsJson, Note.scalars]

/-! ### Discriminators -/

def OfBranches (promise : Promise) (answers : Answers) (branches branches' : List (String × String)) :
    Prop :=
  Reading promise answers [] (branches.map (·.2))
    (fun change => map fun branch => (branch.1, change branch.2)) branches branches'

variable {key value : String} {pairs : List (String × String)} {mapping : Entries}

theorem mem_of_mem_putPair {target : String} (member : target ∈ (putPair key value pairs).map (·.2)) :
    target = value ∨ target ∈ pairs.map (·.2) := by
  induction pairs with
  | nil => simpa [putPair] using member
  | cons pair rest ih =>
    obtain ⟨old, oldValue⟩ := pair
    simp only [putPair] at member
    split at member
    · rcases mem_cons.mp member with here | later
      · exact Or.inl here
      · exact Or.inr (mem_cons_of_mem _ later)
    · rcases mem_cons.mp member with here | later
      · exact Or.inr (by rw [here]; exact mem_cons_self)
      · exact (ih later).imp_right (mem_cons_of_mem _)

theorem putPair_redirect (change : String → String) (key value : String)
    (branches : List (String × String)) :
    (putPair key value branches).map (fun branch => (branch.1, change branch.2)) =
      putPair key (change value) (branches.map fun branch => (branch.1, change branch.2)) := by
  induction branches with
  | nil => rfl
  | cons branch rest ih =>
    obtain ⟨old, oldValue⟩ := branch
    by_cases same : old = key
    · simp [putPair, same]
    · simp [putPair, same, ih]

theorem putPair_of_new (new : key ∉ pairs.map (·.1)) :
    putPair key value pairs = pairs ++ [(key, value)] := by
  induction pairs with
  | nil => rfl
  | cons pair rest ih =>
    obtain ⟨differs, later⟩ := not_or.mp (mt mem_cons.mpr new)
    rw [putPair, if_neg (Ne.symm differs), ih later, cons_append]

theorem OfBranches.put {answers : Answers} {branches branches' : List (String × String)}
    (known : OfBranches promise answers branches branches') (tag : String) (target target' : Target)
    (new : promise.apart → tag ∉ branches.map (·.1)) :
    OfBranches promise (answers ++ [(target, target')]) (putPair tag target.key branches)
      (putPair tag target'.key branches') where
  fits := forall_mem_nil _
  told key member := by
    rcases mem_of_mem_putPair member with rfl | before
    · exact ⟨_, mem_append_right _ mem_cons_self, rfl⟩
    · exact (known.told key before).imp fun _ found => found.imp_left (mem_append_left _)
  kept holds answer given := by
    rw [putPair_of_new (new holds), map_append, mem_append]
    rcases mem_append.mp given with early | late
    · exact (known.kept holds answer early).imp_right .inl
    · rw [mem_singleton.mp late]
      exact .inr (.inr mem_cons_self)
  alike here there agree := by
    obtain ⟨early, late⟩ := forall_mem_append.mp agree
    rw [putPair_redirect, putPair_redirect, known.alike here there early,
      late _ mem_cons_self]
  same agree := by
    obtain ⟨early, late⟩ := forall_mem_append.mp agree
    have told : target = target' := late _ mem_cons_self
    rw [known.same early, told]

theorem readMapping_alike (written : askedEntries .mapping mapping ⊆ compare.texts)
    {done done' : List (String × String)} {earlier : Answers}
    (known : OfBranches promise earlier done done')
    (apart : promise.apart → (done.map (·.1) ++ mapping.map (·.1.text)).Nodup) :
    compare.holds (readMapping compare.first done mapping)
      (readMapping compare.second done' mapping)
      fun answers => OfBranches promise (earlier ++ answers) := by
  induction mapping generalizing done done' earlier with
  | nil => exact compare.pure (by rwa [append_nil])
  | cons entry rest ih =>
    obtain ⟨tag, value⟩ := entry
    refine compare.after (compare.ofExcept (noResolution_mappingReference value)) ?_
    rintro text _ ⟨rfl, named⟩
    have asked : text ∈ askedEntries .mapping ((tag, value) :: rest) := by
      simp [askedEntries, askedAt, named, Except.toOption]
    refine compare.bind (compare.resolve text (written asked)) ?_
    rintro _ target target' rfl
    have new (holds : promise.apart) : tag.text ∉ done.map (·.1) := fun old =>
      disjoint_of_nodup_append (apart holds) old mem_cons_self
    have onward := ih (Subset.trans (subset_append_right _ _) written)
      (known.put tag.text target target' new) fun holds => by
        rw [putPair_of_new (new holds), map_append, append_assoc]
        exact apart holds
    simpa only [append_assoc] using onward

theorem askedEntries_mapping_subset {entries : Entries}
    (found : (schema.get? "discriminator").bind toEntries? = some entries)
    (mapped : entries.get? "mapping" = some (.map mapping)) :
    askedEntries .mapping mapping ⊆ asked .plain schema := by
  obtain ⟨whole, rfl, stored⟩ := mem_of_discriminator found
  intro text written
  have inside : text ∈ asked .discriminator (.map entries) :=
    mem_askedEntries.mpr ⟨_, Entries.mem_of_get? mapped, Or.inr written⟩
  exact mem_askedEntries.mpr ⟨_, stored, Or.inr inside⟩

theorem readDiscriminator_alike (presents : Presents compare promise schema place place') :
    compare.holds (readDiscriminator compare.first (schema.get? "discriminator"))
      (readDiscriminator compare.second (schema.get? "discriminator")) (OfTags promise) := by
  simp only [readDiscriminator]
  split
  · exact compare.pure (.still fun _ => rfl)
  · split
    next property _ =>
      split
      next mapping stored =>
        have start : OfBranches promise [] [] [] := Reading.still fun _ => rfl
        have branches : compare.holds (readMapping compare.first [] mapping)
            (readMapping compare.second [] mapping) (OfBranches promise) :=
          readMapping_alike (Subset.trans (askedEntries_mapping_subset ‹_› stored)
            presents.written) start fun holds => (presents.apart holds).mapping ‹_› stored
        exact compare.map _ _ branches fun answers _ _ read =>
          read.build (fun pairs => some (Discriminator.mk property (some pairs))) fun _ _ => rfl
      next => exact compare.pure (.still fun _ => rfl)
    next => exact compare.pure (.still fun _ => rfl)

/-! ### Lists of schemas -/

theorem get?_of_composition? {mode : Composition} {items : List Value}
    (found : composition? schema = some (mode, items)) :
    schema.get? mode.text = some (.list items) := by
  obtain ⟨tried, -, result⟩ := exists_of_findSome?_eq_some found
  obtain ⟨_, stored, same⟩ := Option.map_eq_some_iff.mp result
  cases same
  obtain ⟨value, kept, shape⟩ := Option.bind_eq_some_iff.mp stored
  cases value with
  | list items =>
    cases shape
    exact kept
  | scalar _ => cases shape
  | map _ => cases shape

theorem readProperties_alike {properties : Entries}
    (each : ∀ property ∈ properties, ReadsPart compare promise place place' property.2) :
    compare.holds (readProperties compare.first properties place)
      (readProperties compare.second properties place')
      fun answers nodes nodes' => OfNodes promise answers (nodes.map (·.2)) (nodes'.map (·.2)) ∧
        nodes.map (·.1) = properties.map (·.1) ∧ nodes'.map (·.1) = properties.map (·.1) := by
  induction properties with
  | nil =>
    rw [readProperties, readProperties]
    exact compare.pure ⟨.nil, rfl, rfl⟩
  | cons property rest ih =>
    obtain ⟨name, schema⟩ := property
    obtain ⟨first, others⟩ := forall_mem_cons.mp each
    rw [readProperties, readProperties]
    refine compare.bind (first name.text) fun answers node node' head => ?_
    refine compare.map _ _ (ih others) fun more nodes nodes' tail => ?_
    exact ⟨.cons head tail.1, congrArg (name :: ·) tail.2.1, congrArg (name :: ·) tail.2.2⟩

theorem readMembers_alike {members : List Value}
    (each : ∀ member ∈ members, ReadsPart compare promise place place' member) (index : Nat) :
    compare.holds (readMembers compare.first members place index)
      (readMembers compare.second members place' index) (OfNodes promise) := by
  induction members generalizing index with
  | nil =>
    rw [readMembers, readMembers]
    exact compare.pure .nil
  | cons schema rest ih =>
    obtain ⟨first, others⟩ := forall_mem_cons.mp each
    rw [readMembers, readMembers]
    refine compare.bind (first (Text.decimal index)) fun answers node node' head => ?_
    exact compare.map _ _ (ih others _) fun more nodes nodes' tail => .cons head tail

/-! ### Shapes -/

section Parts

variable (inner : ∀ part : Value, part.PartOf schema → part.weight < schema.weight →
    ReadsPart compare promise place place' part)
  (presents : Presents compare promise schema place place')

include inner

theorem readItems_alike :
    compare.holds (readItems compare.first schema place) (readItems compare.second schema place')
      fun answers items items' =>
        Reading promise answers items.toList [] Node.redirectOption items items' := by
  rw [readItems_eq, readItems_eq]
  split
  next entries stored =>
    have read := inner _ (partOf_of_get? stored) (weight_lt_of_get? stored) "/items"
    exact compare.map _ _ read fun answers node node' read => read.build some fun _ _ => rfl
  next => exact compare.pure (.still fun _ => rfl)

theorem readExtras_alike :
    compare.holds (readExtras compare.first schema place) (readExtras compare.second schema place')
      fun answers extras extras' =>
        Reading promise answers extras.schemas [] Node.redirectExtras extras extras' := by
  rw [readExtras_eq, readExtras_eq]
  split
  next => exact compare.pure (.still fun _ => rfl)
  next entry entries stored =>
    have read := inner _ (partOf_of_get? stored) (weight_lt_of_get? stored)
      "/additionalProperties"
    exact compare.map _ _ read fun _ _ _ read => read.build Extras.typed fun _ _ => rfl
  next => exact compare.pure (.still fun _ => rfl)

theorem readDeclared_alike :
    compare.holds (readDeclared compare.first schema place)
      (readDeclared compare.second schema place')
      fun answers nodes nodes' => OfNodes promise answers (nodes.map (·.2)) (nodes'.map (·.2)) ∧
        nodes.map (·.1) = nodes'.map (·.1) := by
  rw [readDeclared_eq, readDeclared_eq]
  split
  next entries stored =>
    have smaller := weight_lt_of_get? stored
    have each (property : Scalar × Value) (member : property ∈ entries) :=
      inner property.2 ((PartOf.entry member .itself).trans (partOf_of_get? stored))
        (Nat.lt_trans (weight_lt_of_mem_entries member) smaller)
    exact compare.mono (readProperties_alike fun property member =>
      (each property member).under "/properties/")
        fun _ _ _ read => ⟨read.1, read.2.1.trans read.2.2.symm⟩
  next =>
    split
    · exact compare.throw fun _ => nofun
    · exact compare.pure ⟨.nil, rfl⟩
  next => exact compare.pure ⟨.nil, rfl⟩

variable {note : Note} (noted : promise.json → note.IsJson)

include noted

theorem readArray_alike :
    compare.holds (readArray compare.first schema place note)
      (readArray compare.second schema place' note)
      fun answers node node' => OfNode promise answers node node' ∧ node.note = note := by
  rw [readArray, readArray]
  refine compare.bind (readItems_alike inner) fun answers items items' inner => ?_
  obtain ⟨least, most, unique, built⟩ | ⟨fault, clear, failed⟩ := arrayNode_cases schema note
  · rw [built, built]
    refine compare.pure ⟨?_, rfl⟩
    rw [append_nil]
    exact (inner.build (fun items => Node.array note items least most unique)
      fun _ _ => rfl).whole rfl noted
  · rw [failed, failed]
    exact compare.throw clear

theorem readObject_alike (title : Option Value) :
    compare.holds (readObject compare.first schema place note title)
      (readObject compare.second schema place' note title)
      fun answers node node' => OfNode promise answers node node' ∧ node.note = note := by
  rw [readObject, readObject]
  refine compare.bind (readDeclared_alike inner) ?_
  rintro answers properties properties' ⟨declared, keys⟩
  refine compare.bind (readExtras_alike inner) fun more extras extras' typed => ?_
  refine compare.after (compare.ofExcept (noResolution_requiredNames schema)) ?_
  rintro required _ ⟨rfl, -⟩
  obtain ⟨title', built⟩ | ⟨fault, clear, failed⟩ := objectNode_cases (properties.map (·.1)) note
    required (hasKey schema "additionalProperties") title
  · obtain ⟨named, rfl, made⟩ := built properties rfl
    obtain ⟨named', rfl, made'⟩ := built properties' keys.symm
    rw [made, made']
    refine compare.pure ⟨?_, rfl⟩
    have whole := (declared.properties keys).append typed (fun properties extras => Node.object note
      properties required extras (hasKey schema "additionalProperties") title')
      (fun _ _ _ => rfl : ∀ change _ _, Node.redirect change _ = _)
    rw [append_nil]
    exact whole.whole rfl noted
  · rw [failed properties rfl, failed properties' keys.symm]
    exact compare.throw clear

omit inner noted

mutual

theorem readTyped_alike (inner : ∀ part : Value, part.PartOf schema →
      part.weight < schema.weight → ReadsPart compare promise place place' part) :
    (kind : Value) → (note : Note) → (promise.json → note.IsJson) →
    compare.holds (readTyped compare.first schema kind place note)
      (readTyped compare.second schema kind place' note)
      fun answers node node' => OfNode promise answers node node' ∧ node.note = note
  | .list [kind], note, noted => by
      rw [readTyped, readTyped]
      exact readTyped_alike inner kind note noted
  | .list [], note, noted => by
      rw [readTyped, readTyped]
      · exact compare.map _ _ (readTypes_alike inner []) fun _ _ _ members =>
          ⟨members.typeArray noted, rfl⟩
      · simp
      · simp
  | .list (first :: second :: rest), note, noted => by
      rw [readTyped, readTyped]
      · exact compare.map _ _ (readTypes_alike inner (first :: second :: rest))
          fun _ _ _ members => ⟨members.typeArray noted, rfl⟩
      · simp
      · simp
  | .map _, note, noted => by
      simp only [readTyped]
      exact compare.pure ⟨(Reading.still fun _ => rfl).whole rfl noted, rfl⟩
  | .scalar word, note, noted => by
      have array := readArray_alike inner noted
      have object := readObject_alike inner noted
      cases word with
      | str word =>
        simp only [readTyped]
        split
        next kind _ =>
          obtain ⟨format, constraints, built⟩ | ⟨fault, clear, failed⟩ :=
            primitiveNode_cases schema note kind
          · rw [built]
            refine compare.pure ⟨(Reading.still fun _ => rfl).whole rfl fun holds => ?_, rfl⟩
            exact forall_mem_append.mpr ⟨noted holds, isJson_constraints constraints⟩
          · rw [failed]
            exact compare.throw clear
        next =>
          repeat' split
          · exact compare.pure ⟨(Reading.still fun _ => rfl).whole rfl noted, rfl⟩
          · exact array
          · exact object _
          · exact compare.pure ⟨(Reading.still fun _ => rfl).whole rfl noted, rfl⟩
      | null =>
        simp only [readTyped]
        repeat' split
        · exact object _
        · exact array
        · exact compare.pure ⟨(Reading.still fun _ => rfl).whole rfl noted, rfl⟩
      | _ =>
        simp only [readTyped]
        exact compare.pure ⟨(Reading.still fun _ => rfl).whole rfl noted, rfl⟩

theorem readTypes_alike (inner : ∀ part : Value, part.PartOf schema →
      part.weight < schema.weight → ReadsPart compare promise place place' part) :
    (kinds : List Value) →
    compare.holds (readTypes compare.first schema kinds place)
      (readTypes compare.second schema kinds place') (OfNodes promise)
  | [] => by
      rw [readTypes, readTypes]
      exact compare.pure .nil
  | kind :: rest => by
      have others := readTypes_alike inner rest
      have onward (answers : Answers) (node node' : Node) (head : OfNode promise answers node node') :
          compare.holds (do return node :: (← readTypes compare.first schema rest place))
            (do return node' :: (← readTypes compare.second schema rest place'))
            fun more => OfNodes promise (answers ++ more) :=
        compare.map _ _ others fun more nodes nodes' tail => .cons head tail
      rw [readTypes, readTypes]
      split
      · exact onward [] _ _ ((Reading.still fun _ => rfl).whole rfl fun _ => isJson_empty)
      · exact compare.bind (readTyped_alike inner kind {} fun _ => isJson_empty)
          fun answers node node' head => onward answers node node' head.1

end

include inner presents

section Composed

variable {members members' : List Node} {answers : Answers}
  (read : OfNodes promise answers members members') (mode : Composition)

include read

/-- The own shape of a schema stands before its union, in a conjunction. -/
theorem readUnion_alike :
    compare.holds (readUnion compare.first schema place mode members)
      (readUnion compare.second schema place' mode members')
      fun more node node' => OfNode promise (answers ++ more) node node' ∧
        node.note = noteOf schema := by
  have noted := presents.note
  have bare (tags : Answers) {discriminator discriminator' : Option Discriminator}
      (told : OfTags promise tags discriminator discriminator') {note : Note}
      (noted : promise.json → note.IsJson) := read.composition told noted mode
  refine compare.bind (readDiscriminator_alike presents) fun tags _ _ told => ?_
  split
  · refine compare.bind (readObject_alike inner (fun _ => isJson_empty) none) ?_
    rintro own node node' ⟨shape, -⟩
    refine compare.pure ⟨?_, rfl⟩
    have both := OfNodes.cons shape (.cons (bare tags told fun _ => isJson_empty) .nil)
    have whole := both.composition .none noted .allOf
    refine whole.congr fun answer => ?_
    simp only [mem_append, append_nil]
    tauto
  · refine compare.pure ⟨?_, rfl⟩
    rw [append_nil]
    exact bare tags told noted

/-- The own shape of a schema is the last member of its conjunction. -/
theorem readComposed_alike :
    compare.holds (readComposed compare.first schema place mode members)
      (readComposed compare.second schema place' mode members')
      fun more node node' => OfNode promise (answers ++ more) node node' ∧
        node.note = noteOf schema := by
  have noted := presents.note
  cases mode with
  | allOf =>
    simp only [readComposed]
    split
    · refine compare.bind (readObject_alike inner (fun _ => isJson_empty) none) ?_
      rintro own node node' ⟨shape, -⟩
      refine compare.pure ⟨?_, rfl⟩
      rw [← append_assoc]
      exact (read.concat shape).composition .none noted .allOf
    · exact compare.pure ⟨read.composition .none noted .allOf, rfl⟩
  | anyOf => exact readUnion_alike inner presents read .anyOf
  | oneOf => exact readUnion_alike inner presents read .oneOf

end Composed

theorem readBody_alike :
    compare.holds (readBody compare.first schema place) (readBody compare.second schema place')
      fun answers node node' => OfNode promise answers node node' ∧ node.note = noteOf schema := by
  rw [readBody_eq, readBody_eq]
  refine compare.after (compare.reports (fun _ => code_of_mem_unsupported)
    (fun placed => by rw [presents.placed placed]) (by simp [unsupported])) fun _ _ _ => ?_
  cases listed : enumeration? schema with
  | some node =>
    obtain ⟨values, extensible, rfl⟩ := eq_enumeration listed
    refine compare.pure ⟨(Reading.still fun _ => rfl).whole rfl fun holds => ?_, rfl⟩
    exact isJson_enumeration? (presents.json holds) (presents.note holds) listed
  | none =>
    simp only [readShape]
    cases composed : composition? schema with
    | none => exact readTyped_alike inner _ _ presents.note
    | some found =>
      obtain ⟨mode, items⟩ := found
      have stored := get?_of_composition? composed
      have each (item : Value) (member : item ∈ items) :=
        inner item ((PartOf.item member .itself).trans (partOf_of_get? stored))
          (Nat.lt_trans (weight_lt_of_mem member) (weight_lt_of_get? stored))
      refine compare.bind (readMembers_alike (fun item member => ?_) 0)
        fun answers members members' read => readComposed_alike inner presents read mode
      simpa only [String.append_assoc] using
        (each item member).under ("/" ++ mode.text ++ "/")

end Parts

/-- Both sides of a comparison read every schema alike. -/
theorem readAlike (compare : Comparison State Other) (promise : Promise) (schema : Value) :
    ReadAlike compare promise schema := by
  -- By the weight of a schema; every part that is read weighs less than the whole.
  induction size : schema.weight using Nat.strongRecOn generalizing schema with
  | _ size ih =>
    intro place place' presents
    have inner (part : Value) (inside : part.PartOf schema) (smaller : part.weight < schema.weight)
        (path : String) := compare.mono (ih part.weight (size ▸ smaller) part rfl _ _
          (presents.part inside path)) fun _ _ _ read => read.1
    have noted := presents.note
    have nullable {answers : Answers} {node node' : Node} (read : OfNode promise answers node node')
        {note : Note} (noted : promise.json → note.IsJson) :
        OfNode promise answers (.typeArray note [node, .null {}])
          (.typeArray note [node', .null {}]) := by
      have null : OfNode promise [] (.null {}) (.null {}) :=
        (Reading.still fun _ => rfl).whole rfl fun _ => isJson_empty
      simpa using (OfNodes.cons read (.cons null .nil)).typeArray noted
    cases schema with
    | map entries =>
      simp only [read]
      split
      next text referring =>
        have written : text ∈ asked .plain (.map entries) := by
          refine mem_askedEntries.mpr ⟨_, Entries.mem_of_get? referring, .inl ?_⟩
          simp [askedAt, toText?]
        refine compare.map _ _ (compare.resolve text (presents.written written)) ?_
        rintro _ target target' rfl
        have plain := OfNode.reference target target' noted
        split
        next marked =>
          exact ⟨nullable plain fun _ => isJson_empty, .inr ⟨⟨text, referring⟩,
            by simpa [get?] using marked⟩⟩
        next => exact ⟨plain, .inl rfl⟩
      next =>
        refine compare.map _ _ (readBody_alike inner presents) fun answers node node' read => ?_
        split
        · exact ⟨nullable read.1 noted, .inl rfl⟩
        · exact ⟨read.1, .inl read.2⟩
    | scalar _ =>
      simp only [read]
      exact compare.pure ⟨(Reading.still fun _ => rfl).whole rfl fun _ => isJson_empty, .inl rfl⟩
    | list _ =>
      simp only [read]
      exact compare.pure ⟨(Reading.still fun _ => rfl).whole rfl fun _ => isJson_empty, .inl rfl⟩

end Reader

/-! ## What comes of it -/

section Along

variable {State Other : Type} {course : Course State} {known : State → Prop}
  {fact : Target → State → Prop} {surroundings : Surroundings State} {texts : List String}
  {schema : Value}

section Kept

variable (stable : course.Stable known) (factStable : ∀ target, course.Stable (fact target))
  (resolve : ∀ text ∈ texts, course.Keeps known (surroundings.resolve text) fact)
  (report : ∀ diagnostic, diagnostic.code = .unsupportedKeyword → course.Keeps known
    (surroundings.report diagnostic) fun _ _ => True)

include stable factStable resolve report

/-- Compares a computation with itself along a course; of every answer the same holds. -/
def keeping : Comparison State State where
  first := surroundings
  second := surroundings
  texts
  placed := True
  holds here _ fits := course.Keeps known here fun value state => ∃ answers value',
    fits answers value value' ∧ ∀ answer ∈ answers, fact answer.1 state
  pure {_ _ value' _} fit := .pure fun _ _ => ⟨[], value', fit, forall_mem_nil _⟩
  throw _ := .throw
  bind first rest := by
    refine .bind ((first.frame stable).weaken (fun _ holds => ⟨holds, holds⟩)
      fun _ _ ended => ended) fun value state sound holds => ?_
    obtain ⟨⟨answers, value', fit, given⟩, before⟩ := holds
    refine (rest answers value value' fit state sound before).mono ?_ fun _ leads => leads
    rintro result later ⟨leads, more, result', fits, given'⟩
    refine ⟨leads, answers ++ more, result', fits, forall_mem_append.mpr ⟨?_, given'⟩⟩
    exact fun answer member => factStable answer.1 state later leads (given answer member)
  resolve text written := (resolve text written).weaken (fun _ holds => holds)
    fun target _ found => ⟨_, target, rfl, by simpa using found⟩
  report diagnostic _ keyword _ := (report diagnostic keyword).weaken (fun _ holds => holds)
    fun _ _ _ => ⟨[], (), rfl, forall_mem_nil _⟩

/-- In surroundings that keep to a course a schema is read along it, and of the answers the same
holds as of everything that is resolved. -/
theorem read_keeps (written : asked .plain schema ⊆ texts) (place : String) :
    course.Keeps known (read surroundings schema place) fun node state => ∃ answers node',
      (OfNode (promised schema) answers node node' ∧
        (node.note = noteOf schema ∨ IsMarkedReference schema)) ∧
      ∀ answer ∈ answers, fact answer.1 state :=
  readAlike (keeping stable factStable resolve report) (promised schema) schema place place
    ⟨written, id, id, fun _ => rfl⟩

end Kept

section Mirrored

variable (stable : course.Stable known) {view : Other → State} {first : Surroundings Other}
  (resolve : ∀ text ∈ texts, course.Mirrors known view (first.resolve text)
    (surroundings.resolve text))
  (keeps : ∀ text ∈ texts, course.Keeps known (surroundings.resolve text) fact)
  (report : ∀ diagnostic, course.Mirrors known view (first.report diagnostic)
    (surroundings.report diagnostic))
  (reportKeeps : ∀ diagnostic, diagnostic.code = .unsupportedKeyword → course.Keeps known
    (surroundings.report diagnostic) fun _ _ => True)

include stable resolve keeps report reportKeeps

/-- Compares two computations of which one does to a part of its state what the other one does. -/
def mirroring : Comparison Other State where
  first
  second := surroundings
  texts
  placed := True
  holds here there fits := ∀ other, course.sound (view other) → known (view other) →
    (∃ fault later, here.start other = (.error fault, later) ∧
      there.start (view other) = (.error fault, view later)) ∨
    ∃ value value' later answers, here.start other = (.ok value, later) ∧
      there.start (view other) = (.ok value', view later) ∧
      course.leads (view other) (view later) ∧ fits answers value value' ∧
      ∀ answer ∈ answers, answer.1 = answer.2
  pure {_ value value' _} fit other _ _ := .inr ⟨value, value', other, [], rfl, rfl,
    course.refl _, fit, forall_mem_nil _⟩
  throw _ other _ _ := .inl ⟨_, other, rfl, rfl⟩
  bind first rest other sound holds := by
    rw [Run.start_bind, Run.start_bind]
    rcases first other sound holds with ⟨fault, later, ran, ran'⟩ |
      ⟨value, value', later, answers, ran, ran', leads, fit, agree⟩
    · exact .inl ⟨fault, later, by rw [ran], by rw [ran']⟩
    · rw [ran, ran']
      rcases rest answers value value' fit later (course.keeps leads sound)
        (stable _ _ leads holds) with failed |
          ⟨result, result', last, more, ran, ran', onward, fits, agree'⟩
      · exact .inl failed
      · exact .inr ⟨result, result', last, answers ++ more, ran, ran', course.trans leads onward,
          fits, forall_mem_append.mpr ⟨agree, agree'⟩⟩
  resolve text written other sound holds := by
    rcases (resolve text written).outcome (keeps text written) other sound holds with failed |
      ⟨target, later, ran, ran', leads⟩
    · exact .inl failed
    · exact .inr ⟨target, target, later, _, ran, ran', leads, rfl, by simp⟩
  report diagnostic diagnostic' keyword same other sound holds := by
    obtain rfl := same trivial
    rcases (report diagnostic).outcome (reportKeeps diagnostic keyword) other sound holds with
      failed | ⟨_, later, ran, ran', leads⟩
    · exact .inl failed
    · exact .inr ⟨(), (), later, [], ran, ran', leads, rfl, forall_mem_nil _⟩

/-- In surroundings that do the same a schema is read in the same way. -/
theorem read_mirrors (written : asked .plain schema ⊆ texts) (place : String) :
    course.Mirrors known view (read first schema place) (read surroundings schema place) := by
  intro other sound holds
  have alike := readAlike (mirroring stable resolve keeps report reportKeeps) (promised schema) schema
    place place ⟨written, id, id, fun _ => rfl⟩ other sound holds
  rcases alike with ⟨fault, later, ran, ran'⟩ | ⟨node, node', later, _, ran, ran', -, same, agree⟩
  · rw [show (read first schema place).start other = _ from ran]
    exact ran'
  · rw [show (read first schema place).start other = _ from ran, same.1.same agree]
    exact ran'

end Mirrored

section Followed

variable (resolve : ∀ text ∈ texts, course.Follows (surroundings.resolve text))
  (report : ∀ diagnostic, course.Follows (surroundings.report diagnostic))

include resolve report

/-- Compares a computation with itself along a course, however it ends. -/
def following : Comparison State State where
  first := surroundings
  second := surroundings
  texts
  placed := True
  holds here _ fits := course.Follows here ∧
    Run.Returns here fun value => ∃ answers value', fits answers value value'
  pure {_ value value' _} fit := ⟨.pure value, .pure ⟨[], value', fit⟩⟩
  throw _ := ⟨.throw _, nofun⟩
  bind first rest := by
    refine ⟨fun state => ?_, first.2.bind ?_⟩
    · have here := first.1 state
      rw [Run.start_bind]
      rcases outcome : Run.start _ state with ⟨fault | value, later⟩ <;> rw [outcome] at here
      · exact here
      · obtain ⟨answers, value', fit⟩ := first.2 state value later outcome
        exact course.trans here ((rest answers value value' fit).1 later)
    · rintro value ⟨answers, value', fit⟩ state result later ran
      obtain ⟨more, result', fits⟩ := (rest answers value value' fit).2 state result later ran
      exact ⟨answers ++ more, result', fits⟩
  resolve text written := ⟨resolve text written, fun _ target _ _ => ⟨_, target, rfl⟩⟩
  report diagnostic _ _ _ := ⟨report diagnostic, fun _ _ _ _ => ⟨[], (), rfl⟩⟩

/-- In surroundings that lead along a course reading does, however it ends. -/
theorem read_follows (written : asked .plain schema ⊆ texts) (place : String) :
    course.Follows (read surroundings schema place) :=
  (readAlike (following resolve report) (promised schema) schema place place
    ⟨written, id, id, fun _ => rfl⟩).1

end Followed

/-- Only a reference with a null mark loses its note. -/
theorem read_note (surroundings : Surroundings State) (schema : Value) (place : String) :
    Run.Returns (read surroundings schema place) fun node =>
      node.note = noteOf schema ∨ IsMarkedReference schema := by
  have alike := readAlike (following (fun _ _ => .anywhere (surroundings.resolve _))
    fun _ => .anywhere (surroundings.report _)) (promised schema) schema place place
    ⟨Subset.refl (asked .plain schema), id, id, fun _ => rfl⟩
  intro state node later ran
  obtain ⟨_, _, -, noted⟩ := alike.2 state node later ran
  exact noted

end Along

end Schema

end Bindery
