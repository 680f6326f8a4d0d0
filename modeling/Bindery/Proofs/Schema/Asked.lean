import Bindery.Proofs.Dialect.Walks
import Bindery.Proofs.Value.Parts
import Bindery.Schema.Reader
import Mathlib.Data.List.Basic

/-!
# The references written in a document

Wherever a schema is read from, the references that are asked for are written in
its document: behind a reference key, or as the targets of a discriminator.
This module collects all of them, over a whole document and without regard to
what is a schema, so that there are finitely many for each document.

Two facts make the collection useful.  A part of a document has no reference that
the document does not have, and bringing a schema to another dialect adds none.
-/

namespace Bindery

open List Entries Value

namespace Schema

open Dialect

/-- Where a value stands: as the discriminator of a schema, as the mapping of a discriminator, or
anywhere else. -/
inductive Position where
  | plain
  | discriminator
  | mapping
deriving DecidableEq

def Position.under (position : Position) (key : Scalar) : Position :=
  if key = .str "discriminator" then .discriminator
  else if position = .discriminator ∧ key = .str "mapping" then .mapping
  else .plain

/-- The references that an entry of a map is, apart from those inside its value. -/
def askedAt (position : Position) (key : Scalar) (value : Value) : List String :=
  (if key = .str "$ref" then value.toText?.toList else []) ++
    if position = .mapping then (mappingReference value).toOption.toList else []

mutual

/-- The references written in a value. -/
def asked (position : Position) : Value → List String
  | .scalar _ => []
  | .list items => askedList items
  | .map entries => askedEntries position entries

def askedList : List Value → List String
  | [] => []
  | item :: rest => asked .plain item ++ askedList rest

def askedEntries (position : Position) : List (Scalar × Value) → List String
  | [] => []
  | (key, value) :: rest =>
    askedAt position key value ++ asked (position.under key) value ++ askedEntries position rest

end

theorem askedList_eq (items : List Value) : askedList items = items.flatMap (asked .plain) := by
  induction items with
  | nil => rfl
  | cons item rest ih => rw [askedList, ih, flatMap_cons]

variable {position : Position} {entries : Entries}

theorem mem_askedEntries {text : String} :
    text ∈ askedEntries position entries ↔
      ∃ entry ∈ entries, text ∈ askedAt position entry.1 entry.2 ∨
        text ∈ asked (position.under entry.1) entry.2 := by
  induction entries with
  | nil => simp [askedEntries]
  | cons head tail ih =>
    obtain ⟨key, value⟩ := head
    simp [askedEntries, ih, or_assoc]

/-! ## The size of the collection -/

theorem length_askedAt_le (position : Position) (key : Scalar) (value : Value) :
    (askedAt position key value).length ≤ 2 := by
  have optional (found : Option String) : found.toList.length ≤ 1 := by
    cases found <;> simp
  have first : (if key = .str "$ref" then value.toText?.toList else []).length ≤ 1 := by
    split
    · exact optional _
    · simp
  have second : (if position = .mapping then (mappingReference value).toOption.toList
      else []).length ≤ 1 := by
    split
    · exact optional _
    · simp
  rw [askedAt, length_append]
  omega

mutual

/-- A value has at most two references for each of its nodes. -/
theorem length_asked_le (position : Position) :
    (value : Value) → (asked position value).length + 2 ≤ 2 * value.weight
  | .scalar _ => by simp [asked, weight]
  | .list items => by
      have inner := length_askedList_le items
      simp only [asked, weight]
      omega
  | .map entries => by
      have inner := length_askedEntries_le position entries
      simp only [asked, weight]
      omega

theorem length_askedList_le :
    (items : List Value) → (askedList items).length ≤ 2 * weightList items
  | [] => by simp [askedList]
  | item :: rest => by
      have first := length_asked_le .plain item
      have others := length_askedList_le rest
      simp only [askedList, weightList, length_append]
      omega

theorem length_askedEntries_le (position : Position) :
    (entries : List (Scalar × Value)) →
      (askedEntries position entries).length ≤ 2 * weightEntries entries
  | [] => by simp [askedEntries]
  | (key, value) :: rest => by
      have here := length_askedAt_le position key value
      have first := length_asked_le (position.under key) value
      have others := length_askedEntries_le position rest
      simp only [askedEntries, weightEntries, length_append]
      omega

end

/-! ## Parts of a document -/

theorem askedAt_plain_subset (position : Position) (key : Scalar) (value : Value) :
    askedAt .plain key value ⊆ askedAt position key value := by
  intro text member
  simp only [askedAt, reduceCtorEq, if_false, append_nil] at member
  exact mem_append_left _ member

theorem under_plain (key : Scalar) :
    Position.plain.under key = .discriminator ∧ key = .str "discriminator" ∨
      Position.plain.under key = .plain ∧ key ≠ .str "discriminator" := by
  by_cases named : key = .str "discriminator"
  · exact Or.inl ⟨by simp [Position.under, named], named⟩
  · exact Or.inr ⟨by simp [Position.under, named], named⟩

/-- A value has the most references where a discriminator or its mapping stands. -/
theorem asked_plain_subset (value : Value) :
    ∀ position, asked .plain value ⊆ asked position value := by
  induction value using Value.induction with
  | step value ih =>
    intro position
    cases value with
    | scalar _ => exact Subset.refl _
    | list _ => exact Subset.refl _
    | map entries =>
      intro text written
      obtain ⟨entry, member, written⟩ := mem_askedEntries.mp written
      refine mem_askedEntries.mpr ⟨entry, member,
        written.imp (@askedAt_plain_subset _ _ _ text) fun within => ?_⟩
      rcases under_plain entry.1 with ⟨_, named⟩ | ⟨plain, _⟩
      · simpa [Position.under, named] using within
      · rw [plain] at within
        exact ih entry.2 (weight_lt_of_mem_entries member) _ within

variable {key : Scalar} {value : Value}

theorem asked_subset_of_mem (position : Position) (member : (key, value) ∈ entries) :
    asked .plain value ⊆ askedEntries position entries := by
  intro text within
  exact mem_askedEntries.mpr
    ⟨(key, value), member, Or.inr (asked_plain_subset value _ within)⟩

theorem asked_subset_of_part {part : Value} (inside : part.PartOf value) :
    asked .plain part ⊆ asked .plain value := by
  induction inside with
  | itself => exact Subset.refl _
  | entry member _ ih => exact Subset.trans ih (asked_subset_of_mem .plain member)
  | item member _ ih =>
    rw [asked, askedList_eq]
    exact Subset.trans ih fun _ written => mem_flatMap.mpr ⟨_, member, written⟩

/-! ## Other dialects -/

theorem askedAt_eq_nil (plain : position ≠ .mapping) (other : key ≠ .str "$ref") (value : Value) :
    askedAt position key value = [] := by
  simp [askedAt, plain, other]

theorem askedEntries_erase_subset (position : Position) (name : String) (entries : Entries) :
    askedEntries position (entries.erase name) ⊆ askedEntries position entries := by
  intro text member
  obtain ⟨entry, kept, written⟩ := mem_askedEntries.mp member
  exact mem_askedEntries.mpr ⟨entry, (mem_filter.mp kept).1, written⟩

theorem mem_of_mem_set {name : String} {entry : Scalar × Value}
    (member : entry ∈ entries.set name value) : entry ∈ entries ∨ entry = (.str name, value) := by
  induction entries with
  | nil => exact Or.inr (by simpa [Entries.set] using member)
  | cons head tail ih =>
    obtain ⟨key, old⟩ := head
    simp only [Entries.set] at member
    split at member
    next same =>
      rcases mem_cons.mp member with here | later
      · exact Or.inr (by rw [here, same])
      · exact Or.inl (mem_cons_of_mem _ later)
    next =>
      rcases mem_cons.mp member with here | later
      · exact Or.inl (by rw [here]; exact mem_cons_self)
      · exact (ih later).imp_left (mem_cons_of_mem _)

/-- A map in which one value is set has the references of the map and of that value. -/
theorem askedEntries_set_subset {name : String} {whole : Entries} (plain : position ≠ .mapping)
    (other : name ≠ "$ref") (within : askedEntries position entries ⊆ askedEntries position whole)
    (quiet : asked (position.under (.str name)) value ⊆ askedEntries position whole) :
    askedEntries position (entries.set name value) ⊆ askedEntries position whole := by
  intro text member
  obtain ⟨entry, kept, written⟩ := mem_askedEntries.mp member
  rcases mem_of_mem_set kept with old | new
  · exact within (mem_askedEntries.mpr ⟨entry, old, written⟩)
  · subst new
    rw [askedAt_eq_nil plain (by simpa using other)] at written
    exact quiet (written.resolve_left not_mem_nil)

/-- A rule on the entries of a schema object that adds no reference. -/
def Sparing (rule : Entries → Entries) : Prop :=
  ∀ position, position ≠ .mapping → ∀ entries,
    askedEntries position (rule entries) ⊆ askedEntries position entries

theorem Sparing.comp {first second : Entries → Entries} (second' : Sparing second)
    (first' : Sparing first) : Sparing fun entries => second (first entries) :=
  fun position plain entries =>
    Subset.trans (second' position plain (first entries)) (first' position plain entries)

theorem sparing_liftNull : Sparing liftNull := by
  intro position plain entries
  simp only [liftNull]
  split
  · exact askedEntries_set_subset plain (by decide) (askedEntries_erase_subset _ _ _)
      (by simp [asked])
  · exact askedEntries_erase_subset _ _ _

theorem sparing_liftFile : Sparing liftFile := by
  intro position plain entries
  simp only [liftFile]
  split
  · exact askedEntries_set_subset plain (by decide)
      (askedEntries_set_subset plain (by decide) (Subset.refl _) (by simp [asked]))
      (by simp [asked])
  · exact Subset.refl _

theorem sparing_liftDiscriminator : Sparing liftDiscriminator := by
  intro position plain entries
  simp only [liftDiscriminator]
  split
  · refine askedEntries_set_subset plain (by decide) (Subset.refl _) ?_
    have wrapped : position.under (.str "discriminator") = .discriminator := by
      simp [Position.under]
    rw [wrapped]
    simp [asked, askedEntries, askedAt]
  · exact Subset.refl _

theorem sparing_addNullMember : Sparing addNullMember := by
  intro position plain entries
  simp only [addNullMember]
  split
  next values stored =>
    split
    · exact Subset.refl _
    · refine askedEntries_set_subset plain (by decide) (Subset.refl _) ?_
      have inside := asked_subset_of_mem position (mem_of_get? stored)
      simpa [asked, askedList_eq] using inside
  next => exact Subset.refl _

theorem asked_addNullType_subset (position : Position) (kind : Value) :
    asked position (addNullType kind) ⊆ asked .plain kind := by
  cases kind with
  | list kinds =>
    simp only [addNullType, asked]
    split <;> simp [askedList_eq, asked]
  | scalar _ =>
    simp only [addNullType, asked]
    split <;> simp [askedList, asked]
  | map entries =>
    simp only [addNullType, asked]
    split <;> simp [askedList, asked]

theorem sparing_upgradeNull : Sparing upgradeNull := by
  intro position plain entries
  have erased := askedEntries_erase_subset position "nullable" entries
  simp only [upgradeNull]
  split
  · split
    next kind stored =>
      refine Subset.trans (sparing_addNullMember position plain _)
        (askedEntries_set_subset plain (by decide) erased ?_)
      exact Subset.trans (asked_addNullType_subset _ kind)
        (Subset.trans (asked_subset_of_mem position (mem_of_get? stored)) erased)
    next => exact askedEntries_set_subset plain (by decide) erased (by simp [asked])
  · exact erased

theorem sparing_upgradeExclusive {exclusive bound : String} (notReference : exclusive ≠ "$ref")
    (notDiscriminator : exclusive ≠ "discriminator") (notMapping : exclusive ≠ "mapping") :
    Sparing (upgradeExclusive exclusive bound) := by
  intro position plain entries
  simp only [upgradeExclusive]
  split
  · split
    next limit stored =>
      refine askedEntries_set_subset plain notReference (askedEntries_erase_subset _ _ _) ?_
      have moved : position.under (.str exclusive) = .plain := by
        simp [Position.under, notDiscriminator, notMapping]
      rw [moved]
      exact asked_subset_of_mem position (mem_of_get? stored)
    next => exact askedEntries_erase_subset _ _ _
  · exact askedEntries_erase_subset _ _ _
  · exact Subset.refl _

theorem sparing_upgradeExample : Sparing upgradeExample := by
  intro position plain entries
  simp only [upgradeExample]
  split
  next sample stored =>
    split
    · exact Subset.refl _
    · refine askedEntries_set_subset plain (by decide) (askedEntries_erase_subset _ _ _) ?_
      have inside := asked_subset_of_mem position (mem_of_get? stored)
      simpa [asked, askedList] using inside
  next => exact Subset.refl _

theorem sparing_liftNode : Sparing liftNode :=
  sparing_liftDiscriminator.comp (sparing_liftFile.comp sparing_liftNull)

theorem sparing_upgradeNode : Sparing upgradeNode :=
  sparing_upgradeExample.comp
    ((sparing_upgradeExclusive (by decide) (by decide) (by decide)).comp
      ((sparing_upgradeExclusive (by decide) (by decide) (by decide)).comp sparing_upgradeNull))

theorem toText?_walk (rule : Entries → Entries) (value : Value) :
    (walk rule value).toText? = value.toText? := by
  cases value <;> rfl

/-- A keyword whose value is walked is no reference, no discriminator and no mapping. -/
theorem walked_key {names : List String}
    (schemas : names ∈ [namedSchemaKeys, singleSchemaKeys, listedSchemaKeys])
    (walked : key.isOneOf names = true) :
    key ≠ .str "$ref" ∧ ∀ position : Position, position.under key = .plain := by
  cases key with
  | str name =>
    have different : ∀ names ∈ [namedSchemaKeys, singleSchemaKeys, listedSchemaKeys],
        ∀ other ∈ names, other ≠ "$ref" ∧ other ≠ "discriminator" ∧ other ≠ "mapping" := by
      decide
    obtain ⟨notReference, notDiscriminator, notMapping⟩ :=
      different names schemas name (by simpa only [Scalar.isOneOf, contains_iff_mem] using walked)
    exact ⟨by simpa using notReference,
      fun position => by simp [Position.under, notDiscriminator, notMapping]⟩
  | _ => simp [Scalar.isOneOf] at walked

/-- Values that are changed each by itself have no more references if none of them has. -/
theorem askedEntries_map_subset {change : Scalar × Value → Value}
    (sparing : ∀ entry ∈ entries,
      askedAt position entry.1 (change entry) ⊆ askedAt position entry.1 entry.2 ∧
        asked (position.under entry.1) (change entry) ⊆ asked (position.under entry.1) entry.2) :
    askedEntries position (entries.map fun entry => (entry.1, change entry)) ⊆
      askedEntries position entries := by
  intro text written
  obtain ⟨_, listed, written⟩ := mem_askedEntries.mp written
  obtain ⟨entry, member, rfl⟩ := mem_map.mp listed
  obtain ⟨here, inside⟩ := sparing entry member
  exact mem_askedEntries.mpr ⟨entry, member, written.imp (@here text) (@inside text)⟩

/-- Applying a sparing rule to every schema object of a value adds no reference. -/
theorem asked_walk_subset {rule : Entries → Entries} (sparing : Sparing rule) (value : Value) :
    ∀ position ≠ .mapping, asked position (walk rule value) ⊆ asked position value := by
  induction value using Value.induction with
  | step value ih =>
    intro position plain
    cases value with
    | scalar _ => exact Subset.refl _
    | list _ => exact Subset.refl _
    | map entries =>
      rw [walk, walkEntries_eq_map]
      refine Subset.trans (sparing position plain _) (askedEntries_map_subset ?_)
      rintro ⟨key, value⟩ member
      rcases walkPart_cases rule member ih with same | ⟨names, schemas, walked, inside⟩
      · rw [same]
        exact ⟨Subset.refl _, Subset.refl _⟩
      obtain ⟨notReference, under⟩ := walked_key schemas walked
      simp only [askedAt_eq_nil plain notReference, under]
      refine ⟨Subset.refl _, ?_⟩
      rcases inside with ⟨same, keeps⟩ | ⟨named, rfl, keeps, same⟩ | ⟨items, rfl, keeps, same⟩ <;>
        rw [same]
      · exact keeps .plain nofun
      · refine askedEntries_map_subset fun entry inside => ⟨?_, keeps entry inside _ ?_⟩
        · simp [askedAt, toText?_walk]
        · rcases under_plain entry.1 with ⟨under, _⟩ | ⟨under, _⟩ <;> simp [under]
      · intro text written
        rw [asked, askedList_eq, flatMap_map] at written
        obtain ⟨item, inside, written⟩ := mem_flatMap.mp written
        rw [asked, askedList_eq]
        exact mem_flatMap.mpr ⟨item, inside, keeps item inside .plain nofun written⟩

theorem asked_convertSchema_subset (schema : Value) (dialect : Dialect) :
    asked .plain (convertSchema schema dialect) ⊆ asked .plain schema := by
  have lifted := asked_walk_subset sparing_liftNode schema .plain nofun
  have upgraded (schema : Value) := asked_walk_subset sparing_upgradeNode schema .plain nofun
  cases dialect with
  | v20 => exact Subset.trans (upgraded _) lifted
  | v30 => exact upgraded schema
  | v31 => exact Subset.refl _
  | unknown => exact Subset.refl _

end Schema

end Bindery
