import Mathlib
import Bindery.Proofs.Dialect.Idempotence

/-!
# Named schemas of a converted document

A document is converted as a whole, and a schema can be converted by itself.
Main statement: both give the same named schemas.  Those of a 2.0 document are its
definitions, each brought to 3.1 and then with its references pointed at their new
places, which commutes with the second conversion.

One definition is an exception.  A text that stands under the reference key is
no schema, and the document takes it for a reference.
-/

namespace Bindery

open Entries

namespace Dialect

def namedSchemas (root : Entries) : Option Entries :=
  match root.get? "components" with
  | some (.map components) =>
    match get? "schemas" components with
    | some (.map schemas) => some schemas
    | _ => none
  | _ => none

/-- What a definition of a 2.0 document becomes. -/
def convertedDefinition (name : Scalar) (definition : Value) : Value :=
  match name, definition with
  | .str "$ref", .scalar (.str text) => .str (moveReference text)
  | _, definition => moveReferences (convertSchema definition .v20)

variable {root components schemas document definitions : Entries}

theorem namedSchemas_of_get? (rooted : root.get? "components" = some (.map components))
    (named : components.get? "schemas" = some (.map schemas)) :
    namedSchemas root = some schemas := by
  rw [namedSchemas, rooted]
  simp only [named]

theorem get?_of_namedSchemas (named : namedSchemas root = some schemas) :
    ∃ components : Entries, root.get? "components" = some (.map components) ∧
      components.get? "schemas" = some (.map schemas) := by
  unfold namedSchemas at named
  split at named
  next components rooted =>
    split at named
    next found listed =>
      cases named
      exact ⟨components, rooted, listed⟩
    next => cases named
  next => cases named

/-- The upgrade of a document brings each of its named schemas to 3.1. -/
theorem namedSchemas_upgradeEntries (named : namedSchemas root = some schemas) :
    namedSchemas (upgradeEntries root) =
      some (schemas.map fun entry => (entry.1, upgradeSchema entry.2)) := by
  obtain ⟨components, rooted, listed⟩ := get?_of_namedSchemas named
  apply namedSchemas_of_get?
  · simp only [upgradeEntries, get?_atKey, get?_set, rooted, if_pos]
    rfl
  · simp [get?_atKey, listed, onValues]

/-- Definitions are the named schemas of the components of a lifted document. -/
theorem get?_liftComponents (defined : document.get? "definitions" = some (.map definitions))
    (filled : definitions ≠ []) (collected : liftComponents document = .ok components) :
    components.get? "schemas" =
      some (.map (definitions.map fun entry => (entry.1, liftSchema entry.2))) := by
  have lifted : liftSection "definitions" document (fun schema => return liftSchema schema) =
      .ok (definitions.map fun entry => (entry.1, liftSchema entry.2)) := by
    have present : document.present? "definitions" = some (.map definitions) := by
      rw [present?, defined]
      simp [Value.isTruthy, filled]
    rw [liftSection, present]
    exact List.mapM_pure
  obtain ⟨schemas, built, collected⟩ := ok_of_bind collected
  obtain ⟨parameters, -, collected⟩ := ok_of_bind collected
  obtain ⟨responses, -, collected⟩ := ok_of_bind collected
  obtain ⟨schemes, -, collected⟩ := ok_of_bind collected
  rw [lifted] at built
  cases built
  cases collected
  simp [filled, get?]

theorem namedSchemas_lift {lifted : Value}
    (defined : document.get? "definitions" = some (.map definitions)) (filled : definitions ≠ [])
    (success : lift (.map document) = .ok lifted) : ∃ root, lifted = .map root ∧
      namedSchemas root = some (definitions.map fun entry =>
        (entry.1, movedUnder entry.1 (liftSchema entry.2))) := by
  obtain ⟨root, -, components, rfl, -, collected, rooted, -⟩ := lift_eq_ok success
  have named := get?_liftComponents defined filled collected
  have occupied : components ≠ [] := by
    rintro rfl
    cases named
  have moved : get? "components" (moveReferencesEntries root) =
      some (.map (moveReferencesEntries components)) := by
    rw [get?_moveReferencesEntries, rooted occupied, Option.map_some, movedUnder_map]
  refine ⟨_, rfl, namedSchemas_of_get? moved ?_⟩
  rw [get?_moveReferencesEntries, named, Option.map_some, movedUnder_map,
    moveReferencesEntries_eq_map, List.map_map]
  rfl

theorem upgradeSchema_movedUnder_liftSchema (name : Scalar) (definition : Value) :
    upgradeSchema (movedUnder name (liftSchema definition)) =
      convertedDefinition name definition := by
  rw [← movedUnder_upgradeSchema]
  unfold convertedDefinition
  split
  next text => rfl
  next plain =>
    apply movedUnder_eq_moveReferences
    intro text same written
    cases definition with
    | scalar value =>
      cases written
      exact plain text same rfl
    | list items => cases written
    | map entries => cases written

end Dialect

namespace NormalDocument

open Dialect

/-- The named schemas of a converted document are those of the document, in their order, each
converted by itself.  The definitions of a 2.0 document also have their references pointed at their
new places, and a text among them under the reference key is a reference. -/
theorem namedSchemas_ofDocument {document : Entries} {location : String} {normal : NormalDocument}
    {told : List Diagnostic} (success : ofDocument (.map document) location = .ok (normal, told)) :
    (normal.dialect = .v30 → ∀ schemas, namedSchemas document = some schemas →
      namedSchemas normal.root =
        some (schemas.map fun entry => (entry.1, convertSchema entry.2 .v30))) ∧
    (normal.dialect = .v20 → ∀ definitions : Entries,
      document.get? "definitions" = some (.map definitions) → definitions ≠ [] →
      namedSchemas normal.root =
        some (definitions.map fun entry => (entry.1, convertedDefinition entry.1 entry.2))) := by
  obtain ⟨entries, same, -, conversion, -, -, declared, -⟩ := ofDocument_eq_ok_iff.mp success
  cases same
  rw [← declared] at conversion
  obtain ⟨place, dialect, converted⟩ := normal
  constructor
  · rintro ⟨⟩ schemas named
    cases conversion
    exact namedSchemas_upgradeEntries named
  · rintro ⟨⟩ definitions defined filled
    obtain ⟨lifted, lifting, conversion⟩ := ok_of_bind conversion
    obtain ⟨root, rfl, named⟩ := namedSchemas_lift defined filled lifting
    cases conversion
    refine (namedSchemas_upgradeEntries named).trans ?_
    rw [List.map_map]
    simp only [Function.comp_def, upgradeSchema_movedUnder_liftSchema]

/-- A 2.0 document with a text under the reference key among its definitions, and references in the
places where a schema holds plain data. -/
def referringDocument : Entries :=
  [(.str "swagger", .str "2.0"), (.str "info", .map []),
    (.str "definitions", .map [
      (.str "Pet", .map [(.str "type", .str "object"), (.str "x-nullable", .bool true),
        (.str "properties", .map [(.str "$ref", .map [(.str "$ref", .str "#/definitions/Cat")])]),
        (.str "example", .map [(.str "$ref", .str "#/definitions/Dog")])]),
      (.str "$ref", .str "#/definitions/Pet")])]

def referringNormal : NormalDocument where
  location := "/api.json"
  dialect := .v20
  root := [(.str "openapi", .str "3.1.0"), (.str "info", .map []),
    (.str "servers", .list [.map [(.str "url", .str "/")]]), (.str "paths", .map []),
    (.str "components", .map [(.str "schemas", .map [
      (.str "Pet", .map [(.str "type", .list [.str "object", .str "null"]),
        (.str "properties",
          .map [(.str "$ref", .map [(.str "$ref", .str "#/components/schemas/Cat")])]),
        (.str "examples", .list [.map [(.str "$ref", .str "#/components/schemas/Dog")]])]),
      (.str "$ref", .str "#/components/schemas/Pet")])])]

theorem ofDocument_referring :
    ofDocument (.map referringDocument) "/api.json" = .ok (referringNormal, []) := by
  with_unfolding_all rfl

theorem namedSchemas_ofDocument_of_referring :
    ofDocument (.map referringDocument) "/api.json" = .ok (referringNormal, []) ∧
      ∃ definitions : Entries,
        referringDocument.get? "definitions" = some (.map definitions) ∧ definitions ≠ [] ∧
          namedSchemas referringNormal.root =
            some (definitions.map fun entry => (entry.1, convertedDefinition entry.1 entry.2)) := by
  refine ⟨ofDocument_referring, _, rfl, by simp, ?_⟩
  apply (namedSchemas_ofDocument ofDocument_referring).2
  · rfl
  · rfl
  · simp

/-- The text under the reference key is not what the conversion of a schema makes of it. -/
theorem text_definition_taken_for_reference :
    ofDocument (.map referringDocument) "/api.json" = .ok (referringNormal, []) ∧
      (namedSchemas referringNormal.root).bind (Entries.get? "$ref") =
        some (.str "#/components/schemas/Pet") ∧
      moveReferences (convertSchema (.str "#/definitions/Pet") .v20) = .str "#/definitions/Pet" :=
  ⟨ofDocument_referring, rfl, rfl⟩

end NormalDocument

end Bindery
