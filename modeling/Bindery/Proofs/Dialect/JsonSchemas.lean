import Bindery.Dialect.Upgrade
import Bindery.Proofs.Dialect.Walks
import Bindery.Proofs.Value.Json

/-!
# Conversions of JSON schemas

A schema that JSON has is brought to the 3.1 shape without leaving JSON, and so
is a 3.0 document: the conversions move, drop and wrap values and add texts,
truth values and nulls, but no bytes and no calendar values.

Most steps are put together from a few that change a value in one place, so the
statements about them are put together in the same way.
-/

namespace Bindery.Dialect

open Value Entries

def KeepsJson (change : Value → Value) : Prop :=
  ∀ value : Value, value.IsJson → (change value).IsJson

def KeepsJsonEntries (change : Entries → Entries) : Prop :=
  ∀ entries : Entries, entries.IsJson → (change entries).IsJson

theorem KeepsJsonEntries.comp {first second : Entries → Entries}
    (keeps : KeepsJsonEntries first) (keeps' : KeepsJsonEntries second) :
    KeepsJsonEntries fun entries => second (first entries) :=
  fun entries json => keeps' _ (keeps entries json)

/-! ## Schemas -/

theorem isJson_walk {rule : Entries → Entries} (keeps : KeepsJsonEntries rule) :
    KeepsJson (walk rule) := by
  intro value
  induction value using Value.induction with
  | step value ih =>
    intro json
    cases value with
    | scalar _ => exact json
    | list _ => exact json
    | map entries =>
      rw [walk, walkEntries_eq_map]
      refine isJson_map.mpr (keeps _ (List.forall_mem_map.mpr ?_))
      rintro ⟨key, value⟩ member
      obtain ⟨named, part⟩ := isJson_map.mp json _ member
      refine ⟨named, ?_⟩
      rcases walkPart_cases rule member ih with same | ⟨_, -, -, ⟨same, keeps⟩ |
        ⟨inner, rfl, keeps, same⟩ | ⟨items, rfl, keeps, same⟩⟩ <;> rw [same]
      · exact part
      · exact keeps part
      · exact isJson_map.mpr (List.forall_mem_map.mpr fun entry inside =>
          (isJson_map.mp part entry inside).imp_right (keeps entry inside))
      · exact isJson_list.mpr (List.forall_mem_map.mpr fun item inside =>
          keeps item inside (isJson_list.mp part item inside))

theorem keepsJson_liftNull : KeepsJsonEntries liftNull := by
  intro node json
  simp only [liftNull]
  split
  · exact (json.erase _).set _ (by simp)
  · exact json.erase _

theorem keepsJson_liftFile : KeepsJsonEntries liftFile := by
  intro node json
  rw [liftFile]
  split
  · exact (json.set _ (by simp)).set _ (by simp)
  · exact json

theorem keepsJson_liftDiscriminator : KeepsJsonEntries liftDiscriminator := by
  intro node json
  rw [liftDiscriminator]
  split
  · exact json.set _ (by simp)
  · exact json

theorem keepsJson_liftSchema : KeepsJson liftSchema :=
  isJson_walk ((keepsJson_liftNull.comp keepsJson_liftFile).comp keepsJson_liftDiscriminator)

theorem isJson_addNullType {kind : Value} (json : kind.IsJson) : (addNullType kind).IsJson := by
  have extended {kinds : List Value} (each : ∀ item ∈ kinds, item.IsJson) :
      (list
        (if kinds.any (·.isText "null") then kinds else kinds ++ [.str "null"])).IsJson := by
    split
    · exact isJson_list.mpr each
    · exact isJson_list.mpr (List.forall_mem_append.mpr ⟨each, by simp⟩)
  simp only [addNullType]
  apply extended
  split
  · exact isJson_list.mp json
  · simpa using json

theorem keepsJson_addNullMember : KeepsJsonEntries addNullMember := by
  intro node json
  rw [addNullMember]
  split
  next values listed =>
    split
    · exact json
    · refine json.set _ (isJson_list.mpr (List.forall_mem_append.mpr ⟨?_, ?_⟩))
      · exact isJson_list.mp (json.get? listed)
      · simp
  next => exact json

theorem keepsJson_upgradeNull : KeepsJsonEntries upgradeNull := by
  intro node json
  have rest := json.erase "nullable"
  simp only [upgradeNull]
  split
  · split
    next kind stored =>
      exact keepsJson_addNullMember _ (rest.set _ (isJson_addNullType (rest.get? stored)))
    next => exact rest.set _ (by simp)
  · exact rest

theorem keepsJson_upgradeExclusive (exclusive bound : String) :
    KeepsJsonEntries (upgradeExclusive exclusive bound) := by
  intro node json
  rw [upgradeExclusive]
  split
  · split
    next limit stored => exact (json.erase _).set _ (json.get? stored)
    next => exact json.erase _
  · exact json.erase _
  · exact json

theorem keepsJson_upgradeExample : KeepsJsonEntries upgradeExample := by
  intro node json
  rw [upgradeExample]
  split
  next sample stored =>
    split
    · exact json
    · exact (json.erase _).set _ (by simpa using json.get? stored)
  next => exact json

theorem keepsJson_upgradeSchema : KeepsJson upgradeSchema :=
  isJson_walk (((keepsJson_upgradeNull.comp (keepsJson_upgradeExclusive _ _)).comp
    (keepsJson_upgradeExclusive _ _)).comp keepsJson_upgradeExample)

theorem isJson_convertSchema (dialect : Dialect) :
    KeepsJson fun schema => convertSchema schema dialect := by
  intro schema json
  cases dialect with
  | v20 => exact keepsJson_upgradeSchema _ (keepsJson_liftSchema schema json)
  | v30 => exact keepsJson_upgradeSchema schema json
  | v31 => exact json
  | unknown => exact json

/-! ## From 3.0 to 3.1 -/

variable {change : Value → Value}

theorem keepsJson_atKey (name : String) (keeps : KeepsJson change) :
    KeepsJsonEntries (atKey name change) := by
  intro entries json
  rw [atKey]
  split
  next value stored => exact json.set _ (keeps value (json.get? stored))
  next => exact json

theorem keepsJson_onValues (keeps : KeepsJson change) : KeepsJson (onValues change) := by
  intro value json
  rw [onValues.eq_def]
  split
  next entries =>
    exact isJson_map.mpr ((isJson_map.mp json).map fun entry key part =>
      ⟨key, keeps entry.2 part⟩)
  next => exact json

theorem keepsJson_mapList (keeps : KeepsJson change) {items : List Value}
    (json : ∀ item ∈ items, item.IsJson) : (list (items.map change)).IsJson := by
  refine isJson_list.mpr fun item member => ?_
  obtain ⟨old, inside, rfl⟩ := List.mem_map.mp member
  exact keeps old (json old inside)

theorem keepsJson_onItems (keeps : KeepsJson change) : KeepsJson (onItems change) := by
  intro value json
  rw [onItems.eq_def]
  split
  next items => exact keepsJson_mapList keeps (isJson_list.mp json)
  next => exact json

theorem keepsJson_unlessReference {change : Entries → Entries} (keeps : KeepsJsonEntries change) :
    KeepsJson (unlessReference change) := by
  intro value json
  rw [unlessReference.eq_def]
  split
  next entries =>
    split
    · exact json
    · exact isJson_map.mpr (keeps entries (isJson_map.mp json))
  next => exact json

theorem keepsJson_upgradeMedia : KeepsJson upgradeMedia := by
  intro value json
  rw [upgradeMedia.eq_def]
  split
  next entries =>
    exact isJson_map.mpr
      (keepsJson_atKey _ keepsJson_upgradeSchema entries (isJson_map.mp json))
  next => exact json

theorem keepsJson_upgradeContent : KeepsJson upgradeContent :=
  keepsJson_onValues keepsJson_upgradeMedia

theorem keepsJson_upgradeParameter : KeepsJson upgradeParameter :=
  keepsJson_unlessReference ((keepsJson_atKey _ keepsJson_upgradeSchema).comp
    (keepsJson_atKey _ keepsJson_upgradeContent))

theorem keepsJson_upgradeBody : KeepsJson upgradeBody :=
  keepsJson_unlessReference (keepsJson_atKey _ keepsJson_upgradeContent)

theorem keepsJson_upgradeResponse : KeepsJson upgradeResponse :=
  keepsJson_unlessReference ((keepsJson_atKey _ keepsJson_upgradeContent).comp
    (keepsJson_atKey _ (keepsJson_onValues keepsJson_upgradeParameter)))

theorem keepsJson_upgradeOperation : KeepsJsonEntries upgradeOperation :=
  ((keepsJson_atKey _ (keepsJson_onItems keepsJson_upgradeParameter)).comp
    (keepsJson_atKey _ keepsJson_upgradeBody)).comp
    (keepsJson_atKey _ (keepsJson_onValues keepsJson_upgradeResponse))

theorem keepsJson_upgradePathItem : KeepsJson upgradePathItem := by
  refine keepsJson_unlessReference fun entries json => json.map fun entry key part => ?_
  rw [upgradePathEntry.eq_def]
  split
  next name operation =>
    split
    · exact ⟨key, isJson_map.mpr
        (keepsJson_upgradeOperation operation (isJson_map.mp part))⟩
    · exact ⟨key, part⟩
  next name items =>
    split
    · exact ⟨key, keepsJson_mapList keepsJson_upgradeParameter (isJson_list.mp part)⟩
    · exact ⟨key, part⟩
  next => exact ⟨key, part⟩

theorem keepsJson_upgradeComponents : KeepsJson upgradeComponents := by
  intro value json
  rw [upgradeComponents.eq_def]
  split
  next entries =>
    have sections : KeepsJsonEntries _ :=
      ((((keepsJson_atKey "schemas" (keepsJson_onValues keepsJson_upgradeSchema)).comp
        (keepsJson_atKey "parameters" (keepsJson_onValues keepsJson_upgradeParameter))).comp
        (keepsJson_atKey "headers" (keepsJson_onValues keepsJson_upgradeParameter))).comp
        (keepsJson_atKey "requestBodies" (keepsJson_onValues keepsJson_upgradeBody))).comp
        (keepsJson_atKey "responses" (keepsJson_onValues keepsJson_upgradeResponse))
    exact isJson_map.mpr (sections entries (isJson_map.mp json))
  next => exact json

theorem isJson_upgrade {document upgraded : Value} (json : document.IsJson)
    (made : upgrade document = .ok upgraded) : upgraded.IsJson := by
  cases document with
  | map entries =>
    cases made
    have versioned := (isJson_map.mp json).set "openapi"
      (show (str upgradedVersion).IsJson by simp)
    have places : KeepsJsonEntries _ :=
      (keepsJson_atKey "paths" (keepsJson_onValues keepsJson_upgradePathItem)).comp
        (keepsJson_atKey "components" keepsJson_upgradeComponents)
    exact isJson_map.mpr (places _ versioned)
  | list _ => cases made
  | scalar _ => cases made

end Bindery.Dialect
