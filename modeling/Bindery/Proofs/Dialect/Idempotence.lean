import Mathlib
import Bindery.Dialect.Normal
import Bindery.Proofs.Course
import Bindery.Proofs.Dialect.MovedReferences

/-!
# Normal documents are normal

Bringing a document to the 3.1 shape a second time changes nothing.  The proof
follows three facts about the root entries through both conversions: the
conditions of the structural check hold again, the version key of 2.0 documents
is gone or absent, and the version text is the one of upgraded documents.

A repeated key would let a later value win over the one that was checked.  Maps of
a document have no key twice, and this is the only condition.
-/

namespace Bindery

open Dialect Entries

namespace Dialect

theorem get?_atKey (name other : String) (change : Value → Value) (entries : Entries) :
    (atKey name change entries).get? other =
      if other = name then (entries.get? name).map change else entries.get? other := by
  rw [atKey]
  split
  next value found =>
    rw [get?_set]
    simp [found]
  next absent =>
    split
    next same => simp [same, absent]
    next => rfl

/-! ## From 3.0 to 3.1 -/

theorem get?_upgradeEntries_openapi (entries : Entries) :
    (upgradeEntries entries).get? "openapi" = some (.str upgradedVersion) := by
  simp [upgradeEntries, get?_atKey, get?_set]

theorem get?_upgradeEntries_paths (entries : Entries) :
    (upgradeEntries entries).get? "paths" =
      (entries.get? "paths").map (onValues upgradePathItem) := by
  simp [upgradeEntries, get?_atKey, get?_set]

/-- The root keys that the upgrade is not about stay as they are. -/
theorem get?_upgradeEntries_of_kept {name : String}
    (kept : name ∉ ["openapi", "paths", "components"]) (entries : Entries) :
    (upgradeEntries entries).get? name = entries.get? name := by
  simp only [List.mem_cons, List.not_mem_nil, or_false, not_or] at kept
  simp [upgradeEntries, get?_atKey, get?_set, kept]

variable {entries : Entries}

/-- An upgraded document declares 3.1, unless it declares 2.0 beside it. -/
theorem ofEntries_upgradeEntries (silent : (entries.get? "swagger").filter (· ≠ .null) = none) :
    ofEntries (upgradeEntries entries) = .v31 := by
  rw [ofEntries, get?_upgradeEntries_of_kept (by decide), silent,
    get?_upgradeEntries_openapi]
  decide

/-! ## From 2.0 to 3.0 -/

/-- The entries that a lifted document keeps, put into its root. -/
def keptRoot (entries : Entries) : Entries :=
  (entries.filter fun entry => !entry.1.isOneOf replacedKeys).foldl
    (fun root entry => put entry.1 entry.2 root) [(.str "openapi", .str "3.0.3")]

/-- A lifted document has its paths and its components in maps, keeps the other entries that are not
built anew, and has every reference pointed at its new place. -/
theorem lift_eq_ok {lifted : Value} (success : lift (.map entries) = .ok lifted) :
    ∃ root paths components : Entries,
      lifted = .map (moveReferencesEntries root) ∧ root.get? "paths" = some (.map paths) ∧
        liftComponents entries = .ok components ∧
        (components ≠ [] → root.get? "components" = some (.map components)) ∧
        ∀ name ∉ ["servers", "paths", "components"],
          root.get? name = (keptRoot entries).get? name := by
  obtain ⟨_, same, success⟩ := ok_of_bind success
  cases same
  obtain ⟨servers, -, success⟩ := ok_of_bind success
  obtain ⟨listed, -, success⟩ := ok_of_bind success
  obtain ⟨paths, -, success⟩ := ok_of_bind success
  obtain ⟨components, collected, success⟩ := ok_of_bind success
  cases success
  refine ⟨_, paths, components, rfl, ?_, collected, ?_, ?_⟩
  · split <;> simp [get?_set]
  · intro filled
    rw [if_neg (by simpa using filled), get?_set, if_pos rfl]
  · intro name kept
    simp only [List.mem_cons, List.not_mem_nil, or_false, not_or] at kept
    split <;> simp [get?_set, kept, keptRoot]

theorem get?_keptRoot (distinct : entries.keys.Nodup) (name : String) :
    (keptRoot entries).get? name =
      (if name ∈ replacedKeys then none else entries.get? name).or
        (if name = "openapi" then some (.str "3.0.3") else none) := by
  rw [keptRoot, get?_foldl_put _ (nodup_keys_filter distinct),
    get?_filter (fun key => !key.isOneOf replacedKeys)]
  by_cases same : name = "openapi"
  · simp [get?, Scalar.isOneOf, same]
  · simp [get?, Scalar.isOneOf, same, Ne.symm same]

end Dialect

namespace NormalDocument

/-! ## The structural check -/

/-- What a document may hold as its paths. -/
def PathsAllowed (paths : Option Value) : Prop :=
  paths = none ∨ paths = some .null ∨ ∃ routes, paths = some (.map routes)

/-- The conditions on the root entries of a document that is not refused. -/
structure Checked (entries : Entries) : Prop where
  versioned : entries.has "swagger" = true ∨ entries.has "openapi" = true
  informed : ∃ info, entries.get? "info" = some (.map info)
  routed : PathsAllowed (entries.get? "paths")

variable {entries : Entries}

theorem Checked.of_checkEntries {found : Entries} (accepted : checkEntries entries = .ok found) :
    found = entries ∧ Checked entries := by
  rw [checkEntries] at accepted
  split at accepted
  next => cases accepted
  next versioned =>
    have either : entries.has "swagger" = true ∨ entries.has "openapi" = true := by
      simpa [or_iff_not_imp_left] using versioned
    split at accepted
    next info informed =>
      split at accepted
      next paths =>
        cases accepted
        exact ⟨rfl, either, ⟨info, informed⟩, .inl paths⟩
      next paths =>
        cases accepted
        exact ⟨rfl, either, ⟨info, informed⟩, .inr (.inl paths)⟩
      next routes paths =>
        cases accepted
        exact ⟨rfl, either, ⟨info, informed⟩, .inr (.inr ⟨routes, paths⟩)⟩
      next => cases accepted
    next => cases accepted

theorem Checked.checkEntries (checked : Checked entries) : checkEntries entries = .ok entries := by
  obtain ⟨versioned, ⟨info, informed⟩, routed⟩ := checked
  have noRefusal : (!entries.has "swagger" && !entries.has "openapi") = false := by
    rcases versioned with first | second
    · simp [first]
    · simp [second]
  rw [NormalDocument.checkEntries, noRefusal, informed]
  rcases routed with paths | paths | ⟨routes, paths⟩
  · rw [paths]; rfl
  · rw [paths]; rfl
  · rw [paths]; rfl

theorem Checked.upgradeEntries (checked : Checked entries) :
    Checked (upgradeEntries entries) := by
  obtain ⟨-, ⟨info, informed⟩, routed⟩ := checked
  constructor
  · right
    rw [has, get?_upgradeEntries_openapi]
    rfl
  · rw [get?_upgradeEntries_of_kept (by decide)]
    exact ⟨info, informed⟩
  · rw [get?_upgradeEntries_paths]
    rcases routed with paths | paths | ⟨routes, paths⟩
    · rw [paths]
      exact .inl rfl
    · rw [paths]
      exact .inr (.inl rfl)
    · rw [paths]
      exact .inr (.inr ⟨_, rfl⟩)

/-- Lifting a checked document gives one that is checked again, without the key that a 2.0
document declares its version under. -/
theorem Checked.lift (checked : Checked entries) (distinct : entries.keys.Nodup) {lifted : Value}
    (success : lift (.map entries) = .ok lifted) :
    ∃ root : Entries, lifted = .map root ∧ Checked root ∧ root.get? "swagger" = none := by
  obtain ⟨built, paths, -, rfl, routed, -, -, kept⟩ := lift_eq_ok success
  obtain ⟨-, ⟨info, informed⟩, -⟩ := checked
  have looked {name : String} (plain : name ≠ "$ref") :=
    get?_moveReferencesEntries_of_ne plain built
  have swagger : built.get? "swagger" = none := by
    rw [kept _ (by decide), get?_keptRoot distinct]
    rfl
  refine ⟨_, rfl, ?_, by rw [looked (by decide), swagger]; rfl⟩
  constructor
  · right
    rw [has, looked (by decide), kept _ (by decide), get?_keptRoot distinct]
    simp
  · rw [looked (by decide), kept _ (by decide), get?_keptRoot distinct,
      if_neg (by decide), informed]
    exact ⟨_, rfl⟩
  · rw [looked (by decide), routed]
    exact .inr (.inr ⟨_, rfl⟩)

/-! ## A second run -/

/-- What a run that succeeds went through. -/
theorem ofDocument_eq_ok_iff {document : Value} {location : String} {normal : NormalDocument}
    {told : List Diagnostic} :
    ofDocument document location = .ok (normal, told) ↔
      ∃ entries, document = .map entries ∧ Checked entries ∧
        convert document (ofEntries entries) = .ok (.map normal.root) ∧
        checkKeys normal.root = .ok () ∧ normal.location = location ∧
        normal.dialect = ofEntries entries ∧
        told = if normal.dialect = .unknown then [unknownVersion entries location] else [] := by
  constructor
  · intro success
    obtain ⟨entries, accepted, success⟩ := ok_of_bind success
    obtain ⟨converted, conversion, success⟩ := ok_of_bind success
    obtain ⟨root, mapped, success⟩ := ok_of_bind success
    obtain ⟨_, textual, success⟩ := ok_of_bind success
    cases success
    cases converted with
    | map found =>
      cases mapped
      cases document with
      | map document =>
        obtain ⟨rfl, checked⟩ := Checked.of_checkEntries accepted
        exact ⟨entries, rfl, checked, conversion, textual, rfl, rfl, rfl⟩
      | list items => cases accepted
      | scalar value => cases accepted
    | list items => cases mapped
    | scalar value => cases mapped
  · obtain ⟨place, dialect, root⟩ := normal
    rintro ⟨entries, rfl, checked, conversion, textual, rfl, rfl, rfl⟩
    simp only [ofDocument, check, checked.checkEntries]
    show (convert (.map entries) _ >>= _) = _
    rw [conversion]
    show (checkKeys root >>= _) = _
    rw [textual]
    rfl

theorem silent_of_v30 (declared : ofEntries entries = .v30) :
    (entries.get? "swagger").filter (· ≠ .null) = none := by
  rw [ofEntries] at declared
  split at declared
  next version _ => split at declared <;> cases declared
  next silent => exact silent

/-- A converted document is checked again, and declares 3.1 unless its version was not known. -/
theorem Checked.convert {root : Entries} (checked : Checked entries) (distinct : entries.keys.Nodup)
    (conversion : convert (.map entries) (ofEntries entries) = .ok (.map root)) :
    Checked root ∧ ofEntries root =
      if ofEntries entries = .unknown then .unknown else .v31 := by
  cases declared : ofEntries entries with
  | v20 =>
    rw [declared] at conversion
    obtain ⟨lifted, lifting, conversion⟩ := ok_of_bind conversion
    obtain ⟨middle, rfl, again, silent⟩ := checked.lift distinct lifting
    cases conversion
    refine ⟨again.upgradeEntries, ?_⟩
    rw [ofEntries_upgradeEntries (by rw [silent]; rfl)]
    rfl
  | v30 =>
    rw [declared] at conversion
    cases conversion
    refine ⟨checked.upgradeEntries, ?_⟩
    rw [ofEntries_upgradeEntries (silent_of_v30 declared)]
    rfl
  | v31 =>
    rw [declared] at conversion
    cases conversion
    exact ⟨checked, declared⟩
  | unknown =>
    rw [declared] at conversion
    cases conversion
    exact ⟨checked, declared⟩

/-- A document that is brought to the 3.1 shape stays as it is when it is brought there again, and
the second run takes it for a 3.1 document unless the version of the first was not known. -/
theorem ofDocument_idempotent {document : Value} {location : String} {normal : NormalDocument}
    {told : List Diagnostic}
    (distinct : ∀ entries, document = .map entries → (Entries.keys entries).Nodup)
    (success : ofDocument document location = .ok (normal, told)) (elsewhere : String) :
    ∃ again retold, ofDocument normal.tree elsewhere = .ok (again, retold) ∧
      again.tree = normal.tree ∧
      again.dialect = if normal.dialect = .unknown then .unknown else .v31 := by
  obtain ⟨entries, rfl, checked, conversion, textual, -, declared, -⟩ :=
    ofDocument_eq_ok_iff.mp success
  obtain ⟨again, detected⟩ := checked.convert (distinct entries rfl) conversion
  have kept : NormalDocument.convert normal.tree (ofEntries normal.root) =
      .ok (.map normal.root) := by
    rw [detected]
    split <;> rfl
  refine ⟨⟨elsewhere, ofEntries normal.root, normal.root⟩, _,
    ofDocument_eq_ok_iff.mpr ⟨normal.root, rfl, again, kept, textual, rfl, rfl, rfl⟩, rfl, ?_⟩
  rw [declared]
  exact detected

/-- A 2.0 document that also declares another version, and has a component key without
components. -/
def conflictingDocument : Value :=
  .map [(.str "swagger", .str "2.0"), (.str "openapi", .str "3.0.1"), (.str "info", .map []),
    (.str "components", .null),
    (.str "definitions", .map [(.str "Pet", .map [(.str "$ref", .str "#/definitions/Cat")])])]

theorem ofDocument_idempotent_of_conflicting :
    ∃ root : Entries,
      ofDocument conflictingDocument "/api.json" = .ok (⟨"/api.json", .v20, root⟩, []) ∧
      ∃ again retold, ofDocument (.map root) "/again.json" = .ok (again, retold) ∧
        again.tree = .map root ∧ again.dialect = .v31 := by
  have success : ofDocument conflictingDocument "/api.json" =
      .ok (⟨"/api.json", .v20,
        [(.str "openapi", .str "3.1.0"), (.str "info", .map []),
          (.str "components", .map [(.str "schemas",
            .map [(.str "Pet", .map [(.str "$ref", .str "#/components/schemas/Cat")])])]),
          (.str "servers", .list [.map [(.str "url", .str "/")]]), (.str "paths", .map [])]⟩,
        []) := by
    with_unfolding_all rfl
  refine ⟨_, success, ofDocument_idempotent ?_ success "/again.json"⟩
  rintro entries ⟨⟩
  decide

end NormalDocument

end Bindery
