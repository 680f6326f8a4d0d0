import Bindery.Proofs.Location.Pointers
import Bindery.Proofs.Resolution.OrderFree

/-!
# The entries of the components

The schema of a component is registered under the key of a reference that is made
from its name.  Percent escapes are read in every reference but written in none, so
a name that holds one leads elsewhere, and maybe to another component.

Every name has an entry, which is in the registry or skipped with a diagnostic.
A name without percent escapes has an entry of its own, which holds the schema
that stands under the name.
-/

namespace Bindery

open Pointer

open Location (Plain)

/-! ## References to components -/

def Pointer.component (name : String) : String :=
  "/components/schemas/" ++ escape name

theorem Pointer.segments_component (name : String) :
    segments (component name) = ["components", "schemas", name] := by
  have spelled : component name = "/" ++ Text.join "/" ["components", "schemas", escape name] := by
    unfold component
    simp [Text.join, ← String.append_assoc]
  have absent : ∀ piece ∈ ["components", "schemas", escape name], '/' ∉ piece.toList := by
    simpa using slash_notMem_escape name
  rw [spelled, segments_join (by decide) absent, List.map_cons, List.map_cons, List.map_singleton,
    unescape_escape, unescape_of_notMem (by simp), unescape_of_notMem (by simp)]

theorem Pointer.marked_component (name : String) :
    "#/components/schemas/" ++ escape name = "#" ++ component name := by
  unfold component
  simp [← String.append_assoc]

theorem Pointer.component_injective : Function.Injective component := by
  intro first second same
  have segments := congrArg segments same
  rw [segments_component, segments_component] at segments
  simpa using segments

theorem Pointer.plain_component {name : String} (plain : Plain name.toList) :
    Plain (component name).toList := by
  unfold component
  rw [String.toList_append]
  exact Plain.append (by simp) (plain_escape plain)

namespace Sources

variable {sources : Sources} {name : String}

def componentAt (sources : Sources) (name : String) : Reference where
  location := sources.root.location
  pointer := Location.percentDecode (component name)

theorem ofText_component (sources : Sources) (name : String) :
    Reference.ofText sources.working ("#/components/schemas/" ++ escape name)
      sources.root.location = .ok (sources.componentAt name) := by
  rw [marked_component, Reference.ofText_pointer]
  rfl

theorem pointer_componentAt (plain : Plain name.toList) :
    (sources.componentAt name).pointer = component name :=
  Location.percentDecode_of_plain (plain_component plain)

theorem key_componentAt (plain : Plain name.toList) :
    (sources.componentAt name).key =
      sources.root.location ++ "#/components/schemas/" ++ Pointer.escape name := by
  rw [Reference.key, pointer_componentAt plain, String.append_assoc, String.append_assoc,
    Pointer.marked_component]
  rfl

theorem key_componentAt_inj {other : String} (plain : Plain name.toList)
    (plain' : Plain other.toList)
    (same : (sources.componentAt name).key = (sources.componentAt other).key) : name = other := by
  rw [Reference.key, Reference.key, pointer_componentAt plain, pointer_componentAt plain'] at same
  exact Pointer.component_injective ((String.append_right_inj _).mp same)

variable {components schemas : Entries} {value : Value}

theorem reached_componentAt {library : Library} {working : List String} {root : NormalDocument}
    (found : root.root.get? "components" = some (.map components))
    (listed : components.get? "schemas" = some (.map schemas))
    (present : schemas.get? name = some value) : (Sources.of library working root).Reached
      ((Sources.of library working root).componentAt name) := by
  refine ⟨_, ⟨_, componentNames_eq library working root found listed, .str name, ?_, name, rfl,
    ofText_component _ name⟩, .refl⟩
  exact List.mem_map.mpr ⟨(.str name, value), Entries.mem_of_get? present, rfl⟩

/-- The reference by which a component is resolved leads to the schema under its name. -/
theorem schemaAt_componentAt (found : sources.root.root.get? "components" = some (.map components))
    (listed : components.get? "schemas" = some (.map schemas))
    (present : schemas.get? name = some value) (plain : Plain name.toList) (text : String) :
    sources.schemaAt text (sources.componentAt name) = .ok value := by
  have resolved : resolve text sources.root.tree (sources.componentAt name).pointer =
      .ok value := by
    rw [pointer_componentAt plain, resolve, segments_component]
    simp only [NormalDocument.tree, walk, step, found, listed, present]
  rw [schemaAt_root text rfl, resolved]
  rfl

end Sources

/-! ## Kept or reported -/

/-- After a run has ended, a registered schema is in the registry, or it is skipped and one of the
diagnostics says so: it failed, or it depends on something skipped. -/
def Registration.AccountedFor (entry : Registration) (root : String) (entries : List Registration)
    (registry : Registry) (diagnostics : List Diagnostic) : Prop :=
  entry ∈ registry.entries ∧ entry.key ∉ registry.skipped ∨
    entry.key ∈ registry.skipped ∧ ∃ diagnostic ∈ diagnostics,
      entry.ReportedBy root diagnostic ∨
        Registry.DroppedBy entries root registry.skipped entry diagnostic

namespace Resolving

/-- When the components are resolved and the run is ended, every registered schema is accounted
for. -/
theorem accountedFor_of_components {sources : Sources} {later : Findings}
    (ran : (components sources).start (Findings.start sources) = (.ok (), later))
    {entry : Registration} (member : entry ∈ later.entries) :
    entry.AccountedFor sources.root.location later.entries
      (Registry.finish later.entries later.completion sources.root.location).1
      (later.diagnostics ++
        (Registry.finish later.entries later.completion sources.root.location).2) := by
  obtain ⟨⟨⟨added, told, entries, -, diagnostics, reported⟩, -⟩, -⟩ :=
    components_keeps.elim (Findings.Sound.start sources) trivial ran
  by_cases skipped : entry.key ∈
      (Registry.finish later.entries later.completion sources.root.location).1.skipped
  · refine .inr ⟨skipped, ?_⟩
    cases failing : entry.standing.isFailed with
    | true =>
      obtain ⟨failed, perm, related⟩ := reported
      have all : later.entries = added := by simpa [Findings.start] using entries
      have among : entry ∈ failed :=
        perm.mem_iff.mpr (List.mem_filter.mpr ⟨all ▸ member, failing⟩)
      obtain ⟨diagnostic, known, holds⟩ := Run.exists_of_forall₂ related among
      refine ⟨diagnostic, List.mem_append_left _ ?_, .inl holds⟩
      rw [diagnostics]
      exact List.mem_append_right _ (List.mem_of_mem_filter known)
    | false =>
      obtain ⟨dropped, perm, related⟩ := Registry.finish_reports later.entries later.completion
        sources.root.location (sound_of_components ran).distinct
      have among : entry ∈ dropped := perm.mem_iff.mpr (by simp [member, skipped, failing])
      obtain ⟨diagnostic, known, holds⟩ := Run.exists_of_forall₂ related among
      exact ⟨diagnostic, List.mem_append_right _ known, .inr holds⟩
  · refine .inl ⟨?_, skipped⟩
    rw [Registry.finish_eq] at skipped ⊢
    exact Registry.mem_remaining.mpr ⟨member, skipped⟩

/-! ## The entries of the names -/

variable {library : Library} {working : List String} {root : NormalDocument}
  {schemas : Entries}

/--
When the components are resolved and the run is ended, every name has an entry under the key of its
reference, and the entry is accounted for: it is in the registry or skipped with a diagnostic.  If
there are no percent escapes in the name, the key spells the name and the entry holds the schema
under the name, with references to keys; a schema that is no more than a reference is wrapped.
Names without percent escapes have different keys.
-/
theorem component_entries {shared : Entries}
    (found : root.root.get? "components" = some (.map shared))
    (listed : shared.get? "schemas" = some (.map schemas))
    (clear : (Sources.of library working root).Unambiguous) {later : Findings}
    (ran : (components (Sources.of library working root)).start
      (Findings.start (Sources.of library working root)) = (.ok (), later)) :
    (Registry.keys later.entries).Nodup ∧
    ∃ registry final,
      (finish (Sources.of library working root)).start later = (.ok registry, final) ∧
      (∀ name value, schemas.get? name = some value →
        ∃ entry ∈ later.entries,
          (Sources.of library working root).Records later.entries
            ((Sources.of library working root).componentAt name) entry ∧
          entry.AccountedFor root.location later.entries registry final.diagnostics ∧
          (Plain name.toList →
            entry.key = root.location ++ "#/components/schemas/" ++ Pointer.escape name ∧
            ∃ node outlined asked, entry.standing = .done node ∧
              Schema.outline value = (.ok outlined, asked) ∧
              node.redirect id = (unalias outlined).redirect
                ((Sources.of library working root).keyAt root.location))) ∧
      ∀ first second, Plain first.toList → Plain second.toList → first ≠ second →
        ((Sources.of library working root).componentAt first).key ≠
          ((Sources.of library working root).componentAt second).key := by
  obtain ⟨names, known, charted⟩ := charted_components (Nat.le_refl _) ran
  refine ⟨(sound_of_components ran).distinct, _, _, start_finish _ later, ?_, ?_⟩
  · intro name value present
    obtain ⟨entry, member, records⟩ :=
      charted.record known clear (Sources.reached_componentAt found listed present)
    refine ⟨entry, member, records, accountedFor_of_components ran member, fun plain => ?_⟩
    refine ⟨records.key.trans (Sources.key_componentAt plain), ?_⟩
    have leads : ∀ text, (Sources.of library working root).schemaAt text
        ((Sources.of library working root).componentAt name) = .ok value :=
      Sources.schemaAt_componentAt found listed present plain
    rcases records.standing with ⟨node, outlined, asked, done, ⟨text, schema, found', outline⟩, same,
      -⟩ | ⟨_, -, text, cause, failed⟩
    · rw [leads text] at found'
      cases found'
      exact ⟨node, outlined, asked, done, outline, same⟩
    · rw [leads text] at failed
      cases failed
  · intro first second plain plain' differ same
    exact differ (Sources.key_componentAt_inj plain plain' same)

theorem component_entries_of_odd_names :
    let root := pairDocument "/a" ("~%/#", "#x") ("", "#/components/schemas/")
    Plain "~%/#".toList ∧ Plain "".toList ∧ (aloneSources root).Unambiguous ∧
    ∃ later registry final,
      (components (aloneSources root)).start (Findings.start (aloneSources root)) =
        (.ok (), later) ∧
      (finish (aloneSources root)).start later = (.ok registry, final) ∧
      (∃ entry ∈ later.entries, entry.key = "/a#/components/schemas/~0%~1#" ∧
        entry.AccountedFor "/a" later.entries registry final.diagnostics) ∧
      ∃ entry ∈ later.entries, entry.key = "/a#/components/schemas/" ∧
        entry.AccountedFor "/a" later.entries registry final.diagnostics := by
  intro root
  have slash : Text.hexValue? '/' = none := by decide
  have plain : Plain "~%/#".toList := by simp [Plain, List.infix_cons_iff, slash]
  have plain' : Plain "".toList := by simp [Plain]
  have clear : (aloneSources root).Unambiguous :=
    Sources.unambiguous_of_unmarked (by decide) (by simp)
  have ran : (components (aloneSources root)).start (Findings.start (aloneSources root)) =
      (.ok (), _) := Run.start_of_fst (by decide +kernel)
  obtain ⟨-, registry, final, ended, entries, -⟩ :=
    component_entries (by with_unfolding_all rfl) (by with_unfolding_all rfl) clear ran
  refine ⟨plain, plain', clear, _, registry, final, ran, ended, ?_, ?_⟩
  · obtain ⟨entry, member, -, accounted, own⟩ := entries "~%/#" _ (by with_unfolding_all rfl)
    exact ⟨entry, member, (own plain).1.trans (by decide +kernel), accounted⟩
  · obtain ⟨entry, member, -, accounted, own⟩ := entries "" _ (by with_unfolding_all rfl)
    exact ⟨entry, member, (own plain').1.trans (by decide +kernel), accounted⟩

/-- Sources with a mark in the location of the root, and a document that has a schema whose key is
that of a component of the root. -/
def lookalikeSources : Sources :=
  Sources.of
    { documents := [("/r", .ok (.map [(.str "s#", .map [(.str "components", .map [(.str "schemas",
      .map [(.str "A", .map [(.str "$ref", .str "#y")])])])])]))] } []
    (pairDocument "/r#s" ("B", "/r#s%23/components/schemas/A") ("A", "#x"))

/-- How a schema ends that is a reference to a key. -/
def linked (key : String) (forward : Bool) : Standing :=
  .done (.composition {} .allOf [.reference {} key forward] none)

/-- A name with a percent escape has no entry of its own if it is read as the name of another
component, and nor has a component whose key is that of a schema elsewhere. -/
theorem component_entry_shared :
    (∃ later, (components (aloneSources (pairDocument "/a" ("A", "#x") ("%41", "#y")))).start
        (Findings.start (aloneSources (pairDocument "/a" ("A", "#x") ("%41", "#y")))) =
          (.ok (), later) ∧
      Registry.keys later.entries = ["/a#/components/schemas/A", "/a#x"] ∧
      ((aloneSources (pairDocument "/a" ("A", "#x") ("%41", "#y"))).componentAt "%41").key =
        "/a#/components/schemas/A") ∧
    ∃ later, (components lookalikeSources).start (Findings.start lookalikeSources) =
        (.ok (), later) ∧
      Registry.keys later.entries =
        ["/r#s#/components/schemas/B", "/r#s#/components/schemas/A", "/r#y"] ∧
      (Registry.find? later.entries "/r#s#/components/schemas/A").map (·.standing) =
        some (linked "/r#y" false) := by
  constructor
  · exact Run.start_of_seen (by decide +kernel)
  · exact Run.start_of_seen (by decide +kernel)

end Resolving

end Bindery
