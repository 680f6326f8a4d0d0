import Bindery.Proofs.Resolution.Skips
import Bindery.Proofs.Resolution.Traces
import Mathlib

/-!
# Forward references close cycles

A reference is a forward one if it was met while its target was read.  Then the
target leads to the schema with the reference, along the references of schemas
that have ended.  Each of these is a target of its schema, unless it stood in the
mapping of a discriminator under a tag that was written twice in different forms.

So without such tags a forward reference closes a cycle of targets, and what is read
between requests never has one.
-/

namespace Bindery

open Relation Sources

/-- No schema that a reference leads to has a discriminator with two tags of one text. -/
def Sources.TagsApart (sources : Sources) : Prop :=
  ∀ text reference schema, sources.schemaAt text reference = .ok schema → schema.TagsApart

namespace Sources

variable {sources : Sources} {entries : List Registration} {reference next : Reference}

/-- A schema without such tags mentions everything that it asks for. -/
theorem TagsApart.asked_subset (apart : sources.TagsApart) {outlined : Node} {asked : List String}
    (reads : sources.Reads reference outlined asked) : asked ⊆ outlined.mentions true := by
  obtain ⟨text, schema, found, outline⟩ := reads
  obtain ⟨answers, node, rfl, read⟩ := Schema.outline_read outline
  intro key member
  obtain ⟨answer, given, rfl⟩ := List.mem_map.mp member
  exact read.mentions_of_answer (apart text reference schema found) given

/-- A reference that stands in a schema is among the targets of the schema that was read. -/
theorem Links.dependsOn (apart : sources.TagsApart) (link : sources.Links entries reference next) :
    Registry.DependsOn entries reference.key next.key := by
  obtain ⟨⟨entry, member, records⟩, outlined, asked, reads, text, inside, named⟩ := link
  rcases records.standing with ⟨node, outlined', asked', done, reads', same, -⟩ | ⟨_, -, fails⟩
  · obtain ⟨rfl, rfl⟩ := reads.unique reads'
    have mentioned : next.key ∈ (node.redirect id).mentions true := by
      rw [same, Node.mentions_redirect, Resolving.mentions_unalias]
      exact List.mem_map.mpr ⟨text, apart.asked_subset reads inside, by rw [keyAt, named]⟩
    rw [Node.mentions_redirect, List.map_id] at mentioned
    refine ⟨entry, member, records.key, ?_⟩
    rw [Registration.dependencies, done]
    exact List.mem_eraseDups.mpr mentioned
  · exact absurd fails reads.not_fails

end Sources

namespace Resolving

/-- Where no two tags of a discriminator have one text, a forward reference of a finished schema
leads back to the schema along targets, so there is none where targets have no cycle.  And a schema
that is read between requests never has one. -/
theorem forward_closes_cycle {library : Library} {working : List String} {root : NormalDocument}
    {calls : List Call} {findings : Findings}
    (ran : (perform (.of library working root) calls).start
      (Findings.start (.of library working root)) = (.ok (), findings)) :
    let sources := Sources.of library working root
    let depends := Registry.DependsOn findings.entries
    (sources.TagsApart →
      (∀ entry ∈ findings.entries, ∀ node, entry.standing = .done node → ∀ target,
        node.Defers target → ReflTransGen depends target entry.key) ∧
      ((∀ key, ¬TransGen depends key key) → ∀ entry ∈ findings.entries, ∀ node,
        entry.standing = .done node → ∀ target, ¬node.Defers target)) ∧
    ∀ schema base place node later,
      (read sources schema base place).start findings = (.ok node, later) →
        ∀ target, ¬node.Defers target := by
  intro sources depends
  have ample : nestingBound sources + 2 ≤ sources.bound := Nat.le_refl _
  have traced := traced_of_perform ample ran
  refine ⟨fun apart => ?_, fun schema base place node later returned =>
    ((read_traced ample traced schema base place).2 node later returned).2⟩
  have closes : ∀ entry ∈ findings.entries, ∀ node, entry.standing = .done node → ∀ target,
      node.Defers target → ReflTransGen depends target entry.key := by
    intro entry member node done target defers
    obtain ⟨_, reference, -, records, closes⟩ := traced.found entry member
    rcases closes node done target defers with ⟨_, waiting, -⟩ | ⟨opened, rfl, path⟩
    · cases waiting
    · rw [records.key]
      exact path.lift Reference.key fun _ _ link => link.dependsOn apart
  refine ⟨closes, fun acyclic entry member node done target defers => acyclic entry.key ?_⟩
  have first : depends entry.key target := by
    refine ⟨entry, member, rfl, ?_⟩
    rw [Registration.dependencies, done]
    exact List.mem_eraseDups.mpr defers.mentioned
  exact .head' first (closes entry member node done target defers)

/-- What is found when the first of two schemas that refer to each other is resolved. -/
def pairedFindings : Findings where
  cache := { documents := [("/a", cyclicSources.root.tree)] }
  entries :=
    [{ key := "/a#k", location := "/a", proposed := "k"
       standing := .done (.composition {} .allOf [.reference {} "/a#l" false] none) },
     { key := "/a#l", location := "/a", proposed := "l"
       standing := .done (.composition {} .allOf [.reference {} "/a#k" true] none) }]
  completion := ["/a#l", "/a#k"]

theorem cyclicSources_tagsApart : cyclicSources.TagsApart := by
  have whole : cyclicSources.root.tree.TagsApart := by
    intro entries inner mapping inside stored
    simp [cyclicSources, of, NormalDocument.tree] at inside
    rcases inside with rfl | rfl | rfl | rfl <;> simp at stored
  intro text reference schema found
  obtain ⟨value, targeted, rest⟩ := ok_of_bind found
  obtain ⟨dialect, spoken, same⟩ := ok_of_bind rest
  cases same
  obtain ⟨document, provided, walked⟩ := resolve_of_targetAt targeted
  rcases provides_of_documentAt provided with ⟨here, rfl⟩ | loaded
  · rw [dialectAt, if_pos here] at spoken
    cases spoken
    exact whole.part (Pointer.partOf_of_resolve walked)
  · cases loaded

theorem forward_closes_cycle_of_pair :
    (perform cyclicSources [.reference "#k" "/a"]).start (Findings.start cyclicSources) =
      (.ok (), pairedFindings) ∧ cyclicSources.TagsApart ∧
    ReflTransGen (Registry.DependsOn pairedFindings.entries) "/a#k" "/a#l" := by
  have ran : (perform cyclicSources [.reference "#k" "/a"]).start (Findings.start cyclicSources) =
      (.ok (), pairedFindings) := by
    decide +kernel
  refine ⟨ran, cyclicSources_tagsApart, ?_⟩
  exact ((forward_closes_cycle ran).1 cyclicSources_tagsApart).1 _
    (List.mem_cons_of_mem _ List.mem_cons_self) _ rfl _ ⟨{}, .child List.mem_cons_self .itself⟩

/-- A union whose mapping has one tag twice, as a number and as a text. -/
def retaggedUnion : Value :=
  .map [(.str "anyOf", .list [.map [(.str "$ref", .str "#b")]]),
    (.str "discriminator", .map [(.str "propertyName", .str "t"),
      (.str "mapping", .map [(.int 1, .str "#a"), (.str "1", .str "#b")])])]

/-- A document with this union, and a schema of its mapping that refers to it. -/
def retaggedSources : Sources :=
  of { documents := [] } []
    { location := "/a", dialect := .v31
      root := [(.str "k", retaggedUnion), (.str "a", .map [(.str "$ref", .str "#k")]),
        (.str "b", .map [])] }

def retaggedFindings : Findings where
  cache := { documents := [("/a", retaggedSources.root.tree)] }
  entries :=
    [{ key := "/a#k", location := "/a", proposed := "k"
       standing := .done (.composition {} .anyOf [.reference {} "/a#b" false]
         (some ⟨"t", some [("1", "/a#b")]⟩)) },
     { key := "/a#b", location := "/a", proposed := "b", standing := .done (.any {}) },
     { key := "/a#a", location := "/a", proposed := "a"
       standing := .done (.composition {} .allOf [.reference {} "/a#k" true] none) }]
  completion := ["/a#b", "/a#a", "/a#k"]

/-- A forward reference closes no cycle if the reference that led to it was replaced in the mapping
of a discriminator. -/
theorem forward_without_cycle :
    (perform retaggedSources [.reference "#k" "/a"]).start (Findings.start retaggedSources) =
        (.ok (), retaggedFindings) ∧
      ∃ entry ∈ retaggedFindings.entries, ∃ node, entry.standing = .done node ∧
        node.Defers "/a#k" ∧
        ¬ReflTransGen (Registry.DependsOn retaggedFindings.entries) "/a#k" entry.key := by
  have closed : ∀ entry ∈ retaggedFindings.entries, entry.key ∈ ["/a#k", "/a#b"] →
      entry.dependencies ⊆ ["/a#k", "/a#b"] := by
    decide
  have stays {key : String}
      (path : ReflTransGen (Registry.DependsOn retaggedFindings.entries) "/a#k" key) :
      key ∈ ["/a#k", "/a#b"] := by
    induction path with
    | refl => exact List.mem_cons_self
    | tail _ step ih =>
      obtain ⟨entry, member, rfl, listed⟩ := step
      exact closed entry member ih listed
  exact ⟨by decide +kernel, _, List.mem_of_getElem? (rfl : retaggedFindings.entries[2]? = some _),
    _, rfl, ⟨{}, .child List.mem_cons_self .itself⟩, fun path => absurd (stays path) (by decide)⟩

end Resolving

end Bindery
