import Mathlib
import Bindery.Proofs.Location.Keys
import Bindery.Proofs.Resolution.Outcome
import Bindery.Proofs.Resolution.Reach
import Bindery.Proofs.Value.Entries

/-!
# The order of the components

The schemas of the components are resolved in the order of the document.  What a
run registers, how each schema ends and which ones are skipped does not depend on
this order, because all of it is given by what is reached from the components, and
the order of a map can be told neither by a pointer nor by the reader of schemas.

Two things do depend on the order: which references are forward ones, and how a
failure is worded.  And two references that are written as one key share one entry,
whichever comes first.
-/

namespace Bindery

open Relation Schema Entries Pointer Sources Value Findings

/-! ## Values in another order -/

/-- Two values that differ at most in the order of one map, which lies under keys that are no
keywords of schemas. -/
inductive Value.Shuffled : Value → Value → Prop
  | same (value : Value) : Shuffled value value
  | order {first second : Entries} (perm : first.Perm second) (distinct : first.keys.Nodup) :
      Shuffled (.map first) (.map second)
  | within {entries : Entries} {name : String} {part part' : Value}
      (found : entries.get? name = some part) (inner : Shuffled part part')
      (apart : name ∉ keywords) : Shuffled (.map entries) (.map (entries.set name part'))

/-- Two results that are shuffled values or the same fault. -/
inductive Value.ShuffledResult {Cause : Type} : Except Cause Value → Except Cause Value → Prop
  | ok {first second : Value} (shuffled : first.Shuffled second) :
      ShuffledResult (.ok first) (.ok second)
  | error (cause : Cause) : ShuffledResult (.error cause) (.error cause)

variable {Cause : Type} {sources sources' : Sources}

theorem Value.ShuffledResult.mapError {Cause' : Type} {first second : Except Cause Value}
    (shuffled : ShuffledResult first second) (change : Cause → Cause') :
    ShuffledResult (first.mapError change) (second.mapError change) := by
  cases shuffled with
  | ok inner => exact .ok inner
  | error cause => exact .error (change cause)

theorem Value.ShuffledResult.refl (result : Except Cause Value) : ShuffledResult result result := by
  cases result with
  | ok value => exact .ok (.same value)
  | error cause => exact .error cause

namespace Value.Shuffled

variable {first second : Value}

theorem read {State : Type} (surroundings : Surroundings State) (place : String)
    (shuffled : first.Shuffled second) :
    read surroundings first place = read surroundings second place := by
  cases shuffled with
  | same => rfl
  | order perm distinct =>
    exact read_congr surroundings
      (fun keyword _ => get?_perm perm distinct keyword) place
  | @within entries name _ part' _ _ apart =>
    refine read_congr surroundings (fun keyword member => ?_) place
    have other : keyword ≠ name := fun same => apart (same ▸ member)
    exact (get?_set_of_ne other part' entries).symm

theorem step (text segment : String) (shuffled : first.Shuffled second) :
    ShuffledResult (step text first segment) (step text second segment) := by
  cases shuffled with
  | same => exact .refl _
  | order perm distinct =>
    simp only [step, get?_perm perm distinct]
    exact .refl _
  | @within entries name part part' found inner _ =>
    simp only [step, get?_set]
    by_cases same : segment = name
    · rw [if_pos same, same, found]
      exact .ok inner
    · rw [if_neg same]
      exact .refl _

theorem walk (text : String) (segments : List String) (shuffled : first.Shuffled second) :
    ShuffledResult (Pointer.walk text first segments) (Pointer.walk text second segments) := by
  induction segments generalizing first second with
  | nil => exact .ok shuffled
  | cons segment rest ih =>
    have stepped := shuffled.step text segment
    rw [Pointer.walk, Pointer.walk]
    generalize Pointer.step text first segment = here,
      Pointer.step text second segment = there at stepped ⊢
    cases stepped with
    | ok inner => exact ih inner
    | error cause => exact .error cause

end Value.Shuffled

/-! ## Documents in another order -/

/-- The second document has the schemas of the components in another order. -/
def NormalDocument.Reordered (first second : NormalDocument) : Prop :=
  ∃ components schemas schemas' : Entries,
    first.root.get? "components" = some (.map components) ∧
    components.get? "schemas" = some (.map schemas) ∧
    schemas.keys.Nodup ∧ schemas.Perm schemas' ∧
    second = { first with
      root := first.root.set "components" (.map (components.set "schemas" (.map schemas'))) }

namespace Sources

variable (library : Library) (working : List String) {root root' : NormalDocument}

theorem componentNames_eq (root : NormalDocument) {components schemas : Entries}
    (found : root.root.get? "components" = some (.map components))
    (listed : components.get? "schemas" = some (.map schemas)) :
    (of library working root).componentNames =
      .ok (schemas.map fun entry => .scalar entry.1) := by
  have whole : root.components = .map components := by
    rw [NormalDocument.components, present?, found]
    cases components with
    | nil => cases listed
    | cons _ _ => rfl
  have own : (of library working root).root = root := rfl
  rw [componentNames, own, whole]
  show itemsOrNone ((get? "schemas" components).filter isTruthy) = _
  rw [listed]
  cases schemas with
  | nil => rfl
  | cons _ _ => rfl

theorem component_iff_of_reordered (reordered : root.Reordered root') (reference : Reference) :
    (of library working root).Component reference ↔
      (of library working root').Component reference := by
  obtain ⟨components, schemas, schemas', found, listed, -, perm, rfl⟩ := reordered
  have names := componentNames_eq library working root found listed
  have names' := componentNames_eq library working
    { root with
      root := root.root.set "components" (.map (components.set "schemas" (.map schemas'))) }
    (get?_set_self _ _ _) (get?_set_self _ _ _)
  have members := fun name => (perm.map fun entry => scalar entry.1).mem_iff (a := name)
  simp only [Component, names, names', Except.ok.injEq, exists_eq_left', members]
  rfl

theorem shuffled_of_reordered (reordered : root.Reordered root') :
    root.tree.Shuffled root'.tree := by
  obtain ⟨components, schemas, schemas', found, listed, distinct, perm, rfl⟩ := reordered
  exact .within found (.within listed (.order perm distinct) (by decide)) (by decide)

variable {reference : Reference}

theorem schemaAt_root (text : String) (here : reference.location = sources.root.location) :
    sources.schemaAt text reference =
      (resolve text sources.root.tree reference.pointer).mapError Fault.resolution := by
  have document : sources.documentAt reference.location = .ok sources.root.tree := if_pos here
  have dialect : sources.dialectAt reference.location = .ok .v31 := if_pos here
  rw [schemaAt, targetAt, document, dialect]
  cases found : resolve text sources.root.tree reference.pointer with
  | error cause => simp only [bind, Except.bind, found, Except.mapError]
  | ok value => simp only [bind, Except.bind, found, Except.mapError]; rfl

section

variable (reordered : root.Reordered root')

include reordered

theorem schemaAt_of_reordered (text : String) (reference : Reference) :
    ShuffledResult ((of library working root).schemaAt text reference)
      ((of library working root').schemaAt text reference) := by
  have shuffled := shuffled_of_reordered reordered
  have location : root.location = root'.location := by
    obtain ⟨_, _, _, -, -, -, -, rfl⟩ := reordered
    rfl
  have dialect : root.dialect = root'.dialect := by
    obtain ⟨_, _, _, -, -, -, -, rfl⟩ := reordered
    rfl
  let sources := of library working root
  let sources' := of library working root'
  -- Only the root is in another order, and it is the one document that needs no conversion.
  by_cases here : reference.location = sources.root.location
  · have here' : reference.location = sources'.root.location := here.trans location
    rw [schemaAt_root text here, schemaAt_root text here']
    exact (shuffled.walk text _).mapError _
  · have here' : reference.location ≠ sources'.root.location := fun same =>
      here (same.trans location.symm)
    have document : sources.documentAt reference.location =
        sources'.documentAt reference.location := by
      rw [documentAt, documentAt, if_neg here, if_neg here']
      rfl
    have spoken : sources.dialectAt reference.location =
        sources'.dialectAt reference.location := by
      rw [dialectAt, dialectAt, if_neg here, if_neg here', document,
        show sources.root.dialect = sources'.root.dialect from dialect]
    have same : sources.schemaAt text reference = sources'.schemaAt text reference := by
      rw [schemaAt, schemaAt, targetAt, targetAt, document, spoken]
    show ShuffledResult (sources.schemaAt text reference) (sources'.schemaAt text reference)
    rw [same]
    exact .refl _

theorem reads_iff_of_reordered {outlined : Node} {asked : List String} :
    (of library working root).Reads reference outlined asked ↔
      (of library working root').Reads reference outlined asked := by
  have outlines {first second : Value} (shuffled : first.Shuffled second) :
      outline first = outline second := by
    rw [outline, outline, shuffled.read]
  simp only [Reads]
  refine exists_congr fun text => ?_
  have related := schemaAt_of_reordered library working reordered text reference
  generalize (of library working root).schemaAt text reference = first,
    (of library working root').schemaAt text reference = second at related ⊢
  cases related with
  | ok shuffled => simp [outlines shuffled]
  | error fault => simp

theorem fails_iff_of_reordered : (of library working root).Fails reference ↔
      (of library working root').Fails reference := by
  simp only [Fails]
  refine exists_congr fun text => ?_
  have related := schemaAt_of_reordered library working reordered text reference
  generalize (of library working root).schemaAt text reference = first,
    (of library working root').schemaAt text reference = second at related ⊢
  cases related with
  | ok shuffled => simp
  | error fault => simp

theorem reached_iff_of_reordered : (of library working root).Reached reference ↔
      (of library working root').Reached reference := by
  have refers : (of library working root).Refers =
      (of library working root').Refers := by
    funext first second
    simp only [Refers, reads_iff_of_reordered library working reordered]
    rfl
  simp only [Reached, refers, component_iff_of_reordered library working reordered]

end

/-- Two sources in which the same is reached, and ends alike. -/
structure Alike (first second : Sources) : Prop where
  working : first.working = second.working
  reads : ∀ reference outlined asked,
    first.Reads reference outlined asked ↔ second.Reads reference outlined asked
  fails : ∀ reference, first.Fails reference ↔ second.Fails reference
  reached : ∀ reference, first.Reached reference ↔ second.Reached reference

theorem Alike.symm {first second : Sources} (alike : first.Alike second) : second.Alike first where
  working := alike.working.symm
  reads reference outlined asked := (alike.reads reference outlined asked).symm
  fails reference := (alike.fails reference).symm
  reached reference := (alike.reached reference).symm

theorem Alike.unambiguous {first second : Sources} (alike : first.Alike second)
    (clear : first.Unambiguous) : second.Unambiguous :=
  fun reference other reached reached' =>
    clear reference other ((alike.reached _).mpr reached) ((alike.reached _).mpr reached')

/-- The order of the components makes no difference to what is reached. -/
theorem alike_of_reordered (reordered : root.Reordered root') :
    (of library working root).Alike (of library working root') where
  working := rfl
  reads _ _ _ := reads_iff_of_reordered library working reordered
  fails _ := fails_iff_of_reordered library working reordered
  reached _ := reached_iff_of_reordered library working reordered

variable {library working}

theorem Reached.unmarked (reached : (of library working root).Reached reference)
    (unmarked : Text.Unmarked root.location) (here : ∀ name ∈ working, Text.Unmarked name) :
    Text.Unmarked reference.location := by
  obtain ⟨component, ⟨_, -, _, -, _, -, named⟩, path⟩ := reached
  have start := Reference.unmarked_ofText here unmarked named
  induction path with
  | refl => exact start
  | tail _ refers ih =>
    obtain ⟨_, _, _, _, _, named⟩ := refers
    exact Reference.unmarked_ofText here ih named

/-- No two references have one key if there is no mark in the location of the root and in the
working directory. -/
theorem unambiguous_of_unmarked (unmarked : Text.Unmarked root.location)
    (here : ∀ name ∈ working, Text.Unmarked name) :
    (of library working root).Unambiguous :=
  fun _ _ reached reached' =>
    Reference.eq_of_key_eq (reached.unmarked unmarked here) (reached'.unmarked unmarked here)

end Sources

/-! ## Registered schemas apart from their wording -/

/-- How far a schema is, without the wording of a failure and the marks of forward references. -/
def Standing.bare : Standing → Standing
  | .pending => .pending
  | .done node => .done (node.redirect id)
  | .failed _ => .failed ""

/-- A registered schema without the wording of a failure and the marks of forward references. -/
def Registration.bare (entry : Registration) : Registration :=
  { entry with standing := entry.standing.bare }

theorem Registration.dependencies_bare (entry : Registration) :
    entry.bare.dependencies = entry.dependencies := by
  obtain ⟨key, location, proposed, standing⟩ := entry
  cases standing with
  | done node =>
    simp [bare, Standing.bare, dependencies, Standing.node?, Node.targets, Node.mentions_redirect]
  | pending => rfl
  | failed message => rfl

theorem Registration.isFailed_bare (entry : Registration) :
    entry.bare.standing.isFailed = entry.standing.isFailed := by
  obtain ⟨key, location, proposed, standing⟩ := entry
  cases standing <;> rfl

theorem Registration.key_bare (entry : Registration) : entry.bare.key = entry.key :=
  rfl

namespace Registry

/-- Each of some registered schemas is among others, apart from wording and marks. -/
def Covers (first second : List Registration) : Prop :=
  ∀ entry ∈ second, ∃ entry' ∈ first, entry'.bare = entry.bare

variable {first second : List Registration}

theorem Covers.reachesFailure (covers : Covers first second) {key : String}
    (reaches : ReachesFailure second key) : ReachesFailure first key := by
  obtain ⟨failed, ⟨entry, member, rfl, failing⟩, path⟩ := reaches
  obtain ⟨entry', member', same⟩ := covers entry member
  refine ⟨entry.key, ⟨entry', member', ?_, ?_⟩, path.lift id ?_⟩
  · rw [← entry'.key_bare, same, entry.key_bare]
  · rw [← entry'.isFailed_bare, same, entry.isFailed_bare]
    exact failing
  · rintro name target ⟨other, listed, rfl, mentioned⟩
    obtain ⟨other', listed', alike⟩ := covers other listed
    refine ⟨other', listed', ?_, ?_⟩
    · show other'.key = other.key
      rw [← other'.key_bare, alike, other.key_bare]
    · rw [← other'.dependencies_bare, alike, other.dependencies_bare]
      exact mentioned

theorem Covers.done (covers : Covers first second) {key : String} (done : Done second key) :
    Done first key := by
  obtain ⟨entry, member, rfl, node, ended⟩ := done
  obtain ⟨entry', member', same⟩ := covers entry member
  have standing := congrArg Registration.standing same
  simp only [Registration.bare, ended, Standing.bare] at standing
  refine ⟨entry', member', ?_, ?_⟩
  · rw [← entry'.key_bare, same, entry.key_bare]
  · cases found : entry'.standing with
    | done node' => exact ⟨node', rfl⟩
    | pending => simp [found] at standing
    | failed message => simp [found] at standing

theorem perm_of_covers (distinct : (keys first).Nodup) (distinct' : (keys second).Nodup)
    (covers : Covers first second) (covers' : Covers second first) :
    (first.map Registration.bare).Perm (second.map Registration.bare) := by
  have bare {entries : List Registration} (distinct : (keys entries).Nodup) :
      (entries.map Registration.bare).Nodup := by
    refine List.Nodup.of_map Registration.key ?_
    rw [List.map_map]
    exact distinct
  refine (List.perm_ext_iff_of_nodup (bare distinct) (bare distinct')).mpr fun entry => ?_
  simp only [List.mem_map]
  constructor
  · rintro ⟨old, member, rfl⟩
    exact covers' old member
  · rintro ⟨old, member, rfl⟩
    exact covers old member

end Registry

/-! ## Two runs -/

/-- Two schemas that were recorded for one reference are alike. -/
theorem Sources.Alike.bare_eq {entries entries' : List Registration} {reference : Reference}
    {entry entry' : Registration} (alike : sources.Alike sources')
    (records : sources.Records entries reference entry)
    (records' : sources'.Records entries' reference entry') : entry.bare = entry'.bare := by
  have proposed : entry.proposed = entry'.proposed :=
    Except.ok.inj (records.proposed.symm.trans records'.proposed)
  have standing : entry.standing.bare = entry'.standing.bare := by
    rcases records.standing with ⟨node, outlined, asked, done, known, same, -⟩ |
      ⟨message, failed, failing⟩ <;>
    rcases records'.standing with ⟨node', outlined', asked', done', known', same', -⟩ |
      ⟨message', failed', failing'⟩
    · obtain ⟨rfl, -⟩ := known'.unique ((alike.reads _ _ _).mp known)
      have keys : sources.keyAt reference.location = sources'.keyAt reference.location := by
        funext text
        rw [Sources.keyAt, Sources.keyAt, alike.working]
      rw [done, done', Standing.bare, Standing.bare, same, same', keys]
    · exact absurd failing' ((alike.reads _ _ _).mp known).not_fails
    · exact absurd ((alike.fails _).mp failing) known'.not_fails
    · rw [failed, failed', Standing.bare, Standing.bare]
  simp only [Registration.bare, records.key, records'.key, records.location, records'.location,
    proposed, standing]

namespace Resolving

variable {library : Library} {working : List String} {root root' : NormalDocument}

theorem Charted.covers {names names' : List Value} {later later' : Findings}
    (charted : Charted sources names later) (listed : sources.componentNames = .ok names)
    (clear : sources.Unambiguous) (charted' : Charted sources' names' later')
    (alike : sources.Alike sources') : Registry.Covers later.entries later'.entries := by
  intro entry' member'
  obtain ⟨reference, reached, records'⟩ := charted'.recorded entry' member'
  obtain ⟨entry, member, records⟩ := charted.record listed clear ((alike.reached _).mpr reached)
  exact ⟨entry, member, alike.bare_eq records records'⟩

theorem sound_of_components {later : Findings}
    (ran : (components sources).start (start sources) = (.ok (), later)) : later.Sound sources := by
  have kept := components_keeps (start sources) (Sound.start sources) trivial
  rw [ran] at kept
  exact (kept.ok () rfl).1.2 (Sound.start sources)

def pairDocument (location : String) (first second : String × String) : NormalDocument where
  location := location
  dialect := .v31
  root := [(.str "components", .map [(.str "schemas",
    .map [(.str first.1, .map [(.str "$ref", .str first.2)]),
      (.str second.1, .map [(.str "$ref", .str second.2)])])])]

theorem pairDocument_reordered (location : String) {first second : String × String}
    (apart : first.1 ≠ second.1) :
    (pairDocument location first second).Reordered (pairDocument location second first) :=
  ⟨_, _, _, rfl, rfl, by simpa [keys] using apart, List.Perm.swap _ _ _, rfl⟩

def aloneSources (root : NormalDocument) : Sources :=
  of { documents := [] } [] root

/-- Sources with a mark in the location of the root, and a document whose keys look like those of
the root. -/
def markedSources (first second : String × String) : Sources :=
  of
    { documents := [("/r", .ok (.map [(.str "s#x", .map [(.str "$ref", .str "#x")])]))] } []
    (pairDocument "/r#s" first second)

/-! ## The order of the components -/

/--
When the components are resolved, the registered keys are those of the references that are
reached.  With the schemas of the components in another order the same schemas are registered, each
of them ends alike, and the same ones are skipped.  Only the order, the marks of forward references
and the wording of failures may differ.
-/
theorem components_order_free (reordered : root.Reordered root')
    (clear : (Sources.of library working root).Unambiguous) {later later' : Findings}
    (ran : (components (Sources.of library working root)).start
      (Findings.start (Sources.of library working root)) = (.ok (), later))
    (ran' : (components (Sources.of library working root')).start
      (Findings.start (Sources.of library working root')) = (.ok (), later')) :
    (∀ key, key ∈ Registry.keys later.entries ↔
      ∃ reference, (Sources.of library working root).Reached reference ∧ reference.key = key) ∧
    (later.entries.map Registration.bare).Perm (later'.entries.map Registration.bare) ∧
    later.completion.Perm later'.completion ∧
    ∃ registry registry' final final',
      (finish (Sources.of library working root)).start later = (.ok registry, final) ∧
      (finish (Sources.of library working root')).start later' = (.ok registry', final') ∧
      ∀ key, key ∈ registry.skipped ↔ key ∈ registry'.skipped := by
  have alike := Sources.alike_of_reordered library working reordered
  obtain ⟨names, listed, charted⟩ := charted_components (Nat.le_refl _) ran
  obtain ⟨names', listed', charted'⟩ := charted_components (Nat.le_refl _) ran'
  have covers := charted.covers listed clear charted' alike
  have covers' := charted'.covers listed' (alike.unambiguous clear) charted alike.symm
  have sound := sound_of_components ran
  have sound' := sound_of_components ran'
  refine ⟨fun key => charted.mem_keys_iff listed clear,
    Registry.perm_of_covers sound.distinct sound'.distinct covers covers', ?_,
    _, _, _, _, start_finish _ later, start_finish _ later', fun key => ?_⟩
  · refine (List.perm_ext_iff_of_nodup sound.once sound'.once).mpr fun key => ?_
    rw [sound.completed, sound'.completed]
    exact ⟨covers'.done, covers.done⟩
  · rw [Registry.mem_skipped_iff, Registry.mem_skipped_iff]
    exact ⟨covers'.reachesFailure, covers.reachesFailure⟩

theorem components_order_free_of_quoting :
    let root := pairDocument "/a" ("A", "#x") ("B", "a#x")
    let root' := pairDocument "/a" ("B", "a#x") ("A", "#x")
    root.Reordered root' ∧ (aloneSources root).Unambiguous ∧ ∃ later later',
      (components (aloneSources root)).start (Findings.start (aloneSources root)) =
        (.ok (), later) ∧
      (components (aloneSources root')).start (Findings.start (aloneSources root')) =
        (.ok (), later') ∧
      Registry.keys later.entries =
        ["/a#/components/schemas/A", "/a#x", "/a#/components/schemas/B"] ∧
      Registry.keys later'.entries =
        ["/a#/components/schemas/B", "/a#x", "/a#/components/schemas/A"] ∧
      (aloneSources root).Reached { location := "/a", pointer := "x" } ∧
      (later.entries.map Registration.bare).Perm (later'.entries.map Registration.bare) ∧
      ∃ registry registry' final final',
        (finish (aloneSources root)).start later = (.ok registry, final) ∧
        (finish (aloneSources root')).start later' = (.ok registry', final') ∧
        ∀ key, key ∈ registry.skipped ↔ key ∈ registry'.skipped := by
  intro root root'
  have ran : (components (aloneSources root)).start (Findings.start (aloneSources root)) =
      (.ok (), _) := Run.start_of_fst (by decide +kernel)
  have ran' : (components (aloneSources root')).start (Findings.start (aloneSources root')) =
      (.ok (), _) := Run.start_of_fst (by decide +kernel)
  have reordered : root.Reordered root' := pairDocument_reordered "/a" (by decide)
  have clear : (aloneSources root).Unambiguous :=
    Sources.unambiguous_of_unmarked (by decide) (by simp)
  obtain ⟨reached, same, -, skipped⟩ := components_order_free reordered clear ran ran'
  have keys : Registry.keys
      ((components (aloneSources root)).start (Findings.start (aloneSources root))).2.entries =
        ["/a#/components/schemas/A", "/a#x", "/a#/components/schemas/B"] := by
    decide +kernel
  obtain ⟨reference, known, spelled⟩ := (reached "/a#x").mp (by rw [keys]; decide)
  obtain rfl : reference = ⟨"/a", "x"⟩ :=
    Reference.eq_of_key_eq (known.unmarked (by decide) (by simp)) (by decide) spelled
  exact ⟨reordered, clear, _, _, ran, ran', keys, by decide +kernel, known, same, skipped⟩

/-- The wording of a failure depends on the order, and with a mark in the location of the root even
the registered keys do. -/
theorem components_order_shows :
    (∃ later later', (pairDocument "/a" ("A", "#x") ("B", "a#x")).Reordered
        (pairDocument "/a" ("B", "a#x") ("A", "#x")) ∧
      (components (aloneSources (pairDocument "/a" ("A", "#x") ("B", "a#x")))).start
        (Findings.start (aloneSources (pairDocument "/a" ("A", "#x") ("B", "a#x")))) =
          (.ok (), later) ∧
      (components (aloneSources (pairDocument "/a" ("B", "a#x") ("A", "#x")))).start
        (Findings.start (aloneSources (pairDocument "/a" ("B", "a#x") ("A", "#x")))) =
          (.ok (), later') ∧
      ∃ message message', message ≠ message' ∧
        (Registry.find? later.entries "/a#x").map (·.standing) = some (.failed message) ∧
        (Registry.find? later'.entries "/a#x").map (·.standing) = some (.failed message')) ∧
    ∃ later later', (pairDocument "/r#s" ("A", "#x") ("B", "/r#s%23x")).Reordered
        (pairDocument "/r#s" ("B", "/r#s%23x") ("A", "#x")) ∧
      (components (markedSources ("A", "#x") ("B", "/r#s%23x"))).start
        (Findings.start (markedSources ("A", "#x") ("B", "/r#s%23x"))) = (.ok (), later) ∧
      (components (markedSources ("B", "/r#s%23x") ("A", "#x"))).start
        (Findings.start (markedSources ("B", "/r#s%23x") ("A", "#x"))) = (.ok (), later') ∧
      "/r#x" ∉ Registry.keys later.entries ∧ "/r#x" ∈ Registry.keys later'.entries := by
  constructor
  · exact ⟨_, _, pairDocument_reordered "/a" (by decide), Run.start_of_fst (by decide +kernel),
      Run.start_of_fst (by decide +kernel), (ResolutionFault.missingKey "#x" "x").message,
      (ResolutionFault.missingKey "a#x" "x").message, by decide +kernel, by decide +kernel,
      by decide +kernel⟩
  · exact ⟨_, _, pairDocument_reordered "/r#s" (by decide), Run.start_of_fst (by decide +kernel),
      Run.start_of_fst (by decide +kernel), by decide +kernel, by decide +kernel⟩

end Resolving

end Bindery
