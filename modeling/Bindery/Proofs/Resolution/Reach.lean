import Mathlib.Logic.Relation
import Bindery.Proofs.Resolution.Provision
import Bindery.Proofs.Resolution.Termination
import Bindery.Proofs.Schema.Outline

/-!
# What a run reaches

Which schemas a run registers, and how each of them ends, can be told from the
sources alone.  A reference is read if its schema can be found, and then it
refers to what the outline of the schema asks for.  A run that resolves all
components registers what is reached from them in this way.

The argument follows one reference: everything that is registered while it is
resolved is reached from it, and ends as the sources say.  Resolving is nested,
so this is shown by induction on the depth.
-/

namespace Bindery

open Relation Registry Reference Schema Pointer Location List Run Findings

namespace Sources

variable (sources : Sources)

/-- The key of a reference that stands in the document at a location. -/
def keyAt (base text : String) : String :=
  match ofText sources.working text base with
  | .ok reference => reference.key
  | .error _ => ""

/-- A reference leads to a schema with a given outline, which asks for some texts. -/
def Reads (reference : Reference) (outlined : Node) (asked : List String) : Prop :=
  ∃ text schema, sources.schemaAt text reference = .ok schema ∧
    outline schema = (.ok outlined, asked)

/-- The schema that a reference leads to cannot be found. -/
def Fails (reference : Reference) : Prop :=
  ∃ text cause, sources.schemaAt text reference = .error (.resolution cause)

/-- One reference stands in the schema that another one leads to. -/
def Refers (reference next : Reference) : Prop :=
  ∃ outlined asked, sources.Reads reference outlined asked ∧
    ∃ text ∈ asked, ofText sources.working text reference.location = .ok next

def componentNames : Except Fault (List Value) := do
  let components ← sources.root.components.needEntries
  Value.itemsOrNone (components.present? "schemas")

def Component (reference : Reference) : Prop :=
  ∃ names, sources.componentNames = .ok names ∧ ∃ name ∈ names, ∃ text,
    Resolving.schemaName name = .ok text ∧
      ofText sources.working ("#/components/schemas/" ++ escape text)
        sources.root.location = .ok reference

/-- A reference is reached from the components along the references of schemas that are read. -/
def Reached (reference : Reference) : Prop :=
  ∃ component, sources.Component component ∧ ReflTransGen sources.Refers component reference

/-- A schema of the registry is the one a reference leads to, and has ended as the sources say. -/
structure Records (entries : List Registration) (reference : Reference) (entry : Registration) :
    Prop where
  key : entry.key = reference.key
  location : entry.location = reference.location
  proposed : proposedName reference.location reference.pointer = .ok entry.proposed
  standing :
    (∃ node outlined asked, entry.standing = .done node ∧
      sources.Reads reference outlined asked ∧
      node.redirect id = (Resolving.unalias outlined).redirect (sources.keyAt reference.location) ∧
      ∀ text ∈ asked, ∃ next, ofText sources.working text reference.location = .ok next ∧
        next.key ∈ keys entries) ∨
    ∃ message, entry.standing = .failed message ∧ sources.Fails reference

end Sources

namespace Sources.Records

variable {sources : Sources} {entries more : List Registration} {reference : Reference}
  {entry : Registration}

theorem mono (records : sources.Records entries reference entry)
    (kept : keys entries ⊆ keys more) :
    sources.Records more reference entry where
  key := records.key
  location := records.location
  proposed := records.proposed
  standing := by
    rcases records.standing with ⟨node, outlined, asked, done, reads, same, registered⟩ | failed
    · refine .inl ⟨node, outlined, asked, done, reads, same, fun text member => ?_⟩
      obtain ⟨next, named, known⟩ := registered text member
      exact ⟨next, named, kept known⟩
    · exact .inr failed

theorem settled (records : sources.Records entries reference entry) :
    entry.standing.isPending = false := by
  rcases records.standing with ⟨node, _, _, done, _⟩ | ⟨message, failed, _⟩
  · simp [done, Standing.isPending]
  · simp [failed, Standing.isPending]

end Sources.Records

/-- A registered schema that is being read. -/
def Registry.Pending (entries : List Registration) (key : String) : Prop :=
  ∃ entry ∈ entries, entry.key = key ∧ entry.standing.isPending = true

namespace Sources

variable (sources : Sources)

/-- One reference stands in the schema that another one leads to, which has ended. -/
def Links (entries : List Registration) (reference next : Reference) : Prop :=
  (∃ entry ∈ entries, sources.Records entries reference entry) ∧ sources.Refers reference next

/-- A schema was registered between two points of a run, on the way from an origin.  What it has
forward references to was pending before or leads to it. -/
def Found (earlier later : List Registration) (origin : Reference) (entry : Registration) : Prop :=
  ∃ reference, ReflTransGen (sources.Links later) origin reference ∧
    sources.Records later reference entry ∧
    ∀ node, entry.standing = .done node → ∀ target, node.Defers target →
      Pending earlier target ∨ ∃ opened : Reference, opened.key = target ∧
        ReflTransGen (sources.Links later) opened reference

variable {sources}

/-- What was found is found on the way from an earlier origin, when more has ended. -/
theorem Found.extend {before earlier later more : List Registration} {first origin : Reference}
    {entry : Registration} (found : sources.Found earlier later origin entry)
    (kept : ∀ entry ∈ later, entry.standing.isPending = false → entry ∈ more)
    (keys : keys later ⊆ keys more)
    (path : ReflTransGen (sources.Links more) first origin)
    (pending : ∀ key, Pending earlier key → Pending before key ∨
      ∃ opened : Reference, opened.key = key ∧ ReflTransGen (sources.Links more) opened origin) :
    sources.Found before more first entry := by
  obtain ⟨reference, onward, records, closes⟩ := found
  have longer {reference next : Reference} (path : ReflTransGen (sources.Links later) reference next) :
      ReflTransGen (sources.Links more) reference next := by
    refine path.lift id ?_
    rintro _ _ ⟨⟨entry, member, records⟩, refers⟩
    exact ⟨⟨entry, kept entry member records.settled, records.mono keys⟩, refers⟩
  refine ⟨reference, path.trans (longer onward), records.mono keys, fun node done target defers => ?_⟩
  rcases closes node done target defers with waiting | ⟨opened, same, back⟩
  · refine (pending target waiting).imp_right ?_
    rintro ⟨opened, same, back⟩
    exact ⟨opened, same, back.trans (longer onward)⟩
  · exact .inr ⟨opened, same, longer back⟩

end Sources

namespace Resolving

variable {sources : Sources}

/-- Findings from which a run can go on: the cache agrees with the sources, and keys are
distinct. -/
structure Ready (sources : Sources) (findings : Findings) : Prop where
  agrees : findings.cache.Agrees sources
  distinct : (keys findings.entries).Nodup

/-- Between two points of a run exactly what is reached from an origin was registered. -/
structure Explores (sources : Sources) (origin : Reference) (earlier later : Findings) : Prop where
  kept : earlier.entries ⊆ later.entries
  added : ∀ entry ∈ later.entries, entry ∈ earlier.entries ∨
    sources.Found earlier.entries later.entries origin entry
  registered : origin.key ∈ keys later.entries

/-- A step resolves a reference: it does not end with a failed resolution, and if it returns, it
has registered what is reached from the reference.  A forward answer is one for a pending schema. -/
def Resolves (sources : Sources) (text base : String) (step : Resolving Target) : Prop :=
  ∀ findings, Ready sources findings →
    NoResolutionFault (step.start findings).1 ∧
      ∀ target later, step.start findings = (.ok target, later) →
        ∃ origin, ofText sources.working text base = .ok origin ∧
          target.key = origin.key ∧ Ready sources later ∧ Explores sources origin findings later ∧
          (target.forward = true → Pending findings.entries target.key)

theorem keys_subset {first second : List Registration} (kept : first ⊆ second) :
    keys first ⊆ keys second :=
  map_subset _ kept

/-! ## Reading an opened schema -/

/-- The state of reading a schema at a location, after some answers to texts that were asked for:
each text is registered, and everything new is found on the way from one of them.  A forward answer
is one for a schema that was pending before. -/
structure Surveys (sources : Sources) (location : String) (earlier : Findings)
    (answers : Answers) (later : Findings) (asked : List String) : Prop where
  ready : Ready sources later
  kept : earlier.entries ⊆ later.entries
  registered : ∀ text ∈ asked, ∃ next,
    ofText sources.working text location = .ok next ∧
      next.key ∈ keys later.entries
  added : ∀ entry ∈ later.entries, entry ∈ earlier.entries ∨ ∃ text ∈ asked, ∃ next,
    ofText sources.working text location = .ok next ∧
      sources.Found earlier.entries later.entries next entry
  agree : ∀ answer ∈ answers, answer.1.key = sources.keyAt location answer.2.key
  waiting : ∀ answer ∈ answers, answer.1.forward = true →
    Pending earlier.entries answer.1.key

variable {findings : Findings}

theorem Surveys.start {location : String} (ready : Ready sources findings) :
    Surveys sources location findings [] findings [] where
  ready := ready
  kept := Subset.refl _
  registered := by simp
  added _ member := .inl member
  agree := forall_mem_nil _
  waiting := forall_mem_nil _

variable {earlier later : Findings} {answers : Answers}

/-- What is pending while a schema is read was so before. -/
theorem Surveys.pending {location : String} {asked : List String}
    (surveys : Surveys sources location earlier answers later asked) {key : String}
    (waiting : Pending later.entries key) : Pending earlier.entries key := by
  obtain ⟨entry, member, same, pending⟩ := waiting
  rcases surveys.added entry member with old | ⟨_, _, _, _, _, _, records, _⟩
  · exact ⟨entry, old, same, pending⟩
  · rw [records.settled] at pending
    cases pending

theorem Surveys.resolve {location text : String} {middle : Findings} {asked : List String}
    {origin : Reference} {target : Target}
    (surveys : Surveys sources location earlier answers middle asked)
    (named : ofText sources.working text location = .ok origin)
    (same : target.key = origin.key) (ready : Ready sources later)
    (explores : Explores sources origin middle later)
    (waiting : target.forward = true → Pending middle.entries target.key) :
    Surveys sources location earlier (answers ++ [(target, { key := text, forward := false })])
      later (asked ++ [text]) where
  ready := ready
  kept := Subset.trans surveys.kept explores.kept
  registered := by
    intro other member
    rcases mem_append.mp member with old | new
    · obtain ⟨next, named', known⟩ := surveys.registered other old
      exact ⟨next, named', keys_subset explores.kept known⟩
    · rw [mem_singleton.mp new]
      exact ⟨origin, named, explores.registered⟩
  added := by
    intro entry member
    rcases explores.added entry member with old | found
    · rcases surveys.added entry old with oldest | ⟨other, asked', next, named', found⟩
      · exact .inl oldest
      · exact .inr ⟨other, mem_append_left _ asked', next, named', found.extend
          (fun _ member _ => explores.kept member) (keys_subset explores.kept) .refl
          fun _ => .inl⟩
    · exact .inr ⟨text, mem_append_right _ mem_cons_self, origin, named, found.extend
        (fun _ member _ => member) (Subset.refl _) .refl fun _ before =>
          .inl (surveys.pending before)⟩
  agree := by
    refine forall_mem_append.mpr ⟨surveys.agree, forall_mem_singleton.mpr ?_⟩
    rw [Sources.keyAt, named, same]
  waiting := by
    refine forall_mem_append.mpr ⟨surveys.waiting, forall_mem_singleton.mpr ?_⟩
    exact fun forward => surveys.pending (waiting forward)

variable {inner : String → String → Resolving Target}

/-- The surroundings of an opened schema are in step with those that note the references down. -/
theorem inStep_opened (resolves : ∀ text base, Resolves sources text base (inner text base))
    (location : String) (earlier : Findings) :
    InStep (Surveys sources location earlier)
      { resolve := fun text => inner text location, report := report } recorder where
  resolve text := by
    constructor
    · intro before findings asked target later surveys ran
      obtain ⟨origin, named, same, ready, explores, waiting⟩ :=
        (resolves text location findings surveys.ready).2 target later ran
      exact ⟨_, { key := text, forward := false }, asked ++ [text], rfl,
        surveys.resolve named same ready explores waiting, rfl⟩
    · intro before findings asked surveys
      exact (resolves text location findings surveys.ready).1
  report diagnostic diagnostic' := by
    constructor
    · intro before findings asked told later surveys ran
      rw [start_report] at ran
      cases ran
      refine ⟨[], (), asked, rfl, ?_, rfl⟩
      rw [append_nil]
      exact { surveys with ready := ⟨surveys.ready.agrees, surveys.ready.distinct⟩ }
    · intro before findings asked surveys
      rw [start_report]
      nofun

/-! ## Resolving a reference -/

theorem noResolution_join (working : List String) (base text : String) :
    NoResolutionFault (join working base text) := by
  unfold join
  split
  · rintro cause ⟨⟩
  · split
    · split <;> rintro cause ⟨⟩
    · split <;> rintro cause ⟨⟩

theorem noResolution_ofText (working : List String) (text base : String) :
    NoResolutionFault (ofText working text base) := by
  simp only [ofText]
  split
  · rintro cause ⟨⟩
  · exact NoFault.bind (noResolution_join working base _) fun _ => .ok _

theorem noResolution_proposedName (location pointer : String) :
    NoResolutionFault (proposedName location pointer) := by
  unfold proposedName
  split
  · rintro cause ⟨⟩
  · dsimp only
    split <;> rintro cause ⟨⟩

theorem redirect_unalias (change : String → String) (node : Node) :
    (unalias node).redirect change = unalias (node.redirect change) := by
  cases node with
  | reference note target forward => simp [unalias, Node.redirect, Node.redirectList]
  | _ => simp [unalias, Node.redirect]

theorem defers_of_unalias {node : Node} {target : String} (defers : (unalias node).Defers target) :
    node.Defers target := by
  cases node with
  | reference note key forward =>
    obtain ⟨child, member, inside⟩ := defers.of_child nofun
    rwa [mem_singleton.mp member] at inside
  | _ => exact defers

theorem start_arrive (sources : Sources) (text base : String) (findings : Findings) :
    (arrive sources text base).start findings =
      match ofText sources.working text base with
      | .error fault => (.error fault, findings)
      | .ok reference =>
        match find? findings.entries reference.key with
        | some entry =>
          (.ok (.known { key := reference.key, forward := entry.standing.isPending }), findings)
        | none =>
          match proposedName reference.location reference.pointer with
          | .error fault => (.error fault, findings)
          | .ok proposed =>
            (.ok (.opened { text, reference, proposed }),
              { findings with
                entries := findings.entries ++
                  [{ key := reference.key, location := reference.location, proposed }] }) := by
  unfold arrive
  rw [start_bind, start_ofExcept]
  cases ofText sources.working text base with
  | error fault => rfl
  | ok reference =>
    dsimp only
    rw [start_bind, start_get]
    dsimp only
    cases find? findings.entries reference.key with
    | some entry => rfl
    | none =>
      dsimp only
      rw [start_bind, start_ofExcept]
      cases proposedName reference.location reference.pointer with
      | error fault => rfl
      | ok proposed => rfl

def Opening.begin (opening : Opening) (findings : Findings) : Findings :=
  { findings with entries := findings.entries ++ [opening.registration .pending] }

variable {opening : Opening}

theorem Ready.begin (ready : Ready sources findings)
    (fresh : opening.reference.key ∉ Registry.keys findings.entries) :
    Ready sources (opening.begin findings) where
  agrees := ready.agrees
  distinct := by
    have apart : ∀ key ∈ Registry.keys findings.entries, key ≠ opening.reference.key := by
      rintro key member rfl
      exact fresh member
    simpa [Opening.begin, Opening.registration, Registry.keys, List.nodup_append] using
      And.intro ready.distinct (by simpa [Registry.keys] using apart)

/-- Settling an opened schema, after what it asks for was resolved. -/
theorem explores_settle {middle : Findings} {asked : List String} {standing : Standing}
    (fresh : opening.reference.key ∉ Registry.keys earlier.entries)
    (surveys : Surveys sources opening.reference.location (opening.begin earlier) answers middle
      asked)
    (refers : ∀ text ∈ asked, ∀ next, ofText sources.working text
      opening.reference.location = .ok next → sources.Refers opening.reference next)
    (records : sources.Records middle.entries opening.reference (opening.registration standing))
    (deferred : ∀ node, standing = .done node → ∀ target, node.Defers target →
      Registry.Pending (opening.begin earlier).entries target)
    (settled : later.entries = Registry.settle opening.reference.key standing middle.entries) :
    Explores sources opening.reference earlier later := by
  have keys : Registry.keys later.entries = Registry.keys middle.entries := by
    rw [settled, keys_settle]
  have pending : opening.registration .pending ∈ middle.entries :=
    surveys.kept (List.mem_append_right _ List.mem_cons_self)
  have old {entry : Registration} (member : entry ∈ earlier.entries) :
      entry.key ≠ opening.reference.key :=
    fun same => fresh (mem_keys.mpr ⟨entry, member, same⟩)
  have recorded : sources.Records later.entries opening.reference (opening.registration standing) :=
    records.mono (keys ▸ List.Subset.refl _)
  have ended : opening.registration standing ∈ later.entries := by
    rw [settled, mem_settle]
    exact .inr ⟨_, pending, rfl, rfl⟩
  -- Among what is pending while the schema is read, the schema itself is new.
  have waiting {key : String} (before : Registry.Pending (opening.begin earlier).entries key) :
      Registry.Pending earlier.entries key ∨ opening.reference.key = key := by
    obtain ⟨entry, member, same, waits⟩ := before
    rcases List.mem_append.mp member with oldest | opened
    · exact .inl ⟨entry, oldest, same, waits⟩
    · rw [List.mem_singleton.mp opened] at same
      exact .inr same
  refine ⟨?_, ?_, ?_⟩
  · intro entry member
    rw [settled, mem_settle]
    exact .inl ⟨surveys.kept (List.mem_append_left _ member), old member⟩
  · intro entry member
    rw [settled, mem_settle] at member
    rcases member with ⟨kept, other⟩ | ⟨former, kept, same, rfl⟩
    · rcases surveys.added entry kept with before | ⟨text, known, next, named, found⟩
      · rcases List.mem_append.mp before with oldest | opened
        · exact .inl oldest
        · exact absurd (congrArg Registration.key (List.mem_singleton.mp opened)) other
      · have link : ReflTransGen (sources.Links later.entries) opening.reference next :=
          .single ⟨⟨_, ended, recorded⟩, refers text known next named⟩
        refine .inr (found.extend (fun entry member standing => ?_) (keys ▸ List.Subset.refl _) link
          fun key before => (waiting before).imp_right fun same => ⟨_, same, link⟩)
        rw [settled, mem_settle]
        refine .inl ⟨member, fun same => ?_⟩
        rw [eq_of_key_eq surveys.ready.distinct member pending same] at standing
        cases standing
    · have opened : former = opening.registration .pending :=
        eq_of_key_eq surveys.ready.distinct kept pending same
      rw [opened]
      refine .inr ⟨opening.reference, .refl, recorded, fun node done target defers => ?_⟩
      exact (waiting (deferred node done target defers)).imp_right fun same => ⟨_, same, .refl⟩
  · rw [keys]
    exact mem_keys.mpr ⟨_, pending, rfl⟩

theorem Ready.settle (ready : Ready sources earlier) {key : String} {standing : Standing}
    (cache : later.cache = earlier.cache)
    (settled : later.entries = Registry.settle key standing earlier.entries) :
    Ready sources later where
  agrees := cache ▸ ready.agrees
  distinct := by
    rw [settled, keys_settle]
    exact ready.distinct

theorem readOpened_failed (inner : String → String → Resolving Target) {fault : Fault}
    (agrees : findings.cache.Agrees sources)
    (missing : sources.schemaAt opening.text opening.reference = .error fault) :
    ∃ cache : Cache, cache.Agrees sources ∧
      (readOpened sources inner opening).start findings =
        (.error fault, { findings with cache }) := by
  obtain ⟨cache, agrees', looked⟩ := openedSchema_looks opening findings agrees
  refine ⟨cache, agrees', ?_⟩
  rw [readOpened, start_bind, looked, missing]

/-- Reading an opened schema asks for what its outline does. -/
theorem readOpened_reads {schema : Value}
    (resolves : ∀ text base, Resolves sources text base (inner text base))
    (ready : Ready sources findings)
    (found : sources.schemaAt opening.text opening.reference = .ok schema) :
    NoResolutionFault ((readOpened sources inner opening).start findings).1 ∧
      ∀ node middle, (readOpened sources inner opening).start findings = (.ok node, middle) →
        ∃ outlined asked, Schema.outline schema = (.ok outlined, asked) ∧
          (∃ answers, Surveys sources opening.reference.location findings answers middle asked) ∧
          node.redirect id = outlined.redirect (sources.keyAt opening.reference.location) ∧
          ∀ target, node.Defers target → Registry.Pending findings.entries target := by
  obtain ⟨cache, agrees, looked⟩ := openedSchema_looks opening findings ready.agrees
  have tracks := Schema.tracks_read
    (inStep_opened resolves opening.reference.location { findings with cache }) schema
    (opening.place sources) ""
  have begun : Surveys sources opening.reference.location { findings with cache } []
      { findings with cache } [] :=
    Surveys.start ⟨agrees, ready.distinct⟩
  have onward : (readOpened sources inner opening).start findings =
      (Schema.read
        { resolve := fun text => inner text opening.reference.location, report := report }
        schema (opening.place sources)).start { findings with cache } := by
    rw [readOpened, Run.start_bind, looked, found]
  rw [onward]
  refine ⟨tracks.resolves begun, fun node middle ran => ?_⟩
  obtain ⟨answers, outlined, asked, outline, surveys, read, -⟩ := tracks.returns begun ran
  refine ⟨outlined, asked, outline, ⟨answers, { surveys with }⟩, read.alike id _ surveys.agree,
    fun target defers => ?_⟩
  obtain ⟨answer, given, rfl, forward⟩ := read.fits.deferred target defers
  exact surveys.waiting answer given forward

/-- A reference whose target is opened is resolved, if those in its target are. -/
theorem conclude_explores (opening : Opening)
    (resolves : ∀ text base, Resolves sources text base (inner text base))
    (ready : Ready sources findings)
    (fresh : opening.reference.key ∉ keys findings.entries)
    (proposed : proposedName opening.reference.location opening.reference.pointer = .ok
      opening.proposed) : let step : Resolving Target := do
      conclude sources opening (← attempt (readOpened sources inner opening))
    NoResolutionFault (step.start (opening.begin findings)).1 ∧
      ∀ target later, step.start (opening.begin findings) = (.ok target, later) →
        target = { key := opening.reference.key, forward := false } ∧ Ready sources later ∧
          Explores sources opening.reference findings later := by
  have begun := ready.begin fresh
  intro step
  have steps : step.start (opening.begin findings) = _ := start_bind _ _ _
  rw [steps, start_attempt]
  cases found : sources.schemaAt opening.text opening.reference with
  | error fault =>
    obtain ⟨cache, agrees, failed⟩ := readOpened_failed inner begun.agrees found
    rw [failed]
    cases fault with
    | resolution cause =>
      dsimp only
      rw [start_conclude_error]
      refine ⟨nofun, ?_⟩
      rintro target later ⟨⟩
      -- A schema that cannot be found asks for nothing, so only its own entry is new.
      have surveys : Surveys sources opening.reference.location (opening.begin findings) []
          { opening.begin findings with cache } [] :=
        { Surveys.start begun with ready := ⟨agrees, begun.distinct⟩ }
      refine ⟨rfl, Ready.settle surveys.ready rfl rfl, ?_⟩
      refine explores_settle fresh surveys (by simp) ⟨rfl, rfl, proposed, ?_⟩ (fun _ done => by cases done) rfl
      exact .inr ⟨cause.message, rfl, opening.text, cause, found⟩
    | _ => exact ⟨nofun, nofun⟩
  | ok schema =>
    obtain ⟨clear, reads⟩ := readOpened_reads resolves begun found
    rcases ended : (readOpened sources inner opening).start (opening.begin findings) with
      ⟨fault | node, middle⟩
    · rw [ended] at clear
      -- A failure to resolve a reference inside is recorded there and does not come out here.
      cases fault with
      | resolution cause => exact absurd rfl (clear cause)
      | _ => exact ⟨nofun, nofun⟩
    · obtain ⟨outlined, asked, outline, ⟨answers, surveys⟩, same, deferred⟩ :=
        reads node middle ended
      have known : sources.Reads opening.reference outlined asked :=
        ⟨opening.text, schema, found, outline⟩
      dsimp only
      rw [start_conclude_ok]
      refine ⟨nofun, ?_⟩
      rintro target later ⟨⟩
      refine ⟨rfl, Ready.settle surveys.ready rfl rfl, ?_⟩
      refine explores_settle fresh surveys ?_ ⟨rfl, rfl, proposed, ?_⟩ ?_ rfl
      · exact fun text member next named => ⟨outlined, asked, known, text, member, named⟩
      rotate_left
      · rintro _ ⟨⟩ target defers
        exact deferred target (defers_of_unalias defers)
      · refine .inl ⟨unalias node, outlined, asked, rfl, known, ?_, surveys.registered⟩
        rw [redirect_unalias, redirect_unalias, same]

/-- A reference is resolved, if those in its target are. -/
theorem visit_resolves (resolves : ∀ text base, Resolves sources text base (inner text base))
    (text base : String) : Resolves sources text base (visit sources inner text base) := by
  intro findings ready
  rw [visit_eq, start_bind, start_arrive]
  cases named : ofText sources.working text base with
  | error fault =>
    refine ⟨?_, nofun⟩
    rintro cause ⟨⟩
    exact noResolution_ofText _ _ _ cause named
  | ok reference =>
    dsimp only
    cases known : find? findings.entries reference.key with
    | some entry =>
      obtain ⟨member, same⟩ := find?_eq_some known
      refine ⟨nofun, ?_⟩
      rintro target later ⟨⟩
      exact ⟨reference, rfl, rfl, ready, ⟨Subset.refl _, fun _ member => .inl member,
        mem_keys.mpr ⟨entry, member, same⟩⟩, fun pending => ⟨entry, member, same,
          pending⟩⟩
    | none =>
      dsimp only
      cases proposed : proposedName reference.location reference.pointer with
      | error fault =>
        refine ⟨?_, nofun⟩
        rintro cause ⟨⟩
        exact noResolution_proposedName _ _ cause proposed
      | ok name =>
        obtain ⟨clear, returned⟩ := conclude_explores { text, reference, proposed := name }
          resolves ready (find?_eq_none.mp known) proposed
        refine ⟨clear, fun target later ran => ?_⟩
        obtain ⟨rfl, ready', explores⟩ := returned target later ran
        exact ⟨reference, rfl, rfl, ready', explores, nofun⟩

/-- References are resolved to any depth of nesting, if nothing is resolved beyond. -/
theorem nest_resolves (depth : Nat) (text base : String) :
    Resolves sources text base
      (nest (visit sources) (fun _ _ => throw (.shape .badValue)) depth text base) := by
  induction depth generalizing text base with
  | zero => exact fun _ _ => ⟨nofun, nofun⟩
  | succ depth ih => exact visit_resolves ih text base

/-! ## Resolving the components -/

/-- Some of the components were resolved: each schema is reached, and they are registered. -/
structure Charted (sources : Sources) (names : List Value) (findings : Findings) : Prop where
  ready : Ready sources findings
  recorded : ∀ entry ∈ findings.entries, ∃ reference, sources.Reached reference ∧
    sources.Records findings.entries reference entry
  registered : ∀ name ∈ names, ∃ text reference, schemaName name = .ok text ∧
    ofText sources.working ("#/components/schemas/" ++ escape text)
      sources.root.location = .ok reference ∧ reference.key ∈ keys findings.entries

theorem Charted.start (sources : Sources) : Charted sources [] (Findings.start sources) where
  ready := ⟨Cache.Agrees.start sources, List.nodup_nil⟩
  recorded := by simp [Findings.start]
  registered := by simp

theorem Charted.explore {names : List Value} {name : Value} {text : String} {origin : Reference}
    (charted : Charted sources names findings) (component : sources.Component origin)
    (spelled : schemaName name = .ok text)
    (named : ofText sources.working ("#/components/schemas/" ++ escape text)
      sources.root.location = .ok origin) (ready : Ready sources later)
    (explores : Explores sources origin findings later) :
    Charted sources (names ++ [name]) later where
  ready := ready
  recorded := by
    intro entry member
    rcases explores.added entry member with old | ⟨reference, path, records, -⟩
    · obtain ⟨reference, reached, records⟩ := charted.recorded entry old
      exact ⟨reference, reached, records.mono (keys_subset explores.kept)⟩
    · exact ⟨reference, ⟨origin, component, path.lift id fun _ _ link => link.2⟩, records⟩
  registered := by
    intro other member
    rcases mem_append.mp member with old | new
    · obtain ⟨text', reference, spelled', named', known⟩ := charted.registered other old
      exact ⟨text', reference, spelled', named', keys_subset explores.kept known⟩
    · rw [mem_singleton.mp new]
      exact ⟨text, origin, spelled, named, explores.registered⟩

section

variable {resolve : String → Resolving Target}
  (resolves : ∀ text, Resolves sources text sources.root.location (resolve text))

include resolves

theorem charted_forM {names : List Value} (known : sources.componentNames = .ok names)
    {before after : List Value} (whole : names = before ++ after)
    (charted : Charted sources before findings) (ran : (after.forM fun name => do
      let name ← ofExcept (schemaName name)
      let _ ← resolve ("#/components/schemas/" ++ escape name)).start findings =
        (.ok (), later)) : Charted sources names later := by
  induction after generalizing before findings with
  | nil =>
    cases ran
    rw [whole, append_nil]
    exact charted
  | cons name rest ih =>
    obtain ⟨_, middle, here, onward⟩ := start_bind_ok ran
    obtain ⟨text, _, spelling, visiting⟩ := start_bind_ok here
    obtain ⟨spelled, rfl⟩ := Prod.mk.inj spelling
    obtain ⟨target, _, visited, ended⟩ := start_bind_ok visiting
    obtain ⟨-, rfl⟩ := Prod.mk.inj ended
    obtain ⟨origin, named, -, ready, explores, -⟩ :=
      (resolves _ findings charted.ready).2 target _ visited
    have component : sources.Component origin :=
      ⟨names, known, name, whole ▸ mem_append_right _ mem_cons_self, text, spelled,
        named⟩
    exact ih (by rw [whole, append_assoc]; rfl)
      (charted.explore component spelled named ready explores) onward

theorem charted_componentsBy
    (ran : (componentsBy sources resolve).start (start sources) = (.ok (), later)) :
    ∃ names, sources.componentNames = .ok names ∧ Charted sources names later := by
  obtain ⟨components, _, opened, ran⟩ := start_bind_ok ran
  obtain ⟨found, rfl⟩ := Prod.mk.inj opened
  obtain ⟨names, _, listed, ran⟩ := start_bind_ok ran
  obtain ⟨named, rfl⟩ := Prod.mk.inj listed
  have known : sources.componentNames = .ok names := by
    rw [Sources.componentNames, found]
    exact named
  exact ⟨names, known, charted_forM resolves known rfl (Charted.start sources) ran⟩

end

/-- When the components are resolved, they are registered, and everything registered is reached. -/
theorem charted_components (ample : nestingBound sources + 2 ≤ sources.bound)
    (ran : (components sources).start (start sources) = (.ok (), later)) :
    ∃ names, sources.componentNames = .ok names ∧ Charted sources names later := by
  refine charted_componentsBy (fun text => nest_resolves sources.bound text _) ?_
  -- The depth is never exhausted, so what would be done beyond it does not matter.
  have sound : (course sources).sound ((start sources, []) : Log).1 :=
    Sound.start sources
  rw [← ran]
  exact (componentsLogged_mirrors ample (Nat.le_refl _)).start_eq
    (componentsLogged_mirrors ample (Nat.le_refl _)) sound trivial

end Resolving

/-! ## How a reference is written -/

theorem Pointer.walk_eq_ok {text : String} {value part : Value} {segments : List String}
    (found : walk text value segments = .ok part) (text' : String) :
    walk text' value segments = .ok part := by
  induction segments generalizing value with
  | nil => exact found
  | cons segment rest ih =>
    have taken : ∀ next, step text value segment = .ok next →
        step text' value segment = .ok next := by
      intro next here
      unfold step at here ⊢
      split at here
      next =>
        split at here <;> simp_all
      next =>
        split at here <;> simp_all
      next => cases here
    rw [walk] at found ⊢
    cases here : step text value segment with
    | error cause => simp [here] at found
    | ok next =>
      rw [here] at found
      rw [taken next here]
      exact ih found

namespace Sources

variable {sources : Sources} {reference : Reference}

/-- What a reference leads to does not depend on how the reference is written. -/
theorem targetAt_of_resolve {text : String} {document value : Value}
    (provided : sources.documentAt reference.location = .ok document)
    (found : resolve text document reference.pointer = .ok value) (text' : String) :
    sources.targetAt text' reference = .ok value := by
  have again : resolve text' document reference.pointer = .ok value :=
    walk_eq_ok found text'
  rw [targetAt, provided]
  simp only [bind, Except.bind, again]

theorem targetAt_eq_ok {text : String} {value : Value}
    (found : sources.targetAt text reference = .ok value) (text' : String) :
    sources.targetAt text' reference = .ok value := by
  obtain ⟨document, provided, walked⟩ := resolve_of_targetAt found
  exact targetAt_of_resolve provided walked text'

theorem schemaAt_eq_ok {text : String} {schema : Value}
    (found : sources.schemaAt text reference = .ok schema) (text' : String) :
    sources.schemaAt text' reference = .ok schema := by
  obtain ⟨value, targeted, rest⟩ := ok_of_bind found
  rw [schemaAt, targetAt_eq_ok targeted text']
  exact rest

theorem Reads.unique {outlined outlined' : Node} {asked asked' : List String}
    (reads : sources.Reads reference outlined asked)
    (reads' : sources.Reads reference outlined' asked') :
    outlined = outlined' ∧ asked = asked' := by
  obtain ⟨text, schema, found, outline⟩ := reads
  obtain ⟨text', schema', found', outline'⟩ := reads'
  obtain rfl : schema = schema' := by
    have again := schemaAt_eq_ok found text'
    rw [found'] at again
    exact (Except.ok.inj again).symm
  rw [outline] at outline'
  cases outline'
  exact ⟨rfl, rfl⟩

theorem Reads.not_fails {outlined : Node} {asked : List String}
    (reads : sources.Reads reference outlined asked) : ¬sources.Fails reference := by
  rintro ⟨text, cause, failed⟩
  obtain ⟨_, schema, found, _⟩ := reads
  rw [schemaAt_eq_ok found text] at failed
  cases failed

/-- No two references that are reached have one key. -/
def Unambiguous (sources : Sources) : Prop :=
  ∀ first second, sources.Reached first → sources.Reached second → first.key = second.key →
    first = second

end Sources

namespace Resolving

variable {sources : Sources}

variable {names : List Value} {findings : Findings} (charted : Charted sources names findings)
  (listed : sources.componentNames = .ok names) (clear : sources.Unambiguous)

include charted listed clear

/-- When the components are resolved, the schema of each reference that is reached is
registered. -/
theorem Charted.record {reference : Reference} (reached : sources.Reached reference) :
    ∃ entry ∈ findings.entries, sources.Records findings.entries reference entry := by
  have recorded {reference : Reference} (reached : sources.Reached reference)
      (known : reference.key ∈ keys findings.entries) :
      ∃ entry ∈ findings.entries, sources.Records findings.entries reference entry := by
    obtain ⟨entry, member, same⟩ := mem_keys.mp known
    obtain ⟨origin, reached', records⟩ := charted.recorded entry member
    obtain rfl := clear origin reference reached' reached (records.key.symm.trans same)
    exact ⟨entry, member, records⟩
  obtain ⟨component, ⟨names', listed', name, member, text, spelled, named⟩, path⟩ := reached
  have start : sources.Component component := ⟨names', listed', name, member, text, spelled, named⟩
  induction path with
  | refl =>
    rw [listed] at listed'
    cases listed'
    obtain ⟨text', reference, spelled', named', known⟩ := charted.registered name member
    rw [spelled] at spelled'
    cases spelled'
    rw [named] at named'
    cases named'
    exact recorded ⟨component, start, .refl⟩ known
  | @tail middle next path refers ih =>
    obtain ⟨entry, kept, records⟩ := ih
    obtain ⟨outlined, asked, reads, text, wanted, named⟩ := refers
    rcases records.standing with ⟨node, outlined', asked', -, reads', -, registered⟩ |
      ⟨message, -, fails⟩
    · obtain ⟨rfl, rfl⟩ := reads.unique reads'
      obtain ⟨next', named', known⟩ := registered text wanted
      rw [named] at named'
      cases named'
      exact recorded ⟨component, start, path.tail ⟨outlined, asked, reads, text, wanted, named⟩⟩
        known
    · exact absurd fails reads.not_fails

theorem Charted.mem_keys_iff {key : String} : key ∈ keys findings.entries ↔
      ∃ reference, sources.Reached reference ∧ reference.key = key := by
  constructor
  · intro known
    obtain ⟨entry, member, rfl⟩ := mem_keys.mp known
    obtain ⟨reference, reached, records⟩ := charted.recorded entry member
    exact ⟨reference, reached, records.key.symm⟩
  · rintro ⟨reference, reached, rfl⟩
    obtain ⟨entry, member, records⟩ := charted.record listed clear reached
    exact mem_keys.mpr ⟨entry, member, records.key⟩

end Resolving

end Bindery
