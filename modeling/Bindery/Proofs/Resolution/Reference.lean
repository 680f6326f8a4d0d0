import Bindery.Proofs.Resolution.Findings
import Bindery.Proofs.Value.Entries

/-!
# Resolving keeps the findings sound

Each way to use the resolver keeps to one course: the findings grow and stay
sound.  The argument for a reference is by induction on the depth of nesting.
While a schema is read it is pending, and everything that is resolved in the
meantime is settled; so when the reading is over, the targets it was told to be
finished are settled, and it can be finished after them.
-/

namespace Bindery

open Course Registry Cache Run Pointer Reference Schema

namespace Cache

variable {sources : Sources} {cache : Cache}

theorem Faithful.add (faithful : cache.Faithful sources) {location : String} {document : Value}
    (provided : sources.Provides location document) :
    sources.Provides location (cache.add location document).1 ∧
      (cache.add location document).2.Faithful sources := by
  unfold Cache.add
  split
  next kept found => exact ⟨faithful location kept (mem_of_lookup found), faithful⟩
  next =>
    refine ⟨provided, fun other value member => ?_⟩
    rcases List.mem_append.mp member with old | new
    · exact faithful other value old
    · cases List.mem_singleton.mp new
      exact provided

theorem lookup_of_known? {location : String} {document : Value}
    (known : cache.known? location = some (.ok document)) :
    cache.documents.lookup location = some document := by
  unfold known? at known
  split at known
  next found =>
    cases known
    exact (Option.filter_eq_some_iff.mp found).1
  next => simp at known

theorem documents_addFailure (cache : Cache) (location : String) (failure : ResolutionFault) :
    (cache.addFailure location failure).2.documents = cache.documents := by
  unfold addFailure
  split <;> rfl

variable (faithful : cache.Faithful sources)

include faithful

theorem Faithful.fetch (location : String) :
    (∀ document, (cache.fetch sources.library location).1 = .ok document →
      sources.Provides location document) ∧
      (cache.fetch sources.library location).2.Faithful sources := by
  have counted : cache.countAttempt.Faithful sources := faithful
  unfold Cache.fetch Cache.settle
  split
  next document loaded =>
    obtain ⟨provided, kept⟩ := counted.add (Or.inr loaded : sources.Provides location document)
    exact ⟨fun found same => by cases same; exact provided, kept⟩
  next cause _ =>
    refine ⟨nofun, fun other value member => counted other value ?_⟩
    rw [← documents_addFailure cache.countAttempt location (.unloadable location cause)]
    exact member
  next => exact ⟨nofun, faithful⟩

theorem Faithful.get (location : String) :
    (∀ document, (cache.get sources.library location).1 = .ok document →
      sources.Provides location document) ∧
      (cache.get sources.library location).2.Faithful sources := by
  unfold Cache.get
  split
  next document known =>
    refine ⟨fun found same => ?_, faithful⟩
    cases same
    exact faithful location document (mem_of_lookup (lookup_of_known? known))
  next => exact ⟨nofun, faithful⟩
  next => exact faithful.fetch location

theorem Faithful.fetchAll (locations : List String) :
    (cache.fetchAll sources.library locations).2.Faithful sources := by
  induction locations generalizing cache with
  | nil => exact faithful
  | cons location rest ih =>
    have later := ih (faithful.fetch location).2
    simp only [fetchAll]
    split <;> exact later

theorem Faithful.prefetch (workers : Int) (locations : List String) :
    (cache.prefetch sources.library workers locations).2.Faithful sources := by
  simp only [Cache.prefetch]
  split
  · exact faithful
  · split
    · exact faithful
    · exact faithful.fetchAll _

end Cache

namespace Resolving

variable {sources : Sources} {α : Type}

/-- The course of resolving: the findings grow and stay sound. -/
def course (sources : Sources) : Course Findings where
  sound := Findings.Sound sources
  leads earlier later :=
    earlier.Grows sources.root.location later ∧ (earlier.Sound sources → later.Sound sources)
  refl findings := ⟨Findings.Grows.refl findings, id⟩
  trans first second := ⟨first.1.trans second.1, second.2 ∘ first.2⟩
  keeps leads := leads.2

/-- The target of an answer is registered, and settled unless the answer is a forward one. -/
def Answered (target : Target) (findings : Findings) : Prop :=
  target.key ∈ keys findings.entries ∧
    (target.forward = false → Settled findings.entries target.key)

theorem stable_answered (target : Target) : (course sources).Stable (Answered target) := by
  rintro first second ⟨grows, _⟩ ⟨registered, settled⟩
  constructor
  · obtain ⟨entry, member, same⟩ := mem_keys.mp registered
    exact mem_keys.mpr ⟨entry, grows.mem_entries member, same⟩
  · intro direct
    obtain ⟨entry, member, same, ended⟩ := settled direct
    exact ⟨entry, grows.mem_entries member, same, ended⟩

theorem stable_true {route : Course Findings} : route.Stable fun _ => True :=
  fun _ _ _ _ => trivial

/-! ## Steps on parts of the findings -/

theorem start_report (diagnostic : Diagnostic) (findings : Findings) :
    (report diagnostic).start findings =
      (.ok (), { findings with diagnostics := findings.diagnostics ++ [diagnostic] }) :=
  rfl

theorem report_keeps {diagnostic : Diagnostic} (other : diagnostic.code ≠ .resolutionSkip) :
    (course sources).Keeps (fun _ => True) (report diagnostic) fun _ _ => True := by
  intro findings sound _
  rw [start_report]
  refine lands_ok ⟨⟨⟨[], [diagnostic], by simp, by simp, rfl, ?_⟩, fun sound => ?_⟩, trivial⟩
  · simpa [Diagnostic.ofCode, other] using FailuresReported.nil
  · exact sound.of_same sound.faithful rfl rfl

theorem start_onCache (step : Cache → Except Fault α × Cache) (findings : Findings) :
    (onCache step).start findings =
      ((step findings.cache).1, { findings with cache := (step findings.cache).2 }) := by
  rw [onCache, start_bind]
  rfl

/-- A course that every step on the cache keeps to, as long as the cache keeps a property, which it
does when documents are asked for and loaded ahead. -/
structure Cached (sources : Sources) (kept : Cache → Prop) (route : Course Findings) : Prop where
  gets : ∀ {cache : Cache}, kept cache → ∀ location,
    (∀ document, (cache.get sources.library location).1 = .ok document →
      sources.Provides location document) ∧ kept (cache.get sources.library location).2
  prefetches : ∀ {cache : Cache}, kept cache → ∀ workers locations,
    kept (cache.prefetch sources.library workers locations).2
  steps : ∀ {α : Type} {step : Cache → Except Fault α × Cache} {fact : α → Prop},
    (∀ cache, kept cache →
      (∀ value, (step cache).1 = .ok value → fact value) ∧ kept (step cache).2) →
    route.Keeps (fun _ => True) (onCache step) fun value _ => fact value

theorem course_cached : Cached sources (Faithful sources) (course sources) where
  gets := Faithful.get
  prefetches := Faithful.prefetch
  steps := by
    intro α step fact holds findings sound _
    obtain ⟨returned, faithful⟩ := holds findings.cache sound.faithful
    rw [start_onCache]
    have leads : (course sources).leads findings
        { findings with cache := (step findings.cache).2 } :=
      ⟨Findings.Grows.of_same rfl rfl, fun sound => sound.of_same faithful rfl rfl⟩
    exact ⟨fun value same => ⟨leads, returned value same⟩, fun _ _ => leads⟩

namespace Cached

variable {kept : Cache → Prop} {route : Course Findings} (cached : Cached sources kept route)

include cached

theorem document (location : String) :
    route.Keeps (fun _ => True) (document sources location) fun value _ =>
      sources.Provides location value :=
  cached.steps fun _ holds => cached.gets holds location

/-- What a pointer leads to is a part of the document that stands there. -/
theorem target (text : String) (reference : Reference) :
    route.Keeps (fun _ => True) (target sources text reference) fun value _ =>
      ∃ document, sources.Provides reference.location document ∧
        resolve text document reference.pointer = .ok value := by
  refine .bind (cached.document reference.location) fun document => ?_
  cases found : resolve text document reference.pointer with
  | ok value => exact .pure fun _ provided => ⟨document, provided, found⟩
  | error cause => exact .throw

theorem dialectOf (location : String) :
    route.Keeps (fun _ => True) (dialectOf sources location) fun _ _ => True := by
  unfold Resolving.dialectOf
  split
  · exact .pure fun _ _ => trivial
  · refine .bind (cached.document location) fun document => ?_
    refine .ofExcept_bind fun dialect _ => ?_
    exact .pure fun _ _ => trivial

/-- The schema that is opened is a part of a document, brought from some dialect to 3.1. -/
theorem openedSchema (opening : Opening) :
    route.Keeps (fun _ => True) (openedSchema sources opening) fun schema _ =>
      ∃ document value dialect, sources.Provides opening.reference.location document ∧
        resolve opening.text document opening.reference.pointer = .ok value ∧
        schema = Dialect.convertSchema value dialect := by
  refine .bind (cached.target opening.text opening.reference) fun value => ?_
  have part : route.Stable fun _ => ∃ document,
      sources.Provides opening.reference.location document ∧
        resolve opening.text document opening.reference.pointer = .ok value :=
    fun _ _ _ holds => holds
  have dialect := (cached.dialectOf opening.reference.location).frame part
  refine .bind (dialect.weaken (fun _ holds => ⟨trivial, holds⟩) fun _ _ ended => ended)
    fun dialect => .pure ?_
  rintro _ ⟨_, document, provided, found⟩
  exact ⟨document, value, dialect, provided, found, rfl⟩

theorem followWithin (fuel : Nat) (visited : List String) (object : Value) (base : String) :
    route.Keeps (fun _ => True) (followWithin sources fuel visited object base)
      fun _ _ => True := by
  induction fuel generalizing visited object base with
  | zero =>
    unfold Resolving.followWithin
    split
    · exact .throw
    · exact .pure fun _ _ => trivial
  | succ fuel ih =>
    unfold Resolving.followWithin
    split
    next text _ =>
      refine .ofExcept_bind fun reference _ => ?_
      have onward := Keeps.bind (cached.target text reference) fun value =>
        (ih (reference.key :: visited) value reference.location).always
      split
      · exact .bind Keeps.throw fun _ => onward
      · exact onward
    next => exact .pure fun _ _ => trivial

theorem follow (object : Value) (base : String) :
    route.Keeps (fun _ => True) (follow sources object base) fun _ _ => True :=
  cached.followWithin _ _ _ _

theorem wanted (locations seen : List String) :
    route.Keeps (fun _ => True) (wanted sources locations seen) fun _ _ => True := by
  induction locations generalizing seen with
  | nil => exact .pure fun _ _ => trivial
  | cons location rest ih =>
    unfold Resolving.wanted
    refine .bind Keeps.get fun findings => ?_
    split
    · refine .bind ((cached.document location).weaken (fun _ _ => trivial)
        fun _ _ _ => trivial) fun document => ?_
      refine .bind (.mapM stable_true (fun _ => stable_true)
        fun text _ => ?_) fun targets => ?_
      · refine .ofExcept_bind fun reference _ => ?_
        exact .pure fun _ _ => trivial
      · refine .bind ((ih _).always)
          fun others => ?_
        exact .pure fun _ _ => trivial
    · exact (ih seen).always

theorem prefetchRound {next : (frontier seen : List String) → Resolving Unit}
    (onward : ∀ frontier seen, route.Keeps (fun _ => True) (next frontier seen) fun _ _ => True)
    (workers : Int) (frontier seen : List String) :
    route.Keeps (fun _ => True) (prefetchRound sources workers next frontier seen)
      fun _ _ => True := by
  unfold Resolving.prefetchRound
  split
  · exact .pure fun _ _ => trivial
  · refine .bind (cached.wanted frontier seen) fun locations => ?_
    refine .bind (cached.steps fun _ holds =>
      ⟨fun _ _ => trivial, cached.prefetches holds workers locations⟩) fun fetched => ?_
    exact (onward _ _).always

theorem prefetch : route.Keeps (fun _ => True) (prefetch sources) fun _ _ => True := by
  unfold Resolving.prefetch
  generalize roundBound sources = rounds
  generalize [sources.root.location] = frontier
  suffices every : ∀ frontier seen, route.Keeps (fun _ => True)
      (Run.nest (Resolving.prefetchRound sources workerCount) (fun _ _ => return ()) rounds
        frontier seen)
      fun _ _ => True from every frontier frontier
  induction rounds with
  | zero => exact fun _ _ => .pure fun _ _ => trivial
  | succ rounds ih => exact cached.prefetchRound ih workerCount

end Cached

/-- Resolving all components keeps to a course that every reference keeps to. -/
theorem keeps_components {route : Course Findings} {fact : Target → Findings → Prop}
    (resolve : ∀ text base, route.Keeps (fun _ => True) (reference sources text base) fact) :
    route.Keeps (fun _ => True) (components sources) fun _ _ => True := by
  unfold components componentsBy
  refine .ofExcept_bind fun components _ => ?_
  refine .ofExcept_bind fun names _ => ?_
  refine .forM stable_true fun name _ => ?_
  refine .ofExcept_bind fun text _ => ?_
  refine .bind (resolve _ sources.root.location) fun target => ?_
  exact .pure fun _ _ => trivial

/-! ## References -/

def Opening.registration (opening : Opening) (standing : Standing) : Registration where
  key := opening.reference.key
  location := opening.reference.location
  proposed := opening.proposed
  standing := standing

/-- What can come of looking up a reference. -/
inductive Arrives (sources : Sources) (text base : String) (findings : Findings) :
    Except Fault Arrival × Findings → Prop
  | stopped (fault : Fault) : Arrives sources text base findings (.error fault, findings)
  | known (reference : Reference) (entry : Registration)
      (reads : ofText sources.working text base = .ok reference)
      (member : entry ∈ findings.entries) (same : entry.key = reference.key) :
      Arrives sources text base findings
        (.ok (.known { key := reference.key, forward := entry.standing.isPending }), findings)
  | opened (opening : Opening)
      (reads : ofText sources.working text base = .ok opening.reference)
      (fresh : opening.reference.key ∉ keys findings.entries) :
      Arrives sources text base findings
        (.ok (.opened opening),
          { findings with entries := findings.entries ++ [opening.registration .pending] })

theorem arrives (sources : Sources) (text base : String) (findings : Findings) :
    Arrives sources text base findings ((arrive sources text base).start findings) := by
  unfold arrive
  rw [start_bind, start_ofExcept]
  cases reads : ofText sources.working text base with
  | error fault => exact .stopped fault
  | ok reference =>
    dsimp only
    rw [start_bind, start_get]
    dsimp only
    cases found : find? findings.entries reference.key with
    | some entry =>
      obtain ⟨member, same⟩ := find?_eq_some found
      exact .known reference entry reads member same
    | none =>
      dsimp only
      rw [start_bind, start_ofExcept]
      cases Location.proposedName reference.location reference.pointer with
      | error fault => exact .stopped fault
      | ok proposed =>
        exact .opened { text, reference, proposed } reads (find?_eq_none.mp found)

theorem mentions_unalias (all : Bool) (node : Node) :
    (unalias node).mentions all = node.mentions all := by
  cases node with
  | reference note target forward =>
    simp [unalias, Node.mentions, Node.mentionsList, Discriminator.targetsOf]
  | _ => rfl

theorem start_conclude_ok (sources : Sources) (opening : Opening) (node : Node)
    (findings : Findings) :
    (conclude sources opening (.ok node)).start findings =
      (.ok { key := opening.reference.key, forward := false },
        { findings with
          entries :=
            Registry.settle opening.reference.key (.done (unalias node)) findings.entries
          completion := findings.completion ++ [opening.reference.key] }) :=
  rfl

theorem start_conclude_error (sources : Sources) (opening : Opening) (cause : ResolutionFault)
    (findings : Findings) :
    (conclude sources opening (.error cause)).start findings =
      (.ok { key := opening.reference.key, forward := false },
        { findings with
          entries :=
            Registry.settle opening.reference.key (.failed cause.message) findings.entries
          diagnostics := findings.diagnostics ++
            [resolutionSkip opening.proposed (opening.place sources) cause] }) :=
  rfl

def readOpened (sources : Sources) (inner : String → String → Resolving Target)
    (opening : Opening) : Resolving Node := do
  let schema ← openedSchema sources opening
  Schema.read
    { resolve := fun text => inner text opening.reference.location, report := report }
    schema (opening.place sources)

theorem visit_eq (sources : Sources) (inner : String → String → Resolving Target)
    (text base : String) :
    visit sources inner text base = (do
      match ← arrive sources text base with
      | .known target => return target
      | .opened opening =>
        conclude sources opening (← Run.attempt (readOpened sources inner opening))) :=
  rfl

/-- A node whose targets were all answered. -/
def Resolved (node : Node) (findings : Findings) : Prop :=
  (∀ target ∈ node.mentions true, target ∈ keys findings.entries) ∧
    ∀ target ∈ node.mentions false, Settled findings.entries target

theorem resolved_of_reading {promise : Promise} {node : Node} {findings : Findings}
    {answers : Answers} (read : Fits promise answers node)
    (answered : ∀ answer ∈ answers, Answered answer.1 findings) : Resolved node findings := by
  constructor
  · intro target mentioned
    obtain ⟨answer, given, same⟩ := read.mentioned target mentioned
    exact same ▸ (answered answer given).1
  · intro target mentioned
    obtain ⟨answer, given, same, direct⟩ := read.direct target mentioned
    exact same ▸ (answered answer given).2 direct

variable {known : Findings → Prop}

/-- A schema is read soundly if the references in it are resolved soundly. -/
theorem schemaRead_keeps (stable : (course sources).Stable known)
    {surroundings : Surroundings Findings} {schema : Value}
    (resolve : ∀ text ∈ Schema.asked .plain schema, (course sources).Keeps known
      (surroundings.resolve text) Answered) (reports : surroundings.report = report)
    (place : String) :
    (course sources).Keeps known (Schema.read surroundings schema place) Resolved := by
  have told (diagnostic : Diagnostic) (keyword : diagnostic.code = .unsupportedKeyword) :
      (course sources).Keeps known (surroundings.report diagnostic) fun _ _ => True := by
    rw [reports]
    exact (report_keeps (by simp [keyword])).always
  refine (Schema.read_keeps stable stable_answered resolve told (List.Subset.refl _) place).weaken
    (fun _ holds => holds) ?_
  rintro node findings ⟨answers, node', ⟨read, -⟩, answered⟩
  exact resolved_of_reading read.fits answered

/-- A reference that is written in the document at a location. -/
def Writes (sources : Sources) (location text : String) : Prop :=
  ∃ document, sources.Provides location document ∧ text ∈ asked .plain document

theorem openedSchema_writes (stable : (course sources).Stable known) (opening : Opening) :
    (course sources).Keeps known (openedSchema sources opening) fun schema findings =>
      (∀ text ∈ asked .plain schema, Writes sources opening.reference.location text) ∧
        known findings := by
  refine ((course_cached.openedSchema opening).frame stable).weaken
    (fun _ holds => ⟨trivial, holds⟩) ?_
  rintro schema findings ⟨⟨document, value, dialect, provided, found, rfl⟩, holds⟩
  have subset := List.Subset.trans (asked_convertSchema_subset value dialect)
    (asked_subset_of_part (partOf_of_resolve found))
  exact ⟨fun text written => ⟨document, provided, subset written⟩, holds⟩

theorem readOpened_keeps (stable : (course sources).Stable known)
    {inner : String → String → Resolving Target} {opening : Opening}
    (resolve : ∀ text, Writes sources opening.reference.location text → (course sources).Keeps
      known (inner text opening.reference.location) Answered) :
    (course sources).Keeps known (readOpened sources inner opening) Resolved := by
  refine .bind (openedSchema_writes stable opening) fun schema => ?_
  rintro findings sound ⟨written, holds⟩
  exact schemaRead_keeps stable (fun text asked => resolve text (written text asked)) rfl
    (opening.place sources) findings sound holds

/-- Concluding an opening settles the pending schema, and nothing else. -/
theorem conclude_leads {opening : Opening} {earlier middle : Findings}
    {result : Except ResolutionFault Node}
    (fresh : opening.reference.key ∉ Registry.keys earlier.entries)
    (grows : ({ earlier with entries := earlier.entries ++ [opening.registration .pending] } :
      Findings).Grows sources.root.location middle)
    (sound : middle.Sound sources) (resolved : ∀ node, result = .ok node → Resolved node middle) :
    Run.Lands (fun target later => (course sources).leads earlier later ∧ Answered target later)
      (fun later => (course sources).leads earlier later)
      ((conclude sources opening result).start middle) := by
  obtain ⟨added, told, entries, settled, diagnostics, reported⟩ := grows
  -- The pending schema stands between what was registered before and what its reading has added.
  have whole : middle.entries = earlier.entries ++ opening.registration .pending :: added := by
    rw [entries, List.append_assoc]
    rfl
  have member : opening.registration .pending ∈ middle.entries := by
    rw [whole]
    simp
  have absent : opening.reference.key ∉ Registry.keys added := by
    have distinct := sound.distinct
    rw [whole, keys_append, List.nodup_append] at distinct
    exact (List.nodup_cons.mp distinct.2.1).1
  have replaced (standing : Standing) :
      Registry.settle opening.reference.key standing middle.entries =
        earlier.entries ++ opening.registration standing :: added := by
    rw [whole]
    exact settle_append_cons (show (opening.registration .pending).key ∉ _ from fresh)
      absent
  have answered (standing : Standing) :
      opening.registration standing ∈
        Registry.settle opening.reference.key standing middle.entries := by
    rw [replaced]
    simp
  cases result with
  | ok node =>
    obtain ⟨registered, direct⟩ := resolved node rfl
    rw [start_conclude_ok]
    refine Run.lands_ok ⟨⟨⟨_ :: added, told, replaced _, ?_, diagnostics,
      reported.cons_done rfl⟩, fun _ => ?_⟩, ?_, fun _ => ?_⟩
    · exact List.forall_mem_cons.mpr ⟨rfl, settled⟩
    · refine sound.finish member rfl ?_ ?_
      · rwa [mentions_unalias]
      · rwa [mentions_unalias]
    · exact mem_keys.mpr ⟨_, answered (.done (unalias node)), rfl⟩
    · exact ⟨_, answered (.done (unalias node)), rfl, rfl⟩
  | error cause =>
    rw [start_conclude_error]
    refine Run.lands_ok ⟨⟨⟨_ :: added,
      told ++ [resolutionSkip opening.proposed (opening.place sources) cause], replaced _,
      ?_, ?_, ?_⟩, fun _ => ?_⟩, ?_, fun _ => ?_⟩
    · exact List.forall_mem_cons.mpr ⟨rfl, settled⟩
    · rw [diagnostics, List.append_assoc]
    · rw [Diagnostic.ofCode, List.filter_append]
      exact reported.cons_failed ⟨opening.reference, cause, rfl, rfl, rfl, rfl⟩
    · exact (sound.fail cause.message member rfl).of_same sound.faithful rfl rfl
    · exact mem_keys.mpr ⟨_, answered (.failed cause.message), rfl⟩
    · exact ⟨_, answered (.failed cause.message), rfl, rfl⟩

/-- The findings in which the target of a reference is registered, if it is new, have a
property. -/
def WhenOpened (sources : Sources) (known : Findings → Prop) (text base : String)
    (findings : Findings) : Prop :=
  ∀ opening : Opening, ofText sources.working text base = .ok opening.reference →
    opening.reference.key ∉ keys findings.entries →
      known { findings with entries := findings.entries ++ [opening.registration .pending] }

/-- Resolving a reference keeps to the course if the references in its target do, which are
resolved after the target is registered. -/
theorem visit_keeps (stable : (course sources).Stable known)
    {inner : String → String → Resolving Target}
    (resolve : ∀ text base, Writes sources base text → (course sources).Keeps known (inner text
      base) Answered) (text base : String) :
    (course sources).Keeps (WhenOpened sources known text base) (visit sources inner text base)
      Answered := by
  intro findings sound holds
  have arrived := arrives sources text base findings
  rw [visit_eq, start_bind]
  generalize (arrive sources text base).start findings = outcome at arrived ⊢
  cases arrived with
  | stopped fault => exact lands_error ((course sources).refl findings)
  | known reference entry reads member same =>
    refine lands_ok ⟨(course sources).refl findings, ?_, fun direct => ?_⟩
    · exact mem_keys.mpr ⟨entry, member, same⟩
    · exact ⟨entry, member, same, direct⟩
  | opened opening reads fresh =>
    have registered : (course sources).sound
        { findings with entries := findings.entries ++ [opening.registration .pending] } :=
      sound.register fresh rfl
    have reading := readOpened_keeps stable fun text => resolve text opening.reference.location
    have read := reading.attempt _ registered (holds opening reads fresh)
    dsimp only
    rw [start_bind]
    rcases ended : (attempt (readOpened sources inner opening)).start _ with
      ⟨fault | result, middle⟩ <;> rw [ended] at read
    · refine ⟨nofun, fun cause stopped => ?_⟩
      cases stopped
      exact absurd rfl (start_attempt_ne_resolution ended cause)
    · obtain ⟨⟨grows, kept⟩, resolved⟩ := read.ok result rfl
      exact conclude_leads fresh grows (kept registered) resolved

theorem reference_keeps (text base : String) :
    (course sources).Keeps (fun _ => True) (reference sources text base) Answered := by
  unfold reference
  generalize sources.bound = depth
  induction depth generalizing text base with
  | zero => exact .throw
  | succ depth ih =>
    exact (visit_keeps stable_true (fun text base _ => ih text base) text base).weaken
      (fun _ _ _ _ _ => trivial) fun _ _ answered => answered

/-- Every target of a schema that was read is registered. -/
theorem read_keeps (schema : Value) (base place : String) :
    (course sources).Keeps (fun _ => True) (read sources schema base place) Resolved :=
  schemaRead_keeps stable_true (fun text _ => reference_keeps text (baseOf sources base)) rfl place

theorem components_keeps :
    (course sources).Keeps (fun _ => True) (components sources) fun _ _ => True :=
  keeps_components reference_keeps

end Resolving

end Bindery
