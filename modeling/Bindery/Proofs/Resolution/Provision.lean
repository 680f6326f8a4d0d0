import Bindery.Proofs.Resolution.Reference

/-!
# What the documents provide

Documents are loaded once and kept, and so are the reasons why others cannot be
loaded.  Therefore the document at a location, its dialect, and the schema a pointer
leads to are functions of the sources alone.  Only the wording of a failure tells
which reference was followed.

A run computes these functions as long as its cache agrees with the sources; at the
start it does, and every step keeps it so.
-/

namespace Bindery

open List Sources

namespace Sources

variable (sources : Sources)

/-- The document at a location, or the fault of asking for it. -/
def documentAt (location : String) : Except Fault Value :=
  if location = sources.root.location then .ok sources.root.tree
  else
    match sources.library.load location with
    | .ok document => .ok document
    | .error (.document cause) => .error (.resolution (.unloadable location cause))
    | .error fault => .error fault

/-- The dialect of the document at a location; one without a known version has that of the root. -/
def dialectAt (location : String) : Except Fault Dialect := do
  if location = sources.root.location then return .v31
  let dialect ← Dialect.ofDocument (← sources.documentAt location)
  return if dialect = .unknown then sources.root.dialect else dialect

/-- What a reference leads to; `text` is how the reference is written. -/
def targetAt (text : String) (reference : Reference) : Except Fault Value := do
  let document ← sources.documentAt reference.location
  match Pointer.resolve text document reference.pointer with
  | .ok value => .ok value
  | .error cause => .error (.resolution cause)

/-- The schema that a reference leads to, in the 3.1 shape; `text` is how it is written. -/
def schemaAt (text : String) (reference : Reference) : Except Fault Value := do
  let value ← sources.targetAt text reference
  let dialect ← sources.dialectAt reference.location
  return Dialect.convertSchema value dialect

/-- What references from an object lead to within some steps; the keys of `visited` are not
followed again. -/
def followedWithin : Nat → List String → Value → String → Except Fault (Value × String)
  | fuel, visited, object, base =>
    match object.get? "$ref" with
    | some (.scalar (.str text)) =>
      match fuel with
      | 0 => .error (.resolution (.cycle text))
      | fuel + 1 => do
        let reference ← Reference.ofText sources.working text base
        if visited.contains reference.key then .error (.resolution (.cycle text))
        else do
          let value ← sources.targetAt text reference
          followedWithin fuel (reference.key :: visited) value reference.location
    | _ => .ok (object, base)

variable {sources}

theorem provides_of_documentAt {location : String} {document : Value}
    (found : sources.documentAt location = .ok document) : sources.Provides location document := by
  unfold documentAt at found
  split at found
  next root =>
    cases found
    exact .inl ⟨root, rfl⟩
  next =>
    split at found
    next loaded =>
      cases found
      exact .inr loaded
    next => cases found
    next => cases found

theorem resolve_of_targetAt {text : String} {reference : Reference} {value : Value}
    (found : sources.targetAt text reference = .ok value) :
    ∃ document, sources.documentAt reference.location = .ok document ∧
      Pointer.resolve text document reference.pointer = .ok value := by
  obtain ⟨document, provided, walked⟩ := ok_of_bind found
  refine ⟨document, provided, ?_⟩
  split at walked
  next reached =>
    cases walked
    exact reached
  next => cases walked

end Sources

/-! ## Caches that agree with the sources -/

namespace Cache

variable {sources : Sources} {cache : Cache}

/-- Everything that is kept is what the sources provide, and the root is kept. -/
structure Agrees (sources : Sources) (cache : Cache) : Prop where
  root : cache.documents.lookup sources.root.location = some sources.root.tree
  documents : ∀ location document, cache.documents.lookup location = some document →
    sources.documentAt location = .ok document
  failures : ∀ location failure, cache.failures.lookup location = some failure →
    sources.documentAt location = .error (.resolution failure)

theorem lookup_append_singleton {α : Type} {pairs : List (String × α)} {name other : String}
    {value : α} (absent : pairs.lookup name = none) :
    (pairs ++ [(name, value)]).lookup other =
      if other = name then some value else pairs.lookup other := by
  rw [lookup_append]
  by_cases same : other = name
  · subst same
    simp [absent]
  · have apart : (other == name) = false := beq_false_of_ne same
    simp [lookup_cons, apart, same]

variable {location : String}

theorem Agrees.add (agrees : cache.Agrees sources) {document : Value}
    (provided : sources.documentAt location = .ok document) :
    sources.documentAt location = .ok (cache.add location document).1 ∧
      (cache.add location document).2.Agrees sources := by
  unfold Cache.add
  split
  next kept found => exact ⟨agrees.documents location kept found, agrees⟩
  next absent =>
    refine ⟨provided, ?_, ?_, agrees.failures⟩
    · show lookup _ (_ ++ _) = _
      rw [lookup_append_singleton absent, agrees.root]
      split
      next same =>
        rw [← same, agrees.root] at absent
        cases absent
      next => rfl
    · intro other value found
      have looked : lookup other (cache.documents ++ [(location, document)]) = some value :=
        found
      rw [lookup_append_singleton absent] at looked
      split at looked
      next same =>
        cases looked
        rw [same, provided]
      next => exact agrees.documents other value looked

theorem Agrees.addFailure (agrees : cache.Agrees sources) {failure : ResolutionFault}
    (provided : sources.documentAt location = .error (.resolution failure)) :
    sources.documentAt location = .error (.resolution (cache.addFailure location failure).1) ∧
      (cache.addFailure location failure).2.Agrees sources := by
  unfold Cache.addFailure
  split
  next kept found => exact ⟨agrees.failures location kept found, agrees⟩
  next absent =>
    refine ⟨provided, agrees.root, agrees.documents, ?_⟩
    intro other value found
    have looked : lookup other (cache.failures ++ [(location, failure)]) = some value := found
    rw [lookup_append_singleton absent] at looked
    split at looked
    next same =>
      cases looked
      rw [same, provided]
    next => exact agrees.failures other value looked

section

variable (agrees : cache.Agrees sources)

include agrees

theorem Agrees.fetch (elsewhere : location ≠ sources.root.location) :
    (cache.fetch sources.library location).1 = sources.documentAt location ∧
      (cache.fetch sources.library location).2.Agrees sources := by
  have counted : cache.countAttempt.Agrees sources :=
    ⟨agrees.root, agrees.documents, agrees.failures⟩
  have provided : sources.documentAt location = _ := if_neg elsewhere
  unfold Cache.fetch Cache.settle
  split
  next document loaded =>
    rw [loaded] at provided
    obtain ⟨same, kept⟩ := counted.add provided
    exact ⟨same.symm, kept⟩
  next cause loaded =>
    rw [loaded] at provided
    obtain ⟨same, kept⟩ := counted.addFailure provided
    exact ⟨same.symm, kept⟩
  next fault notDocument loaded =>
    refine ⟨?_, counted⟩
    rw [provided, loaded]
    cases fault with
    | document cause => exact absurd rfl (notDocument cause)
    | _ => rfl

/-- Asking a cache for a document gives what the sources provide. -/
theorem Agrees.get (location : String) :
    (cache.get sources.library location).1 = sources.documentAt location ∧
      (cache.get sources.library location).2.Agrees sources := by
  unfold Cache.get
  split
  next document known =>
    exact ⟨(agrees.documents location document (lookup_of_known? known)).symm, agrees⟩
  next failure known =>
    refine ⟨?_, agrees⟩
    unfold Cache.known? at known
    split at known
    next => cases known
    next =>
      obtain ⟨kept, found, same⟩ := Option.map_eq_some_iff.mp known
      cases same
      exact (agrees.failures location failure found).symm
  next unknown =>
    apply agrees.fetch
    rintro rfl
    rw [Cache.known?, agrees.root] at unknown
    cases unknown

theorem Agrees.fetchAll {locations : List String}
    (elsewhere : ∀ location ∈ locations, location ≠ sources.root.location) :
    (cache.fetchAll sources.library locations).2.Agrees sources := by
  induction locations generalizing cache with
  | nil => exact agrees
  | cons location rest ih =>
    have later := ih (agrees.fetch (elsewhere location mem_cons_self)).2
      fun other inside => elsewhere other (mem_cons_of_mem _ inside)
    simp only [Cache.fetchAll]
    split <;> exact later

/-- Documents that are loaded ahead are those that the sources provide. -/
theorem Agrees.prefetch (workers : Int) (locations : List String) :
    (cache.prefetch sources.library workers locations).2.Agrees sources := by
  simp only [Cache.prefetch]
  split
  · exact agrees
  · split
    · exact agrees
    · apply agrees.fetchAll
      rintro location pending rfl
      have absent := (mem_filter.mp pending).2
      rw [Cache.contains, agrees.root] at absent
      cases absent

end

theorem Agrees.start (sources : Sources) : (Findings.start sources).cache.Agrees sources where
  root := by simp [Findings.start, Cache.add]
  documents := by
    intro location document found
    have only := mem_of_lookup found
    have same : (location, document) = (sources.root.location, sources.root.tree) := by
      simpa [Findings.start, Cache.add] using only
    cases same
    rw [documentAt, if_pos rfl]
  failures := by simp [Findings.start, Cache.add]

end Cache

/-! ## Steps of a run -/

namespace Resolving

variable {sources : Sources} {α : Type}

/-- A step looks only at the cache of the findings: it gives a fixed result, changes nothing else,
and keeps the cache in agreement with the sources. -/
def Looks (sources : Sources) (step : Resolving α) (result : Except Fault α) : Prop :=
  ∀ findings : Findings, findings.cache.Agrees sources →
    ∃ cache : Cache, cache.Agrees sources ∧ step.start findings = (result, { findings with cache })

theorem Looks.ofExcept (result : Except Fault α) : Looks sources (Run.ofExcept result) result :=
  fun findings agrees => ⟨findings.cache, agrees, rfl⟩

theorem Looks.pure (value : α) : Looks sources (pure value) (.ok value) :=
  .ofExcept (.ok value)

theorem Looks.bind {β : Type} {step : Resolving α} {next : α → Resolving β}
    {result : Except Fault α} {last : α → Except Fault β} (first : Looks sources step result)
    (second : ∀ value, result = .ok value → Looks sources (next value) (last value)) :
    Looks sources (step >>= next) (result >>= last) := by
  intro findings agrees
  obtain ⟨cache, agrees', ran⟩ := first findings agrees
  cases result with
  | error fault =>
    refine ⟨cache, agrees', ?_⟩
    rw [Run.start_bind, ran]
    rfl
  | ok value =>
    obtain ⟨cache', agrees'', ran'⟩ := second value rfl { findings with cache } agrees'
    refine ⟨cache', agrees'', ?_⟩
    rw [Run.start_bind, ran]
    exact ran'

theorem document_looks (location : String) :
    Looks sources (document sources location) (sources.documentAt location) := by
  intro findings agrees
  obtain ⟨same, agrees'⟩ := agrees.get location
  refine ⟨_, agrees', ?_⟩
  rw [document, start_onCache, same]

theorem target_looks (text : String) (reference : Reference) :
    Looks sources (target sources text reference) (sources.targetAt text reference) := by
  refine (document_looks reference.location).bind fun document _ => ?_
  cases Pointer.resolve text document reference.pointer with
  | ok value => exact .pure value
  | error cause => exact .ofExcept (.error (.resolution cause))

theorem followWithin_looks (fuel : Nat) (visited : List String) (object : Value) (base : String) :
    Looks sources (followWithin sources fuel visited object base)
      (sources.followedWithin fuel visited object base) := by
  induction fuel generalizing visited object base with
  | zero =>
    rw [followWithin, followedWithin]
    -- The two readings of the reference are cased at once, constructor by constructor.
    rcases object.get? "$ref" with _ | (_ | _ | _ | _ | text | _ | _ | _) | _ | _
    case some.scalar.str => exact .ofExcept (.error _)
    all_goals exact .pure _
  | succ fuel ih =>
    rw [followWithin, followedWithin]
    rcases object.get? "$ref" with _ | (_ | _ | _ | _ | text | _ | _ | _) | _ | _
    case some.scalar.str =>
      refine (Looks.ofExcept _).bind fun reference _ => ?_
      dsimp only
      split
      · exact Looks.ofExcept (.error _)
      · exact (target_looks text reference).bind fun value _ => ih _ value reference.location
    all_goals exact .pure _

theorem dialectOf_looks (location : String) :
    Looks sources (dialectOf sources location) (sources.dialectAt location) := by
  unfold dialectOf dialectAt
  split
  · exact Looks.pure _
  · refine (document_looks location).bind fun document _ => ?_
    refine (Looks.ofExcept _).bind fun dialect _ => ?_
    exact Looks.pure _

theorem openedSchema_looks (opening : Opening) :
    Looks sources (openedSchema sources opening)
      (sources.schemaAt opening.text opening.reference) := by
  refine (target_looks opening.text opening.reference).bind fun value _ => ?_
  refine (dialectOf_looks opening.reference.location).bind fun dialect _ => ?_
  exact .pure _

end Resolving

end Bindery
