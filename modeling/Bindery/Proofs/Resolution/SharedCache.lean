import Mathlib.Logic.Relation
import Mathlib.Logic.Function.Basic
import Bindery.Proofs.Resolution.Provision

/-!
# A cache with many callers

Any number of callers may use one cache at a time.  A call is made of sections
that nobody can interrupt, and between them the other callers go on.  Loading ahead
does the same for several locations side by side, with a limited number of workers.
What the loader answers is not fixed: it may be another document, or a failure,
each time.

The first document that is handed in for a location stays there, and whoever is
given a document for the location is given this one.  The invariant speaks of the
shared state only, so it is enough to look at each section once.

A caller that nobody interrupts does what the operations of the cache do.
-/

namespace Bindery

open Relation List

/-- A cache that is shared, the documents that were handed in to be kept, and those that were
given to callers, each in the order of time. -/
structure Ledger where
  cache : Cache := {}
  offered : List (String × Value) := []
  given : List (String × Value) := []

namespace Ledger

def documents (location : String) : Except Fault Value → List (String × Value)
  | .ok document => [(location, document)]
  | .error _ => []

def kept (ledger : Ledger) (location : String) : Option Value :=
  ledger.cache.documents.lookup location

def give (ledger : Ledger) (location : String) (result : Except Fault Value) : Ledger :=
  { ledger with given := ledger.given ++ documents location result }

/-- Keeps what an attempt to load a document came to, and gives it to the caller. -/
def settle (ledger : Ledger) (location : String) (answer : Except Fault Value) :
    Except Fault Value × Ledger :=
  let (result, cache) := ledger.cache.settle location answer
  (result, { cache
             offered := ledger.offered ++ documents location answer
             given := ledger.given ++ documents location result })

def countAttempt (ledger : Ledger) : Ledger :=
  { ledger with cache := ledger.cache.countAttempt }

def add (ledger : Ledger) (location : String) (document : Value) : Ledger :=
  let (kept, cache) := ledger.cache.add location document
  { cache
    offered := ledger.offered ++ [(location, document)]
    given := ledger.given ++ [(location, kept)] }

end Ledger

/-! ## Sections of calls -/

inductive Fetch where
  | begun
  | counted
  | answered (answer : Except Fault Value)
  | ended (result : Except Fault Value)

def Fetch.isUnderway : Fetch → Bool
  | .counted => true
  | .answered _ => true
  | _ => false

/-- One section of an attempt to load a document. -/
inductive Fetch.Advances (location : String) : Ledger → Fetch → Ledger → Fetch → Prop
  | count {ledger : Ledger} : Advances location ledger .begun ledger.countAttempt .counted
  | load {ledger : Ledger} (answer : Except Fault Value) :
      Advances location ledger .counted ledger (.answered answer)
  | settle {ledger : Ledger} {answer : Except Fault Value} :
      Advances location ledger (.answered answer) (ledger.settle location answer).2
        (.ended (ledger.settle location answer).1)

inductive Activity where
  | idle
  | asking (location : String)
  | fetching (location : String) (fetch : Fetch)
  | adding (location : String) (document : Value)
  | listing (workers : Int) (locations : List String)
  | loading (workers : Int) (fetches : List (String × Fetch))

/-- One section of what a caller is doing; an idle caller may call for anything. -/
inductive Activity.Advances : Ledger → Activity → Ledger → Activity → Prop
  | get {ledger : Ledger} (location : String) : Advances ledger .idle ledger (.asking location)
  | known {ledger : Ledger} {location : String} {result : Except ResolutionFault Value}
      (found : ledger.cache.known? location = some result) :
      Advances ledger (.asking location) (ledger.give location (result.mapError .resolution)) .idle
  | unknown {ledger : Ledger} {location : String} (absent : ledger.cache.known? location = none) :
      Advances ledger (.asking location) ledger (.fetching location .begun)
  | fetch {ledger ledger' : Ledger} {location : String} {fetch fetch' : Fetch}
      (advances : fetch.Advances location ledger ledger' fetch') :
      Advances ledger (.fetching location fetch) ledger' (.fetching location fetch')
  | fetched {ledger : Ledger} {location : String} {result : Except Fault Value} :
      Advances ledger (.fetching location (.ended result)) ledger .idle
  | add {ledger : Ledger} (location : String) (document : Value) :
      Advances ledger .idle ledger (.adding location document)
  | added {ledger : Ledger} {location : String} {document : Value} :
      Advances ledger (.adding location document) (ledger.add location document) .idle
  | prefetch {ledger : Ledger} (workers : Int) (locations : List String) :
      Advances ledger .idle ledger (.listing workers locations)
  | nothing {ledger : Ledger} {workers : Int} {locations : List String}
      (tried : ledger.cache.pending locations = []) :
      Advances ledger (.listing workers locations) ledger .idle
  | refused {ledger : Ledger} {workers : Int} {locations : List String}
      (some : ledger.cache.pending locations ≠ []) (nobody : workers ≤ 0) :
      Advances ledger (.listing workers locations) ledger .idle
  | spread {ledger : Ledger} {workers : Int} {locations : List String}
      (some : ledger.cache.pending locations ≠ []) (somebody : 0 < workers) :
      Advances ledger (.listing workers locations) ledger
        (.loading workers ((ledger.cache.pending locations).map fun location => (location, .begun)))
  | work {ledger ledger' : Ledger} {workers : Int} {before after : List (String × Fetch)}
      {location : String} {fetch fetch' : Fetch}
      (free : fetch = .begun → ((before ++ after).countP (·.2.isUnderway) : Int) < workers)
      (advances : fetch.Advances location ledger ledger' fetch') :
      Advances ledger (.loading workers (before ++ (location, fetch) :: after)) ledger'
        (.loading workers (before ++ (location, fetch') :: after))
  | gathered {ledger : Ledger} {workers : Int} {fetches : List (String × Fetch)}
      (ended : ∀ fetch ∈ fetches, ∃ result, fetch.2 = .ended result) :
      Advances ledger (.loading workers fetches) ledger .idle

/-- A shared cache with its callers. -/
structure Scene where
  ledger : Ledger := {}
  callers : Nat → Activity := fun _ => .idle

namespace Scene

def advance (scene : Scene) (caller : Nat) (ledger : Ledger) (activity : Activity) : Scene where
  ledger := ledger
  callers := Function.update scene.callers caller activity

/-- One of the callers goes on by a section, and the others wait. -/
inductive Step : Scene → Scene → Prop
  | advance {scene : Scene} (caller : Nat) {ledger : Ledger} {activity : Activity}
      (advances : (scene.callers caller).Advances scene.ledger ledger activity) :
      Step scene (scene.advance caller ledger activity)

/-- One scene comes after another, in any order of the callers' sections. -/
abbrev Reaches : Scene → Scene → Prop := ReflTransGen Step

end Scene

/-! ## What the sections keep -/

namespace Cache

variable {cache : Cache} {location : String} {document : Value}

/-- Of the documents handed in for a location the first one is kept. -/
theorem lookup_add (other : String) :
    (cache.add location document).2.documents.lookup other =
      (cache.documents.lookup other).or (lookup other [(location, document)]) := by
  unfold add
  split
  next kept found =>
    by_cases same : other = location
    · subst same
      simp [found]
    · have apart : (other == location) = false := beq_false_of_ne same
      simp [lookup_cons, apart]
  next absent => exact lookup_append

theorem lookup_add_self :
    (cache.add location document).2.documents.lookup location =
      some (cache.add location document).1 := by
  rw [lookup_add]
  unfold add
  split
  next kept found => simp [found]
  next absent => simp [absent]

theorem lookup_of_known {result : Except ResolutionFault Value}
    (found : cache.known? location = some result)
    (same : result.mapError Fault.resolution = .ok document) :
    cache.documents.lookup location = some document := by
  unfold known? at found
  split at found
  next kept present =>
    cases found
    cases same
    exact (Option.filter_eq_some_iff.mp present).1
  next =>
    obtain ⟨failure, -, rfl⟩ := Option.map_eq_some_iff.mp found
    cases same

end Cache

namespace Ledger

variable {ledger : Ledger} {location : String} {document : Value}

/-- The first document that was handed in for a location is the one that is kept, and everybody
who was given a document for a location was given the one that is kept. -/
structure Converges (ledger : Ledger) : Prop where
  first : ∀ location, ledger.kept location = ledger.offered.lookup location
  agreed : ∀ location document, (location, document) ∈ ledger.given →
    ledger.kept location = some document

/-- What is kept for a location stays. -/
def Extends (earlier later : Ledger) : Prop :=
  ∀ location document, earlier.kept location = some document →
    later.kept location = some document

theorem Converges.start : Converges {} where
  first _ := rfl
  agreed _ _ member := by cases member

theorem Extends.refl (ledger : Ledger) : Extends ledger ledger :=
  fun _ _ kept => kept

theorem Extends.trans {first second third : Ledger} (extends₁ : Extends first second)
    (extends₂ : Extends second third) : Extends first third :=
  fun location document kept => extends₂ location document (extends₁ location document kept)

/-- Documents are given to callers as long as they are the ones that are kept. -/
theorem Converges.record {earlier later : Ledger} (converges : Converges earlier)
    (extended : Extends earlier later)
    (first : ∀ location, later.kept location = later.offered.lookup location)
    (result : Except Fault Value) (given : later.given = earlier.given ++ documents location result)
    (kept : ∀ document, result = .ok document → later.kept location = some document) :
    Converges later where
  first := first
  agreed other document member := by
    rw [given] at member
    rcases mem_append.mp member with before | now
    · exact extended other document (converges.agreed other document before)
    · cases result with
      | error fault => cases now
      | ok value =>
        cases mem_singleton.mp now
        exact kept _ rfl

theorem Converges.give (converges : Converges ledger) {result : Except Fault Value}
    (kept : ∀ document, result = .ok document → ledger.kept location = some document) :
    Converges (ledger.give location result) := by
  have extended : Extends ledger (ledger.give location result) := Extends.refl ledger
  exact converges.record extended converges.first result rfl kept

theorem kept_add (other : String) :
    (ledger.add location document).kept other =
      (ledger.kept other).or (lookup other [(location, document)]) :=
  Cache.lookup_add other

theorem extends_add : Extends ledger (ledger.add location document) := by
  intro other value kept
  rw [kept_add, kept]
  rfl

theorem Converges.add (converges : Converges ledger) :
    Converges (ledger.add location document) := by
  have first : ∀ other, (ledger.add location document).kept other =
      (ledger.add location document).offered.lookup other := by
    intro other
    rw [kept_add, converges.first]
    exact lookup_append.symm
  refine converges.record extends_add first
    (.ok (ledger.cache.add location document).1) rfl ?_
  rintro value ⟨⟩
  exact Cache.lookup_add_self

theorem kept_settle_error (fault : Fault) (other : String) :
    (ledger.settle location (.error fault)).2.kept other = ledger.kept other := by
  cases fault with
  | document cause =>
    exact congrArg (lookup other)
      (ledger.cache.documents_addFailure location (.unloadable location cause))
  | _ => rfl

theorem settle_error (ledger : Ledger) (location : String) (fault : Fault) :
    ∃ fault', (ledger.settle location (.error fault)).1 = .error fault' := by
  cases fault with
  | document cause => exact ⟨_, rfl⟩
  | _ => exact ⟨_, rfl⟩

theorem extends_settle (answer : Except Fault Value) :
    Extends ledger (ledger.settle location answer).2 := by
  cases answer with
  | ok document => exact extends_add
  | error fault =>
    intro other document kept
    rw [kept_settle_error]
    exact kept

theorem Converges.settle (converges : Converges ledger) (answer : Except Fault Value) :
    Converges (ledger.settle location answer).2 := by
  cases answer with
  | ok document => exact converges.add
  | error fault =>
    have first : ∀ other, (ledger.settle location (.error fault)).2.kept other =
        (ledger.settle location (.error fault)).2.offered.lookup other := by
      intro other
      rw [kept_settle_error, converges.first]
      show _ = (ledger.offered ++ []).lookup other
      rw [append_nil]
    obtain ⟨fault', failed⟩ := ledger.settle_error location fault
    refine converges.record (extends_settle _) first
      (ledger.settle location (.error fault)).1 rfl ?_
    intro document same
    rw [failed] at same
    cases same

end Ledger

open Ledger

theorem Fetch.Advances.keeps {location : String} {ledger later : Ledger} {fetch fetch' : Fetch}
    (advances : fetch.Advances location ledger later fetch') :
    Extends ledger later ∧ (Converges ledger → Converges later) := by
  cases advances with
  | count => exact ⟨Extends.refl ledger, fun converges => ⟨converges.first, converges.agreed⟩⟩
  | load answer => exact ⟨Extends.refl ledger, fun converges => converges⟩
  | settle => exact ⟨extends_settle _, fun converges => converges.settle _⟩

theorem Activity.Advances.keeps {ledger later : Ledger} {activity activity' : Activity}
    (advances : activity.Advances ledger later activity') :
    Extends ledger later ∧ (Converges ledger → Converges later) := by
  have silent : Extends ledger ledger ∧ (Converges ledger → Converges ledger) :=
    ⟨Extends.refl ledger, fun converges => converges⟩
  cases advances with
  | known found =>
    constructor
    · exact Extends.refl ledger
    · intro converges
      apply converges.give
      intro document same
      exact Cache.lookup_of_known found same
  | added => exact ⟨extends_add, Converges.add⟩
  | fetch advances => exact advances.keeps
  | work free advances => exact advances.keeps
  | get | unknown | fetched | add | prefetch | nothing | refused | spread | gathered =>
    exact silent

namespace Scene

/-- A document that is kept is never replaced or removed. -/
theorem Reaches.extends {scene later : Scene} (reaches : Reaches scene later) :
    Extends scene.ledger later.ledger := by
  induction reaches with
  | refl => exact Extends.refl scene.ledger
  | tail _ step ih =>
    cases step with
    | advance caller advances => exact ih.trans advances.keeps.1

theorem Reaches.converges {scene later : Scene} (reaches : Reaches scene later)
    (converges : Converges scene.ledger) : Converges later.ledger := by
  induction reaches with
  | refl => exact converges
  | tail _ step ih =>
    cases step with
    | advance caller advances => exact advances.keeps.2 ih

end Scene

/-! ## Callers that are alone -/

/-- A caller goes on by any number of sections while the others wait. -/
inductive Activity.Proceeds : Ledger → Activity → Ledger → Activity → Prop
  | refl {ledger : Ledger} {activity : Activity} : Proceeds ledger activity ledger activity
  | head {ledger middle later : Ledger} {activity activity' activity'' : Activity}
      (advances : activity.Advances ledger middle activity')
      (proceeds : Proceeds middle activity' later activity'') :
      Proceeds ledger activity later activity''

namespace Activity

variable {ledger : Ledger}

theorem Advances.proceeds {later : Ledger} {activity activity' : Activity}
    (advances : activity.Advances ledger later activity') :
    Proceeds ledger activity later activity' :=
  .head advances .refl

variable (library : Library)

/-- An attempt to load a document, with a loader that answers from a library. -/
theorem proceeds_fetch (ledger : Ledger) (location : String) :
    Proceeds ledger (.fetching location .begun)
      (ledger.countAttempt.settle location (library.load location)).2 .idle := by
  apply Proceeds.head
  · exact .fetch .count
  apply Proceeds.head
  · exact .fetch (.load (library.load location))
  apply Proceeds.head
  · exact .fetch .settle
  exact Advances.fetched.proceeds

/-- A caller that is alone is given what the cache gives for a location. -/
theorem proceeds_get (ledger : Ledger) (location : String) :
    ∃ later, Proceeds ledger .idle later .idle ∧
      later.cache = (ledger.cache.get library location).2 ∧
      later.given = ledger.given ++ documents location (ledger.cache.get library location).1 := by
  cases known : ledger.cache.known? location with
  | some result =>
    refine ⟨ledger.give location (result.mapError .resolution), ?_, ?_⟩
    · exact .head (.get location) (Advances.known known).proceeds
    · cases result with
      | ok document => simp [Cache.get, known, give, Except.mapError]
      | error failure => simp [Cache.get, known, give, Except.mapError]
  | none =>
    refine ⟨(ledger.countAttempt.settle location (library.load location)).2, ?_, ?_⟩
    · exact .head (.get location)
        (.head (.unknown known) (proceeds_fetch library ledger location))
    · simp only [Cache.get, known]
      exact ⟨rfl, rfl⟩

/-- The workers of a caller that is alone can load the documents one after the other. -/
theorem proceeds_loading {workers : Int} (somebody : 0 < workers) (locations : List String)
    (ledger : Ledger) (fetches : List (String × Fetch))
    (ended : ∀ fetch ∈ fetches, ∃ result, fetch.2 = .ended result) : ∃ later, Proceeds ledger
        (.loading workers (fetches ++ locations.map fun location => (location, .begun)))
        later .idle ∧
      later.cache = (ledger.cache.fetchAll library locations).2 := by
  induction locations generalizing ledger fetches with
  | nil =>
    refine ⟨ledger, (Advances.gathered ?_).proceeds, rfl⟩
    simpa using ended
  | cons location rest ih =>
    have others : (fetches ++ rest.map fun location => (location, Fetch.begun)).countP
        (·.2.isUnderway) = 0 := by
      rw [countP_eq_zero]
      intro fetch member
      rcases mem_append.mp member with old | new
      · obtain ⟨result, same⟩ := ended fetch old
        simp [same, Fetch.isUnderway]
      · obtain ⟨waiting, -, rfl⟩ := mem_map.mp new
        simp [Fetch.isUnderway]
    have free : (((fetches ++ rest.map fun location => (location, Fetch.begun)).countP
        (·.2.isUnderway) : Nat) : Int) < workers := by
      rw [others]
      exact somebody
    let settled := ledger.countAttempt.settle location (library.load location)
    have ended' : ∀ fetch ∈ fetches ++ [(location, Fetch.ended settled.1)],
        ∃ result, fetch.2 = .ended result := by
      intro fetch member
      rcases mem_append.mp member with old | new
      · exact ended fetch old
      · rw [mem_singleton.mp new]
        exact ⟨settled.1, rfl⟩
    obtain ⟨later, proceeds, same⟩ := ih settled.2 _ ended'
    rw [append_assoc] at proceeds
    refine ⟨later, ?_, ?_⟩
    · apply Proceeds.head
      · exact .work (fun _ => free) .count
      apply Proceeds.head
      · exact .work (by rintro ⟨⟩) (.load (library.load location))
      exact .head (.work (by rintro ⟨⟩) .settle) proceeds
    · rw [same]
      simp only [Cache.fetchAll]
      split <;> rfl

/-- A caller that is alone loads ahead what the cache loads ahead. -/
theorem proceeds_prefetch (ledger : Ledger) (workers : Int) (locations : List String) :
    ∃ later, Proceeds ledger .idle later .idle ∧
      later.cache = (ledger.cache.prefetch library workers locations).2 := by
  simp only [Cache.prefetch, List.isEmpty_iff]
  split
  next tried =>
    exact ⟨ledger, .head (.prefetch workers locations) (Advances.nothing tried).proceeds, rfl⟩
  next untried =>
    split
    next nobody =>
      exact ⟨ledger, .head (.prefetch workers locations)
        (Advances.refused untried nobody).proceeds, rfl⟩
    next somebody =>
      have some : 0 < workers := by omega
      obtain ⟨later, proceeds, same⟩ :=
        proceeds_loading library some (ledger.cache.pending locations) ledger []
          (by simp)
      exact ⟨later, .head (.prefetch workers locations) (.head (.spread untried some) proceeds),
        same⟩

end Activity

namespace Scene

@[simp]
theorem callers_advance_self (scene : Scene) (caller : Nat) (ledger : Ledger)
    (activity : Activity) : (scene.advance caller ledger activity).callers caller = activity := by
  simp [advance]

theorem advance_self (scene : Scene) (caller : Nat) :
    scene.advance caller scene.ledger (scene.callers caller) = scene := by
  rw [advance, Function.update_eq_self]

theorem advance_advance (scene : Scene) (caller : Nat) (ledger later : Ledger)
    (activity activity' : Activity) :
    (scene.advance caller ledger activity).advance caller later activity' =
      scene.advance caller later activity' := by
  rw [advance, advance, advance, Function.update_idem]

/-- What a caller can do alone can happen in any scene. -/
theorem reaches_advance {scene : Scene} (caller : Nat) {ledger later : Ledger}
    {activity activity' : Activity} (proceeds : activity.Proceeds ledger later activity')
    (shared : scene.ledger = ledger) (own : scene.callers caller = activity) :
    Reaches scene (scene.advance caller later activity') := by
  induction proceeds generalizing scene with
  | refl =>
    subst shared own
    rw [advance_self]
  | @head ledger middle later activity activity' activity'' advances proceeds ih =>
    subst shared own
    have onward := @ih (scene.advance caller middle activity') rfl
      (scene.callers_advance_self caller middle activity')
    rw [advance_advance] at onward
    exact .head (.advance caller advances) onward

/-! ## The first document -/

/-- Whatever the callers do and whatever the loader answers, a document that is kept is never
replaced or removed, everybody who is given a document for a location is given the one that is
kept there, and this is the first one that was handed in. -/
theorem first_document_wins {scene later : Scene} (reached : Reaches {} scene)
    (onward : Reaches scene later) (location : String) :
    (∀ document, scene.ledger.kept location = some document →
      later.ledger.kept location = some document) ∧
    (∀ document, (location, document) ∈ later.ledger.given →
      later.ledger.kept location = some document) ∧
    later.ledger.kept location = later.ledger.offered.lookup location := by
  have converges : Converges later.ledger :=
    Reaches.converges (reached.trans onward) Converges.start
  refine ⟨?_, ?_, ?_⟩
  · exact onward.extends location
  · exact converges.agreed location
  · exact converges.first location

/-- Two callers have loaded a location side by side, and the one that began later was faster. -/
def raced (slow fast : Value) : Scene :=
  let counted : Ledger := Ledger.countAttempt {}
  let overtaken : Ledger := (counted.countAttempt.settle "/a" (.ok fast)).2
  let begun := ({} : Scene).advance 0 counted (.fetching "/a" (.answered (.ok slow)))
  (begun.advance 1 overtaken .idle).advance 0 (overtaken.settle "/a" (.ok slow)).2 .idle

theorem reaches_raced (slow fast : Value) : Reaches {} (raced slow fast) := by
  have begins (answer : Except Fault Value) {ledger : Ledger}
      (absent : ledger.cache.known? "/a" = none) :
      Activity.Proceeds ledger .idle ledger.countAttempt (.fetching "/a" (.answered answer)) :=
    .head (.get "/a") (.head (.unknown absent) (.head (.fetch .count)
      (Activity.Advances.fetch (.load answer)).proceeds))
  have ends {ledger : Ledger} {answer : Except Fault Value} :
      Activity.Proceeds ledger (.fetching "/a" (.answered answer)) (ledger.settle "/a" answer).2
        .idle :=
    .head (.fetch .settle) Activity.Advances.fetched.proceeds
  apply ReflTransGen.trans
  · exact reaches_advance 0 (begins (.ok slow) rfl) rfl rfl
  apply ReflTransGen.trans
  · exact reaches_advance 1 (begins (.ok fast) rfl) rfl rfl
  apply ReflTransGen.trans
  · exact reaches_advance 1 ends rfl rfl
  rw [advance_advance]
  exact reaches_advance 0 ends rfl rfl

/-- A third caller, whose loader fails, is given the document of the faster one, too. -/
theorem first_document_wins_of_race :
    ∃ later : Scene, Reaches {} (raced (.int 1) (.int 2)) ∧
      Reaches (raced (.int 1) (.int 2)) later ∧
      later.ledger.given = [("/a", .int 2), ("/a", .int 2), ("/a", .int 2)] ∧
      (∀ document, (raced (.int 1) (.int 2)).ledger.kept "/a" = some document →
        later.ledger.kept "/a" = some document) ∧
      (∀ document, ("/a", document) ∈ later.ledger.given →
        later.ledger.kept "/a" = some document) ∧
      later.ledger.kept "/a" = later.ledger.offered.lookup "/a" := by
  obtain ⟨ledger, proceeds, -, given⟩ :=
    Activity.proceeds_get { documents := [] } (raced (.int 1) (.int 2)).ledger "/a"
  have reached := reaches_raced (.int 1) (.int 2)
  have onward := reaches_advance 2 proceeds rfl rfl
  exact ⟨_, reached, onward, given, first_document_wins reached onward "/a"⟩

end Scene

end Bindery
