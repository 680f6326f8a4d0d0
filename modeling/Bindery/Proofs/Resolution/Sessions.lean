import Bindery.Proofs.Resolution.Provision
import Bindery.Proofs.Value.Entries

/-!
# Sessions with a cache

A session is a sequence of calls to a cache.  Its loader need not answer twice in the same way, so
each call comes with the answers that the loader gives during that call.

Every call either hands in a document, or loads some locations about which nothing is known, each
once.  What a load came to is known from then on, so no location is loaded twice, a document is
never replaced, and a failure is only replaced by a document that is handed in.
-/

namespace Bindery

open List

/-- A document: any value but null. -/
abbrev Document := { value : Value // value ≠ .null }

/-- What a loader answers for each location. -/
def Loader := String → Except DocumentFault Document

namespace Loader

def answer (loader : Loader) (location : String) : Except Fault Value :=
  match loader location with
  | .ok document => .ok document.1
  | .error cause => .error (.document cause)

/-- The library of what a loader answers for some locations. -/
def library (loader : Loader) (locations : List String) : Library where
  documents := locations.map fun location => (location, loader.answer location)

/-- What is known about a location that was loaded. -/
def remembered (loader : Loader) (location : String) : Except ResolutionFault Value :=
  match loader location with
  | .ok document => .ok document.1
  | .error cause => .error (.unloadable location cause)

theorem load_library (loader : Loader) {locations : List String} {location : String}
    (member : location ∈ locations) :
    (loader.library locations).load location = loader.answer location := by
  have found : (loader.library locations).documents.lookup location =
      some (loader.answer location) := by
    rw [library]
    induction locations with
    | nil => cases member
    | cons first rest ih =>
      rw [map_cons, lookup_cons]
      by_cases same : location = first
      · simp [same]
      · simp [beq_false_of_ne same, ih ((mem_cons.mp member).resolve_left same)]
  rw [Library.load, found, Option.getD_some]

end Loader

namespace Cache

/-! ## Calls -/

inductive Call where
  | add (location : String) (document : Document)
  | get (location : String)
  | contains (location : String)
  | prefetch (locations : List String)

/-- Whether a call hands in a document for a location. -/
def Call.adds (location : String) : Call → Bool
  | .add other _ => other = location
  | _ => false

/-- The cache after a call, with what the loader answers during it. -/
def step (workers : Int) (cache : Cache) : Loader × Call → Cache
  | (_, .add location document) => (cache.add location document.1).2
  | (loader, .get location) => (cache.get (loader.library [location]) location).2
  | (_, .contains _) => cache
  | (loader, .prefetch locations) =>
    (cache.prefetch (loader.library locations) workers locations).2

/-- A cache, and the locations that its loader was called for so far. -/
structure Traced where
  cache : Cache := {}
  loads : List String := []

namespace Traced

def fetch (library : Library) (traced : Traced) (location : String) : Traced where
  cache := (traced.cache.fetch library location).2
  loads := traced.loads ++ [location]

/-- What a call does, as calls of the loader. -/
def step (traced : Traced) : Loader × Call → Traced
  | (_, .add location document) =>
    { traced with cache := (traced.cache.add location document.1).2 }
  | (loader, .get location) =>
    if (traced.cache.known? location).isNone then traced.fetch (loader.library [location]) location
    else traced
  | (_, .contains _) => traced
  | (loader, .prefetch locations) =>
    (traced.cache.pending locations).foldl (fetch (loader.library locations)) traced

def run (traced : Traced) (calls : List (Loader × Call)) : Traced :=
  calls.foldl step traced

theorem cache_foldl_fetch (library : Library) (traced : Traced) (locations : List String) :
    (locations.foldl (fetch library) traced).cache =
      (traced.cache.fetchAll library locations).2 := by
  induction locations generalizing traced with
  | nil => rfl
  | cons location rest ih =>
    rw [foldl_cons, ih]
    simp only [fetchAll, fetch]
    split <;> rfl

theorem cache_step {workers : Int} (somebody : 0 < workers) (traced : Traced)
    (call : Loader × Call) : (traced.step call).cache = traced.cache.step workers call := by
  obtain ⟨loader, call⟩ := call
  cases call with
  | add location document => rfl
  | get location =>
    simp only [step, Cache.step, get]
    cases traced.cache.known? location with
    | none => rfl
    | some result => cases result <;> rfl
  | contains location => rfl
  | prefetch locations =>
    simp only [step, Cache.step, prefetch, cache_foldl_fetch, if_neg (Int.not_le.mpr somebody),
      List.isEmpty_iff]
    split
    next nothing => rw [nothing, fetchAll]
    next => rfl

theorem cache_run {workers : Int} (somebody : 0 < workers) (traced : Traced)
    (calls : List (Loader × Call)) :
    (traced.run calls).cache = calls.foldl (Cache.step workers) traced.cache := by
  induction calls generalizing traced with
  | nil => rfl
  | cons call rest ih =>
    rw [List.foldl_cons, ← cache_step somebody]
    exact ih (traced.step call)

end Traced

/-! ## What a call changes -/

/-- No null is kept for a document. -/
def Proper (cache : Cache) : Prop :=
  ∀ location, cache.documents.lookup location ≠ some .null

variable {cache : Cache} {location : String} {loader : Loader} {library : Library}

section

variable (proper : cache.Proper)

include proper

theorem Proper.known?_eq (location : String) :
    cache.known? location = ((cache.documents.lookup location).map .ok).or
      ((cache.failures.lookup location).map .error) := by
  unfold known?
  cases found : cache.documents.lookup location with
  | none => rfl
  | some document =>
    have present : document ≠ .null := fun null => proper location (by rw [found, null])
    simp [Option.filter, present]

theorem Proper.add (absent : cache.documents.lookup location = none) (document : Document) :
    (cache.add location document.1).1 = document.1 ∧ (cache.add location document.1).2.Proper ∧
      ∀ other, (cache.add location document.1).2.known? other =
        if other = location then some (.ok document.1) else cache.known? other := by
  have added : cache.add location document.1 = (document.1,
      { cache with documents := cache.documents ++ [(location, document.1)] }) := by
    simp [Cache.add, absent]
  have looked (other : String) : (cache.add location document.1).2.documents.lookup other =
      if other = location then some document.1 else cache.documents.lookup other := by
    rw [added]
    exact lookup_append_singleton absent
  have proper' : (cache.add location document.1).2.Proper := by
    intro other
    rw [looked]
    split
    · simpa using document.2
    · exact proper other
  refine ⟨by rw [added], proper', fun other => ?_⟩
  rw [proper'.known?_eq, looked, proper.known?_eq, added]
  split <;> rfl

/-- Loading a location about which nothing is known. -/
theorem Proper.fetch (unknown : cache.known? location = none)
    (answers : library.load location = loader.answer location) :
    ∃ later, cache.fetch library location =
        ((loader.remembered location).mapError .resolution, later) ∧
      later.Proper ∧ later.fetchCount = cache.fetchCount + 1 ∧
      ∀ other, later.known? other =
        if other = location then some (loader.remembered location) else cache.known? other := by
  have nothing := unknown
  rw [proper.known?_eq, Option.or_eq_none_iff, Option.map_eq_none_iff,
    Option.map_eq_none_iff] at nothing
  obtain ⟨absent, untried⟩ := nothing
  have counted : cache.countAttempt.Proper := proper
  have rest : cache.countAttempt.documents.lookup location = none := absent
  rw [Cache.fetch, answers, Loader.answer, Loader.remembered]
  cases loader location with
  | ok document =>
    obtain ⟨same, proper', known⟩ := counted.add rest document
    have count : (cache.countAttempt.add location document.1).2.fetchCount =
        cache.fetchCount + 1 := by
      rw [Cache.add, rest]
      rfl
    have settled : cache.countAttempt.settle location (.ok document.1) =
        (.ok document.1, (cache.countAttempt.add location document.1).2) := by
      simp only [settle, same]
    exact ⟨_, settled, proper', count, known⟩
  | error cause =>
    have added : cache.countAttempt.settle location (.error (.document cause)) =
        (.error (.resolution (.unloadable location cause)), { cache.countAttempt with
          failures := cache.failures ++ [(location, .unloadable location cause)] }) := by
      simp [settle, Cache.addFailure, countAttempt, untried]
    have proper' : Proper { cache.countAttempt with
        failures := cache.failures ++ [(location, .unloadable location cause)] } := proper
    refine ⟨_, added, proper', rfl, fun other => ?_⟩
    rw [proper'.known?_eq, proper.known?_eq]
    dsimp only
    rw [lookup_append_singleton untried]
    by_cases same : other = location
    · simp [same, countAttempt, absent]
    · simp [same, countAttempt]

theorem Proper.pending_eq (locations : List String) : cache.pending locations =
      locations.eraseDups.filter fun location => (cache.known? location).isNone := by
  refine filter_congr fun location _ => ?_
  rw [proper.known?_eq, contains]
  cases cache.documents.lookup location <;> simp

end

namespace Traced

/-- Between two states some locations were loaded. -/
structure Loaded (loader : Loader) (earlier : Traced) (locations : List String) (later : Traced) :
    Prop where
  proper : later.cache.Proper
  loads : later.loads = earlier.loads ++ locations
  count : later.cache.fetchCount = earlier.cache.fetchCount + locations.length
  known : ∀ location, later.cache.known? location =
    if location ∈ locations then some (loader.remembered location)
    else earlier.cache.known? location

variable {traced : Traced}

/-- Loading some locations, each once, about which nothing is known. -/
theorem loaded_foldl_fetch (proper : traced.cache.Proper) {wanted : List String}
    (distinct : wanted.Nodup)
    (answers : ∀ location ∈ wanted, library.load location = loader.answer location)
    (unknown : ∀ location ∈ wanted, traced.cache.known? location = none) :
    Loaded loader traced wanted (wanted.foldl (fetch library) traced) ∧
      (traced.cache.fetchAll library wanted).1 =
        .ok (wanted.filter fun location => (loader location).isOk) := by
  induction wanted generalizing traced with
  | nil => exact ⟨⟨proper, by simp, rfl, by simp⟩, rfl⟩
  | cons location rest ih =>
    obtain ⟨apart, distinct'⟩ := nodup_cons.mp distinct
    obtain ⟨here, others⟩ := forall_mem_cons.mp answers
    obtain ⟨middle, fetched, proper', count, known⟩ :=
      proper.fetch (unknown location mem_cons_self) here
    have step : traced.fetch library location =
        ⟨middle, traced.loads ++ [location]⟩ := by
      rw [fetch, fetched]
    have unknown' : ∀ other ∈ rest, middle.known? other = none := by
      intro other member
      have differs : other ≠ location := fun same => apart (same ▸ member)
      rw [known, if_neg differs]
      exact unknown other (mem_cons_of_mem _ member)
    obtain ⟨⟨proper'', loads, count', known'⟩, returned⟩ :=
      @ih ⟨middle, traced.loads ++ [location]⟩ proper' distinct' others unknown'
    rw [foldl_cons, step]
    refine ⟨⟨proper'', ?_, ?_, fun other => ?_⟩, ?_⟩
    · rw [loads, append_assoc, singleton_append]
    · rw [count', count, length_cons]
      omega
    · rw [known', known]
      by_cases same : other = location
      · simp [same, apart]
      · simp [same]
    · simp only [fetchAll, fetched, returned, Loader.remembered, filter_cons]
      cases loader location <;> rfl

/-- No location was loaded twice, every load was counted, and what it came to is known. -/
structure Sound (traced : Traced) : Prop where
  proper : traced.cache.Proper
  once : traced.loads.Nodup
  count : traced.cache.fetchCount = traced.loads.length
  known : ∀ location ∈ traced.loads, traced.cache.known? location ≠ none

theorem Sound.loaded_pending (sound : traced.Sound) (loader : Loader) (locations : List String) :
    (traced.cache.pending locations).Nodup ∧
      (∀ location ∈ traced.cache.pending locations, traced.cache.known? location = none) ∧
      Loaded loader traced (traced.cache.pending locations)
        (traced.step (loader, .prefetch locations)) ∧
      (traced.cache.fetchAll (loader.library locations) (traced.cache.pending locations)).1 =
        .ok ((traced.cache.pending locations).filter fun location => (loader location).isOk) := by
  have distinct : (traced.cache.pending locations).Nodup := (nodup_eraseDups locations).filter _
  have listed : ∀ location ∈ traced.cache.pending locations,
      location ∈ locations ∧ traced.cache.known? location = none := by
    rw [sound.proper.pending_eq]
    simp
  have unknown := fun location member => (listed location member).2
  exact ⟨distinct, unknown, loaded_foldl_fetch sound.proper distinct
    (fun location member => loader.load_library (listed location member).1) unknown⟩

/-- A call hands in a document, or it loads locations about which nothing is known. -/
theorem Sound.step_cases (sound : traced.Sound) (loader : Loader) (call : Call) :
    (∃ location document, call = .add location document ∧
      traced.step (loader, call) =
        { traced with cache := (traced.cache.add location document.1).2 }) ∨
    ∃ wanted, wanted.Nodup ∧ (∀ location ∈ wanted, traced.cache.known? location = none) ∧
      Loaded loader traced wanted (traced.step (loader, call)) := by
  have nothing : Loaded loader traced [] traced := ⟨sound.proper, by simp, rfl, by simp⟩
  cases call with
  | add location document => exact .inl ⟨location, document, rfl, rfl⟩
  | get location =>
    right
    rw [step]
    split
    next unknown =>
      have unknown' : ∀ other ∈ [location], traced.cache.known? other = none :=
        forall_mem_singleton.mpr (Option.isNone_iff_eq_none.mp unknown)
      exact ⟨[location], nodup_singleton _, unknown',
        (loaded_foldl_fetch sound.proper (nodup_singleton _)
          (fun _ => loader.load_library) unknown').1⟩
    next => exact ⟨[], nodup_nil, forall_mem_nil _, nothing⟩
  | contains location => exact .inr ⟨[], nodup_nil, forall_mem_nil _, nothing⟩
  | prefetch locations =>
    obtain ⟨distinct, unknown, loaded, -⟩ := sound.loaded_pending loader locations
    exact .inr ⟨_, distinct, unknown, loaded⟩

/-- What stays true from one state of a session to a later one, in which a document may have been
handed in for some locations. -/
structure Remembers (added : String → Prop) (earlier later : Traced) : Prop where
  sound : later.Sound
  document : ∀ location document, earlier.cache.known? location = some (.ok document) →
    later.cache.known? location = some (.ok document)
  failure : ∀ location failure, earlier.cache.known? location = some (.error failure) →
    ¬added location → later.cache.known? location = some (.error failure)

theorem Sound.step (sound : traced.Sound) (call : Loader × Call) :
    Remembers (call.2.adds · = true) traced (traced.step call) ∧
      ∀ location ∈ (traced.step call).loads, location ∉ traced.loads →
        (traced.step call).cache.known? location = some (call.1.remembered location) := by
  obtain ⟨loader, call⟩ := call
  rcases sound.step_cases loader call with ⟨location, document, rfl, stepped⟩ |
    ⟨wanted, distinct, unknown, loaded⟩
  · rw [stepped]
    cases found : traced.cache.documents.lookup location with
    | some kept =>
      have same : (traced.cache.add location document.1).2 = traced.cache := by
        rw [Cache.add, found]
      rw [same]
      exact ⟨⟨sound, fun _ _ known => known, fun _ _ known _ => known⟩,
        fun _ member absent => absurd member absent⟩
    | none =>
      obtain ⟨-, proper, known⟩ := sound.proper.add found document
      refine ⟨⟨⟨proper, sound.once, ?_, fun other member => ?_⟩, fun other value had => ?_,
        fun other value had otherwise => ?_⟩, fun _ member absent => absurd member absent⟩
      · rw [Cache.add, found]
        exact sound.count
      · rw [known]
        split
        · simp
        · exact sound.known other member
      · have kept := lookup_of_known? had
        rw [known, if_neg, had]
        rintro rfl
        rw [kept] at found
        cases found
      · rw [known, if_neg, had]
        rintro rfl
        exact otherwise (by simp [Call.adds])
  · have old {other : String} {result : Except ResolutionFault Value}
        (had : traced.cache.known? other = some result) :
        (traced.step (loader, call)).cache.known? other = some result := by
      rw [loaded.known, if_neg, had]
      intro member
      rw [unknown other member] at had
      cases had
    refine ⟨⟨⟨loaded.proper, ?_, ?_, fun other member => ?_⟩, fun _ _ => old,
      fun _ _ had _ => old had⟩, fun other member absent => ?_⟩
    · rw [loaded.loads]
      refine sound.once.append distinct fun other early late => ?_
      exact sound.known other early (unknown other late)
    · rw [loaded.count, loaded.loads, length_append, sound.count]
    · rw [loaded.known]
      split
      · simp
      next late =>
        rw [loaded.loads] at member
        exact sound.known other ((mem_append.mp member).resolve_right late)
    · rw [loaded.loads] at member
      rw [loaded.known, if_pos ((mem_append.mp member).resolve_left absent)]

theorem Sound.run (sound : traced.Sound) (calls : List (Loader × Call)) :
    Remembers (fun location => ∃ call ∈ calls, call.2.adds location = true) traced
      (traced.run calls) := by
  induction calls generalizing traced with
  | nil => exact ⟨sound, fun _ _ known => known, fun _ _ known _ => known⟩
  | cons call rest ih =>
    obtain ⟨⟨sound', document, failure⟩, -⟩ := sound.step call
    obtain ⟨sound'', document', failure'⟩ := ih sound'
    refine ⟨sound'', fun location value known => document' _ _ (document _ _ known),
      fun location value known unadded => ?_⟩
    refine failure' _ _ (failure _ _ known fun adds => unadded ⟨call, mem_cons_self, adds⟩) ?_
    rintro ⟨other, member, adds⟩
    exact unadded ⟨other, mem_cons_of_mem _ member, adds⟩

end Traced

/-! ## Sessions -/

/-- In every session each location is loaded at most once and each load is counted; what a load came
to is known from then on.  A document is given to everybody who asks and replaced by none; a
failure is reported without another load until a document is handed in.  Loading ahead returns
the distinct locations about which nothing was known and that could be loaded. -/
theorem session_remembers {workers : Int} (somebody : 0 < workers)
    (before after : List (Loader × Call)) :
    let earlier := ({} : Traced).run before
    let later := earlier.run after
    later.cache = (before ++ after).foldl (step workers) {} ∧
    (later.loads.Nodup ∧ later.cache.fetchCount = later.loads.length) ∧
    (∀ loader call, ∀ location ∈ (later.step (loader, call)).loads, location ∉ later.loads →
      (later.step (loader, call)).cache.known? location = some (loader.remembered location)) ∧
    (∀ (loader : Loader) location, later.cache.known? location = none →
      (later.cache.get (loader.library [location]) location).1 =
        (loader.remembered location).mapError .resolution) ∧
    (∀ location document, earlier.cache.known? location = some (.ok document) →
      (∀ library, later.cache.get library location = (.ok document, later.cache)) ∧
      ∀ other, later.cache.add location other = (document, later.cache)) ∧
    (∀ location failure, earlier.cache.known? location = some (.error failure) →
      (∀ document : Document, (earlier.cache.add location document.1).2.known? location =
        some (.ok document.1)) ∧
      ((∀ call ∈ after, call.2.adds location = false) →
        ∀ library, later.cache.get library location =
          (.error (.resolution failure), later.cache))) ∧
    ∀ (loader : Loader) locations,
      (later.cache.prefetch (loader.library locations) workers locations).1 =
        .ok (locations.eraseDups.filter fun location =>
          (later.cache.known? location).isNone && (loader location).isOk) := by
  intro earlier later
  have start : ({} : Traced).Sound := ⟨fun _ => nofun, List.nodup_nil, rfl, List.forall_mem_nil _⟩
  have sound : earlier.Sound := (start.run before).sound
  obtain ⟨sound', documents, failures⟩ := sound.run after
  have proper := sound'.proper
  refine ⟨?_, ⟨sound'.once, sound'.count⟩, fun loader call => (sound'.step (loader, call)).2,
    fun loader location unknown => ?_, fun location document known => ⟨fun library => ?_,
    fun other => ?_⟩, fun location failure known => ⟨fun document => ?_, fun unadded library => ?_⟩,
    fun loader locations => ?_⟩
  · rw [← Traced.cache_run somebody {}, Traced.run, List.foldl_append]
    rfl
  · obtain ⟨_, fetched, -⟩ :=
      proper.fetch unknown (loader.load_library (List.mem_singleton_self location))
    rw [get, unknown]
    exact congrArg Prod.fst fetched
  · rw [get, documents _ _ known]
  · rw [add, lookup_of_known? (documents _ _ known)]
  · have absent : earlier.cache.documents.lookup location = none := by
      rw [sound.proper.known?_eq] at known
      cases found : earlier.cache.documents.lookup location with
      | none => rfl
      | some kept => simp [found] at known
    rw [(sound.proper.add absent document).2.2, if_pos rfl]
  · rw [get, failures _ _ known]
    rintro ⟨call, member, adds⟩
    rw [unadded call member] at adds
    cases adds
  · have all : (later.cache.prefetch (loader.library locations) workers locations).1 =
        (later.cache.fetchAll (loader.library locations) (later.cache.pending locations)).1 := by
      simp only [prefetch, if_neg (Int.not_le.mpr somebody), List.isEmpty_iff]
      split
      next nothing => rw [nothing, fetchAll]
      next => rfl
    rw [all, (sound'.loaded_pending loader locations).2.2.2, proper.pending_eq, List.filter_filter]
    simp only [Bool.and_comm]
    rfl

/-- A loader that has a document at one location only. -/
def onlyRoot : Loader := fun location =>
  if location = "root" then .ok ⟨.scalar (.int 1), nofun⟩ else .error (.notFound location)

/-- A session that asks again for what failed, and for what it has. -/
def asksAgain : List (Loader × Call) :=
  [(onlyRoot, .get "gone"), (onlyRoot, .prefetch ["root", "gone", "root"]), (onlyRoot, .get "root"),
    (onlyRoot, .add "gone" ⟨.scalar (.int 2), nofun⟩)]

theorem session_remembers_of_asksAgain :
    (({} : Traced).run asksAgain).loads = ["gone", "root"] ∧
      (asksAgain.foldl (step 1) {}).fetchCount = 2 := by
  have remembers := @session_remembers 1 (by decide) asksAgain []
  have loads : (({} : Traced).run asksAgain).loads = ["gone", "root"] := by decide +kernel
  refine ⟨loads, ?_⟩
  have whole := congrArg fetchCount remembers.1
  rw [append_nil] at whole
  rw [← whole, remembers.2.1.2]
  exact congrArg length loads

end Cache

end Bindery
