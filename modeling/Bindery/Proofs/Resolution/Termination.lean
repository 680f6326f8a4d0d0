import Bindery.Proofs.Resolution.Calls
import Bindery.Proofs.Resolution.Loading
import Mathlib

/-!
# Resolving comes to an end

References may be cyclic in any way, yet resolving them comes to an end.  A
nested reference is written in one of finitely many documents, so there are
finitely many keys it can lead to, and each of them is registered before the
references in its target are resolved.

The resolver is given a depth at which it cuts nested references off.  That it
ends by itself is stated as follows: the outcome is the same for any greater
depth and whatever is done at the cut, so the cut is never reached.
-/

namespace Bindery

open Course List Library Registry Run

namespace Resolving

variable {sources : Sources} {text base : String}

/-! ## The keys that references can lead to -/

/-- The keys of the references written in a document. -/
def writtenKeys (working : List String) (location : String) (document : Value) : List String :=
  (Schema.asked .plain document).filterMap fun text =>
    (Reference.ofText working text location).toOption.map (·.key)

def documentKeys (working : List String) (document : String × Except Fault Value) : List String :=
  match document.2 with
  | .ok value => writtenKeys working document.1 value
  | .error _ => []

/-- The keys of the references written in any of the documents. -/
def candidates (sources : Sources) : List String :=
  writtenKeys sources.working sources.root.location sources.root.tree ++
    sources.library.documents.flatMap (documentKeys sources.working)

/-- No more references are nested than this. -/
def nestingBound (sources : Sources) : Nat :=
  2 * (sources.root.tree.weight + sources.library.weight)

theorem length_writtenKeys_le (working : List String) (location : String) (document : Value) :
    (writtenKeys working location document).length ≤ 2 * document.weight := by
  have asked := Schema.length_asked_le .plain document
  have fewer := length_filterMap_le (fun text =>
    (Reference.ofText working text location).toOption.map (·.key)) (Schema.asked .plain document)
  rw [writtenKeys]
  omega

theorem length_documentKeys_le (working : List String)
    (documents : List (String × Except Fault Value)) :
    (documents.flatMap (documentKeys working)).length ≤ 2 * weight { documents } := by
  induction documents with
  | nil => simp
  | cons document rest ih =>
    rcases document with ⟨location, fault | value⟩
    · simpa [weight, documentKeys] using ih
    · have here := length_writtenKeys_le working location value
      simp only [weight, documentKeys, flatMap_cons, length_append,
        map_cons, total_cons] at ih ⊢
      omega

theorem length_candidates_le (sources : Sources) :
    (candidates sources).length ≤ nestingBound sources := by
  have root := length_writtenKeys_le sources.working sources.root.location sources.root.tree
  have library := length_documentKeys_le sources.working sources.library.documents
  rw [candidates, length_append, nestingBound]
  simp only [weight] at library ⊢
  omega

/-- A written reference leads to one of these keys. -/
theorem mem_candidates (written : Writes sources base text) {reference : Reference}
    (reads : Reference.ofText sources.working text base = .ok reference) :
    reference.key ∈ candidates sources := by
  rcases written with ⟨document, provided, asked⟩
  have key : reference.key ∈ writtenKeys sources.working base document :=
    mem_filterMap.mpr ⟨text, asked, by simp [reads, Except.toOption]⟩
  rcases provided with ⟨rfl, rfl⟩ | loaded
  · exact mem_append_left _ key
  · exact mem_append_right _
      (mem_flatMap.mpr ⟨_, mem_of_load loaded, key⟩)

/-- The number of keys that references can lead to and that are not registered. -/
def remaining (sources : Sources) (findings : Findings) : Nat :=
  ((candidates sources).toFinset \ (keys findings.entries).toFinset).card

theorem remaining_le (findings : Findings) : remaining sources findings ≤ nestingBound sources :=
  calc
    remaining sources findings ≤ (candidates sources).toFinset.card :=
      Finset.card_le_card Finset.sdiff_subset
    _ ≤ (candidates sources).length := toFinset_card_le _
    _ ≤ nestingBound sources := length_candidates_le sources

variable {later findings : Findings} {depth : Nat}

theorem remaining_mono {earlier : Findings} (kept : keys earlier.entries ⊆ keys later.entries) :
    remaining sources later ≤ remaining sources earlier := by
  refine Finset.card_le_card (Finset.sdiff_subset_sdiff (Finset.Subset.refl _) ?_)
  intro key registered
  exact mem_toFinset.mpr (kept (mem_toFinset.mp registered))

theorem stable_remaining (depth : Nat) :
    (course sources).Stable fun findings => remaining sources findings < depth := by
  rintro earlier later ⟨⟨added, _, entries, _⟩, _⟩ fewer
  refine Nat.lt_of_le_of_lt (remaining_mono ?_) fewer
  rw [entries, Registry.keys_append]
  exact List.subset_append_left _ _

/-- Registering the target of a written reference leaves fewer keys to come. -/
theorem whenOpened_remaining (written : Writes sources base text)
    (fewer : remaining sources findings < depth + 1) :
    WhenOpened sources (fun findings => remaining sources findings < depth) text base findings := by
  intro opening reads fresh
  have candidate := mem_candidates written reads
  suffices less : remaining sources
      { findings with entries := findings.entries ++ [opening.registration .pending] } <
        remaining sources findings by omega
  refine Finset.card_lt_card ((Finset.ssubset_iff_of_subset ?_).mpr
    ⟨opening.reference.key, ?_, ?_⟩)
  · intro key
    simp only [Finset.mem_sdiff, List.mem_toFinset, Registry.keys_append, List.mem_append]
    rintro ⟨listed, new⟩
    exact ⟨listed, fun old => new (Or.inl old)⟩
  · simpa using ⟨candidate, fresh⟩
  · simp [Registry.keys, Opening.registration]

/-! ## The depth of nesting -/

section Depth

variable {last : String → String → Resolving Target} {lastLogged : String → String → Run Log Target}

/-- A reference is resolved soundly at a depth with room for the keys to come after its target is
registered, whatever is done below that depth. -/
theorem nest_keeps {room : Nat} (enough : room ≤ depth) (text base : String) :
    (course sources).Keeps
      (WhenOpened sources (fun findings => remaining sources findings < room) text base)
      (nest (visit sources) last (depth + 1) text base) Answered := by
  -- The induction is on the room and not on the depth: without room there are no keys to come, so
  -- nothing is nested, whatever the depth is.
  induction room generalizing depth text base with
  | zero =>
    refine visit_keeps (stable_remaining 0) (fun _ _ _ => ?_) text base
    exact fun _ _ fewer => absurd fewer (Nat.not_lt_zero _)
  | succ room ih =>
    rcases Nat.exists_eq_add_of_lt enough with ⟨depth, rfl⟩
    refine visit_keeps (stable_remaining (room + 1)) (fun text base written => ?_) text base
    exact (ih (Nat.le_add_right room depth) text base).weaken
      (fun _ fewer => whenOpened_remaining written fewer) fun _ _ answered => answered

/-- At two depths with room for the keys to come the same is done, with a log and without. -/
theorem nest_mirrors {room depth' : Nat} (enough : room ≤ depth) (enough' : room ≤ depth')
    (text base : String) : (course sources).Mirrors
      (WhenOpened sources (fun findings => remaining sources findings < room) text base) Prod.fst
      (nest (visitLogged sources) lastLogged (depth + 1) text base)
      (nest (visit sources) last (depth' + 1) text base) := by
  induction room generalizing depth depth' text base with
  | zero =>
    refine visitLogged_mirrors (stable_remaining 0) (fun _ _ _ => ?_) (fun _ _ _ => ?_) text base
    · exact fun _ _ fewer => absurd fewer (Nat.not_lt_zero _)
    · exact fun _ _ fewer => absurd fewer (Nat.not_lt_zero _)
  | succ room ih =>
    rcases Nat.exists_eq_add_of_lt enough with ⟨depth, rfl⟩
    rcases Nat.exists_eq_add_of_lt enough' with ⟨depth', rfl⟩
    have here := Nat.le_add_right room depth
    have there := Nat.le_add_right room depth'
    refine visitLogged_mirrors (stable_remaining (room + 1)) (fun text base written => ?_)
      (fun text base written => ?_) text base
    · exact (ih here there text base).weaken fun _ fewer => whenOpened_remaining written fewer
    · exact (nest_keeps there text base).weaken
        (fun _ fewer => whenOpened_remaining written fewer) fun _ _ answered => answered

theorem enough_below (enough : nestingBound sources + 2 ≤ depth) :
    ∃ below, depth = below + 1 ∧ nestingBound sources + 1 ≤ below :=
  ⟨depth - 1, by omega, by omega⟩

theorem whenOpened_remaining_of_bound (findings : Findings) :
    WhenOpened sources (fun findings => remaining sources findings < nestingBound sources + 1)
      text base findings :=
  fun _ _ _ => Nat.lt_succ_of_le (remaining_le _)

theorem nest_keeps_of_le (enough : nestingBound sources + 2 ≤ depth) (text base : String) :
    (course sources).Keeps (fun _ => True) (nest (visit sources) last depth text base)
      Answered := by
  rcases enough_below enough with ⟨below, rfl, room⟩
  refine (nest_keeps room text base).weaken (fun findings _ => ?_) fun _ _ answered => answered
  exact whenOpened_remaining_of_bound findings

/-- Above the bound of nesting the depth does not matter, nor what is done below it. -/
theorem nest_mirrors_of_le {depth' : Nat} (enough : nestingBound sources + 2 ≤ depth)
    (enough' : nestingBound sources + 2 ≤ depth') (text base : String) :
    (course sources).Mirrors (fun _ => True) Prod.fst
      (nest (visitLogged sources) lastLogged depth text base)
      (nest (visit sources) last depth' text base) := by
  rcases enough_below enough with ⟨below, rfl, room⟩
  rcases enough_below enough' with ⟨below', rfl, room'⟩
  refine (nest_mirrors room room' text base).weaken fun findings _ => ?_
  exact whenOpened_remaining_of_bound findings

theorem componentsBy_mirrors {first : String → Run Log Target} {second : String → Resolving Target}
    (resolve : ∀ text, (course sources).Mirrors (fun _ => True) Prod.fst (first text) (second text))
    (keeps : ∀ text, (course sources).Keeps (fun _ => True) (second text) Answered) :
    (course sources).Mirrors (fun _ => True) Prod.fst (componentsBy sources first)
      (componentsBy sources second) := by
  refine .bind (.ofExcept _)
    (.ofExcept fun _ _ _ _ => trivial) fun components => ?_
  refine .bind (.ofExcept _)
    (.ofExcept fun _ _ _ _ => trivial) fun names => ?_
  refine .forM stable_true (fun name _ => ?_) fun name _ => ?_
  · refine .bind (.ofExcept _)
      (.ofExcept fun _ _ _ _ => trivial) fun text => ?_
    exact .bind (resolve _) (keeps _) fun _ _ _ _ => rfl
  · refine .ofExcept_bind fun text _ => ?_
    exact .bind (keeps _) fun _ => .pure fun _ _ => trivial

/-! ### Above the bound -/

variable {depth : Nat}

variable (ample : nestingBound sources + 2 ≤ sources.bound) (enough : sources.bound ≤ depth)

include ample enough

theorem referenceLogged_mirrors (text base : String) :
    (course sources).Mirrors (fun _ => True) Prod.fst (referenceLogged sources text base)
      (nest (visit sources) last depth text base) :=
  nest_mirrors_of_le ample (ample.trans enough) text base

theorem componentsLogged_mirrors :
    (course sources).Mirrors (fun _ => True) Prod.fst (componentsLogged sources)
      (componentsBy sources fun text =>
        nest (visit sources) last depth text sources.root.location) :=
  componentsBy_mirrors
    (fun text => referenceLogged_mirrors ample enough text sources.root.location)
    fun text => nest_keeps_of_le (ample.trans enough) text sources.root.location

end Depth

/-! ## Descending once -/

theorem Fresh.nodup {registered : List String} {descents : List Descent}
    (fresh : Fresh registered descents) (distinct : registered.Nodup) :
    (registered ++ descents.map (·.key)).Nodup := by
  induction descents generalizing registered with
  | nil => simpa using distinct
  | cons descent rest ih =>
    rcases fresh with ⟨_, new, fresh⟩
    have longer : (registered ++ [descent.key]).Nodup :=
      Nodup.append distinct (nodup_singleton _) (by simpa using new)
    simpa using ih fresh longer

/-- What the log of a run says: without it the outcome is the same, the keys of its descents are
new one after the other, they are what is registered in the end, and no key is registered twice. -/
structure DescendsOnce {α : Type} (earlier : Findings) (outcome : Except Fault α × Findings)
    (logged : Except Fault α × Log) : Prop where
  result : outcome.1 = logged.1
  findings : outcome.2 = logged.2.1
  fresh : Fresh (keys earlier.entries) logged.2.2
  registers : keys outcome.2.entries =
    keys earlier.entries ++ logged.2.2.map (·.key)
  once : (keys outcome.2.entries).Nodup

theorem descendsOnce {α : Type} {step : Resolving α} {logged : Run Log α}
    (mirrors : (course sources).Mirrors (fun _ => True) Prod.fst logged step)
    (follows : descending.Follows logged) (sound : findings.Sound sources) :
    DescendsOnce findings (step.start findings) (logged.start (findings, [])) := by
  rcases follows (findings, []) with ⟨descents, made, fresh, keys⟩
  have same := mirrors (findings, []) sound trivial
  rw [nil_append] at made
  -- The log alone says that the keys are distinct, so this holds even of a run that was stopped.
  rw [same]
  refine ⟨rfl, rfl, made ▸ fresh, made ▸ keys, ?_⟩
  rw [keys]
  exact fresh.nodup sound.distinct

theorem standing_of_components (sound : findings.Sound sources)
    (settled : ∀ entry ∈ findings.entries, entry.standing.isPending = false)
    (ended : (components sources).start findings = (.ok (), later)) :
    ∀ entry ∈ later.entries, (∃ node, entry.standing = .done node) ∨
      ∃ message, entry.standing = .failed message := by
  intro entry member
  rcases components_keeps.elim sound trivial ended with ⟨⟨⟨added, _, entries, settled', _⟩, _⟩, _⟩
  have read : entry.standing.isPending = false := by
    rw [entries] at member
    rcases mem_append.mp member with before | after
    · exact settled entry before
    · exact settled' entry after
  cases standing : entry.standing with
  | pending => simp [standing, Standing.isPending] at read
  | done node => exact Or.inl ⟨node, rfl⟩
  | failed message => exact Or.inr ⟨message, rfl⟩

/--
After any sequence of requests, resolving a reference or all components and
loading documents ahead come to an end by themselves: the outcome is the same
for any greater depth of nesting or number of rounds, whatever would be done
beyond.  References descend only into keys that are not registered, each once,
and when the components are resolved every registered schema is done or failed.
-/
theorem references_terminate (library : Library) (working : List String) (root : NormalDocument)
    (calls : List Call) (findings : Findings)
    (ran : (perform (Sources.of library working root) calls).start
      (Findings.start (Sources.of library working root)) = (.ok (), findings)) :
    let sources := Sources.of library working root
    (∀ last depth text base, sources.bound ≤ depth →
      (Run.nest (visit sources) last depth text base).start findings =
        (reference sources text base).start findings) ∧
    (∀ last depth, sources.bound ≤ depth →
      (componentsBy sources fun text =>
        Run.nest (visit sources) last depth text root.location).start findings =
          (components sources).start findings) ∧
    (∀ last rounds, roundBound sources ≤ rounds →
      (Run.nest (prefetchRound sources workerCount) last rounds [root.location]
        [root.location]).start findings = (prefetch sources).start findings) ∧
    (∀ text base, DescendsOnce findings ((reference sources text base).start findings)
      ((referenceLogged sources text base).start (findings, []))) ∧
    DescendsOnce findings ((components sources).start findings)
      ((componentsLogged sources).start (findings, [])) ∧
    ∀ later, (components sources).start findings = (.ok (), later) →
      ∀ entry ∈ later.entries, (∃ node, entry.standing = .done node) ∨
        ∃ message, entry.standing = .failed message := by
  intro sources
  rcases settled_of_perform ran with ⟨sound, settled⟩
  have ample : nestingBound sources + 2 ≤ sources.bound := Nat.le_refl _
  have few : (unloaded sources findings).card + 2 ≤ roundBound sources :=
    Nat.add_le_add_right (card_unloaded_le findings) 2
  refine ⟨?_, ?_, ?_, ?_, ?_, ?_⟩
  · intro last depth text base enough
    exact (referenceLogged_mirrors ample enough text base).start_eq
      (referenceLogged_mirrors ample (Nat.le_refl _) text base)
      (show (course sources).sound ((findings, []) : Log).1 from sound) trivial
  · intro last depth enough
    exact (componentsLogged_mirrors ample enough).start_eq
      (componentsLogged_mirrors ample (Nat.le_refl _))
      (show (course sources).sound ((findings, []) : Log).1 from sound) trivial
  · intro last rounds enough
    exact start_rounds (few.trans enough) few
  · intro text base
    exact descendsOnce (referenceLogged_mirrors ample (Nat.le_refl _) text base)
      (referenceLogged_descending text base) sound
  · exact descendsOnce (componentsLogged_mirrors ample (Nat.le_refl _))
      componentsLogged_descending sound
  · intro later ended
    exact standing_of_components sound settled ended

/-- A document with a schema that is a reference to itself, and two that are references to each
other. -/
def cyclicSources : Sources :=
  Sources.of { documents := [] } []
    { location := "/a", dialect := .v31
      root := [(.str "s", .map [(.str "$ref", .str "#s")]),
        (.str "k", .map [(.str "$ref", .str "#l")]), (.str "l", .map [(.str "$ref", .str "#k")])] }

def cyclicFindings : Findings where
  cache := { documents := [("/a", cyclicSources.root.tree)] }
  entries :=
    [{ key := "/a#s", location := "/a", proposed := "s"
       standing := .done (.composition {} .allOf [.reference {} "/a#s" true] none) }]
  completion := ["/a#s"]

theorem references_terminate_of_cyclic :
    (perform cyclicSources [.reference "#s" "/a"]).start (Findings.start cyclicSources) =
      (.ok (), cyclicFindings) ∧
    (∀ last depth, cyclicSources.bound ≤ depth →
      (Run.nest (visit cyclicSources) last depth "#k" "/a").start cyclicFindings =
        (reference cyclicSources "#k" "/a").start cyclicFindings) ∧
    ((referenceLogged cyclicSources "#k" "/a").start (cyclicFindings, [])).2.2 =
      [⟨"/a#k", ["/a#s"]⟩, ⟨"/a#l", ["/a#s", "/a#k"]⟩] ∧
    Registry.keys ((reference cyclicSources "#k" "/a").start cyclicFindings).2.entries =
      ["/a#s", "/a#k", "/a#l"] := by
  have ran : (perform cyclicSources [.reference "#s" "/a"]).start
      (Findings.start cyclicSources) = (.ok (), cyclicFindings) := by
    cbv
  have descents : ((referenceLogged cyclicSources "#k" "/a").start (cyclicFindings, [])).2.2 =
      [⟨"/a#k", ["/a#s"]⟩, ⟨"/a#l", ["/a#s", "/a#k"]⟩] := by
    cbv
  rcases references_terminate _ _ _ _ _ ran with ⟨ends, _, _, descends, _⟩
  have once : DescendsOnce cyclicFindings ((reference cyclicSources "#k" "/a").start cyclicFindings)
      ((referenceLogged cyclicSources "#k" "/a").start (cyclicFindings, [])) :=
    descends "#k" "/a"
  refine ⟨ran, fun last depth => ends last depth "#k" "/a", descents, ?_⟩
  rw [once.registers, descents]
  rfl

end Resolving

end Bindery
