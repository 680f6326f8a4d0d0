import Bindery.Proofs.Resolution.Descent
import Mathlib.Data.Finset.Card
import Mathlib.Data.Finset.Filter

/-!
# Loading ahead comes to an end

Documents are loaded ahead in rounds: a round loads what the documents of the
round before refer to.  A document that is loaded is one of the library and was
not kept before, so every round that loads something leaves fewer documents to
load, and a round that loads nothing is followed by the last one.

The rounds are counted, and the count is never what ends them: the outcome is
the same for any greater number of rounds and whatever is done after the last.
-/

namespace Bindery

open Cache List

variable {location : String} {document : Value} {locations fetched : List String} {workers : Int}

theorem Library.mem_of_load {library : Library} (loaded : library.load location = .ok document) :
    (location, .ok document) ∈ library.documents := by
  cases found : library.documents.lookup location with
  | none => simp [Library.load, found] at loaded
  | some result =>
    obtain rfl : result = .ok document := by simpa [Library.load, found] using loaded
    exact mem_of_lookup found

namespace Cache

variable {library : Library} {cache : Cache}

theorem contains_fetchAll (locations : List String) (kept : cache.contains location = true) :
    (cache.fetchAll library locations).2.contains location = true := by
  induction locations generalizing cache with
  | nil => exact kept
  | cons other rest ih =>
    have fetched : (cache.fetch library other).2.contains location = true := contains_fetch kept
    have later := ih fetched
    simp only [fetchAll]
    split <;> exact later

theorem contains_prefetch (workers : Int) (locations : List String)
    (kept : cache.contains location = true) :
    (cache.prefetch library workers locations).2.contains location = true := by
  simp only [prefetch]
  split
  · exact kept
  · split
    · exact kept
    · exact contains_fetchAll _ kept

/-- A document that could be loaded is one of the library, and it is kept. -/
theorem listed_of_fetch (loaded : (cache.fetch library location).1 = .ok document) :
    location ∈ library.documents.map Prod.fst ∧
      (cache.fetch library location).2.contains location = true := by
  unfold fetch settle at loaded ⊢
  split at loaded
  next value found =>
    constructor
    · exact mem_map.mpr ⟨_, Library.mem_of_load found, rfl⟩
    · exact contains_add_self value
  next => cases loaded
  next => cases loaded

/-- What could be loaded of some locations is part of them and of the library, and is kept. -/
theorem listed_of_fetchAll (loaded : (cache.fetchAll library locations).1 = .ok fetched) :
    ∀ location ∈ fetched, location ∈ locations ∧ location ∈ library.documents.map Prod.fst ∧
      (cache.fetchAll library locations).2.contains location = true := by
  induction locations generalizing cache fetched with
  | nil =>
    cases loaded
    simp
  | cons first rest ih =>
    have others {more : List String}
        (loaded : (fetchAll library (cache.fetch library first).2 rest).1 = .ok more) :
        ∀ location ∈ more,
          location ∈ first :: rest ∧ location ∈ library.documents.map Prod.fst ∧
            (fetchAll library (cache.fetch library first).2 rest).2.contains location =
              true := by
      intro location member
      rcases ih loaded location member with ⟨requested, kept⟩
      exact ⟨mem_cons_of_mem first requested, kept⟩
    simp only [fetchAll] at loaded ⊢
    split at loaded
    next document more here there =>
      cases loaded
      intro location member
      rcases mem_cons.mp member with rfl | later
      · rcases listed_of_fetch here with ⟨listed, kept⟩
        exact ⟨mem_cons_self, listed, contains_fetchAll rest kept⟩
      · exact others there location later
    next => exact others loaded
    next => cases loaded
    next => cases loaded

/-- What could be loaded ahead is part of the library, was not kept before and is kept now. -/
theorem listed_of_prefetch (loaded : (cache.prefetch library workers locations).1 = .ok fetched) :
    ∀ location ∈ fetched, location ∈ library.documents.map Prod.fst ∧
      cache.contains location = false ∧
      (cache.prefetch library workers locations).2.contains location = true := by
  simp only [prefetch] at loaded ⊢
  split at loaded
  next =>
    cases loaded
    simp
  next some =>
    split at loaded
    next => cases loaded
    next enough =>
      rw [if_neg some, if_neg enough]
      intro location member
      rcases listed_of_fetchAll loaded location member with ⟨requested, listed, kept⟩
      have new := (mem_filter.mp requested).2
      exact ⟨listed, by simpa using (Bool.and_eq_true_iff.mp new).1, kept⟩

end Cache

namespace Resolving

variable {sources : Sources}

/-- The documents of the library that are not kept. -/
def unloaded (sources : Sources) (findings : Findings) : Finset String :=
  (sources.library.documents.map Prod.fst).toFinset.filter fun location =>
    findings.cache.contains location = false

theorem card_unloaded_le (findings : Findings) :
    (unloaded sources findings).card ≤ sources.library.documents.length :=
  calc
    (unloaded sources findings).card ≤ (sources.library.documents.map Prod.fst).toFinset.card :=
      Finset.card_le_card (Finset.filter_subset _ _)
    _ ≤ (sources.library.documents.map Prod.fst).length := toFinset_card_le _
    _ = sources.library.documents.length := length_map _

theorem unloaded_subset {earlier later : Findings} (leads : still.leads earlier later) :
    unloaded sources later ⊆ unloaded sources earlier := by
  intro location
  simp only [unloaded, Finset.mem_filter, Bool.eq_false_iff]
  rintro ⟨listed, missing⟩
  exact ⟨listed, fun kept => missing (leads.2 location kept)⟩

/-- Loading something ahead leaves fewer documents to load. -/
theorem card_unloaded_lt {findings : Findings} {cache : Cache}
    (loads : findings.cache.prefetch sources.library workers locations = (.ok fetched, cache))
    (something : fetched ≠ []) :
    (unloaded sources { findings with cache }).card < (unloaded sources findings).card := by
  obtain rfl : (findings.cache.prefetch sources.library workers locations).2 = cache :=
    congrArg Prod.snd loads
  rcases exists_mem_of_ne_nil fetched something with ⟨location, member⟩
  obtain ⟨listed, missing, kept⟩ :=
    listed_of_prefetch (congrArg Prod.fst loads) location member
  have leads : still.leads findings { findings with
      cache := (findings.cache.prefetch sources.library workers locations).2 } :=
    ⟨rfl, fun _ before => contains_prefetch workers locations before⟩
  refine Finset.card_lt_card ((Finset.ssubset_iff_of_subset (unloaded_subset leads)).mpr
    ⟨location, ?_, ?_⟩)
  · exact Finset.mem_filter.mpr ⟨mem_toFinset.mpr listed, missing⟩
  · intro unloaded
    exact absurd (kept.symm.trans (Finset.mem_filter.mp unloaded).2) (by decide)

/-- What a round can come to: it ends, or it goes on from what it has loaded, which is nothing or
leaves fewer documents to load. -/
inductive Rounds (sources : Sources) (workers : Int) (frontier seen : List String)
    (findings : Findings) : Prop
  | ends (outcome : Except Fault Unit × Findings)
      (same : ∀ next, (prefetchRound sources workers next frontier seen).start findings = outcome)
  | continues (fetched seen' : List String) (later : Findings)
      (same : ∀ next, (prefetchRound sources workers next frontier seen).start findings =
        (next fetched seen').start later)
      (fewer : fetched ≠ [] → (unloaded sources later).card < (unloaded sources findings).card)

theorem rounds (sources : Sources) (workers : Int) (frontier seen : List String)
    (findings : Findings) : Rounds sources workers frontier seen findings := by
  by_cases empty : frontier.isEmpty
  · exact .ends (.ok (), findings) fun next => by simp [prefetchRound, empty]
  have leads : still.leads findings ((wanted sources frontier seen).start findings).2 :=
    wanted_still frontier seen findings
  rcases wants : (wanted sources frontier seen).start findings with ⟨fault | locations, middle⟩
  · exact .ends (.error fault, middle) fun next => by
      simp [prefetchRound, empty, Run.start_bind, wants]
  rw [wants] at leads
  rcases loads : middle.cache.prefetch sources.library workers locations with
    ⟨fault | fetched, cache⟩
  · exact .ends (.error fault, { middle with cache }) fun next => by
      simp [prefetchRound, empty, Run.start_bind, wants, start_onCache, loads]
  · refine .continues fetched (seen ++ locations) { middle with cache } (fun next => ?_) ?_
    · simp [prefetchRound, empty, Run.start_bind, wants, start_onCache, loads]
    · intro something
      exact Nat.lt_of_lt_of_le (card_unloaded_lt loads something)
        (Finset.card_le_card (unloaded_subset leads))

/-- With a round for each document to load and two more, the number of rounds does not matter, nor
what is done after the last one. -/
theorem start_rounds {last last' : List String → List String → Resolving Unit} {count count' : Nat}
    {frontier seen : List String} {findings : Findings}
    (enough : (unloaded sources findings).card + 2 ≤ count)
    (enough' : (unloaded sources findings).card + 2 ≤ count') :
    (Run.nest (prefetchRound sources workers) last count frontier seen).start findings =
      (Run.nest (prefetchRound sources workers) last' count' frontier seen).start findings := by
  induction count generalizing count' frontier seen findings with
  | zero => omega
  | succ count ih =>
    obtain ⟨count', rfl⟩ : ∃ below, count' = below + 1 := ⟨count' - 1, by omega⟩
    simp only [Run.nest]
    cases rounds sources workers frontier seen findings with
    | ends outcome same => rw [same, same]
    | continues fetched seen' later same fewer =>
      rw [same, same]
      by_cases nothing : fetched = []
      · -- Nothing was loaded, so the next round is the last one.
        obtain ⟨count, rfl⟩ : ∃ below, count = below + 1 := ⟨count - 1, by omega⟩
        obtain ⟨count', rfl⟩ : ∃ below, count' = below + 1 := ⟨count' - 1, by omega⟩
        subst nothing
        rfl
      · have less := fewer nothing
        exact ih (by omega) (by omega)

end Resolving

end Bindery
