import Bindery.Proofs.Resolution.Reach

/-!
# The traces of a run

After any sequence of requests every registered schema is one that some reference
leads to, and it has ended as the sources say.  What it has forward references to
leads to it, since a schema is pending only while those on the way from it are
read.

A request that resolves references adds schemas on the way from them, and any
other request leaves the registered schemas as they are.
-/

namespace Bindery

open Relation Findings

/-- Findings of a run: they are sound, and the cache agrees with the sources. -/
structure Findings.Steady (sources : Sources) (findings : Findings) : Prop where
  sound : findings.Sound sources
  agrees : findings.cache.Agrees sources

theorem Findings.Steady.start (sources : Sources) : (start sources).Steady sources :=
  ⟨.start sources, .start sources⟩

/-- Findings between the requests of a run: every schema was found on the way from some reference,
when nothing was pending. -/
structure Findings.Traced (sources : Sources) (findings : Findings) : Prop where
  steady : findings.Steady sources
  found : ∀ entry ∈ findings.entries, ∃ origin, sources.Found [] findings.entries origin entry

theorem Findings.Traced.start (sources : Sources) : (Findings.start sources).Traced sources where
  steady := .start sources
  found := by simp [Findings.start]

/-- Between requests nothing is pending. -/
theorem Findings.Traced.not_pending {sources : Sources} {findings : Findings}
    (traced : findings.Traced sources) (key : String) : ¬Registry.Pending findings.entries key := by
  rintro ⟨entry, member, -, pending⟩
  obtain ⟨_, _, -, records, -⟩ := traced.found entry member
  rw [records.settled] at pending
  cases pending

theorem Findings.Traced.report {sources : Sources} {findings : Findings}
    (traced : findings.Traced sources) (diagnostic : Diagnostic) :
    ({ findings with diagnostics := findings.diagnostics ++ [diagnostic] } : Findings).Traced
      sources :=
  ⟨⟨traced.steady.sound.of_same traced.steady.sound.faithful rfl rfl, traced.steady.agrees⟩,
    traced.found⟩

namespace Resolving

variable {sources : Sources} {findings : Findings}

/-! ## References -/

section Ample

variable (ample : nestingBound sources + 2 ≤ sources.bound)

include ample

theorem reference_steady (steady : findings.Steady sources) (text base : String) :
    NoResolutionFault ((reference sources text base).start findings).1 ∧
      ∀ target later, (reference sources text base).start findings = (.ok target, later) →
        later.Steady sources ∧ target.key = sources.keyAt base text ∧
          (∃ origin, Explores sources origin findings later) ∧
          (target.forward = true → Registry.Pending findings.entries target.key) := by
  have sound : (course sources).sound ((findings, []) : Log).1 := steady.sound
  -- The depth is never exhausted, so what would be done beyond it does not matter.
  have same : (Run.nest (visit sources) (fun _ _ => throw (.shape .badValue)) sources.bound text
      base).start findings = (reference sources text base).start findings :=
    (referenceLogged_mirrors ample (Nat.le_refl _) text base).start_eq
      (referenceLogged_mirrors ample (Nat.le_refl _) text base) sound trivial
  obtain ⟨clear, returned⟩ :=
    nest_resolves sources.bound text base findings ⟨steady.agrees, steady.sound.distinct⟩
  rw [same] at clear returned
  refine ⟨clear, fun target later ran => ?_⟩
  obtain ⟨origin, named, key, ready, explores, waiting⟩ := returned target later ran
  have kept := reference_keeps text base findings steady.sound trivial
  rw [ran] at kept
  refine ⟨⟨(kept.ok target rfl).1.2 steady.sound, ready.agrees⟩, ?_, ⟨origin, explores⟩, waiting⟩
  rw [key, Sources.keyAt, named]

/-- Between requests a reference is no forward reference. -/
theorem reference_traced (traced : findings.Traced sources) (text base : String) :
    NoResolutionFault ((reference sources text base).start findings).1 ∧
      ∀ target later, (reference sources text base).start findings = (.ok target, later) →
        later.Traced sources ∧ target.forward = false := by
  obtain ⟨clear, returned⟩ := reference_steady ample traced.steady text base
  refine ⟨clear, fun target later ran => ?_⟩
  obtain ⟨steady, -, ⟨origin, explores⟩, waiting⟩ := returned target later ran
  refine ⟨⟨steady, fun entry member => ?_⟩, ?_⟩
  · rcases explores.added entry member with old | found
    · obtain ⟨first, found⟩ := traced.found entry old
      exact ⟨first, found.extend (fun _ member _ => explores.kept member)
        (keys_subset explores.kept) .refl fun _ => .inl⟩
    · exact ⟨origin, found.extend (fun _ member _ => member) (List.Subset.refl _) .refl
        fun key pending => absurd pending (traced.not_pending key)⟩
  · exact Bool.eq_false_iff.mpr fun forward => traced.not_pending _ (waiting forward)

/-! ## Schemas -/

theorem read_steady (steady : findings.Steady sources) (schema : Value) (base place : String) :
    NoResolutionFault ((read sources schema base place).start findings).1 ∧
      ∀ node later, (read sources schema base place).start findings = (.ok node, later) →
        later.Steady sources ∧ ∃ outlined asked answers,
          Schema.outline schema = (.ok outlined, asked) ∧
          Schema.OfNode (Schema.promised schema) answers node outlined ∧
          ∀ answer ∈ answers, answer.1.key = sources.keyAt (baseOf sources base) answer.2.key := by
  refine @Schema.read_outline _ (Steady sources)
    (fun target text => target.key = sources.keyAt (baseOf sources base) text)
    { resolve := fun text => reference sources text (baseOf sources base), report }
    (fun text findings steady => ?_) (fun diagnostic findings steady => ?_) schema place findings
    steady
  · obtain ⟨clear, returned⟩ := reference_steady ample steady text (baseOf sources base)
    exact ⟨clear, fun target later ran => ⟨(returned target later ran).1,
      (returned target later ran).2.1⟩⟩
  · exact ⟨_, rfl, steady.sound.of_same steady.sound.faithful rfl rfl, steady.agrees⟩

/-- Between requests a schema is read without forward references. -/
theorem read_traced (traced : findings.Traced sources) (schema : Value) (base place : String) :
    NoResolutionFault ((read sources schema base place).start findings).1 ∧
      ∀ node later, (read sources schema base place).start findings = (.ok node, later) →
        later.Traced sources ∧ ∀ target, ¬node.Defers target := by
  obtain ⟨clear, returned⟩ := @Schema.read_outline _ (Traced sources)
    (fun target _ => target.forward = false)
    { resolve := fun text => reference sources text (baseOf sources base), report }
    (fun text findings traced => reference_traced ample traced text (baseOf sources base))
    (fun diagnostic findings traced => ⟨_, rfl, traced.report diagnostic⟩) schema place findings
    traced
  refine ⟨clear, fun node later ran => ?_⟩
  obtain ⟨kept, _, _, answers, -, read, direct⟩ := returned node later ran
  refine ⟨kept, fun target defers => ?_⟩
  obtain ⟨answer, given, -, forward⟩ := read.fits.deferred target defers
  rw [direct answer given] at forward
  cases forward

end Ample

/-! ## Requests -/

/-- The course along which every schema can be traced. -/
def tracing (sources : Sources) : Course Findings where
  sound := Traced sources
  leads earlier later := earlier.Traced sources → later.Traced sources
  refl _ := id
  trans first second := second ∘ first
  keeps leads := leads

theorem tracing_cached : Cached sources
    (fun cache => cache.Faithful sources ∧ cache.Agrees sources) (tracing sources) where
  gets holds location := ⟨(holds.1.get location).1, (holds.1.get location).2,
    (holds.2.get location).2⟩
  prefetches holds workers locations :=
    ⟨holds.1.prefetch workers locations, holds.2.prefetch workers locations⟩
  steps := by
    intro α step fact holds findings traced _
    obtain ⟨returned, faithful, agrees⟩ :=
      holds findings.cache ⟨traced.steady.sound.faithful, traced.steady.agrees⟩
    rw [start_onCache]
    have leads : (tracing sources).leads findings
        { findings with cache := (step findings.cache).2 } := fun traced =>
      ⟨⟨traced.steady.sound.of_same faithful rfl rfl, agrees⟩, traced.found⟩
    exact ⟨fun value same => ⟨leads, returned value same⟩, fun _ _ => leads⟩

theorem tracing_keeps {α : Type} {step : Resolving α} {fact : α → Prop}
    (spec : ∀ findings, findings.Traced sources → NoResolutionFault (step.start findings).1 ∧
      ∀ value later, step.start findings = (.ok value, later) →
        later.Traced sources ∧ fact value) :
    (tracing sources).Keeps (fun _ => True) step fun value _ => fact value := by
  intro findings traced _
  obtain ⟨clear, returned⟩ := spec findings traced
  refine ⟨fun value ran => ?_, fun cause stopped => absurd stopped (clear cause)⟩
  exact ⟨fun _ => (returned value _ (Prod.ext ran rfl)).1, (returned value _ (Prod.ext ran rfl)).2⟩

theorem call_traced (ample : nestingBound sources + 2 ≤ sources.bound) (call : Call) :
    (tracing sources).Keeps (fun _ => True) (call.run sources) fun _ _ => True := by
  have resolve (text base : String) := tracing_keeps fun findings traced =>
    @reference_traced sources findings ample traced text base
  cases call with
  | prefetch => exact tracing_cached.prefetch
  | components => exact keeps_components resolve
  | reference text base => exact discard_keeps (resolve text base)
  | read schema base place =>
    exact discard_keeps (tracing_keeps fun findings traced =>
      read_traced ample traced schema base place)
  | follow object base => exact discard_keeps (tracing_cached.follow object base)
  | report diagnostic =>
    exact fun _ _ _ => Run.lands_ok ⟨fun traced => traced.report diagnostic, trivial⟩

theorem traced_of_perform (ample : nestingBound sources + 2 ≤ sources.bound) {calls : List Call}
    (ran : (perform sources calls).start (start sources) = (.ok (), findings)) :
    findings.Traced sources := by
  have performs : (tracing sources).Keeps (fun _ => True) (perform sources calls)
      fun _ _ => True :=
    .forM stable_true fun call _ => discard_keeps (call_traced ample call).attempt
  exact (performs.elim (.start sources) trivial ran).1 (.start sources)

end Resolving

end Bindery
