import Bindery.Operation.Analysis
import Bindery.Proofs.Resolution.Calls
import Bindery.Proofs.Resolution.Skips
import Mathlib

/-!
# The outcome of resolving

After any sequence of requests a run is finished.  What is skipped then is
exactly what reaches a failed schema along targets.  Each failed schema was
reported once when it failed, and each other skipped one is reported once when
the run is finished.  An operation is left out exactly if one of the targets of
its schemas is skipped.
-/

namespace Bindery

open List

namespace Registry

theorem least?_eq_none {texts : List String} : least? texts = none ↔ texts = [] := by
  rw [least?, head?_eq_none_iff, ← length_eq_zero_iff, length_mergeSort,
    length_eq_zero_iff]

end Registry

namespace Operation

theorem dropDependents_cons (skipped : List String) (operation : Operation)
    (rest : List Operation) :
    (dropDependents skipped (operation :: rest)).1 =
      if operation.references.any skipped.contains then (dropDependents skipped rest).1
      else operation :: (dropDependents skipped rest).1 := by
  have depends : Registry.least? (operation.references.filter skipped.contains) = none ↔
      ¬operation.references.any skipped.contains = true := by
    rw [Registry.least?_eq_none, filter_eq_nil_iff, any_eq_true]
    push Not
    rfl
  cases missing : Registry.least? (operation.references.filter skipped.contains) with
  | none =>
    rw [if_neg (depends.mp missing)]
    simp only [dropDependents, missing]
  | some key =>
    rw [if_pos (not_not.mp fun kept => by simp [depends.mpr kept] at missing)]
    simp only [dropDependents, missing]

/-- An operation is left out exactly if one of its references is skipped. -/
theorem dropDependents_eq_filter (skipped : List String) (operations : List Operation) :
    (dropDependents skipped operations).1 =
      operations.filter fun operation => !operation.references.any skipped.contains := by
  induction operations with
  | nil => rfl
  | cons operation rest ih =>
    rw [dropDependents_cons, ih, filter_cons]
    cases operation.references.any skipped.contains <;> rfl

end Operation

namespace Resolving

theorem start_reports (diagnostics : List Diagnostic) (findings : Findings) :
    (diagnostics.forM report).start findings =
      (.ok (), { findings with diagnostics := findings.diagnostics ++ diagnostics }) := by
  induction diagnostics generalizing findings with
  | nil => simp [forM_nil]
  | cons diagnostic rest ih =>
    show (report diagnostic >>= fun _ => rest.forM report).start findings = _
    rw [Run.start_bind, start_report]
    dsimp only
    rw [ih, append_assoc]
    rfl

theorem start_finish (sources : Sources) (findings : Findings) :
    (finish sources).start findings =
      (.ok (Registry.finish findings.entries findings.completion sources.root.location).1,
        { findings with
          diagnostics := findings.diagnostics ++
            (Registry.finish findings.entries findings.completion sources.root.location).2 }) := by
  unfold finish
  rw [Run.start_bind, Run.start_get]
  dsimp only
  rw [Run.start_bind, start_reports]
  rfl

/--
After any sequence of requests, finishing the run skips exactly the schemas from
which a failed one is reachable along targets.  Each failed schema was reported
once, each other skipped schema is reported once by finishing, and an operation
is left out exactly if one of its references is skipped.
-/
theorem skipped_iff_reachesFailure (sources : Sources) (calls : List Call) (findings : Findings)
    (ran : (perform sources calls).start (Findings.start sources) = (.ok (), findings)) :
    (Registry.keys findings.entries).Nodup ∧
    ∃ registry told,
      (finish sources).start findings =
        (.ok registry, { findings with diagnostics := findings.diagnostics ++ told }) ∧
      (∀ key, key ∈ registry.skipped ↔
        key ∈ Registry.keys findings.entries ∧ Registry.ReachesFailure findings.entries key) ∧
      (∃ own, Registry.FailuresReported sources.root.location findings.entries own ∧
        (Diagnostic.ofCode .resolutionSkip findings.diagnostics).Perm
          (own ++ Diagnostic.ofCode .resolutionSkip (reported calls))) ∧
      (∃ dropped : List Registration,
        dropped.Perm (findings.entries.filter fun entry =>
          registry.skipped.contains entry.key && !entry.standing.isFailed) ∧
        List.Forall₂
          (Registry.DroppedBy findings.entries sources.root.location registry.skipped)
          dropped told) ∧
      ∀ operations, (Operation.dropDependents registry.skipped operations).1 =
        operations.filter fun operation =>
          !operation.references.any registry.skipped.contains := by
  obtain ⟨sound, added, own, entries, _, reported, perm⟩ :=
    perform_advances ran (Findings.Sound.start sources)
  refine ⟨sound.distinct, _, _, start_finish sources findings, ?_, ⟨own, ?_, ?_⟩, ?_, ?_⟩
  · intro key
    rw [Registry.mem_skipped_iff]
    exact ⟨fun reaches => ⟨reaches.registered, reaches⟩, fun reaches => reaches.2⟩
  · have all : findings.entries = added := by simpa [Findings.start] using entries
    rw [all]
    exact reported
  · simpa [Findings.start, Diagnostic.ofCode] using perm
  · exact Registry.finish_reports _ _ _ sound.distinct
  · exact Operation.dropDependents_eq_filter _

/-- A document with a schema that is a reference to a schema that is not there. -/
def brokenSources : Sources :=
  Sources.of { documents := [] } []
    { location := "/a", dialect := .v31
      root := [(.str "k", .map [(.str "$ref", .str "#m")])] }

theorem skipped_iff_reachesFailure_of_missing :
    ∃ findings registry told,
      (perform brokenSources [.reference "#m" "/a", .reference "#k" "/a"]).start
        (Findings.start brokenSources) = (.ok (), findings) ∧
      (finish brokenSources).start findings =
        (.ok registry, { findings with diagnostics := findings.diagnostics ++ told }) ∧
      Registry.keys findings.entries = ["/a#m", "/a#k"] ∧
      "/a#k" ∈ registry.skipped ∧ "/a#m" ∈ registry.skipped := by
  have ran : (perform brokenSources [.reference "#m" "/a", .reference "#k" "/a"]).start
      (Findings.start brokenSources) = (.ok (), _) := Run.start_of_fst (by decide +kernel)
  obtain ⟨_, registry, more, finished, skipped, _⟩ := skipped_iff_reachesFailure _ _ _ ran
  unfold Registry.ReachesFailure Registry.Failed at skipped
  refine ⟨_, registry, more, ran, finished, by decide +kernel,
    (skipped _).mpr ⟨by decide +kernel, "/a#m", by decide +kernel, .single ?_⟩,
    (skipped _).mpr ⟨by decide +kernel, "/a#m", by decide +kernel, .refl⟩⟩
  unfold Registry.DependsOn
  decide +kernel

end Resolving

end Bindery
