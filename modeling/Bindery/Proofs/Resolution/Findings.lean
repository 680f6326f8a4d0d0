import Bindery.Proofs.Schema.Reading
import Bindery.Resolution.Resolver
import Mathlib.Data.List.Forall2
import Mathlib.Data.List.Nodup
import Mathlib.Data.List.Perm.Basic

/-!
# What a run has found

The findings of a run only grow: a registered schema stays registered, and one
that is done or failed stays as it is.

At every point of a run the findings are sound.  Each key is registered once,
and finished once if at all.  The targets of a finished schema are registered,
and those it mentions directly were finished before it or have failed.  Each
failed schema has been reported once.
-/

namespace Bindery

open Registry List Standing

variable {node : Node} {entry : Registration}

namespace Registry

def keys (entries : List Registration) : List String :=
  entries.map (·.key)

@[simp]
theorem keys_append (first second : List Registration) :
    keys (first ++ second) = keys first ++ keys second :=
  map_append

variable {entries : List Registration} {key : String}

theorem mem_keys : key ∈ keys entries ↔ ∃ entry ∈ entries, entry.key = key :=
  mem_map

theorem find?_eq_none : find? entries key = none ↔ key ∉ keys entries := by
  simp [find?, keys]

variable {entry : Registration}

theorem find?_eq_some (found : find? entries key = some entry) :
    entry ∈ entries ∧ entry.key = key := by
  constructor
  · exact mem_of_find?_eq_some found
  · simpa using find?_some found

/-- Two entries with one key are the same if keys are distinct. -/
theorem eq_of_key_eq (distinct : (keys entries).Nodup) {first second : Registration}
    (member : first ∈ entries) (member' : second ∈ entries) (same : first.key = second.key) :
    first = second :=
  inj_on_of_nodup_map distinct member member' same

theorem keys_settle (key : String) (standing : Standing) (entries : List Registration) :
    keys (settle key standing entries) = keys entries := by
  simp only [keys, settle, map_map]
  refine map_congr_left fun entry _ => ?_
  simp only [Function.comp_apply]
  split <;> rfl

variable {standing : Standing}

theorem settle_eq_self (absent : key ∉ keys entries) : settle key standing entries = entries := by
  refine (map_congr_left fun entry member => ?_).trans (map_id entries)
  rw [if_neg fun same => absent (mem_keys.mpr ⟨entry, member, same⟩)]
  rfl

/-- Settling the one schema with a key leaves the others as they are. -/
theorem settle_append_cons {before after : List Registration} (absent : entry.key ∉ keys before)
    (absent' : entry.key ∉ keys after) :
    settle entry.key standing (before ++ entry :: after) =
      before ++ { entry with standing } :: after := by
  have head : settle entry.key standing before = before := settle_eq_self absent
  have tail : settle entry.key standing after = after := settle_eq_self absent'
  simp only [settle] at head tail
  simp only [settle, map_append, map_cons, if_true, head, tail]

theorem mem_settle :
    entry ∈ settle key standing entries ↔
      entry ∈ entries ∧ entry.key ≠ key ∨
        ∃ old ∈ entries, old.key = key ∧ entry = { old with standing } := by
  simp only [settle, mem_map]
  constructor
  · rintro ⟨old, member, rfl⟩
    split
    next same => exact Or.inr ⟨old, member, same, rfl⟩
    next other => exact Or.inl ⟨member, other⟩
  · rintro (⟨member, other⟩ | ⟨old, member, same, rfl⟩)
    · exact ⟨entry, member, if_neg other⟩
    · exact ⟨old, member, if_pos same⟩

def Settled (entries : List Registration) (key : String) : Prop :=
  ∃ entry ∈ entries, entry.key = key ∧ entry.standing.isPending = false

def Failed (entries : List Registration) (key : String) : Prop :=
  ∃ entry ∈ entries, entry.key = key ∧ entry.standing.isFailed = true

def Done (entries : List Registration) (key : String) : Prop :=
  ∃ entry ∈ entries, entry.key = key ∧ ∃ node, entry.standing = .done node

theorem settled_iff : Settled entries key ↔ Done entries key ∨ Failed entries key := by
  constructor
  · rintro ⟨entry, member, same, settled⟩
    cases standing : entry.standing with
    | pending => simp [standing, isPending] at settled
    | done node => exact Or.inl ⟨entry, member, same, node, standing⟩
    | failed message => exact Or.inr ⟨entry, member, same, by simp [standing, isFailed]⟩
  · rintro (⟨entry, member, same, node, done⟩ | ⟨entry, member, same, failed⟩)
    · exact ⟨entry, member, same, by simp [done, isPending]⟩
    · refine ⟨entry, member, same, ?_⟩
      cases standing : entry.standing <;> simp_all [isFailed, isPending]

variable {other : String}

theorem done_settle (registered : key ∈ keys entries) :
    Done (settle key standing entries) other ↔
      other = key ∧ (∃ node, standing = .done node) ∨ other ≠ key ∧ Done entries other := by
  constructor
  · rintro ⟨entry, member, rfl, done⟩
    rcases mem_settle.mp member with ⟨kept, apart⟩ | ⟨old, _, same, rfl⟩
    · exact .inr ⟨apart, entry, kept, rfl, done⟩
    · exact .inl ⟨same, done⟩
  · rintro (⟨rfl, done⟩ | ⟨apart, entry, member, rfl, done⟩)
    · obtain ⟨old, member, named⟩ := mem_keys.mp registered
      exact ⟨_, mem_settle.mpr (.inr ⟨old, member, named, rfl⟩), named, done⟩
    · exact ⟨entry, mem_settle.mpr (.inl ⟨member, apart⟩), rfl, done⟩

theorem Failed.settle (failed : Failed entries other) (notFailed : ¬Failed entries key) :
    Failed (settle key standing entries) other := by
  obtain ⟨entry, member, rfl, failing⟩ := failed
  have other : entry.key ≠ key := by
    rintro rfl
    exact notFailed ⟨entry, member, rfl, failing⟩
  exact ⟨entry, mem_settle.mpr (Or.inl ⟨member, other⟩), rfl, failing⟩

end Registry

/-! ## Reported failures -/

/-- The diagnostic by which a failed schema was reported in a run over a root document. -/
def Registration.ReportedBy (root : String) (entry : Registration) (diagnostic : Diagnostic) :
    Prop :=
  ∃ reference : Reference, ∃ cause : ResolutionFault,
    entry.key = reference.key ∧ entry.location = reference.location ∧
      entry.standing = .failed cause.message ∧
      diagnostic = Resolving.resolutionSkip entry.proposed (reference.shown root) cause

/-- Some diagnostics are the reports of the failed ones among some schemas, one for each, in the
order in which they failed. -/
def Registry.FailuresReported (root : String) (entries : List Registration)
    (diagnostics : List Diagnostic) : Prop :=
  ∃ failed : List Registration, failed.Perm (entries.filter (·.standing.isFailed)) ∧
    Forall₂ (Registration.ReportedBy root) failed diagnostics

namespace Registry.FailuresReported

variable {root : String} {entries more : List Registration} {diagnostics later : List Diagnostic}

theorem nil : FailuresReported root [] [] :=
  ⟨[], Perm.refl _, Forall₂.nil⟩

theorem append (first : FailuresReported root entries diagnostics)
    (second : FailuresReported root more later) :
    FailuresReported root (entries ++ more) (diagnostics ++ later) := by
  obtain ⟨failed, perm, reported⟩ := first
  obtain ⟨failed', perm', reported'⟩ := second
  refine ⟨failed ++ failed', ?_, rel_append reported reported'⟩
  rw [filter_append]
  exact perm.append perm'

theorem cons_done (done : entry.standing = .done node)
    (reported : FailuresReported root entries diagnostics) :
    FailuresReported root (entry :: entries) diagnostics := by
  obtain ⟨failed, perm, reported⟩ := reported
  refine ⟨failed, ?_, reported⟩
  simpa [done, isFailed] using perm

/-- A schema that failed is reported after everything that failed while it was read. -/
theorem cons_failed {diagnostic : Diagnostic} (reported : FailuresReported root entries diagnostics)
    (here : entry.ReportedBy root diagnostic) :
    FailuresReported root (entry :: entries) (diagnostics ++ [diagnostic]) := by
  obtain ⟨failed, perm, reported⟩ := reported
  have failing : entry.standing.isFailed = true := by
    obtain ⟨_, cause, _, _, standing, _⟩ := here
    simp [standing, isFailed]
  refine ⟨failed ++ [entry], ?_, rel_append reported (Forall₂.cons here .nil)⟩
  rw [filter_cons, if_pos failing]
  exact (perm_append_singleton entry failed).trans (perm.cons entry)

end Registry.FailuresReported

/-! ## Growth -/

/-- Findings grow: schemas are added, which are settled, and each failed one is reported. -/
def Findings.Grows (root : String) (earlier later : Findings) : Prop :=
  ∃ added told, later.entries = earlier.entries ++ added ∧
    (∀ entry ∈ added, entry.standing.isPending = false) ∧
    later.diagnostics = earlier.diagnostics ++ told ∧
    FailuresReported root added (Diagnostic.ofCode .resolutionSkip told)

namespace Findings.Grows

variable {root : String} {first second third : Findings}

theorem of_same (entries : second.entries = first.entries)
    (diagnostics : second.diagnostics = first.diagnostics) : Grows root first second :=
  ⟨[], [], by simpa using entries, by simp, by simpa using diagnostics,
    FailuresReported.nil⟩

theorem refl (findings : Findings) : Grows root findings findings :=
  of_same rfl rfl

theorem trans (grows : Grows root first second) (grows' : Grows root second third) :
    Grows root first third := by
  obtain ⟨added, told, entries, settled, diagnostics, reported⟩ := grows
  obtain ⟨added', told', entries', settled', diagnostics', reported'⟩ := grows'
  refine ⟨added ++ added', told ++ told', ?_, ?_, ?_, ?_⟩
  · rw [entries', entries, append_assoc]
  · intro entry member
    rcases mem_append.mp member with here | there
    · exact settled entry here
    · exact settled' entry there
  · rw [diagnostics', diagnostics, append_assoc]
  · rw [Diagnostic.ofCode, filter_append]
    exact reported.append reported'

theorem mem_entries (grows : Grows root first second) (member : entry ∈ first.entries) :
    entry ∈ second.entries := by
  obtain ⟨added, _, entries, _⟩ := grows
  rw [entries]
  exact mem_append_left added member

end Findings.Grows

/-! ## Soundness -/

/-- The document that stands at a location: the root, or one of the library. -/
def Sources.Provides (sources : Sources) (location : String) (document : Value) : Prop :=
  location = sources.root.location ∧ document = sources.root.tree ∨
    sources.library.load location = .ok document

/-- Every kept document stands at its location. -/
def Cache.Faithful (sources : Sources) (cache : Cache) : Prop :=
  ∀ location document, (location, document) ∈ cache.documents → sources.Provides location document

/-- What holds of the findings at every point of a run. -/
structure Findings.Sound (sources : Sources) (findings : Findings) : Prop where
  faithful : findings.cache.Faithful sources
  distinct : (keys findings.entries).Nodup
  completed : ∀ key, key ∈ findings.completion ↔ Done findings.entries key
  once : findings.completion.Nodup
  closed : ∀ entry ∈ findings.entries, ∀ node, entry.standing = .done node →
    ∀ target ∈ node.mentions true, target ∈ keys findings.entries
  ordered : ∀ before key after, findings.completion = before ++ key :: after →
    ∀ entry ∈ findings.entries, entry.key = key → ∀ node, entry.standing = .done node →
      ∀ target ∈ node.mentions false, target ∈ before ∨ Failed findings.entries target

namespace Findings.Sound

variable {sources : Sources} {findings : Findings}

section

variable (sound : findings.Sound sources)

include sound

/-- Soundness does not depend on diagnostics, and on the cache only as far as it is faithful. -/
theorem of_same {later : Findings} (faithful : later.cache.Faithful sources)
    (entries : later.entries = findings.entries)
    (completion : later.completion = findings.completion) : later.Sound sources where
  faithful := faithful
  distinct := by rw [entries]; exact sound.distinct
  completed := by rw [entries, completion]; exact sound.completed
  once := by rw [completion]; exact sound.once
  closed := by rw [entries]; exact sound.closed
  ordered := by rw [entries, completion]; exact sound.ordered

variable {entry : Registration}

theorem register (fresh : entry.key ∉ keys findings.entries) (pending : entry.standing = .pending) :
    ({ findings with entries := findings.entries ++ [entry] } : Findings).Sound sources := by
  have before {other : Registration} {node : Node}
      (member : other ∈ findings.entries ++ [entry]) (done : other.standing = .done node) :
      other ∈ findings.entries := by
    rcases mem_append.mp member with old | new
    · exact old
    · rw [mem_singleton.mp new, pending] at done
      cases done
  constructor
  · exact sound.faithful
  · rw [Registry.keys_append]
    refine Nodup.append sound.distinct (nodup_singleton _) ?_
    intro key member same
    rw [Registry.keys, map_singleton, mem_singleton] at same
    exact fresh (same ▸ member)
  · intro key
    rw [sound.completed]
    constructor
    · rintro ⟨other, member, same, done⟩
      exact ⟨other, mem_append_left _ member, same, done⟩
    · rintro ⟨other, member, same, node, done⟩
      exact ⟨other, before member done, same, node, done⟩
  · exact sound.once
  · intro other member node done target mentioned
    rw [Registry.keys_append]
    exact mem_append_left _
      (sound.closed other (before member done) node done target mentioned)
  · intro front key back split other member same node done target mentioned
    rcases sound.ordered front key back split other (before member done) same node done target
      mentioned with earlier | ⟨failed, kept, named, failing⟩
    · exact Or.inl earlier
    · exact Or.inr ⟨failed, mem_append_left _ kept, named, failing⟩

theorem not_done_not_failed (member : entry ∈ findings.entries)
    (pending : entry.standing = .pending) :
    ¬Done findings.entries entry.key ∧ ¬Failed findings.entries entry.key := by
  constructor
  · rintro ⟨other, member', same, node, done⟩
    rw [eq_of_key_eq sound.distinct member' member same, pending] at done
    cases done
  · rintro ⟨other, member', same, failed⟩
    rw [eq_of_key_eq sound.distinct member' member same, pending] at failed
    cases failed

/-- Finishing a pending schema whose targets are registered, and settled if they are mentioned
directly. -/
theorem finish (member : entry ∈ findings.entries) (pending : entry.standing = .pending)
    (registered : ∀ target ∈ node.mentions true, target ∈ keys findings.entries)
    (settled : ∀ target ∈ node.mentions false, Settled findings.entries target) : ({ findings with
        entries := settle entry.key (.done node) findings.entries
        completion := findings.completion ++ [entry.key] } : Findings).Sound sources := by
  obtain ⟨notDone, notFailed⟩ := sound.not_done_not_failed member pending
  have known : entry.key ∈ keys findings.entries :=
    mem_keys.mpr ⟨entry, member, rfl⟩
  constructor
  · exact sound.faithful
  · rw [keys_settle]
    exact sound.distinct
  · intro key
    rw [done_settle known, ← sound.completed, mem_append, mem_singleton]
    by_cases same : key = entry.key <;> simp [same]
  · refine Nodup.append sound.once (nodup_singleton _) ?_
    intro key finished same
    rw [mem_singleton] at same
    exact notDone ((sound.completed _).mp (same ▸ finished))
  · intro other kept found done target mentioned
    rw [keys_settle]
    rcases mem_settle.mp kept with ⟨old, _⟩ | ⟨old, _, _, rfl⟩
    · exact sound.closed other old found done target mentioned
    · cases done
      exact registered target mentioned
  · intro before key after split other kept same found done target mentioned
    rcases eq_nil_or_concat after with rfl | ⟨front, last, rfl⟩
    · -- The schema that is finished now comes last.
      obtain ⟨rfl, rest⟩ := append_inj' split rfl
      obtain rfl : entry.key = key := by simpa using rest
      rcases mem_settle.mp kept with ⟨_, different⟩ | ⟨old, _, _, rfl⟩
      · exact absurd same different
      · cases done
        rcases settled_iff.mp (settled target mentioned) with finished | failed
        · exact Or.inl ((sound.completed target).mpr finished)
        · exact Or.inr (failed.settle notFailed)
    · -- Any other one was finished before, and keeps its place.
      have earlier : findings.completion = before ++ key :: front := by
        have whole : findings.completion ++ [entry.key] = (before ++ key :: front) ++ [last] := by
          simpa using split
        exact (append_inj' whole rfl).1
      have different : key ≠ entry.key := by
        rintro rfl
        refine notDone ((sound.completed _).mp ?_)
        rw [earlier]
        simp
      rcases mem_settle.mp kept with ⟨old, _⟩ | ⟨old, _, named, rfl⟩
      · rcases sound.ordered before key front earlier other old same found done target
          mentioned with first | failed
        · exact Or.inl first
        · exact Or.inr (failed.settle notFailed)
      · exact absurd (same.symm.trans named) different

theorem fail (message : String) (member : entry ∈ findings.entries)
    (pending : entry.standing = .pending) : ({ findings with
        entries := settle entry.key (.failed message) findings.entries } :
      Findings).Sound sources := by
  obtain ⟨notDone, notFailed⟩ := sound.not_done_not_failed member pending
  constructor
  · exact sound.faithful
  · rw [keys_settle]
    exact sound.distinct
  · intro key
    rw [done_settle (mem_keys.mpr ⟨entry, member, rfl⟩), sound.completed]
    by_cases same : key = entry.key <;> simp [same, notDone]
  · exact sound.once
  · intro other kept found done target mentioned
    rw [keys_settle]
    rcases mem_settle.mp kept with ⟨old, _⟩ | ⟨old, _, _, rfl⟩
    · exact sound.closed other old found done target mentioned
    · cases done
  · intro before key after split other kept same found done target mentioned
    rcases mem_settle.mp kept with ⟨old, _⟩ | ⟨old, _, _, rfl⟩
    · rcases sound.ordered before key after split other old same found done target
        mentioned with first | failed
      · exact Or.inl first
      · exact Or.inr (failed.settle notFailed)
    · cases done

end

theorem start (sources : Sources) : (Findings.start sources).Sound sources where
  faithful := by
    intro location document member
    have only : (location, document) = (sources.root.location, sources.root.tree) := by
      simpa [Findings.start, Cache.add] using member
    cases only
    exact Or.inl ⟨rfl, rfl⟩
  distinct := List.nodup_nil
  completed := by simp [Findings.start, Done]
  once := List.nodup_nil
  closed := by simp [Findings.start]
  ordered := by simp [Findings.start]

end Findings.Sound

end Bindery
