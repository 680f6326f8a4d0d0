import Bindery.Proofs.Resolution.Reference

/-!
# Requests to the resolver

Whoever uses the resolver makes a sequence of requests.  One may end with a failed
resolution, after which others can be made.

The findings after any sequence of requests are sound, nothing in them is
pending, and among the diagnostics there is one for each failed schema, beside
those that were handed in.  A computation that only makes requests keeps to the
course of what can be reached in this way.
-/

namespace Bindery

open Run Registry Diagnostic List

namespace Resolving

inductive Call where
  | prefetch
  | components
  | reference (text base : String)
  | read (schema : Value) (base place : String)
  | follow (object : Value) (base : String)
  | report (diagnostic : Diagnostic)

def Call.run (sources : Sources) : Call → Resolving Unit
  | .prefetch => Resolving.prefetch sources
  | .components => Resolving.components sources
  | .reference text base => discard (Resolving.reference sources text base)
  | .read schema base place => discard (Resolving.read sources schema base place)
  | .follow object base => discard (Resolving.follow sources object base)
  | .report diagnostic => Resolving.report diagnostic

def Call.reported? : Call → Option Diagnostic
  | .report diagnostic => some diagnostic
  | _ => none

/-- Makes requests one after the other; a failed resolution does not stop them. -/
def perform (sources : Sources) (calls : List Call) : Resolving Unit :=
  calls.forM fun call => discard (attempt (call.run sources))

def reported (calls : List Call) : List Diagnostic :=
  calls.filterMap Call.reported?

/-- Some findings can be reached from others by requests. -/
def Reaches (sources : Sources) (earlier later : Findings) : Prop :=
  ∃ calls, (perform sources calls).start earlier = (.ok (), later)

theorem discard_keeps {State α : Type} {course : Course State} {step : Run State α}
    {fact : α → State → Prop} (keeps : course.Keeps (fun _ => True) step fact) :
    course.Keeps (fun _ => True) (discard step : Run State Unit) fun _ _ => True := by
  show course.Keeps _ (step >>= fun _ => pure ()) _
  exact .bind keeps fun _ => .pure fun _ _ => trivial

variable {sources : Sources} {call : Call} {earlier later : Findings} {calls : List Call}

/-- A request that hands in no diagnostic keeps to the course of resolving. -/
theorem Call.keeps (silent : call.reported? = none) :
    (course sources).Keeps (fun _ => True) (call.run sources) fun _ _ => True := by
  cases call with
  | prefetch => exact course_cached.prefetch
  | components => exact components_keeps
  | reference text base => exact discard_keeps (reference_keeps text base)
  | read schema base place => exact discard_keeps (read_keeps schema base place)
  | follow object base => exact discard_keeps (course_cached.follow object base)
  | report diagnostic => simp [Call.reported?] at silent

/-- Findings advance: schemas are added, which are settled, and what is said about resolutions is
one report for each failed one and the diagnostics that were handed in. -/
def Advances (root : String) (handed : List Diagnostic) (earlier later : Findings) : Prop :=
  ∃ added own, later.entries = earlier.entries ++ added ∧
    (∀ entry ∈ added, entry.standing.isPending = false) ∧
    FailuresReported root added own ∧
    (ofCode .resolutionSkip later.diagnostics).Perm
      (ofCode .resolutionSkip earlier.diagnostics ++
        (own ++ ofCode .resolutionSkip handed))

namespace Advances

variable {root : String} {handed handed' : List Diagnostic} {first second third : Findings}

theorem refl (findings : Findings) : Advances root [] findings findings :=
  ⟨[], [], by simp, by simp, FailuresReported.nil, by simp [ofCode]⟩

theorem trans (advances : Advances root handed first second)
    (advances' : Advances root handed' second third) :
    Advances root (handed ++ handed') first third := by
  obtain ⟨added, own, entries, settled, reported, perm⟩ := advances
  obtain ⟨added', own', entries', settled', reported', perm'⟩ := advances'
  refine ⟨added ++ added', own ++ own', ?_, ?_, reported.append reported', ?_⟩
  · rw [entries', entries, append_assoc]
  · intro entry member
    rcases mem_append.mp member with here | there
    · exact settled entry here
    · exact settled' entry there
  · refine perm'.trans ((perm.append_right _).trans ?_)
    simp only [ofCode, filter_append, append_assoc]
    refine Perm.append_left _ (Perm.append_left own ?_)
    exact perm_append_comm_assoc _ _ _

theorem of_grows (grows : first.Grows root second) : Advances root [] first second := by
  obtain ⟨added, told, entries, settled, diagnostics, reported⟩ := grows
  refine ⟨added, _, entries, settled, reported, ?_⟩
  simp [diagnostics, ofCode, filter_append]

end Advances

/-- A request leads from sound findings to sound findings, unless it stops with a fault that is no
failed resolution. -/
theorem Call.advances
    (ran : (discard (Run.attempt (call.run sources)) : Resolving Unit).start earlier =
      (.ok (), later)) (sound : earlier.Sound sources) : later.Sound sources ∧
      Advances sources.root.location call.reported?.toList earlier later := by
  cases handed : call.reported? with
  | none =>
    obtain ⟨leads, _⟩ := (discard_keeps (Call.keeps handed).attempt).elim sound trivial ran
    exact ⟨leads.2 sound, .of_grows leads.1⟩
  | some diagnostic =>
    obtain rfl : call = .report diagnostic := by
      cases call <;> simp_all [Call.reported?]
    obtain rfl : { earlier with diagnostics := earlier.diagnostics ++ [diagnostic] } = later :=
      congrArg Prod.snd ran
    refine ⟨sound.of_same sound.faithful rfl rfl, [], [], by simp, by simp, .nil, ?_⟩
    simp [Diagnostic.ofCode, List.filter_append]

theorem perform_cons (sources : Sources) (call : Call) (calls : List Call) :
    perform sources (call :: calls) =
      discard (attempt (call.run sources)) >>= fun _ => perform sources calls :=
  rfl

theorem perform_append (sources : Sources) (first second : List Call) :
    perform sources (first ++ second) =
      perform sources first >>= fun _ => perform sources second := by
  induction first with
  | nil => rfl
  | cons call rest ih =>
    rw [cons_append, perform_cons, perform_cons, ih, bind_assoc]

/-- What holds after any sequence of requests. -/
theorem perform_advances (ran : (perform sources calls).start earlier = (.ok (), later))
    (sound : earlier.Sound sources) :
    later.Sound sources ∧ Advances sources.root.location (reported calls) earlier later := by
  induction calls generalizing earlier with
  | nil =>
    cases ran
    exact ⟨sound, .refl _⟩
  | cons call calls ih =>
    rw [perform_cons] at ran
    obtain ⟨_, middle, here, there⟩ := start_bind_ok ran
    obtain ⟨kept, advances⟩ := Call.advances here sound
    obtain ⟨kept', advances'⟩ := ih there kept
    refine ⟨kept', ?_⟩
    have whole := advances.trans advances'
    cases handed : call.reported? <;> simpa [reported, handed] using whole

/-- After any sequence of requests the findings are sound, and nothing is pending. -/
theorem settled_of_perform {findings : Findings}
    (ran : (perform sources calls).start (Findings.start sources) = (.ok (), findings)) :
    findings.Sound sources ∧ ∀ entry ∈ findings.entries, entry.standing.isPending = false := by
  obtain ⟨sound, added, _, entries, settled, _⟩ :=
    perform_advances ran (.start sources)
  have all : findings.entries = added := by simpa [Findings.start] using entries
  rw [all]
  exact ⟨sound, settled⟩

namespace Reaches

variable {sources : Sources} {earlier middle later : Findings}

theorem refl (findings : Findings) : Reaches sources findings findings :=
  ⟨[], rfl⟩

theorem trans (first : Reaches sources earlier middle) (second : Reaches sources middle later) :
    Reaches sources earlier later := by
  obtain ⟨calls, ran⟩ := first
  obtain ⟨calls', ran'⟩ := second
  refine ⟨calls ++ calls', ?_⟩
  rw [perform_append, start_bind, ran]
  exact ran'

theorem sound (reaches : Reaches sources earlier later) (sound : earlier.Sound sources) :
    later.Sound sources := by
  obtain ⟨calls, ran⟩ := reaches
  exact (perform_advances ran sound).1

theorem mem_keys (reaches : Reaches sources earlier later) (sound : earlier.Sound sources)
    {key : String} (registered : key ∈ keys earlier.entries) :
    key ∈ keys later.entries := by
  obtain ⟨calls, ran⟩ := reaches
  obtain ⟨_, added, _, entries, _⟩ := perform_advances ran sound
  rw [entries, Registry.keys_append]
  exact mem_append_left _ registered

/-- A request leads to findings that can be reached, even if its resolution fails. -/
theorem of_call {α : Type} {step : Resolving α} (runs : call.run sources = discard step)
    (findings : Findings) : Lands (fun _ later => Reaches sources findings later)
      (fun later => Reaches sources findings later) (step.start findings) := by
  have single : perform sources [call] =
      (attempt (step >>= fun _ => pure ())) >>= fun _ => pure () := by
    show ((attempt (call.run sources)) >>= fun _ => pure ()) >>= (fun _ => pure ()) = _
    rw [runs, bind_assoc]
    rfl
  rcases ended : step.start findings with ⟨fault | value, later⟩
  · refine ⟨nofun, fun cause stopped => ⟨[call], ?_⟩⟩
    cases stopped
    rw [single, start_bind, start_attempt, start_bind, ended]
    rfl
  · refine lands_ok ⟨[call], ?_⟩
    rw [single, start_bind, start_attempt, start_bind, ended]
    rfl

end Reaches

/-! ## Computations that make requests -/

/-- The course of what can be reached by requests, where keys stay registered. -/
def requests (sources : Sources) : Course Findings where
  sound := Findings.Sound sources
  leads earlier later :=
    Reaches sources earlier later ∧ keys earlier.entries ⊆ keys later.entries
  refl findings := ⟨.refl findings, Subset.refl _⟩
  trans first second := ⟨first.1.trans second.1, Subset.trans first.2 second.2⟩
  keeps leads := leads.1.sound

def Registered (node : Node) (findings : Findings) : Prop :=
  node.mentions true ⊆ keys findings.entries

section Requests

variable {sources : Sources} {α : Type}

theorem stable_registered (node : Node) : (requests sources).Stable (Registered node) :=
  fun _ _ leads registered => Subset.trans registered leads.2

theorem keeps_of_call (call : Call) {step : Resolving α} {fact : α → Findings → Prop}
    (runs : call.run sources = discard step)
    (keeps : (course sources).Keeps (fun _ => True) step fact) :
    (requests sources).Keeps (fun _ => True) step fact := by
  intro findings sound _
  have landed := keeps findings sound trivial
  have reached := Reaches.of_call runs findings
  constructor
  · intro value returned
    have reaches := reached.ok value returned
    exact ⟨⟨reaches, fun _ => reaches.mem_keys sound⟩, (landed.ok value returned).2⟩
  · intro cause stopped
    have reaches := reached.resolution cause stopped
    exact ⟨reaches, fun _ => reaches.mem_keys sound⟩

theorem read_requests (schema : Value) (base place : String) :
    (requests sources).Keeps (fun _ => True) (read sources schema base place) Registered :=
  (keeps_of_call (.read schema base place) rfl (read_keeps schema base place)).weaken
    (fun _ holds => holds) fun _ _ resolved => resolved.1

theorem follow_requests (object : Value) (base : String) :
    (requests sources).Keeps (fun _ => True) (follow sources object base) fun _ _ => True :=
  keeps_of_call (.follow object base) rfl (course_cached.follow object base)

theorem prefetch_requests :
    (requests sources).Keeps (fun _ => True) (prefetch sources) fun _ _ => True :=
  keeps_of_call .prefetch bind_pure_unit.symm course_cached.prefetch

theorem components_requests :
    (requests sources).Keeps (fun _ => True) (components sources) fun _ _ => True :=
  keeps_of_call .components bind_pure_unit.symm components_keeps

theorem report_requests (diagnostic : Diagnostic) :
    (requests sources).Keeps (fun _ => True) (report diagnostic) fun _ _ => True := by
  intro findings _ _
  exact Run.lands_ok ⟨⟨⟨[.report diagnostic], rfl⟩, List.Subset.refl _⟩, trivial⟩

end Requests

end Resolving

end Bindery
