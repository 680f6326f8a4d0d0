import Bindery.Run
import Mathlib.Data.List.Basic
import Mathlib.Data.List.Forall2

/-!
# Courses of computations

A computation over a state is understood by where it can lead.  A course says
which states are sound and which state may come after which, so that a step
which keeps to the course leads from a sound state to a sound one, whether it
returns a value or ends with a failed resolution.

What a computation returns may have a property whatever the state is; then the
rules need no course.  One computation mirrors another if it does the same to a
part of its state.  And some properties of states hold however a computation ends.
-/

namespace Bindery

open List Run

variable {State Other α β : Type}

/-- A result that is no fault of a kind. -/
def NoFault {Cause : Type} (kind : Cause → Fault) (result : Except Fault α) : Prop :=
  ∀ cause, result ≠ .error (kind cause)

abbrev NoResolutionFault (result : Except Fault α) : Prop :=
  NoFault .resolution result

abbrev NoGenerationFault (result : Except Fault α) : Prop :=
  NoFault .generation result

namespace NoFault

variable {Cause : Type} {kind : Cause → Fault}

theorem ok (value : α) : NoFault kind (.ok value : Except Fault α) :=
  fun _ same => by cases same

theorem bind {first : Except Fault α} {next : α → Except Fault β}
    (clear : NoFault kind first) (clear' : ∀ value, NoFault kind (next value)) :
    NoFault kind (first >>= next) := by
  cases first with
  | error fault =>
    rintro cause ⟨⟩
    exact clear cause rfl
  | ok value => exact clear' value

theorem mapM {items : List α} {step : α → Except Fault β}
    (each : ∀ item, NoFault kind (step item)) : NoFault kind (items.mapM step) := by
  induction items with
  | nil => exact ok []
  | cons item rest ih =>
    rw [mapM_cons]
    exact bind (each item) fun value => bind ih fun values => ok (value :: values)

end NoFault

theorem ok_of_bind {Cause : Type} {first : Except Cause α} {next : α → Except Cause β} {last : β}
    (returned : first >>= next = .ok last) :
    ∃ middle, first = .ok middle ∧ next middle = .ok last := by
  cases first with
  | error fault => cases returned
  | ok middle => exact ⟨middle, rfl, returned⟩

/-- A list of values is returned item by item. -/
theorem forall₂_of_mapM {items : List α} {step : α → Except Fault β} {made : List β}
    (ran : items.mapM step = .ok made) :
    Forall₂ (fun item value => step item = .ok value) items made := by
  induction items generalizing made with
  | nil =>
    cases ran
    exact .nil
  | cons item rest ih =>
    rw [mapM_cons] at ran
    obtain ⟨value, first, ran⟩ := ok_of_bind ran
    obtain ⟨others, onward, ran⟩ := ok_of_bind ran
    cases ran
    exact .cons first (ih onward)

namespace Run

@[simp]
theorem start_pure (value : α) (state : State) :
    (pure value : Run State α).start state = (.ok value, state) :=
  rfl

@[simp]
theorem start_ofExcept (result : Except Fault α) (state : State) :
    (ofExcept result : Run State α).start state = (result, state) :=
  rfl

@[simp]
theorem start_throw (fault : Fault) (state : State) :
    (throw fault : Run State α).start state = (.error fault, state) :=
  rfl

@[simp]
theorem start_get (state : State) :
    (get : Run State State).start state = (.ok state, state) :=
  rfl

@[simp]
theorem start_modify (change : State → State) (state : State) :
    (modify change : Run State PUnit).start state = (.ok (), change state) :=
  rfl

/-- A sequence runs its second part where the first one ended, unless that one stopped. -/
theorem start_bind (step : Run State α) (next : α → Run State β) (state : State) :
    (step >>= next).start state =
      match step.start state with
      | (.ok value, later) => (next value).start later
      | (.error fault, later) => (.error fault, later) := by
  show StateT.run (ExceptT.run (step >>= next)) state = _
  rw [ExceptT.run_bind, StateT.run_bind]
  show (match StateT.run (ExceptT.run step) state with | (a, s) => _) = _
  rcases outcome : StateT.run (ExceptT.run step) state with ⟨result, later⟩
  simp only [start, outcome]
  cases result <;> rfl

@[simp]
theorem start_attempt (step : Run State α) (state : State) :
    (attempt step).start state =
      match step.start state with
      | (.ok value, later) => (.ok (.ok value), later)
      | (.error (.resolution cause), later) => (.ok (.error cause), later)
      | (.error fault, later) => (.error fault, later) := by
  show StateT.run (ExceptT.run step >>= _) state = _
  rw [StateT.run_bind]
  show (match StateT.run (ExceptT.run step) state with | (a, s) => _) = _
  rcases outcome : StateT.run (ExceptT.run step) state with ⟨result, later⟩
  simp only [start, outcome]
  rcases result with (_ | _ | cause | _ | _ | _ | _) | value <;> rfl

variable {state : State}

variable {step : Run State α}

theorem start_attempt_ne_resolution {later : State} {fault : Fault}
    (stopped : (attempt step).start state = (.error fault, later)) (cause : ResolutionFault) :
    fault ≠ .resolution cause := by
  rintro rfl
  rw [start_attempt] at stopped
  rcases outcome : step.start state with ⟨fault | value, last⟩
  · cases fault <;> simp [outcome] at stopped
  · simp [outcome] at stopped

theorem start_bind_ok {next : α → Run State β} {last : State} {value : β}
    (run : (step >>= next).start state = (.ok value, last)) :
    ∃ middle later, step.start state = (.ok middle, later) ∧
      (next middle).start later = (.ok value, last) := by
  rw [start_bind] at run
  rcases outcome : step.start state with ⟨fault | middle, later⟩
  · simp [outcome] at run
  · exact ⟨middle, later, rfl, by simpa [outcome] using run⟩

theorem start_of_fst {result : Except Fault α} (ended : (step.start state).1 = result) :
    step.start state = (result, (step.start state).2) :=
  Prod.ext ended rfl

/-- A run ends in a state about which something can be seen together with its result. -/
theorem start_of_seen {result : Except Fault α} {fact : State → Prop}
    (seen : (step.start state).1 = result ∧ fact (step.start state).2) :
    ∃ later, step.start state = (result, later) ∧ fact later :=
  ⟨_, start_of_fst seen.1, seen.2⟩

/-- The value that a run returns. -/
def returned (step : Run State α) (state : State)
    (returns : (step.start state).1.toOption.isSome) : α :=
  (step.start state).1.toOption.get returns

theorem start_returned (step : Run State α) (state : State)
    (returns : (step.start state).1.toOption.isSome) :
    step.start state = (.ok (step.returned state returns), (step.start state).2) := by
  rw [returned]
  generalize step.start state = outcome at returns
  rcases outcome with ⟨fault | value, later⟩
  · cases returns
  · rfl

/-- A run of which something can be seen has returned a value. -/
theorem start_of_view {view : α → State → β} {seen : β}
    (shown : (step.start state).1.toOption.map (view · (step.start state).2) = some seen) :
    ∃ value later, step.start state = (.ok value, later) ∧ view value later = seen := by
  rcases outcome : step.start state with ⟨fault | value, later⟩
  · rw [outcome] at shown
    cases shown
  · rw [outcome] at shown
    exact ⟨value, later, rfl, Option.some.inj shown⟩

/-- What holds of the end of a run: `after` of a value with the state it is returned in, `failed`
of the state in which a resolution failed, and nothing if a run stops with another fault. -/
structure Lands (after : α → State → Prop) (failed : State → Prop)
    (outcome : Except Fault α × State) : Prop where
  ok : ∀ value, outcome.1 = .ok value → after value outcome.2
  resolution : ∀ cause, outcome.1 = .error (.resolution cause) → failed outcome.2

variable {after : α → State → Prop} {failed : State → Prop}

theorem Lands.mono {after' : α → State → Prop} {failed' : State → Prop}
    {outcome : Except Fault α × State} (lands : Lands after failed outcome)
    (afterMono : ∀ value state, after value state → after' value state)
    (failedMono : ∀ state, failed state → failed' state) : Lands after' failed' outcome where
  ok value returned := afterMono value _ (lands.ok value returned)
  resolution cause stopped := failedMono _ (lands.resolution cause stopped)

theorem lands_ok {value : α} (holds : after value state) :
    Lands after failed (.ok value, state) where
  ok _ same := by cases same; exact holds
  resolution := nofun

theorem lands_error {fault : Fault} (holds : failed state) :
    Lands after failed (.error fault, state) where
  ok := nofun
  resolution _ _ := holds

end Run

namespace Run

theorem forall_mem_of_forall₂ {items : List α} {values : List β} {fact : β → Prop}
    (each : Forall₂ (fun _ value => fact value) items values) :
    ∀ value ∈ values, fact value := by
  induction each with
  | nil => simp
  | cons first _ ih => exact forall_mem_cons.mpr ⟨first, ih⟩

theorem exists_of_forall₂ {relate : α → β → Prop} {items : List α} {values : List β}
    (each : Forall₂ relate items values) {item : α} (member : item ∈ items) :
    ∃ value ∈ values, relate item value := by
  induction each with
  | nil => cases member
  | cons first _ ih =>
    rcases mem_cons.mp member with rfl | later
    · exact ⟨_, mem_cons_self, first⟩
    · obtain ⟨value, inside, holds⟩ := ih later
      exact ⟨value, mem_cons_of_mem _ inside, holds⟩

/-- Whatever a computation returns has a property. -/
def Returns (step : Run State α) (fact : α → Prop) : Prop :=
  ∀ state value later, step.start state = (.ok value, later) → fact value

namespace Returns

theorem pure {value : α} {fact : α → Prop} (holds : fact value) :
    Returns (pure value : Run State α) fact := by
  rintro state _ later ⟨⟩
  exact holds

theorem ofExcept {result : Except Fault α} {fact : α → Prop}
    (holds : ∀ value, result = .ok value → fact value) :
    Returns (ofExcept result : Run State α) fact := by
  intro state value later ran
  exact holds value (congrArg Prod.fst ran)

theorem bind {step : Run State α} {next : α → Run State β} {middle : α → Prop} {fact : β → Prop}
    (first : Returns step middle) (second : ∀ value, middle value → Returns (next value) fact) :
    Returns (step >>= next) fact := by
  intro state value later ran
  obtain ⟨found, between, before, after⟩ := start_bind_ok ran
  exact second found (first state found between before) between value later after

theorem after (step : Run State α) {next : α → Run State β} {fact : β → Prop}
    (second : ∀ value, Returns (next value) fact) : Returns (step >>= next) fact := by
  intro state value later ran
  obtain ⟨found, between, -, after⟩ := start_bind_ok ran
  exact second found between value later after

theorem mapM {items : List α} {step : α → Run State β} {each : α → β → Prop}
    (returns : ∀ item ∈ items, Returns (step item) (each item)) :
    Returns (items.mapM step) fun values => Forall₂ each items values := by
  induction items with
  | nil =>
    rw [mapM_nil]
    exact pure .nil
  | cons item rest ih =>
    rw [mapM_cons]
    refine bind (returns item mem_cons_self) fun head first => ?_
    refine bind (ih fun other member => returns other (mem_cons_of_mem item member))
      fun tail others => ?_
    exact pure (.cons first others)

theorem mapM_all {items : List α} {step : α → Run State β} {fact : β → Prop}
    (returns : ∀ item ∈ items, Returns (step item) fact) :
    Returns (items.mapM step) fun values => ∀ value ∈ values, fact value :=
  fun state values later ran => forall_mem_of_forall₂ (mapM returns state values later ran)

end Returns

/-- Whatever a computation returns has a property, and it never stops with a fault of generating a
package. -/
structure Gives (step : Run State α) (fact : α → Prop) : Prop where
  returns : ∀ state value later, step.start state = (.ok value, later) → fact value
  stops : ∀ state, NoGenerationFault (step.start state).1

namespace Gives

variable {fact : α → Prop}

theorem pure {value : α} (holds : fact value) : Gives (pure value : Run State α) fact where
  returns _ _ _ ran := by
    cases ran
    exact holds
  stops _ := .ok value

theorem ofExcept {result : Except Fault α} (holds : ∀ value, result = .ok value → fact value)
    (clear : NoGenerationFault result) : Gives (ofExcept result : Run State α) fact where
  returns _ value _ ran := holds value (congrArg Prod.fst ran)
  stops _ := clear

theorem modify {change : State → State} :
    Gives (modify change : Run State PUnit) fun _ => True where
  returns _ _ _ _ := trivial
  stops _ := .ok _

theorem mono {weaker : α → Prop} {step : Run State α} (gives : Gives step fact)
    (implies : ∀ value, fact value → weaker value) : Gives step weaker where
  returns state value later ran := implies value (gives.returns state value later ran)
  stops := gives.stops

theorem bind {step : Run State α} {next : α → Run State β} {last : β → Prop}
    (first : Gives step fact) (second : ∀ value, fact value → Gives (next value) last) :
    Gives (step >>= next) last where
  returns state value later ran := by
    obtain ⟨middle, state', before, after⟩ := start_bind_ok ran
    have holds := first.returns state middle state' before
    exact (second middle holds).returns state' value later after
  stops state := by
    have clear := first.stops state
    rw [start_bind]
    rcases outcome : step.start state with ⟨fault | middle, state'⟩
    · rw [outcome] at clear
      exact fun cause same => clear cause (by cases same; rfl)
    · exact (second middle (first.returns state middle state' outcome)).stops state'

theorem mapM {items : List α} {step : α → Run State β} {each : α → β → Prop}
    (gives : ∀ item ∈ items, Gives (step item) (each item)) :
    Gives (items.mapM step) fun values => Forall₂ each items values := by
  induction items with
  | nil =>
    rw [mapM_nil]
    exact .pure .nil
  | cons item rest ih =>
    rw [mapM_cons]
    refine .bind (gives item mem_cons_self) fun head first => ?_
    refine .bind (ih fun other member => gives other (mem_cons_of_mem item member))
      fun tail others => ?_
    exact .pure (.cons first others)

theorem mapM_all {items : List α} {step : α → Run State β} {fact : β → Prop}
    (gives : ∀ item ∈ items, Gives (step item) fact) :
    Gives (items.mapM step) fun values => ∀ value ∈ values, fact value :=
  (mapM gives).mono fun _ => forall_mem_of_forall₂

end Gives

/-- However a computation ends, it has at most added to a list: it returns a value with a property,
or it stops with one of some faults. -/
def Adds {Item : Type} (faults : Fault → Prop) (step : Run (List Item) α) (fact : α → Prop) : Prop :=
  ∀ items, ∃ result added, step.start items = (result, items ++ added) ∧
    (∀ value, result = .ok value → fact value) ∧ ∀ fault, result = .error fault → faults fault

namespace Adds

variable {Item : Type} {faults : Fault → Prop} {fact : α → Prop} {step : Run (List Item) α}

theorem ofExcept {result : Except Fault α} (holds : ∀ value, result = .ok value → fact value)
    (allowed : ∀ fault, result = .error fault → faults fault) :
    Adds faults (ofExcept result : Run (List Item) α) fact :=
  fun items => ⟨result, [], by rw [append_nil]; rfl, holds, allowed⟩

theorem pure {value : α} (holds : fact value) :
    Adds faults (pure value : Run (List Item) α) fact :=
  ofExcept (fun _ same => Except.ok.inj same ▸ holds) nofun

theorem throw {fault : Fault} (allowed : faults fault) :
    Adds faults (throw fault : Run (List Item) α) fact :=
  ofExcept nofun fun _ same => Except.error.inj same ▸ allowed

theorem add (item : Item) :
    Adds faults (modify (· ++ [item]) : Run (List Item) PUnit) fun _ => True :=
  fun _ => ⟨.ok (), [item], rfl, fun _ _ => trivial, nofun⟩

theorem bind {next : α → Run (List Item) β} {last : β → Prop} (first : Adds faults step fact)
    (second : ∀ value, fact value → Adds faults (next value) last) :
    Adds faults (step >>= next) last := by
  intro items
  obtain ⟨fault | value, added, before, holds, allowed⟩ := first items
  · refine ⟨.error fault, added, ?_, nofun, fun _ same => allowed _ (by cases same; rfl)⟩
    rw [start_bind, before]
  · obtain ⟨result, more, after, held⟩ := second value (holds value rfl) (items ++ added)
    refine ⟨result, added ++ more, ?_, held⟩
    rw [start_bind, before, ← append_assoc]
    exact after

theorem mapM {parts : List β} {step : β → Run (List Item) α} {each : β → α → Prop}
    (adds : ∀ part ∈ parts, Adds faults (step part) (each part)) :
    Adds faults (parts.mapM step) fun values => Forall₂ each parts values := by
  induction parts with
  | nil =>
    rw [mapM_nil]
    exact pure .nil
  | cons part rest ih =>
    obtain ⟨first, others⟩ := forall_mem_cons.mp adds
    rw [mapM_cons]
    exact first.bind fun _ head => (ih others).bind fun _ tail => pure (.cons head tail)

theorem gives (adds : Adds faults step fact) (other : ∀ cause, ¬faults (.generation cause)) :
    Gives step fact where
  returns items value later ran := by
    obtain ⟨_, _, start, holds, -⟩ := adds items
    rw [start] at ran
    cases ran
    exact holds value rfl
  stops items cause stopped := by
    obtain ⟨_, _, start, -, allowed⟩ := adds items
    rw [start] at stopped
    exact other cause (allowed _ stopped)

end Adds

end Run

/-- The sound states of a computation, and which state may come after which. -/
structure Course (State : Type) where
  sound : State → Prop
  leads : State → State → Prop
  refl : ∀ state, leads state state
  trans : ∀ {first second third}, leads first second → leads second third → leads first third
  keeps : ∀ {first second}, leads first second → sound first → sound second

namespace Course

variable {course : Course State} {known : State → Prop}

/-- From a sound state of which `known` holds, a step keeps to the course, and `fact` holds of what
it returns and of the state in which it returns it. -/
def Keeps (course : Course State) (known : State → Prop) (step : Run State α)
    (fact : α → State → Prop) : Prop :=
  ∀ state, course.sound state → known state →
    Lands (fun value later => course.leads state later ∧ fact value later)
      (fun later => course.leads state later) (step.start state)

/-- A property of states that stays true along a course. -/
def Stable (course : Course State) (property : State → Prop) : Prop :=
  ∀ first second, course.leads first second → property first → property second

variable {step : Run State α} {fact : α → State → Prop}

theorem Keeps.weaken {known' : State → Prop} {fact' : α → State → Prop}
    (keeps : course.Keeps known step fact) (before : ∀ state, known' state → known state)
    (after : ∀ value state, fact value state → fact' value state) :
    course.Keeps known' step fact' := by
  intro state sound holds
  exact (keeps state sound (before state holds)).mono
    (fun value later landed => ⟨landed.1, after value later landed.2⟩) fun _ leads => leads

theorem Keeps.always (keeps : course.Keeps (fun _ => True) step fact) :
    course.Keeps known step fact :=
  keeps.weaken (fun _ _ => trivial) fun _ _ ended => ended

/-- A stable property survives a step. -/
theorem Keeps.frame {property : State → Prop} (keeps : course.Keeps known step fact)
    (stable : course.Stable property) :
    course.Keeps (fun state => known state ∧ property state) step
      fun value state => fact value state ∧ property state := by
  intro state sound holds
  exact (keeps state sound holds.1).mono
    (fun _ later landed => ⟨landed.1, landed.2, stable state later landed.1 holds.2⟩)
    fun _ leads => leads

theorem Keeps.pure {value : α} (holds : ∀ state, known state → fact value state) :
    course.Keeps known (pure value : Run State α) fact := by
  intro state _ before
  exact lands_ok ⟨course.refl state, holds state before⟩

theorem Keeps.ofExcept {result : Except Fault α}
    (holds : ∀ value, result = .ok value → ∀ state, known state → fact value state) :
    course.Keeps known (Run.ofExcept result : Run State α) fact := by
  intro state _ before
  cases result with
  | error fault => exact Run.lands_error (course.refl state)
  | ok value => exact Run.lands_ok ⟨course.refl state, holds value rfl state before⟩

theorem Keeps.throw {fault : Fault} : course.Keeps known (throw fault : Run State α) fact := by
  intro state _ _
  exact lands_error (course.refl state)

theorem Keeps.get : course.Keeps known (get : Run State State) fun value state =>
    value = state ∧ known state := by
  intro state _ before
  exact lands_ok ⟨course.refl state, rfl, before⟩

theorem Keeps.bind {next : α → Run State β} {middle : α → State → Prop} {fact : β → State → Prop}
    (first : course.Keeps known step middle)
    (second : ∀ value, course.Keeps (middle value) (next value) fact) :
    course.Keeps known (step >>= next) fact := by
  intro state sound before
  have landed := first state sound before
  rw [start_bind]
  rcases outcome : step.start state with ⟨fault | value, later⟩ <;> rw [outcome] at landed
  · exact ⟨nofun, fun cause stopped => landed.resolution cause (by cases stopped; rfl)⟩
  · obtain ⟨leads, holds⟩ := landed.ok value rfl
    exact (second value later (course.keeps leads sound) holds).mono
      (fun _ _ ended => ⟨course.trans leads ended.1, ended.2⟩)
      fun _ ended => course.trans leads ended

theorem Keeps.ofExcept_bind {result : Except Fault α} {next : α → Run State β}
    {fact : β → State → Prop}
    (second : ∀ value, result = .ok value → course.Keeps known (next value) fact) :
    course.Keeps known (Run.ofExcept result >>= next) fact := by
  refine .bind (.ofExcept fun _ returned _ before => And.intro returned before)
    fun value => ?_
  rintro state sound ⟨returned, before⟩
  exact second value returned state sound before

/-- What a step returned with stays true while the next one runs. -/
theorem Keeps.bind_stable {next : α → Run State β} {middle : α → State → Prop}
    {fact : β → State → Prop} (first : course.Keeps known step middle)
    (stable : ∀ value, course.Stable (middle value))
    (second : ∀ value, course.Keeps (fun _ => True) (next value) fun result state => middle value
      state → fact result state) : course.Keeps known (step >>= next) fact := by
  refine .bind first fun value => ?_
  exact ((second value).frame (stable value)).weaken (fun _ holds => ⟨trivial, holds⟩)
    fun _ _ ended => ended.1 ended.2

theorem Keeps.attempt (keeps : course.Keeps known step fact) :
    course.Keeps known (attempt step) fun result state =>
      ∀ value, result = .ok value → fact value state := by
  intro state sound before
  have landed := keeps state sound before
  rw [start_attempt]
  rcases outcome : step.start state with ⟨fault | value, later⟩ <;> rw [outcome] at landed
  · cases fault with
    | resolution cause => exact lands_ok ⟨landed.resolution cause rfl, nofun⟩
    | _ => exact ⟨nofun, nofun⟩
  · obtain ⟨leads, holds⟩ := landed.ok value rfl
    exact lands_ok ⟨leads, fun returned same => by cases same; exact holds⟩

/-- A run that returns a value has kept to the course. -/
theorem Keeps.elim {state later : State} {value : α} (keeps : course.Keeps known step fact)
    (sound : course.sound state) (before : known state)
    (run : step.start state = (.ok value, later)) :
    course.leads state later ∧ fact value later := by
  have landed := keeps state sound before
  rw [run] at landed
  exact landed.ok value rfl

theorem Keeps.forM {items : List β} {step : β → Run State PUnit} (stable : course.Stable known)
    (each : ∀ item ∈ items, course.Keeps known (step item) fun _ _ => True) :
    course.Keeps known (items.forM step) fun _ _ => True := by
  induction items with
  | nil => exact .pure fun _ _ => trivial
  | cons item rest ih =>
    show course.Keeps known (step item >>= fun _ => rest.forM step) _
    have first := (each item mem_cons_self).frame stable
    refine .bind (first.weaken (fun _ holds => ⟨holds, holds⟩) fun _ _ ended => ended)
      fun _ => ?_
    exact (ih fun other member => each other (mem_cons_of_mem item member)).weaken
      (fun _ holds => holds.2) fun _ _ _ => trivial

theorem Keeps.mapM {items : List α} {step : α → Run State β} {fact : β → State → Prop}
    (stable : course.Stable known) (factStable : ∀ value, course.Stable (fact value))
    (each : ∀ item ∈ items, course.Keeps known (step item) fact) :
    course.Keeps known (items.mapM step) fun values state =>
      ∀ value ∈ values, fact value state := by
  induction items with
  | nil =>
    rw [mapM_nil]
    exact .pure fun _ _ => by simp
  | cons item rest ih =>
    rw [mapM_cons]
    have first := (each item mem_cons_self).frame stable
    refine .bind (first.weaken (fun _ holds => ⟨holds, holds⟩) fun _ _ ended => ended)
      fun head => ?_
    have others := (ih fun other member => each other (mem_cons_of_mem item member)).frame
      (factStable head)
    refine .bind (others.weaken (fun _ holds => ⟨holds.2, holds.1⟩) fun _ _ ended => ended)
      fun tail => .pure fun state holds value member => ?_
    rcases mem_cons.mp member with same | later
    · rw [same]
      exact holds.2
    · exact holds.1 value later

/-- The course of the part of a state that a view shows. -/
def along (course : Course Other) (view : State → Other) : Course State where
  sound state := course.sound (view state)
  leads first second := course.leads (view first) (view second)
  refl state := course.refl (view state)
  trans := course.trans
  keeps := course.keeps

end Course

/-! ## Computations that do the same -/

namespace Course

variable {course : Course State} {known : State → Prop} {view : Other → State}

/-- From sound states of which `known` holds, one computation does the same as another to the part
of its state that a view shows. -/
def Mirrors (course : Course State) (known : State → Prop) (view : Other → State)
    (first : Run Other α) (second : Run State α) : Prop :=
  ∀ other, course.sound (view other) → known (view other) →
    second.start (view other) = ((first.start other).1, view (first.start other).2)

variable {first : Run Other α} {second : Run State α}

theorem Mirrors.weaken {known' : State → Prop} (mirrors : course.Mirrors known view first second)
    (before : ∀ state, known' state → known state) : course.Mirrors known' view first second :=
  fun other sound holds => mirrors other sound (before _ holds)

theorem Mirrors.start_eq {second' : Run State α} {other : Other}
    (mirrors : course.Mirrors known view first second)
    (mirrors' : course.Mirrors known view first second') (sound : course.sound (view other))
    (holds : known (view other)) : second.start (view other) = second'.start (view other) :=
  (mirrors other sound holds).trans (mirrors' other sound holds).symm

theorem Mirrors.ofExcept (result : Except Fault α) :
    course.Mirrors known view (Run.ofExcept result) (Run.ofExcept result) :=
  fun _ _ _ => rfl

theorem Mirrors.bind {next : α → Run Other β} {next' : α → Run State β} {middle : α → State → Prop}
    (steps : course.Mirrors known view first second) (keeps : course.Keeps known second middle)
    (rest : ∀ value, course.Mirrors (middle value) view (next value) (next' value)) :
    course.Mirrors known view (first >>= next) (second >>= next') := by
  intro other sound holds
  have same := steps other sound holds
  rw [start_bind, start_bind, same]
  rcases outcome : first.start other with ⟨fault | value, later⟩
  · rfl
  · rw [outcome] at same
    obtain ⟨leads, fact⟩ := keeps.elim sound holds same
    exact rest value later (course.keeps leads sound) fact

/-- Both computations end alike, and one that returns a value has led along the course. -/
theorem Mirrors.outcome (mirrors : course.Mirrors known view first second)
    {fact : α → State → Prop} (keeps : course.Keeps known second fact) (other : Other)
    (sound : course.sound (view other)) (holds : known (view other)) :
    (∃ fault later, first.start other = (.error fault, later) ∧
      second.start (view other) = (.error fault, view later)) ∨
    ∃ value later, first.start other = (.ok value, later) ∧
      second.start (view other) = (.ok value, view later) ∧
      course.leads (view other) (view later) := by
  have same := mirrors other sound holds
  rcases outcome : first.start other with ⟨fault | value, later⟩ <;> rw [outcome] at same
  · exact .inl ⟨fault, later, rfl, same⟩
  · exact .inr ⟨value, later, rfl, same, (keeps.elim sound holds same).1⟩

theorem Mirrors.attempt (mirrors : course.Mirrors known view first second) :
    course.Mirrors known view (attempt first) (attempt second) := by
  intro other sound holds
  have same := mirrors other sound holds
  rw [start_attempt, start_attempt, same]
  rcases outcome : first.start other with ⟨fault | value, later⟩
  · cases fault <;> rfl
  · rfl

theorem Mirrors.forM {items : List β} {first : β → Run Other PUnit} {second : β → Run State PUnit}
    (stable : course.Stable known)
    (steps : ∀ item ∈ items, course.Mirrors known view (first item) (second item))
    (keeps : ∀ item ∈ items, course.Keeps known (second item) fun _ _ => True) :
    course.Mirrors known view (items.forM first) (items.forM second) := by
  induction items with
  | nil => exact fun _ _ _ => rfl
  | cons item rest ih =>
    show course.Mirrors known view (first item >>= fun _ => rest.forM first)
      (second item >>= fun _ => rest.forM second)
    have kept := (keeps item mem_cons_self).frame stable
    refine .bind (steps item mem_cons_self)
      (kept.weaken (fun _ holds => ⟨holds, holds⟩) fun _ _ ended => ended) fun _ => ?_
    exact (ih (fun other member => steps other (mem_cons_of_mem item member))
      fun other member => keeps other (mem_cons_of_mem item member)).weaken
        fun _ holds => holds.2

/-! ## What holds however a computation ends -/

/-- However a computation ends, it has led along the course. -/
def Follows (course : Course State) (step : Run State α) : Prop :=
  ∀ state, course.leads state (step.start state).2

/-- The course that leads from every state to every state. -/
def anywhere : Course State where
  sound _ := True
  leads _ _ := True
  refl _ := trivial
  trans _ _ := trivial
  keeps _ _ := trivial

theorem Follows.anywhere (step : Run State α) : Course.anywhere.Follows step :=
  fun _ => trivial

theorem Follows.ofExcept (result : Except Fault α) :
    course.Follows (Run.ofExcept result : Run State α) :=
  fun state => course.refl state

theorem Follows.pure (value : α) : course.Follows (pure value : Run State α) :=
  fun state => course.refl state

theorem Follows.throw (fault : Fault) : course.Follows (throw fault : Run State α) :=
  fun state => course.refl state

theorem Follows.get : course.Follows (get : Run State State) :=
  fun state => course.refl state

theorem Follows.bind {step : Run State α} {next : α → Run State β} (first : course.Follows step)
    (second : ∀ value, course.Follows (next value)) : course.Follows (step >>= next) := by
  intro state
  have here := first state
  rw [start_bind]
  rcases outcome : step.start state with ⟨fault | value, later⟩ <;> rw [outcome] at here
  · exact here
  · exact course.trans here (second value later)

theorem Follows.attempt {step : Run State α} (follows : course.Follows step) :
    course.Follows (attempt step) := by
  intro state
  have here := follows state
  rw [start_attempt]
  rcases outcome : step.start state with ⟨fault | value, later⟩ <;> rw [outcome] at here
  · cases fault <;> exact here
  · exact here

theorem Follows.forM {items : List β} {step : β → Run State PUnit}
    (each : ∀ item, course.Follows (step item)) : course.Follows (items.forM step) := by
  induction items with
  | nil => exact fun state => course.refl state
  | cons item rest ih =>
    show course.Follows (step item >>= fun _ => rest.forM step)
    exact .bind (each item) fun _ => ih

theorem Follows.mapM {items : List α} {step : α → Run State β}
    (each : ∀ item, course.Follows (step item)) : course.Follows (items.mapM step) := by
  induction items with
  | nil =>
    rw [mapM_nil]
    exact .pure []
  | cons item rest ih =>
    rw [mapM_cons]
    exact .bind (each item) fun head => .bind ih fun tail =>
      .pure (head :: tail)

end Course

end Bindery
