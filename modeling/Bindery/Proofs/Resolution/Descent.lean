import Bindery.Proofs.Resolution.Reference

/-!
# Descents

A reference descends into its target if the target is opened: then its schema is
looked up and read.  To say which descents a run makes, the resolver is run with
a log, apart from which it does the same as the resolver without one.

However a run ends, it has descended only into keys that were not registered,
and the keys it has registered are those of its descents, in their order.
-/

namespace Bindery

open Registry Run

namespace Cache

variable {library : Library} {cache : Cache} {location other : String}

theorem contains_add (document : Value) (kept : cache.contains location = true) :
    (cache.add other document).2.contains location = true := by
  unfold Cache.add
  split
  · exact kept
  · simp only [contains, List.lookup_append, Option.isSome_or] at kept ⊢
    rw [kept, Bool.true_or]

theorem contains_add_self (document : Value) :
    (cache.add location document).2.contains location = true := by
  unfold Cache.add
  split
  next kept found => simp [contains, found]
  next => simp [contains, List.lookup_append]

theorem contains_settle (result : Except Fault Value) (kept : cache.contains location = true) :
    (cache.settle other result).2.contains location = true := by
  unfold Cache.settle
  split
  next document => exact contains_add document kept
  next cause =>
    rw [contains] at kept ⊢
    rwa [documents_addFailure cache other (.unloadable other cause)]
  next => exact kept

/-- What is kept stays kept when another document is loaded. -/
theorem contains_fetch (kept : cache.contains location = true) :
    (cache.fetch library other).2.contains location = true :=
  contains_settle (library.load other) (show cache.countAttempt.contains location = true from kept)

theorem contains_get (kept : cache.contains location = true) :
    (cache.get library other).2.contains location = true := by
  unfold Cache.get
  split
  · exact kept
  · exact kept
  · exact contains_fetch kept

end Cache

namespace Resolving

variable {sources : Sources} {α : Type}

/-! ## Steps that register nothing -/

/-- The course along which no key is registered and every kept document stays. -/
def still : Course Findings where
  sound _ := True
  leads earlier later :=
    keys later.entries = keys earlier.entries ∧
      ∀ location, earlier.cache.contains location = true → later.cache.contains location = true
  refl _ := ⟨rfl, fun _ kept => kept⟩
  trans first second :=
    ⟨second.1.trans first.1, fun location kept => second.2 location (first.2 location kept)⟩
  keeps _ _ := trivial

theorem report_still (diagnostic : Diagnostic) : still.Follows (report diagnostic) :=
  fun _ => ⟨rfl, fun _ kept => kept⟩

theorem onCache_still {step : Cache → Except Fault α × Cache}
    (keeps : ∀ cache location, cache.contains location = true →
      (step cache).2.contains location = true) : still.Follows (onCache step) := by
  intro findings
  rw [start_onCache]
  exact ⟨rfl, keeps findings.cache⟩

theorem document_still (location : String) : still.Follows (document sources location) :=
  onCache_still fun _ _ kept => Cache.contains_get kept

theorem target_still (text : String) (reference : Reference) :
    still.Follows (target sources text reference) := by
  refine .bind (document_still reference.location) fun document => ?_
  cases Pointer.resolve text document reference.pointer with
  | ok value => exact .pure value
  | error cause => exact .throw _

theorem dialectOf_still (location : String) : still.Follows (dialectOf sources location) := by
  unfold dialectOf
  split
  · exact .pure _
  · refine .bind (document_still location) fun document => ?_
    exact .bind (.ofExcept _) fun _ => .pure _

theorem openedSchema_still (opening : Opening) :
    still.Follows (openedSchema sources opening) := by
  refine .bind (target_still opening.text opening.reference) fun value => ?_
  exact .bind (dialectOf_still opening.reference.location) fun dialect =>
    .pure _

theorem conclude_still (opening : Opening) (result : Except ResolutionFault Node) :
    still.Follows (conclude sources opening result) := by
  intro findings
  cases result with
  | ok node =>
    rw [start_conclude_ok]
    exact ⟨keys_settle _ _ _, fun _ kept => kept⟩
  | error cause =>
    rw [start_conclude_error]
    exact ⟨keys_settle _ _ _, fun _ kept => kept⟩

theorem wanted_still (locations seen : List String) :
    still.Follows (wanted sources locations seen) := by
  induction locations generalizing seen with
  | nil => exact .pure []
  | cons location rest ih =>
    unfold wanted
    refine .bind Course.Follows.get fun findings => ?_
    split
    · refine .bind (document_still location) fun document => ?_
      refine .bind (.mapM fun text => ?_) fun targets => ?_
      · exact .bind (.ofExcept _) fun reference =>
          .pure reference.location
      · exact .bind (ih _) fun others => .pure _
    · exact ih seen

/-! ## The resolver with a log -/

/-- A descent into a key, with the keys that were registered when the reference to it was met. -/
structure Descent where
  key : String
  registered : List String
deriving DecidableEq, Repr

/-- The findings of a run together with its descents. -/
abbrev Log := Findings × List Descent

/-- A step that leaves the log as it is. -/
def unlogged (step : Resolving α) : Run Log α :=
  ExceptT.mk do
    let log ← get
    let (result, findings) := step.start log.1
    set (findings, log.2)
    return result

def descend (opening : Opening) (registered : List String) : Run Log Unit :=
  modify fun log => (log.1, log.2 ++ [{ key := opening.reference.key, registered }])

def readLogged (sources : Sources) (inner : String → String → Run Log Target)
    (opening : Opening) : Run Log Node := do
  let schema ← unlogged (openedSchema sources opening)
  Schema.read
    { resolve := fun text => inner text opening.reference.location
      report := fun diagnostic => unlogged (report diagnostic) }
    schema (opening.place sources)

/-- Looks up, reads and settles an opened schema. -/
def openLogged (sources : Sources) (inner : String → String → Run Log Target)
    (opening : Opening) : Run Log Target := do
  unlogged (conclude sources opening (← attempt (readLogged sources inner opening)))

/-- Resolves a reference and notes whether it descends; the references in its target are resolved
by `inner`. -/
def visitLogged (sources : Sources) (inner : String → String → Run Log Target)
    (text base : String) : Run Log Target := do
  let registered := keys (← get).1.entries
  match ← unlogged (arrive sources text base) with
  | .known target => return target
  | .opened opening =>
    descend opening registered
    openLogged sources inner opening

def referenceLogged (sources : Sources) : (text base : String) → Run Log Target :=
  nest (visitLogged sources) (fun text _ => throw (.resolution (.cycle text))) sources.bound

def componentsLogged (sources : Sources) : Run Log Unit :=
  componentsBy sources fun text => referenceLogged sources text sources.root.location

theorem start_unlogged (step : Resolving α) (log : Log) :
    (unlogged step).start log = ((step.start log.1).1, (step.start log.1).2, log.2) :=
  rfl

theorem start_visitLogged (inner : String → String → Run Log Target) (text base : String)
    (log : Log) :
    (visitLogged sources inner text base).start log =
      match (arrive sources text base).start log.1 with
      | (.ok (.known target), findings) => (.ok target, findings, log.2)
      | (.ok (.opened opening), findings) =>
        (openLogged sources inner opening).start
          (findings, log.2 ++ [⟨opening.reference.key, keys log.1.entries⟩])
      | (.error fault, findings) => (.error fault, findings, log.2) := by
  unfold visitLogged
  rw [start_bind, start_get]
  dsimp only
  rw [start_bind, start_unlogged]
  rcases (arrive sources text base).start log.1 with ⟨fault | target | opening, findings⟩
  · rfl
  · rfl
  · rfl

/-! ## What the log says -/

/-- The keys of some descents are new one after the other: none of them is registered when its
reference is met, and it is registered from then on. -/
def Fresh (registered : List String) : List Descent → Prop
  | [] => True
  | descent :: rest =>
    descent.registered = registered ∧ descent.key ∉ registered ∧
      Fresh (registered ++ [descent.key]) rest

theorem Fresh.append {registered : List String} {first second : List Descent}
    (fresh : Fresh registered first)
    (later : Fresh (registered ++ first.map (·.key)) second) :
    Fresh registered (first ++ second) := by
  induction first generalizing registered with
  | nil => simpa using later
  | cons descent rest ih =>
    rcases fresh with ⟨same, new, fresh⟩
    exact ⟨same, new, ih fresh (by simpa using later)⟩

/-- The course of descents: they are logged, and their keys are what is registered. -/
def descending : Course Log where
  sound _ := True
  leads earlier later :=
    ∃ descents, later.2 = earlier.2 ++ descents ∧
      Fresh (keys earlier.1.entries) descents ∧
      keys later.1.entries =
        keys earlier.1.entries ++ descents.map (·.key)
  refl _ := ⟨[], by simp, trivial, by simp⟩
  trans := by
    rintro first second third ⟨descents, logged, fresh, keys⟩ ⟨more, logged', fresh', keys'⟩
    refine ⟨descents ++ more, ?_, fresh.append (keys ▸ fresh'), ?_⟩
    · rw [logged', logged, List.append_assoc]
    · rw [keys', keys, List.map_append, List.append_assoc]
  keeps _ _ := trivial

theorem unlogged_descending {step : Resolving α} (follows : still.Follows step) :
    descending.Follows (unlogged step) :=
  fun log => ⟨[], by simp [start_unlogged], trivial,
    by simpa [start_unlogged] using (follows log.1).1⟩

section

variable {inner : String → String → Run Log Target}
  (resolve : ∀ text base, descending.Follows (inner text base))

include resolve

theorem openLogged_descending (opening : Opening) :
    descending.Follows (openLogged sources inner opening) := by
  refine .bind (.attempt ?_) fun result =>
    unlogged_descending (conclude_still opening result)
  refine .bind (unlogged_descending (openedSchema_still opening)) fun schema => ?_
  exact Schema.read_follows (fun text _ => resolve text opening.reference.location)
    (fun diagnostic => unlogged_descending (report_still diagnostic)) (List.Subset.refl _) _

/-- A reference descends into its target only if it is new, and then it registers it. -/
theorem visitLogged_descending (text base : String) :
    descending.Follows (visitLogged sources inner text base) := by
  intro log
  have arrived := arrives sources text base log.1
  rw [start_visitLogged]
  generalize (arrive sources text base).start log.1 = outcome at arrived ⊢
  cases arrived with
  | stopped fault => exact descending.refl log
  | known reference entry reads member same => exact descending.refl log
  | opened opening reads fresh =>
    -- The target is registered before the references in it are met.
    have descends : descending.leads log
        ({ log.1 with entries := log.1.entries ++ [opening.registration .pending] },
          log.2 ++ [⟨opening.reference.key, keys log.1.entries⟩]) :=
      ⟨[⟨opening.reference.key, keys log.1.entries⟩], rfl, ⟨rfl, fresh, trivial⟩,
        keys_append _ _⟩
    exact descending.trans descends (openLogged_descending resolve opening _)

end

theorem referenceLogged_descending (text base : String) :
    descending.Follows (referenceLogged sources text base) := by
  unfold referenceLogged
  generalize sources.bound = depth
  induction depth generalizing text base with
  | zero => exact .throw _
  | succ depth ih => exact visitLogged_descending ih text base

theorem componentsLogged_descending : descending.Follows (componentsLogged sources) := by
  refine .bind (.ofExcept _) fun components => ?_
  refine .bind (.ofExcept _) fun names => ?_
  refine .forM fun name => ?_
  refine .bind (.ofExcept _) fun text => ?_
  exact .bind (referenceLogged_descending _ _) fun _ => .pure ()

/-! ## The log changes nothing -/

section Mirrors

variable {known : Findings → Prop} {inner : String → String → Resolving Target}
  {innerLogged : String → String → Run Log Target}

theorem unlogged_mirrors (step : Resolving α) :
    (course sources).Mirrors known Prod.fst (unlogged step) step :=
  fun _ _ _ => rfl

theorem openLogged_mirrors (stable : (course sources).Stable known) {opening : Opening}
    (resolve : ∀ text, Writes sources opening.reference.location text →
      (course sources).Mirrors known Prod.fst (innerLogged text opening.reference.location)
        (inner text opening.reference.location))
    (keeps : ∀ text, Writes sources opening.reference.location text →
      (course sources).Keeps known (inner text opening.reference.location) Answered) :
    (course sources).Mirrors known Prod.fst (openLogged sources innerLogged opening) (do
      conclude sources opening (← attempt (readOpened sources inner opening))) := by
  refine .bind (.attempt ?_) (readOpened_keeps stable keeps).attempt
    fun result => unlogged_mirrors _
  refine .bind (unlogged_mirrors _) (openedSchema_writes stable opening)
    fun schema => ?_
  -- Only references that are written in the document are resolved within the schema.
  rintro log sound ⟨written, holds⟩
  exact Schema.read_mirrors stable (fun text asked => resolve text (written text asked))
    (fun text asked => keeps text (written text asked)) (fun _ => unlogged_mirrors _)
    (fun _ keyword => (report_keeps (by simp [keyword])).always) (List.Subset.refl _) _ log
      sound holds

/-- Two ways to resolve a reference do the same if they do the same for the references in its
target, after the target is registered. -/
theorem visitLogged_mirrors (stable : (course sources).Stable known)
    (resolve : ∀ text base, Writes sources base text →
      (course sources).Mirrors known Prod.fst (innerLogged text base) (inner text base))
    (keeps : ∀ text base, Writes sources base text →
      (course sources).Keeps known (inner text base) Answered) (text base : String) :
    (course sources).Mirrors (WhenOpened sources known text base) Prod.fst
      (visitLogged sources innerLogged text base) (visit sources inner text base) := by
  intro log sound holds
  have arrived := arrives sources text base log.1
  rw [start_visitLogged, visit_eq, start_bind]
  generalize (arrive sources text base).start log.1 = outcome at arrived ⊢
  cases arrived with
  | stopped fault => rfl
  | known reference entry reads member same => rfl
  | opened opening reads fresh =>
    exact openLogged_mirrors stable (fun text => resolve text opening.reference.location)
      (fun text => keeps text opening.reference.location) (_, _) (sound.register fresh rfl)
      (holds opening reads fresh)

end Mirrors

end Resolving

end Bindery
