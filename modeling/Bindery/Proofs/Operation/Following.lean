import Bindery.Proofs.Operation.External

/-!
# Which objects can be reached

Whether the references of an object can be followed depends on the sources
alone.  Schemas never make the reading of an operation fail: what cannot be
resolved inside a schema is recorded as failed.  So the reading of parameters,
responses and bodies ends with a failed resolution exactly if one of the objects
cannot be reached, unless it stops with a fault of another kind, which stops the
whole run.
-/

namespace Bindery

open Value List

/-- What the references of an object lead to; it is the same at every point of a run. -/
def Sources.followed (sources : Sources) (object : Value) (base : String) :
    Except Fault (Value × String) :=
  ((Resolving.follow sources object base).start (Findings.start sources)).1

/-- Whether the references of an object can be followed. -/
def Sources.reaches (sources : Sources) (base : String) (object : Value) : Bool :=
  (sources.followed object base).isOk

namespace Resolving

variable {sources : Sources} {α β : Type}

/-! ## Following references -/

theorem follow_looks_followed (object : Value) (base : String) :
    Looks sources (follow sources object base) (sources.followed object base) := by
  have looks := @followWithin_looks sources followLimit [] object (baseOf sources base)
  obtain ⟨cache, -, ran⟩ := looks (Findings.start sources) (.start sources)
  have same : sources.followed object base = _ := congrArg Prod.fst ran
  rw [same]
  exact looks

/-! ## Steps that fail under a condition -/

/-- A step keeps findings steady, and it fails to resolve something exactly if `fails` holds, unless
it stops with a fault of another kind. -/
def Settles (sources : Sources) (step : Resolving α) (fails : Prop) : Prop :=
  ∀ findings, findings.Steady sources →
    Run.Lands (fun _ later => ¬fails ∧ later.Steady sources)
      (fun later => fails ∧ later.Steady sources) (step.start findings)

namespace Settles

variable {step : Resolving α} {next : α → Resolving β} {fails fails' : Prop}

theorem congr (settles : Settles sources step fails) (same : fails ↔ fails') :
    Settles sources step fails' := by
  rwa [← propext same]

theorem pure (value : α) : Settles sources (pure value) False :=
  fun _ steady => Run.lands_ok ⟨id, steady⟩

theorem ofExcept {result : Except Fault α} (clear : NoResolutionFault result) :
    Settles sources (Run.ofExcept result) False := by
  intro findings steady
  cases result with
  | ok value => exact Run.lands_ok ⟨id, steady⟩
  | error fault => exact ⟨nofun, fun cause stopped => absurd stopped (clear cause)⟩

/-- The second step fails only after the first one did not. -/
theorem bind (first : Settles sources step fails)
    (second : ∀ value, Settles sources (next value) fails') :
    Settles sources (step >>= next) (fails ∨ fails') := by
  intro findings steady
  have landed := first findings steady
  rw [Run.start_bind]
  rcases outcome : step.start findings with ⟨fault | value, later⟩ <;> rw [outcome] at landed
  · refine ⟨nofun, fun cause stopped => ?_⟩
    obtain ⟨failed, steady'⟩ := landed.resolution cause (by cases stopped; rfl)
    exact ⟨.inl failed, steady'⟩
  · obtain ⟨clear, steady'⟩ := landed.ok value rfl
    apply (second value later steady').mono
    · exact fun _ last ended => ⟨not_or.mpr ⟨clear, ended.1⟩, ended.2⟩
    · exact fun last ended => ⟨.inr ended.1, ended.2⟩

/-- After a step that does not fail, only the next one can. -/
theorem after (first : Settles sources step False)
    (second : ∀ value, Settles sources (next value) fails) :
    Settles sources (step >>= next) fails :=
  (first.bind second).congr (by rw [false_or])

/-- Before a step that does not fail, only the first one can. -/
theorem before (first : Settles sources step fails)
    (second : ∀ value, Settles sources (next value) False) :
    Settles sources (step >>= next) fails :=
  (first.bind second).congr (by rw [or_false])

theorem ofExcept_bind {result : Except Fault α} (clear : NoResolutionFault result)
    (second : ∀ value, result = .ok value → Settles sources (next value) fails) :
    Settles sources (Run.ofExcept result >>= next) fails := by
  intro findings steady
  rw [Run.start_bind, Run.start_ofExcept]
  cases result with
  | ok value => exact second value rfl findings steady
  | error fault =>
    exact ⟨nofun, fun cause stopped => absurd (by cases stopped; rfl) (clear cause)⟩

theorem mapM {items : List α} {step : α → Resolving β}
    (each : ∀ item, Settles sources (step item) False) :
    Settles sources (items.mapM step) False := by
  induction items with
  | nil =>
    rw [mapM_nil]
    exact pure []
  | cons item rest ih =>
    rw [mapM_cons]
    exact (each item).after fun _ => ih.after fun _ => pure _

end Settles

theorem follow_settles (object : Value) (base : String) :
    Settles sources (follow sources object base) (sources.reaches base object = false) := by
  intro findings steady
  obtain ⟨cache, agrees, ran⟩ := follow_looks_followed object base findings steady.agrees
  have kept := course_cached.follow object base findings steady.sound trivial
  rw [ran] at kept ⊢
  constructor
  · intro value returned
    have reached : sources.reaches base object = true := by
      rw [Sources.reaches, show sources.followed object base = .ok value from returned]
      rfl
    exact ⟨by simp [reached], (kept.ok value returned).1.2 steady.sound, agrees⟩
  · intro cause stopped
    have unreached : sources.reaches base object = false := by
      rw [Sources.reaches,
        show sources.followed object base = .error (.resolution cause) from stopped]
      rfl
    exact ⟨unreached, (kept.resolution cause stopped).2 steady.sound, agrees⟩

theorem read_settles (ample : nestingBound sources + 2 ≤ sources.bound) (schema : Value)
    (base place : String) : Settles sources (read sources schema base place) False := by
  intro findings steady
  obtain ⟨clear, returned⟩ := read_steady ample steady schema base place
  exact ⟨fun node ran => ⟨id, (returned node _ (Prod.ext ran rfl)).1⟩,
    fun cause stopped => absurd stopped (clear cause)⟩

end Resolving

/-! ## Faults of other kinds -/

namespace NoFault

variable {α β : Type}

section

variable {step : α → Except Fault Bool} (each : ∀ item, NoResolutionFault (step item))

include each

theorem filterAuxM {items kept : List α} : NoResolutionFault (items.filterAuxM step kept) := by
  induction items generalizing kept with
  | nil => exact ok kept
  | cons item rest ih => exact bind (each item) fun _ => ih

theorem filterM {items : List α} : NoResolutionFault (items.filterM step) :=
  bind (filterAuxM each) fun _ => ok _

end

theorem needEntries (value : Value) : NoResolutionFault value.needEntries := by
  cases value <;> rintro cause ⟨⟩

theorem needKey (value : Value) : NoResolutionFault value.needKey := by
  cases value <;> rintro cause ⟨⟩

theorem needItems (value : Value) : NoResolutionFault value.needItems := by
  unfold Value.needItems
  split <;> rintro cause ⟨⟩

theorem itemsOrNone (value : Option Value) : NoResolutionFault (itemsOrNone value) := by
  cases value with
  | none => exact ok []
  | some value => exact needItems value

theorem entriesOrNone (value : Option Value) : NoResolutionFault (entriesOrNone value) := by
  cases value with
  | none => exact ok []
  | some value => exact needEntries value

end NoFault

namespace Analysis

open Resolving

theorem noResolution_identity (parameter : Entries) : NoResolutionFault (identity parameter) :=
  .bind (.needKey _) fun _ => .bind (.needKey _) fun _ => .ok _

theorem noResolution_merge (shared own : List Placed) : NoResolutionFault (merge shared own) := by
  refine .bind (.mapM fun parameter => noResolution_identity parameter.1) fun replaced => ?_
  refine .bind (.filterM fun parameter => ?_) fun kept => .ok _
  exact .bind (noResolution_identity parameter.1) fun key => .ok _

theorem noResolution_isIgnoredHeader (name : Value) : NoResolutionFault (isIgnoredHeader name) := by
  unfold isIgnoredHeader
  split <;> rintro cause ⟨⟩

theorem noResolution_parameterOf (parameter : Entries) (place : ParameterPlace) (name : Value)
    (schema : Node) : NoResolutionFault (parameterOf parameter place name schema) := by
  unfold parameterOf
  split <;> rintro cause ⟨⟩

theorem noResolution_optionalText (record : RecordKind) (entries : Entries) (name : String) :
    NoResolutionFault (optionalText record entries name) := by
  unfold optionalText
  split <;> rintro cause ⟨⟩

/-! ## Objects of an operation -/

def listedParameters (entries : Entries) : List Value :=
  (itemsOrNone (entries.present? "parameters")).toOption.getD []

def listedResponses (operation : Entries) : List Value :=
  ((entriesOrNone (operation.present? "responses")).toOption.getD []).map (·.2)

def listedBody (operation : Entries) : Value :=
  (operation.get? "requestBody").getD .null

variable {sources : Sources}

theorem followAll_settles (base : String) (objects : List Value) :
    Settles sources (followAll sources base objects)
      (objects.all (sources.reaches base) = false) := by
  induction objects with
  | nil => exact (Settles.pure []).congr (by simp)
  | cons object rest ih =>
    rw [all_cons, Bool.and_eq_false_iff]
    refine (follow_settles object base).bind fun target => ih.before fun others => ?_
    split <;> exact .pure _

section Reading

variable (ample : nestingBound sources + 2 ≤ sources.bound)

include ample

theorem readParameter_settles (parameter : Placed) (heading : String) :
    Settles sources (readParameter sources parameter heading) False := by
  unfold readParameter
  dsimp only
  split
  · exact Settles.pure _
  next place _ =>
    have onward : Settles sources (do
        let schema ← Resolving.read sources (parameterSchema parameter.1) parameter.2
          (heading ++ " parameter " ++ ((parameter.1.get? "name").getD (.str "")).text)
        return some (← Run.ofExcept (parameterOf parameter.1 place
          ((parameter.1.get? "name").getD (.str "")) schema))) False :=
      (read_settles ample _ _ _).after fun schema =>
        (Settles.ofExcept (noResolution_parameterOf _ _ _ _)).after fun _ => Settles.pure _
    split
    · refine (Settles.ofExcept (noResolution_isIgnoredHeader _)).after fun ignored => ?_
      split
      · exact Settles.pure _
      · exact onward
    · exact onward

theorem readParameters_settles (parameters : List Placed) (heading : String) :
    Settles sources (readParameters sources parameters heading) False :=
  (Settles.mapM fun parameter => readParameter_settles ample parameter heading).after
    fun _ => Settles.pure _

theorem readContent_settles (content : Option Value) (base place : String) :
    Settles sources (readContent sources content base place) False := by
  refine Settles.mapM fun entry => (read_settles ample _ base _).after fun schema => ?_
  split
  · exact Settles.pure _
  · exact fun _ _ => ⟨nofun, nofun⟩

theorem readBody_settles (raw : Value) (base heading : String) :
    Settles sources (readBody sources raw base heading) (sources.reaches base raw = false) := by
  unfold readBody
  split
  next absent =>
    have reached : sources.reaches base .null = true := rfl
    subst absent
    exact (Settles.pure none).congr (by simp [reached])
  next =>
    refine (follow_settles raw base).before fun target => ?_
    split
    · refine (readContent_settles ample _ _ _).after fun content => ?_
      exact (Settles.ofExcept (noResolution_optionalText _ _ _)).after fun _ => Settles.pure _
    · exact Settles.pure _

theorem readResponses_settles (base heading : String) (entries : Entries) :
    Settles sources (readResponses sources base heading entries)
      ((entries.map (·.2)).all (sources.reaches base) = false) := by
  induction entries with
  | nil => exact (Settles.pure []).congr (by simp)
  | cons entry rest ih =>
    rw [map_cons, all_cons, Bool.and_eq_false_iff]
    unfold readResponses
    refine (follow_settles entry.2 base).bind fun target => ?_
    split
    · refine (readContent_settles ample _ _ _).after fun content => ?_
      refine (Settles.ofExcept (noResolution_optionalText _ _ _)).after fun description => ?_
      exact ih.before fun _ => Settles.pure _
    · exact ih

theorem operationParameters_settles (item operation : Entries) (base heading : String) :
    Settles sources (operationParameters sources item operation base heading)
      ((listedParameters item ++ listedParameters operation).all (sources.reaches base) =
        false) := by
  have listed (entries : Entries) : Settles sources (do
      let items ← Run.ofExcept (itemsOrNone (entries.present? "parameters"))
      followAll sources base items)
      ((listedParameters entries).all (sources.reaches base) = false) := by
    refine Settles.ofExcept_bind (.itemsOrNone _) fun items found => ?_
    rw [listedParameters, found]
    exact followAll_settles base items
  rw [all_append, Bool.and_eq_false_iff]
  refine (listed item).bind fun shared => (listed operation).before fun own => ?_
  refine (readParameters_settles ample shared heading).after fun pathLevel => ?_
  refine (Settles.ofExcept (noResolution_merge shared own)).after fun merged => ?_
  exact (readParameters_settles ample merged heading).after fun _ => Settles.pure _

theorem operationResponses_settles (operation : Entries) (base heading : String) :
    Settles sources (do
      let entries ← Run.ofExcept (entriesOrNone (operation.present? "responses"))
      readResponses sources base heading entries)
      ((listedResponses operation).all (sources.reaches base) = false) := by
  refine Settles.ofExcept_bind (.entriesOrNone _) fun entries found => ?_
  rw [listedResponses, found]
  exact readResponses_settles ample base heading entries

end Reading

end Analysis

end Bindery
