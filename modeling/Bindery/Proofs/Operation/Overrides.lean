import Bindery.Operation.Analysis
import Bindery.Proofs.Alike
import Bindery.Proofs.Resolution.Chains

/-!
# Parameters that replace others

A parameter of an operation replaces those of its path item that have the same
name and write the same place.  A place that is not written counts as an empty
one then, and as the query where the parameter is read.  So a parameter without
a place does not replace the one in the query that it repeats.
-/

namespace Bindery

open List Run

theorem filterM_map_of_pure {α β : Type} {step : β → Except Fault Bool} {change : α → β}
    {keep : α → Bool} (each : ∀ item, step (change item) = pure (keep item)) (items : List α) :
    (items.map change).filterM step = pure ((items.filter keep).map change) := by
  have collect (kept : List β) : (items.map change).filterAuxM step kept =
      pure (((items.filter keep).map change).reverse ++ kept) := by
    induction items generalizing kept with
    | nil => rfl
    | cons item rest ih =>
      rw [map_cons, filterAuxM, each, pure_bind, ih]
      cases here : keep item <;> simp [here]
  rw [filterM, collect]
  simp

def ParameterGroups.under (groups : ParameterGroups) : ParameterPlace → List Parameter
  | .query => groups.query
  | .path => groups.path
  | .header => groups.header
  | .cookie => groups.cookie

theorem ParameterGroups.under_ofList (parameters : List Parameter) (place : ParameterPlace) :
    (ofList parameters).under place = parameters.filter (·.place = place) := by
  cases place <;> rfl

namespace Analysis

/-! ## What tells parameters apart -/

/-- A parameter that is no reference, with a text for its name and for its place, if it has one. -/
structure PlainParameter where
  entries : Entries
  name : String
  place? : Option String
  final : (Value.map entries).IsFinal
  named : entries.get? "name" = some (.str name)
  placed : entries.get? "in" = place?.map .str

namespace PlainParameter

/-- A parameter replaces another one if it has its name and writes its place, where no place counts
as an empty one. -/
def replaces (own shared : PlainParameter) : Bool :=
  own.name = shared.name ∧ own.place?.getD "" = shared.place?.getD ""

/-- The place that a parameter has: the one it writes, or else the query. -/
def effectivePlace? (parameter : PlainParameter) : Option ParameterPlace :=
  ParameterPlace.ofText? (parameter.place?.getD "query")

/-- The name and the place of a parameter that is read: the place has to be known, and the parameter
must not be a header that requests carry anyway. -/
def signature? (parameter : PlainParameter) : Option (String × ParameterPlace) :=
  parameter.effectivePlace?.bind fun place =>
    if place = .header ∧ Text.lower parameter.name ∈ ignoredHeaders then none
    else some (parameter.name, place)

/-- The parameters of a path item that are not replaced, and then those of the operation. -/
def mergedWith (shared own : List PlainParameter) : List PlainParameter :=
  shared.filter (fun parameter => !own.any (·.replaces parameter)) ++ own

theorem identity_eq (parameter : PlainParameter) :
    identity parameter.entries =
      .ok (.str parameter.name, .str (parameter.place?.getD "")) := by
  unfold identity
  dsimp only
  rw [parameter.named, parameter.placed]
  cases parameter.place? <;> rfl

theorem merge_eq (shared own : List PlainParameter) (location : String) :
    merge (shared.map fun parameter => (parameter.entries, location))
        (own.map fun parameter => (parameter.entries, location)) =
      .ok ((mergedWith shared own).map fun parameter => (parameter.entries, location)) := by
  have replaced : (own.map fun parameter => (parameter.entries, location)).mapM
      (fun parameter : Placed => identity parameter.1) =
        pure (own.map fun parameter => (.str parameter.name, .str (parameter.place?.getD ""))) := by
    rw [mapM_map]
    exact (congrArg (mapM · own) (funext identity_eq)).trans mapM_pure
  rw [merge, replaced, pure_bind, filterM_map_of_pure, pure_bind, mergedWith, map_append]
  · rfl
  · intro parameter
    rw [identity_eq]
    show (pure _ : Except Fault Bool) = pure _
    congr 2
    rw [any_map]
    congr 1
    funext other
    simp [sameIdentity, Scalar.str_same, replaces, eq_comm]

/-! ## Reading parameters -/

variable {sources : Sources}

theorem followAll_eq (parameters : List PlainParameter) (base : String) :
    followAll sources base (parameters.map fun parameter => .map parameter.entries) =
      pure (parameters.map fun parameter =>
        (parameter.entries, Resolving.baseOf sources base)) := by
  induction parameters with
  | nil => rfl
  | cons parameter rest ih =>
    rw [map_cons, followAll, Resolving.follow_of_final parameter.final, pure_bind, ih]
    rfl

theorem readParameter_signature (parameter : PlainParameter) (location heading : String) :
    Run.Returns (readParameter sources (parameter.entries, location) heading) fun result =>
      result.map (fun read => (read.name, read.place)) = parameter.signature? := by
  have placed : (((Entries.get? "in" parameter.entries).getD (.str "query")).toText?.bind
      ParameterPlace.ofText?) = parameter.effectivePlace? := by
    rw [parameter.placed, effectivePlace?]
    cases parameter.place? <;> rfl
  have ignored : isIgnoredHeader (.str parameter.name) =
      .ok (decide (Text.lower parameter.name ∈ ignoredHeaders)) := by
    rw [isIgnoredHeader, List.contains_eq_mem]
  have built {place : ParameterPlace} {schema : Node} {read : Parameter}
      (returned : parameterOf parameter.entries place (.str parameter.name) schema = .ok read) :
      (read.name, read.place) = (parameter.name, place) := by
    unfold parameterOf at returned
    split at returned <;> cases returned
    next found _ =>
      cases found
      rfl
  unfold readParameter signature?
  dsimp only
  rw [placed, parameter.named]
  cases parameter.effectivePlace? with
  | none => exact .pure rfl
  | some place =>
    have onward : Run.Returns (do
        let schema ← Resolving.read sources (parameterSchema parameter.entries) location
          (heading ++ " parameter " ++ (Value.str parameter.name).text)
        return some (← Run.ofExcept (parameterOf parameter.entries place
          (.str parameter.name) schema))) fun result =>
        result.map (fun read => (read.name, read.place)) = some (parameter.name, place) := by
      refine .after _ fun schema => ?_
      refine .bind (.ofExcept fun _ returned => built returned) fun read same => .pure ?_
      exact congrArg some same
    simp only [Option.bind_some, Option.getD_some]
    split
    next header =>
      rw [ignored, Run.ofExcept_ok_bind]
      by_cases carried : Text.lower parameter.name ∈ ignoredHeaders
      · simp only [header, carried, decide_true, and_self, if_true]
        exact .pure rfl
      · simp only [carried, decide_false, and_false, if_false]
        exact onward
    next other =>
      rw [if_neg (by simp [other])]
      exact onward

theorem readParameters_signature (parameters : List PlainParameter) (location heading : String) :
    Returns (readParameters sources
        (parameters.map fun parameter => (parameter.entries, location)) heading) fun result =>
      result.map (fun read => (read.name, read.place)) = parameters.filterMap signature? := by
  have each : Returns
      ((parameters.map fun parameter => (parameter.entries, location)).mapM fun parameter =>
        readParameter sources parameter heading) fun results =>
      Forall₂ (fun parameter result => result.map (fun read : Parameter =>
        (read.name, read.place)) = signature? parameter) parameters results := by
    rw [mapM_map]
    exact .mapM fun parameter _ => readParameter_signature parameter location heading
  refine .bind each fun results same => .pure ?_
  clear each
  induction same with
  | nil => rfl
  | @cons _ result _ _ here _ ih =>
    rw [filterMap_cons, filterMap_cons, ← here]
    cases result with
    | none => exact ih
    | some read => exact congrArg (_ :: ·) ih

end PlainParameter

open PlainParameter

theorem operationParameters_signature {sources : Sources} {item operation : Entries}
    {shared own : List PlainParameter}
    (listed : Value.itemsOrNone (item.present? "parameters") =
      .ok (shared.map fun parameter => .map parameter.entries))
    (listed' : Value.itemsOrNone (operation.present? "parameters") =
      .ok (own.map fun parameter => .map parameter.entries)) (base heading : String) :
    Returns (operationParameters sources item operation base heading) fun result =>
      result.2.map (fun read => (read.name, read.place)) =
        (mergedWith shared own).filterMap signature? := by
  unfold operationParameters
  dsimp only
  rw [listed, listed', ofExcept_ok_bind, ofExcept_ok_bind, followAll_eq, followAll_eq,
    pure_bind, pure_bind]
  refine .after _ fun pathLevel => ?_
  rw [merge_eq, ofExcept_ok_bind]
  exact .bind (readParameters_signature _ _ _) fun merged same => .pure same

theorem resolving_returns {α : Type} {step : Resolving α} {fact : α → Prop}
    (returns : Returns step fact) : Returns (resolving step) fact :=
  fun analyzing value _ ran =>
    returns analyzing.findings value _ (start_of_fst (congrArg Prod.fst ran))

/-! ## A place that is not written -/

def PlainParameter.ofName (name : String) (place? : Option String) : PlainParameter where
  entries := (.str "name", .str name) :: (place?.map fun place => (.str "in", .str place)).toList
  name
  place?
  final := by cases place? <;> exact nofun
  named := rfl
  placed := by cases place? <;> rfl

def readBeside (shared own : List PlainParameter) : Except Fault Operation × Analyzing :=
  let sources := .of { documents := [] } [] { location := "/s", dialect := .v31, root := [] }
  let listing (parameters : List PlainParameter) : Entries :=
    [(.str "parameters", .list (parameters.map fun parameter => .map parameter.entries))]
  (readOperation sources (.str "/p") .get (listing shared) (listing own) "").start
    { findings := .start sources }

end Analysis

end Bindery
