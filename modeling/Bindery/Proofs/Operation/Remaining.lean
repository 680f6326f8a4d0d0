import Bindery.Proofs.Operation.Following
import Bindery.Survey

/-!
# The operations that remain

Which operations of a document are left out can be told from the sources: those
with a parameter, a response or a body that cannot be reached.  An operation
gets its id after its parameters and responses are read, and before its body is.
So one that is left out because of its parameters or responses leaves no trace in
the ids of the others, and one that is left out because of its body keeps its id.

The ids are therefore given by a fold over the operations, each with its fate.
-/

namespace Bindery

open Resolving List Run

namespace Analysis

/-! ## Operations and their fates -/

/-- What becomes of an operation: it is kept, or dropped before or after it has got its id. -/
inductive Fate where
  | kept
  | droppedUnnamed
  | droppedNamed
deriving DecidableEq

structure Listed where
  path : Scalar
  method : Method
  item : Entries
  operation : Entries
  base : String
deriving DecidableEq

namespace Listed

def entry (listed : Listed) : Scalar × Method × Entries :=
  (listed.path, listed.method, listed.operation)

/-- The objects that are read before an operation gets its id. -/
def objects (listed : Listed) : List Value :=
  listedParameters listed.item ++ listedParameters listed.operation ++
    listedResponses listed.operation

def fate (sources : Sources) (listed : Listed) : Fate :=
  if listed.objects.all (sources.reaches listed.base) then
    if sources.reaches listed.base (listedBody listed.operation) then .kept else .droppedNamed
  else .droppedUnnamed

def isKept (sources : Sources) (listed : Listed) : Bool :=
  listed.fate sources = .kept

def idBase (listed : Listed) : String :=
  (Analysis.idBase listed.operation listed.method.text listed.path).toOption.getD ""

/-- What an operation means for the ids: its fate, and the base of its id. -/
def claim (sources : Sources) (listed : Listed) : Fate × String :=
  (listed.fate sources, listed.idBase)

end Listed

def listPathItem (path : Scalar) (item : Entries) (base : String) : Entries → List Listed
  | [] => []
  | (.str key, .map operation) :: rest =>
    match Method.ofText? key with
    | none => listPathItem path item base rest
    | some method => ⟨path, method, item, operation, base⟩ :: listPathItem path item base rest
  | _ :: rest => listPathItem path item base rest

def listPaths (sources : Sources) : Entries → List Listed
  | [] => []
  | (path, raw) :: rest =>
    match sources.followed raw "" with
    | .ok (.map item, base) => listPathItem path item base item ++ listPaths sources rest
    | _ => listPaths sources rest

def listing (sources : Sources) : List Listed :=
  listPaths sources (sources.root.paths.toEntries?.getD [])

/-- The operations that are not dropped. -/
def keptListing (sources : Sources) : List Listed :=
  (listing sources).filter (Listed.isKept sources)

/-! ## Ids of operations in turn -/

/-- The ids that are taken after some operations. -/
def takenIds (earlier : List String) : List (Fate × String) → List String
  | [] => earlier
  | (.droppedUnnamed, _) :: rest => takenIds earlier rest
  | (_, base) :: rest => takenIds (earlier ++ [distinctId earlier base]) rest

/-- The ids of those operations that are kept. -/
def keptIds (earlier : List String) : List (Fate × String) → List String
  | [] => []
  | (.droppedUnnamed, _) :: rest => keptIds earlier rest
  | (.droppedNamed, base) :: rest => keptIds (earlier ++ [distinctId earlier base]) rest
  | (.kept, base) :: rest =>
    distinctId earlier base :: keptIds (earlier ++ [distinctId earlier base]) rest

theorem takenIds_append (earlier : List String) (first second : List (Fate × String)) :
    takenIds earlier (first ++ second) = takenIds (takenIds earlier first) second := by
  induction first generalizing earlier with
  | nil => rfl
  | cons claim rest ih =>
    obtain ⟨fate, base⟩ := claim
    cases fate <;> exact ih _

theorem keptIds_append (earlier : List String) (first second : List (Fate × String)) :
    keptIds earlier (first ++ second) =
      keptIds earlier first ++ keptIds (takenIds earlier first) second := by
  induction first generalizing earlier with
  | nil => rfl
  | cons claim rest ih =>
    obtain ⟨fate, base⟩ := claim
    cases fate with
    | kept => exact congrArg (distinctId earlier base :: ·) (ih _)
    | droppedUnnamed => exact ih _
    | droppedNamed => exact ih _

/-- Operations that are dropped before they get an id do not matter to the others. -/
theorem keptIds_filter {claims : List (Fate × String)}
    (unnamed : ∀ claim ∈ claims, claim.1 ≠ .droppedNamed) (earlier : List String) :
    keptIds earlier (claims.filter fun claim => claim.1 = .kept) = keptIds earlier claims := by
  induction claims generalizing earlier with
  | nil => rfl
  | cons claim rest ih =>
    obtain ⟨fate, base⟩ := claim
    have others := ih fun other inside => unnamed other (mem_cons_of_mem _ inside)
    cases fate with
    | kept => exact congrArg (distinctId earlier base :: ·) (others _)
    | droppedUnnamed => exact others _
    | droppedNamed => exact absurd rfl (unnamed _ mem_cons_self)

/-! ## Steps with the ids so far -/

/-- From some ids and steady findings, a step comes to steady findings: `after` holds of what it
returns and of the ids then, or it fails and `failed` holds of the ids. -/
def From {α : Type} (sources : Sources) (ids : List String) (step : Analysis α)
    (after : α → List String → Prop) (failed : List String → Prop) : Prop :=
  ∀ findings, findings.Steady sources →
    Lands (fun value later => later.findings.Steady sources ∧ after value later.ids)
      (fun later => later.findings.Steady sources ∧ failed later.ids) (step.start { findings, ids })

variable {sources : Sources} {ids : List String}

namespace From

variable {α β : Type} {failed : List String → Prop}

theorem pure {value : α} {after : α → List String → Prop} (holds : after value ids) :
    From sources ids (pure value) after failed :=
  fun _ steady => lands_ok ⟨steady, holds⟩

theorem ofExcept {result : Except Fault α} (clear : NoResolutionFault result) :
    From sources ids (Run.ofExcept result)
      (fun value ids' => ids' = ids ∧ result = .ok value) failed := by
  intro findings steady
  cases result with
  | ok value => exact Run.lands_ok ⟨steady, rfl, rfl⟩
  | error fault => exact ⟨nofun, fun cause stopped => absurd stopped (clear cause)⟩

theorem resolving {step : Resolving α} {fails : Prop} (settles : Settles sources step fails)
    (failure : fails → failed ids) :
    From sources ids (Analysis.resolving step) (fun _ ids' => ids' = ids ∧ ¬fails) failed := by
  intro findings steady
  have landed := settles findings steady
  rw [start_resolving]
  constructor
  · intro value returned
    obtain ⟨clear, steady'⟩ := landed.ok value returned
    exact ⟨steady', rfl, clear⟩
  · intro cause stopped
    obtain ⟨failing, steady'⟩ := landed.resolution cause stopped
    exact ⟨steady', failure failing⟩

theorem takeId (base : String) :
    From sources ids (Analysis.takeId base)
      (fun id ids' => id = distinctId ids base ∧ ids' = ids ++ [distinctId ids base]) failed :=
  fun _ steady => lands_ok ⟨steady, rfl, rfl⟩

theorem bind {step : Analysis α} {next : α → Analysis β} {middle : α → List String → Prop}
    {after : β → List String → Prop} (first : From sources ids step middle failed)
    (second : ∀ value ids', middle value ids' → From sources ids' (next value) after failed) :
    From sources ids (step >>= next) after failed := by
  intro findings steady
  have landed := first findings steady
  rw [start_bind]
  rcases outcome : step.start { findings, ids } with ⟨fault | value, later⟩ <;>
    rw [outcome] at landed
  · exact ⟨nofun, fun cause stopped => landed.resolution cause (by cases stopped; rfl)⟩
  · obtain ⟨steady', holds⟩ := landed.ok value rfl
    exact second value later.ids holds later.findings steady'

theorem mono {step : Analysis α} {after after' : α → List String → Prop}
    (first : From sources ids step after failed)
    (implies : ∀ value ids', after value ids' → after' value ids') :
    From sources ids step after' failed :=
  fun findings steady => (first findings steady).mono
    (fun value later ended => ⟨ended.1, implies value later.ids ended.2⟩) fun _ ended => ended

theorem attempt {step : Analysis α} {after : α → List String → Prop} {failed' : List String → Prop}
    (first : From sources ids step after failed) :
    From sources ids (attempt step) (fun result ids' =>
      (∃ value, result = .ok value ∧ after value ids') ∨
        ∃ cause, result = .error cause ∧ failed ids') failed' := by
  intro findings steady
  have landed := first findings steady
  rw [start_attempt]
  rcases outcome : step.start { findings, ids } with ⟨fault | value, later⟩ <;>
    rw [outcome] at landed
  · cases fault with
    | resolution cause =>
      obtain ⟨steady', holds⟩ := landed.resolution cause rfl
      exact lands_ok ⟨steady', .inr ⟨cause, rfl, holds⟩⟩
    | _ => exact ⟨nofun, nofun⟩
  · obtain ⟨steady', holds⟩ := landed.ok value rfl
    exact lands_ok ⟨steady', .inl ⟨value, rfl, holds⟩⟩

theorem report (diagnostic : Diagnostic) :
    From sources ids (Analysis.report diagnostic) (fun _ ids' => ids' = ids) failed :=
  fun _ steady =>
    lands_ok ⟨⟨steady.sound.of_same steady.sound.faithful rfl rfl, steady.agrees⟩, rfl⟩

end From

/-! ## Reading an operation -/

theorem noResolution_operationSecurity (sources : Sources) (operation : Entries) :
    NoResolutionFault (operationSecurity sources operation) := by
  have alternatives (requirements : Value) :
      NoResolutionFault (Security.alternativesOf requirements) := by
    unfold Security.alternativesOf
    dsimp only
    split
    · exact .bind (.needItems _) fun _ => .ok _
    · exact .ok _
  refine .bind (.needEntries _) fun components => .bind (alternatives _) fun _ => ?_
  dsimp only
  split
  · exact .ok _
  · exact .bind (.needEntries _) fun _ => .ok _

theorem noResolution_idBase (operation : Entries) (method : String) (path : Scalar) :
    NoResolutionFault (idBase operation method path) := by
  have ofPath : NoResolutionFault (idBase.ofPath method path) := by
    unfold idBase.ofPath
    split <;> rintro cause ⟨⟩
  unfold idBase
  split
  · split
    · exact ofPath
    · exact .ok _
  · exact ofPath

theorem noResolution_union (responses : List Response) :
    NoResolutionFault (Response.union responses) := by
  refine .bind (.mapM fun response => .bind ?_ fun _ => .ok _) fun _ => .ok _
  unfold Response.rank
  dsimp only
  split
  · split <;> rintro cause ⟨⟩
  · split <;> rintro cause ⟨⟩

theorem noResolution_operationTexts (operation : Entries) (path : Scalar) :
    NoResolutionFault (operationTexts operation path) := by
  unfold operationTexts
  dsimp only
  split <;> rintro cause ⟨⟩

theorem path_of_operationTexts {operation : Entries} {path : Scalar} {text : String}
    {summary description : Option String}
    (returned : operationTexts operation path = .ok (text, summary, description)) :
    path = .str text := by
  unfold operationTexts at returned
  dsimp only at returned
  split at returned
  next read _ _ =>
    cases returned
    unfold Field.text at read
    split at read
    next same =>
      cases read
      exact Value.scalar.inj same
    next => cases read
  next => cases returned

namespace Listed

def Dropped (sources : Sources) (ids : List String) (listed : Listed) (ids' : List String) : Prop :=
  listed.fate sources ≠ .kept ∧ ids' = takenIds ids [listed.claim sources]

/-- What is known of an operation that was read, and the ids after it. -/
def Kept (sources : Sources) (ids : List String) (listed : Listed) (operation : Operation)
    (ids' : List String) : Prop :=
  listed.fate sources = .kept ∧ operation.id = distinctId ids listed.idBase ∧
    ids' = ids ++ [distinctId ids listed.idBase] ∧
    (Scalar.str operation.path, operation.method) = (listed.path, listed.method)

variable {listed : Listed}

theorem dropped_of_objects (unreached : listed.objects.all (sources.reaches listed.base) = false) :
    listed.Dropped sources ids ids := by
  have fate : listed.fate sources = .droppedUnnamed := by
    rw [Listed.fate, unreached, if_neg Bool.false_ne_true]
  rw [Dropped, claim, fate]
  exact ⟨nofun, rfl⟩

/-- An operation is kept if all its objects are reached.  It has got its id unless one of its
parameters and responses is not reached. -/
theorem readOperation_from (ample : nestingBound sources + 2 ≤ sources.bound) (listed : Listed)
    (ids : List String) :
    From sources ids
      (readOperation sources listed.path listed.method listed.item listed.operation listed.base)
      (listed.Kept sources ids) (listed.Dropped sources ids) := by
  unfold readOperation
  refine (From.resolving (operationParameters_settles ample _ _ _ _) fun unreached => ?_).bind ?_
  · apply dropped_of_objects
    rw [objects, all_append, unreached, Bool.false_and]
  rintro ⟨pathLevel, merged⟩ _ ⟨rfl, parameters⟩
  refine (From.resolving (operationResponses_settles ample _ _ _) fun unreached => ?_).bind ?_
  · apply dropped_of_objects
    rw [objects, all_append, unreached, Bool.and_false]
  rintro responses _ ⟨rfl, responded⟩
  have reached : listed.objects.all (sources.reaches listed.base) = true := by
    rw [objects, all_append, Bool.and_eq_true]
    exact ⟨by simpa using parameters, by simpa using responded⟩
  refine (From.ofExcept (noResolution_operationSecurity _ _)).bind ?_
  rintro security _ ⟨rfl, -⟩
  refine (From.ofExcept (noResolution_idBase _ _ _)).bind ?_
  rintro base ids ⟨rfl, based⟩
  have same : listed.idBase = base := by
    rw [idBase, based]
    rfl
  refine (From.takeId base).bind ?_
  rintro id _ ⟨rfl, rfl⟩
  refine (From.ofExcept (.itemsOrNone _)).bind ?_
  rintro tags _ ⟨rfl, -⟩
  refine (From.resolving (readBody_settles ample _ _ _) fun unreached => ?_).bind ?_
  · have fate : listed.fate sources = .droppedNamed := by
      rw [Listed.fate, reached, if_pos rfl]
      exact if_neg (by simpa [listedBody] using unreached)
    rw [Dropped, claim, fate, same]
    exact ⟨nofun, rfl⟩
  rintro body _ ⟨rfl, bodied⟩
  refine (From.ofExcept (noResolution_union responses)).bind ?_
  rintro union _ ⟨rfl, -⟩
  refine (From.ofExcept (noResolution_operationTexts _ _)).bind ?_
  rintro ⟨path, summary, description⟩ _ ⟨rfl, texts⟩
  have fate : listed.fate sources = .kept := by
    rw [Listed.fate, reached, if_pos rfl]
    exact if_pos (by simpa [listedBody] using bodied)
  refine From.pure ⟨fate, ?_, ?_, ?_⟩
  · rw [same]
  · rw [same]
  · rw [path_of_operationTexts texts]

end Listed

/-! ## Reading all operations -/

/-- The operations that are read from a list, and the ids after it. -/
structure Obtained (sources : Sources) (ids : List String) (listing : List Listed)
    (operations : List Operation) (ids' : List String) : Prop where
  given : operations.map (·.id) = keptIds ids (listing.map (Listed.claim sources))
  taken : ids' = takenIds ids (listing.map (Listed.claim sources))
  entries : operations.map (fun operation => (Scalar.str operation.path, operation.method)) =
    (listing.filter (Listed.isKept sources)).map fun listed => (listed.path, listed.method)

namespace Obtained

theorem nil : Obtained sources ids [] [] ids :=
  ⟨rfl, rfl, rfl⟩

variable {listed : Listed} {listing listing' : List Listed} {operation : Operation}
  {operations operations' : List Operation} {ids' ids'' : List String}

theorem keep (kept : listed.Kept sources ids operation ids')
    (others : Obtained sources ids' listing operations ids'') :
    Obtained sources ids (listed :: listing) (operation :: operations) ids'' := by
  obtain ⟨fate, named, rfl, entry⟩ := kept
  have isKept : listed.isKept sources = true := decide_eq_true fate
  constructor
  · rw [map_cons, map_cons, Listed.claim, fate, keptIds, named, others.given]
  · rw [map_cons, Listed.claim, fate, others.taken]
    rfl
  · rw [map_cons, filter_cons_of_pos isKept, map_cons, entry, others.entries]

theorem drop (dropped : listed.Dropped sources ids ids')
    (others : Obtained sources ids' listing operations ids'') :
    Obtained sources ids (listed :: listing) operations ids'' := by
  obtain ⟨fate, rfl⟩ := dropped
  have isKept : ¬listed.isKept sources = true := by simpa [Listed.isKept] using fate
  constructor
  · rw [others.given, map_cons, Listed.claim]
    cases ended : listed.fate sources with
    | kept => exact absurd ended fate
    | droppedUnnamed => rfl
    | droppedNamed => rfl
  · rw [others.taken, ← takenIds_append]
    rfl
  · rw [others.entries, filter_cons_of_neg isKept]

theorem append (first : Obtained sources ids listing operations ids')
    (second : Obtained sources ids' listing' operations' ids'') :
    Obtained sources ids (listing ++ listing') (operations ++ operations') ids'' := by
  constructor
  · rw [map_append, map_append, keptIds_append, first.given, second.given, first.taken]
  · rw [map_append, takenIds_append, second.taken, first.taken]
  · rw [map_append, filter_append, map_append, first.entries, second.entries]

end Obtained

/-- Following references gives what the sources say. -/
theorem follow_from (raw : Value) (base : String) (ids : List String) :
    From sources ids (resolving (Resolving.follow sources raw base))
      (fun value ids' => ids' = ids ∧ sources.followed raw base = .ok value)
      fun ids' => ids' = ids ∧ ∃ cause, sources.followed raw base = .error (.resolution cause) := by
  intro findings steady
  have landed := follow_settles raw base findings steady
  obtain ⟨cache, -, ran⟩ := follow_looks_followed raw base findings steady.agrees
  rw [start_resolving]
  rw [ran] at landed ⊢
  constructor
  · intro value returned
    exact ⟨(landed.ok value returned).2, rfl, returned⟩
  · intro cause stopped
    exact ⟨(landed.resolution cause stopped).2, rfl, cause, stopped⟩

section Runs

variable (ample : nestingBound sources + 2 ≤ sources.bound)

include ample

theorem readPathItem_from (path : Scalar) (item : Entries) (base : String) (entries : Entries)
    (ids : List String) :
    From sources ids (readPathItem sources path item base entries)
      (Obtained sources ids (listPathItem path item base entries)) fun _ => False := by
  fun_induction readPathItem sources path item base entries generalizing ids with
  | case1 => exact From.pure .nil
  | case2 key operation rest unknown ih =>
    rw [listPathItem, unknown]
    exact ih ids
  | case3 key operation rest method known ih =>
    rw [listPathItem, known]
    refine (Listed.readOperation_from ample ⟨path, method, item, operation, base⟩
      ids).attempt.bind ?_
    rintro result ids' (⟨operation, rfl, kept⟩ | ⟨cause, rfl, dropped⟩)
    · exact (ih ids').bind fun operations ids'' others => From.pure (.keep kept others)
    · refine (From.report _).bind ?_
      rintro _ ids' rfl
      exact (ih ids').mono fun operations ids'' others => .drop dropped others
  | case4 entry rest other ih =>
    rw [listPathItem]
    · exact ih ids
    · exact other

theorem readPaths_from (entries : Entries) (ids : List String) :
    From sources ids (readPaths sources entries) (Obtained sources ids (listPaths sources entries))
      fun _ => False := by
  induction entries generalizing ids with
  | nil => exact From.pure .nil
  | cons entry rest ih =>
    obtain ⟨path, raw⟩ := entry
    unfold readPaths listPaths
    refine (follow_from raw "" ids).attempt.bind ?_
    rintro result _ (⟨⟨target, base⟩, rfl, rfl, followed⟩ | ⟨cause, rfl, rfl, fault, followed⟩)
    · rw [followed]
      cases target with
      | map item =>
        refine (readPathItem_from ample path item base item _).bind
          fun operations ids' here => ?_
        exact (ih ids').bind fun others ids'' later => From.pure (here.append later)
      | scalar _ => exact ih _
      | list _ => exact ih _
    · rw [followed]
      refine (From.report _).bind ?_
      rintro _ _ rfl
      exact ih _

theorem operations_obtained {findings last : Findings} {operations : List Operation}
    (steady : findings.Steady sources)
    (ran : (Analysis.operations sources).start findings = (.ok operations, last)) :
    ∃ ids', Obtained sources [] (listing sources) operations ids' := by
  have reading : From sources [] (do
      readPaths sources (← Run.ofExcept sources.root.paths.needEntries))
      (Obtained sources [] (listing sources)) fun _ => False := by
    refine (From.ofExcept (.needEntries _)).bind ?_
    rintro entries _ ⟨rfl, found⟩
    have listed : sources.root.paths.toEntries?.getD [] = entries := by
      unfold Value.needEntries at found
      split at found
      next same =>
        cases found
        rw [same]
        rfl
      next => cases found
    rw [listing, listed]
    exact readPaths_from ample entries _
  have landed := reading findings steady
  exact ⟨_, (landed.ok operations (congrArg Prod.fst ran)).2⟩

end Runs

/-! ## Documents without the operations that are dropped -/

theorem idBase_eq {listing : List Listed} :
    listing.map Listed.idBase = (listing.map Listed.entry).map fun entry =>
      (Analysis.idBase entry.2.2 entry.2.1.text entry.1).toOption.getD "" := by
  rw [map_map]
  rfl

/-- If all operations are kept, only the bases of their ids matter. -/
theorem claims_of_kept {listing : List Listed} (kept : ∀ listed ∈ listing, listed.isKept sources) :
    listing.map (Listed.claim sources) = (listing.map Listed.idBase).map (Fate.kept, ·) := by
  rw [map_map]
  apply map_congr_left
  intro listed member
  have fate : listed.fate sources = .kept := of_decide_eq_true (kept listed member)
  rw [Listed.claim, fate]
  rfl

theorem claims_keptListing (sources : Sources) :
    (keptListing sources).map (Listed.claim sources) =
      ((listing sources).map (Listed.claim sources)).filter fun claim => claim.1 = .kept := by
  rw [filter_map]
  rfl

end Analysis

namespace Survey

open Analysis

/-- What resolving a document comes to: its operations and its types. -/
def outcome (sources : Sources) : Except Fault (List Operation × Registry) :=
  ((resolve sources).start (Findings.start sources)).1

theorem outcome_obtained {sources : Sources} (ample : nestingBound sources + 2 ≤ sources.bound)
    {operations : List Operation} {registry : Registry}
    (ran : outcome sources = .ok (operations, registry)) :
    ∃ ids, Obtained sources [] (listing sources) operations ids := by
  have started : (resolve sources).start (Findings.start sources) =
      (.ok (operations, registry), _) := Prod.ext ran rfl
  obtain ⟨_, first, prefetched, onward⟩ := start_bind_ok started
  obtain ⟨_, second, resolved, onward⟩ := start_bind_ok onward
  obtain ⟨_, third, analyzed, onward⟩ := start_bind_ok onward
  obtain ⟨_, fourth, _, onward⟩ := start_bind_ok onward
  cases onward
  have fetched := ((Resolving.call_traced ample .prefetch).elim (.start sources) trivial
    prefetched).1 (.start sources)
  have listed := ((Resolving.call_traced ample .components).elim fetched trivial
    resolved).1 fetched
  exact operations_obtained ample listed.steady analyzed

/-- A survey reads the operations whose objects can be reached.  They have the ids that they have
in a document without the dropped ones, unless one of those was dropped because of its body: then
its id stays taken. -/
theorem ids_of_remaining {library : Library} {working : List String} {root root' : NormalDocument}
    {operations operations' : List Operation} {registry registry' : Registry}
    (ran : outcome (.of library working root) = .ok (operations, registry))
    (ran' : outcome (.of library working root') = .ok (operations', registry'))
    (removed : (listing (.of library working root')).map Listed.entry =
      (keptListing (.of library working root)).map Listed.entry)
    (complete : keptListing (.of library working root') = listing (.of library working root')) :
    let sources := Sources.of library working root
    operations.map (fun operation => (Scalar.str operation.path, operation.method)) =
        (keptListing sources).map (fun listed => (listed.path, listed.method)) ∧
      operations.map (·.id) = keptIds [] ((listing sources).map (Listed.claim sources)) ∧
      ((∀ listed ∈ listing sources, listed.fate sources ≠ .droppedNamed) →
        operations.map (·.id) = operations'.map (·.id)) := by
  intro sources
  obtain ⟨ids, obtained⟩ := outcome_obtained (Nat.le_refl _) ran
  obtain ⟨ids', obtained'⟩ := outcome_obtained (Nat.le_refl _) ran'
  refine ⟨obtained.entries, obtained.given, fun unnamed => ?_⟩
  have kept : ∀ listed ∈ keptListing sources, listed.isKept sources = true :=
    fun listed member => (List.mem_filter.mp member).2
  have kept' : ∀ listed ∈ listing (.of library working root'),
      listed.isKept (.of library working root') = true := by
    intro listed member
    rw [← complete] at member
    exact (List.mem_filter.mp member).2
  have unnamed' : ∀ claim ∈ (listing sources).map (Listed.claim sources),
      claim.1 ≠ .droppedNamed := by
    intro claim member
    obtain ⟨listed, inside, rfl⟩ := List.mem_map.mp member
    exact unnamed listed inside
  calc
    operations.map (·.id) = keptIds [] ((listing sources).map (Listed.claim sources)) :=
      obtained.given
    _ = keptIds [] ((keptListing sources).map (Listed.claim sources)) := by
      rw [claims_keptListing, keptIds_filter unnamed']
    _ = keptIds [] ((listing (.of library working root')).map (Listed.claim _)) := by
      rw [claims_of_kept kept, claims_of_kept kept', idBase_eq, idBase_eq, removed]
    _ = operations'.map (·.id) := obtained'.given.symm

/-! ## An id that stays taken -/

def documentOf (paths : Entries) : NormalDocument where
  location := "/s"
  dialect := .v31
  root := [(.str "openapi", .str "3.1.0"), (.str "info", .map []), (.str "paths", .map paths)]

def sourcesOf (paths : Entries) : Sources :=
  .of { documents := [] } [] (documentOf paths)

/-- An operation with an id, which has nothing that cannot be reached. -/
def plainOperation (id : String) : Value :=
  .map [(.str "operationId", .str id)]

/-- An operation with an id and a key whose value refers to what does not exist. -/
def brokenOperation (id key : String) (value : Value → Value) : Value :=
  .map [(.str "operationId", .str id), (.str key, value (.map [(.str "$ref", .str "#/nowhere")]))]

/-- An operation that is dropped because of its body leaves its id taken, so that a later one has
another id than in the document without it. -/
theorem id_taken_by_dropped_body :
    let paths : Entries := [(.str "/a", .map [(.str "post", brokenOperation "x" "requestBody" id)]),
      (.str "/b", .map [(.str "get", plainOperation "x")])]
    let paths' : Entries := [(.str "/a", .map []),
      (.str "/b", .map [(.str "get", plainOperation "x")])]
    (listing (sourcesOf paths')).map Listed.entry =
        (keptListing (sourcesOf paths)).map Listed.entry ∧
      keptListing (sourcesOf paths') = listing (sourcesOf paths') ∧
      (outcome (sourcesOf paths)).toOption.map (·.1.map (·.id)) = some ["x2"] ∧
      (outcome (sourcesOf paths')).toOption.map (·.1.map (·.id)) = some ["x"] := by
  decide +kernel

/-- Operations that are dropped because of a parameter or a response do not matter to the ids of
the others. -/
theorem ids_of_remaining_of_dropped_objects :
    let paths : Entries :=
      [(.str "/a", .map [
        (.str "get", brokenOperation "x" "parameters" fun object => .list [object]),
        (.str "post", plainOperation "x"),
        (.str "put", brokenOperation "x" "responses" fun object => .map [(.str "200", object)])]),
      (.str "/b", .map [(.str "get", plainOperation "x")])]
    let paths' : Entries :=
      [(.str "/a", .map [(.str "post", plainOperation "x")]),
      (.str "/b", .map [(.str "get", plainOperation "x")])]
    ∃ operations operations' registry registry',
      outcome (sourcesOf paths) = .ok (operations, registry) ∧
      outcome (sourcesOf paths') = .ok (operations', registry') ∧
      (listing (sourcesOf paths)).length = 4 ∧ (keptListing (sourcesOf paths)).length = 2 ∧
      operations.map (·.id) = operations'.map (·.id) := by
  intro paths paths'
  have returned : (outcome (sourcesOf paths)).isOk = true := by decide +kernel
  have returned' : (outcome (sourcesOf paths')).isOk = true := by decide +kernel
  have removed : (listing (sourcesOf paths')).map Listed.entry =
      (keptListing (sourcesOf paths)).map Listed.entry := by decide +kernel
  have complete : keptListing (sourcesOf paths') = listing (sourcesOf paths') := by decide +kernel
  have unnamed : ∀ listed ∈ listing (sourcesOf paths),
      listed.fate (sourcesOf paths) ≠ .droppedNamed := by decide +kernel
  cases ran : outcome (sourcesOf paths) with
  | error fault => simp [ran, Except.isOk, Except.toBool] at returned
  | ok result =>
    cases ran' : outcome (sourcesOf paths') with
    | error fault => simp [ran', Except.isOk, Except.toBool] at returned'
    | ok result' =>
      exact ⟨_, _, _, _, rfl, rfl, by decide +kernel, by decide +kernel,
        (ids_of_remaining ran ran' removed complete).2.2 unnamed⟩

end Survey

end Bindery
