import Mathlib
import Bindery.Proofs.Dialect.Idempotence
import Bindery.Proofs.Dialect.SortedParameters
import Bindery.Proofs.Location.Pointers

/-!
# References to parameters

A path item or an operation of a 2.0 document may list a reference to one of the
parameters of the document.  Main statement: the reference keeps its meaning when
the document is lifted.  A parameter that is neither a body nor a form field is
still listed by reference, and the reference leads to what the parameter becomes;
the others become part of request bodies.

Whether the parameter becomes part of a request body is decided by a look-up of
the text as it is written, while the reference itself is followed with its
escapes read.  So a name that has to be written with escapes is not found by the
look-up, and then no body and no form field may be concerned.
-/

namespace Bindery

open Pointer Entries Option Text List

namespace Dialect

open Location (percentDecode)

/-! ## Views of a document -/

/-- A reference inside a document leads to a value. -/
def LeadsTo (document : Entries) (reference : String) (value : Value) : Prop :=
  ∃ pointer, reference = "#" ++ pointer ∧
    resolve reference (.map document) (percentDecode pointer) = .ok value

def mapWithin (document : Entries) (outer inner : String) : Option Entries :=
  match document.get? outer with
  | some (.map entries) => (get? inner entries).bind Value.toEntries?
  | _ => none

variable {document target parameters made output item : Entries} {first token name path : String}

theorem mapWithin_eq_some {found : Entries} {outer inner : String}
    (here : mapWithin document outer inner = some found) :
    ∃ entries : Entries, document.get? outer = some (.map entries) ∧
      entries.get? inner = some (.map found) := by
  unfold mapWithin at here
  split at here
  next entries same =>
    obtain ⟨value, inside, isMap⟩ := bind_eq_some_iff.mp here
    refine ⟨entries, same, ?_⟩
    rw [inside]
    cases value with
    | map found' =>
      cases isMap
      rfl
    | _ => cases isMap
  next => cases here

def sharedParameter (document : Entries) (name : String) : Option Entries :=
  mapWithin document "parameters" name

def pathItem (document : Entries) (path : String) : Option Entries :=
  mapWithin document "paths" path

def parameterReference (token : String) : Value :=
  .map [(.str "$ref", .str ("#/parameters/" ++ token))]

def liftedReference (token : String) : Value :=
  .map [(.str "$ref", .str ("#/components/parameters/" ++ token))]

/-- What a listed parameter becomes in the lifted document. -/
def converted (raw : Value) : Value :=
  moveReferences (liftListed raw)

/-! ## Where a reference leads -/

/-- The name that is written as a segment of a reference. -/
def nameOf (token : String) : String :=
  unescape (percentDecode token)

theorem segments_token {front : String} {rest : List String}
    (spelled : ∀ text, front ++ text = "/" ++ join "/" (first :: rest ++ [text]))
    (present : first ≠ "") (plain : '%' ∉ front.toList) (ascii : ∀ c ∈ front.toList, c.toNat < 128)
    (bare : ∀ piece ∈ first :: rest, '/' ∉ piece.toList ∧ '~' ∉ piece.toList)
    (single : '/' ∉ (percentDecode token).toList) :
    segments (percentDecode (front ++ token)) = first :: rest ++ [nameOf token] := by
  have absent : ∀ piece ∈ first :: (rest ++ [percentDecode token]), '/' ∉ piece.toList := by
    intro piece member
    rcases mem_append.mp (show piece ∈ (first :: rest) ++ [_] from member) with named | last
    · exact (bare piece named).1
    · rw [mem_singleton.mp last]
      exact single
  have kept : (first :: rest).map unescape = first :: rest :=
    (map_congr_left fun piece member =>
      unescape_of_notMem (bare piece member).2).trans (map_id _)
  rw [Location.percentDecode_append plain ascii, spelled, cons_append,
    segments_join present absent]
  rw [← cons_append, map_append, kept]
  rfl

theorem eq_of_marked {second : String} (same : "#" ++ first = "#" ++ second) : first = second :=
  (String.append_right_inj "#").mp same

/-- A reference to a parameter leads to the one with the name that is written in it, if the
parameters of the document are in a map. -/
theorem sharedParameter_of_leadsTo (single : '/' ∉ (percentDecode token).toList)
    (gathered : Value.entriesOrNone (document.present? "parameters") = .ok parameters)
    (leads : LeadsTo document ("#/parameters/" ++ token) (.map target)) :
    sharedParameter document (nameOf token) = some target := by
  obtain ⟨pointer, same, resolved⟩ := leads
  obtain rfl : "/parameters/" ++ token = pointer :=
    eq_of_marked (by rw [← same, ← String.append_assoc]; rfl)
  have segments : Pointer.segments (percentDecode ("/parameters/" ++ token)) =
      ["parameters"] ++ [nameOf token] :=
    segments_token (fun text => by simp [Text.join, ← String.append_assoc]) (by decide) (by simp)
      (by simp) (by simp) single
  rw [Pointer.resolve, segments] at resolved
  simp only [List.cons_append, List.nil_append, Pointer.walk, Pointer.step] at resolved
  rw [sharedParameter, mapWithin]
  rw [Entries.present?] at gathered
  cases found : document.get? "parameters" with
  | none => simp [found] at resolved
  | some value =>
    simp only [found] at resolved
    cases value with
    | scalar scalar => simp at resolved
    | list items =>
      cases items with
      | nil =>
        have none (index : Int) : Pointer.item? [] index = none := by
          simp [Pointer.item?]
        cases Text.readInteger? (nameOf token) <;> simp [none] at resolved
      | cons item rest =>
        rw [found] at gathered
        cases gathered
    | map entries =>
      dsimp only at resolved ⊢
      cases inside : Entries.get? (nameOf token) entries with
      | none => simp [inside] at resolved
      | some part =>
        simp only [inside, Except.ok.injEq] at resolved
        rw [resolved]
        rfl

theorem after?_append (front text : String) : after? front (front ++ text) = some text := by
  have found : ∀ chars : List Char, afterFront? chars (chars ++ text.toList) =
      some text.toList := by
    intro chars
    induction chars with
    | nil => rfl
    | cons c rest ih => rw [cons_append, afterFront?, if_pos rfl, ih]
  rw [after?, String.toList_append, found, map_some, String.ofList_toList]

theorem moveReference_parameters (token : String) :
    moveReference ("#/parameters/" ++ token) = "#/components/parameters/" ++ token := by
  have other : after? "#/definitions/" ("#/parameters/" ++ token) = none := by
    simp [after?, afterFront?]
  simp only [moveReference, movedSections, findSome?_cons, other, map_none,
    after?_append, map_some]

theorem converted_parameterReference (token : String) :
    converted (parameterReference token) = liftedReference token := by
  have kept : liftListed (parameterReference token) = parameterReference token := rfl
  rw [converted, kept, parameterReference, moveReferences, moveReferencesEntries,
    moveReferencesEntries, if_pos rfl, moveReference_parameters, liftedReference]

/-! ## Following listed parameters -/

theorem sharedParameter_eq
    (gathered : Value.entriesOrNone (document.present? "parameters") = .ok parameters)
    (name : String) :
    sharedParameter document name = (parameters.get? name).bind Value.toEntries? := by
  rw [present?] at gathered
  rw [sharedParameter, mapWithin]
  cases found : document.get? "parameters" with
  | none =>
    rw [found] at gathered
    cases gathered
    rfl
  | some value =>
    rw [found, filter_some] at gathered
    split at gathered
    next truthy =>
      cases value with
      | map entries =>
        cases gathered
        rfl
      | _ => cases gathered
    next falsy =>
      cases gathered
      cases value with
      | map entries =>
        cases entries with
        | nil => rfl
        | cons head tail => exact absurd rfl falsy
      | _ => rfl

/-- A listed reference stands for the parameter that is looked up by the text as it is written, or
else for itself. -/
theorem dereferenced_parameterReference
    (gathered : Value.entriesOrNone (document.present? "parameters") = .ok parameters)
    (token : String) : dereferenced document (parameterReference token) =
      (sharedParameter document token).getD [(.str "$ref", .str ("#/parameters/" ++ token))] := by
  apply dereferenced_eq
  rw [sharedParameter_eq gathered]
  have followed : Text.after? "#/parameters/" ("#/parameters/" ++ token) = some token :=
    after?_append _ _
  unfold parameterReference
  simp only [parameterTarget, Value.needEntries, bind, Except.bind, Entries.get?, if_true, followed,
    gathered]
  cases found : Entries.get? token parameters with
  | none => rfl
  | some value => cases value <;> rfl

theorem dereferenced_map (direct : target.has "$ref" = false) :
    dereferenced document (.map target) = target := by
  apply dereferenced_eq
  have none : target.get? "$ref" = none := by
    simpa [has] using direct
  simp only [parameterTarget, Value.needEntries, bind, Except.bind, none]
  rfl

/-! ## The parameters of a lifted document -/

/-- The parameters of a document that stay are lifted one by one. -/
theorem get?_liftSharedParameters (lifted : liftSharedParameters document = .ok made)
    (found : sharedParameter document name = some target) (stays : isCarried target = false) :
    made.get? name = some (liftParameter target) := by
  obtain ⟨parameters, gathered, sifted⟩ := ok_of_bind lifted
  obtain ⟨parts, ran, ended⟩ := ok_of_bind sifted
  cases ended
  rw [sharedParameter_eq gathered] at found
  have each := forall₂_of_mapM ran
  clear gathered sifted lifted ran
  induction each with
  | nil => cases found
  | @cons entry part rest others first _ ih =>
    obtain ⟨key, value⟩ := entry
    obtain ⟨parameter, needed, first⟩ := ok_of_bind first
    cases value with
    | map parameter =>
      cases needed
      simp only [isOneOf_place] at first
      rw [Entries.get?] at found
      split at found
      next same =>
        cases found
        rw [if_neg (by simp [stays])] at first
        cases first
        show Entries.get? name ((key, liftParameter target) :: others.filterMap id) = _
        rw [Entries.get?, if_pos same]
      next differ =>
        have later := ih found
        split at first
        next =>
          cases first
          exact later
        next =>
          cases first
          show Entries.get? name ((key, liftParameter parameter) :: others.filterMap id) = _
          rw [Entries.get?, if_neg differ]
          exact later
    | _ => cases needed

/-- A lifted document has the parameters that stay among its components. -/
theorem get?_liftComponents_parameters {components : Entries}
    (collected : liftComponents document = .ok components)
    (found : sharedParameter document name = some target) (stays : isCarried target = false) :
    ∃ parameters : Entries, components.get? "parameters" = some (.map parameters) ∧
      parameters.get? name = some (liftParameter target) := by
  obtain ⟨schemas, -, collected⟩ := ok_of_bind collected
  obtain ⟨parameters, lifted, collected⟩ := ok_of_bind collected
  obtain ⟨responses, -, collected⟩ := ok_of_bind collected
  obtain ⟨schemes, -, collected⟩ := ok_of_bind collected
  cases collected
  have inside := get?_liftSharedParameters lifted found stays
  have filled : parameters.isEmpty = false := by
    cases parameters with
    | nil => cases inside
    | cons _ _ => rfl
  refine ⟨parameters, ?_, inside⟩
  cases schemas <;> simp [filled, Entries.get?]

/-- The new reference to a parameter that stays leads to what the parameter becomes. -/
theorem leadsTo_of_stays (lifted : lift (.map document) = .ok (.map output))
    (single : '/' ∉ (percentDecode token).toList)
    (found : sharedParameter document (nameOf token) = some target)
    (stays : isCarried target = false) :
    LeadsTo output ("#/components/parameters/" ++ token) (converted (.map target)) := by
  obtain ⟨root, -, components, same, -, collected, rooted, -⟩ := lift_eq_ok lifted
  cases same
  obtain ⟨parameters, within', inside⟩ := get?_liftComponents_parameters collected found stays
  have occupied : components ≠ [] := by
    rintro rfl
    cases within'
  refine ⟨"/components/parameters/" ++ token, by rw [← String.append_assoc]; rfl, ?_⟩
  have segments : Pointer.segments (percentDecode ("/components/parameters/" ++ token)) =
      ["components", "parameters"] ++ [nameOf token] :=
    segments_token (fun text => by simp [Text.join, ← String.append_assoc]) (by decide) (by simp)
      (by simp) (by simp) single
  have isMap : ∃ entries, liftParameter target = .map entries := by
    unfold liftParameter
    split
    · exact ⟨_, rfl⟩
    · dsimp only
      split
      · exact ⟨_, rfl⟩
      · exact ⟨_, rfl⟩
  obtain ⟨entries, made⟩ := isMap
  rw [Pointer.resolve, segments]
  simp only [List.cons_append, List.nil_append, Pointer.walk, Pointer.step,
    get?_moveReferencesEntries, rooted occupied, within', inside, Option.map_some, movedUnder_map,
    made, converted, liftListed, moveReferences]

/-! ## The path items of a lifted document -/

/-- The paths of a document are lifted one by one; those without a path item are left out. -/
theorem get?_liftPaths {paths : Entries} (ran : (paths.filterMap fun entry =>
      (entry.2.toEntries?).map fun item => (entry.1, item)).mapM (fun entry => do
        return (entry.1, ← liftPathItem entry.2 document)) = .ok made)
    (found : paths.get? path = some (.map item)) :
    ∃ lifted, liftPathItem item document = .ok lifted ∧ made.get? path = some lifted := by
  induction paths generalizing made with
  | nil => cases found
  | cons entry rest ih =>
    obtain ⟨key, value⟩ := entry
    rw [Entries.get?] at found
    cases value with
    | map other =>
      simp only [List.filterMap_cons, Value.toEntries?, Option.map_some] at ran
      rw [List.mapM_cons] at ran
      obtain ⟨part, first, onward⟩ := ok_of_bind ran
      obtain ⟨others, later, ended⟩ := ok_of_bind onward
      cases ended
      obtain ⟨lifted, built, same⟩ := ok_of_bind first
      cases same
      rw [Entries.get?]
      split at found
      next same =>
        cases found
        exact ⟨lifted, built, if_pos same⟩
      next differ =>
        rw [if_neg differ]
        exact ih later found
    | scalar scalar =>
      split at found
      next => cases found
      next => exact ih ran found
    | list items =>
      split at found
      next => cases found
      next => exact ih ran found

theorem pathItem_lift (lifted : lift (.map document) = .ok (.map output))
    (listed : pathItem document path = some item) (own : item.has "$ref" = false) :
    ∃ item' : Entries, liftPathItem item document = .ok (.map item') ∧
      pathItem output path = some (moveReferencesEntries item') := by
  obtain ⟨paths, found, inside⟩ := mapWithin_eq_some listed
  have present : document.present? "paths" = some (.map paths) := by
    rw [present?, found]
    cases paths with
    | nil => cases inside
    | cons _ _ => rfl
  obtain ⟨_, ⟨⟩, lifted⟩ := ok_of_bind lifted
  obtain ⟨servers, -, lifted⟩ := ok_of_bind lifted
  obtain ⟨entries, listed', lifted⟩ := ok_of_bind lifted
  obtain ⟨paths', ran, lifted⟩ := ok_of_bind lifted
  obtain ⟨components, -, lifted⟩ := ok_of_bind lifted
  have same : paths = entries := by
    rw [present] at listed'
    exact Except.ok.inj listed'
  obtain ⟨value, built, there⟩ := get?_liftPaths ran (same ▸ inside)
  obtain ⟨item', rfl, -⟩ := liftPathItem_eq_ok own built
  refine ⟨item', built, ?_⟩
  have rooted {root : Entries} (placed : root.get? "paths" = some (.map paths')) :
      pathItem (moveReferencesEntries root) path = some (moveReferencesEntries item') := by
    rw [pathItem, mapWithin, get?_moveReferencesEntries, placed]
    simp only [map_some, movedUnder_map, get?_moveReferencesEntries, there]
    rfl
  have moved := Except.ok.inj lifted
  rw [moveReferences] at moved
  cases moved
  apply rooted
  split <;> simp [get?_set]

theorem listedParameters_moved (owner : Entries) :
    listedParameters (moveReferencesEntries owner) =
      (listedParameters owner).map moveReferences := by
  rw [listedParameters, listedParameters, get?_moveReferencesEntries_of_ne (by decide)]
  cases owner.get? "parameters" with
  | none => rfl
  | some value =>
    cases value with
    | scalar scalar => rw [map_some, moveReferences]; rfl
    | list items => rw [map_some, moveReferences, moveReferencesList_eq_map]
    | map entries => rw [map_some, moveReferences]; rfl

/-! ## References keep their meaning -/

/-- A reference to a parameter is kept in a list of parameters: it stands there in its new form,
which leads to what the parameter becomes. -/
def KeptIn (output : Entries) (listed : List Value) (token : String) (target : Entries) : Prop :=
  liftedReference token ∈ listed ∧
    LeadsTo output ("#/components/parameters/" ++ token) (converted (.map target))

/-- A reference is gone from a list of parameters: each of them was made from another one. -/
def GoneFrom (raws listed : List Value) (token : String) : Prop :=
  ∀ parameter ∈ listed, ∃ raw ∈ raws, raw ≠ parameterReference token ∧ parameter = converted raw

/-- A parameter is carried by the request body of an operation, if it is not displaced: a body by a
later body, and a form field by any body or by a later field of its name.  A form field is then a
property of the form under its name. -/
structure CarriedBy (document operation : Entries) (parameters : List Entries)
    (target operation' : Entries) : Prop where
  listed : target ∈ parameters
  body : isIn "body" target = true → ∀ before after, parameters = before ++ target :: after →
    (∀ other ∈ after, isIn "body" other = false) →
    ∃ request, liftBody target (consumed document operation) = .ok request ∧
      operation'.get? "requestBody" = some (moveReferences request)
  field : isIn "formData" target = true → ∀ before after, parameters = before ++ target :: after →
    (∀ other ∈ parameters, isIn "body" other = false) →
    (∀ other ∈ after, isIn "formData" other = true → NamedApart target other) →
    ∃ request, liftForm (fieldsOf parameters) (consumed document operation) = .ok request ∧
      operation'.get? "requestBody" = some (moveReferences request) ∧
      ∀ name, target.get? "name" = some (.str name) → ∃ media,
        Pointer.walk "" (moveReferences request) ["content", media, "schema", "properties", name] =
          .ok (moveReferences (liftSchema (.map (fieldSchema target))))

/-- A field of a form is a property under its name, if none behind it has the name. -/
theorem walk_liftForm {front back : List Entries} {field : Entries} {consumes request : Value}
    (made : liftForm (front ++ field :: back) consumes = .ok request)
    (named : field.get? "name" = some (.str name))
    (other : ∀ field ∈ back, Entries.get? "name" field ≠ some (.str name)) :
    ∃ media, Pointer.walk "" (moveReferences request)
        ["content", media, "schema", "properties", name] =
      .ok (moveReferences (liftSchema (.map (fieldSchema field)))) := by
  obtain ⟨⟨properties, required⟩, gathered, made⟩ := ok_of_bind made
  let schema : Entries :=
    if required.isEmpty then [(.str "type", .str "object"), (.str "properties", .map properties)]
    else Entries.set "required" (.list required)
      [(.str "type", .str "object"), (.str "properties", .map properties)]
  obtain ⟨media, rfl⟩ : ∃ media, request =
      .map [(.str "content", .map [(.str media, .map [(.str "schema", .map schema)])]),
        (.str "required", .bool (!required.isEmpty))] := by
    simp only at made
    split at made
    · obtain ⟨_, ⟨⟩, made⟩ := ok_of_bind made
      exact ⟨_, (Except.ok.inj made).symm⟩
    · obtain ⟨multipart, -, made⟩ := ok_of_bind made
      exact ⟨_, (Except.ok.inj made).symm⟩
  have inside : schema.get? "properties" = some (.map properties) := by
    show Entries.get? "properties" (if required.isEmpty then _ else _) = _
    split <;> simp [Entries.get?, Entries.set]
  have moved : movedUnder (.str name) (liftSchema (.map (fieldSchema field))) =
      moveReferences (liftSchema (.map (fieldSchema field))) := by
    apply movedUnder_eq_moveReferences
    intro text _ isText
    rw [liftSchema, walk] at isText
    cases isText
  refine ⟨media, ?_⟩
  simp only [moveReferences, Pointer.walk, Pointer.step, get?_moveReferencesEntries, Entries.get?,
    if_true, Option.map_some, movedUnder_map, inside, get?_formFields_append gathered named other,
    moved]

section Lists

variable {document target : Entries} {raws : List Value} {token : String}

theorem mem_converted {parameter : Value} :
    parameter ∈ (liftedList document raws).map moveReferences ↔
      ∃ raw ∈ raws, isCarried (dereferenced document raw) = false ∧ converted raw = parameter := by
  simp [liftedList, converted, and_assoc]

theorem goneFrom_of_carried
    (carried : isCarried (dereferenced document (parameterReference token)) = true) :
    GoneFrom raws ((liftedList document raws).map moveReferences) token := by
  intro parameter member
  obtain ⟨raw, inside, stays, rfl⟩ := mem_converted.mp member
  refine ⟨raw, inside, ?_, rfl⟩
  rintro rfl
  rw [carried] at stays
  cases stays

theorem mem_of_stays
    (stays : isCarried (dereferenced document (parameterReference token)) = false)
    (listed : parameterReference token ∈ raws) :
    liftedReference token ∈ (liftedList document raws).map moveReferences :=
  mem_converted.mpr ⟨_, listed, stays, converted_parameterReference token⟩

theorem carriedBy_of_lifted {operation lifted : Entries}
    (from' : LiftedFrom document operation raws lifted)
    (member : target ∈ raws.map (dereferenced document)) :
    CarriedBy document operation (raws.map (dereferenced document)) target
      (moveReferencesEntries lifted) where
  listed := member
  body isBody before after whole last := by
    obtain ⟨request, built, placed⟩ := from'.body target (whole ▸ lastBody_append isBody last)
    refine ⟨request, built, ?_⟩
    rw [get?_moveReferencesEntries_of_ne (by decide), placed, Option.map_some]
  field isField before after whole noBody last := by
    obtain ⟨front, back, fields, apart⟩ := fieldsOf_append isField last
    rw [← whole] at fields
    obtain ⟨request, built, placed⟩ := from'.form (lastBody_eq_none noBody) (by simp [fields])
    refine ⟨request, built, ?_, fun name named => ?_⟩
    · rw [get?_moveReferencesEntries_of_ne (by decide), placed, Option.map_some]
    · refine walk_liftForm (fields ▸ built) named fun other member same => ?_
      have differ := apart other member
      simp [NamedApart, named, same, Value.same, Scalar.str_same] at differ

end Lists

/--
A reference to a parameter of a 2.0 document, listed by a path item or by one of its operations,
keeps its meaning when the document is lifted.  If the parameter is neither a body nor a form field,
the list holds the reference in its new form, which leads to what the parameter becomes.  If it is,
then the reference is gone, and the parameter is carried by the request body of the operation, or of
each operation of the path item.

The text of the reference has to name the parameter as it is written, or else neither the parameter
nor the one with that name may be a body or a form field.
-/
theorem parameter_references_kept_or_carried {document output item target : Entries}
    {path token : String} (lifted : lift (.map document) = .ok (.map output))
    (listed : pathItem document path = some item) (own : item.has "$ref" = false)
    (single : '/' ∉ (percentDecode token).toList)
    (leads : LeadsTo document ("#/parameters/" ++ token) (.map target))
    (direct : target.has "$ref" = false)
    (faithful : sharedParameter document token = some target ∨
      isCarried target = false ∧
        ∀ other, sharedParameter document token = some other → isCarried other = false) :
    ∃ item', pathItem output path = some item' ∧
      (parameterReference token ∈ listedParameters item →
        if isCarried target then
          GoneFrom (listedParameters item) (listedParameters item') token
        else KeptIn output (listedParameters item') token target) ∧
      ∀ method ∈ methodNames, ∀ operation, item.get? method = some (.map operation) →
        ∃ operation', item'.get? method = some (.map operation') ∧
          (parameterReference token ∈ listedParameters operation → isCarried target = false →
            KeptIn output (listedParameters operation') token target) ∧
          (parameterReference token ∈ listedParameters item ++ listedParameters operation →
            isCarried target = true →
            GoneFrom (effective document item operation) (listedParameters operation') token ∧
              CarriedBy document operation
                ((effective document item operation).map (dereferenced document)) target
                operation') := by
  obtain ⟨_, _, components, -, -, collected, -, -⟩ := lift_eq_ok lifted
  obtain ⟨_, -, collected⟩ := ok_of_bind collected
  obtain ⟨_, shared, -⟩ := ok_of_bind collected
  obtain ⟨parameters, gathered, -⟩ := ok_of_bind shared
  have named := sharedParameter_of_leadsTo single gathered leads
  have followed := dereferenced_parameterReference gathered token
  have alike : isCarried (dereferenced document (parameterReference token)) = isCarried target := by
    rcases faithful with found | ⟨stays, others⟩
    · rw [followed, found, Option.getD_some]
    · rw [followed, stays]
      cases other : sharedParameter document token with
      | none => rfl
      | some parameter => exact others parameter other
  have carriedOne (carried : isCarried target = true) :
      dereferenced document (parameterReference token) = target := by
    rcases faithful with found | ⟨stays, -⟩
    · rw [followed, found, Option.getD_some]
    · rw [stays] at carried
      cases carried
  obtain ⟨lifted', built, there⟩ := pathItem_lift lifted listed own
  obtain ⟨_, ⟨⟩, items, operations⟩ := liftPathItem_eq_ok own built
  refine ⟨_, there, fun member => ?_, fun method known operation here => ?_⟩
  · rw [listedParameters_moved, items]
    split
    next carried => exact goneFrom_of_carried (alike.trans carried)
    next stays =>
      rw [Bool.not_eq_true] at stays
      exact ⟨mem_of_stays (alike.trans stays) member, leadsTo_of_stays lifted single named stays⟩
  · obtain ⟨operation', inside, from'⟩ := operations method known operation here
    refine ⟨moveReferencesEntries operation', ?_, fun member stays => ?_, fun member carried => ?_⟩
    · rw [get?_moveReferencesEntries, inside, Option.map_some, movedUnder_map]
    · rw [listedParameters_moved, from'.parameters]
      exact ⟨mem_of_stays (alike.trans stays) (List.mem_append_right _ member),
        leadsTo_of_stays lifted single named stays⟩
    · rw [listedParameters_moved, from'.parameters]
      refine ⟨goneFrom_of_carried (alike.trans carried), carriedBy_of_lifted from' ?_⟩
      rw [effective, List.map_append, List.mem_append]
      rcases List.mem_append.mp member with above | own'
      · refine .inl (List.mem_map.mpr ⟨.map target, ?_, dereferenced_map direct⟩)
        refine List.mem_map_of_mem (List.mem_filter.mpr ⟨?_, carried⟩)
        exact List.mem_map.mpr ⟨_, above, carriedOne carried⟩
      · exact .inr (List.mem_map.mpr ⟨_, own', carriedOne carried⟩)

def queryParameter : Entries :=
  [(.str "name", .str "q"), (.str "in", .str "query"), (.str "type", .str "string")]

def bodyParameter : Entries :=
  [(.str "name", .str "b"), (.str "in", .str "body"),
    (.str "schema", .map [(.str "type", .str "object")])]

def sharingDocument (parameters : Entries) (shared own : List Value) : Entries :=
  [(.str "swagger", .str "2.0"), (.str "parameters", .map parameters),
    (.str "paths", .map [(.str "/p", .map [(.str "parameters", .list shared),
      (.str "get", .map [(.str "parameters", .list own)])])])]

/-- A document whose path item refers to a body, and whose operation refers to another parameter with
a name that needs escapes. -/
def mixedDocument : Entries :=
  sharingDocument [(.str "a/b", .map queryParameter), (.str "B", .map bodyParameter)]
    [parameterReference "B"] [parameterReference "a~1b"]

theorem parameter_references_kept_or_carried_of_mixed :
    ∃ output, lift (.map mixedDocument) = .ok (.map output) ∧
      LeadsTo mixedDocument ("#/parameters/" ++ "a~1b") (.map queryParameter) ∧
      LeadsTo mixedDocument ("#/parameters/" ++ "B") (.map bodyParameter) ∧
      (∃ item' operation' : Entries, pathItem output "/p" = some item' ∧
        item'.get? "get" = some (.map operation') ∧
        KeptIn output (listedParameters operation') "a~1b" queryParameter) ∧
      ∃ item' operation' : Entries, pathItem output "/p" = some item' ∧
        item'.get? "get" = some (.map operation') ∧
        GoneFrom [parameterReference "B"] (listedParameters item') "B" ∧
        ∃ request, liftBody bodyParameter defaultMediaTypes = .ok request ∧
          operation'.get? "requestBody" = some (moveReferences request) := by
  obtain ⟨output, lifted⟩ : ∃ output, lift (.map mixedDocument) = .ok (.map output) :=
    ⟨_, by with_unfolding_all rfl⟩
  have query : LeadsTo mixedDocument ("#/parameters/" ++ "a~1b") (.map queryParameter) :=
    ⟨"/parameters/a~1b", by decide +kernel, by with_unfolding_all rfl⟩
  have body : LeadsTo mixedDocument ("#/parameters/" ++ "B") (.map bodyParameter) :=
    ⟨"/parameters/B", by decide +kernel, by with_unfolding_all rfl⟩
  have listed : pathItem mixedDocument "/p" = some _ := rfl
  refine ⟨output, lifted, query, body, ?_, ?_⟩
  · obtain ⟨item', there, -, operations⟩ := parameter_references_kept_or_carried lifted listed rfl
      (by decide +kernel) query rfl (.inr ⟨rfl, by rintro other ⟨⟩⟩)
    obtain ⟨operation', inside, kept, -⟩ := operations "get" (by decide) _ rfl
    exact ⟨item', operation', there, inside, kept List.mem_cons_self rfl⟩
  · obtain ⟨item', there, gone, operations⟩ := parameter_references_kept_or_carried lifted listed
      rfl (by decide +kernel) body rfl (.inl rfl)
    obtain ⟨operation', inside, -, carried⟩ := operations "get" (by decide) _ rfl
    obtain ⟨-, -, moved, -⟩ := carried List.mem_cons_self rfl
    refine ⟨item', operation', there, inside, gone List.mem_cons_self, ?_⟩
    exact moved rfl [] _ (by with_unfolding_all rfl) (by decide)

/-- A document whose operation refers to a body with a name that needs escapes. -/
def danglingDocument : Entries :=
  sharingDocument [(.str "a/b", .map bodyParameter)] [] [parameterReference "a~1b"]

/-- A reference to a body whose name needs escapes is kept, and leads nowhere. -/
theorem escaped_reference_dangles :
    LeadsTo danglingDocument ("#/parameters/" ++ "a~1b") (.map bodyParameter) ∧
      ∃ output item' operation' : Entries, lift (.map danglingDocument) = .ok (.map output) ∧
        pathItem output "/p" = some item' ∧ item'.get? "get" = some (.map operation') ∧
        listedParameters operation' = [liftedReference "a~1b"] ∧
        operation'.get? "requestBody" = none ∧
        ∀ value, ¬LeadsTo output ("#/components/parameters/" ++ "a~1b") value := by
  refine ⟨⟨"/parameters/a~1b", by decide +kernel, by with_unfolding_all rfl⟩, ?_⟩
  refine ⟨_, _, _, by with_unfolding_all rfl, by with_unfolding_all rfl, by with_unfolding_all rfl,
    by with_unfolding_all rfl, by with_unfolding_all rfl, ?_⟩
  rintro value ⟨pointer, same, resolved⟩
  obtain rfl : "/components/parameters/a~1b" = pointer :=
    eq_of_marked (by rw [← same]; decide +kernel)
  have missing := resolved.symm.trans
    (show _ = Except.error (.missingKey ("#/components/parameters/" ++ "a~1b") "components") by
      with_unfolding_all rfl)
  cases missing

end Dialect

end Bindery
