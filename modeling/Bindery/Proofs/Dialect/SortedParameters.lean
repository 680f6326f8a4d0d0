import Bindery.Proofs.Course
import Bindery.Proofs.Dialect.MovedReferences

/-!
# Where the parameters of a lifted operation go

Each listed parameter of a 2.0 document is followed to the parameter it stands for,
and the place of that one decides: a body or a form field becomes part of the
request body, and every other one stays in the list.  What a path item lists of the
first kind is handed down to each of its operations.

The sorting is a run over the list.  One step is described by `Sorted.placed`,
and the three parts of the result are read off the list as a whole.
-/

namespace Bindery

open Entries List Sum

namespace Dialect

/-! ## Listed parameters -/

def listedParameters (owner : Entries) : List Value :=
  match owner.get? "parameters" with
  | some (.list items) => items
  | _ => []

def dereferenced (document : Entries) (raw : Value) : Entries :=
  match parameterTarget raw document with
  | .ok parameter => parameter
  | .error _ => []

def isIn (place : String) (parameter : Entries) : Bool :=
  ((parameter.get? "in").getD .null).isText place

def isCarried (parameter : Entries) : Bool :=
  isIn "body" parameter || isIn "formData" parameter

def liftListed : Value → Value
  | .map parameter => liftParameter parameter
  | raw => raw

variable {parameter : Entries}

theorem isIn_iff {place : String} :
    isIn place parameter = true ↔ parameter.get? "in" = some (.str place) := by
  rw [isIn, Value.isText]
  cases parameter.get? "in" with
  | none => simp [Value.toText?]
  | some value =>
    cases value with
    | scalar scalar => cases scalar <;> simp [Value.toText?]
    | list items => simp [Value.toText?]
    | map entries => simp [Value.toText?]

theorem isOneOf_place (parameter : Entries) :
    ((parameter.get? "in").getD .null).isOneOf ["body", "formData"] = isCarried parameter := by
  rw [Bool.eq_iff_iff, isCarried, Bool.or_eq_true, isIn_iff, isIn_iff]
  cases parameter.get? "in" with
  | none => simp [Value.isOneOf]
  | some value =>
    cases value with
    | scalar scalar => cases scalar <;> simp [Value.isOneOf]
    | list items => simp [Value.isOneOf]
    | map entries => simp [Value.isOneOf]

variable {document : Entries}

variable {raw value : Value} {items raws required required' : List Value}
  {owner field properties made operation : Entries} {sorted : Sorted}
  {before after front back bodies : List Entries}

theorem dereferenced_eq (found : parameterTarget raw document = .ok parameter) :
    dereferenced document raw = parameter := by
  rw [dereferenced, found]

theorem exists_of_parameterTarget (found : parameterTarget raw document = .ok parameter) :
    ∃ entries, raw = .map entries := by
  obtain ⟨entries, needed, -⟩ := ok_of_bind found
  cases raw with
  | map entries => exact ⟨entries, rfl⟩
  | _ => cases needed

/-- A walk over a value that meets nothing but maps is one over a list, unless it meets nothing. -/
theorem eq_list_of_needItems (walked : value.needItems = .ok items) (some : items ≠ [])
    (maps : ∀ item ∈ items, ∃ entries, item = .map entries) : value = .list items := by
  obtain ⟨first, rest, rfl⟩ := exists_cons_of_ne_nil some
  obtain ⟨entries, rfl⟩ := maps first mem_cons_self
  unfold Value.needItems at walked
  split at walked
  next => rw [Except.ok.inj walked]
  next others =>
    cases others with
    | nil => cases walked
    | cons head tail => cases walked
  next text =>
    cases spelled : text.toList with
    | nil => simp [spelled] at walked
    | cons head tail => simp [spelled] at walked
  next bytes =>
    cases bytes with
    | nil => cases walked
    | cons head tail => cases walked
  next => cases walked

/-- What a walk over the parameters meets, if each of them is a map. -/
theorem eq_listedParameters (listed : Value.itemsOrNone (owner.present? "parameters") = .ok items)
    (maps : ∀ item ∈ items, ∃ entries, item = .map entries) : items = listedParameters owner := by
  rw [listedParameters]
  rw [present?] at listed
  cases found : owner.get? "parameters" with
  | none =>
    rw [found] at listed
    cases listed
    rfl
  | some value =>
    rw [found, Option.filter_some] at listed
    split at listed
    next truthy =>
      by_cases empty : items = []
      · subst empty
        split
        next others same =>
          cases same
          cases listed
          rfl
        next => rfl
      · rw [eq_list_of_needItems listed empty maps]
    next falsy =>
      cases listed
      split
      next others same =>
        cases same
        cases others with
        | nil => rfl
        | cons head tail => exact absurd rfl falsy
      next => rfl

variable {name : String}

theorem listedParameters_set (value : Value) (other : "parameters" ≠ name) :
    listedParameters (owner.set name value) = listedParameters owner := by
  rw [listedParameters, get?_set_of_ne other, listedParameters]

/-! ## Sorting -/

/-- Adds a form field; it replaces an earlier one of its name. -/
def addField (fields : List Entries) (field : Entries) : List Entries :=
  (fields.filter fun other =>
    !((other.get? "name").getD .null).same ((field.get? "name").getD .null)) ++ [field]

/-- The result of adding a parameter to its group, where `lifted` is what it becomes in a list. -/
def Sorted.placed (sorted : Sorted) (parameter : Entries) (lifted : Value) : Sorted :=
  if isIn "body" parameter then { sorted with body := some parameter }
  else if isIn "formData" parameter then { sorted with form := addField sorted.form parameter }
  else { sorted with parameters := sorted.parameters ++ [lifted] }

theorem Sorted.add_eq_ok {next : Sorted} (added : sorted.add raw document = .ok next) :
    (∃ entries, raw = .map entries) ∧
      next = sorted.placed (dereferenced document raw) (liftListed raw) := by
  obtain ⟨parameter, found, added⟩ := ok_of_bind added
  obtain ⟨entries, rfl⟩ := exists_of_parameterTarget found
  refine ⟨⟨entries, rfl⟩, ?_⟩
  rw [dereferenced_eq found, placed]
  split at added
  next body =>
    cases added
    rw [if_pos (isIn_iff.mpr body)]
  next field =>
    cases added
    have other : ¬isIn "body" parameter = true := by simp [isIn_iff, field]
    rw [if_neg other, if_pos (isIn_iff.mpr field)]
    rfl
  next notBody notField =>
    obtain ⟨needed, same, added⟩ := ok_of_bind added
    cases same
    cases added
    rw [if_neg (mt isIn_iff.mp notBody), if_neg (mt isIn_iff.mp notField)]
    rfl

/-- Sorting a list of parameters places one after the other. -/
theorem sorted_eq_foldl {start : Sorted}
    (ran : raws.foldlM (fun (sorted : Sorted) raw => sorted.add raw document) start = .ok sorted) :
    (∀ raw ∈ raws, ∃ entries, raw = .map entries) ∧
      sorted = raws.foldl (fun sorted raw =>
        sorted.placed (dereferenced document raw) (liftListed raw)) start := by
  induction raws generalizing start with
  | nil =>
    cases ran
    exact ⟨by simp, rfl⟩
  | cons raw rest ih =>
    rw [foldlM_cons] at ran
    obtain ⟨next, added, ran⟩ := ok_of_bind ran
    obtain ⟨map, rfl⟩ := Sorted.add_eq_ok added
    obtain ⟨maps, same⟩ := ih ran
    exact ⟨forall_mem_cons.mpr ⟨map, maps⟩, same⟩

def lastBody (parameters : List Entries) : Option Entries :=
  (parameters.filter (isIn "body")).getLast?

/-- The form fields among some parameters; a later one replaces an earlier one of its name. -/
def fieldsOf (parameters : List Entries) : List Entries :=
  (parameters.filter (isIn "formData")).foldl addField []

/-- What a list of parameters becomes, apart from those that become part of a request body. -/
def liftedList (document : Entries) (raws : List Value) : List Value :=
  (raws.filter fun raw => !isCarried (dereferenced document raw)).map liftListed

theorem foldl_placed (document : Entries) (raws : List Value) (start : Sorted) :
    raws.foldl (fun sorted raw => sorted.placed (dereferenced document raw) (liftListed raw)) start =
      { parameters := start.parameters ++ liftedList document raws
        body := (lastBody (raws.map (dereferenced document))).or start.body
        form := ((raws.map (dereferenced document)).filter (isIn "formData")).foldl addField
          start.form } := by
  induction raws generalizing start with
  | nil => simp [liftedList, lastBody]
  | cons raw rest ih =>
    rw [foldl_cons, ih, Sorted.placed]
    simp only [liftedList, lastBody, map_cons, filter_cons]
    cases body : isIn "body" (dereferenced document raw) with
    | true =>
      have other : isIn "formData" (dereferenced document raw) = false := by
        rw [Bool.eq_false_iff, Ne, isIn_iff, isIn_iff.mp body]
        simp
      cases last : ((rest.map (dereferenced document)).filter (isIn "body")).getLast? <;>
        simp [isCarried, body, other, getLast?_cons, last]
    | false =>
      cases field : isIn "formData" (dereferenced document raw) with
      | true => simp [isCarried, body, field]
      | false => simp [isCarried, body, field]

theorem sorted_eq
    (ran : raws.foldlM (fun (sorted : Sorted) raw => sorted.add raw document) {} = .ok sorted) :
    (∀ raw ∈ raws, ∃ entries, raw = .map entries) ∧
      sorted.parameters = liftedList document raws ∧
      sorted.body = lastBody (raws.map (dereferenced document)) ∧
      sorted.form = fieldsOf (raws.map (dereferenced document)) := by
  obtain ⟨maps, rfl⟩ := sorted_eq_foldl ran
  rw [foldl_placed]
  exact ⟨maps, nil_append _, Option.or_none, rfl⟩

/-- The last body is one behind which there is no other. -/
theorem lastBody_append {body : Entries} (here : isIn "body" body = true)
    (last : ∀ other ∈ after, isIn "body" other = false) :
    lastBody (before ++ body :: after) = some body := by
  have none : after.filter (isIn "body") = [] := by
    simpa [filter_eq_nil_iff] using last
  rw [lastBody, filter_append, filter_cons, if_pos here, none]
  exact getLast?_concat

theorem lastBody_eq_none {parameters : List Entries}
    (absent : ∀ parameter ∈ parameters, isIn "body" parameter = false) :
    lastBody parameters = none := by
  have none : parameters.filter (isIn "body") = [] := by
    simpa [filter_eq_nil_iff] using absent
  rw [lastBody, none, getLast?_nil]

/-- Two form fields have different names. -/
def NamedApart (field other : Entries) : Prop :=
  ((field.get? "name").getD .null).same ((other.get? "name").getD .null) = false

theorem foldl_addField (later : List Entries) (apart : ∀ other ∈ back, NamedApart field other)
    (apart' : ∀ other ∈ later, NamedApart field other) :
    ∃ front' back', later.foldl addField (front ++ field :: back) = front' ++ field :: back' ∧
      ∀ other ∈ back', NamedApart field other := by
  induction later generalizing front back with
  | nil => exact ⟨front, back, rfl, apart⟩
  | cons next rest ih =>
    have kept : addField (front ++ field :: back) next =
        (front.filter fun other =>
          !((other.get? "name").getD .null).same ((next.get? "name").getD .null)) ++
        field :: addField back next := by
      have stays := apart' next mem_cons_self
      rw [NamedApart] at stays
      simp [addField, stays]
    rw [foldl_cons, kept]
    refine ih (fun other member => ?_) fun other member =>
      apart' other (mem_cons_of_mem _ member)
    rcases mem_append.mp member with old | new
    · exact apart other (mem_of_mem_filter old)
    · rw [mem_singleton.mp new]
      exact apart' next mem_cons_self

/-- A field is among the form fields if none behind it has its name. -/
theorem fieldsOf_append (here : isIn "formData" field = true)
    (last : ∀ other ∈ after, isIn "formData" other = true → NamedApart field other) :
    ∃ front back, fieldsOf (before ++ field :: after) = front ++ field :: back ∧
      ∀ other ∈ back, NamedApart field other := by
  rw [fieldsOf, filter_append, filter_cons, if_pos here, foldl_append,
    foldl_cons]
  refine foldl_addField _ (by simp) fun other member => ?_
  obtain ⟨inside, placed⟩ := mem_filter.mp member
  exact last other inside placed

/-! ## Form fields -/

/-- Fields of other names leave the property of a name as it is. -/
theorem get?_formFields {fields : List Entries}
    (ran : formFields properties required fields = .ok (made, required'))
    (other : ∀ field ∈ fields, get? "name" field ≠ some (.str name)) :
    made.get? name = properties.get? name := by
  induction fields generalizing properties required with
  | nil =>
    cases ran
    rfl
  | cons field rest ih =>
    rw [formFields] at ran
    split at ran
    next => cases ran
    next value named =>
      obtain ⟨key, needed, ran⟩ := ok_of_bind ran
      rw [ih ran fun next member => other next (mem_cons_of_mem _ member)]
      refine get?_put_of_ne ?_ _ _
      rintro rfl
      cases value with
      | scalar scalar =>
        cases needed
        exact other field mem_cons_self named
      | _ => cases needed

/-- The property of a field, if none of the fields behind it has its name. -/
theorem get?_formFields_append
    (ran : formFields properties required (front ++ field :: back) = .ok (made, required'))
    (named : field.get? "name" = some (.str name))
    (other : ∀ field ∈ back, get? "name" field ≠ some (.str name)) :
    made.get? name = some (liftSchema (.map (fieldSchema field))) := by
  induction front generalizing properties required with
  | nil =>
    rw [nil_append, formFields, named] at ran
    obtain ⟨key, ⟨⟩, ran⟩ := ok_of_bind ran
    rw [get?_formFields ran other, put_str, get?_set_self]
  | cons first rest ih =>
    rw [cons_append, formFields] at ran
    split at ran
    next => cases ran
    next =>
      obtain ⟨_, -, ran⟩ := ok_of_bind ran
      exact ih ran

/-! ## Lifted operations -/

def consumed (document operation : Entries) : Value :=
  ((operation.present? "consumes").orElse fun _ => document.present? "consumes").getD
    defaultMediaTypes

/-- An operation is lifted with a list of parameters: those that stay are kept, and the request body
is made of the last body or else of the form fields. -/
structure LiftedFrom (document operation : Entries) (raws : List Value) (lifted : Entries) :
    Prop where
  parameters : listedParameters lifted = liftedList document raws
  body : ∀ body, lastBody (raws.map (dereferenced document)) = some body →
    ∃ request, liftBody body (consumed document operation) = .ok request ∧
      lifted.get? "requestBody" = some request
  form : lastBody (raws.map (dereferenced document)) = none →
    fieldsOf (raws.map (dereferenced document)) ≠ [] →
    ∃ request, liftForm (fieldsOf (raws.map (dereferenced document)))
        (consumed document operation) = .ok request ∧
      lifted.get? "requestBody" = some request

theorem get?_of_isOneOf {names : List String} (listed : names.contains name = true)
    (entries : Entries) :
    get? name (entries.filter fun entry => !entry.1.isOneOf names) = none := by
  rw [get?_filter fun key => !key.isOneOf names]
  simp [Scalar.isOneOf, contains_iff_mem.mp listed]

/-- A lifted operation has the parameters handed down to it in front of its own. -/
theorem liftOperation_eq_ok {inherited : List Entries}
    (made : liftOperation operation document inherited = .ok value) :
    ∃ lifted, value = .map lifted ∧
      LiftedFrom document operation (inherited.map Value.map ++ listedParameters operation)
        lifted := by
  obtain ⟨own, listed, made⟩ := ok_of_bind made
  obtain ⟨sorted, ran, made⟩ := ok_of_bind made
  obtain ⟨maps, parameters, body, form⟩ := sorted_eq ran
  have same := eq_listedParameters listed fun raw member =>
    maps raw (List.mem_append_right _ member)
  rw [same] at parameters body form
  let kept : Entries := operation.filter fun entry =>
    !entry.1.isOneOf ["parameters", "responses", "consumes", "produces", "schemes"]
  let start : Entries :=
    if sorted.parameters.isEmpty then kept else kept.set "parameters" (.list sorted.parameters)
  have started : listedParameters start = sorted.parameters := by
    have none : kept.get? "parameters" = none := get?_of_isOneOf (by decide) operation
    show listedParameters (if sorted.parameters.isEmpty then kept
      else kept.set "parameters" (.list sorted.parameters)) = _
    split
    next empty => rw [listedParameters, none, List.isEmpty_iff.mp empty]
    next => rw [listedParameters, get?_set_self]
  rw [parameters] at started
  simp only at made
  -- The responses are set last, and they are neither parameters nor a request body.
  split at made
  next found stored =>
    obtain ⟨request, built, made⟩ := ok_of_bind made
    obtain ⟨_, ⟨⟩, made⟩ := ok_of_bind made
    obtain ⟨_, -, made⟩ := ok_of_bind made
    obtain ⟨responses, -, made⟩ := ok_of_bind made
    cases made
    refine ⟨_, rfl, ?_, ?_, ?_⟩
    · rw [listedParameters_set _ (by decide), listedParameters_set _ (by decide)]
      exact started
    · intro last isLast
      rw [← body, stored] at isLast
      cases isLast
      exact ⟨request, built, by simp [get?_set]⟩
    · intro none
      rw [← body, stored] at none
      cases none
  next absent =>
    split at made
    next empty =>
      obtain ⟨_, ⟨⟩, made⟩ := ok_of_bind made
      obtain ⟨_, -, made⟩ := ok_of_bind made
      obtain ⟨responses, -, made⟩ := ok_of_bind made
      cases made
      refine ⟨_, rfl, ?_, ?_, ?_⟩
      · rw [listedParameters_set _ (by decide)]
        exact started
      · intro last isLast
        rw [← body, absent] at isLast
        cases isLast
      · intro _ filled
        exact absurd (List.isEmpty_iff.mp (form ▸ empty)) filled
    next =>
      obtain ⟨request, built, made⟩ := ok_of_bind made
      obtain ⟨_, ⟨⟩, made⟩ := ok_of_bind made
      obtain ⟨_, -, made⟩ := ok_of_bind made
      obtain ⟨responses, -, made⟩ := ok_of_bind made
      cases made
      refine ⟨_, rfl, ?_, ?_, ?_⟩
      · rw [listedParameters_set _ (by decide), listedParameters_set _ (by decide)]
        exact started
      · intro last isLast
        rw [← body, absent] at isLast
        cases isLast
      · intro _ _
        exact ⟨request, form ▸ built, by simp [get?_set]⟩

/-! ## Lifted path items -/

/-- Changing the values of entries one by one changes the value that a look-up finds. -/
theorem get?_of_mapM {step : Scalar × Value → Except Fault (Scalar × Value)} {entries : Entries}
    {name : String} (keys : ∀ entry changed, step entry = .ok changed → changed.1 = entry.1)
    (ran : entries.mapM step = .ok made) : entries.get? name = none ∧ made.get? name = none ∨
      ∃ value changed, entries.get? name = some value ∧
        step (.str name, value) = .ok (.str name, changed) ∧ made.get? name = some changed := by
  have each := forall₂_of_mapM ran
  clear ran
  induction each with
  | nil => exact .inl ⟨rfl, rfl⟩
  | @cons entry part rest others first _ ih =>
    obtain ⟨key, old⟩ := entry
    obtain ⟨key', changed⟩ := part
    obtain rfl : key' = key := keys _ _ first
    rw [get?, get?]
    split
    next same =>
      subst same
      exact .inr ⟨old, changed, rfl, first, rfl⟩
    next => exact ih

/-- The bodies and form fields that a path item hands down to its operations. -/
def inherited (document item : Entries) : List Entries :=
  ((listedParameters item).map (dereferenced document)).filter isCarried

def effective (document item operation : Entries) : List Value :=
  (inherited document item).map Value.map ++ listedParameters operation

/-- The parameters of a path item are parted into those that are handed down and those that
stay. -/
theorem parted_of_mapM {parted : List (Entries ⊕ Value)} (ran : raws.mapM (fun raw => do
      let parameter ← parameterTarget raw document
      let place := (parameter.get? "in").getD .null
      if place.isOneOf ["body", "formData"] then return inl parameter
      else return inr (liftParameter (← raw.needEntries))) = .ok parted) :
    (∀ raw ∈ raws, ∃ entries, raw = .map entries) ∧
      parted.filterMap getLeft? = (raws.map (dereferenced document)).filter isCarried ∧
      parted.filterMap getRight? = liftedList document raws := by
  have each := forall₂_of_mapM ran
  clear ran
  induction each with
  | nil => exact ⟨by simp, rfl, rfl⟩
  | @cons raw part rest others first _ ih =>
    obtain ⟨maps, left, right⟩ := ih
    obtain ⟨parameter, found, first⟩ := ok_of_bind first
    obtain ⟨entries, rfl⟩ := exists_of_parameterTarget found
    have target := dereferenced_eq found
    refine ⟨forall_mem_cons.mpr ⟨⟨entries, rfl⟩, maps⟩, ?_⟩
    simp only [isOneOf_place] at first
    rw [map_cons, filter_cons, liftedList, filter_cons, target]
    split at first
    next carried =>
      cases first
      show parameter :: others.filterMap getLeft? = _ ∧ others.filterMap getRight? = _
      rw [left, right]
      simp [carried, liftedList]
    next stays =>
      obtain ⟨_, ⟨⟩, first⟩ := ok_of_bind first
      cases first
      show others.filterMap getLeft? = _ ∧
        liftParameter entries :: others.filterMap getRight? = _
      rw [left, right]
      simp [stays, liftedList, liftListed]

/-- What an entry of a path item becomes, if some bodies and form fields are handed down. -/
def liftMember (document : Entries) (bodies : List Entries) (entry : Scalar × Value) :
    Except Fault (Scalar × Value) := do
  match entry with
  | (key, .map operation) =>
    if key.isOneOf methodNames then return (key, ← liftOperation operation document bodies)
    else return entry
  | _ => return entry

theorem liftMember_key {entry lifted : Scalar × Value}
    (made : liftMember document bodies entry = .ok lifted) : lifted.1 = entry.1 := by
  unfold liftMember at made
  split at made
  next key operation =>
    split at made
    · obtain ⟨_, -, made⟩ := ok_of_bind made
      cases made
      rfl
    · cases made
      rfl
  next =>
    cases made
    rfl

theorem liftMember_operation {method : String} {lifted : Value} (known : method ∈ methodNames)
    (made : liftMember document bodies (.str method, .map operation) = .ok (.str method, lifted)) :
    liftOperation operation document bodies = .ok lifted := by
  have isMethod : (Scalar.str method).isOneOf methodNames = true := by
    simpa [Scalar.isOneOf] using known
  simp only [liftMember, isMethod, if_true] at made
  obtain ⟨_, built, made⟩ := ok_of_bind made
  cases made
  exact built

/-- A lifted path item keeps the parameters that stay, and each of its operations is lifted with
those that are handed down. -/
theorem liftPathItem_eq_ok {item : Entries} (own : item.has "$ref" = false)
    (made : liftPathItem item document = .ok value) : ∃ lifted : Entries, value = .map lifted ∧
      listedParameters lifted = liftedList document (listedParameters item) ∧
      ∀ method ∈ methodNames, ∀ operation, item.get? method = some (.map operation) →
        ∃ operation', lifted.get? method = some (.map operation') ∧
          LiftedFrom document operation (effective document item operation) operation' := by
  rw [liftPathItem, own] at made
  simp only [Bool.false_eq_true, if_false] at made
  obtain ⟨raws, listed, made⟩ := ok_of_bind made
  obtain ⟨parted, ran, made⟩ := ok_of_bind made
  obtain ⟨entries, changed, made⟩ := ok_of_bind made
  obtain ⟨maps, left, right⟩ := parted_of_mapM ran
  rw [eq_listedParameters listed maps] at left right
  have members : (item.filter fun entry => entry.1 ≠ .str "parameters").mapM
      (liftMember document (inherited document item)) = .ok entries := by
    rw [← changed, inherited, ← left]
    rfl
  have found (name : String) : get? name
      (item.filter fun entry => entry.1 ≠ .str "parameters") =
        if name = "parameters" then none else item.get? name := by
    rw [get?_filter fun key => decide (key ≠ .str "parameters")]
    by_cases same : name = "parameters" <;> simp [same]
  have looked (name : String) := @get?_of_mapM _ _ _ name (fun _ _ => liftMember_key) members
  have absent : get? "parameters" entries = none := by
    rcases looked "parameters" with ⟨-, none⟩ | ⟨_, _, here, -⟩
    · exact none
    · rw [found, if_pos rfl] at here
      cases here
  have operations (method : String) (known : method ∈ methodNames) (operation : Entries)
      (here : item.get? method = some (.map operation)) :
      ∃ operation', get? method entries = some (.map operation') ∧
        LiftedFrom document operation (effective document item operation) operation' := by
    have other : method ≠ "parameters" := by
      rintro rfl
      exact absurd known (by decide)
    have same := (found method).trans ((if_neg other).trans here)
    rcases looked method with ⟨none, -⟩ | ⟨value, lifted, old, step, present⟩
    · rw [none] at same
      cases same
    · rw [old] at same
      cases same
      obtain ⟨operation', rfl, from'⟩ := liftOperation_eq_ok (liftMember_operation known step)
      exact ⟨operation', present, from'⟩
  split at made
  next none =>
    cases made
    refine ⟨_, rfl, ?_, operations⟩
    rw [listedParameters, absent, ← right, List.isEmpty_iff.mp none]
  next =>
    cases made
    refine ⟨_, rfl, right, fun method known operation here => ?_⟩
    obtain ⟨operation', present, from'⟩ := operations method known operation here
    refine ⟨operation', ?_, from'⟩
    rw [get?, if_neg, present]
    rintro ⟨⟩
    exact absurd known (by decide)

end Dialect

end Bindery
