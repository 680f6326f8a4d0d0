import Bindery.Schema.Reader
import Mathlib.Data.List.Basic

/-!
# The keywords a schema is read by

The reader of schemas looks at a map through its keywords only: neither the
order of the entries nor any other key has an effect.  So two maps with the same
values under the keywords of a shape are read alike, step by step and in any
surroundings.

The equations of the reader are stated first without the proofs that its
recursion carries, so that what is found under a keyword can be replaced.
-/

namespace Bindery

open Constraints List Entries

namespace Schema

variable {State : Type} (surroundings : Surroundings State)

/-! ## Equations of the reader -/

theorem readItems_eq (schema : Value) (place : String) :
    readItems surroundings schema place =
      match schema.get? "items" with
      | some (.map entries) => do
        return some (← read surroundings (.map entries) (place ++ "/items"))
      | _ => return none := by
  rw [readItems]
  split
  next entries found => rw [found]
  next other =>
    split
    next entries found => exact absurd found (other entries)
    next => rfl

theorem readDeclared_eq (schema : Value) (place : String) :
    readDeclared surroundings schema place =
      match schema.get? "properties" with
      | some (.map entries) => readProperties surroundings entries (place ++ "/properties/")
      | some value => if value.isTruthy then throw (.shape .noMember) else return []
      | none => return [] := by
  rw [readDeclared]
  split
  next entries found => rw [found]
  next value other found =>
    rw [found]
    cases value with
    | map entries => exact absurd rfl (other entries)
    | scalar _ => rfl
    | list _ => rfl
  next absent => rw [absent]

theorem readExtras_eq (schema : Value) (place : String) :
    readExtras surroundings schema place =
      match schema.get? "additionalProperties" with
      | some (.scalar (.bool false)) => return .closed
      | some (.map (entry :: entries)) => do
        return .typed
          (← read surroundings (.map (entry :: entries)) (place ++ "/additionalProperties"))
      | _ => return .open := by
  rw [readExtras]
  split
  next closed => rw [closed]
  next entry entries found => rw [found]
  next notClosed notTyped =>
    split
    next closed => exact absurd closed notClosed
    next entry entries found => exact absurd found (notTyped entry entries)
    next => rfl

/-- Completes a union from its members. -/
def readUnion (schema : Value) (place : String) (mode : Composition) (members : List Node) :
    Run State Node := do
  let discriminator ← readDiscriminator surroundings (schema.get? "discriminator")
  if hasOwnShape schema then do
    let own ← readObject surroundings schema place {} none
    return .composition (noteOf schema) .allOf
      [own, .composition {} mode members discriminator] none
  else return .composition (noteOf schema) mode members discriminator

/-- Completes a composition from its members. -/
def readComposed (schema : Value) (place : String) (mode : Composition) (members : List Node) :
    Run State Node :=
  match mode with
  | .allOf =>
    if hasOwnShape schema then do
      let own ← readObject surroundings schema place {} none
      return .composition (noteOf schema) .allOf (members ++ [own]) none
    else return .composition (noteOf schema) .allOf members none
  | mode => readUnion surroundings schema place mode members

/-- Reads a schema that lists no values and is no reference. -/
def readShape (schema : Value) (place : String) : Run State Node :=
  match composition? schema with
  | none => readTyped surroundings schema ((schema.get? "type").getD .null) place (noteOf schema)
  | some (mode, items) => do
    let members ← readMembers surroundings items (place ++ "/" ++ mode.text ++ "/") 0
    readComposed surroundings schema place mode members

theorem readBody_eq (schema : Value) (place : String) :
    readBody surroundings schema place =
      ((unsupported schema place).forM surroundings.report >>= fun _ =>
        match enumeration? schema with
        | some node => return node
        | none => readShape surroundings schema place) := by
  rw [readBody]
  congr 1
  funext _
  cases enumeration? schema with
  | some node => rfl
  | none =>
    simp only [readShape]
    split
    next absent => rw [absent]
    next mode items found =>
      rw [found]
      cases mode <;> rfl

theorem eq_enumeration {schema : Value} {node : Node} (found : enumeration? schema = some node) :
    ∃ values extensible, node = .enumeration (noteOf schema) values extensible := by
  unfold enumeration? at found
  split at found
  · cases found
    exact ⟨_, _, rfl⟩
  · split at found
    · cases found
      exact ⟨_, _, rfl⟩
    · obtain ⟨value, _, same⟩ := Option.map_eq_some_iff.mp found
      exact ⟨_, _, same.symm⟩

/-! ## Agreement on keywords -/

/-- Two schemas have the same values under some keywords. -/
def Agree (keywords : List String) (first second : Value) : Prop :=
  ∀ keyword ∈ keywords, first.get? keyword = second.get? keyword

theorem Agree.mono {keywords fewer : List String} {first second : Value}
    (agree : Agree keywords first second) (subset : fewer ⊆ keywords) :
    Agree fewer first second :=
  fun keyword member => agree keyword (subset member)

def noteKeywords : List String := ["description", "default"]

def enumerationKeywords : List String := ["x-extensible-enum", "enum", "const"]

def compositionKeywords : List String := ["allOf", "anyOf", "oneOf", "discriminator"]

def objectKeywords : List String := ["properties", "additionalProperties", "required"]

def arrayKeywords : List String := ["items", "uniqueItems", "minItems", "maxItems"]

def typedKeywords : List String :=
  "title" :: "format" :: objectKeywords ++ arrayKeywords ++ keywords.map (·.1)

variable {first second : Value}

theorem noteOf_congr (agree : Agree noteKeywords first second) : noteOf first = noteOf second := by
  rw [noteOf, noteOf, agree "description" (by decide), agree "default" (by decide)]

theorem hasKey_congr {keyword : String} (same : first.get? keyword = second.get? keyword) :
    hasKey first keyword = hasKey second keyword := by
  rw [hasKey, hasKey, same]

theorem unsupported_congr (agree : Agree unsupportedKeywords first second) (place : String) :
    unsupported first place = unsupported second place := by
  have kept : unsupportedKeywords.filter (hasKey first) =
      unsupportedKeywords.filter (hasKey second) :=
    filter_congr fun keyword member => hasKey_congr (agree keyword member)
  rw [unsupported, unsupported, kept]

theorem enumeration?_congr (agree : Agree (enumerationKeywords ++ noteKeywords) first second) :
    enumeration? first = enumeration? second := by
  have note := noteOf_congr (agree.mono (subset_append_right _ noteKeywords))
  rw [enumeration?, enumeration?, note, agree "x-extensible-enum" (by decide),
    agree "enum" (by decide), agree "const" (by decide)]

theorem composition?_congr (agree : Agree compositionKeywords first second) :
    composition? first = composition? second := by
  simp only [composition?, membersOf, Composition.text, findSome?_cons, findSome?_nil,
    agree "allOf" (by decide), agree "anyOf" (by decide), agree "oneOf" (by decide)]

theorem hasOwnShape_congr (agree : Agree objectKeywords first second) :
    hasOwnShape first = hasOwnShape second := by
  simp only [hasOwnShape, any_cons, any_nil,
    hasKey_congr (agree "properties" (by decide)),
    hasKey_congr (agree "additionalProperties" (by decide)),
    hasKey_congr (agree "required" (by decide))]

theorem primitiveNode_congr (format : first.get? "format" = second.get? "format")
    (agree : Agree (keywords.map (·.1)) first second) (note : Note)
    (kind : PrimitiveKind) : primitiveNode first note kind = primitiveNode second note kind := by
  have limits : ofSchema first = ofSchema second := by
    rw [ofSchema, ofSchema]
    congr 1
    apply filterMap_congr
    rintro ⟨keyword, name⟩ member
    simp only [agree keyword (mem_map.mpr ⟨_, member, rfl⟩)]
  rw [primitiveNode, primitiveNode, limits, format]

theorem readArray_congr (agree : Agree arrayKeywords first second) (place : String)
    (note : Note) :
    readArray surroundings first place note = readArray surroundings second place note := by
  have build (items : Option Node) : arrayNode first note items = arrayNode second note items := by
    simp only [arrayNode, agree "uniqueItems" (by decide), agree "minItems" (by decide),
      agree "maxItems" (by decide)]
  simp only [readArray, readItems_eq, agree "items" (by decide), build]

theorem readObject_congr (agree : Agree objectKeywords first second) (place : String) (note : Note)
    (title : Option Value) :
    readObject surroundings first place note title =
      readObject surroundings second place note title := by
  have required : requiredNames first = requiredNames second := by
    rw [requiredNames, requiredNames, agree "required" (by decide)]
  simp only [readObject, readDeclared_eq, readExtras_eq, agree "properties" (by decide),
    agree "additionalProperties" (by decide), required,
    hasKey_congr (agree "additionalProperties" (by decide))]

theorem readTypes_congr {kinds : List Value} {place : String}
    (each : ∀ kind ∈ kinds, ∀ note, readTyped surroundings first kind place note =
      readTyped surroundings second kind place note) :
    readTypes surroundings first kinds place = readTypes surroundings second kinds place := by
  induction kinds with
  | nil => rw [readTypes, readTypes]
  | cons kind rest ih =>
    rw [readTypes, readTypes, each kind mem_cons_self,
      ih fun other member => each other (mem_cons_of_mem kind member)]

theorem readTyped_congr (agree : Agree typedKeywords first second) (kind : Value) (place : String)
    (note : Note) :
    readTyped surroundings first kind place note =
      readTyped surroundings second kind place note := by
  have array := readArray_congr surroundings (agree.mono (by decide : arrayKeywords ⊆ _)) place
  have object := readObject_congr surroundings (agree.mono (by decide : objectKeywords ⊆ _)) place
  have primitive := primitiveNode_congr (agree "format" (by decide))
    (agree.mono (by decide : keywords.map (·.1) ⊆ _))
  have title := agree "title" (by decide)
  have has {keyword : String} (member : keyword ∈ typedKeywords) :=
    hasKey_congr (agree keyword member)
  -- The type of a schema may be a list of types, so the induction is on its size.
  induction size : kind.weight using Nat.strongRecOn generalizing kind note with
  | _ size ih =>
    cases kind with
    | list kinds =>
      have each : ∀ kind ∈ kinds, ∀ note, readTyped surroundings first kind place note =
          readTyped surroundings second kind place note := by
        intro kind member note
        exact ih kind.weight (size ▸ Value.weight_lt_of_mem member) kind note rfl
      by_cases single : ∃ kind, kinds = [kind]
      · obtain ⟨kind, rfl⟩ := single
        rw [readTyped, readTyped]
        exact each kind mem_cons_self note
      · have many (kind : Value) (same : kinds = [kind]) : False := single ⟨kind, same⟩
        rw [readTyped, readTyped, readTypes_congr surroundings each]
        · exact many
        · exact many
    | scalar word =>
      cases word with
      | str word =>
        simp only [readTyped, primitive, array, object, title]
      | null =>
        simp only [readTyped, array, object, title, has (by decide : "properties" ∈ _),
          has (by decide : "additionalProperties" ∈ _), has (by decide : "items" ∈ _)]
      | _ => simp only [readTyped]
    | map entries => simp only [readTyped]

def completingKeywords : List String := "discriminator" :: objectKeywords ++ noteKeywords

theorem readComposed_congr (agree : Agree completingKeywords first second)
    (place : String) (mode : Composition) (members : List Node) :
    readComposed surroundings first place mode members =
      readComposed surroundings second place mode members := by
  have note := noteOf_congr (agree.mono (by decide : noteKeywords ⊆ _))
  have object := readObject_congr surroundings (agree.mono (by decide : objectKeywords ⊆ _))
  have shape := hasOwnShape_congr (agree.mono (by decide : objectKeywords ⊆ _))
  cases mode <;>
    simp only [readComposed, readUnion, note, object, shape, agree "discriminator" (by decide)]

/-- Schemas with the same composition are read alike whatever else they list. -/
theorem readShape_congr_of_composition? (agree : Agree completingKeywords first second)
    (composed : composition? first = composition? second)
    (composition : (composition? first).isSome = true) (place : String) :
    readShape surroundings first place = readShape surroundings second place := by
  obtain ⟨⟨mode, items⟩, found⟩ := Option.isSome_iff_exists.mp composition
  simp only [readShape, ← composed, found, readComposed_congr surroundings agree]

def bodyKeywords : List String :=
  "type" :: unsupportedKeywords ++ enumerationKeywords ++ compositionKeywords ++ noteKeywords ++
    typedKeywords

theorem readBody_congr (agree : Agree bodyKeywords first second) (place : String) :
    readBody surroundings first place = readBody surroundings second place := by
  have reports := unsupported_congr (agree.mono (by decide : unsupportedKeywords ⊆ _)) place
  have values := enumeration?_congr (agree.mono (by decide : enumerationKeywords ++ _ ⊆ _))
  have note := noteOf_congr (agree.mono (by decide : noteKeywords ⊆ _))
  have composed := composition?_congr (agree.mono (by decide : compositionKeywords ⊆ _))
  have typed := readTyped_congr surroundings (agree.mono (by decide : typedKeywords ⊆ _))
  have completed := readComposed_congr surroundings
    (agree.mono (by decide : completingKeywords ⊆ _)) place
  simp only [readBody_eq, readShape, reports, values, note, composed, typed, completed,
    agree "type" (by decide)]

/-- Schemas that list the same values, or are compositions, are read alike whatever their types
are. -/
theorem readBody_congr_of_untyped
    (agree : Agree (unsupportedKeywords ++ compositionKeywords ++ objectKeywords ++ noteKeywords)
      first second)
    (values : enumeration? first = enumeration? second)
    (untyped : enumeration? first = none → (composition? first).isSome = true) (place : String) :
    readBody surroundings first place = readBody surroundings second place := by
  have reports := unsupported_congr (agree.mono (by decide : unsupportedKeywords ⊆ _)) place
  have composed := composition?_congr (agree.mono (by decide : compositionKeywords ⊆ _))
  rw [readBody_eq, readBody_eq, reports, ← values]
  cases listed : enumeration? first with
  | some node => rfl
  | none =>
    simp only [readShape_congr_of_composition? surroundings
      (agree.mono (by decide : completingKeywords ⊆ _)) composed (untyped listed)]

/-- All keywords the reader looks at. -/
def keywords : List String := "$ref" :: "nullable" :: bodyKeywords

/-- Maps with the same values under the keywords are read alike. -/
theorem read_congr {first second : Entries} (agree : Agree keywords (.map first) (.map second))
    (place : String) :
    read surroundings (.map first) place = read surroundings (.map second) place := by
  have note := noteOf_congr (agree.mono (by decide : noteKeywords ⊆ _))
  have body := readBody_congr surroundings (agree.mono (by decide : bodyKeywords ⊆ _)) place
  have reference : get? "$ref" first = get? "$ref" second :=
    agree "$ref" (by decide)
  have nullable : get? "nullable" first = get? "nullable" second :=
    agree "nullable" (by decide)
  simp only [read, note, body, reference, nullable]

/-! ## Plain schemas -/

variable {entries : Entries}

/-- A schema that is no reference, has no null mark and lists no values. -/
def IsPlain (entries : Entries) : Prop :=
  ∀ keyword ∈ "$ref" :: "nullable" :: enumerationKeywords, entries.get? keyword = none

instance : Decidable (IsPlain entries) :=
  inferInstanceAs (Decidable (∀ keyword ∈ _, _))

theorem read_plain (plain : IsPlain entries) (place : String) :
    read surroundings (.map entries) place =
      (unsupported (.map entries) place).forM surroundings.report >>= fun _ =>
        readShape surroundings (.map entries) place := by
  have unlisted : enumeration? (.map entries) = none := by
    simp only [enumeration?, Value.get?, plain "x-extensible-enum" (by decide),
      plain "enum" (by decide), plain "const" (by decide), Option.map_none]
  rw [read]
  simp only [plain "$ref" (by decide), plain "nullable" (by decide)]
  rw [readBody_eq, unlisted]
  exact bind_pure _

/-- A schema of a primitive type is read as such if nothing takes the place of the type. -/
theorem read_primitive {word : String} {kind : PrimitiveKind}
    (typed : entries.get? "type" = some (.str word))
    (known : PrimitiveKind.ofText? word = some kind) (plain : IsPlain entries)
    (others : ∀ keyword ∈ compositionKeywords ++ unsupportedKeywords, entries.get? keyword = none)
    (place : String) :
    read surroundings (.map entries) place =
      Run.ofExcept (primitiveNode (.map entries) (noteOf (.map entries)) kind) := by
  have absent (keyword : String) (listed : keyword ∈ compositionKeywords ++ unsupportedKeywords) :
      (Value.map entries).get? keyword = none :=
    others keyword listed
  have quiet : unsupported (.map entries) place = [] := by
    rw [unsupported, map_eq_nil_iff, filter_eq_nil_iff]
    intro keyword listed
    simp [hasKey, absent keyword (mem_append_right _ listed)]
  have single : composition? (.map entries) = none := by
    simp [composition?, membersOf, Composition.text, absent "allOf" (by decide),
      absent "anyOf" (by decide), absent "oneOf" (by decide)]
  have typed : (Value.map entries).get? "type" = some (.str word) := typed
  rw [read_plain surroundings plain, quiet, readShape, single, typed, Option.getD_some, Value.str,
    readTyped, known]
  rfl

end Schema

end Bindery
