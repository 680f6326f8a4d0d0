import Bindery.Proofs.Code.Branches
import Bindery.Proofs.Schema.Reading

/-!
# The presence of properties

The model of an object says of each property whether it has to be given, and
what stands for it if it is not.  A default value reaches the code of its schema,
whatever the shape of the schema is, but a schema that takes the code of another
one as a whole keeps the default value of that one.

A name that is required is declared as such if the object lists a property of
that name.  A name without a property is not required of any value.
-/

namespace Bindery

open Run List Schema

namespace Schema

variable {State : Type} (surroundings : Surroundings State) {entries : Entries} {schema : Value}

/-! ## Objects -/

/-- The keys of the properties that a schema lists. -/
def listedKeys (schema : Value) : List Scalar :=
  match schema.get? "properties" with
  | some (.map properties) => properties.map (·.1)
  | _ => []

theorem readProperties_keys (properties : Entries) (place : String) :
    Returns (readProperties surroundings properties place) fun nodes =>
      nodes.map (·.1) = properties.map (·.1) := by
  induction properties with
  | nil =>
    rw [readProperties]
    exact .pure rfl
  | cons property rest ih =>
    rw [readProperties]
    refine .after _ fun node => .bind ih fun nodes same => .pure ?_
    rw [map_cons, map_cons, same]

/-- An object schema has the properties that it lists and the names that it requires. -/
theorem readObject_cases (place : String) (note : Note) (title : Option Value) :
    Run.Returns (readObject surroundings schema place note title) fun node =>
      ∃ properties required extras declared title,
        node = .object note properties required extras declared title ∧
        properties.map (Scalar.str ·.1) = listedKeys schema ∧
        requiredNames schema = .ok required := by
  have listed : Run.Returns (readDeclared surroundings schema place) fun properties =>
      properties.map (·.1) = listedKeys schema := by
    rw [readDeclared_eq, listedKeys]
    cases schema.get? "properties" with
    | none => exact .pure rfl
    | some value =>
      cases value with
      | map properties => exact readProperties_keys surroundings properties _
      | _ =>
        dsimp only
        split
        · exact fun _ _ _ ran => by cases ran
        · exact .pure rfl
  rw [readObject]
  have known : Run.Returns (Run.ofExcept (requiredNames schema) : Run State _) fun required =>
      requiredNames schema = .ok required :=
    .ofExcept fun _ same => same
  refine .bind listed fun properties keys => .after _ fun extras => .bind known ?_
  refine fun required names => .ofExcept fun node built => ?_
  rcases objectNode_cases (properties.map (·.1)) note required
    (hasKey schema "additionalProperties") title with ⟨title', made⟩ | ⟨fault, -, failed⟩
  · obtain ⟨named, rfl, made⟩ := made properties rfl
    cases (made extras).symm.trans built
    exact ⟨named, required, extras, _, title', rfl, by simpa [keyed, Function.comp_def] using keys,
      names⟩
  · cases (failed properties rfl extras).symm.trans built

/-- A schema that says itself what an object has: an object with the listed properties, or a schema
of another kind that lists none. -/
inductive IsOwn (schema : Value) (required : List String) : Node → Prop
  | object {note : Note} {properties : List (String × Node)} {extras : Extras Node}
      {declared : Bool} {title : Option String}
      (listed : properties.map (Scalar.str ·.1) = listedKeys schema) :
      IsOwn schema required (.object note properties required extras declared title)
  | array {note : Note} {items : Option Node} {least most : Option Int} {unique : Bool}
      (none : listedKeys schema = []) :
      IsOwn schema required (.array note items least most unique)
  | any {note : Note} (none : listedKeys schema = []) : IsOwn schema required (.any note)

section Own

variable {names : List String}

section

variable (stated : schema.get? "required" = some (.list (names.map .str)))

include stated

theorem requiredNames_of_texts : requiredNames schema = .ok names := by
  rw [requiredNames, stated]
  cases names with
  | nil => rfl
  | cons name rest =>
    refine congrArg Except.ok (?_ : ((name :: rest).map Value.str).filterMap Value.toText? = _)
    rw [filterMap_map]
    exact filterMap_some

theorem readObject_own (place : String) (note : Note) (title : Option Value) :
    Returns (readObject surroundings schema place note title) (IsOwn schema names) := by
  intro state node later ran
  obtain ⟨properties, required, extras, declared, title, rfl, listed, known⟩ :=
    readObject_cases surroundings place note title _ _ _ ran
  cases (requiredNames_of_texts stated).symm.trans known
  exact .object listed

theorem readTyped_own
    (typed : schema.get? "type" = none ∨ schema.get? "type" = some (.str "object")) (place : String)
    (note : Note) :
    Returns (readTyped surroundings schema ((schema.get? "type").getD .null) place note)
      (IsOwn schema names) := by
  rcases typed with absent | object
  · rw [absent, Option.getD_none, readTyped]
    split
    next => exact readObject_own surroundings stated place note _
    next unshaped =>
      have none : listedKeys schema = [] := by
        have missing : schema.get? "properties" = none := by simp_all [hasKey]
        rw [listedKeys, missing]
      split
      · rw [readArray]
        refine .after _ fun items => .ofExcept fun node built => ?_
        unfold arrayNode at built
        split at built <;> cases built
        exact .array none
      · exact .pure (.any none)
  · rw [object, Option.getD_some, readTyped]
    exact readObject_own surroundings stated place note _

end

/-- A plain schema with required names is its own shape, or a conjunction with it. -/
theorem read_own (plain : IsPlain entries)
    (stated : entries.get? "required" = some (.list (names.map .str)))
    (typed : entries.get? "type" = none ∨ entries.get? "type" = some (.str "object"))
    (place : String) :
    Returns (read surroundings (.map entries) place) fun node =>
      ∃ own, IsOwn (.map entries) names own ∧
        (node = own ∨ ∃ note members, node = .composition note .allOf members none ∧
          own ∈ members) := by
  have shaped : hasOwnShape (.map entries) = true := by
    simp [hasOwnShape, hasKey, Value.get?, stated]
  have stated : (Value.map entries).get? "required" = some (.list (names.map .str)) := stated
  have object := readObject_own surroundings stated place {} none
  rw [read_plain surroundings plain, readShape]
  refine .after _ fun _ => ?_
  split
  next =>
    intro state node later ran
    exact ⟨node, readTyped_own surroundings stated typed place _ _ _ _ ran, .inl rfl⟩
  next mode items _ =>
    refine .after _ fun members => ?_
    cases mode with
    | allOf =>
      rw [readComposed, if_pos shaped]
      exact .bind object fun own shape => .pure ⟨own, shape, .inr ⟨_, _, rfl, by simp⟩⟩
    | _ =>
      simp only [readComposed, readUnion, if_pos shaped]
      refine .after _ fun discriminator => ?_
      exact .bind object fun own shape => .pure ⟨own, shape, .inr ⟨_, _, rfl, by simp⟩⟩

end Own

end Schema

namespace Code

variable {scope : Scope} {coerce : Bool} {hint : String}

/-! ## Default values -/

/-- The default value that a schema takes from inside: that of its only member, or that of the
named type that a converted value needs. -/
def innerDefault (types : NamedNodes) (coerce : Bool) : Node → Option Value
  | .reference _ target _ =>
    if coerce then
      match types.lookup target with
      | some (.primitive note ..) => note.default
      | some (.enumeration note ..) => note.default
      | _ => none
    else none
  | .typeArray _ [member] => (innerDefault types coerce member).or member.note.default
  | .composition _ _ [member] _ => (innerDefault types coerce member).or member.note.default
  | _ => none

theorem compileReference_default (note : Note) (target : String) (forward : Bool) :
    Returns (compileReference scope coerce target forward) fun fragment =>
      fragment.default = innerDefault scope.types coerce (.reference note target forward) := by
  have plain : (referenceType target forward).default = none := by
    cases forward <;> rfl
  cases coerce with
  | false => exact .pure plain
  | true =>
    simp only [compileReference, innerDefault, if_true]
    cases scope.types.lookup target with
    | none => exact .pure plain
    | some node =>
      cases node with
      | primitive => exact .after _ fun _ => .pure rfl
      | enumeration => exact .pure rfl
      | _ => exact .pure plain

theorem unionOf_default (mode : Composition) (discriminator : Option Discriminator)
    (nodes : List Node) (parts : List TypeFragment) :
    Returns (unionOf scope hint mode discriminator nodes parts) fun fragment =>
      fragment.default = none := by
  have tagging : Returns (tagged? scope hint discriminator (nodes.zip parts)) fun result =>
      ∀ tagged ∈ result, tagged.default = none := by
    cases discriminator with
    | none => exact .pure nofun
    | some tags =>
      rw [tagged?, taggedUnion?_eq]
      refine .after _ fun branches? => .pure ?_
      cases branches? <;> simp [taggedOf, Fragment.combine]
  rw [unionOf_eq]
  split
  · exact .pure rfl
  · refine .bind tagging fun result told => ?_
    cases result with
    | some tagged => exact .pure (told tagged rfl)
    | none => exact .after _ fun _ => .pure rfl

/-- A schema as it is assembled has the default value from inside. -/
theorem assemble_default (node : Node) {parts : List TypeFragment}
    (each : Forall₂ (fun part fragment => fragment.default =
      (innerDefault scope.types coerce part.2).or part.2.note.default)
        (placedParts hint node) parts) :
    Returns (assemble scope coerce hint node parts) fun fragment =>
      fragment.default = innerDefault scope.types coerce node := by
  have length := each.length_eq
  cases node with
  | primitive => exact .after _ fun _ => .pure rfl
  | reference note target forward => exact compileReference_default note target forward
  | object note properties required extras =>
    delta assemble
    dsimp only
    split <;>
    · refine .pure ?_
      unfold modelOf
      split <;> rfl
  | typeArray note members =>
    rw [placedParts] at each length
    delta assemble
    dsimp only
    cases found : optionalMember? members with
    | some inner =>
      obtain ⟨first, second, rfl⟩ := length_eq_two.mp (length_of_optionalMember? found)
      rw [found] at each
      cases each with
      | cons same others =>
        cases others
        exact .pure rfl
    | none =>
      rw [found] at each length
      rcases members with _ | ⟨member, _ | ⟨other, rest⟩⟩
      · cases each
        exact .pure rfl
      · cases each with
        | cons same others =>
          cases others
          exact .pure same
      · split
        · cases length
        · cases length
        · exact .pure rfl
  | composition note mode members discriminator =>
    rcases members with _ | ⟨member, _ | ⟨other, rest⟩⟩
    · cases each
      exact .pure rfl
    · cases each with
      | cons same others =>
        cases others
        exact .pure same
    · delta assemble
      dsimp only
      split
      · cases length
      · cases length
      · exact unionOf_default mode discriminator _ _
  | _ => exact .pure rfl

theorem compile_default (hint : String) (node : Node) :
    Returns (compile scope coerce hint node) fun fragment =>
      fragment.default = (innerDefault scope.types coerce node).or node.note.default := by
  induction node using Node.induction generalizing hint with
  | step node ih =>
    rw [compile_eq]
    refine .bind (.mapM fun part member => ih part.2 (mem_children_of_placed member) part.1)
      fun parts each => .bind (assemble_default node each) fun fragment same => .pure ?_
    rw [Fragment.withDefault, same]

/-! ## Models -/

/-- The code is a model that declares a property. -/
def Declares (code : TypeExpr) (name : String) (presence : Presence) : Prop :=
  ∃ hint fields closed extra type, code = .model hint fields closed extra ∧
    (name, type, presence) ∈ fields

/-- How a property with a fragment is declared. -/
def presenceOf (required : List String) (name : String) (fragment : TypeFragment) : Presence :=
  if required.contains name then .required
  else
    match fragment.default with
    | some value => .default value
    | none => .optional

theorem not_declares_list (item : TypeExpr) (marks : List Mark) (name : String)
    (presence : Presence) : ¬ Declares ((TypeExpr.list item).mark marks) name presence := by
  rintro ⟨_, _, _, _, _, same, -⟩
  unfold TypeExpr.mark at same
  split at same <;> cases same

theorem declares_modelOf {parts : List (String × TypeFragment)} {required : List String}
    {closed : Bool} {extra : Option TypeFragment} {name : String} {presence : Presence} :
    Declares (modelOf hint parts required closed extra).code name presence ↔
      ∃ part, (name, part) ∈ parts ∧ presenceOf required name part = presence := by
  unfold modelOf
  dsimp only
  split
  next unused =>
    have empty : parts = [] := isEmpty_iff.mp (Bool.and_eq_true_iff.mp unused).1
    simp [Declares, Fragment.combine, empty]
  next =>
    constructor
    · rintro ⟨_, _, _, _, type, same, listed⟩
      cases same
      obtain ⟨⟨_, part⟩, inside, equal⟩ := mem_map.mp listed
      cases equal
      exact ⟨part, inside, rfl⟩
    · rintro ⟨part, inside, rfl⟩
      exact ⟨_, _, _, _, part.code, rfl, mem_map.mpr ⟨_, inside, rfl⟩⟩

theorem compileProperties_compiled (hint : String) (properties : List (String × Node)) :
    Returns (compileProperties scope coerce hint properties) fun parts =>
      parts.map (·.1) = properties.map (·.1) ∧ ∀ property ∈ properties,
        ∃ part, (property.1, part) ∈ parts ∧ Compiled scope coerce property.2 part := by
  induction properties with
  | nil =>
    rw [compileProperties]
    exact .pure ⟨rfl, by simp⟩
  | cons property rest ih =>
    rw [compileProperties]
    refine .bind (compile_compiled _ property.2) fun fragment first => .bind ih ?_
    rintro parts ⟨same, others⟩
    refine .pure ⟨congrArg (property.1 :: ·) same, forall_mem_cons.mpr ⟨?_, ?_⟩⟩
    · exact ⟨fragment, mem_cons_self, first⟩
    · intro other member
      obtain ⟨part, inside, compiled⟩ := others other member
      exact ⟨part, mem_cons_of_mem _ inside, compiled⟩

theorem compile_object {note : Note} {properties : List (String × Node)} {required : List String}
    {extras : Extras Node} {declared : Bool} {title : Option String} :
    Returns (compile scope coerce hint (.object note properties required extras declared title))
      fun fragment => ∃ parts : List (String × TypeFragment),
        (parts.map (·.1) = properties.map (·.1) ∧ ∀ property ∈ properties,
          ∃ part, (property.1, part) ∈ parts ∧ Compiled scope coerce property.2 part) ∧
        ∀ name presence, Declares fragment.code name presence ↔
          ∃ part, (name, part) ∈ parts ∧ presenceOf required name part = presence := by
  rw [compile]
  refine .after _ fun extra => .bind (compileProperties_compiled hint properties) ?_
  exact fun parts compiled => .pure ⟨parts, compiled, fun name presence => declares_modelOf⟩

/-- A default value reaches the code of its schema, and the model of an object that does not require
the property, unless the schema takes one from inside. -/
theorem default_kept_unless_inner {State : Type} {surroundings : Surroundings State}
    {entries : Entries} {value : Value} {place : String} {state later : State} {node : Node}
    (stated : entries.get? "default" = some value)
    (unmarked : (∀ reference, entries.get? "$ref" ≠ some (.str reference)) ∨
      entries.get? "nullable" ≠ some (.bool true))
    (parsed : (Schema.read surroundings (.map entries) place).start state = (.ok node, later)) :
    (∀ hint, (compile scope coerce hint node).Returns fun fragment =>
      fragment.default = some ((innerDefault scope.types coerce node).getD value)) ∧
    ∀ hint note properties required extras declared title name,
      (name, node) ∈ properties → name ∉ required →
        (compile scope coerce hint
          (.object note properties required extras declared title)).Returns fun fragment =>
            Declares fragment.code name
              (.default ((innerDefault scope.types coerce node).getD value)) := by
  have noted : node.note.default = some value := by
    rcases Schema.read_note surroundings _ place _ _ _ parsed with same | marked
    · rw [same]
      exact stated
    · obtain ⟨⟨reference, referring⟩, marked⟩ := marked
      rcases unmarked with plain | plain
      · exact absurd referring (plain reference)
      · exact absurd marked plain
  have reached (hint : String) : (compile scope coerce hint node).Returns fun fragment =>
      fragment.default = some ((innerDefault scope.types coerce node).getD value) := by
    intro before fragment after ran
    rw [compile_default hint node _ _ _ ran, noted]
    cases innerDefault scope.types coerce node <;> rfl
  refine ⟨reached, ?_⟩
  intro hint note properties required extras declared title name listed free before fragment after
    ran
  obtain ⟨parts, ⟨-, each⟩, declares⟩ := compile_object _ _ _ ran
  obtain ⟨part, inside, place, early, late, compiled⟩ := each (name, node) listed
  refine (declares _ _).mpr ⟨part, inside, ?_⟩
  rw [presenceOf, if_neg (by simpa using free), reached place _ _ _ compiled]

theorem default_kept_unless_inner_of_reference :
    (compile {} false "Item" (.reference { default := some (.str "a") } "X" false)).Returns
      fun fragment => fragment.default = some (.str "a") := by
  have parsed : (Schema.read (⟨fun _ => pure ⟨"X", false⟩, fun _ => pure ()⟩ : Surroundings Unit)
      (.map [(.str "$ref", .str "#/x"), (.str "default", .str "a")]) "").start () =
        (.ok (.reference { default := some (.str "a") } "X" false), ()) := by
    rw [Schema.read]
    rfl
  exact (default_kept_unless_inner rfl (.inr (by decide)) parsed).1 "Item"

/-- The default value of a composition gives way to that of its only member. -/
theorem outer_default_lost :
    (∀ surroundings : Surroundings Unit,
      Schema.read surroundings (.map [(.str "allOf", .list [.map [(.str "type", .str "string"),
          (.str "default", .str "inner")]]), (.str "default", .str "outer")]) "" =
        pure (.composition { default := some (.str "outer") } .allOf
          [.primitive { default := some (.str "inner") } .string none {}] none)) ∧
    ((compile {} false "Item" (.composition { default := some (.str "outer") } .allOf
        [.primitive { default := some (.str "inner") } .string none {}] none)).start []).1.map
      (·.default) = .ok (some (.str "inner")) := by
  refine ⟨fun surroundings => ?_, rfl⟩
  have member : Schema.read surroundings (.map [(.str "type", .str "string"),
      (.str "default", .str "inner")]) "/allOf/0" =
        pure (.primitive { default := some (.str "inner") } .string none {}) :=
    Schema.read_primitive surroundings rfl rfl (by decide) (by decide) _
  rw [Schema.read_plain surroundings (by decide), Schema.readShape]
  show (Schema.readMembers surroundings [.map _] "/allOf/" 0 >>= _) = _
  rw [Schema.readMembers, Schema.readMembers]
  show (Schema.read surroundings _ "/allOf/0" >>= _) >>= _ = _
  rw [member]
  rfl

/-! ## Required names -/

/-- The code itself and, if it is a conjunction, its members. -/
def conjuncts : TypeExpr → List TypeExpr
  | .allOf members => .allOf members :: members
  | code => [code]

theorem mem_conjuncts_self (code : TypeExpr) : code ∈ conjuncts code := by
  cases code <;> exact mem_cons_self

/-- A member of a conjunction is a part of the code. -/
theorem compile_allOf {note : Note} {nodes : List Node} {own : Node} (inside : own ∈ nodes) :
    Returns (compile scope coerce hint (.composition note .allOf nodes none)) fun fragment =>
      ∃ part, Compiled scope coerce own part ∧ part.code ∈ conjuncts fragment.code := by
  rw [compile]
  refine .bind (compileMembers_compiled _ _ nodes) fun parts compiled => ?_
  obtain ⟨part, here, own⟩ := exists_of_forall₂ compiled inside
  split
  · cases here
  · obtain rfl := mem_singleton.mp here
    exact .pure ⟨part, own, mem_conjuncts_self _⟩
  · exact .pure ⟨part, own, mem_cons_of_mem _ (mem_map_of_mem here)⟩

theorem declares_required {schema : Value} {names : List String} {own : Node}
    {part : TypeFragment} (shape : IsOwn schema names own)
    (compiled : Compiled scope coerce own part) (name : String) :
    Declares part.code name .required ↔ name ∈ names ∧ .str name ∈ listedKeys schema := by
  obtain ⟨hint, before, after, ran⟩ := compiled
  cases shape with
  | object listed =>
    obtain ⟨parts, ⟨keys, -⟩, declares⟩ := compile_object _ _ _ ran
    have present (part : TypeFragment) :
        presenceOf names name part = .required ↔ name ∈ names := by
      unfold presenceOf
      split
      next inside => simpa using inside
      next outside =>
        constructor
        · split <;> rintro ⟨⟩
        · intro inside
          simp [inside] at outside
    have known : listedKeys schema = parts.map (Scalar.str ·.1) := by
      simpa [listed, Function.comp_def] using congrArg (map Scalar.str) keys.symm
    rw [declares, known]
    simp [present, and_comm]
  | array none =>
    rw [compile] at ran
    obtain ⟨item, middle, -, built⟩ := start_bind_ok ran
    cases built
    exact iff_of_false (not_declares_list _ _ _ _) (by simp [none])
  | any none =>
    cases ran
    simp [Declares, none]

/-- A name that a schema requires is declared as required by the schema's own part of the code if
and only if the schema lists a property of that name. -/
theorem required_iff_listed {State : Type} {surroundings : Surroundings State} {entries : Entries}
    {names : List String} {place : String} {state later : State} {node : Node}
    {before after : List Diagnostic} {fragment : TypeFragment} (plain : Schema.IsPlain entries)
    (typed : entries.get? "type" = none ∨ entries.get? "type" = some (.str "object"))
    (stated : entries.get? "required" = some (.list (names.map .str)))
    (parsed : (Schema.read surroundings (.map entries) place).start state = (.ok node, later))
    (ran : (compile scope coerce hint node).start before = (.ok fragment, after)) :
    ∃ own ∈ conjuncts fragment.code, ∀ name, Declares own name .required ↔
      name ∈ names ∧ .str name ∈ Schema.listedKeys (.map entries) := by
  obtain ⟨own, shape, rfl | ⟨note, members, rfl, inside⟩⟩ :=
    Schema.read_own surroundings plain stated typed place _ _ _ parsed
  · exact ⟨_, mem_conjuncts_self _, declares_required shape ⟨_, _, _, ran⟩⟩
  · obtain ⟨part, compiled, here⟩ := compile_allOf inside _ _ _ ran
    exact ⟨_, here, declares_required shape compiled⟩

theorem read_requiring (surroundings : Surroundings Unit) :
    read surroundings (.map [(.str "properties", .map [(.str "b", .map
        [(.str "type", .str "string")])]), (.str "required", .list [.str "a", .str "b"])]) "" =
      pure (.object {} [("b", .primitive {} .string none {})] ["a", "b"] .open false none) := by
  have property : read surroundings (.map [(.str "type", .str "string")]) "/properties/b" =
      pure (.primitive {} .string none {}) :=
    read_primitive surroundings rfl rfl (by decide) (by decide) _
  rw [read_plain surroundings (by decide), readShape]
  show readTyped surroundings _ .null "" _ = _
  rw [readTyped]
  show readObject surroundings _ "" _ _ = _
  rw [readObject, readDeclared_eq, readExtras_eq]
  show readProperties surroundings [(.str "b", .map _)] "/properties/" >>= _ = _
  rw [readProperties, readProperties]
  show (read surroundings _ "/properties/b" >>= _) >>= _ = _
  rw [property]
  rfl

theorem required_iff_listed_of_two :
    ∃ own ∈ conjuncts (.model "Item" [("b", .base "StrictStr", .required)] false none),
      ∀ name, Declares own name .required ↔ name ∈ ["a", "b"] ∧ .str name ∈ [Scalar.str "b"] :=
  required_iff_listed (by decide) (.inl rfl) rfl (congrArg (Run.start · ())
      (read_requiring ⟨fun _ => throw (.shape .noMember), fun _ => pure ()⟩))
    (rfl : (compile {} false "Item" _).start [] = _)

/-- A required name without a property is lost. -/
theorem required_name_lost :
    (∀ surroundings : Surroundings Unit,
      Schema.read surroundings (.map [(.str "properties", .map [(.str "b", .map
          [(.str "type", .str "string")])]), (.str "required", .list [.str "a", .str "b"])]) "" =
        pure (.object {} [("b", .primitive {} .string none {})] ["a", "b"] .open false none)) ∧
    ((compile {} false "Item" (.object {} [("b", .primitive {} .string none {})] ["a", "b"] .open
        false none)).start []).1.map (·.code) =
      .ok (.model "Item" [("b", .base "StrictStr", .required)] false none) :=
  ⟨read_requiring, rfl⟩

end Code

end Bindery
