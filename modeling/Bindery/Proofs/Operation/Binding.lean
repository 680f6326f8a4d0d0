import Bindery.Operation.Binding
import Bindery.Proofs.Code.Branches
import Bindery.Proofs.Code.Records

/-!
# What a binding is compiled from

Every fragment of a binding is compiled from a schema of its operation.  The
models of the parameters are compiled from object schemas that are put together
from the schemas of the parameters, and the slots of the responses from the
members of their union.  So the unit of an operation mentions only named types
that these schemas mention.
-/

namespace Bindery

open Code List Node

abbrev Fragment.Inside {Code : Type} (names : List String) (fragment : Fragment Code) : Prop :=
  fragment.Within names names

namespace Binding

variable {names : List String} {scope : Scope} {fact : TypeFragment → Prop}

theorem gives_compiled (coerce : Bool) (hint : String) (node : Node) :
    Run.Gives (compile scope coerce hint node) (Compiled scope coerce node) :=
  ⟨compile_compiled hint node, (faithful scope coerce node hint).stops⟩

theorem inside_of_compiled {coerce : Bool} {node : Node} {fragment : TypeFragment}
    (compiled : Compiled scope coerce node fragment) (known : node.mentions true ⊆ names) :
    fragment.Inside names := by
  obtain ⟨hint, before, after, ran⟩ := compiled
  have within := (faithful scope coerce node hint).returns _ _ _ ran
  exact within.mono known (Subset.trans node.mentions_direct_subset known)

/-! ## Parameters -/

variable {properties : List (String × Node)} {parameters : List Parameter}
  {slots : List (String × Option (List Variant))}

theorem mentionsProperties_putSchema {name : String} {schema : Node}
    (here : schema.mentions true ⊆ names) (others : mentionsProperties true properties ⊆ names) :
    mentionsProperties true (putSchema name schema properties) ⊆ names := by
  induction properties with
  | nil =>
    simpa [putSchema, mentionsProperties] using here
  | cons property rest ih =>
    rw [mentionsProperties, append_subset] at others
    rw [putSchema]
    split
    · exact append_subset.mpr ⟨here, others.2⟩
    · exact append_subset.mpr ⟨others.1, ih others.2⟩

theorem mentionsProperties_foldl {nameOf : Parameter → String}
    (known : ∀ parameter ∈ parameters, parameter.schema.mentions true ⊆ names)
    (before : mentionsProperties true properties ⊆ names) :
    mentionsProperties true (parameters.foldl (fun properties parameter =>
      putSchema (nameOf parameter) parameter.schema properties) properties) ⊆ names := by
  induction parameters generalizing properties with
  | nil => exact before
  | cons parameter rest ih =>
    rw [forall_mem_cons] at known
    exact ih known.2 (mentionsProperties_putSchema known.1 before)

theorem mentions_parameterNode
    (known : ∀ parameter ∈ parameters, parameter.schema.mentions true ⊆ names)
    (nameOf : Parameter → String) (declared : Bool) :
    (parameterNode nameOf declared parameters).mentions true ⊆ names := by
  rw [parameterNode, mentions]
  refine append_subset.mpr ⟨mentionsProperties_foldl known ?_, nil_subset _⟩
  exact nil_subset _

/-- An argument of a client function is that of a parameter, and its type has the names of a
fragment that the schema of the parameter is compiled to. -/
structure ArgumentOf (scope : Scope) (parameter : Parameter) (argument : Argument) : Prop where
  wireName : argument.wireName = parameter.name
  place : argument.place = parameter.place
  type : ∃ fragment, Compiled scope true parameter.schema fragment ∧
    argument.type.occurrences = fragment.code.occurrences

theorem bindArguments_gives (taken : List String) (parameters : List Parameter) :
    Run.Gives (bindArguments scope taken parameters) (Forall₂ (ArgumentOf scope) parameters) := by
  induction parameters generalizing taken with
  | nil => exact .pure .nil
  | cons parameter rest ih =>
    refine .bind (gives_compiled true _ parameter.schema) fun fragment compiled => ?_
    refine .bind (ih _) fun arguments others => .pure (.cons ⟨rfl, rfl, fragment, compiled, ?_⟩ others)
    cases parameter.required <;> simp [TypeExpr.occurrences]

/-! ## Bodies and responses -/

def SlotsHold (fact : TypeFragment → Prop) (slots : List (String × Option (List Variant))) : Prop :=
  ∀ slot ∈ slots, ∀ variant ∈ slot.2.getD [], fact variant.fragment

theorem SlotsHold.addToSlot (hold : SlotsHold fact slots) {variant : Option Variant}
    (new : ∀ added ∈ variant, fact added.fragment) (status : String) :
    SlotsHold fact (addToSlot status variant slots) := by
  fun_induction Binding.addToSlot status variant slots with
  | case1 =>
    cases variant with
    | none => simp [SlotsHold]
    | some added => simpa [SlotsHold] using new
  | case2 rest variants added given =>
    refine forall_mem_cons.mpr ⟨fun other member => ?_, (forall_mem_cons.mp hold).2⟩
    rcases mem_append.mp member with old | here
    · exact hold _ mem_cons_self other old
    · obtain rfl := mem_singleton.mp here
      exact new other given
  | case3 => exact hold
  | case4 other variants rest different ih =>
    rw [SlotsHold, forall_mem_cons] at hold
    exact forall_mem_cons.mpr ⟨hold.1, ih hold.2⟩

theorem bindMembers_gives {members : List ResponseMember}
    (each : ∀ member ∈ members, ∀ media ∈ member.media, ∀ fragment,
      Compiled scope false media.schema fragment → fact fragment) (hint : String)
    (before : SlotsHold fact slots) :
    Run.Gives (bindMembers scope hint slots members) (SlotsHold fact) := by
  induction members generalizing slots with
  | nil => exact .pure before
  | cons member rest ih =>
    rw [forall_mem_cons] at each
    rw [bindMembers]
    split
    · exact ih each.2 (before.addToSlot (by simp) member.status)
    next media present =>
      refine .bind (gives_compiled false _ _) fun fragment compiled => ?_
      have holds := each.1 media present fragment compiled
      exact ih each.2 (before.addToSlot (by simpa using holds) member.status)

/-- The schemas of the contents of an operation. -/
def contentSchemas (operation : Operation) : List Node :=
  ((operation.body.map (·.content)).getD []).map (·.schema) ++
    operation.union.filterMap fun member => member.media.map (·.schema)

/-- A fragment is compiled from the schema of a content. -/
def FromContent (scope : Scope) (operation : Operation) (fragment : TypeFragment) : Prop :=
  ∃ schema ∈ contentSchemas operation, Compiled scope false schema fragment

theorem bindContent_gives (operation : Operation) (hint : String) :
    Run.Gives (bindContent scope hint ((operation.body.map (·.content)).getD [])) fun variants =>
      ∀ variant ∈ variants, FromContent scope operation variant.fragment := by
  refine .mapM_all fun media member => .bind (gives_compiled false hint media.schema) ?_
  exact fun _ compiled => .pure ⟨_, mem_append_left _ (mem_map_of_mem member), compiled⟩

theorem bindResponses_gives (operation : Operation) (hint : String) :
    Run.Gives (bindResponses scope hint operation) fun slots =>
      ∀ slot ∈ slots, ∀ variant ∈ slot.variants.getD [],
        FromContent scope operation variant.fragment := by
  have each : ∀ member ∈ operation.union, ∀ media ∈ member.media, ∀ fragment,
      Compiled scope false media.schema fragment → FromContent scope operation fragment := by
    intro member inside media present fragment compiled
    refine ⟨_, mem_append_right _ (mem_filterMap.mpr ⟨member, inside, ?_⟩), compiled⟩
    rw [Option.mem_def.mp present, Option.map_some]
  refine .bind (bindMembers_gives each hint (by simp [SlotsHold])) fun slots hold => .pure ?_
  intro slot member
  obtain ⟨bound, here, rfl⟩ := mem_map.mp member
  exact hold bound here

/-! ## The whole binding -/

/-- Everything in a binding is compiled from the schemas of its operation. -/
structure Bound (scope : Scope) (operation : Operation) (binding : Binding) : Prop where
  query : Compiled scope true (parameterNode (·.name) false operation.parameters.query)
    binding.queryModel
  path : Compiled scope true (parameterNode (·.name) false operation.parameters.path)
    binding.pathModel
  header : Compiled scope true (parameterNode (fun parameter => Text.lower parameter.name) true
    operation.parameters.header) binding.headerModel
  contents : ∀ fragment ∈ binding.body.map (·.fragment) ++ binding.responseFragments,
    FromContent scope operation fragment
  arguments : Forall₂ (ArgumentOf scope) (operation.parameters.path ++ operation.parameters.query ++
    operation.parameters.header ++ operation.parameters.cookie) binding.arguments

theorem ofOperation_gives (surface : Surface) (authHeaders : List String) (operation : Operation) :
    Run.Gives (ofOperation scope surface authHeaders operation) (Bound scope operation) := by
  unfold ofOperation
  refine .bind (gives_compiled true _ _) fun query ofQuery => ?_
  refine .bind (gives_compiled true _ _) fun path ofPath => ?_
  refine .bind (gives_compiled true _ _) fun header ofHeader => ?_
  refine .bind (bindContent_gives operation _) fun body ofBody => ?_
  refine .bind (bindResponses_gives operation _) fun responses ofResponses => ?_
  refine .bind (bindArguments_gives _ _) fun arguments ofArguments =>
    .pure ⟨ofQuery, ofPath, ofHeader, ?_, ofArguments⟩
  refine forall_mem_append.mpr ⟨forall_mem_map.mpr ofBody, fun fragment member => ?_⟩
  obtain ⟨slot, inside, here⟩ := mem_flatMap.mp member
  obtain ⟨variant, listed, rfl⟩ := mem_map.mp here
  exact ofResponses slot inside variant listed

/-- The unit of an operation mentions only what its schemas mention. -/
theorem ofOperation_inside {operation : Operation}
    (known : ∀ schema ∈ operation.schemas, schema.mentions true ⊆ names)
    (declared : ∀ member ∈ operation.union, ∀ media, member.media = some media →
      media.schema ∈ operation.schemas) (surface : Surface) (authHeaders : List String) :
    Run.Gives (ofOperation scope surface authHeaders operation) fun binding =>
      binding.merged.Inside names := by
  refine (ofOperation_gives surface authHeaders operation).mono fun binding bound => ?_
  have parameters : ∀ parameter ∈ operation.parameters.all,
      parameter.schema.mentions true ⊆ names := fun parameter member =>
    known _ (mem_append_left _ (mem_append_left _ (mem_map_of_mem member)))
  simp only [ParameterGroups.all, forall_mem_append] at parameters
  obtain ⟨⟨⟨ofQuery, ofPath⟩, ofHeader⟩, _⟩ := parameters
  have contents : ∀ schema ∈ contentSchemas operation, schema.mentions true ⊆ names := by
    refine forall_mem_append.mpr ⟨fun schema member => known _ ?_, fun schema member => ?_⟩
    · exact mem_append_left _ (mem_append_right _ member)
    · obtain ⟨response, inside, found⟩ := mem_filterMap.mp member
      obtain ⟨media, present, rfl⟩ := Option.map_eq_some_iff.mp found
      exact known _ (declared response inside media present)
  refine Fragment.within_combine _ fun fragment member => ?_
  rw [fragments, append_assoc] at member
  rcases mem_append.mp member with model | content
  · simp only [mem_cons, not_mem_nil, or_false] at model
    rcases model with rfl | rfl | rfl
    · exact inside_of_compiled bound.query (mentions_parameterNode ofQuery _ _)
    · exact inside_of_compiled bound.path (mentions_parameterNode ofPath _ _)
    · exact inside_of_compiled bound.header (mentions_parameterNode ofHeader _ _)
  · obtain ⟨schema, inside, compiled⟩ := bound.contents fragment content
    exact inside_of_compiled compiled (contents schema inside)

end Binding

end Bindery
