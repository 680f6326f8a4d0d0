import Bindery.Proofs.Code.Labels

/-!
# Tags and names

How types are named does not matter to how a schema is compiled, up to the tags
of its unions.  A union is tagged under two namings or under none, and the tags
are the same at each place, except that a member without a literal value is told
apart by the name of its type.  This needs that no such name is the same as
another tag of its union; for the faults of compiling, it needs this of every
union inside.
-/

namespace Bindery

open Node List Run Option

namespace Node

/-- The union of the members of a composition, if a discriminator tells them apart. -/
def ownUnion? (mode : Composition) (members : List Node) (discriminator : Option Discriminator) :
    Option (Discriminator × List Node) :=
  if mode = .allOf then none else discriminator.map (·, members)

mutual

/-- The discriminated unions in a schema, each with its members. -/
def unions : Node → List (Discriminator × List Node)
  | .primitive .. => []
  | .null _ => []
  | .any _ => []
  | .array _ items _ _ _ => unionsOption items
  | .object _ properties _ extras _ _ => unionsExtras extras ++ unionsProperties properties
  | .composition _ mode members discriminator =>
    unionsList members ++
      if 1 < members.length then (ownUnion? mode members discriminator).toList else []
  | .reference .. => []
  | .enumeration .. => []
  | .typeArray _ members => unionsList members

def unionsOption : Option Node → List (Discriminator × List Node)
  | none => []
  | some node => unions node

def unionsProperties : List (String × Node) → List (Discriminator × List Node)
  | [] => []
  | (_, node) :: rest => unions node ++ unionsProperties rest

def unionsExtras : Extras Node → List (Discriminator × List Node)
  | .closed => []
  | .open => []
  | .typed node => unions node

def unionsList : List Node → List (Discriminator × List Node)
  | [] => []
  | node :: rest => unions node ++ unionsList rest

end

mutual

/-- The union whose tags the code of a schema shows. -/
def union? : Node → Option (Discriminator × List Node)
  | .composition _ mode members discriminator =>
    if 1 < members.length then ownUnion? mode members discriminator else onlyUnion? members
  | .typeArray _ members => onlyUnion? members
  | _ => none

def onlyUnion? : List Node → Option (Discriminator × List Node)
  | [node] => union? node
  | _ => none

end

theorem unionsList_eq (members : List Node) : unionsList members = members.flatMap unions := by
  induction members with
  | nil => rfl
  | cons member rest ih => rw [unionsList, ih, flatMap_cons]

theorem unionsProperties_eq (properties : List (String × Node)) :
    unionsProperties properties = (properties.map (·.2)).flatMap unions := by
  induction properties with
  | nil => rfl
  | cons property rest ih => rw [unionsProperties, ih, map_cons, flatMap_cons]

theorem unions_subset_of_mem_children {node child : Node} (member : child ∈ node.children) :
    child.unions ⊆ node.unions := by
  have listed : child.unions ⊆ node.children.flatMap unions :=
    fun union inside => mem_flatMap.mpr ⟨child, member, inside⟩
  refine Subset.trans listed ?_
  cases node with
  | array note items => cases items <;> simp [children, unions, unionsOption]
  | object note properties required extras =>
    cases extras <;>
      simp [children, unions, unionsProperties_eq, unionsExtras, Extras.schemas]
  | composition => simp [children, unions, unionsList_eq]
  | typeArray => simp [children, unions, unionsList_eq]
  | _ => cases member

end Node

namespace Code

/-! ## Untagged types -/

theorem tags?_mark {inner : TypeExpr} (plain : inner.tags? = none) (marks : List Mark) :
    (inner.mark marks).tags? = none := by
  unfold TypeExpr.mark
  split
  · exact plain
  · rfl

theorem tags?_enumerationType (coerce : Bool) (values : List Value) (extensible : Bool) :
    (enumerationType coerce values extensible).tags? = none := by
  unfold enumerationType
  split
  · rfl
  · dsimp only
    split
    · rfl
    · apply tags?_mark
      split <;> rfl

theorem tags?_arrayOf (item : TypeFragment) (least most : Option Int) (unique : Bool) :
    (arrayOf item least most unique).code.tags? = none :=
  tags?_mark rfl _

theorem tags?_modelOf (hint : String) (properties : List (String × TypeFragment))
    (required : List String) (closed : Bool) (extra : Option TypeFragment) :
    (modelOf hint properties required closed extra).code.tags? = none := by
  unfold modelOf
  split <;> rfl

theorem tags?_referenceType (target : String) (forward : Bool) :
    (referenceType target forward).code.tags? = none := by
  cases forward <;> rfl

section Primitives

variable {sure : Prop} (coerce : Bool) (hint hint' : String)

theorem patternMarks_alike (pattern : Option String) :
    Alike sure (fun _ _ => True) (patternMarks hint pattern) (patternMarks hint' pattern) := by
  cases pattern with
  | none => exact .pure trivial
  | some pattern =>
    unfold patternMarks
    dsimp only
    cases Pattern.check pattern with
    | ok _ => exact .pure trivial
    | error cause =>
      cases cause with
      | malformed => exact .bind Alike.modify fun _ _ _ => .pure trivial
      | tooLarge => exact .throw _
      | conflictingFlags => exact .throw _

theorem primitiveType_alike (kind : PrimitiveKind) (format : Option String)
    (constraints : Constraints) :
    Alike sure (fun type type' => type.tags? = none ∧ type'.tags? = none)
      (primitiveType coerce hint kind format constraints)
      (primitiveType coerce hint' kind format constraints) := by
  cases kind with
  | string =>
    show Alike sure _ (textType coerce hint format constraints)
      (textType coerce hint' format constraints)
    unfold textType
    split
    · exact .pure ⟨tags?_mark rfl _, tags?_mark rfl _⟩
    · refine .bind (patternMarks_alike hint hint' _) fun _ _ _ => ?_
      cases format.bind fun name => formatTypes.lookup name with
      | none => exact .pure ⟨tags?_mark rfl _, tags?_mark rfl _⟩
      | some parsed => exact .pure ⟨rfl, rfl⟩
  | integer => exact .pure ⟨tags?_mark rfl _, tags?_mark rfl _⟩
  | number => exact .pure ⟨tags?_mark rfl _, tags?_mark rfl _⟩
  | boolean => exact .pure ⟨rfl, rfl⟩

end Primitives

/-! ## Schemas under two namings -/

/-- Under both namings, no name that is a tag of a union is the same as another tag of it. -/
def ToldApart (first second : List (String × String)) (types : NamedNodes)
    (union : Discriminator × List Node) : Prop :=
  Apart first (unionLabels types union.1 union.2) ∧ Apart second (unionLabels types union.1 union.2)

/-- The labels of the tags that the code of a schema can show. -/
def shownLabels (types : NamedNodes) (node : Node) : List Label :=
  node.union?.elim [] fun union => unionLabels types union.1 union.2

/-- The codes of a schema under two namings show tags from the same labels, or none. -/
def TagsAlike (first second : List (String × String)) (types : NamedNodes) (node : Node)
    (fragment fragment' : TypeFragment) : Prop :=
  (∀ union ∈ node.union?, ToldApart first second types union) →
    TagsFrom first second (shownLabels types node) fragment fragment'

variable {fragment fragment' : TypeFragment}

theorem TagsAlike.untagged {first second : List (String × String)} {types : NamedNodes}
    {node : Node} (plain : fragment.code.tags? = none) (plain' : fragment'.code.tags? = none) :
    TagsAlike first second types node fragment fragment' :=
  fun _ => .untagged plain plain'

/-- The codes of several schemas under two namings. -/
inductive EachAlike (first second : List (String × String)) (types : NamedNodes) :
    List Node → List TypeFragment → List TypeFragment → Prop where
  | nil : EachAlike first second types [] [] []
  | cons {node : Node} {nodes : List Node} {fragment fragment' : TypeFragment}
      {fragments fragments' : List TypeFragment}
      (head : TagsAlike first second types node fragment fragment')
      (tail : EachAlike first second types nodes fragments fragments') :
      EachAlike first second types (node :: nodes) (fragment :: fragments) (fragment' :: fragments')

variable {first second : List (String × String)} {keys : List String} {types : NamedNodes}
  {strict coerce : Bool}

theorem EachAlike.length_eq {nodes : List Node} {fragments fragments' : List TypeFragment}
    (alike : EachAlike first second types nodes fragments fragments') :
    fragments.length = nodes.length ∧ fragments'.length = nodes.length := by
  induction alike with
  | nil => exact ⟨rfl, rfl⟩
  | cons head tail ih => exact ⟨congrArg (· + 1) ih.1, congrArg (· + 1) ih.2⟩

/-- A schema is compiled alike under two namings of the keys it mentions. -/
def CompilesAlike (first second : List (String × String)) (keys : List String)
    (types : NamedNodes) (strict coerce : Bool) (node : Node) : Prop :=
  node.mentions true ⊆ keys → ∀ hint hint',
    Alike (∀ union ∈ node.unions, ToldApart first second types union)
      (TagsAlike first second types node)
      (compile ⟨types.rename first, strict⟩ coerce hint (node.rename first))
      (compile ⟨types.rename second, strict⟩ coerce hint' (node.rename second))

theorem compileReference_alike {sure : Prop} (namings : Namings first second keys types)
    {target : String} (member : target ∈ keys) (forward : Bool) :
    Alike sure (fun fragment fragment' =>
        fragment.code.tags? = none ∧ fragment'.code.tags? = none)
      (compileReference ⟨types.rename first, strict⟩ coerce (targetName first target) forward)
      (compileReference ⟨types.rename second, strict⟩ coerce (targetName second target)
        forward) := by
  have plain : Alike sure (fun fragment fragment' =>
      fragment.code.tags? = none ∧ fragment'.code.tags? = none)
      (pure (referenceType (targetName first target) forward) : Compilation TypeFragment)
      (pure (referenceType (targetName second target) forward)) :=
    .pure ⟨tags?_referenceType _ _, tags?_referenceType _ _⟩
  unfold compileReference
  dsimp only
  rw [lookup_rename namings.first namings.within member,
    lookup_rename namings.second namings.within member]
  split
  · cases types.lookup target with
    | none => exact plain
    | some node =>
      cases node with
      | primitive note kind format constraints =>
        exact .bind (primitiveType_alike true _ _ kind format constraints)
          fun _ _ untagged => .pure untagged
      | enumeration note values extensible =>
        exact .pure ⟨tags?_enumerationType _ _ _, tags?_enumerationType _ _ _⟩
      | _ => exact plain
  · exact plain

/-! ### Parts -/

def placedNodes (node : Node) : List Node :=
  (placedParts "" node).map (·.2)

theorem optionalMember?_rename (names : List (String × String)) (members : List Node) :
    optionalMember? (members.map (rename names)) =
      (optionalMember? members).map (rename names) := by
  rcases members with _ | ⟨left, _ | ⟨right, _ | ⟨third, rest⟩⟩⟩
  · rfl
  · cases left <;> rfl
  · cases left <;> cases right <;> rfl
  · cases left <;> cases right <;> rfl

theorem placedParts_rename (names : List (String × String)) (hint : String) (node : Node) :
    (placedParts hint (node.rename names)).map (·.2) =
      (placedNodes node).map (rename names) := by
  cases node with
  | array note items => cases items <;> rfl
  | object note properties required extras =>
    cases extras <;> simp [placedNodes, placedParts, rename, renameProperties_eq_map,
      renameExtras, Extras.schemas]
  | typeArray note members =>
    simp only [placedNodes, placedParts, rename, renameList_eq_map,
      optionalMember?_rename]
    cases optionalMember? members <;> simp
  | composition note mode members discriminator =>
    simp [placedNodes, placedParts, rename, renameList_eq_map, Function.comp_def]
  | _ => rfl

section Parts

variable {nodes members : List Node}

theorem mapM_alike {sure : Prop} {parts parts' : List (String × Node)}
    (named : parts.map (·.2) = nodes.map (rename first))
    (named' : parts'.map (·.2) = nodes.map (rename second))
    (each : ∀ node ∈ nodes, CompilesAlike first second keys types strict coerce node)
    (mentioned : ∀ node ∈ nodes, node.mentions true ⊆ keys)
    (told : sure → ∀ node ∈ nodes, ∀ union ∈ node.unions, ToldApart first second types union) :
    Run.Alike sure (EachAlike first second types nodes)
      (parts.mapM (compilePart ⟨types.rename first, strict⟩ coerce))
      (parts'.mapM (compilePart ⟨types.rename second, strict⟩ coerce)) := by
  induction nodes generalizing parts parts' with
  | nil =>
    cases List.map_eq_nil_iff.mp named
    cases List.map_eq_nil_iff.mp named'
    exact .pure .nil
  | cons node rest ih =>
    obtain ⟨⟨hint, renamed⟩, rows, rfl, rfl, others⟩ := List.map_eq_cons_iff.mp named
    obtain ⟨⟨hint', renamed'⟩, rows', rfl, rfl, others'⟩ := List.map_eq_cons_iff.mp named'
    obtain ⟨first, each⟩ := List.forall_mem_cons.mp each
    obtain ⟨own, mentioned⟩ := List.forall_mem_cons.mp mentioned
    rw [List.mapM_cons, List.mapM_cons]
    refine .bind ((first own hint hint').mono (fun sure => told sure node
      List.mem_cons_self) fun _ _ => id) fun _ _ shown => ?_
    exact .bind (ih others others' each mentioned fun sure other inside =>
      told sure other (List.mem_cons_of_mem _ inside)) fun _ _ shown' =>
        .pure (.cons shown shown')

/-! ### Compositions -/

theorem mem_mentionsList_of_nameOf {discriminator : Discriminator} {key : String}
    (listed : Label.nameOf key ∈ unionLabels types discriminator members) :
    key ∈ mentionsList true members := by
  rcases mem_append.mp listed with mapped | inferred
  · obtain ⟨branch, -, equal⟩ := mem_map.mp mapped
    cases equal
  · obtain ⟨member, inside, known⟩ := mem_filterMap.mp inferred
    apply mentions_subset_mentionsList true inside
    apply mem_mentions_of_target?
    unfold memberLabel? at known
    split at known
    · cases known
    · split at known
      · cases known
      · cases known
      · obtain ⟨target, found, equal⟩ := map_eq_some_iff.mp known
        cases equal
        exact found

variable (namings : Namings first second keys types)

include namings

theorem Namings.setting {union : Discriminator × List Node}
    (mentioned : mentionsList true union.2 ⊆ keys) (told : ToldApart first second types union) :
    Setting first second keys types (unionLabels types union.1 union.2) where
  namings := namings
  separates :=
    { apart := told.1
      injective := fun key other inside inside' =>
        namings.first key (mentioned (mem_mentionsList_of_nameOf inside)) other
          (mentioned (mem_mentionsList_of_nameOf inside')) }
  separates' :=
    { apart := told.2
      injective := fun key other inside inside' =>
        namings.second key (mentioned (mem_mentionsList_of_nameOf inside)) other
          (mentioned (mem_mentionsList_of_nameOf inside')) }

theorem Namings.setting_nil : Setting first second keys types [] where
  namings := namings
  separates := { apart := by simp [Apart], injective := by simp }
  separates' := { apart := by simp [Apart], injective := by simp }

theorem ownUnion_alike (mentioned : mentionsList true members ⊆ keys) {mode : Composition}
    {discriminator : Option Discriminator} (targets : Discriminator.targetsOf discriminator ⊆ keys)
    {fragments fragments' : List TypeFragment} (complete : fragments.length = members.length)
    (complete' : fragments'.length = members.length) (hint hint' : String) : Alike
      (∀ union ∈ (ownUnion? mode members discriminator).toList,
        ToldApart first second types union)
      (fun fragment fragment' =>
        (∀ union ∈ ownUnion? mode members discriminator,
          ToldApart first second types union) →
          TagsFrom first second ((ownUnion? mode members discriminator).elim [] fun union =>
            unionLabels types union.1 union.2) fragment fragment')
      (unionOf ⟨types.rename first, strict⟩ hint mode
        (discriminator.map (Discriminator.rename first)) (renameList first members) fragments)
      (unionOf ⟨types.rename second, strict⟩ hint' mode
        (discriminator.map (Discriminator.rename second)) (renameList second members)
        fragments') := by
  rw [renameList_eq_map, renameList_eq_map]
  cases own : ownUnion? mode members discriminator with
  | none =>
    have nothing : mode ≠ .allOf → ∀ stated ∈ discriminator,
        unionLabels types stated members ⊆ [] := by
      rintro choice stated rfl
      rw [ownUnion?, if_neg choice] at own
      cases own
    exact (unionOf_alike namings.setting_nil mentioned targets nothing complete complete').mono id
      fun _ _ shown _ => shown
  | some union =>
    have stated : mode ≠ .allOf ∧ discriminator = some union.1 ∧ members = union.2 := by
      unfold ownUnion? at own
      split at own
      · cases own
      next choice =>
        obtain ⟨stated, rfl, rfl⟩ := map_eq_some_iff.mp own
        exact ⟨choice, rfl, rfl⟩
    obtain ⟨discriminator', members'⟩ := union
    obtain ⟨choice, rfl, rfl⟩ := stated
    by_cases told : ToldApart first second types (discriminator', members)
    · have labelled : mode ≠ .allOf → ∀ stated ∈ some discriminator',
          unionLabels types stated members ⊆ unionLabels types discriminator' members := by
        rintro - stated ⟨⟩
        exact Subset.refl _
      exact (unionOf_alike (namings.setting mentioned told) mentioned targets labelled complete
        complete').mono id fun _ _ shown _ => shown
    · refine .unsure (fun each => told (each _ (by simp))) fun _ _ each => ?_
      exact absurd (each _ rfl) told

end Parts

theorem tags?_assemble_object (scope : Scope) (coerce : Bool) (hint : String) (note : Note)
    (properties : List (String × Node)) (required : List String) (extras : Extras Node)
    (declared : Bool) (title : Option String) (parts : List TypeFragment) :
    ∃ fragment : TypeFragment, fragment.code.tags? = none ∧ assemble scope coerce hint
      (.object note properties required extras declared title) parts = pure fragment := by
  delta assemble
  dsimp only
  split <;> exact ⟨_, tags?_modelOf _ _ _ _ _, rfl⟩

theorem assemble_alike (namings : Namings first second keys types) {node : Node}
    (mentioned : node.mentions true ⊆ keys) {parts parts' : List TypeFragment}
    (shown : EachAlike first second types (placedNodes node) parts parts') (hint hint' : String) :
    Run.Alike (∀ union ∈ node.unions, ToldApart first second types union)
      (TagsAlike first second types node)
      (assemble ⟨types.rename first, strict⟩ coerce hint (node.rename first) parts)
      (assemble ⟨types.rename second, strict⟩ coerce hint' (node.rename second) parts') := by
  cases node with
  | primitive note kind format constraints =>
    exact .bind (primitiveType_alike coerce hint hint' kind format constraints)
      fun _ _ plain => .pure (.untagged plain.1 plain.2)
  | enumeration note values extensible =>
    exact .pure (.untagged (tags?_enumerationType _ _ _) (tags?_enumerationType _ _ _))
  | reference note target forward =>
    exact (compileReference_alike namings (mentioned (by simp [mentions])) forward).mono id
      fun _ _ plain => .untagged plain.1 plain.2
  | array note items least most unique =>
    exact .pure (.untagged (tags?_arrayOf _ _ _ _) (tags?_arrayOf _ _ _ _))
  | object note properties required extras declared title =>
    obtain ⟨model, plain, made⟩ := tags?_assemble_object ⟨types.rename first, strict⟩ coerce hint
      note (renameProperties first properties) required (renameExtras first extras)
      declared title parts
    obtain ⟨model', plain', made'⟩ := tags?_assemble_object ⟨types.rename second, strict⟩ coerce
      hint' note (renameProperties second properties) required
      (renameExtras second extras) declared title parts'
    rw [rename, rename, made, made']
    exact .pure (.untagged plain plain')
  | typeArray note members =>
    rw [placedNodes, placedParts] at shown
    rw [rename, rename, renameList_eq_map, renameList_eq_map]
    unfold assemble
    simp only [optionalMember?_rename]
    cases found : optionalMember? members with
    | some member =>
      rw [found] at shown
      cases shown with
      | cons head tail =>
        cases tail
        exact .pure (.untagged rfl rfl)
    | none =>
      have nodes : List.map (fun part : String × Node => part.2) (List.map ("", ·) members) =
          members := by
        simp [Function.comp_def]
      rw [found, Option.elim_none, nodes] at shown
      cases shown with
      | nil => exact .pure (.untagged rfl rfl)
      | cons head tail =>
        cases tail with
        | nil => exact .pure head
        | cons head' tail => exact .pure (.untagged rfl rfl)
  | composition note mode members discriminator =>
    have nodes : placedNodes (.composition note mode members discriminator) = members := by
      simp [placedNodes, placedParts, Function.comp_def]
    rw [nodes] at shown
    have complete := shown.length_eq
    simp only [mentions, if_true, List.append_subset] at mentioned
    cases shown with
    | nil => exact .pure (.untagged rfl rfl)
    | cons head tail =>
      cases tail with
      | nil => exact .pure head
      | cons head' tail =>
        refine (ownUnion_alike namings mentioned.1 mentioned.2 complete.1 complete.2 hint
          hint').mono (fun told union here => told union ?_) fun _ _ => id
        exact List.mem_append_right _ here
  | _ => exact .pure (.untagged rfl rfl)

theorem compile_alike (namings : Namings first second keys types) (strict coerce : Bool)
    (node : Node) : CompilesAlike first second keys types strict coerce node := by
  induction node using induction with
  | step node ih =>
    intro mentioned hint hint'
    have inside : ∀ part ∈ placedNodes node, part ∈ node.children := by
      intro part listed
      obtain ⟨placed, member, rfl⟩ := mem_map.mp listed
      exact mem_children_of_placed member
    rw [compile_eq, compile_eq]
    refine .bind (mapM_alike (placedParts_rename first hint node)
      (placedParts_rename second hint' node) (fun part listed => ih part (inside part listed))
      (fun part listed => Subset.trans
        (mentions_subset_of_mem_children true (inside part listed)) mentioned)
      fun told part listed union here =>
        told union (unions_subset_of_mem_children (inside part listed) here)) ?_
    exact fun parts parts' shown => .bind (assemble_alike namings mentioned shown hint hint')
      fun _ _ shown => .pure shown

/-! ## The tags of a schema -/

/-- Labels without the name of a type are the same tags under every naming. -/
theorem TagsFrom.tags?_eq {all : List Label} (shown : TagsFrom first second all fragment fragment')
    (literal : ∀ key, .nameOf key ∉ all) : fragment.code.tags? = fragment'.code.tags? := by
  obtain ⟨labels, inside, tagged, tagged'⟩ := shown
  rw [tagged, tagged']
  cases labels with
  | none => rfl
  | some labels =>
    have same : labels.map (Label.under first) = labels.map (Label.under second) := by
      apply map_congr_left
      intro label member
      cases label with
      | literal tag => rfl
      | nameOf key => exact absurd (inside labels rfl member) (literal key)
    rw [map_some, map_some, same]

/-- Labels without the name of a type are told apart under every naming. -/
theorem toldApart_of_literal {union : Discriminator × List Node}
    (literal : ∀ key, .nameOf key ∉ unionLabels types union.1 union.2) :
    ToldApart first second types union :=
  ⟨fun key _ named _ => absurd named (literal key), fun key _ named _ => absurd named (literal key)⟩

theorem TagsAlike.tags?_eq {node : Node}
    (alike : TagsAlike first second types node fragment fragment')
    (literal : ∀ key, .nameOf key ∉ shownLabels types node) :
    fragment.code.tags? = fragment'.code.tags? := by
  refine (alike fun union known => ?_).tags?_eq literal
  rw [shownLabels, mem_def.mp known] at literal
  exact toldApart_of_literal literal

end Code

end Bindery
