import Bindery.Proofs.Alike
import Bindery.Proofs.Code.Assembly
import Bindery.Proofs.Schema.Renaming

/-!
# Labels of unions

The tags of a union are settled before its types have names, except that a
member without a literal value is told apart by the name of its type.  A label
is such a tag before naming.  Two namings give branches with tags from the same
labels, and a tagged union under both or under none, as long as no name is the
same as another tag of the union.
-/

namespace Bindery

open List Node Scalar Run

def TypeExpr.tags? : TypeExpr → Option (List Scalar)
  | .tagged _ branches => some (branches.map (·.1))
  | _ => Option.none

/-! ## Tags before naming -/

namespace Code

/-- A tag before types have names: a literal value, or the name that a type will have. -/
inductive Label where
  | literal (tag : Scalar)
  | nameOf (key : String)

namespace Label

def under (names : List (String × String)) : Label → Scalar
  | .literal tag => tag
  | .nameOf key => .str (targetName names key)

/-- Whether two labels are the same tag under every naming. -/
def same : Label → Label → Bool
  | .literal first, .literal second => first.same second
  | .nameOf first, .nameOf second => first = second
  | _, _ => false

end Label

/-- The label of a member of a union.  A reference that a mapping covers has none, nor has a member
whose literal value cannot be a tag. -/
def memberLabel? (types : NamedNodes) (property : String) (mapped : List String)
    (member : Node) : Option Label :=
  if member.target?.any mapped.contains then none
  else
    match member.literalTag types property with
    | some (.scalar tag) => some (.literal tag)
    | some _ => none
    | none => member.target?.map .nameOf

/-- The labels of a union: those of its mapping and those of its members. -/
def unionLabels (types : NamedNodes) (discriminator : Discriminator) (members : List Node) :
    List Label :=
  ((discriminator.mapping.getD []).map fun branch => .literal (.str branch.1)) ++
    members.filterMap (memberLabel? types discriminator.property discriminator.targets)

/-- No name that is a tag is the same as a literal tag. -/
def Apart (names : List (String × String)) (labels : List Label) : Prop :=
  ∀ key tag, .nameOf key ∈ labels → .literal tag ∈ labels → tag ≠ .str (targetName names key)

/-! ## Branches under two namings -/

/-- Two namings of the same keys. -/
structure Namings (first second : List (String × String)) (keys : List String)
    (types : NamedNodes) : Prop where
  first : Distinguishes first keys
  second : Distinguishes second keys
  within : types.Within keys

variable {names : List (String × String)} {keys : List String} {types : NamedNodes}
  {all : List Label}

/-- Labels of which the keys are told apart, and no name is the same as a literal tag. -/
structure Separates (names : List (String × String)) (all : List Label) : Prop where
  apart : Apart names all
  injective : ∀ key other, .nameOf key ∈ all → .nameOf other ∈ all →
    targetName names key = targetName names other → key = other

variable {label : Label} {branches branches' : Branches} {node : Node}

theorem Separates.same_under (separates : Separates names all) {other : Label}
    (member : label ∈ all) (member' : other ∈ all) :
    (label.under names).same (other.under names) = label.same other := by
  cases label with
  | literal tag =>
    cases other with
    | literal tag' => rfl
    | nameOf key =>
      show tag.same (.str _) = false
      rw [same_str]
      exact decide_eq_false (separates.apart key tag member' member)
  | nameOf key =>
    cases other with
    | literal tag =>
      show (str _).same tag = false
      rw [str_same]
      exact decide_eq_false (separates.apart key tag member member').symm
    | nameOf key' =>
      show (str _).same (.str _) = decide _
      rw [str_same, decide_eq_decide]
      constructor
      · intro equal
        exact separates.injective key key' member member' (str.inj equal)
      · intro equal
        rw [equal]

theorem Separates.isTaken_under (separates : Separates names all) {labels : List Label}
    (inside : labels ⊆ all) (member : label ∈ all)
    (tagged : branches.map (·.1) = labels.map (Label.under names)) :
    isTaken (label.under names) branches = labels.any (·.same label) := by
  have taken : isTaken (label.under names) branches =
      (branches.map (·.1)).any (·.same (label.under names)) := by
    rw [Code.isTaken, any_map]
    rfl
  rw [taken, tagged, any_map]
  rw [Bool.eq_iff_iff, any_eq_true, any_eq_true]
  constructor
  · rintro ⟨other, listed, equal⟩
    exact ⟨other, listed, (separates.same_under (inside listed) member).symm.trans equal⟩
  · rintro ⟨other, listed, equal⟩
    exact ⟨other, listed, (separates.same_under (inside listed) member).trans equal⟩

variable {first second : List (String × String)} {sure : Prop}

/-- Branches under two namings whose tags come from the same labels. -/
def Labelled (first second : List (String × String)) (all : List Label)
    (branches branches' : Branches) : Prop :=
  ∃ labels ⊆ all, branches.map (·.1) = labels.map (Label.under first) ∧
    branches'.map (·.1) = labels.map (Label.under second)

namespace Labelled

variable {branches branches' : Branches}

theorem mapped {mapping : List (String × String)}
    (inside : mapping.map (fun branch => Label.literal (.str branch.1)) ⊆ all)
    (members members' : List (Node × TypeFragment)) :
    Labelled first second all
      (mappedBranches (mapping.map fun branch => (branch.1, targetName first branch.2)) members)
      (mappedBranches (mapping.map fun branch => (branch.1, targetName second branch.2))
        members') := by
  refine ⟨_, inside, ?_, ?_⟩
  · simp [mappedBranches, Function.comp_def, Label.under]
  · simp [mappedBranches, Function.comp_def, Label.under]

theorem isTaken_eq (labelled : Labelled first second all branches branches')
    (separates : Separates first all) (separates' : Separates second all) (member : label ∈ all) :
    isTaken (label.under first) branches = isTaken (label.under second) branches' := by
  obtain ⟨labels, inside, tagged, tagged'⟩ := labelled
  rw [separates.isTaken_under inside member tagged, separates'.isTaken_under inside member tagged']

theorem append (labelled : Labelled first second all branches branches') (member : label ∈ all)
    (fragment fragment' : TypeFragment) :
    Labelled first second all (branches ++ [(label.under first, fragment)])
      (branches' ++ [(label.under second, fragment')]) := by
  obtain ⟨labels, inside, tagged, tagged'⟩ := labelled
  refine ⟨labels ++ [label], ?_, ?_, ?_⟩
  · exact append_subset.mpr ⟨inside, cons_subset.mpr ⟨member, nil_subset _⟩⟩
  · rw [map_append, tagged, map_append]
    rfl
  · rw [map_append, tagged', map_append]
    rfl

end Labelled

/-- Codes under two namings that are tagged with tags from the same labels, or both untagged. -/
def TagsFrom (first second : List (String × String)) (all : List Label)
    (fragment fragment' : TypeFragment) : Prop :=
  ∃ labels : Option (List Label), (∀ list ∈ labels, list ⊆ all) ∧
    fragment.code.tags? = labels.map (map (Label.under first)) ∧
    fragment'.code.tags? = labels.map (map (Label.under second))

namespace TagsFrom

variable {fragment fragment' : TypeFragment}

theorem untagged (plain : fragment.code.tags? = none) (plain' : fragment'.code.tags? = none) :
    TagsFrom first second all fragment fragment' :=
  ⟨none, by simp, plain, plain'⟩

theorem tagged (property : String) (labelled : Labelled first second all branches branches') :
    TagsFrom first second all (taggedOf property branches) (taggedOf property branches') := by
  obtain ⟨labels, inside, tagged, tagged'⟩ := labelled
  refine ⟨some labels, ?_, ?_, ?_⟩
  · rintro list ⟨⟩
    exact inside
  · simp only [taggedOf, Fragment.combine, TypeExpr.tags?, map_map, Option.map_some, ← tagged]
    rfl
  · simp only [taggedOf, Fragment.combine, TypeExpr.tags?, map_map, Option.map_some, ← tagged']
    rfl

end TagsFrom

theorem inferredTag_rename (distinguishes : Distinguishes names keys) (within : types.Within keys)
    (property : String) (mentioned : node.mentions true ⊆ keys) :
    (node.rename names).inferredTag (types.rename names) property =
      (node.literalTag types property).or
        (node.target?.map fun key => .str (targetName names key)) := by
  rw [inferredTag, literalTag_rename distinguishes within property mentioned,
    target?_rename, Option.map_map]
  rfl

/-- How a member is told apart: by the tag of its label under each naming, by a literal value that
cannot be a tag, or not at all. -/
theorem inferredTag_cases (namings : Namings first second keys types) (property : String)
    {mapped : List String} (mentioned : node.mentions true ⊆ keys)
    (unmapped : node.target?.any mapped.contains = false) :
    (∃ label value value', memberLabel? types property mapped node = some label ∧
      (node.rename first).inferredTag (types.rename first) property = some value ∧
      (node.rename second).inferredTag (types.rename second) property = some value' ∧
      value.needKey = .ok (label.under first) ∧ value'.needKey = .ok (label.under second)) ∨
    (∃ value fault,
      (node.rename first).inferredTag (types.rename first) property = some value ∧
      (node.rename second).inferredTag (types.rename second) property = some value ∧
      value.needKey = .error fault) ∨
    ((node.rename first).inferredTag (types.rename first) property = none ∧
      (node.rename second).inferredTag (types.rename second) property = none ∧
      node.target? = none) := by
  rw [inferredTag_rename namings.first namings.within property mentioned,
    inferredTag_rename namings.second namings.within property mentioned, memberLabel?, unmapped,
    if_neg Bool.false_ne_true]
  cases node.literalTag types property with
  | some value =>
    cases value with
    | scalar tag => exact .inl ⟨.literal tag, _, _, rfl, rfl, rfl, rfl, rfl⟩
    | list items => exact .inr (.inl ⟨_, _, rfl, rfl, rfl⟩)
    | map entries => exact .inr (.inl ⟨_, _, rfl, rfl, rfl⟩)
  | none =>
    cases node.target? with
    | some key => exact .inl ⟨.nameOf key, _, _, rfl, rfl, rfl, rfl, rfl⟩
    | none => exact .inr (.inr ⟨rfl, rfl, rfl⟩)

/-- The compilations of a schema under two namings, for each of which the labels of the union are
told apart. -/
structure Setting (first second : List (String × String)) (keys : List String)
    (types : NamedNodes) (all : List Label) : Prop where
  namings : Namings first second keys types
  separates : Separates first all
  separates' : Separates second all

theorem untagged_alike (diagnostic diagnostic' : Diagnostic) :
    Alike sure (Option.Rel (Labelled first second all))
      (Compilation.report diagnostic >>= fun _ => return none)
      (Compilation.report diagnostic' >>= fun _ => return none) :=
  .bind Alike.modify fun _ _ _ => .pure .none

/-- The warning about members that overlap may differ, but it changes nothing else. -/
theorem reportOverlap_alike {scope scope' : Scope} {hint hint' : String} (mode : Composition)
    (nodes nodes' : List Node) :
    Alike sure (fun _ _ => True) (reportOverlap scope hint mode nodes)
      (reportOverlap scope' hint' mode nodes') := by
  unfold reportOverlap
  split <;> split <;> exact fun _ _ => trivial

section Unions

variable {discriminator : Discriminator}

theorem targets_rename (names : List (String × String)) :
    (discriminator.rename names).targets = discriminator.targets.map (targetName names) := by
  obtain ⟨property, _ | mapping⟩ := discriminator
  · rfl
  · simp [Discriminator.targets, Discriminator.rename, Function.comp_def]

theorem covered_rename (distinguishes : Distinguishes names keys)
    (targets : discriminator.targets ⊆ keys) (mentioned : node.mentions true ⊆ keys) :
    (node.rename names).target?.any (discriminator.rename names).targets.contains =
      node.target?.any discriminator.targets.contains := by
  rw [target?_rename, targets_rename]
  cases reference : node.target? with
  | none => rfl
  | some key =>
    exact distinguishes.contains_map targets
      (mentioned (mem_mentions_of_target? reference))

variable (setting : Setting first second keys types all) {strict : Bool} {hint hint' : String}
  {nodes : List Node} (mentioned : mentionsList true nodes ⊆ keys)

include setting mentioned

/-- The tags of the members come from the same labels under two namings. -/
theorem addBranches_alike (targets : discriminator.targets ⊆ keys)
    (labelled : ∀ node ∈ nodes, ∀ label,
      memberLabel? types discriminator.property discriminator.targets node = some label → label ∈
        all) {members members' : List ((Node × TypeFragment) × Nat)}
    (named : members.map (·.1.1) = nodes.map (rename first))
    (named' : members'.map (·.1.1) = nodes.map (rename second))
    (tagged : Labelled first second all branches branches') :
    Alike sure (Option.Rel (Labelled first second all))
      (addBranches ⟨types.rename first, strict⟩ hint (discriminator.rename first) members branches)
      (addBranches ⟨types.rename second, strict⟩ hint' (discriminator.rename second) members'
        branches') := by
  induction nodes generalizing members members' branches branches' with
  | nil =>
    cases map_eq_nil_iff.mp named
    cases map_eq_nil_iff.mp named'
    exact .pure (.some tagged)
  | cons node rest ih =>
    rw [mentionsList, append_subset] at mentioned
    obtain ⟨⟨⟨renamed, fragment⟩, index⟩, rows, rfl, rfl, others⟩ := map_eq_cons_iff.mp named
    obtain ⟨⟨⟨renamed', fragment'⟩, index'⟩, rows', rfl, rfl, others'⟩ :=
      map_eq_cons_iff.mp named'
    obtain ⟨own, labelled⟩ := forall_mem_cons.mp labelled
    have onward {branches branches' : Branches}
        (further : Labelled first second all branches branches') :=
      ih mentioned.2 labelled others others' further
    have property (names : List (String × String)) :
        (discriminator.rename names).property = discriminator.property := rfl
    have passed (names : List (String × String)) :
        ((discriminator.rename names).targets ≠ [] ∧ (node.rename names).target?.isSome = true) =
          (discriminator.targets ≠ [] ∧ node.target?.isSome = true) := by
      rw [target?_rename, targets_rename, Option.isSome_map, ne_eq, map_eq_nil_iff]
    rw [addBranches, addBranches, covered_rename setting.namings.first targets mentioned.1,
      covered_rename setting.namings.second targets mentioned.1]
    split
    · exact onward tagged
    next uncovered =>
      rcases inferredTag_cases setting.namings discriminator.property mentioned.1
        (by simpa using uncovered) with ⟨label, value, value', known, found, found', key, key'⟩ |
        ⟨value, fault, found, found', unusable⟩ | ⟨untold, untold', -⟩
      · have member := own label known
        simp only [property, found, found', key, key', passed, ofExcept_ok_bind,
          tagged.isTaken_eq setting.separates setting.separates' member]
        split
        · split
          · exact onward tagged
          · exact untagged_alike _ _
        · exact onward (tagged.append member fragment fragment')
      · simp only [property, found, found', unusable, ofExcept_error_bind]
        exact .throw fault
      · simp only [property, untold, untold']
        exact untagged_alike _ _

/-- A union is tagged under both namings or under none, with tags from the same labels. -/
theorem taggedUnion?_alike (targets : discriminator.targets ⊆ keys)
    (labelled : unionLabels types discriminator nodes ⊆ all)
    {fragments fragments' : List TypeFragment} (complete : fragments.length = nodes.length)
    (complete' : fragments'.length = nodes.length) :
    Alike sure (Option.Rel (TagsFrom first second all))
      (taggedUnion? ⟨types.rename first, strict⟩ hint (discriminator.rename first)
        ((nodes.map (rename first)).zip fragments))
      (taggedUnion? ⟨types.rename second, strict⟩ hint' (discriminator.rename second)
        ((nodes.map (rename second)).zip fragments')) := by
  have members : ∀ node ∈ nodes, ∀ label,
      memberLabel? types discriminator.property discriminator.targets node = some label →
        label ∈ all := by
    intro node inside label known
    exact labelled (mem_append_right _ (mem_filterMap.mpr ⟨node, inside, known⟩))
  have rows (names : List (String × String)) {fragments : List TypeFragment}
      (complete : fragments.length = nodes.length) :
      (((nodes.map (rename names)).zip fragments).zipIdx).map (·.1.1) =
        nodes.map (rename names) := by
    calc
      _ = ((((nodes.map (rename names)).zip fragments).zipIdx).map Prod.fst).map Prod.fst := by
        rw [map_map]
        rfl
      _ = _ := by
        rw [zipIdx_map_fst, map_fst_zip]
        simp [complete]
  have mapping (names : List (String × String)) : (discriminator.rename names).mapping.getD [] =
      (discriminator.mapping.getD []).map fun branch => (branch.1, targetName names branch.2) := by
    obtain ⟨property, _ | mapping⟩ := discriminator <;> rfl
  rw [taggedUnion?_eq, taggedUnion?_eq, mapping, mapping]
  refine .bind (addBranches_alike setting mentioned targets members (rows first complete)
    (rows second complete') (.mapped (append_subset.mp labelled).1 _ _)) fun _ _ related => ?_
  cases related with
  | none => exact .pure .none
  | some related => exact .pure (.some (.tagged _ related))

/-- The union of a composition is tagged under both namings or under none, with tags from the same
labels. -/
theorem unionOf_alike {mode : Composition} {discriminator : Option Discriminator}
    (targets : Discriminator.targetsOf discriminator ⊆ keys)
    (labelled : mode ≠ .allOf → ∀ stated ∈ discriminator, unionLabels types stated nodes ⊆ all)
    {fragments fragments' : List TypeFragment} (complete : fragments.length = nodes.length)
    (complete' : fragments'.length = nodes.length) :
    Alike sure (TagsFrom first second all)
      (unionOf ⟨types.rename first, strict⟩ hint mode
        (discriminator.map (Discriminator.rename first)) (nodes.map (rename first)) fragments)
      (unionOf ⟨types.rename second, strict⟩ hint' mode
        (discriminator.map (Discriminator.rename second)) (nodes.map (rename second))
        fragments') := by
  have tagging (choice : mode ≠ .allOf) : Alike sure (Option.Rel (TagsFrom first second all))
      (tagged? ⟨types.rename first, strict⟩ hint (discriminator.map (Discriminator.rename first))
        ((nodes.map (rename first)).zip fragments))
      (tagged? ⟨types.rename second, strict⟩ hint' (discriminator.map (Discriminator.rename second))
        ((nodes.map (rename second)).zip fragments')) := by
    cases discriminator with
    | none => exact .pure .none
    | some stated =>
      exact taggedUnion?_alike setting mentioned targets (labelled choice stated rfl) complete
        complete'
  have plain (fragments : List TypeFragment) : (untagged mode fragments).tags? = none := by
    unfold untagged
    split <;> rfl
  rw [unionOf_eq, unionOf_eq]
  split
  · exact .pure (.untagged rfl rfl)
  next choice =>
    refine .bind (tagging choice) fun _ _ related => ?_
    cases related with
    | some related => exact .pure related
    | none =>
      exact .bind (reportOverlap_alike _ _ _) fun _ _ _ =>
        .pure (.untagged (plain fragments) (plain fragments'))

end Unions

end Code

end Bindery
