import Bindery.Proofs.Code.Assembly

/-!
# Branches of tagged unions

A union with a discriminator is tagged only if each member can be told apart; if
not, the member that stands in the way is reported.  Each entry of the mapping is
a branch, and each member has a branch of its own or shares one with a reference
to the same type.  There is one exception: a reference that the mapping leaves out
has no branch if its tag is taken by a branch of another type.
-/

namespace Bindery.Code

open List

variable {scope : Scope} {coerce : Bool}

/-! ## Compiled members -/

/-- A schema is compiled to a fragment, at some place. -/
def Compiled (scope : Scope) (coerce : Bool) (node : Node) (fragment : TypeFragment) : Prop :=
  ∃ hint before after, (compile scope coerce hint node).start before = (.ok fragment, after)

theorem compile_compiled (hint : String) (node : Node) :
    Run.Returns (compile scope coerce hint node) (Compiled scope coerce node) :=
  fun before _ after ran => ⟨hint, before, after, ran⟩

theorem compileMembers_compiled (hint : String) (index : Nat) (nodes : List Node) :
    Run.Returns (compileMembers scope coerce hint index nodes)
      (Forall₂ (Compiled scope coerce) nodes) := by
  rw [compileMembers_eq]
  intro before parts after ran
  have compiled : Forall₂ _ _ parts :=
    Run.Returns.mapM (fun part _ => compile_compiled part.1 part.2) _ _ _ ran
  rw [forall₂_map_left_iff] at compiled
  rw [← zipIdx_map_fst index nodes, forall₂_map_left_iff]
  exact compiled

/-! ## Tags and branches -/

variable {discriminator : Discriminator} {members done rest : List (Node × TypeFragment)}
  {branches : Branches} {node : Node} {fragment : TypeFragment} {tag : Scalar}

/-- The tag that a member of a union has if no mapping gives it one. -/
def tagOf (scope : Scope) (discriminator : Discriminator) (node : Node) : Option Scalar :=
  (node.inferredTag scope.types discriminator.property).bind fun value => value.needKey.toOption

/-- A member cannot be told apart from the members before it: it has no tag, or the mapping or one
of these members has the same tag. -/
def Untold (scope : Scope) (discriminator : Discriminator) (earlier : List (Node × TypeFragment))
    (node : Node) (repeated : Bool) : Prop :=
  if repeated then
    ∃ tag ∈ tagOf scope discriminator node,
      (∃ entry ∈ discriminator.mapping.getD [], (Scalar.str entry.1).same tag = true) ∨
        ∃ other ∈ earlier, ∃ used ∈ tagOf scope discriminator other.1, used.same tag = true
  else node.inferredTag scope.types discriminator.property = none

/-- The fragment of a type: that of a member that refers to the type or, if there is none, a
deferred one. -/
def IsTarget (members : List (Node × TypeFragment)) (target : String) (fragment : TypeFragment) :
    Prop :=
  (∃ member ∈ members, member.1.target? = some target ∧ member.2 = fragment) ∨
    (∀ member ∈ members, member.1.target? ≠ some target) ∧
      fragment = .deferred (.lazy target) target

/-- A member is the value of a branch, by itself or by a reference to the same type. -/
def Served (members : List (Node × TypeFragment)) (branches : Branches)
    (member : Node × TypeFragment) : Prop :=
  ∃ branch ∈ branches, branch.2 = member.2 ∨
    ∃ target, member.1.target? = some target ∧ IsTarget members target branch.2

/-- A member is a reference that the mapping leaves out, whose tag is taken by a branch of another
type. -/
def Displaced (scope : Scope) (discriminator : Discriminator)
    (members : List (Node × TypeFragment)) (branches : Branches) (member : Node × TypeFragment) :
    Prop :=
  ∃ target, member.1.target? = some target ∧ target ∉ discriminator.targets ∧
    ∃ tag ∈ tagOf scope discriminator member.1, ∃ branch ∈ branches,
      branch.1.same tag = true ∧ ¬ IsTarget members target branch.2

/-- What the branches for some of the members are: all of the mapping, and one for each of these
members that is not displaced. -/
structure Accounted (scope : Scope) (discriminator : Discriminator)
    (members done : List (Node × TypeFragment)) (branches : Branches) : Prop where
  mapped : ∀ entry ∈ discriminator.mapping.getD [],
    ∃ fragment, (.str entry.1, fragment) ∈ branches ∧ IsTarget members entry.2 fragment
  origin : ∀ branch ∈ branches,
    (∃ entry ∈ discriminator.mapping.getD [], branch.1 = .str entry.1) ∨
      ∃ member ∈ done, tagOf scope discriminator member.1 = some branch.1
  served : ∀ member ∈ done, Served members branches member ∨
    discriminator.targets ≠ [] ∧ Displaced scope discriminator members branches member

namespace Accounted

theorem untold (accounted : Accounted scope discriminator members done branches)
    (known : tagOf scope discriminator node = some tag) (taken : isTaken tag branches = true) :
    Untold scope discriminator done node true := by
  obtain ⟨branch, listed, same⟩ := any_eq_true.mp taken
  rcases accounted.origin branch listed with ⟨entry, given, equal⟩ | ⟨other, early, used⟩
  · exact ⟨tag, known, .inl ⟨entry, given, equal ▸ same⟩⟩
  · exact ⟨tag, known, .inr ⟨other, early, branch.1, used, same⟩⟩

theorem covered (accounted : Accounted scope discriminator members done branches) {target : String}
    (reference : node.target? = some target) (mapped : target ∈ discriminator.targets) :
    Served members branches (node, fragment) := by
  obtain ⟨entry, given, rfl⟩ := mem_map.mp mapped
  obtain ⟨value, listed, leads⟩ := accounted.mapped entry given
  exact ⟨_, listed, .inr ⟨entry.2, reference, leads⟩⟩

/-- A reference whose tag is taken shares a branch or is displaced. -/
theorem shared {target : String} (reference : node.target? = some target)
    (free : target ∉ discriminator.targets) (known : tagOf scope discriminator node = some tag)
    (taken : isTaken tag branches = true) :
    Served members branches (node, fragment) ∨
      Displaced scope discriminator members branches (node, fragment) := by
  obtain ⟨branch, listed, same⟩ := any_eq_true.mp taken
  by_cases leads : IsTarget members target branch.2
  · exact .inl ⟨branch, listed, .inr ⟨target, reference, leads⟩⟩
  · exact .inr ⟨target, reference, free, tag, known, branch, listed, same, leads⟩

variable (accounted : Accounted scope discriminator members done branches)

include accounted

/-- The members that are done stay so when there are more members done and more branches. -/
theorem mono {member : Node × TypeFragment} {more : Branches}
    (added : ∀ branch ∈ more, tagOf scope discriminator member.1 = some branch.1)
    (served : Served members (branches ++ more) member ∨ discriminator.targets ≠ [] ∧
      Displaced scope discriminator members (branches ++ more) member) :
    Accounted scope discriminator members (done ++ [member]) (branches ++ more) where
  mapped entry given := by
    obtain ⟨fragment, listed, target⟩ := accounted.mapped entry given
    exact ⟨fragment, mem_append_left _ listed, target⟩
  origin := by
    refine forall_mem_append.mpr ⟨fun branch listed => ?_, fun branch listed => ?_⟩
    · refine (accounted.origin branch listed).imp_right ?_
      rintro ⟨other, early, used⟩
      exact ⟨other, mem_append_left _ early, used⟩
    · exact .inr ⟨member, mem_append_right _ mem_cons_self, added branch listed⟩
  served := by
    refine forall_mem_append.mpr ⟨fun other early => ?_, forall_mem_singleton.mpr served⟩
    rcases accounted.served other early with ⟨branch, listed, value⟩ |
      ⟨given, target, reference, free, tag, known, branch, listed, same⟩
    · exact .inl ⟨branch, mem_append_left _ listed, value⟩
    · exact .inr ⟨given, target, reference, free, tag, known, branch,
        mem_append_left _ listed, same⟩

theorem pass {member : Node × TypeFragment} (served : Served members branches member ∨
      discriminator.targets ≠ [] ∧ Displaced scope discriminator members branches member) :
    Accounted scope discriminator members (done ++ [member]) branches := by
  have further := accounted.mono (forall_mem_nil _) (by rwa [append_nil])
  rwa [append_nil] at further

theorem add (known : tagOf scope discriminator node = some tag) :
    Accounted scope discriminator members (done ++ [(node, fragment)])
      (branches ++ [(tag, fragment)]) :=
  accounted.mono (forall_mem_singleton.mpr known)
    (.inl ⟨(tag, fragment), mem_append_right _ mem_cons_self, .inl rfl⟩)

end Accounted

/-- A member that cannot be told apart from the members before it is reported. -/
def Reported (scope : Scope) (discriminator : Discriminator) (hint : String)
    (members : List (Node × TypeFragment)) (diagnostics : List Diagnostic) : Prop :=
  ∃ earlier member later repeated, members = earlier ++ member :: later ∧
    untaggable earlier.length hint discriminator.property repeated ∈ diagnostics ∧
    Untold scope discriminator earlier member.1 repeated

/-- How the tagging of members ends: with branches that account for all of them, or with a report
of one. -/
def Settled (scope : Scope) (discriminator : Discriminator) (hint : String)
    (members : List (Node × TypeFragment)) (diagnostics : List Diagnostic) :
    Option Branches → Prop
  | some branches => Accounted scope discriminator members members branches
  | none => Reported scope discriminator hint members diagnostics

section Tagging

variable {hint : String} {before after : List Diagnostic} {branches? : Option Branches}

theorem settled_of_report (repeated : Bool) (whole : members = done ++ (node, fragment) :: rest)
    (untold : Untold scope discriminator done node repeated)
    (ran : (Compilation.report (untaggable done.length hint discriminator.property repeated) >>=
      fun _ => pure none).start before = (.ok branches?, after)) :
    Settled scope discriminator hint members after branches? := by
  cases ran
  exact ⟨done, _, rest, repeated, whole, mem_append_right _ mem_cons_self, untold⟩

theorem settled_of_nil (whole : members = done ++ [])
    (accounted : Accounted scope discriminator members done branches)
    (ran : (pure (some branches) : Compilation (Option Branches)).start before =
      (.ok branches?, after)) : Settled scope discriminator hint members after branches? := by
  cases ran
  rw [append_nil] at whole
  exact whole ▸ accounted

theorem tagOf_eq {value : Value} {early late : List Diagnostic}
    (inferred : node.inferredTag scope.types discriminator.property = some value)
    (key : (Run.ofExcept value.needKey).start early = (.ok tag, late)) :
    tagOf scope discriminator node = some tag := by
  have read : value.needKey = .ok tag := congrArg Prod.fst key
  rw [tagOf, inferred, Option.bind_some, read]
  rfl

/-- Each member adds its branch, shares one or is displaced, or else settles the union. -/
theorem addBranches_settled (whole : members = done ++ rest)
    (accounted : Accounted scope discriminator members done branches)
    (ran : (addBranches scope hint discriminator (rest.zipIdx done.length) branches).start before =
      (.ok branches?, after)) :
    Settled scope discriminator hint members after branches? := by
  induction rest generalizing done branches before with
  | nil => exact settled_of_nil whole accounted ran
  | cons member rest ih =>
    obtain ⟨node, fragment⟩ := member
    have onward {branches : Branches} {before : List Diagnostic}
        (further : Accounted scope discriminator members (done ++ [(node, fragment)]) branches)
        (ran : (addBranches scope hint discriminator (rest.zipIdx (done.length + 1))
          branches).start before = (.ok branches?, after)) :
        Settled scope discriminator hint members after branches? :=
      ih (by simp [whole]) further (by simpa using ran)
    rw [zipIdx_cons, addBranches] at ran
    split at ran
    next covered =>
      obtain ⟨target, reference, mapped⟩ := (Option.any_eq_true _ _).mp covered
      exact onward (accounted.pass (.inl (accounted.covered reference
        (contains_iff_mem.mp mapped)))) ran
    next uncovered =>
      split at ran
      next untold => exact settled_of_report false whole untold ran
      next value inferred =>
        obtain ⟨tag, between, key, ran⟩ := Run.start_bind_ok ran
        have known := tagOf_eq inferred key
        split at ran
        next taken =>
          split at ran
          next passed =>
            obtain ⟨target, reference⟩ := Option.isSome_iff_exists.mp passed.2
            have free : target ∉ discriminator.targets := by simpa [reference] using uncovered
            exact onward (accounted.pass ((Accounted.shared reference free known taken).imp_right
              (⟨passed.1, ·⟩))) ran
          next => exact settled_of_report true whole (accounted.untold known taken) ran
        next => exact onward (accounted.add known) ran

theorem accounted_mapping :
    Accounted scope discriminator members []
      (mappedBranches (discriminator.mapping.getD []) members) where
  mapped entry given := by
    refine ⟨_, mem_map_of_mem given, ?_⟩
    dsimp only
    cases found : members.reverse.find? fun member => member.1.target? == some entry.2 with
    | none =>
      refine .inr ⟨fun member inside same => ?_, rfl⟩
      exact find?_eq_none.mp found member (mem_reverse.mpr inside) (by simp [same])
    | some member =>
      have here := mem_reverse.mp (mem_of_find?_eq_some found)
      exact .inl ⟨member, here, by simpa using find?_some found, rfl⟩
  origin branch listed := by
    obtain ⟨entry, given, rfl⟩ := mem_map.mp listed
    exact .inl ⟨entry, given, rfl⟩
  served := forall_mem_nil _

/-- The code is a tagged union whose branches account for some members. -/
def IsTagged (scope : Scope) (discriminator : Discriminator)
    (members : List (Node × TypeFragment)) (code : TypeExpr) : Prop :=
  ∃ branches, Accounted scope discriminator members members branches ∧
    code = .tagged discriminator.property (branches.map fun branch => (branch.1, branch.2.code))

theorem taggedUnion?_settled {tagged? : Option TypeFragment}
    (ran : (taggedUnion? scope hint discriminator members).start before = (.ok tagged?, after)) :
    (∃ tagged, tagged? = some tagged ∧ IsTagged scope discriminator members tagged.code) ∨
      tagged? = none ∧ Reported scope discriminator hint members after := by
  rw [taggedUnion?_eq] at ran
  obtain ⟨branches?, later, ran, built⟩ := Run.start_bind_ok ran
  have settled := addBranches_settled rfl accounted_mapping ran
  cases built
  cases branches? with
  | none => exact .inr ⟨rfl, settled⟩
  | some branches => exact .inl ⟨_, rfl, branches, settled, rfl⟩

end Tagging

theorem unionOf_settled {mode : Composition} {nodes : List Node} {parts : List TypeFragment}
    {hint : String} {before after : List Diagnostic} (choice : mode ≠ .allOf)
    (ran : (unionOf scope hint mode (some discriminator) nodes parts).start before =
      (.ok fragment, after)) :
    IsTagged scope discriminator (nodes.zip parts) fragment.code ∨
      fragment.code = untagged mode parts ∧
        Reported scope discriminator hint (nodes.zip parts) after := by
  rw [unionOf_eq, if_neg choice] at ran
  obtain ⟨tagged?, middle, tagging, ran⟩ := Run.start_bind_ok ran
  rcases taggedUnion?_settled tagging with ⟨tagged, rfl, told⟩ | ⟨rfl, reported⟩
  · cases ran
    exact .inl told
  · -- A report of members that overlap may follow.
    obtain ⟨earlier, member, later, repeated, whole, listed, untold⟩ := reported
    refine .inr ?_
    unfold reportOverlap at ran
    dsimp only at ran
    split at ran <;> cases ran
    · exact ⟨rfl, earlier, member, later, repeated, whole, mem_append_left _ listed, untold⟩
    · exact ⟨rfl, earlier, member, later, repeated, whole, listed, untold⟩

/-- A union with a discriminator is compiled to a tagged union with a branch for each entry of the
mapping and for each member, except for references that the mapping leaves out and whose tags are
in use for another type; or else to an untagged union, and a member that cannot be told apart from
those before it is reported. -/
theorem union_tagged_or_reported {mode : Composition} {nodes : List Node} {note : Note}
    {hint : String} {before after : List Diagnostic} (choice : mode ≠ .allOf)
    (many : 2 ≤ nodes.length)
    (ran : (compile scope coerce hint (.composition note mode nodes (some discriminator))).start
      before = (.ok fragment, after)) :
    ∃ parts, List.Forall₂ (Compiled scope coerce) nodes parts ∧
      (IsTagged scope discriminator (nodes.zip parts) fragment.code ∨
        fragment.code = untagged mode parts ∧
          Reported scope discriminator hint (nodes.zip parts) after) := by
  rw [compile] at ran
  obtain ⟨parts, middle, first, ran⟩ := Run.start_bind_ok ran
  have compiled := compileMembers_compiled _ _ nodes _ _ _ first
  have lengths := compiled.length_eq
  refine ⟨parts, compiled, ?_⟩
  split at ran
  next => rw [lengths] at many; contradiction
  next => rw [lengths] at many; contradiction
  next =>
    obtain ⟨union, later, ran, built⟩ := Run.start_bind_ok ran
    cases built
    exact (unionOf_settled choice ran : _ ∨ union.code = _ ∧ _)

theorem union_tagged_or_reported_of_nulls :
    ∃ parts, List.Forall₂ (Compiled {} false) [.null {}, .null {}] parts ∧
      (IsTagged {} ⟨"kind", none⟩ ([.null {}, .null {}].zip parts) (.oneOf [.none, .none]) ∨
        TypeExpr.oneOf [.none, .none] = untagged .oneOf parts ∧ Reported {} ⟨"kind", none⟩ "Pet"
          ([.null {}, .null {}].zip parts) [untaggable 0 "Pet" "kind" false]) :=
  union_tagged_or_reported (by decide) (by decide) (rfl : (compile {} false "Pet"
    (.composition {} .oneOf [.null {}, .null {}] (some ⟨"kind", none⟩))).start [] = _)

/-- A reference that the mapping leaves out is lost, without a report, if the mapping has the name
of its type for another type. -/
theorem reference_branch_lost :
    ((compile {} false "Pet" (.composition {} .oneOf
        [.reference {} "A" false, .reference {} "B" false]
        (some ⟨"kind", some [("B", "A")]⟩))).start []).map (·.map (·.code)) id =
      (.ok (.tagged "kind" [(.str "B", .named "A")]), []) :=
  rfl

end Bindery.Code
