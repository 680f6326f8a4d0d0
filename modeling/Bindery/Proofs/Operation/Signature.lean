import Bindery.Package.OperationUnit
import Bindery.Proofs.Course
import Bindery.Proofs.Naming.Assignment

/-!
# Signatures of client functions

The function of an operation and its arguments take their names from texts of the
document.  A name that is reserved gets an underscore, and one that is taken a
number.  No reserved name ends in either, so that nothing that is done to a name
brings it back among the reserved ones, and the names of a unit stay apart.
-/

namespace Bindery

open Code List Naming Package

namespace Naming

/-- A name that code can bind without hiding a name that it uses. -/
structure IsFree (name : String) : Prop where
  identifier : isIdentifier name = true
  noKeyword : isKeyword name = false
  unreserved : isReserved name = false

theorem isReserved_of_isKeyword {name : String} (isKeyword : isKeyword name = true) :
    isReserved name = true := by
  simp_all [Naming.isKeyword, isReserved, reserved]

/-- A name is not reserved if it ends in a digit or an underscore. -/
theorem not_isReserved_of_getLast? {name : String} {last : Char}
    (ends : name.toList.getLast? = some last) (marked : last.isDigit = true ∨ last = '_') :
    isReserved name = false := by
  have letters : reserved.all fun name =>
      name.toList.getLast?.all fun last => !last.isDigit && last != '_' := by
    decide +kernel
  rw [isReserved, contains_eq_mem, decide_eq_false_iff_not]
  intro listed
  have letter := all_eq_true.mp letters name listed
  rw [ends] at letter
  rcases marked with digit | rfl
  · simp [digit] at letter
  · cases letter

variable (raw : String)

theorem isIdentifier_argumentBase : isIdentifier (argumentBase raw) = true := by
  have identifier := (isModule_snakeCase raw).isIdentifier
  rw [argumentBase]
  split
  · exact isIdentifier_append identifier (all_eq_true.mp (by decide))
  · exact identifier

theorem not_isReserved_argumentBase : isReserved (argumentBase raw) = false := by
  rw [argumentBase]
  split
  · exact not_isReserved_of_getLast? (by simp) (.inr rfl)
  next plain =>
    rw [Bool.or_eq_true, not_or] at plain
    exact Bool.eq_false_of_not_eq_true plain.2

/-- A number keeps the names of arguments free. -/
theorem isFree_numbered (index : Nat) : IsFree (numbered (argumentBase raw) index) := by
  have unreserved : isReserved (numbered (argumentBase raw) index) = false := by
    by_cases zero : index = 0
    · rw [numbered, if_pos zero]
      exact not_isReserved_argumentBase raw
    · have filled := numberDigits_ne_nil zero
      refine not_isReserved_of_getLast? ?_
        (.inl (allDigits_numberDigits index _ (getLast_mem filled)))
      rw [toList_numbered, getLast?_append_of_ne_nil _ filled, getLast?_eq_some_getLast filled]
  refine ⟨?_, ?_, unreserved⟩
  · rw [numbered_eq]
    refine isIdentifier_append (isIdentifier_argumentBase raw) fun c member => ?_
    rw [String.toList_ofList] at member
    exact isNameChar_of_isWordChar (isWordChar_of_isDigit (allDigits_numberDigits index c member))
  · rw [← Bool.not_eq_true]
    intro isKeyword
    rw [isReserved_of_isKeyword isKeyword] at unreserved
    cases unreserved

/-- Whatever is taken, the search for the name of an argument ends at the first name of its sequence
that is not taken. -/
theorem argumentName_eq_numbered (taken : List String) :
    ∃ index, argumentName raw taken = numbered (argumentBase raw) index ∧
      argumentName raw taken ∉ taken ∧
      ∀ before < index, numbered (argumentBase raw) before ∈ taken := by
  let isNew := fun name => !taken.contains name
  let stopped := (Finset.range (taken.length + 1)).filter fun index =>
    numbered (argumentBase raw) index ∈ taken
  have available : isNew (firstAvailable isNew (argumentBase raw) taken.length) = true := by
    refine isAvailable_firstAvailable stopped ?_ fun index within unavailable => ?_
    · exact card_filter_mem_le (injective_of_numberDigits (toList_numbered _)) taken _
    · exact Finset.mem_filter.mpr ⟨Finset.mem_range.mpr (Nat.lt_succ_of_le within),
        by simpa [isNew] using unavailable⟩
  obtain ⟨index, same, least⟩ := firstAvailable_eq_numbered isNew (argumentBase raw) taken.length
  exact ⟨index, same, by simpa [isNew, argumentName] using available, fun before smaller => by
    simpa [isNew] using least before smaller⟩

theorem isFree_argumentName (taken : List String) : IsFree (argumentName raw taken) := by
  obtain ⟨index, same, -⟩ := argumentName_eq_numbered raw taken
  rw [same]
  exact isFree_numbered raw index

end Naming

namespace Binding

/-- The arguments of a function are those of its parameters, with names of their own. -/
theorem bindArguments_returns (scope : Scope) {taken : List String} (distinct : taken.Nodup)
    (parameters : List Parameter) :
    (bindArguments scope taken parameters).Returns fun arguments =>
      (arguments.map (·.name) ++ taken).Nodup ∧ (∀ argument ∈ arguments, IsFree argument.name) ∧
      arguments.map (fun argument => (argument.wireName, argument.place)) =
        parameters.map fun parameter => (parameter.name, parameter.place) := by
  induction parameters generalizing taken with
  | nil => exact .pure ⟨distinct, forall_mem_nil _, rfl⟩
  | cons parameter rest ih =>
    obtain ⟨_, -, new, -⟩ := argumentName_eq_numbered parameter.name taken
    refine .after _ fun fragment => .bind (ih (nodup_cons.mpr ⟨new, distinct⟩)) ?_
    rintro arguments ⟨apart, free, same⟩
    refine .pure ⟨nodup_middle.mp apart, forall_mem_cons.mpr ⟨isFree_argumentName _ _, free⟩, ?_⟩
    rw [map_cons, map_cons, same]

/-- Everything that a unit imports from the units of every package is reserved. -/
theorem not_imported {name : String} (isFree : IsFree name) (binding : Binding) :
    name ∉ operationRuntime binding ++ operationSupport binding := by
  have fixed : (["Any", "Optional", "check", "CheckError"] ++ clientSupport ++ serverSupport).all
      isReserved = true := by
    decide
  have unreserved := isFree.unreserved
  intro imported
  have listed : name ∈ runtimeNames ∨
      name ∈ ["Any", "Optional", "check", "CheckError"] ++ clientSupport ++ serverSupport := by
    simp only [operationRuntime, operationSupport, runtimeMentions, sortNames, onlyIf, mem_append,
      mem_eraseDups, mem_mergeSort, mem_filter] at imported ⊢
    grind
  rcases listed with runtime | support
  · simp [isReserved, reserved, runtime] at unreserved
  · rw [all_eq_true.mp fixed name support] at unreserved
    cases unreserved

/-- The function of an operation and its arguments have names that are told apart from each other
and from the other names of the unit, and there is one argument for each parameter.  The search for
such a name ends, whatever names are taken. -/
theorem signature_well_formed (scope : Scope) (surface : Surface) (authHeaders : List String)
    (operation : Operation) :
    ((ofOperation scope surface authHeaders operation).Returns fun binding =>
      (binding.functionName :: (binding.arguments.map (·.name) ++ unitNames)).Nodup ∧
      (∀ name ∈ binding.functionName :: binding.arguments.map (·.name), IsFree name ∧
        name ∉ operationRuntime binding ++ operationSupport binding) ∧
      binding.arguments.map (fun argument => (argument.wireName, argument.place)) =
        (operation.parameters.path ++ operation.parameters.query ++ operation.parameters.header ++
          operation.parameters.cookie).map fun parameter => (parameter.name, parameter.place)) ∧
    ∀ raw taken, ∃ index, argumentName raw taken = numbered (argumentBase raw) index ∧
      argumentName raw taken ∉ taken ∧
      ∀ before < index, numbered (argumentBase raw) before ∈ taken := by
  refine ⟨?_, argumentName_eq_numbered⟩
  obtain ⟨_, -, new, -⟩ := argumentName_eq_numbered operation.id unitNames
  have function := isFree_argumentName operation.id unitNames
  simp only [ofOperation]
  generalize argumentName operation.id unitNames = name at new function
  have distinct := nodup_cons.mpr ⟨new, (by decide : unitNames.Nodup)⟩
  refine .after _ fun _ => .after _ fun _ => .after _ fun _ => .after _ fun _ => .after _ fun _ => ?_
  refine .bind (bindArguments_returns scope distinct _) fun arguments named => .pure ?_
  obtain ⟨apart, free, same⟩ := named
  refine ⟨nodup_middle.mp apart, forall_mem_cons.mpr ⟨⟨function, not_imported function _⟩, ?_⟩, same⟩
  exact forall_mem_map.mpr fun argument inside =>
    ⟨free argument inside, not_imported (free argument inside) _⟩

end Binding

end Bindery
