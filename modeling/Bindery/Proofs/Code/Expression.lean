import Bindery.Proofs.Code.Records
import Bindery.Proofs.Naming.Assignment

/-!
# Compiled code is an expression

Whatever schema is compiled, and in whatever scope, the code is the text of one
expression.  Its names are those that type expressions use, those of the types
that the code imports, and those in the literals of the schema's scalars.
-/

namespace Bindery

open Naming Scalar List

namespace Code

open Fragment

/-! ## Formed fragments -/

/-- The names that code with some imports can use besides plain ones. -/
def Binds (plain : String → Prop) (imports : List String) (word : String) : Prop :=
  plain word ∨ word ∈ imports

/-- The code of a fragment is an expression whose names are plain or imported, and its default
value has plain names. -/
structure Formed (plain : String → Prop) (fragment : TypeFragment) : Prop where
  code : Written (Binds plain fragment.imports) .expression fragment.code.text
  default : ∀ value ∈ fragment.default, ValueUsable plain value

/-- A schema is compiled to a formed fragment, whatever the place it stands at. -/
def Forms (plain : String → Prop) (scope : Scope) (coerce : Bool) (node : Node) : Prop :=
  ∀ hint, Run.Returns (compile scope coerce hint node) (Formed plain)

section Compilation

variable {plain : String → Prop}

/-- A name that begins an occurrence is the name of an imported type, or the one that defers. -/
theorem Exact.formed {words : Vocabulary} {fragment : TypeFragment} (held : Exact words fragment)
    (standard : Standard words.plain) (identified : Identified fragment.code.occurrences) :
    Formed words.plain fragment where
  code := by
    refine (held.code identified).written.mono fun word begins => ?_
    rcases begins with usable | ⟨occurrence, member, rfl⟩
    · exact .inl usable
    · cases occurrence with
      | bare name => exact .inr ((held.records name).imports.mpr member)
      | lazy name => exact .inl (standard "lazy" (by decide))
  default := held.default

theorem compile_formed {scope : Scope} (standard : Standard plain)
    (known : ScopeUsable plain scope) (coerce : Bool) (node : Node)
    (scalars : ∀ scalar ∈ node.scalars, Usable plain scalar)
    (targets : ∀ target ∈ node.mentions false, isIdentifier target = true) :
    Forms plain scope coerce node := by
  intro hint state fragment later ran
  have held := (compile_gives standard.basic known scalars coerce hint).returns state fragment
    later ran
  exact held.formed standard fun name bare => targets name (held.admitted _ bare).2

end Compilation

/-! ## Names of code -/

/-- The names in literals: constants, doubles that are not finite, and calendar constructors. -/
def literalNames : List String :=
  ["None", "True", "False", "inf", "nan", "datetime", "date", "timezone", "utc", "timedelta"]

/-- The names that code can use besides those of types. -/
def codeNames : List String :=
  typeNames ++ literalNames

theorem names_subset_literalNames (scalar : Scalar) : scalar.names ⊆ literalNames := by
  intro word member
  cases scalar with
  | null => simp_all [names, literalNames]
  | bool value => cases value <;> simp_all [names, literalNames]
  | float value => cases value <;> simp_all [names, Double.names, literalNames]
  | date value => simp_all [names, literalNames]; grind
  | dateTime moment => simp_all [names, literalNames]; grind
  | int value => cases member
  | str value => cases member
  | bytes value => cases member

/-- Whether a name can be an operand: keywords cannot, constants apart. -/
def isOperand (word : String) : Bool :=
  !isKeyword word || ["None", "True", "False"].contains word

theorem isOperand_codeNames : ∀ word ∈ codeNames, isOperand word = true :=
  all_eq_true.mp (by decide +kernel)

theorem isOperand_of_not_isReserved {word : String} (free : isReserved word = false) :
    isOperand word = true := by
  have unlisted : word ∉ reserved := by
    simpa [isReserved] using free
  have noKeyword : isKeyword word = false := by
    rw [isKeyword, contains_eq_mem, decide_eq_false_iff_not]
    intro listed
    apply unlisted
    rw [reserved]
    exact mem_append_left _ (mem_append_right _ listed)
  rw [isOperand, noKeyword]
  rfl

/-- Code of a schema whose targets are names of types. -/
theorem compile_derives {scope : Scope} {coerce : Bool} {hint : String} {node : Node}
    (targets : ∀ target ∈ node.mentions false, isIdentifier target = true ∧
      isReserved target = false)
    {diagnostics later : List Diagnostic} {fragment : TypeFragment}
    (compiled : (compile scope coerce hint node).start diagnostics = (.ok fragment, later)) :
    ∃ tokens, lex fragment.code.text = some tokens ∧
      Derives (fun word => isOperand word = true ∧
        (word ∈ codeNames ∨ word ∈ fragment.imports)) .expression tokens := by
  have standard : Standard (· ∈ codeNames) := fun word member => mem_append_left _ member
  have usable (scalar : Scalar) : Usable (· ∈ codeNames) scalar := fun word member =>
    mem_append_right _ (names_subset_literalNames scalar member)
  have formed := compile_formed standard (fun _ _ scalar _ => usable scalar) coerce node
    (fun scalar _ => usable scalar) (fun target member => (targets target member).1) hint
    diagnostics fragment later compiled
  have within := (faithful scope coerce node hint).returns diagnostics fragment later compiled
  obtain ⟨tokens, spells, derives⟩ := formed.code
  refine ⟨tokens, spells.lex, derives.mono fun word bound => ⟨?_, bound⟩⟩
  rcases bound with known | imported
  · exact isOperand_codeNames word known
  · exact isOperand_of_not_isReserved (targets word (within.imports imported)).2

end Code

open Code in
/--
Whatever schema is compiled, once its targets are renamed to assigned names, in
whatever scope and at whatever place, the code is one expression on one line.
It can be read into tokens, so every literal in it is closed and no line break
stands in it; the grammar derives the tokens; and the brackets outside literals
are balanced and nested.  The names outside literals are those that all code
uses and those of imported types, so no text of a document stands there.
-/
theorem Code.compile_is_expression (proposals : List (String × String)) (scope : Scope)
    (coerce : Bool) (hint : String) (node : Node) (diagnostics later : List Diagnostic)
    (fragment : TypeFragment) (known : node.mentions false ⊆ proposals.map Prod.fst)
    (compiled : (compile scope coerce hint
      (node.rename (Naming.assignNames proposals).1)).start diagnostics = (.ok fragment, later)) :
    ∃ tokens, lex fragment.code.text = some tokens ∧
      Derives (fun word => isOperand word = true ∧
        (word ∈ codeNames ∨ word ∈ fragment.imports)) .expression tokens ∧
      isBalanced tokens = true ∧
      ∀ c ∈ fragment.code.text.toList, isLineBreak c = false := by
  have targets : ∀ target ∈ (node.rename (assignNames proposals).1).mentions false,
      isIdentifier target = true ∧ isReserved target = false := by
    intro target mentioned
    rw [Node.mentions_rename, List.mem_map] at mentioned
    obtain ⟨key, mentioned, rfl⟩ := mentioned
    have named : key ∈ (assignNames proposals).1.map Prod.fst := by
      rw [keys_assignNames]
      exact known mentioned
    have member := mem_targetName named
    exact ⟨isIdentifier_assignNames member, (not_reserved_nor_keyword_assignNames member).1⟩
  obtain ⟨tokens, read, derives⟩ := compile_derives targets compiled
  exact ⟨tokens, read, derives, derives.nests.isBalanced, lexFrom_line read⟩

/-- A schema whose texts hold quotes, brackets, line breaks and backslashes. -/
def hostileNode : Node :=
  .object {} [("it's \"it\"\n", .reference {} "#/pet" false),
    ("\x7d) #", .enumeration { default := some (.list [.str "'", .float (.infinity true)]) }
      [.str "\\", .map [(.str "\"", .null)]] false)] ["it's \"it\"\n"] .open false none

theorem Code.compile_is_expression_of_hostile :
    ∃ fragment tokens,
      (Code.compile {} false "Top" (hostileNode.rename
        (Naming.assignNames [("#/pet", "pet")]).1)).start [] = (.ok fragment, []) ∧
      fragment.code.text = "model('Top', \x7b'it\\'s \"it\"\\n': prop(Pet, required=True), " ++
        "'\x7d) #': prop(choice('\\\\', \x7b'\"': None\x7d), default=[\"'\", -inf])\x7d, " ++
        "extra='allow')" ∧
      Code.lex fragment.code.text = some tokens ∧ tokens.count .quoted = 7 ∧
      Code.isBalanced tokens = true := by
  obtain ⟨fragment, later, compiled, seen⟩ : ∃ fragment later,
      (Code.compile {} false "Top" (hostileNode.rename (assignNames [("#/pet", "pet")]).1)).start [] =
        (.ok fragment, later) ∧
      (later, fragment.code.text, (Code.lex fragment.code.text).map (List.count .quoted)) =
        ([], "model('Top', \x7b'it\\'s \"it\"\\n': prop(Pet, required=True), " ++
          "'\x7d) #': prop(choice('\\\\', \x7b'\"': None\x7d), default=[\"'\", -inf])\x7d, " ++
          "extra='allow')", some 7) := Run.start_of_view (by decide +kernel)
  simp only [Prod.mk.injEq] at seen
  obtain ⟨rfl, text, counted⟩ := seen
  obtain ⟨tokens, read, derives, balanced, line⟩ := Code.compile_is_expression
    [("#/pet", "pet")] {} false "Top" hostileNode [] [] fragment (by decide) compiled
  rw [read] at counted
  exact ⟨fragment, tokens, compiled, text, read, Option.some.inj counted, balanced⟩

end Bindery
