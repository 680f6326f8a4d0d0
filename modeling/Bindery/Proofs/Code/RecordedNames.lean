import Bindery.Proofs.Code.Expression

/-!
# Recorded names are the names in the text

What occurs in the tree of a type expression is what occurs in its text.  A bare
name is found by the tokens of the text.  A lazy call is found by its place: the
tokens in front of it fix where it stands, and its literal fixes the name it
defers.

So the dependencies of compiled code are the named types that can be read off its
text, the imports are those that occur bare, and the forward names are those that
occur in lazy calls only.
-/

namespace Bindery

open List Occurrence

namespace Code

open Text

/-! ## Places are fixed by tokens -/

/-- Whether a token is being read that is not finished. -/
def Mode.isPending : Mode → Bool
  | .between => false
  | .word _ => true
  | .number _ => true
  | .inside _ _ => true
  | .behind => false

variable {c : Char} {before other : String} {rest rest' : List Char}

theorem step_isPending {mode next : Mode} {made : List Token} (pending : mode.isPending = true)
    (stepped : mode.step c = some (next, made)) : made ≠ [] ∨ next.isPending = true := by
  cases mode <;> grind [Mode.step, Mode.isPending, Option.map_eq_some_iff]

/-- A token that has been begun is among the tokens of the rest. -/
theorem lexFrom_ne_nil {mode : Mode} (pending : mode.isPending = true) {chars : List Char}
    {tokens : List Token} (read : lexFrom mode chars = some tokens) : tokens ≠ [] := by
  induction chars generalizing mode tokens with
  | nil => cases mode <;> grind [lexFrom, Mode.finish, Mode.isPending]
  | cons c rest ih =>
    obtain ⟨next, made, later, stepped, after, rfl⟩ := lexFrom_cons.mp read
    rcases step_isPending pending stepped with here | onward
    · exact append_ne_nil_of_left_ne_nil here later
    · exact append_ne_nil_of_right_ne_nil made (ih onward after)

variable {front : List Token}

/-- Where the same tokens are read up to two places, and a name begins at the first, there is
nothing between the places. -/
theorem eq_nil_of_leads {between : String} (first : Leads before front)
    (second : Leads (before ++ between) front)
    (named : ∀ c ∈ between.toList.head?, isNameStart c = true) : between.toList = [] := by
  rcases characters : between.toList with _ | ⟨c, rest⟩
  · rfl
  · have opened : opening c = some (.word [c], []) := by
      rw [characters] at named
      simp [opening, named c rfl]
    have onward : (lexFrom (.word [c]) rest).map (front ++ ·) = some front := by
      have whole := second []
      rw [String.toList_append, append_nil, first, characters] at whole
      simpa [lexFrom, Mode.step, opened, Mode.finish, Function.comp_def] using whole
    obtain ⟨tokens, read, same⟩ := Option.map_eq_some_iff.mp onward
    have pending : (Mode.word [c]).isPending = true := rfl
    exact absurd (append_right_eq_self.mp same) (lexFrom_ne_nil pending read)

theorem rest_eq_of_leads {before' : String} (first : Leads before front)
    (second : Leads before' front) (same : before.toList ++ rest = before'.toList ++ rest')
    (named : ∀ c ∈ rest.head?, isNameStart c = true)
    (named' : ∀ c ∈ rest'.head?, isNameStart c = true) : rest = rest' := by
  have narrowed {between : List Char} {more : List Char} {longer shorter : String}
      (leads : Leads shorter front) (further : Leads longer front)
      (split : longer.toList = shorter.toList ++ between)
      (begins : ∀ c ∈ (between ++ more).head?, isNameStart c = true) : between = [] := by
    have spelled : longer = shorter ++ String.ofList between := by
      rw [← String.toList_inj, split, String.toList_append, String.toList_ofList]
    rw [spelled] at further
    have nothing := eq_nil_of_leads leads further fun c member => begins c (by
      rw [String.toList_ofList] at member
      rw [head?_append]
      simp [Option.mem_def.mp member])
    rwa [String.toList_ofList] at nothing
  rcases append_eq_append_iff.mp same with ⟨between, longer, rfl⟩ | ⟨between, longer, rfl⟩
  · rw [narrowed first second longer named, nil_append]
  · rw [narrowed second first longer named', nil_append]

/-! ## Literals of identifiers -/

variable {name : String}

theorem isNameChar_of_mem (identifier : isIdentifier name = true) :
    ∀ c ∈ name.toList, isNameChar c = true := by
  unfold isIdentifier at identifier
  split at identifier
  next => cases identifier
  next first others characters =>
    rw [Bool.and_eq_true, all_eq_true] at identifier
    rw [characters]
    refine forall_mem_cons.mpr ⟨?_, identifier.2⟩
    by_contra stops
    rw [Bool.not_eq_true] at stops
    rw [not_isNameStart stops] at identifier
    cases identifier.1

theorem quote_notMem (identifier : isIdentifier name = true) : '\'' ∉ name.toList := by
  intro member
  exact absurd (isNameChar_of_mem identifier _ member) (by decide)

theorem isPrintable_of_isNameChar (inName : isNameChar c = true) : isPrintable c = true := by
  have range : 32 ≤ c.toNat ∧ c.toNat < 127 := by
    simp only [isNameChar, Char.isAlphanum, Char.isAlpha, Char.isUpper, Char.isLower, Char.isDigit,
      Bool.or_eq_true, Bool.and_eq_true, decide_eq_true_eq, ge_iff_le, UInt32.le_iff_toNat_le,
      beq_iff_eq] at inName
    have bounds : 'A'.val.toNat = 65 ∧ 'Z'.val.toNat = 90 ∧ 'a'.val.toNat = 97 ∧
      'z'.val.toNat = 122 ∧ '0'.val.toNat = 48 ∧ '9'.val.toNat = 57 := by decide
    show 32 ≤ c.val.toNat ∧ c.val.toNat < 127
    rcases inName with ((upper | lower) | digit) | rfl
    · omega
    · omega
    · omega
    · decide
  rw [isPrintable, if_pos range.2, decide_eq_true_eq]
  exact range.1

/-- A character of an identifier stands for itself in a literal. -/
theorem escapeChar_of_isNameChar (inName : isNameChar c = true) : escapeChar '\'' c = [c] := by
  have differs {other : Char} (outside : isNameChar other = false) : c ≠ other := by
    rintro rfl
    rw [inName] at outside
    cases outside
  rw [escapeChar, if_neg (not_or.mpr ⟨differs (by decide), differs (by decide)⟩),
    if_neg (differs (by decide)), if_neg (differs (by decide)), if_neg (differs (by decide)),
    if_pos (isPrintable_of_isNameChar inName)]

theorem toList_quoted (identifier : isIdentifier name = true) :
    (quoted name).toList = '\'' :: (name.toList ++ ['\'']) := by
  have quote : quoteFor name.toList = '\'' := by
    simp [quoteFor, quote_notMem identifier]
  have plain : name.toList.flatMap (escapeChar '\'') = name.toList := by
    have same : name.toList.flatMap (escapeChar '\'') = name.toList.flatMap fun c => [c] :=
      flatMap_congr fun c member =>
        escapeChar_of_isNameChar (isNameChar_of_mem identifier c member)
    rw [same, flatMap_singleton']
  rw [quoted, String.toList_ofList, quoteChars, quote, plain]

theorem eq_of_append_cons {α : Type} {item : α} {first second rest rest' : List α}
    (same : first ++ item :: rest = second ++ item :: rest') (absent : item ∉ first)
    (absent' : item ∉ second) : first = second := by
  rcases eq_append_cons_of_append same with ⟨between, rfl⟩ | ⟨between, front, rfl⟩
  · simp at absent
  · cases between with
    | nil => rw [append_nil]
    | cons head more =>
      obtain ⟨rfl, -⟩ := cons.inj front
      simp at absent'

/-- A lazy call tells which identifier it defers. -/
theorem eq_of_lazy_append (identifier : isIdentifier name = true)
    (identifier' : isIdentifier other = true)
    (same : (lazy name).text.toList ++ rest = (lazy other).text.toList ++ rest') :
    name = other := by
  have printed (name : String) : (lazy name).text = "lazy(" ++ Text.quoted name ++ ")" := rfl
  rw [← String.toList_inj]
  simp only [printed, String.toList_append, toList_quoted identifier,
    toList_quoted identifier', append_assoc, cons_append, append_cancel_left_eq,
    cons.injEq, true_and] at same
  exact eq_of_append_cons same (quote_notMem identifier) (quote_notMem identifier')

/-! ## Occurrences in a text -/

/-- Behind the same tokens stands one lazy call. -/
theorem StandsBehind.eq_of_lazy {text : String} (first : StandsBehind front (lazy name).text text)
    (second : StandsBehind front (lazy other).text text) (identifier : isIdentifier name = true)
    (identifier' : isIdentifier other = true) : name = other := by
  obtain ⟨before, after, rfl, leads, -⟩ := first
  obtain ⟨before', after', same, leads', -⟩ := second
  have characters := congrArg String.toList same
  simp only [String.toList_append, append_assoc] at characters
  have begins (name : String) (rest : List Char) :
      ∀ c ∈ ((lazy name).text.toList ++ rest).head?, isNameStart c = true := by
    intro c member
    have printed : (lazy name).text = "lazy(" ++ Text.quoted name ++ ")" := rfl
    obtain rfl : 'l' = c := by simpa [printed] using member
    rfl
  exact eq_of_lazy_append identifier identifier'
    (rest_eq_of_leads leads leads' characters (begins _ _) (begins _ _))

section Reading

variable {plain : String → Prop} {occurrences : List Occurrence} {form : Form} {text : String}

variable {front inner : List Token} {piece name : String}

theorem StandsBehind.tokens {tokens : List Token} (stands : StandsBehind front piece text)
    (spells : Spells piece inner) (read : lex text = some tokens) :
    ∃ back, tokens = front ++ (inner ++ back) := by
  obtain ⟨before, after, rfl, leads, stops⟩ := stands
  rw [lex, String.toList_append, String.toList_append, append_assoc, leads,
    spells _ stops, Option.map_map] at read
  obtain ⟨back, -, same⟩ := Option.map_eq_some_iff.mp read
  exact ⟨back, same.symm⟩

variable (shown : Shown plain occurrences form text)

include shown

/-- A piece that begins with a name is plain, or an occurrence begins at its place. -/
theorem Shown.accounted {word : String} (stands : StandsBehind front piece text)
    (spells : Spells piece (.name word :: inner)) :
    plain word ∨ ∃ occurrence ∈ occurrences, occurrence.word = word ∧
      StandsBehind front occurrence.text text := by
  obtain ⟨tokens, exhibits, -⟩ := shown
  obtain ⟨back, same⟩ := stands.tokens spells exhibits.spells.lex
  exact exhibits.accounted front word (inner ++ back) same

theorem Shown.bare_iff (identifier : isIdentifier name = true) (special : ¬plain name)
    (other : name ≠ "lazy") : .bare name ∈ occurrences ↔ OccursIn name text := by
  constructor
  · intro member
    obtain ⟨tokens, exhibits, -⟩ := shown
    exact exhibits.present (.bare name) member
  · rintro ⟨front, stands⟩
    rcases shown.accounted stands (spells_name identifier) with usable | found
    · exact absurd usable special
    · obtain ⟨occurrence, member, begins, -⟩ := found
      cases occurrence with
      | bare name' =>
        obtain rfl : name' = name := begins
        exact member
      | lazy name' => exact absurd begins.symm other

theorem Shown.lazy_iff (special : ¬plain "lazy") (unnamed : .bare "lazy" ∉ occurrences)
    (identified : ∀ name, .lazy name ∈ occurrences → isIdentifier name = true)
    (identifier : isIdentifier name = true) :
    .lazy name ∈ occurrences ↔ OccursIn (lazy name).text text := by
  constructor
  · intro member
    obtain ⟨tokens, exhibits, -⟩ := shown
    exact exhibits.present (.lazy name) member
  · rintro ⟨front, stands⟩
    obtain ⟨literal, spells, -⟩ := spells_lazy name
    rcases shown.accounted stands spells with usable | found
    · exact absurd usable special
    · obtain ⟨occurrence, member, begins, there⟩ := found
      cases occurrence with
      | bare name' =>
        obtain rfl : name' = "lazy" := begins
        exact absurd member unnamed
      | lazy name' =>
        have same := stands.eq_of_lazy there identifier (identified name' member)
        rwa [same]

end Reading

/-! ## Compiled code -/

/-- The literal of a scalar of a schema, or of a type in scope, spells a name. -/
def SpelledInLiteral (scope : Scope) (node : Node) (word : String) : Prop :=
  (∃ scalar ∈ node.scalars, word ∈ scalar.names) ∨
    ∃ type ∈ scope.types, ∃ scalar ∈ type.2.scalars, word ∈ scalar.names

theorem not_spelledInLiteral {word : String} (absent : word ∉ literalNames) (scope : Scope)
    (node : Node) : ¬SpelledInLiteral scope node word := by
  rintro (⟨scalar, -, spelled⟩ | ⟨type, -, scalar, -, spelled⟩)
  · exact absent (names_subset_literalNames scalar spelled)
  · exact absent (names_subset_literalNames scalar spelled)

/-- A name in the code of a schema that is not that of a type. -/
def PlainIn (scope : Scope) (node : Node) (word : String) : Prop :=
  word ∈ ownNames ∨ SpelledInLiteral scope node word

theorem isReserved_typeNames : ∀ word ∈ typeNames, Naming.isReserved word = true :=
  all_eq_true.mp (by decide +kernel)

/-- A name that can be given to a type. -/
def IsFinal (name : String) : Prop :=
  isIdentifier name = true ∧ Naming.isReserved name = false

instance (name : String) : Decidable (IsFinal name) :=
  inferInstanceAs (Decidable (_ ∧ _))

theorem IsFinal.notMem_typeNames (final : IsFinal name) : name ∉ typeNames := by
  intro member
  have reserved := isReserved_typeNames name member
  rw [final.2] at reserved
  cases reserved

/--
Whatever schema is compiled, the fragment records what its code contains: its
dependencies are the named types that occur bare or in a lazy call, its imports
are those that occur bare, and its forward names are those that occur in lazy
calls only.  All of them are targets of the schema, and the imports are direct
ones.

If the targets are names that can be given to types, the occurrences can be read
off the text.  This holds for every such name that is not spelled by a literal:
a number that is not finite and the offset of a moment are written with names
that are not reserved, and a reader cannot tell them from names of types.
-/
theorem compile_records_occurrences (scope : Scope) (coerce : Bool) (hint : String) (node : Node)
    (diagnostics later : List Diagnostic) (fragment : TypeFragment)
    (compiled : (compile scope coerce hint node).start diagnostics = (.ok fragment, later)) :
    (∀ name, fragment.Records name (.bare name ∈ fragment.code.occurrences)
      (.lazy name ∈ fragment.code.occurrences)) ∧
    fragment.dependencies ⊆ node.targets ∧ fragment.imports ⊆ node.directTargets ∧
    ((∀ target ∈ node.targets, IsFinal target) → ∀ name, IsFinal name →
      ¬SpelledInLiteral scope node name →
        fragment.Records name (OccursIn name fragment.code.text)
          (OccursIn ("lazy(" ++ quoted name ++ ")") fragment.code.text)) := by
  have basic : Basic (PlainIn scope node) := fun _ => .inl
  have known : ScopeUsable (PlainIn scope node) scope := fun type member scalar inside _ spelled =>
    .inr (.inr ⟨type, member, scalar, inside, spelled⟩)
  have scalars : ∀ scalar ∈ node.scalars, Usable (PlainIn scope node) scalar :=
    fun scalar inside _ spelled => .inr (.inl ⟨scalar, inside, spelled⟩)
  have exact := (compile_gives basic known scalars coerce hint).returns diagnostics fragment later
    compiled
  have within := exact.within
  have dependencies : fragment.dependencies ⊆ node.targets := fun name member =>
    List.mem_eraseDups.mpr (within.dependencies member)
  have imports : fragment.imports ⊆ node.directTargets := fun name member =>
    List.mem_eraseDups.mpr (within.imports member)
  refine ⟨exact.records, dependencies, imports, fun targets name final unspelled => ?_⟩
  have bareFinal {name : String} (bare : .bare name ∈ fragment.code.occurrences) : IsFinal name :=
    targets name (dependencies ((exact.records name).dependencies.mpr (.inl bare)))
  have lazyFinal {name : String} (deferred : .lazy name ∈ fragment.code.occurrences) :
      IsFinal name :=
    targets name (dependencies ((exact.records name).dependencies.mpr (.inr deferred)))
  have sound := exact.code fun name bare => (bareFinal bare).1
  have plainLazy : ¬PlainIn scope node "lazy" :=
    not_or.mpr ⟨by decide, not_spelledInLiteral (by decide) scope node⟩
  have plainName : ¬PlainIn scope node name :=
    not_or.mpr ⟨fun member => final.notMem_typeNames (List.mem_of_mem_erase member), unspelled⟩
  have otherName : name ≠ "lazy" := by
    rintro rfl
    exact final.notMem_typeNames (by decide)
  have bare := sound.bare_iff final.1 plainName otherName
  have deferred := sound.lazy_iff plainLazy
    (fun member => (bareFinal member).notMem_typeNames (by decide))
    (fun name member => (lazyFinal member).1) final.1
  have records := exact.records name
  rw [bare, deferred] at records
  exact records

/-- A schema that mentions one type directly and deferred, one deferred only, one by a mapping
only, and one that is replaced by its values. -/
def mixedNode : Node :=
  .object {} [("pet", .reference {} "Pet" false),
    ("kind", .reference { default := some (.float (.infinity false)) } "Kind" false),
    ("any", .composition {} .oneOf [.reference {} "Pet" true, .reference {} "Cat" true]
      (some { property := "lazy('Kind')", mapping := some [("dog", "Dog"), ("cat", "Cat")] }))]
    [] .open false none

/-- The type that is replaced by its values. -/
def mixedScope : Scope :=
  { types := [("Kind", .enumeration {} [.int 1] false)] }

theorem compile_records_occurrences_of_mixed :
    ∃ fragment, (compile mixedScope true "Top" mixedNode).start [] = (.ok fragment, []) ∧
      fragment.code.text = "model('Top', \x7b'pet': prop(Pet), " ++
        "'kind': prop(Annotated[Literal[1], from_text(int)], default=inf), " ++
        "'any': prop(tagged(\"lazy('Kind')\", \x7b'dog': lazy('Dog'), 'cat': lazy('Cat'), " ++
        "'Pet': lazy('Pet')\x7d))\x7d, extra='allow')" ∧
      fragment.imports = ["Pet"] ∧ fragment.forward = ["Dog", "Cat"] ∧
      fragment.dependencies ⊆ mixedNode.targets ∧
      OccursIn "Pet" fragment.code.text ∧ ¬OccursIn "Cat" fragment.code.text ∧
      OccursIn ("lazy(" ++ quoted "Cat" ++ ")") fragment.code.text ∧
      ¬OccursIn ("lazy(" ++ quoted "Kind" ++ ")") fragment.code.text := by
  obtain ⟨fragment, later, compiled, seen⟩ : ∃ fragment later,
      (compile mixedScope true "Top" mixedNode).start [] = (.ok fragment, later) ∧
      (later, fragment.code.text, fragment.imports, fragment.forward) =
        ([], "model('Top', \x7b'pet': prop(Pet), " ++
          "'kind': prop(Annotated[Literal[1], from_text(int)], default=inf), " ++
          "'any': prop(tagged(\"lazy('Kind')\", \x7b'dog': lazy('Dog'), 'cat': lazy('Cat'), " ++
          "'Pet': lazy('Pet')\x7d))\x7d, extra='allow')", ["Pet"], ["Dog", "Cat"]) :=
    Run.start_of_view (by decide +kernel)
  simp only [Prod.mk.injEq] at seen
  obtain ⟨rfl, text, imports, forward⟩ := seen
  obtain ⟨-, dependencies, -, records⟩ := compile_records_occurrences mixedScope true "Top"
    mixedNode [] [] fragment compiled
  have final : ∀ target ∈ mixedNode.targets, IsFinal target := by decide +kernel
  have pet := records final "Pet" (by decide +kernel) (not_spelledInLiteral (by decide) _ _)
  have cat := records final "Cat" (by decide +kernel) (not_spelledInLiteral (by decide) _ _)
  have kind := records final "Kind" (by decide +kernel) (not_spelledInLiteral (by decide) _ _)
  refine ⟨fragment, compiled, text, imports, forward, dependencies, ?_, ?_, ?_, ?_⟩
  · exact pet.imports.mp (by simp [imports])
  · exact fun bare => absurd (cat.imports.mpr bare) (by simp [imports])
  · exact (cat.forward.mp (by simp [forward])).1
  · intro deferred
    have listed := kind.forward.mpr ⟨deferred, fun bare =>
      absurd (kind.imports.mpr bare) (by simp [imports])⟩
    simp [forward] at listed

end Code

end Bindery
