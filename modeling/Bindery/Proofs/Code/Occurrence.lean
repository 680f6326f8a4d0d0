import Bindery.Code.TypeExpr
import Bindery.Proofs.Code.Spelling

/-!
# Named types in code

Code mentions a named type by its bare name, or by its quoted name in a lazy
call.  A piece of code occurs in a text if it begins at the end of a token, so
what stands in literals or in longer names does not count.

A text shows some occurrences if each of them occurs in it, and every name that
is read from it is a plain one or begins one of them.  Texts that are put together
show the occurrences of all parts.
-/

namespace Bindery

open List

/-- How code mentions a named type: by its bare name, or by its quoted name in a lazy call. -/
inductive Occurrence where
  | bare (name : String)
  | lazy (name : String)
deriving DecidableEq

namespace Occurrence

def text : Occurrence → String
  | .bare name => name
  | .lazy name => "lazy(" ++ Text.quoted name ++ ")"

def word : Occurrence → String
  | .bare name => name
  | .lazy _ => "lazy"

end Occurrence

namespace TypeExpr

mutual

/-- The occurrences of named types in a type expression, with repetitions. -/
def occurrences : TypeExpr → List Occurrence
  | .any => []
  | .none => []
  | .base _ => []
  | .marked inner _ => occurrences inner
  | .formatted _ inner => occurrences inner
  | .literal _ => []
  | .choice _ => []
  | .list item => occurrences item
  | .dict item => occurrences item
  | .optional inner => occurrences inner
  | .union members => occurrencesList members
  | .oneOf members => occurrencesList members
  | .allOf members => occurrencesList members
  | .tagged _ branches => occurrencesBranches branches
  | .model _ properties _ extra => occurrencesProperties properties ++ occurrencesExtra extra
  | .named name => [.bare name]
  | .lazy name => [.lazy name]

def occurrencesList : List TypeExpr → List Occurrence
  | [] => []
  | member :: rest => occurrences member ++ occurrencesList rest

def occurrencesBranches : List (Scalar × TypeExpr) → List Occurrence
  | [] => []
  | (_, branch) :: rest => occurrences branch ++ occurrencesBranches rest

def occurrencesProperties : List (String × TypeExpr × Presence) → List Occurrence
  | [] => []
  | (_, type, _) :: rest => occurrences type ++ occurrencesProperties rest

def occurrencesExtra : Option TypeExpr → List Occurrence
  | Option.none => []
  | some type => occurrences type

end

theorem occurrencesList_eq_flatMap (members : List TypeExpr) :
    occurrencesList members = members.flatMap occurrences := by
  induction members with
  | nil => rfl
  | cons member rest ih => rw [occurrencesList, ih, flatMap_cons]

theorem occurrencesBranches_eq_flatMap (branches : List (Scalar × TypeExpr)) :
    occurrencesBranches branches = branches.flatMap fun branch => occurrences branch.2 := by
  induction branches with
  | nil => rfl
  | cons branch rest ih => rw [occurrencesBranches, ih, flatMap_cons]

theorem occurrencesProperties_eq_flatMap (properties : List (String × TypeExpr × Presence)) :
    occurrencesProperties properties =
      properties.flatMap fun property => occurrences property.2.1 := by
  induction properties with
  | nil => rfl
  | cons property rest ih => rw [occurrencesProperties, ih, flatMap_cons]

theorem occurrencesExtra_eq_flatMap (extra : Option TypeExpr) :
    occurrencesExtra extra = extra.toList.flatMap occurrences := by
  cases extra with
  | none => rfl
  | some type => simp [occurrencesExtra]

@[simp] theorem occurrences_mark (inner : TypeExpr) (marks : List Mark) :
    (inner.mark marks).occurrences = inner.occurrences := by
  rw [mark]
  split
  · rfl
  · rw [occurrences]

end TypeExpr

namespace Code

open Text

/-! ## Places in a text -/

/-- A piece of code stands in a text behind some tokens: the text in front of it is read as them,
and what follows it may follow an expression. -/
def StandsBehind (front : List Token) (piece text : String) : Prop :=
  ∃ before after, text = before ++ piece ++ after ∧ Leads before front ∧ Stops after.toList

def OccursIn (piece text : String) : Prop :=
  ∃ front, StandsBehind front piece text

theorem leads_empty : Leads "" [] := by
  intro rest
  simp

theorem stops_nil : Stops [] := by
  simp [Stops]

theorem Stops.append_stops {front rest : List Char} (first : Stops front) (second : Stops rest) :
    Stops (front ++ rest) := by
  cases front with
  | nil => exact second
  | cons c front => exact first.append (cons_ne_nil c front) rest

theorem standsBehind_self (piece : String) : StandsBehind [] piece piece :=
  ⟨"", "", by simp, leads_empty, stops_nil⟩

variable {front : List Token} {text name : String} {pieces : List (String × List Occurrence)}

/-- What stands in a part stands in the whole, behind the tokens in front of the part. -/
theorem StandsBehind.inside {inner : List Token} {piece before after : String}
    (stands : StandsBehind inner piece text) (leads : Leads before front)
    (stops : Stops after.toList) :
    StandsBehind (front ++ inner) piece (before ++ text ++ after) := by
  obtain ⟨first, last, rfl, opened, closed⟩ := stands
  refine ⟨before ++ first, last ++ after, ?_, leads.append opened, ?_⟩
  · simp only [String.append_assoc]
  · rw [String.toList_append]
    exact closed.append_stops stops

/-! ## Texts that exhibit occurrences -/

/-- A text spells tokens and exhibits occurrences: a name among the tokens is plain or begins an
occurrence at its place, and all occurrences are there. -/
structure Exhibits (plain : String → Prop) (occurrences : List Occurrence) (text : String)
    (tokens : List Token) : Prop where
  spells : Spells text tokens
  accounted : ∀ front word back, tokens = front ++ .name word :: back →
    plain word ∨ ∃ occurrence ∈ occurrences, occurrence.word = word ∧
      StandsBehind front occurrence.text text
  present : ∀ occurrence ∈ occurrences, OccursIn occurrence.text text

theorem eq_append_cons_of_append {α : Type} {left right front back : List α} {item : α}
    (same : left ++ right = front ++ item :: back) :
    (∃ rest, left = front ++ item :: rest) ∨
      ∃ rest, right = rest ++ item :: back ∧ front = left ++ rest := by
  rcases append_eq_append_iff.mp same with ⟨rest, early, late⟩ | ⟨rest, early, late⟩
  · exact .inr ⟨rest, late, early⟩
  · cases rest with
    | nil => exact .inr ⟨[], late.symm, by simpa using early.symm⟩
    | cons head rest =>
      obtain ⟨rfl, -⟩ := cons.inj late
      exact .inl ⟨rest, early⟩

section Exhibiting

variable {plain : String → Prop} {occurrences others : List Occurrence}

theorem exhibits_empty : Exhibits plain [] "" [] where
  spells := leads_empty.spells
  accounted := by simp
  present := forall_mem_nil _

theorem Spells.exhibits {tokens : List Token} (spells : Spells text tokens)
    (named : ∀ word, .name word ∈ tokens → plain word) : Exhibits plain [] text tokens where
  spells := spells
  accounted _ word _ same := .inl (named word (by simp [same]))
  present := forall_mem_nil _

theorem exhibits_bare (identifier : isIdentifier name = true) :
    Exhibits plain [.bare name] name [.name name] where
  spells := spells_name identifier
  accounted front word back same := by
    obtain ⟨rfl, rfl⟩ : front = [] ∧ word = name := by
      cases front with
      | nil =>
        obtain ⟨same, -⟩ := cons.inj same
        exact ⟨rfl, (Token.name.inj same).symm⟩
      | cons head rest => simp at same
    exact .inr ⟨.bare word, mem_singleton_self _, rfl, standsBehind_self word⟩
  present := forall_mem_singleton.mpr ⟨[], standsBehind_self name⟩

variable {glue : String}

/-- Parts with a separator between them exhibit the occurrences of both. -/
theorem Exhibits.join {first second : String} {left middle right : List Token}
    (front : Exhibits plain occurrences first left) (separator : Leads glue middle)
    (nameless : ∀ word, .name word ∉ middle) (nonempty : glue.toList ≠ [])
    (stops : Stops glue.toList) (back : Exhibits plain others second right) :
    Exhibits plain (occurrences ++ others) (first ++ glue ++ second)
      (left ++ middle ++ right) := by
  have opened : Leads (first ++ glue) (left ++ middle) :=
    front.spells.leads_append separator nonempty stops
  have early {inner : List Token} {piece : String} (stands : StandsBehind inner piece first) :
      StandsBehind inner piece (first ++ glue ++ second) := by
    have follows : Stops (glue ++ second).toList := by
      rw [String.toList_append]
      exact stops.append nonempty _
    simpa [String.append_assoc] using stands.inside leads_empty follows
  have late {inner : List Token} {piece : String} (stands : StandsBehind inner piece second) :
      StandsBehind (left ++ middle ++ inner) piece (first ++ glue ++ second) := by
    have ended : Stops "".toList := stops_nil
    simpa using stands.inside opened ended
  refine ⟨opened.spells_append back.spells, fun inner word rest same => ?_, ?_⟩
  · rcases eq_append_cons_of_append same with ⟨_, within⟩ | ⟨_, within, rfl⟩
    · rcases eq_append_cons_of_append within with ⟨_, here⟩ | ⟨_, between, -⟩
      · refine (front.accounted _ _ _ here).imp_right ?_
        rintro ⟨occurrence, member, begins, stands⟩
        exact ⟨occurrence, List.mem_append_left _ member, begins, early stands⟩
      · exact absurd (by simp [between]) (nameless word)
    · refine (back.accounted _ _ _ within).imp_right ?_
      rintro ⟨occurrence, member, begins, stands⟩
      exact ⟨occurrence, List.mem_append_right _ member, begins, late stands⟩
  · refine List.forall_mem_append.mpr ⟨fun occurrence member => ?_, fun occurrence member => ?_⟩
    · obtain ⟨inner, stands⟩ := front.present occurrence member
      exact ⟨inner, early stands⟩
    · obtain ⟨inner, stands⟩ := back.present occurrence member
      exact ⟨_, late stands⟩

/-- What is put in front of a text without names of its own changes no occurrence. -/
theorem Exhibits.lead {tokens : List Token} (exhibits : Exhibits plain occurrences text tokens)
    (opens : Leads glue front) (nameless : ∀ word, .name word ∉ front) :
    Exhibits plain occurrences (glue ++ text) (front ++ tokens) := by
  have stands {inner : List Token} {piece : String} (stands : StandsBehind inner piece text) :
      StandsBehind (front ++ inner) piece (glue ++ text) := by
    have ended : Stops "".toList := stops_nil
    simpa using stands.inside opens ended
  refine ⟨opens.spells_append exhibits.spells, fun inner word rest same => ?_,
    fun occurrence member => ?_⟩
  · rcases eq_append_cons_of_append same with ⟨_, within⟩ | ⟨_, within, rfl⟩
    · exact absurd (by simp [within]) (nameless word)
    · refine (exhibits.accounted _ _ _ within).imp_right ?_
      rintro ⟨occurrence, member, begins, there⟩
      exact ⟨occurrence, member, begins, stands there⟩
  · obtain ⟨inner, there⟩ := exhibits.present occurrence member
    exact ⟨_, stands there⟩

/-- Parts in a list exhibit the occurrences of all of them. -/
theorem exhibits_join {parts : List (List Token)}
    (each : List.Forall₂ (fun piece part => Exhibits plain piece.2 piece.1 part) pieces parts) :
    Exhibits plain (pieces.flatMap (·.2)) (Text.join ", " (pieces.map (·.1)))
      (separated parts) := by
  induction each with
  | nil => exact exhibits_empty
  | cons first later ih =>
    cases later with
    | nil => simpa [Text.join, separated] using first
    | cons next rest =>
      have comma : Leads ", " [.mark ','] := leads_spaced rfl rfl
      have whole := first.join comma (by simp) (by decide) (stops_cons rfl _) ih
      simpa [Text.join, separated, List.intercalate_cons_cons] using whole

variable {tokens : List Token} {parts : List (List Token)} {opened closed : String}
  {sign last : Char}

theorem Exhibits.close (exhibits : Exhibits plain occurrences text tokens)
    (closes : closed.toList = [last]) (stop : isStop last = true) :
    Exhibits plain occurrences (text ++ closed) (tokens ++ [.mark last]) := by
  have stops : Stops closed.toList := closes ▸ stops_cons stop []
  simpa using exhibits.join (leads_stop closes stop) (by simp) (by simp [closes]) stops
    exhibits_empty

theorem exhibits_enclosed (opens : Leads opened [.mark sign]) (closes : closed.toList = [last])
    (stop : isStop last = true)
    (each : Forall₂ (fun piece part => Exhibits plain piece.2 piece.1 part) pieces parts) :
    Exhibits plain (pieces.flatMap (·.2)) (opened ++ Text.join ", " (pieces.map (·.1)) ++ closed)
      (enclosed sign last parts) :=
  ((exhibits_join each).lead opens (by simp)).close closes stop

/-- Parts in brackets behind a text exhibit the occurrences of all. -/
theorem Exhibits.bracketed (front : Exhibits plain occurrences text tokens)
    (opens : opened.toList = [sign]) (closes : closed.toList = [last])
    (stop : isStop sign = true ∧ isStop last = true)
    (each : Forall₂ (fun piece part => Exhibits plain piece.2 piece.1 part) pieces parts) :
    Exhibits plain (occurrences ++ pieces.flatMap (·.2))
      (text ++ opened ++ Text.join ", " (pieces.map (·.1)) ++ closed)
      (tokens ++ enclosed sign last parts) := by
  have stops : Stops opened.toList := opens ▸ stops_cons stop.1 []
  have inside := front.join (leads_stop opens stop.1) (by simp) (by simp [opens]) stops
    (exhibits_join each)
  simpa [enclosed] using inside.close closes stop.2

end Exhibiting

/-! ## Texts that show occurrences -/

/-- A name that is plain or begins an occurrence. -/
def Begins (plain : String → Prop) (occurrences : List Occurrence) (word : String) : Prop :=
  plain word ∨ ∃ occurrence ∈ occurrences, occurrence.word = word

/-- A text of a form of the grammar exhibits occurrences. -/
def Shown (plain : String → Prop) (occurrences : List Occurrence) (form : Form)
    (text : String) : Prop :=
  ∃ tokens, Exhibits plain occurrences text tokens ∧ Derives (Begins plain occurrences) form tokens

section Showing

variable {plain : String → Prop} {occurrences others : List Occurrence} {form : Form}

theorem Begins.mono {word : String} (begins : Begins plain occurrences word)
    (more : occurrences ⊆ others) : Begins plain others word := by
  refine begins.imp_right ?_
  rintro ⟨occurrence, member, same⟩
  exact ⟨occurrence, more member, same⟩

theorem Written.shown (written : Written plain form text) : Shown plain [] form text := by
  obtain ⟨tokens, spells, derives⟩ := written
  exact ⟨tokens, spells.exhibits fun _ => derives.usable_of_mem,
    derives.mono fun word usable => .inl usable⟩

theorem Shown.written (shown : Shown plain occurrences form text) :
    Written (Begins plain occurrences) form text := by
  obtain ⟨tokens, exhibits, derives⟩ := shown
  exact ⟨tokens, exhibits.spells, derives⟩

theorem Shown.written_of_nil (shown : Shown plain [] form text) : Written plain form text :=
  shown.written.mono fun _ begins => begins.resolve_right (by simp)

theorem shown_bare (identifier : isIdentifier name = true) :
    Shown plain [.bare name] .expression name :=
  ⟨_, exhibits_bare identifier, .name (.inr ⟨.bare name, mem_singleton_self _, rfl⟩)⟩

theorem shown_keyword {word : String} (identifier : isIdentifier word = true)
    (value : Shown plain occurrences .expression text) :
    Shown plain occurrences .keyword (word ++ "=" ++ text) := by
  obtain ⟨tokens, exhibits, derives⟩ := value
  exact ⟨_, exhibits.lead (leads_argument identifier) (by simp), .keyword derives⟩

theorem shown_entry {key value : String} (left : Written plain .expression key)
    (right : Shown plain occurrences .expression value) :
    Shown plain occurrences .entry (key ++ ": " ++ value) := by
  obtain ⟨first, exhibits, derives⟩ := left.shown
  obtain ⟨second, exhibits', derives'⟩ := right
  have colon : Leads ": " [.mark ':'] := leads_spaced rfl rfl
  have whole := exhibits.join colon (by simp) (by decide) (stops_cons rfl _) exhibits'
  refine ⟨_, whole, ?_⟩
  rw [List.append_assoc]
  exact .entry (derives.mono fun _ begins => begins.mono (List.nil_subset _)) derives'

theorem exists_pieces (each : ∀ piece ∈ pieces, Shown plain piece.2 form piece.1) :
    ∃ parts, Forall₂ (fun piece part => Exhibits plain piece.2 piece.1 part) pieces parts ∧
      ∀ part ∈ parts, Derives (Begins plain (pieces.flatMap (·.2))) form part := by
  induction pieces with
  | nil => exact ⟨[], .nil, forall_mem_nil _⟩
  | cons piece rest ih =>
    obtain ⟨⟨tokens, exhibits, derives⟩, others⟩ := forall_mem_cons.mp each
    obtain ⟨parts, exhibited, derived⟩ := ih others
    rw [flatMap_cons]
    refine ⟨tokens :: parts, .cons exhibits exhibited, forall_mem_cons.mpr ⟨?_, ?_⟩⟩
    · exact derives.mono fun _ begins => begins.mono (subset_append_left _ _)
    · exact fun part member => (derived part member).mono fun _ begins =>
        begins.mono (subset_append_right _ _)

def plainPieces (texts : List String) : List (String × List Occurrence) :=
  texts.map fun text => (text, [])

theorem plainPieces_append (first second : List String) :
    plainPieces (first ++ second) = plainPieces first ++ plainPieces second :=
  map_append

@[simp] theorem map_plainPieces (texts : List String) : (plainPieces texts).map (·.1) = texts := by
  simp [plainPieces, Function.comp_def]

@[simp] theorem flatMap_plainPieces (texts : List String) :
    (plainPieces texts).flatMap (·.2) = [] := by
  simp [plainPieces]

theorem shown_plainPieces {texts : List String} (each : ∀ text ∈ texts, Written plain form text) :
    ∀ piece ∈ plainPieces texts, Shown plain piece.2 form piece.1 :=
  forall_mem_map.mpr fun text member => (each text member).shown

variable {function object : String} {values named : List (String × List Occurrence)}

theorem shown_call (called : Written plain .expression function)
    (positional : ∀ piece ∈ values, Shown plain piece.2 .expression piece.1)
    (keywords : ∀ piece ∈ named, Shown plain piece.2 .keyword piece.1) :
    Shown plain ((values ++ named).flatMap (·.2)) .expression
      (function ++ "(" ++ join ", " ((values ++ named).map (·.1)) ++ ")") := by
  obtain ⟨tokens, exhibits, derives⟩ := called.shown
  obtain ⟨first, exhibited, derived⟩ := exists_pieces positional
  obtain ⟨second, exhibited', derived'⟩ := exists_pieces keywords
  refine ⟨_, exhibits.bracketed rfl rfl ⟨rfl, rfl⟩ (rel_append exhibited exhibited'),
    .call ?_ (fun part member => ?_) fun part member => ?_⟩
  · exact derives.mono fun _ begins => begins.mono (nil_subset _)
  · exact (derived part member).mono fun _ begins => begins.mono (by simp)
  · exact (derived' part member).mono fun _ begins => begins.mono (by simp)

theorem shown_index (indexed : Written plain .expression object) (nonempty : values ≠ [])
    (each : ∀ piece ∈ values, Shown plain piece.2 .expression piece.1) :
    Shown plain (values.flatMap (·.2)) .expression
      (object ++ "[" ++ join ", " (values.map (·.1)) ++ "]") := by
  obtain ⟨tokens, exhibits, derives⟩ := indexed.shown
  obtain ⟨parts, exhibited, derived⟩ := exists_pieces each
  have present : parts ≠ [] := by
    rintro rfl
    cases exhibited
    exact nonempty rfl
  refine ⟨_, exhibits.bracketed rfl rfl ⟨rfl, rfl⟩ exhibited, .index ?_ present derived⟩
  exact derives.mono fun _ begins => begins.mono (nil_subset _)

theorem shown_list (each : ∀ piece ∈ values, Shown plain piece.2 .expression piece.1) :
    Shown plain (values.flatMap (·.2)) .expression
      ("[" ++ join ", " (values.map (·.1)) ++ "]") := by
  obtain ⟨parts, exhibited, derived⟩ := exists_pieces each
  exact ⟨_, exhibits_enclosed (leads_mark rfl rfl) rfl rfl exhibited, .list derived⟩

theorem shown_map (each : ∀ piece ∈ values, Shown plain piece.2 .entry piece.1) :
    Shown plain (values.flatMap (·.2)) .expression
      ("\x7b" ++ join ", " (values.map (·.1)) ++ "\x7d") := by
  obtain ⟨parts, exhibited, derived⟩ := exists_pieces each
  exact ⟨_, exhibits_enclosed (leads_mark rfl rfl) rfl rfl exhibited, .map derived⟩

/-! ### Texts without occurrences -/

variable {texts keywords : List String}

theorem written_keyword {word : String} (identifier : isIdentifier word = true)
    (value : Written plain .expression text) : Written plain .keyword (word ++ "=" ++ text) :=
  (shown_keyword identifier value.shown).written_of_nil

theorem written_entry {key value : String} (left : Written plain .expression key)
    (right : Written plain .expression value) : Written plain .entry (key ++ ": " ++ value) :=
  (shown_entry left right.shown).written_of_nil

theorem written_call (called : Written plain .expression function)
    (positional : ∀ text ∈ texts, Written plain .expression text)
    (named : ∀ text ∈ keywords, Written plain .keyword text) :
    Written plain .expression (function ++ "(" ++ join ", " (texts ++ keywords) ++ ")") := by
  have whole := shown_call called (shown_plainPieces positional) (shown_plainPieces named)
  rw [← plainPieces_append, flatMap_plainPieces, map_plainPieces] at whole
  exact whole.written_of_nil

theorem written_index (indexed : Written plain .expression object) (nonempty : texts ≠ [])
    (each : ∀ text ∈ texts, Written plain .expression text) :
    Written plain .expression (object ++ "[" ++ join ", " texts ++ "]") := by
  have whole := shown_index indexed (by simpa [plainPieces] using nonempty) (shown_plainPieces each)
  rw [flatMap_plainPieces, map_plainPieces] at whole
  exact whole.written_of_nil

theorem written_list (each : ∀ text ∈ texts, Written plain .expression text) :
    Written plain .expression ("[" ++ join ", " texts ++ "]") := by
  have whole := shown_list (shown_plainPieces each)
  rw [flatMap_plainPieces, map_plainPieces] at whole
  exact whole.written_of_nil

theorem written_map (each : ∀ text ∈ texts, Written plain .entry text) :
    Written plain .expression ("\x7b" ++ join ", " texts ++ "\x7d") := by
  have whole := shown_map (shown_plainPieces each)
  rw [flatMap_plainPieces, map_plainPieces] at whole
  exact whole.written_of_nil

end Showing

end Code

end Bindery
