import Bindery.Proofs.Code.Occurrence
import Bindery.Proofs.Value.Parts

/-!
# Literals

The literal of every value is the text of an expression.  Numbers are read to
their end, however their digits are laid out.  A quoted text never ends its
literal and never breaks the line, whatever characters it holds.  The only names
in a literal are those of constants, of calendar constructors, and those that
stand for doubles that are not finite.
-/

namespace Bindery.Code

open Text List

/-! ## Numbers -/

/-- Characters are read as a number up to some part of it. -/
def ReadsNumber (chars : List Char) (digits : Digits) : Prop :=
  ∀ rest, lexFrom .between (chars ++ rest) = lexFrom (.number digits) rest

variable {chars : List Char} {digits : Digits}

theorem ReadsNumber.written (reads : ReadsNumber chars digits) (complete : digits.isComplete = true)
    {usable : String → Prop} : Written usable .expression (String.ofList chars) := by
  refine ⟨[.number], fun rest stops => ?_, .number⟩
  rw [String.toList_ofList, reads]
  exact (ends_number complete).lexFrom stops

theorem lexFrom_number {next : Digits} {c : Char} (continues : digits.next? c = some next)
    (rest : List Char) : lexFrom (.number digits) (c :: rest) = lexFrom (.number next) rest := by
  simp [lexFrom, Mode.step, continues]

theorem lexFrom_digits (isDigit : ∀ c ∈ chars, c.isDigit = true)
    (complete : digits.isComplete = true) (rest : List Char) :
    lexFrom (.number digits) (chars ++ rest) = lexFrom (.number digits) rest := by
  induction chars with
  | nil => rfl
  | cons c chars ih =>
    obtain ⟨first, others⟩ := List.forall_mem_cons.mp isDigit
    have continues : digits.next? c = some digits := by
      cases digits <;> first | cases complete; done | simp [Digits.next?, first]
    rw [List.cons_append, lexFrom_number continues, ih others]

theorem opening_digit {c : Char} (isDigit : c.isDigit = true) :
    opening c = some (.number .whole, []) := by
  have noLetter : isNameStart c = false := by
    rw [Char.isDigit, Bool.and_eq_true, decide_eq_true_eq, decide_eq_true_eq,
      ge_iff_le, UInt32.le_iff_toNat_le, UInt32.le_iff_toNat_le] at isDigit
    have lastDigit : '9'.val.toNat = 57 := rfl
    have firstCapital : 'A'.val.toNat = 65 := rfl
    have firstSmall : 'a'.val.toNat = 97 := rfl
    simp only [isNameStart, Char.isAlpha, Char.isUpper, Char.isLower, Bool.or_eq_false_iff,
      decide_eq_false_iff_not, ge_iff_le, UInt32.le_iff_toNat_le, beq_eq_false_iff_ne, ne_eq,
      Bool.and_eq_false_imp, decide_eq_true_eq]
    refine ⟨⟨by omega, by omega⟩, ?_⟩
    rintro rfl
    exact absurd isDigit (by decide)
  simp [opening, noLetter, isDigit]

theorem readsNumber_digits (nonempty : chars ≠ []) (isDigit : ∀ c ∈ chars, c.isDigit = true) :
    ReadsNumber chars .whole := by
  intro rest
  obtain ⟨first, others, rfl⟩ := exists_cons_of_ne_nil nonempty
  obtain ⟨here, later⟩ := forall_mem_cons.mp isDigit
  have whole : Digits.whole.isComplete = true := rfl
  have onward := lexFrom_digits later whole rest
  simp [lexFrom, Mode.step, opening_digit here, onward]

theorem readsNumber_fraction {whole fraction : List Char} (nonempty : whole ≠ [])
    (first : ∀ c ∈ whole, c.isDigit = true) (second : ∀ c ∈ fraction, c.isDigit = true) :
    ReadsNumber (whole ++ '.' :: fraction) .fraction := by
  intro rest
  have complete : Digits.fraction.isComplete = true := rfl
  have point : Digits.whole.next? '.' = some .fraction := rfl
  rw [List.append_assoc, readsNumber_digits nonempty first, List.cons_append, lexFrom_number point]
  exact lexFrom_digits second complete rest

theorem ReadsNumber.exponent {exponent : List Char} (reads : ReadsNumber chars digits)
    (marked : digits.next? 'e' = some .exponentMark) {sign : Char}
    (signed : sign = '+' ∨ sign = '-') (nonempty : exponent ≠ [])
    (isDigit : ∀ c ∈ exponent, c.isDigit = true) :
    ReadsNumber (chars ++ 'e' :: sign :: exponent) .exponent := by
  intro rest
  obtain ⟨first, others, rfl⟩ := List.exists_cons_of_ne_nil nonempty
  obtain ⟨here, later⟩ := List.forall_mem_cons.mp isDigit
  have complete : Digits.exponent.isComplete = true := rfl
  have afterMark : Digits.exponentMark.next? sign = some .exponentSign := by
    rcases signed with rfl | rfl
    · rfl
    · rfl
  have afterSign : Digits.exponentSign.next? first = some .exponent := by
    simp [Digits.next?, here]
  rw [List.append_assoc, reads, List.cons_append, List.cons_append, List.cons_append,
    lexFrom_number marked, lexFrom_number afterMark, lexFrom_number afterSign]
  exact lexFrom_digits later complete rest

theorem isDigit_toDigits (n : Nat) : ∀ c ∈ Nat.toDigits 10 n, c.isDigit = true :=
  fun _ member => Nat.isDigit_of_mem_toDigits (by decide) (by decide) member

theorem isDigit_zeros (count : Nat) : ∀ c ∈ replicate count '0', c.isDigit = true := by
  intro c member
  rw [eq_of_mem_replicate member]
  rfl

theorem toList_padded (width n : Nat) : (padded width n).toList ≠ [] ∧
    ∀ c ∈ (padded width n).toList, c.isDigit = true := by
  rw [padded, String.toList_ofList]
  refine ⟨by simp [Nat.toDigits_ne_nil], ?_⟩
  exact forall_mem_append.mpr ⟨isDigit_zeros _, isDigit_toDigits n⟩

/-- However digits are laid out, they are read as one number. -/
theorem readsNumber_layout {digits : List Char} (nonempty : digits ≠ [])
    (isDigit : ∀ c ∈ digits, c.isDigit = true) (power : Int) :
    ∃ part : Digits, part.isComplete = true ∧ ReadsNumber (Double.layout digits power) part := by
  unfold Double.layout
  dsimp only
  generalize leads : (digits.length : Int) + power - 1 = lead
  split
  · refine ⟨.fraction, rfl, ?_⟩
    split
    · have whole := forall_mem_append.mpr ⟨isDigit, isDigit_zeros power.natAbs⟩
      exact readsNumber_fraction (by simp [nonempty]) whole (isDigit_zeros 1)
    · split
      next placed =>
        have positive : (lead + 1).natAbs ≠ 0 := by omega
        exact readsNumber_fraction (by simp [nonempty]; omega)
          (fun c member => isDigit c (mem_of_mem_take member))
          fun c member => isDigit c (mem_of_mem_drop member)
      next =>
        have fraction := forall_mem_append.mpr ⟨isDigit_zeros (lead + 1).natAbs, isDigit⟩
        exact readsNumber_fraction (cons_ne_nil '0' []) (isDigit_zeros 1) fraction
  · obtain ⟨present, exponent⟩ := toList_padded 2 lead.natAbs
    have signed : (if lead < 0 then '-' else '+') = '+' ∨
        (if lead < 0 then '-' else '+') = '-' := by
      split
      · exact .inr rfl
      · exact .inl rfl
    refine ⟨.exponent, rfl, ?_⟩
    split
    next first second rest =>
      obtain ⟨here, later⟩ := forall_mem_cons.mp isDigit
      have lone : ∀ c ∈ [first], c.isDigit = true := by simpa using here
      have fraction := readsNumber_fraction (cons_ne_nil first []) lone later
      exact fraction.exponent rfl signed present exponent
    next => exact (readsNumber_digits nonempty isDigit).exponent rfl signed present exponent

end Bindery.Code

/-! ### Doubles -/

namespace Bindery.Double

def names : Double → List String
  | .nan => ["nan"]
  | .infinity _ => ["inf"]
  | .finite _ _ _ => []

end Bindery.Double

namespace Bindery.Code

open Text String Double

section Numbers

variable {usable : String → Prop}

theorem written_decimal (n : Nat) : Written usable .expression (decimal n) :=
  (readsNumber_digits Nat.toDigits_ne_nil (isDigit_toDigits n)).written rfl

theorem written_integer (n : Int) : Written usable .expression (integer n) := by
  rw [integer]
  split
  · exact written_negative (written_decimal _)
  · exact written_decimal _

/-- A sign in front of a number makes a negation of it. -/
theorem ReadsNumber.written_signed {chars : List Char} {digits : Digits}
    (reads : ReadsNumber chars digits) (complete : digits.isComplete = true) (negative : Bool) :
    Written usable .expression (ofList (if negative then '-' :: chars else chars)) := by
  have plain : Written usable .expression (ofList chars) := reads.written complete
  cases negative with
  | true =>
    have signed : ofList ('-' :: chars) = "-" ++ ofList chars := by
      rw [show "-" = ofList ['-'] from rfl, ← ofList_append]
      rfl
    rw [if_pos rfl, signed]
    exact written_negative plain
  | false => exact plain

theorem written_double {double : Double} (named : ∀ word ∈ double.names, usable word) :
    Written usable .expression double.text := by
  cases double with
  | nan => exact written_name rfl (named "nan" (by simp [names]))
  | infinity negative =>
    have infinite : Written usable .expression "inf" :=
      written_name rfl (named "inf" (by simp [names]))
    cases negative with
    | true => exact written_negative infinite
    | false => exact infinite
  | finite negative mantissa exponent =>
    rw [text]
    generalize shortest mantissa exponent = decimal
    obtain ⟨digits, power⟩ := decimal
    have unsigned : ∃ part : Digits, part.isComplete = true ∧ ReadsNumber
        (if mantissa = 0 then ['0', '.', '0'] else layout (Nat.toDigits 10 digits) power)
          part := by
      split
      · exact ⟨.fraction, rfl, readsNumber_fraction (List.cons_ne_nil '0' []) (isDigit_zeros 1)
          (isDigit_zeros 1)⟩
      · exact readsNumber_layout Nat.toDigits_ne_nil (isDigit_toDigits digits) power
    obtain ⟨part, complete, reads⟩ := unsigned
    exact reads.written_signed complete negative

end Numbers

/-! ## Quoted literals -/

/-- Characters stand inside a literal and do not end it. -/
def StaysInside (quote : Char) (chars : List Char) : Prop :=
  ∀ rest, lexFrom (.inside quote false) (chars ++ rest) = lexFrom (.inside quote false) rest

section Literals

variable {quote : Char}

theorem StaysInside.append {first second : List Char} (left : StaysInside quote first)
    (right : StaysInside quote second) : StaysInside quote (first ++ second) := by
  intro rest
  rw [List.append_assoc, left, right]

theorem StaysInside.flatMap {chars : List Char} {escape : Char → List Char}
    (each : ∀ c, StaysInside quote (escape c)) : StaysInside quote (chars.flatMap escape) := by
  induction chars with
  | nil => exact fun _ => rfl
  | cons c chars ih => exact (each c).append ih

variable {c : Char} {body : List Char} {usable : String → Prop}

theorem staysInside_char (inLine : isLineBreak c = false) (plain : c ≠ '\\') (other : c ≠ quote) :
    StaysInside quote [c] := by
  intro rest
  have unbroken : ¬(c = '\n' ∨ c = '\r') := by simpa [isLineBreak] using inLine
  simp [lexFrom, Mode.step, unbroken, plain, other]

theorem staysInside_escaped (inLine : isLineBreak c = false) : StaysInside quote ['\\', c] := by
  intro rest
  have unbroken : ¬(c = '\n' ∨ c = '\r') := by simpa [isLineBreak] using inLine
  simp [lexFrom, Mode.step, unbroken, Function.comp_def]

theorem hexDigit_plain : ∀ value < 16, isLineBreak (hexDigit value) = false ∧
    hexDigit value ≠ '\\' ∧ isQuote (hexDigit value) = false := by
  decide

section

variable (isQuote : isQuote quote = true)

include isQuote

theorem staysInside_hexDigits (width value : Nat) : StaysInside quote (hexDigits width value) := by
  induction width generalizing value with
  | zero => exact fun _ => rfl
  | succ width ih =>
    obtain ⟨inLine, plain, other⟩ := hexDigit_plain (value % 16) (Nat.mod_lt _ (by decide))
    refine (ih (value / 16)).append (staysInside_char inLine plain ?_)
    rintro same
    rw [same, isQuote] at other
    cases other

theorem staysInside_code {letter : Char} (inLine : isLineBreak letter = false) (width value : Nat) :
    StaysInside quote ('\\' :: letter :: hexDigits width value) :=
  (staysInside_escaped inLine).append (staysInside_hexDigits isQuote width value)

/-- A character that is escaped where it has to be stays inside. -/
theorem staysInside_escape {other : List Char}
    (otherwise : c ≠ quote → c ≠ '\\' → isLineBreak c = false → StaysInside quote other) :
    StaysInside quote (if c = quote ∨ c = '\\' then ['\\', c]
      else if c = '\n' then ['\\', 'n']
      else if c = '\r' then ['\\', 'r']
      else if c = '\t' then ['\\', 't']
      else other) := by
  split
  next special =>
    apply staysInside_escaped
    rcases special with rfl | rfl
    · rcases eq_of_isQuote isQuote with rfl | rfl
      · rfl
      · rfl
    · rfl
  next ordinary =>
    rw [not_or] at ordinary
    split
    · exact staysInside_escaped rfl
    · split
      · exact staysInside_escaped rfl
      · split
        · exact staysInside_escaped rfl
        next noFeed noReturn noTab =>
          refine otherwise ordinary.1 ordinary.2 ?_
          rw [isLineBreak, beq_false_of_ne noFeed, beq_false_of_ne noReturn]
          rfl

theorem staysInside_escapeChar (c : Char) : StaysInside quote (escapeChar quote c) := by
  refine staysInside_escape isQuote fun other plain inLine => ?_
  split
  · exact staysInside_char inLine plain other
  · split
    · exact staysInside_code isQuote rfl 2 c.toNat
    · split
      · exact staysInside_code isQuote rfl 4 c.toNat
      · exact staysInside_code isQuote rfl 8 c.toNat

end

theorem isQuote_quoteFor (text : List Char) : isQuote (quoteFor text) = true := by
  rw [quoteFor]
  split
  · rfl
  · rfl

variable (inside : StaysInside quote body) (isQuote : isQuote quote = true)

include inside isQuote

/-- What stays inside a literal is closed by its quote. -/
theorem StaysInside.lexFrom_closed {rest : List Char} (stops : Stops rest) :
    lexFrom (.inside quote false) (body ++ [quote] ++ rest) =
      (lexFrom .between rest).map (Token.quoted :: ·) := by
  have closes : (Mode.inside quote false).step quote = some (.behind, [.quoted]) := by
    rcases eq_of_isQuote isQuote with rfl | rfl
    · rfl
    · rfl
  rw [List.append_assoc, inside, List.singleton_append, lexFrom, closes, Option.bind_some,
    ends_behind.lexFrom stops]
  simp

theorem StaysInside.written : Written usable .expression (ofList (quote :: (body ++ [quote]))) := by
  refine ⟨[.quoted], fun rest stops => ?_, .quoted⟩
  have opens : opening quote = some (.inside quote false, []) := by
    rcases eq_of_isQuote isQuote with rfl | rfl
    · rfl
    · rfl
  rw [toList_ofList, List.cons_append, lexFrom, Mode.step, opens, Option.bind_some,
    inside.lexFrom_closed isQuote stops]
  simp [Function.comp_def]

theorem StaysInside.written_bytes :
    Written usable .expression (ofList ('b' :: quote :: (body ++ [quote]))) := by
  refine ⟨[.quoted], fun rest stops => ?_, .quoted⟩
  have letter : Mode.between.step 'b' = some (.word ['b'], []) := rfl
  have opens : (Mode.word ['b']).step quote = some (.inside quote false, []) := by
    rcases eq_of_isQuote isQuote with rfl | rfl
    · rfl
    · rfl
  rw [toList_ofList, List.cons_append, List.cons_append, lexFrom, letter,
    Option.bind_some, lexFrom, opens, Option.bind_some, inside.lexFrom_closed isQuote stops]
  simp [Function.comp_def]

end Literals

theorem written_quoted {usable : String → Prop} (text : String) :
    Written usable .expression (quoted text) :=
  (StaysInside.flatMap (staysInside_escapeChar (isQuote_quoteFor text.toList))).written
    (isQuote_quoteFor text.toList)

theorem written_quotedBytes {usable : String → Prop} (bytes : List UInt8) :
    Written usable .expression (quotedBytes bytes) := by
  have isQuote := isQuote_quoteFor (bytes.map fun byte => Char.ofNat byte.toNat)
  refine (StaysInside.flatMap fun c => ?_).written_bytes isQuote
  refine staysInside_escape isQuote fun other plain inLine => ?_
  split
  · exact staysInside_char inLine plain other
  · exact staysInside_code isQuote rfl 2 c.toNat

end Bindery.Code

/-! ## Values -/

namespace Bindery

open Scalar List DateTime

def Scalar.names : Scalar → List String
  | .null => ["None"]
  | .bool value => [if value then "True" else "False"]
  | .int _ => []
  | .float value => value.names
  | .str _ => []
  | .bytes _ => []
  | .date _ => ["datetime", "date"]
  | .dateTime moment =>
    "datetime" :: (if moment.offset.isSome then ["timezone", "utc", "timedelta"] else [])

namespace Code

open Text

variable {usable : String → Prop}

/-- All names in the literal of a scalar are usable. -/
def Usable (usable : String → Prop) (scalar : Scalar) : Prop :=
  ∀ word ∈ scalar.names, usable word

theorem written_member {object word : String} (first : isIdentifier object = true)
    (second : isIdentifier word = true) (named : usable object) (member : usable word) :
    Written usable .expression (object ++ "." ++ word) :=
  ⟨_, (leads_member first).spells_append (spells_name second), .member (.name named) member⟩

theorem written_date {date : Date} (named : Usable usable (.date date)) :
    Written usable .expression date.literal := by
  have function : Written usable .expression ("datetime" ++ "." ++ "date") :=
    written_member rfl rfl (named _ (by simp [names])) (named _ (by simp [names]))
  have numbers : ∀ text ∈ [decimal date.year, decimal date.month, decimal date.day],
      Written usable .expression text := by
    simp [written_decimal]
  have constructed := written_call function numbers (forall_mem_nil _)
  rw [append_nil] at constructed
  exact constructed

/-- The constructor of an offset is a call, or the name of the offset of zero. -/
theorem written_offset (offset : Int) (datetime : usable "datetime") (timezone : usable "timezone")
    (utc : usable "utc") (timedelta : usable "timedelta") :
    Written usable .expression (offsetLiteral offset) := by
  have zone : Written usable .expression ("datetime" ++ "." ++ "timezone") :=
    written_member rfl rfl datetime timezone
  have delta : Written usable .expression ("datetime" ++ "." ++ "timedelta") :=
    written_member rfl rfl datetime timedelta
  have counted (word : String) (identifier : isIdentifier word = true) (count : Int) :
      ∀ text ∈ (if count = 0 then [] else [word ++ "=" ++ integer count]),
        Written usable .keyword text := by
    intro text member
    split at member
    · cases member
    · rw [mem_singleton.mp member]
      exact written_keyword identifier (written_integer count)
  have calls {parts : List String} (keywords : ∀ text ∈ parts, Written usable .keyword text) :
      Written usable .expression
        ("datetime.timezone(datetime.timedelta(" ++ join ", " parts ++ "))") := by
    have inner := written_call delta (forall_mem_nil _) keywords
    have outer := written_call zone (forall_mem_singleton.mpr inner) (forall_mem_nil _)
    have front : "datetime.timezone(datetime.timedelta(" = "datetime" ++ "." ++ "timezone" ++ "(" ++
      "datetime" ++ "." ++ "timedelta" ++ "(" := by decide
    have back : "))" = ")" ++ ")" := by decide
    rw [front, back]
    simpa only [String.append_assoc, join, nil_append, append_nil] using outer
  unfold offsetLiteral
  split
  · have front : Leads ("datetime" ++ "." ++ ("timezone" ++ ".")) _ :=
      (leads_member rfl).append (leads_member rfl)
    have whole : "datetime.timezone.utc" =
      "datetime" ++ "." ++ ("timezone" ++ ".") ++ "utc" := by decide
    have spelled : isIdentifier "utc" = true := rfl
    rw [whole]
    exact ⟨_, front.spells_append (spells_name spelled),
      .member (.member (.name datetime) timezone) utc⟩
  · exact calls (forall_mem_append.mpr
      ⟨counted "days" rfl (offset.fdiv 86400), counted "seconds" rfl (offset.fmod 86400)⟩)

theorem written_zone {moment : DateTime} (named : Usable usable (.dateTime moment)) :
    ∀ text ∈ (match moment.offset with
      | none => []
      | some offset => ["tzinfo=" ++ offsetLiteral offset]),
        Written usable .keyword text := by
  split
  · simp
  next offset known =>
    have more : ∀ word ∈ ["timezone", "utc", "timedelta"], usable word := fun word member =>
      named word (by simpa [names, known] using .inr (by simpa using member))
    have written : Written usable .keyword ("tzinfo" ++ "=" ++ offsetLiteral offset) :=
      written_keyword rfl (written_offset offset (named _ (by simp [names]))
        (more _ (by simp)) (more _ (by simp)) (more _ (by simp)))
    exact forall_mem_singleton.mpr written

theorem written_dateTime {moment : DateTime} (named : Usable usable (.dateTime moment)) :
    Written usable .expression moment.literal := by
  have datetime : usable "datetime" := named _ (by simp [names])
  have function : Written usable .expression ("datetime" ++ "." ++ "datetime") :=
    written_member rfl rfl datetime datetime
  have numbers : ∀ text ∈ [decimal moment.date.year, decimal moment.date.month,
      decimal moment.date.day, decimal moment.hour, decimal moment.minute],
        Written usable .expression text := by
    simp [written_decimal]
  have clock : ∀ text ∈ (if moment.microsecond ≠ 0 then
      [decimal moment.second, decimal moment.microsecond]
      else if moment.second ≠ 0 then [decimal moment.second] else []),
        Written usable .expression text := by
    split
    · simp [written_decimal]
    · split <;> simp [written_decimal]
  have constructed :=
    written_call function (forall_mem_append.mpr ⟨numbers, clock⟩) (written_zone named)
  exact constructed

theorem written_scalar {scalar : Scalar} (named : Usable usable scalar) :
    Written usable .expression scalar.literal := by
  cases scalar with
  | null => exact written_name rfl (named "None" (by simp [names]))
  | bool value =>
    cases value with
    | true => exact written_name rfl (named "True" (by simp [names]))
    | false => exact written_name rfl (named "False" (by simp [names]))
  | int value => exact written_integer value
  | float value => exact written_double named
  | str value => exact written_quoted value
  | bytes value => exact written_quotedBytes value
  | date value => exact written_date named
  | dateTime value => exact written_dateTime named

mutual

theorem written_value : (value : Value) → (∀ scalar ∈ value.scalars, Usable usable scalar) →
    Written usable .expression value.literal
  | .scalar scalar, named => written_scalar (named scalar List.mem_cons_self)
  | .list items, named => by
      rw [Value.literal]
      exact written_list (written_valueList items named)
  | .map entries, named => by
      rw [Value.literal]
      exact written_map (written_valueEntries entries named)

theorem written_valueList : (items : List Value) →
    (∀ scalar ∈ Value.scalarsList items, Usable usable scalar) →
      ∀ text ∈ Value.literalList items, Written usable .expression text
  | [], _ => forall_mem_nil _
  | item :: rest, named => by
      obtain ⟨first, others⟩ := forall_mem_append.mp named
      exact forall_mem_cons.mpr ⟨written_value item first, written_valueList rest others⟩

theorem written_valueEntries : (entries : List (Scalar × Value)) →
    (∀ scalar ∈ Value.scalarsEntries entries, Usable usable scalar) →
      ∀ text ∈ Value.literalEntries entries, Written usable .entry text
  | [], _ => forall_mem_nil _
  | (key, value) :: rest, named => by
      obtain ⟨first, more⟩ := forall_mem_cons.mp named
      obtain ⟨second, others⟩ := forall_mem_append.mp more
      exact forall_mem_cons.mpr
        ⟨written_entry (written_scalar first) (written_value value second),
          written_valueEntries rest others⟩

end

end Code

end Bindery
