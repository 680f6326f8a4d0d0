import Bindery.Proofs.Location.Pointers

/-!
# Addresses

A value has an address in a document: the keys and the indices that lead to it.
An address is written as a pointer, each key or index behind a slash, and the
pointer is followed to the value.  A pointer that is no address of a value leads
nowhere, with two exceptions.  Slashes in front of a pointer are not counted, so
an empty key in front is passed by.  And an index need not be written the way an
address has it: it may have a sign, blanks or underscores.
-/

namespace Bindery

open List Text

namespace Text

variable {c : Char}

theorem decimalDigit?_of_isDigit (digit : c.isDigit = true) :
    decimalDigit? c = some (c.toNat - '0'.toNat) := by
  obtain ⟨low, high⟩ := Char.isDigit_iff_toNat.mp digit
  have inside : (decide (48 ≤ c.toNat) && decide (c.toNat < 48 + 10)) = true := by
    simpa using ⟨low, Nat.lt_succ_of_le high⟩
  unfold decimalDigit? zeroDigits
  simp only [find?, inside]
  rfl

theorem isBlank_of_isDigit (digit : c.isDigit = true) : isBlank c = false := by
  obtain ⟨low, high⟩ := Char.isDigit_iff_toNat.mp digit
  change 48 ≤ c.toNat at low
  change c.toNat ≤ 57 at high
  simp only [isBlank, inRanges, blankRanges]
  grind

theorem readDigits?_cons (digit : c.isDigit = true) (afterDigit : Bool) (value : Nat)
    (rest : List Char) :
    readDigits? afterDigit value (c :: rest) =
      readDigits? true (10 * value + (c.toNat - '0'.toNat)) rest := by
  have other : c ≠ '_' := by
    rintro rfl
    cases digit
  rw [readDigits?, if_neg other, decimalDigit?_of_isDigit digit, Nat.mul_comm]

theorem readDigits?_digits {chars : List Char} (digits : ∀ c ∈ chars, c.isDigit = true)
    (value : Nat) : readDigits? true value chars = some (Nat.ofDigitChars 10 chars value) := by
  induction chars generalizing value with
  | nil => rfl
  | cons c rest ih =>
    rw [readDigits?_cons (digits c mem_cons_self), Nat.ofDigitChars_cons]
    exact ih (fun c inside => digits c (mem_cons_of_mem _ inside)) _

theorem trim_of_isDigit {text : String} (digits : ∀ c ∈ text.toList, c.isDigit = true) :
    trim text = text := by
  have kept (chars : List Char) (digits : ∀ c ∈ chars, c.isDigit = true) :
      chars.dropWhile isBlank = chars := by
    cases chars with
    | nil => rfl
    | cons c rest =>
      rw [dropWhile_cons, isBlank_of_isDigit (digits c mem_cons_self)]
      rfl
  rw [trim, dropEndWhile, kept _ digits, kept _ (by simpa using digits), reverse_reverse,
    String.ofList_toList]

theorem readInteger?_decimal (n : Nat) : readInteger? (decimal n) = some (n : Int) := by
  have digits : ∀ c ∈ Nat.toDigits 10 n, c.isDigit = true := fun _ member =>
    Nat.isDigit_of_mem_toDigits (by decide) (by decide) member
  have value : Nat.ofDigitChars 10 (Nat.toDigits 10 n) 0 = n := Nat.ofDigitChars_ten_toDigits
  unfold readInteger?
  rw [trim_of_isDigit (by simpa [decimal] using digits), decimal, String.toList_ofList]
  generalize written : Nat.toDigits 10 n = chars at digits value ⊢
  cases chars with
  | nil => exact absurd written Nat.toDigits_ne_nil
  | cons c rest =>
    have digit := digits c mem_cons_self
    have read : readDigits? false 0 (c :: rest) = some n := by
      rw [readDigits?_cons digit, ← readDigits?_cons digit true, readDigits?_digits digits, value]
    split
    next minus =>
      cases minus
      exact absurd digit (by decide)
    next plus =>
      cases plus
      exact absurd digit (by decide)
    next =>
      rw [read]
      rfl

end Text

namespace Pointer

/-- One step of an address: a key of a map, or an index of a list. -/
inductive Step where
  | key (name : String)
  | index (position : Nat)

def Step.text : Step → String
  | .key name => name
  | .index position => decimal position

/-- The value that an address leads to. -/
def valueAt? : Value → List Step → Option Value
  | value, [] => some value
  | .map entries, .key name :: rest => (Entries.get? name entries).bind (valueAt? · rest)
  | .list items, .index position :: rest => items[position]?.bind (valueAt? · rest)
  | _, _ :: _ => none

/-- The pointer that is made of some texts, each escaped and behind a slash. -/
def ofTexts : List String → String
  | [] => ""
  | text :: rest => "/" ++ escape text ++ ofTexts rest

def ofSteps (steps : List Step) : String :=
  ofTexts (steps.map Step.text)

theorem ofTexts_cons (first : String) (rest : List String) :
    ofTexts (first :: rest) = "/" ++ join "/" ((first :: rest).map escape) := by
  induction rest generalizing first with
  | nil => simp [ofTexts, join]
  | cons next others ih =>
    rw [ofTexts, ih next]
    simp [join, String.append_assoc]

/-- The texts of a pointer are found again, unless the first is empty. -/
theorem segments_ofTexts {texts : List String} (present : texts.head? ≠ some "") :
    segments (ofTexts texts) = texts := by
  cases texts with
  | nil => rfl
  | cons first rest =>
    have filled : escape first ≠ "" := by
      intro empty
      apply present
      rw [head?_cons, ← unescape_escape first, empty]
      rfl
    rw [ofTexts_cons, map_cons, segments_join filled, ← map_cons, map_map]
    · simp [Function.comp_def, unescape_escape]
    · intro piece member
      obtain ⟨text, -, rfl⟩ := mem_map.mp (map_cons ▸ member)
      exact slash_notMem_escape text

theorem item?_natCast (items : List Value) (position : Nat) :
    item? items position = items[position]? := by
  rw [item?, if_pos (Int.natCast_nonneg position), Int.natAbs_natCast]

variable {reference : String} {document value : Value}

theorem walk_texts {steps : List Step} (found : valueAt? document steps = some value) :
    walk reference document (steps.map Step.text) = .ok value := by
  induction steps generalizing document with
  | nil => exact congrArg Except.ok (Option.some.inj found)
  | cons step rest ih =>
    cases document with
    | scalar => cases step <;> cases found
    | map entries =>
      cases step with
      | key name =>
        obtain ⟨part, there, further⟩ := Option.bind_eq_some_iff.mp found
        rw [map_cons, Step.text, walk, Pointer.step, there]
        exact ih further
      | index position => cases found
    | list items =>
      cases step with
      | key name => cases found
      | index position =>
        obtain ⟨part, there, further⟩ := Option.bind_eq_some_iff.mp found
        rw [map_cons, Step.text, walk, Pointer.step, readInteger?_decimal,
          Option.bind_some, item?_natCast, there]
        exact ih further

/-- A text that is read as an integer, and is not the way a position is written. -/
def IsOddIndex (text : String) : Prop :=
  (readInteger? text).isSome ∧ ∀ position, text ≠ decimal position

/-- Texts that lead to a value are those of an address, if each list on the way is met with a
position. -/
theorem steps_of_walk {texts : List String} (walked : walk reference document texts = .ok value)
    (regular : ∀ front text back items, texts = front ++ text :: back →
      walk reference document front = .ok (.list items) → ¬IsOddIndex text) :
    ∃ steps : List Step, steps.map Step.text = texts ∧ valueAt? document steps = some value := by
  induction texts generalizing document with
  | nil => exact ⟨[], rfl, congrArg some (Except.ok.inj walked)⟩
  | cons text rest ih =>
    rw [walk] at walked
    cases taken : step reference document text with
    | error fault =>
      rw [taken] at walked
      cases walked
    | ok part =>
      rw [taken] at walked
      obtain ⟨steps, rfl, found⟩ := ih walked fun front other back items same met =>
        regular (text :: front) other back items (congrArg _ same) (by rw [walk, taken]; exact met)
      cases document with
      | scalar => cases taken
      | map entries =>
        have there : Entries.get? text entries = some part := by
          unfold step at taken
          dsimp only at taken
          split at taken
          next there => rw [there, Except.ok.inj taken]
          next => cases taken
        exact ⟨.key text :: steps, rfl, by rw [valueAt?, there]; exact found⟩
      | list items =>
        have there : (readInteger? text).bind (item? items) = some part := by
          unfold step at taken
          dsimp only at taken
          split at taken
          next there => rw [there, Except.ok.inj taken]
          next => cases taken
        obtain ⟨index, read, inside⟩ := Option.bind_eq_some_iff.mp there
        have even := regular [] text _ items rfl rfl
        obtain ⟨position, rfl⟩ : ∃ position, text = decimal position := by
          by_contra other
          exact even ⟨by rw [read]; rfl, not_exists.mp other⟩
        rw [readInteger?_decimal] at read
        obtain rfl := Option.some.inj read
        rw [item?_natCast] at inside
        exact ⟨.index position :: steps, rfl, by rw [valueAt?, inside]; exact found⟩

theorem head?_texts {steps : List Step} (present : steps.head? ≠ some (.key "")) :
    (steps.map Step.text).head? ≠ some "" := by
  cases steps with
  | nil => exact nofun
  | cons step rest =>
    intro empty
    cases step with
    | key name => exact present (by rw [head?_cons, ← Option.some.inj empty]; rfl)
    | index position =>
      have digits : String.ofList (Nat.toDigits 10 position) = "" := Option.some.inj empty
      exact Nat.toDigits_ne_nil (String.ofList_eq_empty_iff.mp digits)

/-- A value is found by the pointer of its address, and a pointer that is no address leads nowhere,
unless the address has an empty key in front or an index is written in another way than a position
is.  Slashes in front are passed by. -/
theorem resolve_address (reference : String) (document : Value) :
    (∀ steps value, steps.head? ≠ some (.key "") → valueAt? document steps = some value →
      resolve reference document (ofSteps steps) = .ok value) ∧
    (∀ texts, texts.head? ≠ some "" →
      (∀ front text back items, texts = front ++ text :: back →
        resolve reference document (ofTexts front) = .ok (.list items) → ¬IsOddIndex text) →
      (∀ steps, ofSteps steps = ofTexts texts → valueAt? document steps = none) →
      ∃ fault, resolve reference document (ofTexts texts) = .error fault) ∧
    (∀ pointer, pointer ≠ "" → pointer ≠ "/" →
      resolve reference document ("/" ++ pointer) = resolve reference document pointer) ∧
    resolve reference document "/" = .ok document := by
  refine ⟨?_, ?_, ?_, ?_⟩
  · intro steps value present found
    rw [resolve, ofSteps, segments_ofTexts (head?_texts present)]
    exact walk_texts found
  · intro texts present regular unaddressed
    rw [resolve, segments_ofTexts present]
    cases walked : walk reference document texts with
    | error fault => exact ⟨fault, rfl⟩
    | ok value =>
      obtain ⟨steps, rfl, found⟩ := steps_of_walk walked fun front text back items same met =>
        regular front text back items same (by
          rw [resolve, segments_ofTexts, met]
          cases front with
          | nil => exact nofun
          | cons => rwa [same] at present)
      rw [unaddressed steps rfl] at found
      cases found
  · intro pointer filled long
    have empty : ¬("/" ++ pointer = "" ∨ "/" ++ pointer = "/") := by
      simpa using filled
    rw [resolve, resolve, segments, segments, if_neg empty, if_neg (not_or.mpr ⟨filled, long⟩)]
    simp
  · rfl

/-- An empty key in front is passed by, and an index may count from the end. -/
theorem empty_key_passed :
    let document : Value := .map [(.str "", .map [(.str "a", .int 1)]), (.str "a", .int 2)]
    valueAt? document [.key "", .key "a"] = some (.int 1) ∧
      resolve "" document (ofSteps [.key "", .key "a"]) = .ok (.int 2) ∧
      IsOddIndex "-1" ∧ resolve "" (.list [.int 1]) "/-1" = .ok (.int 1) := by
  refine ⟨by decide +kernel, by decide +kernel, ⟨by decide +kernel, ?_⟩, by decide +kernel⟩
  intro position same
  have read := congrArg Text.readInteger? same
  rw [Text.readInteger?_decimal, show Text.readInteger? "-1" = some (-1) by decide +kernel] at read
  cases Option.some.inj read

end Pointer

end Bindery
