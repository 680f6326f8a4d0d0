import Bindery.Location.Basic
import Mathlib.Data.List.Infix

/-!
# Names in pointers

A name becomes a segment of a pointer by escaping its tildes and slashes, and
reading the escapes of the segment gives the name again.  Where the pointer is
part of a reference, the percent escapes of the reference are read before.  They
are not written for a name, so only a name that holds none of them is found
again: a percent sign is harmless unless two hexadecimal digits stand behind it.
-/

namespace Bindery

open Text List UInt8

variable {chars : List Char} {text first : String} {rest : List String}

namespace Text

variable {separator : Char}

theorem splitChars_of_notMem (absent : separator ∉ chars) :
    splitChars separator chars = [chars] := by
  induction chars with
  | nil => rfl
  | cons c rest ih =>
    rw [mem_cons, not_or] at absent
    rw [splitChars, if_neg (Ne.symm absent.1), ih absent.2]

theorem splitChars_append {front : List Char} (absent : separator ∉ front) (back : List Char) :
    splitChars separator (front ++ separator :: back) = front :: splitChars separator back := by
  induction front with
  | nil => simp [splitChars]
  | cons c rest ih =>
    rw [mem_cons, not_or] at absent
    rw [cons_append, splitChars, if_neg (Ne.symm absent.1), ih absent.2]

theorem split_of_notMem (absent : separator ∉ text.toList) : split separator text = [text] := by
  rw [split, splitChars_of_notMem absent, map_singleton, String.ofList_toList]

/-- Texts without slashes are found again between the slashes of the joined text. -/
theorem split_join (absent : ∀ piece ∈ first :: rest, '/' ∉ piece.toList) :
    split '/' (join "/" (first :: rest)) = first :: rest := by
  induction rest generalizing first with
  | nil => exact split_of_notMem (absent first mem_cons_self)
  | cons next others ih =>
    have onward := ih fun piece member => absent piece (mem_cons_of_mem _ member)
    have spelled : (join "/" (first :: next :: others)).toList =
        first.toList ++ '/' :: (join "/" (next :: others)).toList := by
      simp [join]
    rw [split, spelled, splitChars_append (absent first mem_cons_self), map_cons,
      String.ofList_toList]
    exact congrArg _ onward

end Text

/-! ## Segments -/

namespace Pointer

theorem unescapeChars_escape (chars : List Char) :
    unescapeChars (chars.flatMap escapeChar) = chars := by
  induction chars with
  | nil => rfl
  | cons c rest ih =>
    rw [flatMap_cons, escapeChar]
    split
    next tilde => simp [unescapeChars, ih, tilde]
    next other =>
      split
      next slash => simp [unescapeChars, ih, slash]
      next => simp [unescapeChars, other, ih]

/-- A name is read from the segment it is written as. -/
theorem unescape_escape (name : String) : unescape (escape name) = name := by
  rw [unescape, escape, String.toList_ofList, unescapeChars_escape, String.ofList_toList]

/-- A segment without tildes stands for itself. -/
theorem unescape_of_notMem {segment : String} (absent : '~' ∉ segment.toList) :
    unescape segment = segment := by
  have same : ∀ chars : List Char, '~' ∉ chars → unescapeChars chars = chars := by
    intro chars absent
    induction chars with
    | nil => rfl
    | cons c rest ih =>
      rw [mem_cons, not_or] at absent
      simp [unescapeChars, Ne.symm absent.1, ih absent.2]
  rw [unescape, same _ absent, String.ofList_toList]

theorem slash_notMem_escape (name : String) : '/' ∉ (escape name).toList := by
  rw [escape, String.toList_ofList, mem_flatMap]
  rintro ⟨c, -, inside⟩
  unfold escapeChar at inside
  split at inside
  next => simp at inside
  next =>
    split at inside
    next => simp at inside
    next other => exact other (mem_singleton.mp inside).symm

theorem segments_join (present : first ≠ "") (absent : ∀ piece ∈ first :: rest, '/' ∉ piece.toList) :
    segments ("/" ++ join "/" (first :: rest)) = (first :: rest).map unescape := by
  obtain ⟨c, chars, spelled⟩ : ∃ c chars, first.toList = c :: chars :=
    List.exists_cons_of_ne_nil (mt String.toList_eq_nil_iff.mp present)
  obtain ⟨others, behind⟩ : ∃ others, (join "/" (first :: rest)).toList = c :: others := by
    cases rest with
    | nil => exact ⟨chars, spelled⟩
    | cons next others => simp [join, spelled]
  have other : c ≠ '/' := by
    rintro rfl
    exact absent first List.mem_cons_self (spelled ▸ List.mem_cons_self)
  have whole : ("/" ++ join "/" (first :: rest)).toList = '/' :: c :: others := by
    simp [behind]
  have long : ¬("/" ++ join "/" (first :: rest) = "" ∨
      "/" ++ join "/" (first :: rest) = "/") := by
    rintro (empty | short)
    · simpa [whole] using congrArg String.toList empty
    · simpa [whole] using congrArg String.toList short
  have dropped : ("/" ++ join "/" (first :: rest)).toList.dropWhile (· == '/') =
      (join "/" (first :: rest)).toList := by
    rw [whole, behind]
    simp [other]
  rw [segments, if_neg long]
  dsimp only
  rw [dropped, String.ofList_toList, split_join absent]

end Pointer

/-! ## Percent escapes -/

namespace Location

open Text (hexValue?)

/-- Characters without percent escapes: no percent sign stands before two hexadecimal digits. -/
def Plain (chars : List Char) : Prop :=
  ∀ high low, ['%', high, low] <:+: chars → hexValue? high = none ∨ hexValue? low = none

variable {chars : List Char}

theorem Plain.of_infix {part : List Char} (plain : Plain chars) (inside : part <:+: chars) :
    Plain part :=
  fun high low escape => plain high low (escape.trans inside)

variable {front : List Char}

/-- What stands before a text does not matter if there is no percent sign in it. -/
theorem Plain.append {back : List Char} (absent : '%' ∉ front) (plain : Plain back) :
    Plain (front ++ back) := by
  induction front with
  | nil => exact plain
  | cons c rest ih =>
    rw [mem_cons, not_or] at absent
    intro high low escape
    rcases infix_cons_iff.mp escape with starts | later
    · exact absurd (cons_prefix_cons.mp starts).1 absent.1
    · exact ih absent.2 high low later

theorem percentBytes_of_plain (plain : Plain chars) :
    percentBytes chars = chars.map fun c => ofNat c.toNat := by
  fun_induction percentBytes chars with
  | case1 high low rest first second isHigh isLow ih =>
    have none := plain high low (IsPrefix.isInfix ⟨rest, rfl⟩)
    simp [isHigh, isLow] at none
  | case2 high low rest _ ih =>
    rw [ih (plain.of_infix (suffix_cons ..).isInfix)]
    rfl
  | case3 c rest _ ih =>
    rw [ih (plain.of_infix (suffix_cons ..).isInfix)]
    rfl
  | case4 => rfl

theorem percentBytes_append (absent : '%' ∉ front) (back : List Char) :
    percentBytes (front ++ back) =
      (front.map fun c => ofNat c.toNat) ++ percentBytes back := by
  induction front with
  | nil => rfl
  | cons c rest ih =>
    rw [mem_cons, not_or] at absent
    rw [cons_append, percentBytes, ih absent.2]
    · rfl
    · rintro _ _ _ rfl
      exact absurd rfl absent.1

/-- Characters below 128 are read from their bytes. -/
theorem utf8Chars_append (ascii : ∀ c ∈ front, c.toNat < 128) (bytes : List UInt8) :
    utf8Chars ((front.map fun c => ofNat c.toNat) ++ bytes) =
      front.map some ++ utf8Chars bytes := by
  induction front with
  | nil => rfl
  | cons c rest ih =>
    have small : c.toNat < 128 := ascii c mem_cons_self
    have byte : (ofNat c.toNat).toNat = c.toNat := by
      rw [toNat_ofNat']
      omega
    have lead : utf8Lead c.toNat = some (0, 0, 0, c.toNat) := if_pos small
    rw [map_cons, cons_append, utf8Chars, byte, lead]
    simp only [utf8Rest, Option.map_some, Char.ofNat_toNat, map_cons, cons_append]
    rw [ih fun other member => ascii other (mem_cons_of_mem _ member)]

/-- Reading a stretch without percent escapes leaves it as it is. -/
theorem ofUtf8Lenient_percentBytes (plain : Plain chars) (ascii : ∀ c ∈ chars, c.toNat < 128) :
    (ofUtf8Lenient (percentBytes chars)).toList = chars := by
  have read := utf8Chars_append ascii []
  rw [List.append_nil, utf8Chars, List.append_nil] at read
  rw [ofUtf8Lenient, percentBytes_of_plain plain, read, String.toList_ofList, List.map_map]
  exact List.map_id' chars

theorem percentDecodeFrom_of_plain {stretch : List Char} (plain : Plain (stretch.reverse ++ chars))
    (ascii : ∀ c ∈ stretch, c.toNat < 128) :
    percentDecodeFrom stretch chars = stretch.reverse ++ chars := by
  induction chars generalizing stretch with
  | nil =>
    rw [append_nil] at plain ⊢
    exact ofUtf8Lenient_percentBytes plain (by simpa using ascii)
  | cons c rest ih =>
    rw [percentDecodeFrom]
    split
    next small =>
      rw [ih (by simpa using plain) (by simpa using ⟨small, ascii⟩)]
      simp
    next =>
      have before : Plain stretch.reverse := plain.of_infix (prefix_append _ _).isInfix
      have after : Plain (([] : List Char).reverse ++ rest) :=
        plain.of_infix ((suffix_cons c rest).trans (suffix_append _ _)).isInfix
      rw [ofUtf8Lenient_percentBytes before (by simpa using ascii), ih after (by simp)]
      rfl

theorem percentDecode_of_plain (plain : Plain text.toList) : percentDecode text = text := by
  rw [percentDecode, percentDecodeFrom_of_plain plain (by simp)]
  exact String.ofList_toList

/-- Reading percent escapes leaves a stretch in front without percent signs as it is. -/
theorem ofUtf8Lenient_append (absent : '%' ∉ front) (ascii : ∀ c ∈ front, c.toNat < 128)
    (back : List Char) :
    (ofUtf8Lenient (percentBytes (front ++ back))).toList =
      front ++ (ofUtf8Lenient (percentBytes back)).toList := by
  rw [ofUtf8Lenient, percentBytes_append absent, utf8Chars_append ascii, ofUtf8Lenient,
    String.toList_ofList, String.toList_ofList, List.map_append, List.map_map]
  exact congrArg (· ++ _) (List.map_id' front)

theorem percentDecodeFrom_append (absent : '%' ∉ front) (ascii : ∀ c ∈ front, c.toNat < 128)
    (stretch chars : List Char) :
    percentDecodeFrom (stretch ++ front.reverse) chars =
      front ++ percentDecodeFrom stretch chars := by
  have turned (stretch : List Char) :
      (stretch ++ front.reverse).reverse = front ++ stretch.reverse := by simp
  induction chars generalizing stretch with
  | nil =>
    rw [percentDecodeFrom, percentDecodeFrom, turned, ofUtf8Lenient_append absent ascii]
  | cons c rest ih =>
    rw [percentDecodeFrom, percentDecodeFrom]
    split
    next => exact ih (c :: stretch)
    next => rw [turned, ofUtf8Lenient_append absent ascii, List.append_assoc]

/-- The percent escapes of a text are read behind a front that holds none. -/
theorem percentDecode_append {front : String} (absent : '%' ∉ front.toList)
    (ascii : ∀ c ∈ front.toList, c.toNat < 128) (text : String) :
    percentDecode (front ++ text) = front ++ percentDecode text := by
  have gathered (chars stretch : List Char) (small : ∀ c ∈ chars, c.toNat < 128) :
      percentDecodeFrom stretch (chars ++ text.toList) =
        percentDecodeFrom (chars.reverse ++ stretch) text.toList := by
    induction chars generalizing stretch with
    | nil => rfl
    | cons c rest ih =>
      rw [cons_append, percentDecodeFrom, if_pos (small c mem_cons_self),
        ih _ fun other member => small other (mem_cons_of_mem _ member)]
      simp
  have read := percentDecodeFrom_append absent ascii [] text.toList
  rw [percentDecode, String.toList_append, gathered _ _ ascii, append_nil]
  rw [nil_append] at read
  rw [read, percentDecode, String.ofList_append, String.ofList_toList]

end Location

namespace Pointer

open Location (Plain)
open Text (hexValue?)

/-- A segment that begins with a hexadecimal digit is written for a name that does. -/
theorem prefix_of_prefix_escape {c : Char} {more : List Char} (digit : hexValue? c ≠ none)
    (starts : c :: more <+: chars.flatMap escapeChar) :
    ∃ rest, chars = c :: rest ∧ more <+: rest.flatMap escapeChar := by
  cases chars with
  | nil => simp at starts
  | cons first rest =>
    rw [flatMap_cons, escapeChar] at starts
    split at starts
    next =>
      have tilde := (cons_prefix_cons.mp starts).1
      exact absurd (tilde ▸ by decide : hexValue? c = none) digit
    next =>
      split at starts
      next =>
        have tilde := (cons_prefix_cons.mp starts).1
        exact absurd (tilde ▸ by decide : hexValue? c = none) digit
      next =>
        obtain ⟨rfl, behind⟩ := cons_prefix_cons.mp starts
        exact ⟨rest, rfl, behind⟩

theorem infix_of_infix_escape {high low : Char} (first : hexValue? high ≠ none)
    (second : hexValue? low ≠ none) (inside : ['%', high, low] <:+: chars.flatMap escapeChar) :
    ['%', high, low] <:+: chars := by
  -- A percent escape cannot begin inside what a tilde or a slash is written as.
  have skipped {c : Char} {more : List Char} (other : c ≠ '%')
      (inside : ['%', high, low] <:+: c :: more) : ['%', high, low] <:+: more :=
    (infix_cons_iff.mp inside).resolve_left fun starts =>
      other (cons_prefix_cons.mp starts).1.symm
  induction chars with
  | nil => simp at inside
  | cons c rest ih =>
    rw [flatMap_cons, escapeChar] at inside
    split at inside
    next => exact infix_cons (ih (skipped (by decide) (skipped (by decide) inside)))
    next =>
      split at inside
      next => exact infix_cons (ih (skipped (by decide) (skipped (by decide) inside)))
      next =>
        rcases infix_cons_iff.mp inside with starts | later
        · obtain ⟨rfl, behind⟩ := cons_prefix_cons.mp starts
          obtain ⟨rest, rfl, onward⟩ := prefix_of_prefix_escape first behind
          obtain ⟨rest, rfl, -⟩ := prefix_of_prefix_escape second onward
          exact IsPrefix.isInfix ⟨rest, rfl⟩
        · exact infix_cons (ih later)

theorem plain_escape {name : String} (plain : Plain name.toList) : Plain (escape name).toList := by
  rw [escape, String.toList_ofList]
  intro high low inside
  by_contra digits
  rw [not_or] at digits
  exact (plain high low (infix_of_infix_escape digits.1 digits.2 inside)).elim digits.1 digits.2

end Pointer

/-- A reference without a location leads into the document it stands in. -/
theorem Reference.ofText_pointer (working : List String) (pointer base : String) :
    Reference.ofText working ("#" ++ pointer) base =
      .ok { location := base, pointer := Location.percentDecode pointer } := by
  have cut : cut '#' ("#" ++ pointer) = ("", some pointer) := by
    simp [cut, cutChars]
  simp only [Reference.ofText, cut]
  rfl

end Bindery
