import Bindery.Number.Double
import Bindery.Value.Calendar

/-!
# Document values

The values documents are made of.  A map is the list of its entries in the order of
the document, and its keys are scalars, because YAML allows other keys than text.
That no key is there twice is a predicate beside the type.
-/

namespace Bindery

open List

inductive Scalar where
  | null
  | bool (value : Bool)
  | int (value : Int)
  | float (value : Double)
  | str (value : String)
  | bytes (value : List UInt8)
  | date (value : Date)
  | dateTime (value : DateTime)
deriving DecidableEq, Repr

inductive Value where
  | scalar (value : Scalar)
  | list (items : List Value)
  | map (entries : List (Scalar × Value))
deriving Repr, Inhabited

abbrev Entries := List (Scalar × Value)

namespace Value

@[match_pattern]
abbrev null : Value := .scalar .null

@[match_pattern]
abbrev bool (value : Bool) : Value := .scalar (.bool value)

@[match_pattern]
abbrev int (value : Int) : Value := .scalar (.int value)

@[match_pattern]
abbrev float (value : Double) : Value := .scalar (.float value)

@[match_pattern]
abbrev str (value : String) : Value := .scalar (.str value)

mutual

def decEq : (a b : Value) → Decidable (a = b)
  | .scalar a, .scalar b =>
    if same : a = b then isTrue (same ▸ rfl) else isFalse fun h => same (Value.scalar.inj h)
  | .list a, .list b =>
    match decEqList a b with
    | isTrue same => isTrue (same ▸ rfl)
    | isFalse differ => isFalse fun h => differ (Value.list.inj h)
  | .map a, .map b =>
    match decEqEntries a b with
    | isTrue same => isTrue (same ▸ rfl)
    | isFalse differ => isFalse fun h => differ (Value.map.inj h)
  | .scalar _, .list _ => isFalse nofun
  | .scalar _, .map _ => isFalse nofun
  | .list _, .scalar _ => isFalse nofun
  | .list _, .map _ => isFalse nofun
  | .map _, .scalar _ => isFalse nofun
  | .map _, .list _ => isFalse nofun

def decEqList : (a b : List Value) → Decidable (a = b)
  | [], [] => isTrue rfl
  | [], _ :: _ => isFalse nofun
  | _ :: _, [] => isFalse nofun
  | a :: as, b :: bs =>
    match decEq a b, decEqList as bs with
    | isTrue head, isTrue tail => isTrue (head ▸ tail ▸ rfl)
    | isFalse differ, _ => isFalse fun h => differ (cons.inj h).1
    | _, isFalse differ => isFalse fun h => differ (cons.inj h).2

def decEqEntries : (a b : List (Scalar × Value)) → Decidable (a = b)
  | [], [] => isTrue rfl
  | [], _ :: _ => isFalse nofun
  | _ :: _, [] => isFalse nofun
  | (k, a) :: as, (l, b) :: bs =>
    if key : k = l then
      match decEq a b, decEqEntries as bs with
      | isTrue head, isTrue tail => isTrue (key ▸ head ▸ tail ▸ rfl)
      | isFalse differ, _ => isFalse fun h => differ (Prod.mk.inj (cons.inj h).1).2
      | _, isFalse differ => isFalse fun h => differ (cons.inj h).2
    else isFalse fun h => key (Prod.mk.inj (cons.inj h).1).1

end

instance : DecidableEq Value := decEq

end Value

namespace Entries

def get? (name : String) : Entries → Option Value
  | [] => none
  | (key, value) :: rest => if key = .str name then some value else get? name rest

def has (name : String) (entries : Entries) : Bool :=
  (get? name entries).isSome

/-- Puts a value under a text key: in place if the key is present, at the end if not. -/
def set (name : String) (value : Value) : Entries → Entries
  | [] => [(.str name, value)]
  | (key, old) :: rest =>
    if key = .str name then (key, value) :: rest else (key, old) :: set name value rest

def erase (name : String) (entries : Entries) : Entries :=
  entries.filter fun entry => entry.1 ≠ .str name

def keys (entries : Entries) : List Scalar :=
  entries.map (·.1)

end Entries

namespace Value

/-- The value under a text key of a map; other values have no keys. -/
def get? (value : Value) (name : String) : Option Value :=
  match value with
  | .map entries => Entries.get? name entries
  | _ => none

mutual

/-- The number of nodes of a value, which bounds every walk over it. -/
def weight : Value → Nat
  | .scalar _ => 1
  | .list items => 1 + weightList items
  | .map entries => 1 + weightEntries entries

def weightList : List Value → Nat
  | [] => 0
  | item :: rest => weight item + weightList rest

def weightEntries : List (Scalar × Value) → Nat
  | [] => 0
  | (_, value) :: rest => weight value + weightEntries rest

end

theorem weight_pos (value : Value) : 0 < value.weight := by
  cases value <;> simp only [weight] <;> omega

theorem weight_lt_of_mem {item : Value} {items : List Value} (member : item ∈ items) :
    item.weight < (Value.list items).weight := by
  simp only [weight]
  induction items with
  | nil => cases member
  | cons head tail ih =>
    simp only [weightList]
    rcases mem_cons.mp member with same | later
    · subst same; omega
    · have := ih later; omega

theorem weight_lt_of_mem_entries {key : Scalar} {value : Value} {entries : Entries}
    (member : (key, value) ∈ entries) : value.weight < (Value.map entries).weight := by
  simp only [weight]
  induction entries with
  | nil => cases member
  | cons head tail ih =>
    obtain ⟨headKey, headValue⟩ := head
    simp only [weightEntries]
    rcases mem_cons.mp member with same | later
    · obtain ⟨rfl, rfl⟩ := Prod.mk.inj same; omega
    · have := ih later; omega

end Value

theorem Entries.mem_of_get? {name : String} {entries : Entries} {value : Value}
    (found : entries.get? name = some value) : (Scalar.str name, value) ∈ entries := by
  induction entries with
  | nil => simp [get?] at found
  | cons head tail ih =>
    obtain ⟨key, old⟩ := head
    simp only [get?] at found
    split at found
    next same => subst same; cases found; exact mem_cons_self
    next => exact mem_cons_of_mem _ (ih found)

theorem Value.weight_lt_of_get? {value part : Value} {name : String}
    (found : value.get? name = some part) : part.weight < value.weight := by
  cases value with
  | map entries => exact weight_lt_of_mem_entries (Entries.mem_of_get? found)
  | scalar _ => simp [get?] at found
  | list _ => simp [get?] at found

end Bindery
