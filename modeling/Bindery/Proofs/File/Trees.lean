import Mathlib.Data.List.Basic
import Mathlib.Data.List.Induction
import Bindery.File.Disk

/-!
# Places of a file tree

A tree is closed if everything in it stands in a directory.  Then the directories
on the way to an item are there, and below a place where nothing stands there is
nothing.  A path without double dots leads to the place that its names give, and
it can be walked as soon as the directories before its last name are there.

What an operation does to a tree is said by what stands at each place after it.
-/

namespace Bindery

open List FileTree Option

variable {Key Item : Type}

theorem lookup_filter_key [BEq Key] [LawfulBEq Key] (keeps : Key → Bool) (items : List (Key × Item))
    (key : Key) : (items.filter fun item => keeps item.1).lookup key =
      if keeps key then items.lookup key else none := by
  induction items with
  | nil => simp
  | cons item rest ih =>
    obtain ⟨first, value⟩ := item
    by_cases same : key = first
    · subst same
      by_cases kept : keeps key = true
      · simp [kept]
      · simp [ih, kept]
    · have apart : (key == first) = false := beq_false_of_ne same
      by_cases kept : keeps first = true
      · simp [lookup_cons, kept, apart, ih]
      · simp [lookup_cons, kept, apart, ih]

theorem lookup_map_key [BEq Key] [LawfulBEq Key] (change : Key → Key) {items : List (Key × Item)}
    {key former : Key} (same : ∀ item ∈ items, change item.1 = key ↔ item.1 = former) :
    (items.map fun item => (change item.1, item.2)).lookup key = items.lookup former := by
  induction items with
  | nil => rfl
  | cons item rest ih =>
    obtain ⟨first, value⟩ := item
    have others := ih fun other member => same other (mem_cons_of_mem _ member)
    have here : change first = key ↔ first = former := same (first, value) mem_cons_self
    by_cases found : first = former
    · have found' := here.mpr found
      subst found found'
      simp
    · have apart : (former == first) = false := beq_false_of_ne (Ne.symm found)
      have apart' : (key == change first) = false :=
        beq_false_of_ne fun again => found (here.mp again.symm)
      simp [lookup_cons, apart, apart', others]

theorem lookup_map_set [BEq Key] [LawfulBEq Key] [DecidableEq Key] (items : List (Key × Item))
    (key : Key) (value : Item) (other : Key) :
    (items.map fun item => if item.1 = key then (key, value) else item).lookup other =
      if other = key then (items.lookup key).map fun _ => value else items.lookup other := by
  induction items with
  | nil => simp
  | cons item rest ih =>
    obtain ⟨first, former⟩ := item
    rw [map_cons]
    by_cases same : other = key
    · subst same
      by_cases here : first = other
      · simp [here]
      · have apart : (other == first) = false := beq_false_of_ne (Ne.symm here)
        rw [if_pos rfl] at ih ⊢
        simp [lookup_cons, here, apart, ih]
    · rw [if_neg same] at ih ⊢
      by_cases here : first = key
      · simp [lookup_cons, here, beq_false_of_ne same, ih]
      · simp [lookup_cons, here, ih]

theorem lookup_eq_none_of_notMem [BEq Key] [LawfulBEq Key] {items : List (Key × Item)} {key : Key}
    (absent : ∀ item ∈ items, item.1 ≠ key) : items.lookup key = none := by
  rw [lookup_eq_none_iff]
  intro item member
  exact bne_iff_ne.mpr (Ne.symm (absent item member))

theorem prefix_dropLast_iff {names above : List String} (named : names ≠ [])
    (strict : above ≠ names) : above <+: names.dropLast ↔ above <+: names := by
  have parts := @List.prefix_concat_iff _ above names.dropLast (names.getLast named)
  rw [dropLast_concat_getLast named] at parts
  rw [parts, or_iff_right strict]

namespace FileTree

variable {tree : FileTree} {place : List String}

/-! ## What stands at a place -/

@[simp]
theorem item?_nil (tree : FileTree) : tree.item? [] = some .directory := by
  simp [item?]

theorem item?_of_ne_nil (tree : FileTree) (inner : place ≠ []) :
    tree.item? place = tree.items.lookup place := by
  simp [item?, inner]

theorem has_of_mem {item : List String × FileItem} (member : item ∈ tree.items) :
    tree.has item.1 = true := by
  by_cases inner : item.1 = []
  · simp [has, inner]
  · rw [has, item?_of_ne_nil tree inner, lookup_isSome_iff]
    exact ⟨item, member, by simp⟩

theorem has_of_item? {item : FileItem} (found : tree.item? place = some item) :
    tree.has place = true := by
  rw [has, found]
  rfl

theorem item?_of_not_has (missing : tree.has place = false) : tree.item? place = none := by
  simpa [has] using missing

theorem ne_nil_of_not_has (missing : tree.has place = false) : place ≠ [] := by
  rintro rfl
  simp [has] at missing

/-! ## Closed trees -/

def IsClosed (tree : FileTree) : Prop :=
  ∀ item ∈ tree.items, tree.item? item.1.dropLast = some .directory

/-- There are directories at a place and on the way to it. -/
def IsOpen (tree : FileTree) (place : List String) : Prop :=
  ∀ above, above <+: place → tree.item? above = some .directory

section

variable (closed : tree.IsClosed)

include closed

theorem IsClosed.parent (present : tree.has place = true) :
    tree.item? place.dropLast = some .directory := by
  by_cases inner : place = []
  · simp [inner]
  · rw [has, item?_of_ne_nil tree inner, lookup_isSome_iff] at present
    obtain ⟨item, member, same⟩ := present
    rw [eq_of_beq same]
    exact closed item member

theorem IsClosed.above {before after : List String} (proper : after ≠ [])
    (present : tree.has (before ++ after) = true) : tree.item? before = some .directory := by
  induction after using reverseRecOn with
  | nil => exact absurd rfl proper
  | append_singleton after name ih =>
    have parent := closed.parent present
    rw [← append_assoc, dropLast_concat] at parent
    by_cases last : after = []
    · rwa [last, append_nil] at parent
    · exact ih last (has_of_item? parent)

theorem IsClosed.isOpen (directory : tree.item? place = some .directory) : tree.IsOpen place := by
  rintro above ⟨after, rfl⟩
  by_cases last : after = []
  · rwa [last, append_nil] at directory
  · exact closed.above last (has_of_item? directory)

theorem IsClosed.has_above {before : List String} (present : tree.has place = true)
    (above : before <+: place) : tree.has before = true := by
  obtain ⟨after, rfl⟩ := above
  by_cases last : after = []
  · rwa [last, append_nil] at present
  · exact has_of_item? (closed.above last present)

theorem IsClosed.not_below (missing : tree.has place = false) {item : List String × FileItem}
    (member : item ∈ tree.items) : ¬place <+: item.1 := by
  intro below
  have present := closed.has_above (has_of_mem member) below
  rw [missing] at present
  cases present

end

theorem IsOpen.mono {above : List String} (opened : tree.IsOpen place) (before : above <+: place) :
    tree.IsOpen above :=
  fun other outer => opened other (outer.trans before)

theorem IsOpen.concat {name : String} (opened : tree.IsOpen place)
    (directory : tree.item? (place ++ [name]) = some .directory) :
    tree.IsOpen (place ++ [name]) := by
  intro above outer
  rcases prefix_concat_iff.mp outer with same | before
  · rwa [same]
  · exact opened above before

/-! ## Walking a path -/

def Fits (name : String) : Prop :=
  Text.hasChar name '\x00' = false ∧ (Text.utf8Bytes name).length ≤ nameLimit

end FileTree

namespace Path

def origin (working : List String) (path : Path) : List String :=
  if path.isAbsolute then [] else working

def place (working : List String) (path : Path) : List String :=
  path.origin working ++ path.names

def descend (path : Path) (names : List String) : Path :=
  { path with names := path.names ++ names }

@[simp]
theorem place_descend (working : List String) (path : Path) (names : List String) :
    (path.descend names).place working = path.place working ++ names := by
  rw [place, place, append_assoc]
  rfl

theorem append_of_relative {target : Path} (base : Path) (relative : target.isAbsolute = false) :
    base.append target = base.descend target.names := by
  rw [append, relative]
  rfl

end Path

namespace FileTree

variable {tree : FileTree}

theorem walk_eq_ok_iff {place names result : List String} (plain : ".." ∉ names) :
    tree.walk place names = .ok result ↔ result = place ++ names ∧
      (∀ name ∈ names, (Text.utf8Bytes name).length ≤ nameLimit) ∧
      ∀ before after, names = before ++ after → after ≠ [] →
        tree.item? (place ++ before) = some .directory := by
  induction names generalizing place with
  | nil =>
    constructor
    · intro walked
      have same : place = result := Except.ok.inj walked
      refine ⟨by rw [← same, append_nil], by simp, ?_⟩
      intro before after whole proper
      exact absurd (append_eq_nil_iff.mp whole.symm).2 proper
    · rintro ⟨rfl, -, -⟩
      rw [append_nil, walk]
  | cons name rest ih =>
    have here : name ≠ ".." := fun same => plain (by simp [same])
    have onward := @ih (place ++ [name]) fun member => plain (mem_cons_of_mem _ member)
    have whole : place ++ [name] ++ rest = place ++ name :: rest := by simp
    rw [walk]
    constructor
    · intro walked
      split at walked
      next => cases walked
      next => cases walked
      next directory =>
        rw [if_neg here] at walked
        split at walked
        next => cases walked
        next short =>
          obtain ⟨reached, lengths, opened⟩ := onward.mp walked
          refine ⟨by rw [reached, whole], ?_, ?_⟩
          · exact forall_mem_cons.mpr ⟨Nat.not_lt.mp short, lengths⟩
          · intro before after parts proper
            cases before with
            | nil => rwa [append_nil]
            | cons first others =>
              obtain ⟨rfl, rfl⟩ := cons.inj parts
              have opened' := opened others after rfl proper
              rwa [append_assoc] at opened'
    · rintro ⟨reached, lengths, opened⟩
      have directory : tree.item? place = some .directory := by
        have first := opened [] (name :: rest) rfl (by simp)
        rwa [append_nil] at first
      simp only [directory, if_neg here]
      rw [if_neg (Nat.not_lt.mpr (lengths name mem_cons_self))]
      refine onward.mpr ⟨by rw [reached, whole], ?_, ?_⟩
      · exact fun other member => lengths other (mem_cons_of_mem name member)
      · intro before after parts proper
        have opened' := opened (name :: before) after (by rw [parts]; rfl) proper
        rwa [append_assoc]

variable {working place : List String} {path : Path}

/-- Where a path leads whose names fit and whose last name stands in an open directory. -/
theorem locate_eq_ok (plain : ".." ∉ path.names) (fits : ∀ name ∈ path.names, Fits name)
    (opened : tree.IsOpen (path.origin working ++ path.names.dropLast)) :
    tree.locate working path = .ok (path.place working) := by
  have usable : ¬path.names.any (Text.hasChar · '\x00') = true := by
    simpa using fun name member => (fits name member).1
  rw [locate, if_neg usable, walk_eq_ok_iff plain]
  refine ⟨rfl, fun name member => (fits name member).2, ?_⟩
  intro before after whole proper
  apply opened
  rw [whole, dropLast_append_of_ne_nil proper]
  exact ⟨after.dropLast, append_assoc _ _ _⟩

theorem of_locate_eq_ok (plain : ".." ∉ path.names)
    (located : tree.locate working path = .ok place) :
    place = path.place working ∧ (∀ name ∈ path.names, Fits name) ∧
      (path.names ≠ [] →
        tree.item? (path.origin working ++ path.names.dropLast) = some .directory) := by
  rw [locate] at located
  split at located
  next => cases located
  next usable =>
    obtain ⟨reached, lengths, opened⟩ := (walk_eq_ok_iff plain).mp located
    refine ⟨reached, fun name member => ⟨?_, lengths name member⟩, fun proper => ?_⟩
    · simpa using fun holds => usable (any_eq_true.mpr ⟨name, member, holds⟩)
    · exact opened _ [path.names.getLast proper] (dropLast_concat_getLast proper).symm
        (cons_ne_nil _ _)

theorem locate_eq_unusableName_iff :
    tree.locate working path = .error .unusableName ↔
      path.names.any (Text.hasChar · '\x00') = true := by
  have walked (from_ names : List String) : tree.walk from_ names ≠ .error .unusableName := by
    intro stopped
    fun_induction walk tree from_ names with
    | case1 => cases stopped
    | case2 => cases stopped
    | case3 => cases stopped
    | case4 place rest directory ih => exact ih stopped
    | case5 => cases stopped
    | case6 place name rest directory here short ih => exact ih stopped
  rw [locate]
  split
  next unusable => simpa using unusable
  next usable =>
    constructor
    · intro stopped
      exact absurd stopped (walked _ _)
    · intro unusable
      exact absurd unusable usable

/-! ## Removing and moving -/

theorem item?_remove (tree : FileTree) (inner : place ≠ []) (other : List String) :
    (tree.remove place).item? other = if place <+: other then none else tree.item? other := by
  by_cases nested : other = []
  · have outside : ¬place <+: other := by
      rw [nested, prefix_nil]
      exact inner
    rw [if_neg outside, nested, item?_nil, item?_nil]
  · rw [item?_of_ne_nil _ nested, item?_of_ne_nil _ nested, remove,
      lookup_filter_key fun key => !place.isPrefixOf key]
    by_cases below : place <+: other
    · rw [if_pos below, if_neg (by simpa using below)]
    · have outside : place.isPrefixOf other = false := by
        rwa [← Bool.not_eq_true, isPrefixOf_iff_prefix]
      rw [if_neg below, outside]
      rfl

variable {gone source target other : List String} {item : List String × FileItem} {text : String}

theorem IsOpen.remove (opened : tree.IsOpen place) (away : ¬gone <+: place) :
    (tree.remove gone).IsOpen place := by
  have inner : gone ≠ [] := fun empty => away (empty ▸ nil_prefix)
  intro above outer
  rw [item?_remove tree inner, if_neg fun below => away (below.trans outer), opened above outer]

theorem IsOpen.of_remove (inner : gone ≠ []) (opened : (tree.remove gone).IsOpen place) :
    tree.IsOpen place := by
  intro above outer
  have found := opened above outer
  rw [item?_remove tree inner] at found
  split at found
  · cases found
  · exact found

theorem remove_comm (tree : FileTree) (first second : List String) :
    (tree.remove first).remove second = (tree.remove second).remove first := by
  simp only [remove, List.filter_filter, Bool.and_comm]

theorem not_below_remove (member : item ∈ (tree.remove place).items) : ¬place <+: item.1 := by
  have kept := of_mem_filter member
  rwa [Bool.not_eq_true', ← Bool.not_eq_true, isPrefixOf_iff_prefix] at kept

theorem remove_eq_self (apart : ∀ item ∈ tree.items, ¬place <+: item.1) :
    tree.remove place = tree := by
  have kept : tree.items.filter (fun item => !place.isPrefixOf item.1) = tree.items := by
    rw [filter_eq_self]
    intro item member
    rw [Bool.not_eq_true', ← Bool.not_eq_true, isPrefixOf_iff_prefix]
    exact apart item member
  rw [remove, kept]

theorem IsClosed.remove_eq_self (closed : tree.IsClosed) (missing : tree.has place = false) :
    tree.remove place = tree :=
  FileTree.remove_eq_self fun _ member => closed.not_below missing member

theorem relocate_append (source target rest : List String) :
    relocate source target (source ++ rest) = target ++ rest := by
  simp [relocate]

theorem relocate_of_outside (outside : ¬source <+: other) :
    relocate source target other = other := by
  simp [relocate, outside]

/-- After a move to a place with nothing below, what stood at the source stands at the target. -/
theorem item?_move (apart : ∀ item ∈ tree.items, ¬target <+: item.1) (inner : source ≠ [])
    (inner' : target ≠ []) (other : List String) : (tree.move source target).item? other =
      if target <+: other then tree.item? (source ++ other.drop target.length)
      else if source <+: other then none else tree.item? other := by
  by_cases nested : other = []
  · subst nested
    rw [if_neg (by rwa [prefix_nil]), if_neg (by rwa [prefix_nil]), item?_nil, item?_nil]
  rw [item?_of_ne_nil _ nested, move]
  by_cases moved : target <+: other
  · obtain ⟨rest, rfl⟩ := moved
    rw [if_pos (prefix_append target rest), drop_left,
      item?_of_ne_nil tree (by simp [inner])]
    apply lookup_map_key
    intro item member
    by_cases inside : source <+: item.1
    · obtain ⟨rest', same⟩ := inside
      rw [← same, relocate_append, append_cancel_left_eq, append_cancel_left_eq]
    · rw [relocate_of_outside inside]
      constructor
      · intro same
        exact absurd ⟨rest, same.symm⟩ (apart item member)
      · intro same
        exact absurd ⟨rest, same.symm⟩ inside
  rw [if_neg moved]
  by_cases left : source <+: other
  · rw [if_pos left]
    apply lookup_eq_none_of_notMem
    intro item member same
    obtain ⟨former, stood, rfl⟩ := mem_map.mp member
    by_cases inside : source <+: former.1
    · obtain ⟨rest, whole⟩ := inside
      rw [← whole, relocate_append] at same
      exact moved ⟨rest, same⟩
    · rw [relocate_of_outside inside] at same
      exact inside (same ▸ left)
  · rw [if_neg left, item?_of_ne_nil tree nested]
    apply lookup_map_key
    intro item member
    by_cases inside : source <+: item.1
    · obtain ⟨rest, whole⟩ := inside
      rw [← whole, relocate_append]
      constructor
      · intro same
        exact absurd ⟨rest, same⟩ moved
      · intro same
        exact absurd ⟨rest, same⟩ left
    · rw [relocate_of_outside inside]

theorem IsOpen.move (opened : tree.IsOpen place) (apart : ∀ item ∈ tree.items, ¬target <+: item.1)
    (away : ¬source <+: place) (away' : ¬target <+: place) :
    (tree.move source target).IsOpen place := by
  have inner : source ≠ [] := fun empty => away (empty ▸ nil_prefix)
  have inner' : target ≠ [] := fun empty => away' (empty ▸ nil_prefix)
  intro above outer
  rw [item?_move apart inner inner', if_neg fun below => away' (below.trans outer),
    if_neg fun below => away (below.trans outer), opened above outer]

theorem not_below_move (apart : ∀ rest, ¬source <+: target ++ rest)
    (member : item ∈ (tree.move source target).items) : ¬source <+: item.1 := by
  obtain ⟨former, stood, rfl⟩ := mem_map.mp member
  by_cases inside : source <+: former.1
  · obtain ⟨rest, same⟩ := inside
    rw [← same, relocate_append]
    exact apart rest
  · rwa [relocate_of_outside inside]

/-- A tree whose items are put to other places or left out, by their place. -/
def refile (change : List String → Option (List String)) (tree : FileTree) : FileTree where
  items := tree.items.filterMap fun item => (change item.1).map fun place => (place, item.2)

theorem remove_eq_refile (place : List String) (tree : FileTree) :
    tree.remove place = tree.refile fun other => if place <+: other then none else some other := by
  have same : (fun item : List String × FileItem =>
      ((if place <+: item.1 then none else some item.1).map fun place => (place, item.2))) =
        Option.guard fun item => !place.isPrefixOf item.1 := by
    funext item
    by_cases below : place <+: item.1
    · simp [Option.guard, below]
    · simp [Option.guard, below]
  rw [remove, refile, same, List.filterMap_eq_filter]

theorem move_eq_refile (source target : List String) (tree : FileTree) :
    tree.move source target = tree.refile fun other => some (relocate source target other) := by
  rw [move, refile]
  simp only [map_some, filterMap_eq_map']

theorem refile_refile (first second : List String → Option (List String)) (tree : FileTree) :
    (tree.refile first).refile second = tree.refile fun place => (first place).bind second := by
  simp only [refile, filterMap_filterMap, mk.injEq]
  congr 1
  funext item
  cases first item.1 <;> rfl

theorem refile_congr {first second : List String → Option (List String)}
    (same : ∀ item ∈ tree.items, first item.1 = second item.1) :
    tree.refile first = tree.refile second := by
  simp only [refile, mk.injEq]
  apply filterMap_congr
  intro item member
  rw [same item member]

/-! ## Adding -/

theorem item?_setFile (tree : FileTree) (inner : place ≠ []) (other : List String) :
    (tree.setFile place text).item? other =
      if other = place then some (.file text) else tree.item? other := by
  by_cases nested : other = []
  · rw [if_neg (by rw [nested]; exact inner.symm), nested, item?_nil, item?_nil]
  rw [item?_of_ne_nil _ nested, item?_of_ne_nil _ nested, setFile]
  by_cases present : tree.has place = true
  · rw [if_pos present]
    rw [has, item?_of_ne_nil tree inner, isSome_iff_exists] at present
    obtain ⟨item, found⟩ := present
    simp only [lookup_map_set, found, map_some]
  · rw [if_neg present, lookup_append]
    rw [has, item?_of_ne_nil tree inner] at present
    by_cases same : other = place
    · subst same
      have absent : tree.items.lookup other = none := by
        rwa [Bool.not_eq_true, isSome_eq_false_iff, isNone_iff_eq_none] at present
      simp [absent]
    · simp [lookup_cons, beq_false_of_ne same, same]

theorem item?_setFile_directory (text : String) (inner : place ≠ [])
    (free : tree.item? place ≠ some .directory) (directory : tree.item? other = some .directory) :
    (tree.setFile place text).item? other = some .directory := by
  have apart : other ≠ place := by
    rintro rfl
    exact free directory
  rw [item?_setFile tree inner, if_neg apart, directory]

theorem IsClosed.setFile (closed : tree.IsClosed) (inner : place ≠ [])
    (parent : tree.item? place.dropLast = some .directory)
    (free : tree.item? place ≠ some .directory) : (tree.setFile place text).IsClosed := by
  have stands : ∀ item ∈ (tree.setFile place text).items, item.1 = place ∨ item ∈ tree.items := by
    intro item member
    rw [FileTree.setFile] at member
    split at member
    · obtain ⟨former, stood, rfl⟩ := List.mem_map.mp member
      split
      · exact .inl rfl
      · exact .inr stood
    · rcases List.mem_append.mp member with stood | new
      · exact .inr stood
      · exact .inl (by rw [List.mem_singleton.mp new])
  intro item member
  rcases stands item member with same | stood
  · rw [same]
    exact item?_setFile_directory text inner free parent
  · exact item?_setFile_directory text inner free (closed item stood)

/-- Writing a file does not change what stands outside a directory that it is in. -/
theorem remove_setFile {outer : List String} (below : outer <+: place) :
    (tree.setFile place text).remove outer = tree.remove outer := by
  have gone : outer.isPrefixOf place = true := isPrefixOf_iff_prefix.mpr below
  simp only [remove, setFile, mk.injEq]
  split
  · induction tree.items with
    | nil => rfl
    | cons item rest ih =>
      rw [map_cons, filter_cons, filter_cons, ih]
      split
      next here => simp [here, gone]
      next => rfl
  · simp [filter_append, gone]

def withDirectory (place : List String) (tree : FileTree) : FileTree where
  items := tree.items ++ [(place, .directory)]

theorem makeDirectory_eq_ok_iff {later : FileTree} :
    makeDirectory place tree = .ok later ↔
      tree.has place = false ∧ later = tree.withDirectory place := by
  rw [makeDirectory]
  split
  next present => simp [present]
  next missing =>
    constructor
    · intro made
      exact ⟨Bool.eq_false_iff.mpr missing, (Except.ok.inj made).symm⟩
    · rintro ⟨-, rfl⟩
      rfl

theorem item?_withDirectory (missing : tree.has place = false) (other : List String) :
    (tree.withDirectory place).item? other =
      if other = place then some .directory else tree.item? other := by
  have inner := ne_nil_of_not_has missing
  have absent := item?_of_not_has missing
  by_cases nested : other = []
  · rw [if_neg (by rw [nested]; exact inner.symm), nested, item?_nil, item?_nil]
  rw [item?_of_ne_nil tree inner] at absent
  rw [item?_of_ne_nil _ nested, item?_of_ne_nil _ nested, withDirectory, lookup_append]
  by_cases same : other = place
  · subst same
    simp [absent]
  · simp [lookup_cons, beq_false_of_ne same, same]

theorem refile_withDirectory {change : List String → Option (List String)}
    (dropped : change place = none) (tree : FileTree) :
    (tree.withDirectory place).refile change = tree.refile change := by
  simp [refile, withDirectory, dropped]

theorem remove_withDirectory_self (place : List String) (tree : FileTree) :
    (tree.withDirectory place).remove place = tree.remove place := by
  rw [remove_eq_refile, remove_eq_refile, refile_withDirectory]
  rw [if_pos prefix_rfl]

theorem item?_withDirectory_directory (missing : tree.has place = false)
    (directory : tree.item? other = some .directory) :
    (tree.withDirectory place).item? other = some .directory := by
  rw [item?_withDirectory missing, directory, ite_self]

theorem IsClosed.withDirectory (closed : tree.IsClosed) (missing : tree.has place = false)
    (parent : tree.item? place.dropLast = some .directory) :
    (tree.withDirectory place).IsClosed := by
  intro item member
  rcases mem_append.mp member with stood | new
  · exact item?_withDirectory_directory missing (closed item stood)
  · rw [mem_singleton.mp new]
    exact item?_withDirectory_directory missing parent

/-! ## Creating the directories on the way -/

/-- A tree has grown along names from a place: missing directories on the way were added. -/
def Grown (tree : FileTree) (origin names : List String) (later : FileTree) : Prop :=
  ∃ added : List (List String),
    later.items = tree.items ++ added.map (fun ahead => (origin ++ ahead, .directory)) ∧
    ∀ ahead ∈ added, ahead <+: names ∧ tree.has (origin ++ ahead) = false ∧
      ∀ name ∈ ahead, Fits name

namespace Grown

variable {later last : FileTree} {origin names ahead : List String}

theorem refl (tree : FileTree) (origin names : List String) : tree.Grown origin names tree :=
  ⟨[], by simp, by simp⟩

theorem withDirectory (before : ahead <+: names) (missing : tree.has (origin ++ ahead) = false)
    (fits : ∀ name ∈ ahead, Fits name) :
    tree.Grown origin names (tree.withDirectory (origin ++ ahead)) := by
  refine ⟨[ahead], rfl, ?_⟩
  simpa using ⟨before, missing, fits⟩

theorem item?_of_some (grown : tree.Grown origin names later) {item : FileItem}
    (found : tree.item? place = some item) : later.item? place = some item := by
  obtain ⟨added, items, -⟩ := grown
  by_cases inner : place = []
  · rw [inner] at found ⊢
    rwa [item?_nil] at found ⊢
  · rw [item?_of_ne_nil _ inner] at found ⊢
    rw [items, lookup_append, found, some_or]

theorem trans (first : tree.Grown origin names later) (second : later.Grown origin names last) :
    tree.Grown origin names last := by
  have older : ∀ ahead, later.has (origin ++ ahead) = false →
      tree.has (origin ++ ahead) = false := by
    intro ahead missing
    rw [Bool.eq_false_iff]
    intro present
    obtain ⟨item, found⟩ := isSome_iff_exists.mp present
    rw [has, first.item?_of_some found] at missing
    cases missing
  obtain ⟨added, items, each⟩ := first
  obtain ⟨added', items', each'⟩ := second
  refine ⟨added ++ added', ?_, ?_⟩
  · rw [items', items, map_append, append_assoc]
  · intro ahead member
    rcases mem_append.mp member with early | late
    · exact each ahead early
    · obtain ⟨before, missing, fits⟩ := each' ahead late
      exact ⟨before, older ahead missing, fits⟩

theorem mono {longer : List String} (grown : tree.Grown origin names later)
    (before : names <+: longer) : tree.Grown origin longer later := by
  obtain ⟨added, items, each⟩ := grown
  refine ⟨added, items, fun ahead member => ?_⟩
  obtain ⟨inside, missing, fits⟩ := each ahead member
  exact ⟨inside.trans before, missing, fits⟩

theorem item?_eq (grown : tree.Grown origin names later) (opened : later.IsOpen (origin ++ names))
    (place : List String) :
    later.item? place =
      (tree.item? place).or (if place <+: origin ++ names then some .directory else none) := by
  by_cases onWay : place <+: origin ++ names
  · rw [if_pos onWay, opened place onWay]
    cases found : tree.item? place with
    | none => rfl
    | some item =>
      rw [← grown.item?_of_some found, opened place onWay]
      rfl
  · rw [if_neg onWay, or_none]
    obtain ⟨added, items, each⟩ := grown
    have inner : place ≠ [] := by
      rintro rfl
      exact onWay nil_prefix
    rw [item?_of_ne_nil _ inner, item?_of_ne_nil _ inner, items, lookup_append]
    have beside :
        (added.map fun ahead => (origin ++ ahead, FileItem.directory)).lookup place = none := by
      apply lookup_eq_none_of_notMem
      intro item member same
      obtain ⟨ahead, mem, rfl⟩ := mem_map.mp member
      exact onWay (same ▸ (prefix_append_right_inj origin).mpr (each ahead mem).1)
    rw [beside, or_none]

theorem remove_added {outer : List String} {added : List (List String)}
    (items : later.items = tree.items ++ added.map fun ahead => (origin ++ ahead, .directory))
    (inside : ∀ ahead ∈ added, outer <+: origin ++ ahead) :
    later.remove outer = tree.remove outer := by
  have dropped : (added.map fun ahead => (origin ++ ahead, FileItem.directory)).filter
      (fun item => !outer.isPrefixOf item.1) = [] := by
    rw [filter_eq_nil_iff]
    intro item member
    obtain ⟨ahead, mem, rfl⟩ := mem_map.mp member
    simpa using inside ahead mem
  rw [remove, remove, items, filter_append, dropped, append_nil]

/-- Growing along a way through an open place does not change what stands outside that place. -/
theorem remove_eq (grown : tree.Grown origin names later) {outer longer : List String}
    (opened : tree.IsOpen outer) (through : outer <+: longer) (onWay : origin ++ names <+: longer) :
    later.remove outer = tree.remove outer := by
  obtain ⟨added, items, each⟩ := grown
  have inside : ∀ ahead ∈ added, outer <+: origin ++ ahead := by
    intro ahead member
    obtain ⟨before, missing, -⟩ := each ahead member
    have along := ((prefix_append_right_inj origin).mpr before).trans onWay
    rcases prefix_or_prefix_of_prefix through along with below | above
    · exact below
    · rw [has, opened _ above] at missing
      cases missing
  exact remove_added items inside

end Grown

end FileTree

end Bindery
