import Bindery.Location.Basic
import Mathlib

/-!
# Keys of references

A reference is registered under its location and its pointer with a `#` between
them.  So the key tells the reference as long as there is no `#` in the
location.  A reference that stands in a document never brings one in: its own
`#` is cut off before the rest is joined to the location of the document.

The statements follow the characters of a location through paths and URLs.
-/

namespace Bindery

open String List Path

namespace Text

def Unmarked (text : String) : Prop :=
  '#' ∉ text.toList

instance (text : String) : Decidable (Unmarked text) :=
  inferInstanceAs (Decidable ('#' ∉ text.toList))

theorem Unmarked.append {first second : String} (unmarked : Unmarked first)
    (unmarked' : Unmarked second) : Unmarked (first ++ second) := by
  simp only [Unmarked, toList_append, mem_append, not_or] at *
  exact ⟨unmarked, unmarked'⟩

theorem unmarked_ofList {chars : List Char} : Unmarked (ofList chars) ↔ '#' ∉ chars := by
  rw [Unmarked, toList_ofList]

theorem Unmarked.join {separator : String} {texts : List String} (unmarked : Unmarked separator)
    (each : ∀ text ∈ texts, Unmarked text) : Unmarked (join separator texts) := by
  induction texts with
  | nil => exact not_mem_nil
  | cons text rest ih =>
    cases rest with
    | nil => exact each text mem_cons_self
    | cons next others =>
      refine ((each text mem_cons_self).append unmarked).append (ih fun other member => ?_)
      exact each other (mem_cons_of_mem _ member)

theorem mem_of_mem_splitChars {separator c : Char} {chars piece : List Char}
    (member : piece ∈ splitChars separator chars) (inside : c ∈ piece) : c ∈ chars := by
  induction chars generalizing piece with
  | nil =>
    rw [splitChars, mem_singleton] at member
    exact member ▸ inside
  | cons first rest ih =>
    rw [splitChars] at member
    split at member
    · rcases mem_cons.mp member with rfl | later
      · cases inside
      · exact mem_cons_of_mem _ (ih later inside)
    · split at member
      next =>
        exact mem_cons.mpr (.inl (by simpa [mem_singleton.mp member] using inside))
      next piece' pieces split =>
        rcases mem_cons.mp member with rfl | later
        · rcases mem_cons.mp inside with rfl | deeper
          · exact mem_cons_self
          · exact mem_cons_of_mem _ (ih (split ▸ mem_cons_self) deeper)
        · exact mem_cons_of_mem _ (ih (split ▸ mem_cons_of_mem _ later) inside)

theorem Unmarked.split {separator : Char} {text piece : String} (unmarked : Unmarked text)
    (member : piece ∈ split separator text) : Unmarked piece := by
  obtain ⟨chars, inside, rfl⟩ := mem_map.mp member
  rw [unmarked_ofList]
  exact fun marked => unmarked (mem_of_mem_splitChars inside marked)

theorem cutChars_eq_none {separator : Char} {chars : List Char} (absent : separator ∉ chars) :
    cutChars separator chars = (chars, none) := by
  induction chars with
  | nil => rfl
  | cons first rest ih =>
    rw [mem_cons, not_or] at absent
    rw [cutChars, if_neg (Ne.symm absent.1), ih absent.2]

theorem cutChars_append {separator : Char} {front : List Char} (absent : separator ∉ front)
    (back : List Char) : cutChars separator (front ++ separator :: back) = (front, some back) := by
  induction front with
  | nil => simp [cutChars]
  | cons first rest ih =>
    rw [mem_cons, not_or] at absent
    rw [cons_append, cutChars, if_neg (Ne.symm absent.1), ih absent.2]

theorem notMem_cutChars (separator : Char) (chars : List Char) :
    separator ∉ (cutChars separator chars).1 := by
  induction chars with
  | nil => simp [cutChars]
  | cons first rest ih =>
    rw [cutChars]
    split
    next => simp
    next different => simpa [ih] using Ne.symm different

theorem cutChars_subset (separator : Char) (chars : List Char) :
    (cutChars separator chars).1 ⊆ chars ∧ (cutChars separator chars).2.getD [] ⊆ chars := by
  induction chars with
  | nil => simp [cutChars]
  | cons first rest ih =>
    rw [cutChars]
    split
    next => simp
    next => exact ⟨cons_subset_cons _ ih.1, subset_cons_of_subset _ ih.2⟩

theorem unmarked_cut (text : String) : Unmarked (cut '#' text).1 := by
  rw [cut]
  exact unmarked_ofList.mpr (notMem_cutChars '#' text.toList)

end Text

open Text

/-! ## Paths -/

namespace Path

theorem unmarked_names_ofText {text : String} (unmarked : Unmarked text) :
    ∀ name ∈ (ofText text).names, Unmarked name :=
  fun _ member => unmarked.split (mem_of_mem_filter member)

theorem unmarked_follow {directory names : List String} (first : ∀ name ∈ directory, Unmarked name)
    (second : ∀ name ∈ names, Unmarked name) : ∀ name ∈ follow directory names, Unmarked name := by
  induction names generalizing directory with
  | nil => exact first
  | cons name rest ih =>
    have others : ∀ name ∈ rest, Unmarked name :=
      fun other member => second other (mem_cons_of_mem _ member)
    rw [follow]
    split
    · exact ih (fun other member => first other (mem_of_mem_dropLast member)) others
    · refine ih (fun other member => ?_) others
      rcases mem_append.mp member with old | new
      · exact first other old
      · exact mem_singleton.mp new ▸ second name mem_cons_self

theorem unmarked_resolve {working : List String} {path : Path}
    (here : ∀ name ∈ working, Unmarked name) (names : ∀ name ∈ path.names, Unmarked name) :
    Unmarked (path.resolve working) := by
  refine Unmarked.append (by decide) (Unmarked.join (by decide) (unmarked_follow ?_ names))
  split
  · nofun
  · exact here

theorem unmarked_names_append {base target : Path} (first : ∀ name ∈ base.names, Unmarked name)
    (second : ∀ name ∈ target.names, Unmarked name) :
    ∀ name ∈ (base.append target).names, Unmarked name := by
  unfold append
  split
  · exact second
  · intro name member
    rcases mem_append.mp member with old | new
    · exact first name old
    · exact second name new

end Path

/-! ## URLs -/

namespace Url

/-- A URL without a fragment and without a `#` in its other parts. -/
structure Unmarked (url : Url) : Prop where
  scheme : Text.Unmarked url.scheme
  authority : Text.Unmarked url.authority
  path : Text.Unmarked url.path
  parameters : Text.Unmarked url.parameters
  query : Text.Unmarked url.query
  fragment : url.fragment = ""

theorem splitParameters_subset (path : List Char) :
    (splitParameters path).1 ⊆ path ∧ (splitParameters path).2 ⊆ path := by
  have segment : (path.reverse.takeWhile (· != '/')).reverse ⊆ path := by
    intro c member
    exact mem_reverse.mp (takeWhile_subset _ (mem_reverse.mp member))
  simp only [splitParameters]
  have cuts := cutChars_subset ';' (path.reverse.takeWhile (· != '/')).reverse
  split
  next => exact ⟨Subset.refl _, nil_subset _⟩
  next front parameters cut =>
    rw [cut] at cuts
    refine ⟨append_subset.mpr ⟨take_subset _ _, Subset.trans cuts.1 segment⟩,
      Subset.trans cuts.2 segment⟩

theorem toLower_ne_mark {c : Char} (valid : isSchemeChar c) : c.toLower ≠ '#' := by
  intro lowered
  unfold Char.toLower at lowered
  split at lowered
  next upper =>
    have shifted := congrArg Char.toNat lowered
    simp only [Char.toNat, UInt32.le_iff_toNat_le, ge_iff_le] at upper shifted
    simp at upper shifted
    omega
  next =>
    rw [lowered] at valid
    exact absurd valid (by decide)

theorem unmarked_splitScheme? {chars rest : List Char} {scheme : String} (absent : '#' ∉ chars)
    (found : splitScheme? chars = some (scheme, rest)) : Text.Unmarked scheme ∧ '#' ∉ rest := by
  have cuts := cutChars_subset ':' chars
  unfold splitScheme? at found
  split at found
  next front back cut =>
    rw [cut] at cuts
    split at found
    next => cases found
    next first others =>
      split at found
      next valid =>
        cases found
        refine ⟨unmarked_ofList.mpr fun marked => ?_, fun marked => absent (cuts.2 marked)⟩
        obtain ⟨c, member, lowered⟩ := List.mem_map.mp marked
        rw [Bool.and_eq_true, List.all_eq_true] at valid
        exact toLower_ne_mark (valid.2 c member) lowered
      next => cases found
  next => cases found

/-- Splits an authority off the rest of a URL, if two slashes are in front. -/
def splitAuthority : List Char → List Char × List Char
  | '/' :: '/' :: rest =>
    let inside (c : Char) : Bool := c != '/' && c != '?' && c != '#'
    (rest.takeWhile inside, rest.dropWhile inside)
  | rest => ([], rest)

/-- Splits a URL behind its authority. -/
def ofParts (scheme : String) (authority rest : List Char) : Url :=
  let (chars, fragment) := Text.cutChars '#' rest
  let (path, query) := Text.cutChars '?' chars
  let (path, parameters) :=
    if parameterSchemes.contains scheme then splitParameters path else (path, [])
  { scheme := scheme
    authority := ofList authority
    path := ofList path
    parameters := ofList parameters
    query := ofList (query.getD [])
    fragment := ofList (fragment.getD []) }

theorem split?_eq (text scheme : String) :
    split? text scheme =
      let chars := (text.toList.dropWhile fun c => c.toNat ≤ 32).filter fun c =>
        c != '\t' && c != '\r' && c != '\n'
      let schemed := (splitScheme? chars).getD (scheme, chars)
      let divided := splitAuthority schemed.2
      if isPlainAuthority divided.1 then some (ofParts schemed.1 divided.1 divided.2) else none :=
  rfl

theorem splitAuthority_subset (chars : List Char) :
    (splitAuthority chars).1 ⊆ chars ∧ (splitAuthority chars).2 ⊆ chars := by
  unfold splitAuthority
  split
  next rest =>
    have inner : rest ⊆ '/' :: '/' :: rest :=
      subset_cons_of_subset _ (subset_cons_of_subset _ (Subset.refl _))
    exact ⟨Subset.trans (takeWhile_subset _) inner,
      Subset.trans (dropWhile_sublist _).subset inner⟩
  next => exact ⟨nil_subset _, Subset.refl _⟩

theorem unmarked_ofParts {scheme : String} {authority rest : List Char}
    (first : Text.Unmarked scheme) (second : '#' ∉ authority) (third : '#' ∉ rest) :
    (ofParts scheme authority rest).Unmarked := by
  obtain ⟨before, behind⟩ := cutChars_subset '?' rest
  have path : '#' ∉ (cutChars '?' rest).1 := fun marked => third (before marked)
  have parameters := splitParameters_subset (cutChars '?' rest).1
  simp only [ofParts, cutChars_eq_none third]
  constructor
  · exact first
  · exact unmarked_ofList.mpr second
  · refine unmarked_ofList.mpr ?_
    split
    · exact fun marked => path (parameters.1 marked)
    · exact path
  · refine unmarked_ofList.mpr ?_
    split
    · exact fun marked => path (parameters.2 marked)
    · exact List.not_mem_nil
  · exact unmarked_ofList.mpr fun marked => third (behind marked)
  · rfl

theorem unmarked_split? {text scheme : String} {url : Url} (unmarked : Text.Unmarked text)
    (given : Text.Unmarked scheme) (found : split? text scheme = some url) : url.Unmarked := by
  rw [split?_eq] at found
  extract_lets chars schemed divided at found
  have absent : '#' ∉ chars := fun marked =>
    unmarked ((List.dropWhile_sublist _).subset (List.mem_of_mem_filter marked))
  have cleared : Text.Unmarked schemed.1 ∧ '#' ∉ schemed.2 := by
    unfold schemed
    cases split : splitScheme? chars with
    | none => exact ⟨given, absent⟩
    | some pair => exact unmarked_splitScheme? absent split
  split at found
  · cases found
    obtain ⟨first, second⟩ := splitAuthority_subset schemed.2
    exact unmarked_ofParts cleared.1 (fun marked => cleared.2 (first marked))
      fun marked => cleared.2 (second marked)
  · cases found

theorem Unmarked.text {url : Url} (unmarked : url.Unmarked) : Text.Unmarked url.text := by
  have path : Text.Unmarked
      (if url.parameters = "" then url.path else url.path ++ ";" ++ url.parameters) := by
    split
    · exact unmarked.path
    · exact (unmarked.path.append (by decide)).append unmarked.parameters
  unfold Url.text
  extract_lets full rooted placed
  have root : Text.Unmarked rooted := by
    unfold rooted
    split
    · exact Text.Unmarked.append (by decide) path
    · exact path
  have place : Text.Unmarked placed := by
    unfold placed
    split
    · exact (Text.Unmarked.append (by decide) unmarked.authority).append root
    · exact path
  rw [if_pos unmarked.fragment]
  refine ((Text.Unmarked.append ?_ place).append ?_).append (by decide)
  · split
    · decide
    · exact unmarked.scheme.append (by decide)
  · split
    · decide
    · exact Text.Unmarked.append (by decide) unmarked.query

theorem followSegments_subset (done segments : List String) :
    followSegments done segments ⊆ done ++ segments := by
  induction segments generalizing done with
  | nil => simp [followSegments]
  | cons segment rest ih =>
    have later : rest ⊆ segment :: rest := List.subset_cons_of_subset _ (List.Subset.refl _)
    rw [followSegments]
    split
    · refine List.Subset.trans (ih _) (List.append_subset.mpr ⟨?_, ?_⟩)
      · exact List.Subset.trans (List.dropLast_subset _) (List.subset_append_left _ _)
      · exact List.Subset.trans later (List.subset_append_right _ _)
    · split
      · refine List.Subset.trans (ih _) (List.append_subset.mpr ⟨?_, ?_⟩)
        · exact List.subset_append_left _ _
        · exact List.Subset.trans later (List.subset_append_right _ _)
      · refine List.Subset.trans (ih _) ?_
        rw [List.append_assoc]
        exact List.Subset.refl _

theorem dropEmptyInner_subset (segments : List String) : dropEmptyInner segments ⊆ segments := by
  unfold dropEmptyInner
  split
  · exact Subset.refl _
  next first rest =>
    split
    next => simp
    next last found =>
      refine cons_subset_cons _ (append_subset.mpr ⟨?_, ?_⟩)
      · exact Subset.trans (filter_subset_self _) (dropLast_subset _)
      · simpa using mem_of_getLast? found

theorem unmarked_joinPaths {base path : String} (first : Text.Unmarked base)
    (second : Text.Unmarked path) : Text.Unmarked (joinPaths base path) := by
  unfold joinPaths
  extract_lets baseSegments directory segments resolved last ended joined
  have inside : ∀ segment ∈ segments, Text.Unmarked segment := by
    have here : ∀ segment ∈ directory, Text.Unmarked segment := by
      intro segment member
      unfold directory at member
      split at member
      · exact first.split member
      · exact first.split (List.dropLast_subset _ member)
    intro segment member
    unfold segments at member
    split at member
    · exact second.split member
    · rcases List.mem_append.mp (dropEmptyInner_subset _ member) with old | new
      · exact here segment old
      · exact second.split new
  have followed : ∀ segment ∈ resolved, Text.Unmarked segment :=
    fun segment member => inside segment (followSegments_subset [] segments member)
  have closed : ∀ segment ∈ ended, Text.Unmarked segment := by
    intro segment member
    unfold ended at member
    split at member
    · rcases List.mem_append.mp member with old | new
      · exact followed segment old
      · rw [List.mem_singleton.mp new]
        decide
    · exact followed segment member
  split
  · decide
  · exact Text.Unmarked.join (by decide) closed

theorem unmarked_join? {base text joined : String} (first : Text.Unmarked base)
    (second : Text.Unmarked text) (found : join? base text = some joined) :
    Text.Unmarked joined := by
  unfold join? at found
  split at found
  · cases found
    exact second
  · split at found
    · cases found
      exact first
    · obtain ⟨start, divided, found⟩ := Option.bind_eq_some_iff.mp found
      obtain ⟨url, divided', found⟩ := Option.bind_eq_some_iff.mp found
      have origin := unmarked_split? first (by decide) divided
      have target := unmarked_split? second origin.scheme divided'
      split at found
      · cases found
        exact second
      · split at found
        · cases found
          exact target.text
        · extract_lets hosted query at found
          have host : hosted.Unmarked := by
            unfold hosted
            split
            · exact { target with authority := origin.authority }
            · exact target
          split at found
          · cases found
            refine Url.Unmarked.text { host with
              path := origin.path, parameters := origin.parameters, query := ?_ }
            unfold query
            split
            · exact origin.query
            · exact host.query
          · cases found
            exact Url.Unmarked.text { host with path := unmarked_joinPaths origin.path host.path }

end Url

/-! ## References -/

namespace Location

theorem unmarked_absolute {working : List String} {source : String}
    (here : ∀ name ∈ working, Unmarked name) (unmarked : Unmarked source) :
    Unmarked (absolute working source) := by
  unfold absolute
  split
  · exact unmarked
  · split
    · exact unmarked_cut source
    · exact unmarked_resolve here (unmarked_names_ofText unmarked)

theorem unmarked_join {working : List String} {base target location : String}
    (here : ∀ name ∈ working, Unmarked name) (first : Unmarked base) (second : Unmarked target)
    (joined : join working base target = .ok location) : Unmarked location := by
  unfold join at joined
  split at joined
  · cases joined
    exact second
  · split at joined
    · split at joined
      next found =>
        cases joined
        exact Url.unmarked_join? first second found
      next => cases joined
    · split at joined
      · cases joined
        exact unmarked_absolute here second
      · cases joined
        refine unmarked_resolve here (unmarked_names_append ?_ ?_)
        · exact fun name member =>
            unmarked_names_ofText first name (dropLast_subset _ member)
        · exact unmarked_names_ofText second

end Location

namespace Reference

/-- A reference that stands in a document does not bring a mark into its location. -/
theorem unmarked_ofText {working : List String} {text base : String} {reference : Reference}
    (here : ∀ name ∈ working, Unmarked name) (unmarked : Unmarked base)
    (named : ofText working text base = .ok reference) : Unmarked reference.location := by
  simp only [ofText] at named
  split at named
  · cases named
    exact unmarked
  · revert named
    cases joined : Location.join working base (cut '#' text).1 with
    | error fault => nofun
    | ok location =>
      rintro ⟨⟩
      exact Location.unmarked_join here unmarked (unmarked_cut text) joined

/-- References with one key are the same if their locations are unmarked. -/
theorem eq_of_key_eq {first second : Reference} (unmarked : Unmarked first.location)
    (unmarked' : Unmarked second.location) (same : first.key = second.key) : first = second := by
  -- The first mark of a key ends the location, so that a key can be cut into its parts again.
  have cuts {reference : Reference} (unmarked : Unmarked reference.location) :
      cutChars '#' reference.key.toList =
        (reference.location.toList, some reference.pointer.toList) := by
    have spelled : reference.key.toList =
        reference.location.toList ++ '#' :: reference.pointer.toList := by
      simp [key]
    rw [spelled, cutChars_append unmarked]
  have parts := cuts unmarked
  rw [same, cuts unmarked', Prod.mk.injEq, Option.some.injEq, toList_inj,
    toList_inj] at parts
  cases first
  cases second
  simp only at parts
  rw [parts.1, parts.2]

end Reference

end Bindery
