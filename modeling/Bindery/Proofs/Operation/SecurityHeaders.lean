import Bindery.Operation.Security
import Bindery.Proofs.Value.Entries

/-!
# The headers of security requirements

The headers that a list of scheme names makes are told by the list alone: one for each header name
without case, in the order of first use, spelled as first met, with the names of the schemes that
use it.  The list is read from its front, so this is shown by adding one name at its end.
-/

namespace Bindery.Security

open List Text

section Tally

variable (headerFor : String → Option String)

/-- The header of a scheme, without case. -/
def keyFor (scheme : String) : Option String :=
  (headerFor scheme).map lower

/-- Lists a scheme with a header. -/
def Found.list (found : Found) (scheme : String) : Found :=
  { found with
    schemes := if found.schemes.contains scheme then found.schemes else found.schemes ++ [scheme] }

/-- What scheme names say about a header. -/
def tally (names : List String) (key : String) : Found where
  key
  spelling := ((names.filterMap headerFor).find? (lower · == key)).getD ""
  schemes := (names.filter (keyFor headerFor · == some key)).eraseDups

/-- The headers that scheme names use, without case, in the order of first use. -/
def keysOf (names : List String) : List String :=
  (names.filterMap (keyFor headerFor)).eraseDups

variable {headerFor}

theorem mem_keysOf {names : List String} {key : String} :
    key ∈ keysOf headerFor names ↔ ∃ name ∈ names, keyFor headerFor name = some key := by
  rw [keysOf, mem_eraseDups, mem_filterMap]

/-- Adding a scheme changes the header of its key, or adds a header at the end. -/
theorem addFound_map {keys : List String} {found : String → Found} {key spelling scheme : String}
    (named : ∀ other, (found other).key = other) (distinct : keys.Nodup) :
    addFound key spelling scheme (keys.map found) =
      if key ∈ keys then
        keys.map fun other => if other = key then (found key).list scheme else found other
      else keys.map found ++ [{ key, spelling, schemes := [scheme] }] := by
  induction keys with
  | nil => rfl
  | cons first rest ih =>
    obtain ⟨apart, distinct'⟩ := nodup_cons.mp distinct
    rw [map_cons, addFound, named]
    by_cases same : first = key
    · subst same
      have others : rest.map (fun other =>
          if other = first then (found first).list scheme else found other) = rest.map found :=
        map_congr_left fun other member => if_neg (ne_of_mem_of_not_mem member apart)
      rw [if_pos rfl, if_pos mem_cons_self, map_cons, if_pos rfl, others]
      simp only [Found.list, named]
    · rw [if_neg same, ih distinct', map_cons, if_neg same]
      simp only [mem_cons, Ne.symm same, false_or]
      split <;> rfl

/-- A scheme that uses another header, or none, tells nothing about a header. -/
theorem tally_concat_of_ne {names : List String} {scheme key : String}
    (other : keyFor headerFor scheme ≠ some key) :
    tally headerFor (names ++ [scheme]) key = tally headerFor names key := by
  have schemes : (names ++ [scheme]).filter (keyFor headerFor · == some key) =
      names.filter (keyFor headerFor · == some key) := by
    simp [filter_append, other]
  have spelling : ((names ++ [scheme]).filterMap headerFor).find? (lower · == key) =
      (names.filterMap headerFor).find? (lower · == key) := by
    rw [filterMap_append, find?_append]
    cases found : headerFor scheme with
    | none => simp [found]
    | some header =>
      have apart : lower header ≠ key := by simpa [keyFor, found] using other
      simp [found, apart]
  rw [tally, tally, schemes, spelling]

/-- The first scheme that uses a header spells it. -/
theorem find?_spelling {names : List String} {key : String} (used : key ∈ keysOf headerFor names) :
    (names.filterMap headerFor).find? (lower · == key) =
        some (tally headerFor names key).spelling ∧
      lower (tally headerFor names key).spelling = key := by
  obtain ⟨name, member, keyed⟩ := mem_keysOf.mp used
  obtain ⟨header, carried, same⟩ := Option.map_eq_some_iff.mp keyed
  have isSome : ((names.filterMap headerFor).find? (lower · == key)).isSome = true :=
    find?_isSome.mpr ⟨header, mem_filterMap.mpr ⟨name, member, carried⟩, by simpa using same⟩
  obtain ⟨first, found⟩ := Option.isSome_iff_exists.mp isSome
  have spelled : lower first = key := by simpa using find?_some found
  rw [tally, found]
  exact ⟨rfl, spelled⟩

/-- A scheme that uses a header is listed with it, and spells it if it is the first one. -/
theorem tally_concat_self {names : List String} {scheme header : String}
    (carried : headerFor scheme = some header) :
    tally headerFor (names ++ [scheme]) (lower header) =
      if lower header ∈ keysOf headerFor names then
        (tally headerFor names (lower header)).list scheme
      else { key := lower header, spelling := header, schemes := [scheme] } := by
  have keyed : keyFor headerFor scheme = some (lower header) := by
    rw [keyFor, carried, Option.map_some]
  have schemes : ((names ++ [scheme]).filter
      (keyFor headerFor · == some (lower header))) =
        names.filter (keyFor headerFor · == some (lower header)) ++ [scheme] := by
    simp [filter_append, keyed]
  have spelling : ((names ++ [scheme]).filterMap headerFor).find?
      (lower · == lower header) = ((names.filterMap headerFor).find?
        (lower · == lower header)).or (some header) := by
    rw [filterMap_append, find?_append]
    simp [carried]
  rw [tally, schemes, spelling, eraseDups_concat]
  by_cases used : lower header ∈ keysOf headerFor names
  · rw [if_pos used]
    rw [(find?_spelling used).1]
    simp [tally, Found.list]
  · rw [if_neg used]
    have nobody : ∀ name ∈ names, keyFor headerFor name ≠ some (lower header) :=
      fun name member same => used (mem_keysOf.mpr ⟨name, member, same⟩)
    have silent : (names.filterMap headerFor).find? (lower · == lower header) = none := by
      rw [find?_eq_none]
      intro other member
      obtain ⟨name, inside, spelled⟩ := mem_filterMap.mp member
      simpa [keyFor, spelled] using nobody name inside
    have unlisted : names.filter (keyFor headerFor · == some (lower header)) = [] :=
      filter_eq_nil_iff.mpr fun name member => by simpa using nobody name member
    simp [silent, unlisted]

/-- The headers of scheme names are told by their keys. -/
theorem findHeaders_eq (names : List String) :
    findHeaders headerFor names = (keysOf headerFor names).map (tally headerFor names) := by
  induction names using reverseRecOn with
  | nil => rfl
  | append_singleton names scheme ih =>
    rw [findHeaders, foldl_append, ← findHeaders, ih, foldl_cons, foldl_nil]
    cases carried : headerFor scheme with
    | none =>
      have silent : keyFor headerFor scheme = none := by rw [keyFor, carried, Option.map_none]
      have same := fun key => @tally_concat_of_ne headerFor names scheme key (by simp [silent])
      simp [keysOf, filterMap_append, silent, same]
    | some header =>
      have keyed : keyFor headerFor scheme = some (lower header) := by
        rw [keyFor, carried, Option.map_some]
      have keys : keysOf headerFor (names ++ [scheme]) =
          if lower header ∈ keysOf headerFor names then keysOf headerFor names
          else keysOf headerFor names ++ [lower header] := by
        simp only [keysOf, filterMap_append, filterMap_cons, filterMap_nil, keyed,
          eraseDups_concat, mem_eraseDups]
      have apart {key : String} (differs : key ≠ lower header) :
          tally headerFor (names ++ [scheme]) key = tally headerFor names key :=
        tally_concat_of_ne fun same => differs (Option.some.inj (keyed.symm.trans same)).symm
      dsimp only
      have distinct : (keysOf headerFor names).Nodup := nodup_eraseDups _
      rw [addFound_map (fun key => (rfl : (tally headerFor names key).key = key)) distinct, keys]
      split
      next used =>
        refine map_congr_left fun key _ => ?_
        split
        next same => rw [same, tally_concat_self carried, if_pos used]
        next differs => rw [apart differs]
      next unused =>
        rw [map_append, map_singleton, tally_concat_self carried, if_neg unused]
        congr 1
        exact map_congr_left fun key member => (apart fun same => unused (same ▸ member)).symm

end Tally

/-! ## The headers of a document -/

/-- Every header is represented in a list without repetitions of its names. -/
theorem exists_mem_foldl_distinct (headers found : List String) (header : String)
    (member : header ∈ found ++ headers) :
    ∃ other ∈ headers.foldl (fun found header =>
        if found.any fun other => lower other == lower header then found
        else found ++ [header]) found, lower other = lower header := by
  induction headers generalizing found header with
  | nil => exact ⟨header, by simpa using member, rfl⟩
  | cons first rest ih =>
    rw [foldl_cons]
    split
    next known =>
      rcases mem_append.mp member with early | late
      · exact ih _ _ (mem_append_left _ early)
      · rcases mem_cons.mp late with rfl | later
        · obtain ⟨kept, inside, same⟩ := any_eq_true.mp known
          obtain ⟨other, there, same'⟩ := ih found kept (mem_append_left _ inside)
          exact ⟨other, there, same'.trans (by simpa using same)⟩
        · exact ih _ _ (mem_append_right _ later)
    next => exact ih _ _ (by simpa using member)

/-- A header of a scheme is one of the document's headers, up to case. -/
theorem exists_documentHeader {schemes : Entries} {name header : String}
    (carried : headerOf (schemes.get? name) = some header) :
    ∃ headers, documentHeaders (.map schemes) = .ok headers ∧
      ∃ other ∈ headers, lower other = lower header := by
  obtain ⟨value, found⟩ : ∃ value, schemes.get? name = some value := by
    cases found : schemes.get? name with
    | none => simp [found, headerOf] at carried
    | some value => exact ⟨value, rfl⟩
  refine ⟨_, rfl, exists_mem_foldl_distinct _ [] header ?_⟩
  rw [nil_append, mem_filterMap]
  exact ⟨_, Entries.mem_of_get? found, by rw [← carried, found]⟩

/-! ## Resolving requirements -/

/-- The schemes that each alternative names. -/
def schemesOf (requirements : List Value) : List (List String) :=
  (requirements.filterMap Value.toEntries?).map fun entries => entries.map fun entry => entry.1.text

/-- The header in which a scheme is carried. -/
def headerIn (schemes : Entries) (name : String) : Option String :=
  headerOf (schemes.get? name)

theorem resolve_eq (own : Option (List Value)) (shared : List Value) (schemes : Entries) :
    resolve (own.elim .null .list) (.list shared) (.map schemes) = .ok {
      alternatives := schemesOf (own.getD shared)
      headers := (findHeaders (headerIn schemes)
        (schemesOf (own.getD shared)).flatten).map fun found =>
          { name := found.spelling
            required := (schemesOf (own.getD shared)).all
              (·.any (keyFor (headerIn schemes) · == some found.key))
            schemes := found.schemes }
      overridesGlobal := own.isSome } := by
  have listed (items : List Value) : alternativesOf (.list items) = .ok (schemesOf items) := by
    cases items <;> rfl
  have chosen : alternativesOf (if own.elim Value.null .list ≠ .null then own.elim .null .list
      else .list shared) = .ok (schemesOf (own.getD shared)) := by
    cases own with
    | none => exact listed shared
    | some items => exact listed items
  have overrides : decide (own.elim Value.null .list ≠ .null) = own.isSome := by
    cases own <;> rfl
  simp only [resolve, chosen, overrides, bind, Except.bind]
  by_cases none : (schemesOf (own.getD shared)).flatten.isEmpty = true
  · rw [if_pos none, isEmpty_iff.mp none]
    rfl
  · rw [if_neg none]
    rfl

/-- The headers of an operation's security.  Their names differ in more than case and are those of
the schemes that the alternatives in effect name.  A header is required if every alternative names
a scheme that is carried in it.  It lists these schemes in the order of first use and is spelled as
first met. -/
theorem resolve_headers (own : Option (List Value)) (shared : List Value) (schemes : Entries) :
    let needed := schemesOf (own.getD shared)
    ∃ security, resolve (own.elim .null .list) (.list shared) (.map schemes) = .ok security ∧
      security.alternatives = needed ∧ security.overridesGlobal = own.isSome ∧
      (security.headers.map fun header => lower header.name).Nodup ∧
      (∀ key, key ∈ security.headers.map (fun header => lower header.name) ↔
        ∃ alternative ∈ needed, ∃ name ∈ alternative, keyFor (headerIn schemes) name = some key) ∧
      ∀ header ∈ security.headers,
        (header.required = true ↔ ∀ alternative ∈ needed, ∃ name ∈ alternative,
          keyFor (headerIn schemes) name = some (lower header.name)) ∧
        header.schemes = (needed.flatten.filter
          (keyFor (headerIn schemes) · == some (lower header.name))).eraseDups ∧
        (needed.flatten.filterMap (headerIn schemes)).find?
          (lower · == lower header.name) = some header.name ∧
        (header.required = true → security.requiresAuth = true) ∧
        ∃ headers, documentHeaders (.map schemes) = .ok headers ∧
          ∃ other ∈ headers, lower other = lower header.name := by
  intro needed
  refine ⟨_, resolve_eq own shared schemes, rfl, rfl, ?_⟩
  have mentioned (key : String) :
      key ∈ keysOf (headerIn schemes) needed.flatten ↔
        ∃ alternative ∈ needed, ∃ name ∈ alternative, keyFor (headerIn schemes) name = some key := by
    rw [mem_keysOf]
    grind [mem_flatten]
  rw [findHeaders_eq]
  simp only [map_map]
  have names : (keysOf (headerIn schemes) needed.flatten).map
      (fun key => lower
        (tally (headerIn schemes) needed.flatten key).spelling) =
      keysOf (headerIn schemes) needed.flatten := by
    rw [map_congr_left fun key used => (find?_spelling used).2, map_id']
  refine ⟨?_, fun key => ?_, fun header member => ?_⟩
  · show (map (fun key => lower (tally _ needed.flatten key).spelling) _).Nodup
    rw [names]
    exact nodup_eraseDups _
  · show key ∈ map (fun key => lower (tally _ needed.flatten key).spelling) _ ↔ _
    rw [names, mentioned key]
  · obtain ⟨key, used, rfl⟩ := mem_map.mp member
    obtain ⟨first, same⟩ := find?_spelling used
    obtain ⟨alternative, listed, name, inside, carried⟩ := (mentioned key).mp used
    obtain ⟨header, spelled, lowered⟩ := Option.map_eq_some_iff.mp carried
    dsimp only [Function.comp_apply]
    rw [same]
    have required : needed.all (·.any (keyFor (headerIn schemes) · == some key)) = true ↔
        ∀ alternative ∈ needed, ∃ name ∈ alternative, keyFor (headerIn schemes) name = some key := by
      simp
    refine ⟨required, rfl, first, fun always => ?_, ?_⟩
    · have nonempty : ∀ alternative ∈ needed, alternative ≠ [] := fun alternative listed => by
        obtain ⟨name, inside, -⟩ := required.mp always alternative listed
        exact ne_nil_of_mem inside
      have present : needed ≠ [] := ne_nil_of_mem listed
      have both := And.intro present nonempty
      simpa [Security.requiresAuth] using both
    · rw [← lowered]
      exact exists_documentHeader spelled

end Bindery.Security
