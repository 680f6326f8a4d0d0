import Bindery.Proofs.Location.Keys
import Bindery.Proofs.Resolution.Reach

/-!
# Chains of references

Following references is taking single steps, from an object that is a reference
to what it leads to in the document it names.  A chain of steps that ends never
takes the same reference twice.  So what is reached within the limit is what
following returns, unless two references of the chain are taken for one because
they have the same key, which needs a location with a `#` in it.
-/

namespace Bindery

open List Reference

/-! ## Joined locations -/

theorem Text.eq_append_of_afterFront? {front text rest : List Char}
    (found : afterFront? front text = some rest) : text = front ++ rest := by
  induction front generalizing text with
  | nil => exact Option.some.inj found
  | cons a front ih =>
    cases text with
    | nil => cases found
    | cons b text =>
      rw [afterFront?] at found
      split at found
      next same => rw [same, ih found, cons_append]
      next => cases found

variable {base text : String} {working : List String} {reference : Reference}

namespace Url

theorem text_ne_empty {url : Url} (schemed : url.scheme ≠ "") : url.text ≠ "" := by
  simp [text, schemed]

/-- A location that is a URL has a scheme. -/
theorem scheme_ne_empty {url : Url} (isUrl : Location.isUrl base = true)
    (found : split? base = some url) : url.scheme ≠ "" := by
  have begins : ∃ rest, base.toList = "http://".toList ++ rest ∨
      base.toList = "https://".toList ++ rest := by
    rw [Location.isUrl, Bool.or_eq_true] at isUrl
    rcases isUrl with begins | begins <;>
      obtain ⟨rest, behind⟩ := Option.isSome_iff_exists.mp begins
    · exact ⟨rest, .inl (Text.eq_append_of_afterFront? behind)⟩
    · exact ⟨rest, .inr (Text.eq_append_of_afterFront? behind)⟩
  rw [split?_eq] at found
  dsimp only at found
  split at found
  · cases found
    obtain ⟨rest, begins | begins⟩ := begins <;> rw [begins] <;>
      simp [splitScheme?, Text.cutChars, ofParts, isSchemeChar]
  · cases found

theorem join?_ne_empty {joined : String} (isUrl : Location.isUrl base = true) (given : text ≠ "")
    (found : join? base text = some joined) : joined ≠ "" := by
  unfold join? at found
  rw [if_neg given] at found
  split at found
  · cases found
    exact given
  · obtain ⟨start, divided, found⟩ := Option.bind_eq_some_iff.mp found
    obtain ⟨url, -, found⟩ := Option.bind_eq_some_iff.mp found
    have schemed := scheme_ne_empty isUrl divided
    split at found
    · cases found
      exact given
    next same =>
      rw [← not_not.mp (not_or.mp same).1] at schemed
      split at found
      · cases found
        exact text_ne_empty schemed
      · extract_lets hosted query at found
        have host : hosted.scheme ≠ "" := by
          unfold hosted
          split <;> exact schemed
        split at found <;> cases found <;> exact text_ne_empty host

end Url

theorem Location.join_ne_empty {target location : String} (given : target ≠ "")
    (joined : join working base target = .ok location) : location ≠ "" := by
  have resolved (path : Path) : path.resolve working ≠ "" := by
    simp [Path.resolve, Path.absoluteText]
  unfold join at joined
  split at joined
  · cases joined
    exact given
  next elsewhere =>
    split at joined
    next isUrl =>
      split at joined
      next found =>
        cases joined
        exact Url.join?_ne_empty isUrl given found
      next => cases joined
    · split at joined <;> cases joined
      · rw [absolute, if_neg elsewhere]
        split
        next same => exact given
        · exact resolved _
      · exact resolved _

/-- A reference stays in its document or leads to one with a location. -/
theorem Reference.ofText_location (named : ofText working text base = .ok reference) :
    reference.location = base ∨ reference.location ≠ "" := by
  simp only [ofText] at named
  split at named
  · cases named
    exact .inl rfl
  next given =>
    obtain ⟨location, joined, rest⟩ := ok_of_bind named
    cases rest
    exact .inr (Location.join_ne_empty given joined)

/-! ## Chains -/

def Value.IsFinal (object : Value) : Prop :=
  ∀ text, object.get? "$ref" ≠ some (.str text)

/-- No two of some references have one key. -/
def Reference.KeysApart (references : List Reference) : Prop :=
  ∀ first ∈ references, ∀ second ∈ references, first.key = second.key → first = second

namespace Sources

variable {sources : Sources} {references : List Reference} {start last : Value × String}

/-- References lead one after the other from an object in the document at a location to another
one, with the location of its document. -/
inductive Leads (sources : Sources) : List Reference → Value × String → Value × String → Prop
  | nil (place : Value × String) : Leads sources [] place place
  | cons {object value : Value} {base text : String} {reference : Reference}
      {references : List Reference} {last : Value × String}
      (written : object.get? "$ref" = some (.str text))
      (named : ofText sources.working text base = .ok reference)
      (found : sources.targetAt text reference = .ok value)
      (rest : Leads sources references (value, reference.location) last) :
      Leads sources (reference :: references) (object, base) last

/-- There is only one chain that ends. -/
theorem Leads.unique {references' : List Reference} {last' : Value × String}
    (leads : sources.Leads references start last) (final : last.1.IsFinal)
    (leads' : sources.Leads references' start last') (final' : last'.1.IsFinal) :
    references = references' ∧ last = last' := by
  induction leads generalizing references' with
  | nil place =>
    cases leads' with
    | nil => exact ⟨rfl, rfl⟩
    | cons written => exact absurd written (final _)
  | cons written named found rest ih =>
    cases leads' with
    | nil => exact absurd written (final' _)
    | cons written' named' found' rest' =>
      rw [written] at written'
      cases written'
      rw [named] at named'
      cases named'
      rw [found] at found'
      cases found'
      obtain ⟨rfl, rfl⟩ := ih final rest'
      exact ⟨rfl, rfl⟩

/-- A reference of a chain leads to where the chain goes on. -/
theorem Leads.after {rest : List Reference}
    (leads : sources.Leads (references ++ reference :: rest) start last) :
    ∃ text value, sources.targetAt text reference = .ok value ∧
      sources.Leads rest (value, reference.location) last := by
  induction references generalizing start with
  | nil =>
    cases leads with
    | cons written named found rest => exact ⟨_, _, found, rest⟩
  | cons first others ih =>
    cases leads with
    | cons written named found rest => exact ih rest

/-- A chain that ends takes no reference twice. -/
theorem Leads.nodup (leads : sources.Leads references start last) (final : last.1.IsFinal) :
    references.Nodup := by
  induction leads with
  | nil => exact nodup_nil
  | @cons object value base text reference references last written named found rest ih =>
    refine nodup_cons.mpr ⟨fun again => ?_, ih final⟩
    -- behind the second time the chain would have to go on as behind the first time
    obtain ⟨before, after, rfl⟩ := append_of_mem again
    obtain ⟨text', value', found', onward⟩ := rest.after
    rw [targetAt_eq_ok found text'] at found'
    cases found'
    have same := congrArg length (rest.unique final onward final).1
    simp only [length_append, length_cons] at same
    omega

/-- The locations of a chain that starts at an unmarked one are unmarked. -/
theorem Leads.unmarked (here : ∀ name ∈ sources.working, Text.Unmarked name)
    (leads : sources.Leads references start last) (unmarked : Text.Unmarked start.2) :
    ∀ reference ∈ references, Text.Unmarked reference.location := by
  induction leads with
  | nil => exact forall_mem_nil _
  | cons written named found rest ih =>
    have first := unmarked_ofText here unmarked named
    exact forall_mem_cons.mpr ⟨first, ih first⟩

/-- A chain ends within a number of steps, and it takes no two references with one key and none with
a key that was visited. -/
def Arrives (sources : Sources) (fuel : Nat) (visited : List String) (start last : Value × String) :
    Prop :=
  ∃ references, sources.Leads references start last ∧ last.1.IsFinal ∧ references.length ≤ fuel ∧
    (references.map key).Nodup ∧ ∀ reference ∈ references, reference.key ∉ visited

variable {fuel : Nat} {visited : List String} {object : Value} {base text : String}

theorem arrives_of_final (final : object.IsFinal) :
    sources.Arrives fuel visited (object, base) last ↔ last = (object, base) := by
  constructor
  · rintro ⟨references, leads, -⟩
    cases leads with
    | nil => rfl
    | cons written => exact absurd written (final _)
  · rintro rfl
    exact ⟨[], .nil _, final, Nat.zero_le _, nodup_nil, forall_mem_nil _⟩

theorem arrives_of_reference (written : object.get? "$ref" = some (.str text)) :
    sources.Arrives fuel visited (object, base) last ↔
      ∃ less reference value, fuel = less + 1 ∧
        ofText sources.working text base = .ok reference ∧ reference.key ∉ visited ∧
        sources.targetAt text reference = .ok value ∧
        sources.Arrives less (reference.key :: visited) (value, reference.location) last := by
  constructor
  · rintro ⟨references, leads, final, within, apart, fresh⟩
    cases leads with
    | nil => exact absurd written (final _)
    | cons written' named found rest =>
      rw [written] at written'
      cases written'
      obtain ⟨less, rfl⟩ := Nat.exists_eq_add_of_lt (Nat.lt_of_lt_of_le (Nat.succ_pos _) within)
      rw [Nat.zero_add] at within ⊢
      obtain ⟨new, others⟩ := forall_mem_cons.mp fresh
      obtain ⟨once, apart⟩ := nodup_cons.mp apart
      refine ⟨less, _, _, rfl, named, new, found, _, rest, final, Nat.le_of_succ_le_succ within,
        apart, fun reference inside => not_mem_cons_of_ne_of_not_mem ?_ (others _ inside)⟩
      exact fun same => once (same ▸ mem_map_of_mem inside)
  · rintro ⟨less, reference, value, rfl, named, new, found, references, leads, final, within, apart,
      fresh⟩
    refine ⟨reference :: references, .cons written named found leads, final,
      Nat.succ_le_succ within, nodup_cons.mpr ⟨?_, apart⟩, forall_mem_cons.mpr ⟨new, ?_⟩⟩
    · intro again
      obtain ⟨other, inside, same⟩ := mem_map.mp again
      exact fresh other inside (same ▸ mem_cons_self)
    · exact fun other inside seen => fresh other inside (mem_cons_of_mem _ seen)

/-- A fault of following references: a failed resolution, unless a location cannot be joined or the
library fails otherwise than by a document. -/
def IsFollowFault (sources : Sources) (fault : Fault) : Prop :=
  (∃ cause, fault = .resolution cause) ∨
    (∃ text base, ofText sources.working text base = .error fault) ∨
    ∃ location, sources.library.load location = .error fault ∧ ∀ cause, fault ≠ .document cause

theorem isFollowFault_of_targetAt {fault : Fault}
    (failed : sources.targetAt text reference = .error fault) : sources.IsFollowFault fault := by
  rw [targetAt] at failed
  cases provided : sources.documentAt reference.location with
  | error fault' =>
    rw [provided] at failed
    cases failed
    unfold documentAt at provided
    split at provided
    · cases provided
    · split at provided
      · cases provided
      · cases provided
        exact .inl ⟨_, rfl⟩
      next fault other loaded =>
        cases provided
        exact .inr (.inr ⟨_, loaded, fun cause same => other cause same⟩)
  | ok document =>
    rw [provided] at failed
    cases found : Pointer.resolve text document reference.pointer with
    | ok value => simp [bind, Except.bind, found] at failed
    | error cause =>
      refine .inl ⟨cause, ?_⟩
      simpa [bind, Except.bind, found, eq_comm] using failed

/-- What is found within some steps is where a chain arrives. -/
theorem followedWithin_eq_ok_iff :
    sources.followedWithin fuel visited object base = .ok last ↔
      sources.Arrives fuel visited (object, base) last := by
  induction fuel generalizing visited object base with
  | zero =>
    unfold followedWithin
    split
    next text written =>
      rw [arrives_of_reference written]
      refine ⟨nofun, ?_⟩
      rintro ⟨_, _, _, ⟨⟩, -⟩
    next final => rw [arrives_of_final final, Except.ok.injEq, eq_comm]
  | succ fuel ih =>
    unfold followedWithin
    split
    next text written =>
      rw [arrives_of_reference written]
      constructor
      · intro returned
        obtain ⟨reference, named, rest⟩ := ok_of_bind returned
        split at rest
        · cases rest
        next new =>
          obtain ⟨value, found, onward⟩ := ok_of_bind rest
          exact ⟨fuel, reference, value, rfl, named, mt contains_iff_mem.mpr new, found,
            ih.mp onward⟩
      · rintro ⟨_, reference, value, ⟨⟩, named, new, found, arrived⟩
        rw [named]
        show (if visited.contains reference.key then _ else _) = _
        rw [if_neg (mt contains_iff_mem.mp new), found]
        exact ih.mpr arrived
    next final => rw [arrives_of_final final, Except.ok.injEq, eq_comm]

theorem isFollowFault_of_followedWithin {fault : Fault}
    (failed : sources.followedWithin fuel visited object base = .error fault) :
    sources.IsFollowFault fault := by
  induction fuel generalizing visited object base with
  | zero =>
    unfold followedWithin at failed
    split at failed <;> cases failed
    exact .inl ⟨_, rfl⟩
  | succ fuel ih =>
    unfold followedWithin at failed
    split at failed
    next text _ =>
      cases named : ofText sources.working text base with
      | error fault' =>
        rw [named] at failed
        cases failed
        exact .inr (.inl ⟨_, _, named⟩)
      | ok reference =>
        rw [named] at failed
        replace failed : (if visited.contains reference.key then _ else _) = _ := failed
        split at failed
        · cases failed
          exact .inl ⟨_, rfl⟩
        · cases found : sources.targetAt text reference with
          | error fault' =>
            rw [found] at failed
            cases failed
            exact isFollowFault_of_targetAt found
          | ok value =>
            rw [found] at failed
            exact ih failed
    next => cases failed

end Sources

namespace Resolving

variable {sources : Sources}

theorem follow_of_final {object : Value} (final : object.IsFinal) (base : String) :
    follow sources object base = pure (object, baseOf sources base) := by
  rw [follow, followLimit, followWithin]
  split
  next text written => exact absurd written (final text)
  next => rfl

/-- A chain keeps to the documents that have locations. -/
theorem baseOf_of_leads {references : List Reference} {start last : Value × String}
    (leads : sources.Leads references start last) (own : baseOf sources start.2 = start.2) :
    baseOf sources last.2 = last.2 := by
  induction leads with
  | nil => exact own
  | cons written named found rest ih =>
    refine ih ?_
    rcases ofText_location named with same | given
    · rw [same]
      exact own
    · exact if_neg given

/-- Following the references of an object returns exactly what its chain of references ends at
within 64 steps, as long as no two references of the chain share a key, which they never do if the
first location has no `#`.  It ends with a failed resolution otherwise, unless a location cannot be
joined or the library fails in another way.  What it returns has no reference to follow. -/
theorem follow_eq_ok_iff {findings : Findings} (agrees : findings.cache.Agrees sources)
    (object : Value) (base : String) :
    let result := ((follow sources object base).start findings).1
    let start := (object, baseOf sources base)
    (∀ last, result = .ok last ↔
      ∃ references, sources.Leads references start last ∧ last.1.IsFinal ∧
        references.length ≤ 64 ∧ Reference.KeysApart references) ∧
    ((∀ name ∈ sources.working, Text.Unmarked name) → Text.Unmarked start.2 →
      ∀ references last, sources.Leads references start last → Reference.KeysApart references) ∧
    (∀ fault, result = .error fault → sources.IsFollowFault fault) ∧
    (∀ last, result = .ok last → follow sources last.1 last.2 = pure last) := by
  intro result start
  obtain ⟨cache, -, ran⟩ :=
    followWithin_looks followLimit [] object (baseOf sources base) findings agrees
  have same : result = sources.followedWithin followLimit [] object (baseOf sources base) :=
    congrArg Prod.fst ran
  refine ⟨fun last => ?_, ?_, fun fault failed => ?_, fun last returned => ?_⟩
  · rw [same, Sources.followedWithin_eq_ok_iff]
    constructor
    · rintro ⟨references, leads, final, within, apart, -⟩
      exact ⟨references, leads, final, within, fun first inside second inside' =>
        List.inj_on_of_nodup_map apart inside inside'⟩
    · rintro ⟨references, leads, final, within, apart⟩
      exact ⟨references, leads, final, within, (leads.nodup final).map_on apart, by simp⟩
  · intro here unmarked references last leads first inside second inside'
    have clear := leads.unmarked here unmarked
    exact Reference.eq_of_key_eq (clear first inside) (clear second inside')
  · exact Sources.isFollowFault_of_followedWithin (same ▸ failed)
  · obtain ⟨references, leads, final, -⟩ :=
      Sources.followedWithin_eq_ok_iff.mp (same ▸ returned)
    have own : baseOf sources start.2 = start.2 := by
      show baseOf sources (baseOf sources base) = baseOf sources base
      unfold baseOf
      split <;> simp_all
    rw [follow_of_final final, baseOf_of_leads leads own]

/-- A document with a reference to another document, which has a `#` in its own location. -/
def hashedSources : Sources where
  library := { documents := [("/a", .ok (.map [(.str "b#", .map [(.str "p", .map [])])]))] }
  working := []
  root :=
    { location := "/a#b"
      dialect := .v31
      root := [(.str "p", .map [(.str "$ref", .str "a#b%23/p")])] }
  bound := 2

theorem hashedSources_leads :
    hashedSources.Leads [⟨"/a", "b#/p"⟩] (.map [(.str "$ref", .str "a#b%23/p")], "/a#b")
      (.map [], "/a") :=
  .cons rfl (by decide +kernel) (by decide +kernel) (.nil _)

theorem isFinal_nil : (Value.map []).IsFinal := by
  rintro text ⟨⟩

/-- A reference into another document is followed to its end. -/
theorem follow_eq_ok_of_marked :
    ((follow hashedSources (.map [(.str "$ref", .str "a#b%23/p")]) "").start
      (Findings.start hashedSources)).1 = .ok (.map [], "/a") := by
  refine ((follow_eq_ok_iff (Cache.Agrees.start hashedSources) _ "").1 _).mpr
    ⟨_, hashedSources_leads, isFinal_nil, by decide, ?_⟩
  intro first inside second inside' _
  rw [List.mem_singleton.mp inside, List.mem_singleton.mp inside']

/-- One step before, the same chain is taken for a cycle, because two of its references have one
key. -/
theorem marked_chain_taken_for_cycle :
    hashedSources.Leads [⟨"/a#b", "/p"⟩, ⟨"/a", "b#/p"⟩] (.map [(.str "$ref", .str "#/p")], "/a#b")
      (.map [], "/a") ∧ (Value.map []).IsFinal ∧
    ((follow hashedSources (.map [(.str "$ref", .str "#/p")]) "").start
      (Findings.start hashedSources)).1 = .error (.resolution (.cycle "a#b%23/p")) := by
  refine ⟨.cons rfl (by decide +kernel) (by decide +kernel) hashedSources_leads, isFinal_nil, ?_⟩
  decide +kernel

end Resolving

end Bindery
