import Bindery.Package.Install
import Bindery.Proofs.File.Steps

/-!
# Writing a package aside

The units of a package are written below a directory of their own.  Whatever
happens on the way, the rest of the tree is not touched.  When all units are
written, the directory holds their files and the directories that these need:
of several units with one path the last one counts.
-/

namespace Bindery.Package

open List FileTree

def SourceUnit.names (unit : SourceUnit) : List String :=
  (Path.ofText unit.path).names

/-- The path of a unit stays inside the directory that it starts from. -/
structure SourceUnit.IsInside (unit : SourceUnit) : Prop where
  relative : (Path.ofText unit.path).isAbsolute = false
  plain : ".." ∉ unit.names

/-- What units make stand at a place of their package: the last unit of that path, or a directory
on the way to a unit. -/
def laidOut (units : List SourceUnit) (place : List String) : Option FileItem :=
  match units.reverse.find? fun unit => unit.names = place with
  | some unit => some (.file unit.content)
  | none =>
    if place = [] ∨ ∃ unit ∈ units, place <+: unit.names then some .directory else none

theorem laidOut_concat (units : List SourceUnit) {unit : SourceUnit} (named : unit.names ≠ [])
    (place : List String) :
    laidOut (units ++ [unit]) place =
      if place = unit.names then some (.file unit.content)
      else (laidOut units place).or
        (if place <+: unit.names.dropLast then some .directory else none) := by
  by_cases here : place = unit.names
  · rw [if_pos here]
    simp [laidOut, here]
  · rw [if_neg here, laidOut, laidOut, reverse_concat,
      find?_cons_of_neg (by simpa using Ne.symm here)]
    cases units.reverse.find? fun unit => unit.names = place with
    | some other => rfl
    | none =>
      simp only [prefix_dropLast_iff named here]
      by_cases before : place = [] ∨ ∃ unit ∈ units, place <+: unit.names
      · have before' : place = [] ∨ ∃ other ∈ units ++ [unit], place <+: other.names := by
          rcases before with root | ⟨other, member, onWay⟩
          · exact .inl root
          · exact .inr ⟨other, mem_append_left _ member, onWay⟩
        simp only [if_pos before, if_pos before', Option.some_or]
      · have either : (place = [] ∨ ∃ other ∈ units ++ [unit], place <+: other.names) ↔
            place <+: unit.names := by
          constructor
          · rintro (root | ⟨other, member, onWay⟩)
            · exact absurd (.inl root) before
            · rcases mem_append.mp member with early | last
              · exact absurd (.inr ⟨other, early, onWay⟩) before
              · rwa [mem_singleton.mp last] at onWay
          · intro onWay
            exact .inr ⟨unit, mem_append_right _ mem_cons_self, onWay⟩
        simp only [if_neg before, either, Option.none_or]

/-- The tree while units are written: `base` outside their directory, and in it what the units
make. -/
structure Staged (base : FileTree) (place : List String) (units : List SourceUnit)
    (tree : FileTree) : Prop where
  closed : tree.IsClosed
  outside : tree.remove place = base
  directory : tree.item? place = some .directory
  inside : ∀ inner, tree.item? (place ++ inner) = laidOut units inner

theorem staged_withDirectory {base : FileTree} {place : List String} (closed : base.IsClosed)
    (missing : base.has place = false) (parent : base.item? place.dropLast = some .directory) :
    Staged base place [] (base.withDirectory place) := by
  have item := item?_withDirectory missing
  refine ⟨closed.withDirectory missing parent, ?_, by rw [item, if_pos rfl], fun inner => ?_⟩
  · rw [remove_withDirectory_self, closed.remove_eq_self missing]
  · rw [item]
    by_cases here : inner = []
    · simp [laidOut, here]
    · have below : base.item? (place ++ inner) = none := by
        apply item?_of_not_has
        rw [Bool.eq_false_iff]
        intro present
        rw [closed.has_above present (prefix_append _ _)] at missing
        cases missing
      simp [laidOut, here, below]

namespace Staged

variable {base : FileTree} {staging : Path} {units : List SourceUnit} {disk : Disk}

/-- Once the directories on the way to a unit are there, its file completes what was laid out. -/
theorem setFile {working : List String} {tree later : FileTree} {unit : SourceUnit}
    (staged : Staged base (staging.place working) units tree)
    (grown : tree.Grown (staging.origin working) (staging.descend unit.names).parent.names later)
    (closed : later.IsClosed) (outside : later.remove (staging.place working) = base)
    (opened : later.IsOpen ((staging.descend unit.names).parent.place working))
    (free : later.item? (staging.place working ++ unit.names) ≠ some .directory)
    (home : tree.item? working = some .directory) :
    Staged base (staging.place working) (units ++ [unit])
        (later.setFile (staging.place working ++ unit.names) unit.content) ∧
      (later.setFile (staging.place working ++ unit.names) unit.content).item? working =
        some .directory := by
  have named : unit.names ≠ [] := by
    intro none
    rw [none, append_nil] at free
    exact free (grown.item?_of_some staged.directory)
  have inner : staging.place working ++ unit.names ≠ [] := by simp [named]
  have way : (staging.descend unit.names).parent.place working =
      staging.place working ++ unit.names.dropLast := by
    show staging.origin working ++ (staging.names ++ unit.names).dropLast = _
    rw [dropLast_append_of_ne_nil named, ← append_assoc]
    rfl
  have onWay (place : List String) := grown.item?_eq opened (staging.place working ++ place)
  have kept {other : List String} (directory : tree.item? other = some .directory) :=
    item?_setFile_directory unit.content inner free (grown.item?_of_some directory)
  refine ⟨⟨closed.setFile inner ?_ free, ?_, kept staged.directory, fun place => ?_⟩, kept home⟩
  · rw [dropLast_append_of_ne_nil named, ← way]
    exact opened _ prefix_rfl
  · rw [remove_setFile (prefix_append _ _)]
    exact outside
  · rw [laidOut_concat units named, item?_setFile later inner, onWay, staged.inside]
    show (if staging.place working ++ place = staging.place working ++ unit.names then _
      else Option.or _
        (if _ <+: (staging.descend unit.names).parent.place working then _ else _)) = _
    simp only [way, append_cancel_left_eq, prefix_append_right_inj]

/-- Writing a unit leaves everything outside as it is, and adds the unit if it ends well. -/
theorem writeUnit (sound : disk.Sound) (plain : ".." ∉ staging.names)
    (staged : Staged base (staging.place disk.working) units disk.tree) {unit : SourceUnit}
    (contained : unit.IsInside) :
    ∃ result tree steps, outcome (Package.writeUnit staging unit) disk =
        (result, { disk with tree, steps }) ∧
      tree.remove (staging.place disk.working) = base ∧
      (result = .ok () → Staged base (staging.place disk.working) (units ++ [unit]) tree ∧
        tree.item? disk.working = some .directory) := by
  have ran : outcome (Package.writeUnit staging unit) disk =
      outcome (OnDisk.ensureDirectories (staging.descend unit.names).parent >>= fun _ =>
        OnDisk.writeFile (staging.descend unit.names) unit.content) disk := by
    rw [Package.writeUnit, Path.append_of_relative staging contained.relative]
    rfl
  have plain' : ".." ∉ (staging.descend unit.names).names := by
    rw [Path.descend, List.mem_append, not_or]
    exact ⟨plain, contained.plain⟩
  have plain'' : ".." ∉ (staging.descend unit.names).parent.names :=
    fun member => plain' ((List.dropLast_prefix _).subset member)
  have opened := staged.closed.isOpen staged.directory
  obtain ⟨result, tree, steps, made, closed, grown, whole, -⟩ :=
    OnDisk.creates_ensureDirectories plain'' disk sound
  have outside : tree.remove (staging.place disk.working) = base := by
    have onWay : staging.origin disk.working ++ (staging.names ++ unit.names).dropLast <+:
        staging.place disk.working ++ unit.names := by
      rw [Path.place, List.append_assoc]
      exact (List.prefix_append_right_inj _).mpr (List.dropLast_prefix _)
    rw [grown.remove_eq opened (List.prefix_append _ _) onWay]
    exact staged.outside
  rw [ran, outcome_bind, made]
  cases result with
  | error fault =>
    refine ⟨.error fault, tree, steps, rfl, outside, ?_⟩
    intro ended
    cases ended
  | ok =>
    have written :=
      OnDisk.writeFile_cases { disk with tree, steps } _ plain' unit.content
    rw [Path.place_descend] at written
    rcases written with ⟨steps', free, ended⟩ | ⟨fault, steps', stopped⟩
    · have staged' := staged.setFile grown closed outside (whole rfl).1 free sound.home
      exact ⟨.ok (), _, steps', ended, staged'.1.outside, fun _ => staged'⟩
    · refine ⟨.error fault, tree, steps', stopped, outside, ?_⟩
      intro ended
      cases ended

end Staged

theorem outcome_onDisk {α : Type} (action : OnDisk α) (disk : Disk) :
    outcome (onDisk action) disk =
      match outcome action disk with
      | (.ok value, later) => (.ok value, later)
      | (.error fault, later) => (.error (.step fault), later) := by
  show StateT.run (action.run >>= _) disk = _
  rw [run_bind_outcome]
  rcases outcome action disk with ⟨result, later⟩
  cases result <;> rfl

/-- Writing units leaves everything outside as it is; if it ends well, all units were produced and
are laid out. -/
theorem Staged.writeUnits {base : FileTree} {staging : Path} {rest : List (Except Fault SourceUnit)}
    (contained : ∀ unit, .ok unit ∈ rest → unit.IsInside) {units : List SourceUnit} {disk : Disk}
    (sound : disk.Sound) (plain : ".." ∉ staging.names)
    (staged : Staged base (staging.place disk.working) units disk.tree) :
    ∃ result tree steps, outcome (Package.writeUnits staging rest) disk =
        (result, { disk with tree, steps }) ∧
      tree.remove (staging.place disk.working) = base ∧
      (result = .ok () → ∃ written, rest = written.map .ok ∧
        Staged base (staging.place disk.working) (units ++ written) tree ∧
        Disk.Sound { disk with tree, steps }) := by
  induction rest generalizing units disk with
  | nil =>
    refine ⟨.ok (), disk.tree, disk.steps, rfl, staged.outside, fun _ => ⟨[], rfl, ?_, sound⟩⟩
    rwa [List.append_nil]
  | cons first rest ih =>
    cases first with
    | error fault =>
      refine ⟨.error (.raised fault), disk.tree, disk.steps, rfl, staged.outside, ?_⟩
      intro ended
      cases ended
    | ok unit =>
      have contained' := fun other member => contained other (List.mem_cons_of_mem _ member)
      obtain ⟨result, tree, steps, ran, outside, onward⟩ :=
        staged.writeUnit sound plain (contained unit List.mem_cons_self)
      rw [Package.writeUnits, outcome_bind, outcome_onDisk, ran]
      cases result with
      | error fault =>
        refine ⟨.error (.step fault), tree, steps, rfl, outside, ?_⟩
        intro ended
        cases ended
      | ok =>
        obtain ⟨staged', home⟩ := onward rfl
        obtain ⟨result', tree', steps', ran', outside', onward'⟩ :=
          @ih contained' _ { disk with tree, steps } ⟨staged'.closed, home, sound.reported⟩
            staged'
        refine ⟨result', tree', steps', ran', outside', fun ended => ?_⟩
        obtain ⟨written, same, staged'', sound''⟩ := onward' ended
        refine ⟨unit :: written, by rw [same]; rfl, ?_, sound''⟩
        rwa [List.append_assoc] at staged''

end Bindery.Package
