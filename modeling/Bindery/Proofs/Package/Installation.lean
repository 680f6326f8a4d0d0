import Bindery.Proofs.Package.Exchange

/-!
# Installing all or nothing

An installation that stops has changed nothing: wherever it was interrupted, what
it had created is removed and the old package is back in its place.  An
installation that returns has replaced the package by its units, and outside the
package only the directories on the way to it may be new.
-/

namespace Bindery

open Disk FileTree

namespace Package

namespace Site

variable {site : Site} {disk : Disk} {base tree : FileTree} {fresh backup : String}

/-! ## Staging and replacing -/

variable {steps : Nat}

theorem not_below_freshName {front back : String} {item : List String × FileItem}
    (member : item ∈ tree.items) {place : List String} :
    ¬place ++ [freshName { disk with tree, steps } front back] <+: item.1 := by
  intro below
  have unused := @Disk.freshName_notMem { disk with tree, steps } front back item member
  exact unused (below.subset (by simp))

variable {units : List SourceUnit}

theorem backed_of_has (ready : site.Ready disk base fresh)
    (staged : Staged base (site.ground disk ++ [fresh]) units tree)
    (present : Disk.has { disk with tree, steps } site.target = true)
    (named : Disk.freshName { disk with tree, steps } ("." ++ site.package ++ ".") ".old" = backup)
    (fits : FileTree.Fits backup) (missing : tree.has (site.ground disk ++ [backup]) = false) :
    site.Backed disk tree fresh backup := by
  have dots := ne_dots_of_isIdentifier ready.identifier
  have beside : IsBeside site.package backup := by
    rw [← named]
    exact isBeside_freshName ready.identifier _ (by decide) (by decide)
  rw [Disk.has, ready.target_eq] at present
  split at present
  next place located =>
    obtain ⟨rfl, fits'⟩ := ready.of_locate dots located
    refine ⟨beside, fits, fits', ?_, missing, ?_, present⟩
    · rintro rfl
      rw [FileTree.has, staged.directory] at missing
      cases missing
    · intro item member
      rw [← named]
      exact not_below_freshName member
  next => cases present

theorem outcome_reserve (site : Site) (disk : Disk) :
    outcome site.reserve disk =
      if disk.has site.target then
        match outcome (site.makeTemporary ".old") disk with
        | (.ok path, later) => (.ok (some path), later)
        | (.error fault, later) => (.error (.step fault), later)
      else (.ok none, disk) := by
  rw [reserve, outcome_bind]
  show outcome (if disk.has site.target then _ else _) disk = _
  split
  · rw [outcome_bind, outcome_onDisk]
    rcases outcome (site.makeTemporary ".old") disk with ⟨result, later⟩
    cases result <;> rfl
  · rfl

/-- A staged package can be exchanged, unless the directory for the old one cannot be created. -/
theorem Ready.reserve_cases (ready : site.Ready disk base fresh)
    (sound : Sound { disk with tree, steps })
    (staged : Staged base (site.ground disk ++ [fresh]) units tree) :
    (∃ setback steps', outcome site.reserve { disk with tree, steps } =
        (.error setback, { disk with tree, steps := steps' })) ∨
      ∃ backup later, outcome site.reserve { disk with tree, steps } = (.ok backup, later) ∧
        site.Exchanges disk base tree fresh backup later := by
  rw [outcome_reserve]
  by_cases present : has { disk with tree, steps } site.target = true
  · rw [if_pos present]
    have beside := @isBeside_freshName site.package ".old" ready.identifier
      { disk with tree, steps } (by decide) (by decide)
    rcases OnDisk.makeTemporary_cases sound ready.plain rfl beside.single beside.dots
        beside.usable with ⟨steps', missing, fits, -, made⟩ | ⟨fault, steps', failed, -⟩
    · have backed := backed_of_has ready staged present rfl (fits _ (by simp)) missing
      refine .inr ⟨_, _, ?_, ready.exchanges_some backed staged.outside steps'⟩
      rw [makeTemporary, made]
    · refine .inl ⟨.step fault, steps', ?_⟩
      rw [makeTemporary, failed]
  · rw [if_neg present]
    exact .inr ⟨none, _, rfl, ready.exchanges_none staged.outside staged.closed steps⟩

/-- Staging leaves the tree outside as it is, and what it returns can be exchanged. -/
theorem Ready.stage_cases (ready : site.Ready disk base fresh)
    {units : List (Except Fault SourceUnit)} (contained : ∀ unit, .ok unit ∈ units → unit.IsInside)
    (sound : Sound { disk with tree, steps })
    (staged : Staged base (site.ground disk ++ [fresh]) [] tree) :
    (∃ setback tree' steps',
        outcome (site.stage (site.directory.descend [fresh]) units) { disk with tree, steps } =
          (.error setback, { disk with tree := tree', steps := steps' }) ∧
        tree'.remove (site.ground disk ++ [fresh]) = base) ∨
      ∃ written tree' backup later, units = written.map .ok ∧
        Staged base (site.ground disk ++ [fresh]) written tree' ∧
        outcome (site.stage (site.directory.descend [fresh]) units) { disk with tree, steps } =
          (.ok backup, later) ∧
        site.Exchanges disk base tree' fresh backup later := by
  have plain : ".." ∉ (site.directory.descend [fresh]).names := by
    simpa [Path.descend, ready.plain] using ready.beside.dots.symm
  have place : (site.directory.descend [fresh]).place disk.working = site.ground disk ++ [fresh] :=
    Path.place_descend disk.working site.directory [fresh]
  obtain ⟨result, tree', steps', ran, outside, onward⟩ :=
    @Staged.writeUnits base (site.directory.descend [fresh]) units contained []
      { disk with tree, steps } sound plain (place ▸ staged)
  rw [place] at outside onward
  rw [stage, outcome_bind, ran]
  cases result with
  | error setback => exact .inl ⟨setback, tree', steps', rfl, outside⟩
  | ok =>
    obtain ⟨written, same, staged', sound'⟩ := onward rfl
    rw [List.nil_append] at staged'
    rcases ready.reserve_cases sound' staged' with
      ⟨setback, steps'', failed⟩ | ⟨backup, later, reserved, exchanges⟩
    · exact .inl ⟨setback, tree', steps'', failed, outside⟩
    · exact .inr ⟨written, tree', backup, later, same, staged', reserved, exchanges⟩

/-- A tree in which a package was installed: at the target there is what its units make, and
elsewhere only the directories on the way to the target may be new. -/
structure Installed (site : Site) (disk : Disk) (units : List SourceUnit) (tree : FileTree) :
    Prop where
  inside : ∀ inner, tree.item? (site.target.place disk.working ++ inner) = laidOut units inner
  outside : ∀ place, ¬site.target.place disk.working <+: place →
    tree.item? place = (disk.tree.item? place).or
      (if place <+: site.directory.place disk.working then some .directory else none)

theorem Ready.installed (ready : site.Ready disk base fresh)
    (staged : Staged base (site.ground disk ++ [fresh]) units tree)
    (grown : disk.tree.Grown (site.directory.origin disk.working) site.directory.names base) :
    site.Installed disk units ((tree.remove (site.ground disk ++ [site.package])).move
      (site.ground disk ++ [fresh]) (site.ground disk ++ [site.package])) := by
  have place : site.target.place disk.working = site.ground disk ++ [site.package] := by
    rw [ready.target_eq, Path.place_descend]
  have vacant : ∀ item ∈ (tree.remove (site.ground disk ++ [site.package])).items,
      ¬site.ground disk ++ [site.package] <+: item.1 :=
    fun _ => not_below_remove
  have base_eq (other : List String) : base.item? other =
      if site.ground disk ++ [fresh] <+: other then none else tree.item? other := by
    rw [← staged.outside, item?_remove tree (by simp)]
  constructor
  · intro inner
    rw [place, item?_move vacant (by simp) (by simp), if_pos (List.prefix_append _ _),
      List.drop_left, item?_remove tree (by simp),
      if_neg (not_below_sibling ready.beside.apart.symm (List.prefix_append _ _)), staged.inside]
  · intro other beside
    rw [place] at beside
    rw [item?_move vacant (by simp) (by simp), if_neg beside,
      item?_remove tree (by simp), if_neg beside, ← base_eq,
      grown.item?_eq ready.opened other]
    rfl

theorem start_replace (site : Site) (staging : Path) (created : Option Path)
    (units : List (Except Fault SourceUnit)) (disk : Disk) :
    (site.replace staging created units).start disk =
      match outcome (site.stage staging units) disk with
      | (.error setback, later) =>
        (.error (setback.fault site.target), site.undo staging none created later)
      | (.ok backup, later) =>
        match outcome (site.exchange staging backup) later with
        | (.error fault, last) =>
          (.error ((Setback.step fault).fault site.target), site.undo staging backup created last)
        | (.ok _, last) => (.ok site.target, discard backup last) := by
  show StateT.run ((site.stage staging units).run >>= _) disk = _
  rw [run_bind_outcome]
  rcases outcome (site.stage staging units) disk with ⟨result, later⟩
  cases result with
  | error setback => rfl
  | ok backup =>
    show StateT.run ((site.exchange staging backup).run >>= _) later = _
    rw [run_bind_outcome]
    dsimp only
    rcases outcome (site.exchange staging backup) later with ⟨result', last⟩
    cases result' <;> rfl

theorem start_install (units : List (Except Fault SourceUnit)) (site : Site) (disk : Disk) :
    (install units site).start disk =
      match disk.firstMissing site.directory with
      | .error _ => (.error (.shape .longName), disk)
      | .ok created =>
        match outcome site.prepare disk with
        | (.error fault, later) =>
          if fault.isReported then
            (.error (.generation (.noDirectory site.directory.text fault.text)),
              discard created later)
          else (.error (.shape .badValue), later)
        | (.ok staging, later) => (site.replace staging created units).start later := by
  show StateT.run (get >>= _) disk = _
  rw [StateT.run_bind]
  show StateT.run (match disk.firstMissing site.directory with | .error _ => _ | .ok created => _)
    disk = _
  cases disk.firstMissing site.directory with
  | error fault => rfl
  | ok created =>
    show StateT.run (site.prepare.run >>= _) disk = _
    rw [run_bind_outcome]
    dsimp only
    rcases outcome site.prepare disk with ⟨result, later⟩
    cases result with
    | error fault =>
      show StateT.run (if fault.isReported then _ else _) later =
        if fault.isReported then _ else _
      split <;> rfl
    | ok staging => rfl

/-- The end of an installation: either the tree is as before, or all units were produced and the
package is installed. -/
def AllOrNothing (site : Site) (disk : Disk) (units : List (Except Fault SourceUnit)) :
    Except Fault Path × Disk → Prop
  | (.error _, later) => later.tree = disk.tree
  | (.ok path, later) => path = site.target ∧
    ∃ written, units = written.map .ok ∧ site.Installed disk written later.tree

theorem Ready.replace (ready : site.Ready disk base fresh) {units : List (Except Fault SourceUnit)}
    {created : Option Path} (contained : ∀ unit, .ok unit ∈ units → unit.IsInside)
    (sound : Sound { disk with tree, steps })
    (staged : Staged base (site.ground disk ++ [fresh]) [] tree)
    (grown : disk.tree.Grown (site.directory.origin disk.working) site.directory.names base)
    (cleared : ∀ steps, (discard created { disk with tree := base, steps }).tree = disk.tree) :
    site.AllOrNothing disk units
      ((site.replace (site.directory.descend [fresh]) created units).start
        { disk with tree, steps }) := by
  rw [start_replace]
  rcases ready.stage_cases contained sound staged with
    ⟨setback, tree', steps', failed, outside⟩ |
    ⟨written, tree', backup, later, same, staged', ended, result, last, exchanged, left⟩
  · rw [failed]
    show (site.undo _ none created _).tree = disk.tree
    rw [undo, ready.remove_staging outside]
    exact cleared steps'
  · rw [ended]
    dsimp only
    rw [exchanged]
    cases result with
    | error fault =>
      obtain ⟨steps', undone⟩ := left
      show (site.undo _ backup created last).tree = disk.tree
      rw [undo, undone]
      exact cleared steps'
    | ok =>
      refine ⟨rfl, written, same, ?_⟩
      rw [left]
      exact ready.installed staged' grown

/-- Preparing creates only directories on the way, and then one for the new package. -/
theorem prepare_cases (sound : disk.Sound) (plain : ".." ∉ site.directory.names)
    (identifier : Text.isIdentifier site.package = true)
    (usable : site.directory.names.any (Text.hasChar · '\x00') = false) :
    (∃ fault tree steps, outcome site.prepare disk = (.error fault, { disk with tree, steps }) ∧
      fault.isReported = true ∧ tree.IsClosed ∧
      disk.tree.Grown (site.directory.origin disk.working) site.directory.names tree) ∨
    ∃ fresh base steps, outcome site.prepare disk =
        (.ok (site.directory.descend [fresh]),
          { disk with tree := base.withDirectory (site.ground disk ++ [fresh]), steps }) ∧
      site.Ready disk base fresh ∧ base.IsClosed ∧
      base.has (site.ground disk ++ [fresh]) = false ∧
      disk.tree.Grown (site.directory.origin disk.working) site.directory.names base := by
  obtain ⟨result, tree, steps, made, closed, grown, opened, reported⟩ :=
    OnDisk.creates_ensureDirectories plain disk sound
  rw [prepare, outcome_bind, made]
  cases result with
  | error fault => exact .inl ⟨fault, tree, steps, rfl, reported usable fault rfl, closed, grown⟩
  | ok =>
    obtain ⟨opened', fits⟩ := opened rfl
    have sound' : Sound { disk with tree, steps } :=
      ⟨closed, grown.item?_of_some sound.home, sound.reported⟩
    have beside := @isBeside_freshName site.package ".tmp" identifier { disk with tree, steps }
      (by decide) (by decide)
    rcases OnDisk.makeTemporary_cases sound' plain rfl beside.single beside.dots
      beside.usable with
      ⟨steps', missing, fits', -, ended⟩ | ⟨fault, steps', failed, unusable⟩
    · refine .inr ⟨_, tree, steps', ended, ?_, closed, missing, grown⟩
      exact ⟨identifier, plain, fits, opened', beside, fits' _ (by simp)⟩
    · refine .inl ⟨fault, tree, steps', failed, ?_, closed, grown⟩
      by_contra unreported
      rw [unusable (Bool.eq_false_iff.mpr unreported)] at usable
      cases usable

theorem discard_created (sound : disk.Sound) (plain : ".." ∉ site.directory.names)
    {created : Option Path} (found : disk.firstMissing site.directory = .ok created)
    (closed : tree.IsClosed)
    (grown : disk.tree.Grown (site.directory.origin disk.working) site.directory.names tree)
    (steps : Nat) : (discard created { disk with tree, steps }).tree = disk.tree := by
  cases created with
  | none => exact eq_of_firstMissing_none sound plain found grown
  | some outermost => exact remove_firstMissing sound plain found closed grown

end Site

/-- An installation is all or nothing: whatever step fails and wherever a unit cannot be produced,
if it stops the tree is the one before, and if it returns the package holds exactly its units. -/
theorem install_allOrNothing {site : Site} {disk : Disk} {units : List (Except Fault SourceUnit)}
    (sound : disk.Sound) (plain : ".." ∉ site.directory.names)
    (identifier : Text.isIdentifier site.package = true)
    (contained : ∀ unit, .ok unit ∈ units → unit.IsInside) :
    site.AllOrNothing disk units ((install units site).start disk) := by
  rw [Site.start_install]
  cases found : disk.firstMissing site.directory with
  | error fault => exact rfl
  | ok created =>
    dsimp only
    by_cases usable : site.directory.names.any (Text.hasChar · '\x00') = true
    · -- a name that cannot be used is refused before anything is created
      have refused : outcome site.prepare disk = (.error .unusableName, disk) := by
        rw [Site.prepare, outcome_bind, OnDisk.outcome_ensureDirectories_unusable usable]
      rw [refused]
      exact rfl
    · rw [Bool.not_eq_true] at usable
      rcases Site.prepare_cases sound plain identifier usable with
        ⟨fault, tree, steps, failed, reported, closed, grown⟩ |
        ⟨fresh, base, steps, prepared, ready, closed, missing, grown⟩
      · rw [failed]
        dsimp only
        rw [if_pos reported]
        exact Site.discard_created sound plain found closed grown steps
      · have parent : base.item? (site.ground disk ++ [fresh]).dropLast = some .directory := by
          rw [List.dropLast_concat]
          exact ready.opened _ List.prefix_rfl
        have staged := staged_withDirectory closed missing parent
        have home := FileTree.item?_withDirectory_directory missing (grown.item?_of_some sound.home)
        rw [prepared]
        exact ready.replace contained ⟨staged.closed, home, sound.reported⟩ staged grown
          (Site.discard_created sound plain found closed grown)

def shelf (obstacle : Nat → Option StepFault) : Disk where
  tree := { items := [(["out"], .directory), (["out", "pkg"], .directory),
    (["out", "pkg", "old.py"], .file "0")] }
  obstacle

def shelfSite : Site where
  directory := { root := "", names := ["out"] }
  package := "pkg"

/-- Units of which two have one path. -/
def shelfUnits : List SourceUnit :=
  [⟨"a.py", "1"⟩, ⟨"a.py", "2"⟩, ⟨"sub/b.py", "3"⟩]

/-- The obstacle that the new package cannot be moved into its place. -/
def lastMove (count : Nat) : Option StepFault :=
  if count = 10 then some (.refused "[Errno 13] Permission denied") else none

theorem shelf_sound {obstacle : Nat → Option StepFault}
    (reported : ∀ count fault, obstacle count = some fault → fault.isReported = true) :
    (shelf obstacle).Sound where
  closed := by
    rw [FileTree.IsClosed]
    simp only [shelf]
    decide
  home := rfl
  reported := reported

theorem shelfUnits_inside (unit : SourceUnit)
    (member : (.ok unit : Except Fault SourceUnit) ∈ shelfUnits.map .ok) : unit.IsInside := by
  obtain ⟨other, listed, same⟩ := List.mem_map.mp member
  rw [← Except.ok.inj same]
  have each : ∀ unit ∈ shelfUnits, (Path.ofText unit.path).isAbsolute = false ∧
      ".." ∉ unit.names := by decide
  exact ⟨(each other listed).1, (each other listed).2⟩

theorem install_allOrNothing_of_last_move :
    (((install (shelfUnits.map .ok) shelfSite).start (shelf lastMove)).1.isOk = false ∧
      ((install (shelfUnits.map .ok) shelfSite).start (shelf lastMove)).2.tree =
        (shelf lastMove).tree) ∧
    ((install (shelfUnits.map .ok) shelfSite).start (shelf fun _ => none)).1.isOk = true ∧
      shelfSite.Installed (shelf fun _ => none) shelfUnits
        ((install (shelfUnits.map .ok) shelfSite).start (shelf fun _ => none)).2.tree := by
  have blocked : (shelf lastMove).Sound := by
    apply shelf_sound
    intro count fault found
    rw [lastMove] at found
    split at found
    · cases found
      rfl
    · cases found
  have clear : (shelf fun _ => none).Sound := shelf_sound fun _ _ found => nomatch found
  have failed := @install_allOrNothing shelfSite _ _ blocked (by decide) (by decide +kernel)
    shelfUnits_inside
  have done := @install_allOrNothing shelfSite _ _ clear (by decide) (by decide +kernel)
    shelfUnits_inside
  have stops :
      ((install (shelfUnits.map .ok) shelfSite).start (shelf lastMove)).1.isOk = false := by
    decide +kernel
  have returns : ((install (shelfUnits.map .ok) shelfSite).start
      (shelf fun _ => none)).1.isOk = true := by
    decide +kernel
  refine ⟨⟨stops, ?_⟩, returns, ?_⟩
  · rcases ended : (install (shelfUnits.map .ok) shelfSite).start (shelf lastMove) with
      ⟨result, later⟩
    rw [ended] at failed stops
    cases result with
    | error fault => exact failed
    | ok path => cases stops
  · rcases ended : (install (shelfUnits.map .ok) shelfSite).start (shelf fun _ => none) with
      ⟨result, later⟩
    rw [ended] at done returns
    cases result with
    | error fault => cases returns
    | ok path =>
      obtain ⟨-, written, same, installed⟩ := done
      have units : written = shelfUnits :=
        List.map_injective_iff.mpr (fun _ _ same => Except.ok.inj same) same.symm
      rwa [units] at installed
end Package

end Bindery
