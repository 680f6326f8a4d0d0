import Bindery.Text.Identifier
import Bindery.Proofs.Code.Literal
import Bindery.Proofs.Package.Staging

/-!
# Exchanging packages

Beside a package stand for a while a directory for the new one and a directory
for the old one.  Their names are fresh, so nothing else is below them, and moving
the old package there and back changes nothing.

An exchange moves the old package aside and the new one into its place.  Either it
succeeds, or it can be taken back wherever it was interrupted: what was created is
removed and the old package is where it was.
-/

namespace Bindery

open Text List Option Path

namespace FileTree

variable {directory path : List String} {tree : FileTree}
  {package staging backup name other : String}

theorem not_below_above (outer : path <+: directory) : ¬directory ++ [name] <+: path := by
  intro below
  have length := (below.trans outer).length_le
  rw [length_append, length_singleton] at length
  omega

theorem not_below_sibling (apart : name ≠ other) (below : directory ++ [other] <+: path) :
    ¬directory ++ [name] <+: path := by
  intro below'
  have same := (prefix_of_prefix_length_le below' below (by simp)).eq_of_length (by simp)
  exact apart (by simpa using same)

section Aside

variable (apart : staging ≠ backup) (apart' : package ≠ backup)
  (vacant : ∀ item ∈ tree.items, ¬directory ++ [backup] <+: item.1)

include apart apart' vacant

/-- Moving a package aside and back again takes back the exchange. -/
theorem move_back (apart'' : staging ≠ package) :
    (((((tree.withDirectory (directory ++ [backup])).move (directory ++ [package])
      (directory ++ [backup] ++ [package])).remove (directory ++ [staging])).move
        (directory ++ [backup] ++ [package]) (directory ++ [package])).remove
          (directory ++ [backup])) = tree.remove (directory ++ [staging]) := by
  simp only [remove_eq_refile, move_eq_refile, refile_refile, bind_some]
  rw [refile_withDirectory]
  · apply refile_congr
    intro item member
    have outside := vacant item member
    by_cases old : directory ++ [package] <+: item.1
    · obtain ⟨rest, same⟩ := old
      have new := not_below_sibling apart'' (prefix_append (directory ++ [package]) rest)
      have inside := (prefix_append (directory ++ [backup]) [package]).trans (prefix_append _ rest)
      rw [← same] at outside ⊢
      simp only [relocate_append, if_neg (not_below_sibling apart inside), bind_some,
        if_neg outside, if_neg new]
    · have aside : ¬directory ++ [backup] ++ [package] <+: item.1 :=
        fun below => outside ((prefix_append _ _).trans below)
      rw [relocate_of_outside old]
      by_cases new : directory ++ [staging] <+: item.1
      · simp only [if_pos new, bind_none]
      · simp only [if_neg new, bind_some, relocate_of_outside aside, if_neg outside]
  · have aside : ¬directory ++ [backup] ++ [package] <+: directory ++ [backup] :=
      not_below_above prefix_rfl
    simp only [relocate_of_outside (not_below_sibling apart' prefix_rfl),
      if_neg (not_below_sibling apart prefix_rfl), bind_some, relocate_of_outside aside,
      if_pos prefix_rfl]

/-- Removing an old package that was moved aside is removing it where it stood. -/
theorem move_forward :
    (((tree.withDirectory (directory ++ [backup])).move (directory ++ [package])
      (directory ++ [backup] ++ [package])).move (directory ++ [staging])
        (directory ++ [package])).remove (directory ++ [backup]) =
      (tree.remove (directory ++ [package])).move (directory ++ [staging])
        (directory ++ [package]) := by
  simp only [remove_eq_refile, move_eq_refile, refile_refile, bind_some]
  rw [refile_withDirectory]
  · apply refile_congr
    intro item member
    by_cases old : directory ++ [package] <+: item.1
    · rw [if_pos old]
      obtain ⟨rest, same⟩ := old
      have inside := (prefix_append (directory ++ [backup]) [package]).trans (prefix_append _ rest)
      rw [← same, relocate_append, relocate_of_outside (not_below_sibling apart inside),
        if_pos inside, bind_none]
    · rw [if_neg old, relocate_of_outside old, bind_some]
      by_cases new : directory ++ [staging] <+: item.1
      · obtain ⟨rest, same⟩ := new
        rw [← same, relocate_append, if_neg (not_below_sibling apart'.symm (prefix_append _ _))]
      · rw [relocate_of_outside new, if_neg (vacant item member)]
  · rw [relocate_of_outside (not_below_sibling apart' prefix_rfl),
      relocate_of_outside (not_below_sibling apart prefix_rfl), if_pos prefix_rfl]

end Aside

end FileTree

/-! ## Names beside the package -/

theorem Text.notMem_of_isIdentifier {text : String} {c : Char}
    (identifier : isIdentifier text = true) (start : isIdentifierStart c = false)
    (rest : isIdentifierRest c = false) : c ∉ text.toList := by
  rw [isIdentifier] at identifier
  split at identifier
  next => cases identifier
  next first others chars =>
    rw [Bool.and_eq_true, List.all_eq_true] at identifier
    rw [chars, List.mem_cons, not_or]
    constructor
    · rintro rfl
      rw [identifier.1] at start
      cases start
    · intro member
      rw [identifier.2 c member] at rest
      cases rest

namespace Package

open FileTree

/-- A name for a directory beside a package. -/
structure IsBeside (package name : String) : Prop where
  single : ofText name = { root := "", names := [name] }
  dots : name ≠ ".."
  usable : hasChar name '\x00' = false
  apart : name ≠ package

theorem isBeside_freshName {package back : String} (identifier : isIdentifier package = true)
    (disk : Disk) (slash : '/' ∉ back.toList) (null : '\x00' ∉ back.toList) :
    IsBeside package (disk.freshName ("." ++ package ++ ".") back) := by
  obtain ⟨number, named⟩ := disk.exists_freshName_eq ("." ++ package ++ ".") back
  rw [named]
  have chars : ("." ++ package ++ "." ++ padded 8 number ++ back).toList =
      '.' :: (package.toList ++ '.' :: ((padded 8 number).toList ++ back.toList)) := by
    simp
  have absent {c : Char} (start : isIdentifierStart c = false)
      (rest : isIdentifierRest c = false) (digit : c.isDigit = false) (dot : c ≠ '.')
      (behind : c ∉ back.toList) :
      c ∉ ("." ++ package ++ "." ++ padded 8 number ++ back).toList := by
    have letters := notMem_of_isIdentifier identifier start rest
    have digits : c ∉ (padded 8 number).toList := by
      intro member
      rw [(Code.toList_padded 8 number).2 c member] at digit
      cases digit
    simp [chars, dot, letters, digits, behind]
  have present : package.toList ≠ [] := by
    intro empty
    rw [isIdentifier, empty] at identifier
    cases identifier
  have long : 3 ≤ ("." ++ package ++ "." ++ padded 8 number ++ back).toList.length := by
    have counted := length_pos_iff.mpr present
    rw [chars, length_cons, length_append, length_cons]
    omega
  have shorter {text : String} (short : text.toList.length < 3) :
      "." ++ package ++ "." ++ padded 8 number ++ back ≠ text := by
    intro same
    rw [same] at long
    omega
  have slash' := absent (c := '/') rfl rfl rfl (by decide) slash
  have null' := absent (c := '\x00') rfl rfl rfl (by decide) null
  constructor
  · exact ofText_name slash' (shorter (by decide)) (shorter (by decide))
  · exact shorter (by decide)
  · rw [hasChar, ← Bool.not_eq_true, contains_iff_mem]
    exact null'
  · intro same
    have dot : '.' ∉ package.toList := notMem_of_isIdentifier identifier rfl rfl
    rw [← same, chars] at dot
    exact dot mem_cons_self

theorem ofText_identifier {text : String} (identifier : isIdentifier text = true) :
    ofText text = { root := "", names := [text] } := by
  have dot : '.' ∉ text.toList := notMem_of_isIdentifier identifier rfl rfl
  apply ofText_name
  · exact notMem_of_isIdentifier identifier rfl rfl
  · rintro rfl
    cases identifier
  · rintro rfl
    exact dot mem_cons_self

theorem ne_dots_of_isIdentifier {text : String} (identifier : isIdentifier text = true) :
    text ≠ ".." := by
  rintro rfl
  cases identifier

namespace Site

variable {site : Site} {disk : Disk} {base tree : FileTree} {fresh backup : String}

theorem append_package (identifier : isIdentifier site.package = true) (path : Path) :
    path.append (ofText site.package) = path.descend [site.package] := by
  rw [ofText_identifier identifier, append_of_relative path rfl]

abbrev ground (site : Site) (disk : Disk) : List String :=
  site.directory.place disk.working

/-! ## Taking an installation back -/

/-- What holds of a site while a package is installed: `base` is the tree without the directories
beside the package, and `fresh` is the name of the directory of the new package. -/
structure Ready (site : Site) (disk : Disk) (base : FileTree) (fresh : String) : Prop where
  identifier : isIdentifier site.package = true
  plain : ".." ∉ site.directory.names
  fits : ∀ name ∈ site.directory.names, Fits name
  opened : base.IsOpen (site.ground disk)
  beside : IsBeside site.package fresh
  fitsFresh : Fits fresh

namespace Ready

variable {name : String} (ready : site.Ready disk base fresh)

include ready

theorem locate {names : List String} (named : names ≠ [])
    (fits : ∀ name ∈ names, Fits name) (dots : ".." ∉ names)
    (opened : tree.IsOpen (site.ground disk ++ names.dropLast)) :
    tree.locate disk.working (site.directory.descend names) = .ok (site.ground disk ++ names) := by
  have plain : ".." ∉ (site.directory.descend names).names := by
    simp [descend, ready.plain, dots]
  have fits' : ∀ name ∈ (site.directory.descend names).names, Fits name := by
    intro name member
    rcases mem_append.mp member with before | behind
    · exact ready.fits name before
    · exact fits name behind
  rw [locate_eq_ok plain fits', place_descend]
  rwa [descend, dropLast_append_of_ne_nil named, ← append_assoc]

theorem locate_name (fits : Fits name) (dots : name ≠ "..") (opened : tree.IsOpen (site.ground disk)) :
    tree.locate disk.working (site.directory.descend [name]) =
      .ok (site.ground disk ++ [name]) := by
  apply ready.locate (by simp) (by simpa using fits) (by simpa using dots.symm)
  rwa [dropLast_singleton, append_nil]

theorem target_eq : site.target = site.directory.descend [site.package] :=
  append_package ready.identifier site.directory

theorem locate_target (fits : Fits site.package) (opened : tree.IsOpen (site.ground disk)) :
    tree.locate disk.working site.target = .ok (site.ground disk ++ [site.package]) := by
  rw [ready.target_eq]
  exact ready.locate_name fits (ne_dots_of_isIdentifier ready.identifier) opened

theorem of_locate (dots : name ≠ "..") {place : List String}
    (located : tree.locate disk.working (site.directory.descend [name]) = .ok place) :
    place = site.ground disk ++ [name] ∧ Fits name := by
  have plain : ".." ∉ (site.directory.descend [name]).names := by
    simpa [descend, ready.plain] using dots.symm
  obtain ⟨same, fits, -⟩ := of_locate_eq_ok plain located
  rw [place_descend] at same
  exact ⟨same, fits name (by simp [descend])⟩

theorem isOpen (outside : tree.remove (site.ground disk ++ [fresh]) = base) :
    tree.IsOpen (site.ground disk) := by
  have opened := ready.opened
  rw [← outside] at opened
  exact opened.of_remove (by simp)

theorem remove (fits : Fits name) (dots : name ≠ "..") (opened : tree.IsOpen (site.ground disk))
    (steps : Nat) :
    Disk.remove (site.directory.descend [name]) { disk with tree, steps } =
      { disk with tree := tree.remove (site.ground disk ++ [name]), steps } := by
  rw [Disk.remove]
  dsimp only
  rw [ready.locate_name fits dots opened]

/-- Removing the directory of the new package leaves the rest of the tree. -/
theorem remove_staging (outside : tree.remove (site.ground disk ++ [fresh]) = base) (steps : Nat) :
    Disk.remove (site.directory.descend [fresh]) { disk with tree, steps } =
      { disk with tree := base, steps } := by
  rw [ready.remove ready.fitsFresh ready.beside.dots (ready.isOpen outside), outside]

end Ready

/-- What holds once there is a directory `backup` for an old package that stands in `tree`. -/
structure Backed (site : Site) (disk : Disk) (tree : FileTree) (fresh backup : String) : Prop where
  beside : IsBeside site.package backup
  fits : Fits backup
  fitsPackage : Fits site.package
  apart : fresh ≠ backup
  missing : tree.has (site.ground disk ++ [backup]) = false
  vacant : ∀ item ∈ tree.items, ¬site.ground disk ++ [backup] <+: item.1
  present : tree.has (site.ground disk ++ [site.package]) = true

/-- The tree with the old package moved aside. -/
def withOldAside (site : Site) (disk : Disk) (backup : String) (tree : FileTree) : FileTree :=
  (tree.withDirectory (site.ground disk ++ [backup])).move (site.ground disk ++ [site.package])
    (site.ground disk ++ [backup] ++ [site.package])

namespace Backed

theorem not_below_withOldAside (backed : site.Backed disk tree fresh backup)
    {item : List String × FileItem} (member : item ∈ (site.withOldAside disk backup tree).items) :
    ¬site.ground disk ++ [site.package] <+: item.1 :=
  not_below_move (fun rest => not_below_sibling backed.beside.apart.symm
    ((prefix_append (site.ground disk ++ [backup]) [site.package]).trans (prefix_append _ rest)))
    member

theorem locate_aside (backed : site.Backed disk tree fresh backup)
    (ready : site.Ready disk base fresh) {later : FileTree}
    (opened : later.IsOpen (site.ground disk ++ [backup])) :
    later.locate disk.working (site.aside (site.directory.descend [backup])) =
      .ok (site.ground disk ++ [backup] ++ [site.package]) := by
  have path : site.aside (site.directory.descend [backup]) =
      site.directory.descend [backup, site.package] := by
    rw [aside, append_package ready.identifier, descend, descend, append_assoc]
    rfl
  have dots := ne_dots_of_isIdentifier ready.identifier
  rw [path, append_assoc]
  apply ready.locate (by simp)
  · simpa using ⟨backed.fits, backed.fitsPackage⟩
  · simpa using ⟨backed.beside.dots.symm, dots.symm⟩
  · exact opened

end Backed

section Exchange

variable (ready : site.Ready disk base fresh) (backed : site.Backed disk tree fresh backup)
  (outside : tree.remove (site.ground disk ++ [fresh]) = base)

include ready backed outside

theorem isOpen_withBackup :
    (tree.withDirectory (site.ground disk ++ [backup])).IsOpen
      (site.ground disk ++ [backup]) := by
  have opened : (tree.withDirectory (site.ground disk ++ [backup])).IsOpen (site.ground disk) :=
    fun above outer =>
      item?_withDirectory_directory backed.missing (ready.isOpen outside above outer)
  apply opened.concat
  rw [item?_withDirectory backed.missing, if_pos rfl]

/-- If the old package was not moved, taking the exchange back removes what was created. -/
theorem putBack_unmoved (steps : Nat) :
    discard (some (site.directory.descend [backup]))
        (site.putBack (some (site.directory.descend [backup]))
          (Disk.remove (site.directory.descend [fresh])
            { disk with
              tree := tree.withDirectory (site.ground disk ++ [backup]), steps })) =
      { disk with tree := base, steps } := by
  have opened := (isOpen_withBackup ready backed outside).mono (prefix_append _ _)
  have opened' := opened.remove (@not_below_above _ _ fresh prefix_rfl)
  have stands : Disk.has { disk with
      tree := (tree.withDirectory (site.ground disk ++ [backup])).remove
        (site.ground disk ++ [fresh]), steps } site.target = true := by
    rw [Disk.has, ready.locate_target backed.fitsPackage opened']
    dsimp only
    rw [FileTree.has, item?_remove _ (by simp),
      if_neg (not_below_sibling ready.beside.apart prefix_rfl),
      item?_withDirectory backed.missing]
    split
    · rfl
    · exact backed.present
  rw [ready.remove ready.fitsFresh ready.beside.dots opened, putBack, if_pos stands, discard,
    ready.remove backed.fits backed.beside.dots opened', remove_comm,
    remove_withDirectory_self, remove_eq_self backed.vacant, outside]

theorem isOpen_withOldAside :
    (site.withOldAside disk backup tree).IsOpen (site.ground disk ++ [backup]) := by
  have vacant : ∀ item ∈ (tree.withDirectory (site.ground disk ++ [backup])).items,
      ¬site.ground disk ++ [backup] ++ [site.package] <+: item.1 := by
    intro item member below
    rcases mem_append.mp member with stood | new
    · exact backed.vacant item stood ((prefix_append _ _).trans below)
    · rw [mem_singleton.mp new] at below
      exact not_below_above prefix_rfl below
  exact (isOpen_withBackup ready backed outside).move vacant
    (not_below_sibling backed.beside.apart.symm prefix_rfl)
    (not_below_above prefix_rfl)

/-- If the old package was moved aside, taking the exchange back restores it. -/
theorem putBack_moved (steps : Nat) :
    discard (some (site.directory.descend [backup]))
        (site.putBack (some (site.directory.descend [backup]))
          (Disk.remove (site.directory.descend [fresh])
            { disk with tree := site.withOldAside disk backup tree, steps })) =
      { disk with tree := base, steps } := by
  have aside := isOpen_withOldAside ready backed outside
  have opened := aside.remove (not_below_sibling backed.apart prefix_rfl)
  have opened' := opened.mono (prefix_append _ _)
  have vacant : ∀ item ∈
      ((site.withOldAside disk backup tree).remove (site.ground disk ++ [fresh])).items,
      ¬site.ground disk ++ [site.package] <+: item.1 := fun item member =>
    backed.not_below_withOldAside (List.mem_of_mem_filter member)
  have gone : Disk.has { disk with
      tree := (site.withOldAside disk backup tree).remove (site.ground disk ++ [fresh]), steps }
      site.target = false := by
    rw [Disk.has, ready.locate_target backed.fitsPackage opened']
    dsimp only
    rw [FileTree.has, item?_of_ne_nil _ (by simp), lookup_eq_none_of_notMem]
    · rfl
    · intro item member same
      exact vacant item member (same ▸ prefix_rfl)
  have restored : site.putBack (some (site.directory.descend [backup])) { disk with
      tree := (site.withOldAside disk backup tree).remove (site.ground disk ++ [fresh]), steps } =
      { disk with
        tree := ((site.withOldAside disk backup tree).remove (site.ground disk ++ [fresh])).move
          (site.ground disk ++ [backup] ++ [site.package]) (site.ground disk ++ [site.package])
        steps } := by
    rw [putBack, gone, if_neg Bool.false_ne_true, Disk.restore]
    dsimp only
    rw [backed.locate_aside ready opened, ready.locate_target backed.fitsPackage opened']
  have opened'' := opened'.move vacant
    (@not_below_above _ _ site.package (prefix_append _ [backup]))
    (not_below_above prefix_rfl)
  rw [ready.remove ready.fitsFresh ready.beside.dots (aside.mono (prefix_append _ _)),
    restored, discard, ready.remove backed.fits backed.beside.dots opened'', withOldAside,
    move_back backed.apart backed.beside.apart.symm backed.vacant ready.beside.apart,
    outside]

end Exchange

/-! ## Exchanging the packages -/

/-- An exchange either puts the new package into the place of the old one, or it can be taken
back. -/
def Exchanges (site : Site) (disk : Disk) (base tree : FileTree) (fresh : String)
    (backup : Option Path) (before : Disk) : Prop :=
  ∃ result later,
    outcome (site.exchange (site.directory.descend [fresh]) backup) before = (result, later) ∧
    match result with
    | .ok _ =>
      (discard backup later).tree = (tree.remove (site.ground disk ++ [site.package])).move
        (site.ground disk ++ [fresh]) (site.ground disk ++ [site.package])
    | .error _ =>
      ∃ steps, discard backup
          (site.putBack backup (later.remove (site.directory.descend [fresh]))) =
        { disk with tree := base, steps }

variable (ready : site.Ready disk base fresh)

include ready

theorem Ready.rename_cases (tree : FileTree) (steps : Nat) :
    (∃ steps', tree.has (site.ground disk ++ [site.package]) = false ∧
      outcome (OnDisk.rename (site.directory.descend [fresh]) site.target)
          { disk with tree, steps } =
        (.ok (), { disk with
          tree := tree.move (site.ground disk ++ [fresh]) (site.ground disk ++ [site.package])
          steps := steps' })) ∨
    ∃ fault steps', outcome (OnDisk.rename (site.directory.descend [fresh]) site.target)
        { disk with tree, steps } = (.error fault, { disk with tree, steps := steps' }) := by
  rcases OnDisk.rename_cases { disk with tree, steps } (site.directory.descend [fresh])
      site.target with
    ⟨steps', start, finish, first, second, free, renamed⟩ | ⟨fault, steps', failed⟩
  · have dots := ne_dots_of_isIdentifier ready.identifier
    rw [ready.target_eq] at second
    obtain ⟨rfl, -⟩ := ready.of_locate ready.beside.dots first
    obtain ⟨rfl, -⟩ := ready.of_locate dots second
    exact .inl ⟨steps', free, renamed⟩
  · exact .inr ⟨fault, steps', failed⟩

theorem Ready.exchanges_none (outside : tree.remove (site.ground disk ++ [fresh]) = base)
    (closed : tree.IsClosed) (steps : Nat) :
    site.Exchanges disk base tree fresh none { disk with tree, steps } := by
  rcases ready.rename_cases tree steps with ⟨steps', free, renamed⟩ | ⟨fault, steps', failed⟩
  · refine ⟨.ok (), _, renamed, ?_⟩
    dsimp only [discard]
    rw [closed.remove_eq_self free]
  · refine ⟨.error fault, _, failed, steps', ?_⟩
    exact ready.remove_staging outside steps'

theorem Ready.exchanges_some (backed : site.Backed disk tree fresh backup)
    (outside : tree.remove (site.ground disk ++ [fresh]) = base) (steps : Nat) :
    site.Exchanges disk base tree fresh (some (site.directory.descend [backup]))
      { disk with tree := tree.withDirectory (site.ground disk ++ [backup]), steps } := by
  have opened := isOpen_withBackup ready backed outside
  have first := ready.locate_target backed.fitsPackage (opened.mono (prefix_append _ _))
  have second := backed.locate_aside ready opened
  rcases OnDisk.rename_cases
      { disk with tree := tree.withDirectory (site.ground disk ++ [backup]), steps }
      site.target (site.aside (site.directory.descend [backup])) with
    ⟨steps', start, finish, started, finished, -, moved⟩ | ⟨fault, steps', failed⟩
  · cases started.symm.trans first
    cases finished.symm.trans second
    have onward : outcome (site.exchange (site.directory.descend [fresh])
        (some (site.directory.descend [backup])))
        { disk with tree := tree.withDirectory (site.ground disk ++ [backup]), steps } =
        outcome (OnDisk.rename (site.directory.descend [fresh]) site.target)
          { disk with tree := site.withOldAside disk backup tree, steps := steps' } := by
      rw [exchange, setAside, outcome_bind, moved]
      rfl
    rcases ready.rename_cases (site.withOldAside disk backup tree) steps' with
      ⟨steps'', -, renamed⟩ | ⟨fault, steps'', failed⟩
    · refine ⟨.ok (), _, onward.trans renamed, ?_⟩
      have aside := isOpen_withOldAside ready backed outside
      have opened' := (aside.mono (prefix_append _ _)).move
        (fun _ => backed.not_below_withOldAside)
        (@not_below_above _ _ fresh prefix_rfl)
        (not_below_above prefix_rfl)
      dsimp only [discard]
      rw [ready.remove backed.fits backed.beside.dots opened', withOldAside,
        move_forward backed.apart backed.beside.apart.symm backed.vacant]
    · refine ⟨.error fault, _, onward.trans failed, steps'', ?_⟩
      exact putBack_moved ready backed outside steps''
  · refine ⟨.error fault, _, ?_, steps', putBack_unmoved ready backed outside steps'⟩
    rw [exchange, setAside, outcome_bind, failed]

end Site

end Package

end Bindery
