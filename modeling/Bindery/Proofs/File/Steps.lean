import Mathlib.Data.List.Nodup
import Mathlib.Data.List.Perm.Subperm
import Bindery.Proofs.Course
import Bindery.Proofs.File.Trees
import Bindery.Proofs.Location.Pointers

/-!
# Outcomes of steps on a disk

A step on a disk either changes the tree as it says or fails and leaves the tree
as it is.  The computations that create directories add only directories that
are missing on the way to their path, and when they end well, the whole way is
there.  A fresh name occurs nowhere in the tree, so nothing stands below it.
-/

namespace Bindery

open FileTree Path Text List

/-- The outcome of a computation that may stop, from a state. -/
def outcome {Cause State α : Type} (action : ExceptT Cause (StateM State) α) (state : State) :
    Except Cause α × State :=
  StateT.run (ExceptT.run action) state

theorem run_bind_outcome {Cause State α β : Type} (action : ExceptT Cause (StateM State) α)
    (next : Except Cause α → StateM State β) (state : State) :
    StateT.run (action.run >>= next) state =
      StateT.run (next (outcome action state).1) (outcome action state).2 :=
  rfl

theorem outcome_bind {Cause State α β : Type} (action : ExceptT Cause (StateM State) α)
    (next : α → ExceptT Cause (StateM State) β) (state : State) :
    outcome (action >>= next) state =
      match outcome action state with
      | (.ok value, later) => outcome (next value) later
      | (.error cause, later) => (.error cause, later) := by
  rw [outcome, ExceptT.run_bind, run_bind_outcome]
  rcases outcome action state with ⟨result, later⟩
  cases result <;> rfl

namespace Disk

variable {disk : Disk}

/-- A disk with a closed tree and a working directory, where every obstacle is a failure that the
file system reports. -/
structure Sound (disk : Disk) : Prop where
  closed : disk.tree.IsClosed
  home : disk.tree.item? disk.working = some .directory
  reported : ∀ count fault, disk.obstacle count = some fault → fault.isReported = true

theorem Sound.origin (sound : disk.Sound) (path : Path) :
    disk.tree.item? (path.origin disk.working) = some .directory := by
  rw [Path.origin]
  split
  · exact item?_nil disk.tree
  · exact sound.home

/-- A step either changes the tree as it says or leaves it as it is; a failure that is not reported
is that of a name that cannot be used. -/
theorem take_cases (disk : Disk) (action : FileTree → Except StepFault FileTree) :
    (∃ tree steps, action disk.tree = .ok tree ∧
      disk.take action = (.ok (), { disk with tree, steps })) ∨
    ∃ fault steps, disk.take action = (.error fault, { disk with steps }) ∧
      (fault.isReported = false →
        action disk.tree = .error .unusableName ∨ disk.obstacle disk.steps = some fault) := by
  rw [take]
  split
  next refused => exact .inr ⟨.unusableName, disk.steps, rfl, fun _ => .inl refused⟩
  next fault blocked usable => exact .inr ⟨fault, disk.steps + 1, rfl, fun _ => .inr blocked⟩
  next fault usable failed clear =>
    refine .inr ⟨fault, disk.steps + 1, rfl, fun unreported => .inl ?_⟩
    cases fault with
    | unusableName => exact failed
    | _ => cases unreported
  next tree done clear => exact .inl ⟨tree, disk.steps + 1, done, rfl⟩

end Disk

namespace OnDisk

variable {disk : Disk} {path : Path}

theorem outcome_makeDirectory (path : Path) (disk : Disk) :
    outcome (makeDirectory path) disk =
      disk.take fun tree => tree.locate disk.working path >>= tree.makeDirectory :=
  rfl

theorem outcome_createOr (path : Path) (onMissing : OnDisk Unit) (disk : Disk) :
    outcome (createOr path onMissing) disk =
      match outcome (makeDirectory path) disk with
      | (.ok _, later) => (.ok (), later)
      | (.error .missing, later) => outcome onMissing later
      | (.error fault, later) =>
        if later.isDirectory path then (.ok (), later) else (.error fault, later) := by
  rw [createOr, outcome_bind]
  have attempted : outcome (attempt (makeDirectory path)) disk =
      (.ok (outcome (makeDirectory path) disk).1, (outcome (makeDirectory path) disk).2) := rfl
  rw [attempted]
  rcases outcome (makeDirectory path) disk with ⟨result, later⟩
  cases result with
  | ok => rfl
  | error fault =>
    cases fault with
    | missing => rfl
    | _ =>
      show outcome (if later.isDirectory path then pure () else throw _) later =
        if later.isDirectory path then _ else _
      split <;> rfl

/-- Creating a directory either adds it to the tree or leaves the tree as it is. -/
theorem makeDirectory_cases (sound : disk.Sound) (plain : ".." ∉ path.names) :
    (∃ steps, disk.tree.has (path.place disk.working) = false ∧
      (∀ name ∈ path.names, FileTree.Fits name) ∧
      disk.tree.item? (path.place disk.working).dropLast = some .directory ∧
      outcome (makeDirectory path) disk =
        (.ok (), { disk with tree := disk.tree.withDirectory (path.place disk.working), steps })) ∨
    ∃ fault steps, outcome (makeDirectory path) disk = (.error fault, { disk with steps }) ∧
      (fault.isReported = false → path.names.any (Text.hasChar · '\x00') = true) := by
  rw [outcome_makeDirectory]
  rcases Disk.take_cases disk fun tree => tree.locate disk.working path >>= tree.makeDirectory with
    ⟨tree, steps, acted, taken⟩ | ⟨fault, steps, taken, unreported⟩
  · obtain ⟨place, located, made⟩ := ok_of_bind acted
    obtain ⟨missing, rfl⟩ := makeDirectory_eq_ok_iff.mp made
    obtain ⟨rfl, fits, parent⟩ := of_locate_eq_ok plain located
    have named : path.names ≠ [] := by
      intro none
      have present := has_of_item? (sound.origin path)
      rw [Path.place, none, List.append_nil, present] at missing
      cases missing
    refine .inl ⟨steps, missing, fits, ?_, taken⟩
    rw [Path.place, List.dropLast_append_of_ne_nil named]
    exact parent named
  · refine .inr ⟨fault, steps, taken, fun silent => ?_⟩
    have stopped : (disk.tree.locate disk.working path >>= disk.tree.makeDirectory) =
        .error .unusableName := by
      rcases unreported silent with unusable | blocked
      · exact unusable
      · rw [sound.reported _ _ blocked] at silent
        cases silent
    cases located : disk.tree.locate disk.working path with
    | error cause =>
      rw [located] at stopped
      cases stopped
      exact locate_eq_unusableName_iff.mp located
    | ok place =>
      rw [located] at stopped
      have stopped' : disk.tree.makeDirectory place = .error .unusableName := stopped
      rw [FileTree.makeDirectory] at stopped'
      split at stopped' <;> cases stopped'

/-! ## Creating the directories on the way -/

/-- A computation creates a path: it adds directories that are missing on the way, all of them if
it ends well, and it fails only as the file system reports unless a name is unusable. -/
def Creates (path : Path) (action : OnDisk Unit) : Prop :=
  ∀ disk : Disk, disk.Sound → ∃ result tree steps,
    outcome action disk = (result, { disk with tree, steps }) ∧ tree.IsClosed ∧
    disk.tree.Grown (path.origin disk.working) path.names tree ∧
    (result = .ok () → tree.IsOpen (path.place disk.working) ∧
      ∀ name ∈ path.names, Fits name) ∧
    (path.names.any (hasChar · '\x00') = false →
      ∀ fault, result = .error fault → fault.isReported = true)

theorem creates_throw {fault : StepFault} (reported : fault.isReported = true) :
    Creates path (throw fault) := by
  intro disk sound
  refine ⟨.error fault, disk.tree, disk.steps, rfl, sound.closed, .refl _ _ _, ?_, ?_⟩
  · intro ended
    cases ended
  · intro _ other same
    cases same
    exact reported

theorem Creates.bind {outer : Path} {first second : OnDisk Unit} (above : Creates outer first)
    (root : outer.root = path.root) (before : outer.names <+: path.names)
    (here : Creates path second) : Creates path (first >>= fun _ => second) := by
  intro disk sound
  have origin : outer.origin disk.working = path.origin disk.working := by
    rw [origin, origin, isAbsolute, isAbsolute, root]
  obtain ⟨result, tree, steps, ran, closed, grown, opened, reported⟩ := above disk sound
  rw [origin] at grown
  have usable (clean : path.names.any (hasChar · '\x00') = false) :
      outer.names.any (hasChar · '\x00') = false := by
    rw [any_eq_false] at clean ⊢
    exact fun name member => clean name (before.subset member)
  cases result with
  | error fault =>
    refine ⟨.error fault, tree, steps, ?_, closed, grown.mono before, ?_, ?_⟩
    · rw [outcome_bind, ran]
    · intro ended
      cases ended
    · exact fun clean => reported (usable clean)
  | ok =>
    have sound' : Disk.Sound { disk with tree, steps } :=
      ⟨closed, grown.item?_of_some sound.home, sound.reported⟩
    obtain ⟨result', tree', steps', ran', closed', grown', opened', reported'⟩ := here _ sound'
    refine ⟨result', tree', steps', ?_, closed', (grown.mono before).trans grown', opened', ?_⟩
    · rw [outcome_bind, ran]
      exact ran'
    · exact reported'

theorem creates_createOr (plain : ".." ∉ path.names) {onMissing : OnDisk Unit}
    (otherwise : Creates path onMissing) : Creates path (createOr path onMissing) := by
  intro disk sound
  rcases makeDirectory_cases sound plain with
    ⟨steps, missing, fits, parent, ran⟩ | ⟨fault, steps, ran, unusable⟩
  · have closed := sound.closed.withDirectory missing parent
    refine ⟨.ok (), _, steps, ?_, closed, .withDirectory prefix_rfl missing fits, ?_, ?_⟩
    · rw [outcome_createOr, ran]
    · refine fun _ => ⟨closed.isOpen ?_, fits⟩
      rw [item?_withDirectory missing, if_pos rfl]
    · intro _ fault same
      cases same
  · have sound' : Disk.Sound { disk with steps } := ⟨sound.closed, sound.home, sound.reported⟩
    by_cases absent : fault = .missing
    · subst absent
      obtain ⟨result, tree, steps', ran', rest⟩ := otherwise _ sound'
      refine ⟨result, tree, steps', ?_, rest⟩
      rw [outcome_createOr, ran]
      exact ran'
    have stopped : outcome (createOr path onMissing) disk =
        if Disk.isDirectory { disk with steps } path then (.ok (), { disk with steps })
        else (.error fault, { disk with steps }) := by
      rw [outcome_createOr, ran]
      cases fault with
      | missing => exact absurd rfl absent
      | _ => rfl
    by_cases directory : Disk.isDirectory { disk with steps } path = true
    · rw [if_pos directory] at stopped
      refine ⟨.ok (), disk.tree, steps, stopped, sound.closed, .refl _ _ _, fun _ => ?_, ?_⟩
      · rw [Disk.isDirectory] at directory
        split at directory
        next place located =>
          obtain ⟨rfl, fits, -⟩ := of_locate_eq_ok plain located
          exact ⟨sound.closed.isOpen (of_decide_eq_true directory), fits⟩
        next => cases directory
      · intro _ other same
        cases same
    · rw [if_neg directory] at stopped
      refine ⟨.error fault, disk.tree, steps, stopped, sound.closed, .refl _ _ _, ?_, ?_⟩
      · intro ended
        cases ended
      · intro clean other same
        cases same
        by_contra unreported
        rw [unusable (Bool.eq_false_iff.mpr unreported)] at clean
        cases clean

theorem creates_ensureDirectory (plain : ".." ∉ path.names) :
    Creates path (ensureDirectory path) :=
  creates_createOr plain (creates_throw rfl)

theorem creates_ensureFrom (root : String) {names : List String} (plain : ".." ∉ names) :
    Creates { root, names := names.reverse } (ensureFrom root names) := by
  induction names with
  | nil => exact creates_ensureDirectory (by simp)
  | cons name above ih =>
    have plain' : ".." ∉ (name :: above).reverse := by rwa [mem_reverse]
    have before : above.reverse <+: (name :: above).reverse := ⟨[name], by simp⟩
    have outer := ih fun member => plain (mem_cons_of_mem name member)
    exact creates_createOr plain' (outer.bind rfl before (creates_ensureDirectory plain'))

theorem creates_ensureDirectories (plain : ".." ∉ path.names) :
    Creates path (ensureDirectories path) := by
  have plain' : ".." ∉ path.names.reverse := by rwa [mem_reverse]
  have creates := creates_ensureFrom path.root plain'
  rwa [reverse_reverse] at creates

/-- A path with an unusable name is refused before anything is done. -/
theorem outcome_ensureDirectories_unusable
    (unusable : path.names.any (Text.hasChar · '\x00') = true) :
    outcome (ensureDirectories path) disk = (.error .unusableName, disk) := by
  have located : disk.tree.locate disk.working path = .error .unusableName :=
    locate_eq_unusableName_iff.mpr unusable
  have made : outcome (makeDirectory path) disk = (.error .unusableName, disk) := by
    rw [outcome_makeDirectory, Disk.take, located]
    rfl
  have nowhere : ¬disk.isDirectory path = true := by
    rw [Disk.isDirectory, located]
    exact Bool.false_ne_true
  have refused (onMissing : OnDisk Unit) :
      outcome (createOr path onMissing) disk = (.error .unusableName, disk) := by
    rw [outcome_createOr, made]
    exact if_neg nowhere
  have whole : path = { root := path.root, names := path.names.reverse.reverse } := by
    rw [List.reverse_reverse]
  rw [ensureDirectories]
  cases names : path.names.reverse with
  | nil =>
    rw [List.reverse_eq_nil_iff.mp names] at unusable
    cases unusable
  | cons name above =>
    rw [names] at whole
    rw [ensureFrom, ← whole]
    exact refused _

/-! ## Files and moves -/

theorem writeFile_cases (disk : Disk) (path : Path) (plain : ".." ∉ path.names) (text : String) :
    (∃ steps, disk.tree.item? (path.place disk.working) ≠ some .directory ∧
      outcome (writeFile path text) disk =
        (.ok (), { disk with tree := disk.tree.setFile (path.place disk.working) text, steps })) ∨
    ∃ fault steps, outcome (writeFile path text) disk = (.error fault, { disk with steps }) := by
  have ran : outcome (writeFile path text) disk = disk.take fun tree =>
    tree.locate disk.working path >>= fun place => tree.writeFile place text := rfl
  rw [ran]
  rcases Disk.take_cases disk fun tree =>
      tree.locate disk.working path >>= fun place => tree.writeFile place text with
    ⟨tree, steps, acted, taken⟩ | ⟨fault, steps, taken, -⟩
  · obtain ⟨place, located, written⟩ := ok_of_bind acted
    obtain ⟨rfl, -, -⟩ := of_locate_eq_ok plain located
    rw [FileTree.writeFile] at written
    split at written
    next => cases written
    next free =>
      cases written
      exact .inl ⟨steps, free, taken⟩
  · exact .inr ⟨fault, steps, taken⟩

theorem rename_cases (disk : Disk) (source target : Path) :
    (∃ steps start finish, disk.tree.locate disk.working source = .ok start ∧
      disk.tree.locate disk.working target = .ok finish ∧ disk.tree.has finish = false ∧
      outcome (rename source target) disk =
        (.ok (), { disk with tree := disk.tree.move start finish, steps })) ∨
    ∃ fault steps, outcome (rename source target) disk = (.error fault, { disk with steps }) := by
  have ran : outcome (rename source target) disk = disk.take fun tree =>
    tree.locate disk.working source >>= fun start =>
      tree.locate disk.working target >>= fun finish => tree.rename start finish := rfl
  rw [ran]
  rcases Disk.take_cases disk fun tree => tree.locate disk.working source >>= fun start =>
      tree.locate disk.working target >>= fun finish => tree.rename start finish with
    ⟨tree, steps, acted, taken⟩ | ⟨fault, steps, taken, -⟩
  · obtain ⟨start, first, acted⟩ := ok_of_bind acted
    obtain ⟨finish, second, moved⟩ := ok_of_bind acted
    rw [FileTree.rename] at moved
    split at moved
    next => cases moved
    split at moved
    next => cases moved
    next free =>
      split at moved
      next => cases moved
      next =>
        cases moved
        exact .inl ⟨steps, start, finish, first, second, Bool.eq_false_iff.mpr free, taken⟩
  · exact .inr ⟨fault, steps, taken⟩

end OnDisk

/-! ## Fresh names -/

theorem Text.padded_injective (width : Nat) : Function.Injective (padded width) := by
  intro first second same
  have values := congrArg (fun text : String => Nat.ofDigitChars 10 text.toList 0) same
  simpa [padded, Nat.ofDigitChars_append, Nat.ofDigitChars_replicate_zero,
    Nat.ofDigitChars_ten_toDigits] using values

namespace Disk

theorem exists_freshName_eq (disk : Disk) (front back : String) :
    ∃ number, disk.freshName front back = front ++ padded 8 number ++ back :=
  ⟨_, rfl⟩

/-- A fresh name occurs in no place of the tree. -/
theorem freshName_notMem {disk : Disk} (front back : String) {item : List String × FileItem}
    (member : item ∈ disk.tree.items) : disk.freshName front back ∉ item.1 := by
  have used (name : String) : name ∈ item.1 → name ∈ disk.tree.items.flatMap (·.1) :=
    fun inside => mem_flatMap.mpr ⟨item, member, inside⟩
  refine fun inside => absurd (used _ inside) ?_
  rw [freshName]
  generalize disk.tree.items.flatMap (·.1) = taken
  cases found : (range taken.length).find? fun number =>
      !taken.contains (front ++ padded 8 number ++ back) with
  | some number =>
    have free := find?_some found
    simpa using free
  | none =>
    -- all numbers below the count of names are taken, so one more name would be too many
    intro last
    have full : ((range (taken.length + 1)).map fun number =>
        front ++ padded 8 number ++ back) ⊆ taken := by
      intro name listed
      obtain ⟨number, small, rfl⟩ := mem_map.mp listed
      rcases Nat.lt_succ_iff_lt_or_eq.mp (mem_range.mp small) with less | same
      · have tried := find?_eq_none.mp found number (mem_range.mpr less)
        simpa using tried
      · rw [same]
        exact last
    have distinct : ((range (taken.length + 1)).map fun number =>
        front ++ padded 8 number ++ back).Nodup := by
      refine Nodup.map (fun first second same => ?_) nodup_range
      have texts : (front ++ padded 8 first ++ back).toList =
          (front ++ padded 8 second ++ back).toList := congrArg String.toList same
      simp only [String.toList_append, append_cancel_right_eq,
        append_cancel_left_eq] at texts
      exact padded_injective 8 (String.toList_injective texts)
    have count := (subperm_of_subset distinct full).length_le
    rw [length_map, length_range] at count
    omega

end Disk

/-! ## The outermost missing directory -/

namespace Disk

variable {disk : Disk} {root : String} {names : List String}

theorem missingFrom_cons {name : String} {above : List String} {created : Option Path}
    (found : disk.missingFrom root (name :: above) = .ok created) :
    (disk.probe { root, names := (name :: above).reverse } = .ok true ∧ created = none) ∨
    (disk.probe { root, names := (name :: above).reverse } = .ok false ∧
      ∃ outer, disk.missingFrom root above = .ok outer ∧
        created = outer.or (some { root, names := (name :: above).reverse })) := by
  rw [missingFrom] at found
  cases probed : disk.probe { root, names := (name :: above).reverse } with
  | error fault =>
    rw [probed] at found
    cases found
  | ok present =>
    rw [probed] at found
    cases present with
    | true =>
      cases found
      exact .inl ⟨rfl, rfl⟩
    | false =>
      cases onward : disk.missingFrom root above with
      | error fault =>
        simp only [onward] at found
        cases found
      | ok outer =>
        simp only [onward] at found
        cases found
        exact .inr ⟨rfl, outer, rfl, rfl⟩

theorem missingFrom_eq_none (found : disk.missingFrom root names = .ok none) :
    names = [] ∨ disk.probe { root, names := names.reverse } = .ok true := by
  cases names with
  | nil => exact .inl rfl
  | cons name above =>
    rcases missingFrom_cons found with ⟨probed, -⟩ | ⟨-, outer, -, same⟩
    · exact .inr probed
    · cases outer <;> cases same

variable {path : Path} {tree : FileTree}

/-- The outermost missing directory is missing, and the one above it is not. -/
theorem missingFrom_eq_some (found : disk.missingFrom root names = .ok (some path)) :
    path.root = root ∧ path.names <+: names.reverse ∧ path.names ≠ [] ∧
      disk.probe path = .ok false ∧
      (path.names.dropLast = [] ∨ disk.probe path.parent = .ok true) := by
  induction names with
  | nil => cases found
  | cons name above ih =>
    rcases missingFrom_cons found with ⟨-, same⟩ | ⟨probed, outer, onward, same⟩
    · cases same
    cases outer with
    | some further =>
      cases same
      obtain ⟨rooted, before, rest⟩ := ih onward
      exact ⟨rooted, before.trans ⟨[name], by simp⟩, rest⟩
    | none =>
      cases same
      have last : ((name :: above).reverse).dropLast = above.reverse := by
        rw [reverse_cons, dropLast_concat]
      refine ⟨rfl, prefix_rfl, by simp, probed, ?_⟩
      rw [parent]
      dsimp only
      rw [last]
      rcases missingFrom_eq_none onward with rfl | present
      · exact .inl rfl
      · exact .inr present

theorem probe_of_has (sound : disk.Sound) (plain : ".." ∉ path.names)
    (fits : ∀ name ∈ path.names, Fits name)
    (present : disk.tree.has (path.place disk.working) = true) : disk.probe path = .ok true := by
  have opened : disk.tree.IsOpen (path.origin disk.working ++ path.names.dropLast) := by
    by_cases named : path.names = []
    · rw [named, dropLast_nil, append_nil]
      exact sound.closed.isOpen (sound.origin path)
    · apply sound.closed.isOpen
      have parent := sound.closed.parent present
      rwa [place, dropLast_append_of_ne_nil named] at parent
  rw [probe, locate_eq_ok plain fits opened]
  exact congrArg Except.ok present

theorem has_of_probe (plain : ".." ∉ path.names) (present : disk.probe path = .ok true) :
    disk.tree.has (path.place disk.working) = true := by
  rw [probe] at present
  split at present
  next place located =>
    obtain ⟨rfl, -, -⟩ := of_locate_eq_ok plain located
    exact Except.ok.inj present
  next => cases present
  next => cases present

/-- If no directory is missing on the way, none is created. -/
theorem eq_of_firstMissing_none (sound : disk.Sound) (plain : ".." ∉ path.names)
    (found : disk.firstMissing path = .ok none)
    (grown : disk.tree.Grown (path.origin disk.working) path.names tree) : tree = disk.tree := by
  have present : disk.tree.has (path.place disk.working) = true := by
    rcases missingFrom_eq_none found with none | probed
    · rw [Path.place, List.reverse_eq_nil_iff.mp none, List.append_nil]
      exact has_of_item? (sound.origin path)
    · rw [List.reverse_reverse] at probed
      exact has_of_probe plain probed
  obtain ⟨added, items, each⟩ := grown
  cases added with
  | nil =>
    rw [List.map_nil, List.append_nil] at items
    exact congrArg FileTree.mk items
  | cons ahead rest =>
    obtain ⟨before, missing, -⟩ := each ahead List.mem_cons_self
    have onWay := (List.prefix_append_right_inj (path.origin disk.working)).mpr before
    rw [sound.closed.has_above present onWay] at missing
    cases missing

/-- Removing the outermost missing directory takes back what was created on the way. -/
theorem remove_firstMissing (sound : disk.Sound) {outermost : Path} {steps : Nat}
    (plain : ".." ∉ path.names) (found : disk.firstMissing path = .ok (some outermost))
    (closed : tree.IsClosed) (grown : disk.tree.Grown (path.origin disk.working) path.names tree) :
    (Disk.remove outermost { disk with tree, steps }).tree = disk.tree := by
  obtain ⟨rooted, before, named, absent, outside⟩ := missingFrom_eq_some found
  rw [List.reverse_reverse] at before
  have plain' : ".." ∉ outermost.names := fun member => plain (before.subset member)
  have origin : outermost.origin disk.working = path.origin disk.working := by
    rw [Path.origin, Path.origin, Path.isAbsolute, Path.isAbsolute, rooted]
  have missing (fits : ∀ name ∈ outermost.names, FileTree.Fits name) :
      disk.tree.has (outermost.place disk.working) = false := by
    rw [Bool.eq_false_iff]
    intro present
    rw [probe_of_has sound plain' fits present] at absent
    cases absent
  obtain ⟨added, items, each⟩ := grown
  -- everything that was added is at the outermost missing directory or below it
  have below : ∀ ahead ∈ added, outermost.names <+: ahead := by
    intro ahead member
    obtain ⟨inside, free, -⟩ := each ahead member
    rcases List.prefix_or_prefix_of_prefix before inside with after | above
    · exact after
    by_cases same : ahead = outermost.names
    · subst same
      exact List.prefix_rfl
    have strict := (prefix_dropLast_iff named same).mpr above
    have present : disk.tree.has (path.origin disk.working ++ ahead) = true := by
      rcases outside with only | probed
      · rw [only, List.prefix_nil] at strict
        rw [strict, List.append_nil]
        exact has_of_item? (sound.origin path)
      · have plain'' : ".." ∉ outermost.parent.names :=
          fun member => plain' ((List.dropLast_prefix _).subset member)
        apply sound.closed.has_above (has_of_probe plain'' probed)
        rw [Path.place, ← origin]
        exact (List.prefix_append_right_inj _).mpr strict
    rw [free] at present
    cases present
  have inside : ∀ ahead ∈ added,
      outermost.place disk.working <+: path.origin disk.working ++ ahead := by
    intro ahead member
    rw [Path.place, origin]
    exact (List.prefix_append_right_inj _).mpr (below ahead member)
  rw [Disk.remove]
  split
  next place located =>
    obtain ⟨rfl, fits, -⟩ := of_locate_eq_ok plain' located
    exact (FileTree.Grown.remove_added items inside).trans
      (sound.closed.remove_eq_self (missing fits))
  next fault nowhere =>
    cases added with
    | nil =>
      rw [List.map_nil, List.append_nil] at items
      exact congrArg FileTree.mk items
    | cons ahead rest =>
      -- the way to what was added leads through the outermost missing directory
      obtain ⟨-, -, fits⟩ := each ahead List.mem_cons_self
      have onWay := below ahead List.mem_cons_self
      have there : tree.has (path.origin disk.working ++ ahead) = true := by
        apply @FileTree.has_of_mem tree (path.origin disk.working ++ ahead, .directory)
        rw [items]
        simp
      have present := closed.has_above there (inside ahead List.mem_cons_self)
      have opened : tree.IsOpen (outermost.origin disk.working ++ outermost.names.dropLast) := by
        apply closed.isOpen
        have parent := closed.parent present
        rwa [Path.place, List.dropLast_append_of_ne_nil named] at parent
      have located := locate_eq_ok plain'
        (fun name member => fits name (onWay.subset member)) opened
      rw [located] at nowhere
      cases nowhere

end Disk

/-! ## Temporary directories -/

theorem Path.ofText_name {text : String} (slash : '/' ∉ text.toList) (present : text ≠ "")
    (dot : text ≠ ".") : ofText text = { root := "", names := [text] } := by
  have root : (ofText text).root = "" := by
    rw [ofText]
    dsimp only
    split
    next chars => simp [chars] at slash
    next chars => simp [chars] at slash
    next chars => simp [chars] at slash
    next => rfl
  have names : (ofText text).names = [text] := by
    rw [ofText, split_of_notMem slash]
    simp [present, dot]
  exact congrArg₂ mk root names

namespace OnDisk

variable {disk : Disk} {directory : Path} {front back : String}

/-- Creating a directory of a fresh name adds it to the tree or leaves the tree as it is. -/
theorem makeTemporary_cases (sound : disk.Sound) (plain : ".." ∉ directory.names) {fresh : String}
    (named : disk.freshName front back = fresh)
    (single : ofText fresh = { root := "", names := [fresh] }) (dots : fresh ≠ "..")
    (usable : hasChar fresh '\x00' = false) :
    (∃ steps, disk.tree.has (directory.place disk.working ++ [fresh]) = false ∧
      (∀ name ∈ directory.names ++ [fresh], Fits name) ∧
      disk.tree.item? (directory.place disk.working) = some .directory ∧
      outcome (makeTemporary directory front back) disk =
        (.ok (directory.descend [fresh]),
          { disk with
            tree := disk.tree.withDirectory (directory.place disk.working ++ [fresh]), steps })) ∨
    ∃ fault steps, outcome (makeTemporary directory front back) disk =
        (.error fault, { disk with steps }) ∧
      (fault.isReported = false → directory.names.any (hasChar · '\x00') = true) := by
  have path : directory.append (ofText (disk.freshName front back)) =
      directory.descend [fresh] := by
    rw [named, single]
    rfl
  have ran : outcome (makeTemporary directory front back) disk =
      outcome (makeDirectory (directory.descend [fresh]) >>= fun _ =>
        pure (directory.descend [fresh])) disk := by
    rw [← path]
    rfl
  have plain' : ".." ∉ (directory.descend [fresh]).names := by
    simpa [descend, plain] using dots.symm
  rw [ran, outcome_bind]
  rcases makeDirectory_cases sound plain' with
    ⟨steps, missing, fits, parent, made⟩ | ⟨fault, steps, made, unusable⟩
  · rw [place_descend] at missing parent made
    rw [dropLast_concat] at parent
    refine .inl ⟨steps, missing, fits, parent, ?_⟩
    rw [made]
    rfl
  · refine .inr ⟨fault, steps, by rw [made], fun unreported => ?_⟩
    have unusable' := unusable unreported
    rw [descend, any_append, Bool.or_eq_true] at unusable'
    rcases unusable' with outside | last
    · exact outside
    · simp [usable] at last

end OnDisk

end Bindery
