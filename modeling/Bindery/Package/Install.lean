import Bindery.File.Disk
import Bindery.Package.Unit
import Bindery.Run

/-!
# Installing a package

The units of a package are first written to a temporary directory.  A package that
stands at the target is moved aside, the new one takes its place, and only then the
old one is removed.  If anything fails, nothing of the attempt stays.
-/

namespace Bindery.Package

/-- What interrupts an installation: a failed step, or a fault met while the units are produced. -/
inductive Setback where
  | step (fault : StepFault)
  | raised (fault : Fault)
deriving DecidableEq, Repr

def Setback.fault (target : Path) : Setback → Fault
  | .step fault =>
    if fault.isReported then .generation (.notWritten target.text fault.text)
    else .shape .badValue
  | .raised fault => fault

abbrev Installing := ExceptT Setback (StateM Disk)

def onDisk {α : Type} (action : OnDisk α) : Installing α :=
  ExceptT.mk do
    match ← action.run with
    | .ok value => return .ok value
    | .error fault => return .error (.step fault)

def writeUnit (staging : Path) (unit : SourceUnit) : OnDisk Unit := do
  let path := staging.append (Path.ofText unit.path)
  OnDisk.ensureDirectories path.parent
  OnDisk.writeFile path unit.content

/-- Writes units below a directory, one after the other as they are produced. -/
def writeUnits (staging : Path) : List (Except Fault SourceUnit) → Installing Unit
  | [] => return ()
  | .error fault :: _ => throw (.raised fault)
  | .ok unit :: rest => do
    onDisk (writeUnit staging unit)
    writeUnits staging rest

/-- Where a package is installed: its target, the directory that holds it, and its name. -/
structure Site where
  directory : Path
  package : String

namespace Site

def target (site : Site) : Path :=
  site.directory.append (Path.ofText site.package)

def makeTemporary (site : Site) (back : String) : OnDisk Path :=
  OnDisk.makeTemporary site.directory ("." ++ site.package ++ ".") back

/-- Creates the directory that holds the package, and in it one for the new package. -/
def prepare (site : Site) : OnDisk Path := do
  OnDisk.ensureDirectories site.directory
  site.makeTemporary ".tmp"

def aside (site : Site) (backup : Path) : Path :=
  backup.append (Path.ofText site.package)

def reserve (site : Site) : Installing (Option Path) := do
  if (← get).has site.target then return some (← onDisk (site.makeTemporary ".old"))
  else return none

/-- Writes the new package, and creates a directory for the old one if there is one. -/
def stage (site : Site) (staging : Path) (units : List (Except Fault SourceUnit)) :
    Installing (Option Path) := do
  writeUnits staging units
  site.reserve

def setAside (site : Site) : Option Path → OnDisk Unit
  | none => return ()
  | some backup => OnDisk.rename site.target (site.aside backup)

def exchange (site : Site) (staging : Path) (backup : Option Path) : OnDisk Unit := do
  site.setAside backup
  OnDisk.rename staging site.target

def discard (path : Option Path) (disk : Disk) : Disk :=
  match path with
  | none => disk
  | some path => disk.remove path

def putBack (site : Site) (backup : Option Path) (disk : Disk) : Disk :=
  match backup with
  | none => disk
  | some backup =>
    if disk.has site.target then disk else disk.restore (site.aside backup) site.target

def undo (site : Site) (staging : Path) (backup created : Option Path) (disk : Disk) : Disk :=
  discard created (discard backup (site.putBack backup (disk.remove staging)))

end Site

/-- Writes the new package, exchanges it for the old one, and takes everything back if that
fails; `created` is the outermost directory that was created for it. -/
def Site.replace (site : Site) (staging : Path) (created : Option Path)
    (units : List (Except Fault SourceUnit)) : Run Disk Path :=
  ExceptT.mk do
    match ← (site.stage staging units).run with
    | .error setback =>
      modify (site.undo staging none created)
      return .error (setback.fault site.target)
    | .ok backup =>
      match ← (site.exchange staging backup).run with
      | .error fault =>
        modify (site.undo staging backup created)
        return .error ((Setback.step fault).fault site.target)
      | .ok _ =>
        modify (Site.discard backup)
        return .ok site.target

def install (units : List (Except Fault SourceUnit)) (site : Site) : Run Disk Path :=
  ExceptT.mk do
    match (← get).firstMissing site.directory with
    | .error _ => return .error (.shape .longName)
    | .ok created =>
      match ← site.prepare.run with
      | .error fault =>
        if fault.isReported then
          modify (Site.discard created)
          return .error (.generation (.noDirectory site.directory.text fault.text))
        else return .error (.shape .badValue)
      | .ok staging => site.replace staging created units

end Bindery.Package
