import Aymos.StopPoints
import Mathlib.Logic.Function.Basic

/-!
The publication of evidence by `tools/aymos_lab/signal_lab.py`.

A run stages its evidence, moves the published directory aside, installs the stage and removes
what it moved aside. The file-system operations are the steps. What the runs of the firmware
leave in the stage is a parameter.
-/

namespace Aymos.Evidence

open StopPoints StopPoints.Program

/-- What a directory holds under a name. -/
inductive Entry
  | file (content : String)
  | directory
  | symlink
  deriving DecidableEq, Repr

abbrev Entries := List (String × Entry)

/-- What is found at a path. -/
inductive Node
  | directory (entries : Entries)
  | file
  | symlink (resolves : Bool)
  deriving DecidableEq, Repr

/-- The paths in `build/signal-lab`; a stage belongs to a process. -/
inductive Place
  | stage (pid : ℕ)
  | published
  | backup
  deriving DecidableEq, Repr

/-- What is found at `build/signal-lab`. -/
inductive Base
  | absent
  | directory
  | file
  | symlink
  deriving DecidableEq, Repr

/-- The file system. -/
structure Tree where
  base : Base
  /-- The directory `.evidence.lock` exists. -/
  lock : Bool
  nodes : Place → Option Node

/-- The host: where the repository is, and the order in which it removes the entries of a
directory. -/
structure Host where
  root : String
  order : Entries → List String
  order_perm : ∀ entries, (order entries).Perm (entries.map Prod.fst)

/-- The order of the directory is one a host can have. -/
lemma listing_perm (entries : Entries) : (entries.map Prod.fst).Perm (entries.map Prod.fst) :=
  List.Perm.refl _

def evidenceMarker : String := ".aymos-signal-lab-evidence"

variable (H : Host)

def Host.base : String := H.root ++ "/build/signal-lab"

def Host.path : Place → String
  | .stage pid => H.base ++ "/.evidence-stage-" ++ toString pid
  | .published => H.base ++ "/evidence"
  | .backup => H.base ++ "/.evidence-backup"

/-! ### Paths -/

/-- `Path.exists`. -/
def pathExists : Option Node → Bool
  | none => false
  | some (.symlink resolves) => resolves
  | some _ => true

/-- `Path.is_symlink`. -/
def isSymlink : Option Node → Bool
  | some (.symlink _) => true
  | _ => false

/-- The marker is a regular file. -/
def marked (entries : Entries) : Bool :=
  entries.any fun entry => entry.1 == evidenceMarker && entry.2 matches .file _

/-! ### Steps -/

def setNode (t : Tree) (place : Place) (node : Option Node) : Tree :=
  { t with nodes := Function.update t.nodes place node }

/-- `os.replace`. -/
def rename (source target : Place) (t : Tree) : Tree :=
  setNode (setNode t target (t.nodes source)) source none

def unlink (place : Place) (name : String) (t : Tree) : Tree :=
  match t.nodes place with
  | some (.directory entries) =>
    setNode t place (some (.directory (entries.filter fun entry => entry.1 ≠ name)))
  | _ => t

def rmdir (place : Place) (t : Tree) : Tree := setNode t place none

/-! ### Evidence directories -/

abbrev Action := Program Tree String Unit

/-- `_validate_marked_evidence`. The parent of every path here is the expected one. -/
def validateMarkedEvidence (place : Place) (label : String) : Action := do
  let t ← look
  match t.nodes place with
  | some (.symlink _) => fail ("unsafe " ++ label ++ " path: " ++ H.path place)
  | some (.directory entries) =>
    if marked entries then done ()
    else fail (label ++ " has no regular marker: " ++ H.path place)
  | _ => fail (label ++ " is not a directory: " ++ H.path place)

def unlinkAll (place : Place) : List String → Action
  | [] => done ()
  | name :: names => do
    step (unlink place name)
    unlinkAll place names

/-- `shutil.rmtree`. -/
def rmtree (place : Place) : Action := do
  let t ← look
  match t.nodes place with
  | some (.directory entries) =>
    unlinkAll place (H.order entries)
    step (rmdir place)
  | _ => fail ("Cannot remove " ++ H.path place)

/-- `_remove_marked_evidence`. -/
def removeMarkedEvidence (place : Place) (label : String) : Action := do
  validateMarkedEvidence H place label
  rmtree H place

/-- `_recover_evidence_backup`. -/
def recoverEvidenceBackup : Action := do
  let t ← look
  if !pathExists (t.nodes .backup) && !isSymlink (t.nodes .backup) then done ()
  else
    validateMarkedEvidence H .backup "evidence backup"
    if pathExists (t.nodes .published) || isSymlink (t.nodes .published) then
      validateMarkedEvidence H .published "published evidence"
      removeMarkedEvidence H .backup "evidence backup"
    else step (rename .backup .published)

/-- What an exception during the installation undoes. -/
def rollback (pid : ℕ) (hadPrevious : Bool) : Action := do
  let t ← look
  if pathExists (t.nodes .published) && !pathExists (t.nodes (.stage pid)) &&
      !isSymlink (t.nodes .published) then
    step (rename .published (.stage pid))
  let t ← look
  if hadPrevious && !pathExists (t.nodes .published) && pathExists (t.nodes .backup) then
    step (rename .backup .published)

/-- `_replace_evidence`. -/
def replaceEvidence (pid : ℕ) : Action := do
  validateMarkedEvidence H (.stage pid) "evidence stage"
  recoverEvidenceBackup H
  let t ← look
  if isSymlink (t.nodes .published) then
    fail ("unsafe published evidence path: " ++ H.path .published)
  else
    let hadPrevious := pathExists (t.nodes .published)
    if hadPrevious then
      validateMarkedEvidence H .published "published evidence"
      step (rename .published .backup)
    onError (do
      step (rename (.stage pid) .published)
      validateMarkedEvidence H .published "published evidence") (rollback pid hadPrevious)
    if hadPrevious then removeMarkedEvidence H .backup "evidence backup"

/-! ### Runs -/

/-- The stage is made and marked. -/
def makeStage (pid : ℕ) : Action := do
  let t ← look
  if (t.nodes (.stage pid)).isSome then fail ("File exists: " ++ H.path (.stage pid))
  else
    step fun t => setNode t (.stage pid) (some (.directory []))
    step fun t => setNode t (.stage pid)
      (some (.directory [(evidenceMarker, .file "schema=1\n")]))

/-- What a run does under its lock: `work` runs the firmware and writes the stage. -/
def evidenceRun (work : Action) (pid : ℕ) : Action :=
  onError (do
    recoverEvidenceBackup H
    makeStage H pid
    work
    replaceEvidence H pid) (do
    let t ← look
    if pathExists (t.nodes (.stage pid)) && !isSymlink (t.nodes (.stage pid)) then
      removeMarkedEvidence H (.stage pid) "failed evidence stage")

/-- `base.mkdir(parents=True, exist_ok=True)`. -/
def makeBase : Action := do
  let t ← look
  match t.base with
  | .symlink => fail ("build/signal-lab must not be a symlink: " ++ H.base)
  | .file => fail ("File exists: " ++ H.base)
  | .absent => step fun t => { t with base := .directory }
  | .directory => done ()

/-- `run_test`. -/
def runTest (work : Action) (pid : ℕ) : Action := do
  makeBase H
  let t ← look
  if t.lock then fail "another DSP evidence run is active"
  else
    step fun t => { t with lock := true }
    finallyDo (evidenceRun H work pid) (step fun t => { t with lock := false })

end Aymos.Evidence
