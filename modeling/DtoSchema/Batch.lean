import DtoSchema.Conversion
import DtoSchema.File.Output

/-!
# Batches

A batch converts the inputs at several paths, with a limit on the number of conversions at a time.
Each path has a worker.  Workers start in the order of the paths, as soon as the limit allows; from
then on they take their steps in any order.  A worker looks whether the batch was given up, reads
its input, and converts what it has read.  If it fails, it hands its failure in; the first failure
that is handed in is the failure of the batch, and the batch is given up some time after that.

A batch is a state, and a schedule is a list of steps.  The results stand in the order of the paths.
-/

namespace DtoSchema

open Text

/-- What became of an input. -/
structure Job where
  /-- The path of the input. -/
  path : Text
  /-- Its source. -/
  source : Text
  /-- What the source was converted to. -/
  conversion : Conversion

namespace Batch

/-! ### Sources -/

/-- What a batch reads from. -/
structure Sources where
  /-- The content of the file at a path, if it can be read. -/
  file : Text → Except FileError Text := fun path => .error ⟨"open", path, .notFound⟩
  /-- What is left of the standard input, if it can be read. -/
  input : Except FileError Text := .ok []

namespace Sources

/-- The sources with a file. -/
def withFile (s : Sources) (path : Text) (content : Except FileError Text) : Sources :=
  { s with file := fun p => if p = path then content else s.file p }

/-- What can be read at a path. -/
def content (s : Sources) (path : Text) : Except FileError Text :=
  if path = standardInput then s.input else s.file path

/-- The sources after what is at a path was read.  Nothing is left of the standard input. -/
def afterReading (s : Sources) (path : Text) : Sources :=
  if path = standardInput then { s with input := .ok [] } else s

end Sources

/-! ### Workers -/

/-- Why a batch fails. -/
inductive Failure where
  /-- The batch was given up. -/
  | cancelled
  /-- An input cannot be read. -/
  | unreadable (path : Text) (error : FileError)
  deriving DecidableEq, Repr

/-- The message of a failure. -/
def Failure.message : Failure → Text
  | cancelled => "context canceled"
  | unreadable path e =>
    "reading " ++ (if path = standardInput then utf8 "stdin" else path) ++ ": " ++ e.message

/-- How far a worker is. -/
inductive Stage where
  /-- It has not started. -/
  | queued
  /-- It has started. -/
  | started
  /-- It has seen that the batch goes on. -/
  | cleared
  /-- It has read its input. -/
  | loaded (source : Text)
  /-- It has failed, and has not handed its failure in. -/
  | failing (failure : Failure)
  /-- It has converted its input. -/
  | finished (job : Job)
  /-- It has handed its failure in. -/
  | failed

namespace Stage

/-- The worker has not started. -/
def isQueued : Stage → Bool
  | queued => true
  | started | cleared | loaded _ | failing _ | finished _ | failed => false

/-- The worker holds one of the places that the limit counts. -/
def isActive : Stage → Bool
  | started | cleared | loaded _ | failing _ => true
  | queued | finished _ | failed => false

/-- The worker has ended. -/
def isEnded : Stage → Bool
  | finished _ | failed => true
  | queued | started | cleared | loaded _ | failing _ => false

/-- What became of the input of the worker. -/
def job? : Stage → Option Job
  | finished job => some job
  | queued | started | cleared | loaded _ | failing _ | failed => none

end Stage

/-- A worker. -/
structure Worker where
  /-- The path of its input. -/
  path : Text
  /-- How far it is. -/
  stage : Stage := .queued

/-! ### Steps -/

/-- A batch at work. -/
structure State where
  /-- The number of workers at a time. -/
  limit : Nat
  /-- The options of all conversions. -/
  options : Options
  /-- The batch was given up from outside, before it began. -/
  cancelled : Bool
  /-- What is read from. -/
  sources : Sources
  /-- The workers, in the order of the paths. -/
  workers : List Worker
  /-- The first failure. -/
  failure : Option Failure := none
  /-- The batch was given up because of its failure. -/
  abandoned : Bool := false

/-- A step of a batch. -/
inductive Step where
  /-- The next worker starts. -/
  | start
  /-- A worker looks whether the batch was given up. -/
  | look (worker : Nat)
  /-- A worker reads its input. -/
  | read (worker : Nat)
  /-- A worker converts what it has read. -/
  | work (worker : Nat)
  /-- A worker hands its failure in. -/
  | fail (worker : Nat)
  /-- The batch is given up because of its failure. -/
  | abandon
  deriving DecidableEq, Repr

/-- A batch that has not begun. -/
def begin (limit : Nat) (options : Options) (cancelled : Bool) (sources : Sources)
    (paths : List Text) : State where
  limit := max 1 limit
  options := options
  cancelled := cancelled
  sources := sources
  workers := paths.map fun path => { path := path }

namespace State

/-- The batch was given up. -/
def isGivenUp (s : State) : Bool := s.cancelled || s.abandoned

/-- The batch with one of its workers at another stage. -/
def setStage (s : State) (i : Nat) (stage : Stage) : State :=
  { s with workers := s.workers.modify i fun w => { w with stage := stage } }

/-- The next worker starts, if the limit allows. -/
def start (s : State) : State :=
  match s.workers.findIdx? (·.stage.isQueued) with
  | some i => if s.workers.countP (·.stage.isActive) < s.limit then s.setStage i .started else s
  | none => s

/-- A worker that has started looks whether the batch was given up. -/
def look (s : State) (i : Nat) : State :=
  match s.workers[i]? with
  | some ⟨_, .started⟩ => s.setStage i (if s.isGivenUp then .failing .cancelled else .cleared)
  | _ => s

/-- A worker that goes on reads its input. -/
def read (s : State) (i : Nat) : State :=
  match s.workers[i]? with
  | some ⟨path, .cleared⟩ =>
    let stage : Stage := match s.sources.content path with
      | .ok source => .loaded source
      | .error e => .failing (.unreadable path e)
    { s with sources := s.sources.afterReading path }.setStage i stage
  | _ => s

/-- A worker that has read its input converts it, and ends. -/
def work (s : State) (i : Nat) : State :=
  match s.workers[i]? with
  | some ⟨path, .loaded source⟩ =>
    s.setStage i (.finished ⟨path, source, convert s.options source⟩)
  | _ => s

/-- A worker that has failed hands its failure in, and ends.  The first failure stays. -/
def fail (s : State) (i : Nat) : State :=
  match s.workers[i]? with
  | some ⟨_, .failing f⟩ => { s with failure := s.failure.or (some f) }.setStage i .failed
  | _ => s

/-- The batch is given up, if it has a failure. -/
def abandon (s : State) : State := { s with abandoned := s.abandoned || s.failure.isSome }

/-- The batch after a step.  A step that cannot be taken changes nothing. -/
def step (s : State) : Step → State
  | .start => s.start
  | .look i => s.look i
  | .read i => s.read i
  | .work i => s.work i
  | .fail i => s.fail i
  | .abandon => s.abandon

/-- The batch after the steps of a schedule. -/
def run (s : State) (schedule : List Step) : State := schedule.foldl step s

/-- All workers have ended. -/
def isComplete (s : State) : Bool := s.workers.all (·.stage.isEnded)

/-- What the batch comes to: its first failure, or what became of each input. -/
def result (s : State) : Except Failure (List Job) :=
  match s.failure with
  | some f => .error f
  | none => .ok (s.workers.filterMap (·.stage.job?))

end State

/-- The steps of a worker, from its start to its end, for an input that can be read and for one that
cannot. -/
def turn (i : Nat) : List Step := [.start, .look i, .read i, .work i, .fail i, .abandon]

/-- What a batch comes to when each worker has ended before the next one starts. -/
def convertAll (limit : Nat) (options : Options) (cancelled : Bool) (sources : Sources)
    (paths : List Text) : Except Failure (List Job) :=
  ((begin limit options cancelled sources paths).run
    ((List.range paths.length).flatMap turn)).result

end Batch

end DtoSchema
