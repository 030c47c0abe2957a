/-!
# Running tasks on a fixed beat

At every beat each registered task runs once, in the order of registration. A task that fails, or
breaks down, runs again at the next beat. What a task does is given by its script: the outcome of
each of its runs, all further runs being fine.

Only the order of the runs is kept. The time that they take, the state in which a broken run leaves
its task and the signal that ends it all are left out.
-/

namespace LiveTimetable

/-- How a run of a task ends. -/
inductive RunOutcome where
  | ok
  | fail
  | panic
  deriving DecidableEq

/-- The word for an outcome. -/
def RunOutcome.word : RunOutcome → String
  | ok => "ok"
  | fail => "fail"
  | panic => "panic"

/-- All outcomes by their words. -/
def RunOutcome.words : List (String × RunOutcome) := [("ok", ok), ("fail", fail), ("panic", panic)]

/-- A task and the outcomes of its first runs. -/
structure ScriptedTask where
  name : String
  script : List RunOutcome
  deriving DecidableEq

/-- The outcome of a run, counted from 1. -/
def ScriptedTask.outcome (t : ScriptedTask) (run : Nat) : RunOutcome :=
  t.script[run - 1]?.getD .ok

/-- The tasks and the time between two beats, in microseconds. -/
structure Ticker where
  period : Nat
  tasks : List ScriptedTask
  deriving DecidableEq

/-- A run of a task. -/
structure TaskRun where
  name : String
  run : Nat
  outcome : RunOutcome
  deriving DecidableEq

namespace Ticker

/-- A ticker without tasks; it beats at most once in a millisecond. -/
def every (microseconds : Nat) : Ticker := ⟨max 1000 microseconds, []⟩

/-- Registers a task behind the others. -/
def register (t : Ticker) (task : ScriptedTask) : Ticker := { t with tasks := t.tasks ++ [task] }

/-- The runs of one beat, counted from 1. -/
def beat (t : Ticker) (n : Nat) : List TaskRun :=
  t.tasks.map fun task => ⟨task.name, n, task.outcome n⟩

/-- The runs of the first `beats` beats. -/
def run (t : Ticker) (beats : Nat) : List TaskRun :=
  (List.range beats).flatMap fun n => t.beat (n + 1)

end Ticker

end LiveTimetable
