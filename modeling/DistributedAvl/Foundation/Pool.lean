import DistributedAvl.Foundation.Runs
import Mathlib.Data.List.Induction

namespace Pool

-- A task holds the thread that posts the others, until all are posted.  started and ended record in
-- which order tasks have begun and come to their end.
structure State (T E : Type) where
  posting : List T
  queue : List T
  running : List T
  started : List T
  ended : List T
  env : E

inductive Act (T A : Type) where
  | post
  | begin
  | finish (task : T)
  | own (action : A)
  deriving DecidableEq, Repr

-- ends is none as long as what the task waits for has not come.
structure System (T E A : Type) where
  threads : Nat
  ends : E → T → Option E
  own : E → A → Option E

variable {T E A : Type}

def State.busy (s : State T E) : Nat := s.running.length + if s.posting.isEmpty then 0 else 1

namespace System

def start (tasks : List T) (env : E) : State T E := ⟨tasks, [], [], [], [], env⟩

def begin (sys : System T E A) (s : State T E) : Option (State T E) :=
  match s.queue with
  | [] => none
  | task :: queue =>
      if s.busy < sys.threads then
        some { s with
          queue := queue, running := s.running ++ [task], started := s.started ++ [task] }
      else none

variable [DecidableEq T]

-- The tasks are begun in the order in which they have been posted.
def step (sys : System T E A) (s : State T E) : Act T A → Option (State T E)
  | .post =>
      match s.posting with
      | [] => none
      | task :: posting => some { s with posting := posting, queue := s.queue ++ [task] }
  | .begin => sys.begin s
  | .finish task =>
      if task ∈ s.running then do
        let env ← sys.ends s.env task
        return { s with running := s.running.erase task, ended := s.ended ++ [task], env := env }
      else none
  | .own action => do return { s with env := ← sys.own s.env action }

end System

variable {sys : System T E A} {s s' : State T E} {tasks : List T} {task : T}

def State.left (s : State T E) : Nat :=
  3 * s.posting.length + 2 * s.queue.length + s.running.length

end Pool
