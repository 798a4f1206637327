import MyMuduo.Lib.Run

/-!
# The thread pool (`threadpool.hpp`)

Any number of threads append tasks, the workers take them from the list, and one call of
`shutdown()`, or the destructor, whose body is the same, stops the pool. A section under the mutex is
one step. A worker that the mutex lets into `wait` with its predicate false blocks; it may be woken at
any time, notified or for no reason, and then tests the predicate again.

A task is known by its number in the order of the appends. Beside the members of the source the pool
keeps which tasks were taken, called and finished, whose `append` has returned, and what the call of
`shutdown()` found.
-/

namespace MyMuduo

/-- Where a worker is in `threadFunc`. -/
inductive WorkerPc where
  /-- about to lock the mutex and to test the predicate of `wait` -/
  | lock
  /-- blocked in `wait` -/
  | waiting
  /-- with a task, the mutex unlocked again, before `task()` -/
  | taken (task : ℕ)
  /-- in `task()` -/
  | running (task : ℕ)
  /-- out of the loop -/
  | exited
  deriving DecidableEq, Repr

/-- Where the thread that calls `shutdown()` is. -/
inductive ShutdownPc where
  /-- before the call -/
  | idle
  /-- before the section that sets `m_stop` -/
  | store
  /-- before `notify_all` -/
  | notify
  /-- at the `join` of a thread -/
  | join (i : ℕ)
  | returned
  deriving DecidableEq, Repr

structure ThreadPool where
  m_taskList : List ℕ
  m_stop : Bool
  m_thread_number : ℕ
  workers : ℕ → WorkerPc
  pc : ShutdownPc
  /-- how many tasks were appended -/
  appended : ℕ
  /-- the tasks whose `append` has returned -/
  returned : List ℕ
  /-- the tasks whose `append` had returned when `shutdown()` was called -/
  before : List ℕ
  /-- the tasks in the list when `m_stop` was set -/
  left : List ℕ
  /-- the tasks taken from the list, in order -/
  taken : List ℕ
  /-- the calls of `task()`, each with its worker, in order -/
  started : List (ℕ × ℕ)
  /-- the tasks that were run to their end -/
  finished : List ℕ

inductive PoolStep where
  /-- the section of an `append` under the mutex -/
  | push
  /-- the `notify_one` and the return of the `append` of a task -/
  | appendReturns (task : ℕ)
  /-- the next step of a worker -/
  | worker (w : ℕ)
  /-- a worker is woken in `wait` -/
  | wake (w : ℕ)
  /-- `shutdown()` is called -/
  | call
  /-- its next step -/
  | shutdown
  deriving DecidableEq, Repr

namespace ThreadPool

/-- The pool after `init()`. -/
def start (thread_number : ℕ) : ThreadPool where
  m_taskList := []
  m_stop := false
  m_thread_number := thread_number
  workers := fun _ => .lock
  pc := .idle
  appended := 0
  returned := []
  before := []
  left := []
  taken := []
  started := []
  finished := []

variable (s : ThreadPool)

def setWorker (w : ℕ) (pc : WorkerPc) : ThreadPool :=
  { s with workers := Function.update s.workers w pc }

/-- The section of `append` under the mutex. -/
def push : ThreadPool :=
  { s with m_taskList := s.m_taskList ++ [s.appended], appended := s.appended + 1 }

/-- The section of `threadFunc` under the mutex, from the test of the predicate on. -/
def take (w : ℕ) : ThreadPool :=
  if s.m_stop then s.setWorker w .exited
  else match s.m_taskList with
    | [] => s.setWorker w .waiting
    | t :: rest => { s.setWorker w (.taken t) with m_taskList := rest, taken := s.taken ++ [t] }

/-- The next step of a worker. -/
def threadFunc (w : ℕ) : Option ThreadPool :=
  match s.workers w with
  | .lock => some (s.take w)
  | .taken t => some { s.setWorker w (.running t) with started := s.started ++ [(w, t)] }
  | .running t => some { s.setWorker w .lock with finished := s.finished ++ [t] }
  | .waiting | .exited => none

/-- The next step of `shutdown()`. -/
def shutdown : Option ThreadPool :=
  match s.pc with
  | .store => some { s with m_stop := true, left := s.m_taskList, pc := .notify }
  | .notify => some { s with pc := .join 0 }
  | .join i =>
    if i < s.m_thread_number then
      if s.workers i = .exited then some { s with pc := .join (i + 1) } else none
    else some { s with pc := .returned }
  | .idle | .returned => none

/-- One step. -/
def step (a : PoolStep) : Option ThreadPool :=
  match a with
  | .push => some s.push
  | .appendReturns t =>
    if t < s.appended ∧ t ∉ s.returned then some { s with returned := s.returned ++ [t] } else none
  | .worker w => if w < s.m_thread_number then s.threadFunc w else none
  | .wake w =>
    if w < s.m_thread_number ∧ s.workers w = .waiting then some (s.setWorker w .lock) else none
  | .call => if s.pc = .idle then some { s with pc := .store, before := s.returned } else none
  | .shutdown => s.shutdown

end ThreadPool

end MyMuduo
