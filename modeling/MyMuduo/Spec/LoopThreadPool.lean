import MyMuduo.Lib.Run

/-!
# The pool of loops (`Net/loopthreadpool.h`, `Net/loopthreadpool.cpp`)

`TcpServer` sets the number of threads, starts the pool and asks it for the loop of every new
connection. One thread calls `setThreadNum` and `start`, which returns only when all workers
have published their loops; `getNextLoop` takes the mutex and may come from any thread, also
while `start` waits. A worker and its loop have one number, in the order of `emplace_back`.

Beside the members the pool keeps what its calls of `getNextLoop` returned. A use of `m_loops`
out of range and a division by zero are a `fault`.
-/

namespace MyMuduo

/-- Where the thread that calls `start()` is. -/
inductive LoopPoolPc where
  /-- before the call -/
  | idle
  /-- in the loop that creates the threads -/
  | create
  /-- in `wait` -/
  | wait
  | returned
  deriving DecidableEq, Repr

inductive LoopPoolFault where
  | outOfRange | divideByZero
  deriving DecidableEq, Repr

structure LoopThreadPool where
  m_thread_num : ℕ
  m_next_loop_index : ℕ
  /-- the workers in the order in which they published their loops -/
  m_loops : List ℕ
  /-- how many threads were created -/
  m_threads : ℕ
  pc : LoopPoolPc
  fault : Option LoopPoolFault
  /-- the results of `getNextLoop()` before `start()` has returned, `none` for the base loop,
  each with the number of worker loops at its call -/
  early : List (Option ℕ × ℕ)
  /-- those since then -/
  picks : List (Option ℕ × ℕ)
  deriving DecidableEq, Repr

inductive LoopPoolStep where
  | setThreadNum (num_threads : ℕ)
  /-- `start()` is called -/
  | start
  /-- the next step of `start()` -/
  | next
  /-- a worker publishes its loop -/
  | publish (worker : ℕ)
  | getNextLoop
  deriving DecidableEq, Repr

namespace LoopThreadPool

/-- `LoopThreadPool(loop)`. -/
def new : LoopThreadPool := ⟨0, 0, [], 0, .idle, none, [], []⟩

variable (s : LoopThreadPool)

/-- `getNextLoop()` returns the loop. -/
def give (loop : Option ℕ) : LoopThreadPool :=
  if s.pc = .returned then { s with picks := s.picks ++ [(loop, s.m_loops.length)] }
  else { s with early := s.early ++ [(loop, s.m_loops.length)] }

def getNextLoop : LoopThreadPool :=
  if s.m_loops = [] then s.give none
  else match s.m_loops[s.m_next_loop_index]? with
    | none => { s with fault := some .outOfRange }
    | some loop =>
      if s.m_thread_num = 0 then { s with fault := some .divideByZero }
      else { s.give (some loop) with
        m_next_loop_index := (s.m_next_loop_index + 1) % s.m_thread_num }

/-- The next step of `start()`. -/
def next : Option LoopThreadPool :=
  match s.pc with
  | .create =>
    some (if s.m_threads < s.m_thread_num then { s with m_threads := s.m_threads + 1 }
      else { s with pc := .wait })
  | .wait => if s.m_loops.length = s.m_thread_num then some { s with pc := .returned } else none
  | .idle | .returned => none

/-- One step of a pool without a fault. -/
def act (a : LoopPoolStep) : Option LoopThreadPool :=
  match a with
  | .setThreadNum n =>
    if s.pc = .idle ∨ s.pc = .returned then some { s with m_thread_num := n } else none
  | .start => if s.pc = .idle then some { s with pc := .create } else none
  | .next => s.next
  | .publish w =>
    if w < s.m_threads ∧ w ∉ s.m_loops then some { s with m_loops := s.m_loops ++ [w] } else none
  | .getNextLoop => some s.getNextLoop

/-- One step; after a fault there is none. -/
def step (a : LoopPoolStep) : Option LoopThreadPool := if s.fault = none then s.act a else none

end LoopThreadPool

end MyMuduo
