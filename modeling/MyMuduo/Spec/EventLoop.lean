import MyMuduo.Lib.Run

/-!
# The event loop and its queue of functors (`Net/eventloop.cpp`)

One loop thread enters `loop()` and goes round: wait, run the handlers of the active channels, run
the pending functors. Handlers and functors may call `queueInLoop` in the loop thread; other
threads call it at any time. A step is what is atomic in the source: a `push_back` under the
mutex, the test of the flag with the write to the eventfd it guards, the drain of the
eventfd, the swap under the mutex, a write of a flag.

The eventfd is its counter: `wakeup` adds to it, `handleRead` resets it. It is level-triggered,
so it may be among the active channels whenever the counter is positive.

A pending functor is kept with the thread that queued it, `none` for the loop thread. The
state also records all functors in the order of the mutex, those executed so far, and how
many had been queued when the pass under way took the mutex.
-/

namespace MyMuduo

open Lib

/-- A functor with the thread that queued it. -/
structure Queued (F : Type) where
  thread : Option ℕ
  functor : F
  deriving DecidableEq, Repr

/-- An active channel: the one of the eventfd, or any other. -/
inductive ActiveChannel where
  | wakeup | other
  deriving DecidableEq, Repr

/-- What is left to do in this round: handlers, or functors. -/
inductive Agenda (F : Type) where
  | channels (rest : List ActiveChannel)
  | functors (rest : List (Queued F))
  deriving DecidableEq, Repr

/-- Where the loop thread is. -/
inductive LoopPc (F : Type) where
  /-- before the write `m_looping = true` of `loop()` -/
  | constructed
  /-- at the test of `while(m_looping)` -/
  | test
  /-- in `epoll_wait` -/
  | poll
  /-- in one of the two `for` loops -/
  | next (agenda : Agenda F)
  /-- inside a handler or a functor -/
  | user (agenda : Agenda F)
  /-- in `queueInLoop`, called from there, after its `push_back` -/
  | pushed (agenda : Agenda F)
  /-- in `doPendingFunctors`, before the swap -/
  | swap
  | exited
  deriving DecidableEq, Repr

/-- Where another thread is in a call of `queueInLoop` or `quit`. -/
inductive ThreadPc where
  | idle
  /-- after the `push_back`, before the `wakeup()` -/
  | pushed
  /-- after the write of `m_looping`, before the `wakeup()` -/
  | quitting
  deriving DecidableEq, Repr

structure EventLoop (F : Type) where
  m_looping : Bool
  m_calling_pending_functors : Bool
  m_pending_functors : List (Queued F)
  /-- the counter of the eventfd -/
  counter : ℕ
  pc : LoopPc F
  threads : ℕ → ThreadPc
  /-- all functors, in the order their `push_back` took the mutex -/
  queued : List (Queued F)
  executed : List (Queued F)
  /-- how many functors had been queued at the last swap -/
  swapped : ℕ

/-- A step of the loop thread, or of another thread. -/
inductive LoopStep (F : Type) where
  /-- `epoll_wait` returns -/
  | poll (active : List ActiveChannel)
  /-- the next step of the loop thread outside of handlers and functors -/
  | loop
  /-- the handler or functor returns -/
  | return_
  /-- `queueInLoop` in the loop thread: `push_back`, and then the rest of it -/
  | loopPush (f : F)
  | loopWake
  /-- `quit()` in the loop thread -/
  | loopQuit
  /-- `queueInLoop` in another thread: `push_back`, and then `wakeup()` -/
  | push (thread : ℕ) (f : F)
  | wakeup (thread : ℕ)
  /-- `quit()` in another thread, before its `wakeup()` -/
  | quit (thread : ℕ)
  deriving Repr

namespace EventLoop

variable {F : Type}

/-- The constructor. -/
def start : EventLoop F where
  m_looping := false
  m_calling_pending_functors := false
  m_pending_functors := []
  counter := 0
  pc := .constructed
  threads := fun _ => .idle
  queued := []
  executed := []
  swapped := 0

variable (s : EventLoop F)

/-- The `push_back` of `queueInLoop`. -/
def pushBack (thread : Option ℕ) (f : F) : EventLoop F :=
  { s with
    m_pending_functors := s.m_pending_functors ++ [⟨thread, f⟩]
    queued := s.queued ++ [⟨thread, f⟩] }

/-- The next step of the loop thread in its own code. -/
def loop : Option (EventLoop F) :=
  match s.pc with
  -- a `quit()` before this write is overwritten
  | .constructed => some { s with m_looping := true, pc := .test }
  | .test => some { s with pc := if s.m_looping then .poll else .exited }
  -- `handleRead` on the eventfd is a handler without calls
  | .next (.channels (.wakeup :: rest)) => some { s with counter := 0, pc := .next (.channels rest) }
  | .next (.channels (.other :: rest)) => some { s with pc := .user (.channels rest) }
  | .next (.channels []) => some { s with m_calling_pending_functors := true, pc := .swap }
  | .swap =>
    some { s with
      m_pending_functors := []
      pc := .next (.functors s.m_pending_functors)
      swapped := s.queued.length }
  | .next (.functors (f :: rest)) =>
    some { s with executed := s.executed ++ [f], pc := .user (.functors rest) }
  | .next (.functors []) => some { s with m_calling_pending_functors := false, pc := .test }
  | .poll | .user _ | .pushed _ | .exited => none

/-- One step. -/
def step : LoopStep F → Option (EventLoop F)
  | .poll active =>
    match s.pc with
    | .poll =>
      if active ≠ [] ∧ (ActiveChannel.wakeup ∈ active → 0 < s.counter) then
        some { s with pc := .next (.channels active) }
      else none
    | _ => none
  | .loop => s.loop
  | .return_ =>
    match s.pc with
    | .user agenda => some { s with pc := .next agenda }
    | _ => none
  | .loopPush f =>
    match s.pc with
    | .user agenda => some { s.pushBack none f with pc := .pushed agenda }
    | _ => none
  | .loopWake =>
    match s.pc with
    | .pushed agenda =>
      -- in the loop thread the flag decides
      let counter := if s.m_calling_pending_functors then s.counter + 1 else s.counter
      some { s with counter := counter, pc := .user agenda }
    | _ => none
  | .loopQuit =>
    match s.pc with
    | .user _ => some { s with m_looping := false }
    | _ => none
  | .push thread f =>
    if s.threads thread = .idle then
      some { s.pushBack (some thread) f with threads := Function.update s.threads thread .pushed }
    else none
  | .wakeup thread =>
    if s.threads thread = .idle then none
    else some { s with counter := s.counter + 1, threads := Function.update s.threads thread .idle }
  | .quit thread =>
    if s.threads thread = .idle then
      some { s with m_looping := false, threads := Function.update s.threads thread .quitting }
    else none

end EventLoop

end MyMuduo
