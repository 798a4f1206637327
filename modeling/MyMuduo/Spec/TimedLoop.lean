import MyMuduo.Spec.EventLoop
import MyMuduo.Spec.Timer

/-!
# A loop with its timers (`Net/eventloop.h`, `Net/eventloop.cpp`, `Timer/rbtreetimer.cpp`)

The event loop with its functors and its timer queue, as one system: a step is one of the loop, one of
the queue, or one of both.

The timerfd is one of the active channels, and its handler is `RBTreeTimer::handleRead`. `addTimer`
inserts the timer at once in the loop thread; in any other thread it queues the functor
`addTimerInLoop`. The user's code runs in the other handlers, in functors and in the callbacks of
timers; there it adds timers, queues functors and quits. In front of `loop()` it adds timers.

Each `addTimer` draws a ticket. `inserted` are the tickets in the order of `addTimerInLoop`, which is
the order in which the queue numbers its timers.
-/

namespace MyMuduo

open Lib

inductive TimedChannel where
  | wakeup | timer | other
  deriving DecidableEq, Repr

def TimedChannel.active : TimedChannel → ActiveChannel
  | wakeup => .wakeup
  | timer | other => .other

/-- The arguments of `addTimer(cb, when, interval)`, the interval in microseconds. -/
structure TimerCall where
  when_ : ℤ
  interval : ℤ
  isRepeat : Bool
  deriving DecidableEq, Repr

/-- `addTimerInLoop` for it. -/
def TimerCall.step (call : TimerCall) (now : ℤ) : TimerStep :=
  .addTimer call.when_ call.interval call.isRepeat now

/-- `runAfter(second, cb)`, called at `now`. -/
def runAfter (now microseconds : ℤ) : TimerCall := ⟨Timestamp.addTime now microseconds, 0, false⟩

/-- `runEvery(second, cb)`, with `isRepeat` for `second > 0.0`. -/
def runEvery (now microseconds : ℤ) (isRepeat : Bool) : TimerCall :=
  ⟨Timestamp.addTime now microseconds, microseconds, isRepeat⟩

inductive LoopFunctor where
  | user
  | addTimerInLoop (ticket : ℕ) (call : TimerCall)
  deriving DecidableEq, Repr

/-- What the handler or functor under way is about to do. -/
inductive LoopBody where
  /-- there is none -/
  | outside
  /-- code of the user -/
  | user
  /-- `RBTreeTimer::handleRead` -/
  | timerfd
  /-- its loop over the expired timers -/
  | batch
  /-- to return -/
  | over
  deriving DecidableEq, Repr

structure TimedLoop where
  loop : EventLoop LoopFunctor
  timer : RBTreeTimer
  /-- the active channels still to be handled -/
  active : List TimedChannel
  body : LoopBody
  /-- how often `addTimer` was called -/
  calls : ℕ
  inserted : List ℕ

inductive TimedStep where
  /-- `epoll_wait` returns, at `now` -/
  | poll (active : List TimedChannel) (now : ℤ)
  /-- the next step of the loop thread in its own code; `now` is for `addTimerInLoop` -/
  | loop (now : ℤ)
  | return_
  /-- `queueInLoop`, `quit` and `addTimer` in the loop thread -/
  | loopPush
  | loopWake
  | loopQuit
  | addTimer (call : TimerCall) (now : ℤ)
  /-- the same in another thread -/
  | push (thread : ℕ)
  | wakeup (thread : ℕ)
  | quit (thread : ℕ)
  | addTimerFrom (thread : ℕ) (call : TimerCall)
  /-- the steps of `handleRead` -/
  | handleRead (read now : ℤ)
  | run (now : ℤ)
  | returned (now : ℤ)
  | rearm (now : ℤ)
  deriving DecidableEq, Repr

namespace TimedLoop

def start (clock : ℤ) : TimedLoop where
  loop := .start
  timer := .new clock
  active := []
  body := .outside
  calls := 0
  inserted := []

variable (s : TimedLoop)

/-- The functor that the loop thread comes to next. -/
def functor : Option LoopFunctor :=
  match s.loop.pc with
  | .next (.functors (f :: _)) => some f.functor
  | _ => none

/-- The loop thread is in a handler or a functor, and not in a call of `queueInLoop`. -/
def inBody : Bool :=
  match s.loop.pc with
  | .user _ => true
  | _ => false

/-- The loop thread is in code of the user. -/
def inUser : Bool :=
  s.inBody && (s.body = .user || s.body = .batch &&
    match s.timer.pc with
    | .callback _ _ => true
    | .idle | .expired _ => false)

/-- `loop()` is not entered yet. -/
def beforeLoop : Bool :=
  match s.loop.pc with
  | .constructed => true
  | _ => false

/-- The step of the loop that a step is. -/
def loopStep : TimedStep → Option (LoopStep LoopFunctor)
  | .poll active _ => some (.poll (active.map TimedChannel.active))
  | .loop _ => some .loop
  | .return_ => some .return_
  | .loopPush => some (.loopPush .user)
  | .loopWake => some .loopWake
  | .loopQuit => some .loopQuit
  | .push thread => some (.push thread .user)
  | .wakeup thread => some (.wakeup thread)
  | .quit thread => some (.quit thread)
  -- `runInLoop` in another thread
  | .addTimerFrom thread call => some (.push thread (.addTimerInLoop s.calls call))
  | .addTimer _ _ | .handleRead _ _ | .run _ | .returned _ | .rearm _ => none

/-- The step of the timer queue that a step is. -/
def timerStep : TimedStep → Option TimerStep
  | .addTimer call now => some (call.step now)
  | .loop now =>
    match s.functor with
    | some (.addTimerInLoop _ call) => some (call.step now)
    | some .user | none => none
  | .handleRead read now => some (.handleRead read now)
  | .run now => some (.run now)
  | .returned now => some (.returned now)
  | .rearm now => some (.rearm now)
  | .poll _ _ | .return_ | .loopPush | .loopWake | .loopQuit | .push _ | .wakeup _ | .quit _
  | .addTimerFrom _ _ => none

/-- What the step needs beside what the loop and the timer queue need for it. -/
def enabled : TimedStep → Bool
  | .poll active now =>
    !active.contains .timer || (s.timer.registered && s.timer.clock ≤ now && s.timer.m_timer_fd.readable now)
  | .return_ => s.body = .user || s.body = .over
  | .loopPush | .loopQuit => s.inUser
  | .addTimer _ _ => s.inUser || s.beforeLoop
  | .handleRead _ _ => s.body = .timerfd
  | .run _ | .returned _ | .rearm _ => s.inBody && s.body = .batch
  | .loop _ | .loopWake | .push _ | .wakeup _ | .quit _ | .addTimerFrom _ _ => true

/-- The handler of an active channel. -/
def bodyOf : TimedChannel → LoopBody
  -- the counter is reset without calls
  | .wakeup => .outside
  | .timer => .timerfd
  | .other => .user

/-- The body after the step, with the timer queue that it leaves. -/
def nextBody (timer : RBTreeTimer) : TimedStep → LoopBody
  | .loop _ =>
    match s.loop.pc, s.functor with
    | .next (.channels (_ :: _)), _ => (s.active.head?.map bodyOf).getD .outside
    | _, some .user => .user
    | _, some (.addTimerInLoop _ _) => .over
    | _, none => s.body
  | .return_ => .outside
  | .handleRead _ _ => if timer.pc = .idle then .over else .batch
  | .rearm _ => .over
  | .poll _ _ | .loopPush | .loopWake | .loopQuit | .addTimer _ _ | .push _ | .wakeup _ | .quit _
  | .addTimerFrom _ _ | .run _ | .returned _ => s.body

def nextActive : TimedStep → List TimedChannel
  | .poll active _ => active
  -- there are none left behind the first `for` loop
  | .loop _ => s.active.tail
  | _ => s.active

/-- The ticket whose timer comes to `addTimerInLoop` in the step. -/
def ticket : TimedStep → Option ℕ
  | .addTimer _ _ => some s.calls
  | .loop _ =>
    match s.functor with
    | some (.addTimerInLoop ticket _) => some ticket
    | some .user | none => none
  | _ => none

/-- How many calls of `addTimer` the step is. -/
def drawn : TimedStep → ℕ
  | .addTimer _ _ | .addTimerFrom _ _ => 1
  | _ => 0

/-- One step. -/
def step (a : TimedStep) : Option TimedLoop :=
  if s.enabled a then
    (run EventLoop.step s.loop (s.loopStep a).toList).bind fun loop =>
      (run RBTreeTimer.step s.timer (s.timerStep a).toList).map fun timer =>
        { loop := loop
          timer := timer
          active := s.nextActive a
          body := s.nextBody timer a
          calls := s.calls + drawn a
          inserted := s.inserted ++ (s.ticket a).toList }
  else none

end TimedLoop

end MyMuduo
