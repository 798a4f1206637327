import MyMuduo.Lib.KeySet
import MyMuduo.Lib.Run

/-!
# The timer queue (`Timer/timestamp.h`, `Timer/timer.h`, `Timer/rbtreetimer.cpp`)

Timers stand in a set ordered by expiration, and one timerfd is armed for the first of
them. A time is a reading of the steady clock in nanoseconds.

All calls run in the loop thread, one after the other; only the callbacks that `handleRead`
runs may call `addTimer` in between. So the queue is a state machine whose program counter
tells how far `handleRead` got. Every clock reading is part of the label of its step, and
the clock never goes back. The reading and the `timerfd_settime` of `resetTimerFd` are one
instant.

Beside the members of the source the queue keeps a history: how many timers were added, the
callbacks run so far, and the instant of the last `resetTimerFd`.
-/

namespace MyMuduo

open Lib

def EINVAL : ℕ := 22

/-! ## Time -/

namespace Timestamp

def kMicroSecondsPerSecond : ℤ := 1000 * 1000

/-- `addTime(timestamp, seconds)`, the interval cast to microseconds already. -/
def addTime (timestamp microseconds : ℤ) : ℤ := timestamp + microseconds * 1000

/-- `timeDifference(high, low)`: the cast to microseconds rounds towards zero. -/
def timeDifference (high low : ℤ) : ℤ := (high - low).tdiv 1000

end Timestamp

structure Timer where
  /-- which timer it is, in the order of `addTimer` -/
  id : ℕ
  m_expiration : ℤ
  /-- in microseconds -/
  m_interval : ℤ
  m_repeat : Bool
  deriving DecidableEq, Repr

def Timer.restart (t : Timer) (now : ℤ) : Timer :=
  { t with m_expiration := Timestamp.addTime now t.m_interval }

/-! ## The kernel's side -/

/-- A timerfd without an interval: the deadline it was armed for, until `read` consumes its
expiration. It is readable from the deadline on. -/
abbrev Timerfd := Option ℤ

namespace Timerfd

def readable (fd : Timerfd) (now : ℤ) : Bool :=
  match fd with
  | some deadline => deadline ≤ now
  | none => false

/-- `timerfd_settime` at the instant `now` with a relative `it_value`. -/
def settime (now tv_sec tv_nsec : ℤ) : Except ℕ Timerfd :=
  if tv_sec < 0 ∨ tv_nsec < 0 ∨ 10 ^ 9 ≤ tv_nsec then .error EINVAL
  else if tv_sec = 0 ∧ tv_nsec = 0 then .ok none
  else .ok (some (now + tv_sec * 10 ^ 9 + tv_nsec))

end Timerfd

/-! ## The queue -/

/-- Where the loop thread is. -/
inductive TimerPc where
  /-- outside of `handleRead` -/
  | idle
  /-- in the loop of `handleRead`, with the expired timers still to run -/
  | expired (rest : List Timer)
  /-- inside the callback of `timer` -/
  | callback (timer : Timer) (rest : List Timer)
  deriving DecidableEq, Repr

structure RBTreeTimer where
  m_timer : List Timer
  m_timer_fd : Timerfd
  /-- the channel of the timerfd is registered -/
  registered : Bool
  pc : TimerPc
  clock : ℤ
  added : ℕ
  /-- the callbacks run so far, each with the instant of its start -/
  ran : List (ℤ × Timer)
  /-- the instant of the last `resetTimerFd` -/
  armTime : ℤ
  deriving DecidableEq, Repr

namespace RBTreeTimer

/-- `RBTreeTimer(loop)`. -/
def new (clock : ℤ) : RBTreeTimer := ⟨[], none, false, .idle, clock, 0, [], clock⟩

variable (s : RBTreeTimer)

def enableTimerfd : RBTreeTimer := { s with registered := true }

/-- The new timer comes before all others. -/
def earliestChanged (timer : Timer) : Bool :=
  match s.m_timer with
  | [] => true
  | t :: _ => timer.m_expiration < t.m_expiration

/-- `insertTimer(timer)`, without its result `earliestChanged`. -/
def insertTimer (timer : Timer) : RBTreeTimer :=
  { s with m_timer := KeySet.insert Timer.m_expiration timer s.m_timer }

def resetTimerFd (timer : Timer) (now : ℤ) : RBTreeTimer :=
  let diff := Timestamp.timeDifference timer.m_expiration now
  let tv_sec := diff.tdiv Timestamp.kMicroSecondsPerSecond
  let tv_nsec := diff.tmod Timestamp.kMicroSecondsPerSecond * 1000
  match Timerfd.settime now tv_sec tv_nsec with
  | .ok fd => { s with m_timer_fd := fd, armTime := now }
  | .error _ => { s with armTime := now }

/-- `addTimerInLoop(timer)`; `now` is the reading of its `resetTimerFd`. -/
def addTimerInLoop (timer : Timer) (now : ℤ) : RBTreeTimer :=
  let s' := s.enableTimerfd.insertTimer timer
  if s.earliestChanged timer then s'.resetTimerFd timer now else s'

/-- `handleRepeatTimer(timer)`. -/
def handleRepeatTimer (timer : Timer) (now : ℤ) : RBTreeTimer :=
  if timer.m_repeat then s.insertTimer (timer.restart now) else s

/-- `handleRead()` up to its loop: the read at the instant `read`, the reading `now` of the
clock, and the timers before `lower_bound` taken out of the set. -/
def handleRead (read now : ℤ) : RBTreeTimer :=
  if s.m_timer_fd.readable read then
    let (expired, rest) := KeySet.splitBelow Timer.m_expiration now s.m_timer
    { s with m_timer_fd := none, m_timer := rest, pc := .expired expired }
  else s

/-- The end of `handleRead()`. -/
def rearm (now : ℤ) : RBTreeTimer :=
  match s.m_timer with
  | [] => s
  | t :: _ => s.resetTimerFd t now

end RBTreeTimer

/-- A step of the loop thread, with the readings of the clock it takes. -/
inductive TimerStep where
  /-- `addTimer(cb, when, interval)` in the loop thread -/
  | addTimer (when_ interval : ℤ) (isRepeat : Bool) (now : ℤ)
  /-- `handleRead` up to its loop -/
  | handleRead (read now : ℤ)
  /-- `timer->run()` of the next expired timer begins -/
  | run (now : ℤ)
  /-- the callback returns, and `handleRepeatTimer` -/
  | returned (now : ℤ)
  /-- the end of `handleRead` -/
  | rearm (now : ℤ)
  deriving DecidableEq, Repr

namespace TimerStep

/-- The first and the last reading of the step. -/
def readings : TimerStep → ℤ × ℤ
  | addTimer _ _ _ now | run now | returned now | rearm now => (now, now)
  | handleRead read now => (read, now)

end TimerStep

/-- One step, whatever the clock. -/
def RBTreeTimer.act (s : RBTreeTimer) (a : TimerStep) : Option RBTreeTimer :=
  match a, s.pc with
  | .addTimer when_ interval isRepeat now, .idle
  | .addTimer when_ interval isRepeat now, .callback _ _ =>
    some ({ s with added := s.added + 1 }.addTimerInLoop ⟨s.added, when_, interval, isRepeat⟩ now)
  | .handleRead read now, .idle => some (s.handleRead read now)
  | .run now, .expired (timer :: rest) =>
    some { s with pc := .callback timer rest, ran := s.ran ++ [(now, timer)] }
  | .returned now, .callback timer rest =>
    some ({ s with pc := .expired rest }.handleRepeatTimer timer now)
  | .rearm now, .expired [] => some ({ s with pc := .idle }.rearm now)
  | _, _ => none

/-- One step, under a clock that does not go back. -/
def RBTreeTimer.step (s : RBTreeTimer) (a : TimerStep) : Option RBTreeTimer :=
  if s.clock ≤ a.readings.1 ∧ a.readings.1 ≤ a.readings.2 then
    { s with clock := a.readings.2 }.act a
  else none

end MyMuduo
