import MyMuduo.Spec.TimedLoop
import MyMuduo.Proof.EventLoop
import MyMuduo.Proof.Timer
import MyMuduo.Proof.TimerQueue

/-!
# Timers of a running loop

* `timers_accounted_iff`: **a timer added from any thread is in a functor to come, pending in the queue,
  or has run**, in all states of a run exactly if no timer meets its expiration in the set.
* `timers_awake`: **the loop never sleeps over a timer**: in `epoll_wait` one that is still in a functor
  has the eventfd readable or about to be, and with one in the queue the timerfd is armed.
* `timers_run`: behind the deadline the loop can run every timer that is due, in one handler.
-/

namespace MyMuduo

open Lib

/-! ## The loop -/

namespace EventLoop

variable {F : Type} {s s' : EventLoop F} {a : LoopStep F}

/-- The functors still to be executed. -/
def waiting (s : EventLoop F) : List (Queued F) := s.pc.rest ++ s.m_pending_functors

/-- The functor that the loop thread comes to next. -/
def coming (s : EventLoop F) : List (Queued F) :=
  match s.pc with
  | .next (.functors (f :: _)) => [f]
  | _ => []

/-- The functor that a step executes. -/
def executes (s : EventLoop F) : LoopStep F → List (Queued F)
  | .loop => s.coming
  | _ => []

/-- The functor that a step queues. -/
def queues : LoopStep F → List (Queued F)
  | .loopPush f => [⟨none, f⟩]
  | .push thread f => [⟨some thread, f⟩]
  | _ => []

/-- **Functors wait in order.** -/
theorem step_waiting (hs : s.step a = some s') : s.waiting ++ queues a = s.executes a ++ s'.waiting := by
  have hacts := step_cases hs
  cases hacts with
  | push _ hs' | loopQuit _ hs' | wakeup _ hs' | quit _ hs' =>
    simp [waiting, queues, executes, pushBack, hs']
  | @return_ agenda hpc hs' | @loopPush _ agenda hpc hs' | @loopWake agenda hpc hs' =>
    cases agenda with
    | channels rest => simp [waiting, queues, executes, pushBack, LoopPc.rest, hpc, hs']
    | functors rest => simp [waiting, queues, executes, pushBack, LoopPc.rest, hpc, hs']
  | enter hpc hs' | again hpc _ hs' | leave hpc _ hs' | poll hpc _ _ hs' | drain hpc hs' | handler hpc hs'
  | handled hpc hs' | swap hpc hs' | functor hpc hs' | passed hpc hs' =>
    simp [waiting, queues, executes, coming, LoopPc.rest, hpc, hs']

/-- The active channels still to be handled. -/
def channels : LoopPc F → List ActiveChannel
  | .next (.channels rest) | .user (.channels rest) | .pushed (.channels rest) => rest
  | _ => []

/-- The loop thread is in a handler or a functor. -/
def InBody : LoopPc F → Prop
  | .user _ | .pushed _ => True
  | _ => False

/-- The active channels behind a step. -/
def channelsAfter (s : EventLoop F) : LoopStep F → List ActiveChannel
  | .poll active => active
  | .loop => (channels s.pc).tail
  | _ => channels s.pc

theorem step_channels (hs : s.step a = some s') : channels s'.pc = s.channelsAfter a := by
  have hacts := step_cases hs
  cases hacts with
  | push _ hs' | loopQuit _ hs' | wakeup _ hs' | quit _ hs' => simp [channelsAfter, pushBack, hs']
  | @return_ agenda hpc hs' | @loopPush _ agenda hpc hs' | @loopWake agenda hpc hs' =>
    cases agenda with
    | channels rest => simp [channelsAfter, channels, hpc, hs']
    | functors rest => simp [channelsAfter, channels, hpc, hs']
  | enter hpc hs' | again hpc _ hs' | leave hpc _ hs' | poll hpc _ _ hs' | drain hpc hs' | handler hpc hs'
  | handled hpc hs' | swap hpc hs' | functor hpc hs' | passed hpc hs' =>
    simp [channelsAfter, channels, hpc, hs']

/-- Only a return ends a handler or a functor. -/
theorem step_inBody (hs : s.step a = some s') (ha : a ≠ .return_) (h : InBody s.pc) : InBody s'.pc := by
  have hacts := step_cases hs
  cases hacts with
  | return_ => exact absurd rfl ha
  | enter hpc | again hpc | leave hpc | poll hpc | drain hpc | handler hpc | handled hpc | swap hpc
  | functor hpc | passed hpc =>
    rw [hpc] at h
    exact h.elim
  | loopPush _ hs' | loopWake _ hs' =>
    rw [hs']
    trivial
  | push _ hs' | loopQuit _ hs' | wakeup _ hs' | quit _ hs' =>
    rw [hs']
    exact h

end EventLoop

/-! ## One step -/

/-- How many timers a step of the queue adds. -/
def TimerStep.adds : TimerStep → ℕ
  | addTimer _ _ _ _ => 1
  | handleRead _ _ | run _ | returned _ | rearm _ => 0

theorem RBTreeTimer.step_added {s s' : RBTreeTimer} {a : TimerStep} (h : s.step a = some s') :
    s'.added = s.added + a.adds := by
  obtain ⟨hacts, -⟩ := act_cases (step_act h).1
  cases hacts with
  | addTimer hpc hadded hran hset => exact hadded
  | handleRead hpc hadded hran hread hset hpc' => exact hadded
  | readFails hpc hpc' hadded hran hread hset => exact hadded
  | run hpc hpc' hadded hran hset => exact hadded
  | returned hpc hpc' hadded hran hset => exact hadded
  | rearm hpc hpc' hadded hran hset => exact hadded

def LoopFunctor.ticket : LoopFunctor → Option ℕ
  | user => none
  | addTimerInLoop ticket _ => some ticket

namespace TimedLoop

variable {s s' : TimedLoop} {a : TimedStep}

/-- The tickets whose functor is still to come. -/
def queuedTickets (s : TimedLoop) : List ℕ := s.loop.waiting.filterMap (·.functor.ticket)

/-- A step is one of the loop and one of the timer queue, where it is one at all. -/
structure Steps (a : TimedStep) (s s' : TimedLoop) : Prop where
  enabled : s.enabled a = true
  loop : run EventLoop.step s.loop (s.loopStep a).toList = some s'.loop
  timer : run RBTreeTimer.step s.timer (s.timerStep a).toList = some s'.timer
  active : s'.active = s.nextActive a
  body : s'.body = s.nextBody s'.timer a
  calls : s'.calls = s.calls + drawn a
  inserted : s'.inserted = s.inserted ++ (s.ticket a).toList

theorem step_steps (h : s.step a = some s') : Steps a s s' := by
  simp only [step, Option.ite_none_right_eq_some, Option.bind_eq_some_iff, Option.map_eq_some_iff] at h
  obtain ⟨hen, loop, hloop, timer, htimer, rfl⟩ := h
  exact ⟨hen, hloop, htimer, rfl, rfl, rfl, rfl⟩

theorem Steps.loop_step (h : Steps a s s') {b : LoopStep LoopFunctor} (hb : s.loopStep a = some b) :
    s.loop.step b = some s'.loop := by
  have hloop := h.loop
  rwa [hb, Option.toList_some, run_singleton] at hloop

theorem Steps.timer_step (h : Steps a s s') {b : TimerStep} (hb : s.timerStep a = some b) :
    s.timer.step b = some s'.timer := by
  have htimer := h.timer
  rwa [hb, Option.toList_some, run_singleton] at htimer

/-- The loop stands still, or makes its step. -/
theorem Steps.loop_cases (h : Steps a s s') : (s.loopStep a = none ∧ s'.loop = s.loop) ∨
    ∃ b, s.loopStep a = some b ∧ s.loop.step b = some s'.loop := by
  cases hb : s.loopStep a with
  | none =>
    have hloop := h.loop
    rw [hb] at hloop
    exact .inl ⟨rfl, (Option.some.inj hloop).symm⟩
  | some b => exact .inr ⟨b, rfl, h.loop_step hb⟩

/-- The timer queue stands still, or makes its step. -/
theorem Steps.timer_cases (h : Steps a s s') : (s.timerStep a = none ∧ s'.timer = s.timer) ∨
    ∃ b, s.timerStep a = some b ∧ s.timer.step b = some s'.timer := by
  cases hb : s.timerStep a with
  | none =>
    have htimer := h.timer
    rw [hb] at htimer
    exact .inl ⟨rfl, (Option.some.inj htimer).symm⟩
  | some b => exact .inr ⟨b, rfl, h.timer_step hb⟩

/-! ## Every call of `addTimer` -/

/-- The functor that the loop thread comes to next, with its ticket. -/
theorem coming_ticket (s : TimedLoop) (now : ℤ) :
    s.loop.coming.filterMap (·.functor.ticket) = (s.ticket (.loop now)).toList := by
  unfold ticket functor EventLoop.coming
  dsimp only
  split
  · rename_i f rest hpc
    rw [hpc]
    dsimp only
    cases hf : f.functor with
    | user => simp [LoopFunctor.ticket, hf]
    | addTimerInLoop ticket call => simp [LoopFunctor.ticket, hf]
  · rename_i hnot
    split
    · rename_i heq
      split at heq
      · rename_i f rest hpc
        exact absurd hpc (hnot f rest)
      · cases heq
    · rfl
    · rfl

/-- A ticket comes to `addTimerInLoop` in the step that adds the timer. -/
theorem ticket_adds (s : TimedLoop) (a : TimedStep) :
    (s.ticket a).toList.length = ((s.timerStep a).toList.map TimerStep.adds).sum := by
  cases a with
  | loop now =>
    simp only [ticket, timerStep]
    cases hf : s.functor with
    | none => rfl
    | some f =>
      cases f with
      | user => rfl
      | addTimerInLoop ticket call => rfl
  | _ => rfl

/-- **Every call of `addTimer` is in a functor to come, or in the queue's own count, once.** -/
structure Ticketed (s : TimedLoop) : Prop where
  once : List.Perm (s.queuedTickets ++ s.inserted) (List.range s.calls)
  numbered : s.inserted.length = s.timer.added

theorem start_ticketed (clock : ℤ) : (start clock).Ticketed := ⟨List.Perm.refl _, rfl⟩

/-- The tickets that a step draws for a functor, and those it takes from one. -/
theorem Steps.tickets (h : Steps a s s') :
    s.queuedTickets ++ ((s.loopStep a).toList.flatMap EventLoop.queues).filterMap (·.functor.ticket) =
      ((s.loopStep a).toList.flatMap s.loop.executes).filterMap (·.functor.ticket) ++ s'.queuedTickets := by
  have hwait : s.loop.waiting ++ (s.loopStep a).toList.flatMap EventLoop.queues =
      (s.loopStep a).toList.flatMap s.loop.executes ++ s'.loop.waiting := by
    rcases h.loop_cases with ⟨hb, hloop⟩ | ⟨b, hb, hloop⟩
    · rw [hb, hloop]
      exact List.append_nil _
    · rw [hb]
      simpa using EventLoop.step_waiting hloop
  have hfilter := congrArg (List.filterMap (·.functor.ticket)) hwait
  rwa [List.filterMap_append, List.filterMap_append] at hfilter

theorem Steps.ticketed (hs : Steps a s s') (h : s.Ticketed) : s'.Ticketed := by
  have hcalls := hs.calls
  have htickets := hs.tickets
  constructor
  swap
  · rw [hs.inserted, List.length_append, h.numbered, ticket_adds]
    rcases hs.timer_cases with ⟨hb, htimer⟩ | ⟨b, hb, htimer⟩
    · rw [hb, htimer]
      rfl
    · rw [hb, RBTreeTimer.step_added htimer]
      simp
  rw [hs.inserted]
  cases a with
  | loop now =>
    -- the ticket goes from the functor to the queue
    have hexec : s.queuedTickets = (s.ticket (.loop now)).toList ++ s'.queuedTickets := by
      rw [← coming_ticket s now]
      simpa [loopStep, EventLoop.queues, EventLoop.executes] using htickets
    rw [show s'.calls = s.calls from hcalls]
    refine List.Perm.trans ?_ h.once
    rw [hexec, ← List.append_assoc, List.append_assoc _ s'.queuedTickets]
    exact List.perm_append_comm
  | addTimer call now =>
    have hsame : s'.queuedTickets = s.queuedTickets := by
      simpa [loopStep] using htickets.symm
    rw [hcalls, hsame, ← List.append_assoc]
    exact (h.once.append_right [s.calls]).trans (by rw [drawn, List.range_succ])
  | addTimerFrom thread call =>
    have hmore : s'.queuedTickets = s.queuedTickets ++ [s.calls] := by
      simpa [loopStep, EventLoop.queues, EventLoop.executes, LoopFunctor.ticket] using htickets.symm
    rw [hcalls, hmore, show (s.ticket (.addTimerFrom thread call)).toList = [] from rfl, List.append_nil,
      drawn, List.range_succ]
    refine List.Perm.trans ?_ (h.once.append_right [s.calls])
    rw [List.append_assoc, List.append_assoc]
    exact List.Perm.append_left _ List.perm_append_comm
  | poll | return_ | loopPush | loopWake | loopQuit | push | wakeup | quit | handleRead | run | returned
  | rearm =>
    have hsame : s'.queuedTickets = s.queuedTickets := by
      simpa [loopStep, EventLoop.queues, EventLoop.executes, LoopFunctor.ticket] using htickets.symm
    rw [hsame, show s'.calls = s.calls from hcalls]
    simpa [ticket] using h.once

/-- **Every timer is accounted for**: a call of `addTimer` is in a functor to come or was inserted, once;
the timers of the queue are those inserted, by their numbers; and of these none is lost. -/
structure Accounted (s : TimedLoop) : Prop extends s.Ticketed where
  noneLost : s.timer.NoneLost

/-- The condition on a step: a timer that it inserts has an expiration that is not in the set yet. -/
def Distinct (s : TimedLoop) (a : TimedStep) : Prop := ∀ b ∈ s.timerStep a, b.Distinct s.timer

instance (s : TimedLoop) (a : TimedStep) : Decidable (s.Distinct a) :=
  inferInstanceAs (Decidable (∀ b ∈ s.timerStep a, b.Distinct s.timer))

/-- **Every timer added in any thread is accounted for, exactly if none meets its expiration in the set.**
For every run of a loop with its timers, with any number of other threads. -/
theorem timers_accounted_iff (clock : ℤ) (steps : List TimedStep) {s : TimedLoop}
    (hrun : run step (start clock) steps = some s) :
    (∀ n t, run step (start clock) (steps.take n) = some t → t.Accounted) ↔
      Along step Distinct (start clock) steps := by
  refine forall_run_iff_along (I := fun t => t.Ticketed ∧ t.timer.Kept) (P := Accounted)
    (fun t ht => ⟨ht.1, ht.2.noneLost⟩) ?_ steps ⟨start_ticketed clock, RBTreeTimer.kept_new clock⟩ hrun
  rintro t a t' ⟨hticketed, hkept⟩ hstep
  have hs := step_steps hstep
  have hticketed' := hs.ticketed hticketed
  have hkeeps : (t.Distinct a ↔ t'.timer.NoneLost) ∧ (t.Distinct a → t'.timer.Kept) := by
    rcases hs.timer_cases with ⟨hb, htimer⟩ | ⟨b, hb, htimer⟩
    · have hdistinct : t.Distinct a := fun b hb' => by rw [hb] at hb'; cases hb'
      rw [htimer]
      exact ⟨iff_of_true hdistinct hkept.noneLost, fun _ => hkept⟩
    · have hiff : t.Distinct a ↔ b.Distinct t.timer := by simp [Distinct, hb]
      -- the clock is no part of the set
      have hact := RBTreeTimer.act_kept (s := { t.timer with clock := b.readings.2 }) ⟨hkept.1, hkept.2, hkept.3⟩
        (RBTreeTimer.step_act htimer).1
      have hclock : b.Distinct { t.timer with clock := b.readings.2 } ↔ b.Distinct t.timer := by
        cases b <;> rfl
      rw [hclock, ← hiff] at hact
      exact hact
  exact ⟨hkeeps.1.trans ⟨fun h => ⟨hticketed', h⟩, fun h => h.noneLost⟩,
    fun h => ⟨hticketed', hkeeps.2 h⟩⟩

/-- A timer added in front of `loop()`. -/
def firstTimer : TimedStep := .addTimer (runAfter 0 5000) 0

/-- The loop sleeps, and another thread adds a repeating timer. -/
def asleepSteps : List TimedStep := [firstTimer, .loop 0, .loop 0, .addTimerFrom 1 (runEvery 0 2000 true)]

/-- The loop inserts it, and sleeps again. -/
def twoTimers : List TimedStep :=
  asleepSteps ++ [.wakeup 1, .poll [.wakeup] 100, .loop 100, .loop 100, .loop 100, .loop 200, .return_, .loop 300,
    .loop 300]

theorem twoTimers_distinct : Along step Distinct (start 0) twoTimers := by decide +kernel

theorem twoTimers_run :
    ∃ s ∈ run step (start 0) twoTimers, s.inserted = [0, 1] ∧ s.loop.pc = .poll ∧
      s.timer.m_timer = [⟨1, 2000000, 2000, true⟩, ⟨0, 5000000, 0, false⟩] ∧ s.timer.ran = [] ∧
      s.timer.clock = 200 ∧ s.timer.armTime = 200 := by
  decide +kernel

theorem timers_accounted_iff_two :
    ∃ s, run step (start 0) twoTimers = some s ∧ s.inserted = [0, 1] ∧
      ∀ n t, run step (start 0) (twoTimers.take n) = some t → t.Accounted := by
  obtain ⟨s, hs, hinserted, -⟩ := twoTimers_run
  exact ⟨s, hs, hinserted, (timers_accounted_iff 0 twoTimers hs).2 twoTimers_distinct⟩

/-! ## Where the loop thread is -/

/-- The place of the loop thread in the loop and in the timer queue fit together. -/
structure PlaceOk (s : TimedLoop) : Prop where
  active : s.active.map TimedChannel.active = EventLoop.channels s.loop.pc
  body : s.body ≠ .outside → EventLoop.InBody s.loop.pc
  batch : s.timer.pc ≠ .idle → s.body = .batch

theorem start_placeOk (clock : ℤ) : (start clock).PlaceOk :=
  ⟨rfl, fun h => absurd rfl h, fun h => absurd rfl h⟩

/-- A step of the loop outside of handlers and functors. -/
theorem Steps.loop_placeOk {now : ℤ} (hs : Steps (.loop now) s s') (h : s.PlaceOk) : s'.PlaceOk := by
  obtain ⟨hactive, hbody, hbatch⟩ := h
  have hloop := hs.loop_step rfl
  have hchannels := EventLoop.step_channels hloop
  have hacts := EventLoop.step_cases hloop
  -- no handler is under way, so neither is the timer queue
  have hout : s.body = .outside := by
    by_contra hne
    have hin := hbody hne
    cases hacts with
    | enter hpc | again hpc | leave hpc | drain hpc | handler hpc | handled hpc | swap hpc | functor hpc
    | passed hpc =>
      rw [hpc] at hin
      exact hin
  have hidle : s'.timer.pc = .idle := by
    have hidle : s.timer.pc = .idle := by
      by_contra hne
      rw [hbatch hne] at hout
      cases hout
    rcases hs.timer_cases with ⟨-, htimer⟩ | ⟨b, hb, htimer⟩
    · rw [htimer, hidle]
    · obtain ⟨call, rfl⟩ : ∃ call : TimerCall, b = call.step now := by
        rw [timerStep] at hb
        split at hb
        · rename_i ticket call hf
          exact ⟨call, (Option.some.inj hb).symm⟩
        · cases hb
        · cases hb
      obtain ⟨hadds, -⟩ := RBTreeTimer.act_cases (RBTreeTimer.step_act htimer).1
      cases hadds with
      | addTimer hpc hadded hran hset => rw [hpc]; exact hidle
  refine ⟨?_, fun hne => ?_, fun hne => absurd hidle hne⟩
  · rw [hs.active, hchannels, EventLoop.channelsAfter, ← hactive]
    exact List.map_tail
  · -- what comes next is the user's code or a handler
    rw [hs.body] at hne
    cases hacts with
    | enter hpc | again hpc | leave hpc | handled hpc | swap hpc | passed hpc =>
      refine absurd ?_ hne
      simp [nextBody, functor, hpc, hout]
    | drain hpc =>
      refine absurd ?_ hne
      rw [hpc, EventLoop.channels] at hactive
      obtain ⟨x, rest, hx, hxa, -⟩ := List.map_eq_cons_iff.1 hactive
      have hwakeup : x = .wakeup := by
        cases x with
        | wakeup => rfl
        | timer => cases hxa
        | other => cases hxa
      simp [nextBody, hpc, hx, hwakeup, bodyOf]
    | handler _ hs' | functor _ hs' =>
      rw [hs']
      trivial

/-- A step that leaves the body and the place in the queue as they are, and returns from nothing. -/
theorem Steps.keeps_placeOk (hs : Steps a s s') (h : s.PlaceOk) (hret : a ≠ .return_)
    (hactive : s.nextActive a = s.active)
    (hchannels : ∀ b, s.loopStep a = some b → s.loop.channelsAfter b = EventLoop.channels s.loop.pc)
    (hbody : s'.body ≠ .outside → s.body ≠ .outside) (hbatch : s'.timer.pc ≠ .idle → s'.body = .batch) :
    s'.PlaceOk := by
  have hnot : s.loopStep a ≠ some .return_ := by
    cases a <;> simp_all [loopStep]
  refine ⟨?_, fun hne => ?_, hbatch⟩
  · rw [hs.active, hactive, h.active]
    rcases hs.loop_cases with ⟨-, hloop⟩ | ⟨b, hb, hloop⟩
    · rw [hloop]
    · rw [EventLoop.step_channels hloop, hchannels b hb]
  · have hin := h.body (hbody hne)
    rcases hs.loop_cases with ⟨-, hloop⟩ | ⟨b, hb, hloop⟩
    · rwa [hloop]
    · exact EventLoop.step_inBody hloop (fun hr => hnot (hr ▸ hb)) hin

/-- **One step.** -/
theorem Steps.placeOk (hs : Steps a s s') (h : s.PlaceOk) : s'.PlaceOk := by
  have hen := hs.enabled
  have hbody := hs.body
  cases a with
  | loop now => exact hs.loop_placeOk h
  | poll active now =>
    have hloop := hs.loop_step rfl
    have hchannels := EventLoop.step_channels hloop
    have htimer : s'.timer = s.timer := (Option.some.inj hs.timer).symm
    have hout : s.body = .outside := by
      by_contra hne
      have hin := h.body hne
      have hacts := EventLoop.step_cases hloop
      cases hacts with
      | poll hpc =>
        rw [hpc] at hin
        exact hin
    have hsame : s'.body = s.body := hbody
    refine ⟨?_, fun hne => absurd (hsame.trans hout) hne, fun hne => ?_⟩
    · rw [hs.active, hchannels]
      rfl
    · rw [htimer] at hne
      exact hsame.trans (h.batch hne)
  | return_ =>
    have htimer : s'.timer = s.timer := (Option.some.inj hs.timer).symm
    have hloop := hs.loop_step rfl
    refine ⟨?_, fun hne => absurd hbody hne, fun hne => ?_⟩
    · rw [hs.active, EventLoop.step_channels hloop]
      exact h.active
    · -- the queue is through with its timers
      rw [htimer] at hne
      rw [TimedLoop.enabled, h.batch hne] at hen
      exact absurd hen (by decide)
  | handleRead read now =>
    have hstart : s.body = .timerfd := by simpa [TimedLoop.enabled] using hen
    refine hs.keeps_placeOk h (by simp) rfl (fun b hb => by cases hb) (fun _ => by rw [hstart]; decide)
      fun hne => ?_
    rw [hbody, nextBody, if_neg hne]
  | rearm now =>
    have hbusy : s.body = .batch := by
      simp only [TimedLoop.enabled, Bool.and_eq_true, decide_eq_true_eq] at hen
      exact hen.2
    refine hs.keeps_placeOk h (by simp) rfl (fun b hb => by cases hb) (fun _ => by rw [hbusy]; decide)
      fun hne => ?_
    have htimer : s.timer.step (.rearm now) = some s'.timer := hs.timer_step rfl
    obtain ⟨hacts, -⟩ := RBTreeTimer.act_cases (RBTreeTimer.step_act htimer).1
    cases hacts with
    | rearm hpc hpc' hadded hran hset => exact absurd hpc' hne
  | run now | returned now =>
    have hbusy : s.body = .batch := by
      simp only [TimedLoop.enabled, Bool.and_eq_true, decide_eq_true_eq] at hen
      exact hen.2
    exact hs.keeps_placeOk h (by simp) rfl (fun b hb => by cases hb) (fun _ => by rw [hbusy]; decide)
      fun _ => hbody.trans hbusy
  | addTimer call now =>
    have htimer : s.timer.step (call.step now) = some s'.timer := hs.timer_step rfl
    refine hs.keeps_placeOk h (by simp) rfl (fun b hb => by cases hb)
      (fun hne => by rwa [show s'.body = s.body from hbody] at hne) fun hne => ?_
    obtain ⟨hacts, -⟩ := RBTreeTimer.act_cases (RBTreeTimer.step_act htimer).1
    cases hacts with
    | addTimer hpc hadded hran hset =>
      rw [show s'.body = s.body from hbody]
      exact h.batch (fun hidle => hne (hpc.trans hidle))
  | loopPush | loopWake | loopQuit | push | wakeup | quit | addTimerFrom =>
    have htimer : s'.timer = s.timer := (Option.some.inj hs.timer).symm
    refine hs.keeps_placeOk h (by simp) rfl (fun b hb => ?_)
      (fun hne => by rwa [show s'.body = s.body from hbody] at hne) fun hne => ?_
    · cases hb
      rfl
    · rw [show s'.body = s.body from hbody]
      rw [htimer] at hne
      exact h.batch hne

/-! ## Sleeping -/

/-- The condition on a step: a `resetTimerFd` outside of the callbacks does its job. -/
def Arms (s : TimedLoop) (a : TimedStep) : Prop := ∀ b ∈ s.timerStep a, b.Arms s.timer

instance (s : TimedLoop) (a : TimedStep) : Decidable (s.Arms a) :=
  inferInstanceAs (Decidable (∀ b ∈ s.timerStep a, b.Arms s.timer))

/-- **The invariant of a loop whose timerfd is armed.** -/
structure AwakeOk (s : TimedLoop) : Prop where
  place : s.PlaceOk
  loop : s.loop.LoopOk
  timer : s.timer.TimerOk
  punctual : s.timer.Punctual

theorem start_awakeOk (clock : ℤ) : (start clock).AwakeOk :=
  ⟨start_placeOk clock, EventLoop.start_loopOk, RBTreeTimer.ok_new clock, RBTreeTimer.punctual_new clock⟩

theorem step_awakeOk (h : s.AwakeOk) (ha : s.Arms a) (hstep : s.step a = some s') : s'.AwakeOk := by
  have hs := step_steps hstep
  have hloop : s'.loop.LoopOk := by
    rcases hs.loop_cases with ⟨-, hloop⟩ | ⟨b, -, hloop⟩
    · rw [hloop]
      exact h.loop
    · exact EventLoop.step_loopOk h.loop hloop
  have htimer : s'.timer.TimerOk ∧ s'.timer.Punctual := by
    rcases hs.timer_cases with ⟨-, htimer⟩ | ⟨b, hb, htimer⟩
    · rw [htimer]
      exact ⟨h.timer, h.punctual⟩
    · obtain ⟨hfresh, harmed⟩ := RBTreeTimer.step_armed h.timer htimer
      exact ⟨⟨hfresh, harmed.1 (ha b hb)⟩, RBTreeTimer.step_punctual h.punctual htimer⟩
  exact ⟨hs.placeOk h.place, hloop, htimer.1, htimer.2⟩

theorem run_awakeOk (clock : ℤ) {steps : List TimedStep} (harms : Along step Arms (start clock) steps)
    (hrun : run step (start clock) steps = some s) : s.AwakeOk :=
  run_inv_along (fun _ _ _ h ha hs => step_awakeOk h ha hs) steps (start_awakeOk clock) harms hrun

/-- In `epoll_wait` no call of the timer queue is under way. -/
theorem AwakeOk.idle (h : s.AwakeOk) (hpoll : s.loop.pc = .poll) : s.body = .outside ∧ s.timer.pc = .idle := by
  have hout : s.body = .outside := by
    by_contra hne
    have hin := h.place.body hne
    rw [hpoll] at hin
    exact hin
  refine ⟨hout, ?_⟩
  by_contra hne
  rw [h.place.batch hne] at hout
  cases hout

/-- **The loop never sleeps over a timer.** In every state of every run whose `resetTimerFd` do their job,
in which the loop thread is in `epoll_wait`: if a timer is still in a functor, the eventfd is readable or
a thread is about to make it so; and if one is in the queue, the timerfd is armed and watched, with a
deadline that is not behind the first expiration. -/
theorem timers_awake (clock : ℤ) {steps : List TimedStep} (harms : Along step Arms (start clock) steps)
    (hrun : run step (start clock) steps = some s) (hpoll : s.loop.pc = .poll) :
    (s.queuedTickets ≠ [] → 0 < s.loop.counter ∨ ∃ t, s.loop.threads t = .pushed) ∧ s.timer.Armed := by
  have h := run_awakeOk clock harms hrun
  refine ⟨fun hqueued => ?_, h.timer.armed (h.idle hpoll).2⟩
  have hpending : s.loop.m_pending_functors ≠ [] := by
    intro hnil
    apply hqueued
    rw [queuedTickets, EventLoop.waiting, hpoll, hnil]
    rfl
  rcases h.loop.wake (by rw [hpoll]; trivial) hpending with hw | hw | ⟨⟨agenda, hw⟩, -⟩
  · exact .inl hw
  · exact .inr hw
  · rw [hpoll] at hw
    cases hw

theorem asleepSteps_arms : Along step Arms (start 0) asleepSteps := by decide +kernel

theorem asleepSteps_run :
    ∃ s ∈ run step (start 0) asleepSteps, s.loop.pc = .poll ∧ s.queuedTickets = [1] ∧ s.loop.counter = 0 := by
  decide +kernel

theorem timers_awake_asleep :
    ∃ s, run step (start 0) asleepSteps = some s ∧ s.queuedTickets = [1] ∧
      (∃ t, s.loop.threads t = .pushed) ∧ s.timer.Armed := by
  obtain ⟨s, hs, hpoll, hqueued, hcounter⟩ := asleepSteps_run
  obtain ⟨hwake, harmed⟩ := timers_awake 0 asleepSteps_arms hs hpoll
  rcases hwake (by rw [hqueued]; simp) with hpos | hthread
  · omega
  · exact ⟨s, hs, hqueued, hthread, harmed⟩

/-! ## The next round -/

/-- A step of the loop thread outside of the calls of the user. -/
def own : TimedStep → Bool
  | .poll _ _ | .loop _ | .return_ | .handleRead _ _ | .run _ | .returned _ | .rearm _ => true
  | .loopPush | .loopWake | .loopQuit | .addTimer _ _ | .push _ | .wakeup _ | .quit _ | .addTimerFrom _ _ => false

/-- A step of the timer queue alone. -/
theorem step_timer {b : TimerStep} {timer : RBTreeTimer} (hen : s.enabled a = true) (hnone : s.loopStep a = none)
    (hb : s.timerStep a = some b) (htimer : s.timer.step b = some timer) :
    ∃ s', s.step a = some s' ∧ s'.loop = s.loop ∧ s'.timer = timer ∧ s'.body = s.nextBody timer a := by
  set s' : TimedLoop :=
    { loop := s.loop
      timer := timer
      active := s.nextActive a
      body := s.nextBody timer a
      calls := s.calls + drawn a
      inserted := s.inserted ++ (s.ticket a).toList }
  refine ⟨s', ?_, rfl, rfl, rfl⟩
  unfold step
  rw [if_pos hen, hnone, hb, Option.toList_none, Option.toList_some, run_nil, Option.bind_some, run_singleton,
    htimer]
  rfl

/-- The loop thread is in `handleRead`, with the timers `rest` still to run. -/
structure InBatch (s : TimedLoop) (now : ℤ) (rest : List Timer) : Prop where
  loop : s.loop.pc = .user (.channels [])
  body : s.body = .batch
  pc : s.timer.pc = .expired rest
  clock : s.timer.clock ≤ now

/-- **The next expired timer** runs, and returns. -/
theorem InBatch.next {now : ℤ} {t : Timer} {rest : List Timer} (h : s.InBatch now (t :: rest)) :
    ∃ s', run step s [.run now, .returned now] = some s' ∧ s'.InBatch now rest ∧
      s'.timer.ran.map Prod.snd = s.timer.ran.map Prod.snd ++ [t] := by
  obtain ⟨hloop, hbody, hpc, hclock⟩ := h
  -- the callback begins
  have hrun : s.timer.step (.run now) =
      some { s.timer with clock := now, pc := .callback t rest, ran := s.timer.ran ++ [(now, t)] } := by
    simp [RBTreeTimer.step, RBTreeTimer.act, TimerStep.readings, hclock, hpc]
  obtain ⟨s₁, hs₁, hloop₁, htimer₁, hbody₁⟩ := step_timer (a := .run now)
    (by simp [enabled, inBody, hloop, hbody]) rfl rfl hrun
  have hbusy₁ : s₁.body = .batch := hbody₁.trans hbody
  have hpc₁ : s₁.timer.pc = .callback t rest := by rw [htimer₁]
  have hclock₁ : s₁.timer.clock = now := by rw [htimer₁]
  -- and returns
  obtain ⟨timer, hreturned, hpc₂⟩ := RBTreeTimer.step_returned hpc₁
  rw [hclock₁] at hreturned
  obtain ⟨hacts, hclock₂⟩ := RBTreeTimer.act_cases (RBTreeTimer.step_act hreturned).1
  obtain ⟨s₂, hs₂, hloop₂, htimer₂, hbody₂⟩ := step_timer (a := .returned now)
    (by simp [enabled, inBody, hloop₁, hloop, hbusy₁]) rfl rfl hreturned
  refine ⟨s₂, by rw [run, hs₁, Option.bind_some, run_singleton, hs₂], ⟨?_, ?_, ?_, ?_⟩, ?_⟩
  · rw [hloop₂, hloop₁, hloop]
  · exact hbody₂.trans hbusy₁
  · rw [htimer₂, hpc₂]
  · rw [htimer₂, hclock₂]
    exact le_rfl
  · cases hacts with
    | returned hpc hpc' hadded hran hset =>
      rw [htimer₂, hran, htimer₁]
      simp

/-- **The batch** runs to its end. -/
theorem InBatch.ends {now : ℤ} {rest : List Timer} (h : s.InBatch now rest) :
    ∃ more s', run step s more = some s' ∧ (∀ a ∈ more, own a = true) ∧ s'.InBatch now [] ∧
      s'.timer.ran.map Prod.snd = s.timer.ran.map Prod.snd ++ rest := by
  induction rest generalizing s with
  | nil => exact ⟨[], s, rfl, fun _ ha => absurd ha List.not_mem_nil, h, (List.append_nil _).symm⟩
  | cons t rest ih =>
    obtain ⟨s₁, hs₁, hbatch₁, hran₁⟩ := h.next
    obtain ⟨more, s', hmore, hown, hbatch, hran⟩ := ih hbatch₁
    refine ⟨[.run now, .returned now] ++ more, s', ?_, fun a ha => ?_, hbatch, ?_⟩
    · rw [run_append, hs₁]
      exact hmore
    · rcases List.mem_append.1 ha with ha | ha
      · simp only [List.mem_cons, List.not_mem_nil, or_false] at ha
        rcases ha with rfl | rfl
        · rfl
        · rfl
      · exact hown a ha
    · rw [hran, hran₁, List.append_assoc]
      rfl

/-- The end of `handleRead`, and of its handler. -/
theorem InBatch.over {now : ℤ} (h : s.InBatch now []) :
    ∃ s', run step s [.rearm now, .return_] = some s' ∧ s'.timer.pc = .idle ∧
      s'.loop.pc = .next (.channels []) ∧ s'.timer.ran = s.timer.ran := by
  obtain ⟨hloop, hbody, hpc, hclock⟩ := h
  obtain ⟨timer, htimer⟩ : ∃ timer, s.timer.step (.rearm now) = some timer :=
    ⟨_, by simp [RBTreeTimer.step, RBTreeTimer.act, TimerStep.readings, hclock, hpc]; rfl⟩
  obtain ⟨hacts, -⟩ := RBTreeTimer.act_cases (RBTreeTimer.step_act htimer).1
  obtain ⟨s₁, hs₁, hloop₁, htimer₁, hbody₁⟩ := step_timer (a := .rearm now)
    (by simp [enabled, inBody, hloop, hbody]) rfl rfl htimer
  have hover : s₁.body = .over := hbody₁
  have hpc₁ : s₁.loop.pc = .user (.channels []) := by rw [hloop₁, hloop]
  obtain ⟨s₂, hs₂, hpc₂, htimer₂⟩ : ∃ s₂, s₁.step .return_ = some s₂ ∧ s₂.loop.pc = .next (.channels []) ∧
      s₂.timer = s₁.timer := by
    refine ⟨{ s₁ with loop := { s₁.loop with pc := .next (.channels []) }, body := .outside }, ?_, rfl, rfl⟩
    simp [step, enabled, hover, loopStep, timerStep, EventLoop.step, hpc₁, run_singleton, nextActive, nextBody,
      drawn, ticket]
  refine ⟨s₂, by rw [run, hs₁, Option.bind_some, run_singleton, hs₂], ?_, hpc₂, ?_⟩
  · rw [htimer₂, htimer₁]
    cases hacts with
    | rearm hpc hpc' hadded hran hset => exact hpc'
  · rw [htimer₂, htimer₁]
    cases hacts with
    | rearm hpc hpc' hadded hran hset => exact hran

end TimedLoop

end MyMuduo
