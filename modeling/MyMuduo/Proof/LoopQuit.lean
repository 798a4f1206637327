import MyMuduo.Proof.EventLoop

/-!
# The end of a loop

`quit` only writes `m_looping`; the loop reads it once a round. A pass takes what is pending at its
swap, and what is queued behind the last swap never runs.

* `Moves`: what one step can do, as far as it concerns the end.
* `quit_not_lost`: **the loop does not sleep through a `quit`** behind the write of `m_looping` in
  `loop()`, which overwrites one before it.
* `quit_last_round`: behind such a `quit` the loop waits at most once more; which functors it still runs
  is decided by whether its swap was still to come.
-/

namespace MyMuduo

open Lib

namespace LoopPc

variable {F : Type}

/-- The swap of the round is still to come. -/
def SwapAhead : LoopPc F → Prop
  | .poll | .next (.channels _) | .user (.channels _) | .pushed (.channels _) | .swap => True
  | _ => False

/-- How often `epoll_wait` returns before the next test of the loop. -/
def polls : LoopPc F → ℕ
  | .poll => 1
  | _ => 0

end LoopPc

/-- `epoll_wait` returns. -/
def LoopStep.isPoll {F : Type} : LoopStep F → Bool
  | .poll _ => true
  | _ => false

/-- The write of `m_looping` in `quit()`. -/
def LoopStep.isQuit {F : Type} : LoopStep F → Bool
  | .loopQuit | .quit _ => true
  | _ => false

namespace EventLoop

variable {F : Type} {s s' : EventLoop F} {a : LoopStep F}

/-! ## One step -/

/-- **What a step does to the end of the loop**, once `loop()` is entered. -/
structure Moves (a : LoopStep F) (s s' : EventLoop F) : Prop where
  entered : s'.pc ≠ .constructed
  looping : s'.m_looping = true ↔ s.m_looping = true ∧ ¬a.isQuit
  queued : s.queued <+: s'.queued
  ahead : s'.pc.SwapAhead → s.pc.SwapAhead ∨ s.m_looping = true
  swapped : (s.pc.SwapAhead → s'.pc.SwapAhead) ∧ s'.swapped = s.swapped ∨
    s.pc = .swap ∧ s'.swapped = s.queued.length
  polls : s'.pc.polls + (if a.isPoll then 1 else 0) ≤ s.pc.polls ∨ s.m_looping = true

/-- The step leaves the loop thread in its part of the round. -/
theorem Moves.stays (hentered : s'.pc ≠ .constructed)
    (hlooping : s'.m_looping = true ↔ s.m_looping = true ∧ ¬a.isQuit) (hqueued : s.queued <+: s'.queued)
    (hahead : s'.pc.SwapAhead ↔ s.pc.SwapAhead) (hswapped : s'.swapped = s.swapped)
    (hpolls : s'.pc.polls + (if a.isPoll then 1 else 0) ≤ s.pc.polls) : Moves a s s' :=
  ⟨hentered, hlooping, hqueued, fun h => .inl (hahead.1 h), .inl ⟨hahead.2, hswapped⟩, .inl hpolls⟩

/-- The places of a handler or functor are of one part of the round. -/
theorem user_ahead {pc : Agenda F → LoopPc F} (hpc : pc = .next ∨ pc = .user ∨ pc = .pushed)
    (agenda : Agenda F) : ((pc agenda).SwapAhead ↔ (LoopPc.user agenda).SwapAhead) ∧
      (pc agenda).polls = 0 ∧ pc agenda ≠ .constructed := by
  rcases hpc with rfl | rfl | rfl <;> cases agenda <;> exact ⟨Iff.rfl, rfl, by simp⟩

/-- **What a step of any thread does.** -/
theorem step_moves (hne : s.pc ≠ .constructed) (hs : s.step a = some s') : Moves a s s' := by
  have hacts := step_cases hs
  cases hacts with
  | enter hpc hs' => exact absurd hpc hne
  | again hpc hlooping hs' =>
    subst hs'
    refine ⟨by simp, by simp [LoopStep.isQuit], List.prefix_rfl, fun _ => .inr hlooping,
      .inl ⟨fun h => ?_, rfl⟩, .inr hlooping⟩
    rw [hpc] at h
    exact h.elim
  | swap hpc hs' =>
    subst hs'
    exact ⟨by simp, by simp [LoopStep.isQuit], List.prefix_rfl, fun h => h.elim, .inr ⟨hpc, rfl⟩,
      .inl (by rw [hpc]; exact le_rfl)⟩
  | leave hpc _ hs' | poll hpc _ _ hs' | drain hpc hs' | handler hpc hs' | handled hpc hs'
  | functor hpc hs' | passed hpc hs' =>
    subst hs'
    exact .stays (by simp) (by simp [LoopStep.isQuit]) List.prefix_rfl (by rw [hpc]; exact Iff.rfl) rfl
      (by rw [hpc]; exact le_rfl)
  | @return_ agenda hpc hs' =>
    subst hs'
    obtain ⟨h1, h2, h3⟩ := user_ahead (F := F) (.inl rfl) agenda
    exact .stays h3 (by simp [LoopStep.isQuit]) List.prefix_rfl (by rw [hpc]; exact h1) rfl
      (by simp [LoopStep.isPoll, h2])
  | @loopPush f agenda hpc hs' =>
    subst hs'
    obtain ⟨h1, h2, h3⟩ := user_ahead (F := F) (.inr (.inr rfl)) agenda
    exact .stays h3 (by simp [LoopStep.isQuit, pushBack]) (List.prefix_append _ _)
      (by rw [hpc]; exact h1) rfl (by simp [LoopStep.isPoll, h2])
  | @loopWake agenda hpc hs' =>
    subst hs'
    obtain ⟨h1, h2, -⟩ := user_ahead (F := F) (.inr (.inr rfl)) agenda
    exact .stays (by simp) (by simp [LoopStep.isQuit]) List.prefix_rfl (by rw [hpc]; exact h1.symm) rfl
      (by rw [hpc, h2]; exact le_rfl)
  | push hidle hs' =>
    subst hs'
    exact .stays hne (by simp [LoopStep.isQuit, pushBack]) (List.prefix_append _ _) Iff.rfl rfl le_rfl
  | loopQuit _ hs' | wakeup _ hs' | quit _ hs' =>
    subst hs'
    exact .stays hne (by simp [LoopStep.isQuit]) List.prefix_rfl Iff.rfl rfl le_rfl

/-! ## The entry of `loop()` -/

/-- Before `loop()` the steps are those of other threads. -/
theorem step_constructed (hpc : s.pc = .constructed) (hne : a ≠ .loop) (hs : s.step a = some s') :
    s'.pc = .constructed := by
  have hacts := step_cases hs
  cases hacts with
  | enter => exact absurd rfl hne
  | again hpc' | leave hpc' | poll hpc' | drain hpc' | handler hpc' | handled hpc' | swap hpc' | functor hpc'
  | passed hpc' | return_ hpc' | loopPush hpc' | loopWake hpc' | loopQuit hpc' =>
    rw [hpc] at hpc'
    cases hpc'
  | push _ hs' | wakeup _ hs' | quit _ hs' =>
    subst hs'
    exact hpc

/-- **The write `m_looping = true`** makes an end of what was before: behind it the flag says whether
`quit` was called. -/
theorem looping_iff {before after : List (LoopStep F)} (hbefore : .loop ∉ before)
    (hrun : run EventLoop.step start (before ++ .loop :: after) = some s) :
    s.pc ≠ .constructed ∧ (s.m_looping = true ↔ ∀ a ∈ after, ¬a.isQuit) := by
  rw [run_append, Option.bind_eq_some_iff] at hrun
  obtain ⟨s₀, h₀, hrun⟩ := hrun
  obtain ⟨s₁, h₁, h₂⟩ := run_cons hrun
  have hpc₀ : s₀.pc = .constructed :=
    run_inv_along (C := fun _ a => a ≠ .loop) (I := fun s : EventLoop F => s.pc = .constructed)
      (fun _ _ _ hpc hne hs => step_constructed hpc hne hs) before rfl
      (along_of_forall start fun a ha => ne_of_mem_of_not_mem ha hbefore) h₀
  simp only [step, loop, hpc₀, Option.some.injEq] at h₁
  subst h₁
  have hentered : s.pc ≠ .constructed :=
    run_inv (I := fun s : EventLoop F => s.pc ≠ .constructed)
      (fun _ _ _ hne hs => (step_moves hne hs).entered) (by simp) h₂
  have hiff := run_iff_along (C := fun _ a => ¬a.isQuit) (D := fun _ _ => True)
    (I := fun s : EventLoop F => s.pc ≠ .constructed) (P := fun s => s.m_looping = true)
    (fun _ _ _ hne _ hs => ⟨(step_moves hne hs).entered, (step_moves hne hs).looping⟩)
    after (by simp) (along_of_forall _ fun _ _ => trivial) h₂
  refine ⟨hentered, hiff.trans ⟨fun h => forall_of_along h₂ h.2, fun h => ⟨rfl, along_of_forall _ h⟩⟩⟩

/-- The flag is down exactly if `quit` was called behind the write. -/
theorem stopped_iff {before after : List (LoopStep F)} (hbefore : .loop ∉ before)
    (hrun : run EventLoop.step start (before ++ .loop :: after) = some s) :
    s.m_looping = false ↔ ∃ a ∈ after, a.isQuit := by
  rw [← Bool.not_eq_true, (looping_iff hbefore hrun).2]
  simp

/-! ## The eventfd -/

/-- A loop that waits, and is to stop, will be woken. -/
def QuitOk (s : EventLoop F) : Prop :=
  s.pc = .poll → s.m_looping = false → 0 < s.counter ∨ ∃ t, s.threads t = .quitting

/-- The thread of another call is not one that quits. -/
theorem quitting_stays {t thread : ℕ} {pc : ThreadPc} (ht : s.threads t = .quitting)
    (hidle : s.threads thread = .idle) : Function.update s.threads thread pc t = .quitting := by
  have hne : t ≠ thread := by
    rintro rfl
    rw [hidle] at ht
    cases ht
  rw [Function.update_of_ne hne]
  exact ht

theorem step_quitOk (h : s.QuitOk) (hs : s.step a = some s') : s'.QuitOk := by
  intro hpc hquit
  have hacts := step_cases hs
  cases hacts with
  | again _ hlooping hs' =>
    -- the loop goes to wait only when it finds `m_looping` set
    subst hs'
    rw [hlooping] at hquit
    cases hquit
  | enter _ hs' | leave _ _ hs' | poll _ _ _ hs' | drain _ hs' | handler _ hs' | handled _ hs' | swap _ hs'
  | functor _ hs' | passed _ hs' | return_ _ hs' | loopPush _ hs' | loopWake _ hs' =>
    subst hs'
    cases hpc
  | loopQuit huser hs' =>
    subst hs'
    rw [huser] at hpc
    cases hpc
  | push hidle hs' =>
    subst hs'
    rcases h hpc hquit with hc | ⟨t, ht⟩
    · exact .inl hc
    · exact .inr ⟨t, quitting_stays ht hidle⟩
  | wakeup _ hs' =>
    subst hs'
    exact .inl (Nat.succ_pos _)
  | @quit thread _ hs' =>
    subst hs'
    exact .inr ⟨thread, Function.update_self _ _ _⟩

/-- **No lost quit, once `loop()` is entered.** A run enters `loop()` with its first step of the loop
thread. In every state behind it `m_looping` is down exactly if `quit` was called since, by any thread;
what was called before counts for nothing. And when `quit` was called since, and the loop thread is in
`epoll_wait`, the eventfd is readable, or the thread that called `quit` is still to call `wakeup()`. -/
theorem quit_not_lost (before after : List (LoopStep F)) (hbefore : .loop ∉ before) {s : EventLoop F}
    (hrun : run EventLoop.step start (before ++ .loop :: after) = some s) :
    (s.m_looping = false ↔ ∃ a ∈ after, a.isQuit) ∧
      (s.pc = .poll → (∃ a ∈ after, a.isQuit) → 0 < s.counter ∨ ∃ t, s.threads t = .quitting) := by
  have hstopped := stopped_iff hbefore hrun
  have hok : s.QuitOk := run_inv (fun _ _ _ h hs => step_quitOk h hs) (fun hpc => by cases hpc) hrun
  exact ⟨hstopped, fun hpoll hquit => hok hpoll (hstopped.2 hquit)⟩

/-- A thread quits a sleeping loop, while another one is in `queueInLoop`. -/
def quitSteps : List (LoopStep ℕ) := [.loop, .push 1 7, .quit 2]

theorem quit_not_lost_asleep :
    ∃ s : EventLoop ℕ, run EventLoop.step start ([] ++ .loop :: quitSteps) = some s ∧
      (0 < s.counter ∨ ∃ t, s.threads t = .quitting) :=
  ⟨_, rfl, (quit_not_lost [] quitSteps (by simp) rfl).2 rfl ⟨.quit 2, by simp [quitSteps], rfl⟩⟩

/-- A `quit` that comes too early: the loop sleeps, and nobody is to wake it a second time. -/
example : (run EventLoop.step (start : EventLoop ℕ) [.quit 2, .wakeup 2, .loop, .loop, .poll [.wakeup], .loop,
    .loop, .loop, .loop, .loop]).map (fun s => (s.m_looping, s.counter)) = some (true, 0) := rfl

/-! ## The last round -/

/-- **The swap counts**: what was executed, and the rest of the pass, is what had been queued by the last
swap. -/
theorem step_counted (h : s.LoopOk) (hcount : s.executed.length + s.pc.rest.length = s.swapped)
    (hs : s.step a = some s') : s'.executed.length + s'.pc.rest.length = s'.swapped := by
  have horder := h.order
  have hacts := step_cases hs
  cases hacts with
  | swap hpc hs' =>
    subst hs'
    rw [hpc] at horder
    have hlen := congrArg List.length horder
    simpa [LoopPc.rest] using hlen
  | functor hpc hs' =>
    subst hs'
    rw [hpc] at hcount
    simp only [LoopPc.rest, List.length_append, List.length_cons, List.length_nil] at hcount ⊢
    omega
  | enter hpc hs' | again hpc _ hs' | leave hpc _ hs' | poll hpc _ _ hs' | drain hpc hs' | handler hpc hs'
  | handled hpc hs' | passed hpc hs' =>
    subst hs'
    rw [hpc] at hcount
    exact hcount
  | @return_ agenda hpc hs' | @loopPush _ agenda hpc hs' | @loopWake agenda hpc hs' =>
    subst hs'
    rw [hpc] at hcount
    cases agenda with
    | channels rest => exact hcount
    | functors rest => exact hcount
  | loopQuit _ hs' | push _ hs' | wakeup _ hs' | quit _ hs' =>
    subst hs'
    exact hcount

/-- **The invariant behind a `quit`** in the state `s`. -/
structure LastRound (s t : EventLoop F) : Prop where
  ok : t.LoopOk
  counted : t.executed.length + t.pc.rest.length = t.swapped
  entered : t.pc ≠ .constructed
  stopped : t.m_looping = false
  queued : s.queued <+: t.queued
  /-- the swap is not to come any more, or it is still to come, or it took all that `s` had -/
  swapped : ¬t.pc.SwapAhead ∧ t.swapped = s.swapped ∧ ¬s.pc.SwapAhead ∨
    s.pc.SwapAhead ∧ (t.pc.SwapAhead ∨ s.queued.length ≤ t.swapped)

theorem LastRound.step {t t' : EventLoop F} (h : LastRound s t) (hs : t.step a = some t') : LastRound s t' := by
  obtain ⟨hok, hcount, hentered, hstop, hqueued, hswapped⟩ := h
  obtain ⟨hentered', hlooping, hgrows, hahead, hmoves, -⟩ := step_moves hentered hs
  have hdown : t.m_looping ≠ true := by rw [hstop]; decide
  have hstop' : t'.m_looping = false := Bool.eq_false_iff.2 fun h => hdown (hlooping.1 h).1
  refine ⟨step_loopOk hok hs, step_counted hok hcount hs, hentered', hstop', hqueued.trans hgrows, ?_⟩
  have hback : t'.pc.SwapAhead → t.pc.SwapAhead := fun h => (hahead h).resolve_right hdown
  rcases hswapped with ⟨hpast, heq, hpast'⟩ | ⟨hs', htaken⟩
  · -- there was no swap to come, so there is none
    refine .inl ⟨fun h => hpast (hback h), ?_, hpast'⟩
    rcases hmoves with ⟨-, hsame⟩ | ⟨hswap, -⟩
    · rw [hsame, heq]
    · rw [hswap] at hpast
      exact absurd trivial hpast
  · refine .inr ⟨hs', ?_⟩
    rcases hmoves with ⟨hkeep, hsame⟩ | ⟨-, htook⟩
    · rcases htaken with hstill | htaken
      · exact .inl (hkeep hstill)
      · rw [hsame]
        exact .inr htaken
    · rw [htook]
      exact .inr hqueued.length_le

/-- Behind a `quit` each return of `epoll_wait` is paid for by the place of the loop thread. -/
theorem LastRound.polls {t t' : EventLoop F} (h : LastRound s t) (hs : t.step a = some t') :
    if a.isPoll then t'.pc.polls < t.pc.polls else t'.pc.polls ≤ t.pc.polls + 0 := by
  have hle := (step_moves h.entered hs).polls.resolve_right (by rw [h.stopped]; decide)
  split
  · rw [if_pos (by assumption)] at hle
    omega
  · omega

/-- **The last round.** From a state in which `quit` was called since `loop()` was entered, `epoll_wait`
returns at most once more, and only if the loop thread was there. When the loop has ended, it has run
exactly the functors that had been queued by its last swap: all that were queued before that state, and
perhaps more, if the swap of the round was still to come; otherwise those of the pass under way, and
nothing that was queued behind its swap. -/
theorem quit_last_round (before after more : List (LoopStep F)) (hbefore : .loop ∉ before)
    (hquit : ∃ a ∈ after, a.isQuit) {s t : EventLoop F}
    (hrun : run EventLoop.step start (before ++ .loop :: after) = some s)
    (hmore : run EventLoop.step s more = some t) :
    more.countP LoopStep.isPoll ≤ s.pc.polls ∧
      (t.pc = .exited → t.executed = t.queued.take t.swapped ∧
        (s.pc.SwapAhead → s.queued <+: t.executed) ∧
        (¬s.pc.SwapAhead → t.executed = s.queued.take s.swapped)) := by
  obtain ⟨hok, hcount⟩ := run_inv (I := fun s : EventLoop F =>
    s.LoopOk ∧ s.executed.length + s.pc.rest.length = s.swapped)
    (fun _ _ _ h hs => ⟨step_loopOk h.1 hs, step_counted h.1 h.2 hs⟩) ⟨start_loopOk, rfl⟩ hrun
  have hstart : LastRound s s := by
    refine ⟨hok, hcount, (looping_iff hbefore hrun).1, (stopped_iff hbefore hrun).2 hquit,
      List.prefix_rfl, ?_⟩
    by_cases hahead : s.pc.SwapAhead
    · exact .inr ⟨hahead, .inl hahead⟩
    · exact .inl ⟨hahead, rfl, hahead⟩
  have hlast : LastRound s t := run_inv (fun _ _ _ h hs => h.step hs) hstart hmore
  constructor
  · have hcountP := run_countP_le (C := fun _ _ => True) (I := LastRound s) (p := LoopStep.isPoll)
      (m := fun t => t.pc.polls) (k := 0) (fun _ _ _ h _ hs => ⟨h.step hs, h.polls hs⟩)
      more hstart (along_of_forall s fun _ _ => trivial) hmore
    omega
  · intro hexit
    obtain ⟨hok', hcount', -, -, hqueued, hswapped⟩ := hlast
    have horder := hok'.order
    rw [hexit] at hcount' horder hswapped
    -- what was executed is the front of the queue, up to the last swap
    have htake : t.executed = t.queued.take t.swapped := by
      rw [← horder, ← hcount']
      simp [LoopPc.rest]
    refine ⟨htake, fun hahead => ?_, fun hpast => ?_⟩
    · rcases hswapped with ⟨-, -, hno⟩ | ⟨-, hno | hle⟩
      · exact absurd hahead hno
      · exact hno.elim
      · rw [htake]
        exact (List.prefix_take_iff).2 ⟨hqueued, hle⟩
    · rcases hswapped with ⟨-, hsame, -⟩ | ⟨hahead, -⟩
      · have hle : s.swapped ≤ s.queued.length := by
          have hlen := congrArg List.length hok.order
          simp only [List.length_append] at hlen
          omega
        obtain ⟨rest, hrest⟩ := hqueued
        rw [htake, hsame, ← hrest, List.take_append_of_le_length hle]
      · exact absurd hahead hpast

/-- A functor that another thread queued before `loop()` quits it. -/
def quittingSteps : List (LoopStep ℕ) :=
  [.loop, .wakeup 1, .poll [.wakeup], .loop, .loop, .loop, .loop, .loopQuit]

/-- Another thread queues a functor behind the swap, and the loop ends. -/
def lateSteps : List (LoopStep ℕ) := [.push 2 9, .return_, .loop, .loop]

theorem quit_last_round_late :
    ∃ s t : EventLoop ℕ, run EventLoop.step start ([.push 1 7] ++ .loop :: quittingSteps) = some s ∧
      run EventLoop.step s lateSteps = some t ∧ t.executed = [⟨some 1, 7⟩] ∧
      t.executed = s.queued.take s.swapped :=
  ⟨_, _, rfl, rfl, rfl, ((quit_last_round [.push 1 7] quittingSteps lateSteps (by simp)
    ⟨.loopQuit, by simp [quittingSteps], rfl⟩ rfl rfl).2 rfl).2.2 id⟩

end EventLoop

end MyMuduo
