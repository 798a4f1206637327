import MyMuduo.Spec.EventLoop

/-!
# Wakeups and the order of functors

* `step_cases`: what a step of any thread finds, and what it leaves (`Acts`).
* `LoopOk`: the invariant of the loop thread and all others. Between a swap and the next
  `epoll_wait`, a pending functor is covered: the counter of the eventfd is positive, or a
  thread that pushed a functor is still to call `wakeup()`. While the handlers run nothing
  is needed, because a swap is still to come.
* `no_lost_wakeup`: **the loop never sleeps on a pending functor.**
* `functors_in_order`: **functors run once each, in the order of the mutex**, and a pass
  runs none that was queued after its swap.
-/

namespace MyMuduo

open Lib

namespace LoopPc

variable {F : Type}

/-- The swapped-out functors that are still to run. -/
def rest : LoopPc F → List (Queued F)
  | .next (.functors rest) | .user (.functors rest) | .pushed (.functors rest) => rest
  | _ => []

/-- The loop thread runs the functors of a pass. -/
def InPass : LoopPc F → Prop
  | .next (.functors _) | .user (.functors _) | .pushed (.functors _) => True
  | _ => False

/-- No swap comes before the next `epoll_wait`. -/
def Drained : LoopPc F → Prop
  | .constructed | .test | .poll | .exited => True
  | pc => pc.InPass

end LoopPc

namespace EventLoop

variable {F : Type} {s s' : EventLoop F}

/-- Something will wake the loop. -/
def Covered (s : EventLoop F) : Prop :=
  0 < s.counter ∨ (∃ t, s.threads t = .pushed) ∨
    (∃ agenda, s.pc = .pushed agenda) ∧ s.m_calling_pending_functors = true

/-- **The invariant of the loop.** -/
structure LoopOk (s : EventLoop F) : Prop where
  calling : s.pc.InPass ∨ s.pc = .swap → s.m_calling_pending_functors = true
  wake : s.pc.Drained → s.m_pending_functors ≠ [] → s.Covered
  order : s.executed ++ s.pc.rest ++ s.m_pending_functors = s.queued
  pass : s.pc.InPass → s.executed.length + s.pc.rest.length = s.swapped

/-- Outside of a pass the flag and the vector do not matter. -/
theorem LoopOk.of_not_inPass (hp : ¬s.pc.InPass) (hsw : s.pc ≠ .swap)
    (hwake : s.pc.Drained → s.m_pending_functors ≠ [] → s.Covered)
    (horder : s.executed ++ s.pc.rest ++ s.m_pending_functors = s.queued) : s.LoopOk := by
  refine ⟨fun h => ?_, hwake, horder, fun h => absurd h hp⟩
  rcases h with h | h
  · exact absurd h hp
  · exact absurd h hsw

theorem start_loopOk : (start : EventLoop F).LoopOk :=
  .of_not_inPass id (by simp [start]) (fun _ h => absurd rfl h) rfl

/-! ## One step -/

/-- What a step finds, and what it leaves. -/
inductive Acts (s s' : EventLoop F) : LoopStep F → Prop
  | enter (hpc : s.pc = .constructed) (hs' : s' = { s with m_looping := true, pc := .test }) :
      Acts s s' .loop
  | again (hpc : s.pc = .test) (hlooping : s.m_looping = true) (hs' : s' = { s with pc := .poll }) :
      Acts s s' .loop
  | leave (hpc : s.pc = .test) (hlooping : s.m_looping = false) (hs' : s' = { s with pc := .exited }) :
      Acts s s' .loop
  | poll {active : List ActiveChannel} (hpc : s.pc = .poll) (hactive : active ≠ [])
      (hreadable : ActiveChannel.wakeup ∈ active → 0 < s.counter)
      (hs' : s' = { s with pc := .next (.channels active) }) : Acts s s' (.poll active)
  | drain {rest : List ActiveChannel} (hpc : s.pc = .next (.channels (.wakeup :: rest)))
      (hs' : s' = { s with counter := 0, pc := .next (.channels rest) }) : Acts s s' .loop
  | handler {rest : List ActiveChannel} (hpc : s.pc = .next (.channels (.other :: rest)))
      (hs' : s' = { s with pc := .user (.channels rest) }) : Acts s s' .loop
  | handled (hpc : s.pc = .next (.channels []))
      (hs' : s' = { s with m_calling_pending_functors := true, pc := .swap }) : Acts s s' .loop
  | swap (hpc : s.pc = .swap)
      (hs' : s' = { s with
        m_pending_functors := []
        pc := .next (.functors s.m_pending_functors)
        swapped := s.queued.length }) : Acts s s' .loop
  | functor {f : Queued F} {rest : List (Queued F)} (hpc : s.pc = .next (.functors (f :: rest)))
      (hs' : s' = { s with executed := s.executed ++ [f], pc := .user (.functors rest) }) : Acts s s' .loop
  | passed (hpc : s.pc = .next (.functors []))
      (hs' : s' = { s with m_calling_pending_functors := false, pc := .test }) : Acts s s' .loop
  | return_ {agenda : Agenda F} (hpc : s.pc = .user agenda) (hs' : s' = { s with pc := .next agenda }) :
      Acts s s' .return_
  | loopPush {f : F} {agenda : Agenda F} (hpc : s.pc = .user agenda)
      (hs' : s' = { s.pushBack none f with pc := .pushed agenda }) : Acts s s' (.loopPush f)
  | loopWake {agenda : Agenda F} (hpc : s.pc = .pushed agenda)
      (hs' : s' = { s with
        counter := if s.m_calling_pending_functors then s.counter + 1 else s.counter
        pc := .user agenda }) : Acts s s' .loopWake
  | loopQuit {agenda : Agenda F} (hpc : s.pc = .user agenda) (hs' : s' = { s with m_looping := false }) :
      Acts s s' .loopQuit
  | push {thread : ℕ} {f : F} (hidle : s.threads thread = .idle)
      (hs' : s' = { s.pushBack (some thread) f with
        threads := Function.update s.threads thread .pushed }) : Acts s s' (.push thread f)
  | wakeup {thread : ℕ} (hbusy : s.threads thread ≠ .idle)
      (hs' : s' = { s with
        counter := s.counter + 1
        threads := Function.update s.threads thread .idle }) : Acts s s' (.wakeup thread)
  | quit {thread : ℕ} (hidle : s.threads thread = .idle)
      (hs' : s' = { s with
        m_looping := false
        threads := Function.update s.threads thread .quitting }) : Acts s s' (.quit thread)

theorem loop_cases (hs : s.loop = some s') : Acts s s' .loop := by
  unfold loop at hs
  split at hs
  · rename_i hpc
    exact .enter hpc (Option.some.inj hs).symm
  · rename_i hpc
    cases hs
    by_cases hl : s.m_looping = true
    · exact .again hpc hl (by rw [if_pos hl])
    · exact .leave hpc (Bool.eq_false_iff.2 hl) (by rw [if_neg hl])
  · rename_i rest hpc
    exact .drain hpc (Option.some.inj hs).symm
  · rename_i rest hpc
    exact .handler hpc (Option.some.inj hs).symm
  · rename_i hpc
    exact .handled hpc (Option.some.inj hs).symm
  · rename_i hpc
    exact .swap hpc (Option.some.inj hs).symm
  · rename_i f rest hpc
    exact .functor hpc (Option.some.inj hs).symm
  · rename_i hpc
    exact .passed hpc (Option.some.inj hs).symm
  all_goals cases hs

/-- **What a step does.** -/
theorem step_cases {a : LoopStep F} (hs : s.step a = some s') : Acts s s' a := by
  cases a with
  | loop => exact loop_cases hs
  | poll active =>
    simp only [step] at hs
    split at hs
    · rename_i hpc
      simp only [Option.ite_none_right_eq_some, Option.some.injEq] at hs
      obtain ⟨⟨hactive, hreadable⟩, hs'⟩ := hs
      exact .poll hpc hactive hreadable hs'.symm
    · cases hs
  | return_ =>
    simp only [step] at hs
    split at hs
    · rename_i agenda hpc
      exact .return_ hpc (Option.some.inj hs).symm
    · cases hs
  | loopPush f =>
    simp only [step] at hs
    split at hs
    · rename_i agenda hpc
      exact .loopPush hpc (Option.some.inj hs).symm
    · cases hs
  | loopWake =>
    simp only [step] at hs
    split at hs
    · rename_i agenda hpc
      exact .loopWake hpc (Option.some.inj hs).symm
    · cases hs
  | loopQuit =>
    simp only [step] at hs
    split at hs
    · rename_i agenda hpc
      exact .loopQuit hpc (Option.some.inj hs).symm
    · cases hs
  | push thread f =>
    simp only [step, Option.ite_none_right_eq_some, Option.some.injEq] at hs
    exact .push hs.1 hs.2.symm
  | wakeup thread =>
    simp only [step, Option.ite_none_left_eq_some, Option.some.injEq] at hs
    exact .wakeup hs.1 hs.2.symm
  | quit thread =>
    simp only [step, Option.ite_none_right_eq_some, Option.some.injEq] at hs
    exact .quit hs.1 hs.2.symm

/-! ## The invariant is kept -/

/-- What covers the loop does so wherever the loop thread goes, unless it is in
`queueInLoop` itself. -/
theorem Covered.moved (h : s.Covered) (hpc : ∀ agenda, s.pc ≠ .pushed agenda) {s' : EventLoop F}
    (hc : s'.counter = s.counter) (ht : s'.threads = s.threads) : s'.Covered := by
  rcases h with h | h | ⟨⟨agenda, h⟩, -⟩
  · exact Or.inl (by rw [hc]; exact h)
  · exact Or.inr (Or.inl (by rw [ht]; exact h))
  · exact absurd h (hpc agenda)

/-- The loop thread goes on outside of a pass, with no swap to come. -/
theorem LoopOk.drained (h : s.LoopOk) {pc : LoopPc F} (hdrained : s.pc.Drained)
    (hpushed : ∀ agenda, s.pc ≠ .pushed agenda) (hrest : s.pc.rest = pc.rest) (hpass : ¬pc.InPass)
    (hswap : pc ≠ .swap) (looping calling : Bool) :
    LoopOk { s with m_looping := looping, m_calling_pending_functors := calling, pc := pc } := by
  refine .of_not_inPass hpass hswap (fun _ hne => ?_) ?_
  · exact (h.wake hdrained hne).moved hpushed rfl rfl
  · rw [← h.order, hrest]

/-- The loop thread goes on among the handlers, with the swap to come. -/
theorem LoopOk.handling (h : s.LoopOk) {agenda : List ActiveChannel} {pc : Agenda F → LoopPc F}
    (hpc : pc = .next ∨ pc = .user) (hrest : s.pc.rest = []) (counter : ℕ) :
    LoopOk { s with counter := counter, pc := pc (.channels agenda) } := by
  have horder := h.order
  rw [hrest] at horder
  rcases hpc with rfl | rfl
  · exact .of_not_inPass id (by simp) (fun h => h.elim) horder
  · exact .of_not_inPass id (by simp) (fun h => h.elim) horder

/-- A handler or functor calls `queueInLoop`, returns, or goes on after the call. -/
theorem user_pc {pc : Agenda F → LoopPc F} (hpc : pc = .next ∨ pc = .user ∨ pc = .pushed)
    (agenda : Agenda F) :
    (pc agenda).rest = (LoopPc.user agenda).rest ∧
      ((pc agenda).InPass ↔ (LoopPc.user agenda).InPass) ∧
      ((pc agenda).Drained ↔ (LoopPc.user agenda).InPass) ∧ pc agenda ≠ .swap := by
  rcases hpc with rfl | rfl | rfl <;> cases agenda <;>
    exact ⟨rfl, Iff.rfl, Iff.rfl, by simp⟩

/-- The loop thread stays in its handler or functor, or in the pass it belongs to. -/
theorem LoopOk.user (h : s.LoopOk) {agenda : Agenda F} {pc pc' : Agenda F → LoopPc F}
    (hpc : s.pc = pc agenda) (hpc' : s'.pc = pc' agenda) (h₁ : pc = .next ∨ pc = .user ∨ pc = .pushed)
    (h₂ : pc' = .next ∨ pc' = .user ∨ pc' = .pushed)
    (hcalling : s'.m_calling_pending_functors = s.m_calling_pending_functors)
    (hwake : s.m_calling_pending_functors = true → s'.m_pending_functors ≠ [] →
      (s.m_pending_functors ≠ [] → s.Covered) → s'.Covered)
    (horder : s'.executed ++ s.pc.rest ++ s'.m_pending_functors = s'.queued)
    (hexecuted : s'.executed = s.executed) (hswapped : s'.swapped = s.swapped) : s'.LoopOk := by
  obtain ⟨hrest, hpass, hdrained, hswap⟩ := user_pc h₁ agenda
  obtain ⟨hrest', hpass', hdrained', hswap'⟩ := user_pc h₂ agenda
  have hin : s'.pc.InPass → s.pc.InPass := fun h => by
    rw [hpc'] at h
    rw [hpc]
    exact hpass.2 (hpass'.1 h)
  have hsame : s'.pc.rest = s.pc.rest := by rw [hpc, hpc', hrest, hrest']
  refine ⟨fun h' => ?_, fun h' hne => ?_, by rw [hsame]; exact horder, fun h' => ?_⟩
  · rw [hcalling]
    rcases h' with h' | h'
    · exact h.calling (.inl (hin h'))
    · rw [hpc'] at h'
      exact absurd h' hswap'
  · -- without a swap to come the handler is one of a pass
    rw [hpc'] at h'
    have hin' : (LoopPc.user agenda).InPass := hdrained'.1 h'
    refine hwake (h.calling (.inl ?_)) hne (h.wake ?_)
    · rw [hpc]
      exact hpass.2 hin'
    · rw [hpc]
      exact hdrained.2 hin'
  · rw [hexecuted, hsame, hswapped]
    exact h.pass (hin h')

/-- **One step of any thread.** -/
theorem step_loopOk (h : s.LoopOk) {a : LoopStep F} (hs : s.step a = some s') : s'.LoopOk := by
  have hacts := step_cases hs
  have horder := h.order
  cases hacts with
  | enter hpc hs' | again hpc _ hs' | leave hpc _ hs' | passed hpc hs' =>
    subst hs'
    exact h.drained (by rw [hpc]; trivial) (by rw [hpc]; simp) (by rw [hpc]; rfl) id (by simp) _ _
  | poll hpc _ _ hs' | drain hpc hs' =>
    subst hs'
    exact h.handling (.inl rfl) (by rw [hpc]; rfl) _
  | handler hpc hs' =>
    subst hs'
    exact h.handling (.inr rfl) (by rw [hpc]; rfl) _
  | handled hpc hs' =>
    subst hs'
    rw [hpc] at horder
    exact ⟨fun _ => rfl, fun h => h.elim, horder, fun h => h.elim⟩
  | swap hpc hs' =>
    subst hs'
    rw [hpc] at horder
    have horder' : s.executed ++ s.m_pending_functors = s.queued := by
      rw [← horder]
      simp [LoopPc.rest]
    -- the pass is all that was queued so far, so its length is fixed here
    refine ⟨fun _ => h.calling (Or.inr hpc), fun _ hne => absurd rfl hne, ?_, fun _ => ?_⟩
    · simp only [LoopPc.rest, List.append_nil]
      exact horder'
    · simp only [LoopPc.rest]
      rw [← horder', List.length_append]
  | functor hpc hs' =>
    subst hs'
    have hcall := h.calling
    have hwake := h.wake
    have hpass := h.pass
    rw [hpc] at horder hcall hwake hpass
    refine ⟨fun _ => hcall (Or.inl trivial), fun _ hne => ?_, ?_, fun _ => ?_⟩
    · exact (hwake trivial hne).moved (by rw [hpc]; simp) rfl rfl
    · rw [← horder]
      simp [LoopPc.rest]
    · have := hpass trivial
      simp only [LoopPc.rest, List.length_append, List.length_cons, List.length_nil] at this ⊢
      omega
  | return_ hpc hs' =>
    subst hs'
    refine h.user hpc rfl (.inr (.inl rfl)) (.inl rfl) rfl (fun _ hne hcovered => ?_) horder rfl rfl
    exact (hcovered hne).moved (by rw [hpc]; simp) rfl rfl
  | @loopPush f agenda hpc hs' =>
    subst hs'
    -- in a pass the flag is set, so `wakeup()` follows
    refine h.user hpc rfl (.inr (.inl rfl)) (.inr (.inr rfl)) rfl
      (fun hflag _ _ => .inr (.inr ⟨⟨agenda, rfl⟩, hflag⟩)) ?_ rfl rfl
    simp only [pushBack, ← horder, List.append_assoc]
  | loopWake hpc hs' =>
    subst hs'
    refine h.user hpc rfl (.inr (.inr rfl)) (.inr (.inl rfl)) rfl (fun hflag _ _ => .inl ?_) horder rfl rfl
    simp only [hflag, if_true]
    omega
  | loopQuit hpc hs' =>
    subst hs'
    exact ⟨h.calling, h.wake, horder, h.pass⟩
  | @push thread f hidle hs' =>
    subst hs'
    refine ⟨h.calling, fun _ _ => .inr (.inl ⟨thread, Function.update_self _ _ _⟩), ?_, h.pass⟩
    simp only [pushBack, ← horder, List.append_assoc]
  | wakeup hbusy hs' =>
    subst hs'
    exact ⟨h.calling, fun _ _ => .inl (Nat.succ_pos _), horder, h.pass⟩
  | @quit thread hidle hs' =>
    subst hs'
    refine ⟨h.calling, fun hd hne => ?_, horder, h.pass⟩
    rcases h.wake hd hne with hw | ⟨t, ht⟩ | hw
    · exact .inl hw
    · refine .inr (.inl ⟨t, ?_⟩)
      -- a thread that quits is not one with a wakeup to come
      have hne : t ≠ thread := by
        rintro rfl
        rw [hidle] at ht
        cases ht
      exact (Function.update_of_ne hne _ _).trans ht
    · exact .inr (.inr hw)

/-! ## Whole runs -/

/-- **No lost wakeup.** In every state of every run in which the loop thread is in
`epoll_wait` with a functor pending, the eventfd is readable, or another thread is between
its `push_back` and its `wakeup()`. -/
theorem no_lost_wakeup (steps : List (LoopStep F)) {s : EventLoop F}
    (hrun : run EventLoop.step start steps = some s) (hpoll : s.pc = .poll)
    (hpending : s.m_pending_functors ≠ []) : 0 < s.counter ∨ ∃ t, s.threads t = .pushed := by
  have h := run_inv (fun _ _ _ hI hs => step_loopOk hI hs) start_loopOk hrun
  rcases h.wake (by rw [hpoll]; trivial) hpending with hw | hw | ⟨⟨agenda, hw⟩, -⟩
  · exact Or.inl hw
  · exact Or.inr hw
  · rw [hpoll] at hw
    cases hw

/-- A functor is pushed while the loop sleeps; its thread is still to wake the loop. -/
theorem no_lost_wakeup_pushed :
    ∃ s : EventLoop ℕ, run EventLoop.step start [.loop, .loop, .push 1 7] = some s ∧ s.pc = .poll ∧
      s.m_pending_functors = [⟨some 1, 7⟩] ∧ (0 < s.counter ∨ ∃ t, s.threads t = .pushed) :=
  ⟨_, rfl, rfl, rfl, no_lost_wakeup [.loop, .loop, .push 1 7] rfl rfl (by decide)⟩

/-- **Functors run exactly once, in order.** In every state of every run: the functors
executed so far, the rest of the swapped-out vector and the pending ones are all functors in
the order their `push_back` took the mutex; each thread's functors are executed in the order
it queued them; and what a pass has executed had been queued before its swap. -/
theorem functors_in_order (steps : List (LoopStep F)) {s : EventLoop F}
    (hrun : run EventLoop.step start steps = some s) :
    s.executed ++ s.pc.rest ++ s.m_pending_functors = s.queued ∧
      (∀ t, s.executed.filter (·.thread = t) <+: s.queued.filter (·.thread = t)) ∧
      (s.pc.InPass → s.executed <+: s.queued.take s.swapped) := by
  have h := run_inv (fun _ _ _ hI hs => step_loopOk hI hs) start_loopOk hrun
  have hpre : s.executed <+: s.queued :=
    ⟨s.pc.rest ++ s.m_pending_functors, by rw [← List.append_assoc]; exact h.order⟩
  refine ⟨h.order, fun t => hpre.filter _, fun hp => ?_⟩
  have hlen : s.executed.length ≤ s.swapped := by
    have := h.pass hp
    omega
  rw [List.prefix_iff_eq_take] at hpre
  rw [hpre]
  exact List.take_prefix_take_left hlen

/-- A functor of another thread queues a functor while it runs. -/
def nestedSteps : List (LoopStep ℕ) :=
  [.push 1 7, .loop, .loop, .wakeup 1, .poll [.wakeup], .loop, .loop, .loop, .loop, .loopPush 8,
    .loopWake]

theorem functors_in_order_nested :
    ∃ s : EventLoop ℕ, run EventLoop.step start nestedSteps = some s ∧ s.executed = [⟨some 1, 7⟩] ∧
      s.m_pending_functors = [⟨none, 8⟩] ∧ s.executed <+: s.queued.take s.swapped :=
  ⟨_, rfl, rfl, rfl, (functors_in_order nestedSteps rfl).2.2 trivial⟩

end EventLoop

end MyMuduo
