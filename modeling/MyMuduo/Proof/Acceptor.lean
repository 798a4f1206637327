import MyMuduo.Spec.Acceptor

/-!
# The accept queue

The listening descriptor is edge-triggered, and `handleConnect` accepts one connection. The
connections that completed since the last report share one report: all but the first stay in
the backlog until a further client connects.

* `step_waited`: from a state where every connection in the backlog has a report coming, a
  step keeps it so **exactly if** a `handleConnect` leaves nothing behind, or a new report is
  due already.
* `accept_queue_iff`: so in every run all connections have a report coming at all times
  exactly if all its `handleConnect` calls are of this kind, and then the backlog is empty
  whenever the loop waits without a report due.
-/

namespace MyMuduo

open Lib

namespace Acceptor

variable {s s' : Acceptor}

/-- A report has been delivered, and its `handleConnect` is still to come. -/
def reported (s : Acceptor) : Prop := ∃ rest, s.pc = .handlers rest ∧ AcceptChannel.listening ∈ rest

/-- **No connection is stranded**: one in the backlog has a report due, or one delivered to
the loop, or the descriptor is about to be registered. -/
def NoneStranded (s : Acceptor) : Prop :=
  s.backlog ≠ [] → s.edge = true ∨ s.reported ∨ s.pc = .listen

/-- What holds between the steps, beside `NoneStranded`. -/
structure AcceptOk (s : Acceptor) : Prop where
  fresh : s.pc = .constructed ∨ s.pc = .listen → s.interest = none ∧ s.edge = false ∧
    s.m_accept_channel.m_index = .kNew ∧ s.m_accept_channel.m_events &&& EPOLLET ≠ 0
  unheard : s.pc = .constructed → s.backlog = []
  /-- the descriptor is registered with the events of the acceptor -/
  registered : s.pc ≠ .constructed → s.pc ≠ .listen →
    ∃ events, s.interest = some events ∧ events &&& EPOLLET ≠ 0
  once : ∀ rest, s.pc = .handlers rest → rest.count .listening ≤ 1

theorem ok_constructed {self fd : ℕ} {ep : Epoller} (h : ep.interest fd = none) :
    (new self fd ep).AcceptOk where
  fresh _ := ⟨by simp [interest, new, Channel.new, h], rfl, rfl, (show (EPOLLIN ||| EPOLLET) &&& EPOLLET ≠ 0 by decide)⟩
  unheard _ := rfl
  registered hpc := absurd rfl hpc
  once _ hpc := by cases hpc

/-- At the wait a connection without a report coming is one without a report due. -/
theorem NoneStranded.at_poll (h : s.NoneStranded) (hpc : s.pc = .poll) (hedge : s.edge = false) :
    s.backlog = [] := by
  by_contra hne
  rcases h hne with h | ⟨rest, h, -⟩ | h
  · exact absurd (hedge.symm.trans h) (by simp)
  · exact absurd (hpc.symm.trans h) (by simp)
  · exact absurd (hpc.symm.trans h) (by simp)

end Acceptor

/-- The active channel whose handler comes next. -/
def Acceptor.next (s : Acceptor) : Option AcceptChannel :=
  match s.pc with
  | .handlers (channel :: _) => some channel
  | _ => none

/-- How many connections one `handleConnect` takes from the backlog. -/
def takes (errno : Option ℕ) : ℕ :=
  match errno with
  | none => 1
  | some e => if e = EMFILE then 1 else 0

/-- The condition on a step, from the state before it: a `handleConnect` finds no more
connections than it takes, or a new report is due already. -/
def AcceptStep.Takes (s : Acceptor) : AcceptStep → Prop
  | .handler errno => s.next = some .listening → s.backlog.length ≤ takes errno ∨ s.edge = true
  | .listen | .enableReading | .arrive _ | .poll _ | .loop => True

instance (s : Acceptor) : (a : AcceptStep) → Decidable (a.Takes s)
  | .handler _ => inferInstanceAs (Decidable (_ → _))
  | .listen | .enableReading | .arrive _ | .poll _ | .loop => inferInstanceAs (Decidable True)

namespace Acceptor

variable {s s' : Acceptor}

/-- `handleConnect` shortens the backlog, and changes nothing else of the descriptor. -/
theorem handleConnect_backlog (s : Acceptor) (errno : Option ℕ) :
    (s.handleConnect errno).backlog = s.backlog.drop (takes errno) ∧
      (s.handleConnect errno).edge = s.edge ∧ (s.handleConnect errno).pc = s.pc ∧
      (s.handleConnect errno).interest = s.interest := by
  unfold handleConnect takes
  split
  · rename_i h
    simp [h, interest]
  · rename_i h
    simp [h]
  · split
    · rename_i he
      simp [he, interest]
    · rename_i he
      simp [he]

/-- The registration of the listening channel. -/
theorem enableReading_ok (h : s.AcceptOk) (hpc : s.pc = .listen)
    (hs : s.enableReading.toOption = some s') : s'.AcceptOk ∧ s'.NoneStranded := by
  obtain ⟨hint, -, hindex, hevents⟩ := h.fresh (Or.inr hpc)
  have hnone : s.m_epoller.interest s.m_accept_channel.m_fd = none := by
    simpa [interest] using hint
  -- reading is added to the events the constructor has set
  have hkeep : (s.m_accept_channel.m_events ||| kReadEvent) &&& EPOLLET ≠ 0 := by
    intro hzero
    apply hevents
    rw [BitVec.and_or_distrib_right] at hzero
    exact (BitVec.or_eq_zero_iff.1 hzero).1
  simp only [enableReading, Epoller.updateChannel, hindex, Epoller.update, hnone] at hs
  cases hs
  refine ⟨⟨fun h => ?_, fun h => (by cases h), fun _ _ => ?_, fun _ h => (by cases h)⟩, fun hne => ?_⟩
  · rcases h with h | h <;> cases h
  · exact ⟨_, by simp [interest], hkeep⟩
  · exact Or.inl (by simpa using hne)

/-- `handleConnect` on the report of a registered descriptor: what it leaves in the backlog
has a report coming exactly if one is due already. -/
theorem handler_ok (h : s.AcceptOk) (errno : Option ℕ) {rest : List AcceptChannel}
    (hpc : s.pc = .handlers (.listening :: rest)) :
    let s' : Acceptor := { s.handleConnect errno with pc := .handlers rest }
    s'.AcceptOk ∧ (s.backlog.length ≤ takes errno ∨ s.edge = true ↔ s'.NoneStranded) := by
  obtain ⟨hback, hedge, -, hint⟩ := handleConnect_backlog s errno
  have hcount := h.once _ hpc
  rw [List.count_cons_self] at hcount
  -- the report was the only one
  have hnot : AcceptChannel.listening ∉ rest := List.count_eq_zero.1 (by omega)
  obtain ⟨events, hev, hev'⟩ := h.registered (by rw [hpc]; simp) (by rw [hpc]; simp)
  refine ⟨⟨fun h => ?_, fun h => (by cases h), fun _ _ => ⟨events, hint.trans hev, hev'⟩,
    fun rest' h => ?_⟩, ?_⟩
  · rcases h with h | h <;> cases h
  · cases h
    omega
  · have hnil : s.backlog.drop (takes errno) = [] ↔ s.backlog.length ≤ takes errno :=
      List.drop_eq_nil_iff
    constructor
    · rintro (hle | he) hne
      · exact absurd (hback.trans (hnil.2 hle)) hne
      · exact Or.inl (hedge.trans he)
    · intro hs
      by_cases hle : s.backlog.length ≤ takes errno
      · exact Or.inl hle
      · have hne : (s.handleConnect errno).backlog ≠ [] := fun h0 => hle (hnil.1 (hback.symm.trans h0))
        rcases hs hne with he | ⟨rest', h, hin⟩ | h
        · exact Or.inr (hedge.symm.trans he)
        · cases h
          exact absurd hin hnot
        · cases h

/-- **One step.** -/
theorem step_waited (h : s.AcceptOk) (hw : s.NoneStranded) {a : AcceptStep}
    (hs : s.step a = some s') : s'.AcceptOk ∧ (a.Takes s ↔ s'.NoneStranded) := by
  cases a with
  | listen =>
    simp only [step, Option.ite_none_right_eq_some, Option.some.injEq] at hs
    obtain ⟨hpc, rfl⟩ := hs
    refine ⟨⟨fun _ => h.fresh (Or.inl hpc), fun h => (by cases h), fun _ hn => absurd rfl hn,
      fun _ h => (by cases h)⟩, iff_of_true trivial fun _ => Or.inr (Or.inr rfl)⟩
  | enableReading =>
    simp only [step, Option.ite_none_right_eq_some] at hs
    obtain ⟨hok, hnone⟩ := enableReading_ok h hs.1 hs.2
    exact ⟨hok, iff_of_true trivial hnone⟩
  | arrive client =>
    simp only [step, Option.ite_none_left_eq_some, Option.some.injEq] at hs
    obtain ⟨hpc, rfl⟩ := hs
    refine ⟨⟨fun hf => ?_, fun hc => absurd hc hpc, h.registered, h.once⟩,
      iff_of_true trivial fun _ => ?_⟩
    · obtain ⟨h1, h2, h3⟩ := h.fresh hf
      exact ⟨h1, by simp [h1, h2], h3⟩
    · -- a registered descriptor has a report due; else it is registered next
      by_cases hl : s.pc = .listen
      · exact Or.inr (Or.inr hl)
      · obtain ⟨events, hev, -⟩ := h.registered hpc hl
        exact Or.inl (by simp [hev])
  | poll active =>
    simp only [step, Option.ite_none_right_eq_some, Option.some.injEq] at hs
    obtain ⟨⟨hpc, hcount, hrep⟩, rfl⟩ := hs
    refine ⟨⟨fun hf => ?_, fun h => (by cases h), fun _ _ => ?_, fun rest hr => ?_⟩,
      iff_of_true trivial fun hne => ?_⟩
    · rcases hf with h | h <;> cases h
    · exact h.registered (by rw [hpc]; simp) (by rw [hpc]; simp)
    · cases hr
      exact hcount
    · -- the report is due still, or delivered
      by_cases hin : AcceptChannel.listening ∈ active
      · exact Or.inr (Or.inl ⟨active, rfl, hin⟩)
      · left
        have hedge : s.edge = true := by
          by_contra he
          exact hne (hw.at_poll hpc (by simpa using he))
        simp [hedge, hin]
  | handler errno =>
    simp only [step] at hs
    split at hs
    · rename_i rest hpc
      cases hs
      obtain ⟨hok, hiff⟩ := handler_ok h errno hpc
      refine ⟨hok, Iff.trans ?_ hiff⟩
      simp only [AcceptStep.Takes, next, hpc, forall_const]
    · rename_i rest hpc
      cases hs
      have hcount := h.once _ hpc
      refine ⟨⟨fun hf => ?_, fun h => (by cases h), fun _ _ => ?_, fun rest' hr => ?_⟩,
        iff_of_true ?_ fun hne => ?_⟩
      · rcases hf with h | h <;> cases h
      · exact h.registered (by rw [hpc]; simp) (by rw [hpc]; simp)
      · cases hr
        rwa [List.count_cons_of_ne (by simp)] at hcount
      · simp [AcceptStep.Takes, next, hpc]
      · rcases hw hne with he | ⟨rest', hr, hin⟩ | hl
        · exact Or.inl he
        · rw [hpc] at hr
          cases hr
          exact Or.inr (Or.inl ⟨rest, rfl, (List.mem_cons.1 hin).resolve_left (by simp)⟩)
        · exact absurd (hpc.symm.trans hl) (by simp)
    · cases hs
  | loop =>
    -- no handler of the listening channel is left
    have hkeep : ∀ pc, s.pc ≠ .constructed → s.pc ≠ .listen → ¬s.reported →
        pc ≠ .constructed → pc ≠ .listen → (∀ rest, pc ≠ .handlers rest) →
        s' = { s with pc := pc } →
        s'.AcceptOk ∧ (AcceptStep.loop.Takes s ↔ s'.NoneStranded) := by
      rintro pc h1 h2 h3 h4 h5 h6 rfl
      refine ⟨⟨fun hf => absurd hf (not_or.2 ⟨h4, h5⟩), fun hf => absurd hf h4,
        fun _ _ => h.registered h1 h2, fun rest hf => absurd hf (h6 rest)⟩,
        iff_of_true trivial fun hne => ?_⟩
      rcases hw hne with he | hr | hl
      · exact Or.inl he
      · exact absurd hr h3
      · exact absurd hl h2
    simp only [step] at hs
    split at hs
    · rename_i hpc
      cases hs
      refine hkeep .functors (by rw [hpc]; simp) (by rw [hpc]; simp) ?_ (by simp) (by simp) (by simp) rfl
      rintro ⟨rest, hr, hin⟩
      rw [hpc] at hr
      cases hr
      cases hin
    · rename_i hpc
      cases hs
      refine hkeep .poll (by rw [hpc]; simp) (by rw [hpc]; simp) ?_ (by simp) (by simp) (by simp) rfl
      rintro ⟨rest, hr, -⟩
      exact absurd (hpc.symm.trans hr) (by simp)
    · cases hs

/-- **No connection is stranded in the accept queue, exactly if no `handleConnect` leaves one
behind without a new report due.** For every run of the loop and of the clients; and then the
backlog is empty whenever the loop waits and no report is due. -/
theorem accept_queue_iff (self fd : ℕ) (ep : Epoller) (hfd : ep.interest fd = none)
    (steps : List AcceptStep) {s : Acceptor} (hrun : run Acceptor.step (new self fd ep) steps = some s) :
    ((∀ n s', run Acceptor.step (new self fd ep) (steps.take n) = some s' → s'.NoneStranded) ↔
        Along Acceptor.step (fun s a => a.Takes s) (new self fd ep) steps) ∧
      (Along Acceptor.step (fun s a => a.Takes s) (new self fd ep) steps →
        ∀ n s', run Acceptor.step (new self fd ep) (steps.take n) = some s' → s'.pc = .poll →
          s'.edge = false → s'.backlog = []) := by
  have hiff := forall_run_iff_along (I := fun s => s.AcceptOk ∧ s.NoneStranded) (P := NoneStranded)
    (C := fun s a => a.Takes s) (fun _ h => h.2)
    (fun s a s' h hs => by
      obtain ⟨hok, hw⟩ := step_waited h.1 h.2 hs
      exact ⟨hw, fun hC => ⟨hok, hw.1 hC⟩⟩)
    steps (s := new self fd ep) ⟨ok_constructed hfd, fun hne => absurd rfl hne⟩ hrun
  exact ⟨hiff, fun hC n s' hn => (hiff.2 hC n s' hn).at_poll⟩

/-- Two clients, each with a report of its own. -/
def spacedClients : List AcceptStep :=
  [.listen, .arrive 1, .enableReading, .loop, .poll [.other, .listening], .handler none, .handler none,
    .arrive 2, .loop, .loop, .poll [.listening], .handler none, .loop, .loop]

theorem accept_queue_iff_spaced :
    ∃ s, run Acceptor.step (new 0 5 Epoller.new) spacedClients = some s ∧ s.pc = .poll ∧
      s.accepted = [1, 2] ∧ s.backlog = [] := by
  refine ⟨_, rfl, rfl, rfl, ?_⟩
  exact (accept_queue_iff 0 5 Epoller.new rfl spacedClients rfl).2 (by decide) 14 _ rfl rfl rfl

/-- Two clients connect before the report: the second stays in the backlog. -/
theorem accept_queue_iff_burst :
    ∃ s, run Acceptor.step (new 0 5 Epoller.new)
        [.listen, .enableReading, .loop, .arrive 1, .arrive 2, .poll [.listening], .handler none,
          .loop, .loop] = some s ∧
      s.pc = .poll ∧ s.edge = false ∧ s.reportable = false ∧ s.backlog = [2] :=
  ⟨_, rfl, rfl, rfl, rfl, rfl⟩

end Acceptor

end MyMuduo
