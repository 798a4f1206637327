import MyMuduo.Spec.AcceptorFds
import MyMuduo.Proof.Epoller

/-!
# The acceptor's descriptors

* `acceptor_descriptors`: whatever the other threads open and close in between, the acceptor holds
  exactly the descriptors it should: none is leaked, and it closes none that is not its own. Every client
  was served or turned away or waits, in the order in which they came.
* `acceptor_refines`: call by call, the acceptor does what `Acceptor` does at once.
* `acceptor_reserve`: as long as no other thread opens a descriptor while `m_idle_fd` is given up, the
  acceptor comes out of every `EMFILE` with its reserve, and with one client less that waits.
-/

namespace MyMuduo

open Lib

namespace AcceptorFds

variable {s s' : AcceptorFds}

/-! ## What the acceptor holds -/

/-- What `m_idle_fd` stands for, unless it is stale. -/
def idleObject (s : AcceptorFds) : Option FdObject :=
  match s.pc with
  | .outside | .outOfFds => some .devNull
  | .accepted => s.taken.getLast?.map fun t => .turnedAway t.1
  | .idleClosed | .turnedAway | .destroyed => none

/-- The descriptor that the acceptor holds under a number. -/
def owned (s : AcceptorFds) (fd : ℕ) : Option FdObject :=
  if s.pc = .destroyed then none
  else if fd = s.m_listen_fd then some .listening
  else if s.m_idle_fd = some fd then s.idleObject
  else none

/-- What the acceptor holds in a table. -/
def holding (fds : Descriptors FdObject) (fd : ℕ) : Option FdObject :=
  (fds.get fd).filter FdObject.ofAcceptor

/-- What holds between the steps. -/
structure FdsOk (s : AcceptorFds) : Prop where
  owns : ∀ fd, holding s.fds fd = s.owned fd
  apart : s.m_idle_fd ≠ some s.m_listen_fd
  busy : s.pc ≠ .outside → s.pc ≠ .destroyed → s.connects = true
  /-- the connection under `m_idle_fd` is that of the client taken last -/
  last : s.pc = .accepted → s.m_idle_fd ≠ none → s.taken ≠ []
  all : s.taken.map Prod.fst ++ s.acceptor.backlog = s.arrived
  served : (s.taken.filter Prod.snd).map Prod.fst = s.acceptor.accepted

theorem holding_close (fds : Descriptors FdObject) (n fd : ℕ) :
    holding (fds.close n) fd = if fd = n then none else holding fds fd := by
  rw [holding, Descriptors.get_close]
  split
  · rfl
  · rfl

theorem holding_alloc {fds fds' : Descriptors FdObject} {o : FdObject} {n : ℕ}
    (h : fds.alloc o = some (n, fds')) (fd : ℕ) :
    holding fds' fd = if fd = n then (some o).filter FdObject.ofAcceptor else holding fds fd := by
  rw [holding, Descriptors.get_alloc h]
  split
  · rfl
  · rfl

theorem holding_free {fds fds' : Descriptors FdObject} {o : FdObject} {n : ℕ}
    (h : fds.alloc o = some (n, fds')) : holding fds n = none := by
  rw [holding, (Descriptors.free_of_alloc h).2, Option.filter_none]

theorem get_of_holding {fds : Descriptors FdObject} {fd : ℕ} {o : FdObject}
    (h : holding fds fd = some o) : fds.get fd = some o := (Option.filter_eq_some_iff.1 h).1

/-- A new number is not that of the listening descriptor. -/
theorem FdsOk.ne_listen (h : s.FdsOk) (hpc : s.pc ≠ .destroyed) {fds : Descriptors FdObject}
    {o : FdObject} {n : ℕ} (ha : s.fds.alloc o = some (n, fds)) : n ≠ s.m_listen_fd := by
  rintro rfl
  have hfree := h.owns s.m_listen_fd
  rw [holding_free ha, owned, if_neg hpc, if_pos rfl] at hfree
  cases hfree

/-- With `m_idle_fd` stale or -1 only the listening descriptor is left. -/
theorem owned_listen (hpc : s.pc ≠ .destroyed) (h : s.idleObject = none ∨ s.m_idle_fd = none) (fd : ℕ) :
    s.owned fd = if fd = s.m_listen_fd then some .listening else none := by
  rw [owned, if_neg hpc]
  rcases h with h | h
  · rw [h, ite_self]
  · rw [h, if_neg (show (none : Option ℕ) ≠ some fd by simp)]

theorem FdsOk.listen (h : s.FdsOk) (hpc : s.pc ≠ .destroyed) (hidle : s.idleObject = none ∨ s.m_idle_fd = none)
    (fd : ℕ) : holding s.fds fd = if fd = s.m_listen_fd then some .listening else none :=
  (h.owns fd).trans (owned_listen hpc hidle fd)

/-- A new descriptor of the acceptor, beside the listening one. -/
theorem owns_alloc (hlisten : ∀ n, holding s.fds n = if n = s.m_listen_fd then some .listening else none)
    {o : FdObject} (ho : o.ofAcceptor = true) {fd : ℕ} (halloc : s.fds.alloc o = some (fd, s'.fds))
    (hpc : s'.pc ≠ .destroyed) (hfd : s'.m_listen_fd = s.m_listen_fd) (hidle : s'.m_idle_fd = some fd)
    (hobj : s'.idleObject = some o) (n : ℕ) : holding s'.fds n = s'.owned n := by
  have hne : fd ≠ s.m_listen_fd := by
    intro heq
    have hfree := hlisten fd
    rw [holding_free halloc, if_pos heq] at hfree
    cases hfree
  rw [holding_alloc halloc, hlisten, owned, if_neg hpc, hfd, hidle, hobj]
  by_cases hn : n = fd
  · rw [if_pos hn, hn, if_neg hne, if_pos rfl, Option.filter_some, if_pos ho]
  · have hn' : (some fd : Option ℕ) ≠ some n := fun heq => hn (Option.some.inj heq).symm
    rw [if_neg hn, if_neg hn']

/-! ## The steps -/

/-- The acceptor as its loop sees it. -/
@[simp] theorem handled_keeps (a : Acceptor) : a.handled.backlog = a.backlog ∧
    a.handled.accepted = a.accepted ∧ a.handled.m_accept_channel = a.m_accept_channel := by
  unfold Acceptor.handled
  split
  · exact ⟨rfl, rfl, rfl⟩
  · exact ⟨rfl, rfl, rfl⟩

/-- `handleConnect` returns from a state with no other descriptor than those between its calls. -/
theorem FdsOk.returns (h : s.FdsOk) (hpc : s.pc = .outside ∨ s.pc = .outOfFds) : s.returns.FdsOk := by
  obtain ⟨hback, hacc, hchan⟩ := handled_keeps s.acceptor
  have hlisten : s.returns.m_listen_fd = s.m_listen_fd := congrArg Channel.m_fd hchan
  refine ⟨fun fd => ?_, by rw [hlisten]; exact h.apart, fun hne => absurd rfl hne, fun hp => (by cases hp), ?_, ?_⟩
  · refine (h.owns fd).trans ?_
    rw [owned, owned, hlisten]
    rcases hpc with hpc | hpc
    · simp only [idleObject, hpc]; rfl
    · simp only [idleObject, hpc]; rfl
  · exact (congrArg _ hback).trans h.all
  · exact h.served.trans hacc.symm

/-- A state that differs in nothing but the place in `handleConnect`. -/
theorem FdsOk.outOfFds (h : s.FdsOk) (hpc : s.pc = .outside) (hc : s.connects = true) :
    FdsOk { s with pc := .outOfFds } := by
  refine ⟨fun fd => ?_, h.apart, fun _ _ => hc, fun hp => (by cases hp), h.all, h.served⟩
  refine (h.owns fd).trans ?_
  simp only [owned, idleObject, hpc]
  rfl

/-- What `accept4` does. -/
theorem accept4_cases (s : AcceptorFds) (errno : Option ℕ) :
    (s.accept4 errno = s.returns ∧ (errno ≠ none ∨ s.acceptor.backlog = [])) ∨
    (s.accept4 errno = { s with pc := .outOfFds } ∧ ¬ s.fds.Room) ∨
    ∃ client rest fd fds, s.acceptor.backlog = client :: rest ∧
      s.fds.alloc (.connection client) = some (fd, fds) ∧ errno = none ∧
      s.accept4 errno =
        { s with
          acceptor := { s.acceptor with backlog := rest, accepted := s.acceptor.accepted ++ [client] }
          fds := fds
          taken := s.taken ++ [(client, true)] }.returns := by
  unfold accept4
  split
  · exact Or.inl ⟨rfl, Or.inl (by simp)⟩
  · split
    · rename_i hback
      split
      · exact Or.inl ⟨rfl, Or.inr hback⟩
      · rename_i hroom
        exact Or.inr (Or.inl ⟨rfl, fun h => hroom (Descriptors.alloc_iff_room.2 h)⟩)
    · rename_i client rest hback
      split
      · rename_i hnone
        refine Or.inr (Or.inl ⟨rfl, fun h => ?_⟩)
        have hsome := (Descriptors.alloc_iff_room (a := FdObject.connection client)).2 h
        rw [hnone] at hsome
        cases hsome
      · rename_i fd fds halloc
        exact Or.inr (Or.inr ⟨client, rest, fd, fds, hback, halloc, rfl, rfl⟩)

theorem FdsOk.accept4 (h : s.FdsOk) (hpc : s.pc = .outside) (hc : s.connects = true)
    (errno : Option ℕ) : (s.accept4 errno).FdsOk := by
  obtain ⟨heq, -⟩ | ⟨heq, -⟩ | ⟨client, rest, fd, fds, hback, halloc, -, heq⟩ := accept4_cases s errno
  · rw [heq]; exact h.returns (Or.inl hpc)
  · rw [heq]; exact h.outOfFds hpc hc
  · rw [heq]
    have howned : ∀ n, (if n = fd then none else holding s.fds n) = s.owned n := by
      intro n
      split
      · rename_i hn
        rw [hn]
        exact (holding_free halloc).symm.trans (h.owns fd)
      · exact h.owns n
    refine FdsOk.returns ⟨fun n => ?_, h.apart, fun hne => absurd hpc hne, fun hp => ?_, ?_, ?_⟩ (Or.inl hpc)
    · -- the connection is not the acceptor's, and its number was free
      refine (holding_alloc halloc n).trans ((howned n).trans ?_)
      simp only [owned, idleObject, hpc]
      rfl
    · rw [hpc] at hp; cases hp
    · have hall := h.all
      rw [hback] at hall
      simpa using hall
    · have hserved := h.served
      simp [hserved]

/-- `close(m_idle_fd)` leaves the listening descriptor only. -/
theorem FdsOk.closeIdle (h : s.FdsOk) (hpc : s.pc ≠ .outside) (hpc' : s.pc ≠ .destroyed) {pc : ConnectPc}
    (hto : pc = .idleClosed ∨ pc = .turnedAway) : (s.closeIdle pc).FdsOk := by
  have hstale : (s.closeIdle pc).idleObject = none := by
    rcases hto with rfl | rfl
    · rfl
    · rfl
  have hlive : (s.closeIdle pc).pc ≠ .destroyed := by
    rcases hto with rfl | rfl
    · simp [AcceptorFds.closeIdle]
    · simp [AcceptorFds.closeIdle]
  refine ⟨fun fd => ?_, h.apart, fun _ _ => h.busy hpc hpc', fun hp => ?_, h.all, h.served⟩
  · rw [owned_listen hlive (Or.inl hstale)]
    have hown := h.owns fd
    rw [owned, if_neg hpc'] at hown
    simp only [AcceptorFds.closeIdle, closeFd, m_listen_fd]
    split
    · rename_i n hidle
      have hne : n ≠ s.m_listen_fd := fun heq => h.apart (by rw [hidle, heq])
      rw [holding_close]
      by_cases hn : fd = n
      · rw [if_pos hn]
        exact (if_neg (by rw [hn]; exact hne)).symm
      · have hn' : s.m_idle_fd ≠ some fd := by
          rw [hidle]
          exact fun heq => hn (Option.some.inj heq).symm
        rw [if_neg hn, hown, if_neg hn']
        rfl
    · rename_i hidle
      rw [hown, hidle, if_neg (show (none : Option ℕ) ≠ some fd by simp)]
      rfl
  · rcases hto with rfl | rfl
    · cases hp
    · cases hp

/-- What the `accept` for the reserve does. -/
theorem accept_cases (s : AcceptorFds) (errno : Option ℕ) :
    (s.accept errno = { s with m_idle_fd := none, pc := .accepted } ∧
      (errno ≠ none ∨ s.acceptor.backlog = [] ∨ ¬ s.fds.Room)) ∨
    ∃ client rest fd fds, s.acceptor.backlog = client :: rest ∧
      s.fds.alloc (.turnedAway client) = some (fd, fds) ∧ errno = none ∧
      s.accept errno =
        { s with
          acceptor := { s.acceptor with backlog := rest }
          fds := fds
          m_idle_fd := some fd
          pc := .accepted
          taken := s.taken ++ [(client, false)] } := by
  cases errno with
  | some e => exact Or.inl ⟨rfl, Or.inl (by simp)⟩
  | none =>
    cases hback : s.acceptor.backlog with
    | nil => exact Or.inl ⟨by simp only [accept, hback], Or.inr (Or.inl rfl)⟩
    | cons client rest =>
      simp only [accept, hback]
      split
      · rename_i hnone
        refine Or.inl ⟨rfl, Or.inr (Or.inr fun h => ?_)⟩
        have hsome := (Descriptors.alloc_iff_room (a := FdObject.turnedAway client)).2 h
        rw [hnone] at hsome
        cases hsome
      · rename_i fd fds halloc
        exact Or.inr ⟨client, rest, fd, fds, rfl, halloc, trivial, rfl⟩

theorem FdsOk.accept (h : s.FdsOk) (hpc : s.pc = .idleClosed) (errno : Option ℕ) :
    (s.accept errno).FdsOk := by
  have hpc₁ : s.pc ≠ .outside := by rw [hpc]; simp
  have hpc₂ : s.pc ≠ .destroyed := by rw [hpc]; simp
  have hlisten := h.listen hpc₂ (Or.inl (by simp only [idleObject, hpc]))
  obtain ⟨heq, -⟩ | ⟨client, rest, fd, fds, hback, halloc, -, heq⟩ := accept_cases s errno
  · rw [heq]
    refine ⟨fun n => ?_, by simp, fun _ _ => h.busy hpc₁ hpc₂, fun _ hne => absurd rfl hne, h.all, h.served⟩
    rw [owned_listen (by simp) (Or.inr rfl)]
    exact hlisten n
  · rw [heq]
    have hne := h.ne_listen hpc₂ halloc
    refine ⟨owns_alloc hlisten rfl halloc (by simp) rfl rfl (by simp [idleObject]),
      fun heq => hne (Option.some.inj heq), fun _ _ => h.busy hpc₁ hpc₂, fun _ _ => by simp, ?_, ?_⟩
    · have hall := h.all
      rw [hback] at hall
      simpa using hall
    · have hserved := h.served
      simpa using hserved

theorem FdsOk.openIdle (h : s.FdsOk) (hpc : s.pc = .turnedAway) (errno : Option ℕ) :
    (s.openIdle errno).FdsOk := by
  have hpc₂ : s.pc ≠ .destroyed := by rw [hpc]; simp
  have hlisten := h.listen hpc₂ (Or.inl (by simp only [idleObject, hpc]))
  obtain ⟨hback, hacc, hchan⟩ := handled_keeps s.acceptor
  have hfd : s.acceptor.handled.m_accept_channel.m_fd = s.m_listen_fd := congrArg Channel.m_fd hchan
  have hall := (congrArg (s.taken.map Prod.fst ++ ·) hback).trans h.all
  have hserved := h.served.trans hacc.symm
  unfold AcceptorFds.openIdle
  split
  · rename_i fd fds halloc
    have hne := h.ne_listen hpc₂ halloc
    exact ⟨owns_alloc hlisten rfl halloc (by simp [AcceptorFds.returns]) hfd rfl rfl,
      fun heq => hne ((Option.some.inj heq).trans hfd), fun hp => absurd rfl hp,
      fun hp => (by cases hp), hall, hserved⟩
  · refine ⟨fun n => ?_, by simp [AcceptorFds.returns], fun hp => absurd rfl hp,
      fun hp => (by cases hp), hall, hserved⟩
    rw [owned_listen (by simp [AcceptorFds.returns]) (Or.inr rfl)]
    refine (hlisten n).trans ?_
    rw [← hfd]
    rfl

/-- The client that connects in a step. -/
def arrival : AcceptStep → List ℕ
  | .arrive client => [client]
  | .listen | .enableReading | .poll _ | .handler _ | .loop => []

theorem arrival_eq_nil {a : AcceptStep} (h : ∀ client, a ≠ .arrive client) : arrival a = [] := by
  cases a with
  | arrive client => exact absurd rfl (h client)
  | listen | enableReading | poll _ | handler _ | loop => rfl

/-- Outside of `handleConnect` only clients change the backlog. -/
theorem acceptor_step_keeps {acc acc' : Acceptor} {a : AcceptStep} (h : acc.step a = some acc')
    (hnot : ∀ errno rest, a = .handler errno → acc.pc ≠ .handlers (.listening :: rest)) :
    acc'.m_accept_channel.m_fd = acc.m_accept_channel.m_fd ∧ acc'.accepted = acc.accepted ∧
      acc'.backlog = acc.backlog ++ arrival a := by
  cases a with
  | listen =>
    simp only [Acceptor.step, Option.ite_none_right_eq_some, Option.some.injEq] at h
    obtain ⟨-, rfl⟩ := h
    exact ⟨rfl, rfl, (List.append_nil _).symm⟩
  | enableReading =>
    simp only [Acceptor.step, Option.ite_none_right_eq_some] at h
    obtain ⟨-, h⟩ := h
    unfold Acceptor.enableReading at h
    simp only at h
    split at h
    · rename_i ep channel hup
      cases h
      exact ⟨(updateChannel_ok hup).2, rfl, (List.append_nil _).symm⟩
    · cases h
  | arrive client =>
    simp only [Acceptor.step, Option.ite_none_left_eq_some, Option.some.injEq] at h
    obtain ⟨-, rfl⟩ := h
    exact ⟨rfl, rfl, rfl⟩
  | poll active =>
    simp only [Acceptor.step, Option.ite_none_right_eq_some, Option.some.injEq] at h
    obtain ⟨-, rfl⟩ := h
    exact ⟨rfl, rfl, (List.append_nil _).symm⟩
  | handler errno =>
    simp only [Acceptor.step] at h
    split at h
    · rename_i rest hpc
      exact absurd hpc (hnot errno rest rfl)
    · cases h
      exact ⟨rfl, rfl, (List.append_nil _).symm⟩
    · cases h
  | loop =>
    simp only [Acceptor.step] at h
    split at h
    · cases h
      exact ⟨rfl, rfl, (List.append_nil _).symm⟩
    · cases h
      exact ⟨rfl, rfl, (List.append_nil _).symm⟩
    · cases h

/-- A step of the loop or of a client. -/
theorem FdsOk.round (h : s.FdsOk) {acc : Acceptor} {a : AcceptStep}
    (hfd : acc.m_accept_channel.m_fd = s.m_listen_fd) (hacc : acc.accepted = s.acceptor.accepted)
    (hback : acc.backlog = s.acceptor.backlog ++ arrival a)
    (hpc : s.pc = .outside ∨ acc.pc = s.acceptor.pc) :
    FdsOk { s with acceptor := acc, arrived := s.arrived ++ arrival a } := by
  have hlisten : m_listen_fd { s with acceptor := acc, arrived := s.arrived ++ arrival a } = s.m_listen_fd := hfd
  refine ⟨fun fd => (h.owns fd).trans ?_, ?_, fun h1 h2 => ?_, h.last, ?_, h.served.trans hacc.symm⟩
  · rw [owned, owned, hlisten]
    rfl
  · rw [hlisten]
    exact h.apart
  · rcases hpc with hpc | hpc
    · exact absurd hpc h1
    · have hbusy := h.busy h1 h2
      unfold connects at hbusy ⊢
      rwa [hpc]
  · rw [hback, ← List.append_assoc, h.all]

/-- What a step does: it is one of the loop or of a client, one of `handleConnect` or the destructor, or one
of another thread. -/
inductive FdMove (s s' : AcceptorFds) : FdStep → Prop
  | round (a : AcceptStep) (acc : Acceptor) (hstep : s.acceptor.step a = some acc)
      (hpc : (s.pc = .outside ∧ ∀ errno rest, a = .handler errno → s.acceptor.pc ≠ .handlers (.listening :: rest)) ∨
        ∃ client, a = .arrive client ∧ s.pc ≠ .destroyed)
      (hs : s' = { s with acceptor := acc, arrived := s.arrived ++ arrival a }) : FdMove s s' (.round a)
  | accept4 (errno : Option ℕ) (hpc : s.pc = .outside) (hc : s.connects = true) (he : errno ≠ some EMFILE)
      (hs : s' = s.accept4 errno) : FdMove s s' (.accept4 errno)
  | closeIdle (hpc : s.pc = .outOfFds) (hs : s' = s.closeIdle .idleClosed) : FdMove s s' .closeIdle
  | accept (errno : Option ℕ) (hpc : s.pc = .idleClosed) (hs : s' = s.accept errno) : FdMove s s' (.accept errno)
  | closeAccepted (hpc : s.pc = .accepted) (hs : s' = s.closeIdle .turnedAway) : FdMove s s' .closeAccepted
  | openIdle (errno : Option ℕ) (hpc : s.pc = .turnedAway) (hs : s' = s.openIdle errno) :
      FdMove s s' (.openIdle errno)
  | destroy (hpc : s.pc = .outside)
      (hs : s' = { s with fds := closeFd (s.fds.close s.m_listen_fd) s.m_idle_fd, pc := .destroyed }) :
      FdMove s s' .destroy
  | otherOpens (fd : ℕ) (fds : Descriptors FdObject) (halloc : s.fds.alloc .other = some (fd, fds))
      (hs : s' = { s with fds := fds }) : FdMove s s' .otherOpens
  | otherCloses (fd : ℕ) (o : FdObject) (hget : s.fds.get fd = some o) (ho : o.ofAcceptor = false)
      (hs : s' = { s with fds := s.fds.close fd }) : FdMove s s' (.otherCloses fd)

theorem step_moves {a : FdStep} (h : s.step a = some s') : FdMove s s' a := by
  cases a with
  | round a =>
    have hround : (∀ client, a ≠ .arrive client) → (∀ errno, a ≠ .handler errno) →
        s.pc = .outside ∧ (s.acceptor.step a).map (fun acceptor => { s with acceptor := acceptor }) = some s' →
        FdMove s s' (.round a) := by
      intro ha hh hs
      obtain ⟨hpc, hs⟩ := hs
      obtain ⟨acc, hacc, rfl⟩ := Option.map_eq_some_iff.1 hs
      exact .round a acc hacc (Or.inl ⟨hpc, fun errno _ hae => absurd hae (hh errno)⟩)
        (by rw [arrival_eq_nil ha, List.append_nil])
    cases a with
    | arrive client =>
      simp only [step, Option.ite_none_left_eq_some, Option.map_eq_some_iff] at h
      obtain ⟨hpc, acc, hacc, rfl⟩ := h
      exact .round _ acc hacc (Or.inr ⟨client, rfl, hpc⟩) rfl
    | handler errno =>
      simp only [step, Option.ite_none_right_eq_some, Option.map_eq_some_iff] at h
      obtain ⟨⟨hpc, hc⟩, acc, hacc, rfl⟩ := h
      refine .round _ acc hacc (Or.inl ⟨hpc, fun _ rest _ hl => hc ?_⟩) (by simp [arrival])
      rw [connects, hl]
    | listen => exact hround (by simp) (by simp) (by simpa only [step, Option.ite_none_right_eq_some] using h)
    | enableReading =>
      exact hround (by simp) (by simp) (by simpa only [step, Option.ite_none_right_eq_some] using h)
    | poll active =>
      exact hround (by simp) (by simp) (by simpa only [step, Option.ite_none_right_eq_some] using h)
    | loop => exact hround (by simp) (by simp) (by simpa only [step, Option.ite_none_right_eq_some] using h)
  | accept4 errno =>
    simp only [step, Option.ite_none_right_eq_some, Option.some.injEq] at h
    exact .accept4 errno h.1.1 h.1.2.1 h.1.2.2 h.2.symm
  | closeIdle =>
    simp only [step, Option.ite_none_right_eq_some, Option.some.injEq] at h
    exact .closeIdle h.1 h.2.symm
  | accept errno =>
    simp only [step, Option.ite_none_right_eq_some, Option.some.injEq] at h
    exact .accept errno h.1 h.2.symm
  | closeAccepted =>
    simp only [step, Option.ite_none_right_eq_some, Option.some.injEq] at h
    exact .closeAccepted h.1 h.2.symm
  | openIdle errno =>
    simp only [step, Option.ite_none_right_eq_some, Option.some.injEq] at h
    exact .openIdle errno h.1 h.2.symm
  | destroy =>
    simp only [step, Option.ite_none_right_eq_some, Option.some.injEq] at h
    exact .destroy h.1.1 h.2.symm
  | otherOpens =>
    simp only [step, Option.map_eq_some_iff] at h
    obtain ⟨⟨fd, fds⟩, halloc, rfl⟩ := h
    exact .otherOpens fd fds halloc rfl
  | otherCloses fd =>
    simp only [step] at h
    split at h
    · rename_i hget
      cases h
      exact .otherCloses fd _ hget rfl rfl
    · rename_i hget
      cases h
      exact .otherCloses fd _ hget rfl rfl
    · cases h

/-- A table in which the acceptor holds the same. -/
theorem FdsOk.replace (h : s.FdsOk) {fds : Descriptors FdObject} (hfds : ∀ fd, holding fds fd = holding s.fds fd) :
    FdsOk { s with fds := fds } :=
  ⟨fun fd => (hfds fd).trans (h.owns fd), h.apart, h.busy, h.last, h.all, h.served⟩

theorem FdsOk.destroy (h : s.FdsOk) (hpc : s.pc = .outside) :
    FdsOk { s with fds := closeFd (s.fds.close s.m_listen_fd) s.m_idle_fd, pc := .destroyed } := by
  refine ⟨fun fd => ?_, h.apart, fun _ hd => absurd rfl hd, fun hp => (by cases hp), h.all, h.served⟩
  have hown := h.owns fd
  have hlive : s.pc ≠ .destroyed := by rw [hpc]; simp
  rw [owned, if_neg hlive] at hown
  have hnone : holding (closeFd (s.fds.close s.m_listen_fd) s.m_idle_fd) fd = none := by
    unfold closeFd
    split
    · rename_i n hidle
      rw [holding_close, holding_close]
      by_cases hn : fd = n
      · rw [if_pos hn]
      · have hn' : s.m_idle_fd ≠ some fd := by
          rw [hidle]
          exact fun heq => hn (Option.some.inj heq).symm
        rw [if_neg hn, hown, if_neg hn']
        split
        · rfl
        · rfl
    · rename_i hidle
      rw [holding_close, hown, hidle, if_neg (show (none : Option ℕ) ≠ some fd by simp)]
      split
      · rfl
      · rfl
  exact hnone

/-- **One step.** -/
theorem FdsOk.step (h : s.FdsOk) {a : FdStep} (hstep : s.step a = some s') : s'.FdsOk := by
  cases step_moves hstep with
  | round a acc hacc hpc hs =>
    have hnot : ∀ errno rest, a = .handler errno → s.acceptor.pc ≠ .handlers (.listening :: rest) := by
      intro errno rest ha
      rcases hpc with ⟨-, hpc⟩ | ⟨client, hc, -⟩
      · exact hpc errno rest ha
      · rw [hc] at ha; cases ha
    obtain ⟨hfd, hsame, hback⟩ := acceptor_step_keeps hacc hnot
    rw [hs]
    refine h.round hfd hsame hback (hpc.imp And.left ?_)
    rintro ⟨client, rfl, -⟩
    simp only [Acceptor.step, Option.ite_none_left_eq_some, Option.some.injEq] at hacc
    rw [← hacc.2]
  | accept4 errno hpc hc _ hs => rw [hs]; exact h.accept4 hpc hc errno
  | closeIdle hpc hs => rw [hs]; exact h.closeIdle (by rw [hpc]; simp) (by rw [hpc]; simp) (Or.inl rfl)
  | accept errno hpc hs => rw [hs]; exact h.accept hpc errno
  | closeAccepted hpc hs => rw [hs]; exact h.closeIdle (by rw [hpc]; simp) (by rw [hpc]; simp) (Or.inr rfl)
  | openIdle errno hpc hs => rw [hs]; exact h.openIdle hpc errno
  | destroy hpc hs => rw [hs]; exact h.destroy hpc
  | otherOpens fd fds halloc hs =>
    rw [hs]
    refine h.replace fun n => (holding_alloc halloc n).trans ?_
    split
    · rename_i hn
      rw [hn]
      exact (holding_free halloc).symm
    · rfl
  | otherCloses fd o hget ho hs =>
    rw [hs]
    refine h.replace fun n => (holding_close s.fds fd n).trans ?_
    split
    · rename_i hn
      rw [hn, holding, hget, Option.filter_some, if_neg (by rw [ho]; simp)]
    · rfl

/-- `Acceptor(loop, address)` in a program that holds nothing of it yet. -/
theorem ok_new {self : ℕ} {fds : Descriptors FdObject} {ep : Epoller} (hfds : ∀ fd, holding fds fd = none)
    (h : new self fds ep = some s) : s.FdsOk := by
  simp only [new, Option.map_eq_some_iff] at h
  obtain ⟨⟨m_listen_fd, t⟩, hlisten, rfl⟩ := h
  have hown : ∀ fd, holding t fd = if fd = m_listen_fd then some .listening else none := by
    intro fd
    rw [holding_alloc hlisten, hfds]
    rfl
  cases hidle : t.alloc .devNull with
  | none =>
    refine ⟨fun fd => ?_, by simp, fun hne => absurd rfl hne, fun hp => (by cases hp), rfl, rfl⟩
    rw [owned_listen (by simp) (Or.inr rfl)]
    exact hown fd
  | some p =>
    obtain ⟨n, t'⟩ := p
    have hne : n ≠ m_listen_fd := by
      intro heq
      have hfree := hown n
      rw [holding_free hidle, if_pos heq] at hfree
      cases hfree
    have hs : FdsOk ⟨.new self m_listen_fd ep, t', some n, .outside, [], []⟩ :=
      ⟨owns_alloc (s := ⟨.new self m_listen_fd ep, t, none, .outside, [], []⟩) hown rfl hidle (by simp) rfl rfl
        rfl, fun heq => hne (Option.some.inj heq), fun hne => absurd rfl hne, fun hp => (by cases hp), rfl, rfl⟩
    simpa only [hidle, Option.map_some, Option.getD_some] using hs

/-! ## Nothing of the others -/

/-- The other descriptors of the process keep their objects. -/
def KeepsOthers (fds fds' : Descriptors FdObject) : Prop :=
  ∀ fd o, fds.get fd = some o → o.ofAcceptor = false → fds'.get fd = some o

theorem keepsOthers_alloc {fds fds' : Descriptors FdObject} {o : FdObject} {n : ℕ}
    (h : fds.alloc o = some (n, fds')) : KeepsOthers fds fds' := by
  intro fd o' hget _
  have hne : fd ≠ n := by
    rintro rfl
    rw [(Descriptors.free_of_alloc h).2] at hget
    cases hget
  rw [Descriptors.get_alloc h, if_neg hne, hget]

theorem keepsOthers_close {fds : Descriptors FdObject} {n : ℕ} (h : holding fds n ≠ none) :
    KeepsOthers fds (fds.close n) := by
  intro fd o hget ho
  have hne : fd ≠ n := by
    rintro rfl
    exact h (by rw [holding, hget, Option.filter_some, if_neg (by rw [ho]; simp)])
  rw [Descriptors.get_close, if_neg hne, hget]

/-- `m_idle_fd` is closed where it is the acceptor's. -/
theorem FdsOk.keepsOthers_closeIdle (h : s.FdsOk) (hpc : s.pc ≠ .destroyed) (hobj : s.m_idle_fd ≠ none →
    s.idleObject ≠ none) : KeepsOthers s.fds (closeFd s.fds s.m_idle_fd) := by
  unfold closeFd
  split
  · rename_i n hidle
    refine keepsOthers_close ?_
    rw [h.owns, owned, if_neg hpc, if_neg fun heq => h.apart (by rw [hidle, heq]), if_pos hidle]
    exact hobj (by rw [hidle]; simp)
  · exact fun _ _ hget _ => hget

theorem FdsOk.keepsOthers (h : s.FdsOk) {a : FdStep} (ha : a.ofAcceptor = true) (hstep : s.step a = some s') :
    KeepsOthers s.fds s'.fds := by
  have hrefl : KeepsOthers s.fds s.fds := fun _ _ hget _ => hget
  cases step_moves hstep with
  | round a acc hacc hpc hs => rw [hs]; exact hrefl
  | accept4 errno hpc hc _ hs =>
    rw [hs]
    obtain ⟨heq, -⟩ | ⟨heq, -⟩ | ⟨client, rest, fd, fds, hback, halloc, -, heq⟩ := accept4_cases s errno
    · rw [heq]; exact hrefl
    · rw [heq]; exact hrefl
    · rw [heq]; exact keepsOthers_alloc halloc
  | closeIdle hpc hs =>
    rw [hs]
    exact h.keepsOthers_closeIdle (by rw [hpc]; simp) fun _ => by simp [idleObject, hpc]
  | accept errno hpc hs =>
    rw [hs]
    obtain ⟨heq, -⟩ | ⟨client, rest, fd, fds, hback, halloc, -, heq⟩ := accept_cases s errno
    · rw [heq]; exact hrefl
    · rw [heq]; exact keepsOthers_alloc halloc
  | closeAccepted hpc hs =>
    rw [hs]
    refine h.keepsOthers_closeIdle (by rw [hpc]; simp) fun hne => ?_
    have hlast := h.last hpc hne
    simpa [idleObject, hpc] using hlast
  | openIdle errno hpc hs =>
    rw [hs]
    unfold AcceptorFds.openIdle
    split
    · rename_i fd fds halloc
      exact keepsOthers_alloc halloc
    · exact hrefl
  | destroy hpc hs =>
    rw [hs]
    have hlive : s.pc ≠ .destroyed := by rw [hpc]; simp
    have hlisten : KeepsOthers s.fds (s.fds.close s.m_listen_fd) := by
      refine keepsOthers_close ?_
      rw [h.owns, owned, if_neg hlive, if_pos rfl]
      simp
    intro fd o hget ho
    have hget' := hlisten fd o hget ho
    -- the reserve is another number than the listening descriptor
    unfold closeFd
    simp only
    split
    · rename_i n hidle
      have hne : fd ≠ n := by
        rintro rfl
        have hown := h.owns fd
        rw [owned, if_neg hlive, if_neg fun heq => h.apart (by rw [hidle, heq]), if_pos hidle] at hown
        rw [holding, hget, Option.filter_some, if_neg (by rw [ho]; simp)] at hown
        simp [idleObject, hpc] at hown
      rw [Descriptors.get_close, if_neg hne, hget']
    · exact hget'
  | otherOpens fd fds halloc hs => cases ha
  | otherCloses fd o hget ho hs => cases ha

/-- **Descriptors and clients are accounted for.** Whatever other threads open and close between the calls:
the acceptor holds the listening descriptor, and under `m_idle_fd` the reserve or the connection it is about
to close, and nothing else; no call of it touches a descriptor of the others; and the clients, in the order in
which they came, were served or turned away, or wait. -/
theorem acceptor_descriptors (self : ℕ) (fds : Descriptors FdObject) (ep : Epoller) {steps : List FdStep}
    {s₀ s : AcceptorFds} (hfds : ∀ fd, holding fds fd = none) (hnew : new self fds ep = some s₀)
    (hrun : run step s₀ steps = some s) :
    (∀ fd, holding s.fds fd = s.owned fd) ∧
      (∀ a s', a.ofAcceptor = true → s.step a = some s' → KeepsOthers s.fds s'.fds) ∧
      s.taken.map Prod.fst ++ s.acceptor.backlog = s.arrived ∧
      (s.taken.filter Prod.snd).map Prod.fst = s.acceptor.accepted := by
  have h : s.FdsOk := run_inv (fun _ _ _ h hs => h.step hs) (ok_new hfds hnew) hrun
  exact ⟨h.owns, fun a s' ha hs => h.keepsOthers ha hs, h.all, h.served⟩

/-- Six descriptors, two of them in use. -/
def someFds : Descriptors FdObject := [some .other, some .other, none, none, none, none]

theorem someFds_holding (fd : ℕ) : holding someFds fd = none := by
  rcases Nat.lt_or_ge fd 6 with h | h
  · interval_cases fd <;> rfl
  · rw [holding, Descriptors.get, List.getElem?_eq_none (by simpa [someFds] using h), Option.join_none,
      Option.filter_none]

def someStart : AcceptorFds where
  acceptor := .new 0 2 Epoller.new
  fds := [some .other, some .other, some .listening, some .devNull, none, none]
  m_idle_fd := some 3
  pc := .outside
  arrived := []
  taken := []

theorem new_someFds : new 0 someFds Epoller.new = some someStart := rfl

/-- One client is served, then the descriptors are used up, and a second client connects. -/
def crowdedSteps : List FdStep :=
  [.round .listen, .round .enableReading, .round .loop, .round (.arrive 1), .round (.poll [.listening]),
    .accept4 none, .otherOpens, .round .loop, .round .loop, .round (.arrive 2), .round (.poll [.listening]),
    .accept4 none]

/-- Another thread is faster. -/
def fasterSteps : List FdStep :=
  crowdedSteps ++ [.closeIdle, .otherOpens, .accept none, .closeAccepted, .openIdle none]

/-- The reserve is lost, and the second client waits. -/
theorem acceptor_descriptors_faster :
    ∃ s, run step someStart fasterSteps = some s ∧ s.m_idle_fd = none ∧ s.fds.get 3 = some .other ∧
      s.acceptor.accepted = [1] ∧ s.arrived = [1, 2] ∧ s.taken.map Prod.fst ++ s.acceptor.backlog = s.arrived := by
  have hrun : run step someStart fasterSteps = some _ := rfl
  exact ⟨_, hrun, rfl, rfl, rfl, rfl,
    (acceptor_descriptors 0 someFds Epoller.new someFds_holding new_someFds hrun).2.2.1⟩

/-! ## The acceptor at once -/

/-- The acceptor as its loop sees it: behind the call that takes the connection, `handleConnect` is over. -/
def toAcceptor (s : AcceptorFds) : Acceptor :=
  match s.pc with
  | .accepted | .turnedAway => s.acceptor.handled
  | .outside | .outOfFds | .idleClosed | .destroyed => s.acceptor

theorem connects_iff : s.connects = true ↔ ∃ rest, s.acceptor.pc = .handlers (.listening :: rest) := by
  unfold connects
  split
  · rename_i rest hpc
    exact iff_of_true rfl ⟨rest, hpc⟩
  · rename_i hnot
    exact iff_of_false (by simp) fun ⟨rest, hpc⟩ => hnot rest hpc

/-- A failure of `handleConnect` that takes no connection. -/
theorem handler_fails {acc : Acceptor} {rest : List AcceptChannel} (hpc : acc.pc = .handlers (.listening :: rest))
    {e : ℕ} (he : e ≠ EMFILE) : acc.step (.handler (some e)) = some acc.handled := by
  simp only [Acceptor.step, hpc, Acceptor.handleConnect, if_neg he, Acceptor.handled]

theorem handler_takes {acc : Acceptor} {rest : List AcceptChannel} (hpc : acc.pc = .handlers (.listening :: rest))
    (errno : Option ℕ) : acc.step (.handler errno) = some { acc.handleConnect errno with pc := .handlers rest } := by
  simp only [Acceptor.step, hpc]

/-- A client connects behind the call that takes a connection. -/
theorem arrive_handled {acc acc' : Acceptor} {rest : List AcceptChannel} {client : ℕ}
    (hpc : acc.pc = .handlers (.listening :: rest)) (h : acc.step (.arrive client) = some acc') :
    acc.handled.step (.arrive client) = some acc'.handled := by
  simp only [Acceptor.step, hpc, reduceCtorEq, if_false, Option.some.injEq] at h
  subst h
  simp only [Acceptor.step, Acceptor.handled, hpc, reduceCtorEq, if_false, Acceptor.interest]

theorem FdsOk.handlers (h : s.FdsOk) (h1 : s.pc ≠ .outside) (h2 : s.pc ≠ .destroyed) :
    ∃ rest, s.acceptor.pc = .handlers (.listening :: rest) := connects_iff.1 (h.busy h1 h2)

/-- **One step** is some steps of the acceptor that does at once what `handleConnect` does. -/
theorem FdsOk.step_refines (h : s.FdsOk) {a : FdStep} (hstep : s.step a = some s') :
    ∃ as, run Acceptor.step s.toAcceptor as = some s'.toAcceptor := by
  cases step_moves hstep with
  | round a acc hacc hpc hs =>
    subst hs
    refine ⟨[a], ?_⟩
    rw [run_singleton]
    rcases hpc with ⟨hpc, -⟩ | ⟨client, rfl, hlive⟩
    · simpa only [toAcceptor, hpc] using hacc
    · have harrive := fun hne => (h.handlers hne hlive).elim fun _ hl => arrive_handled hl hacc
      unfold toAcceptor
      simp only
      split
      · rename_i hpc
        exact harrive (by rw [hpc]; simp)
      · rename_i hpc
        exact harrive (by rw [hpc]; simp)
      all_goals exact hacc
  | accept4 errno hpc hc he hs =>
    subst hs
    obtain ⟨rest, hl⟩ := connects_iff.1 hc
    have hfrom : s.toAcceptor = s.acceptor := by simp only [toAcceptor, hpc]
    rw [hfrom]
    obtain ⟨heq, hwhy⟩ | ⟨heq, -⟩ | ⟨client, rest', fd, fds, hback, halloc, herr, heq⟩ := accept4_cases s errno
    · rw [heq]
      refine ⟨[.handler errno], ?_⟩
      rw [run_singleton]
      cases herr : errno with
      | some e => exact handler_fails hl fun heq => he (by rw [herr, heq])
      | none =>
        have hback : s.acceptor.backlog = [] := hwhy.resolve_left fun hne => hne herr
        rw [handler_takes hl]
        simp only [Acceptor.handleConnect, hback, toAcceptor, AcceptorFds.returns, Acceptor.handled, hl]
    · rw [heq]
      exact ⟨[], rfl⟩
    · rw [heq]
      refine ⟨[.handler none], ?_⟩
      rw [run_singleton, handler_takes hl]
      simp only [Acceptor.handleConnect, hback, toAcceptor, AcceptorFds.returns, Acceptor.handled, hl]
  | closeIdle hpc hs =>
    subst hs
    exact ⟨[], by simp only [toAcceptor, hpc, AcceptorFds.closeIdle, run_nil]⟩
  | accept errno hpc hs =>
    subst hs
    obtain ⟨rest, hl⟩ := h.handlers (by rw [hpc]; simp) (by rw [hpc]; simp)
    have hfrom : s.toAcceptor = s.acceptor := by simp only [toAcceptor, hpc]
    rw [hfrom]
    obtain ⟨heq, -⟩ | ⟨client, rest', fd, fds, hback, halloc, -, heq⟩ := accept_cases s errno
    · rw [heq]
      exact ⟨[.handler (some 0)], by rw [run_singleton, handler_fails hl (by decide)]; rfl⟩
    · rw [heq]
      refine ⟨[.handler (some EMFILE)], ?_⟩
      rw [run_singleton, handler_takes hl]
      simp only [Acceptor.handleConnect, hback, toAcceptor, Acceptor.handled, hl, if_true, List.tail_cons]
  | closeAccepted hpc hs =>
    subst hs
    exact ⟨[], by simp only [toAcceptor, hpc, AcceptorFds.closeIdle, run_nil]⟩
  | openIdle errno hpc hs =>
    subst hs
    refine ⟨[], ?_⟩
    unfold AcceptorFds.openIdle
    split
    · simp only [toAcceptor, hpc, AcceptorFds.returns, run_nil]
    · simp only [toAcceptor, hpc, AcceptorFds.returns, run_nil]
  | destroy hpc hs =>
    subst hs
    exact ⟨[], by simp only [toAcceptor, hpc, run_nil]⟩
  | otherOpens fd fds halloc hs =>
    subst hs
    exact ⟨[], rfl⟩
  | otherCloses fd o hget ho hs =>
    subst hs
    exact ⟨[], rfl⟩

/-- **The system calls refine the acceptor.** Every run of them, with all that other threads and clients do in
between, leads to a state that the acceptor of one-step `handleConnect` calls reaches. -/
theorem acceptor_refines (self : ℕ) (fds : Descriptors FdObject) (ep : Epoller) {steps : List FdStep}
    {s₀ s : AcceptorFds} (hfds : ∀ fd, holding fds fd = none) (hnew : new self fds ep = some s₀)
    (hrun : run step s₀ steps = some s) :
    ∃ as, run Acceptor.step (.new self s₀.m_listen_fd ep) as = some s.toAcceptor := by
  have hstart : s₀.toAcceptor = .new self s₀.m_listen_fd ep := by
    simp only [new, Option.map_eq_some_iff] at hnew
    obtain ⟨⟨m_listen_fd, t⟩, -, rfl⟩ := hnew
    rfl
  obtain ⟨as, t, has, -, rfl⟩ := run_refines (C := fun _ _ => True)
    (R := fun (s : AcceptorFds) t => s.FdsOk ∧ t = s.toAcceptor)
    (fun s t a s' hR _ hs => by
      obtain ⟨hok, rfl⟩ := hR
      obtain ⟨bs, hbs⟩ := hok.step_refines hs
      exact ⟨bs, _, hbs, hok.step hs, rfl⟩)
    steps ⟨ok_new hfds hnew, rfl⟩ (along_of_forall s₀ fun _ _ => trivial) hrun
  exact ⟨as, by rw [← hstart]; exact has⟩

theorem acceptor_refines_faster :
    ∃ s, run step someStart fasterSteps = some s ∧ s.toAcceptor.backlog = [2] ∧
      ∃ as, run Acceptor.step (.new 0 2 Epoller.new) as = some s.toAcceptor := by
  have hrun : run step someStart fasterSteps = some _ := rfl
  exact ⟨_, hrun, rfl, acceptor_refines 0 someFds Epoller.new someFds_holding new_someFds hrun⟩

/-! ## The reserve -/

/-- The reserve is there, or a number for it. -/
def Reserved (s : AcceptorFds) : Prop :=
  match s.pc with
  | .outside | .outOfFds => s.m_idle_fd ≠ none
  | .idleClosed | .turnedAway => s.fds.Room
  | .accepted => s.m_idle_fd ≠ none ∨ s.fds.Room
  | .destroyed => True

/-- No other thread opens a descriptor while `m_idle_fd` is given up, and `/dev/null` can be opened. -/
def Undisturbed (s : AcceptorFds) : FdStep → Prop
  | .otherOpens => s.pc = .outside ∨ s.pc = .outOfFds ∨ s.pc = .destroyed
  | .openIdle errno => errno = none
  | .round _ | .accept4 _ | .closeIdle | .accept _ | .closeAccepted | .destroy | .otherCloses _ => True

instance (s : AcceptorFds) : (a : FdStep) → Decidable (s.Undisturbed a)
  | .otherOpens => inferInstanceAs (Decidable (_ ∨ _ ∨ _))
  | .openIdle _ => inferInstanceAs (Decidable (_ = _))
  | .round _ | .accept4 _ | .closeIdle | .accept _ | .closeAccepted | .destroy | .otherCloses _ =>
    inferInstanceAs (Decidable True)

/-- What stands under `m_idle_fd`. -/
theorem FdsOk.get_idle (h : s.FdsOk) (hpc : s.pc ≠ .destroyed) {fd : ℕ} (hidle : s.m_idle_fd = some fd)
    {o : FdObject} (hobj : s.idleObject = some o) : s.fds.get fd = some o := by
  refine get_of_holding ?_
  rw [h.owns, owned, if_neg hpc, if_neg fun heq => h.apart (by rw [hidle, heq]), if_pos hidle, hobj]

/-- Behind `close(m_idle_fd)` there is room. -/
theorem FdsOk.room_closeIdle (h : s.FdsOk) (hpc : s.pc ≠ .destroyed)
    (hobj : s.m_idle_fd ≠ none → s.idleObject ≠ none) (hroom : s.m_idle_fd ≠ none ∨ s.fds.Room) :
    (closeFd s.fds s.m_idle_fd).Room := by
  unfold closeFd
  split
  · rename_i fd hidle
    obtain ⟨o, ho⟩ := Option.ne_none_iff_exists'.1 (hobj (by rw [hidle]; simp))
    exact Descriptors.room_close (Descriptors.lt_of_get (h.get_idle hpc hidle ho))
  · rename_i hidle
    exact hroom.resolve_left (by rw [hidle]; simp)

theorem FdsOk.reserved_step (h : s.FdsOk) (hr : s.Reserved) {a : FdStep} (ha : s.Undisturbed a)
    (hstep : s.step a = some s') : s'.Reserved := by
  cases step_moves hstep with
  | round a acc hacc hpc hs => rw [hs]; exact hr
  | accept4 errno hpc hc _ hs =>
    have hidle : s.m_idle_fd ≠ none := by simpa only [Reserved, hpc] using hr
    rw [hs]
    obtain ⟨heq, -⟩ | ⟨heq, -⟩ | ⟨client, rest, fd, fds, hback, halloc, -, heq⟩ := accept4_cases s errno
    · rw [heq]; exact hidle
    · rw [heq]; exact hidle
    · rw [heq]; exact hidle
  | closeIdle hpc hs =>
    have hidle : s.m_idle_fd ≠ none := by simpa only [Reserved, hpc] using hr
    rw [hs]
    exact h.room_closeIdle (by rw [hpc]; simp) (fun _ => by simp [idleObject, hpc]) (Or.inl hidle)
  | accept errno hpc hs =>
    have hroom : s.fds.Room := by simpa only [Reserved, hpc] using hr
    rw [hs]
    obtain ⟨heq, -⟩ | ⟨client, rest, fd, fds, hback, halloc, -, heq⟩ := accept_cases s errno
    · rw [heq]; exact Or.inr hroom
    · rw [heq]; exact Or.inl (by simp)
  | closeAccepted hpc hs =>
    have hroom : s.m_idle_fd ≠ none ∨ s.fds.Room := by simpa only [Reserved, hpc] using hr
    rw [hs]
    refine h.room_closeIdle (by rw [hpc]; simp) (fun hne => ?_) hroom
    have hlast := h.last hpc hne
    simpa [idleObject, hpc] using hlast
  | openIdle errno hpc hs =>
    have hroom : s.fds.Room := by simpa only [Reserved, hpc] using hr
    obtain ⟨p, hp⟩ := Option.isSome_iff_exists.1 ((Descriptors.alloc_iff_room (a := FdObject.devNull)).2 hroom)
    have herr : errno = none := ha
    rw [hs, herr]
    simp [AcceptorFds.openIdle, hp, Reserved, AcceptorFds.returns]
  | destroy hpc hs => rw [hs]; trivial
  | otherOpens fd fds halloc hs =>
    rw [hs]
    rcases (show s.pc = .outside ∨ s.pc = .outOfFds ∨ s.pc = .destroyed from ha) with hpc | hpc | hpc
    · simpa only [Reserved, hpc] using hr
    · simpa only [Reserved, hpc] using hr
    · simp only [Reserved, hpc]
  | otherCloses fd o hget ho hs =>
    rw [hs]
    have hclose : ∀ h : s.fds.Room, (s.fds.close fd).Room := fun h => Descriptors.room_close_of_room h fd
    unfold Reserved at hr ⊢
    simp only
    split
    · rename_i hpc; simpa only [hpc] using hr
    · rename_i hpc; simpa only [hpc] using hr
    · rename_i hpc; exact hclose (by simpa only [hpc] using hr)
    · rename_i hpc; exact hclose (by simpa only [hpc] using hr)
    · rename_i hpc
      exact Or.imp_right hclose (by simpa only [hpc] using hr)
    · trivial

/-- The calls of `handleConnect` behind an `accept4` that was out of descriptors. -/
def branchSteps : List FdStep := [.closeIdle, .accept none, .closeAccepted, .openIdle none]

/-- **Made without a break, the calls of the branch do what `handleConnect` does at once**, and leave the
descriptors of the process as they were. -/
theorem FdsOk.branch (h : s.FdsOk) (hpc : s.pc = .outOfFds) (hfull : ¬ s.fds.Room) (hidle : s.m_idle_fd ≠ none) :
    ∃ s', run AcceptorFds.step s branchSteps = some s' ∧ s'.pc = .outside ∧ s'.fds = s.fds ∧
      s'.m_idle_fd = s.m_idle_fd ∧ s'.acceptor = (s.acceptor.handleConnect (some EMFILE)).handled := by
  obtain ⟨fd, hfd⟩ := Option.ne_none_iff_exists'.1 hidle
  have hget : s.fds.get fd = some .devNull :=
    h.get_idle (by rw [hpc]; simp) hfd (by simp [idleObject, hpc])
  have hlt := Descriptors.lt_of_get hget
  have hopen : (s.fds.close fd).alloc FdObject.devNull = some (fd, s.fds) := by
    rw [Descriptors.alloc_close_full hfull hlt, Descriptors.set_of_get hget]
  cases hback : s.acceptor.backlog with
  | nil =>
    refine ⟨{ s with acceptor := s.acceptor.handled, pc := .outside }, ?_, rfl, rfl, rfl, ?_⟩
    · simp [branchSteps, run, AcceptorFds.step, hpc, AcceptorFds.closeIdle, AcceptorFds.accept, AcceptorFds.openIdle,
        AcceptorFds.returns, closeFd, hback, hfd, hopen]
    · have hsame : s.acceptor.handleConnect (some EMFILE) = s.acceptor := by
        simp only [Acceptor.handleConnect, if_true, hback, List.tail_nil]
        rw [← hback]
      rw [hsame]
  | cons client rest =>
    have hclose : Descriptors.close (s.fds.set fd (some (FdObject.turnedAway client))) fd = s.fds.close fd := by
      rw [Descriptors.close, Descriptors.close, List.set_set]
    refine ⟨{ s with
      acceptor := { s.acceptor with backlog := rest }.handled
      pc := .outside
      taken := s.taken ++ [(client, false)] }, ?_, rfl, rfl, rfl, ?_⟩
    · simp [branchSteps, run, AcceptorFds.step, hpc, AcceptorFds.closeIdle, AcceptorFds.accept, AcceptorFds.openIdle,
        AcceptorFds.returns, closeFd, hback, hfd, hopen, hclose, Descriptors.alloc_close_full hfull hlt]
    · simp [Acceptor.handleConnect, hback]

/-- **The reserve comes back.** In every run in which no other thread opens a descriptor while `m_idle_fd` is
given up: outside of the branch the acceptor has its reserve; in the branch it takes the client that waits
longest; and the calls of the branch, made without a break with all numbers in use, leave the descriptors of
the process as they were. -/
theorem acceptor_reserve (self : ℕ) (fds : Descriptors FdObject) (ep : Epoller) {steps : List FdStep}
    {s₀ s : AcceptorFds} (hfds : ∀ fd, holding fds fd = none) (hnew : new self fds ep = some s₀)
    (hidle : s₀.m_idle_fd ≠ none) (hC : Along step Undisturbed s₀ steps) (hrun : run step s₀ steps = some s) :
    (s.pc = .outside → ∃ fd, s.m_idle_fd = some fd ∧ s.fds.get fd = some .devNull) ∧
      (s.pc = .idleClosed → ∀ client rest, s.acceptor.backlog = client :: rest →
        ∃ s', s.step (.accept none) = some s' ∧ s'.taken = s.taken ++ [(client, false)] ∧
          s'.acceptor.backlog = rest) ∧
      (s.pc = .outOfFds → ¬ s.fds.Room → ∃ s', run step s branchSteps = some s' ∧ s'.pc = .outside ∧
        s'.fds = s.fds ∧ s'.m_idle_fd = s.m_idle_fd ∧
        s'.acceptor = (s.acceptor.handleConnect (some EMFILE)).handled) := by
  have hstart : s₀.pc = .outside := by
    simp only [new, Option.map_eq_some_iff] at hnew
    obtain ⟨p, -, rfl⟩ := hnew
    rfl
  have hreserved : s₀.Reserved := by simpa only [Reserved, hstart] using hidle
  obtain ⟨h, hr⟩ : s.FdsOk ∧ s.Reserved :=
    run_inv_along (I := fun s => s.FdsOk ∧ s.Reserved)
      (fun s a s' hI ha hs => ⟨hI.1.step hs, hI.1.reserved_step hI.2 ha hs⟩)
      steps ⟨ok_new hfds hnew, hreserved⟩ hC hrun
  refine ⟨fun hpc => ?_, fun hpc client rest hback => ?_, fun hpc hfull => ?_⟩
  · have hne : s.m_idle_fd ≠ none := by simpa only [Reserved, hpc] using hr
    obtain ⟨fd, hfd⟩ := Option.ne_none_iff_exists'.1 hne
    exact ⟨fd, hfd, h.get_idle (by rw [hpc]; simp) hfd (by simp [idleObject, hpc])⟩
  · have hroom : s.fds.Room := by simpa only [Reserved, hpc] using hr
    refine ⟨s.accept none, by rw [step, if_pos hpc], ?_⟩
    obtain ⟨-, hwhy⟩ | ⟨client', rest', fd, t, hback', -, -, heq⟩ := accept_cases s none
    · rcases hwhy with hne | hnil | hfull
      · exact absurd rfl hne
      · rw [hback] at hnil; cases hnil
      · exact absurd hroom hfull
    · rw [hback] at hback'
      cases hback'
      rw [heq]
      exact ⟨rfl, rfl⟩
  · exact h.branch hpc hfull (by simpa only [Reserved, hpc] using hr)

/-- The second client is turned away, and the reserve is back. -/
theorem acceptor_reserve_back :
    ∃ s, run step someStart (crowdedSteps ++ branchSteps) = some s ∧ s.taken = [(1, true), (2, false)] ∧
      ∃ fd, s.m_idle_fd = some fd ∧ s.fds.get fd = some .devNull := by
  have hrun : run step someStart (crowdedSteps ++ branchSteps) = some _ := rfl
  exact ⟨_, hrun, rfl, (acceptor_reserve 0 someFds Epoller.new someFds_holding new_someFds (by decide) (by decide)
    hrun).1 rfl⟩

end AcceptorFds

end MyMuduo
