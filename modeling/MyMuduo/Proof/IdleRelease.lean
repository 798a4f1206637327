import MyMuduo.Proof.IdleServer

/-!
# Closed connections and their owners

When the `connectionDestructor` of a connection has run and its functor is destroyed, no queue and
no map has it any more, so the object should go, and its descriptor with it. But its first idle
timer is an owner for eight seconds, whatever becomes of the connection (`leaked_short`).

The functor of `connectionDestructor` is destroyed at the end of its pass (`PassOk`). Until then it
is itself an owner; a run keeps `HeldOrFree` as long as at the end of a pass no strong timer is left
of a connection destructed in it.

* `closed_connections_released_iff`: **this is exactly when closed connections are released.**
-/

namespace MyMuduo

open Lib

variable {Q : Type}

/-- The connection is out of `m_connections`, its `connectionDestructor` has run to the end, and the
functor of it is destroyed. -/
structure Destructed (s : TcpServer Q) (c : ℕ) : Prop where
  erased : s.m_connections (s.fd c) ≠ some c
  ran : .connectionDestructor ∈ (s.conns c).conn.trace
  functor : ∀ l, .life .connectionDestructor c ∉ (s.loops l).held
  returned : ∀ l, .life .remove c ∉ (s.loops l).held

/-- The step does not end a pass that has destructed a connection with a strong timer. -/
def IdleServer.releases (s : IdleServer Q) : IdleStep → Bool
  | .tcp (.endPass l) => (s.tcp.loops l).functors.all fun t =>
    s.heldByTimers.all fun c => t ≠ .life .connectionDestructor c
  | _ => true

variable [ByteQueue Q]

/-- **Nobody owns the connection but running handlers**, which are the calls under way and the
functors of a pass under way. Without these the object is destroyed. -/
structure Released (buffer : Q) (s : IdleServer Q) (c : ℕ) : Prop where
  queues : ∀ l, ∀ t ∈ (s.tcp.loops l).rest ++ (s.tcp.loops l).m_pending_functors, t.owner ≠ some c
  timers : ∀ t ∈ s.timers, t.conn = c → t.strong = false
  outside : c ∉ s.tcp.owners
  closed : (∀ l, ∀ t ∈ (s.tcp.loops l).current ++ (s.tcp.loops l).functors, t.owner ≠ some c) →
    s.tcp.owned c = false ∧ (s.tcp.isAlive c → (s.tcp.step buffer (.close c)).isSome)

/-- From `connectionDestructor` on, the connection is held by its functor or free of timers. -/
def HeldOrFree (s : IdleServer Q) : Prop :=
  ∀ c, .connectionDestructor ∈ (s.tcp.conns c).conn.trace →
    (∃ l, .life .connectionDestructor c ∈ (s.tcp.loops l).functors) ∨ c ∉ s.heldByTimers

variable {buffer : Q} {s s' : IdleServer Q} {a : IdleStep} {c : ℕ}

/-! ## The functors of a pass -/

/-- **The destructors among the functors of a pass**: each stands in its home, and has run once it is
neither under way nor to come. Its end is not a functor of its own. -/
structure PassOk (s : TcpServer Q) : Prop where
  ran : ∀ l c, .life .connectionDestructor c ∈ (s.loops l).functors →
    .life .connectionDestructor c ∈ (s.loops l).current ++ (s.loops l).rest ∨
      .connectionDestructor ∈ (s.conns c).conn.trace
  home : ∀ l c, .life .connectionDestructor c ∈ (s.loops l).functors → s.home c = l
  whole : ∀ l c, .life .remove c ∉ (s.loops l).rest ++ (s.loops l).m_pending_functors
  wholeKept : ∀ l c, .life .remove c ∉ (s.loops l).functors

omit [ByteQueue Q] in
theorem pass_start (numLoops : ℕ) (buffer : Q) : PassOk (TcpServer.start numLoops buffer) :=
  ⟨fun _ _ h => (by cases h), fun _ _ h => (by cases h), fun _ _ h => (by cases h),
    fun _ _ h => (by cases h)⟩

section

variable {tcp tcp' : TcpServer Q} {x : ServerStep} {ph : ℕ → Phase} {l : ℕ}

omit [ByteQueue Q] in
theorem Phase.late {p : Phase} (h : 5 < p.rank) : p = .deregistering ∨ p = .gone := by
  cases p with
  | deregistering => exact Or.inl rfl
  | gone => exact Or.inr rfl
  | _ => simp [Phase.rank] at h

theorem PassOk.step (h : PassOk tcp) (hu : UnforcedOk tcp) (hstep : tcp.step buffer x = some tcp') :
    PassOk tcp' := by
  obtain ⟨ph, hs⟩ := hu.ok
  have hmoves := step_moves hs hstep
  refine ⟨?_, ?_, ?_, ?_⟩
  · intro l c hm
    cases hmoves.loops l with
    | goes hrest hfun _ hmade _ =>
      rw [hfun] at hm
      rcases h.ran l c hm with hw | ht
      · rcases List.mem_append.1 hw with hw | hw
        · rcases hmade _ hw with hc | ⟨_, hc⟩ | ⟨read, write, stack, rfl, hcur⟩
          · exact Or.inl (List.mem_append_left _ hc)
          · cases hc
          · exact Or.inr (exec_destructs hs hcur hstep)
        · rw [hrest]
          exact Or.inl (List.mem_append_right _ hw)
      · exact Or.inr (destructed_mono hs hstep ht)
    | swap _ _ hrest hfun _ _ =>
      rw [hfun] at hm
      rw [hrest]
      exact Or.inl (List.mem_append_right _ hm)
    | nextFunctor t hidle hrest hcur hfun _ =>
      rw [hfun] at hm
      refine (h.ran l c hm).imp (fun hw => ?_) (destructed_mono hs hstep)
      rw [hidle, hrest, List.nil_append] at hw
      rw [hcur]
      exact hw
    | endPass _ _ _ hfun _ _ _ =>
      rw [hfun] at hm
      cases hm
  · intro l c hm
    have hheld : .life .connectionDestructor c ∈ (tcp.loops l).held ∧ tcp.home c = l := by
      rcases (hmoves.loops l).of_functors hm with hm | hm
      · exact ⟨by simp [IoLoop.held, hm], h.home l c hm⟩
      · -- it was queued at home
        have hwork : .life .connectionDestructor c ∈ (tcp.loops l).work := by simp [IoLoop.work, hm]
        exact ⟨by simp [IoLoop.held, hm], (hs.due_of_work hwork).2.symm⟩
    have hborn := hs.reg.born ((hs.stack l).owners _ hheld.1 c rfl)
    rw [hmoves.homes c hborn]
    exact hheld.2
  · intro l c hm
    rcases (hmoves.loops l).waiting hm with hm | ⟨k, c', hk, he⟩ | ⟨-, -, -, c', d, -, he, -⟩
    · exact h.whole l c hm
    · cases he
      exact hk rfl
    · cases he
  · intro l c hm
    rcases (hmoves.loops l).of_functors hm with hm | hm
    · exact h.wholeKept l c hm
    · exact h.whole l c (List.mem_append_right _ hm)

theorem pass_of_run {as : List ServerStep} (h : PassOk tcp) (hu : UnforcedOk tcp)
    (has : ∀ a ∈ as, a.Unforced) (hrun : run (TcpServer.step buffer) tcp as = some tcp') : PassOk tcp' := by
  refine (run_inv_along (I := fun t => UnforcedOk t ∧ PassOk t) ?_ as ⟨hu, h⟩
    (along_of_forall tcp has) hrun).2
  rintro t a t' ⟨ht, hp⟩ ha hstep
  exact ⟨ht.step ha hstep, hp.step ht hstep⟩

omit [ByteQueue Q] in
/-- What is held after a pass, and what it was before. -/
theorem endPass_held (tcp : TcpServer Q) (l l' : ℕ) {t : Task}
    (ht : t ∈ ((tcp.setLoop l { tcp.loops l with pc := .poll, functors := [] }).loops l').held) :
    t ∈ (tcp.loops l').work ∨ t ∈ (tcp.loops l').functors ∧ l' ≠ l := by
  by_cases hl : l' = l
  · subst hl
    rw [show (tcp.setLoop l' { tcp.loops l' with pc := .poll, functors := [] }).loops l' =
      { tcp.loops l' with pc := .poll, functors := [] } from Function.update_self _ _ _] at ht
    simp only [IoLoop.held, List.append_nil, List.mem_append] at ht
    simp only [IoLoop.work, List.mem_append]
    exact Or.inl (ht.imp_left Or.inl)
  · rw [show (tcp.setLoop l { tcp.loops l with pc := .poll, functors := [] }).loops l' =
      tcp.loops l' from Function.update_of_ne hl _ _] at ht
    simp only [IoLoop.held, List.mem_append] at ht
    simp only [IoLoop.work, List.mem_append]
    rcases ht with (ht | ht) | ht
    · exact Or.inl (Or.inl (Or.inl ht))
    · exact Or.inr ⟨ht, hl⟩
    · exact Or.inl (Or.inr ht)

/-- **At the end of a pass** the connections destructed in it are destructed for good. -/
theorem PassOk.destructed (h : PassOk tcp) (hu : UnforcedOk tcp)
    (hstep : tcp.step buffer (.endPass l) = some tcp')
    (hm : .life .connectionDestructor c ∈ (tcp.loops l).functors) : Destructed tcp' c := by
  obtain ⟨ph, hs⟩ := hu.ok
  unfold TcpServer.step at hstep
  rw [if_neg fun hf => hf hs.running] at hstep
  dsimp only at hstep
  split at hstep
  · next hg =>
    obtain ⟨-, hcur, hrest⟩ := hg
    cases hstep
    have htrace : .connectionDestructor ∈ (tcp.conns c).conn.trace := by
      refine (h.ran l c hm).resolve_left ?_
      rw [hcur, hrest]
      exact List.not_mem_nil
    have hlate := Phase.late ((hs.reg.trace c).destructed_iff.1 htrace)
    have hhome := h.home l c hm
    refine ⟨?_, htrace, fun l' ht => ?_, fun l' ht => ?_⟩
    · intro hmap
      have hin := ((hs.reg.map _ c).1 hmap).1
      rcases hlate with hp | hp
      · rw [hp] at hin
        cases hin
      · rw [hp] at hin
        cases hin
    · rcases endPass_held tcp l l' ht with hw | ⟨hf, hl⟩
      · obtain ⟨hdue, -⟩ := hs.due_of_work hw
        rcases hlate with hp | hp
        · rw [hp] at hdue
          cases hdue
        · rw [hp] at hdue
          cases hdue
      · exact hl ((h.home l' c hf).symm.trans hhome)
    · rcases endPass_held tcp l l' ht with hw | ⟨hf, -⟩
      · -- the end of the destructor would be under way at home
        obtain ⟨-, hl⟩ := hs.due_of_work hw
        have hl' : l' = l := hl.trans hhome
        subst hl'
        unfold IoLoop.work at hw
        rw [hcur, List.nil_append] at hw
        exact h.whole l' c hw
      · exact h.wholeKept l' c hf
  · cases hstep

end

/-! ## A step of the server below -/

/-- A functor of a pass stays until the pass ends, and the destructor runs in a pass. -/
theorem functor_of_step {tcp tcp' : TcpServer Q} {x : ServerStep} (h : UnforcedOk tcp)
    (hstep : tcp.step buffer x = some tcp')
    (hc : .connectionDestructor ∈ (tcp'.conns c).conn.trace) :
    .connectionDestructor ∈ (tcp.conns c).conn.trace ∨
      ∃ l, .life .connectionDestructor c ∈ (tcp'.loops l).functors := by
  obtain ⟨ph, hs⟩ := h.ok
  refine (destructed_of_step hs hstep hc).imp_right ?_
  rintro ⟨l, read, write, stack, rfl, hcur⟩
  have hkept := h.kept l c (by rw [hcur]; exact List.mem_cons_self)
  refine ⟨l, ((step_moves hs hstep).loops l).functors hkept |>.resolve_right ?_⟩
  simp

/-- **One step** keeps what it is to keep. -/
theorem heldOrFree_step (h : IdleOk s) (hfree : HeldOrFree s) (ha : s.releases a = true)
    (hstep : s.step buffer a = some s') : HeldOrFree s' := by
  intro c hc
  cases idle_step_cases h.tcp hstep with
  | goes x _ hx htcp htimers _ hended _ =>
    obtain ⟨ph, hs⟩ := h.tcp.ok
    have hheld : s'.heldByTimers = s.heldByTimers := by
      unfold IdleServer.heldByTimers
      rw [htimers]
    rw [hheld]
    rcases functor_of_step h.tcp htcp hc with hc | hc
    · rcases hfree c hc with ⟨l, hl⟩ | hno
      · rcases ((step_moves hs htcp).loops l).functors hl with hl' | hend
        · exact Or.inl ⟨l, hl'⟩
        · -- the pass ends, with no timer left
          rw [hended l hend] at ha
          simp only [IdleServer.releases, List.all_eq_true] at ha
          refine Or.inr fun hm => ?_
          have := ha _ hl c hm
          simp at this
      · exact Or.inr hno
    · exact Or.inl hc
  | inserts i _ htcp htimers =>
    rw [htcp] at hc ⊢
    rw [(inserts_same htimers).2]
    exact hfree c hc
  | establishes _ l read write c₀ stack tcp _ _ hcur hexec hretain htimers =>
    obtain ⟨ph, hs⟩ := h.tcp.ok
    have htcp := h.tcp.step (fun _ _ _ he => by cases he) hexec
    obtain ⟨ph₁, hs₁⟩ := htcp.ok
    have hmild := mildly_of_step htcp ⟨fun _ _ _ he => (by cases he), fun _ _ _ => by simp, fun _ => by simp⟩
      hretain
    have hc₁ := hmild.destructed c hc
    have hheld : s'.heldByTimers = s.heldByTimers ++ [c₀] := by
      unfold IdleServer.heldByTimers
      rw [htimers, List.filter_append, List.map_append]
      rfl
    -- the connection just established is not destructed
    have hne : c ≠ c₀ := by
      rintro rfl
      obtain ⟨-, hst⟩ := exec_established hs hcur hexec
      have hlive := (hs₁.live_iff c).1 (Or.inl hst)
      rw [(hs₁.reg.trace c).destructed_iff, hlive] at hc₁
      simp [Phase.rank] at hc₁
    rw [hheld, List.mem_append, List.mem_singleton, or_iff_left hne]
    rcases functor_of_step h.tcp hexec hc₁ with hc₀ | ⟨l', hl'⟩
    · rcases hfree c hc₀ with ⟨l', hl'⟩ | hno
      · have hmove := ((step_moves hs hexec).loops l').functors hl'
        exact Or.inl ⟨l', hmild.functors l' _ (hmove.resolve_right (by simp))⟩
      · exact Or.inr hno
    · exact Or.inl ⟨l', hmild.functors l' _ hl'⟩
  | checks i now t _ ht hrun htimers =>
    obtain ⟨-, hmild⟩ := mildly_of_run h.tcp (idleSteps_mild s t now) hrun
    have hheld := checks_held ht htimers
    rcases hfree c (hmild.destructed c hc) with ⟨l, hl⟩ | hno
    · exact Or.inl ⟨l, hmild.functors l _ hl⟩
    · refine Or.inr fun hm => hno (hheld.mem_iff.2 ?_)
      split
      · exact List.mem_cons_of_mem _ hm
      · exact hm

/-! ## Released connections -/

omit [ByteQueue Q] in
/-- A connection destructed is gone. -/
theorem Destructed.gone {tcp : TcpServer Q} {ph : ℕ → Phase} (hs : ServerOk ph tcp)
    (h : Destructed tcp c) : ph c = .gone := by
  rcases Phase.late ((hs.reg.trace c).destructed_iff.1 h.ran) with hp | hp
  · -- the end of `connectionDestructor` would still be due
    have hmem := hs.work_of_due (c := c) (k := .remove) (by rw [hp]; rfl)
    exact absurd ((hs.stack _).mem_held hmem) (h.returned _)
  · exact hp

theorem IdleOk.released (h : IdleOk s) (hfree : HeldOrFree s) (hc : Destructed s.tcp c) :
    Released buffer s c := by
  obtain ⟨ph, hs⟩ := h.tcp.ok
  have hgone := hc.gone hs
  have hheld : c ∉ s.heldByTimers := by
    refine (hfree c hc.ran).resolve_left ?_
    rintro ⟨l, hl⟩
    refine hc.functor l ?_
    unfold IoLoop.held
    exact List.mem_append_left _ (List.mem_append_right _ hl)
  have houtside : c ∉ s.tcp.owners := fun hm => hheld (h.owners.mem_iff.1 hm)
  -- nothing is due for a connection that is gone
  have hqueues : ∀ l, ∀ t ∈ (s.tcp.loops l).rest ++ (s.tcp.loops l).m_pending_functors,
      t.owner ≠ some c := by
    intro l t ht ho
    rcases h.tcp.queued l t ht with ⟨k, c', rfl⟩ | ⟨c', d, rfl⟩
    · cases ho
      have hwork : .life k c ∈ (s.tcp.loops l).work := by
        unfold IoLoop.work
        rw [List.append_assoc]
        exact List.mem_append_right _ ht
      have hdue := (hs.due_of_work hwork).1
      rw [hgone] at hdue
      cases hdue
    · cases ho
  refine ⟨hqueues, ?_, houtside, fun hnone => ?_⟩
  · intro t ht htc
    by_contra hstrong
    refine hheld (List.mem_map.2 ⟨t, List.mem_filter.2 ⟨ht, by simpa using hstrong⟩, htc⟩)
  · have hown : s.tcp.owned c = false := by
      unfold TcpServer.owned
      have hmap : s.tcp.m_connections (s.tcp.fd c) ≠ some c := hc.erased
      simp only [hmap, decide_false, Bool.false_or, Bool.or_eq_false_iff, List.any_eq_false]
      refine ⟨by simpa using houtside, fun l _ => ?_⟩
      simp only [Bool.not_eq_true, List.any_eq_false, decide_eq_true_eq]
      intro t ht
      rcases List.mem_append.1 ht with ht | ht
      · exact hnone l t ht
      · exact hqueues l t (List.mem_append_right _ ht)
    refine ⟨hown, fun halive => ?_⟩
    have halive' : (s.tcp.conns c).life = .alive := halive
    simp [TcpServer.step, hs.running, halive', hown]

/-- Every connection destructed is released. -/
def AllReleased (buffer : Q) (s : IdleServer Q) : Prop :=
  ∀ c, Destructed s.tcp c → Released buffer s c

/-- The invariant of a run that releases its connections. -/
structure ReleaseOk (s : IdleServer Q) : Prop where
  idle : IdleOk s
  pass : PassOk s.tcp
  free : HeldOrFree s

omit [ByteQueue Q] in
theorem release_start (numLoops : ℕ) (buffer : Q) : ReleaseOk (IdleServer.start numLoops buffer) :=
  ⟨idle_start numLoops buffer, pass_start numLoops buffer, fun _ hc => (by cases hc)⟩

/-- Every step of the `HttpServer` is one or several steps of the server below. -/
theorem idle_pass (h : IdleOk s) (hp : PassOk s.tcp) (hstep : s.step buffer a = some s') :
    PassOk s'.tcp := by
  cases idle_step_cases h.tcp hstep with
  | goes x _ _ htcp _ _ _ _ => exact hp.step h.tcp htcp
  | inserts i _ htcp _ => exact htcp ▸ hp
  | establishes _ l read write c stack tcp _ _ _ hexec hretain _ =>
    exact (hp.step h.tcp hexec).step (h.tcp.step (fun _ _ _ he => by cases he) hexec) hretain
  | checks i now t _ _ hrun _ =>
    exact pass_of_run hp h.tcp (fun a ha => (idleSteps_mild s t now a ha).1) hrun

/-- A pass that ends with a strong timer left of a connection destructed in it does not release it. -/
theorem not_released (h : IdleOk s) (hp : PassOk s.tcp) (ha : s.releases a = false)
    (hstep : s.step buffer a = some s') : ¬AllReleased buffer s' := by
  intro hall
  unfold IdleServer.releases at ha
  split at ha
  · next l =>
    simp only [List.all_eq_false] at ha
    obtain ⟨t, ht, hno⟩ := ha
    simp only [Bool.not_eq_true, List.all_eq_false, decide_eq_true_eq, not_not] at hno
    obtain ⟨c, hc, rfl⟩ := hno
    unfold IdleServer.step at hstep
    dsimp only at hstep
    rw [if_pos (show ServerStep.ofLoops (.endPass l) = true from rfl)] at hstep
    obtain ⟨tcp, htcp, rfl⟩ := Option.map_eq_some_iff.1 hstep
    have hrel := hall c (hp.destructed h.tcp htcp ht)
    obtain ⟨t', ht', rfl⟩ := List.mem_map.1 hc
    obtain ⟨hmem, hstrong⟩ := List.mem_filter.1 ht'
    rw [hrel.timers t' hmem rfl] at hstrong
    cases hstrong
  · cases ha

/-- **One step** releases every connection destructed exactly if it ends no pass that destructed a
connection with a strong timer. -/
theorem release_step (h : ReleaseOk s) (hstep : s.step buffer a = some s') :
    (s.releases a = true ↔ AllReleased buffer s') ∧ (s.releases a = true → ReleaseOk s') := by
  have hkeep : s.releases a = true → ReleaseOk s' := fun ha =>
    ⟨h.idle.step hstep, idle_pass h.idle h.pass hstep, heldOrFree_step h.idle h.free ha hstep⟩
  refine ⟨⟨fun ha => ?_, fun hall => ?_⟩, hkeep⟩
  · have h' := hkeep ha
    exact fun c hc => h'.idle.released h'.free hc
  · by_contra hno
    exact not_released h.idle h.pass (by simpa using hno) hstep hall

/-- **A closed connection keeps its descriptor exactly if its first timer is left**: in every run, every
connection destructed is released at all times if and only if no pass ends with a strong timer left
of a connection that it destructed. -/
theorem closed_connections_released_iff (numLoops : ℕ) (buffer : Q) {steps : List IdleStep}
    {s : IdleServer Q}
    (hrun : run (IdleServer.step buffer) (IdleServer.start numLoops buffer) steps = some s) :
    (∀ n t, run (IdleServer.step buffer) (IdleServer.start numLoops buffer) (steps.take n) = some t →
      AllReleased buffer t) ↔
    Along (IdleServer.step buffer) (fun s a => s.releases a = true) (IdleServer.start numLoops buffer)
      steps := by
  refine forall_run_iff_along (I := ReleaseOk) (fun s h c hc => h.idle.released h.free hc) ?_ steps
    (release_start numLoops buffer) hrun
  exact fun s a s' h hstep => release_step h hstep

/-- The client closes, and the connection is removed and destructed. -/
def hangUpSteps (now : ℤ) : List IdleStep :=
  [.tcp (.poll 1 [(5, kReadEvent)]), .tcp (.handleEvent 1), .exec 1 (.ok []) (.ok 0) now,
    .exec 1 (.ok []) (.ok 0) now, .tcp (.swap 1), .tcp (.endPass 1),
    .tcp (.swap 0), .tcp (.nextFunctor 0), .exec 0 (.ok []) (.ok 0) now, .tcp (.endPass 0),
    .tcp (.poll 1 []), .tcp (.swap 1), .tcp (.nextFunctor 1), .exec 1 (.ok []) (.ok 0) now,
    .tcp (.return_ 1), .exec 1 (.ok []) (.ok 0) now, .tcp (.endPass 1)]

/-- What is seen of connection 0 and two loops. -/
structure Outcome where
  entry : Option ℕ
  event : Option ConnEvent
  life : ObjectLife
  held : List Task × List Task
  numLoops : ℕ
  timers : List IdleTimer
  owned : Bool
  deriving DecidableEq

def IdleServer.outcome (s : IdleServer Buffer) : Outcome where
  entry := s.tcp.m_connections (s.tcp.fd 0)
  event := (s.tcp.conns 0).conn.trace.getLast?
  life := (s.tcp.conns 0).life
  held := ((s.tcp.loops 0).held, (s.tcp.loops 1).held)
  numLoops := s.tcp.numLoops
  timers := s.timers
  owned := s.tcp.owned 0

/-- The loops hold nothing, and the connection is destructed. -/
theorem destructed_of_outcome {s : IdleServer Buffer} (h : IdleOk s) {timers : List IdleTimer}
    {owned : Bool}
    (ho : s.outcome = ⟨none, some .connectionDestructor, .alive, ([], []), 2, timers, owned⟩) :
    Destructed s.tcp 0 := by
  obtain ⟨ph, hs⟩ := h.tcp.ok
  have hmap : s.tcp.m_connections (s.tcp.fd 0) = none := congrArg Outcome.entry ho
  have hlast : (s.tcp.conns 0).conn.trace.getLast? = some .connectionDestructor :=
    congrArg Outcome.event ho
  have hnum : s.tcp.numLoops = 2 := congrArg Outcome.numLoops ho
  obtain ⟨h0, h1⟩ := Prod.mk.inj (congrArg Outcome.held ho)
  have hheld : ∀ l, (s.tcp.loops l).held = [] := by
    intro l
    rcases l with _ | _ | l
    · exact h0
    · exact h1
    · exact (hs.stack (l + 2)).bound (by omega)
  refine ⟨?_, List.mem_of_getLast? hlast, fun l => ?_, fun l => ?_⟩
  · rw [hmap]
    simp
  · rw [hheld]
    exact List.not_mem_nil
  · rw [hheld]
    exact List.not_mem_nil

theorem closed_connections_released_iff_talking :
    ∃ s : IdleServer Buffer,
      run (IdleServer.step (.new 8)) (IdleServer.start 2 (.new 8)) (talkingSteps ++ hangUpSteps 9000000002) = some s ∧
      Destructed s.tcp 0 ∧ s.timers = [⟨0, false, 17000000001, true⟩] ∧ s.tcp.owned 0 = false ∧
      Released (Buffer.new 8) s 0 := by
  have hvalue : (run (IdleServer.step (Buffer.new 8)) (IdleServer.start 2 (Buffer.new 8))
      (talkingSteps ++ hangUpSteps 9000000002)).map IdleServer.outcome =
        some ⟨none, some .connectionDestructor, .alive, ([], []), 2,
          [⟨0, false, 17000000001, true⟩], false⟩ := by
    decide +kernel
  obtain ⟨s, hs, ho⟩ := Option.map_eq_some_iff.1 hvalue
  have hdes := destructed_of_outcome (idle_run_ok hs) ho
  refine ⟨s, hs, hdes, congrArg Outcome.timers ho, congrArg Outcome.owned ho, ?_⟩
  have hall : Along (IdleServer.step (Buffer.new 8)) (fun s a => s.releases a = true)
      (IdleServer.start 2 (Buffer.new 8)) (talkingSteps ++ hangUpSteps 9000000002) := by
    decide +kernel
  exact (closed_connections_released_iff 2 (Buffer.new 8) hs).2 hall
    (talkingSteps ++ hangUpSteps 9000000002).length s (by rw [List.take_length]; exact hs) 0 hdes

/-- A client that connects and closes at once. -/
theorem leaked_short :
    ∃ s : IdleServer Buffer,
      run (IdleServer.step (.new 8)) (IdleServer.start 2 (.new 8))
        (establishingSteps ++ [.tcp (.poll 0 [])] ++ hangUpSteps 2000000000) = some s ∧
      Destructed s.tcp 0 ∧ s.timers = [⟨0, true, 9000000000, true⟩] ∧ s.tcp.owned 0 = true ∧
      (s.tcp.conns 0).life = .alive ∧ ¬Released (Buffer.new 8) s 0 := by
  have hvalue : (run (IdleServer.step (Buffer.new 8)) (IdleServer.start 2 (Buffer.new 8))
      (establishingSteps ++ [.tcp (.poll 0 [])] ++ hangUpSteps 2000000000)).map IdleServer.outcome =
        some ⟨none, some .connectionDestructor, .alive, ([], []), 2,
          [⟨0, true, 9000000000, true⟩], true⟩ := by
    decide +kernel
  obtain ⟨s, hs, ho⟩ := Option.map_eq_some_iff.1 hvalue
  have hdes := destructed_of_outcome (idle_run_ok hs) ho
  have htimers : s.timers = [⟨0, true, 9000000000, true⟩] := congrArg Outcome.timers ho
  refine ⟨s, hs, hdes, htimers, congrArg Outcome.owned ho, congrArg Outcome.life ho, fun hrel => ?_⟩
  have hstrong := hrel.timers ⟨0, true, 9000000000, true⟩ (by rw [htimers]; exact List.mem_cons_self) rfl
  cases hstrong

end MyMuduo
