import MyMuduo.Proof.ServerMoves

/-!
# Idle connections

The server of `Spec/IdleServer` below an `HttpServer` is a `TcpServer` that no one forces to close
(`UnforcedOk`); every step of the `HttpServer` is one or several of its steps (`idle_step_cases`).
`IdleOk` adds the idle timers: there is at most one for each connection, only for connections that
are established, and the strong ones are the owners outside.
-/

namespace MyMuduo

open Lib

variable {Q : Type}

/-! ## The server below -/

/-- **A server that no one forces to close.** -/
structure UnforcedOk (s : TcpServer Q) : Prop where
  ok : ∃ ph, ServerOk ph s
  unforced : ∀ l c, .deferred c .forceCloseInLoop ∉ (s.loops l).work
  queued : ∀ l, ∀ t ∈ (s.loops l).rest ++ (s.loops l).m_pending_functors,
    (∃ k c, t = .life k c) ∨ ∃ c d, t = .deferred c d
  /-- the destructor runs as a functor of the pass -/
  kept : ∀ l c, .life .connectionDestructor c ∈ (s.loops l).current →
    .life .connectionDestructor c ∈ (s.loops l).functors

/-- The step is not a call of `forceClose`. -/
def ServerStep.Unforced (a : ServerStep) : Prop :=
  ∀ thread call write, a = .call thread call write → call.ofHttp = true

theorem unforced_start (numLoops : ℕ) (buffer : Q) : UnforcedOk (TcpServer.start numLoops buffer) :=
  ⟨⟨_, start_ok numLoops buffer⟩, fun _ _ => List.not_mem_nil, fun _ t ht => (by cases ht),
    fun _ _ h => (by cases h)⟩

variable [ByteQueue Q] {buffer : Q}

section

variable {s s' : TcpServer Q} {a : ServerStep} {c : ℕ}

theorem UnforcedOk.step (h : UnforcedOk s) (ha : a.Unforced) (hstep : s.step buffer a = some s') :
    UnforcedOk s' := by
  obtain ⟨ph, hs⟩ := h.ok
  obtain ⟨ph', hs', -⟩ := step_ok buffer hs hstep
  have hmoves := (step_moves hs hstep).loops
  refine ⟨⟨ph', hs'⟩, ?_, ?_, ?_⟩
  · intro l c hm
    rcases (hmoves l).work hm with hm | hm | ⟨k, c', -, hm⟩ | ⟨thread, call, write, c', d, hcall, hm, hd⟩
    · exact h.unforced l c hm
    · exact hm.1 c _ rfl
    · cases hm
    · cases hm
      exact hd (ha _ _ _ hcall) rfl
  · intro l t ht
    rcases (hmoves l).waiting ht with ht | ⟨k, c', -, ht⟩ | ⟨-, -, -, c', d, -, ht, -⟩
    · exact h.queued l t ht
    · exact Or.inl ⟨k, c', ht⟩
    · exact Or.inr ⟨c', d, ht⟩
  · intro l c hm
    cases hmoves l with
    | goes _ hfun hcur _ _ =>
      rw [hfun]
      exact h.kept l c ((hcur _ hm).resolve_right fun hd => hd.2 c rfl)
    | swap _ hcur _ _ _ _ =>
      rw [hcur] at hm
      cases hm
    | nextFunctor t _ hrest hcur hfun _ =>
      -- the functor called is one of the pass
      rw [hcur, List.mem_singleton] at hm
      rw [hfun]
      refine (hs.stack l).kept _ ?_
      rw [hrest, hm]
      exact List.mem_cons_self
    | endPass _ hcur _ _ _ _ _ =>
      rw [hcur] at hm
      cases hm

/-! ## The steps of an idle check -/

/-- A step in which no functor runs and no pass ends. -/
def ServerStep.Mild (a : ServerStep) : Prop :=
  a.Unforced ∧ (∀ l read write, a ≠ .exec l read write) ∧ ∀ l, a ≠ .endPass l

/-- What mild steps leave as it is. -/
structure Mildly (s s' : TcpServer Q) : Prop where
  live : ∀ c, s'.isLive c ↔ s.isLive c
  destructed : ∀ c, .connectionDestructor ∈ (s'.conns c).conn.trace →
    .connectionDestructor ∈ (s.conns c).conn.trace
  functors : ∀ l, ∀ t ∈ (s.loops l).functors, t ∈ (s'.loops l).functors

omit [ByteQueue Q] in
theorem Mildly.refl (s : TcpServer Q) : Mildly s s :=
  ⟨fun _ => Iff.rfl, fun _ h => h, fun _ _ h => h⟩

/-- A connection keeps its phase when no call about it runs. -/
theorem mildly_of_step (h : UnforcedOk s) (ha : a.Mild) (hstep : s.step buffer a = some s') :
    Mildly s s' := by
  obtain ⟨ph, hs⟩ := h.ok
  have hmoves := step_moves hs hstep
  refine ⟨fun c => ?_, fun c hc => ?_, fun l t ht => ?_⟩
  · cases hmoves.conns c with
    | stays hst _ =>
      rw [hs.live_iff]
      constructor
      · intro hc
        exact Phase.live_of_state hst hc
      · intro hp
        rw [hp] at hst
        exact hst
    | goes l read write _ _ _ _ he => exact absurd he (ha.2.1 l read write)
  · refine (destructed_of_step hs hstep hc).resolve_right ?_
    rintro ⟨l, read, write, -, he, -⟩
    exact ha.2.1 l read write he
  · exact ((hmoves.loops l).functors ht).resolve_right (ha.2.2 l)

theorem mildly_of_run {as : List ServerStep} (h : UnforcedOk s) (has : ∀ a ∈ as, a.Mild)
    (hrun : run (TcpServer.step buffer) s as = some s') : UnforcedOk s' ∧ Mildly s s' := by
  refine run_inv_along (I := fun t => UnforcedOk t ∧ Mildly s t) ?_ as ⟨h, .refl s⟩
    (along_of_forall s has) hrun
  rintro t a t' ⟨ht, hm⟩ ha hstep
  have hm' := mildly_of_step ht ha hstep
  refine ⟨ht.step ha.1 hstep, ?_, ?_, ?_⟩
  · intro c
    rw [hm'.live, hm.live]
  · intro c hc
    exact hm.destructed c (hm'.destructed c hc)
  · intro l x hx
    exact hm'.functors l x (hm.functors l x hx)

/-- The owners after a run. -/
theorem run_owners {as : List ServerStep} (h : UnforcedOk s) (has : ∀ a ∈ as, a.Unforced)
    (hrun : run (TcpServer.step buffer) s as = some s') :
    s'.owners = as.foldl (fun owners a => a.owners owners) s.owners := by
  refine (run_sim (R := fun t owners => UnforcedOk t ∧ t.owners = owners)
    (fun owners a => a.owners owners) ?_ as ⟨h, rfl⟩ (along_of_forall s has) hrun).2
  rintro t owners a t' ⟨ht, rfl⟩ ha hstep
  obtain ⟨ph, hs⟩ := ht.ok
  exact ⟨ht.step ha hstep, (step_moves hs hstep).owners⟩

/-- A connection that was established does not become new again. -/
theorem established_of_run {as : List ServerStep} (h : UnforcedOk s)
    (hrun : run (TcpServer.step buffer) s as = some s')
    (hc : (s.conns c).conn.m_state ≠ .kConnecting) : (s'.conns c).conn.m_state ≠ .kConnecting := by
  obtain ⟨ph, hs⟩ := h.ok
  obtain ⟨ph', hs', hforward⟩ := run_ok hs hrun
  have hnew : ∀ {p : Phase} {st}, p.State st → (st = .kConnecting ↔ p.rank < 2) := by
    intro p st hst
    cases p with
    | live => rcases hst with rfl | rfl <;> simp [Phase.rank]
    | _ => rw [show st = _ from hst]; simp [Phase.rank]
  rw [ne_eq, hnew (hs'.reg.state c)]
  rw [ne_eq, hnew (hs.reg.state c)] at hc
  have := hforward c
  omega

end

/-! ## What one step can do -/

/-- What a step can do to the server and the timers. -/
inductive IdleMove (buffer : Q) (a : IdleStep) (s s' : IdleServer Q) : Prop where
  /-- a step of the server, in which no connection is established -/
  | goes (x : ServerStep) (noCheck : ∀ i now, a ≠ .handleIdleConnection i now) (unforced : x.Unforced)
      (step : s.tcp.step buffer x = some s'.tcp) (timers : s'.timers = s.timers)
      (owners : ∀ o, x.owners o = o) (ended : ∀ l, x = .endPass l → a = .tcp (.endPass l))
      (live : ∀ c, s'.tcp.isLive c → s.tcp.isLive c)
  | inserts (i : ℕ) (noCheck : ∀ i now, a ≠ .handleIdleConnection i now) (tcp : s'.tcp = s.tcp)
      (timers : s'.timers = s.timers.modify i fun t => { t with inserted := true })
  /-- a connection is established, and gets its first timer -/
  | establishes (noCheck : ∀ i now, a ≠ .handleIdleConnection i now) (l : ℕ) (read : Except ℕ Bytes)
      (write : Except ℕ ℕ) (c : ℕ) (stack : List Task) (tcp : TcpServer Q) (m_expiration : ℤ)
      (inserted : Bool) (current : (s.tcp.loops l).current = .life .connectionEstablished c :: stack)
      (exec : s.tcp.step buffer (.exec l read write) = some tcp)
      (retain : tcp.step buffer (.retain c) = some s'.tcp)
      (timers : s'.timers = s.timers ++ [⟨c, true, m_expiration, inserted⟩])
  /-- an idle check, which may arm its timer again -/
  | checks (i : ℕ) (now : ℤ) (t : IdleTimer) (step : a = .handleIdleConnection i now)
      (timer : s.timers[i]? = some t)
      (ran : run (TcpServer.step buffer) s.tcp (s.idleSteps t now) = some s'.tcp)
      (timers : s'.timers = s.timers.eraseIdx i ++ if s.locks t && !s.isIdle t.conn now then
        [⟨t.conn, false, Timestamp.addTime now kIdleConnectionTimeOuts, true⟩] else [])

section

variable {s s' : IdleServer Q} {a : IdleStep}

/-- `connectionEstablished`, up to its callback, ends in `kConnected`. -/
theorem exec_established {tcp tcp' : TcpServer Q} {l c : ℕ} {stack : List Task} {ph : ℕ → Phase}
    (h : ServerOk ph tcp) (hcur : (tcp.loops l).current = .life .connectionEstablished c :: stack)
    {read : Except ℕ Bytes} {write : Except ℕ ℕ}
    (hstep : tcp.step buffer (.exec l read write) = some tcp') :
    (tcp.conns c).conn.m_state = .kConnecting ∧ (tcp'.conns c).conn.m_state = .kConnected := by
  obtain ⟨-, hdue, -⟩ := h.fits hcur rfl
  have hp : ph c = .connecting := by
    cases hp : ph c with
    | connecting => rfl
    | _ => rw [hp] at hdue; cases hdue
  have hst := h.reg.state c
  rw [hp] at hst
  refine ⟨hst, ?_⟩
  obtain ⟨e, hrun, hconn⟩ := exec_life h hcur hstep
  unfold runLife Effect.of at hrun
  dsimp only at hrun
  split at hrun
  · next hok =>
    cases hrun
    rw [hconn]
    exact connectionEstablished_state hok
  · cases hrun

/-- A connection that is destructed is not connected. -/
theorem exec_destructed {tcp tcp' : TcpServer Q} {l c : ℕ} {stack : List Task} {ph : ℕ → Phase}
    (h : ServerOk ph tcp) (hcur : (tcp.loops l).current = .life .connectionDestructor c :: stack)
    {read : Except ℕ Bytes} {write : Except ℕ ℕ}
    (hstep : tcp.step buffer (.exec l read write) = some tcp') :
    (tcp'.conns c).conn.m_state ≠ .kConnected := by
  intro hst
  obtain ⟨-, hdue, -⟩ := h.fits hcur rfl
  rcases live_of_step h hstep (Or.inl hst) with hlive | ⟨l', read', write', stack', he, hcur'⟩
  · rw [(h.live_iff c).1 hlive] at hdue
    cases hdue
  · cases he
    rw [hcur] at hcur'
    cases hcur'

/-- A call under way, and the callback it ends in. -/
theorem idle_exec_cases (h : UnforcedOk s.tcp) {l : ℕ} {read : Except ℕ Bytes} {write : Except ℕ ℕ}
    {now : ℤ} (hstep : s.step buffer (.exec l read write now) = some s') :
    IdleMove buffer (.exec l read write now) s s' := by
  obtain ⟨ph, hs⟩ := h.ok
  have hno : ∀ i now', IdleStep.exec l read write now ≠ .handleIdleConnection i now' := fun _ _ => by simp
  unfold IdleServer.step at hstep
  dsimp only at hstep
  split at hstep
  · cases hstep
  next t stack hcur =>
  obtain ⟨tcp, htcp, hcall⟩ := Option.bind_eq_some_iff.1 hstep
  -- outside of `connectionEstablished` no connection becomes live
  have hgoes : (∀ c, t ≠ .life .connectionEstablished c) → s'.tcp = tcp → s'.timers = s.timers →
      IdleMove buffer (.exec l read write now) s s' := by
    intro ht h1 h2
    refine .goes (.exec l read write) hno (fun _ _ _ he => by cases he) (h1 ▸ htcp) h2 (fun _ => rfl)
      (fun _ he => by cases he) fun c hc => ?_
    rw [h1] at hc
    refine (live_of_step hs htcp hc).resolve_right ?_
    rintro ⟨l', read', write', stack', he, hcur'⟩
    cases he
    rw [hcur] at hcur'
    cases hcur'
    exact ht c rfl
  unfold IdleServer.callback at hcall
  split at hcall
  · next c =>
    obtain ⟨-, hst⟩ := exec_established hs hcur htcp
    unfold IdleServer.onConnection at hcall
    rw [if_pos hst] at hcall
    obtain ⟨tcp', hretain, rfl⟩ := Option.map_eq_some_iff.1 hcall
    exact .establishes hno l read write c stack tcp _ _ hcur htcp hretain rfl
  · next c =>
    unfold IdleServer.onConnection at hcall
    rw [if_neg (exec_destructed hs hcur htcp)] at hcall
    cases hcall
    exact hgoes (fun _ => by simp) rfl rfl
  · next c =>
    split at hcall
    · cases hcall
      exact hgoes (fun _ => by simp) rfl rfl
    · cases hcall
      exact hgoes (fun _ => by simp) rfl rfl
  · next hother _ _ =>
    cases hcall
    exact hgoes hother rfl rfl

/-- **What one step can do.** -/
theorem idle_step_cases (h : UnforcedOk s.tcp) (hstep : s.step buffer a = some s') :
    IdleMove buffer a s s' := by
  obtain ⟨ph, hs⟩ := h.ok
  cases a with
  | exec l read write now => exact idle_exec_cases h hstep
  | tcp x =>
    unfold IdleServer.step at hstep
    dsimp only at hstep
    split at hstep
    · next hx =>
      obtain ⟨tcp, htcp, rfl⟩ := Option.map_eq_some_iff.1 hstep
      refine .goes x (fun _ _ => by simp) ?_ htcp rfl ?_ (fun l he => by rw [he]) fun c hc => ?_
      · rintro thread call write rfl
        cases hx
      · intro o
        cases x <;> first | rfl | cases hx
      · refine (live_of_step hs htcp hc).resolve_right ?_
        rintro ⟨l, read, write, stack, rfl, -⟩
        cases hx
    · cases hstep
  | call l call write =>
    unfold IdleServer.step at hstep
    dsimp only at hstep
    split at hstep
    · next hg =>
      obtain ⟨tcp, htcp, rfl⟩ := Option.map_eq_some_iff.1 hstep
      refine .goes (.call (some l) call write) (fun _ _ => by simp) ?_ htcp rfl (fun _ => rfl)
        (fun _ he => by cases he) fun c hc => ?_
      · intro thread call' write' he
        cases he
        exact hg.1
      · refine (live_of_step hs htcp hc).resolve_right ?_
        rintro ⟨l', read, write', stack, he, -⟩
        cases he
    · cases hstep
  | addTimerInLoop i =>
    unfold IdleServer.step at hstep
    dsimp only at hstep
    split at hstep
    · cases hstep
      exact .inserts i (fun _ _ => by simp) rfl rfl
    · cases hstep
  | handleIdleConnection i now =>
    unfold IdleServer.step at hstep
    dsimp only at hstep
    split at hstep
    · cases hstep
    · next t ht =>
      split at hstep
      · obtain ⟨tcp, hrun, rfl⟩ := Option.map_eq_some_iff.1 hstep
        refine .checks i now t rfl ht ?_ ?_
        · dsimp only
          split
          · exact hrun
          · exact hrun
        · dsimp only
          split
          · rfl
          · rw [List.append_nil]
      · cases hstep

end

/-! ## The timers -/

omit [ByteQueue Q] in
/-- The steps of an idle check are mild. -/
theorem idleSteps_mild (s : IdleServer Q) (t : IdleTimer) (now : ℤ) :
    ∀ a ∈ s.idleSteps t now, a.Mild := by
  have hmild : ∀ a : ServerStep, a = .timer 0 ∨ a = .call (some 0) (.shutDown t.conn) (.ok 0) ∨
      a = .return_ 0 ∨ a = .release t.conn → a.Mild := by
    rintro a (rfl | rfl | rfl | rfl)
    · exact ⟨fun _ _ _ he => (by cases he), fun _ _ _ => by simp, fun _ => by simp⟩
    · exact ⟨fun _ _ _ he => (by cases he; rfl), fun _ _ _ => by simp, fun _ => by simp⟩
    · exact ⟨fun _ _ _ he => (by cases he), fun _ _ _ => by simp, fun _ => by simp⟩
    · exact ⟨fun _ _ _ he => (by cases he), fun _ _ _ => by simp, fun _ => by simp⟩
  intro a ha
  refine hmild a ?_
  unfold IdleServer.idleSteps at ha
  simp only [List.mem_append, List.mem_singleton] at ha
  rcases ha with ((ha | ha) | ha) | ha
  · exact Or.inl ha
  · split at ha
    · exact Or.inr (Or.inl (List.mem_singleton.1 ha))
    · cases ha
  · exact Or.inr (Or.inr (Or.inl ha))
  · split at ha
    · exact Or.inr (Or.inr (Or.inr (List.mem_singleton.1 ha)))
    · cases ha

omit [ByteQueue Q] in
/-- A strong timer gives up its connection, a weak one has nothing to give up. -/
theorem idleSteps_owners (s : IdleServer Q) (t : IdleTimer) (now : ℤ) (owners : List ℕ) :
    (s.idleSteps t now).foldl (fun owners a => a.owners owners) owners =
      if t.strong then owners.erase t.conn else owners := by
  unfold IdleServer.idleSteps
  split <;> split <;> rfl

/-- The connections with an idle check to come. -/
def IdleServer.checked (s : IdleServer Q) : List ℕ := s.timers.map IdleTimer.conn

/-- The connections that a timer owns. -/
def IdleServer.heldByTimers (s : IdleServer Q) : List ℕ :=
  (s.timers.filter IdleTimer.strong).map IdleTimer.conn

/-- **The timers.** -/
structure IdleOk (s : IdleServer Q) : Prop where
  tcp : UnforcedOk s.tcp
  owners : List.Perm s.tcp.owners s.heldByTimers
  established : ∀ c ∈ s.checked, (s.tcp.conns c).conn.m_state ≠ .kConnecting
  once : s.checked.Nodup

omit [ByteQueue Q] in
theorem idle_start (numLoops : ℕ) (buffer : Q) : IdleOk (IdleServer.start numLoops buffer) :=
  ⟨unforced_start numLoops buffer, List.Perm.refl _, fun _ h => (by cases h), List.nodup_nil⟩

section

variable {s s' : IdleServer Q} {a : IdleStep}

omit [ByteQueue Q] in
/-- `addTimerInLoop` is not seen from outside. -/
theorem inserts_same {i : ℕ} (h : s'.timers = s.timers.modify i fun t => { t with inserted := true }) :
    s'.checked = s.checked ∧ s'.heldByTimers = s.heldByTimers := by
  have hkey : s'.timers.map (fun t => (t.conn, t.strong)) = s.timers.map fun t => (t.conn, t.strong) := by
    rw [h]
    clear h
    generalize s.timers = timers
    induction timers generalizing i with
    | nil => simp
    | cons t timers ih =>
      cases i with
      | zero => rfl
      | succ i =>
        rw [List.modify_succ_cons, List.map_cons, ih, List.map_cons]
  have hfst : ∀ timers : List IdleTimer, timers.map IdleTimer.conn =
      (timers.map fun t => (t.conn, t.strong)).map Prod.fst := by
    intro timers
    rw [List.map_map]
    rfl
  have hsnd : ∀ timers : List IdleTimer, (timers.filter IdleTimer.strong).map IdleTimer.conn =
      ((timers.map fun t => (t.conn, t.strong)).filter Prod.snd).map Prod.fst := by
    intro timers
    rw [List.filter_map, List.map_map]
    rfl
  constructor
  · unfold IdleServer.checked
    rw [hfst, hkey, ← hfst]
  · unfold IdleServer.heldByTimers
    rw [hsnd, hkey, ← hsnd]

omit [ByteQueue Q] in
theorem timers_perm {i : ℕ} {t : IdleTimer} (ht : s.timers[i]? = some t) :
    List.Perm (t :: s.timers.eraseIdx i) s.timers := by
  obtain ⟨hi, rfl⟩ := List.getElem?_eq_some_iff.1 ht
  exact List.getElem_cons_eraseIdx_perm hi

omit [ByteQueue Q] in
/-- A check takes its connection out, and puts it in again if it arms the timer. -/
theorem checks_checked {i : ℕ} {now : ℤ} {t : IdleTimer} (ht : s.timers[i]? = some t)
    (htimers : s'.timers = s.timers.eraseIdx i ++ if s.locks t && !s.isIdle t.conn now then
      [⟨t.conn, false, Timestamp.addTime now kIdleConnectionTimeOuts, true⟩] else []) :
    ∃ rest, List.Perm s.checked (t.conn :: rest) ∧
      List.Perm s'.checked (if s.locks t && !s.isIdle t.conn now then t.conn :: rest else rest) := by
  refine ⟨(s.timers.eraseIdx i).map IdleTimer.conn, ?_, ?_⟩
  · exact ((timers_perm ht).map IdleTimer.conn).symm
  · unfold IdleServer.checked
    rw [htimers, List.map_append]
    split
    · exact List.perm_append_comm
    · rw [List.map_nil, List.append_nil]

omit [ByteQueue Q] in
/-- A check of a strong timer takes its connection from the owners. -/
theorem checks_held {i : ℕ} {now : ℤ} {t : IdleTimer} (ht : s.timers[i]? = some t)
    (htimers : s'.timers = s.timers.eraseIdx i ++ if s.locks t && !s.isIdle t.conn now then
      [⟨t.conn, false, Timestamp.addTime now kIdleConnectionTimeOuts, true⟩] else []) :
    List.Perm s.heldByTimers (if t.strong then t.conn :: s'.heldByTimers else s'.heldByTimers) := by
  have hs' : s'.heldByTimers = ((s.timers.eraseIdx i).filter IdleTimer.strong).map IdleTimer.conn := by
    unfold IdleServer.heldByTimers
    rw [htimers, List.filter_append]
    split
    · simp
    · simp
  have hperm := (((timers_perm ht).filter IdleTimer.strong).map IdleTimer.conn).symm
  rw [hs']
  unfold IdleServer.heldByTimers
  rw [List.filter_cons] at hperm
  split at hperm
  · next hstrong =>
    rw [if_pos hstrong]
    exact hperm
  · next hweak =>
    rw [if_neg hweak]
    exact hperm

/-- A connection that is established gets a timer, its first. -/
theorem IdleOk.establish (h : IdleOk s) {ph : ℕ → Phase} (hs : ServerOk ph s.tcp) {l c : ℕ}
    {read : Except ℕ Bytes} {write : Except ℕ ℕ} {stack : List Task} {tcp : TcpServer Q}
    {m_expiration : ℤ} {inserted : Bool}
    (hcur : (s.tcp.loops l).current = .life .connectionEstablished c :: stack)
    (hexec : s.tcp.step buffer (.exec l read write) = some tcp)
    (hretain : tcp.step buffer (.retain c) = some s'.tcp)
    (htimers : s'.timers = s.timers ++ [⟨c, true, m_expiration, inserted⟩]) : IdleOk s' := by
  obtain ⟨hnew, hst⟩ := exec_established hs hcur hexec
  have hx₁ : (ServerStep.exec l read write).Unforced := fun _ _ _ he => by cases he
  have hx₂ : (ServerStep.retain c).Unforced := fun _ _ _ he => by cases he
  have htcp := h.tcp.step hx₁ hexec
  have hrun₂ : run (TcpServer.step buffer) tcp [.retain c] = some s'.tcp := by simp [run, hretain]
  have hrun : run (TcpServer.step buffer) s.tcp [.exec l read write, .retain c] = some s'.tcp := by
    simp [run, hexec, hretain]
  have hchecked : s'.checked = s.checked ++ [c] := by
    unfold IdleServer.checked
    rw [htimers, List.map_append]
    rfl
  have hheld : s'.heldByTimers = s.heldByTimers ++ [c] := by
    unfold IdleServer.heldByTimers
    rw [htimers, List.filter_append, List.map_append]
    rfl
  obtain ⟨ph₁, hs₁⟩ := htcp.ok
  have howners : s'.tcp.owners = c :: s.tcp.owners := by
    rw [(step_moves hs₁ hretain).owners, (step_moves hs hexec).owners]
    rfl
  refine ⟨htcp.step hx₂ hretain, ?_, ?_, ?_⟩
  · rw [howners, hheld]
    exact (h.owners.cons c).trans (List.perm_append_singleton c _).symm
  · intro c' hc'
    rw [hchecked] at hc'
    rcases List.mem_append.1 hc' with hc' | hc'
    · exact established_of_run h.tcp hrun (h.established c' hc')
    · rw [List.mem_singleton.1 hc']
      refine established_of_run htcp hrun₂ ?_
      rw [hst]
      decide
  -- the connection was new until now
  · rw [hchecked]
    refine List.nodup_append.2 ⟨h.once, List.nodup_singleton c, ?_⟩
    rintro c' hc' _ hm rfl
    rw [List.mem_singleton.1 hm] at hc'
    exact h.established c hc' hnew

/-- An idle check takes its timer out, and may arm another for the same connection. -/
theorem IdleOk.check (h : IdleOk s) {i : ℕ} {now : ℤ} {t : IdleTimer} (ht : s.timers[i]? = some t)
    (hrun : run (TcpServer.step buffer) s.tcp (s.idleSteps t now) = some s'.tcp)
    (htimers : s'.timers = s.timers.eraseIdx i ++ if s.locks t && !s.isIdle t.conn now then
      [⟨t.conn, false, Timestamp.addTime now kIdleConnectionTimeOuts, true⟩] else []) : IdleOk s' := by
  have hmild := idleSteps_mild s t now
  obtain ⟨htcp, -⟩ := mildly_of_run h.tcp hmild hrun
  obtain ⟨rest, hbefore, hafter⟩ := checks_checked ht htimers
  have honce : (t.conn :: rest).Nodup := hbefore.nodup_iff.1 h.once
  have hsub : ∀ c ∈ s'.checked, c ∈ s.checked := by
    intro c hc
    rw [hafter.mem_iff] at hc
    rw [hbefore.mem_iff]
    split at hc
    · exact hc
    · exact List.mem_cons_of_mem _ hc
  refine ⟨htcp, ?_, ?_, ?_⟩
  · have hheld := checks_held ht htimers
    have howners := run_owners h.tcp (fun a ha => (hmild a ha).1) hrun
    rw [idleSteps_owners] at howners
    rw [howners]
    split
    · next hstrong =>
      rw [if_pos hstrong] at hheld
      exact (List.cons_perm_iff_perm_erase.1 (h.owners.trans hheld).symm).2.symm
    · next hweak =>
      rw [if_neg hweak] at hheld
      exact h.owners.trans hheld
  · intro c hc
    exact established_of_run h.tcp hrun (h.established c (hsub c hc))
  · rw [hafter.nodup_iff]
    split
    · exact honce
    · exact (List.nodup_cons.1 honce).2

/-- **One step** keeps the timers in order. -/
theorem IdleOk.step (h : IdleOk s) (hstep : s.step buffer a = some s') : IdleOk s' := by
  obtain ⟨ph, hs⟩ := h.tcp.ok
  cases idle_step_cases h.tcp hstep with
  | goes x _ hx htcp htimers howners _ _ =>
    have hchecked : s'.checked = s.checked := by
      unfold IdleServer.checked
      rw [htimers]
    have hheld : s'.heldByTimers = s.heldByTimers := by
      unfold IdleServer.heldByTimers
      rw [htimers]
    have hrun : run (TcpServer.step buffer) s.tcp [x] = some s'.tcp := by simp [run, htcp]
    refine ⟨h.tcp.step hx htcp, ?_, ?_, ?_⟩
    · rw [(step_moves hs htcp).owners, howners, hheld]
      exact h.owners
    · rw [hchecked]
      intro c hc
      exact established_of_run h.tcp hrun (h.established c hc)
    · rw [hchecked]
      exact h.once
  | inserts i _ htcp htimers =>
    obtain ⟨hchecked, hheld⟩ := inserts_same htimers
    refine ⟨htcp ▸ h.tcp, ?_, ?_, ?_⟩
    · rw [htcp, hheld]
      exact h.owners
    · rw [htcp, hchecked]
      exact h.established
    · rw [hchecked]
      exact h.once
  | establishes _ _ _ _ _ _ _ _ _ hcur hexec hretain htimers =>
    exact h.establish hs hcur hexec hretain htimers
  | checks _ _ _ _ ht hrun htimers => exact h.check ht hrun htimers

end

/-- **A whole run.** -/
theorem idle_run_ok {numLoops : ℕ} {steps : List IdleStep} {s : IdleServer Q}
    (hrun : run (IdleServer.step buffer) (IdleServer.start numLoops buffer) steps = some s) : IdleOk s :=
  run_inv (fun _ _ _ h hstep => h.step hstep) (idle_start numLoops buffer) hrun

/-! ## No orphans -/

/-- The call will remove the connection, or leads to one that will. -/
def Task.removes (c : ℕ) (t : Task) : Bool :=
  t = .deferred c .forceCloseInLoop ∨ t = .life .closeCallback c ∨
    t = .life .handleRemoveConnectionInLoop c ∨ t = .life .connectionDestructor c

/-- Such a call is under way or queued. -/
def IdleServer.removalDue (s : IdleServer Q) (c : ℕ) : Bool :=
  (List.range s.tcp.numLoops).any fun l => (s.tcp.loops l).work.any (Task.removes c)

/-- **No orphaned connection**: one that is established and in `m_connections` has an idle check to
come, or will be removed. -/
def NoOrphan (s : IdleServer Q) : Prop :=
  ∀ c, s.tcp.m_connections (s.tcp.fd c) = some c → (s.tcp.conns c).conn.m_state ≠ .kConnecting →
    c ∈ s.checked ∨ s.removalDue c = true

/-- The step is not an idle check that finds its connection idle, in `m_connections`, and not about to
be removed. -/
def IdleServer.keeps (s : IdleServer Q) : IdleStep → Bool
  | .handleIdleConnection i now => s.timers[i]?.all fun t =>
    !(s.isIdle t.conn now && s.tcp.m_connections (s.tcp.fd t.conn) = some t.conn) || s.removalDue t.conn
  | _ => true

section

variable {s s' : IdleServer Q} {a : IdleStep} {ph : ℕ → Phase} {c : ℕ}

omit [ByteQueue Q] in
/-- The call that is due in a phase after `live` removes the connection. -/
theorem removalDue_of_due (hs : ServerOk ph s.tcp) {k : LifeStep} (hk : (ph c).due = some k)
    (hremoves : Task.removes c (.life k c) = true) : s.removalDue c = true := by
  have hborn : ph c ≠ .unborn := by
    intro h0
    rw [h0] at hk
    cases hk
  have hhome := hs.reg.home c hborn
  have hplace : k.place (s.tcp.home c) < s.tcp.numLoops := by
    cases k with
    | handleRemoveConnectionInLoop =>
      show 0 < s.tcp.numLoops
      omega
    | _ => exact hhome
  unfold IdleServer.removalDue
  simp only [List.any_eq_true, List.mem_range]
  exact ⟨_, hplace, _, hs.work_of_due hk, hremoves⟩

omit [ByteQueue Q] in
/-- While it is live nobody is about to remove it. -/
theorem not_removalDue (h : UnforcedOk s.tcp) (hc : s.tcp.isLive c) : s.removalDue c = false := by
  obtain ⟨ph, hs⟩ := h.ok
  have hp := (hs.live_iff c).1 hc
  by_contra hdue
  unfold IdleServer.removalDue at hdue
  simp only [Bool.not_eq_false, List.any_eq_true, List.mem_range, Task.removes, decide_eq_true_eq] at hdue
  obtain ⟨l, -, t, ht, hcase⟩ := hdue
  -- no token is out
  have hnone : ∀ k, .life k c ∉ (s.tcp.loops l).work := by
    intro k hm
    have hdue := (hs.due_of_work hm).1
    rw [hp] at hdue
    cases hdue
  rcases hcase with rfl | rfl | rfl | rfl
  · exact h.unforced l c ht
  · exact hnone _ ht
  · exact hnone _ ht
  · exact hnone _ ht

omit [ByteQueue Q] in
theorem mapped_of_live (hs : ServerOk ph s.tcp) (hc : s.tcp.isLive c) :
    s.tcp.m_connections (s.tcp.fd c) = some c :=
  (hs.reg.map _ c).2 ⟨by rw [(hs.live_iff c).1 hc]; rfl, rfl⟩

omit [ByteQueue Q] in
/-- A connection in `m_connections` that is no longer live is being removed. -/
theorem removalDue_of_not_live (hs : ServerOk ph s.tcp)
    (hmap : s.tcp.m_connections (s.tcp.fd c) = some c)
    (hst : (s.tcp.conns c).conn.m_state ≠ .kConnecting) (hlive : ¬s.tcp.isLive c) :
    s.removalDue c = true := by
  have hin := ((hs.reg.map _ c).1 hmap).1
  have hstate := hs.reg.state c
  cases hp : ph c with
  | closing => exact removalDue_of_due hs (k := .closeCallback) (by rw [hp]; rfl) (by simp [Task.removes])
  | removing =>
    exact removalDue_of_due hs (k := .handleRemoveConnectionInLoop) (by rw [hp]; rfl)
      (by simp [Task.removes])
  | live => exact absurd ((hs.live_iff c).2 hp) hlive
  | connecting =>
    rw [hp] at hstate
    exact absurd hstate hst
  | unborn | destructing | deregistering | gone =>
    rw [hp] at hin
    cases hin

omit [ByteQueue Q] in
/-- **Only a live connection can be an orphan.** -/
theorem noOrphan_iff (h : UnforcedOk s.tcp) : NoOrphan s ↔ ∀ c, s.tcp.isLive c → c ∈ s.checked := by
  obtain ⟨ph, hs⟩ := h.ok
  constructor
  · intro hno c hc
    have hst : (s.tcp.conns c).conn.m_state ≠ .kConnecting := by
      rcases hc with hc | hc <;> rw [hc] <;> decide
    refine (hno c (mapped_of_live hs hc) hst).resolve_right ?_
    rw [not_removalDue h hc]
    decide
  · intro hlive c hmap hst
    by_cases hc : s.tcp.isLive c
    · exact Or.inl (hlive c hc)
    · exact Or.inr (removalDue_of_not_live hs hmap hst hc)

/-- An idle check keeps its connection checked unless it finds it idle. -/
theorem check_keeps_iff (h : IdleOk s) (hno : NoOrphan s) {i : ℕ} {now : ℤ} {t : IdleTimer}
    (ht : s.timers[i]? = some t)
    (hrun : run (TcpServer.step buffer) s.tcp (s.idleSteps t now) = some s'.tcp)
    (htimers : s'.timers = s.timers.eraseIdx i ++ if s.locks t && !s.isIdle t.conn now then
      [⟨t.conn, false, Timestamp.addTime now kIdleConnectionTimeOuts, true⟩] else []) :
    s.keeps (.handleIdleConnection i now) = true ↔ NoOrphan s' := by
  obtain ⟨ph, hs⟩ := h.tcp.ok
  obtain ⟨htcp', hmild⟩ := mildly_of_run h.tcp (idleSteps_mild s t now) hrun
  obtain ⟨rest, hbefore, hafter⟩ := checks_checked ht htimers
  have honce : (t.conn :: rest).Nodup := hbefore.nodup_iff.1 h.once
  rw [noOrphan_iff htcp']
  rw [noOrphan_iff h.tcp] at hno
  unfold IdleServer.keeps
  dsimp only
  rw [ht, Option.all_some]
  by_cases hlive : s.tcp.isLive t.conn
  · -- in `m_connections`, so locked, and not being removed
    have hmap := mapped_of_live hs hlive
    have hlocks : s.locks t = true := by
      unfold IdleServer.locks TcpServer.owned
      simp [hmap]
    rw [not_removalDue h.tcp hlive, hmap]
    rw [hlocks, Bool.true_and] at hafter
    cases hidle : s.isIdle t.conn now with
    | true =>
      rw [hidle, Bool.not_true, if_neg (by simp)] at hafter
      refine iff_of_false (by simp) fun hall => ?_
      have hmem := hall t.conn ((hmild.live _).2 hlive)
      rw [hafter.mem_iff] at hmem
      exact (List.nodup_cons.1 honce).1 hmem
    | false =>
      rw [hidle, Bool.not_false, if_pos rfl] at hafter
      refine iff_of_true (by simp) fun c hc => ?_
      rw [hafter.mem_iff, ← hbefore.mem_iff]
      exact hno c ((hmild.live c).1 hc)
  · -- nothing is lost with the check of a connection that is not live
    have hkeep : (!(s.isIdle t.conn now && decide (s.tcp.m_connections (s.tcp.fd t.conn) = some t.conn)) ||
        s.removalDue t.conn) = true := by
      by_cases hmap : s.tcp.m_connections (s.tcp.fd t.conn) = some t.conn
      · have hst := h.established t.conn (hbefore.mem_iff.2 List.mem_cons_self)
        simp [removalDue_of_not_live hs hmap hst hlive]
      · simp [hmap]
    refine iff_of_true hkeep fun c hc => ?_
    have hc' := (hmild.live c).1 hc
    have hne : c ≠ t.conn := by
      rintro rfl
      exact hlive hc'
    have hmem := hbefore.mem_iff.1 (hno c hc')
    rw [hafter.mem_iff]
    split
    · exact hmem
    · exact (List.mem_cons.1 hmem).resolve_left hne

/-- **One step** leaves an orphan behind exactly if it is an idle check that does not keep. -/
theorem noOrphan_step (h : IdleOk s) (hno : NoOrphan s) (hstep : s.step buffer a = some s') :
    s.keeps a = true ↔ NoOrphan s' := by
  have h' := h.step hstep
  have hlive := (noOrphan_iff h.tcp).1 hno
  have hother : (∀ i now, a ≠ .handleIdleConnection i now) → s.keeps a = true := by
    intro ha
    unfold IdleServer.keeps
    split
    · next i now => exact absurd rfl (ha i now)
    · rfl
  cases idle_step_cases h.tcp hstep with
  | goes x ha _ _ htimers _ _ hgoes =>
    refine iff_of_true (hother ha) ((noOrphan_iff h'.tcp).2 fun c hc => ?_)
    unfold IdleServer.checked
    rw [htimers]
    exact hlive c (hgoes c hc)
  | inserts i ha htcp htimers =>
    refine iff_of_true (hother ha) ((noOrphan_iff h'.tcp).2 fun c hc => ?_)
    rw [(inserts_same htimers).1]
    rw [htcp] at hc
    exact hlive c hc
  | establishes ha l read write c stack tcp _ _ hcur hexec hretain htimers =>
    obtain ⟨ph, hs⟩ := h.tcp.ok
    have htcp := h.tcp.step (fun _ _ _ he => by cases he) hexec
    obtain ⟨ph₁, hs₁⟩ := htcp.ok
    refine iff_of_true (hother ha) ((noOrphan_iff h'.tcp).2 fun c' hc' => ?_)
    unfold IdleServer.checked
    rw [htimers, List.map_append, List.mem_append]
    -- the connection is the only one that became live
    have hc₁ : tcp.isLive c' := by
      refine (live_of_step hs₁ hretain hc').resolve_right ?_
      rintro ⟨_, _, _, _, he, -⟩
      cases he
    rcases live_of_step hs hexec hc₁ with hc₀ | ⟨_, _, _, stack', he, hcur'⟩
    · exact Or.inl (hlive c' hc₀)
    · cases he
      rw [hcur] at hcur'
      cases hcur'
      exact Or.inr (List.mem_singleton.2 rfl)
  | checks i now t ha ht hrun htimers =>
    subst ha
    exact check_keeps_iff h hno ht hrun htimers

/-- **A connection is orphaned exactly by an idle check that finds it idle**: in every run, no state
has an orphan if and only if no idle check finds its connection idle while that is in `m_connections`
and not about to be removed. -/
theorem no_orphan_iff_keeps (numLoops : ℕ) (buffer : Q) {steps : List IdleStep} {s : IdleServer Q}
    (hrun : run (IdleServer.step buffer) (IdleServer.start numLoops buffer) steps = some s) :
    (∀ n t, run (IdleServer.step buffer) (IdleServer.start numLoops buffer) (steps.take n) = some t →
      NoOrphan t) ↔
    Along (IdleServer.step buffer) (fun s a => s.keeps a = true) (IdleServer.start numLoops buffer) steps := by
  have h₀ := idle_start numLoops buffer
  have hno₀ : NoOrphan (IdleServer.start numLoops buffer) := by
    intro c hc
    cases hc
  refine forall_run_iff_along (I := fun s => IdleOk s ∧ NoOrphan s) (fun _ h => h.2) ?_ steps ⟨h₀, hno₀⟩ hrun
  rintro s a s' ⟨h, hno⟩ hstep
  have hiff := noOrphan_step h hno hstep
  exact ⟨hiff, fun hk => ⟨h.step hstep, hiff.1 hk⟩⟩

end

/-- A connection of loop 1, established one second after the clock began, and its first timer. -/
def establishingSteps : List IdleStep :=
  [.tcp (.poll 0 []), .tcp (.accept 5 1),
    .tcp (.poll 1 []), .tcp (.swap 1), .tcp (.nextFunctor 1), .exec 1 (.ok []) (.ok 0) 1000000000,
    .tcp (.return_ 1), .tcp (.endPass 1),
    .tcp (.swap 0), .addTimerInLoop 0, .tcp (.endPass 0)]

/-- The client sends a message after four seconds; the idle check is early, and comes again. -/
def talkingSteps : List IdleStep :=
  establishingSteps ++
    [.tcp (.poll 1 [(5, kReadEvent)]), .tcp (.handleEvent 1), .exec 1 (.ok [7]) (.ok 0) 5000000000,
      .call 1 (.send 0 [8]) (.ok 1), .tcp (.return_ 1), .tcp (.swap 1), .tcp (.endPass 1),
      .tcp (.poll 0 []), .handleIdleConnection 0 9000000001]

theorem no_orphan_iff_keeps_talking :
    ∃ s : IdleServer Buffer,
      run (IdleServer.step (.new 8)) (IdleServer.start 2 (.new 8)) talkingSteps = some s ∧
      s.tcp.m_connections 5 = some 0 ∧ s.checked = [0] ∧ s.heldByTimers = [] ∧
      ∀ n t, run (IdleServer.step (Buffer.new 8)) (IdleServer.start 2 (Buffer.new 8))
        (talkingSteps.take n) = some t → NoOrphan t := by
  have hvalue : (run (IdleServer.step (Buffer.new 8)) (IdleServer.start 2 (Buffer.new 8)) talkingSteps).map
      (fun s => (s.tcp.m_connections 5, s.checked, s.heldByTimers)) = some (some 0, [0], []) := by
    decide +kernel
  obtain ⟨s, hs, hv⟩ := Option.map_eq_some_iff.1 hvalue
  obtain ⟨h1, h2⟩ := Prod.mk.inj hv
  obtain ⟨h2, h3⟩ := Prod.mk.inj h2
  exact ⟨s, hs, h1, h2, h3, (no_orphan_iff_keeps 2 (Buffer.new 8) hs).2 (by decide +kernel)⟩

/-- The client stays silent: the idle check shuts the write side down, and the client does not
close. -/
def silentSteps : List IdleStep :=
  establishingSteps ++
    [.tcp (.poll 0 []), .handleIdleConnection 0 9000000001,
      .tcp (.poll 1 []), .tcp (.swap 1), .tcp (.nextFunctor 1), .exec 1 (.ok []) (.ok 0) 9000000001,
      .tcp (.endPass 1)]

theorem orphan_silent :
    ∃ s : IdleServer Buffer,
      run (IdleServer.step (.new 8)) (IdleServer.start 2 (.new 8)) silentSteps = some s ∧
      s.tcp.m_connections 5 = some 0 ∧ (s.tcp.conns 0).conn.m_state = .kDisconnecting ∧ s.timers = [] ∧
      s.removalDue 0 = false ∧ ¬NoOrphan s := by
  have hvalue : (run (IdleServer.step (Buffer.new 8)) (IdleServer.start 2 (Buffer.new 8)) silentSteps).map
      (fun s => (s.tcp.m_connections 5, (s.tcp.conns 0).conn.m_state, s.timers, s.removalDue 0, s.tcp.fd 0)) =
        some (some 0, .kDisconnecting, [], false, 5) := by
    decide +kernel
  obtain ⟨s, hs, hv⟩ := Option.map_eq_some_iff.1 hvalue
  obtain ⟨h1, h2⟩ := Prod.mk.inj hv
  obtain ⟨h2, h3⟩ := Prod.mk.inj h2
  obtain ⟨h3, h4⟩ := Prod.mk.inj h3
  obtain ⟨h4, h5⟩ := Prod.mk.inj h4
  refine ⟨s, hs, h1, h2, h3, h4, fun hno => ?_⟩
  rcases hno 0 (by rw [h5, h1]) (by rw [h2]; decide) with hc | hc
  · rw [IdleServer.checked, h3] at hc
    cases hc
  · rw [h4] at hc
    cases hc

end MyMuduo
