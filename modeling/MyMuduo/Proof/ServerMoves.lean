import MyMuduo.Proof.Server
import MyMuduo.Spec.IdleServer

/-!
# What one step of the server can do

The invariant of the server says what its states look like. For the components around the server
we say here, once, what a step can change (`step_moves`):

* the owners outside change with `retain` and `release` only;
* a loop goes on with its calls, or it begins, goes on with or ends a pass (`LoopMove`);
* a connection changes its phase only by a call about it (`ConnMove`), and the call is the one that
  was due (`live_of_step`, `destructed_of_step`).
-/

namespace MyMuduo

open Lib

variable {Q : Type} {ph : ℕ → Phase} {s s' : TcpServer Q} {a : ServerStep} {l c : ℕ}

/-- What a step does to `owners`. -/
def ServerStep.owners (a : ServerStep) (owners : List ℕ) : List ℕ :=
  match a with
  | .retain c => c :: owners
  | .release c => owners.erase c
  | _ => owners

/-- A call that is not taken from a queue: no functor, and not the destructor. -/
def Task.Direct (t : Task) : Prop :=
  (∀ c d, t ≠ .deferred c d) ∧ ∀ c, t ≠ .life .connectionDestructor c

/-- A functor that the step `a` can queue. -/
def Task.QueuedBy (a : ServerStep) (t : Task) : Prop :=
  (∃ k c, k ≠ .remove ∧ t = .life k c) ∨ ∃ thread call write c d, a = .call thread call write ∧ t = .deferred c d ∧
    (call.ofHttp = true → d ≠ .forceCloseInLoop)

/-- What the step `a` can do to loop `l`. -/
inductive LoopMove (a : ServerStep) (l : ℕ) (L L' : IoLoop) : Prop where
  /-- calls are made, functors are queued -/
  | goes (rest : L'.rest = L.rest) (functors : L'.functors = L.functors)
      (current : ∀ t ∈ L'.current, t ∈ L.current ∨ t.Direct)
      (made : ∀ t ∈ L.current, t ∈ L'.current ∨ (∃ c, t = .user c) ∨
        ∃ read write stack, a = .exec l read write ∧ L.current = t :: stack)
      (pending : ∀ t ∈ L'.m_pending_functors, t ∈ L.m_pending_functors ∨ t.QueuedBy a)
  | swap (step : a = .swap l) (current : L'.current = []) (rest : L'.rest = L.m_pending_functors)
      (functors : L'.functors = L.m_pending_functors) (pending : L'.m_pending_functors = [])
      (none : L.functors = [])
  | nextFunctor (t : Task) (idle : L.current = []) (rest : L.rest = t :: L'.rest) (current : L'.current = [t])
      (functors : L'.functors = L.functors) (pending : L'.m_pending_functors = L.m_pending_functors)
  | endPass (step : a = .endPass l) (current : L'.current = []) (rest : L'.rest = [])
      (functors : L'.functors = []) (idle : L.current = []) (done : L.rest = [])
      (pending : L'.m_pending_functors = L.m_pending_functors)

/-- What the step `a` can do to the connection `c`, which becomes `conn'`. -/
inductive ConnMove [ByteQueue Q] (ph : ℕ → Phase) (s : TcpServer Q) (a : ServerStep) (c : ℕ)
    (conn' : TcpConnection Q) : Prop where
  | stays (state : (ph c).State conn'.m_state) (trace : TraceOk (ph c) conn'.trace)
  | goes (l : ℕ) (read : Except ℕ Bytes) (write : Except ℕ ℕ) (t : Task) (stack : List Task)
      (e : Effect Q) (p' : Phase) (step : a = .exec l read write)
      (current : (s.loops l).current = t :: stack) (subject : t.subject = some c)
      (ran : runTask (s.loops (s.home c)).ep l (s.conns c).conn read write t = .ok e)
      (passes : PassesOn t l (s.home c) c (ph c) p' e) (leads : At p' e.ep e.conn)
      (conn : conn' = e.conn)

/-- **What a step can change.** -/
structure Moves [ByteQueue Q] (ph : ℕ → Phase) (a : ServerStep) (s s' : TcpServer Q) : Prop where
  owners : s'.owners = a.owners s.owners
  loops : ∀ l, LoopMove a l (s.loops l) (s'.loops l)
  conns : ∀ c, ConnMove ph s a c (s'.conns c).conn
  homes : ∀ c, ph c ≠ .unborn → s'.home c = s.home c

/-! ## Loops -/

theorem LoopMove.refl (a : ServerStep) (l : ℕ) (L : IoLoop) : LoopMove a l L L :=
  .goes rfl rfl (fun _ ht => Or.inl ht) (fun _ ht => Or.inl ht) fun _ ht => Or.inl ht

theorem loopMove_setLoop {L : IoLoop} (h : LoopMove a l (s.loops l) L) (l' : ℕ) :
    LoopMove a l' (s.loops l') ((s.setLoop l L).loops l') := by
  by_cases hl : l' = l
  · subst hl
    rw [show (s.setLoop l' L).loops l' = L from Function.update_self _ _ _]
    exact h
  · rw [show (s.setLoop l L).loops l' = s.loops l' from Function.update_of_ne hl _ _]
    exact .refl a l' _

/-- What is still to be done was to be done before, or is new. -/
theorem LoopMove.work {L L' : IoLoop} (h : LoopMove a l L L') {t : Task} (ht : t ∈ L'.work) :
    t ∈ L.work ∨ t.Direct ∨ t.QueuedBy a := by
  simp only [IoLoop.work, List.mem_append] at ht ⊢
  cases h with
  | goes hrest _ hcur _ hpend =>
    rw [hrest] at ht
    rcases ht with (ht | ht) | ht
    · exact (hcur t ht).imp (fun h => Or.inl (Or.inl h)) Or.inl
    · exact Or.inl (Or.inl (Or.inr ht))
    · exact (hpend t ht).imp Or.inr Or.inr
  | swap _ hcur hrest _ hpend _ =>
    rw [hcur, hrest, hpend] at ht
    simp only [List.not_mem_nil, false_or, or_false] at ht
    exact Or.inl (Or.inr ht)
  | nextFunctor t' _ hrest hcur _ hpend =>
    rw [hcur, hpend, List.mem_singleton] at ht
    rw [hrest, List.mem_cons]
    rcases ht with (ht | ht) | ht
    · exact Or.inl (Or.inl (Or.inr (Or.inl ht)))
    · exact Or.inl (Or.inl (Or.inr (Or.inr ht)))
    · exact Or.inl (Or.inr ht)
  | endPass _ hcur hrest _ _ _ hpend =>
    rw [hcur, hrest, hpend] at ht
    simp only [List.not_mem_nil, false_or] at ht
    exact Or.inl (Or.inr ht)

/-- The same for the queues alone. -/
theorem LoopMove.waiting {L L' : IoLoop} (h : LoopMove a l L L') {t : Task}
    (ht : t ∈ L'.rest ++ L'.m_pending_functors) :
    t ∈ L.rest ++ L.m_pending_functors ∨ t.QueuedBy a := by
  simp only [List.mem_append] at ht ⊢
  cases h with
  | goes hrest _ _ _ hpend =>
    rw [hrest] at ht
    rcases ht with ht | ht
    · exact Or.inl (Or.inl ht)
    · exact (hpend t ht).imp_left Or.inr
  | swap _ _ hrest _ hpend _ =>
    rw [hrest, hpend] at ht
    simp only [List.not_mem_nil, or_false] at ht
    exact Or.inl (Or.inr ht)
  | nextFunctor t' _ hrest _ _ hpend =>
    rw [hpend] at ht
    rw [hrest]
    exact Or.inl (ht.imp_left (List.mem_cons_of_mem _))
  | endPass _ _ hrest _ _ _ hpend =>
    rw [hrest, hpend] at ht
    simp only [List.not_mem_nil, false_or] at ht
    exact Or.inl (Or.inr ht)

/-- The functors of a pass are there until it ends. -/
theorem LoopMove.functors {L L' : IoLoop} (h : LoopMove a l L L') {t : Task} (ht : t ∈ L.functors) :
    t ∈ L'.functors ∨ a = .endPass l := by
  cases h with
  | goes _ hfun _ _ _ => exact Or.inl (hfun ▸ ht)
  | swap _ _ _ _ _ hnone =>
    rw [hnone] at ht
    cases ht
  | nextFunctor _ _ _ _ hfun _ => exact Or.inl (hfun ▸ ht)
  | endPass ha _ _ _ _ _ _ => exact Or.inr ha

/-- They come from the queue. -/
theorem LoopMove.of_functors {L L' : IoLoop} (h : LoopMove a l L L') {t : Task} (ht : t ∈ L'.functors) :
    t ∈ L.functors ∨ t ∈ L.m_pending_functors := by
  cases h with
  | goes _ hfun _ _ _ => exact Or.inl (hfun ▸ ht)
  | swap _ _ _ hfun _ _ => exact Or.inr (hfun ▸ ht)
  | nextFunctor _ _ _ _ hfun _ => exact Or.inl (hfun ▸ ht)
  | endPass _ _ _ hfun _ _ _ =>
    rw [hfun] at ht
    cases ht

theorem mem_queuedAt {q : Option (ℕ × Task)} {t : Task} (ht : t ∈ queuedAt q l) : q = some (l, t) := by
  have hpos : 0 < (queuedAt q l).count t := List.count_pos_iff.2 ht
  rw [count_queuedAt] at hpos
  by_contra hq
  rw [if_neg hq] at hpos
  omega

/-- A functor may be queued. -/
theorem loopMove_apply {e : Effect Q} (hq : ∀ x, e.queued = some x → x.2.QueuedBy a) (l : ℕ) :
    LoopMove a l (s.loops l) ((s.apply c e).loops l) := by
  rw [apply_loops]
  refine .goes rfl rfl (fun t ht => Or.inl ht) (fun t ht => Or.inl ht) fun t ht => ?_
  exact (List.mem_append.1 ht).imp_right fun ht => hq _ (mem_queuedAt ht)

/-- There are new calls on the stack of a loop, and a functor may be queued. -/
theorem loopMove_setCurrent_apply {tasks : List Task} {e : Effect Q}
    (hcur : ∀ t ∈ tasks, t ∈ (s.loops l).current ∨ t.Direct)
    (hmade : ∀ t ∈ (s.loops l).current, t ∈ tasks ∨ (∃ c, t = .user c) ∨
      ∃ read write stack, a = .exec l read write ∧ (s.loops l).current = t :: stack)
    (hq : ∀ x, e.queued = some x → x.2.QueuedBy a) (l' : ℕ) :
    LoopMove a l' (s.loops l') (((s.setCurrent l tasks).apply c e).loops l') := by
  by_cases hl : l' = l
  · subst hl
    rw [apply_loops]
    simp only [TcpServer.setCurrent, TcpServer.setLoop, Function.update_self]
    refine .goes rfl rfl hcur hmade fun t ht => ?_
    exact (List.mem_append.1 ht).imp_right fun ht => hq _ (mem_queuedAt ht)
  · have hmove := loopMove_apply (s := s.setCurrent l tasks) (c := c) hq l'
    rwa [show (s.setCurrent l tasks).loops l' = s.loops l' from Function.update_of_ne hl _ _] at hmove

variable [ByteQueue Q]

/-! ## Steps that leave the connections alone -/

theorem ConnMove.refl (h : ServerOk ph s) (a : ServerStep) (c : ℕ) :
    ConnMove ph s a c (s.conns c).conn := .stays (h.reg.state c) (h.reg.trace c)

theorem Moves.setLoop (h : ServerOk ph s) (howners : a.owners s.owners = s.owners) {L : IoLoop}
    (hL : LoopMove a l (s.loops l) L) : Moves ph a s (s.setLoop l L) :=
  ⟨howners.symm, loopMove_setLoop hL, fun c => .refl h a c, fun _ _ => rfl⟩

omit [ByteQueue Q] in
theorem update_conn (s : TcpServer Q) (c : ℕ) (life : ObjectLife) (c' : ℕ) :
    (Function.update s.conns c ⟨(s.conns c).conn, life⟩ c').conn = (s.conns c').conn := by
  by_cases hc : c' = c
  · subst hc
    rw [Function.update_self]
  · rw [Function.update_of_ne hc]

/-- Objects and owners come and go. -/
theorem Moves.close (h : ServerOk ph s) (howners : s'.owners = a.owners s.owners)
    (hconns : ∀ c, (s'.conns c).conn = (s.conns c).conn)
    (hloops : ∀ l, (s'.loops l).current = (s.loops l).current ∧ (s'.loops l).rest = (s.loops l).rest ∧
      (s'.loops l).functors = (s.loops l).functors ∧
      (s'.loops l).m_pending_functors = (s.loops l).m_pending_functors) : Moves ph a s s' := by
  refine ⟨howners, fun l => ?_, fun c => ?_, fun c _ => by rw [TcpServer.home, hconns]; rfl⟩
  · obtain ⟨h1, h2, h3, h4⟩ := hloops l
    exact .goes h2 h3 (fun t ht => Or.inl (h1 ▸ ht)) (fun t ht => Or.inl (h1 ▸ ht))
      fun t ht => Or.inl (h4 ▸ ht)
  · rw [hconns]
    exact .refl h a c

/-! ## Calls -/

/-- What a call of an `HttpServer` queues is no forced close. -/
theorem runCall_queued {ep : Epoller} {conn : TcpConnection Q} {inLoopThread : Bool}
    {write : Except ℕ ℕ} {call : UserCall} {e : Effect Q}
    (hrun : runCall ep conn inLoopThread write call = .ok e) (hcall : call.ofHttp = true) {l c : ℕ}
    {d : TcpConnection.Deferred} (hq : e.queued = some (l, .deferred c d)) : d ≠ .forceCloseInLoop := by
  cases call with
  | send i msg =>
    unfold runCall TcpConnection.send at hrun
    dsimp only at hrun
    split at hrun
    · next hok =>
      cases hrun
      split at hok
      · split at hok
        · split at hok
          · cases hok
            cases hq
          · cases hok
        · cases hok
          cases hq
          exact fun h => by cases h
      · cases hok
        cases hq
    · cases hrun
  | shutDown i =>
    unfold runCall TcpConnection.shutDown at hrun
    dsimp only at hrun
    cases hrun
    split at hq
    · split at hq
      · cases hq
      · cases hq
        exact fun h => by cases h
    · cases hq
  | forceClose i => cases hcall

/-- What a call under way queues is not the end of a destructor. -/
theorem runTask_queued {ep : Epoller} {conn : TcpConnection Q} {read : Except ℕ Bytes}
    {write : Except ℕ ℕ} {t : Task} {e : Effect Q} (hrun : runTask ep l conn read write t = .ok e)
    {l' : ℕ} (hq : e.queued = some (l', .life .remove c)) : False := by
  have hof : ∀ (r : Except Failure (Epoller × TcpConnection Q)) calls, Effect.of r calls ≠ .ok e := by
    intro r calls hr
    unfold Effect.of at hr
    split at hr
    · cases hr
      cases hq
    · cases hr
  unfold runTask at hrun
  split at hrun
  · next k _ =>
    cases k with
    | connectionEstablished | connectionDestructor | remove => exact hof _ _ hrun
    | closeCallback =>
      unfold runLife at hrun
      dsimp only at hrun
      split at hrun
      · cases hrun
        cases hq
      · cases hrun
        cases hq
    | handleRemoveConnectionInLoop =>
      cases hrun
      cases hq
  · exact hof _ _ hrun
  · exact hof _ _ hrun
  · unfold forceCloseInLoop at hrun
    split at hrun
    · exact hof _ _ hrun
    · exact hof _ _ hrun
  · split at hrun
    · exact hof _ _ hrun
    · cases hrun
  · exact hof _ _ hrun
  · exact hof _ _ hrun

/-- A call under way. -/
theorem exec_moves {buffer : Q} (h : ServerOk ph s) {read : Except ℕ Bytes} {write : Except ℕ ℕ}
    (hstep : s.step buffer (.exec l read write) = some s') : Moves ph (.exec l read write) s s' := by
  unfold TcpServer.step at hstep
  rw [if_neg fun hf => hf h.running] at hstep
  dsimp only at hstep
  cases hcur : (s.loops l).current with
  | nil =>
    rw [hcur] at hstep
    cases hstep
  | cons t stack =>
    rw [hcur] at hstep
    dsimp only at hstep
    cases hsub : t.subject with
    | none =>
      rw [hsub] at hstep
      cases hstep
    | some c =>
      obtain ⟨hc, hfit⟩ := h.fits hcur hsub
      obtain ⟨e, p', hrun, hlead, hpass⟩ :=
        runTask_leads (h.reg.at_ hc) (show (s.conns c).conn.m_loop = s.home c from rfl) hsub hfit read write
      rw [hsub] at hstep
      dsimp only at hstep
      rw [if_pos (show (s.conns c).life = .alive from hc), hrun] at hstep
      cases hstep
      obtain ⟨-, -, -, howners, hconns, -⟩ := apply_rest (s.setCurrent l (e.calls ++ stack)) c e
      obtain ⟨-, hhome, -⟩ := apply_ids (s := s.setCurrent l (e.calls ++ stack)) hlead.same
      refine ⟨howners, loopMove_setCurrent_apply ?_ ?_ ?_, fun c' => ?_, fun c' _ => by rw [hhome]; rfl⟩
      · intro t' ht'
        rcases List.mem_append.1 ht' with ht' | ht'
        · -- what a call ends in is another call
          rcases hpass.calls t' ht' with rfl | ⟨k, hk, rfl⟩
          · exact Or.inr ⟨fun _ _ => by simp, fun _ => by simp⟩
          · refine Or.inr ⟨fun _ _ => by simp, fun c' hc' => ?_⟩
            cases hc'
            exact hk rfl
        · rw [hcur]
          exact Or.inl (List.mem_cons_of_mem _ ht')
      · intro t' ht'
        rw [hcur] at ht'
        rcases List.mem_cons.1 ht' with rfl | ht'
        · exact Or.inr (Or.inr ⟨read, write, stack, rfl, hcur⟩)
        · exact Or.inl (List.mem_append_right _ ht')
      · intro x hx
        obtain ⟨k, rfl⟩ := hpass.queued x hx
        refine Or.inl ⟨k, c, ?_, rfl⟩
        rintro rfl
        exact runTask_queued hrun hx
      · rw [hconns]
        by_cases hcc : c' = c
        · subst hcc
          rw [Function.update_self]
          exact .goes l read write t stack e p' rfl hcur hsub hrun hpass hlead.at_ rfl
        · rw [Function.update_of_ne hcc]
          exact .refl h _ c'

/-- A call of the user's code. -/
theorem call_moves {buffer : Q} (h : ServerOk ph s) {thread : Option ℕ} {call : UserCall}
    {write : Except ℕ ℕ} (hstep : s.step buffer (.call thread call write) = some s') :
    Moves ph (.call thread call write) s s' := by
  unfold TcpServer.step at hstep
  rw [if_neg fun hf => hf h.running] at hstep
  dsimp only at hstep
  split at hstep
  · next hg =>
    obtain ⟨e, hrun, hlead, -, -, hqueued⟩ :=
      runCall_leads (h.reg.at_ hg.2) (thread = some (s.home call.target)) write call
    rw [hrun] at hstep
    cases hstep
    obtain ⟨-, -, -, howners, hconns, -⟩ := apply_rest s call.target e
    obtain ⟨-, hhome, -⟩ := apply_ids hlead.same
    refine ⟨howners, loopMove_apply fun x hx => ?_, fun c => ?_, fun c _ => by rw [hhome]⟩
    · obtain ⟨-, d, rfl⟩ := hqueued x hx
      exact Or.inr ⟨thread, call, write, _, d, rfl, rfl, fun hc => runCall_queued hrun hc hx⟩
    · rw [hconns]
      by_cases hcc : c = call.target
      · subst hcc
        rw [Function.update_self]
        exact .stays hlead.at_.state hlead.at_.trace
      · rw [Function.update_of_ne hcc]
        exact .refl h _ c
  · cases hstep

/-! ## All steps -/

/-- A channel is dispatched to: its callbacks are called. -/
theorem handleEvent_moves (h : ServerOk ph s) (hcur : (s.loops l).current = [])
    (hstep : s.handleEvent l = some s') :
    Moves ph (.handleEvent l) s s' := by
  unfold TcpServer.handleEvent at hstep
  cases hact : (s.loops l).active with
  | nil =>
    rw [hact] at hstep
    cases hstep
  | cons x active =>
    rw [hact] at hstep
    dsimp only at hstep
    have hc : (s.conns x.1).life = .alive := by
      have hmem : x ∈ (s.loops l).active := by
        rw [hact]
        exact List.mem_cons_self
      exact h.reg.alive_of_inMap (by rw [((h.stack l).active x hmem).1]; rfl)
    rw [if_pos hc] at hstep
    cases hstep
    refine .setLoop h rfl (.goes rfl rfl (fun t ht => Or.inr ?_) (fun t ht => ?_) fun t ht => Or.inl ht)
    swap
    · rw [hcur] at ht
      cases ht
    rcases dispatched_cases ht with rfl | rfl
    · exact ⟨fun _ _ => by simp, fun _ => by simp⟩
    · exact ⟨fun _ _ => by simp, fun _ => by simp⟩

/-- A new connection starts with its first phase, and with the call that is due. -/
theorem accept_moves (h : ServerOk ph s) (hcur : (s.loops 0).current = []) (fd home : ℕ) (buffer : Q) :
    Moves ph (.accept fd home) s (s.handleNewConnection fd home buffer) := by
  obtain ⟨hconns, -⟩ := handleNewConnection_rest s fd home buffer
  refine ⟨?_, fun l => ?_, fun c => ?_, fun c hc => ?_⟩
  · unfold TcpServer.handleNewConnection
    dsimp only
    split
    · rfl
    · rfl
  · rw [handleNewConnection_loops]
    split
    · refine loopMove_setLoop ?_ l
      refine .goes rfl rfl (fun t ht => Or.inr ?_) (fun t ht => ?_) fun t ht => Or.inl ht
      · rw [List.mem_singleton.1 ht]
        exact ⟨fun _ _ => by simp, fun _ => by simp⟩
      · rw [hcur] at ht
        cases ht
    · refine loopMove_setLoop ?_ l
      refine .goes rfl rfl (fun t ht => Or.inl ht) (fun t ht => Or.inl ht) fun t ht => ?_
      rcases List.mem_append.1 ht with ht | ht
      · exact Or.inl ht
      · exact Or.inr (Or.inl ⟨_, _, by decide, List.mem_singleton.1 ht⟩)
  · rw [hconns]
    by_cases hc : c = s.next
    · subst hc
      have h0 : ph s.next = .unborn := h.reg.next s.next le_rfl
      rw [Function.update_self]
      refine .stays ?_ ?_
      · rw [h0]
        rfl
      · rw [h0]
        exact ⟨[], fun e he => (by cases he), rfl⟩
    · rw [Function.update_of_ne hc]
      exact .refl h _ c
  · have hne : c ≠ s.next := by
      rintro rfl
      exact hc (h.reg.next s.next le_rfl)
    rw [TcpServer.home, hconns, Function.update_of_ne hne]
    rfl

/-- **What a step of the server can do.** -/
theorem step_moves {buffer : Q} (h : ServerOk ph s) (hstep : s.step buffer a = some s') :
    Moves ph a s s' := by
  have hrun : ¬s.failed ≠ none := fun hf => hf h.running
  have hstep' := hstep
  unfold TcpServer.step at hstep
  rw [if_neg hrun] at hstep
  cases a with
  | exec l read write => exact exec_moves h hstep'
  | call thread call write => exact call_moves h hstep'
  | poll l ready =>
    dsimp only at hstep
    split at hstep
    · cases hstep
      exact .setLoop h rfl (.goes rfl rfl (fun t ht => Or.inl ht) (fun t ht => Or.inl ht)
        fun t ht => Or.inl ht)
    · cases hstep
  | handleEvent l =>
    dsimp only at hstep
    split at hstep
    · next hg => exact handleEvent_moves h hg.2.2 hstep
    · cases hstep
  | return_ l =>
    dsimp only at hstep
    split at hstep
    · next hcur =>
      cases hstep
      refine .setLoop h rfl (.goes rfl rfl (fun t ht => Or.inl ?_) (fun t ht => ?_) fun t ht => Or.inl ht)
      · rw [hcur]
        exact List.mem_cons_of_mem _ ht
      · rw [hcur] at ht
        rcases List.mem_cons.1 ht with ht | ht
        · exact Or.inr (Or.inl ⟨_, ht⟩)
        · exact Or.inl ht
    · cases hstep
  | swap l =>
    dsimp only at hstep
    split at hstep
    · next hg =>
      cases hstep
      have hpcs := (h.stack l).pcs
      rw [IoLoop.PcOk, hg.1] at hpcs
      exact .setLoop h rfl (.swap rfl hg.2.2 rfl rfl rfl hpcs.2.1)
    · cases hstep
  | nextFunctor l =>
    dsimp only at hstep
    split at hstep
    · next t rest hpc hcur hrest =>
      cases hstep
      exact .setLoop h rfl (.nextFunctor t hcur hrest rfl rfl rfl)
    · cases hstep
  | endPass l =>
    dsimp only at hstep
    split at hstep
    · next hg =>
      cases hstep
      exact .setLoop h rfl (.endPass rfl hg.2.1 hg.2.2 rfl hg.2.1 hg.2.2 rfl)
    · cases hstep
  | accept fd home =>
    dsimp only at hstep
    split at hstep
    · next hg =>
      cases hstep
      exact accept_moves h hg.2.2.1 fd home buffer
    · cases hstep
  | timer l =>
    dsimp only at hstep
    split at hstep
    · next hg =>
      cases hstep
      refine .setLoop h rfl (.goes rfl rfl (fun t ht => Or.inr ?_) (fun t ht => ?_) fun t ht => Or.inl ht)
      · rw [List.mem_singleton.1 ht]
        exact ⟨fun _ _ => by simp, fun _ => by simp⟩
      · rw [hg.2.2] at ht
        cases ht
    · cases hstep
  | retain c =>
    dsimp only at hstep
    split at hstep
    · cases hstep
      exact .close h rfl (fun _ => rfl) fun _ => ⟨rfl, rfl, rfl, rfl⟩
    · cases hstep
  | release c =>
    dsimp only at hstep
    split at hstep
    · cases hstep
      exact .close h rfl (fun _ => rfl) fun _ => ⟨rfl, rfl, rfl, rfl⟩
    · cases hstep
  | close c =>
    dsimp only at hstep
    split at hstep
    · cases hstep
      exact .close h rfl (update_conn s c .closed) fun _ => ⟨rfl, rfl, rfl, rfl⟩
    · cases hstep
  | destroy c =>
    dsimp only at hstep
    split at hstep
    · next hc =>
      rw [h.destroyChannel hc] at hstep
      cases hstep
      exact .close h rfl (update_conn s c .destroyed) fun _ => ⟨rfl, rfl, rfl, rfl⟩
    · cases hstep

/-! ## The life of a connection, step by step -/

/-- `kConnected` or `kDisconnecting`. -/
def TcpServer.isLive (s : TcpServer Q) (c : ℕ) : Prop :=
  (s.conns c).conn.m_state = .kConnected ∨ (s.conns c).conn.m_state = .kDisconnecting

omit [ByteQueue Q] in
theorem Phase.live_of_state {p : Phase} {st : ConnectionState} (h : p.State st)
    (hst : st = .kConnected ∨ st = .kDisconnecting) : p = .live := by
  cases p with
  | live => rfl
  | _ => rcases hst with rfl | rfl <;> cases h

omit [ByteQueue Q] in
theorem ServerOk.live_iff (h : ServerOk ph s) (c : ℕ) : s.isLive c ↔ ph c = .live := by
  have hst := h.reg.state c
  constructor
  · intro hc
    exact Phase.live_of_state hst hc
  · intro hc
    rw [hc] at hst
    exact hst

omit [ByteQueue Q] in
/-- The destructor stands in the trace from the end of `destructing` on. -/
theorem TraceOk.destructed_iff {p : Phase} {trace : List ConnEvent} (h : TraceOk p trace) :
    .connectionDestructor ∈ trace ↔ 5 < p.rank := by
  obtain ⟨io, hio, rfl⟩ := h
  have h0 : ConnEvent.connectionDestructor ∉ io := by
    intro hm
    rcases hio _ hm with h' | h' <;> cases h'
  rw [List.mem_append, or_iff_right h0]
  cases p <;> simp [Phase.epilogue, Phase.rank]

omit [ByteQueue Q] in
theorem connectionEstablished_state {ep ep' : Epoller} {conn conn' : TcpConnection Q}
    (h : conn.connectionEstablished ep = .ok (ep', conn')) : conn'.m_state = .kConnected := by
  unfold TcpConnection.connectionEstablished TcpConnection.enableReading TcpConnection.setEvents at h
  dsimp only at h
  split at h
  · cases h
    rfl
  · cases h

/-- A connection that is being established is live after it. -/
theorem runTask_established {ep : Epoller} {conn : TcpConnection Q} {read : Except ℕ Bytes}
    {write : Except ℕ ℕ} {e : Effect Q} {p' : Phase}
    (hrun : runTask ep l conn read write (.life .connectionEstablished c) = .ok e)
    (h : At p' e.ep e.conn) : p' = .live := by
  unfold runTask runLife Effect.of at hrun
  dsimp only at hrun
  split at hrun
  · next hok =>
    cases hrun
    exact Phase.live_of_state h.state (Or.inl (connectionEstablished_state hok))
  · cases hrun

/-- **A connection becomes live by `connectionEstablished` only.** -/
theorem live_of_step {buffer : Q} (h : ServerOk ph s) (hstep : s.step buffer a = some s')
    (hc : s'.isLive c) :
    s.isLive c ∨ ∃ l read write stack, a = .exec l read write ∧
      (s.loops l).current = .life .connectionEstablished c :: stack := by
  rw [h.live_iff]
  rcases (step_moves h hstep).conns c with ⟨hst, -⟩ | ⟨l, read, write, t, stack, e, p', rfl, hcur, hsub, -, hpass, hat, he⟩
  · exact Or.inl (Phase.live_of_state hst hc)
  · rw [TcpServer.isLive, he] at hc
    obtain rfl := Phase.live_of_state hat.state hc
    have hrank := hpass.rank
    cases hp : ph c with
    | unborn => exact absurd hp (h.reg.born (h.fits hcur hsub).1)
    | connecting =>
      -- the call that was due
      obtain ⟨-, rfl⟩ := (hpass.consumes _ .connectionEstablished).2
        ⟨by rw [hp]; decide, by rw [hp]; rfl, rfl⟩
      exact Or.inr ⟨l, read, write, stack, rfl, hcur⟩
    | live => exact Or.inl rfl
    | _ =>
      rw [hp] at hrank
      simp [Phase.rank] at hrank

/-- **A connection is destructed by `connectionDestructor` only.** -/
theorem destructed_of_step {buffer : Q} (h : ServerOk ph s) (hstep : s.step buffer a = some s')
    (hc : .connectionDestructor ∈ (s'.conns c).conn.trace) :
    .connectionDestructor ∈ (s.conns c).conn.trace ∨ ∃ l read write stack, a = .exec l read write ∧
      (s.loops l).current = .life .connectionDestructor c :: stack := by
  rw [(h.reg.trace c).destructed_iff]
  rcases (step_moves h hstep).conns c with ⟨-, ht⟩ | ⟨l, read, write, t, stack, e, p', rfl, hcur, hsub, hrun, hpass, hat, he⟩
  · exact Or.inl (ht.destructed_iff.1 hc)
  · rw [he, hat.trace.destructed_iff] at hc
    by_cases hp : 5 < (ph c).rank
    · exact Or.inl hp
    refine Or.inr ⟨l, read, write, stack, rfl, ?_⟩
    by_cases hmay : (ph c).mayDefer = true
    · have hno : p'.mayDefer = false := by
        cases p' <;> first | rfl | simp [Phase.rank] at hc
      rw [hcur, hpass.ends hmay hno]
    -- the other phases come before `live`
    · have hconn : ph c = .connecting := by
        cases hp' : ph c with
        | unborn => exact absurd hp' (h.reg.born (h.fits hcur hsub).1)
        | connecting => rfl
        | live | closing | removing | destructing => rw [hp'] at hmay; exact absurd rfl hmay
        | deregistering | gone => rw [hp'] at hp; simp [Phase.rank] at hp
      have hne : ph c ≠ p' := by
        rintro rfl
        exact hp hc
      obtain ⟨-, rfl⟩ := (hpass.consumes _ .connectionEstablished).2 ⟨hne, by rw [hconn]; rfl, rfl⟩
      rw [runTask_established hrun hat] at hc
      simp [Phase.rank] at hc

/-- Nor is that taken back. -/
theorem destructed_mono {buffer : Q} (h : ServerOk ph s) (hstep : s.step buffer a = some s')
    (hc : .connectionDestructor ∈ (s.conns c).conn.trace) :
    .connectionDestructor ∈ (s'.conns c).conn.trace := by
  obtain ⟨ph', h', hforward⟩ := step_ok buffer h hstep
  rw [(h.reg.trace c).destructed_iff] at hc
  rw [(h'.reg.trace c).destructed_iff]
  exact hc.trans_le (hforward c)

/-- The connection after a step of its life. -/
theorem exec_life {buffer : Q} (h : ServerOk ph s) {k : LifeStep} {stack : List Task}
    (hcur : (s.loops l).current = .life k c :: stack) {read : Except ℕ Bytes} {write : Except ℕ ℕ}
    (hstep : s.step buffer (.exec l read write) = some s') :
    ∃ e, runLife (s.loops (s.home c)).ep l (s.conns c).conn c k = .ok e ∧ (s'.conns c).conn = e.conn := by
  obtain ⟨hc, -⟩ := h.fits hcur rfl
  obtain ⟨e, -, hrun, -, -⟩ := exec_ok h hcur rfl read write
  unfold TcpServer.step at hstep
  rw [if_neg fun hf => hf h.running] at hstep
  dsimp only at hstep
  rw [hcur] at hstep
  dsimp only [Task.subject] at hstep
  rw [if_pos (show (s.conns c).life = .alive from hc), hrun] at hstep
  cases hstep
  obtain ⟨-, -, -, -, hconns, -⟩ := apply_rest (s.setCurrent l (e.calls ++ stack)) c e
  refine ⟨e, hrun, ?_⟩
  rw [hconns, Function.update_self]

omit [ByteQueue Q] in
theorem connectionDestructor_trace {ep ep' : Epoller} {conn conn' : TcpConnection Q}
    (h : conn.connectionDestructor ep = .ok (ep', conn')) : .connectionDestructor ∈ conn'.trace := by
  unfold TcpConnection.connectionDestructor at h
  dsimp only at h
  split at h
  · unfold TcpConnection.disableAll TcpConnection.setEvents at h
    split at h
    · cases h
      simp
    · cases h
  · cases h
    simp

/-- `connectionDestructor` is noted when it begins. -/
theorem exec_destructs {buffer : Q} (h : ServerOk ph s) {stack : List Task}
    (hcur : (s.loops l).current = .life .connectionDestructor c :: stack) {read : Except ℕ Bytes}
    {write : Except ℕ ℕ} (hstep : s.step buffer (.exec l read write) = some s') :
    .connectionDestructor ∈ (s'.conns c).conn.trace := by
  obtain ⟨e, hrun, hconn⟩ := exec_life h hcur hstep
  unfold runLife Effect.of at hrun
  dsimp only at hrun
  split at hrun
  · next hok =>
    cases hrun
    rw [hconn]
    exact connectionDestructor_trace hok
  · cases hrun

end MyMuduo
