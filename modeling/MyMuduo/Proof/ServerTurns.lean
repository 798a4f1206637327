import MyMuduo.Proof.ServerConnections

/-!
# The rounds of the loops of a server

Between two returns of `epoll_wait` a loop thread dispatches to its active channels and runs the pending
functors. Every call it makes leaves it with less to do; the others may give it more.

* `IoLoop.left`: the steps that a loop thread has left in its round.
* `step_left`: a step of the thread lowers it, one of the others raises it by at most nine.
* `next_enabled`: **no loop is stuck**: one that does not wait has a next step, whatever the system calls
  return.
* `server_turns`: **every loop comes back to its poll.**
-/

namespace MyMuduo

open Lib

/-! ## What is left of a round -/

/-- How many steps of its thread a call comes to, with what it queues there. -/
def Task.weight : Task → ℕ
  | .life .remove _ | .user _ | .handleWrite _ | .deferred _ (.sendInLoop _) | .deferred _ .shutDownInLoop => 1
  | .life .connectionEstablished _ => 2
  | .life .connectionDestructor _ => 3
  | .life .handleRemoveConnectionInLoop _ => 5
  | .life .closeCallback _ => 7
  | .handleRead _ | .deferred _ .forceCloseInLoop => 8

/-- The steps of calls under way. -/
def calling (ts : List Task) : ℕ := (ts.map Task.weight).sum

/-- The steps of functors in a vector: each is to be taken first. -/
def pending (ts : List Task) : ℕ := (ts.map fun t => t.weight + 1).sum

@[simp] theorem calling_nil : calling [] = 0 := rfl

@[simp] theorem calling_cons (t : Task) (ts : List Task) : calling (t :: ts) = t.weight + calling ts := by
  simp [calling]

@[simp] theorem calling_append (ts us : List Task) : calling (ts ++ us) = calling ts + calling us := by
  simp [calling]

@[simp] theorem pending_nil : pending [] = 0 := rfl

@[simp] theorem pending_cons (t : Task) (ts : List Task) : pending (t :: ts) = t.weight + 1 + pending ts := by
  simp [pending]

@[simp] theorem pending_append (ts us : List Task) : pending (ts ++ us) = pending ts + pending us := by
  simp [pending]

/-- **The steps that a loop thread has left in its round**, if nobody gives it more to do. -/
def IoLoop.left (L : IoLoop) : ℕ :=
  match L.pc with
  | .poll => 0
  | .dispatch => 10 * L.active.length + calling L.current + pending L.m_pending_functors + 2
  | .functors => calling L.current + pending L.rest + 1

theorem Task.weight_le (t : Task) : t.weight ≤ 8 := by
  unfold Task.weight
  split <;> omega

section

variable {Q : Type} {ep : Epoller} {conn : TcpConnection Q} {e : Effect Q}

/-- An effect of a call without a functor. -/
theorem of_lighter {r : Except Failure (Epoller × TcpConnection Q)} {calls : List Task} {n l : ℕ}
    (hrun : Effect.of r calls = .ok e) (hlt : calling calls < n) :
    calling e.calls + pending (queuedAt e.queued l) < n := by
  unfold Effect.of at hrun
  split at hrun
  · cases hrun
    exact hlt
  · cases hrun

/-- An effect with a functor. -/
theorem pending_queuedAt (k l : ℕ) (t : Task) : pending (queuedAt (some (k, t)) l) ≤ t.weight + 1 := by
  simp only [queuedAt]
  split
  · simp
  · simp

variable [ByteQueue Q]

/-- **A call leaves its thread with less to do**, and no loop with more than that. -/
theorem runTask_lighter {k l : ℕ} {read : Except ℕ Bytes} {write : Except ℕ ℕ} {t : Task}
    (hrun : runTask ep k conn read write t = .ok e) :
    calling e.calls + pending (queuedAt e.queued l) < t.weight := by
  cases t with
  | life s c =>
    cases s with
    | connectionEstablished => exact of_lighter hrun (by simp [Task.weight])
    | closeCallback =>
      unfold runTask runLife at hrun
      dsimp only at hrun
      split at hrun
      · cases hrun
        simp [Task.weight, queuedAt]
      · cases hrun
        have hle := pending_queuedAt 0 l (.life .handleRemoveConnectionInLoop c)
        simp only [Task.weight, calling_nil] at hle ⊢
        omega
    | handleRemoveConnectionInLoop =>
      cases hrun
      have hle := pending_queuedAt conn.m_loop l (.life .connectionDestructor c)
      simp only [Task.weight, calling_nil] at hle ⊢
      omega
    | connectionDestructor => exact of_lighter hrun (by simp [Task.weight])
    | remove => exact of_lighter hrun (by simp [Task.weight])
  | deferred c d =>
    cases d with
    | sendInLoop msg => exact of_lighter hrun (by simp [Task.weight])
    | shutDownInLoop =>
      cases hrun
      simp [Task.weight, queuedAt]
    | forceCloseInLoop =>
      unfold runTask forceCloseInLoop at hrun
      dsimp only at hrun
      split at hrun
      · exact of_lighter hrun (by simp [Task.weight])
      · exact of_lighter hrun (by simp [Task.weight])
  | handleRead c =>
    unfold runTask at hrun
    dsimp only at hrun
    split at hrun
    · refine of_lighter hrun ?_
      split
      · simp [Task.weight]
      · simp [Task.weight]
      · simp [Task.weight]
    · cases hrun
  | handleWrite c => exact of_lighter hrun (by simp [Task.weight])
  | user c =>
    cases hrun
    simp [Task.weight, queuedAt]

/-- A call of the user's code queues one functor at most. -/
theorem runCall_queues {inLoopThread : Bool} {write : Except ℕ ℕ} {call : UserCall} {l : ℕ}
    (hrun : runCall ep conn inLoopThread write call = .ok e) : pending (queuedAt e.queued l) ≤ 9 := by
  have hone : ∀ (q : Option TcpConnection.Deferred) (k c : ℕ),
      pending (queuedAt (q.map fun d => (k, Task.deferred c d)) l) ≤ 9 := by
    intro q k c
    cases q with
    | none => simp [queuedAt]
    | some d =>
      have hle := pending_queuedAt k l (.deferred c d)
      have hweight := (Task.deferred c d).weight_le
      exact hle.trans (by omega)
  cases call with
  | send c msg =>
    unfold runCall at hrun
    dsimp only at hrun
    split at hrun
    · cases hrun
      exact hone _ _ _
    · cases hrun
  | shutDown c =>
    cases hrun
    exact hone _ _ _
  | forceClose c =>
    cases hrun
    exact hone _ _ _

end

/-! ## One step -/

section

variable {Q : Type} [ByteQueue Q] {ph : ℕ → Phase} {s s' : TcpServer Q} {a : ServerStep} {l : ℕ}

/-- A step of the thread of loop `l` in its round. -/
def ServerStep.ofThread (l : ℕ) : ServerStep → Bool
  | handleEvent l' | exec l' _ _ | return_ l' | swap l' | nextFunctor l' | endPass l' => l' = l
  | poll _ _ | accept _ _ | timer _ | call _ _ _ | retain _ | release _ | close _ | destroy _ => false

omit [ByteQueue Q] in
/-- Another loop has what it had. -/
theorem setLoop_left {l' : ℕ} {L : IoLoop} (hne : l ≠ l') :
    ((s.setLoop l' L).loops l).left = (s.loops l).left := by
  rw [show (s.setLoop l' L).loops l = s.loops l from Function.update_of_ne hne _ _]

omit [ByteQueue Q] in
theorem setCurrent_self (s : TcpServer Q) (l : ℕ) (tasks : List Task) :
    (s.setCurrent l tasks).loops l = { s.loops l with current := tasks } := Function.update_self _ _ _

/-- What a call leaves to a loop: its stack is `cur`, and more functors may be pending. -/
theorem left_after (L : IoLoop) (ep : Epoller) (cur queued : List Task) :
    ({ L with ep := ep, current := cur, m_pending_functors := L.m_pending_functors ++ queued } : IoLoop).left +
        calling L.current ≤ L.left + calling cur + pending queued ∨ L.pc = .poll := by
  unfold IoLoop.left
  cases hpc : L.pc with
  | poll => exact .inr rfl
  | dispatch =>
    left
    simp only [pending_append]
    omega
  | functors =>
    left
    dsimp only
    omega

/-- A call under way. -/
theorem exec_left {buffer : Q} (h : ServerOk ph s) {k : ℕ} {read : Except ℕ Bytes} {write : Except ℕ ℕ}
    (hstep : s.step buffer (.exec k read write) = some s') (l : ℕ) :
    if k = l then (s'.loops l).left < (s.loops l).left else (s'.loops l).left ≤ (s.loops l).left + 9 := by
  unfold TcpServer.step at hstep
  rw [if_neg fun hf => hf h.running] at hstep
  dsimp only at hstep
  split at hstep
  · cases hstep
  rename_i t stack hcur
  split at hstep
  · cases hstep
  rename_i c hsub
  obtain ⟨hc, hfit⟩ := h.fits hcur hsub
  obtain ⟨e, p', hrun, -⟩ :=
    runTask_leads (h.reg.at_ hc) (show (s.conns c).conn.m_loop = s.home c from rfl) hsub hfit read write
  rw [if_pos (show (s.conns c).life = .alive from hc), hrun] at hstep
  cases hstep
  have hlighter := runTask_lighter (l := l) hrun
  rw [apply_loops]
  split
  · rename_i hkl
    subst hkl
    rw [setCurrent_self]
    rcases left_after (s.loops k) _ (e.calls ++ stack) (queuedAt e.queued k) with hle | hpoll
    · rw [hcur] at hle
      simp only [calling_append, calling_cons] at hle
      dsimp only
      refine lt_of_add_lt_add_right (a := t.weight + calling stack) (hle.trans_lt ?_)
      omega
    · -- a loop at its poll makes no call
      have hpcs := (h.stack k).pcs
      rw [IoLoop.PcOk, hpoll] at hpcs
      rw [hcur] at hpcs
      cases hpcs.1
  · rename_i hkl
    rw [show (s.setCurrent k (e.calls ++ stack)).loops l = s.loops l from
      Function.update_of_ne (Ne.symm hkl) _ _]
    have hweight := t.weight_le
    rcases left_after (s.loops l) _ (s.loops l).current (queuedAt e.queued l) with hle | hpoll
    · dsimp only at hle ⊢
      refine le_of_add_le_add_right (a := calling (s.loops l).current) (hle.trans ?_)
      omega
    · unfold IoLoop.left
      simp [hpoll]

/-- A call of the user's code. -/
theorem call_left {buffer : Q} (h : ServerOk ph s) {thread : Option ℕ} {call : UserCall} {write : Except ℕ ℕ}
    (hstep : s.step buffer (.call thread call write) = some s') (l : ℕ) :
    (s'.loops l).left ≤ (s.loops l).left + 9 := by
  unfold TcpServer.step at hstep
  rw [if_neg fun hf => hf h.running] at hstep
  dsimp only at hstep
  split at hstep
  · split at hstep
    · rename_i e hrun
      cases hstep
      have hqueues := runCall_queues (l := l) hrun
      rw [apply_loops]
      rcases left_after (s.loops l) _ (s.loops l).current (queuedAt e.queued l) with hle | hpoll
      · dsimp only at hle ⊢
        refine le_of_add_le_add_right (a := calling (s.loops l).current) (hle.trans ?_)
        omega
      · unfold IoLoop.left
        simp [hpoll]
    · cases hstep
      exact Nat.le_add_right _ _
  · cases hstep

/-- The first active channel has its callbacks called. -/
theorem handleEvent_left {buffer : Q} (h : ServerOk ph s) {k : ℕ} (hstep : s.step buffer (.handleEvent k) = some s') :
    (s'.loops k).left < (s.loops k).left ∧ ∀ l, l ≠ k → (s'.loops l).left = (s.loops l).left := by
  obtain ⟨ph', h', -⟩ := step_ok buffer h hstep
  unfold TcpServer.step at hstep
  rw [if_neg fun hf => hf h.running] at hstep
  dsimp only at hstep
  split at hstep
  swap
  · cases hstep
  rename_i hg
  unfold TcpServer.handleEvent at hstep
  split at hstep
  · cases hstep
  rename_i c revents active hactive
  have hcalls : calling (TcpServer.callbacks c revents) ≤ 9 := by
    unfold TcpServer.callbacks
    split
    · split
      · simp [Task.weight]
      · simp [Task.weight]
    · split
      · simp [Task.weight]
      · simp
  have htasks : calling (if s.owned c then TcpServer.callbacks c revents else []) ≤ 9 := by
    split
    · exact hcalls
    · simp
  split at hstep
  · cases hstep
    refine ⟨?_, fun l hl => setLoop_left hl⟩
    rw [show ∀ L, (s.setLoop k L).loops k = L from fun L => Function.update_self _ _ _]
    simp only [IoLoop.left, hg.2.1, hactive, hg.2.2, List.length_cons, calling_nil]
    omega
  · -- the channel is there
    cases hstep
    have hrunning := h'.running
    cases hrunning

omit [ByteQueue Q] in
/-- A connection is accepted. -/
theorem accept_left (fd home : ℕ) (buffer : Q) (hpc : (s.loops 0).pc = .dispatch) (hcur : (s.loops 0).current = [])
    (l : ℕ) : ((s.handleNewConnection fd home buffer).loops l).left ≤ (s.loops l).left + 9 := by
  rw [handleNewConnection_loops]
  split
  · by_cases hl : l = 0
    · subst hl
      rw [setCurrent_self]
      simp only [IoLoop.left, hpc, hcur, calling_cons, calling_nil, Task.weight]
      omega
    · rw [TcpServer.setCurrent, setLoop_left hl]
      exact Nat.le_add_right _ _
  · by_cases hl : l = home
    · subst hl
      rw [show (s.queueInLoop l (.life .connectionEstablished s.next)).loops l = { s.loops l with
        m_pending_functors := (s.loops l).m_pending_functors ++ [.life .connectionEstablished s.next] }
        from Function.update_self _ _ _]
      rcases left_after (s.loops l) (s.loops l).ep (s.loops l).current [.life .connectionEstablished s.next]
        with hle | hpoll
      · simp only [pending_cons, pending_nil, Task.weight] at hle
        dsimp only at hle ⊢
        omega
      · unfold IoLoop.left
        simp [hpoll]
    · rw [TcpServer.queueInLoop, setLoop_left hl]
      exact Nat.le_add_right _ _

/-- **One step.** -/
theorem step_left {buffer : Q} (h : ServerOk ph s) (hstep : s.step buffer a = some s')
    (ha : ∀ ready, a ≠ .poll l ready) :
    if a.ofThread l then (s'.loops l).left < (s.loops l).left else (s'.loops l).left ≤ (s.loops l).left + 9 := by
  -- a step of a loop that is not `l` leaves `l` alone
  have hsame : ∀ n, (s'.loops l).left = (s.loops l).left → (s'.loops l).left ≤ (s.loops l).left + n :=
    fun n heq => heq ▸ Nat.le_add_right _ _
  have hstep' := hstep
  unfold TcpServer.step at hstep
  rw [if_neg fun hf => hf h.running] at hstep
  cases a with
  | exec k read write =>
    have hexec := exec_left h hstep' l
    simpa only [ServerStep.ofThread, decide_eq_true_eq] using hexec
  | call thread call write => exact call_left h hstep' l
  | handleEvent k =>
    obtain ⟨hself, hother⟩ := handleEvent_left h hstep'
    simp only [ServerStep.ofThread, decide_eq_true_eq]
    split
    · rename_i hk
      subst hk
      exact hself
    · rename_i hk
      exact hsame 9 (hother l (Ne.symm hk))
  | poll k ready =>
    have hk : l ≠ k := by
      rintro rfl
      exact ha ready rfl
    dsimp only at hstep
    split at hstep
    · cases hstep
      exact hsame 9 (setLoop_left hk)
    · cases hstep
  | return_ k =>
    dsimp only at hstep
    split at hstep
    · rename_i x stack hcur
      cases hstep
      simp only [ServerStep.ofThread, decide_eq_true_eq]
      split
      · rename_i hk
        subst hk
        have hpcs := (h.stack k).pcs
        rw [setCurrent_self]
        unfold IoLoop.left
        cases hpc : (s.loops k).pc with
        | poll =>
          rw [IoLoop.PcOk, hpc] at hpcs
          rw [hcur] at hpcs
          cases hpcs.1
        | dispatch =>
          simp only [hcur, calling_cons, Task.weight]
          omega
        | functors =>
          simp only [hcur, calling_cons, Task.weight]
          omega
      · rename_i hk
        exact hsame 9 (setLoop_left (Ne.symm hk))
    · cases hstep
  | swap k =>
    dsimp only at hstep
    split at hstep
    · rename_i hg
      cases hstep
      simp only [ServerStep.ofThread, decide_eq_true_eq]
      split
      · rename_i hk
        subst hk
        rw [show ∀ L, (s.setLoop k L).loops k = L from fun L => Function.update_self _ _ _]
        simp only [IoLoop.left, hg.1, hg.2.1, hg.2.2, List.length_nil, calling_nil]
        omega
      · rename_i hk
        exact hsame 9 (setLoop_left (Ne.symm hk))
    · cases hstep
  | nextFunctor k =>
    dsimp only at hstep
    split at hstep
    · rename_i t rest hpc hcur hrest
      cases hstep
      simp only [ServerStep.ofThread, decide_eq_true_eq]
      split
      · rename_i hk
        subst hk
        rw [show ∀ L, (s.setLoop k L).loops k = L from fun L => Function.update_self _ _ _]
        simp only [IoLoop.left, hpc, hcur, hrest, calling_cons, calling_nil, pending_cons]
        omega
      · rename_i hk
        exact hsame 9 (setLoop_left (Ne.symm hk))
    · cases hstep
  | endPass k =>
    dsimp only at hstep
    split at hstep
    · rename_i hg
      cases hstep
      simp only [ServerStep.ofThread, decide_eq_true_eq]
      split
      · rename_i hk
        subst hk
        rw [show ∀ L, (s.setLoop k L).loops k = L from fun L => Function.update_self _ _ _]
        simp only [IoLoop.left, hg.1, hg.2.1, hg.2.2, calling_nil, pending_nil]
        omega
      · rename_i hk
        exact hsame 9 (setLoop_left (Ne.symm hk))
    · cases hstep
  | accept fd home =>
    dsimp only at hstep
    split at hstep
    · rename_i hg
      cases hstep
      exact accept_left fd home buffer hg.2.1 hg.2.2.1 l
    · cases hstep
  | timer k =>
    dsimp only at hstep
    split at hstep
    · rename_i hg
      cases hstep
      by_cases hk : l = k
      · subst hk
        rw [setCurrent_self]
        simp only [ServerStep.ofThread, IoLoop.left, hg.2.1, hg.2.2, calling_cons, calling_nil, Task.weight]
        simp
        omega
      · exact hsame 9 (setLoop_left hk)
    · cases hstep
  | retain c | release c | close c =>
    dsimp only at hstep
    split at hstep
    · cases hstep
      exact hsame 9 rfl
    · cases hstep
  | destroy c =>
    dsimp only at hstep
    split at hstep
    · rename_i hc
      cases hstep
      rw [h.destroyChannel hc]
      exact Nat.le_add_right _ _
    · cases hstep

/-! ## Rounds -/

/-- The next step of a thread in its round; `read` and `write` are what the system calls return. -/
def IoLoop.next (l : ℕ) (read : Except ℕ Bytes) (write : Except ℕ ℕ) (L : IoLoop) : ServerStep :=
  match L.current with
  | .user _ :: _ => .return_ l
  | _ :: _ => .exec l read write
  | [] =>
    match L.pc with
    | .dispatch => if L.active = [] then .swap l else .handleEvent l
    | .functors => if L.rest = [] then .endPass l else .nextFunctor l
    | .poll => .poll l []

/-- **No loop is stuck.** A thread that does not wait has a next step, whatever its system calls return. -/
theorem next_enabled (buffer : Q) (h : ServerOk ph s) (hpc : (s.loops l).pc ≠ .poll)
    (read : Except ℕ Bytes) (write : Except ℕ ℕ) :
    ((s.loops l).next l read write).ofThread l = true ∧
      ∃ s', s.step buffer ((s.loops l).next l read write) = some s' := by
  have hrunning : ¬s.failed ≠ none := fun hf => hf h.running
  unfold TcpServer.step
  rw [if_neg hrunning]
  unfold IoLoop.next
  split
  · rename_i x stack hcur
    dsimp only
    rw [hcur]
    exact ⟨decide_eq_true rfl, _, rfl⟩
  · rename_i t stack hnot hcur
    refine ⟨decide_eq_true rfl, ?_⟩
    dsimp only
    rw [hcur]
    dsimp only
    -- the call is about a connection that is there
    cases hsub : t.subject with
    | none =>
      cases t with
      | user x => exact absurd rfl (hnot x)
      | _ => cases hsub
    | some c =>
      obtain ⟨hc, hfit⟩ := h.fits hcur hsub
      obtain ⟨e, p', hrun, -⟩ :=
        runTask_leads (h.reg.at_ hc) (show (s.conns c).conn.m_loop = s.home c from rfl) hsub hfit read write
      dsimp only
      rw [if_pos (show (s.conns c).life = .alive from hc), hrun]
      exact ⟨_, rfl⟩
  · rename_i hcur
    cases hpcs : (s.loops l).pc with
    | poll => exact absurd hpcs hpc
    | dispatch =>
      dsimp only
      by_cases hactive : (s.loops l).active = []
      · rw [if_pos hactive]
        dsimp only
        rw [if_pos ⟨hpcs, hactive, hcur⟩]
        exact ⟨decide_eq_true rfl, _, rfl⟩
      · rw [if_neg hactive]
        dsimp only
        obtain ⟨x, active, hact⟩ := List.exists_cons_of_ne_nil hactive
        have hl : l < s.numLoops := by
          obtain ⟨hlive, hhome⟩ := (h.stack l).active x (by rw [hact]; exact List.mem_cons_self)
          rw [← hhome]
          exact h.reg.home x.1 (by rw [hlive]; decide)
        rw [if_pos ⟨hl, hpcs, hcur⟩]
        refine ⟨decide_eq_true rfl, ?_⟩
        unfold TcpServer.handleEvent
        rw [hact]
        dsimp only
        split
        · exact ⟨_, rfl⟩
        · exact ⟨_, rfl⟩
    | functors =>
      dsimp only
      by_cases hrest : (s.loops l).rest = []
      · rw [if_pos hrest]
        dsimp only
        rw [if_pos ⟨hpcs, hcur, hrest⟩]
        exact ⟨decide_eq_true rfl, _, rfl⟩
      · rw [if_neg hrest]
        dsimp only
        obtain ⟨t, rest, htr⟩ := List.exists_cons_of_ne_nil hrest
        rw [hpcs, hcur, htr]
        exact ⟨decide_eq_true rfl, _, rfl⟩

/-- The loop thread alone goes on, its system calls returning what `results` says. -/
def Alone (l : ℕ) (results : TcpServer Q → Except ℕ Bytes × Except ℕ ℕ) (s : TcpServer Q) (a : ServerStep) : Prop :=
  a = (s.loops l).next l (results s).1 (results s).2

/-- The thread alone gets to its poll. -/
theorem turn_ends (buffer : Q) (results : TcpServer Q → Except ℕ Bytes × Except ℕ ℕ) (n : ℕ) :
    ∀ {ph : ℕ → Phase} {s : TcpServer Q}, ServerOk ph s → (s.loops l).left ≤ n →
      ∃ steps s', run (TcpServer.step buffer) s steps = some s' ∧
        Along (TcpServer.step buffer) (Alone l results) s steps ∧ steps.length ≤ n ∧ (s'.loops l).pc = .poll := by
  -- by the steps that are left
  induction n with
  | zero =>
    intro ph s h hn
    refine ⟨[], s, rfl, trivial, le_rfl, ?_⟩
    cases hpc : (s.loops l).pc with
    | poll => rfl
    | _ => simp [IoLoop.left, hpc] at hn
  | succ n ih =>
    intro ph s h hn
    by_cases hpc : (s.loops l).pc = .poll
    · exact ⟨[], s, rfl, trivial, Nat.zero_le _, hpc⟩
    · obtain ⟨hown, s₁, h₁⟩ := next_enabled buffer h hpc (results s).1 (results s).2
      obtain ⟨ph', h', -⟩ := step_ok buffer h h₁
      have hless := step_left (l := l) h h₁ (fun ready he => by rw [he] at hown; cases hown)
      rw [if_pos hown] at hless
      obtain ⟨steps, s', hrun, halone, hlen, hpoll⟩ := ih h' (by omega)
      refine ⟨_ :: steps, s', ?_, ⟨rfl, fun t ht => ?_⟩, Nat.succ_le_succ hlen, hpoll⟩
      · rw [run, h₁]
        exact hrun
      · rw [h₁] at ht
        cases ht
        exact halone

/-- **Every loop comes back to its poll.** In every state of every run of a server with any number of
loops: a loop thread alone gets there in at most as many steps as it has left, whatever its system calls
return, and never gets stuck before; and with all others at work, each step of theirs keeps it from there
for at most nine steps of its own. -/
theorem server_turns (numLoops : ℕ) (buffer : Q) {steps : List ServerStep}
    (hrun : run (TcpServer.step buffer) (.start numLoops buffer) steps = some s) (l : ℕ) :
    (∀ results : TcpServer Q → Except ℕ Bytes × Except ℕ ℕ, ∃ more s',
      run (TcpServer.step buffer) s more = some s' ∧ Along (TcpServer.step buffer) (Alone l results) s more ∧
        more.length ≤ (s.loops l).left ∧ (s'.loops l).pc = .poll) ∧
    ∀ more s', run (TcpServer.step buffer) s more = some s' → (∀ ready, .poll l ready ∉ more) →
      more.countP (·.ofThread l) ≤ (s.loops l).left + 9 * more.countP fun a => !a.ofThread l := by
  obtain ⟨ph, h⟩ : ∃ ph, ServerOk ph s := by
    refine run_inv (I := fun s => ∃ ph, ServerOk ph s) ?_ ⟨_, start_ok numLoops buffer⟩ hrun
    rintro s a s' ⟨ph, h⟩ hstep
    obtain ⟨ph', h', -⟩ := step_ok buffer h hstep
    exact ⟨ph', h'⟩
  refine ⟨fun results => turn_ends buffer results _ h le_rfl, fun more s' hmore hpoll => ?_⟩
  have hcount := run_countP_le (C := fun _ a => ∀ ready, a ≠ ServerStep.poll l ready)
    (I := fun s => ∃ ph, ServerOk ph s) (p := (·.ofThread l)) (m := fun s => (s.loops l).left) (k := 9)
    (fun s a s' ⟨ph, h⟩ ha hstep => by
      obtain ⟨ph', h', -⟩ := step_ok buffer h hstep
      exact ⟨⟨ph', h'⟩, step_left h hstep ha⟩)
    more ⟨ph, h⟩ (along_of_forall s fun a hm ready he => hpoll ready (he ▸ hm)) hmore
  omega

end

theorem server_turns_read :
    ∃ s, run (TcpServer.step (Buffer.new 8)) (.start 2 (.new 8)) (closingSteps.take 10) = some s ∧
      ∃ more s', run (TcpServer.step (Buffer.new 8)) s more = some s' ∧ more.length ≤ (s.loops 1).left ∧
        (s'.loops 1).pc = .poll := by
  have hsome : (run (TcpServer.step (Buffer.new 8)) (.start 2 (.new 8)) (closingSteps.take 10)).isSome := by
    decide +kernel
  obtain ⟨s, hs⟩ := Option.isSome_iff_exists.1 hsome
  obtain ⟨more, s', hmore, -, hlen, hpoll⟩ := (server_turns 2 (Buffer.new 8) hs 1).1 fun _ => (.ok [7], .ok 0)
  exact ⟨s, hs, more, s', hmore, hlen, hpoll⟩

end MyMuduo
