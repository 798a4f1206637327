import MyMuduo.Proof.Server

/-!
# A property of every connection of a server

A server has many connections, and the calls about them come in any order from all loops and from
other threads. Each of these calls is about one connection, and it changes what is known under one
descriptor in the epoller of one loop. So what the calls about a connection keep, for it alone, is
kept for all connections.

* `step_on`: what a step does to one connection: it leaves it alone, it makes it, or it is a call
  about it.
* `run_kept`: **a property that the calls about a connection keep is one of every connection, in every
  state of every run.**
-/

namespace MyMuduo

open Lib

variable {Q : Type} [ByteQueue Q] {ph : ℕ → Phase} {s s' : TcpServer Q} {a : ServerStep} {l c : ℕ}

/-! ## One connection of a server -/

/-- The epollers have the same under a descriptor. -/
structure SameEntry (fd : ℕ) (ep ep' : Epoller) : Prop where
  channels : ep'.m_channels fd = ep.m_channels fd
  interest : ep'.interest fd = ep.interest fd

theorem SameEntry.refl (fd : ℕ) (ep : Epoller) : SameEntry fd ep ep := ⟨rfl, rfl⟩

/-- **What a step does to one connection and its descriptor.** -/
inductive StepOn (ph : ℕ → Phase) (buffer : Q) (s : TcpServer Q) (a : ServerStep) (s' : TcpServer Q)
    (c : ℕ) : Prop where
  | alone (conn : (s'.conns c).conn = (s.conns c).conn) (made : c < s'.next → c < s.next)
      (alive : s'.isAlive c → s.isAlive c ∧
        SameEntry (s.fd c) (s.loops (s.home c)).ep (s'.loops (s.home c)).ep)
  | task (l : ℕ) (read : Except ℕ Bytes) (write : Except ℕ ℕ) (t : Task) (stack : List Task) (e : Effect Q)
      (step : a = .exec l read write) (current : (s.loops l).current = t :: stack)
      (subject : t.subject = some c) (alive : s.isAlive c) (fits : t.Fits (ph c) l (s.home c))
      (ran : runTask (s.loops (s.home c)).ep l (s.conns c).conn read write t = .ok e)
      (conn : (s'.conns c).conn = e.conn) (ep : (s'.loops (s'.home c)).ep = e.ep)
  | call (thread : Option ℕ) (call : UserCall) (write : Except ℕ ℕ) (e : Effect Q)
      (step : a = .call thread call write) (target : call.target = c) (alive : s.isAlive c)
      (ran : runCall (s.loops (s.home c)).ep (s.conns c).conn (thread = some (s.home c)) write call = .ok e)
      (conn : (s'.conns c).conn = e.conn) (ep : (s'.loops (s'.home c)).ep = e.ep)
  | made (fd home : ℕ) (next : c = s.next) (conn : (s'.conns c).conn = .new c home fd buffer)
      (none : (s'.loops (s'.home c)).ep.interest fd = none)

/-- A step that touches neither the connections nor the epollers. -/
theorem StepOn.quiet {buffer : Q} (hconns : s'.conns = s.conns) (hnext : s'.next = s.next)
    (hep : ∀ l, (s'.loops l).ep = (s.loops l).ep) : StepOn ph buffer s a s' c := by
  refine .alone (by rw [hconns]) (fun hc => by rwa [hnext] at hc) fun hc => ⟨?_, ?_⟩
  · rwa [TcpServer.isAlive, hconns] at hc
  · rw [hep]
    exact .refl _ _

omit [ByteQueue Q] in
theorem setLoop_ep {L : IoLoop} (hL : L.ep = (s.loops l).ep) (l' : ℕ) :
    ((s.setLoop l L).loops l').ep = (s.loops l').ep := by
  by_cases hl : l' = l
  · subst hl
    rw [show (s.setLoop l' L).loops l' = L from Function.update_self _ _ _, hL]
  · rw [show (s.setLoop l L).loops l' = s.loops l' from Function.update_of_ne hl _ _]

theorem StepOn.setLoop {buffer : Q} {L : IoLoop} (hL : L.ep = (s.loops l).ep) :
    StepOn ph buffer s a (s.setLoop l L) c :=
  .quiet rfl rfl (setLoop_ep hL)

/-- A call about another connection: its descriptor is not that of `c`. Before the call the stack of
its loop changed, and no more. -/
theorem StepOn.other {buffer : Q} {s₁ : TcpServer Q} (h : ServerOk ph s) {c' : ℕ} {e : Effect Q}
    (hconns₁ : s₁.conns = s.conns) (hnext₁ : s₁.next = s.next)
    (hep₁ : ∀ l, (s₁.loops l).ep = (s.loops l).ep) (hc' : s.isAlive c') (hne : c ≠ c')
    (hagree : AgreeOff (s.fd c') (s.loops (s.home c')).ep e.ep) : StepOn ph buffer s a (s₁.apply c' e) c := by
  obtain ⟨-, hnext, -, -, hconns, -⟩ := apply_rest s₁ c' e
  have hconn : (s₁.apply c' e).conns c = s.conns c := by
    rw [hconns, Function.update_of_ne hne, hconns₁]
  have hhome₁ : s₁.home = s.home := by
    funext x
    simp only [TcpServer.home, hconns₁]
  refine .alone (by rw [hconn]) (fun hc => by rwa [hnext, hnext₁] at hc) fun hc => ?_
  rw [TcpServer.isAlive, hconn] at hc
  have hfd : s.fd c ≠ s.fd c' := fun heq => hne (h.reg.fds c c' hc hc' heq)
  refine ⟨hc, ?_⟩
  rw [apply_ep, hhome₁, hep₁]
  split
  · rename_i hhome
    rw [hhome]
    exact ⟨hagree.channels _ hfd, hagree.interest _ hfd⟩
  · exact .refl _ _

omit [ByteQueue Q] in
/-- The connection that a call is about, after it. -/
theorem apply_self {e : Effect Q} (hid : SameId (s.conns c).conn e.conn) :
    ((s.apply c e).conns c).conn = e.conn ∧
      ((s.apply c e).loops ((s.apply c e).home c)).ep = e.ep := by
  obtain ⟨-, -, -, -, hconns, -⟩ := apply_rest s c e
  obtain ⟨-, hhome, -⟩ := apply_ids hid
  rw [hhome, apply_ep, if_pos rfl, hconns, Function.update_self]
  exact ⟨rfl, rfl⟩

/-- A call under way. -/
theorem exec_on {buffer : Q} (h : ServerOk ph s) {read : Except ℕ Bytes} {write : Except ℕ ℕ}
    (hstep : s.step buffer (.exec l read write) = some s') (c : ℕ) :
    StepOn ph buffer s (.exec l read write) s' c := by
  unfold TcpServer.step at hstep
  rw [if_neg fun hf => hf h.running] at hstep
  dsimp only at hstep
  split at hstep
  · cases hstep
  rename_i t stack hcur
  split at hstep
  · cases hstep
  rename_i c' hsub
  obtain ⟨hc', hfit⟩ := h.fits hcur hsub
  obtain ⟨e, p', hrun, hlead, -⟩ :=
    runTask_leads (h.reg.at_ hc') (show (s.conns c').conn.m_loop = s.home c' from rfl) hsub hfit read write
  rw [if_pos (show (s.conns c').life = .alive from hc'), hrun] at hstep
  cases hstep
  by_cases hcc : c = c'
  · subst hcc
    obtain ⟨hconn, hep⟩ := apply_self (s := s.setCurrent l (e.calls ++ stack)) hlead.same
    exact .task l read write t stack e rfl hcur hsub hc' hfit hrun hconn hep
  · exact .other h rfl rfl (setCurrent_ep s l _) hc' hcc hlead.agree

/-- A call of the user's code. -/
theorem call_on {buffer : Q} (h : ServerOk ph s) {thread : Option ℕ} {call : UserCall}
    {write : Except ℕ ℕ} (hstep : s.step buffer (.call thread call write) = some s') (c : ℕ) :
    StepOn ph buffer s (.call thread call write) s' c := by
  unfold TcpServer.step at hstep
  rw [if_neg fun hf => hf h.running] at hstep
  dsimp only at hstep
  split at hstep
  swap
  · cases hstep
  rename_i hg
  have hc' : s.isAlive call.target := hg.2
  obtain ⟨e, hrun, hlead, -⟩ :=
    runCall_leads (h.reg.at_ hc') (thread = some (s.home call.target)) write call
  rw [hrun] at hstep
  cases hstep
  by_cases hcc : c = call.target
  · subst hcc
    obtain ⟨hconn, hep⟩ := apply_self hlead.same
    exact .call thread call write e rfl rfl hc' hrun hconn hep
  · exact .other h rfl rfl (fun _ => rfl) hc' hcc hlead.agree

/-- A new connection finds its descriptor unknown to the kernel. -/
theorem accept_on {buffer : Q} (h : ServerOk ph s) {fd home : ℕ} (hfd : s.isOpen fd = false) (c : ℕ) :
    StepOn ph buffer s (.accept fd home) (s.handleNewConnection fd home buffer) c := by
  obtain ⟨hconns, hnext, -, -, -, hep⟩ := handleNewConnection_rest s fd home buffer
  by_cases hc : c = s.next
  · subst hc
    refine .made fd home rfl (by rw [hconns, Function.update_self]) ?_
    rw [hep]
    cases hi : (s.loops ((s.handleNewConnection fd home buffer).home s.next)).ep.interest fd with
    | none => rfl
    | some x =>
      obtain ⟨hlive, -, hx⟩ := h.reg.interest _ _ _ hi
      exact absurd hx (h.reg.fd_ne_of_closed hfd (h.reg.alive_of_inMap (by rw [hlive]; rfl)))
  · have hconn : (s.handleNewConnection fd home buffer).conns c = s.conns c := by
      rw [hconns, Function.update_of_ne hc]
    refine .alone (by rw [hconn]) (fun hc' => by rw [hnext] at hc'; omega) fun hc' => ⟨?_, ?_⟩
    · rwa [TcpServer.isAlive, hconn] at hc'
    · rw [hep]
      exact .refl _ _

omit [ByteQueue Q] in
/-- The kernel forgets a descriptor, which is not that of another connection. -/
theorem closeFd_entry (s : TcpServer Q) {fd fd' : ℕ} (hne : fd' ≠ fd) (l : ℕ) :
    SameEntry fd' (s.loops l).ep ((s.closeFd fd).loops l).ep :=
  ⟨rfl, Function.update_of_ne hne _ _⟩

/-- The end of an object. -/
theorem close_on {buffer : Q} (h : ServerOk ph s) {c' : ℕ} (hc' : s.isAlive c') (c : ℕ) :
    StepOn ph buffer s (.close c')
      ({ s with conns := Function.update s.conns c' ⟨(s.conns c').conn, .closed⟩ }.closeFd (s.fd c')) c := by
  by_cases hcc : c = c'
  · subst hcc
    refine .alone ?_ id fun hc => ?_
    · dsimp only [TcpServer.closeFd]
      rw [Function.update_self]
    · dsimp only [TcpServer.closeFd, TcpServer.isAlive] at hc
      rw [Function.update_self] at hc
      cases hc
  · refine .alone ?_ id fun hc => ?_
    · dsimp only [TcpServer.closeFd]
      rw [Function.update_of_ne hcc]
    · dsimp only [TcpServer.closeFd, TcpServer.isAlive] at hc
      rw [Function.update_of_ne hcc] at hc
      exact ⟨hc, closeFd_entry _ (fun heq => hcc (h.reg.fds c c' hc hc' heq)) _⟩

theorem destroy_on {buffer : Q} (h : ServerOk ph s) {c' : ℕ} (hc' : (s.conns c').life = .closed) (c : ℕ) :
    StepOn ph buffer s (.destroy c') (s.destroyChannel c') c := by
  rw [h.destroyChannel hc']
  by_cases hcc : c = c'
  · subst hcc
    refine .alone ?_ id fun hc => ?_
    · dsimp only
      rw [Function.update_self]
    · dsimp only [TcpServer.isAlive] at hc
      rw [Function.update_self] at hc
      cases hc
  · refine .alone ?_ id fun hc => ?_
    · dsimp only
      rw [Function.update_of_ne hcc]
    · dsimp only [TcpServer.isAlive] at hc
      rw [Function.update_of_ne hcc] at hc
      exact ⟨hc, .refl _ _⟩

/-- **What a step does to one connection.** -/
theorem step_on {buffer : Q} (h : ServerOk ph s) (hstep : s.step buffer a = some s') (c : ℕ) :
    StepOn ph buffer s a s' c := by
  have hrun : ¬s.failed ≠ none := fun hf => hf h.running
  have hstep' := hstep
  unfold TcpServer.step at hstep
  rw [if_neg hrun] at hstep
  cases a with
  | exec l read write => exact exec_on h hstep' c
  | call thread call write => exact call_on h hstep' c
  | accept fd home =>
    dsimp only at hstep
    split at hstep
    · next hg =>
      cases hstep
      exact accept_on h (by simpa using hg.2.2.2) c
    · cases hstep
  | close c' =>
    dsimp only at hstep
    split at hstep
    · next hg =>
      cases hstep
      exact close_on h hg.1 c
    · cases hstep
  | destroy c' =>
    dsimp only at hstep
    split at hstep
    · next hc' =>
      cases hstep
      exact destroy_on h hc' c
    · cases hstep
  | handleEvent l =>
    dsimp only at hstep
    split at hstep
    · unfold TcpServer.handleEvent at hstep
      split at hstep
      · cases hstep
      · split at hstep
        · cases hstep
          exact .setLoop rfl
        · cases hstep
          exact .quiet rfl rfl fun _ => rfl
    · cases hstep
  | return_ l | nextFunctor l =>
    dsimp only at hstep
    split at hstep
    · cases hstep
      exact .setLoop rfl
    · cases hstep
  | poll l _ | swap l | endPass l | timer l =>
    dsimp only at hstep
    split at hstep
    · cases hstep
      exact .setLoop rfl
    · cases hstep
  | retain c' | release c' =>
    dsimp only at hstep
    split at hstep
    · cases hstep
      exact .quiet rfl rfl fun _ => rfl
    · cases hstep

/-- What `connectionEstablished` finds. -/
theorem At.connecting {Q : Type} {p : Phase} {ep : Epoller} {conn : TcpConnection Q} (h : At p ep conn)
    (hdue : p.due = some .connectionEstablished) : conn.m_state = .kConnecting := by
  have hst := h.state
  cases p with
  | connecting => exact hst
  | _ => cases hdue

/-! ## What calls keep -/

/-- What a condition on `sendInLoop` says of a task. -/
def Task.Meets (P : TcpConnection Q → Bytes → Except ℕ ℕ → Prop) (conn : TcpConnection Q)
    (write : Except ℕ ℕ) : Task → Prop
  | .deferred _ (.sendInLoop msg) => P conn msg write
  | _ => True

/-- And of a call: in the loop thread `send` comes to `sendInLoop` at once. -/
def UserCall.Meets (P : TcpConnection Q → Bytes → Except ℕ ℕ → Prop) (conn : TcpConnection Q)
    (inLoopThread : Bool) (write : Except ℕ ℕ) : UserCall → Prop
  | .send _ msg => inLoopThread = true → conn.m_state = .kConnected → P conn msg write
  | _ => True

/-- **Every `sendInLoop` of the step meets the condition.** -/
def TcpServer.Meets (P : TcpConnection Q → Bytes → Except ℕ ℕ → Prop) (s : TcpServer Q) :
    ServerStep → Prop
  | .exec l _ write => ∀ t ∈ (s.loops l).current.head?, ∀ c ∈ t.subject, t.Meets P (s.conns c).conn write
  | .call thread call write =>
    call.Meets P (s.conns call.target).conn (thread = some (s.home call.target)) write
  | _ => True

section

variable {P : TcpConnection Q → Bytes → Except ℕ ℕ → Prop} [∀ conn msg write, Decidable (P conn msg write)]

instance (conn : TcpConnection Q) (write : Except ℕ ℕ) : (t : Task) → Decidable (t.Meets P conn write)
  | .deferred _ (.sendInLoop msg) => inferInstanceAs (Decidable (P conn msg write))
  | .deferred _ .shutDownInLoop | .deferred _ .forceCloseInLoop | .life _ _ | .handleRead _
  | .handleWrite _ | .user _ => .isTrue trivial

instance (conn : TcpConnection Q) (inLoopThread : Bool) (write : Except ℕ ℕ) :
    (call : UserCall) → Decidable (call.Meets P conn inLoopThread write)
  | .send _ msg => inferInstanceAs (Decidable (_ → _ → P conn msg write))
  | .shutDown _ | .forceClose _ => .isTrue trivial

instance (s : TcpServer Q) : (a : ServerStep) → Decidable (s.Meets P a)
  | .exec l _ write =>
    inferInstanceAs (Decidable (∀ t ∈ (s.loops l).current.head?, ∀ c ∈ t.subject,
      t.Meets P (s.conns c).conn write))
  | .call thread call write =>
    inferInstanceAs (Decidable (call.Meets P (s.conns call.target).conn
      (thread = some (s.home call.target)) write))
  | .poll _ _ | .handleEvent _ | .return_ _ | .swap _ | .nextFunctor _ | .endPass _ | .accept _ _
  | .timer _ | .retain _ | .release _ | .close _ | .destroy _ => .isTrue trivial

end

/-- **A property of a connection that every call about it keeps**, and that depends on no more of the
epoller of its home than on what this has under its descriptor. -/
structure Kept (P : TcpConnection Q → Bytes → Except ℕ ℕ → Prop) (buffer : Q)
    (I : Epoller → TcpConnection Q → Prop) : Prop where
  entry : ∀ {ep ep' conn}, I ep conn → SameEntry conn.m_channel.m_fd ep ep' → I ep' conn
  new : ∀ {ep fd} c home, ep.interest fd = none → I ep (.new c home fd buffer)
  task : ∀ {p ep l conn read write t e}, At p ep conn → t.Fits p l conn.m_loop → I ep conn →
    t.Meets P conn write → runTask ep l conn read write t = .ok e → I e.ep e.conn
  call : ∀ {p ep conn inLoopThread write call e}, At p ep conn → I ep conn →
    call.Meets P conn inLoopThread write → runCall ep conn inLoopThread write call = .ok e → I e.ep e.conn

/-- The property of all connections ever made; with the epoller of its home, as long as the object is
there. -/
def KeptBy (I : Epoller → TcpConnection Q → Prop) (s : TcpServer Q) : Prop :=
  ∀ c, c < s.next → ∃ ep, I ep (s.conns c).conn ∧ (s.isAlive c → ep = (s.loops (s.home c)).ep)

variable {P : TcpConnection Q → Bytes → Except ℕ ℕ → Prop} {buffer : Q} {I : Epoller → TcpConnection Q → Prop}

omit [ByteQueue Q] in
theorem ServerOk.made (h : ServerOk ph s) (hc : s.isAlive c) : c < s.next := by
  by_contra hge
  exact h.reg.born hc (h.reg.next c (by omega))

omit [ByteQueue Q] in
theorem KeptBy.alive (hI : KeptBy I s) (h : ServerOk ph s) (hc : s.isAlive c) :
    I (s.loops (s.home c)).ep (s.conns c).conn := by
  obtain ⟨ep, hep, heq⟩ := hI c (h.made hc)
  rwa [heq hc] at hep

/-- **One step.** -/
theorem Kept.step (hkept : Kept P buffer I) (h : ServerOk ph s) (hI : KeptBy I s) (ha : s.Meets P a)
    (hstep : s.step buffer a = some s') : KeptBy I s' := by
  intro c hc
  cases step_on h hstep c with
  | alone hconn hmade halive =>
    obtain ⟨ep, hep, heq⟩ := hI c (hmade hc)
    have hhome : s'.home c = s.home c := by rw [TcpServer.home, hconn, TcpServer.home]
    rw [hconn, hhome]
    by_cases hc' : s'.isAlive c
    · obtain ⟨hold, hentry⟩ := halive hc'
      rw [heq hold] at hep
      exact ⟨_, hkept.entry hep hentry, fun _ => rfl⟩
    · exact ⟨ep, hep, fun hc => absurd hc hc'⟩
  | task l read write t stack e hexec hcur hsub hc' hfit hran hconn hep =>
    subst hexec
    rw [hconn, hep]
    have hmeets := ha t (by rw [hcur]; rfl) c hsub
    exact ⟨e.ep, hkept.task (h.reg.at_ hc') hfit (hI.alive h hc') hmeets hran, fun _ => rfl⟩
  | call thread call write e hcall htarget hc' hran hconn hep =>
    subst hcall
    subst htarget
    rw [hconn, hep]
    exact ⟨e.ep, hkept.call (h.reg.at_ hc') (hI.alive h hc') ha hran, fun _ => rfl⟩
  | made fd home _ hconn hnone =>
    rw [hconn]
    exact ⟨_, hkept.new c home hnone, fun _ => rfl⟩

/-- **A whole run.** What the calls about a connection keep is true of every connection, in every
state of every run of a server with any number of loops. -/
theorem run_kept (hkept : Kept P buffer I) (numLoops : ℕ) {steps : List ServerStep}
    (hmeets : Along (TcpServer.step buffer) (TcpServer.Meets P) (.start numLoops buffer) steps)
    (hrun : run (TcpServer.step buffer) (TcpServer.start numLoops buffer) steps = some s) :
    ∃ ph, ServerOk ph s ∧ KeptBy I s := by
  refine run_inv_along (C := TcpServer.Meets P) (I := fun s => ∃ ph, ServerOk ph s ∧ KeptBy I s) ?_
    steps ⟨_, start_ok numLoops buffer, fun c hc => absurd hc (Nat.not_lt_zero c)⟩ hmeets hrun
  rintro s a s' ⟨ph, h, hI⟩ ha hstep
  obtain ⟨ph', h', -⟩ := step_ok buffer h hstep
  exact ⟨ph', h', hkept.step h hI ha hstep⟩

end MyMuduo
