import MyMuduo.Proof.ServerStreams

/-!
# What is said on the connections of a server

The part of a connection that a conversation depends on is its input buffer, its parser, what was sent
on it, and whether it is connected.

* `runTask_hears`: a call under way leaves the conversation alone, but for the one that establishes the
  connection and for a read that gets bytes. The connection may go down at any time.
* `runCall_tells`: a call of the user's code sends its message while the connection is connected, or
  nothing.
* `user_stays`: a thread in code of the user goes on there, whatever the others do.
* `deferred_of_step`: a functor that is due was due before, or a call of the user's code queued it.
* `sends_of_step`: where all messages are sent in the loop of their connection, none waits for it.
* `ServerOk.replace`: what else a connection holds does not matter to the server.
-/

namespace MyMuduo

open Lib

/-- The message of a `send`. -/
def UserCall.message : UserCall → Option Bytes
  | send _ msg => some msg
  | shutDown _ | forceClose _ => none

/-! ## Calls under way -/

section

variable {Q : Type} {ep ep' : Epoller} {c c' : TcpConnection Q}

/-- **Nothing was said**, and the connection did not come up. -/
structure SameTalk (c c' : TcpConnection Q) : Prop where
  input : c'.m_input_buffer = c.m_input_buffer
  parser : c'.m_httpParser = c.m_httpParser
  sent : c'.sent = c.sent
  connected : c'.m_state = .kConnected → c.m_state = .kConnected
  connecting : c'.m_state = .kConnecting → c.m_state = .kConnecting

theorem SameTalk.refl (c : TcpConnection Q) : SameTalk c c := ⟨rfl, rfl, rfl, id, id⟩

theorem SameTalk.trans {c'' : TcpConnection Q} (h : SameTalk c c') (h' : SameTalk c' c'') : SameTalk c c'' :=
  ⟨h'.input.trans h.input, h'.parser.trans h.parser, h'.sent.trans h.sent, h.connected ∘ h'.connected,
    h.connecting ∘ h'.connecting⟩

theorem setEvents_talk {e : Events} (hs : c.setEvents ep e = .ok (ep', c')) : SameTalk c c' := by
  obtain ⟨i, rfl⟩ := setEvents_ok hs
  exact ⟨rfl, rfl, rfl, id, id⟩

theorem handleClose_talk (hs : c.handleClose ep = .ok (ep', c')) : SameTalk c c' := by
  unfold TcpConnection.handleClose at hs
  split at hs
  · obtain ⟨i, rfl⟩ := setEvents_ok hs
    exact ⟨rfl, rfl, rfl, fun h => (by cases h), fun h => (by cases h)⟩
  · cases hs

theorem connectionDestructor_talk (hs : c.connectionDestructor ep = .ok (ep', c')) : SameTalk c c' := by
  unfold TcpConnection.connectionDestructor at hs
  dsimp only at hs
  split at hs
  · obtain ⟨i, rfl⟩ := setEvents_ok hs
    exact ⟨rfl, rfl, rfl, fun h => (by cases h), fun h => (by cases h)⟩
  · cases hs
    exact ⟨rfl, rfl, rfl, id, id⟩

theorem shutDownInLoop_talk (c : TcpConnection Q) : SameTalk c c.shutDownInLoop := by
  unfold TcpConnection.shutDownInLoop
  split
  · exact .refl c
  · exact ⟨rfl, rfl, rfl, id, id⟩

variable [ByteQueue Q]

theorem handleWrite_talk {r : Except ℕ ℕ} (hs : c.handleWrite ep r = .ok (ep', c')) : SameTalk c c' := by
  obtain ⟨hst, hinput, hparser, hsent⟩ := handleWrite_unsaid hs
  exact ⟨hinput, hparser, hsent, fun h => hst.symm.trans h, fun h => hst.symm.trans h⟩

/-- **What a call under way is to a conversation.** -/
inductive Hears (t : Task) (read : Except ℕ Bytes) (c : TcpConnection Q) (e : Effect Q) : Prop where
  | nothing (talk : SameTalk c e.conn) (silent : ∀ i, t = .handleRead i → e.calls = [.life .closeCallback i])
  | begins (i : ℕ) (task : t = .life .connectionEstablished i) (input : e.conn.m_input_buffer = c.m_input_buffer)
      (parser : e.conn.m_httpParser = c.m_httpParser) (sent : e.conn.sent = c.sent)
  | bytes (i : ℕ) (data : Bytes) (tr : List ConnEvent) (task : t = .handleRead i) (read : read = .ok data)
      (conn : e.conn = { c with trace := tr, m_input_buffer := ByteQueue.fill c.m_input_buffer data })
      (calls : e.calls = [.user (some i)])

theorem handleRead_hears {read : Except ℕ Bytes} {callback : Option TcpConnection.ReadCallback}
    (hs : c.handleRead ep read = .ok (ep', c', callback)) :
    (SameTalk c c' ∧ callback = some .close) ∨ ∃ data tr, read = .ok data ∧ callback = some .message ∧
      c' = { c with trace := tr, m_input_buffer := ByteQueue.fill c.m_input_buffer data } := by
  unfold TcpConnection.handleRead at hs
  dsimp only at hs
  split at hs
  · split at hs
    · rename_i hclose
      cases hs
      obtain ⟨h1, h2, h3, h4, h5⟩ := handleClose_talk hclose
      exact .inl ⟨⟨h1, h2, h3, h4, h5⟩, rfl⟩
    · cases hs
  · rename_i data _
    cases hs
    exact .inr ⟨data, _, rfl, rfl, rfl⟩
  · rw [if_pos (by decide)] at hs
    split at hs
    · rename_i hclose
      cases hs
      obtain ⟨h1, h2, h3, h4, h5⟩ := handleClose_talk hclose
      exact .inl ⟨⟨h1, h2, h3, h4, h5⟩, rfl⟩
    · cases hs

/-- **A call under way**, which is no `sendInLoop` of another thread. -/
theorem runTask_hears {l : ℕ} {read : Except ℕ Bytes} {write : Except ℕ ℕ} {t : Task} {e : Effect Q}
    (hsend : ∀ i msg, t ≠ .deferred i (.sendInLoop msg)) (hrun : runTask ep l c read write t = .ok e) :
    Hears t read c e := by
  have hquiet : ∀ {c' : TcpConnection Q}, (∀ i, t ≠ .handleRead i) → e.conn = c' → SameTalk c c' →
      Hears t read c e := fun ht he htalk => .nothing (he ▸ htalk) fun i hi => absurd hi (ht i)
  cases t with
  | life k i =>
    cases k with
    | connectionEstablished =>
      have hset := setEvents_talk (c := { c with m_state := .kConnected }) (Effect.of_eq_ok hrun)
      exact .begins i rfl hset.input hset.parser hset.sent
    | closeCallback =>
      unfold runTask runLife at hrun
      dsimp only at hrun
      split at hrun
      · cases hrun
        exact hquiet (fun _ => by simp) rfl ⟨rfl, rfl, rfl, id, id⟩
      · cases hrun
        exact hquiet (fun _ => by simp) rfl ⟨rfl, rfl, rfl, id, id⟩
    | handleRemoveConnectionInLoop =>
      cases hrun
      exact hquiet (fun _ => by simp) rfl (.refl c)
    | connectionDestructor =>
      exact hquiet (fun _ => by simp) rfl (connectionDestructor_talk (Effect.of_eq_ok hrun))
    | remove =>
      obtain ⟨j, hj⟩ := removeChannel_ok (Effect.of_eq_ok hrun)
      exact hquiet (fun _ => by simp) hj ⟨rfl, rfl, rfl, id, id⟩
  | deferred i d =>
    cases d with
    | sendInLoop msg => exact absurd rfl (hsend i msg)
    | shutDownInLoop =>
      cases hrun
      exact hquiet (fun _ => by simp) rfl (shutDownInLoop_talk c)
    | forceCloseInLoop =>
      unfold runTask forceCloseInLoop at hrun
      dsimp only at hrun
      split at hrun
      · exact hquiet (fun _ => by simp) rfl (handleClose_talk (Effect.of_eq_ok hrun))
      · cases hrun
        exact hquiet (fun _ => by simp) rfl (.refl c)
  | handleRead i =>
    unfold runTask at hrun
    dsimp only at hrun
    split at hrun
    · rename_i hs
      cases hrun
      rcases handleRead_hears hs with ⟨htalk, rfl⟩ | ⟨data, tr, hread, rfl, hconn⟩
      · exact .nothing htalk fun j hj => by cases hj; rfl
      · exact .bytes i data tr rfl hread hconn rfl
    · cases hrun
  | handleWrite i => exact hquiet (fun _ => by simp) rfl (handleWrite_talk (Effect.of_eq_ok hrun))
  | user i =>
    cases hrun
    exact hquiet (fun _ => by simp) rfl (.refl c)

/-! ## Calls of `onMessage` -/

/-- **What a call of `onMessage` is to a conversation.** -/
structure Tells (call : UserCall) (c c' : TcpConnection Q) : Prop where
  input : c'.m_input_buffer = c.m_input_buffer
  parser : c'.m_httpParser = c.m_httpParser
  sent : c'.sent = if c.m_state = .kConnected then c.sent ++ call.message.toList else c.sent
  connected : c'.m_state = .kConnected → c.m_state = .kConnected ∧ ∀ i, call ≠ .shutDown i
  connecting : c'.m_state = .kConnecting → c.m_state = .kConnecting

/-- The call has no message, or it is made in the loop thread: then the message is sent at once. -/
theorem runCall_tells {inLoopThread : Bool} {write : Except ℕ ℕ} {call : UserCall} {e : Effect Q}
    (hloop : call.message = none ∨ inLoopThread = true)
    (hrun : runCall ep c inLoopThread write call = .ok e) :
    Tells call c e.conn ∧ ∀ l i msg, e.queued ≠ some (l, .deferred i (.sendInLoop msg)) := by
  cases call with
  | send i msg =>
    have hloop : inLoopThread = true := hloop.resolve_left (by simp [UserCall.message])
    unfold runCall TcpConnection.send at hrun
    rw [hloop] at hrun
    dsimp only at hrun
    by_cases hst : c.m_state = .kConnected
    · rw [if_pos hst, if_pos rfl] at hrun
      split at hrun
      · rename_i hs
        split at hs
        · rename_i hsend
          cases hs
          cases hrun
          obtain ⟨hstate, -, hinput, hparser, hsent⟩ := sendInLoop_sends hsend
          rw [if_neg (by rw [hst]; decide)] at hsent
          refine ⟨⟨hinput, hparser, ?_, fun _ => ⟨hst, fun _ => by simp⟩, fun h => by rw [← hstate]; exact h⟩, ?_⟩
          · rw [if_pos hst]
            exact hsent
          · intro _ _ _ hq
            cases hq
        · cases hs
      · cases hrun
    · rw [if_neg hst] at hrun
      cases hrun
      refine ⟨⟨rfl, rfl, (if_neg hst).symm, fun h => absurd h hst, id⟩, ?_⟩
      intro _ _ _ hq
      cases hq
  | shutDown i =>
    unfold runCall TcpConnection.shutDown at hrun
    dsimp only at hrun
    cases hrun
    by_cases hst : c.m_state = .kConnected
    · rw [if_pos hst]
      cases inLoopThread with
      | true =>
        obtain ⟨h1, h2, h3, h4, h5⟩ := shutDownInLoop_talk { c with m_state := .kDisconnecting }
        refine ⟨⟨h1, h2, ?_, fun h => (by cases h4 h), fun h => by cases h5 h⟩, ?_⟩
        · rw [if_pos hst]
          exact h3.trans (List.append_nil _).symm
        · intro _ _ _ hq
          cases hq
      | false =>
        refine ⟨⟨rfl, rfl, ?_, fun h => (by cases h), fun h => by cases h⟩, ?_⟩
        · rw [if_pos hst]
          exact (List.append_nil _).symm
        · intro _ _ _ hq
          cases hq
    · rw [if_neg hst]
      refine ⟨⟨rfl, rfl, (if_neg hst).symm, fun h => absurd h hst, id⟩, ?_⟩
      intro _ _ _ hq
      cases hq
  | forceClose i =>
    unfold runCall TcpConnection.forceClose at hrun
    dsimp only at hrun
    cases hrun
    by_cases hst : c.m_state = .kConnected ∨ c.m_state = .kDisconnecting
    · rw [if_pos hst]
      refine ⟨⟨rfl, rfl, ?_, fun h => (by cases h), fun h => by cases h⟩, ?_⟩
      · simp [UserCall.message]
      · intro _ _ _ hq
        cases hq
    · rw [if_neg hst]
      refine ⟨⟨rfl, rfl, ?_, fun h => absurd (.inl h) hst, id⟩, ?_⟩
      · simp [UserCall.message]
      · intro _ _ _ hq
        cases hq

end

section

variable {Q : Type} [ByteQueue Q] {ph : ℕ → Phase} {s s' : TcpServer Q} {a : ServerStep} {l c : ℕ}

/-! ## The server below -/

omit [ByteQueue Q] in
theorem setLoop_current {l' : ℕ} {L : IoLoop} (hL : l' = l → L.current = (s.loops l).current) :
    ((s.setLoop l' L).loops l).current = (s.loops l).current := by
  by_cases hl : l' = l
  · subst hl
    rw [show (s.setLoop l' L).loops l' = L from Function.update_self _ _ _, hL rfl]
  · rw [show (s.setLoop l' L).loops l = s.loops l from Function.update_of_ne (Ne.symm hl) _ _]

omit [ByteQueue Q] in
theorem apply_current (s : TcpServer Q) (c : ℕ) (e : Effect Q) (l : ℕ) :
    ((s.apply c e).loops l).current = (s.loops l).current := by
  rw [apply_loops]

/-- **A thread in code of the user goes on there**, until it returns. -/
theorem user_stays {buffer : Q} {x : Option ℕ} (hx : (s.loops l).current.head? = some (.user x))
    (ha : a ≠ .return_ l) (hstep : s.step buffer a = some s') :
    (s'.loops l).current = (s.loops l).current := by
  have hne : ∀ l', (s.loops l').current = [] → l' ≠ l := by
    rintro l' hl' rfl
    rw [hl'] at hx
    cases hx
  unfold TcpServer.step at hstep
  split at hstep
  · cases hstep
  cases a with
  | exec l' read write =>
    dsimp only at hstep
    split at hstep
    · cases hstep
    rename_i t stack hcur
    split at hstep
    · cases hstep
    rename_i c hsub
    have hl : l' ≠ l := by
      rintro rfl
      rw [hcur] at hx
      cases hx
      cases hsub
    split at hstep
    · split at hstep
      · cases hstep
        rw [apply_current]
        exact setLoop_current fun he => absurd he hl
      · cases hstep
        rfl
    · cases hstep
      rfl
  | call thread call write =>
    dsimp only at hstep
    split at hstep
    · split at hstep
      · cases hstep
        exact apply_current _ _ _ _
      · cases hstep
        rfl
    · cases hstep
  | accept fd home =>
    dsimp only at hstep
    split at hstep
    · rename_i hg
      cases hstep
      rw [handleNewConnection_loops]
      split
      · exact setLoop_current fun he => absurd he (hne 0 hg.2.2.1)
      · exact setLoop_current fun he => by rw [he]
    · cases hstep
  | destroy c =>
    dsimp only at hstep
    split at hstep
    · cases hstep
      unfold TcpServer.destroyChannel
      dsimp only
      split
      · split
        · rfl
        · split
          · rfl
          · exact setLoop_current fun he => by rw [he]
      · rfl
    · cases hstep
  | handleEvent l' =>
    dsimp only at hstep
    split at hstep
    · rename_i hg
      unfold TcpServer.handleEvent at hstep
      split at hstep
      · cases hstep
      · split at hstep
        · cases hstep
          exact setLoop_current fun he => absurd he (hne l' hg.2.2)
        · cases hstep
          rfl
    · cases hstep
  | return_ l' =>
    dsimp only at hstep
    split at hstep
    · cases hstep
      exact setLoop_current fun he => absurd (by rw [he]) ha
    · cases hstep
  | nextFunctor l' =>
    dsimp only at hstep
    split at hstep
    · rename_i hcur _
      cases hstep
      exact setLoop_current fun he => absurd he (hne l' hcur)
    · cases hstep
  | timer l' =>
    dsimp only at hstep
    split at hstep
    · rename_i hg
      cases hstep
      exact setLoop_current fun he => absurd he (hne l' hg.2.2)
    · cases hstep
  | poll l' _ | swap l' | endPass l' =>
    dsimp only at hstep
    split at hstep
    · cases hstep
      exact setLoop_current fun he => by rw [he]
    · cases hstep
  | retain c | release c | close c =>
    dsimp only at hstep
    split at hstep
    · cases hstep
      rfl
    · cases hstep

omit [ByteQueue Q] in
/-- What is not born was not born before. -/
theorem unborn_back {ph' : ℕ → Phase} (h : ServerOk ph s) (h' : ServerOk ph' s') (hforward : Forward ph ph')
    (hc : (s'.conns c).life = .unborn) : (s.conns c).life = .unborn := by
  rw [h.reg.unborn]
  rw [h'.reg.unborn] at hc
  have hrank := hforward c
  rw [hc] at hrank
  cases hp : ph c with
  | unborn => rfl
  | _ => rw [hp] at hrank; simp [Phase.rank] at hrank

/-- A connection that was made stays at home. -/
theorem home_stays {buffer : Q} (h : ServerOk ph s) (hstep : s.step buffer a = some s') (hc : c < s.next) :
    s'.home c = s.home c := by
  have hmoves := (step_moves h hstep).homes c
  cases step_on h hstep c with
  | alone hconn _ _ => rw [TcpServer.home, hconn, TcpServer.home]
  | task l read write t stack e _ _ _ halive => exact hmoves (h.reg.born halive)
  | call thread call write e _ _ halive => exact hmoves (h.reg.born halive)
  | made fd home hnext => omega

/-- A functor that is due was due before, or a call of the user's code queued it. -/
theorem deferred_of_step {buffer : Q} (h : ServerOk ph s) (hstep : s.step buffer a = some s') {l c : ℕ}
    {d : TcpConnection.Deferred} (hm : .deferred c d ∈ (s'.loops l).work) :
    .deferred c d ∈ (s.loops l).work ∨ ∃ thread call write e, a = .call thread call write ∧
      runCall (s.loops (s.home call.target)).ep (s.conns call.target).conn
        (thread = some (s.home call.target)) write call = .ok e ∧
      (s'.conns call.target).conn = e.conn ∧ e.queued = some (l, .deferred c d) := by
  rcases ((step_moves h hstep).loops l).work hm with hold | hdirect | hqueued
  · exact .inl hold
  · exact absurd rfl (hdirect.1 c _)
  rcases hqueued with ⟨k, c, -, hk⟩ | ⟨thread, call, write, c, d, rfl, -, -⟩
  · cases hk
  unfold TcpServer.step at hstep
  rw [if_neg fun hf => hf h.running] at hstep
  dsimp only at hstep
  split at hstep
  · split at hstep
    · rename_i e hrun
      cases hstep
      rw [apply_loops] at hm
      simp only [IoLoop.work, List.mem_append] at hm ⊢
      rcases hm with hm | hm | hm
      · exact .inl (.inl hm)
      · exact .inl (.inr hm)
      · refine .inr ⟨thread, call, write, e, rfl, hrun, ?_, mem_queuedAt hm⟩
        rw [(apply_rest s call.target e).2.2.2.2.1, Function.update_self]
    · cases hstep
      exact .inl hm
  · cases hstep

/-- The step sends nothing for another thread. -/
def ServerStep.Local (s : TcpServer Q) (a : ServerStep) : Prop :=
  ∀ thread call write, a = .call thread call write →
    call.message = none ∨ decide (thread = some (s.home call.target)) = true

instance (s : TcpServer Q) : (a : ServerStep) → Decidable (a.Local s)
  | .call thread call _ => decidable_of_iff
      (call.message = none ∨ decide (thread = some (s.home call.target)) = true)
      ⟨fun h => by rintro _ _ _ ⟨⟩; exact h, fun h => h _ _ _ rfl⟩
  | .poll _ _ | .handleEvent _ | .exec _ _ _ | .return_ _ | .swap _ | .nextFunctor _ | .endPass _
  | .accept _ _ | .timer _ | .retain _ | .release _ | .close _ | .destroy _ => .isTrue (by rintro _ _ _ ⟨⟩)

/-- **No message waits for its loop**, if the calls are made in the loop. -/
theorem sends_of_step {buffer : Q} (h : ServerOk ph s) (ha : a.Local s) (hstep : s.step buffer a = some s')
    {i : ℕ} {msg : Bytes} (hm : .deferred i (.sendInLoop msg) ∈ (s'.loops l).work) :
    .deferred i (.sendInLoop msg) ∈ (s.loops l).work := by
  rcases deferred_of_step h hstep hm with hold | ⟨thread, call, write, e, rfl, hran, -, hq⟩
  · exact hold
  · exact absurd hq ((runCall_tells (ha _ _ _ rfl) hran).2 l i msg)

/-- The objects agree in what the life of a connection depends on. -/
structure SameLife (o o' : Object Q) : Prop where
  life : o'.life = o.life
  self : o'.conn.self = o.conn.self
  loop : o'.conn.m_loop = o.conn.m_loop
  state : o'.conn.m_state = o.conn.m_state
  channel : o'.conn.m_channel = o.conn.m_channel
  trace : o'.conn.trace = o.conn.trace

omit [ByteQueue Q] in
/-- What else a connection holds does not matter to the server. -/
theorem ServerOk.replace (h : ServerOk ph s) {conns : ℕ → Object Q}
    (hsame : ∀ c, SameLife (s.conns c) (conns c)) : ServerOk ph { s with conns := conns } := by
  have hfd : ({ s with conns := conns } : TcpServer Q).fd = s.fd := by
    funext c
    simp only [TcpServer.fd, (hsame c).channel]
  have hhome : ({ s with conns := conns } : TcpServer Q).home = s.home := by
    funext c
    exact (hsame c).loop
  have halive : ({ s with conns := conns } : TcpServer Q).isAlive = s.isAlive := by
    funext c
    simp only [TcpServer.isAlive, (hsame c).life]
  refine ⟨h.running, ⟨fun c => ?_, fun c => ?_, h.reg.next, ?_, ?_, fun c => ?_, fun c => ?_, fun c => ?_, ?_, ?_,
    ?_, ?_⟩, ?_, ?_⟩
  · rw [(hsame c).self]; exact h.reg.self c
  · rw [(hsame c).life]; exact h.reg.unborn c
  · rw [halive]; exact h.reg.alive
  · rw [hhome]; exact h.reg.home
  · rw [(hsame c).state]; exact h.reg.state c
  · rw [(hsame c).channel]; exact h.reg.chan c
  · rw [(hsame c).trace]; exact h.reg.trace c
  · rw [hfd]; exact h.reg.map
  · rw [hhome, hfd]; exact h.reg.channels
  · rw [hhome, hfd]; exact h.reg.interest
  · rw [halive, hfd]; exact h.reg.fds
  · rw [hhome]; exact h.tokens
  · rw [hhome, halive]; exact h.stack

end

end MyMuduo
