import MyMuduo.Proof.HttpAnswer

/-!
# The conversations of an HTTP server

The loops, the idle timers and the clients go on between the calls of an `onMessage`; still each
connection has its own conversation.

* `Conversation`: a connection is where the session of its own reads is, up to the calls that its
  `onMessage` has still to make, or it was cut short.
* `step_cases`: what a step is to the server below: steps with no part in the conversations, a call
  under way with its callback, or the next call of an `onMessage`.
* `http_conversation`: **the conversation of each connection comes of its own reads**, in every state
  of every run.
-/

namespace MyMuduo

open Lib

/-! ## The conversation of one connection -/

/-- The calls about the connection `c`. -/
def callsOn (c : ℕ) (calls : List UserCall) : List UserCall := calls.filter fun call => call.target = c

theorem callsOn_self {c : ℕ} {calls : List UserCall} (h : ∀ call ∈ calls, call.target = c) :
    callsOn c calls = calls :=
  List.filter_eq_self.2 fun call hcall => by simpa using h call hcall

theorem callsOn_other {c c' : ℕ} {calls : List UserCall} (h : ∀ call ∈ calls, call.target = c) (hne : c' ≠ c) :
    callsOn c' calls = [] := by
  refine List.filter_eq_nil_iff.2 fun call hcall => ?_
  rw [h call hcall]
  simpa using Ne.symm hne

/-- The calls that a loop has to make change for one connection only. -/
theorem callsOn_update {todo : ℕ → List UserCall} {l c c' : ℕ} {calls : List UserCall}
    (hold : ∀ call ∈ todo l, call.target = c) (hnew : ∀ call ∈ calls, call.target = c) (hne : c' ≠ c) (l' : ℕ) :
    callsOn c' (Function.update todo l calls l') = callsOn c' (todo l') := by
  by_cases hl : l' = l
  · rw [hl, Function.update_self, callsOn_other hnew hne, callsOn_other hold hne]
  · rw [Function.update_of_ne hl]

theorem messages_cons (call : UserCall) (calls : List UserCall) :
    messages (call :: calls) = call.message.toList ++ messages calls := by
  unfold messages
  cases hm : call.message with
  | none => rw [List.filterMap_cons_none hm]; rfl
  | some msg => rw [List.filterMap_cons_some hm]; rfl

/-- What comes of the reads of a connection. -/
abbrev sessionOf (cb : HttpResponseCallback) (reads : List Bytes) : Session := Session.new.receiveAll cb reads

theorem sessionOf_snoc (cb : HttpResponseCallback) (reads : List Bytes) (data : Bytes) :
    sessionOf cb (reads ++ [data]) = (sessionOf cb reads).receive cb (lines data) :=
  Session.receiveAll_append cb _ reads [data]

theorem sessionOf_noBody (cb : HttpResponseCallback) (reads : List Bytes) :
    (sessionOf cb reads).parser.NoBody := by
  induction reads using List.reverseRecOn with
  | nil => exact HttpRequestParser.new_noBody
  | append_singleton reads data ih =>
    rw [sessionOf_snoc, Session.parser_receive]
    exact HttpRequestParser.feed_noBody ih _

/-- **The conversation on a connection**: that of the session of its reads, up to the calls still to be
made, as long as nobody cut it short. -/
structure Conversation (cb : HttpResponseCallback) (reads : List Bytes) (requests : List HttpRequest)
    (calls : List UserCall) (conn : TcpConnection Buffer) : Prop where
  input : conn.m_input_buffer.Fresh
  parser : conn.m_httpParser = (sessionOf cb reads).parser
  requests : requests = (sessionOf cb reads).calls
  sent : conn.sent <+: (sessionOf cb reads).sent
  connected : conn.m_state = .kConnected → conn.sent ++ messages calls = (sessionOf cb reads).sent ∧
    ((sessionOf cb reads).connected = false → ∃ i, .shutDown i ∈ calls)
  connecting : conn.m_state = .kConnecting → reads = []

namespace Conversation

variable {cb : HttpResponseCallback} {reads : List Bytes} {requests : List HttpRequest}
  {calls : List UserCall} {conn conn' : TcpConnection Buffer}

theorem start (c home fd : ℕ) : Conversation cb [] [] [] (.new c home fd (.new kInitialSize)) :=
  ⟨Buffer.fresh_new, rfl, rfl, List.prefix_rfl, fun h => (by cases h), fun _ => rfl⟩

/-- Nothing is said. -/
theorem talk (h : Conversation cb reads requests calls conn) (htalk : SameTalk conn conn') :
    Conversation cb reads requests calls conn' := by
  refine ⟨?_, htalk.parser.trans h.parser, h.requests, ?_, fun hst => ?_, fun hst => h.connecting (htalk.connecting hst)⟩
  · rw [htalk.input]; exact h.input
  · rw [htalk.sent]; exact h.sent
  · rw [htalk.sent]; exact h.connected (htalk.connected hst)

/-- The connection is established. -/
theorem begins (h : Conversation cb reads requests [] conn) (hst : conn.m_state = .kConnecting)
    (hinput : conn'.m_input_buffer = conn.m_input_buffer)
    (hparser : conn'.m_httpParser = conn.m_httpParser) (hsent : conn'.sent = conn.sent) :
    Conversation cb reads requests [] conn' := by
  have hreads := h.connecting hst
  have hnone : conn.sent = [] := by
    have hprefix := h.sent
    rw [hreads] at hprefix
    exact List.prefix_nil.1 hprefix
  refine ⟨?_, hparser.trans h.parser, h.requests, ?_, fun _ => ⟨?_, fun hno => ?_⟩, fun _ => hreads⟩
  · rw [hinput]; exact h.input
  · rw [hsent]; exact h.sent
  · rw [hsent, hnone, hreads]; rfl
  · rw [hreads] at hno
    cases hno

/-- The next call is made. -/
theorem called {call : UserCall} (h : Conversation cb reads requests (call :: calls) conn)
    (htells : Tells call conn conn') : Conversation cb reads requests calls conn' := by
  refine ⟨?_, htells.parser.trans h.parser, h.requests, ?_, fun hst => ?_, fun hst => h.connecting (htells.connecting hst)⟩
  · rw [htells.input]; exact h.input
  · rw [htells.sent]
    split
    · rename_i hst
      rw [← (h.connected hst).1, messages_cons]
      exact (List.prefix_append_right_inj _).2 (List.prefix_append _ _)
    · exact h.sent
  · obtain ⟨hold, hno⟩ := htells.connected hst
    obtain ⟨h1, h2⟩ := h.connected hold
    rw [messages_cons, ← List.append_assoc] at h1
    rw [htells.sent, if_pos hold]
    refine ⟨h1, fun hclosed => ?_⟩
    obtain ⟨i, hi⟩ := h2 hclosed
    rcases List.mem_cons.1 hi with hi | hi
    · exact absurd hi.symm (hno i)
    · exact ⟨i, hi⟩

/-- **Bytes are read**, and `onMessage` is called. -/
theorem hears (h : Conversation cb reads requests [] conn) (hst : conn.m_state ≠ .kConnecting) (c : ℕ)
    {data : Bytes} {tr : List ConnEvent}
    (hconn : conn' = { conn with trace := tr, m_input_buffer := ByteQueue.fill conn.m_input_buffer data }) :
    Conversation cb (reads ++ [data]) (requests ++ (HttpServer.answer cb c conn').request.toList)
      (HttpServer.answer cb c conn').calls (HttpServer.answer cb c conn').conn := by
  obtain ⟨hok, hread⟩ := Buffer.readFd_fresh h.input data
  have hanswer : AnswerOk cb c conn' (sessionOf cb reads) data (HttpServer.answer cb c conn') := by
    refine answer_ok cb c ?_ (sessionOf_noBody cb reads) ?_ ?_
    · rw [hconn]; exact h.parser
    · rw [hconn]; exact hok
    · rw [hconn]; exact hread
  obtain ⟨⟨buf, hfresh, hx⟩, hcalls, hsent, hopen⟩ := hanswer
  set x := HttpServer.answer cb c conn'
  have hstate : x.conn.m_state = conn.m_state := by rw [hx, hconn]
  have hsame : x.conn.sent = conn.sent := by rw [hx, hconn]
  rw [← sessionOf_snoc] at hcalls hsent hopen
  refine ⟨?_, ?_, ?_, ?_, fun hup => ?_, fun hup => absurd (hstate ▸ hup) hst⟩
  · rw [hx]; exact hfresh
  · rw [hx, sessionOf_snoc]
  · rw [hcalls, h.requests]
  · -- what was sent stays, and nothing of it was ever taken back
    rw [hsame, hsent]
    split
    · exact h.sent.trans (List.prefix_append _ _)
    · exact h.sent
  · obtain ⟨h1, h2⟩ := h.connected (hstate ▸ hup)
    have hup' : (sessionOf cb reads).connected = true := by
      by_contra hno
      obtain ⟨i, hi⟩ := h2 (by simpa using hno)
      cases hi
    rw [hsame, hsent, hopen, if_pos hup', hup', ← h1]
    refine ⟨by rw [messages_nil, List.append_nil], fun hshut => ⟨c, by simpa using hshut⟩⟩

/-- The input buffer is emptied. -/
theorem retrieved (h : Conversation cb reads requests calls conn) :
    Conversation cb reads requests calls (HttpServer.onConnection conn) :=
  ⟨Buffer.retrieveAll_fresh h.input.ok, h.parser, h.requests, h.sent, h.connected, h.connecting⟩

end Conversation

/-! ## The invariant -/

namespace HttpSystem

variable {cb : HttpResponseCallback} {s s' : HttpSystem} {x : ServerStep}

/-- **The invariant of an HTTP server.** -/
structure Ok (cb : HttpResponseCallback) (s : HttpSystem) : Prop where
  server : ∃ ph, ServerOk ph s.tcp
  unsent : ∀ l i msg, .deferred i (.sendInLoop msg) ∉ (s.tcp.loops l).work
  /-- calls are left only in the callback of a connection, at its home -/
  todo : ∀ l, s.todo l ≠ [] → ∃ c, (s.tcp.loops l).current.head? = some (.user (some c)) ∧
    s.tcp.home c = l ∧ ∀ call ∈ s.todo l, call.target = c
  talk : ∀ c, c < s.tcp.next →
    Conversation cb (s.reads c) (s.requests c) (callsOn c (s.todo (s.tcp.home c))) (s.conn c)
  unread : ∀ c, (s.tcp.conns c).life = .unborn → s.reads c = [] ∧ s.requests c = []

theorem start_ok (cb : HttpResponseCallback) (numLoops : ℕ) : Ok cb (start numLoops) :=
  ⟨⟨_, MyMuduo.start_ok numLoops _⟩, fun _ _ _ => List.not_mem_nil, fun _ h => absurd rfl h,
    fun c hc => absurd hc (Nat.not_lt_zero c), fun _ _ => ⟨rfl, rfl⟩⟩

/-- The timers are not looked at. -/
theorem Ok.congr (h : Ok cb s) (htcp : s'.tcp = s.tcp) (htodo : s'.todo = s.todo)
    (hreads : s'.reads = s.reads) (hrequests : s'.requests = s.requests) : Ok cb s' := by
  obtain ⟨h1, h2, h3, h4, h5⟩ := h
  refine ⟨?_, ?_, ?_, ?_, ?_⟩
  · rw [htcp]; exact h1
  · rw [htcp]; exact h2
  · rw [htcp, htodo]; exact h3
  · simp only [HttpSystem.conn, htcp, htodo, hreads, hrequests]; exact h4
  · rw [htcp, hreads, hrequests]; exact h5

/-- A connection whose callback runs is there. -/
theorem alive_of_user {ph : ℕ → Phase} {s : TcpServer Buffer} (h : ServerOk ph s) {l c : ℕ}
    (hx : (s.loops l).current.head? = some (.user (some c))) : s.isAlive c := by
  refine (h.stack l).owners (.user (some c)) ?_ c rfl
  have hmem := List.mem_of_mem_head? hx
  simp [IoLoop.held, hmem]

/-- The step runs no call under way and sends nothing, and no callback returns before its time. -/
structure Quiet (todo : ℕ → List UserCall) (x : ServerStep) : Prop where
  noExec : ∀ l read write, x ≠ .exec l read write
  noMessage : ∀ thread call write, x = .call thread call write → call.message = none
  returns : ∀ l, x = .return_ l → todo l = []

/-- The server below is `tcp`. -/
def withTcp (s : HttpSystem) (tcp : TcpServer Buffer) : HttpSystem := { s with idle := { s.idle with tcp := tcp } }

/-- The connection becomes one of the same life. -/
theorem setConn_ok {ph : ℕ → Phase} (h : ServerOk ph s.tcp) {c : ℕ} {conn : TcpConnection Buffer}
    {p : HttpRequestParser} {b : Buffer}
    (hconn : conn = { s.conn c with m_httpParser := p, m_input_buffer := b }) :
    ServerOk ph (s.setConn c conn).tcp ∧ (s.setConn c conn).tcp.home = s.tcp.home := by
  have hsame : ∀ c', SameLife (s.tcp.conns c')
      (Function.update s.tcp.conns c ⟨conn, (s.tcp.conns c).life⟩ c') := by
    intro c'
    by_cases hcc : c' = c
    · subst hcc
      rw [Function.update_self, hconn]
      exact ⟨rfl, rfl, rfl, rfl, rfl, rfl⟩
    · rw [Function.update_of_ne hcc]
      exact ⟨rfl, rfl, rfl, rfl, rfl, rfl⟩
  refine ⟨h.replace hsame, ?_⟩
  funext c'
  exact (hsame c').loop

theorem setConn_conn (s : HttpSystem) (c : ℕ) (conn : TcpConnection Buffer) (c' : ℕ) :
    (s.setConn c conn).conn c' = if c' = c then conn else s.conn c' := by
  show (Function.update s.tcp.conns c ⟨conn, (s.tcp.conns c).life⟩ c').conn = _
  by_cases hcc : c' = c
  · subst hcc
    rw [Function.update_self, if_pos rfl]
  · rw [Function.update_of_ne hcc, if_neg hcc]
    rfl

theorem setConn_life (s : HttpSystem) (c : ℕ) (conn : TcpConnection Buffer) (c' : ℕ) :
    ((s.setConn c conn).tcp.conns c').life = (s.tcp.conns c').life := by
  show (Function.update s.tcp.conns c ⟨conn, (s.tcp.conns c).life⟩ c').life = _
  by_cases hcc : c' = c
  · subst hcc
    rw [Function.update_self]
  · rw [Function.update_of_ne hcc]

/-- What is left of a callback stays there. -/
theorem Ok.todo_stays (h : Ok cb s) {tcp : TcpServer Buffer} (hstep : s.tcp.step (.new kInitialSize) x = some tcp)
    {l : ℕ} (hl : s.todo l ≠ []) (hx : x ≠ .return_ l) :
    ∃ c, (tcp.loops l).current.head? = some (.user (some c)) ∧ tcp.home c = l ∧
      ∀ call ∈ s.todo l, call.target = c := by
  obtain ⟨ph, hs⟩ := h.server
  obtain ⟨c, huser, hhome, htarget⟩ := h.todo l hl
  refine ⟨c, ?_, ?_, htarget⟩
  · rw [user_stays huser hx hstep]
    exact huser
  · rw [home_stays hs hstep (hs.made (alive_of_user hs huser))]
    exact hhome

/-- The calls left at home are not about a connection that is not born. -/
theorem Ok.no_calls (h : Ok cb s) {c : ℕ} (hc : s.tcp.next ≤ c) (l : ℕ) : callsOn c (s.todo l) = [] := by
  by_cases hl : s.todo l = []
  · rw [hl]; rfl
  · obtain ⟨ph, hs⟩ := h.server
    obtain ⟨c', huser, -, htarget⟩ := h.todo l hl
    have hlt := hs.made (alive_of_user hs huser)
    exact callsOn_other htarget (by omega)

/-- **A quiet step** of the server below. -/
theorem Ok.quiet (h : Ok cb s) (hx : Quiet s.todo x) {tcp : TcpServer Buffer}
    (hstep : s.tcp.step (.new kInitialSize) x = some tcp) : Ok cb (s.withTcp tcp) := by
  obtain ⟨ph, hs⟩ := h.server
  obtain ⟨ph', hs', hforward⟩ := step_ok _ hs hstep
  have hlocal : x.Local s.tcp := fun thread call write he => .inl (hx.noMessage thread call write he)
  refine ⟨⟨ph', hs'⟩, fun l i msg hm => h.unsent l i msg (sends_of_step hs hlocal hstep hm), fun l hl => ?_,
    fun c hc => ?_, fun c hc => h.unread c (unborn_back hs hs' hforward hc)⟩
  · exact h.todo_stays hstep hl fun he => hl (hx.returns l he)
  show Conversation cb (s.reads c) (s.requests c) (callsOn c (s.todo (tcp.home c))) (tcp.conns c).conn
  cases step_on hs hstep c with
  | alone hconn hmade _ =>
    rw [home_stays hs hstep (hmade hc), hconn]
    exact h.talk c (hmade hc)
  | task l read write t stack e he => exact absurd he (hx.noExec l read write)
  | call thread call write e he htarget halive hran hconn _ =>
    have hlt := hs.made halive
    obtain ⟨⟨h1, h2, h3, h4, h5⟩, -⟩ := runCall_tells (.inl (hx.noMessage _ _ _ he)) hran
    rw [home_stays hs hstep hlt, hconn]
    refine (h.talk c hlt).talk ⟨h1, h2, h3.trans ?_, fun hst => (h4 hst).1, h5⟩
    rw [hx.noMessage _ _ _ he, Option.toList_none, List.append_nil, ite_self, conn]
  | made fd home hnext hconn _ =>
    have hborn : (s.tcp.conns c).life = .unborn := (hs.reg.unborn c).2 (hs.reg.next c (by omega))
    obtain ⟨h1, h2⟩ := h.unread c hborn
    rw [h1, h2, hconn, h.no_calls (by omega)]
    exact .start c home fd

/-- Quiet steps one after the other. -/
theorem Ok.quiet_run (h : Ok cb s) {xs : List ServerStep} (hxs : ∀ x ∈ xs, Quiet s.todo x) {tcp : TcpServer Buffer}
    (hrun : run (TcpServer.step (.new kInitialSize)) s.tcp xs = some tcp) : Ok cb (s.withTcp tcp) := by
  refine run_inv_along (C := fun _ x => Quiet s.todo x) (I := fun tcp => Ok cb (s.withTcp tcp)) ?_ xs
    h (along_of_forall _ hxs) hrun
  intro tcp x tcp' hI hx hstep
  exact hI.quiet hx hstep

/-- What a call under way comes to. -/
structure Ran (ph : ℕ → Phase) (s s' : TcpServer Buffer) (l c : ℕ) (read : Except ℕ Bytes) (write : Except ℕ ℕ)
    (t : Task) (stack : List Task) (e : Effect Buffer) : Prop where
  subject : t.subject = some c
  alive : s.isAlive c
  fits : t.Fits (ph c) l (s.home c)
  ran : runTask (s.loops (s.home c)).ep l (s.conns c).conn read write t = .ok e
  current : (s'.loops l).current = e.calls ++ stack
  conns : s'.conns = Function.update s.conns c ⟨e.conn, (s.conns c).life⟩
  next : s'.next = s.next

theorem exec_ran {ph : ℕ → Phase} {s s' : TcpServer Buffer} (h : ServerOk ph s) {buffer : Buffer} {l : ℕ}
    {read : Except ℕ Bytes} {write : Except ℕ ℕ} {t : Task} {stack : List Task}
    (hcur : (s.loops l).current = t :: stack) (hstep : s.step buffer (.exec l read write) = some s') :
    ∃ c e, Ran ph s s' l c read write t stack e := by
  unfold TcpServer.step at hstep
  rw [if_neg fun hf => hf h.running] at hstep
  dsimp only at hstep
  rw [hcur] at hstep
  dsimp only at hstep
  split at hstep
  · cases hstep
  rename_i c hsub
  obtain ⟨hc, hfit⟩ := h.fits hcur hsub
  obtain ⟨e, p', hrun, -⟩ :=
    runTask_leads (h.reg.at_ hc) (show (s.conns c).conn.m_loop = s.home c from rfl) hsub hfit read write
  rw [if_pos (show (s.conns c).life = .alive from hc), hrun] at hstep
  cases hstep
  obtain ⟨-, hnext, -, -, hconns, -⟩ := apply_rest (s.setCurrent l (e.calls ++ stack)) c e
  refine ⟨c, e, hsub, hc, hfit, hrun, ?_, hconns, hnext⟩
  rw [apply_current, TcpServer.setCurrent, TcpServer.setLoop]
  dsimp only
  rw [Function.update_self]

theorem call_ran {ph : ℕ → Phase} {s s' : TcpServer Buffer} (h : ServerOk ph s) {buffer : Buffer}
    {thread : Option ℕ} {call : UserCall} {write : Except ℕ ℕ}
    (hstep : s.step buffer (.call thread call write) = some s') :
    ∃ e, runCall (s.loops (s.home call.target)).ep (s.conns call.target).conn
        (thread = some (s.home call.target)) write call = .ok e ∧ s'.next = s.next ∧
      s'.conns = Function.update s.conns call.target ⟨e.conn, (s.conns call.target).life⟩ := by
  unfold TcpServer.step at hstep
  rw [if_neg fun hf => hf h.running] at hstep
  dsimp only at hstep
  split at hstep
  · rename_i hg
    obtain ⟨e, hrun, -⟩ := call_ok h call hg.2 (thread = some (s.home call.target)) write
    rw [hrun] at hstep
    cases hstep
    obtain ⟨-, hnext, -, -, hconns, -⟩ := apply_rest s call.target e
    exact ⟨e, hrun, hnext, hconns⟩
  · cases hstep

/-- A thread that is at a call is in no callback. -/
theorem Ok.no_todo (h : Ok cb s) {l c : ℕ} {t : Task} {stack : List Task} (hcur : (s.tcp.loops l).current = t :: stack)
    (hsub : t.subject = some c) : s.todo l = [] := by
  by_contra hne
  obtain ⟨c', huser, -⟩ := h.todo l hne
  rw [hcur] at huser
  cases huser
  cases hsub

section

variable {ph : ℕ → Phase} {l c : ℕ} {read : Except ℕ Bytes} {write : Except ℕ ℕ} {t : Task} {stack : List Task}
  {e : Effect Buffer} {tcp : TcpServer Buffer}

/-- **A call under way after which the conversation is in order.** -/
theorem Ok.exec_keeps (h : Ok cb s) (hs : ServerOk ph s.tcp) (hran : Ran ph s.tcp tcp l c read write t stack e)
    (hstep : s.tcp.step (.new kInitialSize) (.exec l read write) = some tcp)
    (hc : Conversation cb (s.reads c) (s.requests c) (callsOn c (s.todo (s.tcp.home c))) e.conn) :
    Ok cb (s.withTcp tcp) := by
  obtain ⟨ph', hs', hforward⟩ := step_ok _ hs hstep
  have hlocal : (ServerStep.exec l read write).Local s.tcp := fun _ _ _ he => by cases he
  refine ⟨⟨ph', hs'⟩, fun l i msg hm => h.unsent l i msg (sends_of_step hs hlocal hstep hm),
    fun l' hl' => h.todo_stays hstep hl' (by simp), fun c' hc' => ?_,
    fun c' hc' => h.unread c' (unborn_back hs hs' hforward hc')⟩
  have hlt : c' < s.tcp.next := hran.next ▸ hc'
  show Conversation cb (s.reads c') (s.requests c') (callsOn c' (s.todo (tcp.home c'))) (tcp.conns c').conn
  rw [home_stays hs hstep hlt, hran.conns]
  by_cases hcc : c' = c
  · subst hcc
    rw [Function.update_self]
    exact hc
  · rw [Function.update_of_ne hcc]
    exact h.talk c' hlt

/-- **A read that gets bytes**, with `onMessage` up to its first call. -/
theorem Ok.exec_reads (h : Ok cb s) (hs : ServerOk ph s.tcp) (hran : Ran ph s.tcp tcp l c read write (.handleRead c) stack e)
    (hcur : (s.tcp.loops l).current = .handleRead c :: stack)
    (hstep : s.tcp.step (.new kInitialSize) (.exec l read write) = some tcp) {data : Bytes} {tr : List ConnEvent}
    (hconn : e.conn = { s.conn c with
      trace := tr, m_input_buffer := ByteQueue.fill (s.conn c).m_input_buffer data })
    (hcalls : e.calls = [.user (some c)]) : Ok cb ((s.withTcp tcp).onMessage cb l c data) := by
  obtain ⟨ph', hs', hforward⟩ := step_ok _ hs hstep
  have hlocal : (ServerStep.exec l read write).Local s.tcp := fun _ _ _ he => by cases he
  have hlt := hs.made hran.alive
  have hnone := h.no_todo hcur rfl
  obtain ⟨hlive, hhome⟩ := hran.fits
  have hself : (s.withTcp tcp).conn c = e.conn := by
    rw [HttpSystem.conn, HttpSystem.tcp, HttpSystem.withTcp, hran.conns, Function.update_self]
  have hstate : (s.conn c).m_state ≠ .kConnecting := by
    have hst := hs.reg.state c
    rw [hlive] at hst
    rcases hst with hst | hst
    · rw [HttpSystem.conn, hst]; decide
    · rw [HttpSystem.conn, hst]; decide
  -- what the session makes of the read
  have htalk := h.talk c hlt
  rw [← hhome, hnone] at htalk
  have hheard := Conversation.hears htalk hstate c hconn
  obtain ⟨⟨p, b, hx⟩, htarget⟩ := answer_frame cb c e.conn
  have hx' : (HttpServer.answer cb c e.conn).conn =
      { (s.withTcp tcp).conn c with m_httpParser := p, m_input_buffer := b } := by
    rw [hself]
    exact hx
  obtain ⟨hserver, hhomes⟩ := setConn_ok (s := s.withTcp tcp) hs' hx'
  have hback : ∀ c', c' < s.tcp.next → tcp.home c' = s.tcp.home c' := fun c' hc' => home_stays hs hstep hc'
  unfold HttpSystem.onMessage
  rw [hself]
  set x := HttpServer.answer cb c e.conn
  refine ⟨⟨ph', hserver⟩, fun l i msg hm => h.unsent l i msg (sends_of_step hs hlocal hstep hm), fun l' hl' => ?_,
    fun c' hc' => ?_, fun c' hc' => ?_⟩
  · -- the callback has its calls to make
    dsimp only at hl' ⊢
    by_cases hll : l' = l
    · subst hll
      refine ⟨c, ?_, ?_, by rw [Function.update_self]; exact htarget⟩
      · show (tcp.loops l').current.head? = _
        rw [hran.current, hcalls]
        rfl
      · exact (congrFun hhomes c).trans ((hback c hlt).trans hhome.symm)
    · rw [Function.update_of_ne hll] at hl' ⊢
      obtain ⟨c', huser, hhome', htarget'⟩ := h.todo_stays hstep hl' (by simp)
      exact ⟨c', huser, (congrFun hhomes c').trans hhome', htarget'⟩
  · have hlt' : c' < s.tcp.next := hran.next ▸ hc'
    have hcalls' : (HttpSystem.setConn (s.withTcp tcp) c x.conn).tcp.home c' = s.tcp.home c' :=
      (congrFun hhomes c').trans (hback c' hlt')
    show Conversation cb (Function.update s.reads c (s.reads c ++ [data]) c')
      (Function.update s.requests c (s.requests c ++ x.request.toList) c')
      (callsOn c' (Function.update s.todo l x.calls ((HttpSystem.setConn (s.withTcp tcp) c x.conn).tcp.home c')))
      (((s.withTcp tcp).setConn c x.conn).conn c')
    rw [hcalls', setConn_conn]
    by_cases hcc : c' = c
    · subst hcc
      rw [if_pos rfl, ← hhome, Function.update_self, Function.update_self, Function.update_self, callsOn_self htarget]
      exact hheard
    · rw [if_neg hcc, Function.update_of_ne hcc, Function.update_of_ne hcc]
      have hconn' : (s.withTcp tcp).conn c' = s.conn c' := by
        rw [HttpSystem.conn, HttpSystem.tcp, HttpSystem.withTcp, hran.conns, Function.update_of_ne hcc]
        rfl
      have hold : ∀ call ∈ s.todo l, call.target = c := by rw [hnone]; simp
      rw [hconn', callsOn_update hold htarget hcc]
      exact h.talk c' hlt'
  · have hsame := setConn_life (s.withTcp tcp) c x.conn c'
    have hold := unborn_back hs hs' hforward (hsame.symm.trans hc')
    have hcc : c' ≠ c := by
      rintro rfl
      have halive : (s.tcp.conns c').life = .alive := hran.alive
      rw [hold] at halive
      cases halive
    dsimp only
    rw [Function.update_of_ne hcc, Function.update_of_ne hcc]
    exact h.unread c' hold

/-- **A call under way**: after it the conversation is in order, or its callback is `onMessage`. -/
theorem Ok.exec (h : Ok cb s) (hcur : (s.tcp.loops l).current = t :: stack)
    (hstep : s.tcp.step (.new kInitialSize) (.exec l read write) = some tcp) :
    (Ok cb (s.withTcp tcp) ∧ ∀ i, t = .handleRead i → (tcp.loops l).current.head? ≠ some (.user (some i))) ∨
      ∃ c data, t = .handleRead c ∧ read = .ok data ∧
        (tcp.loops l).current.head? = some (.user (some c)) ∧ Ok cb ((s.withTcp tcp).onMessage cb l c data) := by
  obtain ⟨ph, hs⟩ := h.server
  obtain ⟨c, e, hran⟩ := exec_ran hs hcur hstep
  have hlt := hs.made hran.alive
  have hunsent : ∀ i msg, t ≠ .deferred i (.sendInLoop msg) := by
    rintro i msg rfl
    exact h.unsent l i msg (by simp [IoLoop.work, hcur])
  have hsub := hran.subject
  cases runTask_hears hunsent hran.ran with
  | nothing htalk hsilent =>
    refine .inl ⟨h.exec_keeps hs hran hstep ((h.talk c hlt).talk htalk), fun i hi => ?_⟩
    rw [hran.current, hsilent i hi]
    exact fun hx => by cases hx
  | begins i htask hinput hparser hsent =>
    subst htask
    cases hsub
    refine .inl ⟨h.exec_keeps hs hran hstep ?_, fun i hi => by cases hi⟩
    obtain ⟨hdue, hhome⟩ := hran.fits
    have hcalls : callsOn c (s.todo (s.tcp.home c)) = [] := by
      rw [show s.tcp.home c = l from hhome.symm, h.no_todo hcur rfl]
      rfl
    have hstate : (s.conn c).m_state = .kConnecting := (hs.reg.at_ hran.alive).connecting hdue
    have htalk := h.talk c hlt
    rw [hcalls] at htalk ⊢
    exact htalk.begins hstate hinput hparser hsent
  | bytes i data tr htask hread hconn hcalls =>
    subst htask
    cases hsub
    refine .inr ⟨c, data, rfl, hread, ?_, h.exec_reads hs hran hcur hstep hconn hcalls⟩
    rw [hran.current, hcalls]
    rfl

/-- `onConnection`. -/
theorem Ok.onConnection (h : Ok cb s) (c : ℕ) : Ok cb (s.onConnection c) := by
  obtain ⟨ph, hs⟩ := h.server
  have hinput : HttpServer.onConnection (s.conn c) = { s.conn c with
      m_httpParser := (s.conn c).m_httpParser, m_input_buffer := (s.conn c).m_input_buffer.retrieveAll } := rfl
  obtain ⟨hserver, hhomes⟩ := setConn_ok hs hinput
  refine ⟨⟨ph, hserver⟩, h.unsent, fun l hl => ?_, fun c' hc' => ?_, fun c' hc' => ?_⟩
  · obtain ⟨c', huser, hhome, htarget⟩ := h.todo l hl
    exact ⟨c', huser, (congrFun hhomes c').trans hhome, htarget⟩
  · have htalk := h.talk c' hc'
    unfold HttpSystem.onConnection
    rw [hhomes, setConn_conn]
    split
    · rename_i hcc
      subst hcc
      exact htalk.retrieved
    · exact htalk
  · exact h.unread c' ((setConn_life s c _ c').symm.trans hc')

/-- **The next call of an `onMessage`.** -/
theorem Ok.call (h : Ok cb s) {call : UserCall} {calls : List UserCall} (htodo : s.todo l = call :: calls)
    (hstep : s.tcp.step (.new kInitialSize) (.call (some l) call write) = some tcp) :
    Ok cb { s.withTcp tcp with todo := Function.update s.todo l calls } := by
  obtain ⟨ph, hs⟩ := h.server
  obtain ⟨ph', hs', hforward⟩ := step_ok _ hs hstep
  have hne : s.todo l ≠ [] := by rw [htodo]; simp
  obtain ⟨c, huser, hhome, htarget⟩ := h.todo l hne
  have hlt := hs.made (alive_of_user hs huser)
  have hc : call.target = c := htarget call (by rw [htodo]; exact List.mem_cons_self)
  have hlocal : (ServerStep.call (some l) call write).Local s.tcp := by
    intro thread call' write' he
    cases he
    rw [hc, hhome]
    exact .inr (by simp)
  obtain ⟨e, hran, hnext, hconns⟩ := call_ran hs hstep
  obtain ⟨htells, -⟩ := runCall_tells (hlocal _ _ _ rfl) hran
  rw [hc] at htells hconns
  have htarget' : ∀ call' ∈ calls, call'.target = c := fun call' hcall' =>
    htarget call' (by rw [htodo]; exact List.mem_cons_of_mem _ hcall')
  refine ⟨⟨ph', hs'⟩, fun l i msg hm => h.unsent l i msg (sends_of_step hs hlocal hstep hm), fun l' hl' => ?_,
    fun c' hc' => ?_, fun c' hc' => h.unread c' (unborn_back hs hs' hforward hc')⟩
  · dsimp only at hl' ⊢
    by_cases hll : l' = l
    · subst hll
      rw [Function.update_self]
      obtain ⟨c', huser', hhome', -⟩ := h.todo_stays hstep hne (by simp)
      rw [show (tcp.loops l').current = (s.tcp.loops l').current from user_stays huser (by simp) hstep, huser]
        at huser'
      cases huser'
      refine ⟨c, ?_, hhome', htarget'⟩
      show (tcp.loops l').current.head? = _
      rw [user_stays huser (by simp) hstep]
      exact huser
    · rw [Function.update_of_ne hll] at hl' ⊢
      exact h.todo_stays hstep hl' (by simp)
  show Conversation cb (s.reads c') (s.requests c')
    (callsOn c' (Function.update s.todo l calls (tcp.home c'))) (tcp.conns c').conn
  have hlt' : c' < s.tcp.next := hnext ▸ (show c' < tcp.next from hc')
  rw [home_stays hs hstep hlt', hconns]
  by_cases hcc : c' = c
  · subst hcc
    have htalk := h.talk c' hlt'
    rw [hhome, htodo, callsOn_self (by rw [← htodo]; exact htarget)] at htalk
    rw [hhome, Function.update_self, Function.update_self, callsOn_self htarget']
    exact htalk.called htells
  · rw [Function.update_of_ne hcc, callsOn_update htarget htarget' hcc]
    exact h.talk c' hlt'

end

/-! ## Steps -/

/-- What a step is to the server below. -/
inductive HttpMove (cb : HttpResponseCallback) (a : HttpStep) (s s' : HttpSystem) : Prop where
  /-- the loops go on, with no part in the conversations -/
  | goes (xs : List ServerStep) (quiet : ∀ x ∈ xs, Quiet s.todo x)
      (ran : run (TcpServer.step (.new kInitialSize)) s.tcp xs = some s'.tcp) (todo : s'.todo = s.todo)
      (reads : s'.reads = s.reads) (requests : s'.requests = s.requests)
  /-- a call under way, and its callback -/
  | exec (l : ℕ) (read : Except ℕ Bytes) (write : Except ℕ ℕ) (t : Task) (stack : List Task)
      (tcp : TcpServer Buffer) (idle : IdleServer Buffer) (current : (s.tcp.loops l).current = t :: stack)
      (step : s.tcp.step (.new kInitialSize) (.exec l read write) = some tcp)
      (retains : idle.tcp = tcp ∨
        (∀ i, t ≠ .handleRead i) ∧ ∃ c, tcp.step (.new kInitialSize) (.retain c) = some idle.tcp)
      (calls : s' = { s with idle := idle }.callback cb l read t)
  | call (l : ℕ) (write : Except ℕ ℕ) (call : UserCall) (calls : List UserCall) (tcp : TcpServer Buffer)
      (is : a = .call l write) (left : s.todo l = call :: calls)
      (step : s.tcp.step (.new kInitialSize) (.call (some l) call write) = some tcp)
      (next : s' = { s.withTcp tcp with todo := Function.update s.todo l calls })

/-- An idle check is quiet. -/
theorem Ok.idle_check (h : Ok cb s) {t : IdleTimer} {now : ℤ} {tcp : TcpServer Buffer}
    (hrun : run (TcpServer.step (.new kInitialSize)) s.tcp (s.idle.idleSteps t now) = some tcp) :
    ∀ x ∈ s.idle.idleSteps t now, Quiet s.todo x := by
  intro x hx
  -- the timer found the base loop in no callback
  have hnone : s.todo 0 = [] := by
    by_contra hne
    obtain ⟨c, huser, -⟩ := h.todo 0 hne
    unfold IdleServer.idleSteps at hrun
    simp only [List.append_assoc, List.singleton_append] at hrun
    obtain ⟨tcp₁, h₁, -⟩ := run_cons hrun
    unfold TcpServer.step at h₁
    split at h₁
    · cases h₁
    · dsimp only at h₁
      split at h₁
      · rename_i hg
        rw [hg.2.2] at huser
        cases huser
      · cases h₁
  unfold IdleServer.idleSteps at hx
  simp only [List.mem_append, List.mem_singleton] at hx
  rcases hx with ((rfl | hx) | rfl) | hx
  · exact ⟨fun _ _ _ => by simp, fun _ _ _ => by simp, fun _ => by simp⟩
  · split at hx
    · rw [List.mem_singleton.1 hx]
      exact ⟨fun _ _ _ => by simp, fun _ _ _ he => by cases he; rfl, fun _ => by simp⟩
    · cases hx
  · exact ⟨fun _ _ _ => by simp, fun _ _ _ => by simp, fun l hl => by cases hl; exact hnone⟩
  · split at hx
    · rw [List.mem_singleton.1 hx]
      exact ⟨fun _ _ _ => by simp, fun _ _ _ => by simp, fun _ => by simp⟩
    · cases hx

/-- The callback of a call under way retains its connection, or leaves the server below alone. -/
theorem callback_tcp {idle idle' : IdleServer Buffer} {buffer : Buffer} {l : ℕ} {now : ℤ} {t : Task}
    (h : idle.callback buffer l now t = some idle') :
    idle'.tcp = idle.tcp ∨
      (∀ i, t ≠ .handleRead i) ∧ ∃ c, idle.tcp.step buffer (.retain c) = some idle'.tcp := by
  have hconn : ∀ c, idle.onConnection buffer l c now = some idle' →
      idle'.tcp = idle.tcp ∨ ∃ c, idle.tcp.step buffer (.retain c) = some idle'.tcp := by
    intro c hc
    unfold IdleServer.onConnection at hc
    split at hc
    · obtain ⟨tcp, htcp, rfl⟩ := Option.map_eq_some_iff.1 hc
      exact .inr ⟨c, htcp⟩
    · cases hc
      exact .inl rfl
  unfold IdleServer.callback at h
  split at h
  · exact (hconn _ h).imp_right fun hr => ⟨fun _ => by simp, hr⟩
  · exact (hconn _ h).imp_right fun hr => ⟨fun _ => by simp, hr⟩
  · split at h
    · cases h
      exact .inl rfl
    · cases h
      exact .inl rfl
  · cases h
    exact .inl rfl

/-- **What a step is to the server below.** -/
theorem step_cases {a : HttpStep} (h : Ok cb s) (hstep : s.step cb a = some s') : HttpMove cb a s s' := by
  unfold HttpSystem.step at hstep
  cases a with
  | idle a =>
    dsimp only at hstep
    split at hstep
    swap
    · cases hstep
    rename_i hadmits
    obtain ⟨idle, hidle, rfl⟩ := Option.map_eq_some_iff.1 hstep
    unfold IdleServer.step at hidle
    cases a with
    | tcp x =>
      dsimp only at hidle
      split at hidle
      · rename_i hx
        obtain ⟨tcp, htcp, rfl⟩ := Option.map_eq_some_iff.1 hidle
        refine .goes [x] (fun y hy => ?_) (Option.bind_eq_some_iff.2 ⟨tcp, htcp, rfl⟩) rfl rfl rfl
        rw [List.mem_singleton.1 hy]
        refine ⟨fun _ _ _ he => ?_, fun _ _ _ he => ?_, fun l he => ?_⟩
        · rw [he] at hx
          cases hx
        · rw [he] at hx
          cases hx
        · rw [he] at hadmits
          exact List.isEmpty_iff.1 hadmits
      · cases hidle
    | addTimerInLoop i =>
      dsimp only at hidle
      split at hidle
      · cases hidle
        exact .goes [] (fun y hy => by cases hy) rfl rfl rfl rfl
      · cases hidle
    | handleIdleConnection i now =>
      dsimp only at hidle
      split at hidle
      · cases hidle
      · split at hidle
        · obtain ⟨tcp, hrun, rfl⟩ := Option.map_eq_some_iff.1 hidle
          refine .goes _ (h.idle_check hrun) (hrun.trans ?_) rfl rfl rfl
          dsimp only [HttpSystem.tcp]
          split
          · rfl
          · rfl
        · cases hidle
    | exec l read write now => cases hadmits
    | call l call write => cases hadmits
  | exec l read write now =>
    dsimp only at hstep
    split at hstep
    · cases hstep
    rename_i t stack hcur
    obtain ⟨idle, hidle, rfl⟩ := Option.map_eq_some_iff.1 hstep
    unfold IdleServer.step at hidle
    dsimp only at hidle
    rw [show (s.idle.tcp.loops l).current = t :: stack from hcur] at hidle
    obtain ⟨tcp, htcp, hcall⟩ := Option.bind_eq_some_iff.1 hidle
    exact .exec l read write t stack tcp idle hcur htcp (callback_tcp hcall) rfl
  | call l write =>
    dsimp only at hstep
    split at hstep
    · cases hstep
    rename_i call calls htodo
    obtain ⟨idle, hidle, rfl⟩ := Option.map_eq_some_iff.1 hstep
    unfold IdleServer.step at hidle
    dsimp only at hidle
    split at hidle
    · obtain ⟨tcp, htcp, rfl⟩ := Option.map_eq_some_iff.1 hidle
      exact .call l write call calls tcp rfl htodo htcp rfl
    · cases hidle

/-- **One step.** -/
theorem step_ok {a : HttpStep} (h : Ok cb s) (hstep : s.step cb a = some s') : Ok cb s' := by
  cases step_cases h hstep with
  | goes xs hquiet hran htodo hreads hrequests =>
    exact (h.quiet_run hquiet hran).congr rfl htodo hreads hrequests
  | call l write call calls tcp ha hleft htcp hnext =>
    subst hnext
    exact h.call hleft htcp
  | exec l read write t stack tcp idle hcur htcp hretains hcalls =>
    subst hcalls
    rcases h.exec hcur htcp with ⟨hok, hno⟩ | ⟨c, data, rfl, rfl, huser, hok⟩
    · have hok' : Ok cb { s with idle := idle } := by
        rcases hretains with heq | ⟨-, c, hretain⟩
        · exact hok.congr heq rfl rfl rfl
        · have hquiet := hok.quiet ⟨fun _ _ _ => by simp, fun _ _ _ => by simp, fun _ => by simp⟩ hretain
          exact hquiet.congr rfl rfl rfl rfl
      unfold HttpSystem.callback
      split
      · exact hok'.onConnection _
      · exact hok'.onConnection _
      · split
        · split
          · rename_i i _ data huser
            rcases hretains with heq | ⟨hread, -⟩
            · exact absurd (by rw [← heq]; exact huser) (hno i rfl)
            · exact absurd rfl (hread i)
          · exact hok'
        · exact hok'
      · exact hok'
    · rcases hretains with rfl | ⟨hread, -⟩
      · unfold HttpSystem.callback
        dsimp only
        rw [if_pos (by exact huser)]
        exact hok.congr rfl rfl rfl rfl
      · exact absurd rfl (hread c)

theorem run_ok (cb : HttpResponseCallback) (numLoops : ℕ) {steps : List HttpStep}
    (hrun : run (HttpSystem.step cb) (.start numLoops) steps = some s) : Ok cb s :=
  run_inv (fun _ _ _ h hstep => step_ok h hstep) (start_ok cb numLoops) hrun

end HttpSystem

/-- **The conversations of an HTTP server**, in every state of every run, with any number of loops and
connections, and idle connections closed at any time. What the response callback was called with for a
connection, and what the server wants to send on it, comes of its own reads alone. What was sent is the
beginning of that; and all of it, while the connection is connected and no `onMessage` is under way at
its home. -/
theorem http_conversation (cb : HttpResponseCallback) (numLoops : ℕ) {steps : List HttpStep} {s : HttpSystem}
    (hrun : run (HttpSystem.step cb) (.start numLoops) steps = some s) {c : ℕ} (hc : c < s.tcp.next) :
    (s.conn c).m_httpParser = (sessionOf cb (s.reads c)).parser ∧
      s.requests c = (sessionOf cb (s.reads c)).calls ∧
      (s.conn c).sent <+: (sessionOf cb (s.reads c)).sent ∧
      ((s.conn c).m_state = .kConnected → s.todo (s.tcp.home c) = [] →
        (s.conn c).sent = (sessionOf cb (s.reads c)).sent ∧ (sessionOf cb (s.reads c)).connected = true) := by
  obtain ⟨-, hparser, hrequests, hsent, hconnected, -⟩ := (HttpSystem.run_ok cb numLoops hrun).talk c hc
  refine ⟨hparser, hrequests, hsent, fun hst hnone => ?_⟩
  obtain ⟨h1, h2⟩ := hconnected hst
  rw [hnone] at h1 h2
  refine ⟨by rwa [show messages (callsOn c []) = [] from rfl, List.append_nil] at h1, ?_⟩
  by_contra hno
  obtain ⟨i, hi⟩ := h2 (by simpa using hno)
  cases hi

/-- A keep-alive request to a connection of loop 1, and the answer to it. -/
def getSteps (data : Bytes) : List HttpStep :=
  [.idle (.tcp (.poll 0 [])), .idle (.tcp (.accept 5 1)), .idle (.tcp (.poll 1 [])), .idle (.tcp (.swap 1)),
    .idle (.tcp (.nextFunctor 1)), .exec 1 (.ok []) (.ok 0) 0, .idle (.tcp (.return_ 1)), .idle (.tcp (.endPass 1)),
    .idle (.tcp (.poll 1 [(5, kReadEvent)])), .idle (.tcp (.handleEvent 1)), .exec 1 (.ok data) (.ok 0) 1,
    .call 1 (.ok 20), .idle (.tcp (.return_ 1))]

/-- A site with next to nothing on it. -/
def smallSite : Site := ⟨ascii "<p>", [137]⟩

theorem get_run :
    ∃ s ∈ run (HttpSystem.step (resCallback smallSite)) (.start 2) (getSteps getKeepAlive.encode),
      s.tcp.next = 1 ∧ s.reads 0 = [getKeepAlive.encode] ∧ s.tcp.home 0 = 1 ∧ s.todo 1 = [] ∧
      (s.conn 0).m_state = .kConnected := by
  decide +kernel

theorem http_conversation_get :
    ∃ s, run (HttpSystem.step (resCallback smallSite)) (.start 2) (getSteps getKeepAlive.encode) = some s ∧
      (s.conn 0).sent = (sessionOf (resCallback smallSite) [getKeepAlive.encode]).sent := by
  obtain ⟨s, hs, hnext, hreads, hhome, htodo, hst⟩ := get_run
  obtain ⟨-, -, -, hsent⟩ := http_conversation (resCallback smallSite) 2 hs (c := 0) (by omega)
  rw [hreads, hhome] at hsent
  exact ⟨s, hs, (hsent hst htodo).1⟩

end MyMuduo
