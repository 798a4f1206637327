import MyMuduo.Proof.HttpSystem
import MyMuduo.Proof.ServerFin

/-!
# What the clients of an HTTP server get

* `http_one_request`: the parser of a connection is never reset, so **a connection serves one request**:
  the response callback sees no other, and after the response comes at most a complaint.
* `http_wire`: what is on the wire, with the output buffer, is whole messages to the reads of the
  connection, in order.
* `http_fin`: at the end of the stream the wire has whole messages.
* `http_answered`: **a client that sends a well-formed request can decode the response**, whatever it
  sends behind it. The texts of `resCallback` make such responses (`resCallback_plain`).
-/

namespace MyMuduo

open Lib

/-! ## What a session sends -/

namespace Session

open HttpRequestParser

variable {cb : HttpResponseCallback} {a : Session} {request : HttpRequest} {k j : ℕ} {bad : Bool}

/-- **All that a session sends**: the response to one request, perhaps several times, and perhaps that a
later request was bad. -/
structure Shape (cb : HttpResponseCallback) (a : Session) (request : HttpRequest) (k j : ℕ) (bad : Bool) :
    Prop where
  calls : a.calls = List.replicate k request
  sent : a.sent = List.replicate j (HttpServer.responseTo cb request).bytes ++
    if bad then [HttpServer.badRequest] else []
  answers : j ≤ k
  last : (HttpServer.responseTo cb request).m_close_connection = true → 0 < j → j = 1 ∧ bad = false
  connected : a.connected = true → bad = false ∧ j = k ∧
    (0 < k → (HttpServer.responseTo cb request).m_close_connection = false)
  waiting : a.parser.Waiting → k = 0 ∧ bad = false
  complete : a.parser.m_state = .kParseGotCompleteRequest → a.parser.m_request = request ∧ 0 < k ∧ bad = false

theorem shape_new (cb : HttpResponseCallback) (request : HttpRequest) : Shape cb new request 0 0 false :=
  ⟨rfl, rfl, le_rfl, fun _ h => absurd h (lt_irrefl 0), fun _ => ⟨rfl, rfl, fun h => absurd h (lt_irrefl 0)⟩,
    fun _ => ⟨rfl, rfl⟩, fun h => by cases h⟩

/-- Before the first request, any will do. -/
theorem Shape.unasked (h : Shape cb a request 0 j false) (request' : HttpRequest) :
    Shape cb a request' 0 j false := by
  obtain rfl : j = 0 := Nat.le_zero.1 h.answers
  refine ⟨h.calls, h.sent, le_rfl, fun _ h0 => absurd h0 (lt_irrefl 0),
    fun _ => ⟨rfl, rfl, fun h0 => absurd h0 (lt_irrefl 0)⟩, h.waiting, fun hc => ?_⟩
  exact absurd (h.complete hc).2.1 (lt_irrefl 0)

/-- The request is answered once more, or for the first time. -/
theorem Shape.answer (h : Shape cb a request k j bad) (hbad : bad = false) {ls : List Bytes}
    (hp : a.parser.feed ls = ⟨request, .kParseGotCompleteRequest⟩) :
    ∃ j', Shape cb (a.receive cb ls) request (k + 1) j' false := by
  subst hbad
  have hrec := receive_complete (s := a) cb hp
  have hcalls : a.calls ++ [request] = List.replicate (k + 1) request := by
    rw [h.calls, List.replicate_succ']
  have hparser : (a.receive cb ls).parser = ⟨request, .kParseGotCompleteRequest⟩ := by
    rw [parser_receive, hp]
  have hnowait : (a.receive cb ls).parser.Waiting → k + 1 = 0 ∧ false = false := by
    rw [hparser]
    rintro (hw | hw) <;> cases hw
  have hsent := h.sent
  simp only [Bool.false_eq_true, if_false, List.append_nil] at hsent
  have hans := h.answers
  cases hup : a.connected with
  | true =>
    obtain ⟨-, hj, hkeep⟩ := h.connected hup
    refine ⟨j + 1, ?_, ?_, by omega, fun hclose _ => ⟨?_, rfl⟩, fun hup' => ⟨rfl, by omega, fun _ => ?_⟩, hnowait,
      fun _ => ⟨by rw [hparser], by omega, rfl⟩⟩
    · rw [hrec]
      exact hcalls
    · rw [hrec]
      simp only [say, hup, if_true, hsent, Bool.false_eq_true, if_false, List.append_nil, List.replicate_succ']
    · -- a response that closes is not one of several
      rcases Nat.eq_zero_or_pos k with h0 | hpos
      · omega
      · rw [hkeep hpos] at hclose
        cases hclose
    · rw [hrec] at hup'
      simpa [say, hup] using hup'
  | false =>
    refine ⟨j, ?_, ?_, by omega, fun hclose hpos => ⟨(h.last hclose hpos).1, rfl⟩, fun hup' => ?_, hnowait,
      fun _ => ⟨by rw [hparser], by omega, rfl⟩⟩
    · rw [hrec]
      exact hcalls
    · rw [hrec]
      simp [say, hup, hsent]
    · rw [hrec] at hup'
      simp [say, hup] at hup'

/-- An error is told, if the session is still connected. -/
theorem Shape.error (h : Shape cb a request k j bad) {ls : List Bytes}
    (hp : (a.parser.feed ls).m_state = .kParseErrno) :
    ∃ bad', Shape cb (a.receive cb ls) request k j bad' := by
  have hrec := receive_errno cb a hp
  have hparser : (a.receive cb ls).parser.m_state = .kParseErrno := by rw [parser_receive, hp]
  have hdown : (a.receive cb ls).connected = false := by
    rw [hrec]
    simp [say]
  have h1 : (a.receive cb ls).connected ≠ true := by rw [hdown]; decide
  have h2 : ¬(a.receive cb ls).parser.Waiting := by
    unfold Waiting
    rw [hparser]
    decide
  have h3 : (a.receive cb ls).parser.m_state ≠ .kParseGotCompleteRequest := by rw [hparser]; decide
  cases hup : a.connected with
  | true =>
    obtain ⟨rfl, hj, hkeep⟩ := h.connected hup
    refine ⟨true, ?_, ?_, h.answers, fun hclose hpos => ?_, fun h => absurd h h1, fun h => absurd h h2,
      fun h => absurd h h3⟩
    · rw [hrec]
      exact h.calls
    · rw [hrec]
      simp [say, hup, h.sent]
    · rw [hkeep (by omega)] at hclose
      cases hclose
  | false =>
    refine ⟨bad, ?_, ?_, h.answers, h.last, fun h => absurd h h1, fun h => absurd h h2, fun h => absurd h h3⟩
    · rw [hrec]
      exact h.calls
    · rw [hrec]
      simp [say, hup, h.sent]

/-- The parser of a session went over the lines of all reads. -/
theorem parser_receiveAll (cb : HttpResponseCallback) (reads : List Bytes) :
    (sessionOf cb reads).parser = HttpRequestParser.new.feed (reads.flatMap lines) := by
  induction reads using List.reverseRecOn with
  | nil => rfl
  | append_singleton reads data ih =>
    rw [sessionOf_snoc, parser_receive, ih, List.flatMap_append, List.flatMap_singleton, feed_append new_noBody]

/-- What is sent stays; and a session that may no longer send does not. -/
theorem receiveAll_sent (cb : HttpResponseCallback) (s : Session) (cs : List Bytes) :
    s.sent <+: (s.receiveAll cb cs).sent ∧ (s.connected = false → (s.receiveAll cb cs).sent = s.sent) := by
  induction cs generalizing s with
  | nil => exact ⟨List.prefix_rfl, fun _ => rfl⟩
  | cons data cs ih =>
    have hone : s.sent <+: (s.receive cb (lines data)).sent ∧
        (s.connected = false → (s.receive cb (lines data)).sent = s.sent) := by
      unfold receive say
      dsimp only
      split
      · dsimp only
        split
        · rename_i hup
          refine ⟨List.prefix_append _ _, fun hdown => ?_⟩
          rw [hdown] at hup
          cases hup
        · exact ⟨List.prefix_rfl, fun _ => rfl⟩
      · dsimp only
        split
        · rename_i hup
          refine ⟨List.prefix_append _ _, fun hdown => ?_⟩
          rw [hdown] at hup
          cases hup
        · exact ⟨List.prefix_rfl, fun _ => rfl⟩
      all_goals exact ⟨List.prefix_rfl, fun _ => rfl⟩
    obtain ⟨h1, h2⟩ := ih (s.receive cb (lines data))
    rw [receiveAll_cons]
    refine ⟨hone.1.trans h1, fun hdown => ?_⟩
    have hdown' := receiveAll_disconnected cb hdown [data]
    exact (h2 hdown').trans (hone.2 hdown)

/-- **The shape of a session.** The request, if there is one, is well formed. -/
theorem shape (cb : HttpResponseCallback) (reads : List Bytes) :
    ∃ request k j bad, Shape cb (sessionOf cb reads) request k j bad ∧
      (0 < k → ∃ r : Request, request = r.denote) := by
  induction reads using List.reverseRecOn with
  | nil => exact ⟨.new, 0, 0, false, shape_new cb _, fun h => absurd h (lt_irrefl 0)⟩
  | append_singleton reads data ih =>
    obtain ⟨request, k, j, bad, h, hform⟩ := ih
    have hnb := sessionOf_noBody cb reads
    have hparser := parser_receiveAll cb (reads ++ [data])
    rw [sessionOf_snoc, parser_receive] at hparser
    rw [sessionOf_snoc]
    have hsilent : ((sessionOf cb reads).parser.feed (lines data)).Waiting →
        ∃ request k j bad, Shape cb ((sessionOf cb reads).receive cb (lines data)) request k j bad ∧
          (0 < k → ∃ r : Request, request = r.denote) := by
      intro hw
      have hrec := receive_waiting (s := sessionOf cb reads) cb hw
      obtain ⟨rfl, rfl⟩ := h.waiting (waiting_of_feed hnb hw)
      refine ⟨request, 0, j, false, ⟨?_, ?_, h.answers, h.last, ?_, fun _ => ⟨rfl, rfl⟩, fun hc => ?_⟩, hform⟩
      · rw [hrec]
        exact h.calls
      · rw [hrec]
        exact h.sent
      · rw [hrec]
        exact h.connected
      · rw [parser_receive] at hc
        rcases hw with hw | hw
        · rw [hw] at hc
          cases hc
        · rw [hw] at hc
          cases hc
    cases hstate : ((sessionOf cb reads).parser.feed (lines data)).m_state with
    | kParseRequestLine => exact hsilent (.inl hstate)
    | kParseHeader => exact hsilent (.inr hstate)
    | kParseBody => exact absurd hstate (feed_noBody hnb _)
    | kParseErrno =>
      obtain ⟨bad', h'⟩ := h.error hstate
      exact ⟨request, k, j, bad', h', hform⟩
    | kParseGotCompleteRequest =>
      -- the lines of all reads so far are those of a request
      have hlines : ∀ l ∈ (reads ++ [data]).flatMap lines, IsLine l := by
        intro l hl
        obtain ⟨x, -, hx⟩ := List.mem_flatMap.1 hl
        exact lines_isLine hx
      obtain ⟨r, -, hr⟩ := feed_complete hlines (by rw [← hparser]; exact hstate)
      rw [← hparser] at hr
      have hp : (sessionOf cb reads).parser.feed (lines data) = ⟨r.denote, .kParseGotCompleteRequest⟩ := by
        rw [← hr, ← hstate]
      obtain ⟨rfl, hshape⟩ : bad = false ∧ Shape cb (sessionOf cb reads) r.denote k j bad := by
        cases hbefore : (sessionOf cb reads).parser.m_state with
        | kParseRequestLine =>
          obtain ⟨rfl, rfl⟩ := h.waiting (.inl hbefore)
          exact ⟨rfl, h.unasked _⟩
        | kParseHeader =>
          obtain ⟨rfl, rfl⟩ := h.waiting (.inr hbefore)
          exact ⟨rfl, h.unasked _⟩
        | kParseBody => exact absurd hbefore hnb
        | kParseErrno =>
          rw [feed_errno hbefore, hbefore] at hstate
          cases hstate
        | kParseGotCompleteRequest =>
          -- a read without a line leaves the request as it is
          obtain ⟨hrequest, -, hbad⟩ := h.complete hbefore
          have hnone : lines data = [] := by
            by_contra hne
            rw [feed_after_complete hbefore hne] at hstate
            cases hstate
          rw [hnone] at hp
          refine ⟨hbad, ?_⟩
          rw [← hrequest, show (sessionOf cb reads).parser = _ from hp] at h
          exact h
      obtain ⟨j', h'⟩ := hshape.answer rfl hp
      exact ⟨r.denote, k + 1, j', false, h', fun _ => ⟨r, rfl⟩⟩

end Session

/-- **One request for each connection**, in every state of every run of an HTTP server. However many
requests a client sends and however they arrive, the response callback is called with one well-formed
request only; what the server sends is the response to that, and at most one more message, that a later
request was bad. Nothing comes after a response that closes the connection. -/
theorem http_one_request (cb : HttpResponseCallback) (numLoops : ℕ) {steps : List HttpStep} {s : HttpSystem}
    (hrun : run (HttpSystem.step cb) (.start numLoops) steps = some s) {c : ℕ} (hc : c < s.tcp.next) :
    ∃ request k j bad, s.requests c = List.replicate k request ∧
      (0 < k → ∃ r : Request, request = r.denote) ∧
      (s.conn c).sent <+: List.replicate j (HttpServer.responseTo cb request).bytes ++
        (if bad then [HttpServer.badRequest] else []) ∧
      j ≤ k ∧
      ((HttpServer.responseTo cb request).m_close_connection = true → 0 < j → j = 1 ∧ bad = false) := by
  obtain ⟨-, hrequests, hsent, -⟩ := http_conversation cb numLoops hrun hc
  obtain ⟨request, k, j, bad, hshape, hform⟩ := Session.shape cb (s.reads c)
  rw [hshape.calls] at hrequests
  rw [hshape.sent] at hsent
  exact ⟨request, k, j, bad, hrequests, hform, hsent, hshape.answers, hshape.last⟩

theorem http_one_request_get :
    ∃ s, run (HttpSystem.step (resCallback smallSite)) (.start 2) (getSteps getKeepAlive.encode) = some s ∧
      ∃ request k, s.requests 0 = List.replicate k request := by
  obtain ⟨s, hs, hnext, -⟩ := get_run
  obtain ⟨request, k, -, -, h, -⟩ := http_one_request (resCallback smallSite) 2 hs (c := 0) (by omega)
  exact ⟨s, hs, request, k, h⟩

/-! ## The output of an HTTP server -/

namespace HttpSystem

variable {cb : HttpResponseCallback} {s s' : HttpSystem} {a : HttpStep} {c : ℕ}

/-- **Every message of the step is taken**: its peer is there, and the output buffer does not move. -/
def Takes (s : HttpSystem) : HttpStep → Prop
  | .call l write => ∀ call ∈ (s.todo l).head?, s.tcp.Meets TcpConnection.Takes (.call (some l) call write)
  | _ => True

instance decidableTakes (s : HttpSystem) : (a : HttpStep) → Decidable (s.Takes a)
  | .call l write =>
    inferInstanceAs (Decidable (∀ call ∈ (s.todo l).head?,
      s.tcp.Meets TcpConnection.Takes (.call (some l) call write)))
  | .idle _ | .exec _ _ _ _ => .isTrue trivial

/-- Only the input of the connections differs. -/
structure InputOnly (tcp tcp' : TcpServer Buffer) : Prop where
  loops : tcp'.loops = tcp.loops
  next : tcp'.next = tcp.next
  conns : ∀ c, (tcp'.conns c).life = (tcp.conns c).life ∧
    ∃ p b, (tcp'.conns c).conn = { (tcp.conns c).conn with m_httpParser := p, m_input_buffer := b }

theorem InputOnly.refl (tcp : TcpServer Buffer) : InputOnly tcp tcp := ⟨rfl, rfl, fun _ => ⟨rfl, _, _, rfl⟩⟩

theorem setConn_input (s : HttpSystem) (c : ℕ) {conn : TcpConnection Buffer} {p : HttpRequestParser} {b : Buffer}
    (hconn : conn = { s.conn c with m_httpParser := p, m_input_buffer := b }) :
    InputOnly s.tcp (s.setConn c conn).tcp := by
  refine ⟨rfl, rfl, fun c' => ⟨setConn_life s c conn c', ?_⟩⟩
  have hc' := setConn_conn s c conn c'
  by_cases hcc : c' = c
  · subst hcc
    rw [if_pos rfl] at hc'
    exact ⟨p, b, hc'.trans hconn⟩
  · rw [if_neg hcc] at hc'
    exact ⟨_, _, hc'⟩

/-- A callback touches the input of its connection, up to its calls. -/
theorem callback_input (cb : HttpResponseCallback) (s : HttpSystem) (l : ℕ) (read : Except ℕ Bytes) (t : Task) :
    InputOnly s.tcp (s.callback cb l read t).tcp := by
  unfold HttpSystem.callback
  split
  · exact setConn_input s _ rfl
  · exact setConn_input s _ rfl
  · split
    · split
      · rename_i c _ data _
        obtain ⟨⟨p, b, hx⟩, -⟩ := answer_frame cb c (s.conn c)
        exact setConn_input s c hx
      · exact .refl _
    · exact .refl _
  · exact .refl _

/-- The output does not depend on the input. -/
theorem InputOnly.output {tcp tcp' : TcpServer Buffer} (h : InputOnly tcp tcp') (hI : KeptBy FinOk tcp) :
    KeptBy FinOk tcp' := by
  intro c hc
  obtain ⟨ep, ⟨hout, hfin⟩, heq⟩ := hI c (h.next ▸ hc)
  obtain ⟨hlife, p, b, hconn⟩ := h.conns c
  have hhome : tcp'.home c = tcp.home c := by rw [TcpServer.home, hconn, TcpServer.home]
  rw [hconn, hhome, h.loops]
  refine ⟨ep, ⟨hout.congr rfl rfl rfl id rfl rfl, hfin⟩, fun halive => heq ?_⟩
  rw [TcpServer.isAlive, ← hlife]
  exact halive

/-- Nor does the write side. -/
theorem InputOnly.opened {tcp tcp' : TcpServer Buffer} (h : InputOnly tcp tcp') (hopen : OpenOk tcp) : OpenOk tcp' := by
  refine ⟨fun c hc hup => ?_, fun l c hm hup => ?_⟩
  · obtain ⟨-, p, b, hconn⟩ := h.conns c
    rw [hconn] at hup ⊢
    exact hopen.wrOpen c (h.next ▸ hc) hup
  · obtain ⟨-, p, b, hconn⟩ := h.conns c
    rw [hconn] at hup
    rw [h.loops] at hm
    exact hopen.asked l c hm hup

/-- **The invariant of the way out.** -/
structure WireOk (tcp : TcpServer Buffer) : Prop where
  server : ∃ ph, ServerOk ph tcp
  opened : OpenOk tcp
  output : KeptBy FinOk tcp

theorem WireOk.step {tcp tcp' : TcpServer Buffer} {x : ServerStep} (h : WireOk tcp)
    (hx : tcp.Meets TcpConnection.TakesOpen x) (hstep : tcp.step (.new kInitialSize) x = some tcp') : WireOk tcp' := by
  obtain ⟨⟨ph, hs⟩, hopen, hI⟩ := h
  obtain ⟨ph', hs', -⟩ := MyMuduo.step_ok _ hs hstep
  exact ⟨⟨ph', hs'⟩, hopen.step hs hstep, (fin_kept (by decide)).step hs hI hx hstep⟩

theorem Quiet.meets {todo : ℕ → List UserCall} {x : ServerStep} (hx : Quiet todo x) (tcp : TcpServer Buffer) :
    tcp.Meets TcpConnection.TakesOpen x := by
  cases x with
  | exec l read write => exact absurd rfl (hx.noExec l read write)
  | call thread call write =>
    have hnone := hx.noMessage _ _ _ rfl
    cases call with
    | send c msg => cases hnone
    | shutDown c => trivial
    | forceClose c => trivial
  | poll _ _ | handleEvent _ | return_ _ | swap _ | nextFunctor _ | endPass _ | accept _ _ | timer _ | retain _
  | release _ | close _ | destroy _ => trivial

/-- A call under way is no `sendInLoop`. -/
theorem Ok.exec_meets (h : Ok cb s) (l : ℕ) (read : Except ℕ Bytes) (write : Except ℕ ℕ) :
    s.tcp.Meets TcpConnection.TakesOpen (.exec l read write) := by
  intro t ht i _
  have hwork : t ∈ (s.tcp.loops l).work := by
    have hmem := List.mem_of_mem_head? ht
    simp [IoLoop.work, hmem]
  cases t with
  | deferred i d =>
    cases d with
    | sendInLoop msg => exact absurd hwork (h.unsent l i msg)
    | shutDownInLoop => trivial
    | forceCloseInLoop => trivial
  | life _ _ | handleRead _ | handleWrite _ | user _ => trivial

/-- A call of an `onMessage` sends on a connection that is connected. -/
theorem WireOk.call_meets (h : WireOk s.tcp) {l : ℕ} {write : Except ℕ ℕ} {call : UserCall}
    (halive : s.tcp.isAlive call.target) (ha : s.tcp.Meets TcpConnection.Takes (.call (some l) call write)) :
    s.tcp.Meets TcpConnection.TakesOpen (.call (some l) call write) := by
  obtain ⟨⟨ph, hs⟩, hopen, -⟩ := h
  cases call with
  | send c msg => exact fun hin hst => ⟨ha hin hst, hopen.wrOpen c (hs.made halive) (.inr hst)⟩
  | shutDown c | forceClose c => trivial

/-- **One step keeps the way out** of all connections. -/
theorem step_wire (h : Ok cb s) (hI : WireOk s.tcp) (ha : s.Takes a) (hstep : s.step cb a = some s') :
    WireOk s'.tcp := by
  cases step_cases h hstep with
  | goes xs hquiet hran htodo hreads hrequests =>
    exact run_inv_along (C := fun _ x => Quiet s.todo x) (I := WireOk)
      (fun tcp x tcp' h hx hstep => h.step (hx.meets tcp) hstep) xs hI (along_of_forall _ hquiet) hran
  | call l write call calls tcp he hleft htcp hnext =>
    subst he hnext
    obtain ⟨ph, hs⟩ := h.server
    obtain ⟨c, huser, -, htarget⟩ := h.todo l (by rw [hleft]; simp)
    have hc : call.target = c := htarget call (by rw [hleft]; exact List.mem_cons_self)
    exact hI.step (hI.call_meets (hc ▸ alive_of_user hs huser) (ha call (by rw [hleft]; rfl))) htcp
  | exec l read write t stack tcp idle hcur htcp hretains hcalls =>
    subst hcalls
    have hexec := hI.step (h.exec_meets l read write) htcp
    have hidle : WireOk idle.tcp := by
      rcases hretains with heq | ⟨-, c, hretain⟩
      · rw [heq]
        exact hexec
      · exact hexec.step (show tcp.Meets TcpConnection.TakesOpen (.retain c) from trivial) hretain
    obtain ⟨ph, hs⟩ := (step_ok h hstep).server
    have hinput := callback_input cb { s with idle := idle } l read t
    exact ⟨⟨ph, hs⟩, hinput.opened hidle.opened, hinput.output hidle.output⟩

theorem run_wire (cb : HttpResponseCallback) (numLoops : ℕ) {steps : List HttpStep}
    (htakes : Along (HttpSystem.step cb) HttpSystem.Takes (.start numLoops) steps)
    (hrun : run (HttpSystem.step cb) (.start numLoops) steps = some s) : WireOk s.tcp := by
  have hstart := start_ok cb numLoops
  refine (run_inv_along (C := HttpSystem.Takes) (I := fun s => Ok cb s ∧ WireOk s.tcp) ?_ steps
    ⟨hstart, hstart.server, open_start numLoops _, fun c hc => absurd hc (Nat.not_lt_zero c)⟩ htakes hrun).2
  rintro s a s' ⟨h, hI⟩ ha hstep
  exact ⟨step_ok h hstep, step_wire h hI ha hstep⟩

end HttpSystem

/-- The texts of `resCallback` have no line breaks. -/
theorem resCallback_plain (site : Site) (request : HttpRequest) :
    (HttpServer.responseTo (resCallback site) request).Plain := by
  have hhtml : Clean (ascii "text/html") := by decide
  have hpng : Clean (ascii "image/png") := by decide
  have hok : Clean (ascii "OK") := by decide
  have hbad : Clean (ascii "Bad Request") := by decide
  have hnone : Clean (ascii "Not Found") := by decide
  unfold HttpServer.responseTo resCallback
  split
  · exact ⟨hbad, hhtml⟩
  · dsimp only
    split
    · exact ⟨hok, hhtml⟩
    · split
      · exact ⟨hok, hhtml⟩
      · split
        · exact ⟨hok, hpng⟩
        · exact ⟨hnone, hhtml⟩

/-- `GET / HTTP/1.1`, which does not ask to stay. -/
def getPlain : Request where
  line := getKeepAlive.line
  headers := []
  line_isLine := getKeepAlive.line_isLine
  headers_isLine := fun _ h => by cases h

theorem get_takes :
    Along (HttpSystem.step (resCallback smallSite)) HttpSystem.Takes (.start 2) (getSteps getKeepAlive.encode) := by
  decide +kernel

/-- A request on a connection of loop 1, answered at once, and the connection shut down. -/
def closeSteps (data : Bytes) : List HttpStep :=
  (getSteps data).take 11 ++ [.call 1 (.ok 1000), .call 1 (.ok 0)]

theorem close_takes :
    Along (HttpSystem.step (resCallback smallSite)) HttpSystem.Takes (.start 2) (closeSteps getPlain.encode) := by
  decide +kernel

theorem close_run :
    ∃ s ∈ run (HttpSystem.step (resCallback smallSite)) (.start 2) (closeSteps getPlain.encode),
      s.tcp.next = 1 ∧ s.reads 0 = [getPlain.encode] ∧ (s.conn 0).m_state = .kDisconnecting ∧
      (s.conn 0).shutWr = true ∧ (s.conn 0).wire ≠ [] := by
  decide +kernel

section Runs

variable (cb : HttpResponseCallback) (numLoops : ℕ) {steps : List HttpStep} {s : HttpSystem}
  (htakes : Along (HttpSystem.step cb) HttpSystem.Takes (.start numLoops) steps)
  (hrun : run (HttpSystem.step cb) (.start numLoops) steps = some s)

include htakes hrun

/-- **The bytes on the wire**, in every state of every run in which every message is taken: what a client
was sent, followed by the output buffer, are the first whole answers to its own reads, in order; none is
missing while the connection is connected and no `onMessage` is under way at its home. -/
theorem http_wire {c : ℕ} (hc : c < s.tcp.next) :
    (s.conn c).wire ++ (s.conn c).output = (s.conn c).sent.flatten ∧
      (s.conn c).sent <+: (sessionOf cb (s.reads c)).sent ∧
      (s.conn c).wire <+: (sessionOf cb (s.reads c)).sent.flatten ∧
      ((s.conn c).m_state = .kConnected → s.todo (s.tcp.home c) = [] →
        (s.conn c).wire ++ (s.conn c).output = (sessionOf cb (s.reads c)).sent.flatten) := by
  obtain ⟨ep, hep, -⟩ := (HttpSystem.run_wire cb numLoops htakes hrun).output c hc
  have hstream : (s.conn c).wire ++ (s.conn c).output = (s.conn c).sent.flatten := hep.out.stream.stream
  obtain ⟨-, -, hsent, hall⟩ := http_conversation cb numLoops hrun hc
  refine ⟨hstream, hsent, ?_, fun hst hnone => ?_⟩
  · refine List.IsPrefix.trans ?_ hsent.flatten
    rw [← hstream]
    exact List.prefix_append _ _
  · rw [hstream, (hall hst hnone).1]

omit htakes hrun in
theorem http_wire_get :
    ∃ s, run (HttpSystem.step (resCallback smallSite)) (.start 2) (getSteps getKeepAlive.encode) = some s ∧
      (s.conn 0).wire ++ (s.conn 0).output = (sessionOf (resCallback smallSite) [getKeepAlive.encode]).sent.flatten := by
  obtain ⟨s, hs, hnext, hreads, hhome, htodo, hst⟩ := get_run
  obtain ⟨-, -, -, hall⟩ := http_wire (resCallback smallSite) 2 get_takes hs (c := 0) (by omega)
  rw [hreads, hhome] at hall
  exact ⟨s, hs, hall hst htodo⟩

/-- **The end of the stream.** Once the write side of a connection that is still up is shut down, the
kernel has taken over whole messages, the first of those that its reads called for: a client that sees
the end of the stream got no part of a response. -/
theorem http_fin {c : ℕ} (hc : c < s.tcp.next) (hup : (s.conn c).m_state ≠ .kDisconnected)
    (hshut : (s.conn c).shutWr = true) :
    (s.conn c).output = [] ∧ ∃ msgs, msgs <+: (sessionOf cb (s.reads c)).sent ∧ (s.conn c).wire = msgs.flatten := by
  obtain ⟨ep, hep, -⟩ := (HttpSystem.run_wire cb numLoops htakes hrun).output c hc
  obtain ⟨-, -, hsent, -⟩ := http_conversation cb numLoops hrun hc
  have hnone : (s.conn c).output = [] := hep.fin hup hshut
  have hstream : (s.conn c).wire ++ (s.conn c).output = (s.conn c).sent.flatten := hep.out.stream.stream
  rw [hnone, List.append_nil] at hstream
  exact ⟨hnone, (s.conn c).sent, hsent, hstream⟩

omit htakes hrun in
theorem http_fin_get :
    ∃ s, run (HttpSystem.step (resCallback smallSite)) (.start 2) (closeSteps getPlain.encode) = some s ∧
      ∃ msgs, msgs <+: (sessionOf (resCallback smallSite) [getPlain.encode]).sent ∧
        (s.conn 0).wire = msgs.flatten := by
  obtain ⟨s, hs, hnext, hreads, hst, hshut, -⟩ := close_run
  obtain ⟨-, hmsgs⟩ := http_fin (resCallback smallSite) 2 close_takes hs (c := 0) (by omega) (by rw [hst]; decide) hshut
  rw [hreads] at hmsgs
  exact ⟨s, hs, hmsgs⟩

/-- **A request is answered.** A client that sends a well-formed request, cut where it does no harm,
reads the response to it, whatever it sends afterwards and whatever else the server is about: what is on
the wire is the beginning of the response, or a client can tell the response from what follows it. The
response is on the wire when the connection is connected with no `onMessage` under way and nothing left
to write. If it is one that closes, nothing follows it, and at the end of the stream it is there or
nothing is. -/
theorem http_answered {c : ℕ} (hc : c < s.tcp.next) {r : Request} {cut : Cut r} {more : List Bytes}
    (hintact : cut.Intact cb) (hreads : s.reads c = cut.pieces ++ more)
    (hplain : (HttpServer.responseTo cb r.denote).Plain) :
    let response := HttpServer.responseTo cb r.denote
    let wire := (s.conn c).wire
    (wire <+: response.bytes ∨ ∃ rest, wire = response.bytes ++ rest) ∧
      (∀ rest, wire = response.bytes ++ rest →
        if response.m_close_connection then rest = [] ∧ decode wire = some response
        else takeResponse wire = some (response, rest)) ∧
      ((s.conn c).m_state = .kConnected → s.todo (s.tcp.home c) = [] → (s.conn c).output = [] →
        response.bytes <+: wire) ∧
      ((s.conn c).m_state ≠ .kDisconnected → (s.conn c).shutWr = true → wire = [] ∨ response.bytes <+: wire) := by
  intro response wire
  obtain ⟨hstream, -, hprefix, hall⟩ := http_wire cb numLoops htakes hrun hc
  obtain ⟨p, hsession⟩ := hintact.session
  -- what the session sends first is the response
  obtain ⟨tail, htail, hclosed⟩ : ∃ tail, (sessionOf cb (s.reads c)).sent = response.bytes :: tail ∧
      (response.m_close_connection = true → tail = []) := by
    rw [hreads, sessionOf, Session.receiveAll_append, hsession]
    obtain ⟨⟨tail, htail⟩, hsame⟩ := Session.receiveAll_sent cb { Session.answered cb r.denote with parser := p } more
    refine ⟨tail, htail.symm, fun hclose => ?_⟩
    have heq := hsame (by simpa [Session.answered] using hclose)
    rw [heq] at htail
    simpa [Session.answered] using htail
  rw [htail, List.flatten_cons] at hprefix hall
  refine ⟨?_, fun rest hrest => ?_, fun hst hnone hout => ?_, fun hup hshut => ?_⟩
  · rcases List.prefix_or_prefix_of_prefix hprefix (List.prefix_append _ _) with hpart | ⟨rest, hrest⟩
    · exact .inl hpart
    · exact .inr ⟨rest, hrest.symm⟩
  · split
    · rename_i hclose
      rw [hclosed hclose, List.flatten_nil, List.append_nil] at hprefix
      obtain rfl : rest = [] := by
        have hlen := hprefix.length_le
        rw [show (s.conn c).wire = response.bytes ++ rest from hrest, List.length_append] at hlen
        exact List.eq_nil_of_length_eq_zero (by omega)
      refine ⟨rfl, ?_⟩
      rw [hrest, List.append_nil]
      exact HttpResponse.decode_bytes hplain
    · rename_i hkeep
      rw [hrest]
      exact HttpResponse.takeResponse_bytes hplain (by simpa using hkeep) rest
  · have hwire := hall hst hnone
    rw [hout, List.append_nil] at hwire
    rw [show wire = _ from hwire]
    exact List.prefix_append _ _
  · obtain ⟨-, msgs, hmsgs, hwire⟩ := http_fin cb numLoops htakes hrun hc hup hshut
    rw [htail] at hmsgs
    rcases List.prefix_cons_iff.1 hmsgs with rfl | ⟨msgs', rfl, -⟩
    · exact .inl hwire
    · rw [List.flatten_cons] at hwire
      rw [show wire = _ from hwire]
      exact .inr (List.prefix_append _ _)

/-- The request in one piece. -/
def wholeRequest (r : Request) : Cut r := ⟨[(r.encode, .ok 0)], fun x hx => by
  rw [List.mem_singleton.1 hx]
  exact r.encode_ne_nil, List.append_nil _⟩

omit htakes hrun in
theorem http_answered_get :
    ∃ s, run (HttpSystem.step (resCallback smallSite)) (.start 2) (closeSteps getPlain.encode) = some s ∧
      decode (s.conn 0).wire = some (HttpServer.responseTo (resCallback smallSite) getPlain.denote) := by
  obtain ⟨s, hs, hnext, hreads, hst, hshut, hwire⟩ := close_run
  have hintact : (wholeRequest getPlain).Intact (resCallback smallSite) := by
    refine Cut.intact_of_lines _ fun p hp => ?_
    rw [List.mem_singleton.1 (show p ∈ [getPlain.encode] from hp), getPlain.lines_encode_eq]
    rfl
  obtain ⟨-, hread, -, hend⟩ := http_answered (resCallback smallSite) 2 close_takes hs (c := 0) (by omega)
    hintact (show s.reads 0 = (wholeRequest getPlain).pieces ++ [] from hreads) (resCallback_plain _ _)
  rcases hend (by rw [hst]; decide) hshut with hnone | ⟨rest, hrest⟩
  · exact absurd hnone hwire
  · have hclose : (HttpServer.responseTo (resCallback smallSite) getPlain.denote).m_close_connection = true := by
      decide +kernel
    have hdecoded := hread rest hrest.symm
    rw [if_pos hclose] at hdecoded
    exact ⟨s, hs, hdecoded.2⟩

end Runs

end MyMuduo
