import MyMuduo.Proof.HttpService
import MyMuduo.Proof.ServerTalk
import MyMuduo.Spec.HttpSystem

/-!
# The answer to one read

`onMessage` comes to calls of its connection. They are computed in one go (`HttpServer.answer`) and made
one by one.

* `answer_ok`: **the answer to a read is that of a session.**
* `onMessage_answer`: where no other thread comes in between, `onMessage` is its answer, and then the
  calls of it one after the other.
-/

namespace MyMuduo

open Lib

/-! ## The answer to one read -/

/-- What the calls send. -/
def messages (calls : List UserCall) : List Bytes := calls.filterMap UserCall.message

@[simp] theorem messages_nil : messages [] = [] := rfl

@[simp] theorem messages_send (c : ℕ) (msg : Bytes) (calls : List UserCall) :
    messages (.send c msg :: calls) = msg :: messages calls := rfl

@[simp] theorem messages_shutDown (c : ℕ) (calls : List UserCall) :
    messages (.shutDown c :: calls) = messages calls := rfl

/-- `onMessage` touches the input of the connection only, and its calls are about it. -/
theorem answer_frame (cb : HttpResponseCallback) (c : ℕ) (conn : TcpConnection Buffer) :
    (∃ p b, (HttpServer.answer cb c conn).conn = { conn with m_httpParser := p, m_input_buffer := b }) ∧
      ∀ call ∈ (HttpServer.answer cb c conn).calls, call.target = c := by
  unfold HttpServer.answer
  rcases conn.m_httpParser.parseContent conn.m_input_buffer with ⟨p, buf⟩
  dsimp only
  split
  · exact ⟨⟨p, buf.retrieveAll, rfl⟩, by simp [UserCall.target]⟩
  · refine ⟨⟨p, buf.retrieveAll, rfl⟩, fun call hcall => ?_⟩
    rcases List.mem_cons.1 hcall with rfl | hcall
    · rfl
    · split at hcall
      · rw [List.mem_singleton.1 hcall]
        rfl
      · cases hcall
  · exact ⟨⟨p, buf.retrieveAll, rfl⟩, fun call hcall => by cases hcall⟩
  · exact ⟨⟨p, buf.retrieveAll, rfl⟩, fun call hcall => by cases hcall⟩
  · exact ⟨⟨p, buf.retrieveAll, rfl⟩, fun call hcall => by cases hcall⟩

/-- **The answer to a read is that of a session** whose parser is that of the connection. -/
structure AnswerOk (cb : HttpResponseCallback) (c : ℕ) (conn : TcpConnection Buffer) (a : Session)
    (data : Bytes) (x : Answer) : Prop where
  conn : ∃ buf : Buffer, buf.Fresh ∧
    x.conn = { conn with m_httpParser := (a.receive cb (lines data)).parser, m_input_buffer := buf }
  calls : (a.receive cb (lines data)).calls = a.calls ++ x.request.toList
  sent : (a.receive cb (lines data)).sent = if a.connected then a.sent ++ messages x.calls else a.sent
  connected : (a.receive cb (lines data)).connected = (a.connected && decide (.shutDown c ∉ x.calls))

theorem answer_ok (cb : HttpResponseCallback) (c : ℕ) {conn : TcpConnection Buffer} {a : Session}
    (hparser : conn.m_httpParser = a.parser) (hnb : a.parser.NoBody) (hok : conn.m_input_buffer.Ok)
    {data : Bytes} (hdata : conn.m_input_buffer.readable = data) :
    AnswerOk cb c conn a data (HttpServer.answer cb c conn) := by
  obtain ⟨hfeed, hok'⟩ := parseContent_feed Buffer.drains hnb hok
  rw [show ByteQueue.readable conn.m_input_buffer = data from hdata] at hfeed
  have hnb' := HttpRequestParser.feed_noBody hnb (lines data)
  unfold HttpServer.answer
  rw [hparser]
  rcases hpc : a.parser.parseContent conn.m_input_buffer with ⟨p, buf⟩
  rw [hpc] at hfeed hok'
  dsimp only at hfeed hok' ⊢
  subst hfeed
  have hfresh := Buffer.retrieveAll_fresh hok'
  have hparser' := Session.parser_receive cb a (lines data)
  -- what a session does without an answer
  have hsilent : (a.parser.feed (lines data)).Waiting →
      AnswerOk cb c conn a data ⟨{ conn with
        m_httpParser := a.parser.feed (lines data), m_input_buffer := buf.retrieveAll }, none, []⟩ := by
    intro hw
    have hrec := Session.receive_waiting cb hw
    refine ⟨⟨_, hfresh, by rw [hparser']⟩, ?_, ?_, ?_⟩
    · rw [hrec]; simp
    · rw [hrec]; simp
    · rw [hrec]; simp
  cases hstate : (a.parser.feed (lines data)).m_state with
  | kParseErrno =>
    have hrec := Session.receive_errno cb a hstate
    refine ⟨⟨_, hfresh, by rw [hparser']⟩, ?_, ?_, ?_⟩
    · rw [hrec]; simp [Session.say]
    · rw [hrec]; simp [Session.say]
    · rw [hrec]; simp [Session.say]
  | kParseGotCompleteRequest =>
    have hcomplete : a.parser.feed (lines data) =
        ⟨(a.parser.feed (lines data)).m_request, .kParseGotCompleteRequest⟩ := by rw [← hstate]
    have hrec := Session.receive_complete cb hcomplete
    set request := (a.parser.feed (lines data)).m_request
    refine ⟨⟨_, hfresh, by rw [hparser']⟩, ?_, ?_, ?_⟩
    · rw [hrec]; simp [Session.say]
    · rw [hrec, appendToBuffer_readable, messages_send]
      cases hclose : (HttpServer.responseTo cb request).m_close_connection <;> simp [Session.say]
    · rw [hrec]
      cases hclose : (HttpServer.responseTo cb request).m_close_connection <;> simp [Session.say]
  | kParseRequestLine => exact hsilent (.inl hstate)
  | kParseHeader => exact hsilent (.inr hstate)
  | kParseBody => exact absurd hstate hnb'

/-! ## The callback in one go -/

/-- The calls one after the other, in the loop thread of the connection. -/
def HttpRun.runCalls (r : Except ℕ ℕ) : HttpRun → List UserCall → Except Failure HttpRun
  | s, [] => .ok s
  | s, call :: calls =>
    match runCall s.ep s.conn true r call with
    | .ok e => HttpRun.runCalls r { s with ep := e.ep, conn := e.conn } calls
    | .error e => .error e

/-- A reply is a `send`, and a `shutDown` if the connection is to be closed. -/
theorem reply_runCalls (s : HttpRun) (msg : Bytes) (close : Bool) (r : Except ℕ ℕ) (c : ℕ) :
    HttpServer.reply s msg close r =
      s.runCalls r (.send c msg :: if close then [.shutDown c] else []) := by
  unfold HttpServer.reply HttpRun.runCalls runCall
  dsimp only
  rcases s.conn.send s.ep msg true r with e | ⟨ep, conn, d⟩
  · rfl
  · cases close with
    | true => rfl
    | false => rfl

/-- **`onMessage` in one go.** -/
theorem onMessage_answer (cb : HttpResponseCallback) (s : HttpRun) (r : Except ℕ ℕ) (c : ℕ) :
    HttpServer.onMessage cb s r =
      HttpRun.runCalls r { s with
        conn := (HttpServer.answer cb c s.conn).conn
        calls := s.calls ++ (HttpServer.answer cb c s.conn).request.toList }
        (HttpServer.answer cb c s.conn).calls := by
  unfold HttpServer.onMessage HttpServer.answer
  rcases s.conn.m_httpParser.parseContent s.conn.m_input_buffer with ⟨parser, buf⟩
  dsimp only
  cases parser.m_state with
  | kParseErrno =>
    dsimp only
    rw [reply_runCalls _ _ _ _ c, Option.toList_none, List.append_nil]
    rfl
  | kParseGotCompleteRequest =>
    dsimp only
    unfold HttpServer.handleRequest
    dsimp only
    rw [reply_runCalls _ _ _ _ c]
    rfl
  | kParseRequestLine | kParseHeader | kParseBody =>
    dsimp only
    rw [Option.toList_none, List.append_nil]
    rfl

end MyMuduo
