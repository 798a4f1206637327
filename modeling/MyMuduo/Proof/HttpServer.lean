import MyMuduo.Proof.Buffer
import MyMuduo.Proof.Epoller
import MyMuduo.Proof.HttpParser
import MyMuduo.Proof.HttpResponse
import MyMuduo.Spec.HttpServer

/-!
# A served connection as a session

A `Session` is what the HTTP server makes of a connection, without sockets, buffers and
epoll: the parser, whether the server may still send, what it sent, and the calls of the
response callback. It works on the lines of each read.

* `deliver_refines`: **one read of the connection is one `receive` of the session**, under
  every result of `::write`. What a read leaves behind its last CR LF is lost: `onMessage`
  empties the input buffer.
* `serve_refines`, `accept_refines`: so is a run of reads, from a connection just accepted.
-/

namespace MyMuduo

open Lib

/-- What the server makes of one connection. -/
structure Session where
  parser : HttpRequestParser
  connected : Bool
  sent : List Bytes
  calls : List HttpRequest

namespace Session

def new : Session := ⟨.new, true, [], []⟩

/-- A message to the peer, which is sent while the session is connected. -/
def say (s : Session) (msg : Bytes) (close : Bool) : Session :=
  { s with connected := s.connected && !close, sent := if s.connected then s.sent ++ [msg] else s.sent }

/-- The lines of one read. -/
def receive (cb : HttpResponseCallback) (s : Session) (ls : List Bytes) : Session :=
  let p := s.parser.feed ls
  let s := { s with parser := p }
  match p.m_state with
  | .kParseErrno => s.say HttpServer.badRequest true
  | .kParseGotCompleteRequest =>
    let response := HttpServer.responseTo cb p.m_request
    { s with calls := s.calls ++ [p.m_request] }.say response.bytes response.m_close_connection
  | .kParseRequestLine | .kParseHeader | .kParseBody => s

/-- The reads one after the other. -/
def receiveAll (cb : HttpResponseCallback) (s : Session) (reads : List Bytes) : Session :=
  reads.foldl (fun s data => s.receive cb (lines data)) s

end Session

/-! ## Sending on a registered connection -/

variable {Q : Type} [ByteQueue Q]

/-- What `sendInLoop` and `shutDown` leave alone: everything but the way out. -/
structure TcpConnection.SameIn (c c' : TcpConnection Q) : Prop where
  self : c'.self = c.self
  input : c'.m_input_buffer = c.m_input_buffer
  parser : c'.m_httpParser = c.m_httpParser

/-- **A send on a registered connection returns**, whatever `::write` does. -/
theorem sendInLoop_registered {ep : Epoller} {c : TcpConnection Q} (h : c.Registered ep)
    (hst : c.m_state ≠ .kDisconnected) (msg : Bytes) (r : Except ℕ ℕ) :
    ∃ ep' c', c.sendInLoop ep msg r = .ok (ep', c') ∧ c'.Registered ep' ∧ c.SameIn c' ∧
      c'.m_state = c.m_state ∧ c'.sent = c.sent ++ [msg] := by
  -- the direct write changes what the outside sees, and nothing else
  have hdir : ∃ tr w, ((TcpConnection.directWrite { c with sent := c.sent ++ [msg] } msg r).1) =
      { c with sent := c.sent ++ [msg], trace := tr, wire := w } := by
    unfold TcpConnection.directWrite
    split
    · exact ⟨_, _, rfl⟩
    · exact ⟨_, _, rfl⟩
  unfold TcpConnection.sendInLoop
  rw [if_neg hst]
  rcases hd : TcpConnection.directWrite { c with sent := c.sent ++ [msg] } msg r with ⟨c₁, n, f⟩
  rw [hd] at hdir
  obtain ⟨tr, w, rfl⟩ := hdir
  dsimp only
  split
  · split
    · have hreg : TcpConnection.Registered ep { c with
          sent := c.sent ++ [msg], trace := tr, wire := w,
          m_output_buffer := ByteQueue.append c.m_output_buffer (msg.drop n) } :=
        ⟨h.index, h.channel⟩
      refine ⟨_, _, setEvents_registered hreg (kWriteEvent_or_ne _), ⟨h.index, ?_⟩, ⟨rfl, rfl, rfl⟩,
        rfl, rfl⟩
      rw [update_m_channels]
      exact h.channel
    · exact ⟨_, _, rfl, ⟨h.index, h.channel⟩, ⟨rfl, rfl, rfl⟩, rfl, rfl⟩
  · exact ⟨_, _, rfl, ⟨h.index, h.channel⟩, ⟨rfl, rfl, rfl⟩, rfl, rfl⟩

omit [ByteQueue Q] in
/-- A shutdown called in the loop thread. -/
theorem shutDown_spec (c : TcpConnection Q) :
    (∃ b, (c.shutDown true).1 = { c with m_state := (c.shutDown true).1.m_state, shutWr := b }) ∧
      (c.shutDown true).1.m_state =
        if c.m_state = .kConnected then .kDisconnecting else c.m_state := by
  unfold TcpConnection.shutDown TcpConnection.shutDownInLoop
  split
  · simp only [if_true]
    split
    · exact ⟨⟨_, rfl⟩, rfl⟩
    · exact ⟨⟨_, rfl⟩, rfl⟩
  · exact ⟨⟨_, rfl⟩, rfl⟩

/-! ## The refinement -/

/-- A buffer in the state that `onMessage` leaves: empty, with the indices at the front. -/
structure Buffer.Fresh (b : Buffer) : Prop where
  ok : b.Ok
  front : b.m_read_index ≤ kPrePendIndex
  empty : b.readable = []

/-- **The connection does what the session does.** -/
structure HttpRun.Refines (s : HttpRun) (a : Session) : Prop where
  input : s.conn.m_input_buffer.Fresh
  registered : s.conn.Registered s.ep
  state : s.conn.m_state = if a.connected then .kConnected else .kDisconnecting
  parser : s.conn.m_httpParser = a.parser
  noBody : a.parser.NoBody
  sent : s.conn.sent = a.sent
  calls : s.calls = a.calls

theorem Buffer.fresh_new : (Buffer.new kInitialSize).Fresh :=
  ⟨Buffer.new_ok (by decide), Nat.zero_le _, Buffer.readable_new _⟩

theorem Buffer.retrieveAll_fresh {b : Buffer} (h : b.Ok) : b.retrieveAll.Fresh :=
  ⟨Buffer.retrieveAll_ok h, le_rfl, Buffer.readable_retrieveAll b⟩

/-- A read into a fresh buffer does not slide. -/
theorem Buffer.readFd_fresh {b : Buffer} (h : b.Fresh) (data : Bytes) :
    (b.readFd data).Ok ∧ (b.readFd data).readable = data := by
  have hk : ¬(b.writeableBytes < data.length ∧
      data.length - b.writeableBytes + kPrePendIndex ≤ b.m_read_index) := by
    have := h.front
    omega
  refine ⟨Buffer.readFd_ok h.ok data, ?_⟩
  rw [Buffer.readFd_readable h.ok hk, h.empty, List.nil_append]

/-- **The response buffer of `handleRequest` holds the bytes of the response.** -/
theorem appendToBuffer_readable (response : HttpResponse) :
    (response.appendToBuffer (Buffer.new kInitialSize)).readable = response.bytes := by
  have hlow : (Buffer.new kInitialSize).Low := ⟨Nat.zero_le _, le_rfl, Nat.zero_le _⟩
  have h := appendToBuffer_low hlow response
  rw [Buffer.readable_new, List.nil_append] at h
  exact h

namespace HttpRun

variable {s : HttpRun} {a : Session}

/-- A reply is a message of the session. -/
theorem reply_refines (h : s.Refines a) (msg : Bytes) (close : Bool) (r : Except ℕ ℕ) :
    ∃ s', HttpServer.reply s msg close r = .ok s' ∧ s'.Refines (a.say msg close) := by
  obtain ⟨hin, hreg, hst, hp, hnb, hsent, hcalls⟩ := h
  -- the connection after the send
  obtain ⟨ep', c', hsend, hreg', hsame, hst', hsent'⟩ : ∃ ep' c',
      s.conn.send s.ep msg true r = .ok (ep', c', none) ∧ c'.Registered ep' ∧ s.conn.SameIn c' ∧
      c'.m_state = s.conn.m_state ∧
      c'.sent = if a.connected then a.sent ++ [msg] else a.sent := by
    unfold TcpConnection.send
    cases hc : a.connected with
    | true =>
      rw [hc, if_pos rfl] at hst
      obtain ⟨ep', c', h1, h2, h3, h4, h5⟩ :=
        sendInLoop_registered hreg (by rw [hst]; decide) msg r
      refine ⟨ep', c', ?_, h2, h3, h4, by rw [h5, hsent]; rfl⟩
      rw [if_pos hst, if_pos rfl, h1]
    | false =>
      rw [hc] at hst
      refine ⟨s.ep, s.conn, ?_, hreg, ⟨rfl, rfl, rfl⟩, rfl, hsent⟩
      rw [if_neg (by rw [hst]; decide)]
  obtain ⟨⟨b, hsd⟩, hsd'⟩ := shutDown_spec c'
  refine ⟨_, by unfold HttpServer.reply; rw [hsend], ?_⟩
  cases close with
  | true =>
    simp only [if_true, Session.say, Bool.not_true, Bool.and_false]
    rw [hsd]
    refine ⟨by rw [hsame.input]; exact hin, ⟨hreg'.index, hreg'.channel⟩, ?_,
      by rw [hsame.parser]; exact hp, hnb, hsent', hcalls⟩
    simp only [hsd', hst', hst]
    cases a.connected <;> rfl
  | false =>
    simp only [Bool.false_eq_true, if_false, Session.say, Bool.not_false, Bool.and_true]
    exact ⟨by rw [hsame.input]; exact hin, hreg', by rw [hst', hst],
      by rw [hsame.parser]; exact hp, hnb, hsent', hcalls⟩

/-- **One read is one `receive`.** -/
theorem deliver_refines (cb : HttpResponseCallback) (h : s.Refines a) {data : Bytes} (hd : data ≠ [])
    (r : Except ℕ ℕ) :
    ∃ s', s.deliver cb data r = .ok s' ∧ s'.Refines (a.receive cb (lines data)) := by
  obtain ⟨hin, hreg, hst, hp, hnb, hsent, hcalls⟩ := h
  obtain ⟨hok, hread⟩ := Buffer.readFd_fresh hin data
  -- `handleRead` fills the buffer and calls `onMessage`
  have hdel : s.deliver cb data r = HttpServer.onMessage cb
      { s with conn := { s.conn with trace := s.conn.trace ++ [.readv],
                                     m_input_buffer := s.conn.m_input_buffer.readFd data } } r := by
    unfold deliver TcpConnection.handleRead
    cases data with
    | nil => exact absurd rfl hd
    | cons b bs => rfl
  -- `parseContent` runs the automaton over the lines of the read
  obtain ⟨hfeed, hok'⟩ := parseContent_feed Buffer.drains hnb hok
  rw [show ByteQueue.readable (s.conn.m_input_buffer.readFd data) = data from hread] at hfeed
  rw [hdel]
  unfold HttpServer.onMessage
  dsimp only
  rw [hp]
  rcases hpc : a.parser.parseContent (s.conn.m_input_buffer.readFd data) with ⟨p, buf⟩
  rw [hpc] at hfeed hok'
  dsimp only at hfeed hok' ⊢
  subst hfeed
  have hnb' := HttpRequestParser.feed_noBody hnb (lines data)
  have hmid : HttpRun.Refines { s with conn := { s.conn with
        trace := s.conn.trace ++ [.readv], m_httpParser := a.parser.feed (lines data),
        m_input_buffer := buf.retrieveAll } } { a with parser := a.parser.feed (lines data) } :=
    ⟨Buffer.retrieveAll_fresh hok', ⟨hreg.index, hreg.channel⟩, hst, rfl, hnb', hsent, hcalls⟩
  unfold Session.receive
  dsimp only
  cases hstate : (a.parser.feed (lines data)).m_state with
  | kParseErrno => exact reply_refines hmid _ _ r
  | kParseGotCompleteRequest =>
    dsimp only
    unfold HttpServer.handleRequest
    dsimp only
    rw [appendToBuffer_readable]
    refine reply_refines (a := { a with parser := _, calls := _ }) ?_ _ _ r
    obtain ⟨g1, g2, g3, g4, g5, g6, g7⟩ := hmid
    exact ⟨g1, g2, g3, g4, g5, g6, congrArg (· ++ [_]) g7⟩
  | kParseRequestLine => exact ⟨_, rfl, hmid⟩
  | kParseHeader => exact ⟨_, rfl, hmid⟩
  | kParseBody => exact absurd hstate hnb'

/-- **A run of reads is a run of the session.** -/
theorem serve_refines (cb : HttpResponseCallback) (h : s.Refines a) {reads : List (Bytes × Except ℕ ℕ)}
    (hd : ∀ x ∈ reads, x.1 ≠ []) :
    ∃ s', serve cb s reads = .ok s' ∧ s'.Refines (a.receiveAll cb (reads.map Prod.fst)) := by
  induction reads generalizing s a with
  | nil => exact ⟨s, rfl, h⟩
  | cons x reads ih =>
    obtain ⟨data, r⟩ := x
    obtain ⟨s₁, hs₁, h₁⟩ := deliver_refines cb h (hd _ List.mem_cons_self) r
    obtain ⟨s', hs', h'⟩ := ih h₁ fun x hx => hd x (List.mem_cons_of_mem _ hx)
    refine ⟨s', ?_, h'⟩
    unfold serve
    rw [hs₁]
    exact hs'

/-- **A connection just accepted** is a new session. -/
theorem accept_refines (ep : Epoller) (self loop fd : ℕ) :
    ∃ s, accept ep self loop fd = .ok s ∧ s.Refines Session.new := by
  refine ⟨_, rfl, ⟨Buffer.retrieveAll_fresh Buffer.fresh_new.ok, ⟨rfl, ?_⟩, rfl, rfl, ?_, rfl, rfl⟩⟩
  · rw [update_m_channels]
    exact Function.update_self _ _ _
  · exact fun h => by cases h

end HttpRun

end MyMuduo
