import MyMuduo.Spec.Buffer
import MyMuduo.Spec.HttpResponse
import MyMuduo.Spec.TcpConnection

/-!
# The HTTP server on one connection (`Http/httpserver.cpp`)

`onMessage` is the message callback that the server gives to its connections, `onConnection`
the connection callback. Both run in the loop thread of the connection, and so do the
`send` and `shutDown` they call. `HttpRun` is a connection with the requests that were
handed to the response callback so far; `deliver` is one read of it.
-/

namespace MyMuduo

open Lib

/-- `HttpResponseCallback`: what the application makes of the response. -/
abbrev HttpResponseCallback := HttpRequest → HttpResponse → HttpResponse

/-- A served connection, its epoller, and the requests given to the response callback. -/
structure HttpRun where
  ep : Epoller
  conn : TcpConnection Buffer
  calls : List HttpRequest

namespace HttpServer

def badRequest : Bytes := ascii "HTTP/1.1 400 Bad Request\r\n\r\n"

/-- The close flag that `handleRequest` starts the response with. -/
def closeRequested (request : HttpRequest) : Bool :=
  let close := request.header (ascii "Connection") = ascii "close"
  if request.m_version = .kHttp11 then request.header (ascii "Connection") ≠ ascii "Keep-Alive"
  else close

/-- The response as the callback leaves it. -/
def responseTo (cb : HttpResponseCallback) (request : HttpRequest) : HttpResponse :=
  cb request (HttpResponse.new (closeRequested request))

/-- `conn->send(..)` in the loop thread, followed by `conn->shutDown()` if `close`. -/
def reply (s : HttpRun) (msg : Bytes) (close : Bool) (r : Except ℕ ℕ) : Except Failure HttpRun :=
  match s.conn.send s.ep msg true r with
  | .ok (ep, c, _) => .ok { s with ep := ep, conn := if close then (c.shutDown true).1 else c }
  | .error e => .error e

def handleRequest (cb : HttpResponseCallback) (s : HttpRun) (request : HttpRequest)
    (r : Except ℕ ℕ) : Except Failure HttpRun :=
  let response := responseTo cb request
  let buf := response.appendToBuffer (Buffer.new kInitialSize)
  reply { s with calls := s.calls ++ [request] } buf.readable response.m_close_connection r

/-- `onMessage(conn, buf)`, `buf` the connection's input buffer. -/
def onMessage (cb : HttpResponseCallback) (s : HttpRun) (r : Except ℕ ℕ) : Except Failure HttpRun :=
  let (parser, buf) := s.conn.m_httpParser.parseContent s.conn.m_input_buffer
  let s := { s with conn := { s.conn with m_httpParser := parser, m_input_buffer := buf.retrieveAll } }
  match parser.m_state with
  | .kParseErrno => reply s badRequest true r
  | .kParseGotCompleteRequest => handleRequest cb s parser.m_request r
  | .kParseRequestLine | .kParseHeader | .kParseBody => .ok s

/-- `onConnection(conn, buf)`, without the idle timer. -/
def onConnection (c : TcpConnection Buffer) : TcpConnection Buffer :=
  { c with m_input_buffer := c.m_input_buffer.retrieveAll }

end HttpServer

namespace HttpRun

/-- A connection just accepted: `connectionEstablished` has run, with `onConnection` as its
connection callback. -/
def accept (ep : Epoller) (self loop fd : ℕ) : Except Failure HttpRun :=
  match (TcpConnection.new self loop fd (Buffer.new kInitialSize)).connectionEstablished ep with
  | .ok (ep, c) => .ok ⟨ep, HttpServer.onConnection c, []⟩
  | .error e => .error e

/-- One read that delivers `data`, and the message callback; `r` is the result of the
`::write` it may come to. -/
def deliver (cb : HttpResponseCallback) (s : HttpRun) (data : Bytes) (r : Except ℕ ℕ) :
    Except Failure HttpRun :=
  match s.conn.handleRead s.ep (.ok data) with
  | .ok (ep, c, some .message) => HttpServer.onMessage cb { s with ep := ep, conn := c } r
  | .ok (ep, c, _) => .ok { s with ep := ep, conn := c }
  | .error e => .error e

/-- Reads one after the other, each with the result of its `::write`. -/
def serve (cb : HttpResponseCallback) : HttpRun → List (Bytes × Except ℕ ℕ) → Except Failure HttpRun
  | s, [] => .ok s
  | s, (data, r) :: reads =>
    match s.deliver cb data r with
    | .ok s => serve cb s reads
    | .error e => .error e

end HttpRun

end MyMuduo
