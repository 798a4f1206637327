import MyMuduo.Spec.HttpServer
import MyMuduo.Spec.IdleServer

/-!
# The HTTP server (`Http/httpserver.cpp`, `main.cpp`)

All of an `HttpServer`: the loops and the connections with their idle timers, which are those of
`Spec/IdleServer`, and what the callbacks do with the bytes. Each connection has its parser and its
input buffer. `onMessage` runs the parser in the callback of `handleRead`, and then makes its calls, a
`send` and perhaps a `shutDown`, one after the other; between two of them other threads go on. The
callback returns when they are made.

For each connection stands beside it what `readv` returned and which requests went to the response
callback.

The response callbacks are `defaultHttpCallback` and, in the program, `resCallback`.
-/

namespace MyMuduo

open Lib

/-! ## Response callbacks -/

/-- `defaultHttpCallback(request, response)`. -/
def HttpServer.defaultHttpCallback : HttpResponseCallback := fun _ response =>
  { response with
    m_status_code := .k404NotFound, m_status_message := ascii "Not Found", m_close_connection := true }

/-- The contents of `httpresponsefile.h`. -/
structure Site where
  website : Bytes
  favicon : Bytes

/-- `resCallback(request, resp)` of `main.cpp`. -/
def resCallback (site : Site) : HttpResponseCallback := fun request response =>
  if request.m_method ≠ .kGet then
    { response with
      m_status_code := .k400BadRequest, m_status_message := ascii "Bad Request", m_close_connection := true }
  else
    let path := request.m_path
    if path = ascii "/" then
      { response with
        m_status_code := .k200OK, m_status_message := ascii "OK", m_type := ascii "text/html",
        m_body := site.website }
    else if path = ascii "/hello" then
      { response with
        m_status_code := .k200OK, m_status_message := ascii "OK", m_type := ascii "text/html",
        m_body := ascii "Hello, world!\n" }
    else if path = ascii "/favicon.ico" ∨ path = ascii "/favicon" then
      { response with
        m_status_code := .k200OK, m_status_message := ascii "OK", m_type := ascii "image/png",
        m_body := site.favicon }
    else
      { response with
        m_status_code := .k404NotFound, m_status_message := ascii "Not Found", m_close_connection := true }

/-! ## The callbacks -/

/-- What `onMessage` comes to before its first call of the connection. -/
structure Answer where
  conn : TcpConnection Buffer
  /-- the request that the response callback was called with -/
  request : Option HttpRequest
  /-- the calls that follow -/
  calls : List UserCall

/-- `onMessage(conn, buf)` for the connection `c`, up to its first call: the parser runs over the input
buffer, and the buffer is emptied. -/
def HttpServer.answer (cb : HttpResponseCallback) (c : ℕ) (conn : TcpConnection Buffer) : Answer :=
  let (parser, buf) := conn.m_httpParser.parseContent conn.m_input_buffer
  let conn := { conn with m_httpParser := parser, m_input_buffer := buf.retrieveAll }
  match parser.m_state with
  | .kParseErrno => ⟨conn, none, [.send c badRequest, .shutDown c]⟩
  | .kParseGotCompleteRequest =>
    let response := responseTo cb parser.m_request
    let buf := response.appendToBuffer (Buffer.new kInitialSize)
    ⟨conn, some parser.m_request,
      .send c buf.readable :: if response.m_close_connection then [.shutDown c] else []⟩
  | .kParseRequestLine | .kParseHeader | .kParseBody => ⟨conn, none, []⟩

/-! ## The server -/

structure HttpSystem where
  idle : IdleServer Buffer
  /-- the calls that the `onMessage` under way in a loop has still to make -/
  todo : ℕ → List UserCall
  /-- what `readv` returned -/
  reads : ℕ → List Bytes
  /-- the requests that the response callback was called with -/
  requests : ℕ → List HttpRequest

/-- A step: of the loops, the objects and the timers, of a call under way with the callback it ends in,
or the next call of an `onMessage`. -/
inductive HttpStep where
  | idle (a : IdleStep)
  | exec (l : ℕ) (read : Except ℕ Bytes) (write : Except ℕ ℕ) (now : ℤ)
  | call (l : ℕ) (write : Except ℕ ℕ)
  deriving Repr

namespace HttpSystem

def start (numLoops : ℕ) : HttpSystem where
  idle := .start numLoops (.new kInitialSize)
  todo := fun _ => []
  reads := fun _ => []
  requests := fun _ => []

section

variable (s : HttpSystem)

def tcp : TcpServer Buffer := s.idle.tcp

def conn (c : ℕ) : TcpConnection Buffer := (s.tcp.conns c).conn

/-- The connection `c` becomes `conn`. -/
def setConn (c : ℕ) (conn : TcpConnection Buffer) : HttpSystem :=
  let conns := Function.update s.tcp.conns c ⟨conn, (s.tcp.conns c).life⟩
  { s with idle := { s.idle with tcp := { s.tcp with conns := conns } } }

/-- `onConnection(conn, buf)`, as far as it concerns the input buffer. -/
def onConnection (c : ℕ) : HttpSystem := s.setConn c (HttpServer.onConnection (s.conn c))

/-- `onMessage(conn, buf)` in loop `l`, up to its first call, after `readv` returned `data`. -/
def onMessage (cb : HttpResponseCallback) (l c : ℕ) (data : Bytes) : HttpSystem :=
  let a := HttpServer.answer cb c (s.conn c)
  { s.setConn c a.conn with
    todo := Function.update s.todo l a.calls
    reads := Function.update s.reads c (s.reads c ++ [data])
    requests := Function.update s.requests c (s.requests c ++ a.request.toList) }

/-- The callback that the task `t` of loop `l` ended in, if it did; `read` is what its `readv`
returned. -/
def callback (cb : HttpResponseCallback) (l : ℕ) (read : Except ℕ Bytes) : Task → HttpSystem
  | .life .connectionEstablished c | .life .connectionDestructor c => s.onConnection c
  | .handleRead c =>
    match read with
    | .ok data =>
      if (s.tcp.loops l).current.head? = some (.user (some c)) then s.onMessage cb l c data else s
    | .error _ => s
  | _ => s

/-- A step with no part in the callbacks; a callback does not return before its calls are made. -/
def admits : IdleStep → Bool
  | .tcp (.return_ l) => (s.todo l).isEmpty
  | .tcp _ | .addTimerInLoop _ | .handleIdleConnection _ _ => true
  | .exec _ _ _ _ | .call _ _ _ => false

end

def step (cb : HttpResponseCallback) (s : HttpSystem) : HttpStep → Option HttpSystem
  | .idle a =>
    if s.admits a then
      (s.idle.step (.new kInitialSize) a).map fun idle => { s with idle := idle }
    else none
  | .exec l read write now =>
    match (s.tcp.loops l).current with
    | [] => none
    | t :: _ =>
      (s.idle.step (.new kInitialSize) (.exec l read write now)).map fun idle =>
        { s with idle := idle }.callback cb l read t
  | .call l write =>
    match s.todo l with
    | [] => none
    | call :: calls =>
      (s.idle.step (.new kInitialSize) (.call l call write)).map fun idle =>
        { s with idle := idle, todo := Function.update s.todo l calls }

end HttpSystem

end MyMuduo
