import MyMuduo.Spec.Server
import MyMuduo.Spec.Timer

/-!
# An HTTP server that closes idle connections (`Http/httpserver.cpp`)

A `TcpServer` whose callbacks are those of an `HttpServer` with `m_auto_close_idle_connection`
set, together with the idle timers of its connections. Every step of it is a few steps of the
`TcpServer`, and what the callbacks do to the timers.

The timer queue is a reliable multiset: a timer is there from `runAfter` on until its callback
has run. From another loop than the base loop `runAfter` only queues `addTimerInLoop`, and the
timer cannot expire before that has run. A strong timer, the one that `onConnection` binds to a
`TcpConnectionPtr`, is an owner of its connection; the timers that `handleIdleConnection` arms
again are bound to a `std::weak_ptr`. Clock readings are part of the labels.

What `onMessage` does with the bytes is left open: it sends and shuts down as it likes. The
server never calls `forceClose` and gives no `TcpConnectionPtr` away.
-/

namespace MyMuduo

open Lib

/-- `kIdleConnectionTimeOuts`, 8 s, in microseconds. -/
def kIdleConnectionTimeOuts : ℤ := 8 * Timestamp.kMicroSecondsPerSecond

/-- A timer whose callback is `handleIdleConnection`. -/
structure IdleTimer where
  conn : ℕ
  /-- the callback holds a `TcpConnectionPtr`, not a `std::weak_ptr` -/
  strong : Bool
  m_expiration : ℤ
  /-- `addTimerInLoop` has run -/
  inserted : Bool
  deriving DecidableEq, Repr

structure IdleServer (Q : Type) where
  tcp : TcpServer Q
  timers : List IdleTimer
  /-- `m_last_receive_time` of each connection -/
  lastReceive : ℕ → ℤ

/-- A step: of the loops and the objects, of a call under way, of the user's code in a callback, or
of the timers in the base loop. -/
inductive IdleStep where
  | tcp (a : ServerStep)
  | exec (l : ℕ) (read : Except ℕ Bytes) (write : Except ℕ ℕ) (now : ℤ)
  | call (l : ℕ) (call : UserCall) (write : Except ℕ ℕ)
  | addTimerInLoop (i : ℕ)
  | handleIdleConnection (i : ℕ) (now : ℤ)
  deriving Repr

/-- The steps that go on without the `HttpServer`. -/
def ServerStep.ofLoops : ServerStep → Bool
  | poll _ _ | handleEvent _ | return_ _ | swap _ | nextFunctor _ | endPass _ | accept _ _ | close _
  | destroy _ => true
  | exec _ _ _ | timer _ | call _ _ _ | retain _ | release _ => false

/-- The calls that an `HttpServer` makes. -/
def UserCall.ofHttp : UserCall → Bool
  | send _ _ | shutDown _ => true
  | forceClose _ => false

namespace IdleServer

variable {Q : Type}

def start (numLoops : ℕ) (buffer : Q) : IdleServer Q where
  tcp := .start numLoops buffer
  timers := []
  lastReceive := fun _ => 0

/-- `m_loop->runAfter(kIdleConnectionTimeOuts, ..)`, called at `now` in the thread of loop `l`. -/
def runAfter (s : IdleServer Q) (l c : ℕ) (strong : Bool) (now : ℤ) : IdleServer Q :=
  { s with timers := s.timers ++
      [⟨c, strong, Timestamp.addTime now kIdleConnectionTimeOuts, l = 0⟩] }

/-- The connection has heard nothing for too long. -/
def isIdle (s : IdleServer Q) (c : ℕ) (now : ℤ) : Bool :=
  Timestamp.addTime (s.lastReceive c) kIdleConnectionTimeOuts < now

/-- `conn.lock()` succeeds. -/
def locks (s : IdleServer Q) (t : IdleTimer) : Bool := t.strong || s.tcp.owned t.conn

/-- What `handleIdleConnection` does to the server: it runs as a timer of the base loop, and the
callback is destroyed after it. -/
def idleSteps (s : IdleServer Q) (t : IdleTimer) (now : ℤ) : List ServerStep :=
  [.timer 0] ++
    (if s.locks t && s.isIdle t.conn now then [.call (some 0) (.shutDown t.conn) (.ok 0)] else []) ++
    [.return_ 0] ++ (if t.strong then [.release t.conn] else [])

variable [ByteQueue Q] (buffer : Q)

/-- `onConnection(conn, buf)`, in the thread of loop `l`. -/
def onConnection (s : IdleServer Q) (l c : ℕ) (now : ℤ) : Option (IdleServer Q) :=
  -- `isConnected()`
  if (s.tcp.conns c).conn.m_state = .kConnected then
    -- the bound callback is another owner
    (s.tcp.step buffer (.retain c)).map fun tcp => { s with tcp := tcp }.runAfter l c true now
  else some s

/-- `onMessage(conn, buf)`, as far as it concerns the idle timers. -/
def onMessage (s : IdleServer Q) (c : ℕ) (now : ℤ) : IdleServer Q :=
  { s with lastReceive := Function.update s.lastReceive c now }

/-- The callback that the task `t` of loop `l` ended in, if it did. -/
def callback (s : IdleServer Q) (l : ℕ) (now : ℤ) : Task → Option (IdleServer Q)
  | .life .connectionEstablished c | .life .connectionDestructor c => s.onConnection buffer l c now
  | .handleRead c =>
    if (s.tcp.loops l).current.head? = some (.user (some c)) then some (s.onMessage c now) else some s
  | _ => some s

/-- `handleIdleConnection(conn)` as the callback of the timer `t`, the `i`-th. -/
def handleIdleConnection (s : IdleServer Q) (i : ℕ) (t : IdleTimer) (now : ℤ) :
    Option (IdleServer Q) :=
  (run (TcpServer.step buffer) s.tcp (s.idleSteps t now)).map fun tcp =>
    let s' := { s with tcp := tcp, timers := s.timers.eraseIdx i }
    if s.locks t && !s.isIdle t.conn now then s'.runAfter 0 t.conn false now else s'

def step (s : IdleServer Q) : IdleStep → Option (IdleServer Q)
  | .tcp a =>
    if a.ofLoops then (s.tcp.step buffer a).map fun tcp => { s with tcp := tcp } else none
  | .exec l read write now =>
    match (s.tcp.loops l).current with
    | [] => none
    | t :: _ =>
      (s.tcp.step buffer (.exec l read write)).bind fun tcp => { s with tcp := tcp }.callback buffer l now t
  | .call l call write =>
    if call.ofHttp ∧ (s.tcp.loops l).current.head? = some (.user (some call.target)) then
      (s.tcp.step buffer (.call (some l) call write)).map fun tcp => { s with tcp := tcp }
    else none
  | .addTimerInLoop i =>
    if (s.tcp.loops 0).pc = .functors ∧ (s.tcp.loops 0).current = [] then
      some { s with timers := s.timers.modify i fun t => { t with inserted := true } }
    else none
  | .handleIdleConnection i now =>
    match s.timers[i]? with
    | none => none
    | some t =>
      if t.inserted ∧ t.m_expiration ≤ now then s.handleIdleConnection buffer i t now else none

end IdleServer

end MyMuduo
