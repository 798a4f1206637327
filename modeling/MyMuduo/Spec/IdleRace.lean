import MyMuduo.Spec.IdleServer

/-!
# A shutdown against a close (`Net/tcpconnection.cpp`, `Http/httpserver.cpp`)

The server of `Spec/IdleServer` once more, with `shutDown` and `handleIdleConnection` in steps.
`shutDown` is not locked: its thread tests `m_state`, stores to it, and hands `shutDownInLoop` to
`runInLoop`. In between any other thread goes on, and the connection may close. The store is to
whatever `m_state` is by then.

The thread that is in such a call does nothing else: it neither returns from its callback nor makes
another call.
-/

namespace MyMuduo

open Lib

/-- What comes next in a call of `shutDown`. -/
inductive ShutDownPc where
  | test | store | runInLoop
  deriving DecidableEq, Repr

/-- A call of `handleIdleConnection`, with the timer that it came from. -/
structure IdleCheck where
  timer : IdleTimer
  /-- `conn.lock()` gave a `TcpConnectionPtr` -/
  locked : Bool
  /-- the times are compared -/
  compared : Bool
  deriving DecidableEq, Repr

structure IdleRace (Q : Type) where
  server : IdleServer Q
  /-- the `shutDown` that a loop thread is in, with its connection -/
  calls : ℕ → Option (ℕ × ShutDownPc)
  /-- the `handleIdleConnection` that the base loop is in -/
  checking : Option IdleCheck

inductive RaceStep where
  /-- a step with no part in these calls -/
  | server (a : IdleStep)
  /-- a callback calls `shutDown` -/
  | shutDown (l c : ℕ)
  /-- the next step of a `shutDown` -/
  | next (l : ℕ)
  /-- the `i`-th timer expires: `handleIdleConnection` begins, with its `conn.lock()` -/
  | lock (i : ℕ) (now : ℤ)
  | compare (now : ℤ)
  /-- `handleIdleConnection` returns -/
  | return_
  deriving Repr

/-- A step of the `shutDown` of `c`, in the thread of loop `l`: what comes next, and the effect. -/
def ShutDownPc.next {Q : Type} (pc : ShutDownPc) (l c : ℕ) (ep : Epoller) (conn : TcpConnection Q) :
    Option ShutDownPc × Effect Q :=
  match pc with
  | .test =>
    (if conn.m_state = .kConnected then some .store else none, ⟨conn, ep, [], none, false⟩)
  | .store => (some .runInLoop, ⟨{ conn with m_state := .kDisconnecting }, ep, [], none, false⟩)
  | .runInLoop =>
    (none,
      if l = conn.m_loop then ⟨conn.shutDownInLoop, ep, [], none, false⟩
      else ⟨conn, ep, [], some (conn.m_loop, .deferred c .shutDownInLoop), false⟩)

namespace IdleRace

variable {Q : Type}

def start (numLoops : ℕ) (buffer : Q) : IdleRace Q where
  server := .start numLoops buffer
  calls := fun _ => none
  checking := none

variable (s : IdleRace Q)

def tcp : TcpServer Q := s.server.tcp

def setTcp (tcp : TcpServer Q) : IdleRace Q := { s with server := { s.server with tcp := tcp } }

def setCall (l : ℕ) (call : Option (ℕ × ShutDownPc)) : IdleRace Q :=
  { s with calls := Function.update s.calls l call }

/-- The thread of loop `l` is in none of the calls. -/
def isFree (l : ℕ) : Bool := s.calls l = none ∧ (l = 0 → s.checking = none)

/-- The step has no part in the calls. -/
def admits : IdleStep → Bool
  | .tcp (.return_ l) | .call l (.send _ _) _ => s.isFree l
  | .call _ _ _ | .handleIdleConnection _ _ => false
  | _ => true

/-- The next step of the `shutDown` that loop thread `l` is in. -/
def next (l : ℕ) : Option (IdleRace Q) :=
  match s.calls l with
  | none => none
  | some (c, pc) =>
    let o := s.tcp.conns c
    if o.life = .alive then
      let r := pc.next l c (s.tcp.loops (s.tcp.home c)).ep o.conn
      some ((s.setTcp (s.tcp.apply c r.2)).setCall l (r.1.map fun pc => (c, pc)))
    else some (s.setTcp (s.tcp.fail .dangling))

variable [ByteQueue Q] (buffer : Q)

/-- `handleIdleConnection` begins: it runs as a timer of the base loop. -/
def lock (i : ℕ) (t : IdleTimer) : Option (IdleRace Q) :=
  let locked := s.server.locks t
  (run (TcpServer.step buffer) s.tcp ([.timer 0] ++ if locked then [.retain t.conn] else [])).map
    fun tcp =>
      { s with
        server := { s.server with tcp := tcp, timers := s.server.timers.eraseIdx i }
        checking := some ⟨t, locked, false⟩ }

/-- The times are compared, and either `shutDown` or `runAfter` is called. -/
def compare (k : IdleCheck) (now : ℤ) : IdleRace Q :=
  let s' := { s with checking := some { k with compared := true } }
  if s.server.isIdle k.timer.conn now then s'.setCall 0 (some (k.timer.conn, .test))
  else { s' with server := s.server.runAfter 0 k.timer.conn false now }

/-- `handleIdleConnection` returns, and the callback is destroyed after it. -/
def finish (k : IdleCheck) : Option (IdleRace Q) :=
  (run (TcpServer.step buffer) s.tcp
    ([.return_ 0] ++ (if k.locked then [.release k.timer.conn] else []) ++
      if k.timer.strong then [.release k.timer.conn] else [])).map
    fun tcp => { s.setTcp tcp with checking := none }

def step (s : IdleRace Q) (a : RaceStep) : Option (IdleRace Q) :=
  if s.tcp.failed ≠ none then none
  else match a with
  | .server a =>
    if s.admits a then (s.server.step buffer a).map fun server => { s with server := server } else none
  | .shutDown l c =>
    if s.isFree l ∧ (s.tcp.loops l).current.head? = some (.user (some c)) then
      some (s.setCall l (some (c, .test)))
    else none
  | .next l => s.next l
  | .lock i now =>
    match s.server.timers[i]? with
    | none => none
    | some t => if t.inserted ∧ t.m_expiration ≤ now then s.lock buffer i t else none
  | .compare now =>
    match s.checking with
    | none => none
    | some k => if k.locked ∧ !k.compared then some (s.compare k now) else none
  | .return_ =>
    match s.checking with
    | none => none
    | some k => if s.calls 0 = none ∧ k.locked = k.compared then s.finish buffer k else none

end IdleRace

end MyMuduo
