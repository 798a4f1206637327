import MyMuduo.Lib.Run
import MyMuduo.Spec.TcpConnection

/-!
# The server (`Net/tcpserver.cpp`, `Net/channel.cpp`)

A `TcpServer` with its loops and all connections it ever made. Loop 0 is the base loop; a
connection belongs to one loop, its home. Each loop thread goes round `EventLoop::loop`:
poll, dispatch to the active channels, run the pending functors. What it is about to do is
a stack of `Task`s, innermost call first, so that a step is one handler up to the callback it
ends in. Threads that are not loop threads call into the server at any time.

A connection is an object with owners. It is owned by `m_connections`, by the calls and
functors that hold a `TcpConnectionPtr`, and by whoever keeps one outside (`owners`); a
functor bound to a raw `this` does not own it. The functors of a pass are kept until the
pass ends. Without an owner the destructor runs: it closes the descriptor, and then destroys
the channel. The kernel forgets a descriptor that is closed.

An assertion that fails, or the use of an object that is gone, stops the program with a
`Failure`.
-/

namespace MyMuduo

open Lib

/-- The calls that take a connection through its life, one after the other. -/
inductive LifeStep where
  | connectionEstablished
  /-- `m_close_callback(..)`, which is `handleRemoveConnection` -/
  | closeCallback
  | handleRemoveConnectionInLoop
  | connectionDestructor
  /-- the end of `connectionDestructor`, after its callback: `m_loop->remove(..)` -/
  | remove
  deriving DecidableEq, Repr

/-- A call that a loop thread is about to make. -/
inductive Task where
  | life (k : LifeStep) (c : ℕ)
  /-- a functor bound to a raw `this` -/
  | deferred (c : ℕ) (d : TcpConnection.Deferred)
  | handleRead (c : ℕ)
  | handleWrite (c : ℕ)
  /-- code of the user, called back for a connection or by a timer -/
  | user (c : Option ℕ)
  deriving DecidableEq, Repr

namespace Task

/-- The connection that a task keeps alive. -/
def owner : Task → Option ℕ
  | life _ c | handleRead c | handleWrite c => some c
  | user c => c
  | deferred _ _ => none

end Task

/-- Where a loop thread is. -/
inductive IoPc where
  | poll | dispatch | functors
  deriving DecidableEq, Repr

/-- A loop and what its thread is about to do. -/
structure IoLoop where
  ep : Epoller
  pc : IoPc
  /-- the active channels still to be dispatched to, with their `revents` -/
  active : List (ℕ × Events)
  /-- the calls under way -/
  current : List Task
  /-- the functors of the pass still to be run -/
  rest : List Task
  /-- the vector of the pass -/
  functors : List Task
  m_pending_functors : List Task

inductive ObjectLife where
  | unborn | alive
  /-- the descriptor is closed, the channel still there -/
  | closed
  | destroyed
  deriving DecidableEq, Repr

structure Object (Q : Type) where
  conn : TcpConnection Q
  life : ObjectLife

structure TcpServer (Q : Type) where
  numLoops : ℕ
  loops : ℕ → IoLoop
  conns : ℕ → Object Q
  /-- how many connections were made -/
  next : ℕ
  m_connections : ℕ → Option ℕ
  /-- who else keeps a `TcpConnectionPtr` -/
  owners : List ℕ
  failed : Option Failure

/-- A call into a connection by the user's code. -/
inductive UserCall where
  | send (c : ℕ) (msg : Bytes)
  | shutDown (c : ℕ)
  | forceClose (c : ℕ)
  deriving DecidableEq, Repr

/-- What a call does to its connection, to the epoller of the connection's home, and to what
is to be done: the calls that come next, a functor queued for a loop, and whether the
connection is erased from `m_connections`. -/
structure Effect (Q : Type) where
  conn : TcpConnection Q
  ep : Epoller
  calls : List Task
  queued : Option (ℕ × Task)
  erased : Bool

variable {Q : Type} [ByteQueue Q]

/-! ## The calls -/

/-- A call that changes the connection and the epoller only, or fails. -/
def Effect.of (r : Except Failure (Epoller × TcpConnection Q)) (calls : List Task) :
    Except Failure (Effect Q) :=
  match r with
  | .ok (ep, conn) => .ok ⟨conn, ep, calls, none, false⟩
  | .error e => .error e

/-- `m_loop->remove(m_channel)`. -/
def TcpConnection.removeChannel (ep : Epoller) (conn : TcpConnection Q) :
    Except Failure (Epoller × TcpConnection Q) :=
  match ep.removeChannel conn.self conn.m_channel with
  | .ok (ep, ch) => .ok (ep, { conn with m_channel := ch })
  | .error e => .error e

/-- `forceCloseInLoop()`. -/
def forceCloseInLoop (ep : Epoller) (conn : TcpConnection Q) (c : ℕ) : Except Failure (Effect Q) :=
  if conn.m_state = .kConnected ∨ conn.m_state = .kDisconnecting then
    Effect.of (conn.handleClose ep) [.life .closeCallback c]
  else Effect.of (.ok (ep, conn)) []

/-- The steps of a life, on loop `l`. -/
def runLife (ep : Epoller) (l : ℕ) (conn : TcpConnection Q) (c : ℕ) :
    LifeStep → Except Failure (Effect Q)
  | .connectionEstablished => Effect.of (conn.connectionEstablished ep) [.user (some c)]
  | .closeCallback =>
    let conn := { conn with trace := conn.trace ++ [.closeCallback] }
    -- `runInLoop` of the base loop
    if l = 0 then .ok ⟨conn, ep, [.life .handleRemoveConnectionInLoop c], none, false⟩
    else .ok ⟨conn, ep, [], some (0, .life .handleRemoveConnectionInLoop c), false⟩
  | .handleRemoveConnectionInLoop =>
    .ok ⟨conn, ep, [], some (conn.m_loop, .life .connectionDestructor c), true⟩
  | .connectionDestructor =>
    Effect.of (conn.connectionDestructor ep) [.user (some c), .life .remove c]
  | .remove => Effect.of (conn.removeChannel ep) []

/-- A task of loop `l` about the connection `c`; `read` and `write` are what the system calls
return. Code of the user does nothing by itself. -/
def runTask (ep : Epoller) (l : ℕ) (conn : TcpConnection Q) (read : Except ℕ Bytes)
    (write : Except ℕ ℕ) : Task → Except Failure (Effect Q)
  | .life k c => runLife ep l conn c k
  | .deferred _ (.sendInLoop msg) => Effect.of (conn.sendInLoop ep msg write) []
  | .deferred _ .shutDownInLoop => Effect.of (.ok (ep, conn.shutDownInLoop)) []
  | .deferred c .forceCloseInLoop => forceCloseInLoop ep conn c
  | .handleRead c =>
    match conn.handleRead ep read with
    | .ok (ep, conn, callback) =>
      Effect.of (.ok (ep, conn)) (match callback with
        | some .message => [.user (some c)]
        | some .close => [.life .closeCallback c]
        | none => [])
    | .error e => .error e
  | .handleWrite _ => Effect.of (conn.handleWrite ep write) []
  | .user _ => Effect.of (.ok (ep, conn)) []

/-- A call by the user's code. -/
def runCall (ep : Epoller) (conn : TcpConnection Q) (inLoopThread : Bool) (write : Except ℕ ℕ) :
    UserCall → Except Failure (Effect Q)
  | .send c msg =>
    match conn.send ep msg inLoopThread write with
    | .ok (ep, conn, d) => .ok ⟨conn, ep, [], d.map fun d => (conn.m_loop, .deferred c d), false⟩
    | .error e => .error e
  | .shutDown c =>
    let (conn, d) := conn.shutDown inLoopThread
    .ok ⟨conn, ep, [], d.map fun d => (conn.m_loop, .deferred c d), false⟩
  | .forceClose c =>
    let (conn, d) := conn.forceClose
    .ok ⟨conn, ep, [], d.map fun d => (conn.m_loop, .deferred c d), false⟩

namespace TcpServer

/-- A server just started, with its base loop and the I/O loops; `buffer` is a fresh buffer. -/
def start (numLoops : ℕ) (buffer : Q) : TcpServer Q where
  numLoops := numLoops
  loops := fun _ => ⟨.new, .poll, [], [], [], [], []⟩
  conns := fun c => ⟨.new c 0 0 buffer, .unborn⟩
  next := 0
  m_connections := fun _ => none
  owners := []
  failed := none

omit [ByteQueue Q]
variable (s : TcpServer Q)

/-- `getFd()`. -/
def fd (c : ℕ) : ℕ := (s.conns c).conn.m_channel.m_fd

/-- `getLoop()`. -/
def home (c : ℕ) : ℕ := (s.conns c).conn.m_loop

/-- Some `TcpConnectionPtr` refers to the connection. -/
def owned (c : ℕ) : Bool :=
  s.m_connections (s.fd c) = some c || s.owners.contains c ||
    (List.range s.numLoops).any fun l =>
      let L := s.loops l
      (L.current ++ L.functors ++ L.m_pending_functors).any fun t => t.owner = some c

/-- The descriptor is open. -/
def isOpen (fd : ℕ) : Bool :=
  (List.range s.next).any fun c => (s.conns c).life = .alive && s.fd c = fd

def setLoop (l : ℕ) (L : IoLoop) : TcpServer Q := { s with loops := Function.update s.loops l L }

def setCurrent (l : ℕ) (tasks : List Task) : TcpServer Q :=
  s.setLoop l { s.loops l with current := tasks }

/-- `queueInLoop` of loop `l`. -/
def queueInLoop (l : ℕ) (t : Task) : TcpServer Q :=
  s.setLoop l { s.loops l with m_pending_functors := (s.loops l).m_pending_functors ++ [t] }

/-- What a call about `c` leaves behind, apart from the stack of its thread. -/
def apply (c : ℕ) (e : Effect Q) : TcpServer Q :=
  let s' := { s with
    conns := Function.update s.conns c ⟨e.conn, (s.conns c).life⟩
    m_connections :=
      if e.erased then Function.update s.m_connections (s.fd c) none else s.m_connections }
  let s' := s'.setLoop (s.home c) { s'.loops (s.home c) with ep := e.ep }
  match e.queued with
  | some (l, t) => s'.queueInLoop l t
  | none => s'

def fail (e : Failure) : TcpServer Q := { s with failed := some e }

/-- `handleNewConnection(fd, ..)`, with `home` the loop that `getNextLoop` gave. -/
def handleNewConnection (fd home : ℕ) (buffer : Q) : TcpServer Q :=
  let c := s.next
  let s' := { s with
    conns := Function.update s.conns c ⟨.new c home fd buffer, .alive⟩
    next := c + 1
    m_connections := Function.update s.m_connections fd (some c) }
  -- `runInLoop` of the home loop
  if home = 0 then s'.setCurrent 0 [.life .connectionEstablished c]
  else s'.queueInLoop home (.life .connectionEstablished c)

/-- `handleEventWithGuard()`: the callbacks that `revents` asks for. The error callback only
logs, and a close callback is not set. -/
def callbacks (c : ℕ) (revents : Events) : List Task :=
  (if revents &&& (kReadEvent ||| EPOLLRDHUP) ≠ 0 then [.handleRead c] else []) ++
    (if revents &&& kWriteEvent ≠ 0 then [.handleWrite c] else [])

/-- `Channel::handleEvent()` on the first active channel. -/
def handleEvent (l : ℕ) : Option (TcpServer Q) :=
  match (s.loops l).active with
  | [] => none
  | (c, revents) :: active =>
    if (s.conns c).life = .alive then
      -- `m_tie.lock()`
      let tasks := if s.owned c then callbacks c revents else []
      some (s.setLoop l { s.loops l with active := active, current := tasks })
    else some (s.fail .dangling)

/-- What `epoll_wait` returns: descriptors of the interest set with some events, as the
channels registered with them. -/
def polled (ep : Epoller) (ready : List (ℕ × Events)) : List (ℕ × Events) :=
  ready.filterMap fun x => (ep.interest x.1).map fun y => (y.2, x.2)

/-- The kernel forgets a closed descriptor. -/
def closeFd (fd : ℕ) : TcpServer Q :=
  { s with loops := fun l => { s.loops l with
      ep := { (s.loops l).ep with interest := Function.update (s.loops l).ep.interest fd none } } }

/-- `~Channel()`. -/
def destroyChannel (c : ℕ) : TcpServer Q :=
  let h := s.home c
  let conn := (s.conns c).conn
  if (s.loops h).ep.hasChannel conn.self conn.m_channel then
    match conn.disableAll (s.loops h).ep with
    | .error e => s.fail e
    | .ok (ep, conn) =>
      match conn.removeChannel ep with
      | .error e => s.fail e
      | .ok (ep, conn) =>
        { s with conns := Function.update s.conns c ⟨conn, .destroyed⟩ }.setLoop h
          { s.loops h with ep := ep }
  else { s with conns := Function.update s.conns c ⟨conn, .destroyed⟩ }

end TcpServer

/-! ## Steps -/

/-- A step of a loop thread `l`, of another thread, or of the destruction of an object. -/
inductive ServerStep where
  | poll (l : ℕ) (ready : List (ℕ × Events))
  | handleEvent (l : ℕ)
  /-- the innermost call -/
  | exec (l : ℕ) (read : Except ℕ Bytes) (write : Except ℕ ℕ)
  /-- the user's code returns -/
  | return_ (l : ℕ)
  /-- the swap of `doPendingFunctors` -/
  | swap (l : ℕ)
  | nextFunctor (l : ℕ)
  /-- the end of `doPendingFunctors` -/
  | endPass (l : ℕ)
  /-- `handleConnect` on the listening channel, in the base loop -/
  | accept (fd home : ℕ)
  /-- a timer runs code of the user -/
  | timer (l : ℕ)
  /-- the user's code calls, in loop thread `l` or in another thread -/
  | call (thread : Option ℕ) (call : UserCall) (write : Except ℕ ℕ)
  /-- a `TcpConnectionPtr` is copied, or dropped -/
  | retain (c : ℕ)
  | release (c : ℕ)
  /-- `~TcpConnection()`, and then `~Channel()` -/
  | close (c : ℕ)
  | destroy (c : ℕ)
  deriving Repr

/-- The connection that a call is about. -/
def UserCall.target : UserCall → ℕ
  | send c _ | shutDown c | forceClose c => c

/-- The connection that a task is about. -/
def Task.subject : Task → Option ℕ
  | .life _ c | .deferred c _ | .handleRead c | .handleWrite c => some c
  | .user _ => none

/-- The thread is in the user's code: any other thread, or a loop thread in a callback. -/
def TcpServer.inUserCode (s : TcpServer Q) : Option ℕ → Bool
  | none => true
  | some l =>
    match (s.loops l).current with
    | .user _ :: _ => l < s.numLoops
    | _ => false

/-- One step of a server whose buffers start as `buffer`; after a failure there is none. -/
def TcpServer.step (buffer : Q) (s : TcpServer Q) (a : ServerStep) : Option (TcpServer Q) :=
  if s.failed ≠ none then none
  else match a with
  | .poll l ready =>
    let L := s.loops l
    if l < s.numLoops ∧ L.pc = .poll ∧ (ready.map Prod.fst).Nodup then
      some (s.setLoop l { L with pc := .dispatch, active := polled L.ep ready })
    else none
  | .handleEvent l =>
    if l < s.numLoops ∧ (s.loops l).pc = .dispatch ∧ (s.loops l).current = [] then s.handleEvent l
    else none
  | .exec l read write =>
    match (s.loops l).current with
    | [] => none
    | t :: stack =>
      match t.subject with
      | none => none
      | some c =>
        if (s.conns c).life = .alive then
          match runTask (s.loops (s.home c)).ep l (s.conns c).conn read write t with
          | .ok e => some ((s.setCurrent l (e.calls ++ stack)).apply c e)
          | .error e => some (s.fail e)
        else some (s.fail .dangling)
  | .return_ l =>
    match (s.loops l).current with
    | .user _ :: stack => some (s.setCurrent l stack)
    | _ => none
  | .swap l =>
    let L := s.loops l
    if L.pc = .dispatch ∧ L.active = [] ∧ L.current = [] then
      some (s.setLoop l { L with
        pc := .functors, rest := L.m_pending_functors, functors := L.m_pending_functors,
        m_pending_functors := [] })
    else none
  | .nextFunctor l =>
    let L := s.loops l
    match L.pc, L.current, L.rest with
    | .functors, [], t :: rest => some (s.setLoop l { L with current := [t], rest := rest })
    | _, _, _ => none
  | .endPass l =>
    let L := s.loops l
    if L.pc = .functors ∧ L.current = [] ∧ L.rest = [] then
      some (s.setLoop l { L with pc := .poll, functors := [] })
    else none
  | .accept fd home =>
    if home < s.numLoops ∧ (s.loops 0).pc = .dispatch ∧ (s.loops 0).current = [] ∧ !s.isOpen fd then
      some (s.handleNewConnection fd home buffer)
    else none
  | .timer l =>
    if l < s.numLoops ∧ (s.loops l).pc = .dispatch ∧ (s.loops l).current = [] then
      some (s.setCurrent l [.user none])
    else none
  | .call thread call write =>
    let c := call.target
    if s.inUserCode thread ∧ (s.conns c).life = .alive then
      match runCall (s.loops (s.home c)).ep (s.conns c).conn (thread = some (s.home c)) write call with
      | .ok e => some (s.apply c e)
      | .error e => some (s.fail e)
    else none
  | .retain c => if s.owned c then some { s with owners := c :: s.owners } else none
  | .release c => if s.owners.contains c then some { s with owners := s.owners.erase c } else none
  | .close c =>
    if (s.conns c).life = .alive ∧ !s.owned c then
      some ({ s with conns := Function.update s.conns c ⟨(s.conns c).conn, .closed⟩ }.closeFd (s.fd c))
    else none
  | .destroy c => if (s.conns c).life = .closed then some (s.destroyChannel c) else none

end MyMuduo
