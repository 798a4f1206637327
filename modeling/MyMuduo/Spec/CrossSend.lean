import MyMuduo.Spec.Buffer
import MyMuduo.Spec.Shutdown

/-!
# Sending from other threads (`Net/tcpconnection.cpp`)

`send(Buffer*)` outside of the loop thread queues `sendInLoop` with a pointer into the buffer's
memory and the number of unread bytes, and then empties the buffer; the bytes are read when the
loop thread comes to the functor. The thread goes on with its buffers meanwhile.

A buffer is a block of memory of some capacity. A vector that outgrows its capacity moves to a new
block, and the old one is gone: reading through a pointer into it stops the program with a `Failure`.
How large the new block is, is up to the library. Each thread has buffers of its own.

The steps of `send`, `shutDown` and `handleWrite` are cut as in `Shutdown`. The peer does not close the
connection, and `::write` fails with a broken pipe exactly if the write side was shut down.

Beside the program's state, the accepted sends are kept with the thread that made them and the bytes
that were unread at the call, and so are those that `sendInLoop` was called for.
-/

namespace MyMuduo

open Lib

/-- A buffer in its block of memory. -/
structure OwnedBuffer where
  buf : Buffer
  capacity : ℕ
  /-- the number of the block -/
  block : ℕ
  deriving DecidableEq, Repr

namespace OwnedBuffer

/-- A fresh buffer. -/
def new (size : ℕ) : OwnedBuffer := ⟨.new size, size, 0⟩

/-- The vector outgrows its block. -/
def reallocates (o : OwnedBuffer) (data : Bytes) : Bool := o.capacity < (o.buf.append data).m_buffer.length

/-- `append(data, len)`, with `capacity` that of the block the vector moves to if it does. -/
def append (o : OwnedBuffer) (data : Bytes) (capacity : ℕ) : OwnedBuffer :=
  if o.reallocates data then ⟨o.buf.append data, capacity, o.block + 1⟩
  else { o with buf := o.buf.append data }

end OwnedBuffer

/-- A queued `sendInLoop(message, len)`: whose buffer `message` points into, the block, the index. -/
structure QueuedSend where
  thread : ℕ
  buffer : ℕ
  block : ℕ
  index : ℕ
  len : ℕ
  /-- the bytes that were unread at the call -/
  msg : Bytes
  deriving DecidableEq, Repr

/-- A functor queued for the loop thread. -/
inductive SendFunctor where
  | sendInLoop (q : QueuedSend)
  | shutDownInLoop
  deriving DecidableEq, Repr

/-- Where another thread is. -/
inductive ClientPc where
  | idle
  /-- in `send`, after its test of `m_state`, and after `runInLoop` -/
  | sending (buffer : ℕ)
  | queued (buffer : ℕ)
  /-- in `shutDown`, after its test, and after its write -/
  | tested
  | stored
  deriving DecidableEq, Repr

/-- A connection in its loop, and threads that send through it from their buffers. -/
structure CrossSend where
  m_epoller : Epoller
  conn : TcpConnection Buffer
  pc : SenderPc
  numThreads : ℕ
  threads : ℕ → ClientPc
  buffers : ℕ → ℕ → OwnedBuffer
  functors : List SendFunctor
  /-- the accepted sends; the loop thread is `none` -/
  calls : List (Option ℕ × Bytes)
  /-- those that `sendInLoop` was called for -/
  worked : List (Option ℕ × Bytes)
  failed : Option Failure

inductive CrossStep where
  /-- a thread appends to one of its buffers, or takes bytes out of it -/
  | append (thread buffer : ℕ) (data : Bytes) (capacity : ℕ)
  | retrieve (thread buffer len : ℕ)
  /-- another thread calls `send(Buffer*)`, or `shutDown()`, and makes its test -/
  | send (thread buffer : ℕ)
  | shutDown (thread : ℕ)
  /-- its next step in the call -/
  | next (thread : ℕ)
  /-- `send` in the loop thread: its test, and then `sendInLoop` -/
  | loopSend (msg : Bytes)
  | sendInLoop (r : Except ℕ ℕ)
  /-- a write event, and then the test of a drained buffer -/
  | handleWrite (r : Except ℕ ℕ)
  | drained
  /-- `shutDown()` in the loop thread: its next step -/
  | loopShutDown
  /-- the next queued functor -/
  | functor (r : Except ℕ ℕ)
  deriving Repr

namespace CrossSend

/-- A connection just established, and threads with fresh buffers. -/
def start (ep : Epoller) (c : TcpConnection Buffer) (numThreads size : ℕ) : CrossSend where
  m_epoller := ep
  conn := c
  pc := .idle
  numThreads := numThreads
  threads := fun _ => .idle
  buffers := fun _ _ => .new size
  functors := []
  calls := []
  worked := []
  failed := none

variable (s : CrossSend)

def setThread (thread : ℕ) (pc : ClientPc) : CrossSend :=
  { s with threads := Function.update s.threads thread pc }

def setBuffer (thread buffer : ℕ) (o : OwnedBuffer) : CrossSend :=
  { s with buffers := Function.update s.buffers thread (Function.update (s.buffers thread) buffer o) }

/-- The functor that `send` queues: `std::bind(.., message->peek(), message->readableBytes())`. -/
def bind (thread buffer : ℕ) : QueuedSend :=
  let o := s.buffers thread buffer
  ⟨thread, buffer, o.block, o.buf.m_read_index, o.buf.readableBytes, o.buf.readable⟩

/-- The thread is in none of these calls. -/
def free (thread : ℕ) : Bool := thread < s.numThreads ∧ s.threads thread = .idle

/-- The next step of another thread in its call. -/
def next (thread : ℕ) : Option CrossSend :=
  match s.threads thread with
  | .sending buffer =>
    some { s.setThread thread (.queued buffer) with
      functors := s.functors ++ [.sendInLoop (s.bind thread buffer)] }
  | .queued buffer =>
    let o := s.buffers thread buffer
    some ((s.setThread thread .idle).setBuffer thread buffer { o with buf := o.buf.retrieveAll })
  | .tested =>
    some { s.setThread thread .stored with conn := { s.conn with m_state := .kDisconnecting } }
  | .stored => some { s.setThread thread .idle with functors := s.functors ++ [.shutDownInLoop] }
  | .idle => none

/-- What `::write` may return. -/
def writes (r : Except ℕ ℕ) : Bool :=
  match s.conn.shutWr, r with
  | true, .ok _ => false
  | true, .error e => e = EPIPE
  | false, r => !TcpConnection.faultError r

/-- `sendInLoop` on the bytes `msg`, for the accepted send `call`. -/
def work (call : Option ℕ × Bytes) (msg : Bytes) (r : Except ℕ ℕ) : Option CrossSend :=
  if s.writes r then
    match s.conn.sendInLoop s.m_epoller msg r with
    | .ok (ep, c) => some { s with m_epoller := ep, conn := c, worked := s.worked ++ [call] }
    | .error e => some { s with failed := some e }
  else none

/-- What a queued send reads through its pointer, unless the block is gone. -/
def read (q : QueuedSend) : Option Bytes :=
  let o := s.buffers q.thread q.buffer
  if q.len = 0 then some []
  else if q.block = o.block then some (slice o.buf.m_buffer q.index (q.index + q.len))
  else none

/-- The first queued functor. -/
def functor (r : Except ℕ ℕ) : Option CrossSend :=
  match s.functors with
  | [] => none
  | .shutDownInLoop :: rest => some { s with conn := s.conn.shutDownInLoop, functors := rest }
  | .sendInLoop q :: rest =>
    match s.read q with
    | some msg => { s with functors := rest }.work (some q.thread, q.msg) msg r
    | none => some { s with failed := some .dangling }

/-- The next step of `shutDown()` in the loop thread. -/
def loopShutDown : Option CrossSend :=
  match s.pc with
  | .idle => some (if s.conn.m_state = .kConnected then { s with pc := .tested } else s)
  | .tested => some { s with conn := { s.conn with m_state := .kDisconnecting }, pc := .stored }
  | .stored => some { s with conn := s.conn.shutDownInLoop, pc := .idle }
  | .sending _ | .drained => none

/-- One step; after a failure there is none. -/
def step (a : CrossStep) : Option CrossSend :=
  if s.failed ≠ none then none
  else match a with
  | .append thread buffer data capacity =>
    let o := s.buffers thread buffer
    if s.free thread ∧ (o.buf.append data).m_buffer.length ≤ max o.capacity capacity then
      some (s.setBuffer thread buffer (o.append data capacity))
    else none
  | .retrieve thread buffer len =>
    let o := s.buffers thread buffer
    if s.free thread ∧ len ≤ o.buf.readableBytes then
      some (s.setBuffer thread buffer { o with buf := o.buf.retrieve len })
    else none
  | .send thread buffer =>
    if s.free thread then
      some (if s.conn.m_state = .kConnected then
        { s.setThread thread (.sending buffer) with
          calls := s.calls ++ [(some thread, (s.buffers thread buffer).buf.readable)] }
      else s)
    else none
  | .shutDown thread =>
    if s.free thread then
      some (if s.conn.m_state = .kConnected then s.setThread thread .tested else s)
    else none
  | .next thread => s.next thread
  | .loopSend msg =>
    if s.pc = .idle then
      some (if s.conn.m_state = .kConnected then
        { s with pc := .sending msg, calls := s.calls ++ [(none, msg)] } else s)
    else none
  | .sendInLoop r =>
    match s.pc with
    | .sending msg => { s with pc := .idle }.work (none, msg) msg r
    | _ => none
  | .handleWrite r =>
    if s.pc = .idle ∧ s.writes r then
      match s.conn.drain s.m_epoller r with
      | .ok (ep, c, drained) =>
        some { s with m_epoller := ep, conn := c, pc := if drained then .drained else .idle }
      | .error e => some { s with failed := some e }
    else none
  | .drained =>
    if s.pc = .drained then some { s with conn := s.conn.drained, pc := .idle } else none
  | .loopShutDown => s.loopShutDown
  | .functor r => if s.pc = .idle then s.functor r else none

end CrossSend

end MyMuduo
