import MyMuduo.Lib.ByteQueue
import MyMuduo.Lib.Run

/-!
# The byte buffer (`Net/buffer.h`, `Net/buffer.cpp`)

A `Buffer` is a block of memory with a read and a write index; the unread bytes are
those between them. The two indices start at 0 and are reset to `kPrePendIndex`
whenever the buffer runs empty. `ensureWriteableBytes` makes room in one of three
ways: there is room already, the indices are moved to the front, or the block is
resized.

Lengths and indices are the source's `int`s. Sizes stay far below `2^31` and the
indices never cross, so they are natural numbers here; an assertion of the source is
a guard of the step that runs into it.
-/

namespace MyMuduo

open Lib

/-- The reserve in front of the data after a reset. -/
def kPrePendIndex : ℕ := 8

/-- The size every buffer of the program is built with. -/
def kInitialSize : ℕ := 1024

/-- `sizeof(extrabuf)` in `readFd`. -/
def kExtraBuf : ℕ := 64 * 1024

structure Buffer where
  m_buffer : Bytes
  m_read_index : ℕ
  m_write_index : ℕ
  deriving DecidableEq, Repr

namespace Buffer

/-- `Buffer(int init_buffer_size)`. -/
def new (size : ℕ) : Buffer := ⟨List.replicate size 0, 0, 0⟩

variable (b : Buffer)

def readableBytes : ℕ := b.m_write_index - b.m_read_index

def writeableBytes : ℕ := b.m_buffer.length - b.m_write_index

def prependableBytes : ℕ := b.m_read_index

/-- The bytes from `curReadPtr()` up to `curWritePtr()`. -/
def readable : Bytes := slice b.m_buffer b.m_read_index b.m_write_index

def retrieveAll : Buffer :=
  { b with m_read_index := kPrePendIndex, m_write_index := kPrePendIndex }

def retrieve (len : ℕ) : Buffer :=
  if len < b.readableBytes then { b with m_read_index := b.m_read_index + len }
  else b.retrieveAll

/-- `retrieveUntilIndex(index)`, the pointer as an index into the block. -/
def retrieveUntilIndex (index : ℕ) : Buffer := b.retrieve (index - b.m_read_index)

/-- `retrieveAllAsString()`: the string, and the buffer left behind. -/
def retrieveAllAsString : Bytes × Buffer := (b.readable, b.retrieveAll)

/-- `std::vector<char>::resize`. -/
def resize (l : Bytes) (n : ℕ) : Bytes := l.take n ++ List.replicate (n - l.length) 0

def ensureWriteableBytes (len : ℕ) : Buffer :=
  if len ≤ b.writeableBytes then b
  else if len + kPrePendIndex ≤ b.writeableBytes + b.prependableBytes then
    -- the copy of the unread bytes to the front is commented out in the source
    { b with m_write_index := kPrePendIndex + b.readableBytes, m_read_index := kPrePendIndex }
  else { b with m_buffer := resize b.m_buffer (b.m_write_index + len) }

/-- `append(data, len)` with `len` the length of `data`. -/
def append (data : Bytes) : Buffer :=
  let b := b.ensureWriteableBytes data.length
  { b with
    m_buffer := overwrite b.m_buffer b.m_write_index data
    m_write_index := b.m_write_index + data.length }

/-- What `readFd` offers to `readv`: the writeable bytes and, when these are fewer
than `extrabuf` holds, `extrabuf`. -/
def offered : ℕ :=
  if b.writeableBytes < kExtraBuf then b.writeableBytes + kExtraBuf else b.writeableBytes

/-- `readFd` when `readv` delivers `data`. -/
def readFd (data : Bytes) : Buffer :=
  let writeable := b.writeableBytes
  if data.length ≤ writeable then
    { b with
      m_buffer := overwrite b.m_buffer b.m_write_index data
      m_write_index := b.m_write_index + data.length }
  else
    { b with
      m_buffer := overwrite b.m_buffer b.m_write_index (data.take writeable)
      m_write_index := b.m_buffer.length }.append (data.drop writeable)

/-- `readFd(fd, saved_err)` when `readv` returned `r`: what it returns, and the buffer. A failed
`readv` leaves its errno in `saved_err`, a parameter of the function. -/
def readFdResult (r : Except ℕ Bytes) : ℤ × Buffer :=
  match r with
  | .ok data => (data.length, b.readFd data)
  | .error _ => (-1, b)

instance : ByteQueue Buffer where
  readable := readable
  append := append
  retrieve := retrieve
  retrieveAll := retrieveAll
  fill := readFd

end Buffer

/-! ## Histories of one buffer -/

/-- A call on a buffer. `retrieveUntilIndex k` is the call with the pointer
`curReadPtr() + k`; `readFd data` the call during which `readv` delivers `data`. -/
inductive BufferOp where
  | append (data : Bytes)
  | retrieve (len : ℕ)
  | retrieveUntilIndex (k : ℕ)
  | retrieveAll
  | retrieveAllAsString
  | readFd (data : Bytes)
  deriving DecidableEq, Repr

/-- A buffer and the strings its user took out of it so far. -/
structure BufferRun where
  buf : Buffer
  taken : List Bytes
  deriving DecidableEq, Repr

/-- One call. The guards are the assertions of `retrieve` and `retrieveUntilIndex` and
the room `readv` is given. -/
def BufferRun.step (s : BufferRun) : BufferOp → Option BufferRun
  | .append data => some { s with buf := s.buf.append data }
  | .retrieve len =>
    if len ≤ s.buf.readableBytes then some { s with buf := s.buf.retrieve len } else none
  | .retrieveUntilIndex k =>
    if s.buf.m_read_index + k ≤ s.buf.m_write_index then
      some { s with buf := s.buf.retrieveUntilIndex (s.buf.m_read_index + k) }
    else none
  | .retrieveAll => some { s with buf := s.buf.retrieveAll }
  | .retrieveAllAsString =>
    let (str, buf) := s.buf.retrieveAllAsString
    some ⟨buf, s.taken ++ [str]⟩
  | .readFd data =>
    if data.length ≤ s.buf.offered then some { s with buf := s.buf.readFd data } else none

/-! ## Accounts of one buffer -/

/-- A call on a buffer whose user keeps accounts, a failing `readFd` included. -/
inductive LedgerOp where
  | call (op : BufferOp)
  | readFdFails (errno : ℕ)
  deriving DecidableEq, Repr

/-- A buffer, and how many bytes its user has put in and taken out. -/
structure Ledger where
  buf : Buffer
  added : ℕ
  retrieved : ℕ
  failed : Bool
  deriving DecidableEq, Repr

namespace Ledger

variable (s : Ledger)

def init (size : ℕ) : Ledger := ⟨.new size, 0, 0, false⟩

/-- The bytes that are to be there, by the accounts. -/
def unread : ℕ := s.added - s.retrieved

/-- A call of `retrieve(len)`: its assertion, and the call. -/
def retrieve (len : ℕ) : Ledger :=
  if len ≤ s.buf.readableBytes then
    { s with buf := s.buf.retrieve len, retrieved := s.retrieved + len }
  else { s with failed := true }

/-- One call, after which the program goes on. The user retrieves no more than the accounts say is
there, and `readv` delivers no more than it was offered. -/
def step : LedgerOp → Option Ledger
  | .call (.append data) =>
    if s.failed then none
    else some { s with buf := s.buf.append data, added := s.added + data.length }
  | .call (.retrieve len) => if s.failed ∨ s.unread < len then none else some (s.retrieve len)
  | .call (.retrieveUntilIndex k) =>
    if s.failed ∨ s.unread < k then none
    else
      let index := s.buf.m_read_index + k
      if s.buf.m_read_index ≤ index ∧ index ≤ s.buf.m_write_index then
        some (s.retrieve (index - s.buf.m_read_index))
      else some { s with failed := true }
  | .call .retrieveAll =>
    if s.failed then none
    else some { s with buf := s.buf.retrieveAll, retrieved := s.retrieved + s.unread }
  | .call .retrieveAllAsString =>
    if s.failed then none
    else some { s with
      buf := s.buf.retrieveAllAsString.2
      retrieved := s.retrieved + s.buf.retrieveAllAsString.1.length }
  | .call (.readFd data) =>
    if s.failed ∨ s.buf.offered < data.length then none
    else some { s with
      buf := (s.buf.readFdResult (.ok data)).2
      added := s.added + data.length }
  | .readFdFails errno =>
    if s.failed then none else some { s with buf := (s.buf.readFdResult (.error errno)).2 }

end Ledger

/-! ## The queue it is meant to be -/

/-- A byte queue and the strings taken out of it: what a `BufferRun` is meant to be. -/
structure Fifo where
  queue : Bytes
  taken : List Bytes
  deriving DecidableEq, Repr

/-- What each call is meant to do: `append` and `readFd` add at the end, the others
drop a prefix. -/
def Fifo.step (s : Fifo) : BufferOp → Fifo
  | .append data | .readFd data => { s with queue := s.queue ++ data }
  | .retrieve len | .retrieveUntilIndex len => { s with queue := s.queue.drop len }
  | .retrieveAll => { s with queue := [] }
  | .retrieveAllAsString => ⟨[], s.taken ++ [s.queue]⟩

end MyMuduo
