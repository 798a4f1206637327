import MyMuduo.Lib.Run
import MyMuduo.Spec.LogStream

/-!
# The asynchronous log (`Logging/asynclogging.h`, `Logging/asynclogging.cpp`)

Producers append to `m_currentBuffer` under the mutex; one backend thread takes the full
buffers over, hands them to the log file and gives two of them back. Four buffers go around
by moves, so a `BufferPtr` is an `Option`, empty once it was moved from.

`append` and the backend's section under the mutex are one step each; everything else the
backend does is cut where it touches a buffer. Its locals are part of the state. A use of
an empty pointer or of the last element of an empty vector is a `fault`. Beside the members
stand the bytes given to the log file and the messages in the order of the lock.
-/

namespace MyMuduo

open Lib

/-- `AsyncLogging::Buffer`. -/
abbrev LogBuffer := FixedBuffer kLargeBuffer

/-- Where the backend thread is in `threadFunc`. -/
inductive LogPc where
  /-- at the test of the loop -/
  | loop
  /-- before it takes the mutex -/
  | lock
  /-- in `wait_for`, the mutex released -/
  | waiting
  /-- about to write the buffer of this index -/
  | write (i : ℕ)
  | refill1
  | refill2
  | clear
  | exited
  deriving DecidableEq, Repr

/-- An empty pointer, or an empty vector, used where it may not be. -/
inductive LogFault where
  | m_currentBuffer | buffer | back
  deriving DecidableEq, Repr

structure AsyncLogging where
  m_running : Bool
  m_currentBuffer : Option LogBuffer
  m_nextBuffer : Option LogBuffer
  m_buffers : List (Option LogBuffer)
  newBuffer1 : Option LogBuffer
  newBuffer2 : Option LogBuffer
  buffersToWrite : List (Option LogBuffer)
  pc : LogPc
  fault : Option LogFault
  /-- the bytes given to `LogFile::append` -/
  written : Bytes
  /-- the messages, each with its thread, in the order of the lock -/
  appended : List (ℕ × Bytes)
  deriving DecidableEq, Repr

namespace AsyncLogging

/-- After the constructor, `startAsyncLogging` and the first lines of `threadFunc`. -/
def start : AsyncLogging where
  m_running := true
  m_currentBuffer := some .new
  m_nextBuffer := some .new
  m_buffers := []
  newBuffer1 := some .new
  newBuffer2 := some .new
  buffersToWrite := []
  pc := .loop
  fault := none
  written := []
  appended := []

variable (s : AsyncLogging)

/-- `append(data, len)`. -/
def append (data : Bytes) : AsyncLogging :=
  match s.m_currentBuffer with
  | none => { s with fault := some .m_currentBuffer }
  | some current =>
    if data.length < current.avail then { s with m_currentBuffer := some (current.append data) }
    else
      let s := { s with m_buffers := s.m_buffers ++ [some current] }
      match s.m_nextBuffer with
      | some next => { s with m_currentBuffer := some (next.append data), m_nextBuffer := none }
      | none => { s with m_currentBuffer := some (FixedBuffer.new.append data) }

/-- The section under the mutex, from `emplace_back` on. -/
def swapBuffers : AsyncLogging :=
  { s with
    m_currentBuffer := s.newBuffer1
    newBuffer1 := none
    buffersToWrite := s.m_buffers ++ [s.m_currentBuffer]
    m_buffers := s.buffersToWrite
    m_nextBuffer := if s.m_nextBuffer.isNone then s.newBuffer2 else s.m_nextBuffer
    newBuffer2 := if s.m_nextBuffer.isNone then none else s.newBuffer2
    pc := .write 0 }

/-- `buffersToWrite.resize(2)` if there are more. -/
def resize : AsyncLogging :=
  if 2 < s.buffersToWrite.length then { s with buffersToWrite := s.buffersToWrite.take 2 } else s

/-- `std::move(buffersToWrite.back())`, `pop_back()` and `reset()`. -/
def takeBack : Except LogFault (LogBuffer × List (Option LogBuffer)) :=
  match s.buffersToWrite.getLast? with
  | none => .error .back
  | some none => .error .buffer
  | some (some b) => .ok (b.reset, s.buffersToWrite.dropLast)

/-- The next step of the backend. -/
def backend : Option AsyncLogging :=
  match s.pc with
  | .loop => some { s with pc := if s.m_running then .lock else .exited }
  | .lock => some (if s.m_buffers = [] then { s with pc := .waiting } else s.swapBuffers)
  -- notified, timed out, or woken for no reason
  | .waiting => some s.swapBuffers
  | .write i =>
    match s.buffersToWrite[i]? with
    | some (some b) => some { s with written := s.written ++ b.m_data, pc := .write (i + 1) }
    | some none => some { s with fault := some .buffer }
    | none => some { s.resize with pc := .refill1 }
  | .refill1 =>
    if s.newBuffer1.isNone then
      match s.takeBack with
      | .ok (b, rest) =>
        some { s with newBuffer1 := some b, buffersToWrite := rest, pc := .refill2 }
      | .error e => some { s with fault := some e }
    else some { s with pc := .refill2 }
  | .refill2 =>
    if s.newBuffer2.isNone then
      match s.takeBack with
      | .ok (b, rest) => some { s with newBuffer2 := some b, buffersToWrite := rest, pc := .clear }
      | .error e => some { s with fault := some e }
    else some { s with pc := .clear }
  | .clear => some { s with buffersToWrite := [], pc := .loop }
  | .exited => none

end AsyncLogging

/-- A step of the log: of a producer, of the backend, or the write of `stop()`. -/
inductive LogStep where
  | append (thread : ℕ) (data : Bytes)
  | backend
  | stop
  deriving DecidableEq, Repr

/-- One step; after a fault there is none. -/
def AsyncLogging.step (s : AsyncLogging) (a : LogStep) : Option AsyncLogging :=
  if s.fault = none then
    match a with
    | .append thread data => some { s.append data with appended := s.appended ++ [(thread, data)] }
    | .backend => s.backend
    | .stop => some { s with m_running := false }
  else none

/-! ## A call of `stop()` -/

/-- Where the thread that calls `stop()` is. -/
inductive StopPc where
  /-- before the call -/
  | idle
  /-- at the test of `m_running` -/
  | test
  /-- before the write of `m_running` -/
  | store
  /-- before `notify_one` -/
  | notify
  /-- in `m_thread.join()` -/
  | join
  | returned
  deriving DecidableEq, Repr

/-- The log, and one call of `stop()` on it. -/
structure LogStop where
  log : AsyncLogging
  pc : StopPc
  /-- how many messages had been appended when `stop()` was called -/
  mark : ℕ
  deriving DecidableEq, Repr

inductive LogStopStep where
  /-- `append` of a producer -/
  | append (thread : ℕ) (data : Bytes)
  | backend
  /-- `stop()` is called -/
  | call
  /-- its next step -/
  | stop
  deriving DecidableEq, Repr

namespace LogStop

/-- The log after `startAsyncLogging`. -/
def start : LogStop := ⟨.start, .idle, 0⟩

/-- The next step of `stop()`. A notified backend may leave `wait_for`, as it may at any
time; the join ends when the backend has. -/
def stop (s : LogStop) : Option LogStop :=
  match s.pc with
  | .test => some { s with pc := if s.log.m_running then .store else .returned }
  | .store => (s.log.step .stop).map fun log => { s with log := log, pc := .notify }
  | .notify => some { s with pc := .join }
  | .join => if s.log.pc = .exited then some { s with pc := .returned } else none
  | .idle | .returned => none

/-- One step. -/
def step (s : LogStop) : LogStopStep → Option LogStop
  | .append thread data => (s.log.step (.append thread data)).map fun log => { s with log := log }
  | .backend => (s.log.step .backend).map fun log => { s with log := log }
  | .call =>
    if s.pc = .idle then some { s with pc := .test, mark := s.log.appended.length } else none
  | .stop => s.stop

/-- **What was appended before the call is with the log file.** -/
def Flushed (s : LogStop) : Prop :=
  ((s.log.appended.take s.mark).map Prod.snd).flatten <+: s.log.written

instance (s : LogStop) : Decidable s.Flushed := inferInstanceAs (Decidable (_ <+: _))

end LogStop

end MyMuduo
