import MyMuduo.Spec.AsyncLogging
import MyMuduo.Spec.LogFile
import MyMuduo.Spec.Logging

/-!
# The log of the program (`main.cpp`, `Logging/logging.h`, `Logging/asynclogging.cpp`)

All of the log, as `main` puts it together: log statements in any threads, `AsyncLogging` as their
output function, and its backend, which writes to a `LogFile`. A statement is one step: it makes its
record alone, and what others see of it is the `append` under the mutex. Its test of the level is in the
same step, so no `setLogLevel` comes between the two.

The kernel's side are the files, by name. A file is opened for appending, so what is written
goes behind what the file has, be it from before (`old`) or from an earlier stream of the same name.
The bytes that `fflush` has not passed on yet count as written; `LogFile.flushed` tells them.

An `fopen` may fail, in the constructor of `LogFile` or when a file is rolled. Nobody tests for it, and
the process ends where `NULL` is written to or closed.
-/

namespace MyMuduo

open Lib

namespace Logger

/-- The value of the enumerator. -/
def LogLevel.toNat : LogLevel → ℕ
  | DEBUG => 0
  | INFO => 1
  | WARN => 2
  | ERROR => 3

/-- The test in front of a log statement; `LOG_WARN` and `LOG_ERROR` have none. -/
def LogLevel.isLogged (g_logLevel : LogLevel) : LogLevel → Bool
  | DEBUG => g_logLevel.toNat ≤ DEBUG.toNat
  | INFO => g_logLevel.toNat ≤ INFO.toNat
  | WARN | ERROR => true

end Logger

def kRollSize : ℤ := 1024 * 1024 * 32

/-- `flushInterval` of `LogFile`, where it is not given. -/
def defaultFlushInterval : ℤ := 3

namespace AsyncLogging

variable (s : AsyncLogging)

/-- The next step of the backend gives this block to `LogFile::append`. -/
def block : Option Bytes :=
  match s.pc with
  | .write i => (s.buffersToWrite[i]?.join).map FixedBuffer.m_data
  | _ => none

/-- The next step of the backend is its section under the mutex. -/
def swaps : Bool := s.pc = .waiting || s.pc = .lock && s.m_buffers ≠ []

/-- The next step of the backend leaves `threadFunc`, with `~LogFile`. -/
def ends : Bool := s.pc = .loop && !s.m_running

/-- The next step of the backend flushes the file: at the end of a round, and behind the loop. -/
def flushes : Bool := s.pc = .clear || s.ends

/-- The backend is not in a round. -/
def Idle : Prop := s.pc = .loop ∨ s.pc = .lock ∨ s.pc = .waiting ∨ s.pc = .exited

end AsyncLogging

/-- The streams that were opened so far, each with its name and what was written to it. -/
def LogFile.sessions (s : LogFile) : List (Bytes × Bytes) :=
  s.closed ++ (s.m_fp.map (·, s.current)).toList

/-- What the streams of one name wrote, one after the other. -/
def LogFile.contents (sessions : List (Bytes × Bytes)) (name : Bytes) : Bytes :=
  (sessions.filter (·.1 = name)).flatMap Prod.snd

structure LogSystem where
  g_logLevel : Logger.LogLevel
  log : AsyncLogging
  /-- the `logFile` of `threadFunc` -/
  logFile : LogFile
  /-- what was written to the files, by their names -/
  disk : Bytes → Bytes
  /-- for each file that `rollFile` opened its reading of the clock and its thread -/
  rolls : List (ℕ × ℕ)
  /-- how many records were appended when the backend last held the mutex -/
  taken : ℕ
  /-- the process ended with `NULL` for a file -/
  crashed : Bool

inductive LogSystemStep where
  | setLogLevel (level : Logger.LogLevel)
  /-- a log statement in some thread -/
  | statement (thread : ℕ) (c : Logger.Statement)
  /-- the next step of the backend; what a call of `LogFile::append` in it meets -/
  | backend (a : LogAppend)
  /-- `stop()` clears `m_running` -/
  | stop

namespace LogSystem

/-- After `startAsyncLogging`; `opens` and `opensDefault` tell whether the log file could be opened under
its path, or under the name for it. -/
def start (level : Logger.LogLevel) (filepath : Bytes) (opens opensDefault : Bool) (now tid : ℕ)
    (old : Bytes → Bytes) : LogSystem where
  g_logLevel := level
  log := .start
  logFile := .new filepath kRollSize defaultFlushInterval opens opensDefault now tid
  disk := old
  rolls := []
  taken := 0
  crashed := false

variable (s : LogSystem)

/-- A log statement: the record of the destructor goes to `AsyncLogging::append`. -/
def statement (thread : ℕ) (c : Logger.Statement) : Option LogSystem :=
  if s.g_logLevel.isLogged c.level then
    c.record.bind fun record =>
      (s.log.step (.append thread record)).map fun log => { s with log := log }
  else some s

/-- The files after a write to `m_fp`. -/
def diskAfter (data : Bytes) : Bytes → Bytes :=
  match s.logFile.m_fp with
  | some name => Function.update s.disk name (s.disk name ++ data)
  | none => s.disk

/-- `logFile->append(data, len)`. -/
def write (data : Bytes) (a : LogAppend) : Option LogSystem :=
  match s.logFile.append { a with data := data } with
  | some logFile =>
    some { s with
      logFile := logFile
      disk := s.diskAfter data
      rolls := if logFile.closed ≠ s.logFile.closed ∧ a.opens then s.rolls ++ [(a.rollNow, a.tid)]
        else s.rolls }
  -- with a file it is only the loop that does not end
  | none => if s.logFile.m_fp = none then some { s with crashed := true } else none

/-- What the next step of the backend does to the file. -/
def file (a : LogAppend) : Option LogSystem :=
  match s.log.block with
  | some data => s.write data a
  | none =>
    if s.log.ends ∧ s.logFile.m_fp = none then some { s with crashed := true }
    else some (if s.log.flushes then { s with logFile := s.logFile.flush } else s)

/-- The next step of the backend. -/
def backend (a : LogAppend) : Option LogSystem :=
  (s.file a).bind fun s' =>
    if s'.crashed then some s'
    else (s.log.step .backend).map fun log =>
      { s' with log := log, taken := if s.log.swaps then s.log.appended.length else s.taken }

/-- One step of the running process. -/
def act : LogSystemStep → Option LogSystem
  | .setLogLevel level => some { s with g_logLevel := level }
  | .statement thread c => s.statement thread c
  | .backend a => s.backend a
  | .stop => (s.log.step .stop).map fun log => { s with log := log }

/-- One step. -/
def step (a : LogSystemStep) : Option LogSystem := if s.crashed then none else s.act a

/-- The records that a run is to leave in the log: those of the statements whose level is on. -/
def records : Logger.LogLevel → List LogSystemStep → List Bytes
  | _, [] => []
  | _, .setLogLevel level :: steps => records level steps
  | level, .statement _ c :: steps =>
    if level.isLogged c.level then (c.record.getD []) :: records level steps else records level steps
  | level, .backend _ :: steps | level, .stop :: steps => records level steps

end LogSystem

end MyMuduo
