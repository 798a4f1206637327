import MyMuduo.Spec.Timestamp

/-!
# The log file (`Logging/logfile.h`, `Logging/logfile.cpp`)

What `fwrite_unlocked` and `fopen` return, the readings of the clock and the hash of the thread id are
inputs. A result counts the bytes that a call wrote, the bytes asked for at most. Every file
that was opened is kept with the bytes written to it since then. No result of `fopen` is tested behind
the constructor, so `m_fp` may be `NULL`; `fflush` takes that, `fwrite_unlocked` and `fclose` do not.
-/

namespace MyMuduo

open Lib

/-- `getLogFileName(basename, now)`. -/
def getLogFileName (basename : Bytes) (now tid : ℕ) : Bytes :=
  ascii "./log/" ++ (basename ++ ascii " ") ++ (Timestamp.toDefaultLogString now ++ ascii " ") ++
    to_string tid ++ ascii ".log"

/-- The loop of `append`, from call number `i` on at `pos`, with `fuel` calls at most: all bytes
written, `none` if it is not done by then. -/
def writeLoop (data : Bytes) (results : ℕ → ℕ) : (fuel i pos : ℕ) → (out : Bytes) → Option Bytes
  | 0, _, pos, out => if pos = data.length then some out else none
  | fuel + 1, i, pos, out =>
    if pos = data.length then some out
    else
      let written := min (results i) (data.length - pos)
      writeLoop data results fuel (i + 1) (pos + written) (out ++ (data.drop pos).take written)

structure LogFile where
  /-- the name of the file behind `m_fp`, `none` for `NULL` -/
  m_fp : Option Bytes
  /-- the bytes written to it since it was opened -/
  current : Bytes
  /-- how many of them were flushed -/
  flushed : ℕ
  /-- the files closed before, each with its name -/
  closed : List (Bytes × Bytes)
  m_writtenBytes : ℕ
  m_lastRoll : ℕ
  m_lastFlush : ℕ
  m_rollSize : ℤ
  /-- in microseconds -/
  m_flushInterval : ℤ
  m_basename : Bytes
  deriving DecidableEq, Repr

/-- A call `append(data, len)`: the results of its writes and how many of them there are, its
reading of the clock and that of `rollFile`, whether the `fopen` there opens a file, and the thread. -/
structure LogAppend where
  data : Bytes
  results : ℕ → ℕ
  calls : ℕ
  now : ℕ
  rollNow : ℕ
  opens : Bool
  tid : ℕ

namespace LogFile

/-- `LogFile(basename, rollSize, flushInterval)`; `opens` and `opensDefault` tell whether its two calls
of `fopen` do. `m_basename` is not set. -/
def new (basename : Bytes) (rollSize flushInterval : ℤ) (opens opensDefault : Bool) (now tid : ℕ) :
    LogFile where
  m_fp := if opens then some basename else if opensDefault then some (getLogFileName [] now tid) else none
  current := []
  flushed := 0
  closed := []
  m_writtenBytes := 0
  m_lastRoll := 0
  m_lastFlush := 0
  m_rollSize := rollSize
  -- a product of two `int`s, which wraps from 2148 seconds on
  m_flushInterval := (flushInterval * Timestamp.kMicroSecondsPerSecond).bmod (2 ^ 32)
  m_basename := []

variable (s : LogFile)

def flush : LogFile := { s with flushed := s.current.length }

/-- `rollFile`, `none` where `fclose` gets `NULL`. -/
def rollFile (now tid : ℕ) (opens : Bool) : Option LogFile :=
  s.m_fp.map fun name =>
    { s with
      closed := s.closed ++ [(name, s.current)]
      m_fp := if opens then some (getLogFileName s.m_basename now tid) else none
      current := []
      flushed := 0
      m_writtenBytes := 0
      m_lastRoll := now }

/-- `append` behind its loop, which wrote `out`. -/
def account (out : Bytes) (a : LogAppend) : Option LogFile :=
  let s := { s with current := s.current ++ out }
  let s := if a.data.length ≠ 0 then { s with m_writtenBytes := s.m_writtenBytes + a.data.length }
    else s
  if s.m_flushInterval < Timestamp.timeDifference a.now s.m_lastFlush then
    some { s.flush with m_lastFlush := a.now }
  else if s.m_rollSize < s.m_writtenBytes then s.rollFile a.rollNow a.tid a.opens
  else some s

/-- `append(data, len)`, `none` if it does not return: its loop is not done after the calls, or a
function gets `NULL` that needs a file. -/
def append (a : LogAppend) : Option LogFile :=
  if s.m_fp = none ∧ a.data ≠ [] then none
  else (writeLoop a.data a.results a.calls 0 0 []).bind fun out => s.account out a

end LogFile

end MyMuduo
