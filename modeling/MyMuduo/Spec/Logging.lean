import MyMuduo.Lib.Run
import MyMuduo.Spec.LogStream
import MyMuduo.Spec.Timestamp

/-!
# The logger (`Logging/logging.h`, `Logging/logging.cpp`)

A log statement builds a `Logger::Impl`, inserts its items into the stream and destroys it;
the destructor hands the record to the output function. The readings of the clocks and the
hash of the thread id are inputs. `recordText` says what a record is to be.
-/

namespace MyMuduo

open Lib

namespace Logger

inductive LogLevel where
  | DEBUG | INFO | WARN | ERROR
  deriving DecidableEq, Repr

/-- `SourceFile(filename)`: its `m_data`. -/
def SourceFile (filename : Bytes) : Bytes :=
  ((filename.take (strlen filename)).reverse.takeWhile (· ≠ 47)).reverse

structure Impl where
  m_stream : LogStream
  m_level : LogLevel
  m_line : BitVec 32
  /-- the hash of the thread id -/
  m_tid : BitVec 64
  m_lastSecond : ℤ
  m_basename : Bytes

namespace Impl

variable (s : Impl)

/-- `m_stream << …` -/
def insert (items : List Insertion) : Option Impl :=
  (run RawBuffer.insert s.m_stream items).map fun stream => { s with m_stream := stream }

def getLogLevel : Bytes :=
  match s.m_level with
  | .DEBUG => ascii "DEBUG"
  | .INFO => ascii "INFO"
  | .WARN => ascii "WARN"
  | .ERROR => ascii "ERROR"

/-- The insertions of the time in `formatTime()`. -/
def clockItems (now : ℕ) : List Insertion :=
  let microseconds := Timestamp.microsecondsSinceEpoch now % 10 ^ 6
  [.string (Timestamp.toDefaultLogString now), .cstr (some (ascii ".")),
    .integer .int (BitVec.ofNat 32 microseconds)]

/-- The insertions of the thread and the level in `formatTime()`. -/
def threadItems : List Insertion :=
  [.cstr (some (ascii " ")), .string (to_string s.m_tid.toNat), .cstr (some (ascii " ")),
    .cstr (some s.getLogLevel), .cstr (some (ascii " "))]

def formatTime (now : ℕ) : Option Impl :=
  let seconds : ℕ := Timestamp.microsecondsSinceEpoch now / 10 ^ 6
  { s with m_lastSecond := seconds }.insert (clockItems now ++ s.threadItems)

/-- What `finish()` inserts. -/
def finishItems : List Insertion :=
  [.cstr (some (ascii " - ")), .cstr (some s.m_basename), .char 58, .integer .int s.m_line, .char 10]

def finish : Option Impl := s.insert s.finishItems

/-- `~Impl()`: what it hands to `g_output`, and whether it calls `g_flush`. -/
def destroy : Option (Bytes × Bool) :=
  s.finish.map fun s => (s.m_stream.text, s.m_level = .ERROR)

end Impl

/-- A log statement: its place, its level, its thread, the reading of the system clock and that
of `formatTime`, the bytes that its stream finds in memory, and the items inserted. -/
structure Statement where
  filename : Bytes
  line : BitVec 32
  level : LogLevel
  tid : BitVec 64
  lastSecond : ℤ
  now : ℕ
  m_data : ℕ → UInt8
  items : List Insertion

namespace Statement

variable (c : Statement)

/-- The members before `formatTime()`. -/
def impl : Impl where
  m_stream := .new c.m_data
  m_level := c.level
  m_line := c.line
  m_tid := c.tid
  m_lastSecond := c.lastSecond
  m_basename := SourceFile c.filename

/-- `Impl(file, line, level)`. -/
def construct : Option Impl := c.impl.formatTime c.now

/-- The record that the destructor hands to the output function. -/
def record : Option Bytes :=
  (c.construct.bind fun s => (s.insert c.items).bind Impl.destroy).map Prod.fst

/-! ## What a record is to be -/

/-- The text of the time. -/
def timeText (now : ℕ) : Bytes := (Impl.clockItems now).flatMap Insertion.text

/-- Time, thread and level. -/
def prefixText : Bytes := timeText c.now ++ c.impl.threadItems.flatMap Insertion.text

/-- The prefix and the items, then `" - "`, the base name, `':'`, the line and one newline. -/
def recordText : Bytes :=
  c.prefixText ++ c.items.flatMap Insertion.text ++ ascii " - " ++ c.impl.m_basename ++ [58] ++
    decimal c.line.toInt ++ [10]

end Statement

/-- A log cut behind every newline. -/
def splitLines : Bytes → List Bytes
  | [] => []
  | b :: bs =>
    if b = 10 then [b] :: splitLines bs
    else match splitLines bs with
      | [] => [[b]]
      | line :: lines => (b :: line) :: lines

end Logger

end MyMuduo
