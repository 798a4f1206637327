import MyMuduo.Lib.ByteQueue
import MyMuduo.Lib.Lines
import MyMuduo.Lib.Memory
import MyMuduo.Lib.Numerals

/-!
# Fixed buffers and the log stream (`Logging/logstream.h`)

A `FixedBuffer` is the text between the start of its block and `m_cur`. Lengths that the
source casts to `int` go through the cast.

A `RawBuffer` is the same buffer with its memory: the bytes from the start of `m_data` on,
also those behind its end, and one past the last byte that was ever written. The insertions
of `LogStream` work on it; those of floating-point numbers are left out. `insertText` says
what an insertion is for.
-/

namespace MyMuduo

open Lib

def kLargeBuffer : ℕ := 4096 * 1000

/-- `static_cast<int>` of a size: its low 32 bits in two's complement. -/
def castInt (n : ℕ) : ℤ := (BitVec.ofNat 32 n).toInt

structure FixedBuffer (SIZE : ℕ) where
  /-- the bytes of the block in front of `m_cur` -/
  m_data : Bytes
  deriving DecidableEq, Repr

namespace FixedBuffer

variable {SIZE : ℕ} (b : FixedBuffer SIZE)

/-- `FixedBuffer()`. -/
def new : FixedBuffer SIZE := ⟨[]⟩

def avail : ℤ := SIZE - b.m_data.length

def reset (_ : FixedBuffer SIZE) : FixedBuffer SIZE := ⟨[]⟩

/-- `append(buf, len)` with `len` the length of `buf`. -/
def append (buf : Bytes) : FixedBuffer SIZE :=
  if castInt buf.length < b.avail then ⟨b.m_data ++ buf⟩ else b

end FixedBuffer

/-! ## The buffer in memory -/

def kSmallBuffer : ℕ := 4096

def kMaxNumericSize : ℤ := 48

def digits : Bytes := ascii "9876543210123456789"

/-- `zero[remainder]`, where `zero` points to the `0` in the middle of `digits`. -/
def zero (remainder : ℤ) : UInt8 := digits.getD (9 + remainder).toNat 0

@[ext] structure RawBuffer (SIZE : ℕ) where
  m_data : ℕ → UInt8
  m_cur : ℕ
  /-- one past the last byte written -/
  top : ℕ

namespace RawBuffer

variable {SIZE : ℕ}

/-- `FixedBuffer()`: the bytes of the block are whatever they were. -/
def new (m_data : ℕ → UInt8) : RawBuffer SIZE := ⟨m_data, 0, 0⟩

variable (b : RawBuffer SIZE)

def len : ℤ := castInt b.m_cur

/-- The cast is of the difference of two pointers. -/
def avail : ℤ := (BitVec.ofInt 32 (SIZE - b.m_cur)).toInt

def add (len : ℕ) : RawBuffer SIZE := { b with m_cur := b.m_cur + len }

/-- The bytes stored from index `i` on. -/
def store (i : ℕ) (bytes : Bytes) : RawBuffer SIZE :=
  { b with
    m_data := Memory.write b.m_data i bytes
    top := if bytes = [] then b.top else max b.top (i + bytes.length) }

/-- `append(buf, len)` with `len` the length of `buf`. -/
def append (buf : Bytes) : RawBuffer SIZE :=
  if castInt buf.length < b.avail then (b.store b.m_cur buf).add buf.length else b

/-- `std::reverse(first, last)`. -/
def reverse (first last : ℕ) : RawBuffer SIZE :=
  b.store first (Memory.slice b.m_data first (last - first)).reverse

/-- The text in the buffer, as `toString()` returns it. -/
def text : Bytes := Memory.slice b.m_data 0 b.m_cur

end RawBuffer

/-! ## Insertions -/

/-- The types `formatInteger` is called with. -/
inductive IntType where
  | int | unsignedInt | long | unsignedLong | longLong | unsignedLongLong
  deriving DecidableEq, Repr

namespace IntType

def width : IntType → ℕ
  | int | unsignedInt => 32
  | long | unsignedLong | longLong | unsignedLongLong => 64

def isSigned : IntType → Bool
  | int | long | longLong => true
  | unsignedInt | unsignedLong | unsignedLongLong => false

variable (T : IntType)

/-- The number a value stands for. -/
def value (num : BitVec T.width) : ℤ := if T.isSigned then num.toInt else num.toNat

/-- `num < 0`. -/
def isNegative (num : BitVec T.width) : Bool := T.isSigned && num.slt 0#T.width

/-- `static_cast<int>(num % 10)`. -/
def remainder (num : BitVec T.width) : ℤ :=
  if T.isSigned then (num.srem (BitVec.ofNat T.width 10)).toInt
  else (num % BitVec.ofNat T.width 10).toNat

/-- `num / 10`. -/
def quotient (num : BitVec T.width) : BitVec T.width :=
  if T.isSigned then num.sdiv (BitVec.ofNat T.width 10) else num / BitVec.ofNat T.width 10

end IntType

/-- What `snprintf` writes for `%p`: 24 characters at most. -/
abbrev PointerText := { text : Bytes // text.length ≤ 24 }

/-- A call of an `operator<<` of `LogStream`. -/
inductive Insertion where
  | bool (v : Bool)
  | short (num : BitVec 16)
  | unsignedShort (num : BitVec 16)
  | integer (T : IntType) (num : BitVec T.width)
  /-- `char` and `unsigned char` have no overload of their own -/
  | char (c : BitVec 8)
  | unsignedChar (c : BitVec 8)
  /-- the bytes from where the pointer points; the string ends before the first NUL -/
  | cstr (str : Option Bytes)
  | string (str : Bytes)
  | pointer (text : PointerText)

def strlen (str : Bytes) : ℕ := (str.takeWhile (· ≠ 0)).length

namespace RawBuffer

variable {SIZE : ℕ} (b : RawBuffer SIZE)

/-- The loop of `formatInteger(num)`, from `now` on, `none` if it is not done after `fuel`
rounds: the buffer and `now` behind the loop. -/
def digitLoop (T : IntType) : (fuel : ℕ) → RawBuffer SIZE → (now : ℕ) → BitVec T.width →
    Option (RawBuffer SIZE × ℕ)
  | 0, _, _, _ => none
  | fuel + 1, b, now, num =>
    let b := b.store now [zero (T.remainder num)]
    if T.quotient num = 0#T.width then some (b, now + 1)
    else digitLoop T fuel b (now + 1) (T.quotient num)

/-- `if (negative) *(now++) = '-'`. -/
def putSign (negative : Bool) (r : RawBuffer SIZE × ℕ) : RawBuffer SIZE × ℕ :=
  if negative then (r.1.store r.2 (ascii "-"), r.2 + 1) else r

/-- The end of `formatInteger`, from `*now = '\0'` on; `buf` is where it began. -/
def finishInteger (buf : ℕ) (r : RawBuffer SIZE × ℕ) : RawBuffer SIZE :=
  ((r.1.store r.2 [0]).reverse buf r.2).add (castInt (r.2 - buf)).toNat

/-- `formatInteger(num)`, its loop with `fuel` rounds at most. -/
def formatInteger (fuel : ℕ) (T : IntType) (num : BitVec T.width) : Option (RawBuffer SIZE) :=
  if kMaxNumericSize ≤ b.avail then
    (digitLoop T fuel b b.m_cur num).map fun r =>
      finishInteger b.m_cur (putSign (T.isNegative num) r)
  else some b

/-- `operator<<(const void *data)`. -/
def formatPointer (text : PointerText) : RawBuffer SIZE :=
  if kMaxNumericSize ≤ b.avail then
    ((b.store b.m_cur (ascii "0x")).store (b.m_cur + 2) (text.1 ++ [0])).add (text.1.length + 2)
  else b

/-- One insertion. A number has fewer digits than bits. -/
def insert (b : RawBuffer SIZE) : Insertion → Option (RawBuffer SIZE)
  | .bool v => some (b.append (ascii (if v then "1" else "0")))
  | .short num => b.formatInteger 32 .int (num.signExtend 32)
  | .unsignedShort num => b.formatInteger 32 .unsignedInt (num.zeroExtend 32)
  | .integer T num => b.formatInteger T.width T num
  | .char c => b.formatInteger 32 .int (c.signExtend 32)
  | .unsignedChar c => b.formatInteger 32 .int (c.zeroExtend 32)
  | .cstr (some str) => some (b.append (str.take (strlen str)))
  | .cstr none => some (b.append (ascii "(null)"))
  | .string str => some (b.append str)
  | .pointer text => some (b.formatPointer text)

end RawBuffer

/-- `LogStream`. -/
abbrev LogStream := RawBuffer kSmallBuffer

/-! ## What insertions are for -/

namespace Insertion

/-- The whole text of an insertion. -/
def text : Insertion → Bytes
  | bool v => ascii (if v then "1" else "0")
  | short num => decimal num.toInt
  | unsignedShort num => decimal num.toNat
  | integer T num => decimal (T.value num)
  | char c => decimal c.toInt
  | unsignedChar c => decimal c.toNat
  | cstr (some str) => str.takeWhile (· ≠ 0)
  | cstr none => ascii "(null)"
  | string str => str
  | pointer text => ascii "0x" ++ text.1

/-- The free bytes an insertion asks for. -/
def need (i : Insertion) : ℕ :=
  match i with
  | bool _ | cstr _ | string _ => i.text.length + 1
  | short _ | unsignedShort _ | integer _ _ | char _ | unsignedChar _ | pointer _ => 48

end Insertion

/-- The text after an insertion: the whole text of the insertion is added, or nothing. -/
def insertText (SIZE : ℕ) (text : Bytes) (i : Insertion) : Bytes :=
  if text.length + i.need ≤ SIZE then text ++ i.text else text

end MyMuduo
