import MyMuduo.Spec.HttpRequest

/-!
# HTTP responses (`Http/httpresponse.h`, `Http/httpresponse.cpp`)

`appendToBuffer` and the bytes it appends. Below stands what a client makes of such bytes: it cuts
them at the first blank line and reads the status line and the headers; what follows is the body, up
to the end of the connection or as long as the `Content-length` says.
-/

namespace MyMuduo

open Lib

/-- `HttpStatusCode`. -/
inductive HttpStatusCode where
  | k100Continue | k200OK | k400BadRequest | k403Forbidden | k404NotFound | k500InternalServerErrno
  deriving DecidableEq, Repr

/-- The value of the enumerator. -/
def HttpStatusCode.toNat : HttpStatusCode → ℕ
  | k100Continue => 100
  | k200OK => 200
  | k400BadRequest => 400
  | k403Forbidden => 403
  | k404NotFound => 404
  | k500InternalServerErrno => 500

/-- `std::to_string` of a number. -/
def to_string (n : ℕ) : Bytes := (Nat.toDigits 10 n).map fun c => UInt8.ofNat c.toNat

structure HttpResponse where
  m_status_code : HttpStatusCode
  m_status_message : Bytes
  m_body : Bytes
  m_type : Bytes
  m_close_connection : Bool
  deriving DecidableEq, Repr

namespace HttpResponse

/-- `HttpResponse(close)`. -/
def new (close : Bool) : HttpResponse := ⟨.k200OK, [], [], ascii "text/html", close⟩

def m_server_name : Bytes := ascii "Ymirth server"

/-- The strings `appendToBuffer` appends, in order. -/
def pieces (r : HttpResponse) : List Bytes :=
  [ascii "HTTP/1.1 " ++ to_string r.m_status_code.toNat ++ ascii " " ++ r.m_status_message ++ CRLF] ++
    (if r.m_close_connection then [ascii "Connection: close" ++ CRLF]
      else [ascii "Content-length: " ++ to_string r.m_body.length ++ CRLF,
        ascii "Connection: Keep-Alive" ++ CRLF]) ++
    [ascii "Content-type: " ++ r.m_type ++ CRLF, ascii "Server: " ++ m_server_name ++ CRLF, CRLF,
      r.m_body]

def appendToBuffer {Q : Type} [ByteQueue Q] (r : HttpResponse) (buffer : Q) : Q :=
  r.pieces.foldl ByteQueue.append buffer

/-- The bytes of the response. -/
def bytes (r : HttpResponse) : Bytes := r.pieces.flatten

/-- The status line and the header lines of the response. -/
def headLines (r : HttpResponse) : List Bytes :=
  [ascii "HTTP/1.1 " ++ to_string r.m_status_code.toNat ++ ascii " " ++ r.m_status_message] ++
    (if r.m_close_connection then [ascii "Connection: close"]
      else [ascii "Content-length: " ++ to_string r.m_body.length, ascii "Connection: Keep-Alive"]) ++
    [ascii "Content-type: " ++ r.m_type, ascii "Server: " ++ m_server_name]

end HttpResponse

/-! ## Reading a response -/

/-- What follows `name` in a line that starts with it. -/
def after (name l : Bytes) : Option Bytes :=
  if l.take name.length = name then some (l.drop name.length) else none

/-- The number that some digits stand for. -/
def readNat (digits : Bytes) : ℕ := Nat.ofDigitChars 10 (digits.map fun b => Char.ofNat b.toNat) 0

def HttpStatusCode.all : List HttpStatusCode :=
  [k100Continue, k200OK, k400BadRequest, k403Forbidden, k404NotFound, k500InternalServerErrno]

/-- The code and the message of a status line. -/
def readStatus (l : Bytes) : Option (HttpStatusCode × Bytes) := do
  let rest ← after (ascii "HTTP/1.1 ") l
  let (digits, message) ← splitAtByte 32 rest
  let code ← HttpStatusCode.all.find? (·.toNat = readNat digits)
  return (code, message)

/-- The value of the first header of the given name. -/
def readHeader (name : Bytes) (headers : List Bytes) : Option Bytes :=
  headers.findSome? (after (name ++ ascii ": "))

/-- The fields in the head of a response. -/
structure ResponseHead where
  code : HttpStatusCode
  message : Bytes
  type : Bytes
  close : Bool
  length : Option ℕ
  deriving DecidableEq, Repr

def readHead (ls : List Bytes) : Option ResponseHead := do
  let (code, message) ← readStatus (← ls.head?)
  let type ← readHeader (ascii "Content-type") ls.tail
  let connection ← readHeader (ascii "Connection") ls.tail
  let length := (readHeader (ascii "Content-length") ls.tail).map readNat
  return ⟨code, message, type, connection = ascii "close", length⟩

/-- The head of what starts with a response, and what follows its blank line. -/
def readResponse (s : Bytes) : Option (ResponseHead × Bytes) := do
  let (head, rest) ← cutBlank s
  return (← readHead (lines (head ++ CRLF)), rest)

/-- A response that lasts up to the end of the connection. -/
def decode (s : Bytes) : Option HttpResponse := do
  let (head, rest) ← readResponse s
  return ⟨head.code, head.message, rest, head.type, head.close⟩

/-- A response as long as it says, and what follows it. -/
def takeResponse (s : Bytes) : Option (HttpResponse × Bytes) := do
  let (head, rest) ← readResponse s
  let n ← head.length
  return (⟨head.code, head.message, rest.take n, head.type, head.close⟩, rest.drop n)

/-- Responses one after the other; the number of bytes bounds how many there are. -/
def splitResponses : ℕ → Bytes → Option (List HttpResponse)
  | _, [] => some []
  | 0, _ :: _ => none
  | n + 1, s => do
    let (r, rest) ← takeResponse s
    return r :: (← splitResponses n rest)

end MyMuduo
