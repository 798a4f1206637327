import MyMuduo.Spec.HttpRequest

/-!
# Well-formed requests

What a request without a body looks like on the wire, and the fields it carries: a request
line, header lines, and a blank line. Nothing here refers to the parser.

A `RequestLine` is `METHOD SP target SP version` with a target free of spaces; a `Header`
is a field free of colons, a colon, and the rest of the line. The field of a header may be
given several times: the last value counts.

`Request.mustClose` is HTTP's rule for the connection behind a request, on its `Connection` lines in any
spelling.

A `PostPair` is a key and a value of a form, which is such pairs, separated by `&`; a `FormPair` is
one without the bytes that end a line: the body of a POST is a line.
-/

namespace MyMuduo

open Lib

/-- The name of a method on the wire. -/
def Method.name : Method → Bytes
  | kGet => ascii "GET"
  | kPost => ascii "POST"
  | kHead => ascii "HEAD"
  | kPut => ascii "PUT"
  | kDelete => ascii "DELETE"
  | kTrace => ascii "TRACE"
  | kOptions => ascii "OPTIONS"
  | kConnect => ascii "CONNECT"
  | kPatch => ascii "PATCH"
  | kInvalid => []

/-- The name of a version on the wire. -/
def Version.name : Version → Bytes
  | kHttp10 => ascii "HTTP/1.0"
  | kHttp11 => ascii "HTTP/1.1"
  | kInvalid => []

structure RequestLine where
  method : Method
  target : Bytes
  version : Version
  /-- the version as it is spelled -/
  spelling : Bytes
  method_valid : method ≠ .kInvalid
  target_valid : 32 ∉ target
  version_valid : version ≠ .kInvalid
  spelling_valid : spelling.map toLower = version.name.map toLower

namespace RequestLine

/-- The line as it is sent. -/
def text (l : RequestLine) : Bytes := l.method.name ++ 32 :: l.target ++ 32 :: l.spelling

/-- The target up to its first `?`. -/
def path (l : RequestLine) : Bytes := l.target.takeWhile (· ≠ 63)

/-- What follows the first `?` of the target. -/
def query (l : RequestLine) : Bytes := (l.target.dropWhile (· ≠ 63)).tail

end RequestLine

structure Header where
  field : Bytes
  /-- everything behind the colon -/
  rest : Bytes
  field_valid : 58 ∉ field

namespace Header

/-- The line as it is sent. -/
def text (h : Header) : Bytes := h.field ++ 58 :: h.rest

/-- The value: surrounding white space does not count. -/
def value (h : Header) : Bytes := HttpRequest.trim h.rest

end Header

/-- A request without a body. -/
structure Request where
  line : RequestLine
  headers : List Header
  line_isLine : IsLine line.text
  headers_isLine : ∀ h ∈ headers, IsLine h.text

namespace Request

variable (r : Request)

/-- Its lines, the blank one included. -/
def lines : List Bytes := r.line.text :: r.headers.map Header.text ++ [[]]

/-- Its bytes. -/
def encode : Bytes := encodeLines r.lines

/-- The last value given for a field. -/
def headerValue (field : Bytes) : Option Bytes :=
  (r.headers.reverse.find? (·.field = field)).map Header.value

/-- The fields it carries. -/
def denote : HttpRequest where
  m_method := r.line.method
  m_version := r.line.version
  m_path := r.line.path
  m_query := r.line.query
  m_headers := r.headerValue
  m_post := fun _ => none

end Request

/-- A name or a value as HTTP compares it: neither letter case nor the white space around it
counts. -/
def folded (s : Bytes) : Bytes := (HttpRequest.trim s).map toLower

namespace Request

variable (r : Request)

/-- A line gives this value to this field, in some spelling. -/
def asks (field value : Bytes) : Prop :=
  ∃ h ∈ r.headers, folded h.field = folded field ∧ folded h.rest = folded value

/-- A line gives this value to this field in just this spelling. -/
def spells (field value : Bytes) : Prop := ∃ h ∈ r.headers, h.field = field ∧ h.value = value

instance (field value : Bytes) : Decidable (r.asks field value) :=
  inferInstanceAs (Decidable (∃ h ∈ r.headers, _))

instance (field value : Bytes) : Decidable (r.spells field value) :=
  inferInstanceAs (Decidable (∃ h ∈ r.headers, _))

/-- HTTP's rule: an HTTP/1.1 connection stays open unless the request says otherwise, an HTTP/1.0
connection stays open only if it says so. -/
def mustClose : Prop :=
  if r.line.version = .kHttp11 then r.asks (ascii "Connection") (ascii "close")
  else ¬r.asks (ascii "Connection") (ascii "keep-alive")

instance : Decidable r.mustClose :=
  inferInstanceAs (Decidable (if r.line.version = .kHttp11 then _ else _))

end Request

/-- The bytes that separate the parts of a form. -/
def postSeparators : List UInt8 := [61, 38]

/-- A key and a value that a form can carry. -/
structure PostPair where
  key : Bytes
  value : Bytes
  key_valid : ∀ b ∈ key, b ∉ postSeparators
  value_valid : ∀ b ∈ value, b ∉ postSeparators

namespace PostPair

def text (x : PostPair) : Bytes := x.key ++ 61 :: x.value

def form : List PostPair → Bytes
  | [] => []
  | [x] => x.text
  | x :: y :: xs => x.text ++ 38 :: form (y :: xs)

/-- The last value given for a key. -/
def lastValue (xs : List PostPair) (key : Bytes) : Option Bytes :=
  (xs.reverse.find? (·.key = key)).map value

end PostPair

/-- A pair of a form that is one line. -/
structure FormPair extends PostPair where
  key_line : ∀ b ∈ key, b ∉ CRLF
  value_line : ∀ b ∈ value, b ∉ CRLF

namespace FormPair

/-- A form as it is sent. -/
def form (xs : List FormPair) : Bytes := PostPair.form (xs.map toPostPair)

def lastValue (xs : List FormPair) : Bytes → Option Bytes := PostPair.lastValue (xs.map toPostPair)

end FormPair

end MyMuduo
