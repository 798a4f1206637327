import MyMuduo.Lib.Lines
import Mathlib.Data.List.DropRight

/-!
# HTTP requests (`Http/httprequest.h`, `Http/httprequest.cpp`)

`HttpRequest` with the routines that fill it in from one line: `parseRequestLine`,
`addHeader`, and `parseRequestBody` for the body of a POST. They mutate the request as
they go, so a line that is rejected half way leaves its mark; each returns the new
request together with the verdict.

A range `[start, end)` of the source is the list of its bytes. A `std::map` is the
function it denotes.
-/

namespace MyMuduo

open Lib

/-- `HttpRequest::Method`. -/
inductive Method where
  | kGet | kPost | kHead | kPut | kDelete | kTrace | kOptions | kConnect | kPatch | kInvalid
  deriving DecidableEq, Repr

/-- `HttpRequest::Version`. -/
inductive Version where
  | kHttp10 | kHttp11 | kInvalid
  deriving DecidableEq, Repr

structure HttpRequest where
  m_method : Method
  m_version : Version
  m_path : Bytes
  m_query : Bytes
  m_headers : Bytes → Option Bytes
  m_post : Bytes → Option Bytes

/-- The lambda `stringToMethod` of `setMethod`. -/
def stringToMethod (s : Bytes) : Method :=
  if s = ascii "GET" then .kGet
  else if s = ascii "POST" then .kPost
  else if s = ascii "HEAD" then .kHead
  else if s = ascii "PUT" then .kPut
  else if s = ascii "DELETE" then .kDelete
  else if s = ascii "TRACE" then .kTrace
  else if s = ascii "OPTIONS" then .kOptions
  else if s = ascii "CONNECT" then .kConnect
  else if s = ascii "PATCH" then .kPatch
  else .kInvalid

/-- `std::find` for a byte: what stands before it and what stands behind it. -/
def splitAtByte (c : UInt8) (s : Bytes) : Option (Bytes × Bytes) :=
  match s.dropWhile (· ≠ c) with
  | [] => none
  | _ :: rest => some (s.takeWhile (· ≠ c), rest)

/-- ASCII `tolower`. -/
def toLower (b : UInt8) : UInt8 := if 65 ≤ b ∧ b ≤ 90 then b + 32 else b

/-- `isspace` in the C locale. -/
def isspace (b : UInt8) : Bool := b = 32 || (9 ≤ b && b ≤ 13)

/-- The two `strncasecmp` tests on a version of eight bytes. -/
def versionOf (s : Bytes) : Option Version :=
  if s.length ≠ 8 then none
  else if s.map toLower = (ascii "HTTP/1.1").map toLower then some .kHttp11
  else if s.map toLower = (ascii "HTTP/1.0").map toLower then some .kHttp10
  else none

namespace HttpRequest

/-- `HttpRequest()`. -/
def new : HttpRequest := ⟨.kInvalid, .kInvalid, [], [], fun _ => none, fun _ => none⟩

/-- `header(field)`. Where the field is absent the source hands out a reference to its
empty local string; the value is that empty string. -/
def header (r : HttpRequest) (field : Bytes) : Bytes := (r.m_headers field).getD []

def parseRequestLine (r : HttpRequest) (line : Bytes) : Bool × HttpRequest :=
  match splitAtByte 32 line with
  | none => (false, r)
  | some (method, rest) =>
    let r := { r with m_method := stringToMethod method }
    if r.m_method = .kInvalid then (false, r)
    else match splitAtByte 32 rest with
      | none => (false, r)
      | some (target, version) =>
        let r := match splitAtByte 63 target with
          | some (path, query) => { r with m_path := path, m_query := query }
          | none => { r with m_path := target }
        match versionOf version with
        | some v => (true, { r with m_version := v })
        | none => (false, r)

/-- The value of a header, from the bytes behind its colon. -/
def trim (s : Bytes) : Bytes := (s.dropWhile isspace).rdropWhile isspace

def addHeader (r : HttpRequest) (field value : Bytes) : HttpRequest :=
  { r with m_headers := Function.update r.m_headers field (some (trim value)) }

/-- One `regex_search` for `([^=&]*)=([^=&]*)`: the leftmost, greedy match, as its two
groups and the suffix. -/
def searchPair : Bytes → Option (Bytes × Bytes × Bytes)
  | [] => none
  | b :: s =>
    let sep (c : UInt8) : Bool := c = 61 || c = 38
    let key := (b :: s).takeWhile fun c => !sep c
    if (b :: s)[key.length]? = some 61 then
      let rest := (b :: s).drop (key.length + 1)
      some (key, rest.takeWhile fun c => !sep c, rest.dropWhile fun c => !sep c)
    else searchPair s

/-- The loop of `parsePost`; a match consumes a byte, so the length bounds its rounds. -/
def parsePostLoop : ℕ → (Bytes → Option Bytes) → Bytes → (Bytes → Option Bytes)
  | 0, post, _ => post
  | n + 1, post, body =>
    match searchPair body with
    | none => post
    | some (key, value, suffix) => parsePostLoop n (Function.update post key (some value)) suffix

def parsePost (r : HttpRequest) (body : Bytes) : Bool × HttpRequest :=
  (true, { r with m_post := parsePostLoop body.length r.m_post body })

def parseRequestBody (r : HttpRequest) (body : Bytes) : Bool × HttpRequest :=
  if r.m_method = .kPost then r.parsePost body else (true, r)

/-- `swap`: the post fields are not among the members it exchanges. -/
def swap (r that : HttpRequest) : HttpRequest × HttpRequest :=
  ({ that with m_post := r.m_post }, { r with m_post := that.m_post })

end HttpRequest

end MyMuduo
