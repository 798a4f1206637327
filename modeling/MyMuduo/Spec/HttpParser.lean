import MyMuduo.Spec.Buffer
import MyMuduo.Spec.HttpRequest

/-!
# The request parser (`Http/httprequestparser.h`, `Http/httprequestparser.cpp`)

`parseContent` takes one line after the other out of the buffer and hands it to the
routine of its state. It stops when no complete line is left, on an error, or at the end
of a body, and leaves its state for the next call.

The parser runs on any byte queue: on `Buffer`, or on the queue a `Buffer` is meant to be.
-/

namespace MyMuduo

open Lib

/-- `HttpRequestParseState`. -/
inductive HttpRequestParseState where
  | kParseRequestLine | kParseHeader | kParseBody | kParseGotCompleteRequest | kParseErrno
  deriving DecidableEq, Repr

structure HttpRequestParser where
  m_request : HttpRequest
  m_state : HttpRequestParseState

namespace HttpRequestParser

/-- `HttpRequestParser()`. -/
def new : HttpRequestParser := ⟨.new, .kParseRequestLine⟩

/-- `reset()`: a temporary is swapped with the request. -/
def reset (p : HttpRequestParser) : HttpRequestParser :=
  ⟨(HttpRequest.new.swap p.m_request).2, .kParseRequestLine⟩

def gotAll (p : HttpRequestParser) : Bool := p.m_state = .kParseGotCompleteRequest

/-- The `switch` of `parseContent` on one line: the parser afterwards, and whether the
branch returns. -/
def onLine (p : HttpRequestParser) (line : Bytes) : HttpRequestParser × Bool :=
  match p.m_state with
  | .kParseRequestLine =>
    match p.m_request.parseRequestLine line with
    | (true, r) => (⟨r, .kParseHeader⟩, false)
    | (false, r) => (⟨r, .kParseErrno⟩, true)
  | .kParseHeader =>
    if line = [] then (⟨p.m_request, .kParseGotCompleteRequest⟩, false)
    else match splitAtByte 58 line with
      | some (field, value) => (⟨p.m_request.addHeader field value, .kParseHeader⟩, false)
      | none => (⟨p.m_request, .kParseErrno⟩, true)
  | .kParseBody =>
    if line = [] then (⟨p.m_request, .kParseGotCompleteRequest⟩, true)
    else match p.m_request.parseRequestBody line with
      | (true, r) => (⟨r, .kParseGotCompleteRequest⟩, true)
      | (false, r) => (⟨r, .kParseErrno⟩, true)
  | .kParseGotCompleteRequest | .kParseErrno => (⟨p.m_request, .kParseErrno⟩, true)

variable {Q : Type} [ByteQueue Q]

/-- The loop of `parseContent`; a round consumes a line with its CR LF, so the number of
unread bytes bounds the rounds. -/
def parseLoop : ℕ → HttpRequestParser → Q → HttpRequestParser × Q
  | 0, p, buffer => (p, buffer)
  | n + 1, p, buffer =>
    match findCRLF (ByteQueue.readable buffer) with
    | none => (p, buffer)
    | some crlf =>
      let line := (ByteQueue.readable buffer).take crlf
      let buffer := ByteQueue.retrieve buffer (crlf + 2)
      match p.onLine line with
      | (p, true) => (p, buffer)
      | (p, false) =>
        if ByteQueue.readable buffer = [] ∧ p.m_state = .kParseBody then
          (⟨p.m_request, .kParseGotCompleteRequest⟩, buffer)
        else parseLoop n p buffer

def parseContent (p : HttpRequestParser) (buffer : Q) : HttpRequestParser × Q :=
  parseLoop (ByteQueue.readable buffer).length p buffer

end HttpRequestParser

/-- What is called on a parser: its own members, and the decoding of a body on the request
that `getRequest()` gives out. -/
inductive ParserCall where
  | parseContent (buffer : Buffer)
  | parseRequestBody (body : Bytes)
  | parsePost (body : Bytes)
  | reset

/-- One call, the parser with its request behind it. -/
def HttpRequestParser.call (p : HttpRequestParser) : ParserCall → Option HttpRequestParser
  | .parseContent buffer => some (p.parseContent buffer).1
  | .parseRequestBody body => some { p with m_request := (p.m_request.parseRequestBody body).2 }
  | .parsePost body => some { p with m_request := (p.m_request.parsePost body).2 }
  | .reset => some p.reset

end MyMuduo
