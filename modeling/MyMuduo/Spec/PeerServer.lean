import MyMuduo.Lib.Memory
import MyMuduo.Spec.Acceptor
import MyMuduo.Spec.HttpResponse
import MyMuduo.Spec.LogStream
import MyMuduo.Spec.Server

/-!
# The peers of the connections (`Net/address.h`, `Net/acceptor.cpp`, `Net/tcpserver.cpp`)

The server of `Spec/Server` with the address that `accept4` reports for each connection, on its way
through `handleConnect`, `Address` and `handleNewConnection` into the members `ip` and `port` of the
connection, and back out in `handleRemoveConnectionInLoop`. `inet_ntoa` writes its text into one
static buffer and returns a pointer to it.

A pointer is an index into the memory; a member that was never set is whatever it was. Beside the
members the server keeps what `accept4` reported, and the log statements of these functions.
-/

namespace MyMuduo

open Lib

/-- `in_addr`: the bytes in their order in memory. -/
@[ext] structure InAddr where
  b0 : UInt8
  b1 : UInt8
  b2 : UInt8
  b3 : UInt8
  deriving DecidableEq, Repr

/-- `sockaddr_in`, as `accept4` fills it in: the port is the high byte and the low one. -/
structure SockAddrIn where
  sin_addr : InAddr
  sin_port : UInt8 × UInt8
  deriving DecidableEq, Repr

/-- The four numbers, with dots. -/
def InAddr.text (a : InAddr) : Bytes :=
  to_string a.b0.toNat ++ 46 :: (to_string a.b1.toNat ++ 46 ::
    (to_string a.b2.toNat ++ 46 :: to_string a.b3.toNat))

/-- Where the static buffer of `inet_ntoa` is. -/
def ntoaBuffer : ℕ := 4096

/-- The size of the buffer. -/
def INET_ADDRSTRLEN : ℕ := 16

/-- `inet_ntoa(in)`: the memory, and the pointer that it returns. -/
def inet_ntoa (memory : ℕ → UInt8) (a : InAddr) : (ℕ → UInt8) × ℕ :=
  (Memory.write memory ntoaBuffer (a.text ++ [0]), ntoaBuffer)

/-- The string at a pointer to such a buffer. -/
def cstring (memory : ℕ → UInt8) (p : ℕ) : Bytes :=
  (Memory.slice memory p INET_ADDRSTRLEN).takeWhile (· ≠ 0)

def ntohs (port : UInt8 × UInt8) : ℕ := port.1.toNat * 256 + port.2.toNat

structure Address where
  m_ip : ℕ
  m_port : ℕ
  deriving DecidableEq, Repr

structure PeerServer (Q : Type) where
  tcp : TcpServer Q
  m_ipport : Bytes
  m_next_connection_id : ℕ
  memory : ℕ → UInt8
  /-- the members `ip` and `port` of each connection -/
  members : ℕ → Address
  /-- what `accept4` reported for each connection -/
  peer : ℕ → SockAddrIn
  /-- the items of the log statements -/
  logged : List (List Insertion)

inductive PeerStep where
  /-- `handleConnect()`: `accept4` gives a descriptor and the peer, or fails with an `errno`;
  `home` is the loop that `getNextLoop` gives -/
  | handleConnect (home : ℕ) (result : Except ℕ (ℕ × SockAddrIn))
  /-- any other step of the server -/
  | tcp (a : ServerStep)
  deriving Repr

/-- The peer of the connection that a step makes. -/
def PeerStep.accepted : PeerStep → Option SockAddrIn
  | handleConnect _ (.ok (_, address)) => some address
  | handleConnect _ (.error _) | tcp _ => none

/-- The steps of the server without the addresses. -/
def PeerStep.server : PeerStep → List ServerStep
  | handleConnect home (.ok (fd, _)) => [.accept fd home]
  | handleConnect _ (.error _) => []
  | tcp a => [a]

/-- A step of the acceptor. -/
def ServerStep.isAccept : ServerStep → Bool
  | accept _ _ => true
  | _ => false

namespace PeerServer

variable {Q : Type}

/-- A server just started. -/
def start (numLoops : ℕ) (buffer : Q) (m_ipport : Bytes) (memory : ℕ → UInt8)
    (members : ℕ → Address) (peer : ℕ → SockAddrIn) : PeerServer Q where
  tcp := .start numLoops buffer
  m_ipport := m_ipport
  m_next_connection_id := 0
  memory := memory
  members := members
  peer := peer
  logged := []

variable (s : PeerServer Q)

def getIP (c : ℕ) : Bytes := cstring s.memory (s.members c).m_ip

def getPort (c : ℕ) : ℕ := (s.members c).m_port

/-- `LOG_INFO << …` and `LOG_ERROR << …` -/
def log (items : List Insertion) : PeerServer Q := { s with logged := s.logged ++ [items] }

/-- `con_addr.ip() << ":" << con_addr.port()` -/
def addressItems (ip : Bytes) (port : ℕ) : List Insertion :=
  [.cstr (some ip), .cstr (some (ascii ":")), .integer .int (BitVec.ofNat 32 port)]

/-- `handleNewConnection(conn_fd, con_addr)`, with `c` the connection that it makes: what is not in
`TcpServer.handleNewConnection`. -/
def handleNewConnection (c : ℕ) (con_addr : Address) : PeerServer Q :=
  let id := s.m_next_connection_id + 1
  let id := if id = 2 ^ 31 - 1 then 0 else id
  let conn_name := s.m_ipport ++ ascii " #" ++ to_string id
  let s := { s with m_next_connection_id := id }
  let s := s.log ([.cstr (some (ascii "New connection: ")), .string conn_name,
    .cstr (some (ascii " from "))] ++ addressItems (cstring s.memory con_addr.m_ip) con_addr.m_port ++
    [.cstr (some (ascii "\n"))])
  -- `setIPPort`
  { s with members := Function.update s.members c con_addr }

/-- `handleConnect()` behind a call of `accept4` that reports `address`. -/
def handleConnect (c : ℕ) (address : SockAddrIn) : PeerServer Q :=
  let (memory, ip) := inet_ntoa s.memory address.sin_addr
  let port := ntohs address.sin_port
  { s with memory := memory, peer := Function.update s.peer c address }.handleNewConnection c ⟨ip, port⟩

/-- `handleConnect()` behind a call that fails. Out of descriptors it gives up its idle one for a
moment. -/
def connectFails (errno : ℕ) : PeerServer Q :=
  if errno = EMFILE then s.log [.cstr (some (ascii "acceptor: too many open files\n"))] else s

/-- The log statement of `handleRemoveConnectionInLoop(conn)`. -/
def removeItems (ip : Bytes) (port : ℕ) : List Insertion :=
  [.cstr (some (ascii "TcpServer::HandleCloseInLoop - remove connection ")), .cstr (some (ascii "["))] ++
    addressItems ip port ++ [.cstr (some (ascii "]\n"))]

/-- The connection that a step removes from the map. -/
def removes : ServerStep → Option ℕ
  | .exec l _ _ =>
    match (s.tcp.loops l).current with
    | .life .handleRemoveConnectionInLoop c :: _ => some c
    | _ => none
  | _ => none

/-- What a step of the server logs. -/
def logRemoval (a : ServerStep) : PeerServer Q :=
  match s.removes a with
  | some c => s.log (removeItems (s.getIP c) (s.getPort c))
  | none => s

/-- One step. -/
def step [ByteQueue Q] (buffer : Q) (s : PeerServer Q) : PeerStep → Option (PeerServer Q)
  | .handleConnect home (.ok (fd, address)) =>
    (s.tcp.step buffer (.accept fd home)).map fun tcp =>
      { s.handleConnect s.tcp.next address with tcp := tcp }
  | .handleConnect _ (.error errno) =>
    -- the acceptor runs in the base loop
    if s.tcp.failed = none ∧ (s.tcp.loops 0).pc = .dispatch ∧ (s.tcp.loops 0).current = [] then
      some (s.connectFails errno)
    else none
  | .tcp a =>
    if a.isAccept then none
    else (s.tcp.step buffer a).map fun tcp => { s.logRemoval a with tcp := tcp }

end PeerServer

end MyMuduo
