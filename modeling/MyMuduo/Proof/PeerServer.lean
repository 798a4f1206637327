import MyMuduo.Proof.HttpParser
import MyMuduo.Proof.LogStream
import MyMuduo.Proof.Server
import MyMuduo.Proof.Timestamp
import MyMuduo.Spec.PeerServer

/-!
# The peers of the connections

Every connection keeps the pointer that `inet_ntoa` returned, and that is always the same one.

* `step_objects`: only a step of the acceptor makes a connection.
* `run_server`: without the addresses a run is one of the server.
* `last_address`: in every reachable state all live connections have the address accepted last, and
  their own ports; `removal_logged`: so the log names a wrong peer.
* `peers_kept_iff`: **all live connections keep their peers exactly if every connection is accepted
  from the address that all live ones have.**
-/

namespace MyMuduo

open Lib

/-! ## Texts of addresses -/

theorem dot_not_mem (n : ℕ) : 46 ∉ to_string n := by
  intro h
  have := to_string_digits h
  simp at this

/-- A number in front of a dot. -/
theorem to_string_dot_inj {m n : ℕ} {u v : Bytes} (h : to_string m ++ 46 :: u = to_string n ++ 46 :: v) :
    m = n ∧ u = v := by
  have hcut := congrArg (splitAtByte 46) h
  rw [splitAtByte_append u (dot_not_mem m), splitAtByte_append v (dot_not_mem n), Option.some_inj,
    Prod.mk.injEq] at hcut
  exact ⟨to_string_inj hcut.1, hcut.2⟩

theorem byte_text_length (b : UInt8) : (to_string b.toNat).length ≤ 3 := by
  rw [to_string_eq]
  have := b.toNat_lt
  exact numeral_length_le (by omega) (by omega)

namespace InAddr

/-- **The text tells the address.** -/
theorem text_inj {a b : InAddr} (h : a.text = b.text) : a = b := by
  obtain ⟨h0, h⟩ := to_string_dot_inj h
  obtain ⟨h1, h⟩ := to_string_dot_inj h
  obtain ⟨h2, h3⟩ := to_string_dot_inj h
  rw [InAddr.ext_iff]
  exact ⟨UInt8.toNat_inj.1 h0, UInt8.toNat_inj.1 h1, UInt8.toNat_inj.1 h2,
    UInt8.toNat_inj.1 (to_string_inj h3)⟩

theorem text_length (a : InAddr) : a.text.length + 1 ≤ INET_ADDRSTRLEN := by
  have h0 := byte_text_length a.b0
  have h1 := byte_text_length a.b1
  have h2 := byte_text_length a.b2
  have h3 := byte_text_length a.b3
  simp only [text, List.length_append, List.length_cons, INET_ADDRSTRLEN]
  omega

theorem text_ne_zero (a : InAddr) : ∀ b ∈ a.text, b ≠ 0 := by
  have hdigit : ∀ (n : ℕ), ∀ b ∈ to_string n, b ≠ 0 := by
    rintro n b hb rfl
    have := to_string_digits hb
    simp at this
  intro b hb
  simp only [text, List.mem_append, List.mem_cons] at hb
  rcases hb with hb | rfl | hb | rfl | hb | rfl | hb
  · exact hdigit _ b hb
  · decide
  · exact hdigit _ b hb
  · decide
  · exact hdigit _ b hb
  · decide
  · exact hdigit _ b hb

end InAddr

/-- **What `inet_ntoa` returns is its text**, as long as nobody calls it again. -/
theorem cstring_inet_ntoa (memory : ℕ → UInt8) (a : InAddr) :
    cstring (inet_ntoa memory a).1 ntoaBuffer = a.text := by
  have hsize : INET_ADDRSTRLEN = (a.text ++ [0]).length + (INET_ADDRSTRLEN - (a.text ++ [0]).length) := by
    have := a.text_length
    rw [List.length_append, List.length_singleton]
    omega
  have htext : ∀ b ∈ a.text, decide (b ≠ 0) = true := fun b hb => decide_eq_true (a.text_ne_zero b hb)
  rw [cstring, inet_ntoa, hsize, Memory.slice_add, Memory.slice_write, List.append_assoc,
    List.takeWhile_append_of_pos htext, List.singleton_append, List.takeWhile_cons_of_neg (by decide),
    List.append_nil]

/-! ## Objects -/

section Objects

variable {Q : Type} {s s' : TcpServer Q} {a : ServerStep}

/-- No connection comes to life. -/
structure Fewer (s s' : TcpServer Q) : Prop where
  next : s'.next = s.next
  alive : ∀ c, s'.isAlive c → s.isAlive c

theorem Fewer.of_conns (hnext : s'.next = s.next) (h : s'.conns = s.conns) : Fewer s s' :=
  ⟨hnext, fun c hc => by rwa [TcpServer.isAlive, h] at hc⟩

theorem Fewer.of_update {c : ℕ} {o : Object Q} (hnext : s'.next = s.next)
    (h : s'.conns = Function.update s.conns c o) (hlife : o.life = .alive → s.isAlive c) : Fewer s s' := by
  refine ⟨hnext, fun c' hc' => ?_⟩
  rw [TcpServer.isAlive, h] at hc'
  by_cases hc : c' = c
  · subst hc
    rw [Function.update_self] at hc'
    exact hlife hc'
  · rwa [Function.update_of_ne hc] at hc'

/-- A step with a guard. -/
theorem Fewer.of_guard {p : Prop} [Decidable p] {t : TcpServer Q}
    (h : (if p then some t else none) = some s') (ht : Fewer s t) : Fewer s s' := by
  obtain ⟨-, h⟩ := Option.ite_none_right_eq_some.1 h
  cases h
  exact ht

theorem Fewer.of_apply (c : ℕ) (e : Effect Q) : Fewer s (s.apply c e) := by
  obtain ⟨-, hnext, -, -, hconns, -⟩ := apply_rest s c e
  exact .of_update hnext hconns id

theorem Fewer.of_destroyChannel (c : ℕ) : Fewer s (s.destroyChannel c) := by
  unfold TcpServer.destroyChannel
  dsimp only
  split
  · split
    · exact .of_conns rfl rfl
    · split
      · exact .of_conns rfl rfl
      · exact .of_update rfl rfl fun h => by cases h
  · exact .of_update rfl rfl fun h => by cases h

/-- **Only the acceptor makes connections.** -/
theorem step_objects [ByteQueue Q] {buffer : Q} (ha : a.isAccept = false)
    (hstep : s.step buffer a = some s') : Fewer s s' := by
  unfold TcpServer.step at hstep
  split at hstep
  · cases hstep
  cases a with
  | poll l ready => exact .of_guard hstep (.of_conns rfl rfl)
  | handleEvent l =>
    dsimp only at hstep
    split at hstep
    · unfold TcpServer.handleEvent at hstep
      split at hstep
      · cases hstep
      · split at hstep
        · cases hstep
          exact .of_conns rfl rfl
        · cases hstep
          exact .of_conns rfl rfl
    · cases hstep
  | exec l read write =>
    dsimp only at hstep
    split at hstep
    · cases hstep
    · next t stack hcur =>
      split at hstep
      · cases hstep
      · next c hsub =>
        split at hstep
        · split at hstep
          · next e hrun =>
            cases hstep
            have happly : Fewer (s.setCurrent l (e.calls ++ stack)) _ := .of_apply c e
            exact ⟨happly.next, happly.alive⟩
          · cases hstep
            exact .of_conns rfl rfl
        · cases hstep
          exact .of_conns rfl rfl
  | return_ l =>
    dsimp only at hstep
    split at hstep
    · cases hstep
      exact .of_conns rfl rfl
    · cases hstep
  | swap l => exact .of_guard hstep (.of_conns rfl rfl)
  | nextFunctor l =>
    dsimp only at hstep
    split at hstep
    · cases hstep
      exact .of_conns rfl rfl
    · cases hstep
  | endPass l => exact .of_guard hstep (.of_conns rfl rfl)
  | accept fd home => cases ha
  | timer l => exact .of_guard hstep (.of_conns rfl rfl)
  | call thread call write =>
    dsimp only at hstep
    split at hstep
    · split at hstep
      · cases hstep
        exact .of_apply _ _
      · cases hstep
        exact .of_conns rfl rfl
    · cases hstep
  | retain c => exact .of_guard hstep (.of_conns rfl rfl)
  | release c => exact .of_guard hstep (.of_conns rfl rfl)
  | close c => exact .of_guard hstep (.of_update rfl rfl fun h => by cases h)
  | destroy c => exact .of_guard hstep (.of_destroyChannel c)

end Objects

/-! ## Steps -/

namespace PeerServer

variable {Q : Type} {s s' : PeerServer Q} {a : PeerStep} {address : SockAddrIn}

/-- What a step does that makes no connection. -/
structure Stays (s s' : PeerServer Q) : Prop where
  objects : Fewer s.tcp s'.tcp
  memory : s'.memory = s.memory
  members : s'.members = s.members
  peer : s'.peer = s.peer

/-- What a step does that makes one, with the peer `address`. -/
structure Accepts (address : SockAddrIn) (s s' : PeerServer Q) : Prop where
  next : s'.tcp.next = s.tcp.next + 1
  alive : ∀ c, s'.tcp.isAlive c ↔ c = s.tcp.next ∨ s.tcp.isAlive c
  memory : s'.memory = (inet_ntoa s.memory address.sin_addr).1
  members : s'.members = Function.update s.members s.tcp.next ⟨ntoaBuffer, ntohs address.sin_port⟩
  peer : s'.peer = Function.update s.peer s.tcp.next address

theorem logRemoval_stays (a : ServerStep) {tcp : TcpServer Q} (h : Fewer s.tcp tcp) :
    Stays s { s.logRemoval a with tcp := tcp } := by
  unfold logRemoval
  split
  · exact ⟨h, rfl, rfl, rfl⟩
  · exact ⟨h, rfl, rfl, rfl⟩

theorem connectFails_tcp (errno : ℕ) : (s.connectFails errno).tcp = s.tcp := by
  unfold connectFails
  split
  · rfl
  · rfl

theorem connectFails_stays (errno : ℕ) : Stays s (s.connectFails errno) := by
  unfold connectFails
  split
  · exact ⟨.of_conns rfl rfl, rfl, rfl, rfl⟩
  · exact ⟨.of_conns rfl rfl, rfl, rfl, rfl⟩

variable [ByteQueue Q] {buffer : Q}

theorem step_stays (ha : a.accepted = none) (hstep : s.step buffer a = some s') : Stays s s' := by
  cases a with
  | handleConnect home result =>
    cases result with
    | ok x => cases ha
    | error errno =>
      dsimp only [step] at hstep
      split at hstep
      · cases hstep
        exact connectFails_stays errno
      · cases hstep
  | tcp a =>
    dsimp only [step] at hstep
    split at hstep
    · cases hstep
    · next hacc =>
      obtain ⟨tcp, htcp, rfl⟩ := Option.map_eq_some_iff.1 hstep
      exact logRemoval_stays a (step_objects (by simpa using hacc) htcp)

theorem step_accepts (ha : a.accepted = some address) (hstep : s.step buffer a = some s') :
    Accepts address s s' := by
  cases a with
  | tcp a => cases ha
  | handleConnect home result =>
    cases result with
    | error errno => cases ha
    | ok x =>
      obtain ⟨fd, address'⟩ := x
      cases ha
      dsimp only [step] at hstep
      obtain ⟨tcp, htcp, rfl⟩ := Option.map_eq_some_iff.1 hstep
      unfold TcpServer.step at htcp
      split at htcp
      · cases htcp
      · dsimp only at htcp
        split at htcp
        · cases htcp
          obtain ⟨hconns, hnext, -⟩ := handleNewConnection_rest s.tcp fd home buffer
          refine ⟨hnext, fun c => ?_, rfl, rfl, rfl⟩
          change ((s.tcp.handleNewConnection fd home buffer).conns c).life = .alive ↔ _
          rw [hconns]
          by_cases hc : c = s.tcp.next
          · subst hc
            rw [Function.update_self]
            exact iff_of_true rfl (.inl rfl)
          · rw [Function.update_of_ne hc]
            exact (or_iff_right hc).symm
        · cases htcp

/-- A step, without the addresses, is one of the server or none. -/
theorem step_server (hstep : s.step buffer a = some s') :
    run (TcpServer.step buffer) s.tcp a.server = some s'.tcp := by
  cases a with
  | handleConnect home result =>
    cases result with
    | ok x =>
      obtain ⟨tcp, htcp, rfl⟩ := Option.map_eq_some_iff.1 hstep
      rw [PeerStep.server, run, htcp]
      rfl
    | error errno =>
      dsimp only [step] at hstep
      split at hstep
      · cases hstep
        exact congrArg some (connectFails_tcp errno).symm
      · cases hstep
  | tcp a =>
    dsimp only [step] at hstep
    split at hstep
    · cases hstep
    · obtain ⟨tcp, htcp, rfl⟩ := Option.map_eq_some_iff.1 hstep
      rw [PeerStep.server, run, htcp]
      rfl

/-- **Without the addresses a run is one of the server.** -/
theorem run_server {steps : List PeerStep} (h : run (step buffer) s steps = some s') :
    run (TcpServer.step buffer) s.tcp (steps.flatMap PeerStep.server) = some s'.tcp :=
  run_flatMap tcp PeerStep.server (fun _ _ _ hstep => step_server hstep) steps h

/-! ## The invariant -/

/-- **The invariant of the addresses**: all connections refer to the static buffer, which has the text
of the address accepted last; every port is its connection's own. -/
structure PeersOk (s : PeerServer Q) : Prop where
  born : ∀ c, s.tcp.isAlive c → c < s.tcp.next
  ip : ∀ c, c < s.tcp.next → (s.members c).m_ip = ntoaBuffer
  port : ∀ c, c < s.tcp.next → s.getPort c = ntohs (s.peer c).sin_port
  last : ∀ c, c + 1 = s.tcp.next → cstring s.memory ntoaBuffer = (s.peer c).sin_addr.text

omit [ByteQueue Q] in
theorem PeersOk.stays (h : PeersOk s) (hs : Stays s s') : PeersOk s' := by
  refine ⟨fun c hc => ?_, fun c hc => ?_, fun c hc => ?_, fun c hc => ?_⟩
  · rw [hs.objects.next]
    exact h.born c (hs.objects.alive c hc)
  · rw [hs.objects.next] at hc
    rw [hs.members]
    exact h.ip c hc
  · rw [hs.objects.next] at hc
    rw [getPort, hs.members, hs.peer]
    exact h.port c hc
  · rw [hs.objects.next] at hc
    rw [hs.memory, hs.peer]
    exact h.last c hc

omit [ByteQueue Q] in
theorem PeersOk.accepts (h : PeersOk s) (hs : Accepts address s s') : PeersOk s' := by
  refine ⟨fun c hc => ?_, fun c hc => ?_, fun c hc => ?_, fun c hc => ?_⟩
  · rw [hs.next]
    rcases (hs.alive c).1 hc with hc | hc
    · omega
    · exact Nat.lt_succ_of_lt (h.born c hc)
  · rw [hs.next] at hc
    rw [hs.members]
    by_cases hnew : c = s.tcp.next
    · subst hnew
      rw [Function.update_self]
    · rw [Function.update_of_ne hnew]
      exact h.ip c (by omega)
  · rw [hs.next] at hc
    rw [getPort, hs.members, hs.peer]
    by_cases hnew : c = s.tcp.next
    · subst hnew
      rw [Function.update_self, Function.update_self]
    · rw [Function.update_of_ne hnew, Function.update_of_ne hnew]
      exact h.port c (by omega)
  · rw [hs.next] at hc
    obtain rfl : c = s.tcp.next := by omega
    rw [hs.memory, hs.peer, Function.update_self]
    exact cstring_inet_ntoa s.memory address.sin_addr

theorem step_peersOk (h : PeersOk s) (hstep : s.step buffer a = some s') : PeersOk s' := by
  cases ha : a.accepted with
  | none => exact h.stays (step_stays ha hstep)
  | some address => exact h.accepts (step_accepts ha hstep)

omit [ByteQueue Q] in
theorem start_peersOk (numLoops : ℕ) (buffer : Q) (m_ipport : Bytes) (memory : ℕ → UInt8)
    (members : ℕ → Address) (peer : ℕ → SockAddrIn) :
    PeersOk (start numLoops buffer m_ipport memory members peer) :=
  ⟨fun c hc => (by cases hc), fun c hc => absurd hc (Nat.not_lt_zero c),
    fun c hc => absurd hc (Nat.not_lt_zero c), fun c hc => absurd hc (Nat.succ_ne_zero c)⟩

omit [ByteQueue Q] in
/-- **All connections have the address accepted last.** -/
theorem PeersOk.getIP (h : PeersOk s) {c d : ℕ} (hc : s.tcp.isAlive c) (hd : d + 1 = s.tcp.next) :
    s.getIP c = (s.peer d).sin_addr.text := by
  rw [PeerServer.getIP, h.ip c (h.born c hc), h.last d hd]

/-! ## Runs -/

/-- Every live connection has the address and the port that it was accepted with. -/
def PeersKept (s : PeerServer Q) : Prop :=
  ∀ c, s.tcp.isAlive c →
    s.getIP c = (s.peer c).sin_addr.text ∧ s.getPort c = ntohs (s.peer c).sin_port

/-- A connection that is accepted comes from the address of all live ones. -/
def SameAddress (s : PeerServer Q) (a : PeerStep) : Prop :=
  ∀ address, a.accepted = some address → ∀ c, s.tcp.isAlive c →
    (s.peer c).sin_addr = address.sin_addr

omit [ByteQueue Q] in
theorem kept_stays (h : PeersKept s) (hs : Stays s s') : PeersKept s' := by
  intro c hc
  rw [PeerServer.getIP, getPort, hs.memory, hs.members, hs.peer]
  exact h c (hs.objects.alive c hc)

omit [ByteQueue Q] in
/-- A new connection takes the buffer away from those of other addresses. -/
theorem kept_accepts_iff (h : PeersOk s) (hs : Accepts address s s') :
    PeersKept s' ↔ ∀ c, s.tcp.isAlive c → (s.peer c).sin_addr = address.sin_addr := by
  have h' := h.accepts hs
  have hnew : s'.peer s.tcp.next = address := by rw [hs.peer, Function.update_self]
  have hold : ∀ c, s.tcp.isAlive c → s'.peer c = s.peer c := fun c hc => by
    rw [hs.peer, Function.update_of_ne (h.born c hc).ne]
  have hread : ∀ c, s'.tcp.isAlive c → s'.getIP c = address.sin_addr.text := by
    intro c hc
    rw [h'.getIP hc hs.next.symm, hnew]
  constructor
  · intro hkept c hc
    have hc' := (hs.alive c).2 (.inr hc)
    have hip := (hkept c hc').1
    rw [hread c hc', hold c hc] at hip
    exact (InAddr.text_inj hip).symm
  · intro hsame c hc
    refine ⟨?_, h'.port c (h'.born c hc)⟩
    rw [hread c hc]
    rcases (hs.alive c).1 hc with rfl | hc
    · rw [hnew]
    · rw [hold c hc, hsame c hc]

/-- **One step**: the peers are kept exactly if it makes no connection from another address. -/
theorem step_kept_iff (h : PeersOk s) (hkept : PeersKept s) (hstep : s.step buffer a = some s') :
    (SameAddress s a ↔ PeersKept s') ∧ (SameAddress s a → PeersOk s' ∧ PeersKept s') := by
  have hiff : SameAddress s a ↔ PeersKept s' := by
    cases ha : a.accepted with
    | none =>
      have hsame : SameAddress s a := by
        intro address haddress
        rw [ha] at haddress
        cases haddress
      exact iff_of_true hsame (kept_stays hkept (step_stays ha hstep))
    | some address =>
      rw [kept_accepts_iff h (step_accepts ha hstep)]
      constructor
      · intro hsame
        exact hsame address ha
      · intro hsame address' haddress
        rw [ha] at haddress
        cases haddress
        exact hsame
  exact ⟨hiff, fun hsame => ⟨step_peersOk h hstep, hiff.1 hsame⟩⟩

/-- **Whose address a connection has.** In every run of a server, with any addresses, closes and calls
in any order: every live connection has its own port, and the address of the connection accepted
last. -/
theorem last_address (numLoops : ℕ) (buffer : Q) (m_ipport : Bytes) (memory : ℕ → UInt8)
    (members : ℕ → Address) (peer : ℕ → SockAddrIn) {steps : List PeerStep} {s : PeerServer Q}
    (h : run (step buffer) (start numLoops buffer m_ipport memory members peer) steps = some s)
    {c d : ℕ} (hc : s.tcp.isAlive c) (hd : d + 1 = s.tcp.next) :
    s.getIP c = (s.peer d).sin_addr.text ∧ s.getPort c = ntohs (s.peer c).sin_port := by
  have hok : PeersOk s := run_inv (fun _ _ _ hI hstep => step_peersOk hI hstep)
    (start_peersOk numLoops buffer m_ipport memory members peer) h
  exact ⟨hok.getIP hc hd, hok.port c (hok.born c hc)⟩

/-- **What the log says when a connection is removed**: its own port, and the address of the
connection accepted last. -/
theorem removal_logged (numLoops : ℕ) (buffer : Q) (m_ipport : Bytes) (memory : ℕ → UInt8)
    (members : ℕ → Address) (peer : ℕ → SockAddrIn) {steps : List PeerStep} {s s' : PeerServer Q}
    (h : run (step buffer) (start numLoops buffer m_ipport memory members peer) steps = some s)
    {a : ServerStep} {c d : ℕ} (hrem : s.removes a = some c) (hd : d + 1 = s.tcp.next)
    (hstep : s.step buffer (.tcp a) = some s') :
    s'.logged = s.logged ++
      [removeItems (s.peer d).sin_addr.text (ntohs (s.peer c).sin_port)] := by
  obtain ⟨ph, hok, -⟩ := run_ok (start_ok numLoops buffer) (run_server h)
  -- the connection is alive: its removal is under way
  have halive : s.tcp.isAlive c := by
    unfold removes at hrem
    split at hrem
    · next l read write =>
      split at hrem
      · next c' stack hcur =>
        cases hrem
        exact (hok.fits hcur rfl).1
      · cases hrem
    · cases hrem
  obtain ⟨hip, hport⟩ := last_address numLoops buffer m_ipport memory members peer h halive hd
  dsimp only [step] at hstep
  split at hstep
  · cases hstep
  · obtain ⟨tcp, -, rfl⟩ := Option.map_eq_some_iff.1 hstep
    change (s.logRemoval a).logged = _
    rw [logRemoval, hrem, ← hip, ← hport]
    rfl

/-- **When the peers of the others are left alone.** In every run of a server with any number of loops,
with connections accepted from any addresses, closes and calls in any order: in all states that it
goes through every live connection has the address and the port that it was accepted with if and
only if every connection is accepted from the address of all connections then alive. -/
theorem peers_kept_iff (numLoops : ℕ) (buffer : Q) (m_ipport : Bytes) (memory : ℕ → UInt8)
    (members : ℕ → Address) (peer : ℕ → SockAddrIn) (steps : List PeerStep) (s : PeerServer Q)
    (h : run (step buffer) (start numLoops buffer m_ipport memory members peer) steps = some s) :
    (∀ n t, run (step buffer) (start numLoops buffer m_ipport memory members peer) (steps.take n) = some t →
        t.PeersKept) ↔
      Along (step buffer) SameAddress (start numLoops buffer m_ipport memory members peer) steps := by
  have hstart : (start numLoops buffer m_ipport memory members peer).PeersKept := fun c hc => by cases hc
  exact forall_run_iff_along (P := PeersKept) (I := fun t => t.PeersOk ∧ t.PeersKept) (fun t ht => ht.2)
    (fun t a t' ht hstep => step_kept_iff ht.1 ht.2 hstep) steps
    ⟨start_peersOk numLoops buffer m_ipport memory members peer, hstart⟩ h

/-- The address `10.0.0.b`, port 8080. -/
def sockAddr (b : UInt8) : SockAddrIn := ⟨⟨10, 0, 0, b⟩, (0x1f, 0x90)⟩

/-- A server with a loop beside its base loop, and the memory empty. -/
def idle : PeerServer Buffer :=
  start 2 (.new kInitialSize) (ascii "0.0.0.0:9090") (fun _ => 0) (fun _ => ⟨0, 0⟩) fun _ => sockAddr 0

/-- Two connections, one after the other. -/
def twoConnections (a b : SockAddrIn) : List PeerStep :=
  [.tcp (.poll 0 []), .handleConnect 1 (.ok (5, a)), .handleConnect 1 (.ok (6, b))]

theorem peers_kept_iff_two :
    ∃ s, run (step (.new kInitialSize)) idle (twoConnections (sockAddr 1) (sockAddr 1)) = some s ∧
      s.tcp.isAlive 0 ∧ s.tcp.isAlive 1 ∧
      ∀ n t, run (step (.new kInitialSize)) idle ((twoConnections (sockAddr 1) (sockAddr 1)).take n) = some t →
        t.PeersKept := by
  have hrun : run (step (.new kInitialSize)) idle (twoConnections (sockAddr 1) (sockAddr 1)) = some _ := rfl
  have h := (peers_kept_iff 2 _ _ _ _ _ _ _ hrun).2
  have hnobody : SameAddress idle (.tcp (.poll 0 [])) := fun _ hnone => by cases hnone
  refine ⟨_, hrun, rfl, rfl, h ⟨hnobody, fun _ hpoll => ?_⟩⟩
  obtain rfl := Option.some.inj hpoll
  -- nothing is alive when the first connection comes, and only the first when the second comes
  refine ⟨fun _ _ _ hc => (by cases hc), fun _ hfirst => ?_⟩
  obtain rfl := Option.some.inj hfirst
  refine ⟨fun address haddress c hc => ?_, fun _ _ => trivial⟩
  obtain rfl := Option.some.inj haddress
  cases c with
  | zero => rfl
  | succ c => cases hc

/-- With a second client the first one has its address. -/
theorem peers_mixed_up :
    ∃ s, run (step (.new kInitialSize)) idle (twoConnections (sockAddr 1) (sockAddr 2)) = some s ∧
      s.tcp.isAlive 0 ∧ (s.peer 0).sin_addr.text = ascii "10.0.0.1" ∧ s.getIP 0 = ascii "10.0.0.2" ∧
      ¬s.PeersKept := by
  refine ⟨_, rfl, rfl, by decide, by decide, fun hkept => ?_⟩
  have hip := (hkept 0 rfl).1
  revert hip
  decide

end PeerServer

end MyMuduo
