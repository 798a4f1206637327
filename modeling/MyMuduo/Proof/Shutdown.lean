import MyMuduo.Proof.Output
import MyMuduo.Spec.Shutdown

/-!
# Graceful shutdown

`m_state` leaves `kConnected` before `shutDownInLoop` is called or queued. From then on no
send is accepted but the one that had passed its test; the loop thread finishes that one
before it comes to any functor. So where `shutDownInLoop` finds no write interest, nothing is
left to write, and nothing will be.

* `drain_drained`: the two halves of `handleWrite` make the whole.
* `ShutOk`: the invariant; `step_shutOk`: one step keeps it, and after `SHUT_WR` a step
  writes nothing.
* `step_sent`: what was sent, with the send under way, are the sends that passed their test.
* `shutdown_graceful`: **in every run, `SHUT_WR` comes when all is written, nothing is written
  after it, and the `handleWrite` that drains the buffer after a request issues it.**
-/

namespace MyMuduo

open Lib

variable {Q : Type} [ByteQueue Q]

/-! ## Calls cut in two -/

/-- `handleWrite` is its two halves, if no other thread comes in between. -/
theorem drain_drained (ep : Epoller) (c : TcpConnection Q) (r : Except ℕ ℕ) :
    c.handleWrite ep r = (c.drain ep r).map fun x => (x.1, if x.2.2 then x.2.1.drained else x.2.1) := by
  unfold TcpConnection.handleWrite TcpConnection.drain
  split
  · dsimp only
    split
    · split
      · generalize TcpConnection.disableWriting ep _ = d
        cases d with
        | ok x => rfl
        | error e => rfl
      · rfl
    · rfl
  · rfl

/-- `send` in the loop thread is its test and `sendInLoop`. -/
theorem send_sendInLoop (ep : Epoller) (c : TcpConnection Q) (msg : Bytes) (r : Except ℕ ℕ) :
    c.send ep msg true r = if c.m_state = .kConnected then
      (c.sendInLoop ep msg r).map fun x => (x.1, x.2, none) else .ok (ep, c, none) := by
  unfold TcpConnection.send
  split
  · simp only [if_true]
    generalize TcpConnection.sendInLoop ep c msg r = d
    cases d with
    | ok x => rfl
    | error e => rfl
  · rfl

/-- The first half of `handleWrite`, on an output buffer that lets bytes be taken out: without write
interest it does nothing; else it writes from the front of the buffer, and the flag tells whether the
buffer got empty. -/
theorem drain_takes {ep ep' : Epoller} {c c' : TcpConnection Q} {r : Except ℕ ℕ} {b : Bool}
    (hret : ∀ n, n ≤ c.output.length →
      ByteQueue.readable (ByteQueue.retrieve c.m_output_buffer n) = c.output.drop n)
    (h : StreamOk c) (hst : c.m_state ≠ .kDisconnected) (hs : c.drain ep r = .ok (ep', c', b)) :
    StreamOk c' ∧ c'.m_state = c.m_state ∧ c'.shutWr = c.shutWr ∧ (b = true → c'.output = []) ∧
      (c.output = [] → c' = c ∧ b = false) ∧ (c.output ≠ [] → c'.output = [] → b = true) := by
  have hi := h.interest hst
  unfold TcpConnection.drain at hs
  split at hs
  swap
  · rename_i hw
    cases hs
    have hempty : c.output = [] := by
      by_contra hne
      exact hw (hi.2 hne)
    exact ⟨h, rfl, rfl, fun hb => (by cases hb), fun _ => ⟨rfl, rfl⟩, fun hne => absurd hempty hne⟩
  rename_i hw
  have hne : c.output ≠ [] := hi.1 hw
  dsimp only at hs
  set n := TcpConnection.accepted r c.output.length with hn
  have hle : n ≤ c.output.length := accepted_le r _
  have hstream : c.wire ++ c.output.take n ++ c.output.drop n = c.sent.flatten := by
    rw [List.append_assoc, List.take_append_drop]
    exact h.stream
  split at hs
  · have hout : ByteQueue.readable (ByteQueue.retrieve c.m_output_buffer n) = c.output.drop n :=
      hret _ hle
    split at hs
    · rename_i hempty
      have hempty : c.output.drop n = [] := by rw [← hout]; exact hempty
      split at hs
      · rename_i ep₁ c₁ hdis
        obtain ⟨i, rfl⟩ := setEvents_ok hdis
        cases hs
        refine ⟨.of hout hstream fun _ => ?_, rfl, rfl, fun _ => hout.trans hempty,
          fun he => absurd he hne, fun _ _ => rfl⟩
        rw [isWriting_andNot, hempty]
        simp
      · cases hs
    · rename_i hleft
      cases hs
      have hleft' : c.output.drop n ≠ [] := by rw [← hout]; exact hleft
      refine ⟨.of hout hstream fun _ => ?_, rfl, rfl, fun hb => (by cases hb),
        fun he => absurd he hne, fun _ he => absurd he hleft⟩
      simp only [hw, true_iff]
      exact hleft'
  · rename_i hpos
    cases hs
    have h0 : n = 0 := by omega
    refine ⟨⟨?_, h.interest⟩, rfl, rfl, fun hb => (by cases hb), fun he => absurd he hne,
      fun _ he => absurd he hne⟩
    simp only [h0, List.take_zero, List.append_nil]
    exact h.stream

theorem drain_spec [LawfulByteQueue Q] {ep ep' : Epoller} {c c' : TcpConnection Q} {r : Except ℕ ℕ} {b : Bool}
    (h : StreamOk c) (hst : c.m_state ≠ .kDisconnected) (hs : c.drain ep r = .ok (ep', c', b)) :
    StreamOk c' ∧ c'.m_state = c.m_state ∧ c'.shutWr = c.shutWr ∧ (b = true → c'.output = []) ∧
      (c.output = [] → c' = c ∧ b = false) ∧ (c.output ≠ [] → c'.output = [] → b = true) :=
  drain_takes (fun n hn => LawfulByteQueue.readable_retrieve _ n hn) h hst hs

theorem drain_sent {ep ep' : Epoller} {c c' : TcpConnection Q} {r : Except ℕ ℕ} {b : Bool}
    (hs : c.drain ep r = .ok (ep', c', b)) : c'.sent = c.sent := by
  unfold TcpConnection.drain at hs
  dsimp only at hs
  split at hs
  swap
  · cases hs
    rfl
  split at hs
  swap
  · cases hs
    rfl
  split at hs
  swap
  · cases hs
    rfl
  split at hs
  · rename_i hset
    cases hs
    obtain ⟨i, rfl⟩ := setEvents_ok hset
    rfl
  · cases hs

/-! ## The invariant -/

/-- The message that the loop thread is about to work on. -/
def SenderPc.message : SenderPc → Option Bytes
  | .sending msg => some msg
  | _ => none

namespace Shutdown

variable {s s' : Shutdown Q}

omit [ByteQueue Q] in
/-- The message of a send that passes its test. -/
def message (s : Shutdown Q) : ShutdownStep → List Bytes
  | .send msg => if s.conn.m_state = .kConnected then [msg] else []
  | .sendInLoop _ | .handleWrite _ | .drained | .functor | .shutDown | .call _ => []

/-- `m_state` was written, and `shutDownInLoop` is still to come. -/
def asked (s : Shutdown Q) : Prop :=
  (∃ thread, s.threads thread = .stored) ∨ 0 < s.functors ∨ s.pc = .stored

/-- **The invariant of a shutdown.** -/
structure ShutOk (s : Shutdown Q) : Prop where
  stream : StreamOk s.conn
  state : s.conn.m_state = .kConnected ∨ s.conn.m_state = .kDisconnecting
  asked : s.asked → s.conn.m_state = .kDisconnecting
  drained : s.pc = .drained → s.conn.output = []
  shut : s.conn.shutWr = true →
    s.conn.m_state = .kDisconnecting ∧ s.conn.output = [] ∧ ∀ msg, s.pc ≠ .sending msg

theorem ShutOk.open (h : s.ShutOk) : s.conn.m_state ≠ .kDisconnected := by
  rcases h.state with h | h <;> rw [h] <;> decide

omit [ByteQueue Q] in
/-- A `shutDownInLoop` to come of another thread was to come before. -/
theorem asked_stays (h : s'.asked) (hthreads : s'.threads = s.threads)
    (hfunctors : s'.functors = s.functors) (hpc : s'.pc ≠ .stored) : s.asked := by
  rcases h with ⟨thread, h⟩ | h | h
  · rw [hthreads] at h
    exact Or.inl ⟨thread, h⟩
  · rw [hfunctors] at h
    exact Or.inr (Or.inl h)
  · exact absurd h hpc

/-- A step that leaves the connection alone but for its state, which does not go back. -/
theorem ShutOk.setState (h : s.ShutOk) {st : ConnectionState} (hconn : s'.conn = { s.conn with m_state := st })
    (hst : st = s.conn.m_state ∨ st = .kDisconnecting) (hasked : s'.asked → st = .kDisconnecting)
    (hdrained : s'.pc = .drained → s.pc = .drained)
    (hsending : ∀ msg, s'.pc = .sending msg → s.pc = .sending msg ∨ s.conn.m_state = .kConnected) :
    s'.ShutOk := by
  refine ⟨?_, ?_, ?_, ?_, ?_⟩
  · rw [hconn]
    exact h.stream.setState h.open
  · rw [hconn]
    rcases hst with rfl | rfl
    · exact h.state
    · exact Or.inr rfl
  · rw [hconn]
    exact hasked
  · rw [hconn]
    exact fun hpc => h.drained (hdrained hpc)
  · rw [hconn]
    intro hshut
    obtain ⟨h1, h2, h3⟩ := h.shut hshut
    refine ⟨?_, h2, fun msg hpc => ?_⟩
    · rcases hst with rfl | rfl
      · exact h1
      · rfl
    · rcases hsending msg hpc with h4 | h4
      · exact h3 msg h4
      · exact absurd (h1.symm.trans h4) (by decide)

/-- `shutDownInLoop` in the loop thread, after the write of `m_state`. -/
theorem ShutOk.shutDownInLoop (h : s.ShutOk) (s' : Shutdown Q) (hst : s.conn.m_state = .kDisconnecting)
    (hpc : ∀ msg, s'.pc ≠ .sending msg) (hpc' : s'.pc ≠ .drained)
    (hconn : s'.conn = s.conn.shutDownInLoop) :
    s'.ShutOk ∧ (s.conn.output = [] → s'.conn.shutWr = true) := by
  have hi := h.stream.interest h.open
  have hstream : StreamOk s'.conn := hconn ▸ shutDownInLoop_ok h.stream
  unfold TcpConnection.shutDownInLoop at hconn
  split at hconn
  · rename_i hw
    refine ⟨⟨hstream, ?_, ?_, fun hd => absurd hd hpc', ?_⟩, fun he => absurd he (hi.1 hw)⟩
    · rw [hconn]
      exact h.state
    · rw [hconn]
      exact fun _ => hst
    · rw [hconn]
      exact fun hshut => ⟨hst, (h.shut hshut).2.1, hpc⟩
  · -- no write interest: the buffer is empty
    rename_i hw
    have hempty : s.conn.output = [] := by
      by_contra hne
      exact hw (hi.2 hne)
    refine ⟨⟨hstream, ?_, ?_, fun hd => absurd hd hpc', ?_⟩, fun _ => by rw [hconn]⟩
    · rw [hconn]
      exact h.state
    · rw [hconn]
      exact fun _ => hst
    · rw [hconn]
      exact fun _ => ⟨hst, hempty, hpc⟩

omit [ByteQueue Q] in
theorem shutDownInLoop_frame (c : TcpConnection Q) :
    c.shutDownInLoop.trace = c.trace ∧ c.shutDownInLoop.wire = c.wire ∧
      c.shutDownInLoop.m_state = c.m_state ∧ (c.shutWr = true → c.shutDownInLoop.shutWr = true) := by
  unfold TcpConnection.shutDownInLoop
  split
  · exact ⟨rfl, rfl, rfl, id⟩
  · exact ⟨rfl, rfl, rfl, fun _ => rfl⟩

/-! ## One step -/

/-- What `SHUT_WR` leaves behind: no step writes any more, and the request stands. -/
structure Quiet (c c' : TcpConnection Q) : Prop where
  trace : c'.trace = c.trace
  wire : c'.wire = c.wire
  shut : c.shutWr = true → c'.shutWr = true

omit [ByteQueue Q] in
theorem Quiet.refl (c : TcpConnection Q) : Quiet c c := ⟨rfl, rfl, id⟩

omit [ByteQueue Q] in
theorem quiet_shutDownInLoop (c : TcpConnection Q) : Quiet c c.shutDownInLoop :=
  ⟨(shutDownInLoop_frame c).1, (shutDownInLoop_frame c).2.1, (shutDownInLoop_frame c).2.2.2⟩

/-- A step of another thread. -/
theorem call_shutOk (h : s.ShutOk) (thread : ℕ) :
    (s.call thread).ShutOk ∧ Quiet s.conn (s.call thread).conn ∧ (s.call thread).pc = s.pc ∧
      (s.conn.m_state = .kDisconnecting → (s.call thread).conn.m_state = .kDisconnecting) := by
  unfold call
  dsimp only
  split
  · split
    · rename_i hidle hst
      refine ⟨h.setState rfl (Or.inl rfl) (fun hask => ?_) id fun msg hm => Or.inl hm, .refl _, rfl, id⟩
      -- the thread has not written yet
      rcases hask with ⟨t, ht⟩ | hask | hask
      · by_cases he : t = thread
        · subst he
          simp at ht
        · exact h.asked (Or.inl ⟨t, by simpa [he] using ht⟩)
      · exact h.asked (Or.inr (Or.inl hask))
      · exact h.asked (Or.inr (Or.inr hask))
    · exact ⟨h, .refl _, rfl, id⟩
  · exact ⟨h.setState rfl (Or.inr rfl) (fun _ => rfl) id fun msg hm => Or.inl hm, ⟨rfl, rfl, id⟩, rfl,
      fun _ => rfl⟩
  · rename_i hstored
    have hst : s.conn.m_state = .kDisconnecting := h.asked (Or.inl ⟨thread, hstored⟩)
    exact ⟨h.setState rfl (Or.inl rfl) (fun _ => hst) id fun msg hm => Or.inl hm, .refl _, rfl, id⟩

/-- A step of `shutDown()` in the loop thread. -/
theorem shutDown_shutOk (h : s.ShutOk) (hs : s.shutDown = some s') :
    s'.ShutOk ∧ Quiet s.conn s'.conn ∧ s.pc ≠ .drained ∧
      (s.conn.m_state = .kDisconnecting → s'.conn.m_state = .kDisconnecting) := by
  unfold shutDown at hs
  split at hs
  · rename_i hpc
    cases hs
    split
    · exact ⟨h.setState rfl (Or.inl rfl) (fun hask => h.asked (asked_stays hask rfl rfl (by simp)))
        (fun hd => by cases hd) fun msg hm => (by cases hm), .refl _, by rw [hpc]; simp, id⟩
    · exact ⟨h, .refl _, by rw [hpc]; simp, id⟩
  · rename_i hpc
    cases hs
    exact ⟨h.setState rfl (Or.inr rfl) (fun _ => rfl) (fun hd => by cases hd) fun msg hm => (by cases hm),
      ⟨rfl, rfl, id⟩, by rw [hpc]; simp, fun _ => rfl⟩
  · rename_i hpc
    cases hs
    have hst := h.asked (Or.inr (Or.inr hpc))
    refine ⟨(h.shutDownInLoop _ hst (by simp) (by simp) rfl).1, quiet_shutDownInLoop _, by rw [hpc]; simp, ?_⟩
    exact fun _ => (shutDownInLoop_frame s.conn).2.2.1.trans hst
  · cases hs
  · cases hs

variable [LawfulByteQueue Q]

/-- `sendInLoop` of a send that had passed its test. -/
theorem sendInLoop_shutOk (h : s.ShutOk) {msg : Bytes} {r : Except ℕ ℕ} (hpc : s.pc = .sending msg)
    (hr : TcpConnection.faultError r = false) {ep : Epoller} {c : TcpConnection Q}
    (hs : s.conn.sendInLoop s.m_epoller msg r = .ok (ep, c)) :
    ({ s with m_epoller := ep, conn := c, pc := .idle } : Shutdown Q).ShutOk ∧ s.conn.shutWr = false := by
  have h1 := (sendInLoop_sends hs).state
  have h2 := (sendInLoop_sends hs).shutWr
  -- the write side is open: no `shutDownInLoop` ran since the test
  have hopen : s.conn.shutWr = false := by
    by_contra hshut
    exact (h.shut (by simpa using hshut)).2.2 msg hpc
  refine ⟨⟨sendInLoop_stream hr h.stream hs, ?_, fun hask => ?_, fun hd => (by cases hd), fun hshut => ?_⟩, hopen⟩
  · rw [h1]
    exact h.state
  · rw [h1]
    exact h.asked (asked_stays hask rfl rfl (by simp))
  · exact absurd (hopen.symm.trans (h2.symm.trans hshut)) (by simp)

/-- The first half of a write event. -/
theorem handleWrite_shutOk (h : s.ShutOk) {r : Except ℕ ℕ} {ep : Epoller}
    {c : TcpConnection Q} {b : Bool} (hs : s.conn.drain s.m_epoller r = .ok (ep, c, b)) :
    ({ s with m_epoller := ep, conn := c, pc := if b then .drained else .idle } : Shutdown Q).ShutOk ∧
      (s.conn.shutWr = true → Quiet s.conn c) := by
  obtain ⟨h1, h2, h3, h4, h5, -⟩ := drain_spec h.stream h.open hs
  refine ⟨⟨h1, ?_, fun hask => ?_, fun hd => ?_, fun hshut => ?_⟩, fun hshut => ?_⟩
  · rw [h2]
    exact h.state
  · rw [h2]
    exact h.asked (asked_stays hask rfl rfl (by cases b <;> simp))
  · cases b with
    | false => cases hd
    | true => exact h4 rfl
  · obtain ⟨k1, k2, -⟩ := h.shut (h3.symm.trans hshut)
    obtain ⟨rfl, rfl⟩ := h5 k2
    exact ⟨k1, k2, by simp⟩
  · -- the buffer is empty since, so there is nothing to write
    obtain ⟨rfl, -⟩ := h5 (h.shut hshut).2.1
    exact .refl _

/-- **One step** keeps the invariant; after `SHUT_WR` it writes nothing; and a `handleWrite`
that has drained the buffer of a connection to be shut down goes on to `SHUT_WR`. -/
theorem step_shutOk (h : s.ShutOk) {a : ShutdownStep} (hs : s.step a = some s') :
    s'.ShutOk ∧ (s.conn.shutWr = true → Quiet s.conn s'.conn) ∧
      (s.pc = .drained → s.conn.m_state = .kDisconnecting →
        s'.pc = .drained ∧ s'.conn.m_state = .kDisconnecting ∨ s'.conn.shutWr = true) := by
  have hnot : ∀ {p : Prop}, s.pc ≠ .drained → s.pc = .drained → p := fun h1 h2 => absurd h2 h1
  cases a with
  | send msg =>
    simp only [step, Option.ite_none_right_eq_some, Option.some.injEq] at hs
    obtain ⟨hpc, rfl⟩ := hs
    split
    · rename_i hst
      exact ⟨h.setState rfl (Or.inl rfl) (fun hask => h.asked (asked_stays hask rfl rfl (by simp)))
        (fun hd => by cases hd) fun m _ => Or.inr hst, fun _ => .refl _, hnot (by rw [hpc]; simp)⟩
    · exact ⟨h, fun _ => .refl _, hnot (by rw [hpc]; simp)⟩
  | sendInLoop r =>
    simp only [step] at hs
    split at hs
    · rename_i msg hpc
      split at hs
      · cases hs
      rename_i hr
      split at hs
      · rename_i ep c hsend
        cases hs
        obtain ⟨hok, hopen⟩ := sendInLoop_shutOk h hpc (by simpa using hr) hsend
        exact ⟨hok, fun hshut => absurd (hopen.symm.trans hshut) (by simp), hnot (by rw [hpc]; simp)⟩
      · cases hs
    · cases hs
  | handleWrite r =>
    simp only [step] at hs
    split at hs
    · rename_i hpc
      split at hs
      · rename_i ep c b hdrain
        cases hs
        obtain ⟨hok, hquiet⟩ := handleWrite_shutOk h hdrain
        exact ⟨hok, hquiet, hnot (by rw [hpc]; simp)⟩
      · cases hs
    · cases hs
  | drained =>
    simp only [step, Option.ite_none_right_eq_some, Option.some.injEq] at hs
    obtain ⟨hpc, rfl⟩ := hs
    unfold TcpConnection.drained
    split
    · rename_i hst
      obtain ⟨hok, hshut⟩ := h.shutDownInLoop { s with conn := s.conn.shutDownInLoop, pc := .idle } hst
        (by simp) (by simp) rfl
      exact ⟨hok, fun _ => quiet_shutDownInLoop _, fun _ _ => Or.inr (hshut (h.drained hpc))⟩
    · rename_i hst
      exact ⟨h.setState rfl (Or.inl rfl) (fun hask => h.asked (asked_stays hask rfl rfl (by simp)))
        (fun hd => by cases hd) fun m hm => (by cases hm), fun _ => .refl _, fun _ hd => absurd hd hst⟩
  | functor =>
    simp only [step, Option.ite_none_right_eq_some, Option.some.injEq] at hs
    obtain ⟨⟨hpc, hpos⟩, rfl⟩ := hs
    have hst := h.asked (Or.inr (Or.inl hpos))
    obtain ⟨hok, -⟩ := h.shutDownInLoop
      { s with conn := s.conn.shutDownInLoop, functors := s.functors - 1 } hst
      (by simp [hpc]) (by simp [hpc]) rfl
    exact ⟨hok, fun _ => quiet_shutDownInLoop _, hnot (by rw [hpc]; simp)⟩
  | shutDown =>
    obtain ⟨hok, hquiet, hpc, -⟩ := shutDown_shutOk h hs
    exact ⟨hok, fun _ => hquiet, hnot hpc⟩
  | call thread =>
    cases hs
    obtain ⟨hok, hquiet, hpc, hst⟩ := call_shutOk h thread
    exact ⟨hok, fun _ => hquiet, fun h1 h2 => Or.inl ⟨hpc.trans h1, hst h2⟩⟩

omit [LawfulByteQueue Q] in
/-- **One step, and what was sent.** -/
theorem step_sent (h : s.ShutOk) {a : ShutdownStep} (hs : s.step a = some s') :
    s'.conn.sent ++ s'.pc.message.toList = s.conn.sent ++ s.pc.message.toList ++ s.message a := by
  cases a with
  | send msg =>
    simp only [step, Option.ite_none_right_eq_some, Option.some.injEq] at hs
    obtain ⟨hpc, rfl⟩ := hs
    unfold message
    split
    · rw [hpc]
      exact congrArg (· ++ [msg]) (List.append_nil _).symm
    · exact (List.append_nil _).symm
  | sendInLoop r =>
    simp only [step] at hs
    split at hs
    · rename_i msg hpc
      rw [Option.ite_none_left_eq_some] at hs
      obtain ⟨-, hs⟩ := hs
      split at hs
      · rename_i ep c hsend
        cases hs
        rw [hpc, (sendInLoop_sends hsend).sent, if_neg h.open]
        rfl
      · cases hs
    · cases hs
  | handleWrite r =>
    simp only [step, Option.ite_none_right_eq_some] at hs
    obtain ⟨hpc, hs⟩ := hs
    split at hs
    · rename_i ep c b hdrain
      cases hs
      rw [hpc, drain_sent hdrain]
      cases b with
      | false => exact (List.append_nil _).symm
      | true => exact (List.append_nil _).symm
    · cases hs
  | drained =>
    simp only [step, Option.ite_none_right_eq_some, Option.some.injEq] at hs
    obtain ⟨hpc, rfl⟩ := hs
    have hsent : s.conn.drained.sent = s.conn.sent := by
      unfold TcpConnection.drained
      split
      · exact (shutDownInLoop_unsaid _).sent
      · rfl
    rw [hpc, hsent]
    exact (List.append_nil _).symm
  | functor =>
    simp only [step, Option.ite_none_right_eq_some, Option.some.injEq] at hs
    obtain ⟨⟨hpc, -⟩, rfl⟩ := hs
    rw [(shutDownInLoop_unsaid _).sent]
    exact (List.append_nil _).symm
  | shutDown =>
    simp only [step, shutDown] at hs
    split at hs
    · rename_i hpc
      cases hs
      split
      · rw [hpc]
        exact (List.append_nil _).symm
      · exact (List.append_nil _).symm
    · rename_i hpc
      cases hs
      rw [hpc]
      exact (List.append_nil _).symm
    · rename_i hpc
      cases hs
      rw [hpc, (shutDownInLoop_unsaid _).sent]
      exact (List.append_nil _).symm
    · cases hs
    · cases hs
  | call thread =>
    cases hs
    have hsame : (s.call thread).conn.sent = s.conn.sent ∧ (s.call thread).pc = s.pc := by
      unfold call
      dsimp only
      split
      · split
        · exact ⟨rfl, rfl⟩
        · exact ⟨rfl, rfl⟩
      · exact ⟨rfl, rfl⟩
      · exact ⟨rfl, rfl⟩
    rw [hsame.1, hsame.2]
    exact (List.append_nil _).symm

/-! ## Whole runs -/

omit [LawfulByteQueue Q] in
theorem start_shutOk {ep₀ : Epoller} {self loop fd : ℕ} {buffer : Q} {ep : Epoller} {c : TcpConnection Q}
    (hbuf : ByteQueue.readable buffer = [])
    (hc : (TcpConnection.new self loop fd buffer).connectionEstablished ep₀ = .ok (ep, c)) :
    (start ep c).ShutOk := by
  unfold TcpConnection.connectionEstablished TcpConnection.enableReading at hc
  obtain ⟨i, rfl⟩ := setEvents_ok hc
  have hw : Channel.isWriting ⟨fd, 0 ||| kReadEvent, i⟩ = false := isWriting_read fd i
  refine ⟨⟨?_, fun _ => ?_⟩, Or.inl rfl, fun hask => ?_, fun hd => (by cases hd), fun hs => (by cases hs)⟩
  · simpa [start, TcpConnection.output, TcpConnection.new] using hbuf
  · simp only [start, TcpConnection.new, Channel.new, TcpConnection.output, hw, hbuf]
    simp
  · rcases hask with ⟨t, ht⟩ | hask | hask
    · cases ht
    · cases hask
    · cases hask

/-- **Graceful shutdown never truncates the output.** Sends and write events in the loop
thread, with any results of `::write` but a broken pipe, and calls of `shutDown()` from any
thread, in any order:
`SHUT_WR` is issued only with the output buffer empty and all accepted bytes with the kernel;
nothing is written after it; and once `m_state` says `kDisconnecting`, the `handleWrite` that
empties the buffer does not end without it. The messages sent, with that of a send under way, are
those of the sends that passed their test. -/
theorem shutdown_graceful (ep₀ : Epoller) (self loop fd : ℕ) (buffer : Q) {ep : Epoller}
    {c : TcpConnection Q} (hbuf : ByteQueue.readable buffer = [])
    (hc : (TcpConnection.new self loop fd buffer).connectionEstablished ep₀ = .ok (ep, c))
    (steps : List ShutdownStep) {s : Shutdown Q} (hrun : run Shutdown.step (start ep c) steps = some s) :
    (s.conn.shutWr = true → s.conn.output = [] ∧ s.conn.wire = s.conn.sent.flatten ∧
        ∀ msg, s.pc ≠ .sending msg) ∧
      (s.conn.shutWr = true → ∀ more s', run Shutdown.step s more = some s' →
        s'.conn.shutWr = true ∧ s'.conn.trace = s.conn.trace ∧ s'.conn.wire = s.conn.wire) ∧
      (s.conn.m_state = .kDisconnecting → s.conn.output ≠ [] → ∀ r s₁,
        s.step (.handleWrite r) = some s₁ → s₁.conn.output = [] → ∀ more s₂,
        run Shutdown.step s₁ more = some s₂ → s₂.pc = .drained ∨ s₂.conn.shutWr = true) ∧
      s.conn.sent ++ s.pc.message.toList = outputs Shutdown.step message (start ep c) steps := by
  have h : s.ShutOk := run_inv (fun _ _ _ h hs => (step_shutOk h hs).1) (start_shutOk hbuf hc) hrun
  refine ⟨fun hshut => ?_, fun hshut more s' hmore => ?_,
    fun hst hne r s₁ hw hempty more s₂ hmore => ?_, ?_⟩
  · obtain ⟨-, hout, hpc⟩ := h.shut hshut
    have hstream := h.stream.stream
    rw [hout, List.append_nil] at hstream
    exact ⟨hout, hstream, hpc⟩
  · -- once issued, every step is quiet
    have hinv : s'.ShutOk ∧ s'.conn.shutWr = true ∧ s'.conn.trace = s.conn.trace ∧
        s'.conn.wire = s.conn.wire := by
      refine run_inv (I := fun u => u.ShutOk ∧ u.conn.shutWr = true ∧ u.conn.trace = s.conn.trace ∧
        u.conn.wire = s.conn.wire) ?_ ⟨h, hshut, rfl, rfl⟩ hmore
      rintro u a u' ⟨hu, h1, h2, h3⟩ hs
      obtain ⟨hok, hquiet, -⟩ := step_shutOk hu hs
      have hq := hquiet h1
      exact ⟨hok, hq.shut h1, hq.trace.trans h2, hq.wire.trans h3⟩
    exact hinv.2
  · have h₁ := (step_shutOk h hw).1
    simp only [step, Option.ite_none_right_eq_some] at hw
    obtain ⟨hpc, hw⟩ := hw
    split at hw
    · rename_i ep₁ c₁ b hdrain
      obtain ⟨-, hst₁, -, -, -, hb⟩ := drain_spec h.stream h.open hdrain
      cases hw
      -- the buffer got empty, so the test of `m_state` comes next
      have hb := hb hne hempty
      have hinv := run_inv (I := fun u : Shutdown Q => u.ShutOk ∧
          (u.pc = .drained ∧ u.conn.m_state = .kDisconnecting ∨ u.conn.shutWr = true))
        (fun u a u' hu hs => by
          obtain ⟨hok, hquiet, hdr⟩ := step_shutOk hu.1 hs
          refine ⟨hok, ?_⟩
          rcases hu.2 with ⟨h1, h2⟩ | h1
          · exact hdr h1 h2
          · exact Or.inr ((hquiet h1).shut h1))
        ⟨h₁, Or.inl ⟨by simp [hb], hst₁.trans hst⟩⟩ hmore
      exact hinv.2.imp_left And.left
    · cases hw
  · have hsent := run_outputs (C := fun _ _ => True) (I := ShutOk)
      (L := fun s : Shutdown Q => s.conn.sent ++ s.pc.message.toList) (O := message)
      (fun _ _ _ h _ hs => ⟨(step_shutOk h hs).1, step_sent h hs⟩) steps (start_shutOk hbuf hc)
      (along_of_forall _ fun _ _ => trivial) hrun
    have hnone : (start ep c).conn.sent ++ (start ep c).pc.message.toList = [] := by
      unfold TcpConnection.connectionEstablished TcpConnection.enableReading at hc
      obtain ⟨i, rfl⟩ := setEvents_ok hc
      rfl
    rw [hsent, hnone, List.nil_append]

/-- A partial write, a request from another thread while output is pending, and the write
event that empties the buffer. -/
def partialShutdown : List ShutdownStep :=
  [.send [1, 2, 3], .call 7, .sendInLoop (.ok 1), .call 7, .call 7, .functor, .handleWrite (.ok 9), .drained]

theorem shutdown_graceful_partial :
    ∃ (ep : Epoller) (c : TcpConnection Bytes) (s : Shutdown Bytes),
      (TcpConnection.new 0 0 5 ([] : Bytes)).connectionEstablished Epoller.new = .ok (ep, c) ∧
      run Shutdown.step (start ep c) partialShutdown = some s ∧ s.conn.shutWr = true ∧
      s.conn.wire = [1, 2, 3] ∧ s.conn.output = [] :=
  ⟨_, _, _, rfl, rfl, rfl, rfl,
    ((shutdown_graceful Epoller.new 0 0 5 ([] : Bytes) rfl rfl partialShutdown rfl).1 rfl).1⟩

end Shutdown

end MyMuduo
