import MyMuduo.Lib.Run
import MyMuduo.Proof.Epoller

/-!
# The output stream of a connection

A run of one connection interleaves sends, executed in the loop thread as they arrive,
with write events, under any results of `::write` but a broken pipe; the connection may be
shut down or closed meanwhile.

* `StreamOk`: what the kernel took over, followed by the output buffer, is the
  concatenation of the messages, and while the connection is not closed the channel has
  write interest exactly when the buffer holds something. The second part is what makes
  the direct write of `sendInLoop` legal: it is taken only when nothing is queued.
* `step_sent`: `sent` grows by the messages that get past the tests of `send` and `sendInLoop`.
* `output_stream`: **`StreamOk` holds in every state of every run**, for those messages.
-/

namespace MyMuduo

open Lib

/-- A step of a connection in its loop thread. -/
inductive StreamOp where
  | send (msg : Bytes) (r : Except ℕ ℕ)
  | sendInLoop (msg : Bytes) (r : Except ℕ ℕ)
  | handleWrite (r : Except ℕ ℕ)
  | shutDown (inLoopThread : Bool)
  | shutDownInLoop
  | forceClose
  | handleClose
  deriving Repr

/-- A connection with the epoller of its loop. -/
abbrev StreamState (Q : Type) := Epoller × TcpConnection Q

variable {Q : Type} [ByteQueue Q]

/-- One step: a send called in the loop thread, a send queued by another thread, a write
event, or a change of the connection's state. A broken pipe is not among the results. -/
def StreamState.step (s : StreamState Q) : StreamOp → Option (StreamState Q)
  | .send msg r =>
    if TcpConnection.faultError r then none
    else ((s.2.send s.1 msg true r).map fun x => (x.1, x.2.1)).toOption
  | .sendInLoop msg r =>
    if TcpConnection.faultError r then none else (s.2.sendInLoop s.1 msg r).toOption
  | .handleWrite r => (s.2.handleWrite s.1 r).toOption
  | .shutDown inLoopThread => some (s.1, (s.2.shutDown inLoopThread).1)
  | .shutDownInLoop => some (s.1, s.2.shutDownInLoop)
  | .forceClose => some (s.1, s.2.forceClose.1)
  | .handleClose => (s.2.handleClose s.1).toOption

/-- The message of a step: of a send while connected, and of a queued one unless closed. -/
def StreamState.message (s : StreamState Q) : StreamOp → List Bytes
  | .send msg _ => if s.2.m_state = .kConnected then [msg] else []
  | .sendInLoop msg _ => if s.2.m_state = .kDisconnected then [] else [msg]
  | .handleWrite _ | .shutDown _ | .shutDownInLoop | .forceClose | .handleClose => []

/-- **The stream invariant.** -/
structure StreamOk (c : TcpConnection Q) : Prop where
  stream : c.wire ++ c.output = c.sent.flatten
  interest : c.m_state ≠ .kDisconnected → (c.m_channel.isWriting = true ↔ c.output ≠ [])

/-- The invariant from the value of the output buffer. -/
theorem StreamOk.of {c : TcpConnection Q} {out : Bytes}
    (hout : ByteQueue.readable c.m_output_buffer = out) (h1 : c.wire ++ out = c.sent.flatten)
    (h2 : c.m_state ≠ .kDisconnected → (c.m_channel.isWriting = true ↔ out ≠ [])) : StreamOk c := by
  subst hout
  exact ⟨h1, h2⟩

/-! ## One step -/

omit [ByteQueue Q] in
theorem toOption_eq_some {α : Type} {x : Except Failure α} {a : α} (h : x.toOption = some a) :
    x = .ok a := by
  cases x with
  | ok b => simpa [Except.toOption] using h
  | error e => simp [Except.toOption] at h

theorem shutDownInLoop_ok {c : TcpConnection Q} (h : StreamOk c) : StreamOk c.shutDownInLoop := by
  unfold TcpConnection.shutDownInLoop
  split
  · exact h
  · exact ⟨h.stream, h.interest⟩

/-- A change of state that does not reach `kDisconnected`, or that drops all interest. -/
theorem StreamOk.setState {c : TcpConnection Q} (h : StreamOk c) {st : ConnectionState}
    (hst : c.m_state ≠ .kDisconnected) : StreamOk { c with m_state := st } :=
  ⟨h.stream, fun _ => h.interest hst⟩

omit [ByteQueue Q] in
theorem accepted_le (r : Except ℕ ℕ) (len : ℕ) : TcpConnection.accepted r len ≤ len := by
  cases r with
  | ok n => exact min_le_right _ _
  | error e => exact Nat.zero_le _

/-- The direct write takes a prefix of the message, and only when nothing is queued. -/
theorem directWrite_spec (c : TcpConnection Q) (msg : Bytes) (r : Except ℕ ℕ) :
    (c.directWrite msg r).2.1 ≤ msg.length ∧ (0 < (c.directWrite msg r).2.1 → c.output = []) ∧
      ((c.directWrite msg r).2.2 = true → TcpConnection.faultError r = true) ∧
      ∃ tr, (c.directWrite msg r).1 =
        { c with trace := tr, wire := c.wire ++ msg.take (c.directWrite msg r).2.1 } := by
  unfold TcpConnection.directWrite
  split
  · rename_i hdir
    dsimp only
    exact ⟨accepted_le r _, fun _ => hdir.2, id, _, rfl⟩
  · exact ⟨Nat.zero_le _, fun h => absurd h (lt_irrefl 0), fun h => absurd h (by simp), c.trace, by simp⟩

/-- **What `sendInLoop` does besides writing**: unless the connection is closed, the message counts as
sent. -/
structure Sends (msg : Bytes) (c c' : TcpConnection Q) : Prop where
  state : c'.m_state = c.m_state
  shutWr : c'.shutWr = c.shutWr
  input : c'.m_input_buffer = c.m_input_buffer
  parser : c'.m_httpParser = c.m_httpParser
  sent : c'.sent = c.sent ++ if c.m_state = .kDisconnected then [] else [msg]

theorem sendInLoop_sends {ep ep' : Epoller} {c c' : TcpConnection Q} {msg : Bytes} {r : Except ℕ ℕ}
    (hs : c.sendInLoop ep msg r = .ok (ep', c')) : Sends msg c c' := by
  unfold TcpConnection.sendInLoop at hs
  split at hs
  · rename_i hst
    cases hs
    exact ⟨rfl, rfl, rfl, rfl, by rw [if_pos hst, List.append_nil]⟩
  rename_i hst
  obtain ⟨-, -, -, tr, hc₁⟩ := directWrite_spec { c with sent := c.sent ++ [msg] } msg r
  rcases hdir : TcpConnection.directWrite { c with sent := c.sent ++ [msg] } msg r with ⟨c₁, n, f⟩
  rw [hdir] at hs hc₁
  dsimp only at hs hc₁
  have hsends : Sends msg c c₁ := by
    rw [hc₁]
    exact ⟨rfl, rfl, rfl, rfl, by rw [if_neg hst]⟩
  split at hs
  · split at hs
    · obtain ⟨i, rfl⟩ := setEvents_ok hs
      exact ⟨hsends.state, hsends.shutWr, hsends.input, hsends.parser, hsends.sent⟩
    · cases hs
      exact ⟨hsends.state, hsends.shutWr, hsends.input, hsends.parser, hsends.sent⟩
  · cases hs
    exact hsends

/-- What `handleWrite` leaves as it is. -/
structure Unsaid (c c' : TcpConnection Q) : Prop where
  state : c'.m_state = c.m_state
  input : c'.m_input_buffer = c.m_input_buffer
  parser : c'.m_httpParser = c.m_httpParser
  sent : c'.sent = c.sent

omit [ByteQueue Q] in
theorem shutDownInLoop_unsaid (c : TcpConnection Q) : Unsaid c c.shutDownInLoop := by
  unfold TcpConnection.shutDownInLoop
  split
  · exact ⟨rfl, rfl, rfl, rfl⟩
  · exact ⟨rfl, rfl, rfl, rfl⟩

theorem handleWrite_unsaid {ep ep' : Epoller} {c c' : TcpConnection Q} {r : Except ℕ ℕ}
    (hs : c.handleWrite ep r = .ok (ep', c')) : Unsaid c c' := by
  unfold TcpConnection.handleWrite at hs
  split at hs
  swap
  · cases hs
    exact ⟨rfl, rfl, rfl, rfl⟩
  dsimp only at hs
  split at hs
  swap
  · cases hs
    exact ⟨rfl, rfl, rfl, rfl⟩
  split at hs
  swap
  · cases hs
    exact ⟨rfl, rfl, rfl, rfl⟩
  split at hs
  · rename_i ep₁ c₁ hset
    cases hs
    obtain ⟨i, rfl⟩ := setEvents_ok hset
    split
    · obtain ⟨h1, h2, h3, h4⟩ := shutDownInLoop_unsaid _
      exact ⟨h1, h2, h3, h4⟩
    · exact ⟨rfl, rfl, rfl, rfl⟩
  · cases hs

/-- How many of the `len` bytes the direct write of `sendInLoop` gets rid of. -/
def TcpConnection.wroteNum (c : TcpConnection Q) (len : ℕ) (r : Except ℕ ℕ) : ℕ :=
  if !c.m_channel.isWriting ∧ c.output = [] then TcpConnection.accepted r len else 0

theorem directWrite_wroteNum (c : TcpConnection Q) (msg : Bytes) (r : Except ℕ ℕ) :
    (c.directWrite msg r).2.1 = c.wroteNum msg.length r := by
  unfold TcpConnection.directWrite TcpConnection.wroteNum
  split
  · rfl
  · rfl

/-- **`sendInLoop`, with no broken pipe, on an output buffer that takes the rest of the message.** The
result of `::write` does not matter to a message without bytes. -/
theorem sendInLoop_takes {ep ep' : Epoller} {c c' : TcpConnection Q} {msg : Bytes} {r : Except ℕ ℕ}
    (hr : TcpConnection.faultError r = false ∨ msg = []) (h : StreamOk c)
    (happ : ByteQueue.readable (ByteQueue.append c.m_output_buffer (msg.drop (c.wroteNum msg.length r))) =
      c.output ++ msg.drop (c.wroteNum msg.length r))
    (hs : c.sendInLoop ep msg r = .ok (ep', c')) : StreamOk c' := by
  unfold TcpConnection.sendInLoop at hs
  split at hs
  · cases hs; exact h
  rename_i hst
  have hi := h.interest hst
  obtain ⟨hn, hempty, hfault, tr, hc₁⟩ :=
    directWrite_spec { c with sent := c.sent ++ [msg] } msg r
  have hnum : _ = c.wroteNum msg.length r := directWrite_wroteNum { c with sent := c.sent ++ [msg] } msg r
  rw [← hnum] at happ
  rcases hdir : TcpConnection.directWrite { c with sent := c.sent ++ [msg] } msg r with ⟨c₁, n, f⟩
  rw [hdir] at hs hn hempty hfault hc₁ happ
  simp only at hs hn hempty hfault hc₁ happ
  have hout : c₁.m_output_buffer = c.m_output_buffer := by rw [hc₁]
  have hwire : c₁.wire = c.wire ++ msg.take n := by rw [hc₁]
  have hsent : c₁.sent = c.sent ++ [msg] := by rw [hc₁]
  have hch : c₁.m_channel = c.m_channel := by rw [hc₁]
  have hempty' : 0 < n → c.output = [] := hempty
  have hout' : c₁.output = c.output := by simp only [TcpConnection.output, hout]
  have hwr : c₁.m_channel.isWriting = true ↔ c.output ≠ [] := by rw [hch]; exact hi
  -- the bytes written and the old queue come before the rest of the message
  have hbytes : c₁.wire ++ (c.output ++ msg.drop n) = c₁.sent.flatten := by
    have hcomm : msg.take n ++ c.output = c.output ++ msg.take n := by
      rcases Nat.eq_zero_or_pos n with h0 | h0
      · simp [h0]
      · simp [hempty' h0]
    calc c₁.wire ++ (c.output ++ msg.drop n)
        = c.wire ++ (msg.take n ++ c.output) ++ msg.drop n := by rw [hwire]; simp
      _ = c.wire ++ c.output ++ (msg.take n ++ msg.drop n) := by rw [hcomm]; simp
      _ = c₁.sent.flatten := by rw [h.stream, List.take_append_drop, hsent]; simp
  split at hs
  · rename_i hrem
    have hne : msg.drop n ≠ [] := by rw [Ne, List.drop_eq_nil_iff]; omega
    have hne' : c.output ++ msg.drop n ≠ [] := by simp [hne]
    rw [← hout] at happ
    split at hs
    · obtain ⟨i, rfl⟩ := setEvents_ok hs
      exact .of happ hbytes fun _ => by simp [hne']
    · rename_i hw
      cases hs
      exact .of happ hbytes fun _ => by simpa [hne'] using hw
  · rename_i hrem
    cases hs
    have hnil : msg.drop n = [] := by
      rw [List.drop_eq_nil_iff]
      rcases hr with hr | hr
      · have hf : f = false := by
          by_contra hf
          rw [hfault (by simpa using hf)] at hr
          simp at hr
        simp only [hf, Bool.not_false, true_and, not_lt] at hrem
        omega
      · simp [hr]
    rw [hnil, List.append_nil] at hbytes
    exact .of hout' hbytes fun _ => hwr

/-- **A write event, on an output buffer that lets bytes be taken out.** -/
theorem handleWrite_takes {ep ep' : Epoller} {c c' : TcpConnection Q} {r : Except ℕ ℕ}
    (hret : ∀ n, n ≤ c.output.length →
      ByteQueue.readable (ByteQueue.retrieve c.m_output_buffer n) = c.output.drop n)
    (h : StreamOk c) (hs : c.handleWrite ep r = .ok (ep', c')) : StreamOk c' := by
  unfold TcpConnection.handleWrite at hs
  split at hs
  · rename_i hw
    dsimp only at hs
    set n := TcpConnection.accepted r c.output.length
    have hle : n ≤ c.output.length := accepted_le r _
    split at hs
    · rename_i hpos
      have hout : ByteQueue.readable (ByteQueue.retrieve c.m_output_buffer n) = c.output.drop n :=
        hret n hle
      have hstream : c.wire ++ c.output.take n ++ c.output.drop n = c.sent.flatten := by
        rw [List.append_assoc, List.take_append_drop]; exact h.stream
      split at hs
      · rename_i hempty
        -- the buffer is drained: write interest is dropped
        have hempty : c.output.drop n = [] := by rw [← hout]; exact hempty
        have key : ∀ i, StreamOk (Q := Q)
            { c with trace := c.trace ++ [.write], wire := c.wire ++ c.output.take n,
                     m_output_buffer := ByteQueue.retrieve c.m_output_buffer n,
                     m_channel := ⟨c.m_channel.m_fd, c.m_channel.m_events &&& ~~~kWriteEvent, i⟩ } := by
          intro i
          exact .of hout hstream fun _ => by rw [isWriting_andNot, hempty]; simp
        split at hs
        · rename_i ep₁ c₁ hdis
          obtain ⟨i, rfl⟩ := setEvents_ok hdis
          cases hs
          split
          · exact shutDownInLoop_ok (key i)
          · exact key i
        · cases hs
      · rename_i hleft
        cases hs
        have hleft : c.output.drop n ≠ [] := by rw [← hout]; exact hleft
        exact .of hout hstream fun _ => by simp only [hw, true_iff]; exact hleft
    · rename_i hpos
      have h0 : n = 0 := by omega
      cases hs
      exact ⟨by simp only [h0, List.take_zero, List.append_nil]; exact h.stream, h.interest⟩
  · cases hs; exact h

variable [LawfulByteQueue Q]

/-- **`sendInLoop`, with no broken pipe.** -/
theorem sendInLoop_stream {ep ep' : Epoller} {c c' : TcpConnection Q} {msg : Bytes}
    {r : Except ℕ ℕ} (hr : TcpConnection.faultError r = false) (h : StreamOk c)
    (hs : c.sendInLoop ep msg r = .ok (ep', c')) : StreamOk c' :=
  sendInLoop_takes (Or.inl hr) h (LawfulByteQueue.readable_append _ _) hs

/-- **A write event.** -/
theorem handleWrite_stream {ep ep' : Epoller} {c c' : TcpConnection Q} {r : Except ℕ ℕ}
    (h : StreamOk c) (hs : c.handleWrite ep r = .ok (ep', c')) : StreamOk c' :=
  handleWrite_takes (fun n hn => LawfulByteQueue.readable_retrieve _ n hn) h hs

/-- **One step keeps the stream.** -/
theorem step_stream {s s' : StreamState Q} {op : StreamOp} (h : StreamOk s.2)
    (hs : s.step op = some s') : StreamOk s'.2 := by
  cases op with
  | send msg r =>
    simp only [StreamState.step] at hs
    split at hs
    · cases hs
    rename_i hr
    -- in the loop thread `send` is `sendInLoop`, or nothing
    obtain ⟨⟨ep, c, d⟩, hx, rfl⟩ : ∃ x, s.2.send s.1 msg true r = .ok x ∧ s' = (x.1, x.2.1) := by
      have := toOption_eq_some hs
      cases hsend : s.2.send s.1 msg true r with
      | ok x => rw [hsend] at this; cases this; exact ⟨x, rfl, rfl⟩
      | error e => rw [hsend] at this; cases this
    unfold TcpConnection.send at hx
    split at hx
    · simp only [if_true] at hx
      split at hx
      · rename_i ep₁ c₁ hsend
        cases hx
        exact sendInLoop_stream (by simpa using hr) h hsend
      · cases hx
    · cases hx; exact h
  | sendInLoop msg r =>
    simp only [StreamState.step] at hs
    split at hs
    · cases hs
    rename_i hr
    exact sendInLoop_stream (by simpa using hr) h (toOption_eq_some hs)
  | handleWrite r => exact handleWrite_stream h (toOption_eq_some hs)
  | shutDown inLoopThread =>
    cases hs
    simp only [TcpConnection.shutDown]
    split
    · rename_i hst
      have h' : StreamOk { s.2 with m_state := .kDisconnecting } := h.setState (by rw [hst]; decide)
      split
      · exact shutDownInLoop_ok h'
      · exact h'
    · exact h
  | shutDownInLoop => cases hs; exact shutDownInLoop_ok h
  | forceClose =>
    cases hs
    simp only [TcpConnection.forceClose]
    split
    · rename_i hst
      exact h.setState (by rcases hst with hst | hst <;> rw [hst] <;> decide)
    · exact h
  | handleClose =>
    have hx := toOption_eq_some hs
    unfold TcpConnection.handleClose at hx
    split at hx
    · obtain ⟨i, hi⟩ := setEvents_ok hx
      rw [hi]
      -- interest is given up, but the state is the one that asks for none
      exact ⟨h.stream, fun hne => absurd rfl hne⟩
    · cases hx

omit [LawfulByteQueue Q] in
/-- **One step, and what was sent.** -/
theorem step_sent {s s' : StreamState Q} {op : StreamOp} (hs : s.step op = some s') :
    s'.2.sent = s.2.sent ++ s.message op := by
  cases op with
  | send msg r =>
    simp only [StreamState.step, Option.ite_none_left_eq_some] at hs
    have hx := toOption_eq_some hs.2
    unfold TcpConnection.send at hx
    unfold StreamState.message
    split at hx
    · rename_i hst
      rw [if_pos rfl] at hx
      split at hx
      · rename_i ep c hsend
        cases hx
        dsimp only
        rw [if_pos hst, (sendInLoop_sends hsend).sent, if_neg (by rw [hst]; decide)]
      · cases hx
    · rename_i hst
      cases hx
      dsimp only
      rw [if_neg hst, List.append_nil]
  | sendInLoop msg r =>
    simp only [StreamState.step, Option.ite_none_left_eq_some] at hs
    exact (sendInLoop_sends (toOption_eq_some hs.2)).sent
  | handleWrite r =>
    rw [(handleWrite_unsaid (toOption_eq_some hs)).sent]
    exact (List.append_nil _).symm
  | shutDown inLoopThread =>
    cases hs
    simp only [TcpConnection.shutDown, StreamState.message, List.append_nil]
    split
    · split
      · rw [(shutDownInLoop_unsaid _).sent]
      · rfl
    · rfl
  | shutDownInLoop =>
    cases hs
    rw [(shutDownInLoop_unsaid _).sent]
    exact (List.append_nil _).symm
  | forceClose =>
    cases hs
    simp only [TcpConnection.forceClose, StreamState.message, List.append_nil]
    split
    · rfl
    · rfl
  | handleClose =>
    have hx := toOption_eq_some hs
    unfold TcpConnection.handleClose at hx
    split at hx
    · obtain ⟨i, hi⟩ := setEvents_ok hx
      rw [hi]
      exact (List.append_nil _).symm
    · cases hx

/-! ## Whole runs -/

/-- **The output stream is intact.** From a connection just established, in every state of
every run: the bytes the kernel accepted, followed by the bytes in the output buffer, are
the concatenation of the messages in the order `sendInLoop` worked on them, which are those of
the sends made while connected and of the queued ones that came while not closed; and unless
the connection is closed, the channel has write interest exactly when the buffer is not
empty. -/
theorem output_stream (ep₀ : Epoller) (self loop fd : ℕ) (buffer : Q) {ep : Epoller}
    {c : TcpConnection Q} (hbuf : ByteQueue.readable buffer = [])
    (hc : (TcpConnection.new self loop fd buffer).connectionEstablished ep₀ = .ok (ep, c))
    (ops : List StreamOp) {s : StreamState Q}
    (hrun : run StreamState.step ((ep, c) : StreamState Q) ops = some s) :
    s.2.wire ++ s.2.output = s.2.sent.flatten ∧
      s.2.sent = outputs StreamState.step StreamState.message ((ep, c) : StreamState Q) ops ∧
      (s.2.m_state ≠ .kDisconnected → (s.2.m_channel.isWriting = true ↔ s.2.output ≠ [])) := by
  unfold TcpConnection.connectionEstablished TcpConnection.enableReading at hc
  obtain ⟨i, rfl⟩ := setEvents_ok hc
  have h0 : StreamOk { TcpConnection.new self loop fd buffer with
      m_state := .kConnected, m_channel := ⟨fd, 0 ||| kReadEvent, i⟩ } := by
    have hw : Channel.isWriting ⟨fd, 0 ||| kReadEvent, i⟩ = false := isWriting_read fd i
    refine ⟨by simpa [TcpConnection.output, TcpConnection.new] using hbuf, fun _ => ?_⟩
    simp only [TcpConnection.output, TcpConnection.new, hw, hbuf]
    simp
  have h := run_inv (I := fun s : StreamState Q => StreamOk s.2)
    (fun _ _ _ hI hs => step_stream hI hs) h0 hrun
  have hsent := run_outputs (C := fun _ _ => True) (I := fun _ => True)
    (L := fun s : StreamState Q => s.2.sent) (O := StreamState.message)
    (fun _ _ _ _ _ hs => ⟨trivial, step_sent hs⟩) ops trivial (along_of_forall _ fun _ _ => trivial) hrun
  exact ⟨h.stream, hsent, h.interest⟩

/-- A run with a partial write, a refused one, a queued send and a drain. -/
def streamOps : List StreamOp :=
  [.send [1, 2, 3] (.ok 2), .sendInLoop [4] (.ok 9), .handleWrite (.error EAGAIN), .handleWrite (.ok 2),
    .send [5] (.error EWOULDBLOCK)]

theorem output_stream_partial :
    ∃ (ep : Epoller) (c : TcpConnection Bytes) (s : StreamState Bytes),
      (TcpConnection.new 0 0 5 ([] : Bytes)).connectionEstablished Epoller.new = .ok (ep, c) ∧
      run StreamState.step ((ep, c) : StreamState Bytes) streamOps = some s ∧
      s.2.wire = [1, 2, 3, 4] ∧ s.2.output = [5] ∧ s.2.sent = [[1, 2, 3], [4], [5]] ∧
      s.2.wire ++ s.2.output = s.2.sent.flatten :=
  ⟨_, _, _, rfl, rfl, rfl, rfl, rfl,
    (output_stream .new 0 0 5 ([] : Bytes) rfl rfl streamOps rfl).1⟩

end MyMuduo
