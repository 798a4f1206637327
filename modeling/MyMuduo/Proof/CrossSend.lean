import MyMuduo.Proof.Buffer
import MyMuduo.Proof.ConnectionLife
import MyMuduo.Proof.Shutdown
import MyMuduo.Spec.CrossSend

/-!
# Sends from other threads are faithful

A queued send is a pointer. It stays good as long as its thread leaves the bytes alone: `retrieveAll`
only moves the indices, but the next `append` writes over them from `kPrePendIndex` on, or moves the
vector to another block. And what is queued has no part in the decision to shut down: a
`shutDownInLoop` that runs while sends are on their way looks at the output buffer only.

* `Faithful`: every accepted send is on its way or in the output stream, with the bytes it was called
  with, in the order of the calls of its thread, and ahead of `SHUT_WR`.
* `Sound`: a step that leaves the bytes of queued sends alone, lets `SHUT_WR` wait for them, and does
  not slide the output buffer.
* `send_faithful`: **in every run of such steps every state is faithful.**
-/

namespace MyMuduo

open Lib

/-! ## The connection -/

section

variable {Q : Type} [ByteQueue Q] {ep ep' : Epoller} {c c' : TcpConnection Q}

/-- What `sendInLoop` leaves in the output buffer. -/
theorem sendInLoop_buffer {msg : Bytes} {r : Except ℕ ℕ} (hst : c.m_state ≠ .kDisconnected)
    (hs : c.sendInLoop ep msg r = .ok (ep', c')) :
    c'.sent = c.sent ++ [msg] ∧ (c'.m_output_buffer = c.m_output_buffer ∨
      msg ≠ [] ∧ c'.m_output_buffer = ByteQueue.append c.m_output_buffer (msg.drop (c.wroteNum msg.length r))) := by
  unfold TcpConnection.sendInLoop at hs
  rw [if_neg hst] at hs
  obtain ⟨-, -, -, tr, hc₁⟩ := directWrite_spec { c with sent := c.sent ++ [msg] } msg r
  have hnum : _ = c.wroteNum msg.length r := directWrite_wroteNum { c with sent := c.sent ++ [msg] } msg r
  rcases hdir : TcpConnection.directWrite { c with sent := c.sent ++ [msg] } msg r with ⟨c₁, n, f⟩
  rw [hdir] at hs hc₁ hnum
  simp only at hs hc₁ hnum
  have hout : c₁.m_output_buffer = c.m_output_buffer := by rw [hc₁]
  have hsent : c₁.sent = c.sent ++ [msg] := by rw [hc₁]
  rw [← hnum]
  split at hs
  · rename_i hrem
    have hne : msg ≠ [] := by
      rintro rfl
      simp at hrem
    split at hs
    · obtain ⟨i, rfl⟩ := setEvents_ok hs
      exact ⟨hsent, Or.inr ⟨hne, by simp only [hout]⟩⟩
    · cases hs
      exact ⟨hsent, Or.inr ⟨hne, by simp only [hout]⟩⟩
  · cases hs
    exact ⟨hsent, Or.inl hout⟩

/-- What the first half of `handleWrite` leaves in the output buffer. -/
theorem drain_buffer {r : Except ℕ ℕ} {b : Bool} (hs : c.drain ep r = .ok (ep', c', b)) :
    c'.sent = c.sent ∧ (c'.m_output_buffer = c.m_output_buffer ∨
      ∃ n, c'.m_output_buffer = ByteQueue.retrieve c.m_output_buffer n) := by
  unfold TcpConnection.drain at hs
  split at hs
  · dsimp only at hs
    split at hs
    · split at hs
      · split at hs
        · rename_i hdis
          obtain ⟨i, rfl⟩ := setEvents_ok hdis
          cases hs
          exact ⟨rfl, Or.inr ⟨_, rfl⟩⟩
        · cases hs
      · cases hs
        exact ⟨rfl, Or.inr ⟨_, rfl⟩⟩
    · cases hs
      exact ⟨rfl, Or.inl rfl⟩
  · cases hs
    exact ⟨rfl, Or.inl rfl⟩

/-- The first half of `handleWrite` returns, and leaves a live connection live. -/
theorem drain_leads (h : At .live ep c) (r : Except ℕ ℕ) :
    ∃ ep' c' b, c.drain ep r = .ok (ep', c', b) ∧ At .live ep' c' := by
  obtain ⟨ep', c', hw, hl⟩ := handleWrite_leads h (by simp) r
  rw [drain_drained] at hw
  cases hd : c.drain ep r with
  | error e =>
    rw [hd] at hw
    simp [Except.map] at hw
  | ok x =>
    obtain ⟨ep₁, c₁, b⟩ := x
    rw [hd] at hw
    simp only [Except.map, Except.ok.injEq, Prod.mk.injEq] at hw
    obtain ⟨rfl, rfl⟩ := hw
    -- the second half changes nothing that a live connection is made of
    have hsame : ∀ c₂ : TcpConnection Q, (if b = true then c₂.drained else c₂).m_state = c₂.m_state ∧
        (if b = true then c₂.drained else c₂).m_channel = c₂.m_channel ∧
        (if b = true then c₂.drained else c₂).trace = c₂.trace ∧
        (if b = true then c₂.drained else c₂).self = c₂.self := by
      intro c₂
      unfold TcpConnection.drained TcpConnection.shutDownInLoop
      split
      · split
        · split
          · exact ⟨rfl, rfl, rfl, rfl⟩
          · exact ⟨rfl, rfl, rfl, rfl⟩
        · exact ⟨rfl, rfl, rfl, rfl⟩
      · exact ⟨rfl, rfl, rfl, rfl⟩
    obtain ⟨h1, h2, h3, h4⟩ := hsame c₁
    obtain ⟨k1, k2, k3, k4, k5⟩ := hl.at_
    rw [h1] at k1
    rw [h2] at k2 k4 k5
    rw [h3] at k3
    rw [h4] at k4 k5
    exact ⟨ep₁, c₁, b, rfl, ⟨k1, k2, k3, k4, k5⟩⟩

end

/-! ## The buffers of the threads -/

namespace Buffer

variable {b : Buffer}

/-- Making room keeps the bytes that are there. -/
theorem ensureWriteableBytes_slice (h : b.Ok) (len : ℕ) :
    b.m_buffer.length ≤ (b.ensureWriteableBytes len).m_buffer.length ∧
      ∀ i j, i ≤ j → j ≤ b.m_buffer.length →
        slice (b.ensureWriteableBytes len).m_buffer i j = slice b.m_buffer i j := by
  have hbound := h.bound
  unfold ensureWriteableBytes
  split
  · exact ⟨le_rfl, fun _ _ _ _ => rfl⟩
  · rename_i hr
    split
    · exact ⟨le_rfl, fun _ _ _ _ => rfl⟩
    · simp only [writeableBytes] at hr ⊢
      have hle : b.m_buffer.length ≤ b.m_write_index + len := by omega
      exact ⟨by rw [length_resize hle]; exact hle, fun i j hij hj => slice_resize hle hij hj⟩

/-- The block does not get smaller. -/
theorem append_length (h : b.Ok) (data : Bytes) :
    b.m_buffer.length ≤ (b.append data).m_buffer.length := by
  obtain ⟨-, hroom⟩ := ensureWriteableBytes_ok h data.length
  have hlen : (b.append data).m_buffer.length = (b.ensureWriteableBytes data.length).m_buffer.length :=
    length_overwrite hroom
  rw [hlen]
  exact (ensureWriteableBytes_slice h data.length).1

/-- Bytes that an `append` does not write over are still there. -/
theorem append_slice (h : b.Ok) {data : Bytes} {i j : ℕ} (hij : i ≤ j) (hj : j ≤ b.m_buffer.length)
    (hd : data = [] ∨ j ≤ (b.ensureWriteableBytes data.length).m_write_index ∨
      (b.ensureWriteableBytes data.length).m_write_index + data.length ≤ i) :
    slice (b.append data).m_buffer i j = slice b.m_buffer i j := by
  obtain ⟨-, hroom⟩ := ensureWriteableBytes_ok h data.length
  rw [← (ensureWriteableBytes_slice h data.length).2 i j hij hj]
  rcases hd with hd | hd
  · subst hd
    simp [append, overwrite]
  · exact slice_overwrite_disjoint hroom hd

end Buffer

def SendFunctor.send : SendFunctor → Option QueuedSend
  | .sendInLoop q => some q
  | .shutDownInLoop => none

namespace CrossSend

variable {s s' : CrossSend} {t b : ℕ}

/-! ## What is on its way -/

/-- The sends in the queue, oldest first. -/
def queuedSends (s : CrossSend) : List QueuedSend := s.functors.filterMap SendFunctor.send

/-- The send that the thread has made the test for and not queued yet. -/
def unqueued (s : CrossSend) (t : ℕ) : List Bytes :=
  match s.threads t with
  | .sending b => [(s.buffers t b).buf.readable]
  | _ => []

/-- The accepted sends of a thread that `sendInLoop` was not called for yet, oldest first. -/
def onWay (s : CrossSend) : Option ℕ → List Bytes
  | none => s.pc.message.toList
  | some t => (s.queuedSends.filter (·.thread = t)).map QueuedSend.msg ++ s.unqueued t

/-- The sends of a thread. -/
def sendsOf (t : Option ℕ) (l : List (Option ℕ × Bytes)) : List Bytes := (l.filter (·.1 = t)).map Prod.snd

/-- **Every accepted send is faithful**: it is on its way, or its bytes are in the output stream, in the
order in which its thread made its calls; and when the write side is shut down, no byte is on its way
or left in the output buffer. -/
structure Faithful (s : CrossSend) : Prop where
  running : s.failed = none
  stream : s.conn.wire ++ s.conn.output = (s.worked.map Prod.snd).flatten
  order : ∀ t, sendsOf t s.worked ++ s.onWay t = sendsOf t s.calls
  shut : s.conn.shutWr = true → s.conn.output = [] ∧ ∀ t, ∀ msg ∈ s.onWay t, msg = []

/-! ## The condition on the steps -/

/-- No byte of another thread's send is on its way. -/
def Settled (s : CrossSend) : Prop :=
  (∀ q ∈ s.queuedSends, q.len = 0) ∧ ∀ t, t < s.numThreads → ∀ msg ∈ s.unqueued t, msg = []

instance (s : CrossSend) : Decidable s.Settled := inferInstanceAs (Decidable (_ ∧ _))

/-- `shutDownInLoop` leaves the write side open, or shuts it down with no byte on its way. -/
def Clear (s : CrossSend) : Prop := s.conn.m_channel.isWriting = true ∨ s.Settled

instance (s : CrossSend) : Decidable s.Clear := inferInstanceAs (Decidable (_ ∨ _))

/-- `sendInLoop` of `len` bytes does not slide the output buffer. -/
def Fits (s : CrossSend) (len : ℕ) (r : Except ℕ ℕ) : Prop :=
  ¬s.conn.m_output_buffer.Slides (len - s.conn.wroteNum len r)

instance (s : CrossSend) (len : ℕ) (r : Except ℕ ℕ) : Decidable (s.Fits len r) :=
  inferInstanceAs (Decidable (¬_))

/-- An `append` to a buffer leaves the bytes of a queued send where they are. -/
def Spares (s : CrossSend) (t b : ℕ) (data : Bytes) (q : QueuedSend) : Prop :=
  let o := s.buffers t b
  let i := (o.buf.ensureWriteableBytes data.length).m_write_index
  q.thread = t → q.buffer = b → q.len = 0 ∨ o.reallocates data = false ∧
    (data = [] ∨ q.index + q.len ≤ i ∨ i + data.length ≤ q.index)

instance (s : CrossSend) (t b : ℕ) (data : Bytes) (q : QueuedSend) : Decidable (s.Spares t b data q) :=
  inferInstanceAs (Decidable (_ → _ → _ ∨ _ ∧ (_ ∨ _ ∨ _)))

def FunctorSound (s : CrossSend) (r : Except ℕ ℕ) : SendFunctor → Prop
  | .sendInLoop q => s.Fits q.len r
  | .shutDownInLoop => s.Clear

instance (s : CrossSend) (r : Except ℕ ℕ) : (f : SendFunctor) → Decidable (s.FunctorSound r f)
  | .sendInLoop q => inferInstanceAs (Decidable (s.Fits q.len r))
  | .shutDownInLoop => inferInstanceAs (Decidable s.Clear)

/-- **The condition on a step, from the state before it.** -/
def Sound (s : CrossSend) : CrossStep → Prop
  | .append t b data _ => ∀ q ∈ s.queuedSends, s.Spares t b data q
  | .sendInLoop r => ∀ msg ∈ s.pc.message, s.Fits msg.length r
  | .functor r => ∀ f ∈ s.functors.head?, s.FunctorSound r f
  | .drained => s.conn.m_state = .kDisconnecting → s.Clear
  | .loopShutDown => s.pc = .stored → s.Clear
  | _ => True

instance (s : CrossSend) : (a : CrossStep) → Decidable (s.Sound a)
  | .append t b data _ => inferInstanceAs (Decidable (∀ q ∈ s.queuedSends, s.Spares t b data q))
  | .sendInLoop r => inferInstanceAs (Decidable (∀ msg ∈ s.pc.message, s.Fits msg.length r))
  | .functor r => inferInstanceAs (Decidable (∀ f ∈ s.functors.head?, s.FunctorSound r f))
  | .drained => inferInstanceAs (Decidable (s.conn.m_state = .kDisconnecting → s.Clear))
  | .loopShutDown => inferInstanceAs (Decidable (s.pc = .stored → s.Clear))
  | .retrieve _ _ _ | .send _ _ | .shutDown _ | .next _ | .loopSend _ | .handleWrite _ =>
    inferInstanceAs (Decidable True)

/-! ## The invariant -/

/-- The connection and its output stream. -/
structure Wired (ep : Epoller) (c : TcpConnection Buffer) (pc : SenderPc) (worked : List (Option ℕ × Bytes)) :
    Prop where
  live : At .live ep c
  stream : StreamOk c
  output : c.m_output_buffer.Ok
  sent : c.sent = worked.map Prod.snd
  drained : pc = .drained → c.output = []

/-- The pointer of a queued send is good. -/
structure Points (s : CrossSend) (q : QueuedSend) : Prop where
  len : q.len = q.msg.length
  bound : q.index + q.len ≤ (s.buffers q.thread q.buffer).buf.m_buffer.length
  good : q.len ≠ 0 → q.block = (s.buffers q.thread q.buffer).block ∧
    slice (s.buffers q.thread q.buffer).buf.m_buffer q.index (q.index + q.len) = q.msg

/-- `m_state` was written, and `shutDownInLoop` is still to come. -/
def asked (s : CrossSend) : Prop :=
  (∃ t, s.threads t = .stored) ∨ .shutDownInLoop ∈ s.functors ∨ s.pc = .stored

/-- **The invariant.** -/
structure CrossOk (s : CrossSend) : Prop where
  running : s.failed = none
  wired : Wired s.m_epoller s.conn s.pc s.worked
  buffers : ∀ t b, (s.buffers t b).buf.Ok
  points : ∀ q ∈ s.queuedSends, s.Points q
  order : ∀ t, sendsOf t s.worked ++ s.onWay t = sendsOf t s.calls
  asked : s.asked → s.conn.m_state = .kDisconnecting
  shut : s.conn.shutWr = true →
    s.conn.m_state = .kDisconnecting ∧ s.conn.output = [] ∧ s.pc.message = none ∧ s.Settled
  idle : ∀ t, s.numThreads ≤ t → s.threads t = .idle

/-- What is read through a good pointer. -/
theorem Points.read {q : QueuedSend} (h : s.Points q) : s.read q = some q.msg := by
  unfold CrossSend.read
  dsimp only
  have hlen := h.len
  split
  · rename_i h0
    rw [h0] at hlen
    rw [List.length_eq_zero_iff.1 hlen.symm]
  · rename_i h0
    obtain ⟨h1, h2⟩ := h.good h0
    rw [if_pos h1, h2]

/-- The invariant says what it is for. -/
theorem CrossOk.faithful (h : s.CrossOk) : s.Faithful := by
  refine ⟨h.running, ?_, h.order, fun hshut => ?_⟩
  · rw [h.wired.stream.stream, h.wired.sent]
  · obtain ⟨-, hout, hpc, hqueued, hunqueued⟩ := h.shut hshut
    refine ⟨hout, fun t msg hmsg => ?_⟩
    cases t with
    | none =>
      rw [onWay, hpc] at hmsg
      simp at hmsg
    | some t =>
      rcases List.mem_append.1 hmsg with hmsg | hmsg
      · obtain ⟨q, hq, rfl⟩ := List.mem_map.1 hmsg
        have hmem := (List.mem_filter.1 hq).1
        have hlen := (h.points q hmem).len
        rw [hqueued q hmem] at hlen
        exact List.length_eq_zero_iff.1 hlen.symm
      · by_cases ht : t < s.numThreads
        · exact hunqueued t ht msg hmsg
        · rw [unqueued, h.idle t (by omega)] at hmsg
          simp at hmsg

theorem Wired.open {ep : Epoller} {c : TcpConnection Buffer} {pc : SenderPc} {worked : List (Option ℕ × Bytes)}
    (h : Wired ep c pc worked) : c.m_state ≠ .kDisconnected := by
  rcases h.live.state with hst | hst
  · rw [hst]; simp
  · rw [hst]; simp

/-! ## What a step leaves alone -/

theorem Points.of_buffers {q : QueuedSend} (h : s.Points q) (hbuffers : s'.buffers = s.buffers) : s'.Points q := by
  obtain ⟨hlen, hbound, hgood⟩ := h
  refine ⟨hlen, ?_, ?_⟩
  · rw [hbuffers]
    exact hbound
  · rw [hbuffers]
    exact hgood

theorem unqueued_congr (hthread : s'.threads t = s.threads t) (hbuffers : s'.buffers = s.buffers) :
    s'.unqueued t = s.unqueued t := by
  unfold unqueued
  rw [hthread, hbuffers]

/-- A step that accepts no send and hands none to `sendInLoop`. -/
theorem CrossOk.order_congr (h : s.CrossOk) (hpc : s'.pc.message = s.pc.message)
    (hqueue : s'.queuedSends = s.queuedSends) (hun : ∀ t, s'.unqueued t = s.unqueued t)
    (hworked : s'.worked = s.worked) (hcalls : s'.calls = s.calls) (t : Option ℕ) :
    sendsOf t s'.worked ++ s'.onWay t = sendsOf t s'.calls := by
  have hway : s'.onWay t = s.onWay t := by
    cases t with
    | none => rw [onWay, onWay, hpc]
    | some t => rw [onWay, onWay, hqueue, hun]
  rw [hway, hworked, hcalls]
  exact h.order t

/-- A thread that has not written `m_state` adds nothing to `asked`. -/
theorem asked_of_others (hask : s'.asked) (hother : ∀ t', t' ≠ t → s'.threads t' = s.threads t')
    (hself : s'.threads t ≠ .stored) (hfun : .shutDownInLoop ∈ s'.functors → .shutDownInLoop ∈ s.functors)
    (hpc : s'.pc = s.pc) : s.asked := by
  rcases hask with ⟨t', ht'⟩ | hask | hask
  · have hne : t' ≠ t := by
      rintro rfl
      exact hself ht'
    rw [hother t' hne] at ht'
    exact Or.inl ⟨t', ht'⟩
  · exact Or.inr (Or.inl (hfun hask))
  · rw [hpc] at hask
    exact Or.inr (Or.inr hask)

/-- The loop thread, whose next step is not `shutDownInLoop`, adds nothing to `asked`. -/
theorem asked_of_loop (hask : s'.asked) (hthreads : s'.threads = s.threads)
    (hfun : .shutDownInLoop ∈ s'.functors → .shutDownInLoop ∈ s.functors) (hpc : s'.pc ≠ .stored) :
    s.asked := by
  rcases hask with ⟨t', ht'⟩ | hask | hask
  · rw [hthreads] at ht'
    exact Or.inl ⟨t', ht'⟩
  · exact Or.inr (Or.inl (hfun hask))
  · exact absurd hask hpc

theorem CrossOk.idle_others (h : s.CrossOk) (ht : t < s.numThreads)
    (hother : ∀ t', t' ≠ t → s'.threads t' = s.threads t') :
    ∀ t', s.numThreads ≤ t' → s'.threads t' = .idle := by
  intro t' hge
  rw [hother t' (by omega)]
  exact h.idle t' hge

/-! ## The other threads -/

theorem setThread_self (s : CrossSend) (t : ℕ) (pc : ClientPc) : (s.setThread t pc).threads t = pc :=
  Function.update_self _ _ _

theorem setThread_other (s : CrossSend) {t t' : ℕ} (h : t' ≠ t) (pc : ClientPc) :
    (s.setThread t pc).threads t' = s.threads t' := Function.update_of_ne h _ _

theorem setBuffer_self (s : CrossSend) (t b : ℕ) (o : OwnedBuffer) : (s.setBuffer t b o).buffers t b = o := by
  simp [setBuffer]

theorem setBuffer_other (s : CrossSend) {t b t' b' : ℕ} (h : ¬(t' = t ∧ b' = b)) (o : OwnedBuffer) :
    (s.setBuffer t b o).buffers t' b' = s.buffers t' b' := by
  unfold setBuffer
  by_cases ht : t' = t
  · subst ht
    have hb : b' ≠ b := fun hb => h ⟨rfl, hb⟩
    simp [hb]
  · simp [ht]

/-- A thread that is not about to queue a send has none unqueued. -/
theorem unqueued_eq_nil (h : ∀ b, s.threads t ≠ .sending b) : s.unqueued t = [] := by
  unfold unqueued
  split
  · rename_i b hb
    exact absurd hb (h b)
  · rfl

/-- A thread moves outside of `send`. -/
theorem CrossOk.setThread (h : s.CrossOk) {pc : ClientPc} (ht : t < s.numThreads)
    (hold : ∀ b, s.threads t ≠ .sending b) (hnew : ∀ b, pc ≠ .sending b)
    (hstored : pc = .stored → s.conn.m_state = .kDisconnecting) : (s.setThread t pc).CrossOk := by
  have hun : ∀ t', (s.setThread t pc).unqueued t' = s.unqueued t' := by
    intro t'
    by_cases he : t' = t
    · subst he
      rw [unqueued_eq_nil hold, unqueued_eq_nil]
      intro b
      rw [setThread_self]
      exact hnew b
    · exact unqueued_congr (setThread_other s he pc) rfl
  have hother : ∀ t', t' ≠ t → (s.setThread t pc).threads t' = s.threads t' := fun t' he => setThread_other s he pc
  refine ⟨h.running, h.wired, h.buffers, fun q hq => (h.points q hq).of_buffers rfl,
    h.order_congr rfl rfl hun rfl rfl, fun hask => ?_, fun hshut => ?_, h.idle_others ht hother⟩
  · by_cases hpc : pc = .stored
    · exact hstored hpc
    · exact h.asked (asked_of_others hask hother (by rw [setThread_self]; exact hpc) id rfl)
  · obtain ⟨h1, h2, h3, h4, h5⟩ := h.shut hshut
    refine ⟨h1, h2, h3, h4, fun t' ht' => ?_⟩
    rw [hun]
    exact h5 t' ht'

/-- A thread works on one of its buffers, and leaves the bytes of its queued sends alone. -/
theorem CrossOk.setBuffer (h : s.CrossOk) {o : OwnedBuffer} (hidle : s.threads t = .idle) (ho : o.buf.Ok)
    (hpoints : ∀ q ∈ s.queuedSends, q.thread = t → q.buffer = b → (s.setBuffer t b o).Points q) :
    (s.setBuffer t b o).CrossOk := by
  have hun : ∀ t', (s.setBuffer t b o).unqueued t' = s.unqueued t' := by
    intro t'
    unfold unqueued
    have hsame : (s.setBuffer t b o).threads t' = s.threads t' := rfl
    rw [hsame]
    split
    · rename_i b' hb'
      have hne : ¬(t' = t ∧ b' = b) := by
        rintro ⟨rfl, -⟩
        rw [hidle] at hb'
        cases hb'
      rw [setBuffer_other s hne]
    · rfl
  refine ⟨h.running, h.wired, fun t' b' => ?_, fun q hq => ?_, h.order_congr rfl rfl hun rfl rfl, h.asked,
    fun hshut => ?_, h.idle⟩
  · by_cases he : t' = t ∧ b' = b
    · obtain ⟨rfl, rfl⟩ := he
      rw [setBuffer_self]
      exact ho
    · rw [setBuffer_other s he]
      exact h.buffers t' b'
  · by_cases he : q.thread = t ∧ q.buffer = b
    · exact hpoints q hq he.1 he.2
    · obtain ⟨h1, h2, h3⟩ := h.points q hq
      have hsame := setBuffer_other s he o
      exact ⟨h1, by rw [hsame]; exact h2, by rw [hsame]; exact h3⟩
  · obtain ⟨h1, h2, h3, h4, h5⟩ := h.shut hshut
    refine ⟨h1, h2, h3, h4, fun t' ht' => ?_⟩
    rw [hun]
    exact h5 t' ht'

/-- The pointers into a buffer whose block has only got other indices. -/
theorem CrossOk.moveIndices (h : s.CrossOk) {buf : Buffer} (hidle : s.threads t = .idle) (hbuf : buf.Ok)
    (hsame : buf.m_buffer = (s.buffers t b).buf.m_buffer) :
    (s.setBuffer t b { s.buffers t b with buf := buf }).CrossOk := by
  refine h.setBuffer hidle hbuf fun q hq ht hb => ?_
  obtain ⟨h1, h2, h3⟩ := h.points q hq
  rw [ht, hb] at h2 h3
  refine ⟨h1, ?_, ?_⟩
  · rw [ht, hb, setBuffer_self, hsame]
    exact h2
  · rw [ht, hb, setBuffer_self, hsame]
    exact h3

theorem retrieve_m_buffer (buf : Buffer) (len : ℕ) : (buf.retrieve len).m_buffer = buf.m_buffer := by
  unfold Buffer.retrieve
  split
  · rfl
  · rfl

/-- A thread appends to a buffer, and spares the bytes of its queued sends. -/
theorem append_crossOk (h : s.CrossOk) {data : Bytes} {capacity : ℕ} (hidle : s.threads t = .idle)
    (hsound : ∀ q ∈ s.queuedSends, s.Spares t b data q) :
    (s.setBuffer t b ((s.buffers t b).append data capacity)).CrossOk := by
  have hbuf : ((s.buffers t b).append data capacity).buf = (s.buffers t b).buf.append data := by
    unfold OwnedBuffer.append
    split
    · rfl
    · rfl
  have hok := h.buffers t b
  refine h.setBuffer hidle (by rw [hbuf]; exact Buffer.append_ok hok data) fun q hq ht hb => ?_
  obtain ⟨h1, h2, h3⟩ := h.points q hq
  rw [ht, hb] at h2 h3
  refine ⟨h1, ?_, fun h0 => ?_⟩
  · rw [ht, hb, setBuffer_self, hbuf]
    exact h2.trans (Buffer.append_length hok data)
  · obtain ⟨hblock, hslice⟩ := h3 h0
    obtain ⟨hreal, hapart⟩ := (hsound q hq ht hb).resolve_left h0
    have hkeep := Buffer.append_slice hok (Nat.le_add_right _ _) h2 hapart
    have hsame : (s.buffers t b).append data capacity =
        { s.buffers t b with buf := (s.buffers t b).buf.append data } := by
      unfold OwnedBuffer.append
      rw [if_neg (by rw [hreal]; simp)]
    rw [ht, hb, setBuffer_self, hsame]
    exact ⟨hblock, hkeep.trans hslice⟩

theorem sendsOf_append (t : Option ℕ) (l : List (Option ℕ × Bytes)) (x : Option ℕ × Bytes) :
    sendsOf t (l ++ [x]) = sendsOf t l ++ if x.1 = t then [x.2] else [] := by
  unfold sendsOf
  rw [List.filter_append, List.map_append]
  by_cases hx : x.1 = t
  · simp [hx]
  · simp [hx]

theorem sendsOf_self (t : Option ℕ) (l : List (Option ℕ × Bytes)) (msg : Bytes) :
    sendsOf t (l ++ [(t, msg)]) = sendsOf t l ++ [msg] := by
  rw [sendsOf_append, if_pos rfl]

theorem sendsOf_other {t t' : Option ℕ} (h : t' ≠ t) (l : List (Option ℕ × Bytes)) (msg : Bytes) :
    sendsOf t' (l ++ [(t, msg)]) = sendsOf t' l := by
  rw [sendsOf_append, if_neg (Ne.symm h), List.append_nil]

/-- A send of another thread is accepted. -/
theorem send_crossOk (h : s.CrossOk) (ht : t < s.numThreads) (hidle : s.threads t = .idle)
    (hst : s.conn.m_state = .kConnected) :
    ({ s.setThread t (.sending b) with
      calls := s.calls ++ [(some t, (s.buffers t b).buf.readable)] } : CrossSend).CrossOk := by
  set s' : CrossSend := { s.setThread t (.sending b) with
    calls := s.calls ++ [(some t, (s.buffers t b).buf.readable)] }
  have hself : s'.threads t = .sending b := setThread_self s t _
  have hother : ∀ t', t' ≠ t → s'.threads t' = s.threads t' := fun t' he => setThread_other s he _
  refine ⟨h.running, h.wired, h.buffers, fun q hq => (h.points q hq).of_buffers rfl, fun t' => ?_,
    fun hask => h.asked (asked_of_others hask hother (by rw [hself]; simp) id rfl), fun hshut => ?_,
    h.idle_others ht hother⟩
  · -- the send is on its way
    have horder := h.order t'
    show sendsOf t' s.worked ++ s'.onWay t' =
      sendsOf t' (s.calls ++ [(some t, (s.buffers t b).buf.readable)])
    by_cases he : t' = some t
    · subst he
      have hold : s.unqueued t = [] := unqueued_eq_nil fun b' => by rw [hidle]; simp
      have hnew : s'.unqueued t = [(s.buffers t b).buf.readable] := by
        unfold unqueued
        rw [hself]
        rfl
      have hqueue : s'.queuedSends = s.queuedSends := rfl
      rw [sendsOf_self, ← horder]
      simp only [onWay, hold, hnew, hqueue, List.append_nil, List.append_assoc]
    · rw [sendsOf_other he, ← horder]
      cases t' with
      | none => rfl
      | some t' =>
        have hne : t' ≠ t := fun heq => he (congrArg some heq)
        have hun : s'.unqueued t' = s.unqueued t' := unqueued_congr (hother t' hne) rfl
        simp only [onWay, hun]
        rfl
  · -- after `SHUT_WR` no send is accepted
    have hdis := (h.shut hshut).1
    rw [hst] at hdis
    cases hdis

/-- The pointer that `send` queues is to the unread bytes. -/
theorem bind_points (hok : (s.buffers t b).buf.Ok) : s.Points (s.bind t b) := by
  have horder := hok.order
  have hend : (s.buffers t b).buf.m_read_index + (s.buffers t b).buf.readableBytes =
      (s.buffers t b).buf.m_write_index := by
    unfold Buffer.readableBytes
    omega
  refine ⟨(Buffer.length_readable hok).symm, ?_, fun _ => ⟨rfl, ?_⟩⟩
  · show (s.buffers t b).buf.m_read_index + (s.buffers t b).buf.readableBytes ≤ _
    rw [hend]
    exact hok.bound
  · show slice (s.buffers t b).buf.m_buffer (s.buffers t b).buf.m_read_index
      ((s.buffers t b).buf.m_read_index + (s.buffers t b).buf.readableBytes) = _
    rw [hend]
    rfl

/-- An accepted send is queued. -/
theorem queue_crossOk (h : s.CrossOk) (ht : t < s.numThreads) (hpc : s.threads t = .sending b) :
    ({ s.setThread t (.queued b) with
      functors := s.functors ++ [.sendInLoop (s.bind t b)] } : CrossSend).CrossOk := by
  set s' : CrossSend := { s.setThread t (.queued b) with
    functors := s.functors ++ [.sendInLoop (s.bind t b)] }
  have hself : s'.threads t = .queued b := setThread_self s t _
  have hother : ∀ t', t' ≠ t → s'.threads t' = s.threads t' := fun t' he => setThread_other s he _
  have hqueue : s'.queuedSends = s.queuedSends ++ [s.bind t b] := by
    show (s.functors ++ [SendFunctor.sendInLoop (s.bind t b)]).filterMap SendFunctor.send = _
    rw [List.filterMap_append]
    rfl
  have hok := h.buffers t b
  have hun : s.unqueued t = [(s.buffers t b).buf.readable] := by
    unfold unqueued
    rw [hpc]
  have hun' : s'.unqueued t = [] := unqueued_eq_nil fun b' => by rw [hself]; simp
  have hunother : ∀ t', t' ≠ t → s'.unqueued t' = s.unqueued t' := fun t' he => unqueued_congr (hother t' he) rfl
  have hfun : .shutDownInLoop ∈ s'.functors → .shutDownInLoop ∈ s.functors := fun hask => by
    rcases List.mem_append.1 hask with hask | hask
    · exact hask
    · simp at hask
  refine ⟨h.running, h.wired, h.buffers, fun q hq => ?_, fun t' => ?_,
    fun hask => h.asked (asked_of_others hask hother (by rw [hself]; simp) hfun rfl), fun hshut => ?_,
    h.idle_others ht hother⟩
  · rw [hqueue, List.mem_append, List.mem_singleton] at hq
    rcases hq with hq | rfl
    · exact (h.points q hq).of_buffers rfl
    · exact (bind_points hok).of_buffers rfl
  · have hway : s'.onWay t' = s.onWay t' := by
      cases t' with
      | none => rfl
      | some t' =>
        simp only [onWay, hqueue, List.filter_append, List.map_append]
        by_cases he : t' = t
        · subst he
          rw [hun, hun']
          simp [CrossSend.bind]
        · rw [hunother t' he]
          simp [CrossSend.bind, Ne.symm he]
    rw [hway]
    exact h.order t'
  · obtain ⟨h1, h2, h3, h4, h5⟩ := h.shut hshut
    refine ⟨h1, h2, h3, fun q hq => ?_, fun t' ht' => ?_⟩
    · rw [hqueue, List.mem_append, List.mem_singleton] at hq
      rcases hq with hq | rfl
      · exact h4 q hq
      · have hnil : (s.buffers t b).buf.readable = [] := h5 t ht _ (by rw [hun]; simp)
        have hlen := Buffer.length_readable hok
        rw [hnil] at hlen
        exact hlen.symm
    · by_cases he : t' = t
      · rw [he, hun']
        simp
      · rw [hunother t' he]
        exact h5 t' ht'

/-- `m_state` is written. -/
theorem CrossOk.store (h : s.CrossOk) : { s with conn := { s.conn with m_state := .kDisconnecting } }.CrossOk := by
  have hopen := h.wired.open
  obtain ⟨hlive, hstream, hout, hsent, hdrained⟩ := h.wired
  have hlive' : At .live s.m_epoller { s.conn with m_state := .kDisconnecting } :=
    ⟨Or.inr rfl, hlive.chan, hlive.trace, hlive.channels, hlive.interest⟩
  exact ⟨h.running, ⟨hlive', hstream.setState hopen, hout, hsent, hdrained⟩, h.buffers,
    fun q hq => (h.points q hq).of_buffers rfl, h.order, fun _ => rfl,
    fun hshut => ⟨rfl, (h.shut hshut).2⟩, h.idle⟩

/-- A `shutDownInLoop` is queued. -/
theorem CrossOk.queueShutDown (h : s.CrossOk) (hst : s.conn.m_state = .kDisconnecting) :
    { s with functors := s.functors ++ [SendFunctor.shutDownInLoop] }.CrossOk := by
  have hqueue : queuedSends { s with functors := s.functors ++ [SendFunctor.shutDownInLoop] } = s.queuedSends := by
    show (s.functors ++ [SendFunctor.shutDownInLoop]).filterMap SendFunctor.send = _
    rw [List.filterMap_append]
    exact List.append_nil _
  refine ⟨h.running, h.wired, h.buffers, fun q hq => ?_, h.order_congr rfl hqueue (fun _ => rfl) rfl rfl,
    fun _ => hst, fun hshut => ?_, h.idle⟩
  · rw [hqueue] at hq
    exact (h.points q hq).of_buffers rfl
  · obtain ⟨h1, h2, h3, h4, h5⟩ := h.shut hshut
    exact ⟨h1, h2, h3, by rw [hqueue]; exact h4, h5⟩

/-- A step of another thread in its call. -/
theorem next_crossOk (h : s.CrossOk) (hs : s.next t = some s') : s'.CrossOk := by
  have ht : s.threads t ≠ .idle → t < s.numThreads := by
    intro hne
    by_contra hge
    exact hne (h.idle t (by omega))
  have hidle : ∀ b, ClientPc.idle ≠ .sending b := fun b => by simp
  have hstored : ∀ b, ClientPc.stored ≠ .sending b := fun b => by simp
  unfold CrossSend.next at hs
  split at hs
  · rename_i b hpc
    rw [Option.some.injEq] at hs
    subst hs
    exact queue_crossOk h (ht (by rw [hpc]; simp)) hpc
  · rename_i b hpc
    rw [Option.some.injEq] at hs
    subst hs
    have hfree : (s.setThread t .idle).CrossOk :=
      h.setThread (ht (by rw [hpc]; simp)) (fun b' => by rw [hpc]; simp) hidle (fun he => by simp at he)
    refine hfree.moveIndices (setThread_self s t _) ?_ rfl
    exact Buffer.retrieveAll_ok (h.buffers t b)
  · rename_i hpc
    rw [Option.some.injEq] at hs
    subst hs
    exact h.store.setThread (ht (by rw [hpc]; simp)) (fun b' => by show s.threads t ≠ _; rw [hpc]; simp)
      hstored (fun _ => rfl)
  · rename_i hpc
    rw [Option.some.injEq] at hs
    subst hs
    have hst := h.asked (Or.inl ⟨t, hpc⟩)
    exact (h.queueShutDown hst).setThread (ht (by rw [hpc]; simp))
      (fun b' => by show s.threads t ≠ _; rw [hpc]; simp) hidle (fun _ => hst)
  · simp at hs

/-! ## The loop thread -/

section

variable {ep : Epoller} {c : TcpConnection Buffer} {pc : SenderPc} {worked : List (Option ℕ × Bytes)}

/-- `sendInLoop` on an output buffer that does not slide. -/
theorem Wired.sendInLoop (h : Wired ep c pc worked) (t : Option ℕ) {msg : Bytes} {r : Except ℕ ℕ}
    (hr : TcpConnection.faultError r = false ∨ msg = [])
    (hfits : ¬c.m_output_buffer.Slides (msg.length - c.wroteNum msg.length r)) :
    ∃ ep' c', c.sendInLoop ep msg r = .ok (ep', c') ∧ Wired ep' c' .idle (worked ++ [(t, msg)]) ∧
      c'.m_state = c.m_state ∧ c'.shutWr = c.shutWr ∧ (msg = [] → c'.output = c.output) := by
  obtain ⟨ep', c', hs, hl⟩ := sendInLoop_leads h.live (by simp [Phase.rank]) msg r
  obtain ⟨hsent, hbuf⟩ := sendInLoop_buffer h.open hs
  have hst := (sendInLoop_sends hs).state
  have hshut := (sendInLoop_sends hs).shutWr
  have happ : (c.m_output_buffer.append (msg.drop (c.wroteNum msg.length r))).readable =
      c.output ++ msg.drop (c.wroteNum msg.length r) :=
    Buffer.append_readable h.output (by rw [List.length_drop]; exact hfits)
  refine ⟨ep', c', hs, ⟨hl.at_, sendInLoop_takes hr h.stream happ hs, ?_, ?_, by simp⟩, hst, hshut,
    fun hnil => ?_⟩
  · rcases hbuf with hbuf | ⟨-, hbuf⟩
    · rw [hbuf]
      exact h.output
    · rw [hbuf]
      exact Buffer.append_ok h.output _
  · rw [hsent, h.sent, List.map_append]
    rfl
  · rcases hbuf with hbuf | ⟨hne, -⟩
    · rw [TcpConnection.output, hbuf]
      rfl
    · exact absurd hnil hne

/-- The first half of a write event. -/
theorem Wired.drain (h : Wired ep c pc worked) (r : Except ℕ ℕ) :
    ∃ ep' c' b, c.drain ep r = .ok (ep', c', b) ∧ Wired ep' c' (if b then .drained else .idle) worked ∧
      c'.m_state = c.m_state ∧ c'.shutWr = c.shutWr ∧ (c.output = [] → c' = c ∧ b = false) := by
  obtain ⟨ep', c', b, hs, hlive⟩ := drain_leads h.live r
  have hret : ∀ n, n ≤ c.output.length → (c.m_output_buffer.retrieve n).readable = c.output.drop n :=
    fun n _ => Buffer.readable_retrieve h.output n
  obtain ⟨h1, h2, h3, h4, h5, -⟩ := drain_takes hret h.stream h.open hs
  obtain ⟨hsent, hbuf⟩ := drain_buffer hs
  refine ⟨ep', c', b, hs, ⟨hlive, h1, ?_, hsent.trans h.sent, fun hd => ?_⟩, h2, h3, h5⟩
  · rcases hbuf with hbuf | ⟨n, hbuf⟩
    · rw [hbuf]
      exact h.output
    · rw [hbuf]
      exact Buffer.retrieve_ok h.output n
  · cases b with
    | true => exact h4 rfl
    | false => simp at hd

/-- `shutDownInLoop`: it shuts the write side down only with the output buffer empty. -/
theorem Wired.shutDownInLoop (h : Wired ep c pc worked) (pc' : SenderPc) (hpc : pc' ≠ .drained) :
    Wired ep c.shutDownInLoop pc' worked ∧ c.shutDownInLoop.m_state = c.m_state ∧
      c.shutDownInLoop.output = c.output ∧
      (c.shutDownInLoop.shutWr = true → c.shutWr = true ∨ c.m_channel.isWriting = false ∧ c.output = []) := by
  have hi := h.stream.interest h.open
  have hok := shutDownInLoop_ok h.stream
  have hlive := (shutDownInLoop_leads h.live).at_
  unfold TcpConnection.shutDownInLoop at hok hlive ⊢
  split
  · exact ⟨⟨h.live, h.stream, h.output, h.sent, fun hd => absurd hd hpc⟩, rfl, rfl, Or.inl⟩
  · rename_i hw
    rw [if_neg hw] at hok hlive
    have hempty : c.output = [] := by
      by_contra hne
      exact hw (hi.2 hne)
    exact ⟨⟨hlive, hok, h.output, h.sent, fun hd => absurd hd hpc⟩, rfl, rfl,
      fun _ => Or.inr ⟨by simpa using hw, hempty⟩⟩

end

/-- A call of `shutDownInLoop`. -/
theorem CrossOk.shutDownInLoop (h : s.CrossOk) {pc : SenderPc} (hst : s.conn.m_state = .kDisconnecting)
    (hclear : s.Clear) (hmsg : s.pc.message = none) (hpc : pc = .idle) :
    { s with conn := s.conn.shutDownInLoop, pc := pc }.CrossOk := by
  subst hpc
  obtain ⟨hwired, hstate, hout, hshut⟩ := h.wired.shutDownInLoop .idle (by simp)
  refine ⟨h.running, hwired, h.buffers, fun q hq => (h.points q hq).of_buffers rfl,
    h.order_congr hmsg.symm rfl (fun _ => rfl) rfl rfl, fun _ => hstate.trans hst, fun hs => ?_, h.idle⟩
  · rcases hshut hs with hs | ⟨hw, hempty⟩
    · obtain ⟨-, h2, -, h4⟩ := h.shut hs
      exact ⟨hstate.trans hst, hout.trans h2, rfl, h4⟩
    · have hsettled : s.Settled := hclear.resolve_left (by rw [hw]; simp)
      exact ⟨hstate.trans hst, hout.trans hempty, rfl, hsettled⟩

/-- The loop thread moves between its calls. -/
theorem CrossOk.setPc (h : s.CrossOk) {pc : SenderPc} (hold : s.pc.message = none) (hnew : pc.message = none)
    (hdrained : pc ≠ .drained) (hstored : pc = .stored → s.conn.m_state = .kDisconnecting) :
    { s with pc := pc }.CrossOk := by
  obtain ⟨hlive, hstream, hout, hsent, -⟩ := h.wired
  refine ⟨h.running, ⟨hlive, hstream, hout, hsent, fun hd => absurd hd hdrained⟩, h.buffers,
    fun q hq => (h.points q hq).of_buffers rfl,
    h.order_congr (hnew.trans hold.symm) rfl (fun _ => rfl) rfl rfl, fun hask => ?_, fun hshut => ?_, h.idle⟩
  · by_cases hpc : pc = .stored
    · exact hstored hpc
    · exact h.asked (asked_of_loop hask rfl id hpc)
  · obtain ⟨h1, h2, -, h4⟩ := h.shut hshut
    exact ⟨h1, h2, hnew, h4⟩

/-- A send of the loop thread is accepted. -/
theorem loopSend_crossOk (h : s.CrossOk) (hpc : s.pc = .idle) (hst : s.conn.m_state = .kConnected) (msg : Bytes) :
    { s with pc := .sending msg, calls := s.calls ++ [(none, msg)] }.CrossOk := by
  obtain ⟨hlive, hstream, hout, hsent, -⟩ := h.wired
  refine ⟨h.running, ⟨hlive, hstream, hout, hsent, fun hd => by simp at hd⟩, h.buffers,
    fun q hq => (h.points q hq).of_buffers rfl, fun t => ?_,
    fun hask => h.asked (asked_of_loop hask rfl id (by simp)), fun hshut => ?_, h.idle⟩
  · have horder := h.order t
    cases t with
    | none =>
      rw [onWay, hpc] at horder
      show sendsOf none s.worked ++ [msg] = sendsOf none (s.calls ++ [(none, msg)])
      rw [sendsOf_self, ← horder]
      simp [SenderPc.message]
    | some t =>
      show _ = sendsOf (some t) (s.calls ++ [(none, msg)])
      rw [sendsOf_other (by simp)]
      exact horder
  · have hdis := (h.shut hshut).1
    rw [hst] at hdis
    cases hdis

/-- What `::write` may return, for a message whose bytes can still be sent. -/
theorem writes_spec (s : CrossSend) (msg : Bytes) {r : Except ℕ ℕ} (hw : s.writes r = true)
    (hmsg : s.conn.shutWr = true → msg = []) : TcpConnection.faultError r = false ∨ msg = [] := by
  cases hshut : s.conn.shutWr with
  | true => exact Or.inr (hmsg hshut)
  | false =>
    unfold writes at hw
    rw [hshut] at hw
    exact Or.inl (by simpa using hw)

/-- `sendInLoop` of the loop thread's own message. -/
theorem sendInLoop_crossOk (h : s.CrossOk) {msg : Bytes} {r : Except ℕ ℕ} (hpc : s.pc = .sending msg)
    (hfits : s.Fits msg.length r) (hs : { s with pc := .idle }.work (none, msg) msg r = some s') : s'.CrossOk := by
  have hmsg : s.pc.message = some msg := by rw [hpc]; rfl
  have hopen : s.conn.shutWr = false := by
    by_contra hshut
    have hnone := (h.shut (by simpa using hshut)).2.2.1
    rw [hmsg] at hnone
    simp at hnone
  unfold work at hs
  split at hs
  swap
  · simp at hs
  rename_i hw
  have hr := writes_spec { s with pc := .idle } msg hw fun hshut => by
    have hshut' : s.conn.shutWr = true := hshut
    rw [hopen] at hshut'
    simp at hshut'
  obtain ⟨ep', c', hsend, hwired, hst, hshut, -⟩ := h.wired.sendInLoop none hr hfits
  simp only [hsend, Option.some.injEq] at hs
  subst hs
  refine ⟨h.running, hwired, h.buffers, fun q hq => (h.points q hq).of_buffers rfl, fun t => ?_,
    fun hask => hst.trans (h.asked (asked_of_loop hask rfl id (by simp))), fun hs => ?_, h.idle⟩
  · have horder := h.order t
    cases t with
    | none =>
      rw [onWay, hmsg] at horder
      show sendsOf none (s.worked ++ [(none, msg)]) ++ [] = sendsOf none s.calls
      rw [sendsOf_self, ← horder, List.append_nil]
      rfl
    | some t =>
      show sendsOf (some t) (s.worked ++ [(none, msg)]) ++ _ = _
      rw [sendsOf_other (by simp)]
      exact horder
  · have hs' : c'.shutWr = true := hs
    rw [hshut, hopen] at hs'
    simp at hs'

/-- A queued send: the pointer is good, so the bytes are those of the call. -/
theorem queuedSend_crossOk (h : s.CrossOk) {q : QueuedSend} {rest : List SendFunctor} {r : Except ℕ ℕ}
    (hpc : s.pc = .idle) (hfun : s.functors = .sendInLoop q :: rest) (hfits : s.Fits q.len r)
    (hs : s.functor r = some s') : s'.CrossOk := by
  have hqueue : s.queuedSends = q :: rest.filterMap SendFunctor.send := by
    unfold queuedSends
    rw [hfun]
    rfl
  have hmem : q ∈ s.queuedSends := by rw [hqueue]; exact List.mem_cons_self
  have hpoints := h.points q hmem
  unfold functor at hs
  rw [hfun] at hs
  simp only [hpoints.read] at hs
  unfold work at hs
  split at hs
  swap
  · simp at hs
  rename_i hw
  -- after `SHUT_WR` only sends without bytes are left
  have hempty : s.conn.shutWr = true → q.msg = [] := by
    intro hshut
    have hlen := hpoints.len
    rw [(h.shut hshut).2.2.2.1 q hmem] at hlen
    exact List.length_eq_zero_iff.1 hlen.symm
  have hr := writes_spec { s with functors := rest } q.msg hw hempty
  rw [hpoints.len] at hfits
  obtain ⟨ep', c', hsend, hwired, hst, hshut, hout⟩ := h.wired.sendInLoop (some q.thread) hr hfits
  simp only [hsend, Option.some.injEq] at hs
  subst hs
  have hidle : Wired ep' c' s.pc (s.worked ++ [(some q.thread, q.msg)]) := by rw [hpc]; exact hwired
  have hrest : ∀ f ∈ rest, f ∈ s.functors := fun f hf => by rw [hfun]; exact List.mem_cons_of_mem _ hf
  have hstored : s.pc ≠ .stored := by rw [hpc]; simp
  refine ⟨h.running, hidle, h.buffers, fun q' hq' => ?_, fun t => ?_,
    fun hask => hst.trans (h.asked (asked_of_loop hask rfl (hrest _) hstored)), fun hs => ?_, h.idle⟩
  · have hmem' : q' ∈ s.queuedSends := by rw [hqueue]; exact List.mem_cons_of_mem _ hq'
    exact (h.points q' hmem').of_buffers rfl
  · have horder := h.order t
    cases t with
    | none =>
      show sendsOf none (s.worked ++ [(some q.thread, q.msg)]) ++ _ = _
      rw [sendsOf_other (by simp)]
      exact horder
    | some t =>
      show sendsOf (some t) (s.worked ++ [(some q.thread, q.msg)]) ++
        (((rest.filterMap SendFunctor.send).filter (·.thread = t)).map QueuedSend.msg ++ s.unqueued t) = _
      rw [onWay, hqueue] at horder
      by_cases ht : q.thread = t
      · rw [ht, sendsOf_self]
        simpa [List.filter_cons, ht] using horder
      · rw [sendsOf_other (by simpa using Ne.symm ht)]
        simpa [List.filter_cons, ht] using horder
  · have hs' : c'.shutWr = true := hs
    rw [hshut] at hs'
    obtain ⟨h1, h2, h3, h4, h5⟩ := h.shut hs'
    refine ⟨hst.trans h1, (hout (hempty hs')).trans h2, h3, fun q' hq' => ?_, h5⟩
    exact h4 q' (by rw [hqueue]; exact List.mem_cons_of_mem _ hq')

/-- A queued `shutDownInLoop`. -/
theorem queuedShutDown_crossOk (h : s.CrossOk) {rest : List SendFunctor} (hpc : s.pc = .idle)
    (hfun : s.functors = .shutDownInLoop :: rest) (hclear : s.Clear) :
    { s with conn := s.conn.shutDownInLoop, functors := rest }.CrossOk := by
  have hst := h.asked (Or.inr (Or.inl (by rw [hfun]; exact List.mem_cons_self)))
  have hqueue : s.queuedSends = rest.filterMap SendFunctor.send := by
    unfold queuedSends
    rw [hfun]
    rfl
  have hmsg : s.pc.message = none := by rw [hpc]; rfl
  have hpop : { s with functors := rest }.CrossOk := by
    refine ⟨h.running, h.wired, h.buffers, fun q hq => ?_,
      h.order_congr rfl hqueue.symm (fun _ => rfl) rfl rfl, fun _ => hst, fun hshut => ?_, h.idle⟩
    · exact (h.points q (by rw [hqueue]; exact hq)).of_buffers rfl
    · obtain ⟨h1, h2, h3, h4, h5⟩ := h.shut hshut
      rw [hqueue] at h4
      exact ⟨h1, h2, h3, h4, h5⟩
  have hclear' : Clear { s with functors := rest } := by
    rcases hclear with hw | ⟨h4, h5⟩
    · exact Or.inl hw
    · rw [hqueue] at h4
      exact Or.inr ⟨h4, h5⟩
  exact hpop.shutDownInLoop hst hclear' hmsg hpc

/-- The first half of a write event. -/
theorem handleWrite_crossOk (h : s.CrossOk) {r : Except ℕ ℕ} (hpc : s.pc = .idle)
    (hs : (match s.conn.drain s.m_epoller r with
      | .ok (ep, c, drained) =>
        some { s with m_epoller := ep, conn := c, pc := if drained then .drained else .idle }
      | .error e => some { s with failed := some e }) = some s') : s'.CrossOk := by
  obtain ⟨ep', c', b, hdrain, hwired, hst, hshut, hsame⟩ := h.wired.drain r
  rw [hdrain] at hs
  simp only [Option.some.injEq] at hs
  subst hs
  have hmsg : (if b then SenderPc.drained else .idle).message = none := by
    cases b with
    | true => rfl
    | false => rfl
  have hold : s.pc.message = none := by rw [hpc]; rfl
  have hstored : (if b then SenderPc.drained else .idle) ≠ .stored := by
    cases b with
    | true => simp
    | false => simp
  refine ⟨h.running, hwired, h.buffers, fun q hq => (h.points q hq).of_buffers rfl,
    h.order_congr (hmsg.trans hold.symm) rfl (fun _ => rfl) rfl rfl,
    fun hask => hst.trans (h.asked (asked_of_loop hask rfl id hstored)), fun hs => ?_, h.idle⟩
  · have hs' : c'.shutWr = true := hs
    rw [hshut] at hs'
    obtain ⟨h1, h2, -, h4⟩ := h.shut hs'
    obtain ⟨hc, -⟩ := hsame h2
    exact ⟨hst.trans h1, by rw [hc]; exact h2, hmsg, h4⟩

/-- **One step.** -/
theorem step_crossOk (h : s.CrossOk) {a : CrossStep} (hsound : s.Sound a) (hs : s.step a = some s') : s'.CrossOk := by
  have hfree : ∀ t, s.free t = true → t < s.numThreads ∧ s.threads t = .idle := by
    intro t ht
    simpa [free] using ht
  unfold step at hs
  rw [if_neg fun hf => hf h.running] at hs
  cases a with
  | append t b data capacity =>
    simp only [Option.ite_none_right_eq_some, Option.some.injEq] at hs
    obtain ⟨⟨ht, -⟩, rfl⟩ := hs
    exact append_crossOk h (hfree t ht).2 hsound
  | retrieve t b len =>
    simp only [Option.ite_none_right_eq_some, Option.some.injEq] at hs
    obtain ⟨⟨ht, -⟩, rfl⟩ := hs
    exact h.moveIndices (hfree t ht).2 (Buffer.retrieve_ok (h.buffers t b) len) (retrieve_m_buffer _ _)
  | send t b =>
    simp only [Option.ite_none_right_eq_some, Option.some.injEq] at hs
    obtain ⟨ht, rfl⟩ := hs
    obtain ⟨hlt, hidle⟩ := hfree t ht
    split
    · rename_i hst
      exact send_crossOk h hlt hidle hst
    · exact h
  | shutDown t =>
    simp only [Option.ite_none_right_eq_some, Option.some.injEq] at hs
    obtain ⟨ht, rfl⟩ := hs
    obtain ⟨hlt, hidle⟩ := hfree t ht
    split
    · exact h.setThread hlt (fun b => by rw [hidle]; simp) (fun b => by simp) (fun he => by simp at he)
    · exact h
  | next t => exact next_crossOk h hs
  | loopSend msg =>
    simp only [Option.ite_none_right_eq_some, Option.some.injEq] at hs
    obtain ⟨hpc, rfl⟩ := hs
    split
    · rename_i hst
      exact loopSend_crossOk h hpc hst msg
    · exact h
  | sendInLoop r =>
    dsimp only at hs
    split at hs
    · rename_i msg hpc
      exact sendInLoop_crossOk h hpc (hsound msg (by rw [hpc]; rfl)) hs
    · simp at hs
  | handleWrite r =>
    simp only [Option.ite_none_right_eq_some] at hs
    obtain ⟨⟨hpc, -⟩, hs⟩ := hs
    exact handleWrite_crossOk h hpc hs
  | drained =>
    simp only [Option.ite_none_right_eq_some, Option.some.injEq] at hs
    obtain ⟨hpc, rfl⟩ := hs
    have hmsg : s.pc.message = none := by rw [hpc]; rfl
    unfold TcpConnection.drained
    split
    · rename_i hst
      exact h.shutDownInLoop hst (hsound hst) hmsg rfl
    · exact h.setPc hmsg rfl (by simp) (fun he => by simp at he)
  | loopShutDown =>
    dsimp only at hs
    unfold loopShutDown at hs
    split at hs
    · rename_i hpc
      have hmsg : s.pc.message = none := by rw [hpc]; rfl
      rw [Option.some.injEq] at hs
      subst hs
      split
      · exact h.setPc hmsg rfl (by simp) (fun he => by simp at he)
      · exact h
    · rename_i hpc
      rw [Option.some.injEq] at hs
      subst hs
      exact h.store.setPc (by show s.pc.message = none; rw [hpc]; rfl) rfl (by simp) (fun _ => rfl)
    · rename_i hpc
      rw [Option.some.injEq] at hs
      subst hs
      exact h.shutDownInLoop (h.asked (Or.inr (Or.inr hpc))) (hsound hpc) (by rw [hpc]; rfl) rfl
    · simp at hs
    · simp at hs
  | functor r =>
    simp only [Option.ite_none_right_eq_some] at hs
    obtain ⟨hpc, hs⟩ := hs
    cases hfun : s.functors with
    | nil =>
      unfold functor at hs
      rw [hfun] at hs
      simp at hs
    | cons f rest =>
      have hf : s.FunctorSound r f := hsound f (by rw [hfun]; rfl)
      cases f with
      | sendInLoop q => exact queuedSend_crossOk h hpc hfun hf hs
      | shutDownInLoop =>
        unfold functor at hs
        rw [hfun] at hs
        simp only [Option.some.injEq] at hs
        subst hs
        exact queuedShutDown_crossOk h hpc hfun hf

/-! ## Whole runs -/

/-- A connection just established, on a descriptor that the epoller did not know. -/
theorem start_crossOk {ep₀ : Epoller} {self loop fd size : ℕ} {ep : Epoller} {c : TcpConnection Buffer}
    (hsize : kPrePendIndex ≤ size) (hchannels : ep₀.m_channels fd = none) (hinterest : ep₀.interest fd = none)
    (hc : (TcpConnection.new self loop fd (Buffer.new size)).connectionEstablished ep₀ = .ok (ep, c))
    (numThreads : ℕ) : (start ep c numThreads size).CrossOk := by
  have hnew : At .connecting ep₀ (TcpConnection.new self loop fd (Buffer.new size)) := by
    refine ⟨rfl, ⟨rfl, rfl⟩, ⟨[], fun e he => absurd he List.not_mem_nil, rfl⟩, hchannels, fun x hx => ?_⟩
    have hx' : ep₀.interest fd = some x := hx
    rw [hinterest] at hx'
    simp at hx'
  obtain ⟨ep', c', hc', hlead⟩ := connectionEstablished_leads hnew
  rw [hc] at hc'
  cases hc'
  have hlive := hlead.at_
  have hread : (Buffer.new size).readable = [] := Buffer.readable_new size
  unfold TcpConnection.connectionEstablished TcpConnection.enableReading at hc
  obtain ⟨i, rfl⟩ := setEvents_ok hc
  have hw : Channel.isWriting ⟨fd, 0 ||| kReadEvent, i⟩ = false := isWriting_read fd i
  refine ⟨rfl, ⟨hlive, .of hread rfl fun _ => ?_, Buffer.new_ok hsize, rfl, fun hd => by simp [start] at hd⟩,
    fun _ _ => Buffer.new_ok hsize, fun q hq => by simp [queuedSends, start] at hq, fun t => ?_, fun hask => ?_,
    fun hshut => by simp [start, TcpConnection.new] at hshut, fun _ _ => rfl⟩
  · show Channel.isWriting ⟨fd, 0 ||| kReadEvent, i⟩ = true ↔ _
    rw [hw]
    simp
  · cases t with
    | none => rfl
    | some t => rfl
  · rcases hask with ⟨t, ht⟩ | hask | hask
    · simp [start] at ht
    · simp [start] at hask
    · simp [start] at hask

/-- **Sends from any thread are faithful** in every state of every run whose steps are sound: on a
connection that the peer does not close, with any results of `::write` that are no fault, for any
number of threads that send from their buffers, reuse these and shut the connection down. -/
theorem send_faithful {ep₀ : Epoller} {self loop fd size : ℕ} {ep : Epoller} {c : TcpConnection Buffer}
    (hsize : kPrePendIndex ≤ size) (hchannels : ep₀.m_channels fd = none) (hinterest : ep₀.interest fd = none)
    (hc : (TcpConnection.new self loop fd (Buffer.new size)).connectionEstablished ep₀ = .ok (ep, c))
    (numThreads : ℕ) (steps : List CrossStep) (hsound : Along step Sound (start ep c numThreads size) steps)
    {n : ℕ} {s : CrossSend} (hrun : run step (start ep c numThreads size) (steps.take n) = some s) :
    s.Faithful := by
  have hstart := start_crossOk hsize hchannels hinterest hc numThreads
  have hok : s.CrossOk :=
    run_inv_along (fun _ _ _ h hC hs => step_crossOk h hC hs) _ hstart (along_take hsound n) hrun
  exact hok.faithful

/-- Two threads send, one of them twice through one buffer, and then asks for the shutdown. -/
def soundSteps : List CrossStep :=
  [.append 0 0 [1, 2, 3] 0, .send 0 0, .append 1 0 [7] 0, .next 0, .next 0, .send 1 0, .functor (.ok 2),
    .append 0 0 [4, 5] 0, .send 0 0, .next 1, .next 0, .next 0, .next 1, .shutDown 0, .next 0, .next 0,
    .functor (.ok 0), .functor (.ok 0), .handleWrite (.ok 9), .drained, .functor (.ok 0)]

theorem send_faithful_two :
    ∃ (ep : Epoller) (c : TcpConnection Buffer) (s : CrossSend),
      (TcpConnection.new 0 0 5 (Buffer.new 16)).connectionEstablished Epoller.new = .ok (ep, c) ∧
      run step (start ep c 2 16) soundSteps = some s ∧ s.conn.wire = [1, 2, 3, 7, 4, 5] ∧
      s.conn.shutWr = true ∧ s.Faithful := by
  have hc : (TcpConnection.new 0 0 5 (Buffer.new 16)).connectionEstablished Epoller.new = .ok (_, _) := rfl
  refine ⟨_, _, _, hc, rfl, rfl, rfl, ?_⟩
  exact send_faithful (by decide) rfl rfl hc 2 soundSteps (by decide +kernel) (n := 21) rfl

/-- A thread sends ten bytes, and appends four to the buffer before the loop thread has read the ten. -/
def overwritingSteps : List CrossStep :=
  [.append 0 0 (List.replicate 10 97) 0, .send 0 0, .next 0, .next 0, .append 0 0 [98, 98, 98, 98] 0,
    .functor (.ok 10)]

/-- A thread sends a byte, and then the loop thread shuts the connection down. -/
def truncatingSteps : List CrossStep :=
  [.append 0 0 [97] 0, .send 0 0, .next 0, .next 0, .loopShutDown, .loopShutDown, .loopShutDown,
    .functor (.error EPIPE)]

/-- What is to be seen of a state. -/
structure Outcome where
  calls : List (Option ℕ × Bytes)
  worked : List (Option ℕ × Bytes)
  wire : Bytes
  output : Bytes
  shutWr : Bool
  deriving DecidableEq

/-- The end of a run of one other thread, with buffers of the usual size. -/
def outcome (steps : List CrossStep) : Option Outcome :=
  ((TcpConnection.new 0 0 5 (Buffer.new kInitialSize)).connectionEstablished Epoller.new).toOption.bind fun x =>
    (run step (start x.1 x.2 1 kInitialSize) steps).map fun s =>
      ⟨s.calls, s.worked, s.conn.wire, s.conn.output, s.conn.shutWr⟩

/-- The bytes of the first send are those of the second from index 8 on; and a send that has returned
comes behind `SHUT_WR`, and is lost. -/
theorem send_unfaithful :
    ∃ (ep : Epoller) (c : TcpConnection Buffer) (s s' : CrossSend),
      (TcpConnection.new 0 0 5 (Buffer.new kInitialSize)).connectionEstablished Epoller.new = .ok (ep, c) ∧
      run step (start ep c 1 kInitialSize) overwritingSteps = some s ∧
      s.calls = [(some 0, List.replicate 10 97)] ∧ s.conn.wire = List.replicate 8 97 ++ [98, 98] ∧ ¬s.Faithful ∧
      run step (start ep c 1 kInitialSize) truncatingSteps = some s' ∧
      s'.calls = [(some 0, [97])] ∧ s'.conn.shutWr = true ∧ s'.conn.wire = [] ∧ ¬s'.Faithful := by
  have hover : outcome overwritingSteps = some ⟨[(some 0, List.replicate 10 97)], [(some 0, List.replicate 10 97)],
      List.replicate 8 97 ++ [98, 98], [], false⟩ := by decide +kernel
  have htrunc : outcome truncatingSteps = some ⟨[(some 0, [97])], [(some 0, [97])], [], [], true⟩ := by
    decide +kernel
  unfold outcome at hover htrunc
  rcases hc : (TcpConnection.new 0 0 5 (Buffer.new kInitialSize)).connectionEstablished Epoller.new with e | ⟨ep, c⟩
  · rw [hc] at hover
    simp [Except.toOption] at hover
  rw [hc] at hover htrunc
  simp only [Except.toOption, Option.bind_some] at hover htrunc
  obtain ⟨s, hs, hv⟩ := Option.map_eq_some_iff.1 hover
  obtain ⟨s', hs', hv'⟩ := Option.map_eq_some_iff.1 htrunc
  simp only [Outcome.mk.injEq] at hv hv'
  obtain ⟨hcalls, hworked, hwire, hout, -⟩ := hv
  obtain ⟨hcalls', hworked', hwire', hout', hshut'⟩ := hv'
  refine ⟨ep, c, s, s', rfl, hs, hcalls, hwire, fun hf => ?_, hs', hcalls', hshut', hwire', fun hf => ?_⟩
  · have hstream := hf.stream
    rw [hwire, hout, hworked] at hstream
    exact absurd hstream (by decide)
  · have hstream := hf.stream
    rw [hwire', hout', hworked'] at hstream
    exact absurd hstream (by decide)

end CrossSend

end MyMuduo
