import MyMuduo.Proof.Buffer
import MyMuduo.Proof.Channels
import MyMuduo.Proof.Output
import MyMuduo.Proof.ServerConnections
import MyMuduo.Proof.ServerMoves
import MyMuduo.Proof.Shutdown

/-!
# The output of all connections of a server

`Output` follows one connection in its loop. Here are all connections of a server, with the calls of
their loops and of other threads in any order, and with the epollers of all loops. The buffers are
those of the source; what they do to bytes that they have to move is left out (`Takes`).

* `Watched`: the kernel is asked for the events of the channel, as long as the channel is added.
* `runTask_output`, `runCall_output`: every call keeps that, and the stream.
* `run_streams`: no byte that `sendInLoop` worked on is lost, repeated or overtaken, and the kernel waits
  for a connection to become writable exactly as long as there is output left.
* `shut_drained`: the write side is shut down behind the last of these bytes.
* `server_drains`: **output that is left can always go on.**
-/

namespace MyMuduo

open Lib

variable {Q : Type}

/-! ## What the kernel is asked for -/

/-- The event masks of a channel. -/
def eventMasks : List Events := [kNoneEvent, kReadEvent, kWriteEvent, kReadEvent ||| kWriteEvent]

/-- **The kernel has what the channel asks for**, as long as the channel is added. -/
structure Watched (ep : Epoller) (conn : TcpConnection Q) : Prop where
  interest : ep.interest conn.m_channel.m_fd =
    if conn.m_channel.m_index = .kAdded then some (conn.m_channel.m_events, conn.self) else none
  mask : conn.m_channel.m_events ∈ eventMasks

variable {ep ep' : Epoller} {c c' : TcpConnection Q}

/-- A change that the epoller does not see. -/
theorem Watched.congr (h : Watched ep c) (hch : c'.m_channel = c.m_channel) (hself : c'.self = c.self) :
    Watched ep c' := by
  refine ⟨?_, ?_⟩
  · rw [hch, hself]
    exact h.interest
  · rw [hch]
    exact h.mask

/-- A channel that is not new is in the map, or an assertion fails. -/
theorem updateChannel_known {p : ℕ} {ch ch' : Channel} (hidx : ch.m_index ≠ .kNew)
    (h : ep.updateChannel p ch = .ok (ep', ch')) : ep.m_channels ch.m_fd = some p := by
  by_contra hne
  unfold Epoller.updateChannel at h
  split at h
  · rename_i hnew
    exact hidx hnew
  · rw [if_neg hne] at h
    cases h
  · rw [if_neg hne] at h
    cases h

/-- **A call that sets the events** has them set in the kernel. -/
theorem setEvents_watched (h : Watched ep c) {e : Events} (he : e ∈ eventMasks)
    (hs : c.setEvents ep e = .ok (ep', c')) : Watched ep' c' := by
  have hi := h.interest
  unfold TcpConnection.setEvents at hs
  split at hs
  swap
  · cases hs
  rename_i hu
  cases hs
  by_cases hidx : c.m_channel.m_index = .kAdded
  · rw [if_pos hidx] at hi
    have hadded : ({ c.m_channel with m_events := e } : Channel).m_index = .kAdded := hidx
    have hmap := updateChannel_known (by simp [hidx]) hu
    rw [Poll.updateChannel_added hadded hmap hi] at hu
    cases hu
    refine ⟨?_, he⟩
    dsimp only
    rw [Function.update_self]
    by_cases h0 : e = 0
    · rw [if_pos h0, if_pos h0, if_neg (by decide)]
    · rw [if_neg h0, if_neg h0, if_pos rfl]
  · rw [if_neg hidx] at hi
    have hother : ({ c.m_channel with m_events := e } : Channel).m_index ≠ .kAdded := hidx
    have hmap : c.m_channel.m_index = .kDeleted → ep.m_channels c.m_channel.m_fd = some c.self := by
      intro hdel
      have hknown := updateChannel_known (by simp [hdel]) hu
      exact hknown
    rw [Poll.updateChannel_add hother hi hmap] at hu
    cases hu
    exact ⟨Function.update_self _ _ _, he⟩

theorem or_read_mask {e : Events} (he : e ∈ eventMasks) : e ||| kReadEvent ∈ eventMasks := by
  simp only [eventMasks, List.mem_cons, List.not_mem_nil, or_false] at he ⊢
  rcases he with rfl | rfl | rfl | rfl
  · exact .inr (.inl rfl)
  · exact .inr (.inl rfl)
  · exact .inr (.inr (.inr rfl))
  · exact .inr (.inr (.inr rfl))

theorem or_write_mask {e : Events} (he : e ∈ eventMasks) : e ||| kWriteEvent ∈ eventMasks := by
  simp only [eventMasks, List.mem_cons, List.not_mem_nil, or_false] at he ⊢
  rcases he with rfl | rfl | rfl | rfl
  · exact .inr (.inr (.inl rfl))
  · exact .inr (.inr (.inr rfl))
  · exact .inr (.inr (.inl rfl))
  · exact .inr (.inr (.inr rfl))

theorem andNot_write_mask {e : Events} (he : e ∈ eventMasks) : e &&& ~~~kWriteEvent ∈ eventMasks := by
  simp only [eventMasks, List.mem_cons, List.not_mem_nil, or_false] at he ⊢
  rcases he with rfl | rfl | rfl | rfl
  · exact .inl (by decide)
  · exact .inr (.inl (by decide))
  · exact .inl (by decide)
  · exact .inr (.inl (by decide))

/-- A mask with read interest tells the write interest. -/
theorem mask_of_bit {e : Events} (he : e ∈ eventMasks) (hbit : e.getLsbD 0 = true) (fd : ℕ)
    (i : ChannelIndex) :
    e = if Channel.isWriting ⟨fd, e, i⟩ then kReadEvent ||| kWriteEvent else kReadEvent := by
  simp only [eventMasks, List.mem_cons, List.not_mem_nil, or_false] at he
  rcases he with rfl | rfl | rfl | rfl
  · cases hbit
  · have hread : Channel.isWriting ⟨fd, kReadEvent, i⟩ = false := by
      rw [Channel.isWriting, show kReadEvent &&& kWriteEvent = (0 : Events) by decide]
      simp
    rw [hread, if_neg (by simp)]
  · cases hbit
  · rw [isWriting_or, if_pos rfl]

/-- A removal that returns changes the index of the channel, and no more of the connection. -/
theorem removeChannel_ok (hs : c.removeChannel ep = .ok (ep', c')) :
    ∃ i, c' = { c with m_channel := { c.m_channel with m_index := i } } := by
  unfold TcpConnection.removeChannel Epoller.removeChannel at hs
  split at hs
  · rename_i hr
    cases hs
    split at hr
    · dsimp only at hr
      split at hr
      · cases hr
        exact ⟨_, rfl⟩
      · cases hr
        exact ⟨c.m_channel.m_index, rfl⟩
    · cases hr
  · cases hs

theorem removeChannel_watched (h : Watched ep c) (hs : c.removeChannel ep = .ok (ep', c')) :
    Watched ep' c' := by
  have hi := h.interest
  unfold TcpConnection.removeChannel Epoller.removeChannel at hs
  by_cases hg : ep.m_channels c.m_channel.m_fd = some c.self ∧ c.m_channel.m_index ≠ .kNew
  swap
  · rw [if_neg hg] at hs
    cases hs
  rw [if_pos hg] at hs
  cases hidx : c.m_channel.m_index with
  | kNew => exact absurd hidx hg.2
  | kDeleted =>
    rw [hidx] at hs
    cases hs
    exact ⟨hi, h.mask⟩
  | kAdded =>
    rw [if_pos hidx] at hi
    rw [hidx] at hs
    cases hs
    refine ⟨?_, h.mask⟩
    simp only [Epoller.update, hi, Function.update_self]
    rfl

theorem isWriting_or_read (e : Events) (fd : ℕ) (i i' : ChannelIndex) :
    Channel.isWriting ⟨fd, e ||| kReadEvent, i⟩ = Channel.isWriting ⟨fd, e, i'⟩ := by
  have hbits : (e ||| kReadEvent) &&& kWriteEvent = e &&& kWriteEvent := by
    rw [BitVec.and_comm, BitVec.and_or_distrib_left, show kWriteEvent &&& kReadEvent = (0 : Events) by decide,
      BitVec.and_comm]
    simp
  simp only [Channel.isWriting, hbits]

/-! ## Every call -/

theorem Effect.of_eq_ok {r : Except Failure (Epoller × TcpConnection Q)} {calls : List Task} {e : Effect Q}
    (h : Effect.of r calls = .ok e) : r = .ok (e.ep, e.conn) := by
  unfold Effect.of at h
  split at h
  · cases h
    rfl
  · cases h

/-- A read fills the input buffer, or it closes the connection. -/
theorem handleRead_cases [ByteQueue Q] {r : Except ℕ Bytes}
    {callback : Option TcpConnection.ReadCallback} (hs : c.handleRead ep r = .ok (ep', c', callback)) :
    (∃ data, ep' = ep ∧ c' = { c with
        trace := c.trace ++ [.readv], m_input_buffer := ByteQueue.fill c.m_input_buffer data }) ∨
      TcpConnection.handleClose ep { c with trace := c.trace ++ [.readv] } = .ok (ep', c') := by
  unfold TcpConnection.handleRead at hs
  dsimp only at hs
  split at hs
  · split at hs
    · rename_i hclose
      cases hs
      exact .inr hclose
    · cases hs
  · rename_i data _
    cases hs
    exact .inl ⟨data, rfl, rfl⟩
  · rw [if_pos (by decide)] at hs
    split at hs
    · rename_i hclose
      cases hs
      exact .inr hclose
    · cases hs

/-- **`sendInLoop` loses nothing**: the peer is there, and the output buffer takes the rest of the
message without moving what it holds. -/
def TcpConnection.Takes (conn : TcpConnection Buffer) (msg : Bytes) (write : Except ℕ ℕ) : Prop :=
  TcpConnection.faultError write = false ∧
    ¬conn.m_output_buffer.Slides (msg.length - conn.wroteNum msg.length write)

instance Buffer.decidableSlides (b : Buffer) (len : ℕ) : Decidable (b.Slides len) := inferInstanceAs (Decidable (_ ∧ _))

instance TcpConnection.decidableTakes (conn : TcpConnection Buffer) (msg : Bytes) (write : Except ℕ ℕ) :
    Decidable (conn.Takes msg write) :=
  inferInstanceAs (Decidable (_ ∧ ¬_))

/-- **The output of a connection**: its stream is intact, and the kernel has its interest. -/
structure OutputOk (ep : Epoller) (conn : TcpConnection Buffer) : Prop where
  stream : StreamOk conn
  watched : Watched ep conn
  room : conn.m_output_buffer.Ok

section

variable {c c' : TcpConnection Buffer}

theorem OutputOk.entry (h : OutputOk ep c) (hentry : SameEntry c.m_channel.m_fd ep ep') :
    OutputOk ep' c :=
  ⟨h.stream, ⟨hentry.interest.trans h.watched.interest, h.watched.mask⟩, h.room⟩

theorem new_output {size fd : ℕ} (hsize : kPrePendIndex ≤ size) (c home : ℕ)
    (hnone : ep.interest fd = none) : OutputOk ep (.new c home fd (.new size)) := by
  refine ⟨.of (Buffer.readable_new size) rfl fun _ => ?_, ⟨hnone, List.mem_cons_self⟩, Buffer.new_ok hsize⟩
  exact iff_of_false (by simp [TcpConnection.new, Channel.new, Channel.isWriting]) fun h => h rfl

/-- A change that neither the output nor the epoller sees. -/
theorem OutputOk.congr (h : OutputOk ep c) (hwire : c'.wire = c.wire)
    (hout : c'.m_output_buffer = c.m_output_buffer) (hsent : c'.sent = c.sent)
    (hst : c.m_state = .kDisconnected → c'.m_state = .kDisconnected)
    (hch : c'.m_channel = c.m_channel) (hself : c'.self = c.self) : OutputOk ep c' := by
  refine ⟨.of rfl ?_ fun hne => ?_, h.watched.congr hch hself, ?_⟩
  · rw [hwire, hout, hsent]
    exact h.stream.stream
  · rw [hch, hout]
    exact h.stream.interest fun hd => hne (hst hd)
  · rw [hout]
    exact h.room

/-- The connection is disconnected: what is left of the output stays where it is. -/
theorem OutputOk.close (h : OutputOk ep c) (hwire : c'.wire = c.wire)
    (hout : c'.m_output_buffer = c.m_output_buffer) (hsent : c'.sent = c.sent)
    (hst : c'.m_state = .kDisconnected) (hch : c'.m_channel = c.m_channel) (hself : c'.self = c.self) :
    OutputOk ep c' := by
  refine ⟨.of rfl ?_ fun hne => absurd hst hne, h.watched.congr hch hself, ?_⟩
  · rw [hwire, hout, hsent]
    exact h.stream.stream
  · rw [hout]
    exact h.room

/-- The events are set, and write interest stays as it is. -/
theorem setEvents_output (h : OutputOk ep c) {e : Events} (he : e ∈ eventMasks)
    (hwr : c.m_state ≠ .kDisconnected →
      ∀ i, Channel.isWriting ⟨c.m_channel.m_fd, e, i⟩ = c.m_channel.isWriting)
    (hs : c.setEvents ep e = .ok (ep', c')) : OutputOk ep' c' := by
  have hwatched := setEvents_watched h.watched he hs
  obtain ⟨i, rfl⟩ := setEvents_ok hs
  refine ⟨.of rfl h.stream.stream fun hne => ?_, hwatched, h.room⟩
  rw [hwr hne]
  exact h.stream.interest hne

theorem handleClose_output (h : OutputOk ep c) (hs : c.handleClose ep = .ok (ep', c')) :
    OutputOk ep' c' := by
  unfold TcpConnection.handleClose at hs
  split at hs
  · have hclosed : OutputOk ep
        { c with m_state := .kDisconnected, trace := c.trace ++ [.handleClose] } :=
      h.close rfl rfl rfl rfl rfl rfl
    exact setEvents_output hclosed List.mem_cons_self (fun hne => absurd rfl hne) hs
  · cases hs

theorem connectionDestructor_output (h : OutputOk ep c)
    (hs : c.connectionDestructor ep = .ok (ep', c')) : OutputOk ep' c' := by
  unfold TcpConnection.connectionDestructor at hs
  dsimp only at hs
  split at hs
  · have hclosed : OutputOk ep
        { c with m_state := .kDisconnected, trace := c.trace ++ [.connectionDestructor] } :=
      h.close rfl rfl rfl rfl rfl rfl
    exact setEvents_output hclosed List.mem_cons_self (fun hne => absurd rfl hne) hs
  · cases hs
    exact h.congr rfl rfl rfl id rfl rfl

theorem connectionEstablished_output (h : OutputOk ep c) (hst : c.m_state ≠ .kDisconnected)
    (hs : c.connectionEstablished ep = .ok (ep', c')) : OutputOk ep' c' := by
  unfold TcpConnection.connectionEstablished TcpConnection.enableReading at hs
  have hconnected : OutputOk ep { c with m_state := .kConnected } :=
    h.congr rfl rfl rfl (fun hd => absurd hd hst) rfl rfl
  exact setEvents_output hconnected (or_read_mask h.watched.mask)
    (fun _ i => isWriting_or_read _ _ i c.m_channel.m_index) hs

theorem removeChannel_output (h : OutputOk ep c) (hs : c.removeChannel ep = .ok (ep', c')) :
    OutputOk ep' c' := by
  have hwatched := removeChannel_watched h.watched hs
  obtain ⟨i, rfl⟩ := removeChannel_ok hs
  exact ⟨⟨h.stream.stream, h.stream.interest⟩, hwatched, h.room⟩

theorem handleRead_output (h : OutputOk ep c) {r : Except ℕ Bytes}
    {callback : Option TcpConnection.ReadCallback} (hs : c.handleRead ep r = .ok (ep', c', callback)) :
    OutputOk ep' c' := by
  rcases handleRead_cases hs with ⟨data, rfl, rfl⟩ | hclose
  · exact h.congr rfl rfl rfl id rfl rfl
  · have hread : OutputOk ep { c with trace := c.trace ++ [.readv] } := h.congr rfl rfl rfl id rfl rfl
    exact handleClose_output hread hclose

theorem shutDownInLoop_output (h : OutputOk ep c) : OutputOk ep c.shutDownInLoop := by
  unfold TcpConnection.shutDownInLoop
  split
  · exact h
  · exact h.congr rfl rfl rfl id rfl rfl

/-- **`sendInLoop`.** -/
theorem sendInLoop_output (h : OutputOk ep c) {msg : Bytes} {r : Except ℕ ℕ} (htakes : c.Takes msg r)
    (hs : c.sendInLoop ep msg r = .ok (ep', c')) : OutputOk ep' c' := by
  have happ : ByteQueue.readable (ByteQueue.append c.m_output_buffer (msg.drop (c.wroteNum msg.length r))) =
      c.output ++ msg.drop (c.wroteNum msg.length r) :=
    Buffer.append_readable h.room (by rw [List.length_drop]; exact htakes.2)
  have hstream := sendInLoop_takes (.inl htakes.1) h.stream happ hs
  unfold TcpConnection.sendInLoop at hs
  split at hs
  · cases hs
    exact h
  obtain ⟨-, -, -, tr, hc₁⟩ := directWrite_spec { c with sent := c.sent ++ [msg] } msg r
  rcases hdir : TcpConnection.directWrite { c with sent := c.sent ++ [msg] } msg r with ⟨c₁, n, f⟩
  rw [hdir] at hs hc₁
  dsimp only at hs hc₁
  have h₁ : Watched ep c₁ ∧ c₁.m_output_buffer.Ok := by
    rw [hc₁]
    exact ⟨h.watched.congr rfl rfl, h.room⟩
  split at hs
  · have h₂ : Watched ep
        { c₁ with m_output_buffer := ByteQueue.append c₁.m_output_buffer (msg.drop n) } :=
      h₁.1.congr rfl rfl
    have hroom : (ByteQueue.append c₁.m_output_buffer (msg.drop n)).Ok := Buffer.append_ok h₁.2 _
    split at hs
    · have hwatched := setEvents_watched h₂ (or_write_mask h₂.mask) hs
      obtain ⟨i, rfl⟩ := setEvents_ok hs
      exact ⟨hstream, hwatched, hroom⟩
    · cases hs
      exact ⟨hstream, h₂, hroom⟩
  · cases hs
    exact ⟨hstream, h₁.1, h₁.2⟩

/-- **A write event.** -/
theorem handleWrite_output (h : OutputOk ep c) {r : Except ℕ ℕ}
    (hs : c.handleWrite ep r = .ok (ep', c')) : OutputOk ep' c' := by
  have hstream := handleWrite_takes (fun n _ => Buffer.readable_retrieve h.room n) h.stream hs
  have hwrote : ∀ (wire : Bytes) (buffer : Buffer), Watched ep
      { c with trace := c.trace ++ [.write], wire := wire, m_output_buffer := buffer } :=
    fun wire buffer => h.watched.congr rfl rfl
  have hroom : ∀ n, (ByteQueue.retrieve c.m_output_buffer n).Ok := Buffer.retrieve_ok h.room
  unfold TcpConnection.handleWrite at hs
  split at hs
  · dsimp only at hs
    split at hs
    · split at hs
      · split at hs
        · rename_i hset
          cases hs
          have hdone := setEvents_watched (hwrote _ _) (andNot_write_mask h.watched.mask) hset
          obtain ⟨i, rfl⟩ := setEvents_ok hset
          refine ⟨hstream, ?_, ?_⟩
          · split
            · unfold TcpConnection.shutDownInLoop
              split
              · exact hdone
              · exact hdone.congr rfl rfl
            · exact hdone
          · split
            · unfold TcpConnection.shutDownInLoop
              split
              · exact hroom _
              · exact hroom _
            · exact hroom _
        · cases hs
      · cases hs
        exact ⟨hstream, hwrote _ _, hroom _⟩
    · cases hs
      exact ⟨hstream, hwrote _ _, h.room⟩
  · cases hs
    exact h

/-- **A task keeps the output.** -/
theorem runTask_output {p : Phase} {l : ℕ} {read : Except ℕ Bytes} {write : Except ℕ ℕ} {t : Task}
    {e : Effect Buffer} (hat : At p ep c) (hfit : t.Fits p l c.m_loop) (h : OutputOk ep c)
    (hmeets : t.Meets TcpConnection.Takes c write) (hrun : runTask ep l c read write t = .ok e) :
    OutputOk e.ep e.conn := by
  cases t with
  | life k c' =>
    cases k with
    | connectionEstablished =>
      have hst : c.m_state ≠ .kDisconnected := by
        rw [hat.connecting hfit.1]
        decide
      exact connectionEstablished_output h hst (Effect.of_eq_ok hrun)
    | closeCallback =>
      have hnoted : OutputOk ep { c with trace := c.trace ++ [.closeCallback] } :=
        h.congr rfl rfl rfl id rfl rfl
      unfold runTask runLife at hrun
      dsimp only at hrun
      split at hrun
      · cases hrun
        exact hnoted
      · cases hrun
        exact hnoted
    | handleRemoveConnectionInLoop =>
      cases hrun
      exact h
    | connectionDestructor => exact connectionDestructor_output h (Effect.of_eq_ok hrun)
    | remove => exact removeChannel_output h (Effect.of_eq_ok hrun)
  | deferred c' d =>
    cases d with
    | sendInLoop msg => exact sendInLoop_output h hmeets (Effect.of_eq_ok hrun)
    | shutDownInLoop =>
      cases hrun
      exact shutDownInLoop_output h
    | forceCloseInLoop =>
      unfold runTask forceCloseInLoop at hrun
      dsimp only at hrun
      split at hrun
      · exact handleClose_output h (Effect.of_eq_ok hrun)
      · cases hrun
        exact h
  | handleRead c' =>
    unfold runTask at hrun
    dsimp only at hrun
    split at hrun
    · rename_i hs
      cases hrun
      exact handleRead_output h hs
    · cases hrun
  | handleWrite c' => exact handleWrite_output h (Effect.of_eq_ok hrun)
  | user c' =>
    cases hrun
    exact h

/-- **A call of the user's code keeps the output.** -/
theorem runCall_output {inLoopThread : Bool} {write : Except ℕ ℕ} {call : UserCall} {e : Effect Buffer}
    (h : OutputOk ep c) (hmeets : call.Meets TcpConnection.Takes c inLoopThread write)
    (hrun : runCall ep c inLoopThread write call = .ok e) : OutputOk e.ep e.conn := by
  have hstate : ∀ st, c.m_state ≠ .kDisconnected → OutputOk ep { c with m_state := st } :=
    fun st hst => h.congr rfl rfl rfl (fun hd => absurd hd hst) rfl rfl
  cases call with
  | send c' msg =>
    unfold runCall TcpConnection.send at hrun
    dsimp only at hrun
    split at hrun
    · rename_i hs
      cases hrun
      split at hs
      · rename_i hst
        split at hs
        · rename_i hin
          split at hs
          · rename_i hsend
            cases hs
            exact sendInLoop_output h (hmeets hin hst) hsend
          · cases hs
        · cases hs
          exact h
      · cases hs
        exact h
    · cases hrun
  | shutDown c' =>
    unfold runCall TcpConnection.shutDown at hrun
    dsimp only at hrun
    cases hrun
    dsimp only
    split
    · rename_i hst
      split
      · exact shutDownInLoop_output (hstate _ (by rw [hst]; decide))
      · exact hstate _ (by rw [hst]; decide)
    · exact h
  | forceClose c' =>
    unfold runCall TcpConnection.forceClose at hrun
    dsimp only at hrun
    cases hrun
    dsimp only
    split
    · rename_i hst
      refine hstate _ ?_
      rcases hst with hst | hst
      · rw [hst]
        decide
      · rw [hst]
        decide
    · exact h

theorem output_kept {size : ℕ} (hsize : kPrePendIndex ≤ size) :
    Kept TcpConnection.Takes (Buffer.new size) OutputOk where
  entry h hentry := h.entry hentry
  new c home hnone := new_output hsize c home hnone
  task hat hfit h hmeets hrun := runTask_output hat hfit h hmeets hrun
  call _ h hmeets hrun := runCall_output h hmeets hrun

end

/-! ## The end of the output -/

/-- **A write event moves the front of the output to the kernel**, and it shuts the write side down
behind the last byte if it was asked to. -/
theorem handleWrite_moves {c c' : TcpConnection Buffer} {n : ℕ} (h : OutputOk ep c)
    (hw : c.m_channel.isWriting = true) (hn : 0 < n) (hne : c.output ≠ []) (hs : c.handleWrite ep (.ok n) = .ok (ep', c')) :
    c'.wire = c.wire ++ c.output.take n ∧ c'.output = c.output.drop n ∧ c'.sent = c.sent ∧
      c'.m_state = c.m_state ∧
      (c.output.length ≤ n → c.m_state = .kDisconnecting → c'.shutWr = true) := by
  have hlen : 0 < c.output.length := List.length_pos_iff.2 hne
  have hmin : TcpConnection.accepted (.ok n) c.output.length = min n c.output.length := rfl
  have htake : c.output.take (min n c.output.length) = c.output.take n := by
    rw [List.take_eq_take_iff]
    omega
  have hdrop : c.output.drop (min n c.output.length) = c.output.drop n := by
    rcases Nat.le_total n c.output.length with h | h
    · rw [min_eq_left h]
    · rw [min_eq_right h, List.drop_length, List.drop_eq_nil_of_le h]
  have hret : ByteQueue.readable (ByteQueue.retrieve c.m_output_buffer (min n c.output.length)) =
      c.output.drop n :=
    (Buffer.readable_retrieve h.room _).trans hdrop
  unfold TcpConnection.handleWrite at hs
  rw [if_pos hw] at hs
  dsimp only at hs
  rw [hmin, if_pos (by omega), htake] at hs
  split at hs
  · split at hs
    · rename_i ep₁ c₁ hdis
      obtain ⟨i, rfl⟩ := setEvents_ok hdis
      cases hs
      have hframe : ∀ d : TcpConnection Buffer, d.shutDownInLoop.wire = d.wire ∧
          d.shutDownInLoop.output = d.output ∧ d.shutDownInLoop.sent = d.sent ∧
          d.shutDownInLoop.m_state = d.m_state := by
        intro d
        unfold TcpConnection.shutDownInLoop
        split
        · exact ⟨rfl, rfl, rfl, rfl⟩
        · exact ⟨rfl, rfl, rfl, rfl⟩
      split
      · obtain ⟨h1, h2, h3, h4⟩ := hframe
          { c with trace := c.trace ++ [.write], wire := c.wire ++ c.output.take n,
                   m_output_buffer := ByteQueue.retrieve c.m_output_buffer (min n c.output.length),
                   m_channel := ⟨c.m_channel.m_fd, c.m_channel.m_events &&& ~~~kWriteEvent, i⟩ }
        refine ⟨h1, h2.trans hret, h3, h4, fun _ _ => ?_⟩
        unfold TcpConnection.shutDownInLoop
        rw [if_neg (by rw [isWriting_andNot]; simp)]
      · rename_i hst
        exact ⟨rfl, hret, rfl, rfl, fun _ hd => absurd hd hst⟩
    · cases hs
  · rename_i hleft
    cases hs
    refine ⟨rfl, hret, rfl, rfl, fun hle _ => absurd ?_ hleft⟩
    exact hret.trans (List.drop_eq_nil_of_le hle)

variable [ByteQueue Q]

/-- A call that shuts the write side down leaves no write interest. -/
def Shuts (c c' : TcpConnection Q) : Prop :=
  c'.shutWr = c.shutWr ∨ c'.m_channel.isWriting = false

omit [ByteQueue Q] in
theorem setEvents_shutWr {e : Events} (hs : c.setEvents ep e = .ok (ep', c')) : c'.shutWr = c.shutWr := by
  obtain ⟨i, rfl⟩ := setEvents_ok hs
  rfl

omit [ByteQueue Q] in
theorem shutDownInLoop_shuts (c : TcpConnection Q) : Shuts c c.shutDownInLoop := by
  unfold TcpConnection.shutDownInLoop
  split
  · exact .inl rfl
  · rename_i hw
    exact .inr (by simpa using hw)

omit [ByteQueue Q] in
theorem handleClose_shutWr (hs : c.handleClose ep = .ok (ep', c')) : c'.shutWr = c.shutWr := by
  unfold TcpConnection.handleClose at hs
  split at hs
  · have hset := setEvents_shutWr hs
    exact hset
  · cases hs

omit [ByteQueue Q] in
theorem connectionDestructor_shutWr (hs : c.connectionDestructor ep = .ok (ep', c')) :
    c'.shutWr = c.shutWr := by
  unfold TcpConnection.connectionDestructor at hs
  dsimp only at hs
  split at hs
  · have hset := setEvents_shutWr hs
    exact hset
  · cases hs
    rfl

omit [ByteQueue Q] in
theorem removeChannel_shutWr (hs : c.removeChannel ep = .ok (ep', c')) : c'.shutWr = c.shutWr := by
  unfold TcpConnection.removeChannel at hs
  split at hs
  · cases hs
    rfl
  · cases hs

theorem handleRead_shutWr {r : Except ℕ Bytes} {callback : Option TcpConnection.ReadCallback}
    (hs : c.handleRead ep r = .ok (ep', c', callback)) : c'.shutWr = c.shutWr := by
  rcases handleRead_cases hs with ⟨data, -, rfl⟩ | hclose
  · rfl
  · have hsame := handleClose_shutWr hclose
    exact hsame

theorem handleWrite_shuts {r : Except ℕ ℕ} (hs : c.handleWrite ep r = .ok (ep', c')) : Shuts c c' := by
  unfold TcpConnection.handleWrite at hs
  split at hs
  · dsimp only at hs
    split at hs
    · split at hs
      · split at hs
        · rename_i hset
          cases hs
          -- write interest is given up first
          have hoff := setEvents_ok hset
          obtain ⟨i, rfl⟩ := hoff
          split
          · unfold TcpConnection.shutDownInLoop
            rw [if_neg (by rw [isWriting_andNot]; simp)]
            exact .inr (isWriting_andNot _ _ _)
          · exact .inl rfl
        · cases hs
      · cases hs
        exact .inl rfl
    · cases hs
      exact .inl rfl
  · cases hs
    exact .inl rfl

theorem runTask_shuts {l : ℕ} {read : Except ℕ Bytes} {write : Except ℕ ℕ} {t : Task} {e : Effect Q}
    (hrun : runTask ep l c read write t = .ok e) : Shuts c e.conn := by
  cases t with
  | life k c' =>
    cases k with
    | connectionEstablished =>
      have hs := Effect.of_eq_ok hrun
      exact .inl (setEvents_shutWr (c := { c with m_state := .kConnected }) hs)
    | closeCallback =>
      unfold runTask runLife at hrun
      dsimp only at hrun
      split at hrun
      · cases hrun
        exact .inl rfl
      · cases hrun
        exact .inl rfl
    | handleRemoveConnectionInLoop =>
      cases hrun
      exact .inl rfl
    | connectionDestructor => exact .inl (connectionDestructor_shutWr (Effect.of_eq_ok hrun))
    | remove => exact .inl (removeChannel_shutWr (Effect.of_eq_ok hrun))
  | deferred c' d =>
    cases d with
    | sendInLoop msg => exact .inl (sendInLoop_sends (Effect.of_eq_ok hrun)).shutWr
    | shutDownInLoop =>
      cases hrun
      exact shutDownInLoop_shuts c
    | forceCloseInLoop =>
      unfold runTask forceCloseInLoop at hrun
      dsimp only at hrun
      split at hrun
      · exact .inl (handleClose_shutWr (Effect.of_eq_ok hrun))
      · cases hrun
        exact .inl rfl
  | handleRead c' =>
    unfold runTask at hrun
    dsimp only at hrun
    split at hrun
    · rename_i hs
      cases hrun
      exact .inl (handleRead_shutWr hs)
    · cases hrun
  | handleWrite c' => exact handleWrite_shuts (Effect.of_eq_ok hrun)
  | user c' =>
    cases hrun
    exact .inl rfl

theorem runCall_shuts {inLoopThread : Bool} {write : Except ℕ ℕ} {call : UserCall} {e : Effect Q}
    (hrun : runCall ep c inLoopThread write call = .ok e) : Shuts c e.conn := by
  cases call with
  | send c' msg =>
    unfold runCall TcpConnection.send at hrun
    dsimp only at hrun
    split at hrun
    · rename_i hs
      cases hrun
      split at hs
      · split at hs
        · split at hs
          · rename_i hsend
            cases hs
            exact .inl (sendInLoop_sends hsend).shutWr
          · cases hs
        · cases hs
          exact .inl rfl
      · cases hs
        exact .inl rfl
    · cases hrun
  | shutDown c' =>
    unfold runCall TcpConnection.shutDown at hrun
    dsimp only at hrun
    cases hrun
    dsimp only
    split
    · split
      · exact shutDownInLoop_shuts { c with m_state := .kDisconnecting }
      · exact .inl rfl
    · exact .inl rfl
  | forceClose c' =>
    unfold runCall TcpConnection.forceClose at hrun
    dsimp only at hrun
    cases hrun
    dsimp only
    split
    · exact .inl rfl
    · exact .inl rfl

/-! ## The server -/

variable {ph : ℕ → Phase} {s : TcpServer Q}

omit [ByteQueue Q] in
theorem ne_disconnected {c : ℕ} (hlive : s.isLive c) : (s.conns c).conn.m_state ≠ .kDisconnected := by
  rcases hlive with hst | hst
  · rw [hst]
    decide
  · rw [hst]
    decide

/-- What the kernel is asked for about a live connection. -/
theorem live_interest {s : TcpServer Buffer} (h : ServerOk ph s) (hI : KeptBy OutputOk s) {c : ℕ} (hlive : s.isLive c) :
    (s.loops (s.home c)).ep.interest (s.fd c) =
      some (if (s.conns c).conn.output = [] then kReadEvent else kReadEvent ||| kWriteEvent, c) := by
  have hp : ph c = .live := (h.live_iff c).1 hlive
  have hc : s.isAlive c := h.reg.alive_of_inMap (by rw [hp]; rfl)
  obtain ⟨hstream, hwatched⟩ := hI.alive h hc
  have hchan := h.reg.chan c
  rw [hp] at hchan
  have hmask := mask_of_bit hwatched.mask hchan.2 (s.conns c).conn.m_channel.m_fd
    (s.conns c).conn.m_channel.m_index
  have hi := hwatched.interest
  rw [if_pos hchan.1, h.reg.self c, hmask] at hi
  have hiff : (s.conns c).conn.m_channel.isWriting = true ↔ (s.conns c).conn.output ≠ [] :=
    hstream.interest (ne_disconnected hlive)
  refine (show (s.loops (s.home c)).ep.interest (s.fd c) = _ from hi).trans ?_
  by_cases hout : (s.conns c).conn.output = []
  · rw [if_pos hout, if_neg fun hw => hiff.1 hw hout]
  · rw [if_neg hout, if_pos (hiff.2 hout)]

omit [ByteQueue Q] in
theorem owned_of_map {c : ℕ} (hm : s.m_connections (s.fd c) = some c) : s.owned c = true := by
  simp only [TcpServer.owned, hm, decide_true, Bool.true_or]

/-- **A loop at its poll hears of a connection that can be written to**: `handleWrite` comes next. -/
theorem poll_dispatches (buffer : Q) {c : ℕ} {e : Events} (h : ServerOk ph s) (hlive : s.isLive c)
    (hpc : (s.loops (s.home c)).pc = .poll)
    (hi : (s.loops (s.home c)).ep.interest (s.fd c) = some (e, c)) :
    ∃ s₂ L, run (TcpServer.step buffer) s
        [.poll (s.home c) [(s.fd c, kWriteEvent)], .handleEvent (s.home c)] = some s₂ ∧
      s₂ = s.setLoop (s.home c) L ∧ L.ep = (s.loops (s.home c)).ep ∧ L.current = [.handleWrite c] := by
  have hp : ph c = .live := (h.live_iff c).1 hlive
  have hc : s.isAlive c := h.reg.alive_of_inMap (by rw [hp]; rfl)
  have hhome : s.home c < s.numLoops := h.reg.home c (h.reg.born hc)
  have hrunning : ¬s.failed ≠ none := fun hf => hf h.running
  have hidle : (s.loops (s.home c)).current = [] := by
    have hpcs := (h.stack (s.home c)).pcs
    rw [IoLoop.PcOk, hpc] at hpcs
    exact hpcs.1
  have hpolled : TcpServer.polled (s.loops (s.home c)).ep [(s.fd c, kWriteEvent)] = [(c, kWriteEvent)] := by
    simp [TcpServer.polled, hi]
  -- the loop is told of the channel
  set L₁ : IoLoop := { s.loops (s.home c) with pc := .dispatch, active := [(c, kWriteEvent)] } with hL₁
  set s₁ := s.setLoop (s.home c) L₁ with hs₁
  have h₁ : s.step buffer (.poll (s.home c) [(s.fd c, kWriteEvent)]) = some s₁ := by
    unfold TcpServer.step
    rw [if_neg hrunning]
    dsimp only
    rw [if_pos ⟨hhome, hpc, by simp⟩, hpolled]
  have hloop₁ : s₁.loops (s.home c) = L₁ := Function.update_self _ _ _
  -- the connection has an owner, so its channel calls back
  set L₂ : IoLoop := { L₁ with active := [], current := [.handleWrite c] } with hL₂
  have h₂ : s₁.step buffer (.handleEvent (s.home c)) = some (s.setLoop (s.home c) L₂) := by
    have hown : s₁.owned c = true :=
      owned_of_map (s := s₁) ((h.reg.map (s.fd c) c).2 ⟨by rw [hp]; rfl, rfl⟩)
    have hcalls : TcpServer.callbacks c kWriteEvent = [.handleWrite c] := by
      rw [TcpServer.callbacks, if_neg (by decide), if_pos (by decide)]
      rfl
    have htwice : s₁.setLoop (s.home c) L₂ = s.setLoop (s.home c) L₂ := by
      simp only [hs₁, TcpServer.setLoop, Function.update_idem]
    unfold TcpServer.step
    rw [if_neg (show ¬s₁.failed ≠ none from hrunning)]
    dsimp only
    rw [hloop₁, if_pos ⟨hhome, rfl, hidle⟩, TcpServer.handleEvent, hloop₁]
    change (if (s₁.conns c).life = .alive then some (s₁.setLoop (s.home c) { L₁ with
      active := [], current := if s₁.owned c then TcpServer.callbacks c kWriteEvent else [] }) else _) = _
    rw [if_pos (show (s₁.conns c).life = .alive from hc), if_pos hown, hcalls]
    exact congrArg some htwice
  refine ⟨_, L₂, ?_, rfl, rfl, rfl⟩
  rw [run, h₁, Option.bind_some, run, h₂]
  rfl

/-- A connection of loop 1 answers, of which one byte is left, and shuts down. -/
def pendingSteps : List ServerStep := closingSteps.take 16

theorem pending_takes :
    Along (TcpServer.step (Buffer.new 8)) (TcpServer.Meets TcpConnection.Takes) (.start 2 (.new 8))
      pendingSteps := by
  decide +kernel

theorem pending_run :
    ∃ s ∈ run (TcpServer.step (Buffer.new 8)) (.start 2 (.new 8)) pendingSteps,
      s.next = 1 ∧ s.fd 0 = 5 ∧ s.home 0 = 1 ∧ (s.loops 1).pc = .poll ∧
      (s.conns 0).conn.m_state = .kDisconnecting ∧ (s.conns 0).conn.output = [9] ∧
      (s.conns 0).conn.shutWr = false := by
  decide +kernel

section Runs

variable (numLoops : ℕ) {size : ℕ} (hsize : kPrePendIndex ≤ size) {steps : List ServerStep}
  {s : TcpServer Buffer}
  (htakes : Along (TcpServer.step (.new size)) (TcpServer.Meets TcpConnection.Takes)
    (.start numLoops (.new size)) steps)
  (hrun : run (TcpServer.step (.new size)) (.start numLoops (.new size)) steps = some s)

include hsize htakes hrun

/-- The output of a server, in every state of every run in which every `sendInLoop` loses nothing,
with any number of loops: what the kernel took over from a connection, followed by what waits in its
output buffer, is what `sendInLoop` worked on, in order. And the kernel watches exactly the connections
that are up, each in its home loop, for input, and for output exactly if some is left. -/
theorem run_streams :
    (∀ c, c < s.next →
      (s.conns c).conn.wire ++ (s.conns c).conn.output = (s.conns c).conn.sent.flatten) ∧
    ∀ l fd x, (s.loops l).ep.interest fd = some x ↔
      ∃ c, s.isLive c ∧ s.home c = l ∧ s.fd c = fd ∧
        x = (if (s.conns c).conn.output = [] then kReadEvent else kReadEvent ||| kWriteEvent, c) := by
  obtain ⟨ph, h, hI⟩ := run_kept (output_kept hsize) numLoops htakes hrun
  refine ⟨fun c hc => ?_, fun l fd x => ⟨fun hx => ?_, ?_⟩⟩
  · obtain ⟨ep, hep, -⟩ := hI c hc
    exact hep.stream.stream
  · -- an entry is that of a live connection, and there it is as the connection has it
    obtain ⟨hp, hl, hfd⟩ := h.reg.interest l fd x hx
    have hlive : s.isLive x.2 := (h.live_iff x.2).2 hp
    refine ⟨x.2, hlive, hl, hfd, ?_⟩
    have hi := live_interest h hI hlive
    rw [hl, hfd, hx] at hi
    exact Option.some.inj hi
  · rintro ⟨c, hlive, rfl, rfl, rfl⟩
    exact live_interest h hI hlive

/-- The write side is shut down behind the last byte. Whichever step of a run shuts the write side
of a connection down: as long as the connection is up, the kernel has all that `sendInLoop` worked on. -/
theorem shut_drained {a : ServerStep} {s' : TcpServer Buffer} {c : ℕ}
    (ha : s.Meets TcpConnection.Takes a) (hstep : s.step (.new size) a = some s')
    (hopen : (s.conns c).conn.shutWr = false) (hshut : (s'.conns c).conn.shutWr = true)
    (hlive : s'.isLive c) :
    (s'.conns c).conn.output = [] ∧ (s'.conns c).conn.wire = (s'.conns c).conn.sent.flatten := by
  obtain ⟨ph, h, hI⟩ := run_kept (output_kept hsize) numLoops htakes hrun
  obtain ⟨ph', h', -⟩ := step_ok (.new size) h hstep
  have hI' := (output_kept hsize).step h hI ha hstep
  have hp : ph' c = .live := (h'.live_iff c).1 hlive
  have hc : s'.isAlive c := h'.reg.alive_of_inMap (by rw [hp]; rfl)
  have hout := (hI'.alive h' hc).stream
  have hshuts : Shuts (s.conns c).conn (s'.conns c).conn := by
    cases step_on h hstep c with
    | alone hconn _ _ =>
      rw [hconn]
      exact .inl rfl
    | task l read write t stack e _ _ _ _ _ hran hconn _ =>
      rw [hconn]
      exact runTask_shuts hran
    | call thread call write e _ _ _ hran hconn _ =>
      rw [hconn]
      exact runCall_shuts hran
    | made fd home _ hconn _ =>
      rw [hconn] at hshut
      cases hshut
  have hoff : (s'.conns c).conn.m_channel.isWriting = false := by
    rcases hshuts with heq | hoff
    · rw [heq, hopen] at hshut
      cases hshut
    · exact hoff
  have hempty : (s'.conns c).conn.output = [] := by
    by_contra hne
    have hwriting := (hout.interest (ne_disconnected hlive)).2 hne
    rw [hoff] at hwriting
    cases hwriting
  refine ⟨hempty, ?_⟩
  have hstream := hout.stream
  rwa [hempty, List.append_nil] at hstream

/-- The three steps of a loop in which it learns that it can write to a connection, and does. -/
def writeRound (s : TcpServer Buffer) (c n : ℕ) : List ServerStep :=
  [.poll (s.home c) [(s.fd c, kWriteEvent)], .handleEvent (s.home c), .exec (s.home c) (.ok []) (.ok n)]

/-- **Output that is left can always go on.** Whatever the rest of the server is about, a loop at its
poll can learn that a connection with output left has become writable, and gets the next bytes out;
with the last of them it shuts the write side down, if that was asked for. -/
theorem server_drains {c n : ℕ} (hlive : s.isLive c) (hout : (s.conns c).conn.output ≠ [])
    (hpc : (s.loops (s.home c)).pc = .poll) (hn : 0 < n) :
    ∃ s', run (TcpServer.step (.new size)) s (writeRound s c n) = some s' ∧
      (s'.conns c).conn.wire = (s.conns c).conn.wire ++ (s.conns c).conn.output.take n ∧
      (s'.conns c).conn.output = (s.conns c).conn.output.drop n ∧
      (s'.conns c).conn.sent = (s.conns c).conn.sent ∧
      ((s.conns c).conn.output.length ≤ n → (s.conns c).conn.m_state = .kDisconnecting →
        (s'.conns c).conn.shutWr = true) := by
  obtain ⟨ph, h, hI⟩ := run_kept (output_kept hsize) numLoops htakes hrun
  have hp : ph c = .live := (h.live_iff c).1 hlive
  have hc : s.isAlive c := h.reg.alive_of_inMap (by rw [hp]; rfl)
  have hhome : s.home c < s.numLoops := h.reg.home c (h.reg.born hc)
  have hi := live_interest h hI hlive
  rw [if_neg hout] at hi
  obtain ⟨s₂, L, h₂, rfl, hep, hcur⟩ := poll_dispatches (.new size) h hlive hpc hi
  obtain ⟨ep', conn', hok, hlead⟩ := handleWrite_leads (h.reg.at_ hc) (h.reg.born hc) (.ok n)
  have hwriting : (s.conns c).conn.m_channel.isWriting = true :=
    ((hI.alive h hc).stream.interest (ne_disconnected hlive)).2 hout
  obtain ⟨hwire, hout', hsent, -, hfin⟩ := handleWrite_moves (hI.alive h hc) hwriting hn hout hok
  set s₂ := s.setLoop (s.home c) L with hs₂
  have hloop : s₂.loops (s.home c) = L := Function.update_self _ _ _
  have h₃ : s₂.step (.new size) (.exec (s.home c) (.ok []) (.ok n)) =
      some ((s₂.setCurrent (s.home c) []).apply c ⟨conn', ep', [], none, false⟩) := by
    unfold TcpServer.step
    rw [if_neg (show ¬s₂.failed ≠ none from fun hf => hf h.running)]
    dsimp only
    rw [hloop, hcur]
    dsimp only [Task.subject]
    rw [if_pos (show (s₂.conns c).life = .alive from hc)]
    have hrun : runTask (s₂.loops (s₂.home c)).ep (s.home c) (s₂.conns c).conn (.ok []) (.ok n)
        (.handleWrite c) = .ok ⟨conn', ep', [], none, false⟩ := by
      rw [show s₂.home c = s.home c from rfl, hloop, hep, runTask,
        show (s₂.conns c).conn = (s.conns c).conn from rfl, hok]
      rfl
    rw [hrun]
    rfl
  obtain ⟨-, -, -, -, hconns, -⟩ :=
    apply_rest (s₂.setCurrent (s.home c) []) c ⟨conn', ep', [], none, false⟩
  refine ⟨(s₂.setCurrent (s.home c) []).apply c ⟨conn', ep', [], none, false⟩, ?_, ?_⟩
  · change run _ s ([ServerStep.poll _ _, .handleEvent _] ++ [_]) = _
    rw [run_append, h₂, Option.bind_some, run, h₃]
    rfl
  · rw [hconns, Function.update_self]
    exact ⟨hwire, hout', hsent, hfin⟩

omit hsize htakes hrun in
theorem server_drains_pending :
    ∃ s s', run (TcpServer.step (Buffer.new 8)) (.start 2 (.new 8)) pendingSteps = some s ∧
      run (TcpServer.step (Buffer.new 8)) s (writeRound s 0 1) = some s' ∧
      (s'.conns 0).conn.output = [] ∧ (s'.conns 0).conn.shutWr = true := by
  obtain ⟨s, hs, -, -, hhome, hpc, hst, hout, -⟩ := pending_run
  obtain ⟨s', hs', -, hout', -, hfin⟩ := server_drains 2 (by decide) pending_takes hs (c := 0) (n := 1) (.inr hst)
    (by rw [hout]; simp) (by rw [hhome]; exact hpc) Nat.one_pos
  rw [hout] at hout' hfin
  exact ⟨s, s', hs, hs', hout', hfin le_rfl hst⟩

end Runs

end MyMuduo
