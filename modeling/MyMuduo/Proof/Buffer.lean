import MyMuduo.Spec.Buffer

/-!
# The buffer as a byte queue

* `Buffer.Ok`: the indices are in order and inside the block, and the block holds at
  least the reserve. Every call keeps it (`step_ok`).
* `append_readable`, `readFd_readable`: a call that does not slide (`BufferOp.Keeps`) adds
  its bytes at the end of the unread ones.
* `run_fifo`: **over every history of such calls the buffer is a byte queue.** The slide
  of `ensureWriteableBytes` moves the indices without moving the bytes, and the unread
  bytes are lost with it (`run_fifo_slide`).
-/

namespace MyMuduo

open Lib

namespace Buffer

/-- The indices are in order and inside a block that has room for the reserve. -/
structure Ok (b : Buffer) : Prop where
  reserve : kPrePendIndex ≤ b.m_buffer.length
  order : b.m_read_index ≤ b.m_write_index
  bound : b.m_write_index ≤ b.m_buffer.length

/-- `ensureWriteableBytes(len)` takes the branch that moves the indices to the front. -/
def Slides (b : Buffer) (len : ℕ) : Prop :=
  b.writeableBytes < len ∧ len + kPrePendIndex ≤ b.writeableBytes + b.prependableBytes

variable {b : Buffer}

theorem new_ok {size : ℕ} (h : kPrePendIndex ≤ size) : (new size).Ok :=
  ⟨by simpa [new] using h, le_rfl, by simp [new]⟩

@[simp] theorem readable_new (size : ℕ) : (new size).readable = [] := slice_self _ _

theorem length_readable (h : b.Ok) : b.readable.length = b.readableBytes :=
  length_slice h.bound

/-! ## Taking bytes out -/

theorem retrieveAll_ok (h : b.Ok) : b.retrieveAll.Ok := ⟨h.reserve, le_rfl, h.reserve⟩

@[simp] theorem readable_retrieveAll (b : Buffer) : b.retrieveAll.readable = [] := slice_self _ _

theorem retrieve_ok (h : b.Ok) (len : ℕ) : (b.retrieve len).Ok := by
  unfold retrieve
  split
  · rename_i hl
    have := h.order
    unfold readableBytes at hl
    exact ⟨h.reserve, by simp only; omega, h.bound⟩
  · exact retrieveAll_ok h

theorem readable_retrieve (h : b.Ok) (len : ℕ) : (b.retrieve len).readable = b.readable.drop len := by
  unfold retrieve
  split
  · simp only [readable, slice_drop]
  · rename_i hl
    rw [readable_retrieveAll, List.drop_of_length_le]
    rw [length_readable h]; omega

theorem drains : Drains Ok where
  keep _ n h := retrieve_ok h n
  retrieve _ n h _ := readable_retrieve h n

theorem retrieveUntilIndex_add (b : Buffer) (k : ℕ) :
    b.retrieveUntilIndex (b.m_read_index + k) = b.retrieve k := by
  rw [retrieveUntilIndex, Nat.add_sub_cancel_left]

/-! ## Making room -/

theorem length_resize {l : Bytes} {n : ℕ} (h : l.length ≤ n) : (resize l n).length = n := by
  simp only [resize, List.length_append, List.length_take, List.length_replicate]; omega

theorem slice_resize {l : Bytes} {n i j : ℕ} (h : l.length ≤ n) (hij : i ≤ j) (hj : j ≤ l.length) :
    slice (resize l n) i j = slice l i j := by
  rw [resize, List.take_of_length_le h, slice_append_left _ hj hij]

/-- Whatever the branch, there is room for `len` bytes afterwards. -/
theorem ensureWriteableBytes_ok (h : b.Ok) (len : ℕ) :
    (b.ensureWriteableBytes len).Ok ∧
      (b.ensureWriteableBytes len).m_write_index + len ≤
        (b.ensureWriteableBytes len).m_buffer.length := by
  obtain ⟨h1, h2, h3⟩ := h
  unfold ensureWriteableBytes
  split
  · rename_i hr
    unfold writeableBytes at hr
    exact ⟨⟨h1, h2, h3⟩, by omega⟩
  rename_i hr
  split
  · rename_i hs
    simp only [writeableBytes, prependableBytes, readableBytes] at hr hs ⊢
    exact ⟨⟨h1, by simp only; omega, by simp only; omega⟩, by omega⟩
  · simp only [writeableBytes] at hr ⊢
    have hl := length_resize (l := b.m_buffer) (n := b.m_write_index + len) (by omega)
    exact ⟨⟨by simp only [hl]; omega, h2, by simp only [hl]; omega⟩, by rw [hl]⟩

/-- The unread bytes survive unless the indices slide over them. -/
theorem readable_ensureWriteableBytes (h : b.Ok) {len : ℕ} (hk : ¬b.Slides len) :
    (b.ensureWriteableBytes len).readable = b.readable := by
  unfold ensureWriteableBytes
  split
  · rfl
  rename_i hr
  split
  · rename_i hs
    exact absurd ⟨by omega, hs⟩ hk
  · have := h.bound
    simp only [writeableBytes] at hr
    exact slice_resize (by omega) h.order h.bound

/-! ## Putting bytes in -/

theorem append_ok (h : b.Ok) (data : Bytes) : (b.append data).Ok := by
  obtain ⟨h1, h2⟩ := ensureWriteableBytes_ok h data.length
  have hl := length_overwrite h2
  refine ⟨by simp only [append, hl]; exact h1.reserve, ?_, by simp only [append, hl]; exact h2⟩
  exact le_trans h1.order (Nat.le_add_right _ _)

theorem append_readable (h : b.Ok) {data : Bytes} (hk : ¬b.Slides data.length) :
    (b.append data).readable = b.readable ++ data := by
  obtain ⟨h1, h2⟩ := ensureWriteableBytes_ok h data.length
  rw [← readable_ensureWriteableBytes h hk]
  exact slice_overwrite h1.order h2

/-- The buffer as `readv` leaves it when it delivers more than the block has room for. -/
theorem readFd_full (h : b.Ok) (data : Bytes) (hn : b.writeableBytes ≤ data.length) :
    let b₁ : Buffer := { b with
      m_buffer := overwrite b.m_buffer b.m_write_index (data.take b.writeableBytes)
      m_write_index := b.m_buffer.length }
    b₁.Ok ∧ b₁.readable = b.readable ++ data.take b.writeableBytes ∧
      b₁.writeableBytes = 0 := by
  obtain ⟨h1, h2, h3⟩ := h
  have ht : (data.take b.writeableBytes).length = b.writeableBytes := List.length_take_of_le hn
  have hw : b.m_write_index + (data.take b.writeableBytes).length = b.m_buffer.length := by
    rw [ht, writeableBytes]; omega
  have hl := length_overwrite (l := b.m_buffer) (i := b.m_write_index) hw.le
  refine ⟨⟨by simp only [hl]; exact h1, by simp only; omega, by simp only [hl]; exact le_rfl⟩, ?_,
    by simp only [writeableBytes] at hl ⊢; omega⟩
  have hs := slice_overwrite h2 hw.le
  rw [hw] at hs
  exact hs

theorem readFd_ok (h : b.Ok) (data : Bytes) : (b.readFd data).Ok := by
  unfold readFd
  dsimp only
  split
  · rename_i hn
    unfold writeableBytes at hn
    obtain ⟨h1, h2, h3⟩ := h
    have hl := length_overwrite (l := b.m_buffer) (i := b.m_write_index) (d := data) (by omega)
    exact ⟨by simp only [hl]; exact h1, by simp only; omega, by simp only [hl]; omega⟩
  · rename_i hn
    exact append_ok (readFd_full h data (by omega)).1 _

theorem readFd_readable (h : b.Ok) {data : Bytes}
    (hk : ¬(b.writeableBytes < data.length ∧
      data.length - b.writeableBytes + kPrePendIndex ≤ b.m_read_index)) :
    (b.readFd data).readable = b.readable ++ data := by
  unfold readFd
  dsimp only
  split
  · rename_i hn
    have := h.bound
    unfold writeableBytes at hn
    exact slice_overwrite h.order (by omega)
  · rename_i hn
    obtain ⟨h1, h2, h3⟩ := readFd_full h data (by omega)
    rw [append_readable h1, h2, List.append_assoc, List.take_append_drop]
    -- the block is full now, so a slide finds its room in front of the data only
    rintro ⟨-, hs⟩
    rw [h3, List.length_drop, Nat.zero_add] at hs
    exact hk ⟨by omega, hs⟩

end Buffer

/-! ## Histories -/

/-- The call does not slide: `append` finds room or grows the block, and so does the
`append` of the overflow in `readFd`, which starts from a full block. -/
def BufferOp.Keeps (s : BufferRun) : BufferOp → Prop
  | .append data => ¬s.buf.Slides data.length
  | .readFd data => ¬(s.buf.writeableBytes < data.length ∧
      data.length - s.buf.writeableBytes + kPrePendIndex ≤ s.buf.m_read_index)
  | _ => True

instance (b : Buffer) (len : ℕ) : Decidable (b.Slides len) := inferInstanceAs (Decidable (_ ∧ _))

instance (s : BufferRun) : (op : BufferOp) → Decidable (op.Keeps s)
  | .append _ => inferInstanceAs (Decidable (¬_))
  | .readFd _ => inferInstanceAs (Decidable (¬_))
  | .retrieve _ | .retrieveUntilIndex _ | .retrieveAll | .retrieveAllAsString =>
    inferInstanceAs (Decidable True)

/-- A history starts with a fresh buffer of the given size. -/
def BufferRun.init (size : ℕ) : BufferRun := ⟨Buffer.new size, []⟩

/-- The buffer holds the queue. -/
structure BufferRun.Refines (s : BufferRun) (q : Fifo) : Prop where
  ok : s.buf.Ok
  queue : s.buf.readable = q.queue
  taken : s.taken = q.taken

/-- **One call refines one queue step.** -/
theorem BufferRun.step_refines {s s' : BufferRun} {q : Fifo} {op : BufferOp} (h : s.Refines q)
    (hk : op.Keeps s) (hs : s.step op = some s') : s'.Refines (q.step op) := by
  -- one lemma for each call; only the two that add bytes need `Keeps`
  obtain ⟨hok, hq, ht⟩ := h
  cases op with
  | append data =>
    cases hs
    exact ⟨Buffer.append_ok hok data, by simp only [Buffer.append_readable hok hk, hq, Fifo.step], ht⟩
  | retrieve len =>
    simp only [BufferRun.step] at hs
    split at hs <;> cases hs
    exact ⟨Buffer.retrieve_ok hok len, by simp only [Buffer.readable_retrieve hok, hq, Fifo.step], ht⟩
  | retrieveUntilIndex k =>
    simp only [BufferRun.step, Buffer.retrieveUntilIndex_add] at hs
    split at hs <;> cases hs
    exact ⟨Buffer.retrieve_ok hok k, by simp only [Buffer.readable_retrieve hok, hq, Fifo.step], ht⟩
  | retrieveAll =>
    cases hs
    exact ⟨Buffer.retrieveAll_ok hok, Buffer.readable_retrieveAll _, ht⟩
  | retrieveAllAsString =>
    cases hs
    refine ⟨Buffer.retrieveAll_ok hok, Buffer.readable_retrieveAll _, ?_⟩
    simp only [Fifo.step, hq, ht]
  | readFd data =>
    simp only [BufferRun.step] at hs
    split at hs <;> cases hs
    exact ⟨Buffer.readFd_ok hok data, by simp only [Buffer.readFd_readable hok hk, hq, Fifo.step], ht⟩

/-- **The buffer is a byte queue** along every history none of whose calls slides: the unread bytes
are those added and not yet taken, in order, and the strings taken out are those the queue gives. -/
theorem run_fifo {size : ℕ} (hsize : kPrePendIndex ≤ size) (ops : List BufferOp) {s : BufferRun}
    (hk : Along BufferRun.step (fun s op => op.Keeps s) (BufferRun.init size) ops)
    (hrun : run BufferRun.step (BufferRun.init size) ops = some s) :
    s.buf.readable = (ops.foldl Fifo.step ⟨[], []⟩).queue ∧
      s.taken = (ops.foldl Fifo.step ⟨[], []⟩).taken := by
  have h0 : (BufferRun.init size).Refines ⟨[], []⟩ :=
    ⟨Buffer.new_ok hsize, Buffer.readable_new size, rfl⟩
  have h := run_sim Fifo.step (fun _ _ _ _ hR hC hs => BufferRun.step_refines hR hC hs) ops h0 hk hrun
  exact ⟨h.queue, h.taken⟩

/-- A history without a slide, with a growing block and an overflowing read. -/
def growingOps : List BufferOp :=
  [.append [1, 2, 3], .retrieve 2, .readFd (List.replicate 14 4), .retrieveUntilIndex 4,
    .append [5], .retrieveAllAsString, .append [6, 7]]

theorem run_fifo_growing :
    ∃ s, run BufferRun.step (BufferRun.init 16) growingOps = some s ∧
      s.buf.readable = [6, 7] ∧ s.taken = [List.replicate 11 4 ++ [5]] :=
  ⟨_, rfl, run_fifo (show kPrePendIndex ≤ 16 by decide) growingOps (by decide) rfl⟩

/-- A history with a slide: 900 of 1000 bytes are retrieved, and the next 100 bytes do
not fit behind the rest. -/
def slidingOps : List BufferOp :=
  [.append (List.replicate 900 97 ++ List.replicate 100 98), .retrieve 900,
    .append (List.replicate 100 99)]

/-- After the slide the unread bytes are older ones, not those of the queue. -/
theorem run_fifo_slide :
    ∃ s ∈ run BufferRun.step (BufferRun.init kInitialSize) slidingOps,
      s.buf.readable ≠ (slidingOps.foldl Fifo.step ⟨[], []⟩).queue := by
  decide +kernel

end MyMuduo
