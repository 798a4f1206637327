import MyMuduo.Proof.Buffer

/-!
# The bounds of the buffer, and its accounts

`run_fifo` is about the bytes; what is said here holds whether or not a call slides: the indices
are in order and inside the block, the number of unread bytes is what the user put in and did not
take out, and no `int` of the calls overflows.

* `ensureWriteableBytes_room`, `ensureWriteableBytes_count`: there is room afterwards, and as many
  unread bytes as before.
* `LedgerOk`: the invariant; the write index is at most the reserve and all that was ever added,
  because it only grows by what is added and every reset and slide brings it back.
* `buffer_accounts`: **bounds, accounts and assertions, in every reachable state.**
-/

namespace MyMuduo

open Lib

namespace Buffer

variable {b : Buffer}

/-! ## Making room -/

theorem ensureWriteableBytes_room (h : b.Ok) (len : ℕ) :
    len ≤ (b.ensureWriteableBytes len).writeableBytes := by
  have hroom := (ensureWriteableBytes_ok h len).2
  unfold writeableBytes; omega

/-- The slide keeps the number of unread bytes, if not the bytes. -/
theorem ensureWriteableBytes_count (b : Buffer) (len : ℕ) :
    (b.ensureWriteableBytes len).readableBytes = b.readableBytes := by
  unfold ensureWriteableBytes
  split
  · rfl
  split
  · simp only [readableBytes]; omega
  · rfl

/-- The write index moves to the front, or stays. -/
theorem ensureWriteableBytes_write (b : Buffer) (len : ℕ) :
    (b.ensureWriteableBytes len).m_write_index ≤ max b.m_write_index (kPrePendIndex + b.readableBytes) := by
  unfold ensureWriteableBytes
  split
  · exact le_max_left _ _
  split
  · exact le_max_right _ _
  · exact le_max_left _ _

/-- The block grows up to the end of what is to be written. -/
theorem ensureWriteableBytes_length (h : b.Ok) (len : ℕ) :
    (b.ensureWriteableBytes len).m_buffer.length ≤ max b.m_buffer.length (b.m_write_index + len) := by
  have hb := h.bound
  unfold ensureWriteableBytes
  split
  · exact le_max_left _ _
  rename_i hr
  split
  · exact le_max_left _ _
  · have hle : b.m_buffer.length ≤ b.m_write_index + len := by
      unfold writeableBytes at hr; omega
    have hl := length_resize (l := b.m_buffer) hle
    simp only [hl]; omega

/-! ## The calls -/

theorem append_bounds (h : b.Ok) (data : Bytes) :
    (b.append data).readableBytes = b.readableBytes + data.length ∧
      (b.append data).m_write_index ≤ max b.m_write_index (kPrePendIndex + b.readableBytes) + data.length ∧
      (b.append data).m_buffer.length ≤ max b.m_buffer.length (b.m_write_index + data.length) := by
  obtain ⟨h1, h2⟩ := ensureWriteableBytes_ok h data.length
  have hcount := ensureWriteableBytes_count b data.length
  have hwrite := ensureWriteableBytes_write b data.length
  have hlen := ensureWriteableBytes_length h data.length
  have hover := length_overwrite (d := data) h2
  have horder := h1.order
  refine ⟨?_, ?_, ?_⟩
  · simp only [append, readableBytes] at hcount ⊢; omega
  · simp only [append]; omega
  · simp only [append, hover]; exact hlen

/-- `readFd` with an overflow fills the block first. -/
theorem readFd_bounds (h : b.Ok) (data : Bytes) :
    (b.readFd data).readableBytes = b.readableBytes + data.length ∧
      (b.readFd data).m_write_index ≤ max b.m_write_index (kPrePendIndex + b.readableBytes) + data.length ∧
      (b.readFd data).m_buffer.length ≤ max b.m_buffer.length (b.m_write_index + data.length) := by
  have horder := h.order
  have hbound := h.bound
  unfold readFd
  dsimp only
  split
  · rename_i hn
    have hover : (overwrite b.m_buffer b.m_write_index data).length = b.m_buffer.length := by
      apply length_overwrite
      unfold writeableBytes at hn; omega
    refine ⟨?_, ?_, ?_⟩
    · simp only [readableBytes]; omega
    · simp only; omega
    · simp only [hover]; omega
  · rename_i hn
    have hn' : b.writeableBytes ≤ data.length := by omega
    obtain ⟨hok, hread, -⟩ := readFd_full h data hn'
    obtain ⟨h1, h2, h3⟩ := append_bounds hok (data.drop b.writeableBytes)
    have htake : (data.take b.writeableBytes).length = b.writeableBytes := List.length_take_of_le hn'
    have hover : (overwrite b.m_buffer b.m_write_index (data.take b.writeableBytes)).length =
        b.m_buffer.length := by
      apply length_overwrite
      rw [htake, writeableBytes]; omega
    simp only [List.length_drop, readableBytes, writeableBytes] at h1 h2 h3 hn' hover ⊢
    rw [hover] at h3
    refine ⟨?_, ?_, ?_⟩
    · rw [h1]; omega
    · omega
    · omega

theorem retrieve_bounds (b : Buffer) {len : ℕ} (hlen : len ≤ b.readableBytes) :
    (b.retrieve len).readableBytes + len = b.readableBytes ∧
      (b.retrieve len).m_write_index ≤ max b.m_write_index kPrePendIndex ∧
      (b.retrieve len).m_buffer = b.m_buffer := by
  unfold retrieve
  split
  · rename_i hl
    refine ⟨?_, le_max_left _ _, rfl⟩
    simp only [readableBytes] at hl ⊢; omega
  · rename_i hl
    refine ⟨?_, le_max_right _ _, rfl⟩
    simp only [retrieveAll, readableBytes] at hl hlen ⊢; omega

/-- The buffer as `readFd` leaves it before it appends the overflow. -/
def full (b : Buffer) (data : Bytes) : Buffer :=
  { b with
    m_buffer := overwrite b.m_buffer b.m_write_index (data.take b.writeableBytes)
    m_write_index := b.m_buffer.length }

/-- The copies that a call makes into the block: where each begins, how long it is, and how long
the block is then. The copy of `readv` itself is one of them. -/
def copies (b : Buffer) : BufferOp → List (ℕ × ℕ × ℕ)
  | .append data =>
    let b := b.ensureWriteableBytes data.length
    [(b.m_write_index, data.length, b.m_buffer.length)]
  | .readFd data =>
    let writeable := b.writeableBytes
    if data.length ≤ writeable then [(b.m_write_index, data.length, b.m_buffer.length)]
    else
      let b' := (b.full data).ensureWriteableBytes (data.length - writeable)
      [(b.m_write_index, writeable, b.m_buffer.length),
        (b'.m_write_index, data.length - writeable, b'.m_buffer.length)]
  | _ => []

/-- Every copy stays inside the block. -/
theorem copies_inside (h : b.Ok) (op : BufferOp) : ∀ x ∈ b.copies op, x.1 + x.2.1 ≤ x.2.2 := by
  intro x hx
  have hbound := h.bound
  cases op with
  | append data =>
    have hroom := (ensureWriteableBytes_ok h data.length).2
    simp only [copies, List.mem_singleton] at hx
    rw [hx]; exact hroom
  | readFd data =>
    simp only [copies] at hx
    split at hx
    · rename_i hn
      rw [List.mem_singleton.1 hx]
      simp only [writeableBytes] at hn ⊢; omega
    · rename_i hn
      have hn' : b.writeableBytes ≤ data.length := by omega
      have hroom := (ensureWriteableBytes_ok (readFd_full h data hn').1
        (data.length - b.writeableBytes)).2
      rcases List.mem_cons.1 hx with hx | hx
      · rw [hx]
        simp only [writeableBytes]; omega
      · rw [List.mem_singleton.1 hx]; exact hroom
  | retrieve len => simp [copies] at hx
  | retrieveUntilIndex k => simp [copies] at hx
  | retrieveAll => simp [copies] at hx
  | retrieveAllAsString => simp [copies] at hx

/-- The bytes that a call adds. -/
def addedBy : BufferOp → ℕ
  | .append data | .readFd data => data.length
  | _ => 0

/-- The values of type `int` in `append(data, len)`: the size of the block, the operands of the test
of `ensureWriteableBytes`, the indices it sets, and the new size. -/
def appendInts (b : Buffer) (len : ℕ) : List ℕ :=
  [b.m_buffer.length, b.writeableBytes, b.writeableBytes + b.prependableBytes, len + kPrePendIndex,
    kPrePendIndex + b.readableBytes, b.m_write_index + len]

/-- The values of type `int` in a call. -/
def ints (b : Buffer) : BufferOp → List ℕ
  | .append data => b.appendInts data.length
  | .readFd data =>
    [b.m_buffer.length, b.writeableBytes, data.length] ++
      if data.length ≤ b.writeableBytes then [b.m_write_index + data.length]
      else (b.full data).appendInts (data.length - b.writeableBytes)
  | _ => [b.readableBytes, b.m_read_index, b.m_write_index, kPrePendIndex]

/-- No `int` of a call overflows, as long as the block and the bytes added so far and now do not. -/
theorem ints_lt {size added : ℕ} (h : b.Ok) (hwrite : b.m_write_index ≤ kPrePendIndex + added)
    (hlen : b.m_buffer.length ≤ max size (kPrePendIndex + added)) (hread : b.readableBytes ≤ added)
    (op : BufferOp) (htotal : max size (kPrePendIndex + added) < 2 ^ 31)
    (hop : kPrePendIndex + added + addedBy op < 2 ^ 31) : ∀ i ∈ b.ints op, i < 2 ^ 31 := by
  intro i hi
  have horder := h.order
  have hbound := h.bound
  -- a block whose indices and length are in range, with room for `len` bytes
  have key : ∀ (b' : Buffer) (len : ℕ), b'.m_read_index ≤ b'.m_write_index →
      b'.m_write_index ≤ b'.m_buffer.length → b'.m_buffer.length < 2 ^ 31 →
      b'.m_write_index + len < 2 ^ 31 → kPrePendIndex + b'.readableBytes + len < 2 ^ 31 →
      ∀ i ∈ b'.appendInts len, i < 2 ^ 31 := by
    intro b' len h1 h2 h3 h4 h5 i hi
    simp only [appendInts, readableBytes, writeableBytes, prependableBytes, List.mem_cons, List.not_mem_nil,
      or_false] at hi h5
    omega
  cases op with
  | append data =>
    simp only [addedBy] at hop
    exact key b data.length horder hbound (by omega) (by omega) (by omega) i hi
  | readFd data =>
    simp only [addedBy] at hop
    simp only [ints, List.mem_append] at hi
    rcases hi with hi | hi
    · simp only [writeableBytes, List.mem_cons, List.not_mem_nil, or_false] at hi
      omega
    split at hi
    · rw [List.mem_singleton.1 hi]; omega
    · rename_i hn
      have hn' : b.writeableBytes ≤ data.length := by omega
      have hover : (b.full data).m_buffer.length = b.m_buffer.length := by
        apply length_overwrite
        rw [List.length_take_of_le hn', writeableBytes]; omega
      have hr : (b.full data).m_read_index = b.m_read_index := rfl
      have hw : (b.full data).m_write_index = b.m_buffer.length := rfl
      simp only [readableBytes, writeableBytes] at hread hn hn' hi
      refine key (b.full data) _ (by omega) (by omega) (by omega) ?_ ?_ i hi
      · omega
      · rw [readableBytes]; omega
  | retrieve len | retrieveUntilIndex len =>
    simp only [ints, readableBytes, kPrePendIndex, List.mem_cons, List.not_mem_nil, or_false] at hi
    simp only [kPrePendIndex] at hwrite htotal
    omega
  | retrieveAll | retrieveAllAsString =>
    simp only [ints, readableBytes, kPrePendIndex, List.mem_cons, List.not_mem_nil, or_false] at hi
    simp only [kPrePendIndex] at hwrite htotal
    omega

end Buffer

/-! ## Every reachable state -/

namespace Ledger

variable {size : ℕ} {s s' : Ledger}

/-- **The invariant of the accounts.** -/
structure LedgerOk (size : ℕ) (s : Ledger) : Prop where
  ok : s.buf.Ok
  running : s.failed = false
  account : s.buf.readableBytes + s.retrieved = s.added
  write : s.buf.m_write_index ≤ kPrePendIndex + s.added
  length : s.buf.m_buffer.length ≤ max size (kPrePendIndex + s.added)

theorem LedgerOk.unread (h : LedgerOk size s) : s.unread = s.buf.readableBytes := by
  have := h.account
  unfold Ledger.unread; omega

/-- A call that takes bytes out. -/
theorem LedgerOk.take (h : LedgerOk size s) {b : Buffer} {n : ℕ} (hok : b.Ok)
    (hcount : b.readableBytes + n = s.buf.readableBytes)
    (hwrite : b.m_write_index ≤ max s.buf.m_write_index kPrePendIndex) (hblock : b.m_buffer = s.buf.m_buffer) :
    LedgerOk size { s with buf := b, retrieved := s.retrieved + n } := by
  have h1 := h.account
  have h2 := h.write
  have h3 := h.length
  refine ⟨hok, h.running, ?_, ?_, ?_⟩
  · simp only; omega
  · simp only; omega
  · simp only [hblock]; exact h3

/-- A call that puts bytes in. -/
theorem LedgerOk.add (h : LedgerOk size s) {b : Buffer} {n : ℕ} (hok : b.Ok)
    (hcount : b.readableBytes = s.buf.readableBytes + n)
    (hwrite : b.m_write_index ≤ max s.buf.m_write_index (kPrePendIndex + s.buf.readableBytes) + n)
    (hlen : b.m_buffer.length ≤ max s.buf.m_buffer.length (s.buf.m_write_index + n)) :
    LedgerOk size { s with buf := b, added := s.added + n } := by
  have h1 := h.account
  have h2 := h.write
  have h3 := h.length
  refine ⟨hok, h.running, ?_, ?_, ?_⟩
  · simp only; omega
  · simp only; omega
  · simp only; omega

theorem retrieve_ledgerOk (h : LedgerOk size s) {len : ℕ} (hlen : len ≤ s.unread) :
    LedgerOk size (s.retrieve len) := by
  have hle : len ≤ s.buf.readableBytes := by rw [← h.unread]; exact hlen
  obtain ⟨h1, h2, h3⟩ := Buffer.retrieve_bounds s.buf hle
  rw [Ledger.retrieve, if_pos hle]
  exact h.take (Buffer.retrieve_ok h.ok len) h1 h2 h3

/-- **One call keeps the accounts**, and runs into no assertion. -/
theorem step_ledgerOk (h : LedgerOk size s) {op : LedgerOp} (hs : s.step op = some s') :
    LedgerOk size s' := by
  have hrun : ¬s.failed = true := by rw [h.running]; simp
  have hunread := h.unread
  have horder := h.ok.order
  -- `retrieveAll` takes out all there is
  have hall : LedgerOk size { s with buf := s.buf.retrieveAll, retrieved := s.retrieved + s.buf.readableBytes } := by
    refine h.take (Buffer.retrieveAll_ok h.ok) ?_ (le_max_right _ _) rfl
    simp only [Buffer.retrieveAll, Buffer.readableBytes]; omega
  cases op with
  | readFdFails errno =>
    simp only [step, if_neg hrun, Option.some.injEq] at hs
    rw [← hs]; exact h
  | call op =>
    cases op with
    | append data =>
      simp only [step, if_neg hrun, Option.some.injEq] at hs
      obtain ⟨h1, h2, h3⟩ := Buffer.append_bounds h.ok data
      rw [← hs]
      exact h.add (Buffer.append_ok h.ok data) h1 h2 h3
    | retrieve len =>
      simp only [step] at hs
      split at hs
      · simp at hs
      · rename_i hg
        simp only [Option.some.injEq] at hs
        rw [← hs]
        exact retrieve_ledgerOk h (by omega)
    | retrieveUntilIndex k =>
      simp only [step] at hs
      split at hs
      · simp at hs
      · rename_i hg
        have hk : k ≤ s.unread := by omega
        -- the pointer is in the readable range, since the accounts say so
        have hin : s.buf.m_read_index ≤ s.buf.m_read_index + k ∧
            s.buf.m_read_index + k ≤ s.buf.m_write_index := by
          rw [hunread, Buffer.readableBytes] at hk; omega
        rw [if_pos hin, Nat.add_sub_cancel_left, Option.some.injEq] at hs
        rw [← hs]
        exact retrieve_ledgerOk h hk
    | retrieveAll =>
      simp only [step, if_neg hrun, Option.some.injEq] at hs
      rw [← hs, hunread]; exact hall
    | retrieveAllAsString =>
      simp only [step, if_neg hrun, Option.some.injEq, Buffer.retrieveAllAsString] at hs
      rw [← hs, Buffer.length_readable h.ok]; exact hall
    | readFd data =>
      simp only [step] at hs
      split at hs
      · simp at hs
      · simp only [Option.some.injEq, Buffer.readFdResult] at hs
        obtain ⟨h1, h2, h3⟩ := Buffer.readFd_bounds h.ok data
        rw [← hs]
        exact h.add (Buffer.readFd_ok h.ok data) h1 h2 h3

theorem init_ledgerOk (hsize : kPrePendIndex ≤ size) : LedgerOk size (init size) := by
  refine ⟨Buffer.new_ok hsize, rfl, rfl, Nat.zero_le _, ?_⟩
  simp only [init, Buffer.new, List.length_replicate]; omega

/-- **Bounds and accounts of the buffer**, in every state that calls on a buffer of at least 8 bytes
lead to, as long as the block it was built with and all that was added stay below `2^31`: the indices
are in order and inside the block; every copy is made inside the block; `ensureWriteableBytes` makes
room without changing the number of unread bytes, which is what was added less what was retrieved; no
assertion has failed; a failed `readFd` changes nothing; and no `int` overflows. -/
theorem buffer_accounts (hsize : kPrePendIndex ≤ size) (ops : List LedgerOp)
    (hrun : run step (init size) ops = some s) (htotal : max size (kPrePendIndex + s.added) < 2 ^ 31) :
    (s.buf.m_read_index ≤ s.buf.m_write_index ∧ s.buf.m_write_index ≤ s.buf.m_buffer.length) ∧
      (∀ op, ∀ x ∈ s.buf.copies op, x.1 + x.2.1 ≤ x.2.2) ∧
      (∀ len, len ≤ (s.buf.ensureWriteableBytes len).writeableBytes ∧
        (s.buf.ensureWriteableBytes len).readableBytes = s.buf.readableBytes) ∧
      s.buf.readableBytes + s.retrieved = s.added ∧ s.failed = false ∧
      (∀ errno, s.step (.readFdFails errno) = some s) ∧
      ∀ op, kPrePendIndex + s.added + Buffer.addedBy op < 2 ^ 31 → ∀ i ∈ s.buf.ints op, i < 2 ^ 31 := by
  have h := run_inv (I := LedgerOk size) (fun _ _ _ ht hs => step_ledgerOk ht hs) (init_ledgerOk hsize) hrun
  have horder := h.ok.order
  have hbound := h.ok.bound
  refine ⟨⟨horder, hbound⟩, Buffer.copies_inside h.ok, fun len => ?_, h.account, h.running, fun errno => ?_,
    fun op hop => ?_⟩
  · exact ⟨Buffer.ensureWriteableBytes_room h.ok len, Buffer.ensureWriteableBytes_count s.buf len⟩
  · have hrunning : ¬s.failed = true := by rw [h.running]; simp
    rw [step, if_neg hrunning]; rfl
  · have h1 := h.account
    exact Buffer.ints_lt h.ok h.write h.length (by omega) op htotal hop

/-- A short buffer that grows, slides, overflows into the extra buffer and runs empty. -/
def ledgerOps : List LedgerOp :=
  [.call (.append (List.replicate 12 1)), .call (.retrieve 10), .readFdFails 11, .call (.append [2, 3]),
    .call (.readFd (List.replicate 20 4)), .call (.retrieveUntilIndex 3), .call .retrieveAllAsString,
    .call (.retrieve 0), .call (.append [5])]

theorem buffer_accounts_sliding :
    ∃ s, run step (init 8) ledgerOps = some s ∧ s.added = 35 ∧ s.buf.readableBytes = 1 ∧
      s.buf.readableBytes + s.retrieved = s.added :=
  ⟨_, rfl, rfl, rfl, (buffer_accounts le_rfl ledgerOps rfl (by decide)).2.2.2.1⟩

end Ledger

end MyMuduo
