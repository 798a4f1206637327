import MyMuduo.Proof.ConnectionLife

/-!
# What a handler does, whatever the phase

`ConnectionLife` says what the handlers do to a connection in a phase of its life. Here is what they do
to any connection (`Handles`): they register no other channel, they bring no connection up, and they do
not pass for its destructor.
-/

namespace MyMuduo

open Lib

variable {Q : Type}

/-- The connection was never closed and is not shut down. -/
def ConnectionState.isUp : ConnectionState → Bool
  | .kConnecting | .kConnected => true
  | .kDisconnecting | .kDisconnected => false

/-! ## What a handler does -/

/-- **What a handler does to a connection**: it does not bring it up. -/
structure Handles (ep : Epoller) (c : TcpConnection Q) (ep' : Epoller) (c' : TcpConnection Q) : Prop where
  same : SameId c c'
  interest : ∀ fd x, ep'.interest fd = some x → x.2 = c.self ∨ ep.interest fd = some x
  state : c'.m_state = c.m_state ∨ c'.m_state = .kDisconnected ∧ c.m_state ≠ .kConnecting
  trace : .connectionDestructor ∈ c'.trace → .connectionDestructor ∈ c.trace

variable {ep ep' : Epoller} {c c' c'' : TcpConnection Q}

theorem Handles.refl (ep : Epoller) (c : TcpConnection Q) : Handles ep c ep c :=
  ⟨.refl c, fun _ _ hx => Or.inr hx, Or.inl rfl, id⟩

/-- A change that only the connection sees. -/
theorem Handles.of_eq (hself : c'.self = c.self) (hloop : c'.m_loop = c.m_loop)
    (hchan : c'.m_channel = c.m_channel) (hstate : c'.m_state = c.m_state)
    (htrace : .connectionDestructor ∈ c'.trace → .connectionDestructor ∈ c.trace) : Handles ep c ep c' :=
  ⟨⟨hself, hloop, by rw [hchan]⟩, fun _ _ hx => Or.inr hx, Or.inl hstate, htrace⟩

theorem Handles.trans {ep'' : Epoller} (h : Handles ep c ep' c') (h' : Handles ep' c' ep'' c'') :
    Handles ep c ep'' c'' := by
  refine ⟨⟨h'.same.self.trans h.same.self, h'.same.loop.trans h.same.loop, h'.same.fd.trans h.same.fd⟩,
    fun fd x hx => ?_, ?_, fun ht => h.trace (h'.trace ht)⟩
  · rcases h'.interest fd x hx with hx | hx
    · exact Or.inl (hx.trans h.same.self)
    · exact h.interest fd x hx
  · rcases h'.state with hs' | ⟨hs', hne⟩
    · rw [hs']
      exact h.state
    · rcases h.state with hs | ⟨-, hs⟩
      · exact Or.inr ⟨hs', hs ▸ hne⟩
      · exact Or.inr ⟨hs', hs⟩

/-- `epoll_ctl` registers the channel it is called for, if any. -/
theorem update_interest_of (ep : Epoller) (p : ℕ) (ch : Channel) (op : EpollOp) {fd : ℕ} {x : Events × ℕ}
    (hx : (ep.update p ch op).interest fd = some x) : x.2 = p ∨ ep.interest fd = some x := by
  by_cases hfd : fd = ch.m_fd
  · subst hfd
    exact (update_interest ep p ch op hx).2
  · rw [(update_agree ep p ch op).interest fd hfd] at hx
    exact Or.inr hx

theorem updateChannel_interest {p : ℕ} {ch ch' : Channel} (h : ep.updateChannel p ch = .ok (ep', ch'))
    {fd : ℕ} {x : Events × ℕ} (hx : ep'.interest fd = some x) : x.2 = p ∨ ep.interest fd = some x := by
  unfold Epoller.updateChannel at h
  split at h
  · cases h
    exact update_interest_of { ep with m_channels := Function.update ep.m_channels ch.m_fd (some p) } p _
      .add hx
  · split at h
    · cases h
      exact update_interest_of ep p _ .add hx
    · cases h
  · split at h
    · split at h
      · cases h
        exact update_interest_of ep p _ .mod hx
      · cases h
        exact update_interest_of ep p _ .del hx
    · cases h

theorem setEvents_handles {e : Events} (h : c.setEvents ep e = .ok (ep', c')) : Handles ep c ep' c' := by
  obtain ⟨i, hc⟩ := setEvents_ok h
  unfold TcpConnection.setEvents at h
  split at h
  · next hu =>
    cases h
    rw [hc]
    exact ⟨⟨rfl, rfl, rfl⟩, fun fd x hx => updateChannel_interest hu hx, Or.inl rfl, id⟩
  · cases h

theorem removeChannel_handles (h : c.removeChannel ep = .ok (ep', c')) : Handles ep c ep' c' := by
  unfold TcpConnection.removeChannel at h
  split at h
  · next ep₁ ch hr =>
    cases h
    unfold Epoller.removeChannel at hr
    split at hr
    · dsimp only at hr
      split at hr
      · cases hr
        exact ⟨⟨rfl, rfl, rfl⟩, fun fd x hx => update_interest_of ep _ _ .del hx, Or.inl rfl, id⟩
      · cases hr
        exact ⟨⟨rfl, rfl, rfl⟩, fun fd x hx => Or.inr hx, Or.inl rfl, id⟩
    · cases hr
  · cases h

theorem handleClose_handles (h : c.handleClose ep = .ok (ep', c')) :
    Handles ep c ep' c' ∧ c'.m_state = .kDisconnected := by
  unfold TcpConnection.handleClose at h
  split at h
  · next hst =>
    have hset := setEvents_handles h
    obtain ⟨i, hc⟩ := setEvents_ok h
    have hne : c.m_state ≠ .kConnecting := by
      rintro h0
      rw [h0] at hst
      simp at hst
    refine ⟨⟨⟨hset.same.self, hset.same.loop, hset.same.fd⟩, hset.interest,
      Or.inr ⟨by rw [hc], hne⟩, ?_⟩, by rw [hc]⟩
    rw [hc]
    intro ht
    simpa using ht
  · cases h

theorem shutDownInLoop_handles (ep : Epoller) (c : TcpConnection Q) : Handles ep c ep c.shutDownInLoop := by
  unfold TcpConnection.shutDownInLoop
  split
  · exact .refl ep c
  · exact .of_eq rfl rfl rfl rfl id

variable [ByteQueue Q]

theorem handleWrite_handles {r : Except ℕ ℕ} (h : c.handleWrite ep r = .ok (ep', c')) :
    Handles ep c ep' c' := by
  have hwrote : ∀ (wire : Bytes) (buffer : Q), Handles ep c ep
      { c with trace := c.trace ++ [.write], wire := wire, m_output_buffer := buffer } :=
    fun wire buffer => .of_eq rfl rfl rfl rfl fun ht => by simpa using ht
  unfold TcpConnection.handleWrite at h
  split at h
  · dsimp only at h
    split at h
    · split at h
      · split at h
        · next hset =>
          cases h
          have hdisable := setEvents_handles hset
          refine ((hwrote _ _).trans hdisable).trans ?_
          split
          · exact shutDownInLoop_handles _ _
          · exact .refl _ _
        · cases h
      · cases h
        exact hwrote _ _
    · cases h
      exact hwrote _ _
  · cases h
    exact .refl ep c

theorem directWrite_handles (ep : Epoller) (c : TcpConnection Q) (msg : Bytes) (r : Except ℕ ℕ) :
    Handles ep c ep (c.directWrite msg r).1 := by
  unfold TcpConnection.directWrite
  split
  · exact .of_eq rfl rfl rfl rfl fun ht => by simpa using ht
  · exact .refl ep c

theorem sendInLoop_handles {msg : Bytes} {r : Except ℕ ℕ} (h : c.sendInLoop ep msg r = .ok (ep', c')) :
    Handles ep c ep' c' := by
  unfold TcpConnection.sendInLoop at h
  split at h
  · cases h
    exact .refl ep c
  · have hsent : Handles ep c ep { c with sent := c.sent ++ [msg] } := .of_eq rfl rfl rfl rfl id
    have hdirect := hsent.trans (directWrite_handles ep { c with sent := c.sent ++ [msg] } msg r)
    revert h hdirect
    rcases TcpConnection.directWrite { c with sent := c.sent ++ [msg] } msg r with ⟨c₁, n, f⟩
    intro h hdirect
    dsimp only at h hdirect
    split at h
    · have hput : Handles ep c ep
          { c₁ with m_output_buffer := ByteQueue.append c₁.m_output_buffer (msg.drop n) } :=
        hdirect.trans (.of_eq rfl rfl rfl rfl id)
      split at h
      · exact hput.trans (setEvents_handles h)
      · cases h
        exact hput
    · cases h
      exact hdirect

theorem handleRead_handles {r : Except ℕ Bytes} {callback : Option TcpConnection.ReadCallback}
    (h : c.handleRead ep r = .ok (ep', c', callback)) :
    Handles ep c ep' c' ∧ (callback = some .close → c'.m_state = .kDisconnected) := by
  have hread : Handles ep c ep { c with trace := c.trace ++ [.readv] } :=
    .of_eq rfl rfl rfl rfl fun ht => by simpa using ht
  have hclose : ∀ {ep₁ : Epoller} {c₁ : TcpConnection Q},
      TcpConnection.handleClose ep { c with trace := c.trace ++ [.readv] } = .ok (ep₁, c₁) →
      Handles ep c ep₁ c₁ ∧ c₁.m_state = .kDisconnected := by
    intro ep₁ c₁ hc
    obtain ⟨h1, h2⟩ := handleClose_handles hc
    exact ⟨hread.trans h1, h2⟩
  unfold TcpConnection.handleRead at h
  dsimp only at h
  split at h
  · split at h
    · next hc =>
      cases h
      exact ⟨(hclose hc).1, fun _ => (hclose hc).2⟩
    · cases h
  · cases h
    exact ⟨hread.trans (.of_eq rfl rfl rfl rfl id), fun hc => by cases hc⟩
  · rw [if_pos (by decide)] at h
    split at h
    · next hc =>
      cases h
      exact ⟨(hclose hc).1, fun _ => (hclose hc).2⟩
    · cases h

end MyMuduo
