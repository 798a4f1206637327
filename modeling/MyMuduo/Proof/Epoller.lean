import MyMuduo.Spec.TcpConnection

/-!
# What an update of a channel does

* `isWriting_or`, `isWriting_andNot`: the write bit follows the calls.
* `setEvents_ok`: whatever branch the epoller takes, a call that returns has set the
  channel's events and changed nothing else of the connection.
* `setEvents_registered`: on a connection that the epoller knows, the call does return.
-/

namespace MyMuduo

open Lib

@[simp] theorem isWriting_or (e : Events) (fd : ℕ) (i : ChannelIndex) :
    Channel.isWriting ⟨fd, e ||| kWriteEvent, i⟩ = true := by
  simp only [Channel.isWriting, ne_eq, decide_eq_true_eq]
  intro h
  have := congrArg (fun x : BitVec 32 => x.getLsbD 2) h
  simp [kWriteEvent, EPOLLOUT] at this

@[simp] theorem isWriting_andNot (e : Events) (fd : ℕ) (i : ChannelIndex) :
    Channel.isWriting ⟨fd, e &&& ~~~kWriteEvent, i⟩ = false := by
  simp only [Channel.isWriting, ne_eq, decide_eq_false_iff_not, not_not]
  rw [BitVec.and_assoc]; simp [kWriteEvent, EPOLLOUT]

@[simp] theorem isWriting_read (fd : ℕ) (i : ChannelIndex) :
    Channel.isWriting ⟨fd, 0 ||| kReadEvent, i⟩ = false := by
  simp only [Channel.isWriting, show (0 ||| kReadEvent) &&& kWriteEvent = (0 : Events) by decide]
  simp

/-- An update keeps the channel's descriptor and events. -/
theorem updateChannel_ok {ep ep' : Epoller} {p : ℕ} {ch ch' : Channel}
    (h : ep.updateChannel p ch = .ok (ep', ch')) :
    ch'.m_events = ch.m_events ∧ ch'.m_fd = ch.m_fd := by
  unfold Epoller.updateChannel at h
  split at h
  · cases h; exact ⟨rfl, rfl⟩
  · split at h <;> cases h; exact ⟨rfl, rfl⟩
  · split at h
    · split at h <;> cases h <;> exact ⟨rfl, rfl⟩
    · cases h

variable {Q : Type}

/-- **A call that sets the events** sets them and leaves the rest of the connection alone. -/
theorem setEvents_ok {ep ep' : Epoller} {c c' : TcpConnection Q} {e : Events}
    (h : c.setEvents ep e = .ok (ep', c')) :
    ∃ i, c' = { c with m_channel := ⟨c.m_channel.m_fd, e, i⟩ } := by
  unfold TcpConnection.setEvents at h
  split at h
  · rename_i ep₁ ch hu
    cases h
    obtain ⟨h1, h2⟩ := updateChannel_ok hu
    cases ch
    simp only at h1 h2
    subst h1 h2
    exact ⟨_, rfl⟩
  · cases h

/-- `epoll_ctl` does not touch the epoller's own map. -/
@[simp] theorem update_m_channels (ep : Epoller) (p : ℕ) (ch : Channel) (op : EpollOp) :
    (ep.update p ch op).m_channels = ep.m_channels := by
  unfold Epoller.update
  split <;> rfl

/-- The epoller knows the connection, under its descriptor. -/
structure TcpConnection.Registered (ep : Epoller) (c : TcpConnection Q) : Prop where
  index : c.m_channel.m_index = .kAdded
  channel : ep.m_channels c.m_channel.m_fd = some c.self

/-- **Events other than none are set without fail** on a registered connection. -/
theorem setEvents_registered {ep : Epoller} {c : TcpConnection Q} (h : c.Registered ep) {e : Events}
    (he : e ≠ 0) :
    c.setEvents ep e = .ok (ep.update c.self { c.m_channel with m_events := e } .mod,
      { c with m_channel := { c.m_channel with m_events := e } }) := by
  have hr : Channel.isRegistered ⟨c.m_channel.m_fd, e, .kAdded⟩ = true := by
    simpa [Channel.isRegistered] using he
  unfold TcpConnection.setEvents Epoller.updateChannel
  simp only [h.index, h.channel, hr, if_true]

theorem kWriteEvent_or_ne (e : Events) : e ||| kWriteEvent ≠ 0 := by
  intro h
  have := isWriting_or e 0 .kNew
  simp [Channel.isWriting, h] at this

end MyMuduo
