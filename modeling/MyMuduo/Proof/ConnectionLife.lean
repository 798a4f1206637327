import MyMuduo.Proof.Epoller
import MyMuduo.Spec.Server

/-!
# The life of one connection

A connection goes through phases, in one direction only: it is made, established, closed by
`handleClose`, removed from the server's map, destroyed by `connectionDestructor` and taken out
of its epoller. `At` says what a connection and the epoller of its home look like in a phase;
it mentions nothing outside of the connection's own descriptor.

Each handler has one lemma: from `At p` it returns, and leads to `At p'` (`Leads`). So no
assertion of `handleClose`, `updateChannel` or `removeChannel` fails as long as the handlers are
called in the phases these lemmas ask for. That they are is a matter of the server.
-/

namespace MyMuduo

open Lib

/-- Where a connection is in its life. -/
inductive Phase where
  | unborn
  /-- made, `connectionEstablished` still to come -/
  | connecting
  | live
  /-- after `handleClose`, the close callback still to come -/
  | closing
  /-- `handleRemoveConnectionInLoop` still to come -/
  | removing
  /-- `connectionDestructor` still to come -/
  | destructing
  /-- inside `connectionDestructor`, the channel still to be removed -/
  | deregistering
  | gone
  deriving DecidableEq, Repr

namespace Phase

def rank : Phase → ℕ
  | unborn => 0 | connecting => 1 | live => 2 | closing => 3 | removing => 4 | destructing => 5
  | deregistering => 6 | gone => 7

/-- The connection is in `m_connections`. -/
def inMap : Phase → Bool
  | connecting | live | closing | removing => true
  | _ => false

/-- The connection is in the epoller's map. -/
def inEpoll : Phase → Bool
  | live | closing | removing | destructing | deregistering => true
  | _ => false

/-- The call that takes the connection out of the phase, if it is to come. -/
def due : Phase → Option LifeStep
  | connecting => some .connectionEstablished
  | closing => some .closeCallback
  | removing => some .handleRemoveConnectionInLoop
  | destructing => some .connectionDestructor
  | deregistering => some .remove
  | unborn | live | gone => none

/-- Functors with a raw `this` may be queued. -/
def mayDefer : Phase → Bool
  | live | closing | removing | destructing => true
  | _ => false

def State : Phase → ConnectionState → Prop
  | unborn, st | connecting, st => st = .kConnecting
  | live, st => st = .kConnected ∨ st = .kDisconnecting
  | _, st => st = .kDisconnected

def Chan : Phase → Channel → Prop
  | unborn, _ => True
  | connecting, ch => ch.m_index = .kNew ∧ ch.m_events = 0
  -- read interest is never given up
  | live, ch => ch.m_index = .kAdded ∧ ch.m_events.getLsbD 0 = true
  | _, ch => ch.m_index = .kDeleted ∧ ch.m_events = 0

/-- The events that the end of the life left in the trace. -/
def epilogue : Phase → List ConnEvent
  | unborn | connecting | live => []
  | closing => [.handleClose]
  | removing | destructing => [.handleClose, .closeCallback]
  | deregistering | gone => [.handleClose, .closeCallback, .connectionDestructor]

end Phase

variable {Q : Type}

/-- A phase past `handleClose` is one of a disconnected connection, and no other is. -/
theorem Phase.disconnected_iff {p : Phase} {st : ConnectionState} (h : p.State st) :
    st = .kDisconnected ↔ 2 < p.rank := by
  cases p with
  | unborn | connecting =>
    rw [show st = .kConnecting from h]
    decide
  | live =>
    rcases h with rfl | rfl
    · decide
    · decide
  | _ =>
    rw [show st = .kDisconnected from h]
    decide

/-- Reads and writes come first, then the end. -/
def TraceOk (p : Phase) (trace : List ConnEvent) : Prop :=
  ∃ io, (∀ e ∈ io, e = .readv ∨ e = .write) ∧ trace = io ++ p.epilogue

/-- **A connection in a phase**, with the epoller of its home. -/
structure At (p : Phase) (ep : Epoller) (c : TcpConnection Q) : Prop where
  state : p.State c.m_state
  chan : p.Chan c.m_channel
  trace : TraceOk p c.trace
  channels : ep.m_channels c.m_channel.m_fd = if p.inEpoll then some c.self else none
  interest : ∀ x, ep.interest c.m_channel.m_fd = some x → p = .live ∧ x.2 = c.self

/-- The epollers agree outside of a descriptor. -/
structure AgreeOff (fd : ℕ) (ep ep' : Epoller) : Prop where
  channels : ∀ fd', fd' ≠ fd → ep'.m_channels fd' = ep.m_channels fd'
  interest : ∀ fd', fd' ≠ fd → ep'.interest fd' = ep.interest fd'

/-- The connection is the same object, for the same descriptor and loop. -/
structure SameId (c c' : TcpConnection Q) : Prop where
  self : c'.self = c.self
  loop : c'.m_loop = c.m_loop
  fd : c'.m_channel.m_fd = c.m_channel.m_fd

/-- **A call leads to a phase**: it touches nothing but the connection and its descriptor. -/
structure Leads (p : Phase) (ep : Epoller) (c : TcpConnection Q) (ep' : Epoller)
    (c' : TcpConnection Q) : Prop where
  same : SameId c c'
  at_ : At p ep' c'
  agree : AgreeOff c.m_channel.m_fd ep ep'

theorem AgreeOff.refl (fd : ℕ) (ep : Epoller) : AgreeOff fd ep ep := ⟨fun _ _ => rfl, fun _ _ => rfl⟩

theorem AgreeOff.trans {fd : ℕ} {ep ep' ep'' : Epoller} (h : AgreeOff fd ep ep')
    (h' : AgreeOff fd ep' ep'') : AgreeOff fd ep ep'' :=
  ⟨fun x hx => (h'.channels x hx).trans (h.channels x hx),
    fun x hx => (h'.interest x hx).trans (h.interest x hx)⟩

theorem SameId.refl (c : TcpConnection Q) : SameId c c := ⟨rfl, rfl, rfl⟩

variable {p : Phase} {ep : Epoller} {c : TcpConnection Q}

/-- A change that the phase does not see. -/
theorem At.leads (h : At p ep c) {p' : Phase} {c' : TcpConnection Q} (hid : SameId c c')
    (hstate : p'.State c'.m_state) (hchan : c'.m_channel = c.m_channel) (hchan' : p'.Chan c.m_channel)
    (htrace : TraceOk p' c'.trace) (hin : p'.inEpoll = p.inEpoll) (hlive : p = .live → p' = .live) :
    Leads p' ep c ep c' := by
  refine ⟨hid, ⟨hstate, by rw [hchan]; exact hchan', htrace, ?_, ?_⟩, .refl _ _⟩
  · rw [hid.fd, hid.self, hin]
    exact h.channels
  · rw [hid.fd, hid.self]
    intro x hx
    obtain ⟨h1, h2⟩ := h.interest x hx
    exact ⟨hlive h1, h2⟩

theorem At.leads_self (h : At p ep c) : Leads p ep c ep c :=
  h.leads (.refl c) h.state rfl h.chan h.trace rfl id

/-- A system call on the socket is noted in front of the end of the life, so it must come
before it. -/
theorem TraceOk.io (h : TraceOk p c.trace) (hp : p.epilogue = []) {e : ConnEvent}
    (he : e = .readv ∨ e = .write) : TraceOk p (c.trace ++ [e]) := by
  obtain ⟨io, hio, ht⟩ := h
  refine ⟨io ++ [e], ?_, by rw [ht, hp]; simp⟩
  intro x hx
  rcases List.mem_append.1 hx with hx | hx
  · exact hio x hx
  · rw [List.mem_singleton.1 hx]
    exact he

/-- Where an event other than a read or a write stands in the trace. -/
theorem TraceOk.split {trace : List ConnEvent} (h : TraceOk p trace) {x : ConnEvent}
    (hx : x ≠ .readv ∧ x ≠ .write) {before after : List ConnEvent}
    (heq : trace = before ++ x :: after) :
    ∃ io mid, before = io ++ mid ∧ p.epilogue = mid ++ x :: after := by
  obtain ⟨io, hio, ht⟩ := h
  rw [ht, List.append_eq_append_iff] at heq
  rcases heq with ⟨mid, h1, h2⟩ | ⟨mid, h1, h2⟩
  · exact ⟨io, mid, h1, h2⟩
  · cases mid with
    | nil => exact ⟨io, [], by simpa using h1.symm, by simpa using h2.symm⟩
    | cons y mid =>
      obtain ⟨rfl, -⟩ := List.cons.inj h2
      rcases hio x (by rw [h1]; simp) with h' | h'
      · exact absurd h' hx.1
      · exact absurd h' hx.2

/-- No event of the end comes twice. -/
theorem TraceOk.count_le {trace : List ConnEvent} (h : TraceOk p trace) {x : ConnEvent}
    (hx : x ≠ .readv ∧ x ≠ .write) : trace.count x ≤ 1 := by
  obtain ⟨io, hio, rfl⟩ := h
  have h0 : io.count x = 0 := by
    refine List.count_eq_zero.2 fun hm => ?_
    rcases hio x hm with h' | h'
    · exact hx.1 h'
    · exact hx.2 h'
  have hep : p.epilogue.count x ≤ 1 := by
    cases p <;> cases x <;> decide
  rw [List.count_append, h0]
  omega

/-- The close callback comes before the destructor. -/
theorem TraceOk.closed_first {trace : List ConnEvent} (h : TraceOk p trace)
    {before after : List ConnEvent} (heq : trace = before ++ .connectionDestructor :: after) :
    .closeCallback ∈ before := by
  obtain ⟨io, mid, rfl, hep⟩ := h.split (by decide) heq
  refine List.mem_append_right _ ?_
  cases p with
  | deregistering | gone =>
    rcases mid with _ | ⟨a, _ | ⟨b, mid⟩⟩
    · cases hep
    · cases hep
    · obtain ⟨-, rfl, -⟩ : _ ∧ _ ∧ _ := by simpa [Phase.epilogue] using hep
      simp
  | unborn | connecting | live => simp [Phase.epilogue] at hep
  | closing | removing | destructing =>
    have hm : ConnEvent.connectionDestructor ∈ mid ++ .connectionDestructor :: after := by simp
    rw [← hep] at hm
    simp [Phase.epilogue] at hm

/-- No system call comes after `handleClose`. -/
theorem TraceOk.no_io {trace : List ConnEvent} (h : TraceOk p trace) {before after : List ConnEvent}
    (heq : trace = before ++ .handleClose :: after) : .readv ∉ after ∧ .write ∉ after := by
  obtain ⟨io, mid, -, hep⟩ := h.split (by decide) heq
  have hsub : ∀ x ∈ after, x ∈ p.epilogue := by
    intro x hx
    rw [hep]
    exact List.mem_append_right _ (List.mem_cons_of_mem _ hx)
  have hep' : .readv ∉ p.epilogue ∧ .write ∉ p.epilogue := by
    cases p <;> decide
  exact ⟨fun hm => hep'.1 (hsub _ hm), fun hm => hep'.2 (hsub _ hm)⟩

/-! ## The epoller -/

theorem update_agree (ep : Epoller) (q : ℕ) (ch : Channel) (op : EpollOp) :
    AgreeOff ch.m_fd ep (ep.update q ch op) := by
  refine ⟨fun fd _ => by rw [update_m_channels], fun fd hfd => ?_⟩
  unfold Epoller.update
  split
  · exact Function.update_of_ne hfd _ _
  · exact Function.update_of_ne hfd _ _
  · exact Function.update_of_ne hfd _ _
  · rfl
  · rfl
  · rfl

/-- What `epoll_ctl` leaves at the descriptor itself. -/
theorem update_interest (ep : Epoller) (q : ℕ) (ch : Channel) (op : EpollOp) {x : Events × ℕ}
    (hx : (ep.update q ch op).interest ch.m_fd = some x) :
    op ≠ .del ∧ (x.2 = q ∨ ep.interest ch.m_fd = some x) := by
  -- by the operation and whether the kernel knows the descriptor
  unfold Epoller.update at hx
  cases op with
  | add =>
    cases hi : ep.interest ch.m_fd with
    | none =>
      rw [hi] at hx
      simp only [Function.update_self] at hx
      cases hx
      exact ⟨by simp, Or.inl rfl⟩
    | some y =>
      rw [hi] at hx
      exact ⟨by simp, Or.inr (hi ▸ hx)⟩
  | mod =>
    cases hi : ep.interest ch.m_fd with
    | none =>
      rw [hi] at hx
      exact ⟨by simp, Or.inr (hi ▸ hx)⟩
    | some y =>
      rw [hi] at hx
      simp only [Function.update_self] at hx
      cases hx
      exact ⟨by simp, Or.inl rfl⟩
  | del =>
    cases hi : ep.interest ch.m_fd with
    | none =>
      rw [hi] at hx
      simp only at hx
      rw [hi] at hx
      cases hx
    | some y =>
      rw [hi] at hx
      simp only [Function.update_self] at hx
      cases hx

/-- Bit 0, read interest, makes a mask other than none. -/
theorem ne_zero_of_bit {e : Events} (h : e.getLsbD 0 = true) : e ≠ 0 := by
  rintro rfl
  simp at h

/-- **Interest other than none** is set on a live connection, which stays live. -/
theorem setEvents_live (h : At .live ep c) {e : Events} (he : e.getLsbD 0 = true) :
    ∃ ep', c.setEvents ep e = .ok (ep', { c with m_channel := { c.m_channel with m_events := e } }) ∧
      Leads .live ep c ep' { c with m_channel := { c.m_channel with m_events := e } } := by
  have hreg : c.Registered ep := ⟨h.chan.1, h.channels⟩
  refine ⟨_, setEvents_registered hreg (ne_zero_of_bit he), ⟨⟨rfl, rfl, rfl⟩, ?_, ?_⟩⟩
  · refine ⟨h.state, ⟨h.chan.1, he⟩, h.trace, ?_, ?_⟩
    · rw [update_m_channels]
      exact h.channels
    · intro x hx
      obtain ⟨-, hx | hx⟩ := update_interest _ _ _ _ hx
      · exact ⟨rfl, hx⟩
      · exact h.interest x hx
  · exact update_agree ep c.self { c.m_channel with m_events := e } .mod

/-! ## The steps of the life -/

/-- `connectionEstablished` registers a new connection. -/
theorem connectionEstablished_leads (h : At .connecting ep c) :
    ∃ ep' c', c.connectionEstablished ep = .ok (ep', c') ∧ Leads .live ep c ep' c' := by
  obtain ⟨hidx, hev⟩ := h.chan
  -- a new connection finds its descriptor unknown to the kernel
  have hnone : ep.interest c.m_channel.m_fd = none := by
    cases hi : ep.interest c.m_channel.m_fd with
    | none => rfl
    | some x => cases (h.interest x hi).1
  have hbit : (c.m_channel.m_events ||| kReadEvent).getLsbD 0 = true := by
    rw [hev]
    decide
  unfold TcpConnection.connectionEstablished TcpConnection.enableReading TcpConnection.setEvents
    Epoller.updateChannel
  simp only [hidx]
  refine ⟨_, _, rfl, ⟨⟨rfl, rfl, rfl⟩, ?_, ?_⟩⟩
  · refine ⟨Or.inl rfl, ⟨rfl, hbit⟩, h.trace, ?_, ?_⟩
    · rw [update_m_channels]
      exact Function.update_self _ _ _
    · intro x hx
      obtain ⟨-, hx | hx⟩ := update_interest _ _ _ _ hx
      · exact ⟨rfl, hx⟩
      · exact absurd (hnone.symm.trans hx) (by simp)
  · have hmap : AgreeOff c.m_channel.m_fd ep
        { ep with m_channels := Function.update ep.m_channels c.m_channel.m_fd (some c.self) } :=
      ⟨fun fd hfd => Function.update_of_ne hfd _ _, fun fd _ => rfl⟩
    exact hmap.trans
      (update_agree _ c.self ⟨c.m_channel.m_fd, c.m_channel.m_events ||| kReadEvent, .kAdded⟩ .add)

/-- `handleClose` closes a live connection. -/
theorem handleClose_leads (h : At .live ep c) :
    ∃ ep' c', c.handleClose ep = .ok (ep', c') ∧ Leads .closing ep c ep' c' := by
  obtain ⟨hidx, -⟩ := h.chan
  have hch : ep.m_channels c.m_channel.m_fd = some c.self := h.channels
  have hreg : Channel.isRegistered ⟨c.m_channel.m_fd, kNoneEvent, .kAdded⟩ = false := by
    simp [Channel.isRegistered, kNoneEvent]
  have hst : c.m_state = .kConnected ∨ c.m_state = .kDisconnecting := h.state
  unfold TcpConnection.handleClose
  rw [if_pos hst]
  unfold TcpConnection.disableAll TcpConnection.setEvents Epoller.updateChannel
  simp only [hidx, hch, if_true, hreg, Bool.false_eq_true, if_false]
  refine ⟨_, _, rfl, ⟨⟨rfl, rfl, rfl⟩, ?_, ?_⟩⟩
  · refine ⟨rfl, ⟨rfl, rfl⟩, ?_, ?_, ?_⟩
    · obtain ⟨io, hio, ht⟩ := h.trace
      exact ⟨io, hio, by simp only [ht, Phase.epilogue, List.append_nil]⟩
    · rw [update_m_channels]
      exact hch
    · intro x hx
      exact absurd rfl (update_interest _ _ _ _ hx).1
  · exact update_agree ep c.self ⟨c.m_channel.m_fd, kNoneEvent, .kAdded⟩ .del

/-- The close callback is noted. -/
theorem closeCallback_leads (h : At .closing ep c) :
    Leads .removing ep c ep { c with trace := c.trace ++ [.closeCallback] } := by
  refine h.leads ⟨rfl, rfl, rfl⟩ h.state rfl h.chan ?_ rfl (fun h => by cases h)
  obtain ⟨io, hio, ht⟩ := h.trace
  exact ⟨io, hio, by rw [ht, List.append_assoc]; rfl⟩

/-- The erasure from the map does not concern the connection itself. -/
theorem removing_leads (h : At .removing ep c) : Leads .destructing ep c ep c :=
  h.leads (.refl c) h.state rfl h.chan h.trace rfl fun h => by cases h

/-- `connectionDestructor` finds the connection closed. -/
theorem connectionDestructor_leads (h : At .destructing ep c) :
    ∃ c', c.connectionDestructor ep = .ok (ep, c') ∧ Leads .deregistering ep c ep c' := by
  have hst : c.m_state = .kDisconnected := h.state
  unfold TcpConnection.connectionDestructor
  dsimp only
  rw [if_neg (by rw [hst]; decide)]
  refine ⟨_, rfl, h.leads ⟨rfl, rfl, rfl⟩ h.state rfl h.chan ?_ rfl fun h => by cases h⟩
  obtain ⟨io, hio, ht⟩ := h.trace
  exact ⟨io, hio, by simp only [ht, List.append_assoc]; rfl⟩

/-- The channel leaves the epoller. -/
theorem removeChannel_leads (h : At .deregistering ep c) :
    ∃ ep' c', c.removeChannel ep = .ok (ep', c') ∧ Leads .gone ep c ep' c' := by
  obtain ⟨hidx, hev⟩ := h.chan
  have hch : ep.m_channels c.m_channel.m_fd = some c.self := h.channels
  unfold TcpConnection.removeChannel Epoller.removeChannel
  simp only [hidx, hch, ne_eq, reduceCtorEq, not_false_eq_true, and_self, if_true]
  refine ⟨_, _, rfl, ⟨⟨rfl, rfl, rfl⟩, ?_, ⟨fun fd hfd => Function.update_of_ne hfd _ _, fun fd _ => rfl⟩⟩⟩
  refine ⟨h.state, ⟨hidx, hev⟩, h.trace, Function.update_self _ _ _, fun x hx => ?_⟩
  cases (h.interest x hx).1

/-! ## Reading and writing -/

/-- Only a live connection has write interest. -/
theorem isWriting_of_not_live (h : At p ep c) (h0 : p ≠ .unborn) (hp : p ≠ .live) :
    c.m_channel.isWriting = false := by
  have hev : c.m_channel.m_events = 0 := by
    cases p with
    | unborn => exact absurd rfl h0
    | live => exact absurd rfl hp
    | _ => exact h.chan.2
  simp [Channel.isWriting, hev]

theorem shutDownInLoop_leads (h : At p ep c) : Leads p ep c ep c.shutDownInLoop := by
  unfold TcpConnection.shutDownInLoop
  split
  · exact h.leads_self
  · exact h.leads ⟨rfl, rfl, rfl⟩ h.state rfl h.chan h.trace rfl id

variable [ByteQueue Q]

/-- The direct write is noted on a live connection. -/
theorem directWrite_leads (h : At .live ep c) (msg : Bytes) (r : Except ℕ ℕ) :
    Leads .live ep c ep (c.directWrite msg r).1 := by
  unfold TcpConnection.directWrite
  split
  · exact h.leads ⟨rfl, rfl, rfl⟩ h.state rfl h.chan (h.trace.io rfl (Or.inr rfl)) rfl id
  · exact h.leads_self

omit [ByteQueue Q] in
/-- Two calls in a row. -/
theorem Leads.trans {p p' : Phase} {ep' ep'' : Epoller} {c' c'' : TcpConnection Q}
    (h : Leads p ep c ep' c') (h' : Leads p' ep' c' ep'' c'') : Leads p' ep c ep'' c'' :=
  ⟨⟨h'.same.self.trans h.same.self, h'.same.loop.trans h.same.loop, h'.same.fd.trans h.same.fd⟩, h'.at_,
    h.agree.trans (h.same.fd ▸ h'.agree)⟩

theorem sendInLoop_leads (h : At p ep c) (hp : 2 ≤ p.rank) (msg : Bytes) (r : Except ℕ ℕ) :
    ∃ ep' c', c.sendInLoop ep msg r = .ok (ep', c') ∧ Leads p ep c ep' c' := by
  unfold TcpConnection.sendInLoop
  by_cases hst : c.m_state = .kDisconnected
  · rw [if_pos hst]
    exact ⟨_, _, rfl, h.leads_self⟩
  rw [if_neg hst]
  -- a connection that is not disconnected by now is live
  have hlive : p = .live := by
    by_contra hne
    refine hst ((Phase.disconnected_iff h.state).2 ?_)
    have : p.rank ≠ 2 := by
      cases p with
      | live => exact absurd rfl hne
      | _ => simp [Phase.rank]
    omega
  subst hlive
  -- the message is noted, then written as far as it goes, then buffered
  have h₁ : Leads .live ep c ep { c with sent := c.sent ++ [msg] } :=
    h.leads ⟨rfl, rfl, rfl⟩ h.state rfl h.chan h.trace rfl id
  have h₂ := directWrite_leads h₁.at_ msg r
  rcases hd : TcpConnection.directWrite { c with sent := c.sent ++ [msg] } msg r with ⟨c₂, n, f⟩
  rw [hd] at h₂
  have h₂ := h₁.trans h₂
  dsimp only at h₂ ⊢
  split
  · have h₃ : Leads .live ep c ep
        { c₂ with m_output_buffer := ByteQueue.append c₂.m_output_buffer (msg.drop n) } :=
      h₂.trans (h₂.at_.leads ⟨rfl, rfl, rfl⟩ h₂.at_.state rfl h₂.at_.chan h₂.at_.trace rfl id)
    split
    · have hbit : (c₂.m_channel.m_events ||| kWriteEvent).getLsbD 0 = true := by
        rw [BitVec.getLsbD_or, h₂.at_.chan.2, Bool.true_or]
      obtain ⟨ep', hok, hl⟩ := setEvents_live h₃.at_ hbit
      exact ⟨ep', _, hok, h₃.trans hl⟩
    · exact ⟨_, _, rfl, h₃⟩
  · exact ⟨_, _, rfl, h₂⟩

theorem handleWrite_leads (h : At p ep c) (h0 : p ≠ .unborn) (r : Except ℕ ℕ) :
    ∃ ep' c', c.handleWrite ep r = .ok (ep', c') ∧ Leads p ep c ep' c' := by
  unfold TcpConnection.handleWrite
  by_cases hw : c.m_channel.isWriting = true
  swap
  · rw [if_neg hw]
    exact ⟨_, _, rfl, h.leads_self⟩
  have hlive : p = .live := by
    by_contra hne
    rw [isWriting_of_not_live h h0 hne] at hw
    cases hw
  subst hlive
  rw [if_pos hw]
  dsimp only
  set n := TcpConnection.accepted r c.output.length
  have h₁ : Leads .live ep c ep
      { c with trace := c.trace ++ [.write], wire := c.wire ++ c.output.take n } :=
    h.leads ⟨rfl, rfl, rfl⟩ h.state rfl h.chan (h.trace.io rfl (Or.inr rfl)) rfl id
  split
  swap
  · exact ⟨_, _, rfl, h₁⟩
  have h₂ : Leads .live ep c ep
      { c with trace := c.trace ++ [.write], wire := c.wire ++ c.output.take n,
               m_output_buffer := ByteQueue.retrieve c.m_output_buffer n } :=
    h₁.trans (h₁.at_.leads ⟨rfl, rfl, rfl⟩ h₁.at_.state rfl h₁.at_.chan h₁.at_.trace rfl id)
  split
  · -- the buffer is drained
    have hbit : (c.m_channel.m_events &&& ~~~kWriteEvent).getLsbD 0 = true := by
      rw [BitVec.getLsbD_and, h.chan.2]
      decide
    obtain ⟨ep', hok, hl⟩ := setEvents_live h₂.at_ hbit
    have h₃ := h₂.trans hl
    rw [TcpConnection.disableWriting, hok]
    dsimp only
    split
    · exact ⟨_, _, rfl, h₃.trans (shutDownInLoop_leads h₃.at_)⟩
    · exact ⟨_, _, rfl, h₃⟩
  · exact ⟨_, _, rfl, h₂⟩

/-- `handleRead` of a live connection: it stays live, or it is closed and the close callback
comes next. -/
theorem handleRead_leads (h : At .live ep c) (r : Except ℕ Bytes) :
    ∃ ep' c' callback, c.handleRead ep r = .ok (ep', c', callback) ∧
      (callback = some .message ∧ Leads .live ep c ep' c' ∨
        callback = some .close ∧ Leads .closing ep c ep' c') := by
  have h₁ : Leads .live ep c ep { c with trace := c.trace ++ [.readv] } :=
    h.leads ⟨rfl, rfl, rfl⟩ h.state rfl h.chan (h.trace.io rfl (Or.inl rfl)) rfl id
  obtain ⟨ep', c', hclose, hl⟩ := handleClose_leads h₁.at_
  have h₂ := h₁.trans hl
  unfold TcpConnection.handleRead
  dsimp only
  cases r with
  | error e =>
    -- every error closes, since the errno is lost on the way
    simp only [EAGAIN, ne_eq, OfNat.zero_ne_ofNat, not_false_eq_true, if_true, hclose]
    exact ⟨_, _, _, rfl, Or.inr ⟨rfl, h₂⟩⟩
  | ok data =>
    cases data with
    | nil =>
      simp only [hclose]
      exact ⟨_, _, _, rfl, Or.inr ⟨rfl, h₂⟩⟩
    | cons b bs =>
      refine ⟨_, _, _, rfl, Or.inl ⟨rfl, ?_⟩⟩
      exact h.leads ⟨rfl, rfl, rfl⟩ h.state rfl h.chan (h.trace.io rfl (Or.inl rfl)) rfl id

/-! ## Calls of the user's code -/

omit [ByteQueue Q] in
/-- A state other than `kDisconnected` that can be shut down is that of a live connection. -/
theorem live_of_connected (h : At p ep c)
    (hst : c.m_state = .kConnected ∨ c.m_state = .kDisconnecting) : p = .live := by
  have := h.state
  cases p with
  | live => rfl
  | _ => rcases hst with hst | hst <;> rw [hst] at this <;> cases this

/-- Any call leaves the phase alone, and queues a functor only for a live connection. -/
theorem runCall_leads (h : At p ep c) (inLoopThread : Bool) (r : Except ℕ ℕ) (call : UserCall) :
    ∃ e, runCall ep c inLoopThread r call = .ok e ∧ Leads p ep c e.ep e.conn ∧ e.calls = [] ∧
      e.erased = false ∧ ∀ x, e.queued = some x →
        p = .live ∧ ∃ d, x = (c.m_loop, .deferred call.target d) := by
  cases call with
  | send i msg =>
    unfold runCall TcpConnection.send
    dsimp only
    by_cases hst : c.m_state = .kConnected
    · have hlive := live_of_connected h (Or.inl hst)
      rw [if_pos hst]
      cases inLoopThread with
      | true =>
        obtain ⟨ep', c', hok, hl⟩ := sendInLoop_leads h (by rw [hlive]; decide) msg r
        simp only [if_true, hok]
        exact ⟨_, rfl, hl, rfl, rfl, fun x hx => by cases hx⟩
      | false =>
        simp only [Bool.false_eq_true, if_false]
        refine ⟨_, rfl, h.leads_self, rfl, rfl, fun x hx => ?_⟩
        cases hx
        exact ⟨hlive, _, rfl⟩
    · rw [if_neg hst]
      exact ⟨_, rfl, h.leads_self, rfl, rfl, fun x hx => by cases hx⟩
  | shutDown i =>
    unfold runCall TcpConnection.shutDown
    dsimp only
    by_cases hst : c.m_state = .kConnected
    · have hlive := live_of_connected h (Or.inl hst)
      subst hlive
      -- `kDisconnecting` is a state of a live connection
      have h₁ : Leads .live ep c ep { c with m_state := .kDisconnecting } :=
        h.leads ⟨rfl, rfl, rfl⟩ (Or.inr rfl) rfl h.chan h.trace rfl id
      rw [if_pos hst]
      cases inLoopThread with
      | true =>
        simp only [if_true]
        exact ⟨_, rfl, h₁.trans (shutDownInLoop_leads h₁.at_), rfl, rfl, fun x hx => by cases hx⟩
      | false =>
        simp only [Bool.false_eq_true, if_false]
        refine ⟨_, rfl, h₁, rfl, rfl, fun x hx => ?_⟩
        cases hx
        exact ⟨trivial, _, rfl⟩
    · rw [if_neg hst]
      exact ⟨_, rfl, h.leads_self, rfl, rfl, fun x hx => by cases hx⟩
  | forceClose i =>
    unfold runCall TcpConnection.forceClose
    dsimp only
    by_cases hst : c.m_state = .kConnected ∨ c.m_state = .kDisconnecting
    · have hlive := live_of_connected h hst
      subst hlive
      rw [if_pos hst]
      refine ⟨_, rfl, h.leads ⟨rfl, rfl, rfl⟩ (Or.inr rfl) rfl h.chan h.trace rfl id, rfl, rfl, ?_⟩
      intro x hx
      cases hx
      exact ⟨rfl, _, rfl⟩
    · rw [if_neg hst]
      exact ⟨_, rfl, h.leads_self, rfl, rfl, fun x hx => by cases hx⟩

end MyMuduo
