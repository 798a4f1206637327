import MyMuduo.Proof.Server

/-!
# A read that fails

`handleRead` distinguishes EAGAIN, which is no reason to close, from the other errors. The errno it
tests is the one it gave to `readFd`, by value, so the test never sees what `readv` left.

* `ClosesOnce`: a failed read closes the connection: `handleClose` ran once, and the close callback
  was called once or is about to be, in every state that follows.
* `Unaffected`: what a spurious report of readiness may come to: nothing.
* `readFailure_closes`: **every failed read closes the connection once.** `readFailure_iff`: so it is
  handled as its errno asks if and only if that is not EAGAIN.
-/

namespace MyMuduo

open Lib

variable {Q : Type}

/-- Nothing that belongs to the connection has changed from `s` to `s'`, and no close callback came
or is to come. -/
structure Unaffected (c : ℕ) (s s' : TcpServer Q) : Prop where
  state : (s'.conns c).conn.m_state = (s.conns c).conn.m_state
  input : (s'.conns c).conn.m_input_buffer = (s.conns c).conn.m_input_buffer
  output : (s'.conns c).conn.m_output_buffer = (s.conns c).conn.m_output_buffer
  channel : (s'.conns c).conn.m_channel = (s.conns c).conn.m_channel
  registered : (s'.loops (s.home c)).ep.m_channels (s.fd c) = (s.loops (s.home c)).ep.m_channels (s.fd c)
  interest : (s'.loops (s.home c)).ep.interest (s.fd c) = (s.loops (s.home c)).ep.interest (s.fd c)
  entry : s'.m_connections (s.fd c) = s.m_connections (s.fd c)
  called : (s'.conns c).conn.trace.count .closeCallback = (s.conns c).conn.trace.count .closeCallback
  notDue : ∀ l, .life .closeCallback c ∉ (s'.loops l).work

variable [ByteQueue Q]

/-- **The connection has just been closed, once and for all**: it is disconnected, and in every state
that follows `handleClose` ran once, and the close callback was called once or is due once. -/
structure ClosesOnce (buffer : Q) (c : ℕ) (s' : TcpServer Q) : Prop where
  state : (s'.conns c).conn.m_state = .kDisconnected
  interest : (s'.loops (s'.home c)).ep.interest (s'.fd c) = none
  due : .life .closeCallback c ∈ (s'.loops (s'.home c)).work
  after : ∀ steps t, run (TcpServer.step buffer) s' steps = some t →
    t.failed = none ∧ (t.conns c).conn.m_state = .kDisconnected ∧
      (t.conns c).conn.trace.count .handleClose = 1 ∧
      (t.conns c).conn.trace.count .closeCallback + (t.loops (t.home c)).work.count (.life .closeCallback c) = 1

/-- What a read that failed with `errno` is to come to. -/
def ReadFailureHandled (buffer : Q) (c errno : ℕ) (s s' : TcpServer Q) : Prop :=
  if errno = EAGAIN then Unaffected c s s' else ClosesOnce buffer c s'

variable {ph : ℕ → Phase} {s s' : TcpServer Q} {l c : ℕ} {stack : List Task}

omit [ByteQueue Q] in
/-- The close is accounted for: a connection past `handleClose` has its callback behind it, or due. -/
theorem ServerOk.close_count (h : ServerOk ph s) (hc : 2 < (ph c).rank) :
    (s.conns c).conn.trace.count .handleClose = 1 ∧
      (s.conns c).conn.trace.count .closeCallback + (s.loops (s.home c)).work.count (.life .closeCallback c) = 1 := by
  obtain ⟨io, hio, htrace⟩ := h.reg.trace c
  have hcount : ∀ x : ConnEvent, x ≠ .readv → x ≠ .write → io.count x = 0 := by
    intro x hr hw
    refine List.count_eq_zero.2 fun hm => ?_
    rcases hio x hm with hx | hx
    · exact hr hx
    · exact hw hx
  have hclose := hcount .handleClose (by decide) (by decide)
  have hcall := hcount .closeCallback (by decide) (by decide)
  have hdue := h.tokens (s.home c) .closeCallback c
  rw [htrace, List.count_append, List.count_append, hclose, hcall, hdue]
  cases hp : ph c with
  | unborn | connecting | live =>
    rw [hp] at hc
    simp [Phase.rank] at hc
  | _ => simp [owed, hp, Phase.due, Phase.epilogue, LifeStep.place]

/-- A failed read of a live connection closes it, and the close callback comes next. -/
theorem handleRead_error {ep : Epoller} {conn : TcpConnection Q} (h : At .live ep conn) (errno : ℕ) :
    ∃ ep' conn', conn.handleRead ep (.error errno) = .ok (ep', conn', some .close) ∧
      conn'.m_state = .kDisconnected ∧ SameId conn conn' := by
  obtain ⟨ep', conn', callback, hread, hmsg | hclose⟩ := handleRead_leads h (.error errno)
  · -- no message comes of it
    exfalso
    unfold TcpConnection.handleRead at hread
    simp only [EAGAIN, ne_eq, OfNat.zero_ne_ofNat, not_false_eq_true, if_true, hmsg.1] at hread
    split at hread
    · cases hread
    · cases hread
  · obtain ⟨hcb, hl⟩ := hclose
    rw [hcb] at hread
    exact ⟨ep', conn', hread, hl.at_.state, hl.same⟩

/-- **Every failed read closes the connection once**, whatever the errno. -/
theorem readFailure_closes (buffer : Q) (h : ServerOk ph s) (hcur : (s.loops l).current = .handleRead c :: stack)
    (errno : ℕ) (write : Except ℕ ℕ) :
    ∃ s', s.step buffer (.exec l (.error errno) write) = some s' ∧ ClosesOnce buffer c s' := by
  obtain ⟨halive, hlive, hl⟩ := h.fits hcur rfl
  obtain ⟨ep', conn', hread, hst, hsame⟩ := handleRead_error (hlive ▸ h.reg.at_ halive) errno
  set e : Effect Q := ⟨conn', ep', [.life .closeCallback c], none, false⟩
  have htask : runTask (s.loops (s.home c)).ep l (s.conns c).conn (.error errno) write (.handleRead c) = .ok e := by
    simp only [runTask, hread]
    rfl
  set s' := (s.setCurrent l (e.calls ++ stack)).apply c e
  have hstep : s.step buffer (.exec l (.error errno) write) = some s' := by
    unfold TcpServer.step
    rw [if_neg fun hf => hf h.running]
    dsimp only
    rw [hcur]
    dsimp only [Task.subject]
    rw [if_pos (show (s.conns c).life = .alive from halive), htask]
  obtain ⟨ph', h', -⟩ := step_ok buffer h hstep
  -- what the call left behind
  obtain ⟨-, -, -, -, hconns, -⟩ := apply_rest (s.setCurrent l (e.calls ++ stack)) c e
  have hconn : (s'.conns c).conn = conn' := by rw [hconns, Function.update_self]
  have hhome : s'.home c = l := by
    show (s'.conns c).conn.m_loop = l
    rw [hconn, hsame.loop, hl]; rfl
  have hst' : (s'.conns c).conn.m_state = .kDisconnected := by rw [hconn, hst]
  have hrank := (Phase.disconnected_iff (h'.reg.state c)).1 hst'
  have hdue : .life .closeCallback c ∈ (s'.loops l).work := by
    have hloop := apply_loops (s.setCurrent l (e.calls ++ stack)) c e l
    have hself : (s.setCurrent l (e.calls ++ stack)).loops l = { s.loops l with current := e.calls ++ stack } :=
      Function.update_self _ _ _
    rw [hself] at hloop
    rw [show s'.loops l = _ from hloop]
    simp [IoLoop.work, e]
  refine ⟨s', hstep, hst', ?_, by rw [hhome]; exact hdue, ?_⟩
  · -- only live connections are in the interest set
    by_contra hne
    obtain ⟨x, hx⟩ := Option.ne_none_iff_exists'.1 hne
    obtain ⟨hx1, -, hx3⟩ := h'.reg.interest _ _ x hx
    have hxc : x.2 = c := by
      refine h'.reg.fds x.2 c (h'.reg.alive_of_inMap (by rw [hx1]; rfl)) ?_ hx3
      show (s'.conns c).life = .alive
      rw [hconns, Function.update_self]
      exact halive
    rw [hxc] at hx1
    rw [hx1] at hrank
    exact absurd hrank (by decide)
  · intro steps t hrun
    obtain ⟨ph'', h'', hforward⟩ := run_ok h' hrun
    have hle := hforward c
    have hrank'' : 2 < (ph'' c).rank := by omega
    obtain ⟨h1, h2⟩ := h''.close_count hrank''
    exact ⟨h''.running, (Phase.disconnected_iff (h''.reg.state c)).2 hrank'', h1, h2⟩

/-- **A failed read is handled as its errno asks if and only if that is not EAGAIN**, in every state
that a server with any number of loops can reach. -/
theorem readFailure_iff (numLoops : ℕ) (buffer : Q) {steps : List ServerStep}
    (hrun : run (TcpServer.step buffer) (TcpServer.start numLoops buffer) steps = some s)
    (hcur : (s.loops l).current = .handleRead c :: stack) (errno : ℕ) (write : Except ℕ ℕ) :
    (∃ s', s.step buffer (.exec l (.error errno) write) = some s' ∧ ReadFailureHandled buffer c errno s s') ↔
      errno ≠ EAGAIN := by
  obtain ⟨ph, h, -⟩ := run_ok (start_ok numLoops buffer) hrun
  obtain ⟨s', hstep, hclosed⟩ := readFailure_closes buffer h hcur errno write
  obtain ⟨-, hlive, -⟩ := h.fits hcur rfl
  constructor
  · rintro ⟨s'', hstep', hhandled⟩ heagain
    rw [hstep] at hstep'
    cases hstep'
    rw [ReadFailureHandled, if_pos heagain] at hhandled
    -- the connection was live, and is disconnected now
    have hst := hhandled.state
    rw [hclosed.state] at hst
    have hrank := (Phase.disconnected_iff (h.reg.state c)).1 hst.symm
    rw [hlive] at hrank
    exact absurd hrank (by decide)
  · intro hne
    refine ⟨s', hstep, ?_⟩
    rw [ReadFailureHandled, if_neg hne]
    exact hclosed

/-- A connection of loop 1 is reported readable. -/
def reportedSteps : List ServerStep :=
  [.poll 0 [], .accept 5 1,
    .poll 1 [], .swap 1, .nextFunctor 1, .exec 1 (.ok []) (.ok 0), .return_ 1, .endPass 1,
    .poll 1 [(5, kReadEvent)], .handleEvent 1]

/-- The state that those steps lead to. -/
theorem reported_reading :
    ∃ s : TcpServer Buffer, run (TcpServer.step (.new 8)) (TcpServer.start 2 (.new 8)) reportedSteps = some s ∧
      (s.loops 1).current = [.handleRead 0] ∧ (s.conns 0).conn.m_state = .kConnected := by
  have hview : (run (TcpServer.step (Buffer.new 8)) (TcpServer.start 2 (Buffer.new 8)) reportedSteps).map
      (fun s => ((s.loops 1).current, (s.conns 0).conn.m_state)) = some ([.handleRead 0], .kConnected) := by
    decide +kernel
  obtain ⟨s, hs, hv⟩ := Option.map_eq_some_iff.1 hview
  exact ⟨s, hs, congrArg Prod.fst hv, congrArg Prod.snd hv⟩

/-- The peer resets the connection: it is closed once. -/
theorem readFailure_iff_reset :
    ∃ s s' : TcpServer Buffer, s.step (.new 8) (.exec 1 (.error ECONNRESET) (.ok 0)) = some s' ∧
      ReadFailureHandled (.new 8) 0 ECONNRESET s s' := by
  obtain ⟨s, hs, hcur, -⟩ := reported_reading
  obtain ⟨s', hs', h⟩ := (readFailure_iff 2 (Buffer.new 8) hs hcur ECONNRESET (.ok 0)).2 (by decide)
  exact ⟨s, s', hs', h⟩

/-- The report was spurious and the read fails with EAGAIN: the connection is closed all the same. -/
theorem readFailure_spurious :
    ∃ s s' : TcpServer Buffer,
      run (TcpServer.step (.new 8)) (TcpServer.start 2 (.new 8)) reportedSteps = some s ∧
      s.step (.new 8) (.exec 1 (.error EAGAIN) (.ok 0)) = some s' ∧
      (s.conns 0).conn.m_state = .kConnected ∧ (s'.conns 0).conn.m_state = .kDisconnected ∧
      (s'.loops 1).current = [.life .closeCallback 0] ∧ ¬ReadFailureHandled (.new 8) 0 EAGAIN s s' := by
  obtain ⟨s, hs, -, hst⟩ := reported_reading
  have hview : ((run (TcpServer.step (Buffer.new 8)) (TcpServer.start 2 (Buffer.new 8)) reportedSteps).bind
      fun s => s.step (.new 8) (.exec 1 (.error EAGAIN) (.ok 0))).map
        (fun s => ((s.loops 1).current, (s.conns 0).conn.m_state)) =
          some ([.life .closeCallback 0], .kDisconnected) := by
    decide +kernel
  rw [hs] at hview
  obtain ⟨s', hs', hv⟩ := Option.map_eq_some_iff.1 hview
  have hst' : (s'.conns 0).conn.m_state = .kDisconnected := congrArg Prod.snd hv
  refine ⟨s, s', hs, hs', hst, hst', congrArg Prod.fst hv, fun hhandled => ?_⟩
  rw [ReadFailureHandled, if_pos rfl] at hhandled
  have hsame := hhandled.state
  rw [hst, hst'] at hsame
  exact absurd hsame (by decide)

end MyMuduo
