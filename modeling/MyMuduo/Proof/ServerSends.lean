import MyMuduo.Proof.ServerTalk

/-!
# What is sent on the connections of a server

A `send` of another thread queues a pointer into the bytes of its caller, which `CrossSend` follows. Here
every `send` is made in the loop of its connection, as the HTTP server does, and the other calls come
from any thread.

* `step_sends`: one step adds to what was sent on a connection the message of a `send` while connected.
* `server_streams`: **no byte of these messages is lost, repeated or overtaken, and the kernel waits for a
  connection to become writable exactly as long as there is output left.**
* `server_fin`: **the write side is shut down behind the last byte.**
-/

namespace MyMuduo

open Lib

/-- The message that a step sends on the connection `c`: of a `send` while it is connected. -/
def TcpServer.message {Q : Type} (c : ℕ) (s : TcpServer Q) : ServerStep → List Bytes
  | .call _ (.send i msg) _ => if i = c ∧ (s.conns c).conn.m_state = .kConnected then [msg] else []
  | _ => []

section

variable {Q : Type} [ByteQueue Q] {ph : ℕ → Phase} {s s' : TcpServer Q} {a : ServerStep} {c : ℕ}

/-- The connection of a call, after it. -/
theorem call_target {buffer : Q} (h : ServerOk ph s) {thread : Option ℕ} {call : UserCall}
    {write : Except ℕ ℕ} (hstep : s.step buffer (.call thread call write) = some s') :
    ∃ e, runCall (s.loops (s.home call.target)).ep (s.conns call.target).conn
        (thread = some (s.home call.target)) write call = .ok e ∧
      (s'.conns call.target).conn = e.conn := by
  unfold TcpServer.step at hstep
  rw [if_neg fun hf => hf h.running] at hstep
  dsimp only at hstep
  split at hstep
  swap
  · cases hstep
  rename_i hg
  obtain ⟨e, hrun, hlead, -⟩ := runCall_leads (h.reg.at_ (show s.isAlive call.target from hg.2))
    (thread = some (s.home call.target)) write call
  rw [hrun] at hstep
  cases hstep
  exact ⟨e, hrun, (apply_self hlead.same).1⟩

/-- **The invariant of local sends**: none waits for its loop, and nothing was sent before the start. -/
structure SendsOk (s : TcpServer Q) : Prop where
  server : ∃ ph, ServerOk ph s
  unsent : ∀ l i msg, .deferred i (.sendInLoop msg) ∉ (s.loops l).work
  fresh : ∀ c, (s.conns c).life = .unborn → (s.conns c).conn.sent = []

omit [ByteQueue Q] in
theorem start_sendsOk (numLoops : ℕ) (buffer : Q) : SendsOk (.start numLoops buffer) :=
  ⟨⟨_, start_ok numLoops buffer⟩, fun _ _ _ => List.not_mem_nil, fun _ _ => rfl⟩

omit [ByteQueue Q] in
/-- Nothing is sent on a connection that is not made. -/
theorem message_unborn (h : ServerOk ph s) (hc : (s.conns c).life = .unborn) : s.message c a = [] := by
  have hst := h.reg.state c
  rw [(h.reg.unborn c).1 hc] at hst
  cases a with
  | call thread call write =>
    cases call with
    | send i msg => exact if_neg fun hsend => by rw [hst] at hsend; cases hsend.2
    | shutDown i | forceClose i => rfl
  | _ => rfl

/-- **One step, and what was sent on a connection.** -/
theorem step_sends {buffer : Q} (h : SendsOk s) (ha : a.Local s) (hstep : s.step buffer a = some s') :
    SendsOk s' ∧ ∀ c, (s'.conns c).conn.sent = (s.conns c).conn.sent ++ s.message c a := by
  obtain ⟨ph, hs⟩ := h.server
  obtain ⟨ph', hs', hforward⟩ := step_ok buffer hs hstep
  have hsent : ∀ c, (s'.conns c).conn.sent = (s.conns c).conn.sent ++ s.message c a := by
    intro c
    by_cases hcall : ∃ thread call write, a = .call thread call write ∧ call.target = c
    · obtain ⟨thread, call, write, rfl, rfl⟩ := hcall
      obtain ⟨e, hran, hconn⟩ := call_target hs hstep
      rw [hconn, (runCall_tells (ha _ _ _ rfl) hran).1.sent]
      cases call with
      | send i msg =>
        change (if (s.conns i).conn.m_state = .kConnected then (s.conns i).conn.sent ++ [msg]
            else (s.conns i).conn.sent) =
          (s.conns i).conn.sent ++ if i = i ∧ (s.conns i).conn.m_state = .kConnected then [msg] else []
        by_cases hst : (s.conns i).conn.m_state = .kConnected
        · rw [if_pos hst, if_pos ⟨rfl, hst⟩]
        · rw [if_neg hst, if_neg fun hsend => hst hsend.2, List.append_nil]
      | shutDown i | forceClose i =>
        change _ = _ ++ []
        split
        · rfl
        · exact (List.append_nil _).symm
    · -- the step is not a call about `c`
      have hnone : s.message c a = [] := by
        cases a with
        | call thread call write =>
          cases call with
          | send i msg => exact if_neg fun hsend => hcall ⟨_, _, _, rfl, hsend.1⟩
          | shutDown i | forceClose i => rfl
        | _ => rfl
      rw [hnone, List.append_nil]
      cases step_on hs hstep c with
      | alone hconn _ _ => rw [hconn]
      | task l read write t stack e _ hcur _ _ _ hran hconn _ =>
        rw [hconn]
        have hno : ∀ i msg, t ≠ .deferred i (.sendInLoop msg) := by
          rintro i msg rfl
          exact h.unsent l i msg (by simp [IoLoop.work, hcur])
        cases runTask_hears hno hran with
        | nothing talk => exact talk.sent
        | begins i _ _ _ hsame => exact hsame
        | bytes i data tr _ _ he => rw [he]
      | call thread call write e hstep htarget => exact absurd ⟨_, _, _, hstep, htarget⟩ hcall
      | made fd home hnext hconn _ =>
        have hunborn : (s.conns c).life = .unborn := by
          rw [hs.reg.unborn]
          exact hs.reg.next c hnext.ge
        rw [hconn, h.fresh c hunborn]
        rfl
  have hunsent : ∀ l i msg, .deferred i (.sendInLoop msg) ∉ (s'.loops l).work :=
    fun l i msg hm => h.unsent l i msg (sends_of_step hs ha hstep hm)
  refine ⟨⟨⟨ph', hs'⟩, hunsent, fun c hc => ?_⟩, hsent⟩
  have hold := unborn_back hs hs' hforward hc
  rw [hsent c, h.fresh c hold, message_unborn hs hold, List.append_nil]

/-- **A run, and what was sent on a connection.** -/
theorem run_sends (numLoops : ℕ) {buffer : Q} {steps : List ServerStep}
    (hlocal : Along (TcpServer.step buffer) (fun s a => a.Local s) (.start numLoops buffer) steps)
    (hrun : run (TcpServer.step buffer) (.start numLoops buffer) steps = some s) :
    SendsOk s ∧ ∀ c, (s.conns c).conn.sent =
      outputs (TcpServer.step buffer) (TcpServer.message c) (.start numLoops buffer) steps := by
  have hok : SendsOk s := run_inv_along (fun _ _ _ h ha hs => (step_sends h ha hs).1) steps
    (start_sendsOk numLoops buffer) hlocal hrun
  refine ⟨hok, fun c => ?_⟩
  exact run_outputs (C := fun s a => a.Local s) (I := SendsOk) (L := fun s => (s.conns c).conn.sent)
    (fun _ _ _ h ha hs => ⟨(step_sends h ha hs).1, (step_sends h ha hs).2 c⟩) steps
    (start_sendsOk numLoops buffer) hlocal hrun

end

/-! ## Runs -/

theorem pending_local :
    Along (TcpServer.step (Buffer.new 8)) (fun s a => a.Local s) (.start 2 (.new 8)) pendingSteps := by
  decide +kernel

/-- The loop learns that the connection can be written to. -/
def fillingSteps : List ServerStep := pendingSteps ++ [.poll 1 [(5, kWriteEvent)], .handleEvent 1]

theorem filling_takes :
    Along (TcpServer.step (Buffer.new 8)) (TcpServer.Meets TcpConnection.Takes) (.start 2 (.new 8))
      fillingSteps := by
  decide +kernel

theorem filling_run :
    ∃ s ∈ run (TcpServer.step (Buffer.new 8)) (.start 2 (.new 8)) fillingSteps,
      s.Meets TcpConnection.Takes (.exec 1 (.ok []) (.ok 1)) ∧ (s.conns 0).conn.shutWr = false ∧
      ∃ s' ∈ s.step (.new 8) (.exec 1 (.ok []) (.ok 1)),
        (s'.conns 0).conn.shutWr = true ∧ (s'.conns 0).conn.m_state = .kDisconnecting := by
  decide +kernel

theorem filling_local :
    Along (TcpServer.step (Buffer.new 8)) (fun s a => a.Local s) (.start 2 (.new 8)) fillingSteps := by
  decide +kernel

section Runs

variable (numLoops : ℕ) {size : ℕ} (hsize : kPrePendIndex ≤ size) {steps : List ServerStep}
  {s : TcpServer Buffer}
  (hlocal : Along (TcpServer.step (Buffer.new size)) (fun s a => a.Local s) (.start numLoops (.new size)) steps)
  (htakes : Along (TcpServer.step (Buffer.new size)) (TcpServer.Meets TcpConnection.Takes)
    (.start numLoops (.new size)) steps)
  (hrun : run (TcpServer.step (Buffer.new size)) (.start numLoops (.new size)) steps = some s)

include hsize hlocal htakes hrun

/-- **The output of a server**, in every state of every run in which every `send` is made in the loop of
its connection and every `sendInLoop` loses nothing, with any number of loops: what the kernel took over
from a connection, followed by what waits in its output buffer, is the messages of the sends on it while
it was connected, in order. And the kernel watches exactly the connections that are up, each in its home
loop, for input, and for output exactly if some is left. -/
theorem server_streams :
    (∀ c, c < s.next → (s.conns c).conn.wire ++ (s.conns c).conn.output =
      (outputs (TcpServer.step (Buffer.new size)) (TcpServer.message c) (.start numLoops (.new size))
        steps).flatten) ∧
    ∀ l fd x, (s.loops l).ep.interest fd = some x ↔
      ∃ c, s.isLive c ∧ s.home c = l ∧ s.fd c = fd ∧
        x = (if (s.conns c).conn.output = [] then kReadEvent else kReadEvent ||| kWriteEvent, c) := by
  obtain ⟨hstream, hinterest⟩ := run_streams numLoops hsize htakes hrun
  obtain ⟨-, hsent⟩ := run_sends numLoops hlocal hrun
  refine ⟨fun c hc => ?_, hinterest⟩
  rw [hstream c hc, hsent c]

omit hsize hlocal htakes hrun in
theorem server_streams_pending :
    ∃ s, run (TcpServer.step (Buffer.new 8)) (.start 2 (.new 8)) pendingSteps = some s ∧
      (s.conns 0).conn.wire ++ [9] = (outputs (TcpServer.step (Buffer.new 8)) (TcpServer.message 0)
        (.start 2 (.new 8)) pendingSteps).flatten ∧
      (s.loops 1).ep.interest 5 = some (kReadEvent ||| kWriteEvent, 0) := by
  obtain ⟨s, hs, hnext, hfd, hhome, -, hst, hout, -⟩ := pending_run
  obtain ⟨h1, h2⟩ := server_streams 2 (by decide) pending_local pending_takes hs
  have hstream := h1 0 (by omega)
  rw [hout] at hstream
  refine ⟨s, hs, hstream, (h2 1 5 _).2 ⟨0, .inr hst, hhome, hfd, ?_⟩⟩
  rw [hout]
  rfl

/-- **The write side is shut down behind the last byte.** Whichever step of such a run shuts the write
side of a connection down: as long as the connection is up, the kernel has the messages of all sends on
it while it was connected. -/
theorem server_fin {a : ServerStep} {s' : TcpServer Buffer} {c : ℕ} (hloc : a.Local s)
    (ha : s.Meets TcpConnection.Takes a) (hstep : s.step (.new size) a = some s')
    (hopen : (s.conns c).conn.shutWr = false) (hshut : (s'.conns c).conn.shutWr = true)
    (hlive : s'.isLive c) :
    (s'.conns c).conn.output = [] ∧ (s'.conns c).conn.wire =
      (outputs (TcpServer.step (Buffer.new size)) (TcpServer.message c) (.start numLoops (.new size))
        (steps ++ [a])).flatten := by
  obtain ⟨hout, hwire⟩ := shut_drained numLoops hsize htakes hrun ha hstep hopen hshut hlive
  obtain ⟨hok, hsent⟩ := run_sends numLoops hlocal hrun
  refine ⟨hout, ?_⟩
  rw [hwire, (step_sends hok hloc hstep).2 c, hsent c, outputs_append hrun, outputs_singleton]

omit hsize hlocal htakes hrun in
theorem server_fin_pending :
    ∃ s s', run (TcpServer.step (Buffer.new 8)) (.start 2 (.new 8)) fillingSteps = some s ∧
      s.step (.new 8) (.exec 1 (.ok []) (.ok 1)) = some s' ∧ (s'.conns 0).conn.output = [] ∧
      (s'.conns 0).conn.wire = (outputs (TcpServer.step (Buffer.new 8)) (TcpServer.message 0)
        (.start 2 (.new 8)) (fillingSteps ++ [.exec 1 (.ok []) (.ok 1)])).flatten := by
  obtain ⟨s, hs, hmeets, hopen, s', hs', hshut, hst⟩ := filling_run
  obtain ⟨hout, hwire⟩ := server_fin 2 (by decide) filling_local filling_takes hs
    (fun _ _ _ he => by cases he) hmeets hs' hopen hshut (.inr hst)
  exact ⟨s, s', hs, hs', hout, hwire⟩

end Runs

end MyMuduo
