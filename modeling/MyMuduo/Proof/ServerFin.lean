import MyMuduo.Proof.ServerTalk

/-!
# The write side of the connections of a server

* `server_open`: **a connection that is connected has its write side open**, whatever the user's code
  calls and from whichever thread: a `shutDownInLoop` is due only after `kConnected` was left.
* `fin_kept`: every call keeps it that no output is left behind `SHUT_WR`, if it sends on open
  connections only.
-/

namespace MyMuduo

open Lib

variable {Q : Type} [ByteQueue Q]

/-! ## Connections whose write side is open -/

/-- The connection is to come up, or connected. -/
def ConnectionState.Up (st : ConnectionState) : Prop := st = .kConnecting ∨ st = .kConnected

section

variable {ep ep' : Epoller} {c c' : TcpConnection Q}

theorem handleWrite_up {r : Except ℕ ℕ} (hs : c.handleWrite ep r = .ok (ep', c')) (hup : c'.m_state.Up) :
    c.m_state.Up ∧ c'.shutWr = c.shutWr := by
  unfold TcpConnection.handleWrite at hs
  split at hs
  · dsimp only at hs
    split at hs
    · split at hs
      · split at hs
        · rename_i hset
          obtain ⟨i, rfl⟩ := setEvents_ok hset
          cases hs
          split at hup
          · -- `shutDownInLoop` leaves the state as it is
            rename_i hst
            rw [(Shutdown.shutDownInLoop_frame _).2.2.1, hst] at hup
            rcases hup with hup | hup <;> cases hup
          · rename_i hst
            rw [if_neg hst]
            exact ⟨hup, rfl⟩
        · cases hs
      · cases hs
        exact ⟨hup, rfl⟩
    · cases hs
      exact ⟨hup, rfl⟩
  · cases hs
    exact ⟨hup, rfl⟩

omit [ByteQueue Q] in
theorem down_of_close (hs : c.handleClose ep = .ok (ep', c')) : ¬c'.m_state.Up := by
  unfold TcpConnection.handleClose at hs
  split at hs
  · obtain ⟨i, rfl⟩ := setEvents_ok hs
    rintro (h | h) <;> cases h
  · cases hs

omit [ByteQueue Q] in
theorem connectionDestructor_up (hs : c.connectionDestructor ep = .ok (ep', c')) (hup : c'.m_state.Up) :
    c.m_state.Up ∧ c'.shutWr = c.shutWr := by
  unfold TcpConnection.connectionDestructor at hs
  dsimp only at hs
  split at hs
  · obtain ⟨j, rfl⟩ := setEvents_ok hs
    rcases hup with hup | hup <;> cases hup
  · cases hs
    exact ⟨hup, rfl⟩

/-- **A call under way that leaves the connection up** leaves its write side alone. -/
theorem runTask_up {l : ℕ} {read : Except ℕ Bytes} {write : Except ℕ ℕ} {t : Task} {e : Effect Q}
    (hbegin : ∀ i, t = .life .connectionEstablished i → c.m_state = .kConnecting)
    (hasked : ∀ i, t = .deferred i .shutDownInLoop → ¬c.m_state.Up)
    (hrun : runTask ep l c read write t = .ok e) (hup : e.conn.m_state.Up) :
    c.m_state.Up ∧ e.conn.shutWr = c.shutWr := by
  cases t with
  | life k i =>
    cases k with
    | connectionEstablished =>
      obtain ⟨j, hj⟩ := setEvents_ok (c := { c with m_state := .kConnected }) (Effect.of_eq_ok hrun)
      rw [hj]
      exact ⟨.inl (hbegin i rfl), rfl⟩
    | closeCallback =>
      unfold runTask runLife at hrun
      dsimp only at hrun
      split at hrun
      · cases hrun
        exact ⟨hup, rfl⟩
      · cases hrun
        exact ⟨hup, rfl⟩
    | handleRemoveConnectionInLoop =>
      cases hrun
      exact ⟨hup, rfl⟩
    | connectionDestructor => exact connectionDestructor_up (Effect.of_eq_ok hrun) hup
    | remove =>
      obtain ⟨j, hj⟩ := removeChannel_ok (Effect.of_eq_ok hrun)
      rw [hj] at hup ⊢
      exact ⟨hup, rfl⟩
  | deferred i d =>
    cases d with
    | sendInLoop msg =>
      have hsends := sendInLoop_sends (Effect.of_eq_ok hrun)
      rw [hsends.state] at hup
      exact ⟨hup, hsends.shutWr⟩
    | shutDownInLoop =>
      cases hrun
      rw [(Shutdown.shutDownInLoop_frame c).2.2.1] at hup
      exact absurd hup (hasked i rfl)
    | forceCloseInLoop =>
      unfold runTask forceCloseInLoop at hrun
      dsimp only at hrun
      split at hrun
      · exact absurd hup (down_of_close (Effect.of_eq_ok hrun))
      · cases hrun
        exact ⟨hup, rfl⟩
  | handleRead i =>
    unfold runTask at hrun
    dsimp only at hrun
    split at hrun
    · rename_i hs
      cases hrun
      rcases handleRead_cases hs with ⟨data, -, rfl⟩ | hclose
      · exact ⟨hup, rfl⟩
      · exact absurd hup (down_of_close hclose)
    · cases hrun
  | handleWrite i => exact handleWrite_up (Effect.of_eq_ok hrun) hup
  | user i =>
    cases hrun
    exact ⟨hup, rfl⟩

/-- **So does a call of the user's code.** A `shutDownInLoop` that it queues finds the connection down. -/
theorem runCall_up {inLoopThread : Bool} {write : Except ℕ ℕ} {call : UserCall} {e : Effect Q}
    (hrun : runCall ep c inLoopThread write call = .ok e) :
    (e.conn.m_state.Up → c.m_state.Up ∧ e.conn.shutWr = c.shutWr) ∧
      ∀ l i, e.queued = some (l, .deferred i .shutDownInLoop) → i = call.target ∧ ¬e.conn.m_state.Up := by
  have hdown : ¬ConnectionState.kDisconnecting.Up := by rintro (h | h) <;> cases h
  cases call with
  | send j msg =>
    unfold runCall TcpConnection.send at hrun
    dsimp only at hrun
    split at hrun
    · rename_i hs
      cases hrun
      split at hs
      · split at hs
        · split at hs
          · rename_i hsend
            cases hs
            have hsends := sendInLoop_sends hsend
            refine ⟨fun hup => ⟨by rw [← hsends.state]; exact hup, hsends.shutWr⟩, fun l i hq => by cases hq⟩
          · cases hs
        · cases hs
          exact ⟨fun hup => ⟨hup, rfl⟩, fun l i hq => by cases hq⟩
      · cases hs
        exact ⟨fun hup => ⟨hup, rfl⟩, fun l i hq => by cases hq⟩
    · cases hrun
  | shutDown j =>
    unfold runCall TcpConnection.shutDown at hrun
    dsimp only at hrun
    cases hrun
    by_cases hst : c.m_state = .kConnected
    · rw [if_pos hst]
      cases inLoopThread with
      | true =>
        refine ⟨fun hup => absurd ?_ hdown, fun l i hq => by cases hq⟩
        have hframe := (Shutdown.shutDownInLoop_frame { c with m_state := .kDisconnecting }).2.2.1
        rw [← show _ = ConnectionState.kDisconnecting from hframe]
        exact hup
      | false =>
        refine ⟨fun hup => absurd hup hdown, fun l i hq => ?_⟩
        cases hq
        exact ⟨rfl, hdown⟩
    · rw [if_neg hst]
      exact ⟨fun hup => ⟨hup, rfl⟩, fun l i hq => by cases hq⟩
  | forceClose j =>
    unfold runCall TcpConnection.forceClose at hrun
    dsimp only at hrun
    cases hrun
    by_cases hst : c.m_state = .kConnected ∨ c.m_state = .kDisconnecting
    · rw [if_pos hst]
      exact ⟨fun hup => absurd hup hdown, fun l i hq => by cases hq⟩
    · rw [if_neg hst]
      exact ⟨fun hup => ⟨hup, rfl⟩, fun l i hq => by cases hq⟩

end

/-! ## The server -/

section

variable {ph : ℕ → Phase} {s s' : TcpServer Q} {a : ServerStep}

/-- **The write side is open while the connection is up**, and a `shutDownInLoop` that is due finds it
down. -/
structure OpenOk (s : TcpServer Q) : Prop where
  wrOpen : ∀ c, c < s.next → (s.conns c).conn.m_state.Up → (s.conns c).conn.shutWr = false
  asked : ∀ l c, .deferred c .shutDownInLoop ∈ (s.loops l).work → ¬(s.conns c).conn.m_state.Up

/-- A connection that is up after a step was up before, or it is new. -/
theorem OpenOk.up (hopen : OpenOk s) {buffer : Q} (h : ServerOk ph s) (hstep : s.step buffer a = some s') {c : ℕ}
    (hup : (s'.conns c).conn.m_state.Up) :
    (s.conns c).conn.m_state.Up ∧ (s'.conns c).conn.shutWr = (s.conns c).conn.shutWr ∧
        (c < s'.next → c < s.next) ∨
      ph c = .unborn ∧ (s'.conns c).conn.shutWr = false := by
  cases step_on h hstep c with
  | alone hconn hmade _ =>
    rw [hconn] at hup ⊢
    exact .inl ⟨hup, rfl, hmade⟩
  | task l read write t stack e _ hcur hsub halive hfit hran hconn _ =>
    rw [hconn] at hup ⊢
    have hlt := h.made halive
    obtain ⟨h1, h2⟩ := runTask_up
      (fun i hi => by
        subst hi
        exact (h.reg.at_ halive).connecting hfit.1)
      (fun i hi => by
        subst hi
        cases hsub
        exact hopen.asked l c (by simp [IoLoop.work, hcur])) hran hup
    exact .inl ⟨h1, h2, fun _ => hlt⟩
  | call thread call write e _ htarget halive hran hconn _ =>
    rw [hconn] at hup ⊢
    obtain ⟨h1, h2⟩ := (runCall_up hran).1 hup
    exact .inl ⟨h1, h2, fun _ => h.made halive⟩
  | made fd home hnext hconn _ =>
    rw [hconn]
    exact .inr ⟨h.reg.next c (by omega), rfl⟩

theorem OpenOk.step (hopen : OpenOk s) {buffer : Q} (h : ServerOk ph s) (hstep : s.step buffer a = some s') :
    OpenOk s' := by
  refine ⟨fun c hc hup => ?_, fun l c hm hup => ?_⟩
  · rcases hopen.up h hstep hup with ⟨hold, hsame, hlt⟩ | ⟨-, hnew⟩
    · rw [hsame]
      exact hopen.wrOpen c (hlt hc) hold
    · exact hnew
  · rcases deferred_of_step h hstep hm with hold | ⟨thread, call, write, e, -, hran, hconn, hq⟩
    · rcases hopen.up h hstep hup with ⟨hbefore, -⟩ | ⟨hunborn, -⟩
      · exact hopen.asked l c hold hbefore
      · have hraw := ((h.stack l).raw c _ hold).2
        rw [hunborn] at hraw
        cases hraw
    · obtain ⟨rfl, hdown⟩ := (runCall_up hran).2 l c hq
      rw [hconn] at hup
      exact hdown hup

omit [ByteQueue Q] in
theorem open_start (numLoops : ℕ) (buffer : Q) : OpenOk (TcpServer.start numLoops buffer) :=
  ⟨fun c hc => absurd hc (Nat.not_lt_zero c), fun _ _ h => by cases h⟩

/-- **A connection that is connected has its write side open, and no `shutDownInLoop` is due for it**, in
every state of every run of a server with any number of loops. -/
theorem server_open (numLoops : ℕ) (buffer : Q) {steps : List ServerStep}
    (hrun : run (TcpServer.step buffer) (.start numLoops buffer) steps = some s) {c : ℕ} (hc : c < s.next)
    (hst : (s.conns c).conn.m_state = .kConnected) :
    (s.conns c).conn.shutWr = false ∧ ∀ l, .deferred c .shutDownInLoop ∉ (s.loops l).work := by
  obtain ⟨-, hopen⟩ := run_inv (I := fun s => (∃ ph, ServerOk ph s) ∧ OpenOk s)
    (fun s a s' ⟨⟨ph, h⟩, hopen⟩ hstep => by
      obtain ⟨ph', h', -⟩ := step_ok buffer h hstep
      exact ⟨⟨ph', h'⟩, hopen.step h hstep⟩)
    ⟨⟨_, start_ok numLoops buffer⟩, open_start numLoops buffer⟩ hrun
  exact ⟨hopen.wrOpen c hc (.inr hst), fun l hm => hopen.asked l c hm (.inr hst)⟩

/-- A connection of loop 1 answers. -/
def sentSteps : List ServerStep := pendingSteps.take 12

theorem sent_run :
    ∃ s ∈ run (TcpServer.step (Buffer.new 8)) (.start 2 (.new 8)) sentSteps,
      s.next = 1 ∧ (s.conns 0).conn.m_state = .kConnected := by
  decide +kernel

theorem server_open_sent :
    ∃ s, run (TcpServer.step (Buffer.new 8)) (.start 2 (.new 8)) sentSteps = some s ∧
      (s.conns 0).conn.shutWr = false ∧ .deferred 0 .shutDownInLoop ∉ (s.loops 1).work := by
  obtain ⟨s, hs, hnext, hst⟩ := sent_run
  obtain ⟨hopen, hdue⟩ := server_open 2 (Buffer.new 8) hs (c := 0) (by omega) hst
  exact ⟨s, hs, hopen, hdue 1⟩

end

/-! ## Output behind the end -/

section

variable {ep ep' : Epoller} {c c' : TcpConnection Buffer}

/-- The connection is not revived, and its output does not begin to grow. -/
structure Settles (c c' : TcpConnection Buffer) : Prop where
  down : c'.m_state ≠ .kDisconnected → c.m_state ≠ .kDisconnected
  output : c.output = [] → c'.output = []

theorem Settles.refl (c : TcpConnection Buffer) : Settles c c := ⟨id, id⟩

theorem handleClose_settles (hs : c.handleClose ep = .ok (ep', c')) : Settles c c' := by
  unfold TcpConnection.handleClose at hs
  split at hs
  · obtain ⟨i, rfl⟩ := setEvents_ok hs
    exact ⟨fun hne => absurd rfl hne, id⟩
  · cases hs

theorem connectionDestructor_settles (hs : c.connectionDestructor ep = .ok (ep', c')) : Settles c c' := by
  unfold TcpConnection.connectionDestructor at hs
  dsimp only at hs
  split at hs
  · obtain ⟨i, rfl⟩ := setEvents_ok hs
    exact ⟨fun hne => absurd rfl hne, id⟩
  · cases hs
    exact ⟨id, id⟩

theorem shutDownInLoop_settles (c : TcpConnection Buffer) : Settles c c.shutDownInLoop := by
  unfold TcpConnection.shutDownInLoop
  split
  · exact .refl c
  · exact ⟨id, id⟩

theorem handleRead_settles {r : Except ℕ Bytes} {callback : Option TcpConnection.ReadCallback}
    (hs : c.handleRead ep r = .ok (ep', c', callback)) : Settles c c' := by
  rcases handleRead_cases hs with ⟨data, -, rfl⟩ | hclose
  · exact ⟨id, id⟩
  · obtain ⟨h1, h2⟩ := handleClose_settles hclose
    exact ⟨h1, h2⟩

theorem handleWrite_settles {r : Except ℕ ℕ} (hs : c.handleWrite ep r = .ok (ep', c')) : Settles c c' := by
  refine ⟨fun hne => by rwa [← (handleWrite_unsaid hs).state], fun hout => ?_⟩
  have hnone : TcpConnection.accepted r c.output.length = 0 := by
    have hle := accepted_le r c.output.length
    rw [hout, List.length_nil] at hle ⊢
    omega
  unfold TcpConnection.handleWrite at hs
  split at hs
  · -- there is nothing to write
    dsimp only at hs
    rw [hnone, if_neg (by omega)] at hs
    cases hs
    exact hout
  · cases hs
    exact hout

/-- **A call under way that is no `sendInLoop`.** -/
theorem runTask_settles {l : ℕ} {read : Except ℕ Bytes} {write : Except ℕ ℕ} {t : Task} {e : Effect Buffer}
    (hbegin : ∀ i, t = .life .connectionEstablished i → c.m_state = .kConnecting)
    (hsend : ∀ i msg, t ≠ .deferred i (.sendInLoop msg)) (hrun : runTask ep l c read write t = .ok e) :
    Settles c e.conn := by
  cases t with
  | life k i =>
    cases k with
    | connectionEstablished =>
      obtain ⟨j, hj⟩ := setEvents_ok (c := { c with m_state := .kConnected }) (Effect.of_eq_ok hrun)
      rw [hj]
      refine ⟨fun _ => ?_, id⟩
      rw [hbegin i rfl]
      decide
    | closeCallback =>
      unfold runTask runLife at hrun
      dsimp only at hrun
      split at hrun
      · cases hrun
        exact ⟨id, id⟩
      · cases hrun
        exact ⟨id, id⟩
    | handleRemoveConnectionInLoop =>
      cases hrun
      exact .refl c
    | connectionDestructor => exact connectionDestructor_settles (Effect.of_eq_ok hrun)
    | remove =>
      obtain ⟨j, hj⟩ := removeChannel_ok (Effect.of_eq_ok hrun)
      rw [hj]
      exact ⟨id, id⟩
  | deferred i d =>
    cases d with
    | sendInLoop msg => exact absurd rfl (hsend i msg)
    | shutDownInLoop =>
      cases hrun
      exact shutDownInLoop_settles c
    | forceCloseInLoop =>
      unfold runTask forceCloseInLoop at hrun
      dsimp only at hrun
      split at hrun
      · exact handleClose_settles (Effect.of_eq_ok hrun)
      · cases hrun
        exact .refl c
  | handleRead i =>
    unfold runTask at hrun
    dsimp only at hrun
    split at hrun
    · rename_i hs
      cases hrun
      exact handleRead_settles hs
    · cases hrun
  | handleWrite i => exact handleWrite_settles (Effect.of_eq_ok hrun)
  | user i =>
    cases hrun
    exact .refl c

/-- **A call of the user's code** that sends on no connection whose write side is shut down. -/
theorem runCall_settles {inLoopThread : Bool} {write : Except ℕ ℕ} {call : UserCall} {e : Effect Buffer}
    (hopen : ∀ i msg, call = .send i msg → inLoopThread = true → c.m_state = .kConnected → c.shutWr = false)
    (hrun : runCall ep c inLoopThread write call = .ok e) : e.conn.shutWr = false ∨ Settles c e.conn := by
  cases call with
  | send i msg =>
    unfold runCall TcpConnection.send at hrun
    dsimp only at hrun
    split at hrun
    · rename_i hs
      cases hrun
      split at hs
      · rename_i hst
        split at hs
        · rename_i hin
          split at hs
          · rename_i hsend
            cases hs
            have hshut := (sendInLoop_sends hsend).shutWr
            exact .inl (hshut.trans (hopen i msg rfl hin hst))
          · cases hs
        · cases hs
          exact .inr (.refl c)
      · cases hs
        exact .inr (.refl c)
    · cases hrun
  | shutDown i =>
    unfold runCall TcpConnection.shutDown at hrun
    dsimp only at hrun
    cases hrun
    by_cases hst : c.m_state = .kConnected
    · have hdown : Settles c { c with m_state := .kDisconnecting } := ⟨fun _ => by rw [hst]; decide, id⟩
      rw [if_pos hst]
      cases inLoopThread with
      | true =>
        obtain ⟨h1, h2⟩ := shutDownInLoop_settles { c with m_state := .kDisconnecting }
        exact .inr ⟨fun hne => hdown.down (h1 hne), h2⟩
      | false => exact .inr hdown
    · rw [if_neg hst]
      exact .inr (.refl c)
  | forceClose i =>
    unfold runCall TcpConnection.forceClose at hrun
    dsimp only at hrun
    cases hrun
    by_cases hst : c.m_state = .kConnected ∨ c.m_state = .kDisconnecting
    · rw [if_pos hst]
      refine .inr ⟨fun _ => ?_, id⟩
      rcases hst with hst | hst
      · rw [hst]; decide
      · rw [hst]; decide
    · rw [if_neg hst]
      exact .inr (.refl c)

/-- `sendInLoop` loses nothing, and the write side is open. -/
def TcpConnection.TakesOpen (conn : TcpConnection Buffer) (msg : Bytes) (write : Except ℕ ℕ) : Prop :=
  conn.Takes msg write ∧ conn.shutWr = false

/-- **The output of a connection, to its end**: behind `SHUT_WR` there is none. -/
structure FinOk (ep : Epoller) (conn : TcpConnection Buffer) : Prop where
  out : OutputOk ep conn
  fin : conn.m_state ≠ .kDisconnected → conn.shutWr = true → conn.output = []

/-- A call that shuts the write side down finds no output, one that does not adds none. -/
theorem FinOk.of {conn conn' : TcpConnection Buffer} (h : FinOk ep conn) (hout : OutputOk ep' conn')
    (hshuts : Shuts conn conn') (hsettles : conn'.shutWr = false ∨ Settles conn conn') : FinOk ep' conn' := by
  refine ⟨hout, fun hne hshut => ?_⟩
  rcases hsettles with hopen | hsettles
  · rw [hopen] at hshut
    cases hshut
  rcases hshuts with heq | hoff
  · exact hsettles.output (h.fin (hsettles.down hne) (heq ▸ hshut))
  · by_contra hleft
    have hwriting := (hout.stream.interest hne).2 hleft
    rw [hoff] at hwriting
    cases hwriting

/-- **Every call keeps it** that sends on open connections only. -/
theorem fin_kept {size : ℕ} (hsize : kPrePendIndex ≤ size) :
    Kept TcpConnection.TakesOpen (Buffer.new size) FinOk where
  entry h hentry := ⟨h.out.entry hentry, h.fin⟩
  new c home hnone := ⟨new_output hsize c home hnone, fun _ hshut => by cases hshut⟩
  task {p ep l conn read write t e} hat hfit h hmeets hrun := by
    have htakes : t.Meets TcpConnection.Takes conn write := by
      cases t with
      | deferred i d =>
        cases d with
        | sendInLoop msg => exact hmeets.1
        | shutDownInLoop | forceCloseInLoop => trivial
      | life _ _ | handleRead _ | handleWrite _ | user _ => trivial
    refine h.of (runTask_output hat hfit h.out htakes hrun) (runTask_shuts hrun) ?_
    by_cases hsend : ∃ i msg, t = .deferred i (.sendInLoop msg)
    · obtain ⟨i, msg, rfl⟩ := hsend
      have hshut := (sendInLoop_sends (Effect.of_eq_ok hrun)).shutWr
      exact .inl (hshut.trans hmeets.2)
    · refine .inr (runTask_settles (fun i hi => ?_) (fun i msg hi => hsend ⟨i, msg, hi⟩) hrun)
      subst hi
      exact hat.connecting hfit.1
  call {p ep conn inLoopThread write call e} _ h hmeets hrun := by
    have htakes : call.Meets TcpConnection.Takes conn inLoopThread write := by
      cases call with
      | send i msg => exact fun hin hst => (hmeets hin hst).1
      | shutDown i | forceClose i => trivial
    refine h.of (runCall_output h.out htakes hrun) (runCall_shuts hrun) (runCall_settles ?_ hrun)
    rintro i msg rfl hin hst
    exact (hmeets hin hst).2

end

end MyMuduo
