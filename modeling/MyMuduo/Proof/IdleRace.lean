import MyMuduo.Proof.IdleServer
import MyMuduo.Proof.RaceMoves
import MyMuduo.Spec.IdleRace

/-!
# Who a deferred shutdown can meet

The base loop tests `m_state`, stores to it, and queues `shutDownInLoop` for the home of the
connection, while that may close the connection. Only the base loop takes a connection out of
`m_connections`, and with that it queues the destructor; it does not come to it in the middle of a
`shutDown` of its own (`CallsOk`). So where `shutDownInLoop` is queued no destructor is, and one can
come only behind (`deferred_owned`).

Where nothing comes in between, the steps of a `shutDown` are the one that `IdleServer` takes
(`shutDown_uninterrupted`).
-/

namespace MyMuduo

open Lib

variable {Q : Type}

/-! ## A call without an interruption -/

namespace TcpServer

/-- The connection `c` becomes `conn`. -/
def setConn (s : TcpServer Q) (c : ℕ) (conn : TcpConnection Q) : TcpServer Q :=
  { s with conns := Function.update s.conns c ⟨conn, (s.conns c).life⟩ }

/-- A call that changes the connection only. -/
theorem apply_quiet (s : TcpServer Q) (c : ℕ) (conn : TcpConnection Q) :
    s.apply c ⟨conn, (s.loops (s.home c)).ep, [], none, false⟩ = s.setConn c conn := by
  simp only [apply, setLoop, Bool.false_eq_true, if_false]
  unfold setConn
  congr 1
  exact Function.update_eq_self _ _

theorem setConn_self (s : TcpServer Q) (c : ℕ) : s.setConn c (s.conns c).conn = s := by
  unfold setConn
  rw [Function.update_eq_self]

/-- A later call overwrites it. -/
theorem setConn_apply {s : TcpServer Q} {c : ℕ} {conn : TcpConnection Q} (h : SameId (s.conns c).conn conn)
    (e : Effect Q) : (s.setConn c conn).apply c e = s.apply c e := by
  have hfd : (s.setConn c conn).fd c = s.fd c := by
    simp only [TcpServer.fd, setConn, Function.update_self]
    exact h.fd
  have hhome : (s.setConn c conn).home c = s.home c := by
    simp only [TcpServer.home, setConn, Function.update_self]
    exact h.loop
  unfold apply
  rw [hfd, hhome]
  simp only [setConn, Function.update_self, Function.update_idem]

end TcpServer

namespace IdleRace

section

variable [ByteQueue Q] {buffer : Q} {s : IdleRace Q} {l c : ℕ}

/-- The thread of loop `l` in a call, with the server as `tcp`. -/
theorem next_step (s : IdleRace Q) (buffer : Q) (l : ℕ) (tcp : TcpServer Q) (pc : ShutDownPc)
    {pc' : Option ShutDownPc} {e : Effect Q} (hf : tcp.failed = none) (hc : tcp.isAlive c)
    (hnext : pc.next l c (tcp.loops (tcp.home c)).ep (tcp.conns c).conn = (pc', e)) :
    ((s.setTcp tcp).setCall l (some (c, pc))).step buffer (.next l) =
      some ((s.setTcp (tcp.apply c e)).setCall l (pc'.map fun pc => (c, pc))) := by
  have hself : ((s.setTcp tcp).setCall l (some (c, pc))).calls l = some (c, pc) := Function.update_self _ _ _
  have htcp : ((s.setTcp tcp).setCall l (some (c, pc))).tcp = tcp := rfl
  unfold step
  rw [if_neg fun hne => hne (htcp ▸ hf)]
  dsimp only
  unfold next
  rw [hself]
  dsimp only
  rw [htcp, if_pos (show (tcp.conns c).life = .alive from hc), hnext]
  simp only [setCall, setTcp, Function.update_idem]

/-- The atomic `shutDown`. -/
theorem call_shutDown {t : IdleServer Q} {write : Except ℕ ℕ}
    (hstep : s.server.step buffer (.call l (.shutDown c) write) = some t) :
    s.tcp.failed = none ∧ (s.tcp.loops l).current.head? = some (.user (some c)) ∧ s.tcp.isAlive c ∧
      ∃ e, runCall (s.tcp.loops (s.tcp.home c)).ep (s.tcp.conns c).conn (l = s.tcp.home c) write
          (.shutDown c) = .ok e ∧
        t = { s.server with tcp := s.tcp.apply c e } := by
  unfold IdleServer.step at hstep
  dsimp only at hstep
  split at hstep
  · next hg =>
    obtain ⟨tcp, htcp, rfl⟩ := Option.map_eq_some_iff.1 hstep
    unfold TcpServer.step at htcp
    split at htcp
    · cases htcp
    · next hf =>
      dsimp only at htcp
      split at htcp
      · next hc =>
        cases htcp
        refine ⟨not_not.1 hf, hg.2, hc.2, _, rfl, ?_⟩
        simp only [Option.some.injEq]
        rfl
      · cases htcp
  · cases hstep

/-- **Without an interruption** the steps of a `shutDown` are the `shutDown` of `IdleServer`. -/
theorem shutDown_uninterrupted {write : Except ℕ ℕ} {t : IdleServer Q} (hfree : s.isFree l = true)
    (hstep : s.server.step buffer (.call l (.shutDown c) write) = some t) :
    ∃ n, run (step buffer) s (.shutDown l c :: List.replicate n (.next l)) = some { s with server := t } := by
  obtain ⟨hf, hhead, hc, e, hrun, rfl⟩ := call_shutDown hstep
  have hcalls : s.calls l = none := by
    rw [isFree, decide_eq_true_eq] at hfree
    exact hfree.1
  have hend : ∀ tcp, ((s.setTcp tcp).setCall l none) = { s with server := { s.server with tcp := tcp } } := by
    intro tcp
    unfold setTcp setCall
    dsimp only
    rw [← hcalls, Function.update_eq_self]
  have hbegin : s.step buffer (.shutDown l c) = some ((s.setTcp s.tcp).setCall l (some (c, .test))) := by
    unfold step
    rw [if_neg fun hne => hne hf]
    exact if_pos ⟨hfree, hhead⟩
  set conn := (s.tcp.conns c).conn with hconn
  set ep := (s.tcp.loops (s.tcp.home c)).ep with hep
  have hquiet : s.tcp.apply c ⟨conn, ep, [], none, false⟩ = s.tcp := by
    rw [TcpServer.apply_quiet, TcpServer.setConn_self]
  by_cases hst : conn.m_state = .kConnected
  · -- the store and the push overwrite the same connection
    have hid : SameId conn { conn with m_state := .kDisconnecting } := ⟨rfl, rfl, rfl⟩
    have he : ShutDownPc.runInLoop.next l c ep { conn with m_state := .kDisconnecting } = (none, e) := by
      unfold runCall TcpConnection.shutDown at hrun
      rw [if_pos hst] at hrun
      unfold ShutDownPc.next
      by_cases hl : l = conn.m_loop
      · rw [if_pos hl]
        rw [decide_eq_true (show l = s.tcp.home c from hl)] at hrun
        exact congrArg (Prod.mk none) (Except.ok.inj hrun)
      · rw [if_neg hl]
        rw [decide_eq_false (show ¬l = s.tcp.home c from hl)] at hrun
        exact congrArg (Prod.mk none) (Except.ok.inj hrun)
    have htest := next_step s buffer l s.tcp .test hf hc
      (show _ = (some .store, ⟨conn, ep, [], none, false⟩) by rw [ShutDownPc.next, if_pos hst])
    have hstore := next_step s buffer l s.tcp .store hf hc rfl
    set tcp := s.tcp.setConn c { conn with m_state := .kDisconnecting } with htcp
    have hstored : s.tcp.apply c ⟨{ conn with m_state := .kDisconnecting }, ep, [], none, false⟩ = tcp :=
      TcpServer.apply_quiet s.tcp c _
    have hself : tcp.conns c = ⟨{ conn with m_state := .kDisconnecting }, (s.tcp.conns c).life⟩ :=
      Function.update_self _ _ _
    have hpush := next_step s buffer l tcp .runInLoop hf
      (show (tcp.conns c).life = .alive by rw [hself]; exact hc)
      (show ShutDownPc.runInLoop.next l c (tcp.loops (tcp.home c)).ep (tcp.conns c).conn = (none, e) by
        rw [TcpServer.home, hself]
        exact he)
    rw [show tcp.apply c e = s.tcp.apply c e from TcpServer.setConn_apply hid e] at hpush
    rw [Option.map_some, hquiet] at htest
    rw [hstored, Option.map_some] at hstore
    refine ⟨3, ?_⟩
    rw [run, hbegin, Option.bind_some, List.replicate_succ, run, htest, Option.bind_some, List.replicate_succ,
      run, hstore, Option.bind_some, List.replicate_one, run, hpush]
    exact congrArg some (hend (s.tcp.apply c e))
  · have htest := next_step s buffer l s.tcp .test hf hc
      (show _ = (none, ⟨conn, ep, [], none, false⟩) by rw [ShutDownPc.next, if_neg hst])
    have he : e = ⟨conn, ep, [], none, false⟩ := by
      unfold runCall TcpConnection.shutDown at hrun
      rw [if_neg hst] at hrun
      exact (Except.ok.inj hrun).symm
    refine ⟨1, ?_⟩
    rw [run, hbegin, Option.bind_some, List.replicate_one, run, htest, he, hquiet]
    exact congrArg some (hend s.tcp)

end

end IdleRace

/-! ## The calls of `shutDown` -/

namespace IdleRace

/-- **The calls under way.** Each is in a callback of its thread. Once `m_state` is tested, either the
thread is that of the connection, or it is the base loop, and then the connection is not removed. -/
structure CallsOk (s : TcpServer Q) (calls : ℕ → Option (ℕ × ShutDownPc)) : Prop where
  user : ∀ l x, calls l = some x → ∃ y, (s.loops l).current.head? = some (.user y)
  place : ∀ l c pc, calls l = some (c, pc) → l = 0 ∨ c < s.next ∧ l = s.home c
  tested : ∀ l c pc, calls l = some (c, pc) → pc ≠ .test → c < s.next ∧
    (s.conns c).conn.m_state ≠ .kConnecting ∧ (l = s.home c ∨ l = 0 ∧ s.Unremoved c)

/-- **The server and the calls.** -/
structure Ok (s : IdleRace Q) : Prop where
  tcp : s.tcp.RaceOk
  calls : CallsOk s.tcp s.calls
  checking : s.checking ≠ none → (s.tcp.loops 0).current.head? = some (.user none)

variable {s s' : IdleRace Q} {calls : ℕ → Option (ℕ × ShutDownPc)} {l c : ℕ}

/-- A step beside the calls. -/
theorem CallsOk.goes {t t' : TcpServer Q} {r : Option ℕ} (h : CallsOk t calls) (hgoes : t.Goes r t')
    (hr : ∀ l, r = some l → calls l = none) : CallsOk t' calls := by
  have hfree : ∀ l x, calls l = some x → r ≠ some l := by
    intro l x hx hrl
    rw [hr l hrl] at hx
    cases hx
  refine ⟨fun l x hx => ?_, fun l c pc hc => ?_, fun l c pc hc hpc => ?_⟩
  · obtain ⟨y, hy⟩ := h.user l x hx
    exact ⟨y, by rw [hgoes.stack l y hy (hfree l x hx)]; exact hy⟩
  · refine (h.place l c pc hc).imp_right fun ⟨hlt, hl⟩ => ⟨hlt.trans_le hgoes.next, ?_⟩
    rw [hgoes.home c hlt]
    exact hl
  · obtain ⟨hlt, hst, hl⟩ := h.tested l c pc hc hpc
    refine ⟨hlt.trans_le hgoes.next, hgoes.begun c hlt hst, ?_⟩
    rcases hl with hl | ⟨rfl, hun⟩
    · rw [hgoes.home c hlt]
      exact Or.inl hl
    · obtain ⟨y, hy⟩ := h.user 0 _ hc
      exact Or.inr ⟨rfl, hgoes.unremoved c y hy hun⟩

/-- A thread goes on with its call, or leaves it. -/
theorem CallsOk.set {t : TcpServer Q} (h : CallsOk t calls) {call : Option (ℕ × ShutDownPc)}
    (huser : call ≠ none → ∃ y, (t.loops l).current.head? = some (.user y))
    (hplace : ∀ c pc, call = some (c, pc) → l = 0 ∨ c < t.next ∧ l = t.home c)
    (htested : ∀ c pc, call = some (c, pc) → pc ≠ .test → c < t.next ∧
      (t.conns c).conn.m_state ≠ .kConnecting ∧ (l = t.home c ∨ l = 0 ∧ t.Unremoved c)) :
    CallsOk t (Function.update calls l call) := by
  refine ⟨fun l' x hx => ?_, fun l' c pc hc => ?_, fun l' c pc hc => ?_⟩
  · rw [Function.update_apply] at hx
    split at hx
    · next hl =>
      rw [hl]
      exact huser (by rw [hx]; simp)
    · exact h.user l' x hx
  · rw [Function.update_apply] at hc
    split at hc
    · next hl =>
      rw [hl]
      exact hplace c pc hc
    · exact h.place l' c pc hc
  · rw [Function.update_apply] at hc
    split at hc
    · next hl =>
      rw [hl]
      exact htested c pc hc
    · exact h.tested l' c pc hc

/-- The states go on as the server does. -/
theorem Ok.goes {r : Option ℕ} (hcalls : CallsOk s.tcp s'.calls)
    (hgoes : s.tcp.Goes r s'.tcp) (hr : ∀ l, r = some l → s'.calls l = none)
    (hchecking : s'.checking ≠ none →
      (s.tcp.loops 0).current.head? = some (.user none) ∧ r ≠ some 0) : s'.Ok := by
  refine ⟨hgoes.ok, hcalls.goes hgoes hr, fun hck => ?_⟩
  obtain ⟨hhead, hne⟩ := hchecking hck
  rw [hgoes.stack 0 none hhead hne]
  exact hhead

/-- Where a `shutDown` goes on, if it does, is decided by what is so before. -/
theorem next_calls (h : s.Ok) {pc : ShutDownPc} (hcall : s.calls l = some (c, pc)) (hc : s.tcp.isAlive c)
    (ep : Epoller) :
    CallsOk s.tcp (Function.update s.calls l
      ((pc.next l c ep (s.tcp.conns c).conn).1.map fun pc => (c, pc))) := by
  have hlt := h.tcp.lt_of_alive hc
  have hplace := h.calls.place l c pc hcall
  have htested : (pc.next l c ep (s.tcp.conns c).conn).1 ≠ none → c < s.tcp.next ∧
      (s.tcp.conns c).conn.m_state ≠ .kConnecting ∧ (l = s.tcp.home c ∨ l = 0 ∧ s.tcp.Unremoved c) := by
    intro hgoesOn
    cases pc with
    | test =>
      -- a connection that is up is not removed
      have hst : (s.tcp.conns c).conn.m_state = .kConnected := by
        by_contra hne
        exact hgoesOn (if_neg hne)
      refine ⟨hlt, by rw [hst]; decide, ?_⟩
      rcases hplace with hl | ⟨-, hl⟩
      · exact Or.inr ⟨hl, (h.tcp.up c hlt (by rw [hst]; rfl)).1⟩
      · exact Or.inl hl
    | store => exact h.calls.tested l c _ hcall (by decide)
    | runInLoop => exact absurd rfl hgoesOn
  have hsome : ∀ c' pc', ((pc.next l c ep (s.tcp.conns c).conn).1.map fun pc => (c, pc)) = some (c', pc') →
      c' = c ∧ (pc.next l c ep (s.tcp.conns c).conn).1 ≠ none := by
    intro c' pc' hx
    obtain ⟨pc₁, hpc, hx⟩ := Option.map_eq_some_iff.1 hx
    cases hx
    exact ⟨rfl, by rw [hpc]; simp⟩
  refine h.calls.set (fun _ => h.calls.user l _ hcall) (fun c' pc' hx => ?_) fun c' pc' hx _ => ?_
  · obtain ⟨rfl, -⟩ := hsome c' pc' hx
    exact hplace
  · obtain ⟨rfl, hne⟩ := hsome c' pc' hx
    exact htested hne

/-- What a step of a `shutDown` does to the server. -/
theorem next_goes (h : s.Ok) {pc : ShutDownPc} (hcall : s.calls l = some (c, pc)) (hc : s.tcp.isAlive c)
    {r : Option ℕ} :
    s.tcp.Goes r
      (s.tcp.apply c (pc.next l c (s.tcp.loops (s.tcp.home c)).ep (s.tcp.conns c).conn).2) := by
  have hquiet : ∀ e : Effect Q, Handles (s.tcp.loops (s.tcp.home c)).ep (s.tcp.conns c).conn e.ep e.conn →
      e.calls = [] → e.queued = none → e.erased = false → s.tcp.Goes r (s.tcp.apply c e) := by
    intro e hh hcalls hq her
    refine h.tcp.call (l := l) hc (h.tcp.handles (fun _ ht => by cases ht) hh hq her fun _ ht => ?_) hcalls
    rw [hcalls] at ht
    cases ht
  cases pc with
  | test => exact hquiet _ (.refl _ _) rfl rfl rfl
  | store =>
    obtain ⟨-, hst, -⟩ := h.calls.tested l c _ hcall (by decide)
    have hdown : ConnectionState.kDisconnecting ≠ .kConnecting := by decide
    exact h.tcp.call (l := l) hc ⟨⟨rfl, rfl, rfl⟩, fun _ _ hx => Or.inr hx, fun hup => (by cases hup),
      Or.inr ⟨hdown, Or.inl hst⟩, Or.inl, fun _ ht => (by cases ht), fun _ ht => (by cases ht),
      fun _ _ ht => (by cases ht), fun her => by cases her⟩ rfl
  | runInLoop =>
    obtain ⟨-, -, hl⟩ := h.calls.tested l c _ hcall (by decide)
    dsimp only [ShutDownPc.next]
    split
    · exact hquiet _ (shutDownInLoop_handles _ _) rfl rfl rfl
    · next hhome =>
      -- the functor is queued while the base loop can queue no destructor
      have hun : s.tcp.Unremoved c := (hl.resolve_left hhome).2
      refine h.tcp.call (l := l) hc ⟨.refl _, fun _ _ hx => Or.inr hx, id, Or.inl rfl, Or.inl,
        fun _ ht => (by cases ht), fun _ ht => (by cases ht), fun l' t ht => ?_, fun her => by cases her⟩ rfl
      cases ht
      exact Or.inr ⟨rfl, rfl, hun, rfl, rfl⟩

/-- **A step of a `shutDown`.** -/
theorem next_ok (h : s.Ok) (hstep : s.next l = some s') : s'.Ok ∧ ∃ r, s.tcp.Goes r s'.tcp := by
  unfold next at hstep
  split at hstep
  · cases hstep
  · next c pc hcall =>
    dsimp only at hstep
    split at hstep
    · next hc =>
      cases hstep
      have hgoes := next_goes h hcall hc (r := none)
      exact ⟨.goes (next_calls h hcall hc _) hgoes (fun _ hl => by cases hl)
        fun hck => ⟨h.checking hck, by simp⟩, _, hgoes⟩
    · cases hstep
      have hgoes := (TcpServer.Goes.refl (r := none) h.tcp).owners s.tcp.owners (some .dangling)
      exact ⟨.goes h.calls hgoes (fun _ hl => by cases hl) fun hck => ⟨h.checking hck, by simp⟩, _, hgoes⟩

variable [ByteQueue Q] {buffer : Q}

/-- What the callbacks of the `HttpServer` do to the loops is nothing. -/
theorem callback_owned {t t' : IdleServer Q} {now : ℤ} {x : Task}
    (h : t.callback buffer l now x = some t') : ∃ owners, t'.tcp = { t.tcp with owners := owners } := by
  have hconn : ∀ c, t.onConnection buffer l c now = some t' →
      ∃ owners, t'.tcp = { t.tcp with owners := owners } := by
    intro c hc
    unfold IdleServer.onConnection at hc
    split at hc
    · obtain ⟨tcp, htcp, rfl⟩ := Option.map_eq_some_iff.1 hc
      have hrun : run (TcpServer.step buffer) t.tcp [.retain c] = some tcp := by
        rw [run, htcp]
        rfl
      exact TcpServer.run_owned (fun a ha => Or.inl ⟨c, List.mem_singleton.1 ha⟩) hrun
    · cases hc
      exact ⟨_, rfl⟩
  unfold IdleServer.callback at h
  split at h
  · exact hconn _ h
  · exact hconn _ h
  · split at h
    · cases h
      exact ⟨_, rfl⟩
    · cases h
      exact ⟨_, rfl⟩
  · cases h
    exact ⟨_, rfl⟩

/-- **A step with no part in the calls** goes on beside them. -/
theorem server_goes (h : s.Ok) {a : IdleStep} (ha : s.admits a = true) {t : IdleServer Q}
    (hstep : s.server.step buffer a = some t) :
    ∃ r, s.tcp.Goes r t.tcp ∧ ∀ l, r = some l → s.isFree l = true := by
  unfold IdleServer.step at hstep
  cases a with
  | tcp x =>
    dsimp only at hstep
    split at hstep
    · next hx =>
      obtain ⟨tcp, htcp, rfl⟩ := Option.map_eq_some_iff.1 hstep
      refine ⟨x.returns, h.tcp.step (fun thread call write hcall => ?_) htcp, fun l hl => ?_⟩
      · rw [hcall] at hx
        cases hx
      · cases x with
        | return_ l' =>
          cases hl
          exact ha
        | _ => cases hl
    · cases hstep
  | exec l read write now =>
    dsimp only at hstep
    split at hstep
    · cases hstep
    · obtain ⟨tcp, htcp, hback⟩ := Option.bind_eq_some_iff.1 hstep
      obtain ⟨owners, howners⟩ := callback_owned hback
      have hgoes := (h.tcp.step (fun _ _ _ hx => by cases hx) htcp).owners owners tcp.failed
      refine ⟨none, ?_, fun _ hl => by cases hl⟩
      rw [howners]
      exact hgoes
  | call l call write =>
    dsimp only at hstep
    split at hstep
    · next hg =>
      obtain ⟨tcp, htcp, rfl⟩ := Option.map_eq_some_iff.1 hstep
      cases call with
      | send c msg => exact ⟨none, h.tcp.sendStep hg.2 htcp, fun _ hl => by cases hl⟩
      | shutDown c => cases ha
      | forceClose c => cases ha
    · cases hstep
  | addTimerInLoop i =>
    dsimp only at hstep
    split at hstep
    · cases hstep
      exact ⟨none, .refl h.tcp, fun _ hl => by cases hl⟩
    · cases hstep
  | handleIdleConnection i now => cases ha

/-- `handleIdleConnection` begins. -/
theorem lock_ok (h : s.Ok) {i : ℕ} {t : IdleTimer} (hstep : s.lock buffer i t = some s') :
    s'.Ok ∧ ∃ r, s.tcp.Goes r s'.tcp := by
  obtain ⟨tcp, hrun, rfl⟩ := Option.map_eq_some_iff.1 hstep
  obtain ⟨t₁, htimer, hrest⟩ := run_cons hrun
  have howned : ∀ a ∈ (if s.server.locks t then [ServerStep.retain t.conn] else []),
      (∃ c, a = .retain c) ∨ ∃ c, a = .release c := by
    intro a ha
    split at ha
    · exact Or.inl ⟨_, List.mem_singleton.1 ha⟩
    · cases ha
  obtain ⟨owners, rfl⟩ := TcpServer.run_owned howned hrest
  have hgoes := (h.tcp.step (fun _ _ _ hx => by cases hx) htimer).owners owners t₁.failed
  have hhead : (t₁.loops 0).current = [.user none] := by
    unfold TcpServer.step at htimer
    split at htimer
    · cases htimer
    · dsimp only at htimer
      split at htimer
      · cases htimer
        exact congrArg IoLoop.current (Function.update_self 0 _ s.tcp.loops)
      · cases htimer
  exact ⟨⟨hgoes.ok, h.calls.goes hgoes fun _ hl => (by cases hl), fun _ => congrArg List.head? hhead⟩,
    _, hgoes⟩

/-- It returns. -/
theorem finish_ok (h : s.Ok) {k : IdleCheck} (hfree : s.calls 0 = none) (hstep : s.finish buffer k = some s') :
    s'.Ok ∧ ∃ r, s.tcp.Goes r s'.tcp := by
  obtain ⟨tcp, hrun, rfl⟩ := Option.map_eq_some_iff.1 hstep
  rw [List.append_assoc] at hrun
  obtain ⟨t₁, hreturn, hrest⟩ := run_cons hrun
  have howned : ∀ a ∈ (if k.locked then [ServerStep.release k.timer.conn] else []) ++
      (if k.timer.strong then [.release k.timer.conn] else []),
      (∃ c, a = .retain c) ∨ ∃ c, a = .release c := by
    intro a ha
    rcases List.mem_append.1 ha with ha | ha
    · split at ha
      · exact Or.inr ⟨_, List.mem_singleton.1 ha⟩
      · cases ha
    · split at ha
      · exact Or.inr ⟨_, List.mem_singleton.1 ha⟩
      · cases ha
  obtain ⟨owners, rfl⟩ := TcpServer.run_owned howned hrest
  have hgoes := (h.tcp.step (fun _ _ _ hx => by cases hx) hreturn).owners owners t₁.failed
  refine ⟨⟨hgoes.ok, h.calls.goes hgoes fun l hl => ?_, fun hck => absurd rfl hck⟩, _, hgoes⟩
  cases hl
  exact hfree

/-- **One step.** -/
theorem step_ok (h : s.Ok) {a : RaceStep} (hstep : s.step buffer a = some s') :
    s'.Ok ∧ ∃ r, s.tcp.Goes r s'.tcp := by
  have hstay : ∃ r, s.tcp.Goes r s.tcp := ⟨none, .refl h.tcp⟩
  unfold step at hstep
  split at hstep
  · cases hstep
  cases a with
  | server a =>
    dsimp only at hstep
    split at hstep
    · next ha =>
      obtain ⟨t, ht, rfl⟩ := Option.map_eq_some_iff.1 hstep
      obtain ⟨r, hgoes, hr⟩ := server_goes h ha ht
      have hfree : ∀ l, r = some l → s.calls l = none ∧ (l = 0 → s.checking = none) := by
        intro l hl
        have hfree := hr l hl
        rw [isFree, decide_eq_true_eq] at hfree
        exact hfree
      refine ⟨.goes h.calls hgoes (fun l hl => (hfree l hl).1) fun hck => ?_, r, hgoes⟩
      refine ⟨h.checking hck, fun h0 => ?_⟩
      exact hck ((hfree 0 h0).2 rfl)
    · cases hstep
  | shutDown l c =>
    dsimp only at hstep
    split at hstep
    · next hg =>
      cases hstep
      have hmem : .user (some c) ∈ (s.tcp.loops l).work := by
        rw [IoLoop.work, List.append_assoc]
        exact List.mem_append_left _ (List.mem_of_mem_head? hg.2)
      have hplaced := (h.tcp.loops l).placed _ hmem
      refine ⟨⟨h.tcp, h.calls.set (fun _ => ⟨_, hg.2⟩) (fun c' pc hx => ?_) (fun c' pc hx hpc => ?_),
        h.checking⟩, hstay⟩
      · cases hx
        exact Or.inr hplaced
      · cases hx
        exact absurd rfl hpc
    · cases hstep
  | next l => exact next_ok h hstep
  | lock i now =>
    dsimp only at hstep
    split at hstep
    · cases hstep
    · split at hstep
      · exact lock_ok h hstep
      · cases hstep
  | compare now =>
    dsimp only at hstep
    split at hstep
    · cases hstep
    · next k hk =>
      have hhead := h.checking (by rw [hk]; simp)
      split at hstep
      · cases hstep
        unfold compare
        dsimp only
        split
        · refine ⟨⟨h.tcp, h.calls.set (fun _ => ⟨_, hhead⟩) (fun c' pc hx => ?_) (fun c' pc hx hpc => ?_),
            fun _ => hhead⟩, hstay⟩
          · exact Or.inl rfl
          · cases hx
            exact absurd rfl hpc
        · exact ⟨⟨h.tcp, h.calls, fun _ => hhead⟩, hstay⟩
      · cases hstep
  | return_ =>
    dsimp only at hstep
    split at hstep
    · cases hstep
    · split at hstep
      · next hg => exact finish_ok h hg.1 hstep
      · cases hstep

omit [ByteQueue Q] in
theorem start_ok (numLoops : ℕ) (buffer : Q) : (start numLoops buffer).Ok where
  tcp := by
    have hnone : ∀ c, ¬c < (start numLoops buffer).tcp.next := fun _ => Nat.not_lt_zero _
    refine ⟨fun l => ?_, fun _ => rfl, fun _ hc => absurd rfl hc, fun c hc => absurd hc (hnone c),
      fun _ _ hm => (by cases hm), fun _ _ hc => (by cases hc), fun c hc => absurd hc (hnone c),
      fun _ _ ht => (by cases ht), fun _ _ _ ht => by cases ht⟩
    exact ⟨fun _ ht => (by cases ht), List.Pairwise.nil, fun _ ht => (by cases ht), fun _ => rfl,
      fun _ hx => (by cases hx), fun _ _ hx => by cases hx⟩
  calls := ⟨fun _ _ hx => (by cases hx), fun _ _ _ hx => (by cases hx), fun _ _ _ hx => by cases hx⟩
  checking := fun hck => absurd rfl hck

/-- **Deferred shutdown never reaches a dead connection.** In the server as `HttpServer` wires it, with
the test, the store and the push of every `shutDown` taken apart, a functor with a raw `this` that is
queued or running on a loop is `shutDownInLoop`, on the loop of its connection. The connection is there
and has an owner, its `connectionDestructor` did not run, and if that is queued it is behind. The
functor stays until its thread is at it. -/
theorem deferred_owned (numLoops : ℕ) (buffer : Q) (steps : List RaceStep)
    (hrun : run (step buffer) (start numLoops buffer) steps = some s) {d : TcpConnection.Deferred}
    (hd : Task.deferred c d ∈ (s.tcp.loops l).work) :
    (d = .shutDownInLoop ∧ l = s.tcp.home c ∧ (s.tcp.conns c).life = .alive ∧ s.tcp.owned c = true ∧
      .connectionDestructor ∉ (s.tcp.conns c).conn.trace ∧
      ∀ i j : ℕ, (s.tcp.loops l).work[i]? = some (Task.deferred c d) →
        (s.tcp.loops l).work[j]? = some (Task.life .connectionDestructor c) → i < j) ∧
    ∀ a s', s.step buffer a = some s' →
      Task.deferred c d ∈ (s'.tcp.loops l).work ∨
        (s.tcp.loops l).current.head? = some (Task.deferred c d) := by
  have h : s.Ok := run_inv (fun _ _ _ h hs => (step_ok h hs).1) (start_ok numLoops buffer) hrun
  obtain ⟨hdef, halive, htrace, howner⟩ := h.tcp.deferred l c d hd
  obtain ⟨-, hhome⟩ := (h.tcp.loops l).placed _ hd
  refine ⟨⟨hdef, hhome, halive, h.tcp.owned howner, htrace, fun i j hi hj => ?_⟩, fun a s' hs => ?_⟩
  · by_contra hij
    obtain ⟨hil, hi⟩ := List.getElem?_eq_some_iff.1 hi
    obtain ⟨hjl, hj⟩ := List.getElem?_eq_some_iff.1 hj
    have hne : i ≠ j := by
      rintro rfl
      rw [hi] at hj
      cases hj
    have hji := List.pairwise_iff_getElem.1 (h.tcp.loops l).order j i hjl hil (by omega)
    exact hji.1 c d hj hi
  · obtain ⟨r, hgoes⟩ := (step_ok h hs).2
    exact hgoes.stays l c d hd

/-- The base loop finds connection 0 idle, and tests `m_state`; the I/O loop closes the connection; then
the store and the push come. The end of the connection is queued behind. -/
def closingSteps : List RaceStep :=
  establishingSteps.map .server ++
    [.server (.tcp (.poll 0 [])), .lock 0 9000000001, .compare 9000000001, .next 0,
      .server (.tcp (.poll 1 [(5, kReadEvent)])), .server (.tcp (.handleEvent 1)),
      .server (.exec 1 (.ok []) (.ok 0) 9000000002), .server (.exec 1 (.ok []) (.ok 0) 9000000002),
      .next 0, .next 0, .return_,
      .server (.tcp (.swap 0)), .server (.tcp (.nextFunctor 0)),
      .server (.exec 0 (.ok []) (.ok 0) 9000000003)]

theorem deferred_owned_closing :
    ∃ s : IdleRace Buffer, run (step (.new 8)) (start 2 (.new 8)) closingSteps = some s ∧
      (s.tcp.loops 1).work = [.deferred 0 .shutDownInLoop, .life .connectionDestructor 0] ∧
      s.tcp.m_connections 5 = none ∧ (s.tcp.conns 0).conn.m_state = .kDisconnecting ∧
      (s.tcp.conns 0).life = .alive ∧ s.tcp.owned 0 = true := by
  have hvalue : (run (step (.new 8)) (start 2 (Buffer.new 8)) closingSteps).map
      (fun s => ((s.tcp.loops 1).work, s.tcp.m_connections 5, (s.tcp.conns 0).conn.m_state)) =
        some ([.deferred 0 .shutDownInLoop, .life .connectionDestructor 0], none, .kDisconnecting) := by
    decide +kernel
  obtain ⟨s, hs, hv⟩ := Option.map_eq_some_iff.1 hvalue
  obtain ⟨h1, h2⟩ := Prod.mk.inj hv
  obtain ⟨h2, h3⟩ := Prod.mk.inj h2
  have howned := (deferred_owned 2 (Buffer.new 8) closingSteps hs (l := 1) (c := 0) (d := .shutDownInLoop)
    (by rw [h1]; exact List.mem_cons_self)).1
  exact ⟨s, hs, h1, h2, h3, howned.2.2.1, howned.2.2.2.1⟩

end IdleRace

end MyMuduo
