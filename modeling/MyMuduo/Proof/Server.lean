import MyMuduo.Proof.ServerRegistry
import MyMuduo.Spec.Buffer

/-!
# The server keeps its connections in order

`ServerOk` puts the parts together: the maps (`Registry`), the calls that are due (`TokensOk`)
and the stacks and queues of the loops (`StackOk`), all for one assignment of phases to the
connections. No step fails, every step keeps the invariant and takes no connection back to an
earlier phase (`step_ok`), so both hold along every run (`run_ok`).

* `connection_life`: no assertion fails, a connection is closed once and destroyed once, in this
  order, and does no more reading and writing once it is closed.
* `connection_registry`: whatever the kernel does with the descriptors of connections that are
  gone, the maps keyed by descriptor name connections that own an open one.
-/

namespace MyMuduo

open Lib

variable {Q : Type}

/-- **The invariant of the server.** -/
structure ServerOk (ph : ℕ → Phase) (s : TcpServer Q) : Prop where
  running : s.failed = none
  reg : Registry ph s
  tokens : ∀ l, TokensOk ph s.home l (s.loops l)
  stack : ∀ l, StackOk ph s.home s.isAlive s.numLoops l (s.loops l)

/-- No connection goes back. -/
def Forward (ph ph' : ℕ → Phase) : Prop := ∀ c, (ph c).rank ≤ (ph' c).rank

theorem Forward.update (ph : ℕ → Phase) {c : ℕ} {p' : Phase} (h : (ph c).rank ≤ p'.rank) :
    Forward ph (Function.update ph c p') := by
  intro c'
  by_cases hc : c' = c
  · subst hc
    rw [Function.update_self]
    exact h
  · rw [Function.update_of_ne hc]

variable {ph : ℕ → Phase} {s s' : TcpServer Q} {l : ℕ}

/-! ## The loops go round -/

/-- A loop moves on, with the same epoller and the same calls due. -/
theorem ServerOk.setLoop (h : ServerOk ph s) {L : IoLoop} (hep : L.ep = (s.loops l).ep)
    (htok : ∀ k c, L.work.count (.life k c) = (s.loops l).work.count (.life k c))
    (hstack : StackOk ph s.home s.isAlive s.numLoops l L) : ServerOk ph (s.setLoop l L) := by
  have hself : (s.setLoop l L).loops l = L := Function.update_self _ _ _
  have hold : ∀ l', l' ≠ l → (s.setLoop l L).loops l' = s.loops l' := fun l' hl' =>
    Function.update_of_ne hl' _ _
  refine ⟨h.running, h.reg.congr rfl rfl rfl rfl fun l' => ?_, fun l' => ?_, fun l' => ?_⟩
  · by_cases hl : l' = l
    · subst hl
      rw [hself, hep]
    · rw [hold l' hl]
  · by_cases hl : l' = l
    · subst hl
      intro k c
      rw [hself, htok]
      exact h.tokens l' k c
    · rw [hold l' hl]
      exact h.tokens l'
  · by_cases hl : l' = l
    · subst hl
      rw [hself]
      exact hstack
    · rw [hold l' hl]
      exact h.stack l'

/-- The channels that `epoll_wait` returns. -/
theorem Registry.polled (h : Registry ph s) {ready : List (ℕ × Events)}
    (hready : (ready.map Prod.fst).Nodup) :
    (∀ x ∈ TcpServer.polled (s.loops l).ep ready, ph x.1 = .live ∧ s.home x.1 = l) ∧
      ((TcpServer.polled (s.loops l).ep ready).map Prod.fst).Nodup := by
  constructor
  · intro x hx
    simp only [TcpServer.polled, List.mem_filterMap, Option.map_eq_some_iff] at hx
    obtain ⟨y, -, z, hz, rfl⟩ := hx
    obtain ⟨h1, h2, -⟩ := h.interest l _ z hz
    exact ⟨h1, h2⟩
  · -- two entries for one connection would be for one descriptor
    rw [TcpServer.polled, List.map_filterMap]
    have hfst : ready.Pairwise fun a b => a.1 ≠ b.1 := List.pairwise_map.1 hready
    refine hfst.filterMap _ fun a b hab c hc c' hc' hcc => hab ?_
    simp only [Option.map_map, Option.map_eq_some_iff] at hc hc'
    obtain ⟨y, hy, rfl⟩ := hc
    obtain ⟨y', hy', rfl⟩ := hc'
    have hf := (h.interest l _ y hy).2.2
    have hf' := (h.interest l _ y' hy').2.2
    rw [← hf, ← hf', show y.2 = y'.2 from hcc]

/-- What a channel is dispatched to: its read callback and its write callback. -/
theorem dispatched_cases {c : ℕ} {revents : Events} {t : Task}
    (ht : t ∈ if s.owned c then TcpServer.callbacks c revents else []) :
    t = .handleRead c ∨ t = .handleWrite c := by
  split at ht
  · unfold TcpServer.callbacks at ht
    rcases List.mem_append.1 ht with ht | ht
    · split at ht
      · exact Or.inl (List.mem_singleton.1 ht)
      · cases ht
    · split at ht
      · exact Or.inr (List.mem_singleton.1 ht)
      · cases ht
  · cases ht

/-- A channel is dispatched to. -/
theorem handleEvent_ok (h : ServerOk ph s) (hl : l < s.numLoops) (hpc : (s.loops l).pc = .dispatch)
    (hcur : (s.loops l).current = []) (hstep : s.handleEvent l = some s') : ServerOk ph s' := by
  unfold TcpServer.handleEvent at hstep
  cases hact : (s.loops l).active with
  | nil =>
    rw [hact] at hstep
    cases hstep
  | cons x active =>
    obtain ⟨c, revents⟩ := x
    -- the channel is that of a live connection, so the object is there
    have hst := h.stack l
    obtain ⟨hlive, hhome⟩ := hst.active (c, revents) (by rw [hact]; exact List.mem_cons_self)
    have halive : s.isAlive c := h.reg.alive_of_inMap (by rw [hlive]; rfl)
    have hdis := hst.distinct
    rw [hact, List.map_cons, List.nodup_cons] at hdis
    rw [hact] at hstep
    dsimp only at hstep
    rw [if_pos (show (s.conns c).life = .alive from halive)] at hstep
    cases hstep
    set tasks := if s.owned c then TcpServer.callbacks c revents else []
    have htasks : ∀ t ∈ tasks, t = .handleRead c ∨ t = .handleWrite c := fun t ht => dispatched_cases ht
    -- the read callback comes before the write callback
    have hfirst : ∀ c', .handleRead c' ∉ tasks.tail := by
      intro c' hc'
      simp only [tasks, TcpServer.callbacks] at hc'
      split_ifs at hc' <;> simp at hc'
    refine h.setLoop rfl ?_ (hst.dispatch hpc hcur hl ?_ ?_ ?_ hfirst)
    · intro k c'
      have h0 : tasks.count (.life k c') = 0 := by
        refine List.count_eq_zero.2 fun hm => ?_
        rcases htasks _ hm with h | h <;> cases h
      simp only [IoLoop.work, List.count_append, h0, hcur, List.count_nil]
    · rw [hact]
      exact List.sublist_cons_self _ _
    · intro t ht
      rcases htasks t ht with rfl | rfl
      · exact ⟨fun c' hc' => Option.some.inj hc' ▸ halive, fun _ _ => by simp, fun _ => by simp⟩
      · exact ⟨fun c' hc' => Option.some.inj hc' ▸ halive, fun _ _ => by simp, fun _ => by simp⟩
    · intro c' hc'
      rcases htasks _ hc' with h' | h'
      · cases h'
        exact ⟨hlive, hhome, hdis.1⟩
      · cases h'

/-- A callback of the user's code returns. -/
theorem return_ok (h : ServerOk ph s) {c : Option ℕ} {stack : List Task}
    (hcur : (s.loops l).current = .user c :: stack) : ServerOk ph (s.setCurrent l stack) := by
  refine h.setLoop rfl (fun k c' => ?_) ((h.stack l).exec [] hcur fun t' ht' => by cases ht')
  simp [IoLoop.work, hcur]

/-- Code of the user begins, run by a timer. -/
theorem timer_ok (h : ServerOk ph s) (hl : l < s.numLoops) (hpc : (s.loops l).pc = .dispatch)
    (hcur : (s.loops l).current = []) : ServerOk ph (s.setCurrent l [.user none]) := by
  refine h.setLoop rfl (fun k c' => ?_) ((h.stack l).dispatch hpc hcur hl (List.Sublist.refl _) ?_ ?_ ?_)
  · simp [IoLoop.work, hcur]
  · intro t ht
    rw [List.mem_singleton.1 ht]
    exact ⟨fun c hc => (by cases hc), fun _ _ => by simp, fun _ => by simp⟩
  · intro c hc
    simp at hc
  · intro c hc
    cases hc

/-! ## Calls about a connection -/

theorem count_queuedAt (q : Option (ℕ × Task)) (l : ℕ) (t : Task) :
    (queuedAt q l).count t = if q = some (l, t) then 1 else 0 := by
  rcases q with _ | ⟨l', t'⟩
  · rfl
  · unfold queuedAt
    dsimp only
    by_cases hl : l = l'
    · subst hl
      rw [if_pos rfl, List.count_singleton]
      simp
    · rw [if_neg hl, if_neg (fun h => hl (by cases h; rfl)), List.count_nil]

section

variable {c : ℕ} {e : Effect Q} {t : Task} {stack : List Task}

theorem setCurrent_ep (s : TcpServer Q) (l : ℕ) (tasks : List Task) (l' : ℕ) :
    ((s.setCurrent l tasks).loops l').ep = (s.loops l').ep := by
  by_cases hl : l' = l
  · subst hl
    dsimp only [TcpServer.setCurrent, TcpServer.setLoop]
    rw [Function.update_self]
  · dsimp only [TcpServer.setCurrent, TcpServer.setLoop]
    rw [Function.update_of_ne hl]

/-- The innermost call is gone, what it ends in and what it queued is there. -/
theorem exec_count (hcur : (s.loops l).current = t :: stack) (l' : ℕ) (x : Task) :
    (((s.setCurrent l (e.calls ++ stack)).apply c e).loops l').work.count x +
        (if l' = l ∧ t = x then 1 else 0) =
      (s.loops l').work.count x + (if l' = l then e.calls.count x else 0) +
        (if e.queued = some (l', x) then 1 else 0) := by
  rw [apply_loops, ← count_queuedAt]
  by_cases hl : l' = l
  · subst hl
    simp only [TcpServer.setCurrent, TcpServer.setLoop, Function.update_self, IoLoop.work, hcur,
      List.count_append, List.count_cons, beq_iff_eq, true_and, if_true]
    omega
  · simp only [TcpServer.setCurrent, TcpServer.setLoop, Function.update_of_ne hl, IoLoop.work,
      List.count_append, hl, false_and, if_false]
    omega

/-- **The token is passed on, and no other is touched.** -/
theorem exec_tokens (h : ServerOk ph s) (hcur : (s.loops l).current = t :: stack)
    (hsub : t.subject = some c) {p' : Phase} (hpass : PassesOn t l (s.home c) c (ph c) p' e) (l' : ℕ) :
    TokensOk (Function.update ph c p') s.home l'
      (((s.setCurrent l (e.calls ++ stack)).apply c e).loops l') := by
  intro k c'
  have hcount := exec_count (c := c) (e := e) hcur l' (.life k c')
  rw [h.tokens l' k c'] at hcount
  unfold owed at hcount ⊢
  by_cases hc : c' = c
  · subst hc
    rw [Function.update_self]
    have hcons := hpass.consumes l' k
    have hprod := hpass.produces l' k
    by_cases hp : ph c' = p'
    · -- a call that leaves the phase alone makes and takes no token
      rw [if_neg fun hh => (hcons.1 hh).1 hp] at hcount
      simp only [ne_eq, hp, not_true_eq_false, false_and, if_false] at hprod
      rw [← hp]
      omega
    -- the token of the old phase is taken, that of the new one is left
    · simp only [ne_eq, hp, not_false_eq_true, true_and] at hcons hprod
      rw [if_congr hcons rfl rfl] at hcount
      omega
  · -- the tokens of other connections
    rw [Function.update_of_ne hc]
    have ht : ¬(l' = l ∧ t = .life k c') := by
      rintro ⟨-, rfl⟩
      exact hc (Option.some.inj hsub)
    have hcalls : e.calls.count (.life k c') = 0 := by
      refine List.count_eq_zero.2 fun hm => ?_
      rcases hpass.calls _ hm with h' | ⟨k', -, h'⟩
      · cases h'
      · cases h'
        exact hc rfl
    have hq : e.queued ≠ some (l', .life k c') := by
      intro hq
      obtain ⟨k', hk'⟩ := hpass.queued _ hq
      cases hk'
      exact hc rfl
    rw [if_neg ht, hcalls, if_neg hq, ite_self] at hcount
    omega

/-- **The stacks after a call.** -/
theorem exec_stack (h : ServerOk ph s) (hcur : (s.loops l).current = t :: stack)
    (hfit : t.Fits (ph c) l (s.home c)) (hc : s.isAlive c) {p' : Phase}
    (hpass : PassesOn t l (s.home c) c (ph c) p' e) (l' : ℕ) :
    StackOk (Function.update ph c p') s.home s.isAlive s.numLoops l'
      (((s.setCurrent l (e.calls ++ stack)).apply c e).loops l') := by
  have hhome := h.reg.home c (h.reg.born hc)
  have hcalls : ∀ t' ∈ e.calls, Pushable s.isAlive t' := by
    intro t' ht'
    rcases hpass.calls t' ht' with rfl | ⟨k, hk, rfl⟩
    · exact ⟨fun c' hc' => Option.some.inj hc' ▸ hc, fun _ => by simp, fun _ _ => by simp,
        fun _ => by simp⟩
    · refine ⟨fun c' hc' => Option.some.inj hc' ▸ hc, fun _ => by simp, fun _ _ => by simp,
        fun c' hc' => ?_⟩
      cases hc'
      exact hk rfl
  have hst := h.stack l
  have hexec := hst.exec e.calls hcur hcalls
  -- first the stack of the loop, then the phase, then the functor queued
  have hrephase : StackOk (Function.update ph c p') s.home s.isAlive s.numLoops l'
      ((s.setCurrent l (e.calls ++ stack)).loops l') := by
    by_cases hl : l' = l
    · subst hl
      dsimp only [TcpServer.setCurrent, TcpServer.setLoop]
      rw [Function.update_self]
      refine hexec.rephase ?_ ?_
      · -- a raw `this` that is left was not behind the destructor
        intro d hd
        have hmay := (hexec.raw c d hd).2
        by_contra hno
        have hend := hpass.ends hmay (by simpa using hno)
        rw [hend] at hcur
        refine hst.not_behind hcur d ?_
        simp only [IoLoop.work, List.append_assoc, List.mem_append] at hd ⊢
        exact hd.resolve_left fun hd => (hcalls _ hd).2.2.1 c d rfl
      · intro hact
        by_contra hlive
        rcases hact with hact | hact
        · obtain ⟨x, hx, rfl⟩ := List.mem_map.1 hact
          exact hst.not_active hcur (hpass.closes (hst.active x hx).1 hlive).2 hact
        · exact hst.no_read_left hcur hcalls c hact
    · dsimp only [TcpServer.setCurrent, TcpServer.setLoop]
      rw [Function.update_of_ne hl]
      refine (h.stack l').rephase ?_ ?_
      · intro d hd
        obtain ⟨h1, h2⟩ := (h.stack l').raw c d hd
        by_contra hno
        have hend := hpass.ends h2 (by simpa using hno)
        rw [hend] at hfit
        exact hl (h1.symm.trans hfit.2.symm)
      · intro hact
        by_contra hlive
        have hat : ph c = .live ∧ s.home c = l' := by
          rcases hact with hact | hact
          · obtain ⟨x, hx, rfl⟩ := List.mem_map.1 hact
            exact (h.stack l').active x hx
          · obtain ⟨h1, h2, -⟩ := (h.stack l').reading c hact
            exact ⟨h1, h2⟩
        obtain ⟨h1, h2⟩ := hat
        exact hl (h2.symm.trans (hpass.closes h1 hlive).1.symm)
  rw [apply_loops]
  refine hrephase.apply _ fun t' ht' => ?_
  -- what is queued is a step of the life, for a loop that exists
  obtain ⟨k, hk⟩ := hpass.queued _ ht'
  obtain ⟨rfl, rfl⟩ := Prod.mk.inj hk
  refine ⟨⟨fun _ => by simp, fun c' hc' => Option.some.inj hc' ▸ hc, fun _ _ => by simp, ?_⟩,
    fun _ _ => by simp⟩
  cases k with
  | handleRemoveConnectionInLoop =>
    show 0 < s.numLoops
    omega
  | _ => exact hhome

/-- A call that is to be made is due, in its place. -/
theorem ServerOk.due_of_work (h : ServerOk ph s) {k : LifeStep} (hm : .life k c ∈ (s.loops l).work) :
    (ph c).due = some k ∧ l = k.place (s.home c) := by
  have hcount := h.tokens l k c
  have hpos : 0 < (s.loops l).work.count (.life k c) := List.count_pos_iff.2 hm
  by_contra hno
  rw [owed, if_neg hno] at hcount
  omega

/-- A call that is due is to be made. -/
theorem ServerOk.work_of_due (h : ServerOk ph s) {k : LifeStep} (hk : (ph c).due = some k) :
    .life k c ∈ (s.loops (k.place (s.home c))).work := by
  have hcount := h.tokens (k.place (s.home c)) k c
  rw [owed, if_pos ⟨hk, rfl⟩] at hcount
  exact List.count_pos_iff.1 (by omega)

/-- A call that is about to be made fits the phase of its connection. -/
theorem ServerOk.fits (h : ServerOk ph s) (hcur : (s.loops l).current = t :: stack)
    (hsub : t.subject = some c) : s.isAlive c ∧ t.Fits (ph c) l (s.home c) := by
  have hst := h.stack l
  have hmem : t ∈ (s.loops l).current := by
    rw [hcur]
    exact List.mem_cons_self
  have hwork : t ∈ (s.loops l).work := by simp [IoLoop.work, hmem]
  have hown : t.owner = some c → s.isAlive c := hst.owners t (hst.mem_held hwork) c
  cases t with
  | life k c' =>
    cases hsub
    exact ⟨hown rfl, h.due_of_work hwork⟩
  | deferred c' d =>
    cases hsub
    obtain ⟨h1, h2⟩ := hst.raw c d hwork
    refine ⟨h.reg.alive c ?_ ?_, h2, h1.symm⟩
    · intro h0
      rw [h0] at h2
      cases h2
    · intro h0
      rw [h0] at h2
      cases h2
  | handleRead c' =>
    cases hsub
    obtain ⟨h1, h2, -⟩ := hst.reading c hmem
    exact ⟨hown rfl, h1, h2.symm⟩
  | handleWrite c' =>
    cases hsub
    exact ⟨hown rfl, h.reg.born (hown rfl)⟩
  | user c' => cases hsub

variable [ByteQueue Q]

/-- **The innermost call returns**, and what it leaves behind is in order. -/
theorem exec_ok (h : ServerOk ph s) (hcur : (s.loops l).current = t :: stack)
    (hsub : t.subject = some c) (read : Except ℕ Bytes) (write : Except ℕ ℕ) :
    ∃ e ph', runTask (s.loops (s.home c)).ep l (s.conns c).conn read write t = .ok e ∧
      ServerOk ph' ((s.setCurrent l (e.calls ++ stack)).apply c e) ∧ Forward ph ph' := by
  obtain ⟨hc, hfit⟩ := h.fits hcur hsub
  have hloop : (s.conns c).conn.m_loop = s.home c := rfl
  obtain ⟨e, p', hrun, hlead, hpass⟩ := runTask_leads (h.reg.at_ hc) hloop hsub hfit read write
  have hp' : p' ≠ .unborn := by
    rintro rfl
    refine h.reg.born hc ?_
    have := hpass.rank
    cases hp : ph c with
    | unborn => rfl
    | _ => rw [hp] at this; simp [Phase.rank] at this
  -- the stack of the loop does not concern the maps
  set s₁ := s.setCurrent l (e.calls ++ stack)
  have hreg₁ : Registry ph s₁ := h.reg.congr rfl rfl rfl rfl (setCurrent_ep s l _)
  have hlead₁ : Leads p' (s₁.loops (s₁.home c)).ep (s₁.conns c).conn e.ep e.conn := by
    rw [show (s₁.loops (s₁.home c)).ep = (s.loops (s.home c)).ep from setCurrent_ep s l _ _]
    exact hlead
  obtain ⟨-, hhome, halive⟩ := apply_ids (s := s₁) hlead.same
  obtain ⟨hnum, -, hfail, -, -, -⟩ := apply_rest s₁ c e
  refine ⟨e, Function.update ph c p', hrun, ⟨?_, ?_, ?_, ?_⟩, Forward.update ph hpass.rank⟩
  · rw [hfail]
    exact h.running
  · exact hreg₁.apply hc hlead₁ hp' hpass.rank hpass.erased
  · intro l'
    rw [hhome]
    exact exec_tokens h hcur hsub hpass l'
  · intro l'
    rw [hhome, halive, hnum]
    exact exec_stack h hcur hfit hc hpass l'

/-- **A call of the user's code returns.** It changes no phase. -/
theorem call_ok (h : ServerOk ph s) (call : UserCall) (hc : s.isAlive call.target) (inLoopThread : Bool)
    (write : Except ℕ ℕ) :
    ∃ e, runCall (s.loops (s.home call.target)).ep (s.conns call.target).conn inLoopThread write call =
        .ok e ∧ ServerOk ph (s.apply call.target e) := by
  obtain ⟨e, hrun, hlead, -, herased, hqueued⟩ :=
    runCall_leads (h.reg.at_ hc) inLoopThread write call
  set c := call.target
  obtain ⟨-, hhome, halive⟩ := apply_ids hlead.same
  obtain ⟨hnum, -, hfail, -, -, -⟩ := apply_rest s c e
  refine ⟨e, hrun, ?_, ?_, ?_, ?_⟩
  · rw [hfail]
    exact h.running
  · have hreg := h.reg.apply hc hlead (h.reg.born hc) le_rfl (by rw [herased]; cases (ph c).inMap <;> rfl)
    rwa [Function.update_eq_self] at hreg
  · intro l' k c'
    have h0 : (queuedAt e.queued l').count (.life k c') = 0 := by
      rw [count_queuedAt, if_neg]
      intro hq
      obtain ⟨-, d, hd⟩ := hqueued _ hq
      cases hd
    rw [hhome, ← h.tokens l' k c', apply_loops]
    simp only [IoLoop.work, List.count_append, h0, Nat.add_zero]
  · intro l'
    rw [hhome, halive, hnum, apply_loops]
    refine (h.stack l').apply _ fun t' ht' => ?_
    obtain ⟨hlive, d, hd⟩ := hqueued _ ht'
    obtain ⟨rfl, rfl⟩ := Prod.mk.inj hd
    refine ⟨⟨fun _ => by simp, fun c' hc' => (by cases hc'), ?_, h.reg.home c (h.reg.born hc)⟩, ?_⟩
    · intro c' d' hd'
      cases hd'
      exact ⟨rfl, hlive⟩
    · intro c' d' hd'
      cases hd'
      exact (h.tokens _).no_destructor hlive

end

/-! ## A connection is made -/

/-- The call that establishes the connection is under way, or it is queued. -/
theorem handleNewConnection_loops (s : TcpServer Q) (fd home : ℕ) (buffer : Q) :
    (s.handleNewConnection fd home buffer).loops =
      if home = 0 then (s.setCurrent 0 [.life .connectionEstablished s.next]).loops
      else (s.queueInLoop home (.life .connectionEstablished s.next)).loops := by
  unfold TcpServer.handleNewConnection
  dsimp only
  split
  · rfl
  · rfl

/-- The calls due after `handleNewConnection`. -/
theorem handleNewConnection_count (hcur : (s.loops 0).current = []) (fd home : ℕ) (buffer : Q) (l : ℕ)
    (x : Task) :
    ((s.handleNewConnection fd home buffer).loops l).work.count x =
      (s.loops l).work.count x +
        if l = home ∧ x = .life .connectionEstablished s.next then 1 else 0 := by
  rw [handleNewConnection_loops]
  by_cases h0 : home = 0
  · subst h0
    rw [if_pos rfl]
    dsimp only [TcpServer.setCurrent, TcpServer.setLoop]
    by_cases hl : l = 0
    · subst hl
      rw [Function.update_self]
      simp only [IoLoop.work, hcur, List.count_append, List.count_singleton, List.count_nil, beq_iff_eq,
        true_and, eq_comm (a := x)]
      omega
    · rw [Function.update_of_ne hl, if_neg fun h => hl h.1]
      rfl
  · rw [if_neg h0]
    dsimp only [TcpServer.queueInLoop, TcpServer.setLoop]
    by_cases hl : l = home
    · subst hl
      rw [Function.update_self]
      simp only [IoLoop.work, List.count_append, List.count_singleton, beq_iff_eq, true_and,
        eq_comm (a := x)]
      omega
    · rw [Function.update_of_ne hl, if_neg fun h => hl h.1]
      rfl

/-- The stacks after `handleNewConnection`. -/
theorem handleNewConnection_stack {home : ℕ} {home' : ℕ → ℕ} {alive : ℕ → Prop}
    (h : StackOk ph home' alive s.numLoops l (s.loops l)) (hhome : home < s.numLoops)
    (hpc : (s.loops 0).pc = .dispatch) (hcur : (s.loops 0).current = []) (hnew : alive s.next) (fd : ℕ)
    (buffer : Q) :
    StackOk ph home' alive s.numLoops l ((s.handleNewConnection fd home buffer).loops l) := by
  have howner : ∀ c, (Task.life .connectionEstablished s.next).owner = some c → alive c :=
    fun c hc => Option.some.inj hc ▸ hnew
  rw [handleNewConnection_loops]
  by_cases h0 : home = 0
  · -- the base loop is the home: the call is made at once
    rw [if_pos h0]
    dsimp only [TcpServer.setCurrent, TcpServer.setLoop]
    by_cases hl : l = 0
    · subst hl
      rw [Function.update_self]
      refine h.dispatch hpc hcur (by omega) (List.Sublist.refl _) ?_ ?_ ?_
      · intro t ht
        rw [List.mem_singleton.1 ht]
        exact ⟨howner, fun _ _ => by simp, fun _ => by simp⟩
      · intro c hc
        simp at hc
      · intro c hc
        cases hc
    · rw [Function.update_of_ne hl]
      exact h
  · rw [if_neg h0]
    dsimp only [TcpServer.queueInLoop, TcpServer.setLoop]
    by_cases hl : l = home
    · subst hl
      rw [Function.update_self]
      exact h.queue ⟨fun _ => by simp, howner, fun _ _ => by simp, hhome⟩ fun _ _ => by simp
    · rw [Function.update_of_ne hl]
      exact h

/-- **A connection is accepted.** -/
theorem accept_ok (h : ServerOk ph s) {fd home : ℕ} (hhome : home < s.numLoops)
    (hpc : (s.loops 0).pc = .dispatch) (hcur : (s.loops 0).current = []) (hfd : s.isOpen fd = false)
    (buffer : Q) :
    ServerOk (Function.update ph s.next .connecting) (s.handleNewConnection fd home buffer) ∧
      Forward ph (Function.update ph s.next .connecting) := by
  obtain ⟨hconns, -, hnum, hfail, -, -⟩ := handleNewConnection_rest s fd home buffer
  have hcount := handleNewConnection_count hcur fd home buffer
  set ph' := Function.update ph s.next .connecting
  have h0 : ph s.next = .unborn := h.reg.next s.next le_rfl
  have hph : ∀ c, ph c ≠ .unborn → c ≠ s.next := by
    rintro c hc rfl
    exact hc h0
  have hphase : ∀ c, ph c ≠ .unborn → ph' c = ph c := fun c hc =>
    Function.update_of_ne (hph c hc) _ _
  have hself : (s.handleNewConnection fd home buffer).home s.next = home := by
    rw [TcpServer.home, hconns, Function.update_self]
    rfl
  have hother : ∀ c, c ≠ s.next → (s.handleNewConnection fd home buffer).home c = s.home c := by
    intro c hc
    rw [TcpServer.home, hconns, Function.update_of_ne hc]
    rfl
  have halive : ∀ c, s.isAlive c → (s.handleNewConnection fd home buffer).isAlive c := by
    intro c hc
    rw [TcpServer.isAlive, hconns, Function.update_of_ne (hph c (h.reg.born hc))]
    exact hc
  have hnew : (s.handleNewConnection fd home buffer).isAlive s.next := by
    rw [TcpServer.isAlive, hconns, Function.update_self]
  -- nobody mentions the connection yet
  have hstack : ∀ l, StackOk ph' (s.handleNewConnection fd home buffer).home
      (s.handleNewConnection fd home buffer).isAlive s.numLoops l (s.loops l) := fun l =>
    (h.stack l).congr hphase (fun c hc => hother c (hph c hc)) fun _ _ c _ hc => halive c hc
  refine ⟨⟨?_, h.reg.accept hhome hfd buffer, ?_, ?_⟩, Forward.update ph (by rw [h0]; decide)⟩
  · rw [hfail]
    exact h.running
  · intro l k c
    rw [hcount, h.tokens l k c]
    unfold owed
    by_cases hc : c = s.next
    · subst hc
      rw [h0, hself, show ph' s.next = .connecting from Function.update_self _ _ _]
      cases k <;> simp [Phase.due, LifeStep.place]
    · have hx : ¬(l = home ∧ Task.life k c = .life .connectionEstablished s.next) := by
        rintro ⟨-, hx⟩
        cases hx
        exact hc rfl
      rw [hother c hc, show ph' c = ph c from Function.update_of_ne hc _ _, if_neg hx, Nat.add_zero]
  · intro l
    rw [hnum]
    exact handleNewConnection_stack (hstack l) hhome hpc hcur hnew fd buffer

/-! ## A connection is destroyed -/

/-- A call that is due keeps its connection owned. -/
theorem ServerOk.owned_of_due (h : ServerOk ph s) {c : ℕ} {k : LifeStep} (hk : (ph c).due = some k)
    (hplace : k.place (s.home c) < s.numLoops) : s.owned c = true := by
  have hheld := (h.stack _).mem_held (h.work_of_due hk)
  unfold TcpServer.owned
  simp only [Bool.or_eq_true, List.any_eq_true, List.mem_range, decide_eq_true_eq]
  exact Or.inr ⟨_, hplace, _, hheld, rfl⟩

/-- **Only a connection that is gone loses its last owner.** -/
theorem ServerOk.gone_of_not_owned (h : ServerOk ph s) {c : ℕ} (hc : s.isAlive c)
    (hown : s.owned c = false) : ph c = .gone := by
  have hborn := h.reg.born hc
  have hhome := h.reg.home c hborn
  have hmap : (ph c).inMap = false := by
    by_contra hin
    have hm := (h.reg.map (s.fd c) c).2 ⟨by simpa using hin, rfl⟩
    rw [TcpServer.owned, hm] at hown
    simp at hown
  have hdue : ∀ k, (ph c).due = some k → ¬k.place (s.home c) < s.numLoops := by
    intro k hk hplace
    rw [h.owned_of_due hk hplace] at hown
    cases hown
  -- in the map it is owned by the map, later by the call that is due
  cases hp : ph c with
  | unborn => exact absurd hp hborn
  | connecting | live | closing | removing => rw [hp] at hmap; cases hmap
  | destructing => exact absurd hhome (hdue .connectionDestructor (by rw [hp]; rfl))
  | deregistering => exact absurd hhome (hdue .remove (by rw [hp]; rfl))
  | gone => rfl

/-- A task that is held makes its connection owned. -/
theorem ServerOk.owned_of_held (h : ServerOk ph s) {t : Task} (ht : t ∈ (s.loops l).held) {c : ℕ}
    (hc : t.owner = some c) : s.owned c = true := by
  have hl : l < s.numLoops := by
    by_contra hl
    rw [(h.stack l).bound (by omega)] at ht
    cases ht
  unfold TcpServer.owned
  simp only [Bool.or_eq_true, List.any_eq_true, List.mem_range, decide_eq_true_eq]
  exact Or.inr ⟨l, hl, t, ht, hc⟩

/-- The end of an object: neither its descriptor nor its channel is used by anyone. -/
theorem ServerOk.bury (h : ServerOk ph s) {c : ℕ} (hc : ph c = .gone) {life : ObjectLife}
    (hlife : life = .closed ∨ life = .destroyed) (hown : s.isAlive c → s.owned c = false)
    (ep : ℕ → Epoller) (hch : ∀ l, (ep l).m_channels = (s.loops l).ep.m_channels)
    (hi : ∀ l fd x, (ep l).interest fd = some x → (s.loops l).ep.interest fd = some x) :
    ServerOk ph { s with
      conns := Function.update s.conns c ⟨(s.conns c).conn, life⟩
      loops := fun l => { s.loops l with ep := ep l } } := by
  set s' : TcpServer Q := { s with
    conns := Function.update s.conns c ⟨(s.conns c).conn, life⟩
    loops := fun l => { s.loops l with ep := ep l } }
  have hhome : s'.home = s.home :=
    (replace_ids (o := ⟨(s.conns c).conn, life⟩) rfl (SameId.refl _)).2
  refine ⟨h.running, h.reg.bury hc hlife rfl rfl rfl rfl hch hi, ?_, ?_⟩
  · intro l
    rw [hhome]
    exact h.tokens l
  · intro l
    rw [hhome]
    have hst : StackOk ph s.home s'.isAlive s.numLoops l (s.loops l) := by
      refine (h.stack l).congr (fun _ _ => rfl) (fun _ _ => rfl) fun t ht c' ho ha => ?_
      -- who holds a task of the connection owns it
      have hcc : c' ≠ c := by
        rintro rfl
        have := h.owned_of_held ht ho
        rw [hown ha] at this
        cases this
      simp only [TcpServer.isAlive, s', Function.update_of_ne hcc]
      exact ha
    exact hst.setEp (ep l)

/-- `~TcpConnection()` closes the descriptor, and the kernel forgets it. -/
theorem close_ok (h : ServerOk ph s) {c : ℕ} (hc : s.isAlive c) (hown : s.owned c = false) :
    ServerOk ph
      ({ s with conns := Function.update s.conns c ⟨(s.conns c).conn, .closed⟩ }.closeFd (s.fd c)) := by
  have hgone := h.gone_of_not_owned hc hown
  refine h.bury hgone (Or.inl rfl) (fun _ => hown)
    (fun l => { (s.loops l).ep with
      interest := Function.update (s.loops l).ep.interest (s.fd c) none }) (fun _ => rfl) ?_
  intro l fd x hx
  dsimp only at hx
  by_cases hf : fd = s.fd c
  · rw [hf, Function.update_self] at hx
    cases hx
  · rwa [Function.update_of_ne hf] at hx

/-- A connection that is closed and not destroyed is gone. -/
theorem ServerOk.gone_of_closed (h : ServerOk ph s) {c : ℕ} (hc : (s.conns c).life = .closed) :
    ph c = .gone := by
  have hdead : ¬s.isAlive c := by
    intro ha
    rw [TcpServer.isAlive, hc] at ha
    cases ha
  by_contra hno
  refine hdead (h.reg.alive c (fun h0 => ?_) hno)
  have := (h.reg.unborn c).2 h0
  rw [hc] at this
  cases this

/-- `~Channel()` finds its channel out of the epoller. -/
theorem ServerOk.destroyChannel (h : ServerOk ph s) {c : ℕ} (hc : (s.conns c).life = .closed) :
    s.destroyChannel c =
      { s with conns := Function.update s.conns c ⟨(s.conns c).conn, .destroyed⟩ } := by
  have hgone := h.gone_of_closed hc
  have hhas : (s.loops (s.home c)).ep.hasChannel (s.conns c).conn.self (s.conns c).conn.m_channel = false := by
    rw [h.reg.self c]
    unfold Epoller.hasChannel
    simp only [decide_eq_false_iff_not]
    intro hm
    have := ((h.reg.channels _ _ c).1 hm).1
    rw [hgone] at this
    cases this
  unfold TcpServer.destroyChannel
  dsimp only
  rw [hhas]
  simp only [Bool.false_eq_true, if_false]

theorem destroy_ok (h : ServerOk ph s) {c : ℕ} (hc : (s.conns c).life = .closed) :
    ServerOk ph (s.destroyChannel c) := by
  have hdead : ¬s.isAlive c := by
    intro ha
    rw [TcpServer.isAlive, hc] at ha
    cases ha
  rw [h.destroyChannel hc]
  exact h.bury (h.gone_of_closed hc) (Or.inr rfl) (fun ha => absurd ha hdead) (fun l => (s.loops l).ep)
    (fun _ => rfl) fun _ _ _ hx => hx

/-! ## Runs -/

variable [ByteQueue Q]

/-- **One step.** Whatever happens, the server goes on in order. -/
theorem step_ok (buffer : Q) (h : ServerOk ph s) {a : ServerStep} (hstep : s.step buffer a = some s') :
    ∃ ph', ServerOk ph' s' ∧ Forward ph ph' := by
  have hstay : Forward ph ph := fun _ => le_rfl
  have hrun : ¬s.failed ≠ none := fun hf => hf h.running
  unfold TcpServer.step at hstep
  rw [if_neg hrun] at hstep
  cases a with
  | poll l ready =>
    dsimp only at hstep
    split at hstep
    · next hg =>
      obtain ⟨-, hpc, hready⟩ := hg
      cases hstep
      obtain ⟨hact, hdis⟩ := h.reg.polled hready
      exact ⟨ph, h.setLoop rfl (fun _ _ => rfl) ((h.stack l).poll hpc hact hdis), hstay⟩
    · cases hstep
  | handleEvent l =>
    dsimp only at hstep
    split at hstep
    · next hg => exact ⟨ph, handleEvent_ok h hg.1 hg.2.1 hg.2.2 hstep, hstay⟩
    · cases hstep
  | exec l read write =>
    dsimp only at hstep
    cases hcur : (s.loops l).current with
    | nil =>
      rw [hcur] at hstep
      cases hstep
    | cons t stack =>
      rw [hcur] at hstep
      dsimp only at hstep
      cases hsub : t.subject with
      | none =>
        rw [hsub] at hstep
        cases hstep
      | some c =>
        -- the object is there, and the call returns
        obtain ⟨e, ph', hok, hserver, hforward⟩ := exec_ok h hcur hsub read write
        have hc : (s.conns c).life = .alive := (h.fits hcur hsub).1
        rw [hsub] at hstep
        dsimp only at hstep
        rw [if_pos hc, hok] at hstep
        cases hstep
        exact ⟨ph', hserver, hforward⟩
  | return_ l =>
    dsimp only at hstep
    split at hstep
    · next hcur =>
      cases hstep
      exact ⟨ph, return_ok h hcur, hstay⟩
    · cases hstep
  | swap l =>
    dsimp only at hstep
    split at hstep
    · next hg =>
      cases hstep
      obtain ⟨hwork, hst⟩ := (h.stack l).swap hg.1 hg.2.1
      exact ⟨ph, h.setLoop rfl (fun k c => by rw [hwork]) hst, hstay⟩
    · cases hstep
  | nextFunctor l =>
    dsimp only at hstep
    split at hstep
    · next hpc hcur hrest =>
      cases hstep
      obtain ⟨hwork, hst⟩ := (h.stack l).nextFunctor hpc hcur hrest
      exact ⟨ph, h.setLoop rfl (fun k c => by rw [hwork]) hst, hstay⟩
    · cases hstep
  | endPass l =>
    dsimp only at hstep
    split at hstep
    · next hg =>
      cases hstep
      exact ⟨ph, h.setLoop rfl (fun _ _ => rfl) ((h.stack l).endPass hg.1 hg.2.1 hg.2.2), hstay⟩
    · cases hstep
  | accept fd home =>
    dsimp only at hstep
    split at hstep
    · next hg =>
      cases hstep
      obtain ⟨hhome, hpc, hcur, hfd⟩ := hg
      exact ⟨_, accept_ok h hhome hpc hcur (by simpa using hfd) buffer⟩
    · cases hstep
  | timer l =>
    dsimp only at hstep
    split at hstep
    · next hg =>
      cases hstep
      exact ⟨ph, timer_ok h hg.1 hg.2.1 hg.2.2, hstay⟩
    · cases hstep
  | call thread call write =>
    dsimp only at hstep
    split at hstep
    · next hg =>
      obtain ⟨e, hok, hserver⟩ := call_ok h call hg.2 (thread = some (s.home call.target)) write
      rw [hok] at hstep
      cases hstep
      exact ⟨ph, hserver, hstay⟩
    · cases hstep
  | retain c =>
    dsimp only at hstep
    split at hstep
    · cases hstep
      exact ⟨ph, ⟨h.running, h.reg.congr rfl rfl rfl rfl fun _ => rfl, h.tokens, h.stack⟩, hstay⟩
    · cases hstep
  | release c =>
    dsimp only at hstep
    split at hstep
    · cases hstep
      exact ⟨ph, ⟨h.running, h.reg.congr rfl rfl rfl rfl fun _ => rfl, h.tokens, h.stack⟩, hstay⟩
    · cases hstep
  | close c =>
    dsimp only at hstep
    split at hstep
    · next hg =>
      cases hstep
      exact ⟨ph, close_ok h hg.1 (by simpa using hg.2), hstay⟩
    · cases hstep
  | destroy c =>
    dsimp only at hstep
    split at hstep
    · next hc =>
      cases hstep
      exact ⟨ph, destroy_ok h hc, hstay⟩
    · cases hstep

/-- **A whole run.** -/
theorem run_ok {buffer : Q} (h : ServerOk ph s) {steps : List ServerStep}
    (hrun : run (TcpServer.step buffer) s steps = some s') : ∃ ph', ServerOk ph' s' ∧ Forward ph ph' := by
  refine run_inv (I := fun t => ∃ ph', ServerOk ph' t ∧ Forward ph ph') ?_
    ⟨ph, h, fun _ => le_rfl⟩ hrun
  -- the phases so far are part of the invariant
  rintro t a t' ⟨ph', ht, hforward⟩ hstep
  obtain ⟨ph'', ht', hforward'⟩ := step_ok buffer ht hstep
  exact ⟨ph'', ht', fun c => (hforward c).trans (hforward' c)⟩

omit [ByteQueue Q] in
/-- A server just started has no connection. -/
theorem start_ok (numLoops : ℕ) (buffer : Q) :
    ServerOk (fun _ => .unborn) (TcpServer.start numLoops buffer) := by
  have hnone : ∀ c, ¬(TcpServer.start numLoops buffer).isAlive c := fun c hc => by cases hc
  refine ⟨rfl, ?_, ?_, ?_⟩
  · refine ⟨fun _ => rfl, fun _ => iff_of_true rfl rfl, fun _ _ => rfl, fun _ h0 => absurd rfl h0,
      fun _ h0 => absurd rfl h0, fun _ => rfl, fun _ => trivial, ?_, ?_, ?_, ?_, ?_⟩
    · exact fun c => ⟨[], fun e he => (by cases he), rfl⟩
    · exact fun fd c => iff_of_false (fun h => by cases h) fun h => by cases h.1
    · exact fun l fd c => iff_of_false (fun h => by cases h) fun h => by cases h.1
    · exact fun l fd x h => by cases h
    · exact fun c c' hc => absurd hc (hnone c)
  · intro l k c
    rfl
  · intro l
    refine ⟨?_, List.Pairwise.nil, ?_, ?_, ?_, ⟨rfl, rfl, rfl, rfl⟩, ?_, List.nodup_nil, ?_, ?_, fun _ => rfl⟩
    · exact fun c d hd => by cases hd
    · exact fun t ht => by cases ht
    · exact fun t ht => by cases ht
    · exact fun c hc => by cases hc
    · exact fun x hx => by cases hx
    · exact fun c hc => by cases hc
    · exact fun c hc => by cases hc

/-! ## The life of a connection -/

/-- **The life of every connection**, in every run of a server with any number of loops: no
assertion fails and nothing dangling is used, the close callback and `connectionDestructor` come at
most once and in this order, after `handleClose` the socket is neither read nor written, and
`kDisconnected` is final. -/
theorem connection_life (numLoops : ℕ) (buffer : Q) {steps : List ServerStep} {s : TcpServer Q}
    (hrun : run (TcpServer.step buffer) (TcpServer.start numLoops buffer) steps = some s) :
    s.failed = none ∧ ∀ c,
      (s.conns c).conn.trace.count .closeCallback ≤ 1 ∧
      (s.conns c).conn.trace.count .connectionDestructor ≤ 1 ∧
      (∀ before after, (s.conns c).conn.trace = before ++ .connectionDestructor :: after →
        .closeCallback ∈ before) ∧
      (∀ before after, (s.conns c).conn.trace = before ++ .handleClose :: after →
        .readv ∉ after ∧ .write ∉ after) ∧
      ((s.conns c).conn.m_state = .kDisconnected →
        ∀ steps' s', run (TcpServer.step buffer) s steps' = some s' →
          (s'.conns c).conn.m_state = .kDisconnected) := by
  obtain ⟨ph, h, -⟩ := run_ok (start_ok numLoops buffer) hrun
  refine ⟨h.running, fun c => ?_⟩
  have htrace := h.reg.trace c
  refine ⟨htrace.count_le (by decide), htrace.count_le (by decide), ?_, ?_, ?_⟩
  · exact fun before after heq => htrace.closed_first heq
  · exact fun before after heq => htrace.no_io heq
  · -- the phase only goes on
    intro hst steps' s' hrun'
    obtain ⟨ph', h', hforward⟩ := run_ok h hrun'
    have hrank := (Phase.disconnected_iff (h.reg.state c)).1 hst
    have := hforward c
    exact (Phase.disconnected_iff (h'.reg.state c)).2 (by omega)

/-- A connection of loop 1 answers and shuts down; then the peer closes while a forced close of
another thread is queued. -/
def closingSteps : List ServerStep :=
  [.poll 0 [], .accept 5 1,
    .poll 1 [], .swap 1, .nextFunctor 1, .exec 1 (.ok []) (.ok 0), .return_ 1, .endPass 1,
    .poll 1 [(5, kReadEvent)], .handleEvent 1, .exec 1 (.ok [7]) (.ok 0),
    .call (some 1) (.send 0 [8, 9]) (.ok 1), .call (some 1) (.shutDown 0) (.ok 0), .return_ 1,
    .swap 1, .endPass 1,
    .poll 1 [(5, kReadEvent ||| kWriteEvent)], .call none (.forceClose 0) (.ok 0), .handleEvent 1,
    .exec 1 (.ok []) (.ok 0), .exec 1 (.ok []) (.ok 0), .exec 1 (.ok []) (.ok 1),
    .swap 1, .nextFunctor 1, .exec 1 (.ok []) (.ok 0), .endPass 1,
    .swap 0, .nextFunctor 0, .exec 0 (.ok []) (.ok 0),
    .poll 1 [], .swap 1, .nextFunctor 1, .exec 1 (.ok []) (.ok 0), .return_ 1, .exec 1 (.ok []) (.ok 0),
    .endPass 1]

theorem connection_life_closing :
    ∃ s : TcpServer Buffer,
      run (TcpServer.step (.new 8)) (TcpServer.start 2 (.new 8)) closingSteps = some s ∧
      (s.conns 0).conn.trace =
        [.readv, .write, .readv, .handleClose, .closeCallback, .connectionDestructor] ∧
      s.failed = none ∧ (s.conns 0).conn.trace.count .closeCallback ≤ 1 := by
  have htrace : (run (TcpServer.step (Buffer.new 8)) (TcpServer.start 2 (Buffer.new 8)) closingSteps).map
      (fun s => (s.conns 0).conn.trace) =
        some [.readv, .write, .readv, .handleClose, .closeCallback, .connectionDestructor] := by
    decide +kernel
  obtain ⟨s, hs, ht⟩ := Option.map_eq_some_iff.1 htrace
  obtain ⟨h1, h2⟩ := connection_life 2 (Buffer.new 8) hs
  exact ⟨s, hs, ht, h1, (h2 0).1⟩

/-! ## The maps -/

omit [ByteQueue Q] in
/-- `handleRemoveConnectionInLoop`, when it is about to be called: it is in the base loop, and the
entry for the descriptor is that of its connection. -/
theorem ServerOk.removing (h : ServerOk ph s) {c : ℕ} {stack : List Task}
    (hcur : (s.loops l).current = .life .handleRemoveConnectionInLoop c :: stack) :
    l = 0 ∧ s.isAlive c ∧ s.m_connections (s.fd c) = some c := by
  obtain ⟨hc, hdue, hl⟩ := h.fits hcur rfl
  have hp : ph c = .removing := by
    cases hp : ph c with
    | removing => rfl
    | _ => rw [hp] at hdue; cases hdue
  exact ⟨hl, hc, (h.reg.map _ c).2 ⟨by rw [hp]; rfl, rfl⟩⟩

/-- The call erases the entry for its descriptor, and no other. -/
theorem exec_remove (buffer : Q) {c : ℕ} {stack : List Task}
    (hcur : (s.loops l).current = .life .handleRemoveConnectionInLoop c :: stack) (hc : s.isAlive c)
    {read : Except ℕ Bytes} {write : Except ℕ ℕ} (hstep : s.step buffer (.exec l read write) = some s') :
    s'.m_connections = Function.update s.m_connections (s.fd c) none := by
  unfold TcpServer.step at hstep
  split at hstep
  · cases hstep
  · dsimp only at hstep
    rw [hcur] at hstep
    dsimp only [Task.subject, runTask, runLife] at hstep
    rw [if_pos (show (s.conns c).life = .alive from hc)] at hstep
    cases hstep
    obtain ⟨-, -, -, -, -, hmap⟩ := apply_rest (s.setCurrent l ([] ++ stack)) c
      ⟨(s.conns c).conn, (s.loops (s.home c)).ep, [],
        some ((s.conns c).conn.m_loop, .life .connectionDestructor c), true⟩
    exact hmap

/-- **The maps keyed by descriptor**, in every run of a server with any number of loops and with
descriptors reused as soon as they are closed: an entry of `m_connections` belongs to a connection
alive that is the only one to have its descriptor open; a new connection finds no entry; a connection
is removed in the base loop, from its own entry; and no epoller has a channel of a connection whose
descriptor is closed. -/
theorem connection_registry (numLoops : ℕ) (buffer : Q) {steps : List ServerStep} {s : TcpServer Q}
    (hrun : run (TcpServer.step buffer) (TcpServer.start numLoops buffer) steps = some s) :
    (∀ fd c, s.m_connections fd = some c →
      s.fd c = fd ∧ (s.conns c).life = .alive ∧
        ∀ c', (s.conns c').life = .alive → s.fd c' = fd → c' = c) ∧
    (∀ fd home s', s.step buffer (.accept fd home) = some s' →
      s.m_connections fd = none ∧
        s'.m_connections = Function.update s.m_connections fd (some s.next)) ∧
    (∀ l c stack, (s.loops l).current = .life .handleRemoveConnectionInLoop c :: stack →
      l = 0 ∧ s.m_connections (s.fd c) = some c ∧
        ∀ read write s', s.step buffer (.exec l read write) = some s' →
          s'.m_connections = Function.update s.m_connections (s.fd c) none) ∧
    ∀ l fd c, (s.loops l).ep.m_channels fd = some c → s.fd c = fd ∧ (s.conns c).life = .alive := by
  obtain ⟨ph, h, -⟩ := run_ok (start_ok numLoops buffer) hrun
  refine ⟨?_, ?_, ?_, ?_⟩
  · intro fd c hm
    obtain ⟨hin, hfd⟩ := (h.reg.map fd c).1 hm
    have hc := h.reg.alive_of_inMap hin
    exact ⟨hfd, hc, fun c' hc' hfd' => h.reg.fds c' c hc' hc (hfd'.trans hfd.symm)⟩
  · intro fd home s' hstep
    unfold TcpServer.step at hstep
    rw [if_neg fun hf => hf h.running] at hstep
    dsimp only at hstep
    split at hstep
    · next hg =>
      cases hstep
      obtain ⟨-, -, -, hfd⟩ := hg
      obtain ⟨-, -, -, -, hmap, -⟩ := handleNewConnection_rest s fd home buffer
      exact ⟨h.reg.no_entry (by simpa using hfd), hmap⟩
    · cases hstep
  · intro l c stack hcur
    obtain ⟨hl, hc, hm⟩ := h.removing hcur
    exact ⟨hl, hm, fun read write s' hstep => exec_remove buffer hcur hc hstep⟩
  · intro l fd c hm
    obtain ⟨hin, -, hfd⟩ := (h.reg.channels l fd c).1 hm
    exact ⟨hfd, h.reg.alive_of_inEpoll hin⟩

/-- The descriptor of the connection that is closed goes to the next one, while the channel of the
first is still to be destroyed. -/
def reusingSteps : List ServerStep :=
  closingSteps ++ [.endPass 0, .poll 0 [], .close 0, .accept 5 0, .exec 0 (.ok []) (.ok 0), .destroy 0]

theorem connection_registry_reused :
    ∃ s : TcpServer Buffer,
      run (TcpServer.step (.new 8)) (TcpServer.start 2 (.new 8)) reusingSteps = some s ∧
      s.m_connections 5 = some 1 ∧ (s.conns 0).life = .destroyed ∧ s.fd 0 = 5 ∧ s.fd 1 = 5 ∧
      (s.conns 1).life = .alive := by
  have hmap : (run (TcpServer.step (Buffer.new 8)) (TcpServer.start 2 (Buffer.new 8)) reusingSteps).map
      (fun s => (s.m_connections 5, (s.conns 0).life, s.fd 0)) = some (some 1, .destroyed, 5) := by
    decide +kernel
  obtain ⟨s, hs, hv⟩ := Option.map_eq_some_iff.1 hmap
  obtain ⟨h1, h2⟩ := Prod.mk.inj hv
  obtain ⟨h2, h3⟩ := Prod.mk.inj h2
  obtain ⟨hfd, hlife, -⟩ := (connection_registry 2 (Buffer.new 8) hs).1 5 1 h1
  exact ⟨s, hs, h1, h2, h3, hfd, hlife⟩

end MyMuduo
