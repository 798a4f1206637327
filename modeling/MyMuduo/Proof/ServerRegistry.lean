import MyMuduo.Proof.ServerAgenda

/-!
# Who is registered where

`Registry` ties the two maps keyed by descriptor, the server's `m_connections` and the
`m_channels` of each epoller, and the kernel's interest sets to the phases of the connections.
A connection keeps its descriptor open until it is gone from both maps, so an open descriptor
belongs to one connection only, and no entry is ever taken over by another.
-/

namespace MyMuduo

open Lib

variable {Q : Type}

/-- The descriptor of the connection is open. -/
def TcpServer.isAlive (s : TcpServer Q) (c : ℕ) : Prop := (s.conns c).life = .alive

/-- **The maps and the connections.** -/
structure Registry (ph : ℕ → Phase) (s : TcpServer Q) : Prop where
  self : ∀ c, (s.conns c).conn.self = c
  unborn : ∀ c, (s.conns c).life = .unborn ↔ ph c = .unborn
  next : ∀ c, s.next ≤ c → ph c = .unborn
  alive : ∀ c, ph c ≠ .unborn → ph c ≠ .gone → s.isAlive c
  home : ∀ c, ph c ≠ .unborn → s.home c < s.numLoops
  state : ∀ c, (ph c).State (s.conns c).conn.m_state
  chan : ∀ c, (ph c).Chan (s.conns c).conn.m_channel
  trace : ∀ c, TraceOk (ph c) (s.conns c).conn.trace
  map : ∀ fd c, s.m_connections fd = some c ↔ (ph c).inMap = true ∧ s.fd c = fd
  channels : ∀ l fd c, (s.loops l).ep.m_channels fd = some c ↔
    (ph c).inEpoll = true ∧ s.home c = l ∧ s.fd c = fd
  interest : ∀ l fd x, (s.loops l).ep.interest fd = some x →
    ph x.2 = .live ∧ s.home x.2 = l ∧ s.fd x.2 = fd
  fds : ∀ c c', s.isAlive c → s.isAlive c' → s.fd c = s.fd c' → c = c'

variable {ph : ℕ → Phase} {s s' : TcpServer Q}

/-- A step that touches neither the connections nor the maps. -/
theorem Registry.congr (h : Registry ph s) (hc : s'.conns = s.conns) (hn : s'.next = s.next)
    (hl : s'.numLoops = s.numLoops) (hm : s'.m_connections = s.m_connections)
    (he : ∀ l, (s'.loops l).ep = (s.loops l).ep) : Registry ph s' := by
  have hfd : s'.fd = s.fd := by funext c; simp only [TcpServer.fd, hc]
  have hhome : s'.home = s.home := by funext c; simp only [TcpServer.home, hc]
  have halive : s'.isAlive = s.isAlive := by funext c; simp only [TcpServer.isAlive, hc]
  refine ⟨?_, ?_, ?_, ?_, ?_, ?_, ?_, ?_, ?_, ?_, ?_, ?_⟩
  · rw [hc]; exact h.self
  · rw [hc]; exact h.unborn
  · rw [hn]; exact h.next
  · rw [halive]; exact h.alive
  · rw [hhome, hl]; exact h.home
  · rw [hc]; exact h.state
  · rw [hc]; exact h.chan
  · rw [hc]; exact h.trace
  · rw [hm, hfd]; exact h.map
  · intro l
    rw [he, hhome, hfd]
    exact h.channels l
  · intro l
    rw [he, hhome, hfd]
    exact h.interest l
  · rw [halive, hfd]; exact h.fds

/-- A phase with an entry somewhere is that of a connection alive. -/
theorem Registry.alive_of_inMap (h : Registry ph s) {c : ℕ} (hc : (ph c).inMap = true) : s.isAlive c := by
  refine h.alive c ?_ ?_
  · intro h0; rw [h0] at hc; cases hc
  · intro h0; rw [h0] at hc; cases hc

theorem Registry.alive_of_inEpoll (h : Registry ph s) {c : ℕ} (hc : (ph c).inEpoll = true) :
    s.isAlive c := by
  refine h.alive c ?_ ?_
  · intro h0; rw [h0] at hc; cases hc
  · intro h0; rw [h0] at hc; cases hc

theorem Registry.born (h : Registry ph s) {c : ℕ} (hc : s.isAlive c) : ph c ≠ .unborn := by
  intro h0
  have := (h.unborn c).2 h0
  rw [show (s.conns c).life = .alive from hc] at this
  cases this

/-- A connection alive, seen from itself. -/
theorem Registry.at_ (h : Registry ph s) {c : ℕ} (hc : s.isAlive c) :
    At (ph c) (s.loops (s.home c)).ep (s.conns c).conn := by
  refine ⟨h.state c, h.chan c, h.trace c, ?_, ?_⟩
  · by_cases hin : (ph c).inEpoll = true
    · rw [if_pos hin, h.self c]
      exact (h.channels _ _ c).2 ⟨hin, rfl, rfl⟩
    · rw [if_neg hin]
      -- any other entry for the descriptor would belong to a connection alive
      cases hm : (s.loops (s.home c)).ep.m_channels (s.conns c).conn.m_channel.m_fd with
      | none => rfl
      | some c' =>
        obtain ⟨h1, -, h3⟩ := (h.channels _ _ c').1 hm
        have := h.fds c' c (h.alive_of_inEpoll h1) hc h3
        rw [this] at h1
        exact absurd h1 hin
  · intro x hx
    obtain ⟨h1, -, h3⟩ := h.interest _ _ x hx
    have hx' : x.2 = c := h.fds x.2 c (h.alive_of_inEpoll (by rw [h1]; rfl)) hc h3
    rw [h.self c]
    exact ⟨hx' ▸ h1, hx'⟩

/-- What a call that leads to a phase does to the epoller's maps. -/
theorem leads_channels {p' : Phase} {ep ep' : Epoller} {conn conn' : TcpConnection Q}
    (h : Leads p' ep conn ep' conn') :
    ep'.m_channels conn.m_channel.m_fd = if p'.inEpoll then some conn.self else none := by
  have := h.at_.channels
  rwa [h.same.fd, h.same.self] at this

/-! ## A call about one connection -/

/-- The loops after a call, from its effect. -/
theorem apply_loops (s : TcpServer Q) (c : ℕ) (e : Effect Q) (l : ℕ) :
    (s.apply c e).loops l = { s.loops l with
      ep := if l = s.home c then e.ep else (s.loops l).ep
      m_pending_functors := (s.loops l).m_pending_functors ++ queuedAt e.queued l } := by
  unfold TcpServer.apply queuedAt
  dsimp only
  cases e.queued with
  | none =>
    dsimp only [TcpServer.setLoop]
    by_cases hl : l = s.home c
    · subst hl
      simp
    · rw [Function.update_of_ne hl, if_neg hl]
      simp
  | some x =>
    obtain ⟨l', t⟩ := x
    dsimp only [TcpServer.queueInLoop, TcpServer.setLoop]
    by_cases hl' : l = l'
    · subst hl'
      rw [Function.update_self, if_pos rfl]
      by_cases hl : l = s.home c
      · subst hl
        simp
      · rw [Function.update_of_ne hl, if_neg hl]
    · rw [Function.update_of_ne hl', if_neg hl']
      by_cases hl : l = s.home c
      · subst hl
        simp
      · rw [Function.update_of_ne hl, if_neg hl]
        simp

/-- All but the loops. -/
theorem apply_rest (s : TcpServer Q) (c : ℕ) (e : Effect Q) :
    (s.apply c e).numLoops = s.numLoops ∧ (s.apply c e).next = s.next ∧
      (s.apply c e).failed = s.failed ∧ (s.apply c e).owners = s.owners ∧
      (s.apply c e).conns = Function.update s.conns c ⟨e.conn, (s.conns c).life⟩ ∧
      (s.apply c e).m_connections =
        if e.erased then Function.update s.m_connections (s.fd c) none else s.m_connections := by
  unfold TcpServer.apply
  dsimp only
  cases e.queued with
  | none => exact ⟨rfl, rfl, rfl, rfl, rfl, rfl⟩
  | some x => exact ⟨rfl, rfl, rfl, rfl, rfl, rfl⟩

/-- An object with the same identity in the place of another. -/
theorem replace_ids {s' : TcpServer Q} {c : ℕ} {o : Object Q}
    (hconns : s'.conns = Function.update s.conns c o) (h : SameId (s.conns c).conn o.conn) :
    s'.fd = s.fd ∧ s'.home = s.home := by
  constructor
  · funext c'
    simp only [TcpServer.fd, hconns]
    by_cases hc : c' = c
    · subst hc
      rw [Function.update_self]
      exact h.fd
    · rw [Function.update_of_ne hc]
  · funext c'
    simp only [TcpServer.home, hconns]
    by_cases hc : c' = c
    · subst hc
      rw [Function.update_self]
      exact h.loop
    · rw [Function.update_of_ne hc]

/-- The connections keep their identity. -/
theorem apply_ids {c : ℕ} {e : Effect Q} (h : SameId (s.conns c).conn e.conn) :
    (s.apply c e).fd = s.fd ∧ (s.apply c e).home = s.home ∧ (s.apply c e).isAlive = s.isAlive := by
  obtain ⟨-, -, -, -, hconns, -⟩ := apply_rest s c e
  obtain ⟨hfd, hhome⟩ := replace_ids hconns h
  refine ⟨hfd, hhome, ?_⟩
  funext c'
  simp only [TcpServer.isAlive, hconns]
  by_cases hc : c' = c
  · subst hc
    rw [Function.update_self]
  · rw [Function.update_of_ne hc]

/-- What holds of the connection called, and of all others as before, holds of all. -/
theorem apply_forall (ph : ℕ → Phase) (p' : Phase) {c : ℕ} {e : Effect Q}
    (P : ℕ → Phase → TcpConnection Q → Prop) (hc : P c p' e.conn)
    (h : ∀ c', P c' (ph c') (s.conns c').conn) (c' : ℕ) :
    P c' (Function.update ph c p' c') ((s.apply c e).conns c').conn := by
  obtain ⟨-, -, -, -, hconns, -⟩ := apply_rest s c e
  rw [hconns]
  by_cases hcc : c' = c
  · subst hcc
    rw [Function.update_self, Function.update_self]
    exact hc
  · rw [Function.update_of_ne hcc, Function.update_of_ne hcc]
    exact h c'

section

variable {c : ℕ} {p' : Phase} {e : Effect Q}

/-- Another connection with an entry for the descriptor would have it open as well. -/
theorem Registry.fd_ne (h : Registry ph s) (hc : s.isAlive c) {c' : ℕ} (hne : c' ≠ c)
    (hc' : s.isAlive c') : s.fd c' ≠ s.fd c := fun hf => hne (h.fds c' c hc' hc hf)

/-- The server's map after a call: it loses the entry of the connection with the phase. -/
theorem Registry.apply_map (h : Registry ph s) (hc : s.isAlive c) (hrank : (ph c).rank ≤ p'.rank)
    (herased : e.erased = ((ph c).inMap && !p'.inMap)) (fd c' : ℕ) :
    (s.apply c e).m_connections fd = some c' ↔
      (Function.update ph c p' c').inMap = true ∧ s.fd c' = fd := by
  obtain ⟨-, -, -, -, -, hmap⟩ := apply_rest s c e
  have hborn := h.born hc
  rw [hmap, herased]
  -- the connection itself, and then those that keep their phase
  by_cases hcc : c' = c
  · subst hcc
    rw [Function.update_self]
    by_cases hin : p'.inMap = true
    · -- it is still in the map, so it was before
      have hin₀ : (ph c').inMap = true := by
        generalize ph c' = p at hrank hborn
        cases p' <;> cases p <;> simp_all [Phase.inMap, Phase.rank]
      simp only [hin, Bool.not_true, Bool.and_false, Bool.false_eq_true, if_false, h.map, hin₀]
    · refine iff_of_false (fun hm => ?_) fun hm => hin hm.1
      by_cases hin₀ : (ph c').inMap = true
      · -- the entry is erased
        simp only [hin₀, Bool.not_eq_true] at hm hin
        simp only [hin, Bool.not_false, Bool.and_self, if_true] at hm
        by_cases hf : fd = s.fd c'
        · rw [hf, Function.update_self] at hm
          cases hm
        · rw [Function.update_of_ne hf] at hm
          exact hf ((h.map fd c').1 hm).2.symm
      · simp only [Bool.not_eq_true] at hin₀
        simp only [hin₀, Bool.false_and, Bool.false_eq_true, if_false] at hm
        rw [((h.map fd c').1 hm).1] at hin₀
        cases hin₀
  · rw [Function.update_of_ne hcc]
    split
    · by_cases hf : fd = s.fd c
      · rw [hf, Function.update_self]
        refine iff_of_false (by simp) fun hm => ?_
        exact h.fd_ne hc hcc (h.alive_of_inMap hm.1) hm.2
      · rw [Function.update_of_ne hf]
        exact h.map fd c'
    · exact h.map fd c'

/-- The epoller of a loop after a call. -/
theorem apply_ep (s : TcpServer Q) (c : ℕ) (e : Effect Q) (l : ℕ) :
    ((s.apply c e).loops l).ep = if l = s.home c then e.ep else (s.loops l).ep := by
  rw [apply_loops]

/-- The epollers' maps after a call. -/
theorem Registry.apply_channels (h : Registry ph s) (hc : s.isAlive c)
    (hlead : Leads p' (s.loops (s.home c)).ep (s.conns c).conn e.ep e.conn) (l fd c' : ℕ) :
    ((s.apply c e).loops l).ep.m_channels fd = some c' ↔
      (Function.update ph c p' c').inEpoll = true ∧ s.home c' = l ∧ s.fd c' = fd := by
  rw [apply_ep]
  by_cases hl : l = s.home c
  · subst hl
    rw [if_pos rfl]
    by_cases hf : fd = s.fd c
    · -- the descriptor of the connection itself
      subst hf
      rw [show e.ep.m_channels (s.fd c) = _ from leads_channels hlead, h.self c]
      by_cases hcc : c' = c
      · subst hcc
        rw [Function.update_self]
        by_cases hin : p'.inEpoll = true
        · simp [hin]
        · simp [hin]
      · rw [Function.update_of_ne hcc]
        refine iff_of_false (fun hm => ?_) fun hm => ?_
        · split at hm
          · exact hcc (Option.some.inj hm).symm
          · cases hm
        · exact h.fd_ne hc hcc (h.alive_of_inEpoll hm.1) hm.2.2
    · rw [hlead.agree.channels fd hf, h.channels]
      by_cases hcc : c' = c
      · subst hcc
        exact iff_of_false (fun hm => hf hm.2.2.symm) fun hm => hf hm.2.2.symm
      · rw [Function.update_of_ne hcc]
  · rw [if_neg hl, h.channels]
    by_cases hcc : c' = c
    · subst hcc
      exact iff_of_false (fun hm => hl hm.2.1.symm) fun hm => hl hm.2.1.symm
    · rw [Function.update_of_ne hcc]

/-- The interest sets after a call. -/
theorem Registry.apply_interest (h : Registry ph s)
    (hlead : Leads p' (s.loops (s.home c)).ep (s.conns c).conn e.ep e.conn) (l fd : ℕ) (x : Events × ℕ)
    (hx : ((s.apply c e).loops l).ep.interest fd = some x) :
    Function.update ph c p' x.2 = .live ∧ s.home x.2 = l ∧ s.fd x.2 = fd := by
  rw [apply_ep] at hx
  -- an entry that was there before is that of another connection, which keeps its phase
  have hold : (s.loops l).ep.interest fd = some x → (s.home c ≠ l ∨ s.fd c ≠ fd) →
      Function.update ph c p' x.2 = .live ∧ s.home x.2 = l ∧ s.fd x.2 = fd := by
    intro hx' hne
    obtain ⟨h1, h2, h3⟩ := h.interest l fd x hx'
    have hcc : x.2 ≠ c := by
      intro hcc
      rw [hcc] at h2 h3
      rcases hne with hne | hne
      · exact hne h2
      · exact hne h3
    rw [Function.update_of_ne hcc]
    exact ⟨h1, h2, h3⟩
  by_cases hl : l = s.home c
  · subst hl
    rw [if_pos rfl] at hx
    by_cases hf : fd = s.fd c
    · subst hf
      have hi := hlead.at_.interest x
      rw [hlead.same.fd, hlead.same.self, h.self c] at hi
      obtain ⟨h1, h2⟩ := hi hx
      rw [h2, Function.update_self]
      exact ⟨h1, rfl, rfl⟩
    · rw [hlead.agree.interest fd hf] at hx
      exact hold hx (Or.inr fun hf' => hf hf'.symm)
  · rw [if_neg hl] at hx
    exact hold hx (Or.inl fun hl' => hl hl'.symm)

/-- **A call that leads to a phase keeps the registry.** -/
theorem Registry.apply (h : Registry ph s) (hc : s.isAlive c)
    (hlead : Leads p' (s.loops (s.home c)).ep (s.conns c).conn e.ep e.conn) (hp' : p' ≠ .unborn)
    (hrank : (ph c).rank ≤ p'.rank) (herased : e.erased = ((ph c).inMap && !p'.inMap)) :
    Registry (Function.update ph c p') (s.apply c e) := by
  obtain ⟨hnum, hnext, -, -, hconns, -⟩ := apply_rest s c e
  obtain ⟨hfd, hhome, halive⟩ := apply_ids (s := s) hlead.same
  have hborn := h.born hc
  refine ⟨?_, ?_, ?_, ?_, ?_, ?_, ?_, ?_, ?_, ?_, ?_, ?_⟩
  · have hself := hlead.same.self.trans (h.self c)
    exact apply_forall ph p' (fun c' _ conn => conn.self = c') hself h.self
  · intro c'
    by_cases hcc : c' = c
    · subst hcc
      rw [hconns, Function.update_self, Function.update_self, show (s.conns c').life = .alive from hc]
      simp [hp']
    · rw [hconns, Function.update_of_ne hcc, Function.update_of_ne hcc]
      exact h.unborn c'
  · intro c' hc'
    rw [hnext] at hc'
    have h0 := h.next c' hc'
    have hcc : c' ≠ c := by
      rintro rfl
      exact hborn h0
    rw [Function.update_of_ne hcc]
    exact h0
  · intro c' h1 h2
    rw [halive]
    by_cases hcc : c' = c
    · subst hcc
      exact hc
    · rw [Function.update_of_ne hcc] at h1 h2
      exact h.alive c' h1 h2
  · intro c' h1
    rw [hhome, hnum]
    by_cases hcc : c' = c
    · subst hcc
      exact h.home c' hborn
    · rw [Function.update_of_ne hcc] at h1
      exact h.home c' h1
  · exact apply_forall ph p' (fun _ p conn => p.State conn.m_state) hlead.at_.state h.state
  · exact apply_forall ph p' (fun _ p conn => p.Chan conn.m_channel) hlead.at_.chan h.chan
  · exact apply_forall ph p' (fun _ p conn => TraceOk p conn.trace) hlead.at_.trace h.trace
  · rw [hfd]
    exact h.apply_map hc hrank herased
  · rw [hhome, hfd]
    exact h.apply_channels hc hlead
  · rw [hhome, hfd]
    exact h.apply_interest hlead
  · rw [halive, hfd]
    exact h.fds

end

/-! ## A connection is made -/

/-- An open descriptor is one of a connection alive. -/
theorem Registry.isOpen_iff (h : Registry ph s) (fd : ℕ) :
    s.isOpen fd = true ↔ ∃ c, s.isAlive c ∧ s.fd c = fd := by
  unfold TcpServer.isOpen
  simp only [List.any_eq_true, List.mem_range, Bool.and_eq_true, decide_eq_true_eq]
  constructor
  · rintro ⟨c, -, h1, h2⟩
    exact ⟨c, h1, h2⟩
  · rintro ⟨c, h1, h2⟩
    refine ⟨c, ?_, h1, h2⟩
    by_contra hc
    exact h.born h1 (h.next c (by omega))

/-- A descriptor that is not open belongs to no connection alive, and has no entry. -/
theorem Registry.fd_ne_of_closed (h : Registry ph s) {fd : ℕ} (hfd : s.isOpen fd = false) {c : ℕ}
    (hc : s.isAlive c) : s.fd c ≠ fd := by
  intro hf
  have := (h.isOpen_iff fd).2 ⟨c, hc, hf⟩
  rw [hfd] at this
  cases this

theorem Registry.no_entry (h : Registry ph s) {fd : ℕ} (hfd : s.isOpen fd = false) :
    s.m_connections fd = none := by
  cases hm : s.m_connections fd with
  | none => rfl
  | some c =>
    obtain ⟨h1, h2⟩ := (h.map fd c).1 hm
    exact absurd h2 (h.fd_ne_of_closed hfd (h.alive_of_inMap h1))

/-- All but the loops after `handleNewConnection`. -/
theorem handleNewConnection_rest (s : TcpServer Q) (fd home : ℕ) (buffer : Q) :
    (s.handleNewConnection fd home buffer).conns =
        Function.update s.conns s.next ⟨.new s.next home fd buffer, .alive⟩ ∧
      (s.handleNewConnection fd home buffer).next = s.next + 1 ∧
      (s.handleNewConnection fd home buffer).numLoops = s.numLoops ∧
      (s.handleNewConnection fd home buffer).failed = s.failed ∧
      (s.handleNewConnection fd home buffer).m_connections =
        Function.update s.m_connections fd (some s.next) ∧
      ∀ l, ((s.handleNewConnection fd home buffer).loops l).ep = (s.loops l).ep := by
  unfold TcpServer.handleNewConnection
  dsimp only
  split
  · refine ⟨rfl, rfl, rfl, rfl, rfl, fun l => ?_⟩
    dsimp only [TcpServer.setCurrent, TcpServer.setLoop]
    by_cases hl : l = 0
    · subst hl
      rw [Function.update_self]
    · rw [Function.update_of_ne hl]
  · refine ⟨rfl, rfl, rfl, rfl, rfl, fun l => ?_⟩
    dsimp only [TcpServer.queueInLoop, TcpServer.setLoop]
    by_cases hl : l = home
    · subst hl
      rw [Function.update_self]
    · rw [Function.update_of_ne hl]

/-- **A new connection gets entries of its own**: its descriptor was not open. -/
theorem Registry.accept (h : Registry ph s) {fd home : ℕ} (hhome : home < s.numLoops)
    (hfd : s.isOpen fd = false) (buffer : Q) :
    Registry (Function.update ph s.next .connecting) (s.handleNewConnection fd home buffer) := by
  obtain ⟨hconns, hnext, hnum, -, hmap, hep⟩ := handleNewConnection_rest s fd home buffer
  set s' := s.handleNewConnection fd home buffer
  have hclosed : ∀ c, s.isAlive c → s.fd c ≠ fd := fun c hc => h.fd_ne_of_closed hfd hc
  -- the new object is the only one that changes
  have h0 : ph s.next = .unborn := h.next s.next le_rfl
  have hnew : s'.conns s.next = ⟨.new s.next home fd buffer, .alive⟩ := by
    rw [hconns, Function.update_self]
  have hold : ∀ c, c ≠ s.next → s'.conns c = s.conns c := fun c hc => by
    rw [hconns, Function.update_of_ne hc]
  have hph : ∀ c, c ≠ s.next → Function.update ph s.next .connecting c = ph c := fun c hc =>
    Function.update_of_ne hc _ _
  have hfd' : ∀ c, c ≠ s.next → s'.fd c = s.fd c := fun c hc => by
    simp only [TcpServer.fd, hold c hc]
  have hhome' : ∀ c, c ≠ s.next → s'.home c = s.home c := fun c hc => by
    simp only [TcpServer.home, hold c hc]
  have halive' : ∀ c, c ≠ s.next → (s'.isAlive c ↔ s.isAlive c) := fun c hc => by
    simp only [TcpServer.isAlive, hold c hc]
  have hfdnew : s'.fd s.next = fd := by simp only [TcpServer.fd, hnew]; rfl
  refine ⟨?_, ?_, ?_, ?_, ?_, ?_, ?_, ?_, ?_, ?_, ?_, ?_⟩
  · intro c
    by_cases hc : c = s.next
    · subst hc; rw [hnew]; rfl
    · rw [hold c hc]; exact h.self c
  · intro c
    by_cases hc : c = s.next
    · subst hc; rw [hnew, Function.update_self]; simp
    · rw [hold c hc, hph c hc]; exact h.unborn c
  · intro c hc
    rw [hnext] at hc
    rw [hph c (by omega)]
    exact h.next c (by omega)
  · intro c h1 h2
    by_cases hc : c = s.next
    · subst hc
      simp only [TcpServer.isAlive, hnew]
    · rw [hph c hc] at h1 h2
      exact (halive' c hc).2 (h.alive c h1 h2)
  · intro c h1
    rw [hnum]
    by_cases hc : c = s.next
    · subst hc
      simp only [TcpServer.home, hnew]
      exact hhome
    · rw [hph c hc] at h1
      rw [hhome' c hc]
      exact h.home c h1
  · intro c
    by_cases hc : c = s.next
    · subst hc; rw [hnew, Function.update_self]; rfl
    · rw [hold c hc, hph c hc]; exact h.state c
  · intro c
    by_cases hc : c = s.next
    · subst hc; rw [hnew, Function.update_self]; exact ⟨rfl, rfl⟩
    · rw [hold c hc, hph c hc]; exact h.chan c
  · intro c
    by_cases hc : c = s.next
    · subst hc
      rw [hnew, Function.update_self]
      exact ⟨[], fun e he => (by cases he), rfl⟩
    · rw [hold c hc, hph c hc]; exact h.trace c
  · -- the server's map
    intro fd' c
    rw [hmap]
    by_cases hc : c = s.next
    · subst hc
      rw [Function.update_self, hfdnew]
      by_cases hf : fd' = fd
      · subst hf
        rw [Function.update_self]
        simp [Phase.inMap]
      · rw [Function.update_of_ne hf, h.map, h0]
        exact iff_of_false (fun hm => by cases hm.1) fun hm => hf hm.2.symm
    · rw [hph c hc, hfd' c hc]
      by_cases hf : fd' = fd
      · subst hf
        rw [Function.update_self]
        refine iff_of_false (fun hm => hc (Option.some.inj hm).symm) fun hm => ?_
        exact hclosed c (h.alive_of_inMap hm.1) hm.2
      · rw [Function.update_of_ne hf]
        exact h.map fd' c
  · intro l fd' c
    rw [hep, h.channels]
    by_cases hc : c = s.next
    · subst hc
      rw [Function.update_self, h0]
      exact iff_of_false (fun hm => by cases hm.1) fun hm => by cases hm.1
    · rw [hph c hc, hfd' c hc, hhome' c hc]
  · intro l fd' x hx
    rw [hep] at hx
    obtain ⟨h1, h2, h3⟩ := h.interest l fd' x hx
    have hc : x.2 ≠ s.next := by
      intro hc
      rw [hc, h0] at h1
      cases h1
    rw [hph _ hc, hfd' _ hc, hhome' _ hc]
    exact ⟨h1, h2, h3⟩
  · intro c c' h1 h2 hf
    by_cases hc : c = s.next
    · by_cases hc' : c' = s.next
      · rw [hc, hc']
      · rw [hc, hfdnew, hfd' c' hc'] at hf
        exact absurd hf.symm (hclosed c' ((halive' c' hc').1 h2))
    · by_cases hc' : c' = s.next
      · rw [hc', hfdnew, hfd' c hc] at hf
        exact absurd hf (hclosed c ((halive' c hc).1 h1))
      · rw [hfd' c hc, hfd' c' hc'] at hf
        exact h.fds c c' ((halive' c hc).1 h1) ((halive' c' hc').1 h2) hf

/-! ## A connection is destroyed -/

/-- A connection that is gone gives up its life. -/
theorem Registry.bury (h : Registry ph s) {c : ℕ} (hc : ph c = .gone) {life : ObjectLife}
    (hlife : life = .closed ∨ life = .destroyed)
    (hconns : s'.conns = Function.update s.conns c ⟨(s.conns c).conn, life⟩) (hn : s'.next = s.next)
    (hl : s'.numLoops = s.numLoops) (hm : s'.m_connections = s.m_connections)
    (hch : ∀ l, (s'.loops l).ep.m_channels = (s.loops l).ep.m_channels)
    (hi : ∀ l fd x, (s'.loops l).ep.interest fd = some x → (s.loops l).ep.interest fd = some x) :
    Registry ph s' := by
  have hconn : ∀ c', (s'.conns c').conn = (s.conns c').conn := by
    intro c'
    rw [hconns]
    by_cases hcc : c' = c
    · subst hcc; rw [Function.update_self]
    · rw [Function.update_of_ne hcc]
  have hfd : s'.fd = s.fd := by funext c'; simp only [TcpServer.fd, hconn]
  have hhome : s'.home = s.home := by funext c'; simp only [TcpServer.home, hconn]
  have hold : ∀ c', c' ≠ c → (s'.conns c').life = (s.conns c').life := fun c' hc' => by
    rw [hconns, Function.update_of_ne hc']
  have hself : (s'.conns c).life = life := by rw [hconns, Function.update_self]
  -- fewer connections are alive, which only helps
  have halive : ∀ c', s'.isAlive c' → c' ≠ c ∧ s.isAlive c' := by
    intro c' ha
    have hne : c' ≠ c := by
      rintro rfl
      rw [TcpServer.isAlive, hself] at ha
      rcases hlife with hl | hl <;> rw [hl] at ha <;> cases ha
    exact ⟨hne, by rw [TcpServer.isAlive, ← hold c' hne]; exact ha⟩
  refine ⟨?_, ?_, ?_, ?_, ?_, ?_, ?_, ?_, ?_, ?_, ?_, ?_⟩
  · intro c'; rw [hconn]; exact h.self c'
  · intro c'
    by_cases hcc : c' = c
    · subst hcc
      rw [hself, hc]
      rcases hlife with hl | hl <;> rw [hl] <;> simp
    · rw [hold c' hcc]; exact h.unborn c'
  · rw [hn]; exact h.next
  · intro c' h1 h2
    have hcc : c' ≠ c := by
      rintro rfl
      exact h2 hc
    rw [TcpServer.isAlive, hold c' hcc]
    exact h.alive c' h1 h2
  · rw [hhome, hl]; exact h.home
  · intro c'; rw [hconn]; exact h.state c'
  · intro c'; rw [hconn]; exact h.chan c'
  · intro c'; rw [hconn]; exact h.trace c'
  · rw [hm, hfd]; exact h.map
  · intro l
    rw [hch, hhome, hfd]
    exact h.channels l
  · intro l fd x hx
    rw [hhome, hfd]
    exact h.interest l fd x (hi l fd x hx)
  · intro c₁ c₂ h1 h2 hf
    rw [hfd] at hf
    exact h.fds c₁ c₂ (halive c₁ h1).2 (halive c₂ h2).2 hf

end MyMuduo
