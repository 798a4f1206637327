import MyMuduo.Proof.RaceServer

/-!
# Steps of a server with late stores

Every step of the server keeps `RaceOk`, and goes on beside the threads that are in code of the user
(`Goes`): it leaves their stacks alone, it takes no connection out of `m_connections` while the base
loop is one of them, and it takes no functor away but the one that runs.
-/

namespace MyMuduo

open Lib

namespace TcpServer

variable {Q : Type} {s s' : TcpServer Q} {l c : ℕ}

/-! ## What a step keeps -/

/-- **A step goes on** beside the threads that are in code of the user, other than loop `r`. -/
structure Goes (r : Option ℕ) (s s' : TcpServer Q) : Prop where
  ok : s'.RaceOk
  next : s.next ≤ s'.next
  home : ∀ c, c < s.next → s'.home c = s.home c
  begun : ∀ c, c < s.next → (s.conns c).conn.m_state ≠ .kConnecting →
    (s'.conns c).conn.m_state ≠ .kConnecting
  stack : ∀ l x, (s.loops l).current.head? = some (.user x) → r ≠ some l →
    (s'.loops l).current = (s.loops l).current
  /-- only the base loop removes -/
  unremoved : ∀ c x, (s.loops 0).current.head? = some (.user x) → s.Unremoved c → s'.Unremoved c
  /-- a functor stays until its thread is at it -/
  stays : ∀ l c d, .deferred c d ∈ (s.loops l).work →
    .deferred c d ∈ (s'.loops l).work ∨ (s.loops l).current.head? = some (.deferred c d)

variable {r : Option ℕ}

/-- A failure, and owners that come and go, are not looked at. -/
theorem Goes.owners (h : Goes r s s') (owners : List ℕ) (failed : Option Failure) :
    Goes r s { s' with owners := owners, failed := failed } :=
  ⟨⟨h.ok.loops, h.ok.self, h.ok.born, h.ok.bound, h.ok.map, h.ok.fds,
      fun c hlt hup =>
        let ⟨hun, hnone⟩ := h.ok.up c hlt hup
        ⟨⟨hun.mapped, hun.unqueued, hun.trace⟩, hnone⟩,
      h.ok.establishing, h.ok.deferred⟩,
    h.next, h.home, h.begun, h.stack, fun c x hx hc =>
      let ⟨h1, h2, h3⟩ := h.unremoved c x hx hc
      ⟨h1, h2, h3⟩, h.stays⟩

theorem Goes.refl (h : s.RaceOk) : Goes r s s :=
  ⟨h, le_refl _, fun _ _ => rfl, fun _ _ hc => hc, fun _ _ _ _ => rfl, fun _ _ _ hc => hc, fun _ _ _ => Or.inl⟩

/-- **The stack of one loop changes**, but nothing that is owed. -/
theorem RaceOk.quiet (h : s.RaceOk) {L : IoLoop} (hL : Arranged s.home s.next l L)
    (howed : ∀ t, t.isOwed = true → (t ∈ L.work ↔ t ∈ (s.loops l).work))
    (hstack : ∀ x, (s.loops l).current.head? = some (.user x) → r ≠ some l →
      L.current = (s.loops l).current) : Goes r s (s.setLoop l L) := by
  have howed' : ∀ l' t, t.isOwed = true → (t ∈ ((s.setLoop l L).loops l').work ↔ t ∈ (s.loops l').work) := by
    intro l' t ht
    by_cases hl : l' = l
    · subst hl
      rw [show (s.setLoop l' L).loops l' = L from Function.update_self _ _ _]
      exact howed t ht
    · rw [show (s.setLoop l L).loops l' = s.loops l' from Function.update_of_ne hl _ _]
  have hun : ∀ c, s.Unremoved c → (s.setLoop l L).Unremoved c := fun c hc =>
    ⟨hc.mapped, fun l' ht => hc.unqueued l' ((howed' l' _ rfl).1 ht), hc.trace⟩
  refine ⟨⟨fun l' => ?_, h.self, h.born, h.bound, h.map, h.fds, fun c hlt hup => ?_, fun l' c ht => ?_,
    fun l' c d ht => ?_⟩, le_refl _, fun _ _ => rfl, fun _ _ hc => hc, fun l' x hx hr => ?_,
    fun c _ _ hc => hun c hc, fun l' _ _ ht => Or.inl ((howed' l' _ rfl).2 ht)⟩
  · by_cases hl : l' = l
    · subst hl
      rw [show (s.setLoop l' L).loops l' = L from Function.update_self _ _ _]
      exact hL
    · rw [show (s.setLoop l L).loops l' = s.loops l' from Function.update_of_ne hl _ _]
      exact h.loops l'
  · obtain ⟨h1, h2⟩ := h.up c hlt hup
    exact ⟨hun c h1, fun l' k ht => h2 l' k ((howed' l' _ rfl).1 ht)⟩
  · exact h.establishing l' c ((howed' l' _ rfl).1 ht)
  · obtain ⟨h1, h2, h3, h4⟩ := h.deferred l' c d ((howed' l' _ rfl).1 ht)
    exact ⟨h1, h2, h3, h4.imp_right (howed' l' _ rfl).2⟩
  · by_cases hl : l' = l
    · subst hl
      rw [show (s.setLoop l' L).loops l' = L from Function.update_self _ _ _]
      exact hstack x hx hr
    · rw [show (s.setLoop l L).loops l' = s.loops l' from Function.update_of_ne hl _ _]

/-- A loop that has the same to do goes on to another place. -/
theorem RaceOk.move (h : s.RaceOk) {L : IoLoop} (hwork : L.work = (s.loops l).work)
    (hkept : ∀ t ∈ L.rest, t ∈ L.functors) (hdone : L.pc ≠ .functors → L.rest = [])
    (hactive : ∀ x ∈ L.active, x.1 < s.next ∧ l = s.home x.1) (hep : L.ep = (s.loops l).ep)
    (hstack : ∀ x, (s.loops l).current.head? = some (.user x) → L.current = (s.loops l).current) :
    Goes r s (s.setLoop l L) := by
  refine h.quiet ⟨?_, ?_, hkept, hdone, hactive, ?_⟩ (fun t _ => by rw [hwork]) fun x hx _ => hstack x hx
  · rw [hwork]
    exact (h.loops l).placed
  · rw [hwork]
    exact (h.loops l).order
  · rw [hep]
    exact (h.loops l).interest

/-- **A loop that has nothing on its stack calls back.** -/
theorem RaceOk.callsBack (h : s.RaceOk) (hpc : (s.loops l).pc = .dispatch) (hcur : (s.loops l).current = [])
    {active : List (ℕ × Events)} (hactive : ∀ x ∈ active, x ∈ (s.loops l).active) {tasks : List Task}
    (howed : ∀ t ∈ tasks, t.isOwed = false) (hplaced : ∀ t ∈ tasks, t.PlacedAt s.home s.next l) :
    Goes r s (s.setLoop l { s.loops l with active := active, current := tasks }) := by
  have hL := h.loops l
  have hrest := hL.done (by rw [hpc]; decide)
  have hwork : (s.loops l).work = (s.loops l).m_pending_functors := by simp [IoLoop.work, hcur, hrest]
  have hwork' : IoLoop.work { s.loops l with active := active, current := tasks } =
      tasks ++ (s.loops l).work := by rw [hwork]; simp [IoLoop.work, hrest]
  have hne : ∀ t ∈ tasks, ∀ b, InOrder t b := by
    intro t ht b
    refine ⟨fun c d hc => ?_, fun c hc => ?_⟩
    · have hcontra := howed t ht
      rw [hc] at hcontra
      cases hcontra
    · have hcontra := howed t ht
      rw [hc] at hcontra
      cases hcontra
  refine h.quiet ⟨fun t ht => ?_, ?_, hL.kept, hL.done, fun x hx => hL.active x (hactive x hx), hL.interest⟩
    (fun t ht => ?_) fun x hx _ => ?_
  · rw [hwork'] at ht
    exact (List.mem_append.1 ht).elim (hplaced t) (hL.placed t)
  · rw [hwork']
    exact List.pairwise_append.2 ⟨List.pairwise_of_forall_mem_list fun a ha b _ => hne a ha b, hL.order,
      fun a ha b _ => hne a ha b⟩
  · rw [hwork', List.mem_append]
    refine ⟨fun ht' => ht'.resolve_left fun hin => ?_, Or.inr⟩
    rw [howed t hin] at ht
    cases ht
  · rw [hcur] at hx
    cases hx

/-- The user's code returns. -/
theorem return_goes (h : s.RaceOk) {x : Option ℕ} {stack : List Task}
    (hcur : (s.loops l).current = .user x :: stack) : Goes (some l) s (s.setCurrent l stack) := by
  have hL := h.loops l
  have hwork : (s.loops l).work = .user x :: IoLoop.work { s.loops l with current := stack } := by
    simp [IoLoop.work, hcur]
  refine h.quiet ⟨fun t ht => ?_, ?_, hL.kept, hL.done, hL.active, hL.interest⟩ (fun t ht => ?_)
    fun _ _ hr => absurd rfl hr
  · exact hL.placed t (by rw [hwork]; exact List.mem_cons_of_mem _ ht)
  · have horder := hL.order
    rw [hwork, List.pairwise_cons] at horder
    exact horder.2
  · rw [hwork, List.mem_cons]
    refine ⟨Or.inr, fun ht' => ht'.resolve_left ?_⟩
    rintro rfl
    cases ht

/-! ## Objects come and go -/

/-- **The end of an object** that is in no map and that no raw `this` refers to. -/
theorem RaceOk.bury (h : s.RaceOk) {o : Object Q} (hlt : c < s.next) (hmap : s.m_connections (s.fd c) ≠ some c)
    (hraw : ∀ l d, .deferred c d ∉ (s.loops l).work) (hlife : o.life ≠ .alive)
    (hsame : SameId (s.conns c).conn o.conn)
    (hstate : o.conn.m_state = (s.conns c).conn.m_state ∨ o.conn.m_state = .kDisconnected)
    (eps : ℕ → Epoller) (heps : ∀ l fd x, (eps l).interest fd = some x →
      (s.loops l).ep.interest fd = some x ∨ x.2 = c ∧ l = s.home c) :
    Goes r s { s with
      conns := Function.update s.conns c o
      loops := fun l => { s.loops l with ep := eps l } } := by
  set s' : TcpServer Q := { s with
    conns := Function.update s.conns c o
    loops := fun l => { s.loops l with ep := eps l } } with hs'
  have hself : s'.conns c = o := Function.update_self _ _ _
  have hother : ∀ {c'}, c' ≠ c → s'.conns c' = s.conns c' := fun hc' => Function.update_of_ne hc' _ _
  obtain ⟨hfd, hhome⟩ : s'.fd = s.fd ∧ s'.home = s.home := replace_ids rfl hsame
  have halive : ∀ {c'}, s'.isAlive c' → c' ≠ c ∧ s.isAlive c' := by
    intro c' hc'
    by_cases hc : c' = c
    · subst hc
      rw [TcpServer.isAlive, hself] at hc'
      exact absurd hc' hlife
    · rw [TcpServer.isAlive, hother hc] at hc'
      exact ⟨hc, hc'⟩
  -- the connection is not up any more
  have hdown : (s.conns c).conn.m_state.isUp = false := by
    by_contra hup
    exact hmap (h.up c hlt (by simpa using hup)).1.mapped
  have hdown' : o.conn.m_state.isUp = false := by
    rcases hstate with hst | hst
    · rw [hst]
      exact hdown
    · rw [hst]
      rfl
  have hne : ∀ {c'}, s.m_connections (s.fd c') = some c' → c' ≠ c := by
    rintro c' hc' rfl
    exact hmap hc'
  have hun : ∀ c', s.Unremoved c' → s'.Unremoved c' := by
    intro c' hc'
    refine ⟨by rw [hfd]; exact hc'.mapped, hc'.unqueued, ?_⟩
    rw [hother (hne hc'.mapped)]
    exact hc'.trace
  refine ⟨⟨fun l => ?_, fun c' => ?_, fun c' hc' => ?_, ?_, fun fd c' hm => ?_, ?_, fun c' hlt' hup => ?_,
    fun l c' ht => ?_, fun l c' d ht => ?_⟩, le_refl _, fun c' _ => by rw [hhome], fun c' _ hst => ?_,
    fun _ _ _ _ => rfl, fun c' _ _ hc' => hun c' hc', fun _ _ _ => Or.inl⟩
  · obtain ⟨h1, h2, h3, h4, h5, h6⟩ := h.loops l
    rw [hhome]
    refine ⟨h1, h2, h3, h4, h5, fun fd x hx => ?_⟩
    rcases heps l fd x hx with hx | ⟨hx, hl⟩
    · exact h6 fd x hx
    · rw [hx]
      exact ⟨hlt, hl⟩
  · by_cases hc : c' = c
    · subst hc
      rw [hself]
      exact hsame.self.trans (h.self c')
    · rw [hother hc]
      exact h.self c'
  · by_cases hc : c' = c
    · exact hc ▸ hlt
    · rw [hother hc] at hc'
      exact h.born c' hc'
  · rw [hhome]
    exact h.bound
  · obtain ⟨h1, h2⟩ := h.map fd c' hm
    rw [hfd]
    refine ⟨h1, ?_⟩
    rw [TcpServer.isAlive, hother (hne (h1 ▸ hm))]
    exact h2
  · rw [hfd]
    exact fun c₁ c₂ h₁ h₂ => h.fds c₁ c₂ (halive h₁).2 (halive h₂).2
  · by_cases hc : c' = c
    · subst hc
      rw [hself, hdown'] at hup
      cases hup
    · rw [hother hc] at hup
      obtain ⟨h1, h2⟩ := h.up c' hlt' hup
      exact ⟨hun c' h1, h2⟩
  · have hconn := h.establishing l c' ht
    by_cases hc : c' = c
    · subst hc
      rw [hconn] at hdown
      cases hdown
    · rw [hother hc]
      exact hconn
  · have hc : c' ≠ c := by
      rintro rfl
      exact hraw l d ht
    obtain ⟨h1, h2, h3, h4⟩ := h.deferred l c' d ht
    rw [hfd, TcpServer.isAlive, hother hc]
    exact ⟨h1, h2, h3, h4⟩
  · by_cases hc : c' = c
    · subst hc
      rw [hself]
      intro hst'
      rw [hst'] at hdown'
      cases hdown'
    · rw [hother hc]
      exact hst

/-- `~TcpConnection()`. -/
theorem close_goes (h : s.RaceOk) (hc : s.isAlive c) (hown : s.owned c = false) :
    Goes r s ({ s with conns := Function.update s.conns c ⟨(s.conns c).conn, .closed⟩ }.closeFd (s.fd c)) := by
  have hnot : ∀ {l},
      ¬(s.m_connections (s.fd c) = some c ∨ .life .connectionDestructor c ∈ (s.loops l).work) := by
    intro l howner
    rw [h.owned howner] at hown
    cases hown
  refine h.bury (o := ⟨(s.conns c).conn, .closed⟩) (h.lt_of_alive hc) (fun hm => hnot (l := 0) (Or.inl hm))
    (fun l d ht => hnot (h.deferred l c d ht).2.2.2) (by simp) (.refl _) (Or.inl rfl)
    (fun l => { (s.loops l).ep with
      interest := Function.update (s.loops l).ep.interest (s.fd c) none }) fun l fd x hx => Or.inl ?_
  dsimp only at hx
  rw [Function.update_apply] at hx
  split at hx
  · cases hx
  · exact hx

/-- `~Channel()`. -/
theorem destroy_goes (h : s.RaceOk) (hc : (s.conns c).life = .closed) : Goes r s (s.destroyChannel c) := by
  have hdead : ¬s.isAlive c := by
    rw [TcpServer.isAlive, hc]
    simp
  have hlt : c < s.next := h.born c (by rw [hc]; simp)
  have hmap : s.m_connections (s.fd c) ≠ some c := fun hm => hdead (h.map _ _ hm).2
  have hraw : ∀ l d, .deferred c d ∉ (s.loops l).work := fun l d ht => hdead (h.deferred l c d ht).2.1
  unfold TcpServer.destroyChannel
  dsimp only
  split
  · split
    · exact (Goes.refl h).owners s.owners _
    · next ep₁ c₁ hdis =>
      split
      · exact (Goes.refl h).owners s.owners _
      · next ep₂ c₂ hrem =>
        have hboth := (setEvents_handles hdis).trans (removeChannel_handles hrem)
        have hgoes := h.bury (r := r) (o := ⟨c₂, .destroyed⟩) hlt hmap hraw (by simp) hboth.same
          (hboth.state.imp_right And.left)
          (fun l => if l = s.home c then ep₂ else (s.loops l).ep) fun l fd x hx => ?_
        · have hloops : (fun l => { s.loops l with ep := if l = s.home c then ep₂ else (s.loops l).ep }) =
              Function.update s.loops (s.home c) { s.loops (s.home c) with ep := ep₂ } := by
            funext l
            by_cases hl : l = s.home c
            · subst hl
              rw [Function.update_self, if_pos rfl]
            · rw [Function.update_of_ne hl, if_neg hl]
          rw [hloops] at hgoes
          exact hgoes
        · split at hx
          · next hl =>
            rcases hboth.interest fd x hx with hx | hx
            · exact Or.inr ⟨hx.trans (h.self c), hl⟩
            · exact Or.inl (hl ▸ hx)
          · exact Or.inl hx
  · exact h.bury (o := ⟨(s.conns c).conn, .destroyed⟩) hlt hmap hraw (by simp) (.refl _) (Or.inl rfl)
      (fun l => (s.loops l).ep) fun _ _ _ hx => Or.inl hx

/-! ## A connection is made -/

/-- **What `handleNewConnection` does**: the new connection is to be established at home. -/
structure Accepted (s s' : TcpServer Q) (fd home : ℕ) (buffer : Q) : Prop where
  new : s'.conns s.next = ⟨.new s.next home fd buffer, .alive⟩
  old : ∀ c, c ≠ s.next → s'.conns c = s.conns c
  next : s'.next = s.next + 1
  numLoops : s'.numLoops = s.numLoops
  map : s'.m_connections = Function.update s.m_connections fd (some s.next)
  loops : ∀ l, s'.loops l = s.loops l ∨ l = home ∧
    ((s.loops l).current = [] ∧
        s'.loops l = { s.loops l with current := [.life .connectionEstablished s.next] } ∨
      s'.loops l = { s.loops l with
        m_pending_functors := (s.loops l).m_pending_functors ++ [.life .connectionEstablished s.next] })

theorem accepted (hcur : (s.loops 0).current = []) (fd home : ℕ) (buffer : Q) :
    Accepted s (s.handleNewConnection fd home buffer) fd home buffer := by
  obtain ⟨hconns, hnext, hnum, -, hmaps, -⟩ := handleNewConnection_rest s fd home buffer
  refine ⟨?_, fun c hc => ?_, hnext, hnum, hmaps, fun l => ?_⟩
  · rw [hconns]
    exact Function.update_self _ _ _
  · rw [hconns]
    exact Function.update_of_ne hc _ _
  · rw [handleNewConnection_loops]
    by_cases h0 : home = 0
    · rw [if_pos h0]
      by_cases hl : l = 0
      · subst hl
        exact Or.inr ⟨h0.symm, Or.inl ⟨hcur, Function.update_self 0 _ s.loops⟩⟩
      · exact Or.inl (Function.update_of_ne hl _ _)
    · rw [if_neg h0]
      by_cases hl : l = home
      · subst hl
        exact Or.inr ⟨rfl, Or.inr (Function.update_self l _ s.loops)⟩
      · exact Or.inl (Function.update_of_ne hl _ _)

section

variable {fd home : ℕ} {buffer : Q}

/-- The connections that there are stay the same. -/
theorem Accepted.same (ha : Accepted s s' fd home buffer) (hc : c < s.next) :
    s'.conns c = s.conns c ∧ s'.fd c = s.fd c ∧ s'.home c = s.home c := by
  have hconn := ha.old c (by omega)
  exact ⟨hconn, by rw [TcpServer.fd, hconn]; rfl, by rw [TcpServer.home, hconn]; rfl⟩

theorem Accepted.newIds (ha : Accepted s s' fd home buffer) : s'.fd s.next = fd ∧ s'.home s.next = home := by
  refine ⟨?_, ?_⟩
  · rw [TcpServer.fd, ha.new]
    rfl
  · rw [TcpServer.home, ha.new]
    rfl

/-- There is one more call to make. -/
theorem Accepted.work (ha : Accepted s s' fd home buffer) (l : ℕ) :
    (s'.loops l).work = (s.loops l).work ∨ l = home ∧
      ((s'.loops l).work = .life .connectionEstablished s.next :: (s.loops l).work ∨
        (s'.loops l).work = (s.loops l).work ++ [.life .connectionEstablished s.next]) := by
  rcases ha.loops l with hl | ⟨hhome, ⟨hcur, hl⟩ | hl⟩
  · exact Or.inl (by rw [hl])
  · refine Or.inr ⟨hhome, Or.inl ?_⟩
    rw [hl]
    simp [IoLoop.work, hcur]
  · refine Or.inr ⟨hhome, Or.inr ?_⟩
    rw [hl]
    simp [IoLoop.work]

/-- Where a task comes from. -/
theorem Accepted.mem (ha : Accepted s s' fd home buffer) {t : Task} (ht : t ∈ (s'.loops l).work) :
    t ∈ (s.loops l).work ∨ t = .life .connectionEstablished s.next ∧ l = home := by
  rcases ha.work l with hw | ⟨hl, hw | hw⟩
  · exact Or.inl (hw ▸ ht)
  · rw [hw, List.mem_cons] at ht
    exact ht.elim (fun he => Or.inr ⟨he, hl⟩) Or.inl
  · rw [hw, List.mem_append, List.mem_singleton] at ht
    exact ht.imp_right fun he => ⟨he, hl⟩

/-- A task stays. -/
theorem Accepted.keeps (ha : Accepted s s' fd home buffer) {t : Task} (ht : t ∈ (s.loops l).work) :
    t ∈ (s'.loops l).work := by
  rcases ha.work l with hw | ⟨-, hw | hw⟩
  · rwa [hw]
  · rw [hw]
    exact List.mem_cons_of_mem _ ht
  · rw [hw]
    exact List.mem_append_left _ ht

/-- Nothing is to be done yet for the connection that is made. -/
theorem RaceOk.unmade (h : s.RaceOk) (k : LifeStep) : .life k s.next ∉ (s.loops l).work := by
  intro ht
  have hlt := ((h.loops l).placed _ ht).1
  omega

/-- No connection alive has a descriptor that is closed. -/
theorem RaceOk.fd_ne (h : s.RaceOk) (hfd : s.isOpen fd = false) (hc : s.isAlive c) : s.fd c ≠ fd := by
  intro hcfd
  have hopen : s.isOpen fd = true := by
    unfold TcpServer.isOpen
    refine List.any_eq_true.2 ⟨c, List.mem_range.2 (h.lt_of_alive hc), ?_⟩
    rw [Bool.and_eq_true, decide_eq_true_eq, decide_eq_true_eq]
    exact ⟨hc, hcfd⟩
  rw [hfd] at hopen
  cases hopen

theorem RaceOk.accepted_mapped (h : s.RaceOk) (ha : Accepted s s' fd home buffer) (hfd : s.isOpen fd = false)
    (hm : s.m_connections (s.fd c) = some c) : s'.m_connections (s'.fd c) = some c := by
  obtain ⟨-, hal⟩ := h.map _ _ hm
  rw [(ha.same (h.lt_of_alive hal)).2.1, ha.map, Function.update_of_ne (h.fd_ne hfd hal)]
  exact hm

theorem RaceOk.accepted_unremoved (h : s.RaceOk) (ha : Accepted s s' fd home buffer)
    (hfd : s.isOpen fd = false) (hc : s.Unremoved c) : s'.Unremoved c := by
  obtain ⟨-, hal⟩ := h.map _ _ hc.mapped
  refine ⟨h.accepted_mapped ha hfd hc.mapped, fun l ht => ?_, ?_⟩
  · rcases ha.mem ht with ht | ⟨ht, -⟩
    · exact hc.unqueued l ht
    · cases ht
  · rw [(ha.same (h.lt_of_alive hal)).1]
    exact hc.trace

/-- **The loops after `handleNewConnection`.** -/
theorem RaceOk.accepted_arranged (h : s.RaceOk) (ha : Accepted s s' fd home buffer) (l : ℕ) :
    Arranged s'.home s'.next l (s'.loops l) := by
  obtain ⟨hplaced, horder, hkept, hdone, hactive, hinterest⟩ := h.loops l
  obtain ⟨-, hnewhome⟩ := ha.newIds
  have hnext := ha.next
  have hold : (s'.loops l).rest = (s.loops l).rest ∧ (s'.loops l).functors = (s.loops l).functors ∧
      (s'.loops l).pc = (s.loops l).pc ∧ (s'.loops l).active = (s.loops l).active ∧
      (s'.loops l).ep = (s.loops l).ep := by
    rcases ha.loops l with hl | ⟨-, ⟨-, hl⟩ | hl⟩
    · rw [hl]
      trivial
    · rw [hl]
      trivial
    · rw [hl]
      trivial
  obtain ⟨hrest, hfunctors, hpc, hact, hep⟩ := hold
  -- the new call is the only first call of its connection
  have hfirst : ∀ b ∈ (s.loops l).work, b ≠ .life .connectionEstablished s.next := by
    rintro b hb rfl
    exact h.unmade _ hb
  refine ⟨fun t ht => ?_, ?_, by rwa [hrest, hfunctors], by rwa [hpc, hrest], fun x hx => ?_, fun fd' x hx => ?_⟩
  · rcases ha.mem ht with ht | ⟨rfl, rfl⟩
    · exact (hplaced t ht).mono (by omega) fun c hc => (ha.same hc).2.2
    · exact ⟨by omega, hnewhome.symm⟩
  · rcases ha.work l with hw | ⟨-, hw | hw⟩
    · rwa [hw]
    · rw [hw]
      refine List.pairwise_cons.2 ⟨fun b hb => ⟨fun c d hc => (by cases hc), fun c hc => ?_⟩, horder⟩
      cases hc
      exact hfirst b hb
    · rw [hw]
      refine List.pairwise_append.2 ⟨horder, List.pairwise_singleton _ _, fun a hin b hb => ?_⟩
      rw [List.mem_singleton.1 hb]
      refine ⟨fun c d _ hd => (by cases hd), fun c hc he => ?_⟩
      cases he
      exact hfirst a hin hc
  · obtain ⟨hlt, hl⟩ := hactive x (hact ▸ hx)
    exact ⟨by omega, hl.trans (ha.same hlt).2.2.symm⟩
  · obtain ⟨hlt, hl⟩ := hinterest fd' x (hep ▸ hx)
    exact ⟨by omega, hl.trans (ha.same hlt).2.2.symm⟩

/-- **A connection that is made** is up, and all else is as it was. -/
theorem RaceOk.accepted_up (h : s.RaceOk) (ha : Accepted s s' fd home buffer) (hfd : s.isOpen fd = false)
    (hlt : c < s'.next) (hup : (s'.conns c).conn.m_state.isUp = true) :
    s'.Unremoved c ∧ ∀ l k, .life k c ∈ (s'.loops l).work → k = .connectionEstablished := by
  by_cases hcc : c = s.next
  · subst hcc
    have hown : ∀ l k, .life k s.next ∈ (s'.loops l).work → k = .connectionEstablished := by
      intro l k ht
      rcases ha.mem ht with ht | ⟨ht, -⟩
      · exact absurd ht (h.unmade k)
      · cases ht
        rfl
    refine ⟨⟨?_, fun l ht => ?_, ?_⟩, hown⟩
    · rw [ha.newIds.1, ha.map, Function.update_self]
    · cases hown l _ ht
    · rw [ha.new]
      exact List.not_mem_nil
  · have hlt' : c < s.next := by
      have hnext := ha.next
      omega
    rw [ha.old c hcc] at hup
    obtain ⟨hun, hnone⟩ := h.up c hlt' hup
    refine ⟨h.accepted_unremoved ha hfd hun, fun l k ht => ?_⟩
    rcases ha.mem ht with ht | ⟨ht, -⟩
    · exact hnone l k ht
    · cases ht
      rfl

/-- **A connection is made**, for a descriptor that was closed. -/
theorem accept_goes (h : s.RaceOk) (ha : Accepted s s' fd home buffer) (hhome : home < s.numLoops)
    (hfd : s.isOpen fd = false) : Goes r s s' := by
  have hnext := ha.next
  obtain ⟨hnewfd, hnewhome⟩ := ha.newIds
  have halive : ∀ {c}, s.isAlive c → s'.isAlive c := by
    intro c hc
    rw [TcpServer.isAlive, (ha.same (h.lt_of_alive hc)).1]
    exact hc
  have halive' : ∀ {c}, s'.isAlive c → c = s.next ∨ s.isAlive c := by
    intro c hc
    by_cases hcc : c = s.next
    · exact Or.inl hcc
    · rw [TcpServer.isAlive, ha.old c hcc] at hc
      exact Or.inr hc
  refine ⟨⟨h.accepted_arranged ha, fun c => ?_, fun c hc => ?_, fun c hc => ?_, fun fd' c hm => ?_,
    fun c₁ c₂ h₁ h₂ hfds => ?_, fun c hlt hup => h.accepted_up ha hfd hlt hup, fun l c ht => ?_,
    fun l c d ht => ?_⟩, by omega, fun c hc => (ha.same hc).2.2, fun c hc hst => by rwa [(ha.same hc).1],
    fun l x hx _ => ?_, fun c _ _ hc => h.accepted_unremoved ha hfd hc, fun _ _ _ ht => Or.inl (ha.keeps ht)⟩
  · by_cases hcc : c = s.next
    · rw [hcc, ha.new]
      rfl
    · rw [ha.old c hcc]
      exact h.self c
  · by_cases hcc : c = s.next
    · omega
    · rw [ha.old c hcc] at hc
      have hlt := h.born c hc
      omega
  · rw [ha.numLoops]
    by_cases hcc : c = s.next
    · rw [hcc, hnewhome]
      exact hhome
    · have hlt : c < s.next := by omega
      rw [(ha.same hlt).2.2]
      exact h.bound c hlt
  · rw [ha.map, Function.update_apply] at hm
    split at hm
    · next hf =>
      cases hm
      refine ⟨hnewfd.trans hf.symm, ?_⟩
      rw [TcpServer.isAlive, ha.new]
    · obtain ⟨hm1, hm2⟩ := h.map fd' c hm
      exact ⟨(ha.same (h.lt_of_alive hm2)).2.1.trans hm1, halive hm2⟩
  · -- the new connection has a descriptor of its own
    rcases halive' h₁ with rfl | h₁
    · rcases halive' h₂ with rfl | h₂
      · rfl
      · rw [hnewfd, (ha.same (h.lt_of_alive h₂)).2.1] at hfds
        exact absurd hfds.symm (h.fd_ne hfd h₂)
    · rw [(ha.same (h.lt_of_alive h₁)).2.1] at hfds
      rcases halive' h₂ with rfl | h₂
      · rw [hnewfd] at hfds
        exact absurd hfds (h.fd_ne hfd h₁)
      · rw [(ha.same (h.lt_of_alive h₂)).2.1] at hfds
        exact h.fds c₁ c₂ h₁ h₂ hfds
  · rcases ha.mem ht with ht | ⟨ht, -⟩
    · rw [(ha.same ((h.loops l).placed _ ht).1).1]
      exact h.establishing l c ht
    · cases ht
      rw [ha.new]
      rfl
  · rcases ha.mem ht with ht | ⟨ht, -⟩
    · obtain ⟨h1, h2, h3, h4⟩ := h.deferred l c d ht
      exact ⟨h1, halive h2, by rwa [(ha.same (h.lt_of_alive h2)).1], h4.imp (h.accepted_mapped ha hfd) ha.keeps⟩
    · cases ht
  · rcases ha.loops l with hl | ⟨-, ⟨hnil, -⟩ | hl⟩
    · rw [hl]
    · rw [hnil] at hx
      cases hx
    · rw [hl]

end

/-! ## Calls -/

section

variable {popped : Option Task} {stack : List Task} {e : Effect Q}

/-- **A call about one connection**, beside the threads in code of the user. -/
theorem RaceOk.goes (h : s.RaceOk) (hch : Change s l c popped e) (hc : s.isAlive c)
    (hcur : (s.loops l).current = popped.toList ++ stack)
    (hstack : ∀ x, (s.loops l).current.head? = some (.user x) → e.calls ++ stack = (s.loops l).current)
    (hremove : popped = some (.life .handleRemoveConnectionInLoop c) →
      ∀ x, (s.loops 0).current.head? ≠ some (.user x)) :
    Goes r s (s.after l c e stack) := by
  obtain ⟨-, hnext, -, -, -, -⟩ := apply_rest (s.setCurrent l (e.calls ++ stack)) c e
  obtain ⟨-, hhome, -⟩ := after_ids l stack hch.same
  refine ⟨h.change hch hc hcur, hnext.ge, fun c' _ => by rw [hhome], fun c' _ hst => ?_,
    fun l' x hx _ => ?_, fun c' x hx hun => ?_, fun l' c' d ht => ?_⟩
  · by_cases hcc : c' = c
    · subst hcc
      rw [change_conn]
      rcases hch.stays with hst' | ⟨hst', -⟩
      · exact hst' ▸ hst
      · exact hst'
    · rw [change_conns c' hcc]
      exact hst
  · rw [after_loop]
    dsimp only
    split
    · next hl =>
      subst hl
      exact hstack x hx
    · rfl
  · exact h.change_unremoved hch hc hcur (fun her => absurd hx (hremove (hch.erased her).1 x)) hun
  · refine (change_keeps hcur ht).imp_right fun ⟨hl, hpop⟩ => ?_
    rw [hl, hcur, hpop]
    rfl

/-- A call in the code of the user takes nothing off the stack. -/
theorem RaceOk.call (h : s.RaceOk) (hc : s.isAlive c) (hch : Change s l c none e) (hnone : e.calls = []) :
    Goes r s (s.apply c e) := by
  have hcur : (s.loops l).current = (none : Option Task).toList ++ (s.loops l).current := rfl
  have hgoes := h.goes (r := r) hch hc hcur (fun _ _ => by rw [hnone]; rfl) fun hpop => by cases hpop
  have hsame : s.setCurrent l (e.calls ++ (s.loops l).current) = s := by
    unfold setCurrent setLoop
    rw [hnone, List.nil_append, Function.update_eq_self]
  rwa [after, hsame] at hgoes

/-- A handler that queues nothing. -/
theorem RaceOk.handles (h : s.RaceOk) (hpops : ∀ t, popped = some t → t.subject = some c)
    (hh : Handles (s.loops (s.home c)).ep (s.conns c).conn e.ep e.conn) (hq : e.queued = none)
    (her : e.erased = false)
    (hcalls : ∀ t ∈ e.calls, t = .user (some c) ∧ l = s.home c ∨
      ∃ k, t = .life k c ∧ k ≠ .connectionEstablished ∧ k ≠ .connectionDestructor ∧
        l = k.place (s.home c) ∧ e.conn.m_state.isUp = false) : Change s l c popped e where
  same := hh.same
  interest fd x hx := (hh.interest fd x hx).imp_left fun hx => hx.trans (h.self c)
  state hup := by
    rcases hh.state with hst | ⟨hst, -⟩
    · rwa [hst] at hup
    · rw [hst] at hup
      cases hup
  stays := by
    rcases hh.state with hst | ⟨hst, hne⟩
    · exact Or.inl hst
    · exact Or.inr ⟨by rw [hst]; decide, Or.inl hne⟩
  trace ht := Or.inl (hh.trace ht)
  pops := hpops
  calls := hcalls
  queued l' t ht := by
    rw [hq] at ht
    cases ht
  erased ht := by
    rw [her] at ht
    cases ht

theorem Effect.of_eq {res : Except Failure (Epoller × TcpConnection Q)} {calls : List Task}
    (h : Effect.of res calls = .ok e) :
    res = .ok (e.ep, e.conn) ∧ e.calls = calls ∧ e.queued = none ∧ e.erased = false := by
  unfold Effect.of at h
  split at h
  · cases h
    exact ⟨rfl, rfl, rfl, rfl⟩
  · cases h

/-- The task under way is one of its connection. -/
theorem popped_subject {t : Task} (h : t.subject = some c) : ∀ t', some t = some t' → t'.subject = some c := by
  rintro t' ht
  cases ht
  exact h

/-- The first call of a connection. -/
theorem RaceOk.established_change (h : s.RaceOk) (hmem : .life .connectionEstablished c ∈ (s.loops l).work)
    (hrun : runLife (s.loops (s.home c)).ep l (s.conns c).conn c .connectionEstablished = .ok e) :
    Change s l c (some (.life .connectionEstablished c)) e := by
  obtain ⟨hset, hcalls, hq, her⟩ := Effect.of_eq hrun
  have hst := h.establishing l c hmem
  have hh := setEvents_handles hset
  obtain ⟨i, hconn⟩ := setEvents_ok hset
  refine ⟨⟨hh.same.self, hh.same.loop, hh.same.fd⟩,
    fun fd x hx => (hh.interest fd x hx).imp_left fun hx => hx.trans (h.self c), fun _ => by rw [hst]; rfl,
    Or.inr ⟨by rw [hconn]; simp, Or.inr rfl⟩, fun ht => Or.inl (hh.trace ht), popped_subject rfl, ?_, ?_, ?_⟩
  · intro t ht
    rw [hcalls, List.mem_singleton] at ht
    exact Or.inl ⟨ht, ((h.loops l).placed _ hmem).2⟩
  · intro l' t ht
    rw [hq] at ht
    cases ht
  · intro ht
    rw [her] at ht
    cases ht

/-- The close callback: the removal is called or queued in the base loop. -/
theorem RaceOk.closeCallback_change (h : s.RaceOk) (hmem : .life .closeCallback c ∈ (s.loops l).work)
    (hrun : runLife (s.loops (s.home c)).ep l (s.conns c).conn c .closeCallback = .ok e) :
    Change s l c (some (.life .closeCallback c)) e := by
  have hdown := h.not_up (by decide) hmem
  have hclose : ∀ (calls : List Task) (q : Option (ℕ × Task)),
      (∀ t ∈ calls, t = .life .handleRemoveConnectionInLoop c ∧ l = 0) →
      (∀ l' t, q = some (l', t) → t = .life .handleRemoveConnectionInLoop c ∧ l' = 0) →
      Change s l c (some (.life .closeCallback c))
        ⟨{ (s.conns c).conn with trace := (s.conns c).conn.trace ++ [.closeCallback] },
          (s.loops (s.home c)).ep, calls, q, false⟩ := by
    intro calls q hcalls hq
    refine ⟨⟨rfl, rfl, rfl⟩, fun _ _ hx => Or.inr hx, id, Or.inl rfl, fun ht => Or.inl (by simpa using ht),
      popped_subject rfl, fun t ht => ?_, fun l' t ht => ?_, fun ht => by cases ht⟩
    · obtain ⟨rfl, hl⟩ := hcalls t ht
      exact Or.inr ⟨_, rfl, by decide, by decide, hl, hdown⟩
    · obtain ⟨rfl, hl⟩ := hq l' t ht
      exact Or.inl ⟨_, rfl, by decide, hl, hdown, fun hk => by cases hk⟩
  unfold runLife at hrun
  dsimp only at hrun
  split at hrun
  · next hl =>
    cases hrun
    refine hclose _ _ (fun t ht => ⟨List.mem_singleton.1 ht, hl⟩) fun _ _ ht => by cases ht
  · cases hrun
    refine hclose _ _ (fun _ ht => by cases ht) fun l' t ht => ?_
    cases ht
    exact ⟨rfl, rfl⟩

/-- The last call of a connection. -/
theorem RaceOk.destructor_change (h : s.RaceOk) (hmem : .life .connectionDestructor c ∈ (s.loops l).work)
    (hrun : runLife (s.loops (s.home c)).ep l (s.conns c).conn c .connectionDestructor = .ok e) :
    Change s l c (some (.life .connectionDestructor c)) e := by
  obtain ⟨-, hplace⟩ := (h.loops l).placed _ hmem
  obtain ⟨hdes, hcalls, hq, her⟩ := Effect.of_eq hrun
  have hdown := h.not_up (by decide) hmem
  -- the state is left as it is, or the connection is disconnected
  have hconn : SameId (s.conns c).conn e.conn ∧
      (∀ fd x, e.ep.interest fd = some x → x.2 = c ∨ (s.loops (s.home c)).ep.interest fd = some x) ∧
      (e.conn.m_state = (s.conns c).conn.m_state ∨
        e.conn.m_state = .kDisconnected ∧ (s.conns c).conn.m_state ≠ .kConnecting) := by
    unfold TcpConnection.connectionDestructor at hdes
    dsimp only at hdes
    split at hdes
    · have hh := setEvents_handles hdes
      obtain ⟨i, hconn⟩ := setEvents_ok hdes
      refine ⟨⟨hh.same.self, hh.same.loop, hh.same.fd⟩,
        fun fd x hx => (hh.interest fd x hx).imp_left fun hx => hx.trans (h.self c),
        Or.inr ⟨by rw [hconn], fun h0 => ?_⟩⟩
      rw [h0] at hdown
      cases hdown
    · simp only [Except.ok.injEq, Prod.mk.injEq] at hdes
      rw [← hdes.1, ← hdes.2]
      exact ⟨⟨rfl, rfl, rfl⟩, fun _ _ hx => Or.inr hx, Or.inl rfl⟩
  obtain ⟨hsame, hint, hst⟩ := hconn
  have hdown' : e.conn.m_state.isUp = false := by
    rcases hst with hst | ⟨hst, -⟩
    · rw [hst]
      exact hdown
    · rw [hst]
      rfl
  refine ⟨hsame, hint, fun hup => ?_, ?_, fun _ => Or.inr rfl, popped_subject rfl, fun t ht => ?_,
    fun l' t ht => ?_, fun ht => ?_⟩
  · rw [hdown'] at hup
    cases hup
  · rcases hst with hst | ⟨hst, hne⟩
    · exact Or.inl hst
    · exact Or.inr ⟨by rw [hst]; decide, Or.inl hne⟩
  · rw [hcalls, List.mem_cons, List.mem_singleton] at ht
    rcases ht with rfl | rfl
    · exact Or.inl ⟨rfl, hplace⟩
    · exact Or.inr ⟨_, rfl, by decide, by decide, hplace, hdown'⟩
  · rw [hq] at ht
    cases ht
  · rw [her] at ht
    cases ht

/-- **The steps of a life.** -/
theorem RaceOk.runLife_change (h : s.RaceOk) {k : LifeStep} (hmem : .life k c ∈ (s.loops l).work)
    (hrun : runLife (s.loops (s.home c)).ep l (s.conns c).conn c k = .ok e) :
    Change s l c (some (.life k c)) e := by
  cases k with
  | connectionEstablished => exact h.established_change hmem hrun
  | closeCallback => exact h.closeCallback_change hmem hrun
  | handleRemoveConnectionInLoop =>
    have hdown := h.not_up (by decide) hmem
    cases hrun
    refine ⟨.refl _, fun _ _ hx => Or.inr hx, id, Or.inl rfl, Or.inl, popped_subject rfl,
      fun _ ht => (by cases ht), fun l' t ht => ?_, fun _ => ⟨rfl, hdown, rfl⟩⟩
    cases ht
    exact Or.inl ⟨_, rfl, by decide, rfl, hdown, fun _ => rfl⟩
  | connectionDestructor => exact h.destructor_change hmem hrun
  | remove =>
    obtain ⟨hrem, hcalls, hq, her⟩ := Effect.of_eq hrun
    refine h.handles (popped_subject rfl) (removeChannel_handles hrem) hq her fun t ht => ?_
    rw [hcalls] at ht
    cases ht

variable [ByteQueue Q]

/-- **A task of loop `l`.** -/
theorem RaceOk.runTask_change (h : s.RaceOk) {t : Task} (hmem : t ∈ (s.loops l).work)
    (hsub : t.subject = some c) {read : Except ℕ Bytes} {write : Except ℕ ℕ}
    (hrun : runTask (s.loops (s.home c)).ep l (s.conns c).conn read write t = .ok e) :
    Change s l c (some t) e := by
  have hplaced := (h.loops l).placed t hmem
  have hpops := popped_subject hsub
  cases t with
  | life k c' =>
    cases hsub
    exact h.runLife_change hmem hrun
  | deferred c' d =>
    cases hsub
    have hplace : l = s.home c := hplaced.2
    cases d with
    | sendInLoop msg =>
      obtain ⟨hsend, hcalls, hq, her⟩ := Effect.of_eq hrun
      refine h.handles hpops (sendInLoop_handles hsend) hq her fun t ht => ?_
      rw [hcalls] at ht
      cases ht
    | shutDownInLoop =>
      cases hrun
      exact h.handles hpops (shutDownInLoop_handles _ _) rfl rfl fun _ ht => by cases ht
    | forceCloseInLoop =>
      unfold runTask forceCloseInLoop at hrun
      dsimp only at hrun
      split at hrun
      · obtain ⟨hclose, hcalls, hq, her⟩ := Effect.of_eq hrun
        obtain ⟨hh, hst⟩ := handleClose_handles hclose
        refine h.handles hpops hh hq her fun t ht => ?_
        rw [hcalls, List.mem_singleton] at ht
        exact Or.inr ⟨_, ht, by decide, by decide, hplace, by rw [hst]; rfl⟩
      · cases hrun
        exact h.handles hpops (.refl _ _) rfl rfl fun _ ht => by cases ht
  | handleRead c' =>
    cases hsub
    have hplace : l = s.home c := hplaced.2
    unfold runTask at hrun
    dsimp only at hrun
    split at hrun
    · next ep₁ conn₁ callback hread =>
      obtain ⟨hh, hclosed⟩ := handleRead_handles hread
      cases hrun
      refine h.handles hpops hh rfl rfl fun t ht => ?_
      -- by the callback that it ends in
      cases callback with
      | none => cases ht
      | some b =>
        cases b with
        | message => exact Or.inl ⟨List.mem_singleton.1 ht, hplace⟩
        | close =>
          refine Or.inr ⟨_, List.mem_singleton.1 ht, by decide, by decide, hplace, ?_⟩
          rw [hclosed rfl]
          rfl
    · cases hrun
  | handleWrite c' =>
    cases hsub
    obtain ⟨hwrite, hcalls, hq, her⟩ := Effect.of_eq hrun
    refine h.handles hpops (handleWrite_handles hwrite) hq her fun t ht => ?_
    rw [hcalls] at ht
    cases ht
  | user x => cases hsub

/-- **A call under way.** -/
theorem RaceOk.exec (h : s.RaceOk) {t : Task} {stack : List Task} (hcur : (s.loops l).current = t :: stack)
    (hsub : t.subject = some c) (hc : s.isAlive c) {read : Except ℕ Bytes} {write : Except ℕ ℕ}
    (hrun : runTask (s.loops (s.home c)).ep l (s.conns c).conn read write t = .ok e) :
    Goes r s (s.after l c e stack) := by
  have hmem : t ∈ (s.loops l).work := by
    rw [IoLoop.work, hcur]
    simp
  have hhead : ∀ x, (s.loops l).current.head? ≠ some (.user x) := by
    intro x hx
    rw [hcur, List.head?_cons] at hx
    cases hx
    cases hsub
  refine h.goes (h.runTask_change hmem hsub hrun) hc hcur (fun x hx => absurd hx (hhead x)) fun hpop => ?_
  -- a connection is removed in the base loop only
  cases hpop
  obtain ⟨-, hl⟩ := (h.loops l).placed _ hmem
  have hl0 : l = 0 := hl
  subst hl0
  exact hhead

/-- The user's code sends on the home loop. -/
theorem RaceOk.send (h : s.RaceOk) {msg : Bytes} (hc : s.isAlive c) {write : Except ℕ ℕ}
    (hrun : runCall (s.loops (s.home c)).ep (s.conns c).conn true write (.send c msg) = .ok e) :
    Goes r s (s.apply c e) := by
  unfold runCall TcpConnection.send at hrun
  dsimp only at hrun
  split at hrun
  · next hsend =>
    cases hrun
    split at hsend
    · rw [if_pos rfl] at hsend
      split at hsend
      · next hin =>
        cases hsend
        exact h.call (l := s.home c) hc (h.handles (fun _ ht => by cases ht) (sendInLoop_handles hin) rfl rfl
          fun _ ht => by cases ht) rfl
      · cases hsend
    · cases hsend
      exact h.call (l := s.home c) hc (h.handles (fun _ ht => by cases ht) (.refl _ _) rfl rfl
        fun _ ht => by cases ht) rfl
  · cases hrun

end

/-- The next channel that was reported. -/
theorem RaceOk.handleEvent (h : s.RaceOk) (hpc : (s.loops l).pc = .dispatch) (hcur : (s.loops l).current = [])
    (hstep : s.handleEvent l = some s') : Goes r s s' := by
  unfold TcpServer.handleEvent at hstep
  split at hstep
  · cases hstep
  · next c revents active hact =>
    obtain ⟨hlt, hl⟩ := (h.loops l).active (c, revents) (by rw [hact]; exact List.mem_cons_self)
    split at hstep
    · cases hstep
      refine h.callsBack hpc hcur (fun x hx => ?_) (fun t ht => ?_) fun t ht => ?_
      · rw [hact]
        exact List.mem_cons_of_mem _ hx
      · rcases dispatched_cases ht with rfl | rfl <;> rfl
      · rcases dispatched_cases ht with rfl | rfl <;> exact ⟨hlt, hl⟩
    · cases hstep
      exact (Goes.refl h).owners s.owners _

variable [ByteQueue Q] {buffer : Q} {a : ServerStep}

/-- **A step of the server**, other than a call from the code of the user. -/
theorem RaceOk.step (h : s.RaceOk) (ha : ∀ thread call write, a ≠ .call thread call write)
    (hstep : s.step buffer a = some s') : Goes a.returns s s' := by
  unfold TcpServer.step at hstep
  split at hstep
  · cases hstep
  cases a with
  | poll l ready =>
    dsimp only at hstep
    split at hstep
    · cases hstep
      have hL := h.loops l
      refine h.move rfl hL.kept (fun _ => hL.done (by simp_all)) (fun x hx => ?_) rfl fun _ _ => rfl
      -- the channels of the interest set are at home
      obtain ⟨y, -, hy⟩ := List.mem_filterMap.1 hx
      obtain ⟨z, hz, rfl⟩ := Option.map_eq_some_iff.1 hy
      exact hL.interest _ z hz
    · cases hstep
  | handleEvent l =>
    dsimp only at hstep
    split at hstep
    · next hg =>
      obtain ⟨-, hpc, hcur⟩ := hg
      exact h.handleEvent hpc hcur hstep
    · cases hstep
  | exec l read write =>
    dsimp only at hstep
    split at hstep
    · cases hstep
    · next t stack hcur =>
      split at hstep
      · cases hstep
      · next c hsub =>
        split at hstep
        · next hc =>
          split at hstep
          · next e hrun =>
            cases hstep
            exact h.exec hcur hsub hc hrun
          · cases hstep
            exact (Goes.refl h).owners s.owners _
        · cases hstep
          exact (Goes.refl h).owners s.owners _
  | return_ l =>
    dsimp only at hstep
    split at hstep
    · next hcur =>
      cases hstep
      exact return_goes h hcur
    · cases hstep
  | swap l =>
    dsimp only at hstep
    split at hstep
    · next hg =>
      obtain ⟨hpc, hact, hcur⟩ := hg
      cases hstep
      have hrest := (h.loops l).done (by rw [hpc]; decide)
      refine h.move ?_ (fun t ht => ht) (fun hne => absurd rfl hne) (h.loops l).active rfl fun _ _ => rfl
      simp [IoLoop.work, hrest]
    · cases hstep
  | nextFunctor l =>
    dsimp only at hstep
    split at hstep
    · next t rest hpc hcur hrest =>
      cases hstep
      refine h.move ?_ (fun t' ht => ?_) (fun hne => absurd hpc hne) (h.loops l).active rfl fun x hx => ?_
      · simp [IoLoop.work, hcur, hrest]
      · exact (h.loops l).kept t' (by rw [hrest]; exact List.mem_cons_of_mem _ ht)
      · rw [hcur] at hx
        cases hx
    · cases hstep
  | endPass l =>
    dsimp only at hstep
    split at hstep
    · next hg =>
      obtain ⟨-, -, hrest⟩ := hg
      cases hstep
      refine h.move rfl (fun t ht => ?_) (fun _ => hrest) (h.loops l).active rfl fun _ _ => rfl
      dsimp only at ht
      rw [hrest] at ht
      cases ht
    · cases hstep
  | accept fd home =>
    dsimp only at hstep
    split at hstep
    · next hg =>
      obtain ⟨hhome, -, hcur, hfd⟩ := hg
      cases hstep
      exact accept_goes h (accepted hcur fd home buffer) hhome (by simpa using hfd)
    · cases hstep
  | timer l =>
    dsimp only at hstep
    split at hstep
    · next hg =>
      obtain ⟨-, hpc, hcur⟩ := hg
      cases hstep
      refine h.callsBack hpc hcur (fun x (hx : x ∈ (s.loops l).active) => hx) (fun t ht => ?_) fun t ht => ?_
      · rw [List.mem_singleton.1 ht]
        rfl
      · rw [List.mem_singleton.1 ht]
        trivial
    · cases hstep
  | call thread call write => exact absurd rfl (ha thread call write)
  | retain c =>
    dsimp only at hstep
    split at hstep
    · cases hstep
      exact (Goes.refl h).owners _ s.failed
    · cases hstep
  | release c =>
    dsimp only at hstep
    split at hstep
    · cases hstep
      exact (Goes.refl h).owners _ s.failed
    · cases hstep
  | close c =>
    dsimp only at hstep
    split at hstep
    · next hg =>
      cases hstep
      exact close_goes h hg.1 (by simpa using hg.2)
    · cases hstep
  | destroy c =>
    dsimp only at hstep
    split at hstep
    · next hg =>
      cases hstep
      exact destroy_goes h hg
    · cases hstep

/-- The user's code sends, in a callback of the connection. -/
theorem RaceOk.sendStep (h : s.RaceOk) {msg : Bytes} {write : Except ℕ ℕ}
    (hcur : (s.loops l).current.head? = some (.user (some c)))
    (hstep : s.step buffer (.call (some l) (.send c msg) write) = some s') : Goes r s s' := by
  have hmem : .user (some c) ∈ (s.loops l).work := by
    rw [IoLoop.work, List.append_assoc]
    exact List.mem_append_left _ (List.mem_of_mem_head? hcur)
  obtain ⟨-, hl⟩ := (h.loops l).placed _ hmem
  unfold TcpServer.step at hstep
  split at hstep
  · cases hstep
  · dsimp only [UserCall.target] at hstep
    split at hstep
    · next hg =>
      rw [show decide (some l = some (s.home c)) = true by simpa using hl] at hstep
      split at hstep
      · next hrun =>
        cases hstep
        exact h.send hg.2 hrun
      · cases hstep
        exact (Goes.refl h).owners s.owners _
    · cases hstep

/-- Owners come and go. -/
theorem run_owned {steps : List ServerStep} (hall : ∀ a ∈ steps, (∃ c, a = .retain c) ∨ ∃ c, a = .release c)
    (hrun : run (TcpServer.step buffer) s steps = some s') : ∃ owners, s' = { s with owners := owners } := by
  refine run_inv_along (C := fun _ a => (∃ c, a = .retain c) ∨ ∃ c, a = .release c)
    (I := fun t : TcpServer Q => ∃ owners, t = { s with owners := owners }) ?_ steps ⟨s.owners, rfl⟩
    (along_of_forall s hall) hrun
  rintro _ a t ⟨owners, rfl⟩ ha hstep
  unfold TcpServer.step at hstep
  split at hstep
  · cases hstep
  rcases ha with ⟨c, rfl⟩ | ⟨c, rfl⟩
  · dsimp only at hstep
    split at hstep
    · cases hstep
      exact ⟨_, rfl⟩
    · cases hstep
  · dsimp only at hstep
    split at hstep
    · cases hstep
      exact ⟨_, rfl⟩
    · cases hstep

end TcpServer

end MyMuduo
