import MyMuduo.Proof.Handlers
import MyMuduo.Proof.ServerMoves

/-!
# A server with late stores

A store to `m_state` that comes late can hit a connection that is closed by then, so the phases of a
connection no longer tell its state. What is left is `RaceOk`:

* a connection that was never closed is in `m_connections`, and nothing of its end is to come (`up`);
* a raw `this` is queued at the home of its connection, which is in `m_connections`, or its destructor
  comes behind (`deferred`).

`Change` is what a call about one connection can do, and `RaceOk.change` that it keeps the server in
order.
-/

namespace MyMuduo

open Lib

variable {Q : Type}

/-! ## The invariant -/

/-- The task is on the loop where it belongs. -/
def Task.PlacedAt (home : ℕ → ℕ) (next l : ℕ) : Task → Prop
  | .life k c => c < next ∧ l = k.place (home c)
  | .deferred c _ | .handleRead c | .handleWrite c | .user (some c) => c < next ∧ l = home c
  | .user none => True

/-- The task is a step of a life, or is bound to a raw `this`. -/
def Task.isOwed : Task → Bool
  | .life _ _ | .deferred _ _ => true
  | .handleRead _ | .handleWrite _ | .user _ => false

/-- The connections that were made stay where they are. -/
theorem Task.PlacedAt.mono {home home' : ℕ → ℕ} {next next' l : ℕ} {t : Task} (h : t.PlacedAt home next l)
    (hnext : next ≤ next') (hhome : ∀ c, c < next → home' c = home c) : t.PlacedAt home' next' l := by
  cases t with
  | life k c => exact ⟨h.1.trans_le hnext, by rw [hhome c h.1]; exact h.2⟩
  | deferred c d => exact ⟨h.1.trans_le hnext, by rw [hhome c h.1]; exact h.2⟩
  | handleRead c => exact ⟨h.1.trans_le hnext, by rw [hhome c h.1]; exact h.2⟩
  | handleWrite c => exact ⟨h.1.trans_le hnext, by rw [hhome c h.1]; exact h.2⟩
  | user x =>
    cases x with
    | none => trivial
    | some c => exact ⟨h.1.trans_le hnext, by rw [hhome c h.1]; exact h.2⟩

/-- No raw `this` comes behind the destructor, and nothing is established twice. -/
def InOrder (a b : Task) : Prop :=
  NotBehind a b ∧ ∀ c, a = .life .connectionEstablished c → b ≠ .life .connectionEstablished c

/-- **What loop `l` is about to do**, when `next` connections were made. -/
structure Arranged (home : ℕ → ℕ) (next l : ℕ) (L : IoLoop) : Prop where
  placed : ∀ t ∈ L.work, t.PlacedAt home next l
  order : L.work.Pairwise InOrder
  kept : ∀ t ∈ L.rest, t ∈ L.functors
  done : L.pc ≠ .functors → L.rest = []
  active : ∀ x ∈ L.active, x.1 < next ∧ l = home x.1
  interest : ∀ fd x, L.ep.interest fd = some x → x.2 < next ∧ l = home x.2

/-- The loop whose callback a step ends. -/
def ServerStep.returns : ServerStep → Option ℕ
  | .return_ l => some l
  | _ => none

namespace TcpServer

/-- The connection is in `m_connections`, and its destructor neither ran nor is queued. -/
structure Unremoved (s : TcpServer Q) (c : ℕ) : Prop where
  mapped : s.m_connections (s.fd c) = some c
  unqueued : ∀ l, .life .connectionDestructor c ∉ (s.loops l).work
  trace : .connectionDestructor ∉ (s.conns c).conn.trace

/-- **The server, as far as it survives a store to `m_state` that comes late.** -/
structure RaceOk (s : TcpServer Q) : Prop where
  loops : ∀ l, Arranged s.home s.next l (s.loops l)
  self : ∀ c, (s.conns c).conn.self = c
  born : ∀ c, (s.conns c).life ≠ .unborn → c < s.next
  bound : ∀ c, c < s.next → s.home c < s.numLoops
  map : ∀ fd c, s.m_connections fd = some c → s.fd c = fd ∧ s.isAlive c
  fds : ∀ c c', s.isAlive c → s.isAlive c' → s.fd c = s.fd c' → c = c'
  /-- nothing of the end of a connection is to come while it is up -/
  up : ∀ c, c < s.next → (s.conns c).conn.m_state.isUp = true →
    s.Unremoved c ∧ ∀ l k, .life k c ∈ (s.loops l).work → k = .connectionEstablished
  establishing : ∀ l c, .life .connectionEstablished c ∈ (s.loops l).work →
    (s.conns c).conn.m_state = .kConnecting
  deferred : ∀ l c d, .deferred c d ∈ (s.loops l).work →
    d = .shutDownInLoop ∧ s.isAlive c ∧ .connectionDestructor ∉ (s.conns c).conn.trace ∧
      (s.m_connections (s.fd c) = some c ∨ .life .connectionDestructor c ∈ (s.loops l).work)

variable {s s' : TcpServer Q} {l c : ℕ}

theorem RaceOk.lt_of_alive (h : s.RaceOk) (hc : s.isAlive c) : c < s.next :=
  h.born c fun h0 => by
    rw [TcpServer.isAlive, h0] at hc
    cases hc

/-- What keeps a deferred functor safe is an owner. -/
theorem RaceOk.owned (h : s.RaceOk)
    (hc : s.m_connections (s.fd c) = some c ∨ .life .connectionDestructor c ∈ (s.loops l).work) :
    s.owned c = true := by
  unfold TcpServer.owned
  rcases hc with hc | hc
  · simp [hc]
  · obtain ⟨hlt, hl⟩ := (h.loops l).placed _ hc
    have hbound : l < s.numLoops := hl ▸ h.bound c hlt
    have hheld : .life .connectionDestructor c ∈
        (s.loops l).current ++ (s.loops l).functors ++ (s.loops l).m_pending_functors := by
      simp only [IoLoop.work, List.mem_append] at hc ⊢
      rcases hc with (hc | hc) | hc
      · exact Or.inl (Or.inl hc)
      · exact Or.inl (Or.inr ((h.loops l).kept _ hc))
      · exact Or.inr hc
    have hany : ((List.range s.numLoops).any fun l =>
        ((s.loops l).current ++ (s.loops l).functors ++ (s.loops l).m_pending_functors).any
          fun t => decide (t.owner = some c)) = true :=
      List.any_eq_true.2 ⟨l, List.mem_range.2 hbound, List.any_eq_true.2 ⟨_, hheld, by simp [Task.owner]⟩⟩
    rw [Bool.or_eq_true]
    exact Or.inr hany

/-- A connection whose destructor is due is not up. -/
theorem RaceOk.not_up (h : s.RaceOk) {k : LifeStep} (hk : k ≠ .connectionEstablished)
    (hc : .life k c ∈ (s.loops l).work) : (s.conns c).conn.m_state.isUp = false := by
  by_contra hup
  exact hk ((h.up c ((h.loops l).placed _ hc).1 (by simpa using hup)).2 l k hc)

/-! ## A call about one connection -/

/-- **What a call about `c` leaves behind** in the thread of loop `l`, where it takes `popped` off the
stack. -/
structure Change (s : TcpServer Q) (l c : ℕ) (popped : Option Task) (e : Effect Q) : Prop where
  same : SameId (s.conns c).conn e.conn
  interest : ∀ fd x, e.ep.interest fd = some x →
    x.2 = c ∨ (s.loops (s.home c)).ep.interest fd = some x
  state : e.conn.m_state.isUp = true → (s.conns c).conn.m_state.isUp = true
  stays : e.conn.m_state = (s.conns c).conn.m_state ∨ (e.conn.m_state ≠ .kConnecting ∧
    ((s.conns c).conn.m_state ≠ .kConnecting ∨ popped = some (.life .connectionEstablished c)))
  trace : .connectionDestructor ∈ e.conn.trace →
    .connectionDestructor ∈ (s.conns c).conn.trace ∨ popped = some (.life .connectionDestructor c)
  pops : ∀ t, popped = some t → t.subject = some c
  calls : ∀ t ∈ e.calls, t = .user (some c) ∧ l = s.home c ∨
    ∃ k, t = .life k c ∧ k ≠ .connectionEstablished ∧ k ≠ .connectionDestructor ∧
      l = k.place (s.home c) ∧ e.conn.m_state.isUp = false
  queued : ∀ l' t, e.queued = some (l', t) →
    (∃ k, t = .life k c ∧ k ≠ .connectionEstablished ∧ l' = k.place (s.home c) ∧
      e.conn.m_state.isUp = false ∧ (k = .connectionDestructor → e.erased = true)) ∨
    t = .deferred c .shutDownInLoop ∧ l' = s.home c ∧ s.Unremoved c ∧ e.erased = false ∧ popped = none
  erased : e.erased = true →
    popped = some (.life .handleRemoveConnectionInLoop c) ∧ e.conn.m_state.isUp = false ∧
      e.queued = some (s.home c, .life .connectionDestructor c)

section

variable {popped : Option Task} {stack : List Task} {e : Effect Q}

/-- The server after the call, with `stack` what is left under it. -/
abbrev after (s : TcpServer Q) (l c : ℕ) (e : Effect Q) (stack : List Task) : TcpServer Q :=
  (s.setCurrent l (e.calls ++ stack)).apply c e

/-- A loop after the call. -/
theorem after_loop (l' : ℕ) :
    (s.after l c e stack).loops l' = { s.loops l' with
      ep := if l' = s.home c then e.ep else (s.loops l').ep
      current := if l' = l then e.calls ++ stack else (s.loops l').current
      m_pending_functors := (s.loops l').m_pending_functors ++ queuedAt e.queued l' } := by
  rw [apply_loops]
  by_cases hl : l' = l
  · subst hl
    rw [if_pos rfl]
    simp only [setCurrent, setLoop, Function.update_self]
    rfl
  · rw [if_neg hl, show (s.setCurrent l (e.calls ++ stack)).loops l' = s.loops l' from
      Function.update_of_ne hl _ _]
    rfl

/-- What there is to do after a call: `W` was there before and is there still. -/
theorem change_work (hcur : (s.loops l).current = popped.toList ++ stack) (l' : ℕ) :
    ∃ W, (s.loops l').work = (if l' = l then popped.toList else []) ++ W ∧
      ((s.after l c e stack).loops l').work =
        (if l' = l then e.calls else []) ++ W ++ queuedAt e.queued l' := by
  rw [after_loop]
  by_cases hl : l' = l
  · subst hl
    refine ⟨stack ++ (s.loops l').rest ++ (s.loops l').m_pending_functors, ?_, ?_⟩
    · rw [if_pos rfl, IoLoop.work, hcur]
      simp only [List.append_assoc]
    · simp only [IoLoop.work, if_true, List.append_assoc]
  · refine ⟨(s.loops l').work, ?_, ?_⟩
    · rw [if_neg hl, List.nil_append]
    · simp only [IoLoop.work, if_neg hl, List.nil_append, List.append_assoc]

/-- Where a task comes from. -/
theorem change_mem (hcur : (s.loops l).current = popped.toList ++ stack) {l' : ℕ} {t : Task}
    (ht : t ∈ ((s.after l c e stack).loops l').work) :
    t ∈ (s.loops l').work ∨ (l' = l ∧ t ∈ e.calls) ∨ e.queued = some (l', t) := by
  obtain ⟨W, hW, hW'⟩ := change_work (c := c) (e := e) hcur l'
  rw [hW', List.mem_append, List.mem_append] at ht
  rcases ht with (ht | ht) | ht
  · split at ht
    · next hl => exact Or.inr (Or.inl ⟨hl, ht⟩)
    · cases ht
  · rw [hW]
    exact Or.inl (List.mem_append_right _ ht)
  · exact Or.inr (Or.inr (mem_queuedAt ht))

/-- A task stays until it is taken off the stack. -/
theorem change_keeps (hcur : (s.loops l).current = popped.toList ++ stack) {l' : ℕ} {t : Task}
    (ht : t ∈ (s.loops l').work) :
    t ∈ ((s.after l c e stack).loops l').work ∨ (l' = l ∧ popped = some t) := by
  obtain ⟨W, hW, hW'⟩ := change_work (c := c) (e := e) hcur l'
  rw [hW, List.mem_append] at ht
  rcases ht with ht | ht
  · split at ht
    · next hl => exact Or.inr ⟨hl, by simpa using ht⟩
    · cases ht
  · rw [hW']
    exact Or.inl (List.mem_append_left _ (List.mem_append_right _ ht))

/-- A step of a life that is due afterwards was due, or the connection is not up. -/
theorem Change.life (hch : Change s l c popped e) (hcur : (s.loops l).current = popped.toList ++ stack)
    {l' c' : ℕ} {k : LifeStep}
    (ht : .life k c' ∈ ((s.after l c e stack).loops l').work) :
    .life k c' ∈ (s.loops l').work ∨
      c' = c ∧ k ≠ .connectionEstablished ∧ e.conn.m_state.isUp = false ∧
        (k = .connectionDestructor → e.erased = true) := by
  rcases change_mem hcur ht with ht | ⟨-, ht⟩ | ht
  · exact Or.inl ht
  · rcases hch.calls _ ht with ⟨h, -⟩ | ⟨k', h, h1, h2, -, h3⟩
    · cases h
    · cases h
      exact Or.inr ⟨rfl, h1, h3, fun hk => absurd hk h2⟩
  · rcases hch.queued _ _ ht with ⟨k', h, h1, -, h2, h3⟩ | ⟨h, -⟩
    · cases h
      exact Or.inr ⟨rfl, h1, h2, h3⟩
    · cases h

/-- A raw `this` that is queued afterwards was queued, or `shutDown` queued it. -/
theorem Change.deferred (hch : Change s l c popped e) (hcur : (s.loops l).current = popped.toList ++ stack)
    {l' c' : ℕ} {d : TcpConnection.Deferred} (ht : .deferred c' d ∈ ((s.after l c e stack).loops l').work) :
    .deferred c' d ∈ (s.loops l').work ∨
      c' = c ∧ d = .shutDownInLoop ∧ s.Unremoved c ∧ e.erased = false ∧ popped = none := by
  rcases change_mem hcur ht with ht | ⟨-, ht⟩ | ht
  · exact Or.inl ht
  · rcases hch.calls _ ht with ⟨h, -⟩ | ⟨k, h, -⟩
    · cases h
    · cases h
  · rcases hch.queued _ _ ht with ⟨k, h, -⟩ | ⟨h, -, h1, h2, h3⟩
    · cases h
    · cases h
      exact Or.inr ⟨rfl, rfl, h1, h2, h3⟩

/-- The tasks left on the loop were behind the one that ran. -/
theorem RaceOk.behind (h : s.RaceOk) (hcur : (s.loops l).current = popped.toList ++ stack) {t t' : Task}
    (hpop : popped = some t)
    (ht : t' ∈ ((s.after l c e stack).loops l).work) :
    InOrder t t' ∨ t' ∈ e.calls ∨ e.queued = some (l, t') := by
  obtain ⟨W, hW, hW'⟩ := change_work (c := c) (e := e) hcur l
  rw [if_pos rfl, hpop, Option.toList_some, List.singleton_append] at hW
  have horder := (h.loops l).order
  rw [hW, List.pairwise_cons] at horder
  rw [hW', if_pos rfl, List.mem_append, List.mem_append] at ht
  rcases ht with (ht | ht) | ht
  · exact Or.inr (Or.inl ht)
  · exact Or.inl (horder.1 t' ht)
  · exact Or.inr (Or.inr (mem_queuedAt ht))

/-- A task that ran was on the loop where it belongs. -/
theorem RaceOk.popped_placed (h : s.RaceOk) (hcur : (s.loops l).current = popped.toList ++ stack) {t : Task}
    (hpop : popped = some t) : t ∈ (s.loops l).work ∧ t.PlacedAt s.home s.next l := by
  have hmem : t ∈ (s.loops l).work := by
    rw [IoLoop.work, hcur, hpop]
    simp
  exact ⟨hmem, (h.loops l).placed t hmem⟩

/-- Nothing is established twice. -/
theorem RaceOk.established_once (h : s.RaceOk) (hch : Change s l c popped e)
    (hcur : (s.loops l).current = popped.toList ++ stack)
    (hpop : popped = some (.life .connectionEstablished c)) (l' : ℕ) :
    .life .connectionEstablished c ∉ ((s.after l c e stack).loops l').work := by
  intro ht
  obtain ⟨-, -, hhome⟩ := h.popped_placed hcur hpop
  rcases hch.life hcur ht with hold | ⟨-, hk, -⟩
  · -- both are at home, and the one that ran was the first there
    obtain ⟨-, hhome'⟩ := (h.loops l').placed _ hold
    have hl : l' = l := hhome'.trans hhome.symm
    subst hl
    rcases h.behind hcur hpop ht with hbehind | hcalls | hq
    · exact hbehind.2 c rfl rfl
    · rcases hch.calls _ hcalls with ⟨h', -⟩ | ⟨k, h', hk, -⟩
      · cases h'
      · cases h'
        exact hk rfl
    · rcases hch.queued _ _ hq with ⟨k, h', hk, -⟩ | ⟨h', -⟩
      · cases h'
        exact hk rfl
      · cases h'
  · exact hk rfl

/-- Behind a destructor that ran there is no raw `this`. -/
theorem RaceOk.no_deferred (h : s.RaceOk) (hch : Change s l c popped e)
    (hcur : (s.loops l).current = popped.toList ++ stack)
    (hpop : popped = some (.life .connectionDestructor c)) (l' : ℕ) (d : TcpConnection.Deferred) :
    .deferred c d ∉ ((s.after l c e stack).loops l').work := by
  intro ht
  obtain ⟨-, -, hhome⟩ := h.popped_placed hcur hpop
  rcases hch.deferred hcur ht with hold | ⟨-, -, -, -, hnone⟩
  · obtain ⟨-, hhome'⟩ := (h.loops l').placed _ hold
    have hl : l' = l := hhome'.trans hhome.symm
    subst hl
    -- it was behind the destructor, if it is not new
    rcases h.behind hcur hpop ht with hbehind | hcalls | hq
    · exact hbehind.1 c d rfl rfl
    · rcases hch.calls _ hcalls with ⟨h', -⟩ | ⟨k, h', -⟩
      · cases h'
      · cases h'
    · rcases hch.queued _ _ hq with ⟨k, h', -⟩ | ⟨-, -, -, -, hnone⟩
      · cases h'
      · rw [hnone] at hpop
        cases hpop
  · rw [hnone] at hpop
    cases hpop

/-- The calls that are made are neither destructors nor first calls, and what is queued comes last. -/
theorem RaceOk.change_order (h : s.RaceOk) (hch : Change s l c popped e)
    (hcur : (s.loops l).current = popped.toList ++ stack) (l' : ℕ) :
    ((s.after l c e stack).loops l').work.Pairwise InOrder := by
  have horder := (h.loops l').order
  obtain ⟨W, hW, hW'⟩ := change_work (c := c) (e := e) hcur l'
  rw [hW] at horder
  have hordW := (List.pairwise_append.1 horder).2.1
  have hfront : ∀ a ∈ (if l' = l then e.calls else []), ∀ b, InOrder a b := by
    intro a ha b
    split at ha
    · rcases hch.calls a ha with ⟨rfl, -⟩ | ⟨k, rfl, hk, hk', -⟩
      · exact ⟨fun c' d hc' => (by cases hc'), fun c' hc' => by cases hc'⟩
      · refine ⟨fun c' d hc' => ?_, fun c' hc' => ?_⟩
        · cases hc'
          exact absurd rfl hk'
        · cases hc'
          exact absurd rfl hk
    · cases ha
  have hback : ∀ a ∈ W, ∀ b ∈ queuedAt e.queued l', InOrder a b := by
    intro a ha b hb
    rcases hch.queued _ _ (mem_queuedAt hb) with ⟨k, rfl, hk, -⟩ | ⟨rfl, -, hun, -⟩
    · refine ⟨fun c' d _ hd => (by cases hd), fun c' _ he => ?_⟩
      cases he
      exact hk rfl
    · refine ⟨fun c' d hc' hd => ?_, fun c' _ he => by cases he⟩
      cases hd
      exact hun.unqueued l' (hW ▸ hc' ▸ List.mem_append_right _ ha)
  have hsingle : (queuedAt e.queued l').Pairwise InOrder := by
    unfold queuedAt
    split
    · split
      · exact List.pairwise_singleton _ _
      · exact List.Pairwise.nil
    · exact List.Pairwise.nil
  rw [hW', List.append_assoc]
  exact List.pairwise_append.2 ⟨List.pairwise_of_forall_mem_list fun a ha b _ => hfront a ha b,
    List.pairwise_append.2 ⟨hordW, hsingle, hback⟩, fun a ha b _ => hfront a ha b⟩

/-- **The loops after a call.** -/
theorem RaceOk.change_arranged (h : s.RaceOk) (hch : Change s l c popped e) (hc : s.isAlive c)
    (hcur : (s.loops l).current = popped.toList ++ stack) (l' : ℕ) :
    Arranged s.home s.next l' ((s.after l c e stack).loops l') := by
  have hlt := h.lt_of_alive hc
  obtain ⟨hplaced, -, hkept, hdone, hactive, hinterest⟩ := h.loops l'
  have hloop : (s.after l c e stack).loops l' = _ := after_loop l'
  refine ⟨?_, ?_, ?_, ?_, ?_, ?_⟩
  · intro t ht
    rcases change_mem hcur ht with hold | ⟨hl, hcalls⟩ | hq
    · exact hplaced t hold
    · rw [hl]
      rcases hch.calls t hcalls with ⟨rfl, h1⟩ | ⟨k, rfl, -, -, h1, -⟩
      · exact ⟨hlt, h1⟩
      · exact ⟨hlt, h1⟩
    · rcases hch.queued _ _ hq with ⟨k, rfl, -, h1, -⟩ | ⟨rfl, h1, -⟩
      · exact ⟨hlt, h1⟩
      · exact ⟨hlt, h1⟩
  · exact h.change_order hch hcur l'
  · rw [hloop]
    exact hkept
  · rw [hloop]
    exact hdone
  · rw [hloop]
    exact hactive
  · intro fd x hx
    rw [hloop] at hx
    dsimp only at hx
    split at hx
    · next hl =>
      rcases hch.interest fd x hx with hx | hx
      · rw [hx]
        exact ⟨hlt, hl⟩
      · exact hinterest fd x (by rw [hl]; exact hx)
    · exact hinterest fd x hx

/-- The connections keep their identity. -/
theorem after_ids (l : ℕ) (stack : List Task) (h : SameId (s.conns c).conn e.conn) :
    (s.after l c e stack).fd = s.fd ∧ (s.after l c e stack).home = s.home ∧
      (s.after l c e stack).isAlive = s.isAlive :=
  apply_ids (s := s.setCurrent l (e.calls ++ stack)) h

/-- The other connections are not seen by a call. -/
theorem change_conns (c' : ℕ) (hc' : c' ≠ c) :
    (s.after l c e stack).conns c' = s.conns c' := by
  obtain ⟨-, -, -, -, hconns, -⟩ := apply_rest (s.setCurrent l (e.calls ++ stack)) c e
  rw [hconns]
  exact Function.update_of_ne hc' _ _

theorem change_conn :
    (s.after l c e stack).conns c = ⟨e.conn, (s.conns c).life⟩ := by
  obtain ⟨-, -, -, -, hconns, -⟩ := apply_rest (s.setCurrent l (e.calls ++ stack)) c e
  rw [hconns]
  exact Function.update_self _ _ _

/-- A connection stays in the map, unless it is the one that is taken out. -/
theorem RaceOk.change_mapped (h : s.RaceOk) (hc : s.isAlive c) {c' : ℕ}
    (hne : e.erased = true → c' ≠ c) (hmap : s.m_connections (s.fd c') = some c') :
    (s.after l c e stack).m_connections (s.fd c') = some c' := by
  obtain ⟨-, -, -, -, -, hmaps⟩ := apply_rest (s.setCurrent l (e.calls ++ stack)) c e
  rw [hmaps]
  split
  · next her =>
    have hfd : s.fd c' ≠ s.fd c := fun hfd => hne her (h.fds c' c (h.map _ _ hmap).2 hc hfd)
    exact (Function.update_of_ne hfd _ _).trans hmap
  · exact hmap

theorem RaceOk.change_unremoved (h : s.RaceOk) (hch : Change s l c popped e) (hc : s.isAlive c)
    (hcur : (s.loops l).current = popped.toList ++ stack) {c' : ℕ} (hne : e.erased = true → c' ≠ c)
    (hun : s.Unremoved c') : (s.after l c e stack).Unremoved c' := by
  obtain ⟨hfd, -, -⟩ := after_ids l stack hch.same
  refine ⟨?_, fun l' ht => ?_, ?_⟩
  · rw [hfd]
    exact h.change_mapped hc hne hun.mapped
  · rcases hch.life hcur ht with ht | ⟨rfl, -, -, her⟩
    · exact hun.unqueued l' ht
    · exact hne (her rfl) rfl
  · by_cases hcc : c' = c
    · subst hcc
      rw [change_conn]
      intro ht
      rcases hch.trace ht with ht | hpop
      · exact hun.trace ht
      · exact hun.unqueued l (h.popped_placed hcur hpop).1
    · rw [change_conns c' hcc]
      exact hun.trace

/-- Nothing of the end of a connection comes up. -/
theorem RaceOk.change_up (h : s.RaceOk) (hch : Change s l c popped e) (hc : s.isAlive c)
    (hcur : (s.loops l).current = popped.toList ++ stack) {c' : ℕ} (hlt : c' < s.next)
    (hup : ((s.after l c e stack).conns c').conn.m_state.isUp = true) :
    (s.after l c e stack).Unremoved c' ∧
      ∀ l' k, .life k c' ∈ ((s.after l c e stack).loops l').work → k = .connectionEstablished := by
  by_cases hcc : c' = c
  · subst hcc
    rw [change_conn] at hup
    obtain ⟨hun, hnone⟩ := h.up c' hlt (hch.state hup)
    refine ⟨h.change_unremoved hch hc hcur (fun her => ?_) hun, fun l' k ht => ?_⟩
    · rw [(hch.erased her).2.1] at hup
      cases hup
    · rcases hch.life hcur ht with ht | ⟨-, -, hdown, -⟩
      · exact hnone l' k ht
      · rw [hdown] at hup
        cases hup
  · rw [change_conns c' hcc] at hup
    obtain ⟨hun, hnone⟩ := h.up c' hlt hup
    refine ⟨h.change_unremoved hch hc hcur (fun _ => hcc) hun, fun l' k ht => ?_⟩
    rcases hch.life hcur ht with ht | ⟨hcc', -⟩
    · exact hnone l' k ht
    · exact absurd hcc' hcc

/-- A connection to be established is connecting. -/
theorem RaceOk.change_establishing (h : s.RaceOk) (hch : Change s l c popped e)
    (hcur : (s.loops l).current = popped.toList ++ stack) {l' c' : ℕ}
    (ht : .life .connectionEstablished c' ∈ ((s.after l c e stack).loops l').work) :
    ((s.after l c e stack).conns c').conn.m_state = .kConnecting := by
  rcases hch.life hcur ht with hold | ⟨-, hk, -⟩
  · have hconn := h.establishing l' c' hold
    by_cases hcc : c' = c
    · subst hcc
      rw [change_conn]
      rcases hch.stays with hst | ⟨-, hst | hpop⟩
      · exact hst.trans hconn
      · exact absurd hconn hst
      · exact absurd ht (h.established_once hch hcur hpop l')
    · rw [change_conns c' hcc]
      exact hconn
  · exact absurd rfl hk

/-- The destructor of the connection of a raw `this` did not run. -/
theorem RaceOk.change_trace (h : s.RaceOk) (hch : Change s l c popped e)
    (hcur : (s.loops l).current = popped.toList ++ stack) {l' c' : ℕ} {d : TcpConnection.Deferred}
    (ht : .deferred c' d ∈ ((s.after l c e stack).loops l').work)
    (htrace : .connectionDestructor ∉ (s.conns c').conn.trace) :
    .connectionDestructor ∉ ((s.after l c e stack).conns c').conn.trace := by
  by_cases hcc : c' = c
  · subst hcc
    rw [change_conn]
    intro hin
    rcases hch.trace hin with hin | hpop
    · exact htrace hin
    · exact h.no_deferred hch hcur hpop l' d ht
  · rw [change_conns c' hcc]
    exact htrace

/-- The connection of a raw `this` that stays keeps its owner. -/
theorem RaceOk.change_owner (h : s.RaceOk) (hch : Change s l c popped e) (hc : s.isAlive c)
    (hcur : (s.loops l).current = popped.toList ++ stack) {l' c' : ℕ} {d : TcpConnection.Deferred}
    (hold : .deferred c' d ∈ (s.loops l').work)
    (ht : .deferred c' d ∈ ((s.after l c e stack).loops l').work) :
    (s.after l c e stack).m_connections (s.fd c') = some c' ∨
      .life .connectionDestructor c' ∈ ((s.after l c e stack).loops l').work := by
  obtain ⟨-, -, -, howner⟩ := h.deferred l' c' d hold
  rcases howner with hmap | hdes
  · by_cases hcc : e.erased = true ∧ c' = c
    · -- the connection is taken out of the map, and its destructor is queued at home
      obtain ⟨her, rfl⟩ := hcc
      obtain ⟨-, -, hq⟩ := hch.erased her
      obtain ⟨-, hhome⟩ := (h.loops l').placed _ hold
      obtain ⟨W, -, hW'⟩ := change_work (c := c') (e := e) hcur l'
      right
      rw [hW', hq, queuedAt, if_pos hhome]
      exact List.mem_append_right _ (List.mem_singleton.2 rfl)
    · exact Or.inl (h.change_mapped hc (fun her hcc' => hcc ⟨her, hcc'⟩) hmap)
  · rcases change_keeps (c := c) (e := e) hcur hdes with hdes | ⟨rfl, hpop⟩
    · exact Or.inr hdes
    · -- the destructor ran, so no raw pointer is left
      have hcc : c' = c := by simpa [Task.subject] using hch.pops _ hpop
      subst hcc
      exact absurd ht (h.no_deferred hch hcur hpop l' d)

/-- **A call about one connection** keeps the server in order. -/
theorem RaceOk.change (h : s.RaceOk) (hch : Change s l c popped e) (hc : s.isAlive c)
    (hcur : (s.loops l).current = popped.toList ++ stack) : (s.after l c e stack).RaceOk := by
  obtain ⟨hfd, hhome, halive⟩ := after_ids l stack hch.same
  obtain ⟨hnum, hnext, -, -, -, hmaps⟩ := apply_rest (s.setCurrent l (e.calls ++ stack)) c e
  refine ⟨fun l' => ?_, fun c' => ?_, fun c' => ?_, fun c' hlt => ?_, fun fd c' hm => ?_, ?_,
    fun c' hlt hup => ?_, fun l' c' ht => h.change_establishing hch hcur ht, fun l' c' d ht => ?_⟩
  · rw [hhome, hnext]
    exact h.change_arranged hch hc hcur l'
  · by_cases hcc : c' = c
    · subst hcc
      rw [change_conn]
      exact hch.same.self.trans (h.self c')
    · rw [change_conns c' hcc]
      exact h.self c'
  · rw [hnext]
    by_cases hcc : c' = c
    · subst hcc
      rw [change_conn]
      exact h.born c'
    · rw [change_conns c' hcc]
      exact h.born c'
  · rw [hhome, hnum]
    exact h.bound c' (by rwa [hnext] at hlt)
  · have hold : s.m_connections fd = some c' := by
      rw [hmaps] at hm
      split at hm
      · rw [Function.update_apply] at hm
        split at hm
        · cases hm
        · exact hm
      · exact hm
    rw [hfd, halive]
    exact h.map fd c' hold
  · rw [hfd, halive]
    exact h.fds
  · exact h.change_up hch hc hcur (by rwa [hnext] at hlt) hup
  · rw [hfd, halive]
    rcases hch.deferred hcur ht with hold | ⟨rfl, rfl, hun, her, -⟩
    · obtain ⟨hd, hal, htrace, -⟩ := h.deferred l' c' d hold
      exact ⟨hd, hal, h.change_trace hch hcur ht htrace, h.change_owner hch hc hcur hold ht⟩
    · refine ⟨rfl, hc, h.change_trace hch hcur ht hun.trace,
        Or.inl (h.change_mapped hc (fun h' => ?_) hun.mapped)⟩
      rw [her] at h'
      cases h'

end

end TcpServer

end MyMuduo
