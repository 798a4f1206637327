import MyMuduo.Proof.ConnectionLife

/-!
# What the loops are about to do

The stacks and queues of the loops, against the phases of the connections.

* `tokens`: the call that takes a connection to its next phase is due exactly once, on the
  loop where it belongs. So it is made once.
* `raw`, `order`: a functor with a raw `this` is queued on the home loop, and never behind the
  `connectionDestructor` of its connection. So it runs while the connection is owned.
* `active`, `reading`: the channels still to be dispatched to belong to live connections.

`StackOk` is all of this but the tokens; it is kept by each of the small changes that a step
is made of: a new stack, a change of phase, a functor queued.
-/

namespace MyMuduo

open Lib

/-- The loop that makes the call: the base loop keeps the map, all else happens at home. -/
def LifeStep.place (k : LifeStep) (home : ℕ) : ℕ :=
  match k with
  | .handleRemoveConnectionInLoop => 0
  | _ => home

namespace IoLoop

/-- All that is still to be done, in order. -/
def work (L : IoLoop) : List Task := L.current ++ L.rest ++ L.m_pending_functors

/-- All that keeps connections alive. -/
def held (L : IoLoop) : List Task := L.current ++ L.functors ++ L.m_pending_functors

/-- What is empty where. -/
def PcOk (L : IoLoop) : Prop :=
  match L.pc with
  | .poll => L.current = [] ∧ L.rest = [] ∧ L.functors = [] ∧ L.active = []
  | .dispatch => L.rest = [] ∧ L.functors = [] ∧ ∀ c d, .deferred c d ∉ L.current
  | .functors => L.active = []

end IoLoop

/-- A raw `this` does not come behind the destructor of its connection. -/
def NotBehind (a b : Task) : Prop :=
  ∀ c d, a = .life .connectionDestructor c → b ≠ .deferred c d

section

variable (ph : ℕ → Phase) (home : ℕ → ℕ) (alive : ℕ → Prop) (numLoops : ℕ)

/-- How often the call is due on loop `l`. -/
def owed (l : ℕ) (k : LifeStep) (c : ℕ) : ℕ :=
  if (ph c).due = some k ∧ l = k.place (home c) then 1 else 0

/-- The tokens of loop `l`. -/
def TokensOk (l : ℕ) (L : IoLoop) : Prop :=
  ∀ k c, L.work.count (.life k c) = owed ph home l k c

/-- **The stacks and queues of loop `l`.** -/
structure StackOk (l : ℕ) (L : IoLoop) : Prop where
  raw : ∀ c d, .deferred c d ∈ L.work → home c = l ∧ (ph c).mayDefer = true
  order : L.work.Pairwise NotBehind
  owners : ∀ t ∈ L.held, ∀ c, t.owner = some c → alive c
  kept : ∀ t ∈ L.rest, t ∈ L.functors
  queued : ∀ c, .handleRead c ∉ L.rest ++ L.m_pending_functors
  pcs : L.PcOk
  active : ∀ x ∈ L.active, ph x.1 = .live ∧ home x.1 = l
  distinct : (L.active.map Prod.fst).Nodup
  reading : ∀ c, .handleRead c ∈ L.current →
    ph c = .live ∧ home c = l ∧ c ∉ L.active.map Prod.fst
  readFirst : ∀ c, .handleRead c ∉ L.current.tail
  bound : numLoops ≤ l → L.held = []

end

variable {Q : Type} {ph : ℕ → Phase} {home : ℕ → ℕ} {alive : ℕ → Prop} {numLoops l : ℕ} {L : IoLoop}

/-- A task that is still to be done is held. -/
theorem StackOk.mem_held (h : StackOk ph home alive numLoops l L) {t : Task} (ht : t ∈ L.work) :
    t ∈ L.held := by
  simp only [IoLoop.work, IoLoop.held, List.mem_append] at ht ⊢
  rcases ht with (ht | ht) | ht
  · exact Or.inl (Or.inl ht)
  · exact Or.inl (Or.inr (h.kept t ht))
  · exact Or.inr ht

/-! ## A new stack -/

/-- A call that a handler ends in. -/
def Pushable (alive : ℕ → Prop) (t : Task) : Prop :=
  (∀ c, t.owner = some c → alive c) ∧ (∀ c, t ≠ .handleRead c) ∧ (∀ c d, t ≠ .deferred c d) ∧
    ∀ c, t ≠ .life .connectionDestructor c

/-- Only the innermost call can be a `handleRead`. -/
theorem StackOk.no_read_left (h : StackOk ph home alive numLoops l L) {t : Task}
    {stack calls : List Task} (hcur : L.current = t :: stack)
    (hcalls : ∀ t' ∈ calls, Pushable alive t') (c : ℕ) : .handleRead c ∉ calls ++ stack := by
  intro hc
  rcases List.mem_append.1 hc with hc | hc
  · exact (hcalls _ hc).2.1 c rfl
  · have hfirst := h.readFirst c
    rw [hcur] at hfirst
    exact hfirst hc

/-- No raw `this` is left behind the destructor that is about to run. -/
theorem StackOk.not_behind (h : StackOk ph home alive numLoops l L) {c : ℕ} {stack : List Task}
    (hcur : L.current = .life .connectionDestructor c :: stack) (d : TcpConnection.Deferred) :
    .deferred c d ∉ stack ++ L.rest ++ L.m_pending_functors := by
  intro hd
  have horder := h.order
  rw [show L.work = .life .connectionDestructor c :: (stack ++ L.rest ++ L.m_pending_functors) by
    simp [IoLoop.work, hcur], List.pairwise_cons] at horder
  exact horder.1 _ hd c d rfl rfl

/-- A channel still to be dispatched to belongs to a connection that nobody is about to close. -/
theorem StackOk.not_active (h : StackOk ph home alive numLoops l L) {t : Task} {stack : List Task}
    (hcur : L.current = t :: stack) {c : ℕ} (ht : t = .handleRead c ∨ ∃ d, t = .deferred c d) :
    c ∉ L.active.map Prod.fst := by
  have hmem : t ∈ L.current := by
    rw [hcur]
    exact List.mem_cons_self
  rcases ht with rfl | ⟨d, rfl⟩
  · exact (h.reading c hmem).2.2
  -- a functor runs when the active channels are done with
  · have hpcs := h.pcs
    unfold IoLoop.PcOk at hpcs
    cases hpc : L.pc with
    | poll =>
      rw [hpc] at hpcs
      rw [hpcs.1] at hmem
      cases hmem
    | dispatch =>
      rw [hpc] at hpcs
      exact absurd hmem (hpcs.2.2 c d)
    | functors =>
      rw [hpc] at hpcs
      rw [show L.active = [] from hpcs]
      exact List.not_mem_nil

/-- The innermost call is replaced by those it ends in. -/
theorem StackOk.exec (h : StackOk ph home alive numLoops l L) {t : Task} {stack : List Task}
    (calls : List Task) (hcur : L.current = t :: stack) (hcalls : ∀ t' ∈ calls, Pushable alive t') :
    StackOk ph home alive numLoops l { L with current := calls ++ stack } := by
  have hnoread := h.no_read_left hcur hcalls
  obtain ⟨hraw, horder, hown, hkept, hq, hpc, hact, hdis, hread, -, hbound⟩ := h
  have hwork : L.work = t :: (stack ++ L.rest ++ L.m_pending_functors) := by
    simp [IoLoop.work, hcur]
  have hwork' : IoLoop.work { L with current := calls ++ stack } =
      calls ++ (stack ++ L.rest ++ L.m_pending_functors) := by simp [IoLoop.work]
  refine ⟨?_, ?_, ?_, hkept, hq, ?_, hact, hdis, fun c hc => absurd hc (hnoread c),
    fun c hc => hnoread c (List.mem_of_mem_tail hc), fun hl => ?_⟩
  · intro c d hd
    rw [hwork'] at hd
    rcases List.mem_append.1 hd with hd | hd
    · exact absurd rfl ((hcalls _ hd).2.2.1 c d)
    · exact hraw c d (by rw [hwork]; exact List.mem_cons_of_mem _ hd)
  -- no call pushed is a destructor, so the order is that of the rest
  · rw [hwork'] at *
    rw [hwork, List.pairwise_cons] at horder
    refine List.pairwise_append.2 ⟨?_, horder.2, ?_⟩
    · refine List.pairwise_of_forall_mem_list fun a ha b _ c d hc => ?_
      exact absurd hc ((hcalls a ha).2.2.2 c)
    · intro a ha b _ c d hc
      exact absurd hc ((hcalls a ha).2.2.2 c)
  · intro t' ht' c hc
    simp only [IoLoop.held, List.mem_append] at ht'
    rcases ht' with ((ht' | ht') | ht') | ht'
    · exact (hcalls t' ht').1 c hc
    · refine hown t' ?_ c hc
      simp [IoLoop.held, hcur, ht']
    · refine hown t' ?_ c hc
      simp [IoLoop.held, ht']
    · refine hown t' ?_ c hc
      simp [IoLoop.held, ht']
  · unfold IoLoop.PcOk at hpc ⊢
    dsimp only
    cases hp : L.pc with
    | poll =>
      rw [hp] at hpc
      exact absurd (hcur.symm.trans hpc.1) (by simp)
    | dispatch =>
      rw [hp] at hpc
      refine ⟨hpc.1, hpc.2.1, fun c d hd => ?_⟩
      rcases List.mem_append.1 hd with hd | hd
      · exact (hcalls _ hd).2.2.1 c d rfl
      · exact hpc.2.2 c d (by rw [hcur]; exact List.mem_cons_of_mem _ hd)
    | functors =>
      rw [hp] at hpc
      exact hpc
  · have := hbound hl
    simp [IoLoop.held, hcur] at this

/-! ## A change of phase -/

/-- A connection goes to another phase. -/
theorem StackOk.rephase (h : StackOk ph home alive numLoops l L) {c : ℕ} {p' : Phase}
    (hraw : ∀ d, .deferred c d ∈ L.work → p'.mayDefer = true)
    (hlive : c ∈ L.active.map Prod.fst ∨ .handleRead c ∈ L.current → p' = .live) :
    StackOk (Function.update ph c p') home alive numLoops l L := by
  have hph : ∀ c', c' ≠ c → Function.update ph c p' c' = ph c' := fun c' hc' =>
    Function.update_of_ne hc' _ _
  -- only three clauses speak of phases
  refine ⟨?_, h.order, h.owners, h.kept, h.queued, h.pcs, ?_, h.distinct, ?_, h.readFirst, h.bound⟩
  · intro c' d hd
    by_cases hc' : c' = c
    · subst hc'
      rw [Function.update_self]
      exact ⟨(h.raw c' d hd).1, hraw d hd⟩
    · rw [hph c' hc']
      exact h.raw c' d hd
  · intro x hx
    by_cases hc' : x.1 = c
    · rw [hc', Function.update_self]
      exact ⟨hlive (Or.inl (hc' ▸ List.mem_map_of_mem hx)), hc' ▸ (h.active x hx).2⟩
    · rw [hph _ hc']
      exact h.active x hx
  · intro c' hc
    by_cases hc' : c' = c
    · subst hc'
      rw [Function.update_self]
      exact ⟨hlive (Or.inr hc), (h.reading c' hc).2⟩
    · rw [hph _ hc']
      exact h.reading c' hc

/-! ## A functor queued -/

/-- A functor for the end of the queue: a step of a life, or a raw `this` of a live connection. -/
structure Queueable (ph : ℕ → Phase) (home : ℕ → ℕ) (alive : ℕ → Prop) (numLoops l : ℕ) (t : Task) :
    Prop where
  notRead : ∀ c, t ≠ .handleRead c
  owner : ∀ c, t.owner = some c → alive c
  raw : ∀ c d, t = .deferred c d → home c = l ∧ ph c = .live
  bound : l < numLoops

/-- What is queued for loop `l`. -/
def queuedAt (q : Option (ℕ × Task)) (l : ℕ) : List Task :=
  match q with
  | some (l', t) => if l = l' then [t] else []
  | none => []

theorem StackOk.queue (h : StackOk ph home alive numLoops l L) {t : Task}
    (ht : Queueable ph home alive numLoops l t)
    (hdes : ∀ c d, t = .deferred c d → .life .connectionDestructor c ∉ L.work) :
    StackOk ph home alive numLoops l { L with m_pending_functors := L.m_pending_functors ++ [t] } := by
  have hwork : IoLoop.work { L with m_pending_functors := L.m_pending_functors ++ [t] } =
      L.work ++ [t] := by simp [IoLoop.work]
  have hheld : IoLoop.held { L with m_pending_functors := L.m_pending_functors ++ [t] } =
      L.held ++ [t] := by simp [IoLoop.held]
  refine ⟨?_, ?_, ?_, h.kept, ?_, h.pcs, h.active, h.distinct, h.reading, h.readFirst, fun hl => ?_⟩
  · intro c d hd
    rw [hwork] at hd
    rcases List.mem_append.1 hd with hd | hd
    · exact h.raw c d hd
    · obtain ⟨h1, h2⟩ := ht.raw c d (List.mem_singleton.1 hd).symm
      exact ⟨h1, by rw [h2]; rfl⟩
  · rw [hwork]
    refine List.pairwise_append.2 ⟨h.order, List.pairwise_singleton _ _, ?_⟩
    -- the functor comes last, and the destructor is not there yet
    intro a ha b hb c d hc hd
    rw [List.mem_singleton.1 hb] at hd
    exact hdes c d hd (hc ▸ ha)
  · intro t' ht' c hc
    rw [hheld] at ht'
    rcases List.mem_append.1 ht' with ht' | ht'
    · exact h.owners t' ht' c hc
    · rw [List.mem_singleton.1 ht'] at hc
      exact ht.owner c hc
  · intro c hc
    simp only [← List.append_assoc] at hc
    rcases List.mem_append.1 hc with hc | hc
    · exact h.queued c hc
    · exact ht.notRead c (List.mem_singleton.1 hc).symm
  · exact absurd ht.bound (by omega)

/-- A live connection has no destructor to come. -/
theorem TokensOk.no_destructor (h : TokensOk ph home l L) {c : ℕ} (hc : ph c = .live) :
    .life .connectionDestructor c ∉ L.work := by
  have hcount := h .connectionDestructor c
  rw [owed, hc, if_neg (by simp [Phase.due])] at hcount
  exact List.count_eq_zero.1 hcount

/-! ## The loop goes round -/

section

variable {alive' : ℕ → Prop} {ph' : ℕ → Phase} {home' : ℕ → ℕ}

/-- Connections that are not born yet are not mentioned anywhere. -/
theorem StackOk.congr (h : StackOk ph home alive numLoops l L) (hph : ∀ c, ph c ≠ .unborn → ph' c = ph c)
    (hhome : ∀ c, ph c ≠ .unborn → home' c = home c)
    (halive : ∀ t ∈ L.held, ∀ c, t.owner = some c → alive c → alive' c) :
    StackOk ph' home' alive' numLoops l L := by
  have hborn : ∀ c, (ph c).mayDefer = true → ph c ≠ .unborn := by
    intro c hc h0
    rw [h0] at hc
    cases hc
  have hlive : ∀ c, ph c = .live → ph c ≠ .unborn := by
    intro c hc h0
    rw [h0] at hc
    cases hc
  refine ⟨?_, h.order, fun t ht c hc => halive t ht c hc (h.owners t ht c hc), h.kept, h.queued, h.pcs,
    ?_, h.distinct, ?_, h.readFirst, h.bound⟩
  · intro c d hd
    obtain ⟨h1, h2⟩ := h.raw c d hd
    rw [hph c (hborn c h2), hhome c (hborn c h2)]
    exact ⟨h1, h2⟩
  · intro x hx
    obtain ⟨h1, h2⟩ := h.active x hx
    rw [hph _ (hlive _ h1), hhome _ (hlive _ h1)]
    exact ⟨h1, h2⟩
  · intro c hc
    obtain ⟨h1, h2, h3⟩ := h.reading c hc
    rw [hph c (hlive c h1), hhome c (hlive c h1)]
    exact ⟨h1, h2, h3⟩

/-- The epoller is not looked at. -/
theorem StackOk.setEp (h : StackOk ph home alive numLoops l L) (ep : Epoller) :
    StackOk ph home alive numLoops l { L with ep := ep } :=
  ⟨h.raw, h.order, h.owners, h.kept, h.queued, h.pcs, h.active, h.distinct, h.reading, h.readFirst,
    h.bound⟩

/-- What a call leaves in a loop: another epoller, and perhaps a functor. -/
theorem StackOk.apply (h : StackOk ph home alive numLoops l L) (ep : Epoller) {q : Option (ℕ × Task)}
    (hq : ∀ t, q = some (l, t) → Queueable ph home alive numLoops l t ∧
      ∀ c d, t = .deferred c d → .life .connectionDestructor c ∉ L.work) :
    StackOk ph home alive numLoops l { L with
      ep := ep
      m_pending_functors := L.m_pending_functors ++ queuedAt q l } := by
  have hep := h.setEp ep
  rcases q with _ | ⟨l', t⟩
  · rw [queuedAt, List.append_nil]
    exact hep
  · by_cases hl : l = l'
    · subst hl
      rw [queuedAt, if_pos rfl]
      obtain ⟨h1, h2⟩ := hq t rfl
      exact hep.queue h1 h2
    · rw [queuedAt, if_neg hl, List.append_nil]
      exact hep

/-- `epoll_wait` returns channels of live connections. -/
theorem StackOk.poll (h : StackOk ph home alive numLoops l L) (hpc : L.pc = .poll)
    {active : List (ℕ × Events)} (hact : ∀ x ∈ active, ph x.1 = .live ∧ home x.1 = l)
    (hdis : (active.map Prod.fst).Nodup) :
    StackOk ph home alive numLoops l { L with pc := .dispatch, active := active } := by
  have hpcs := h.pcs
  rw [IoLoop.PcOk, hpc] at hpcs
  obtain ⟨hcur, hrest, hfun, -⟩ := hpcs
  refine ⟨h.raw, h.order, h.owners, h.kept, h.queued, ⟨hrest, hfun, ?_⟩, hact, hdis, ?_, h.readFirst,
    h.bound⟩
  · intro c d hd
    rw [hcur] at hd
    cases hd
  · intro c hc
    rw [hcur] at hc
    cases hc

/-- A callback begins, outside of the functors. -/
theorem StackOk.dispatch (h : StackOk ph home alive numLoops l L) (hpc : L.pc = .dispatch)
    (hcur : L.current = []) (hl : l < numLoops) {active : List (ℕ × Events)}
    (hact : active.Sublist L.active) {tasks : List Task}
    (htasks : ∀ t ∈ tasks, (∀ c, t.owner = some c → alive c) ∧ (∀ c d, t ≠ .deferred c d) ∧
      ∀ c, t ≠ .life .connectionDestructor c)
    (hread : ∀ c, .handleRead c ∈ tasks → ph c = .live ∧ home c = l ∧ c ∉ active.map Prod.fst)
    (hfirst : ∀ c, .handleRead c ∉ tasks.tail) :
    StackOk ph home alive numLoops l { L with active := active, current := tasks } := by
  have hpcs := h.pcs
  rw [IoLoop.PcOk, hpc] at hpcs
  obtain ⟨hrest, hfun, -⟩ := hpcs
  have hwork : L.work = L.m_pending_functors := by simp [IoLoop.work, hcur, hrest]
  have hheld : L.held = L.m_pending_functors := by simp [IoLoop.held, hcur, hfun]
  have hwork' : IoLoop.work { L with active := active, current := tasks } =
      tasks ++ L.work := by rw [hwork]; simp [IoLoop.work, hrest]
  have hheld' : IoLoop.held { L with active := active, current := tasks } =
      tasks ++ L.held := by rw [hheld]; simp [IoLoop.held, hfun]
  refine ⟨?_, ?_, ?_, h.kept, h.queued, ?_, fun x hx => h.active x (hact.mem hx),
    h.distinct.sublist (hact.map _), hread, hfirst, fun hl' => absurd hl (by omega)⟩
  · intro c d hd
    rw [hwork'] at hd
    rcases List.mem_append.1 hd with hd | hd
    · exact absurd rfl ((htasks _ hd).2.1 c d)
    · exact h.raw c d hd
  · rw [hwork']
    refine List.pairwise_append.2 ⟨?_, h.order, ?_⟩
    · refine List.pairwise_iff_getElem.2 fun i j hi _ _ c d hc => ?_
      exact absurd hc ((htasks _ (List.getElem_mem hi)).2.2 c)
    · intro a ha b _ c d hc
      exact absurd hc ((htasks a ha).2.2 c)
  · intro t ht c hc
    rw [hheld'] at ht
    rcases List.mem_append.1 ht with ht | ht
    · exact (htasks t ht).1 c hc
    · exact h.owners t ht c hc
  · unfold IoLoop.PcOk
    dsimp only
    rw [hpc]
    exact ⟨hrest, hfun, fun c d hd => (htasks _ hd).2.1 c d rfl⟩

/-- The pending functors become those of the pass. -/
theorem StackOk.swap (h : StackOk ph home alive numLoops l L) (hpc : L.pc = .dispatch)
    (hact : L.active = []) :
    IoLoop.work { L with
        pc := .functors, rest := L.m_pending_functors, functors := L.m_pending_functors,
        m_pending_functors := [] } = L.work ∧
      StackOk ph home alive numLoops l { L with
        pc := .functors, rest := L.m_pending_functors, functors := L.m_pending_functors,
        m_pending_functors := [] } := by
  have hpcs := h.pcs
  rw [IoLoop.PcOk, hpc] at hpcs
  obtain ⟨hrest, hfun, -⟩ := hpcs
  have hwork : IoLoop.work { L with
      pc := .functors, rest := L.m_pending_functors, functors := L.m_pending_functors,
      m_pending_functors := [] } = L.work := by simp [IoLoop.work, hrest]
  have hheld : IoLoop.held { L with
      pc := .functors, rest := L.m_pending_functors, functors := L.m_pending_functors,
      m_pending_functors := [] } = L.held := by simp [IoLoop.held, hfun]
  refine ⟨hwork, ?_, ?_, ?_, fun t ht => ht, ?_, hact, h.active, h.distinct, h.reading, h.readFirst, ?_⟩
  · rw [hwork]; exact h.raw
  · rw [hwork]; exact h.order
  · rw [hheld]; exact h.owners
  · intro c hc
    refine h.queued c ?_
    rw [hrest]
    simpa using hc
  · rw [hheld]; exact h.bound

/-- The next functor of the pass is called. -/
theorem StackOk.nextFunctor (h : StackOk ph home alive numLoops l L) (hpc : L.pc = .functors)
    (hcur : L.current = []) {t : Task} {rest : List Task} (hrest : L.rest = t :: rest) :
    IoLoop.work { L with current := [t], rest := rest } = L.work ∧
      StackOk ph home alive numLoops l { L with current := [t], rest := rest } := by
  have hpcs := h.pcs
  rw [IoLoop.PcOk, hpc] at hpcs
  have hkept : t ∈ L.functors := h.kept t (by rw [hrest]; exact List.mem_cons_self)
  have hwork : IoLoop.work { L with current := [t], rest := rest } = L.work := by
    simp [IoLoop.work, hrest, hcur]
  have hnoread : ∀ c, .handleRead c ∉ t :: rest ++ L.m_pending_functors := by
    rw [← hrest]
    exact h.queued
  refine ⟨hwork, ?_, ?_, ?_, ?_, ?_, ?_, h.active, h.distinct, ?_, fun c hc => (by cases hc), ?_⟩
  · rw [hwork]; exact h.raw
  · rw [hwork]; exact h.order
  · -- the functor called is still in the vector of the pass
    intro t' ht' c hc
    refine h.owners t' ?_ c hc
    simp only [IoLoop.held, List.mem_append, List.mem_singleton] at ht' ⊢
    rcases ht' with (rfl | ht') | ht'
    · exact Or.inl (Or.inr hkept)
    · exact Or.inl (Or.inr ht')
    · exact Or.inr ht'
  · intro t' ht'
    exact h.kept t' (by rw [hrest]; exact List.mem_cons_of_mem _ ht')
  · intro c hc
    exact hnoread c (List.mem_cons_of_mem _ hc)
  · unfold IoLoop.PcOk
    dsimp only
    rw [hpc]
    exact hpcs
  · intro c hc
    have : Task.handleRead c ∈ t :: rest ++ L.m_pending_functors := by
      rw [List.mem_singleton.1 hc]
      exact List.mem_cons_self
    exact absurd this (hnoread c)
  · intro hl
    have : t ∈ L.held := by simp [IoLoop.held, hkept]
    rw [h.bound hl] at this
    cases this

/-- The pass is over: its functors are destroyed. -/
theorem StackOk.endPass (h : StackOk ph home alive numLoops l L) (hpc : L.pc = .functors)
    (hcur : L.current = []) (hrest : L.rest = []) :
    StackOk ph home alive numLoops l { L with pc := .poll, functors := [] } := by
  have hpcs := h.pcs
  rw [IoLoop.PcOk, hpc] at hpcs
  have hheld : ∀ t ∈ IoLoop.held { L with pc := .poll, functors := [] }, t ∈ L.held := by
    intro t ht
    simp only [IoLoop.held, List.append_nil, List.mem_append] at ht ⊢
    rcases ht with ht | ht
    · exact Or.inl (Or.inl ht)
    · exact Or.inr ht
  refine ⟨h.raw, h.order, fun t ht => h.owners t (hheld t ht), ?_, h.queued, ⟨hcur, hrest, rfl, hpcs⟩,
    h.active, h.distinct, h.reading, h.readFirst, ?_⟩
  · intro t ht
    rw [hrest] at ht
    cases ht
  · intro hl
    refine List.eq_nil_iff_forall_not_mem.2 fun t ht => ?_
    have := hheld t ht
    rw [h.bound hl] at this
    cases this

end

/-! ## What a call passes on -/

/-- A task is made in a phase that it is made for. -/
def Task.Fits (t : Task) (p : Phase) (l home : ℕ) : Prop :=
  match t with
  | .life k _ => p.due = some k ∧ l = k.place home
  | .deferred _ _ => p.mayDefer = true ∧ l = home
  | .handleRead _ => p = .live ∧ l = home
  | .handleWrite _ => p ≠ .unborn
  | .user _ => False

/-- **The token is passed on.** A call that takes the connection from phase `p` to `p'` had the
token of `p`, if there is one, and leaves the token of `p'`, if there is one, where it
belongs. -/
structure PassesOn (t : Task) (l home c : ℕ) (p p' : Phase) (e : Effect Q) : Prop where
  rank : p.rank ≤ p'.rank
  erased : e.erased = (p.inMap && !p'.inMap)
  consumes : ∀ l' k, (l' = l ∧ t = .life k c) ↔ (p ≠ p' ∧ p.due = some k ∧ l' = k.place home)
  produces : ∀ l' k, (if l' = l then e.calls.count (.life k c) else 0) +
    (if e.queued = some (l', .life k c) then 1 else 0) =
      if p ≠ p' ∧ p'.due = some k ∧ l' = k.place home then 1 else 0
  calls : ∀ t' ∈ e.calls, t' = .user (some c) ∨ ∃ k, k ≠ .connectionDestructor ∧ t' = .life k c
  queued : ∀ x, e.queued = some x → ∃ k, x = (k.place home, .life k c)
  /-- a connection that stops being live is closed at home, one that stops being deferred to is
  destroyed there -/
  closes : p = .live → p' ≠ .live → l = home ∧ (t = .handleRead c ∨ ∃ d, t = .deferred c d)
  ends : p.mayDefer = true → p'.mayDefer = false → t = .life .connectionDestructor c

section

variable {p : Phase} {ep : Epoller} {conn : TcpConnection Q} {c : ℕ}

/-- A call that leaves the phase alone. -/
theorem PassesOn.stay {t : Task} {e : Effect Q} (ht : ∀ k, t ≠ .life k c) (he : e.erased = false)
    (hq : e.queued = none) (hcalls : ∀ t' ∈ e.calls, t' = .user (some c)) :
    PassesOn t l (home c) c p p e := by
  refine ⟨le_rfl, by rw [he]; cases p.inMap <;> rfl, ?_, ?_, fun t' ht' => Or.inl (hcalls t' ht'), ?_,
    fun h h' => absurd h h', fun h h' => absurd (h.symm.trans h') (by simp)⟩
  · intro l' k
    exact iff_of_false (fun h => ht k h.2) fun h => h.1 rfl
  · intro l' k
    have h0 : e.calls.count (.life k c) = 0 := by
      refine List.count_eq_zero.2 fun hm => ?_
      cases hcalls _ hm
    simp [h0, hq]
  · intro x hx
    rw [hq] at hx
    cases hx

/-- `handleClose`, called from a handler or a functor at home. -/
theorem PassesOn.close {t : Task} {e : Effect Q} (ht : t = .handleRead c ∨ ∃ d, t = .deferred c d)
    (hl : l = home c) (he : e.erased = false) (hq : e.queued = none)
    (hcalls : e.calls = [.life .closeCallback c]) : PassesOn t l (home c) c .live .closing e := by
  refine ⟨by decide, he, ?_, ?_, ?_, ?_, fun _ _ => ⟨hl, ht⟩, fun _ h => by cases h⟩
  · intro l' k
    refine iff_of_false (fun h => ?_) fun h => by cases h.2.1
    rcases ht with ht | ⟨d, ht⟩
    · cases h.2.symm.trans ht
    · cases h.2.symm.trans ht
  · intro l' k
    rw [hcalls, hq, hl]
    cases k <;> simp [Phase.due, LifeStep.place, List.count_nil]
  · intro t' ht'
    rw [hcalls] at ht'
    exact Or.inr ⟨.closeCallback, by decide, List.mem_singleton.1 ht'⟩
  · intro x hx
    rw [hq] at hx
    cases hx

/-- A step of the life. -/
theorem PassesOn.life {k : LifeStep} {p' : Phase} {e : Effect Q} (hk : p.due = some k)
    (hl : l = k.place (home c)) (hrank : p.rank < p'.rank) (he : e.erased = (p.inMap && !p'.inMap))
    (hprod : ∀ l' k', (if l' = l then e.calls.count (.life k' c) else 0) +
      (if e.queued = some (l', .life k' c) then 1 else 0) =
        if p'.due = some k' ∧ l' = k'.place (home c) then 1 else 0)
    (hcalls : ∀ t' ∈ e.calls, t' = .user (some c) ∨ ∃ k, k ≠ .connectionDestructor ∧ t' = .life k c)
    (hq : ∀ x, e.queued = some x → ∃ k, x = (k.place (home c), .life k c))
    (hends : p.mayDefer = true → p'.mayDefer = false → k = .connectionDestructor) :
    PassesOn (.life k c) l (home c) c p p' e := by
  have hne : p ≠ p' := by
    rintro rfl
    exact lt_irrefl _ hrank
  refine ⟨hrank.le, he, ?_, ?_, hcalls, hq, ?_, fun h h' => by rw [hends h h']⟩
  · intro l' k'
    constructor
    · rintro ⟨rfl, h⟩
      cases h
      exact ⟨hne, hk, hl⟩
    · rintro ⟨-, h, rfl⟩
      rw [hk] at h
      cases h
      exact ⟨hl.symm, rfl⟩
  · intro l' k'
    rw [hprod l' k']
    simp [hne]
  · rintro rfl
    cases hk

theorem Effect.of_ok {ep' : Epoller} {conn' : TcpConnection Q} (calls : List Task) :
    Effect.of (.ok (ep', conn')) calls = .ok ⟨conn', ep', calls, none, false⟩ := rfl

/-- The steps of the life, each in its phase. -/
theorem runLife_leads (h : At p ep conn) (hloop : conn.m_loop = home c) {k : LifeStep}
    (hk : p.due = some k) (hl : l = k.place (home c)) :
    ∃ e p', runLife ep l conn c k = .ok e ∧ Leads p' ep conn e.ep e.conn ∧
      PassesOn (.life k c) l (home c) c p p' e := by
  cases k with
  | connectionEstablished =>
    obtain rfl : p = .connecting := by cases p <;> first | rfl | cases hk
    obtain ⟨ep', conn', hok, hlead⟩ := connectionEstablished_leads h
    refine ⟨_, .live, by rw [runLife, hok, Effect.of_ok], hlead, .life hk hl (by decide) rfl ?_ ?_ ?_ ?_⟩
    · intro l' k'
      simp [Phase.due]
    · intro t' ht'
      exact Or.inl (List.mem_singleton.1 ht')
    · intro x hx
      cases hx
    · intro hd
      cases hd
  | closeCallback =>
    -- `handleRemoveConnection` is `runInLoop` of the base loop
    obtain rfl : p = .closing := by cases p <;> first | rfl | cases hk
    have hlead := closeCallback_leads h
    unfold runLife
    dsimp only
    by_cases h0 : l = 0
    · -- the close callback runs in the base loop
      rw [if_pos h0]
      refine ⟨_, .removing, rfl, hlead, .life hk hl (by decide) rfl ?_ ?_ ?_ fun _ hd => by cases hd⟩
      · intro l' k'
        cases k' <;> simp [Phase.due, LifeStep.place, h0]
      · intro t' ht'
        exact Or.inr ⟨.handleRemoveConnectionInLoop, by decide, List.mem_singleton.1 ht'⟩
      · intro x hx
        cases hx
    · rw [if_neg h0]
      refine ⟨_, .removing, rfl, hlead, .life hk hl (by decide) rfl ?_ ?_ ?_ fun _ hd => by cases hd⟩
      · intro l' k'
        cases k' <;> simp [Phase.due, LifeStep.place, eq_comm]
      · intro t' ht'
        cases ht'
      · intro x hx
        cases hx
        exact ⟨.handleRemoveConnectionInLoop, rfl⟩
  | handleRemoveConnectionInLoop =>
    obtain rfl : p = .removing := by cases p <;> first | rfl | cases hk
    refine ⟨_, .destructing, rfl, removing_leads h, .life hk hl (by decide) rfl ?_ ?_ ?_ fun _ hd => by cases hd⟩
    · intro l' k'
      cases k' <;> simp [Phase.due, LifeStep.place, hloop, eq_comm]
    · intro t' ht'
      cases ht'
    · intro x hx
      cases hx
      exact ⟨.connectionDestructor, by rw [hloop]; rfl⟩
  | connectionDestructor =>
    obtain rfl : p = .destructing := by cases p <;> first | rfl | cases hk
    obtain ⟨conn', hok, hlead⟩ := connectionDestructor_leads h
    have hl' : l = home c := hl
    refine ⟨_, .deregistering, by rw [runLife, hok, Effect.of_ok], hlead,
      .life hk hl (by decide) rfl ?_ ?_ ?_ fun _ _ => rfl⟩
    · intro l' k'
      cases k' <;> simp [Phase.due, LifeStep.place, hl']
    · intro t' ht'
      rcases List.mem_cons.1 ht' with ht' | ht'
      · exact Or.inl ht'
      · exact Or.inr ⟨.remove, by decide, List.mem_singleton.1 ht'⟩
    · intro x hx
      cases hx
  | remove =>
    obtain rfl : p = .deregistering := by cases p <;> first | rfl | cases hk
    obtain ⟨ep', conn', hok, hlead⟩ := removeChannel_leads h
    refine ⟨_, .gone, by rw [runLife, hok, Effect.of_ok], hlead,
      .life hk hl (by decide) rfl ?_ ?_ ?_ fun hd => by cases hd⟩
    · intro l' k'
      simp [Phase.due]
    · intro t' ht'
      cases ht'
    · intro x hx
      cases hx

variable [ByteQueue Q]

/-- **Every task, in a phase that it fits**, returns and passes the token on. -/
theorem runTask_leads (h : At p ep conn) (hloop : conn.m_loop = home c) {t : Task}
    (hsub : t.subject = some c) (hfit : t.Fits p l (home c)) (read : Except ℕ Bytes)
    (write : Except ℕ ℕ) :
    ∃ e p', runTask ep l conn read write t = .ok e ∧ Leads p' ep conn e.ep e.conn ∧
      PassesOn t l (home c) c p p' e := by
  have hnil : ∀ t' ∈ ([] : List Task), t' = .user (some c) := fun t' ht' => by cases ht'
  cases t with
  | life k c' =>
    cases hsub
    exact runLife_leads h hloop hfit.1 hfit.2
  | deferred c' d =>
    cases hsub
    have hne : ∀ k, Task.deferred c d ≠ .life k c := fun k => by simp
    -- it was queued by a live connection, and may come after the end of its life
    have hrank : 2 ≤ p.rank := by
      have := hfit.1
      cases p with
      | unborn | connecting | deregistering | gone => cases this
      | _ => decide
    cases d with
    | sendInLoop msg =>
      obtain ⟨ep', conn', hok, hlead⟩ := sendInLoop_leads h hrank msg write
      exact ⟨_, p, by rw [runTask, hok, Effect.of_ok], hlead, .stay hne rfl rfl hnil⟩
    | shutDownInLoop => exact ⟨_, p, rfl, shutDownInLoop_leads h, .stay hne rfl rfl hnil⟩
    | forceCloseInLoop =>
      unfold runTask forceCloseInLoop
      dsimp only
      by_cases hst : conn.m_state = .kConnected ∨ conn.m_state = .kDisconnecting
      · obtain rfl := live_of_connected h hst
        obtain ⟨ep', conn', hok, hlead⟩ := handleClose_leads h
        rw [if_pos hst, hok, Effect.of_ok]
        exact ⟨_, .closing, rfl, hlead, .close (Or.inr ⟨_, rfl⟩) hfit.2 rfl rfl rfl⟩
      · rw [if_neg hst, Effect.of_ok]
        exact ⟨_, p, rfl, h.leads_self, .stay hne rfl rfl hnil⟩
  | handleRead c' =>
    cases hsub
    have hne : ∀ k, Task.handleRead c ≠ .life k c := fun k => by simp
    obtain ⟨rfl, hl⟩ := hfit
    -- the message callback leaves the connection live, the close callback does not
    obtain ⟨ep', conn', callback, hok, hcase⟩ := handleRead_leads h read
    unfold runTask
    rw [hok]
    dsimp only
    rcases hcase with ⟨rfl, hlead⟩ | ⟨rfl, hlead⟩
    · refine ⟨_, .live, rfl, hlead, .stay hne rfl rfl fun t' ht' => ?_⟩
      exact List.mem_singleton.1 ht'
    · exact ⟨_, .closing, rfl, hlead, .close (Or.inl rfl) hl rfl rfl rfl⟩
  | handleWrite c' =>
    cases hsub
    obtain ⟨ep', conn', hok, hlead⟩ := handleWrite_leads h hfit write
    exact ⟨_, p, by rw [runTask, hok, Effect.of_ok], hlead, .stay (fun k => by simp) rfl rfl hnil⟩
  | user c' => cases hsub

end

end MyMuduo
