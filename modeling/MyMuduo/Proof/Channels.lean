import MyMuduo.Lib.Run
import MyMuduo.Proof.Epoller

/-!
# Many channels on one epoller

The epoller keeps three records of a channel: its `m_index`, the entry in `m_channels` and
the entry in the kernel's interest set. As long as no channel is removed they agree
(`PollOk`), and each call on a channel moves it between them as its index and its new events
say (`call_ok`).

* `index_classifies_iff`: **the index classifies every channel exactly, and no assertion
  fails, at all times of a run, if and only if the run removes no channel.** A removed channel
  keeps the index `kDeleted`, which `updateChannel` takes for one that is in `m_channels`.
* `interest_follows_iff`: **the kernel's interest is what the channels ask for at all times of a
  run, and a repeated disable changes nothing, if and only if no call leaves a channel that is
  not `kAdded` without events.** Such a call adds the channel to the kernel's set, with no events.
-/

namespace MyMuduo

open Lib

namespace Poll

variable {s s' : Poll} {p : ℕ} {c : ChannelCall}

/-- **The three records of a channel agree.** -/
structure PollOk (s : Poll) : Prop where
  running : s.failed = none
  fds : ∀ p q, s.fd p = s.fd q → p = q
  new : ∀ p, (s.channels p).m_index = .kNew →
    s.m_epoller.m_channels (s.fd p) = none ∧ s.m_epoller.interest (s.fd p) = none
  added : ∀ p, (s.channels p).m_index = .kAdded →
    s.m_epoller.m_channels (s.fd p) = some p ∧
      s.m_epoller.interest (s.fd p) = some ((s.channels p).m_events, p)
  deleted : ∀ p, (s.channels p).m_index = .kDeleted →
    s.m_epoller.m_channels (s.fd p) = some p ∧ s.m_epoller.interest (s.fd p) = none

theorem start_pollOk {fds : ℕ → ℕ} (hfds : Function.Injective fds) : (start fds).PollOk := by
  refine ⟨rfl, fun p q h => hfds h, fun p _ => ⟨rfl, rfl⟩, fun p h => ?_, fun p h => ?_⟩
  · simp [start, Channel.new] at h
  · simp [start, Channel.new] at h

/-! ## One call -/

section

variable {ep : Epoller} {ch : Channel}

/-- An update of a channel that the kernel does not know adds it, whatever its events. -/
theorem updateChannel_add (hi : ch.m_index ≠ .kAdded) (hint : ep.interest ch.m_fd = none)
    (hmap : ch.m_index = .kDeleted → ep.m_channels ch.m_fd = some p) :
    ep.updateChannel p ch =
      .ok (⟨Function.update ep.m_channels ch.m_fd (some p),
        Function.update ep.interest ch.m_fd (some (ch.m_events, p))⟩, { ch with m_index := .kAdded }) := by
  rcases ch with ⟨fd, e, i⟩
  cases i with
  | kNew => simp only [Epoller.updateChannel, Epoller.update, hint]
  | kAdded => exact absurd rfl hi
  | kDeleted =>
    have hm : ep.m_channels fd = some p := hmap rfl
    have hself : Function.update ep.m_channels fd (some p) = ep.m_channels := by
      rw [← hm]; exact Function.update_eq_self _ _
    simp only [Epoller.updateChannel, Epoller.update, hint, hm, if_true, hself]

/-- An update of a channel that the kernel knows deletes it if no events are left. -/
theorem updateChannel_added (hi : ch.m_index = .kAdded) (hmap : ep.m_channels ch.m_fd = some p)
    {x : Events × ℕ} (hint : ep.interest ch.m_fd = some x) :
    ep.updateChannel p ch =
      .ok (⟨ep.m_channels, Function.update ep.interest ch.m_fd
          (if ch.m_events = 0 then none else some (ch.m_events, p))⟩,
        { ch with m_index := if ch.m_events = 0 then .kDeleted else .kAdded }) := by
  rcases ch with ⟨fd, e, i⟩
  simp only at hi hmap hint
  by_cases he : e = 0
  · have hr : Channel.isRegistered ⟨fd, e, .kAdded⟩ = false := by simp [Channel.isRegistered, he]
    simp only [Epoller.updateChannel, Epoller.update, hi, hmap, hint, hr, if_true, if_pos he,
      Bool.false_eq_true, if_false]
  · have hr : Channel.isRegistered ⟨fd, e, .kAdded⟩ = true := by simpa [Channel.isRegistered] using he
    simp only [Epoller.updateChannel, Epoller.update, hi, hmap, hint, hr, if_true, if_neg he]

end

/-- What a call on the channel `p` makes of it and of its descriptor, all else being as before. -/
structure Calls (p : ℕ) (e : Events) (i : ChannelIndex) (s s' : Poll) : Prop where
  running : s'.failed = none
  channels : s'.channels = Function.update s.channels p ⟨s.fd p, e, i⟩
  map : s'.m_epoller.m_channels = Function.update s.m_epoller.m_channels (s.fd p) (some p)
  interest : s'.m_epoller.interest =
    Function.update s.m_epoller.interest (s.fd p) (if i = .kAdded then some (e, p) else none)

/-- The index after a call that leaves the events `e`. -/
def indexAfter (s : Poll) (p : ℕ) (e : Events) : ChannelIndex :=
  if (s.channels p).m_index = .kAdded ∧ e = 0 then .kDeleted else .kAdded

/-- **A call on a channel**: no assertion fails; a channel that was added and is left without
events is deleted from the kernel's set, any other is in it with its events. -/
theorem call_ok (h : s.PollOk) (hs : s.step (.call p c) = some s') :
    Calls p (c.events (s.channels p).m_events) (s.indexAfter p (c.events (s.channels p).m_events)) s s' := by
  have hrun : ¬s.failed ≠ none := fun hf => hf h.running
  simp only [step, if_neg hrun, Option.some.injEq] at hs
  set e := c.events (s.channels p).m_events with he
  by_cases hi : (s.channels p).m_index = .kAdded
  · obtain ⟨hmap, hint⟩ := h.added p hi
    have hup := @updateChannel_added p s.m_epoller { s.channels p with m_events := e } hi hmap _ hint
    rw [hup] at hs
    have hself : Function.update s.m_epoller.m_channels (s.fd p) (some p) = s.m_epoller.m_channels := by
      rw [← hmap]; exact Function.update_eq_self _ _
    have hafter : s.indexAfter p e = if e = 0 then .kDeleted else .kAdded := by
      simp only [indexAfter, hi, true_and]
    rw [← hs, hafter]
    refine ⟨h.running, rfl, hself.symm, ?_⟩
    by_cases h0 : e = 0
    · simp only [put, if_pos h0, reduceCtorEq, if_false, fd]
    · simp only [put, if_neg h0, if_true, fd]
  · have hafter : s.indexAfter p e = .kAdded := by simp [indexAfter, hi]
    have hint : s.m_epoller.interest (s.fd p) = none := by
      cases hj : (s.channels p).m_index with
      | kNew => exact (h.new p hj).2
      | kAdded => exact absurd hj hi
      | kDeleted => exact (h.deleted p hj).2
    have hmap : (s.channels p).m_index = .kDeleted → s.m_epoller.m_channels (s.fd p) = some p :=
      fun hj => (h.deleted p hj).1
    have hup := @updateChannel_add p s.m_epoller { s.channels p with m_events := e } hi hint hmap
    rw [hup] at hs
    rw [← hs, hafter]
    exact ⟨h.running, rfl, rfl, by simp [put, fd]⟩

/-- The descriptors do not change. -/
theorem Calls.fd {e : Events} {i : ChannelIndex} (h : Calls p e i s s') (q : ℕ) : s'.fd q = s.fd q := by
  unfold Poll.fd
  rw [h.channels]
  by_cases hq : q = p
  · rw [hq, Function.update_self]; rfl
  · rw [Function.update_of_ne hq]

/-- A channel other than `p` is not touched, nor what is known under its descriptor. -/
theorem Calls.frame (hok : s.PollOk) {e : Events} {i : ChannelIndex} (h : Calls p e i s s') {q : ℕ}
    (hq : q ≠ p) :
    s'.channels q = s.channels q ∧ s'.m_epoller.m_channels (s'.fd q) = s.m_epoller.m_channels (s.fd q) ∧
      s'.m_epoller.interest (s'.fd q) = s.m_epoller.interest (s.fd q) := by
  have hfd : s.fd q ≠ s.fd p := fun he => hq (hok.fds q p he)
  rw [h.fd q, h.channels, h.map, h.interest, Function.update_of_ne hq, Function.update_of_ne hfd,
    Function.update_of_ne hfd]
  exact ⟨rfl, rfl, rfl⟩

/-- The channel itself afterwards. -/
theorem Calls.self {e : Events} {i : ChannelIndex} (h : Calls p e i s s') :
    s'.channels p = ⟨s.fd p, e, i⟩ ∧ s'.m_epoller.m_channels (s'.fd p) = some p ∧
      s'.m_epoller.interest (s'.fd p) = if i = .kAdded then some (e, p) else none := by
  rw [h.fd p, h.channels, h.map, h.interest, Function.update_self, Function.update_self,
    Function.update_self]
  exact ⟨rfl, rfl, rfl⟩

/-- **A call keeps the records in agreement.** -/
theorem call_pollOk (h : s.PollOk) (hs : s.step (.call p c) = some s') : s'.PollOk := by
  have hc := call_ok h hs
  have hne : s.indexAfter p (c.events (s.channels p).m_events) ≠ .kNew := by
    unfold indexAfter
    split <;> simp
  set e := c.events (s.channels p).m_events
  set i := s.indexAfter p e
  obtain ⟨hch, hmap, hint⟩ := hc.self
  -- each clause holds of `p` by the call and of the others as before
  refine ⟨hc.running, fun q r hqr => ?_, fun q hq => ?_, fun q hq => ?_, fun q hq => ?_⟩
  · rw [hc.fd, hc.fd] at hqr
    exact h.fds q r hqr
  · by_cases hqp : q = p
    · subst hqp
      rw [hch] at hq
      exact absurd hq hne
    · obtain ⟨h1, h2, h3⟩ := hc.frame h hqp
      rw [h1] at hq
      rw [h2, h3]
      exact h.new q hq
  · by_cases hqp : q = p
    · subst hqp
      rw [hch] at hq ⊢
      have hi : i = .kAdded := hq
      rw [if_pos hi] at hint
      exact ⟨hmap, hint⟩
    · obtain ⟨h1, h2, h3⟩ := hc.frame h hqp
      rw [h1] at hq
      rw [h1, h2, h3]
      exact h.added q hq
  · by_cases hqp : q = p
    · subst hqp
      rw [hch] at hq
      have hi : i = .kDeleted := hq
      rw [if_neg (by rw [hi]; simp)] at hint
      exact ⟨hmap, hint⟩
    · obtain ⟨h1, h2, h3⟩ := hc.frame h hqp
      rw [h1] at hq
      rw [h2, h3]
      exact h.deleted q hq

/-! ## The index -/

/-- **The index classifies every channel**, and no assertion has failed. -/
structure Classified (s : Poll) : Prop where
  running : s.failed = none
  new : ∀ p, (s.channels p).m_index = .kNew ↔ s.m_epoller.m_channels (s.fd p) = none
  added : ∀ p, (s.channels p).m_index = .kAdded ↔
    s.m_epoller.m_channels (s.fd p) ≠ none ∧ s.m_epoller.interest (s.fd p) ≠ none
  deleted : ∀ p, (s.channels p).m_index = .kDeleted ↔
    s.m_epoller.m_channels (s.fd p) ≠ none ∧ s.m_epoller.interest (s.fd p) = none

theorem PollOk.classified (h : s.PollOk) : s.Classified := by
  -- the three indices exclude one another, and so do the three states of the records
  have key : ∀ p, ((s.channels p).m_index = .kNew ↔ s.m_epoller.m_channels (s.fd p) = none) ∧
      ((s.channels p).m_index = .kAdded ↔
        s.m_epoller.m_channels (s.fd p) ≠ none ∧ s.m_epoller.interest (s.fd p) ≠ none) ∧
      ((s.channels p).m_index = .kDeleted ↔
        s.m_epoller.m_channels (s.fd p) ≠ none ∧ s.m_epoller.interest (s.fd p) = none) := by
    intro p
    cases hi : (s.channels p).m_index with
    | kNew =>
      obtain ⟨h1, h2⟩ := h.new p hi
      simp [h1]
    | kAdded =>
      obtain ⟨h1, h2⟩ := h.added p hi
      simp [h1, h2]
    | kDeleted =>
      obtain ⟨h1, h2⟩ := h.deleted p hi
      simp [h1, h2]
  exact ⟨h.running, fun p => (key p).1, fun p => (key p).2.1, fun p => (key p).2.2⟩

/-- A channel that is removed keeps the index of one that is in `m_channels`. -/
theorem remove_not_classified (h : s.PollOk) (hs : s.step (.removeChannel p) = some s') :
    ¬s'.Classified := by
  intro hcl
  simp only [step] at hs
  split at hs
  · simp at hs
  rename_i hg
  have hin : s.m_epoller.m_channels (s.channels p).m_fd = some p := by
    simpa [h.running, Epoller.hasChannel] using hg
  have hne : (s.channels p).m_index ≠ .kNew := by
    intro hi
    have := (h.new p hi).1
    rw [fd, hin] at this
    simp at this
  obtain ⟨ep, hrem, hgone⟩ : ∃ ep, s.m_epoller.removeChannel p (s.channels p) =
      .ok (ep, { s.channels p with m_index := .kDeleted }) ∧ ep.m_channels (s.fd p) = none := by
    unfold Epoller.removeChannel
    rw [if_pos ⟨hin, hne⟩]
    dsimp only
    split
    · exact ⟨_, rfl, Function.update_self _ _ _⟩
    · rename_i hadd
      have hdel : (s.channels p).m_index = .kDeleted := by
        cases hi : (s.channels p).m_index with
        | kNew => exact absurd hi hne
        | kAdded => exact absurd hi hadd
        | kDeleted => rfl
      exact ⟨_, by rw [← hdel], Function.update_self _ _ _⟩
  rw [hrem] at hs
  simp only [Option.some.injEq] at hs
  subst hs
  have hch : (s.put p (.ok (ep, { s.channels p with m_index := .kDeleted }))).channels p =
      { s.channels p with m_index := .kDeleted } := Function.update_self _ _ _
  have hdel := (hcl.deleted p).1 (by rw [hch])
  have hfd : (s.put p (.ok (ep, { s.channels p with m_index := .kDeleted }))).fd p = s.fd p := by
    unfold fd; rw [hch]
  rw [hfd] at hdel
  exact hdel.1 hgone

/-- **The index classifies every channel exactly and no assertion fails**, at all times of a run of
any calls on any channels with descriptors of their own, if and only if no channel is removed. -/
theorem index_classifies_iff {fds : ℕ → ℕ} (hfds : Function.Injective fds) (steps : List PollStep)
    (hrun : run step (start fds) steps = some s) :
    (∀ n t, run step (start fds) (steps.take n) = some t → t.Classified) ↔
      ∀ p, .removeChannel p ∉ steps := by
  have hstep : ∀ (t : Poll) (a : PollStep) (t' : Poll), t.PollOk → t.step a = some t' →
      ((∀ p, a ≠ .removeChannel p) ↔ t'.Classified) ∧ ((∀ p, a ≠ .removeChannel p) → t'.PollOk) := by
    intro t a t' ht hs
    cases a with
    | call p c =>
      have hok := call_pollOk ht hs
      have hno : ∀ q, PollStep.call p c ≠ .removeChannel q := fun q => by simp
      exact ⟨⟨fun _ => hok.classified, fun _ => hno⟩, fun _ => hok⟩
    | removeChannel p =>
      have hnot := remove_not_classified ht hs
      exact ⟨⟨fun hno => absurd rfl (hno p), fun hcl => absurd hcl hnot⟩, fun hno => absurd rfl (hno p)⟩
  have key := forall_run_iff_along (C := fun _ a => ∀ p, a ≠ PollStep.removeChannel p) (I := PollOk)
    (fun t ht => ht.classified) hstep steps (start_pollOk hfds) hrun
  rw [key]
  constructor
  · intro hal p hp
    exact forall_of_along hrun hal _ hp p rfl
  · intro hno
    exact along_of_forall _ fun a ha p hp => hno p (hp ▸ ha)

/-- Two channels come and go in the kernel's set. -/
def togglingSteps : List PollStep :=
  [.call 0 .enableReading, .call 1 .enableWriting, .call 0 .disableAll, .call 1 .disableReading,
    .call 0 .disableAll, .call 1 .disableWriting]

theorem index_classifies_iff_toggling :
    ∃ s, run step (start id) togglingSteps = some s ∧ (s.channels 0).m_index = .kAdded ∧
      (s.channels 1).m_index = .kDeleted ∧
      ∀ n t, run step (start id) (togglingSteps.take n) = some t → t.Classified := by
  have hrun : run step (start id) togglingSteps = some _ := rfl
  have h := (index_classifies_iff Function.injective_id togglingSteps hrun).2
    fun p => by simp [togglingSteps]
  exact ⟨_, hrun, rfl, rfl, h⟩

/-- A channel is removed, and registered again. -/
def removingSteps : List PollStep :=
  [.call 0 .enableReading, .removeChannel 0, .call 0 .enableReading]

/-- The removed channel is `kDeleted` without an entry, and its next call runs into an assertion. -/
theorem index_classifies_removed :
    (∃ s, run step (start id) (removingSteps.take 2) = some s ∧ ¬s.Classified) ∧
      ∃ s, run step (start id) removingSteps = some s ∧ s.failed = some .updateChannel := by
  refine ⟨⟨_, rfl, fun h => ?_⟩, ⟨_, rfl, rfl⟩⟩
  have hdel := (h.deleted 0).1 rfl
  exact hdel.1 rfl

/-! ## The kernel's interest -/

/-- One call, on a channel given with it. -/
def callStep (s : Poll) (x : ℕ × ChannelCall) : Option Poll := s.step (.call x.1 x.2)

/-- **The kernel's interest is what the channels ask for.** -/
def Follows (s : Poll) : Prop :=
  ∀ p, s.m_epoller.interest (s.fd p) =
    if (s.channels p).m_events = 0 then none else some ((s.channels p).m_events, p)

/-- A call on a channel that is added, or that leaves it some events. -/
def Sound (s : Poll) (x : ℕ × ChannelCall) : Prop :=
  (s.channels x.1).m_index = .kAdded ∨ x.2.events (s.channels x.1).m_events ≠ 0

instance (s : Poll) (x : ℕ × ChannelCall) : Decidable (s.Sound x) := inferInstanceAs (Decidable (_ ∨ _))

/-- A call keeps the interest up exactly if it is sound. -/
theorem call_follows_iff (h : s.PollOk) (hf : s.Follows) (hs : s.step (.call p c) = some s') :
    s'.Follows ↔ s.Sound (p, c) := by
  have hc := call_ok h hs
  obtain ⟨hch, -, hint⟩ := hc.self
  unfold Sound
  dsimp only
  set e := c.events (s.channels p).m_events with he
  -- the channels other than `p` are as before
  have hothers : s'.Follows ↔ s'.m_epoller.interest (s'.fd p) = if e = 0 then none else some (e, p) := by
    constructor
    · intro hf'
      have := hf' p
      rwa [hch] at this
    · intro hp q
      by_cases hq : q = p
      · rw [hq, hch]; exact hp
      · obtain ⟨h1, -, h3⟩ := hc.frame h hq
        rw [h1, h3]
        exact hf q
  rw [hothers, hint]
  by_cases h0 : e = 0
  · by_cases hi : (s.channels p).m_index = .kAdded
    · simp [indexAfter, hi, h0]
    · simp [indexAfter, hi, h0]
  · have hafter : s.indexAfter p e = .kAdded := by simp only [indexAfter, h0, and_false, if_false]
    rw [if_pos hafter, if_neg h0]
    exact iff_of_true rfl (Or.inr h0)

/-- A call that is repeated asks for the same events again. -/
theorem events_idem (c : ChannelCall) (e : Events) : c.events (c.events e) = c.events e := by
  cases c with
  | enableReading | enableWriting => simp only [ChannelCall.events, BitVec.or_assoc, BitVec.or_self]
  | disableReading | disableWriting => simp only [ChannelCall.events, BitVec.and_assoc, BitVec.and_self]
  | disableAll => rfl

theorem run_pollOk {fds : ℕ → ℕ} (hfds : Function.Injective fds) {calls : List (ℕ × ChannelCall)}
    (hrun : run callStep (start fds) calls = some s) : s.PollOk :=
  run_inv (I := PollOk) (fun _ _ _ ht hs => call_pollOk ht hs) (start_pollOk hfds) hrun

/-- **The kernel's interest follows the channels**, after every call of every sequence on any
channels with descriptors of their own, and a call that is repeated at once changes nothing, if
and only if every call is made on a channel that is added or leaves its channel some events. -/
theorem interest_follows_iff {fds : ℕ → ℕ} (hfds : Function.Injective fds)
    (calls : List (ℕ × ChannelCall)) (hrun : run callStep (start fds) calls = some s) :
    ((∀ n t, run callStep (start fds) (calls.take n) = some t → t.Follows) ∧
      ∀ n x t t', calls[n]? = some x → calls[n + 1]? = some x →
        run callStep (start fds) (calls.take (n + 1)) = some t →
        run callStep (start fds) (calls.take (n + 2)) = some t' →
          t'.m_epoller.interest = t.m_epoller.interest) ↔
      Along callStep Sound (start fds) calls := by
  have hstart : (start fds).PollOk ∧ (start fds).Follows := by
    refine ⟨start_pollOk hfds, fun p => ?_⟩
    have h0 : ((start fds).channels p).m_events = 0 := rfl
    rw [if_pos h0]; rfl
  have hstep : ∀ t x t', (t.PollOk ∧ t.Follows) → callStep t x = some t' →
      (t.Sound x ↔ t'.Follows) ∧ (t.Sound x → t'.PollOk ∧ t'.Follows) := by
    intro t x t' ht hs
    have hiff := call_follows_iff ht.1 ht.2 hs
    exact ⟨hiff.symm, fun hC => ⟨call_pollOk ht.1 hs, hiff.2 hC⟩⟩
  have key := forall_run_iff_along (C := Sound) (I := fun t => t.PollOk ∧ t.Follows) (P := Follows)
    (fun t ht => ht.2) hstep calls hstart hrun
  refine ⟨fun h => key.1 h.1, fun h => ⟨key.2 h, ?_⟩⟩
  -- the interest of the channel is settled by its events, which the repeated call does not change
  intro n x t t' hx hx' ht ht'
  have hfol := key.2 h
  obtain ⟨t₀, ht₀, hs₀⟩ := run_take_succ hx ht
  obtain ⟨t₁, ht₁, hs₁⟩ := run_take_succ hx' ht'
  obtain rfl : t₁ = t := by
    rw [ht] at ht₁
    exact (Option.some.inj ht₁).symm
  have hc₀ := call_ok (run_pollOk hfds ht₀) hs₀
  have hc₁ := call_ok (run_pollOk hfds ht) hs₁
  have hev : (t₁.channels x.1).m_events = x.2.events (t₀.channels x.1).m_events := by
    rw [hc₀.self.1]
  have hev' : (t'.channels x.1).m_events = (t₁.channels x.1).m_events := by
    rw [hc₁.self.1, hev]
    exact events_idem _ _
  have hsame : t'.m_epoller.interest (t₁.fd x.1) = t₁.m_epoller.interest (t₁.fd x.1) := by
    have h1 := hfol (n + 2) t' ht' x.1
    have h2 := hfol (n + 1) t₁ ht x.1
    rw [hc₁.fd, hev'] at h1
    rw [h1, h2]
  funext fd
  by_cases hfd : fd = t₁.fd x.1
  · rw [hfd, hsame]
  · rw [hc₁.interest, Function.update_of_ne hfd]

/-- Two channels, one of them enabled twice and then disabled. -/
def enablingCalls : List (ℕ × ChannelCall) :=
  [(0, .enableReading), (1, .enableWriting), (0, .enableReading), (0, .disableWriting), (0, .disableAll),
    (1, .enableReading), (1, .disableWriting)]

theorem interest_follows_iff_enabling :
    ∃ s : Poll, run callStep (start id) enablingCalls = some s ∧ s.m_epoller.interest 0 = none ∧
      s.m_epoller.interest 1 = some (kReadEvent, 1) ∧ s.Follows := by
  have hrun : run callStep (start id) enablingCalls = some _ := rfl
  have h := (interest_follows_iff Function.injective_id enablingCalls hrun).2 (by decide)
  exact ⟨_, hrun, rfl, rfl, h.1 7 _ rfl⟩

/-- A channel is disabled twice. -/
def disablingCalls : List (ℕ × ChannelCall) := [(0, .enableReading), (0, .disableAll), (0, .disableAll)]

/-- The second `disableAll` puts the channel back into the kernel's set, with no events. -/
theorem interest_follows_disabled :
    ∃ t t' : Poll, run callStep (start id) (disablingCalls.take 2) = some t ∧
      run callStep (start id) disablingCalls = some t' ∧ t.m_epoller.interest 0 = none ∧
      (t'.channels 0).m_events = 0 ∧ t'.m_epoller.interest 0 = some (0, 0) ∧ ¬t'.Follows := by
  refine ⟨_, _, rfl, rfl, rfl, rfl, rfl, fun h => ?_⟩
  have h0 := h 0
  simp [fd, start, Channel.new, ChannelCall.events, put, Epoller.updateChannel, Epoller.update, Epoller.new,
    Channel.isRegistered, kReadEvent, kNoneEvent, EPOLLIN, EPOLLPRI] at h0

end Poll

end MyMuduo
