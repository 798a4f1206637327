import Mathlib.Tactic

/-!
# Runs of a labelled system

A system is a partial step function `step : σ → α → Option σ`: `none` means the
label is not enabled. `run` iterates it along a list of labels, so a concrete run
can be evaluated, and every prefix of a run is a run.

* `run_inv`: a property that every enabled step preserves holds after every run.
* `run_inv_along`: the same when the steps are only those that meet a side
  condition (`Along`).
* `along_iff_along`: two side conditions that are the same under an invariant.
* `forall_after_iff_along`, `forall_run_iff_along`: a side condition that is exact for each step
  is exact for runs.
* `run_iff_along`: the same for a property that is never gained back.
* `run_countP_le`: a measure bounds how often a label comes in a run.
* `run_outputs`: a log to which each step adds its outputs is the outputs of the run.
* `run_sim`: a forward simulation carries along every run.
* `run_refines`: so does one whose steps are matched by runs.
* `run_flatMap`: a system whose steps are runs of another one runs that one.
-/

namespace MyMuduo.Lib

variable {σ τ α β : Type*}

/-- The state after a list of labels, `none` once a label is not enabled. -/
def run (step : σ → α → Option σ) : σ → List α → Option σ
  | s, [] => some s
  | s, a :: as => (step s a).bind fun s' => run step s' as

/-- Every step of the run from `s` along the labels meets `C`. -/
def Along (step : σ → α → Option σ) (C : σ → α → Prop) : σ → List α → Prop
  | _, [] => True
  | s, a :: as => C s a ∧ ∀ s', step s a = some s' → Along step C s' as

/-- What the steps of the run from `s` put out, each in the state it finds. -/
def outputs (step : σ → α → Option σ) (out : σ → α → List β) : σ → List α → List β
  | _, [] => []
  | s, a :: as => out s a ++ ((step s a).map fun s' => outputs step out s' as).getD []

variable {step : σ → α → Option σ}

@[simp] theorem run_nil (s : σ) : run step s [] = some s := rfl

theorem run_singleton (s : σ) (a : α) : run step s [a] = step s a := by simp [run]

theorem run_cons {s s' : σ} {a : α} {as : List α} (h : run step s (a :: as) = some s') :
    ∃ s₁, step s a = some s₁ ∧ run step s₁ as = some s' := by
  simpa [run, Option.bind_eq_some_iff] using h

theorem run_append (as bs : List α) (s : σ) :
    run step s (as ++ bs) = (run step s as).bind fun s' => run step s' bs := by
  induction as generalizing s with
  | nil => rfl
  | cons a as ih =>
    rw [List.cons_append, run, run, Option.bind_assoc]
    congr 1
    funext s'
    exact ih s'

/-- The last step of a prefix of a run. -/
theorem run_take_succ {s s' : σ} {as : List α} {n : ℕ} {a : α} (ha : as[n]? = some a)
    (h : run step s (as.take (n + 1)) = some s') :
    ∃ s₁, run step s (as.take n) = some s₁ ∧ step s₁ a = some s' := by
  rw [List.take_add_one, ha, run_append, Option.bind_eq_some_iff] at h
  obtain ⟨s₁, h₁, h₂⟩ := h
  exact ⟨s₁, h₁, by simpa [run] using h₂⟩

instance decidableAlong {C : σ → α → Prop} [∀ s a, Decidable (C s a)] :
    (s : σ) → (as : List α) → Decidable (Along step C s as)
  | _, [] => .isTrue trivial
  | s, a :: as =>
    have : Decidable (∀ s', step s a = some s' → Along step C s' as) :=
      match h : step s a with
      | none => .isTrue (by simp)
      | some s₁ =>
        have : Decidable (Along step C s₁ as) := decidableAlong s₁ as
        decidable_of_iff (Along step C s₁ as) (by simp)
    inferInstanceAs (Decidable (_ ∧ _))

/-- **The invariant rule under a side condition on the steps.** -/
theorem run_inv_along {C : σ → α → Prop} {I : σ → Prop}
    (hstep : ∀ s a s', I s → C s a → step s a = some s' → I s') :
    ∀ (as : List α) {s s' : σ}, I s → Along step C s as → run step s as = some s' → I s' := by
  intro as
  induction as with
  | nil => intro s s' hI _ h; cases h; exact hI
  | cons a as ih =>
    intro s s' hI hC h
    obtain ⟨s₁, h₁, h₂⟩ := run_cons h
    exact ih (hstep s a s₁ hI hC.1 h₁) (hC.2 s₁ h₁) h₂

/-- A side condition on the labels alone. -/
theorem along_of_forall {P : α → Prop} (s : σ) {as : List α} (h : ∀ a ∈ as, P a) :
    Along step (fun _ a => P a) s as := by
  induction as generalizing s with
  | nil => trivial
  | cons a as ih =>
    exact ⟨h a List.mem_cons_self, fun s' _ => ih s' fun b hb => h b (List.mem_cons_of_mem _ hb)⟩

/-- In a run that comes to its end every label is met. -/
theorem forall_of_along {P : α → Prop} : ∀ {as : List α} {s s' : σ}, run step s as = some s' →
    Along step (fun _ a => P a) s as → ∀ a ∈ as, P a := by
  intro as
  induction as with
  | nil => intro s s' _ _ a ha; simp at ha
  | cons b as ih =>
    intro s s' h hC a ha
    obtain ⟨s₁, h₁, h₂⟩ := run_cons h
    rcases List.mem_cons.1 ha with ha | ha
    · rw [ha]; exact hC.1
    · exact ih h₂ (hC.2 s₁ h₁) a ha

theorem along_take {C : σ → α → Prop} {s : σ} {as : List α} (h : Along step C s as) (n : ℕ) :
    Along step C s (as.take n) := by
  induction as generalizing s n with
  | nil => rw [List.take_nil]; exact h
  | cons a as ih =>
    cases n with
    | zero => trivial
    | succ n => exact ⟨h.1, fun s' hs => ih (h.2 s' hs) n⟩

/-- Two side conditions that say the same wherever the invariant holds, which a step that meets
them keeps. -/
theorem along_iff_along {C P : σ → α → Prop} {I : σ → Prop} (hiff : ∀ s a, I s → (P s a ↔ C s a))
    (hkeep : ∀ s a s', I s → C s a → step s a = some s' → I s') :
    ∀ (as : List α) {s : σ}, I s → (Along step P s as ↔ Along step C s as) := by
  intro as
  induction as with
  | nil => intro s _; exact Iff.rfl
  | cons a as ih =>
    intro s hI
    constructor
    · intro h
      have hC : C s a := (hiff s a hI).1 h.1
      exact ⟨hC, fun s' hs => (ih (hkeep s a s' hI hC hs)).1 (h.2 s' hs)⟩
    · intro h
      exact ⟨(hiff s a hI).2 h.1, fun s' hs => (ih (hkeep s a s' hI h.1 hs)).2 (h.2 s' hs)⟩

/-- **The invariant rule.** -/
theorem run_inv {I : σ → Prop} (hstep : ∀ s a s', I s → step s a = some s' → I s')
    {as : List α} {s s' : σ} (hI : I s) (h : run step s as = some s') : I s' :=
  run_inv_along (C := fun _ _ => True) (fun s a s' hI _ => hstep s a s' hI) as hI
    (along_of_forall s fun _ _ => trivial) h

/-- **An exact side condition.** If, from a state with the invariant, a step meets `C`
exactly if it leads to a state with `P`, then `P` holds behind every step of a run exactly if
all its steps meet `C`. -/
theorem forall_after_iff_along {C : σ → α → Prop} {I P : σ → Prop}
    (hstep : ∀ s a s', I s → step s a = some s' → (C s a ↔ P s') ∧ (C s a → I s')) :
    ∀ (as : List α) {s s' : σ}, I s → run step s as = some s' →
      ((∀ n t, n < as.length → run step s (as.take (n + 1)) = some t → P t) ↔
        Along step C s as) := by
  intro as
  induction as with
  | nil =>
    intro s s' _ _
    exact iff_of_true (fun n t hn => absurd hn (Nat.not_lt_zero n)) trivial
  | cons a as ih =>
    intro s s' hI h
    obtain ⟨s₁, h₁, h₂⟩ := run_cons h
    obtain ⟨hiff, hkeep⟩ := hstep s a s₁ hI h₁
    -- a step that breaks `C` is seen by the prefix that ends with it
    constructor
    · intro hall
      have hC : C s a := hiff.2 (hall 0 s₁ (Nat.succ_pos _) (by simp [run, h₁]))
      refine ⟨hC, fun t ht => ?_⟩
      rw [h₁] at ht
      cases ht
      refine (ih (hkeep hC) h₂).1 fun n t hn ht => hall (n + 1) t (Nat.succ_lt_succ hn) ?_
      rw [List.take_succ_cons, run, h₁]
      exact ht
    · rintro ⟨hC, hrest⟩ n t hn ht
      obtain ⟨t₁, ht₁, ht'⟩ := run_cons ht
      rw [h₁] at ht₁
      cases ht₁
      cases n with
      | zero =>
        cases ht'
        exact hiff.1 hC
      | succ n => exact (ih (hkeep hC) h₂).2 (hrest s₁ h₁) n t (Nat.lt_of_succ_lt_succ hn) ht'

/-- The same at all times of a run, its start among them. -/
theorem forall_run_iff_along {C : σ → α → Prop} {I P : σ → Prop} (hP : ∀ s, I s → P s)
    (hstep : ∀ s a s', I s → step s a = some s' → (C s a ↔ P s') ∧ (C s a → I s'))
    (as : List α) {s s' : σ} (hI : I s) (h : run step s as = some s') :
    (∀ n t, run step s (as.take n) = some t → P t) ↔ Along step C s as := by
  rw [← forall_after_iff_along hstep as hI h]
  constructor
  · intro hall n t _ ht
    exact hall (n + 1) t ht
  · intro hall n t ht
    cases n with
    | zero =>
      cases ht
      exact hP s hI
    | succ n =>
      rcases Nat.lt_or_ge n as.length with hn | hn
      · exact hall n t hn ht
      · -- beyond the last step nothing happens
        rw [List.take_of_length_le (by omega)] at ht
        cases has : as with
        | nil =>
          rw [has] at ht
          cases ht
          exact hP s hI
        | cons a as' =>
          have hlen : as.length - 1 < as.length := by rw [has]; simp
          refine hall (as.length - 1) t hlen ?_
          rwa [List.take_of_length_le (by omega)]

/-- **A property that a run loses at one step and never gains.** If, under the invariant, `P`
holds after a step exactly if it held before and the step met `C`, then `P` holds at the end
of a run exactly if it held at its start and all its steps met `C`. All this among the steps
that meet `D`. -/
theorem run_iff_along {C D : σ → α → Prop} {I P : σ → Prop}
    (hstep : ∀ s a s', I s → D s a → step s a = some s' → I s' ∧ (P s' ↔ P s ∧ C s a)) :
    ∀ (as : List α) {s s' : σ}, I s → Along step D s as → run step s as = some s' →
      (P s' ↔ P s ∧ Along step C s as) := by
  intro as
  induction as with
  | nil =>
    intro s s' _ _ h
    cases h
    exact ⟨fun hP => ⟨hP, trivial⟩, And.left⟩
  | cons a as ih =>
    intro s s' hI hD h
    obtain ⟨s₁, h₁, h₂⟩ := run_cons h
    obtain ⟨hI₁, hiff⟩ := hstep s a s₁ hI hD.1 h₁
    rw [ih hI₁ (hD.2 s₁ h₁) h₂, hiff]
    constructor
    · rintro ⟨⟨hP, hC⟩, hrest⟩
      refine ⟨hP, hC, fun t ht => ?_⟩
      rw [h₁] at ht
      cases ht
      exact hrest
    · rintro ⟨hP, hC, hrest⟩
      exact ⟨⟨hP, hC⟩, hrest s₁ h₁⟩

/-- **A measure bounds how often a label comes.** Among the steps that meet the side condition: if those
with a label of `p` lower the measure, and the others raise it by no more than `k`, then the others pay
for those of `p`. -/
theorem run_countP_le {C : σ → α → Prop} {I : σ → Prop} {p : α → Bool} {m : σ → ℕ} {k : ℕ}
    (hstep : ∀ s a s', I s → C s a → step s a = some s' →
      I s' ∧ if p a then m s' < m s else m s' ≤ m s + k) :
    ∀ (as : List α) {s s' : σ}, I s → Along step C s as → run step s as = some s' →
      m s' + as.countP p ≤ m s + k * as.countP fun a => !p a := by
  intro as
  induction as with
  | nil => intro s s' _ _ h; cases h; exact Nat.le_add_right _ _
  | cons a as ih =>
    intro s s' hI hC h
    obtain ⟨s₁, h₁, h₂⟩ := run_cons h
    obtain ⟨hI₁, hle⟩ := hstep s a s₁ hI hC.1 h₁
    have hrest := ih hI₁ (hC.2 s₁ h₁) h₂
    rw [List.countP_cons, List.countP_cons, Nat.mul_add]
    cases hp : p a with
    | true =>
      rw [hp, if_pos rfl] at hle
      simp only [if_true, Bool.not_true, Bool.false_eq_true, if_false, Nat.mul_zero]
      omega
    | false =>
      rw [hp, if_neg (by decide)] at hle
      simp only [Bool.false_eq_true, if_false, Bool.not_false, if_true, Nat.mul_one]
      omega

/-- **A log of a run.** Among the steps that meet the side condition: if each one adds its outputs to the
log, the log has all of them, in order. -/
theorem run_outputs {C : σ → α → Prop} {I : σ → Prop} {L : σ → List β} {O : σ → α → List β}
    (hstep : ∀ s a s', I s → C s a → step s a = some s' → I s' ∧ L s' = L s ++ O s a) :
    ∀ (as : List α) {s s' : σ}, I s → Along step C s as → run step s as = some s' →
      L s' = L s ++ outputs step O s as := by
  intro as
  induction as with
  | nil => intro s s' _ _ h; cases h; exact (List.append_nil _).symm
  | cons a as ih =>
    intro s s' hI hC h
    obtain ⟨s₁, h₁, h₂⟩ := run_cons h
    obtain ⟨hI₁, hlog⟩ := hstep s a s₁ hI hC.1 h₁
    rw [ih hI₁ (hC.2 s₁ h₁) h₂, hlog, outputs, h₁, Option.map_some, Option.getD_some, List.append_assoc]

theorem outputs_singleton {out : σ → α → List β} (s : σ) (a : α) : outputs step out s [a] = out s a := by
  rw [outputs]
  cases step s a with
  | none => exact List.append_nil _
  | some s' => exact List.append_nil _

theorem outputs_append {out : σ → α → List β} {as : List α} {s s' : σ} (h : run step s as = some s')
    (bs : List α) : outputs step out s (as ++ bs) = outputs step out s as ++ outputs step out s' bs := by
  induction as generalizing s with
  | nil => cases h; rfl
  | cons a as ih =>
    obtain ⟨s₁, h₁, h₂⟩ := run_cons h
    rw [List.cons_append, outputs, outputs, h₁, Option.map_some, Option.map_some, Option.getD_some,
      Option.getD_some, ih h₂, List.append_assoc]

/-- **Forward simulation.** A step function `astep` on abstract states follows the
run label by label when every concrete step that meets the side condition can be
matched. -/
theorem run_sim {C : σ → α → Prop} {R : σ → τ → Prop} (astep : τ → α → τ)
    (hstep : ∀ s t a s', R s t → C s a → step s a = some s' → R s' (astep t a)) :
    ∀ (as : List α) {s s' : σ} {t : τ}, R s t → Along step C s as → run step s as = some s' →
      R s' (as.foldl astep t) := by
  intro as
  induction as with
  | nil => intro s s' t hR _ h; cases h; exact hR
  | cons a as ih =>
    intro s s' t hR hC h
    obtain ⟨s₁, h₁, h₂⟩ := run_cons h
    exact ih (hstep s t a s₁ hR hC.1 h₁) (hC.2 s₁ h₁) h₂

/-- **Refinement.** Where every step that meets the side condition is matched by a run of the abstract
system, so is every run. -/
theorem run_refines {C : σ → α → Prop} {R : σ → τ → Prop} {pstep : τ → β → Option τ}
    (hstep : ∀ s t a s', R s t → C s a → step s a = some s' →
      ∃ bs t', run pstep t bs = some t' ∧ R s' t') :
    ∀ (as : List α) {s s' : σ} {t : τ}, R s t → Along step C s as → run step s as = some s' →
      ∃ bs t', run pstep t bs = some t' ∧ R s' t' := by
  intro as
  induction as with
  | nil => intro s s' t hR _ h; cases h; exact ⟨[], t, rfl, hR⟩
  | cons a as ih =>
    intro s s' t hR hC h
    obtain ⟨s₁, h₁, h₂⟩ := run_cons h
    obtain ⟨bs, t₁, hb, hR₁⟩ := hstep s t a s₁ hR hC.1 h₁
    obtain ⟨cs, t', hc, hR'⟩ := ih hR₁ (hC.2 s₁ h₁) h₂
    exact ⟨bs ++ cs, t', by rw [run_append, hb, Option.bind_some, hc], hR'⟩

/-- **Projection.** Where each step `a` is a run of another system, of the labels `labels a`, a
run is a run of it. -/
theorem run_flatMap {pstep : τ → β → Option τ} (proj : σ → τ) (labels : α → List β)
    (hstep : ∀ s a s', step s a = some s' → run pstep (proj s) (labels a) = some (proj s')) :
    ∀ (as : List α) {s s' : σ}, run step s as = some s' →
      run pstep (proj s) (as.flatMap labels) = some (proj s') := by
  intro as
  induction as with
  | nil => intro s s' h; cases h; rfl
  | cons a as ih =>
    intro s s' h
    obtain ⟨s₁, h₁, h₂⟩ := run_cons h
    rw [List.flatMap_cons, run_append, hstep s a s₁ h₁, Option.bind_some]
    exact ih h₂

end MyMuduo.Lib
