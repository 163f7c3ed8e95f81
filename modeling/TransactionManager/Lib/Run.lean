import Mathlib.Data.DFinsupp.WellFounded
import Mathlib.Data.List.Induction
import Mathlib.Data.Option.Basic
/-
# Runs of a partial step function

A system is a step function `σ → α → Option σ`: `none` says that the action is not enabled.
A schedule is a list of actions and `run` folds the step over it. The rules below are the
only inductions over schedules that the development needs: an invariant, an invariant that
also speaks of the schedule so far, a lock-step simulation between two systems, a
simulation that erases some of the actions, a refinement with stuttering, a variant that
bounds every schedule, a descent that ends every schedule, and one that leads a single party
to its end.
-/

namespace Run

variable {σ τ α : Type}

/-- The state after a schedule, `none` as soon as one action is not enabled. -/
def run (step : σ → α → Option σ) (s : σ) (as : List α) : Option σ := as.foldlM step s

variable {step : σ → α → Option σ}

@[simp] theorem run_nil (s : σ) : run step s [] = some s := rfl

theorem run_cons (s : σ) (a : α) (as : List α) :
    run step s (a :: as) = (step s a).bind fun s' => run step s' as := by
  simp [run, List.foldlM_cons]

theorem run_append (s : σ) (as bs : List α) :
    run step s (as ++ bs) = (run step s as).bind fun s' => run step s' bs := by
  simp [run, List.foldlM_append]

theorem run_cons_some {s s' : σ} {a : α} {as : List α} (h : run step s (a :: as) = some s') :
    ∃ m, step s a = some m ∧ run step m as = some s' := by
  rw [run_cons] at h
  exact Option.bind_eq_some_iff.1 h

/-- The last action of a run, split off. -/
theorem run_concat_some {s s' : σ} {a : α} {as : List α} (h : run step s (as ++ [a]) = some s') :
    ∃ m, run step s as = some m ∧ step m a = some s' := by
  rw [run_append] at h
  obtain ⟨m, hm, hs⟩ := Option.bind_eq_some_iff.1 h
  obtain ⟨m', hm', he⟩ := run_cons_some hs
  simp only [run_nil, Option.some.injEq] at he
  exact ⟨m, hm, he ▸ hm'⟩

theorem run_concat {s m s' : σ} {a : α} {as : List α} (hm : run step s as = some m)
    (hs : step m a = some s') : run step s (as ++ [a]) = some s' := by
  rw [run_append, hm]
  simp [run_cons, hs]

/-- Two step functions that agree on the actions of a schedule run it alike. -/
theorem run_congr {step' : σ → α → Option σ} :
    ∀ (as : List α) (s : σ), (∀ a ∈ as, ∀ s, step s a = step' s a) → run step s as = run step' s as
  | [], s, _ => rfl
  | a :: as, s, h => by
    rw [run_cons, run_cons, h a List.mem_cons_self]
    exact congrArg _ (funext fun s' => run_congr as s' fun b hb => h b (List.mem_cons_of_mem a hb))

/-- An invariant of the initial state and of every step holds after every run. -/
theorem run_inv (I : σ → Prop) (hstep : ∀ s a s', I s → step s a = some s' → I s') :
    ∀ {s s' : σ} (as : List α), I s → run step s as = some s' → I s'
  | s, s', [], hi, h => by
    simp only [run_nil, Option.some.injEq] at h
    exact h ▸ hi
  | s, s', a :: as, hi, h => by
    obtain ⟨m, hm, hr⟩ := run_cons_some h
    exact run_inv I hstep as (hstep s a m hi hm) hr

/-- An invariant that also speaks of the schedule that led to the state. -/
theorem run_history (I : List α → σ → Prop) {s₀ : σ} (h0 : I [] s₀)
    (hstep : ∀ as s a s', run step s₀ as = some s → I as s → step s a = some s' → I (as ++ [a]) s') :
    ∀ (as : List α) {s : σ}, run step s₀ as = some s → I as s := by
  intro as
  induction as using List.reverseRecOn with
  | nil =>
    intro s h
    simp only [run_nil, Option.some.injEq] at h
    exact h ▸ h0
  | append_singleton as a ih =>
    intro s h
    obtain ⟨m, hm, hs⟩ := run_concat_some h
    exact hstep as m a s hm (ih hm) hs

/-- **Lock-step simulation.** Two systems whose related states answer every action alike
(both refuse it, or both take it into related states) answer every schedule alike. -/
theorem run_lockstep {stepT : τ → α → Option τ} (R : σ → τ → Prop)
    (hstep : ∀ s t a, R s t → Option.Rel R (step s a) (stepT t a)) :
    ∀ (as : List α) {s : σ} {t : τ}, R s t → Option.Rel R (run step s as) (run stepT t as)
  | [], s, t, h => by simpa using h
  | a :: as, s, t, h => by
    rw [run_cons, run_cons]
    have hs := hstep s t a h
    generalize step s a = x, stepT t a = y at hs
    cases hs with
    | none => exact Option.Rel.none
    | some hr => exact run_lockstep R hstep as hr

/-- **Erasing simulation.** As long as `ok` holds of the schedule so far: if the erased actions
keep the relation with nothing done on the other side, and the kept ones can be followed there,
then the erased schedule runs there. -/
theorem run_erase {stepT : τ → α → Option τ} (R : σ → τ → Prop) (mine : α → Bool) (ok : List α → Prop)
    {s₀ : σ} {t₀ : τ} (h0 : R s₀ t₀) (hback : ∀ as a, ok (as ++ [a]) → ok as)
    (hskip : ∀ as s t a s', run step s₀ as = some s → ok (as ++ [a]) → mine a = true → R s t →
      step s a = some s' → R s' t)
    (hkeep : ∀ s t a s', mine a = false → R s t → step s a = some s' → ∃ t', stepT t a = some t' ∧ R s' t') :
    ∀ (as : List α) {s : σ}, ok as → run step s₀ as = some s →
      ∃ t, run stepT t₀ (as.filter fun a => !mine a) = some t ∧ R s t := by
  intro as
  induction as using List.reverseRecOn with
  | nil =>
    intro s _ h
    simp only [run_nil, Option.some.injEq] at h
    exact ⟨t₀, rfl, h ▸ h0⟩
  | append_singleton as a ih =>
    intro s hok h
    obtain ⟨m, hm, hs⟩ := run_concat_some h
    obtain ⟨t, ht, hR⟩ := ih (hback as a hok) hm
    rw [List.filter_append]
    cases ha : mine a with
    | true =>
      refine ⟨t, ?_, hskip as m t a s hm hok ha hR hs⟩
      simpa [ha] using ht
    | false =>
      obtain ⟨t', ht', hR'⟩ := hkeep m t a s ha hR hs
      refine ⟨t', ?_, hR'⟩
      rw [show [a].filter (fun a => !mine a) = [a] by simp [ha]]
      exact run_concat ht ht'

/-- **A variant.** Where every step makes a measure smaller, no schedule is longer than the measure. -/
theorem run_variant (I : σ → Prop) (μ : σ → Nat) (hI : ∀ s a s', I s → step s a = some s' → I s')
    (hμ : ∀ s a s', I s → step s a = some s' → μ s' < μ s) :
    ∀ {s s' : σ} (as : List α), I s → run step s as = some s' → as.length + μ s' ≤ μ s
  | s, s', [], hi, h => by
    simp only [run_nil, Option.some.injEq] at h
    simp [h]
  | s, s', a :: as, hi, h => by
    obtain ⟨m, hm, hr⟩ := run_cons_some h
    have hle := run_variant I μ hI hμ as (hI s a m hi hm) hr
    have hlt := hμ s a m hi hm
    rw [List.length_cons]
    omega

/-- Where every step leads downwards, some schedule of `ok` actions leads to where none of them is enabled. -/
theorem run_settles (I : σ → Prop) {R : σ → σ → Prop} (hR : WellFounded R)
    (hI : ∀ s a s', I s → step s a = some s' → I s') (hdown : ∀ s a s', I s → step s a = some s' → R s' s)
    (ok : α → Prop) {s : σ} (hi : I s) :
    ∃ as s', (∀ a ∈ as, ok a) ∧ run step s as = some s' ∧ I s' ∧ ∀ a, ok a → step s' a = none := by
  induction s using hR.induction with
  | _ s ih =>
    by_cases hstuck : ∀ a, ok a → step s a = none
    · exact ⟨[], s, fun a ha => absurd ha List.not_mem_nil, rfl, hi, hstuck⟩
    · obtain ⟨a, hstuck⟩ := not_forall.1 hstuck
      obtain ⟨hok, hne⟩ := Classical.not_imp.1 hstuck
      obtain ⟨m, hm⟩ := Option.ne_none_iff_exists'.1 hne
      obtain ⟨as, s', has, hrun, hend⟩ := ih m (hdown s a m hi hm) (hI s a m hi hm)
      refine ⟨a :: as, s', ?_, by rw [run_cons, hm]; exact hrun, hend⟩
      intro b hb
      rcases List.mem_cons.1 hb with rfl | hb
      · exact hok
      · exact has b hb

/-! ## Several parties -/

/-- One party has moved, and no other. -/
def OneMoves {ι π : Type} (S : π → π → Prop) (x' x : ι → π) : Prop :=
  ∃ i, S (x' i) (x i) ∧ ∀ j, j ≠ i → x' j = x j

/-- Finitely many parties that each can only go down go down together. -/
theorem oneMoves_wf {ι π : Type} [Finite ι] {S : π → π → Prop} (hS : WellFounded S) :
    WellFounded (OneMoves S : (ι → π) → (ι → π) → Prop) := by
  refine Subrelation.wf ?_ (Pi.Lex.wellFounded (WellOrderingRel : ι → ι → Prop) fun _ => hS)
  rintro x' x ⟨i, hi, hother⟩
  exact ⟨i, fun j hj => hother j (ne_of_irrefl hj), hi⟩

/-- Whatever the others do in between, finitely many of the party's own actions lead to `P`. -/
inductive Eventually (step : σ → α → Option σ) (mine : α → Prop) (P : σ → Prop) : σ → Prop where
  | now {s : σ} (h : P s) : Eventually step mine P s
  | later {s : σ} (h : ∀ as m a s', (∀ b ∈ as, ¬ mine b) → run step s as = some m → mine a → step m a = some s' →
      Eventually step mine P s') : Eventually step mine P s

/-- **A descent of one party.** Where its own actions lead downwards or to `P`, and those of the others leave it
where it is, the party comes to `P`. -/
theorem eventually_of_wf {π : Type} {R : π → π → Prop} (hR : WellFounded R) (place : σ → π) {mine : α → Prop}
    {P : σ → Prop} (hmine : ∀ s a s', mine a → step s a = some s' → P s' ∨ R (place s') (place s))
    (hother : ∀ s a s', ¬ mine a → step s a = some s' → place s' = place s) (s : σ) : Eventually step mine P s := by
  generalize hx : place s = x
  induction x using hR.induction generalizing s with
  | _ x ih =>
    refine .later fun as m a s' has hrun ha hstep => ?_
    have hstays : ∀ (as : List α) (m : σ), (∀ b ∈ as, ¬ mine b) → run step s as = some m → place m = x := by
      intro as
      induction as using List.reverseRecOn with
      | nil =>
        intro m _ hm
        simp only [run_nil, Option.some.injEq] at hm
        exact hm ▸ hx
      | append_singleton as b ihas =>
        intro m hnot hm
        obtain ⟨m₀, hm₀, hlast⟩ := run_concat_some hm
        rw [hother m₀ b m (hnot b (by simp)) hlast]
        exact ihas m₀ (fun c hc => hnot c (List.mem_append_left _ hc)) hm₀
    rcases hmine m a s' ha hstep with hP | hdown
    · exact .now hP
    · rw [hstays as m has hrun] at hdown
      exact ih _ hdown s' rfl

end Run
