import TransactionManager.Locking
import TransactionManager.Sharing
/-
# Blocks that commit nothing

What a transaction has written is seen by nobody else before its commit. So a block none of whose
actions has changed a committed row has had no part in what the others did but to make them wait: it
can be left out of the run (`fruitless_invisible`). Every block is such of whose context nothing was left
outside its closure and that has not returned `Ok` (`fruitless_of_unsuccessful`), be it that it failed, that
its future was dropped or panicked, that its COMMIT was refused, or that it is still running. COMMIT and the
return are one step: a COMMIT that has taken effect unheard counts as `Ok`.
-/

namespace TransactionManager

open RowStore Run

namespace State

variable {ι α : Type} [DecidableEq ι] [Fintype ι]

/-- No action of `i` in the schedule changes a committed row. -/
def Fruitless (cfg : Config) (jobs : ι → Job α) (db : Db) (as : List (Action ι)) (i : ι) : Prop :=
  ∀ before a rest s s', as = before ++ a :: rest → run (step cfg jobs) (init db) before = some s →
    s.step cfg jobs a = some s' → a.caller = i → s'.committed = s.committed

variable {cfg : Config} {jobs : ι → Job α} {db : Db} {as : List (Action ι)} {s s' : State ι α} {i : ι}

theorem Fruitless.shorter {a : Action ι} (h : Fruitless cfg jobs db (as ++ [a]) i) : Fruitless cfg jobs db as i :=
  fun before b rest s s' has hrun hstep hb =>
    h before b (rest ++ [a]) s s' (by rw [has, List.append_assoc]; rfl) hrun hstep hb

theorem Fruitless.last {a : Action ι} (h : Fruitless cfg jobs db (as ++ [a]) a.caller)
    (hrun : run (step cfg jobs) (init db) as = some s) (hstep : s.step cfg jobs a = some s') :
    s'.committed = s.committed := h as a [] s s' rfl hrun hstep rfl

/-! ## Leaving them out -/

/-- An action that changes no committed row is nothing to the others. -/
theorem Erased.idle {keep : ι → Bool} {t : State ι α} (h : Erased keep (fun _ => True) s t) {a : Action ι}
    (ha : keep a.caller = false) (hstep : s.step cfg jobs a = some s') (hdb : s'.committed = s.committed) :
    Erased keep (fun _ => True) s' t where
  committed k hk := by rw [h.committed k hk, hdb]
  phase i hi := by
    have hne : i ≠ a.caller := by
      rintro rfl
      rw [ha] at hi
      cases hi
    rw [step_phase_ne hstep hne, h.phase i hi]
  absent := h.absent

theorem run_fruitful {keep : ι → Bool} (hout : ∀ i, keep i = false → Fruitless cfg jobs db as i)
    (h : run (step cfg jobs) (init db) as = some s) :
    ∃ t, run (step cfg jobs) (init db) (as.filter fun a => keep a.caller) = some t ∧
      Erased keep (fun _ => True) s t := by
  have h0 : Erased keep (fun _ => True) (init db) (init db : State ι α) :=
    ⟨fun _ _ => rfl, fun _ _ => rfl, fun _ _ => rfl⟩
  obtain ⟨t, ht, herased⟩ := run_erase (Erased keep fun _ => True) (fun a : Action ι => !keep a.caller)
    (fun as => ∀ i, keep i = false → Fruitless cfg jobs db as i) h0
    (fun as a hok i hi => (hok i hi).shorter)
    (fun as s t a s' hrun hok ha herased hstep => by
      have hm : keep a.caller = false := by simpa using ha
      exact herased.idle hm hstep ((hok a.caller hm).last hrun hstep))
    (fun s t a s' ha herased hstep => by
      have hm : keep a.caller = true := by simpa using ha
      have hstep' : s.stepEach (fun _ => cfg) jobs a = some s' := hstep
      exact herased.follow hm (fun _ _ _ => trivial) hstep')
    as hout h
  have ht' : run (step cfg jobs) (init db) (as.filter fun a => !!keep a.caller) = some t := ht
  exact ⟨t, by simpa using ht', herased⟩

/-! ## Who commits nothing -/

/-- A step that changes a committed row: the COMMIT of a block that then has returned `Ok`, or the act of
a holder of its context. -/
theorem committed_changes {a : Action ι} (hstep : s.step cfg jobs a = some s') (hdb : s'.committed ≠ s.committed) :
    (∃ v, s'.phase a.caller = .returned (.ok v) none) ∨ (s.phase a.caller).escaped ≠ none := by
  obtain ⟨i, ⟨ev, p', db'⟩, rfl, -, hr, rfl⟩ | ⟨i, rfl, -, rfl⟩ | ⟨i, act, ctx, q, rfl, hp, -, rfl⟩ :=
    step_cases hstep
  · left
    simp only [Action.caller, goto_phase_self, goto_committed] at hdb ⊢
    cases hp : s.phase i with
    | created =>
      simp only [hp, Phase.poll] at hr
      split at hr
      · cases hr; exact absurd rfl hdb
      · split at hr <;> cases hr <;> exact absurd rfl hdb
    | awaiting c k n calls tx =>
      rw [hp] at hr
      cases hr
      exact absurd rfl hdb
    | committing v tx =>
      simp only [hp, Phase.poll] at hr
      cases hc : (jobs i).faults.commit with
      | some e =>
        simp only [hc, DbContext.commit] at hr
        cases hr
        exact absurd rfl hdb
      | none =>
        simp only [hc, DbContext.commit] at hr
        cases hr
        exact ⟨v, rfl⟩
    | rollingBack e tx =>
      simp only [hp, Phase.poll, DbContext.rollback_rows] at hr
      cases hr
      exact absurd rfl hdb
    | returned | dropped => rw [hp] at hr; cases hr
  · exact absurd rfl hdb
  · right
    rw [Action.caller, hp]
    simp

/-- A block that has left nothing of its context and has not returned `Ok` has changed no row. -/
theorem fruitless_of_unsuccessful (hreleased : Released (trace cfg jobs i (init db) as))
    (h : run (step cfg jobs) (init db) as = some s) (hi : ∀ v, s.phase i ≠ .returned (.ok v) none) :
    Fruitless cfg jobs db as i := by
  intro before a rest m m' has hbefore hstep ha
  by_contra hdb
  rw [has] at h
  obtain ⟨m₁, hm₁, hrest⟩ := run_cons_some (by rw [run_append, hbefore] at h; exact h)
  obtain rfl : m' = m₁ := Option.some.inj (hstep.symm.trans hm₁)
  rcases committed_changes hstep hdb with ⟨v, hv⟩ | hescaped
  · rw [ha] at hv
    exact hi v (returned_run hv hrest)
  · have hearlier := trace_grows cfg jobs i before (a :: rest) (init db)
    rw [← has] at hearlier
    rw [ha] at hescaped
    exact hescaped ((history_run hbefore i).released fun e he => hreleased e (hearlier.subset he))

/-- **Blocks that commit nothing are invisible.** In every run of arbitrary blocks, contexts that escape
included, all blocks none of whose actions has changed a committed row can be left out: what is left is a
run in which the others have the same results and the committed rows are the same. All blocks that let go of
their contexts and have not returned `Ok` are such. -/
theorem fruitless_invisible (h : run (step cfg jobs) (init db) as = some s) :
    (∀ i, Released (trace cfg jobs i (init db) as) → (∀ v, s.phase i ≠ .returned (.ok v) none) →
      Fruitless cfg jobs db as i) ∧
    ∀ keep : ι → Bool, (∀ i, keep i = false → Fruitless cfg jobs db as i) →
      ∃ t, run (step cfg jobs) (init db) (as.filter fun a => keep a.caller) = some t ∧
        t.committed = s.committed ∧ ∀ i, keep i = true → t.phase i = s.phase i := by
  refine ⟨fun i hreleased hi => fruitless_of_unsuccessful hreleased h hi, fun keep hout => ?_⟩
  obtain ⟨t, ht, herased⟩ := run_fruitful hout h
  exact ⟨t, ht, funext fun k => herased.committed k trivial, herased.phase⟩

end State

/-- The call that found too little left is left out: the other one has been served just the same. -/
theorem fruitless_invisible_rivals : ∃ t, run (State.step (Makefile.config .sqlx)
      (createOrders (Makefile.config .sqlx) rivals)) (.init (stocked.store .sqlx))
      (rivalry.filter fun a => decide (a.caller = 1)) = some t ∧
    t.committed = (Option.get _ rivalry_runs).committed ∧ t.phase 1 = (Option.get _ rivalry_runs).phase 1 := by
  obtain ⟨hout, hkeep⟩ := State.fruitless_invisible (Option.some_get rivalry_runs).symm
  obtain ⟨t, ht, hdb, hphase⟩ := hkeep (fun i => decide (i = 1)) fun i hi => by
    have hi0 : i = 0 := by
      have := of_decide_eq_false hi
      omega
    subst hi0
    refine hout 0 ((State.history_run (Option.some_get rivalry_runs).symm 0).keepsTo
      (createOrder_keepsTo _ (rivals 0))).2 fun v hv => ?_
    have hrefused : (Option.get _ rivalry_runs).phase 0 = .returned (.error _) none := rfl
    rw [hrefused] at hv
    cases hv
  exact ⟨t, ht, hdb, hphase 1 rfl⟩

end TransactionManager
