import TransactionManager.Alone
import TransactionManager.Block
/-
# The contract of a transaction block

What the caller of `transaction(f)` may rely on, for any closure that has let go of the context when its
future completes: what is sent and what comes back (`Contract`), that the block comes to its end
(`Ends`), and that a block that has not returned `Ok` might as well not have been there (`Contained`).

The last does not always hold of a block that is cut short. When its future is dropped or panics while the
closure has a clone of the context lent to somebody else, the transaction is still open, and the holder can
commit it (`lent_not_contained`). It holds exactly where nothing was lent (`transaction_contract`).
COMMIT, its acknowledgement and the return are one step here; `InFlight` takes them apart.
-/

namespace TransactionManager

open RowStore Run

variable {α : Type}

/-! ## What is sent and what comes back -/

/-- What the caller of `transaction(f)` may rely on, over what the block has shown (`evs`) and
where it is. -/
structure Contract (cfg : Config) (f : Closure α) (evs : List (Event α)) (p : Phase α) : Prop where
  /-- `Ok(v)` comes back exactly when BEGIN succeeded, `f` returned `Ok(v)` and COMMIT succeeded. -/
  ok_iff : ∀ v, (∃ escaped, p = .returned (.ok v) escaped) ↔
    ∃ xs, Answered f .given xs (.ready (.ok v) 0) ∧ evs = opened xs ++ [.finished (.ok v) 0, .commit none]
  /-- A block that is over and has neither been cancelled nor panicked has returned, and when it had begun
  it has sent one of COMMIT and ROLLBACK, once, after `f`. -/
  ended : p.live = false → (∀ n, .cancelled n ∉ evs) → (∀ n, .panicked n ∉ evs) → ∃ r, p = .returned r none ∧
    (.begin none ∈ evs → (∃ xs v fault, evs = opened xs ++ [.finished (.ok v) 0, .commit fault]) ∨
      ∃ xs e fault, evs = opened xs ++ [.finished (.error e) 0, .rollback fault])
  /-- COMMIT is sent at most once, after `f` has returned `Ok`, and without a ROLLBACK. -/
  commit : ∀ fault, .commit fault ∈ evs → ∃ xs v, Answered f .given xs (.ready (.ok v) 0) ∧
    evs = opened xs ++ [.finished (.ok v) 0, .commit fault]
  /-- ROLLBACK is sent at most once, after `f` has returned `Err`, and without a COMMIT. -/
  rollback : ∀ fault, .rollback fault ∈ evs → ∃ xs e, Answered f .given xs (.ready (.error e) 0) ∧
    evs = opened xs ++ [.finished (.error e) 0, .rollback fault]
  /-- A panic is `f`'s, and nothing is sent after it. -/
  panicked : ∀ n, .panicked n ∈ evs → ∃ xs, Answered f .given xs (.panicked n) ∧ evs = opened xs ++ [.panicked n]
  /-- The error is BEGIN's, and `f` has not run; or `f`'s own, whatever ROLLBACK said; or COMMIT's. -/
  error : ∀ e escaped, p = .returned (.error e) escaped →
    (∃ pg, e = cfg.backend.driverError pg ∧ evs = [.begin (some pg)]) ∨
      (∃ xs fault, Answered f .given xs (.ready (.error e) 0) ∧
        evs = opened xs ++ [.finished (.error e) 0, .rollback fault]) ∨
      ∃ xs v pg, Answered f .given xs (.ready (.ok v) 0) ∧ e = cfg.backend.driverError pg ∧
        evs = opened xs ++ [.finished (.ok v) 0, .commit (some pg)]

/-- The closure has panicked: nothing was sent any more. -/
theorem History.of_panicked {cfg : Config} {job : Job α} {evs : List (Event α)} {p : Phase α}
    (h : History cfg job evs p) {n : Nat} (hp : .panicked n ∈ evs) :
    ∃ f xs, job.start = .ok f ∧ Answered f .given xs (.panicked n) ∧ evs = opened xs ++ [.panicked n] ∧
      p.live = false := by
  induction h with
  | created => simp at hp
  | refused e hs => simp at hp
  | notBegun f e hs hb => simp at hp
  | polled f xs q tx hs ha =>
    cases q with
    | panicked m =>
      obtain rfl : n = m := by simpa [opened, Polled.events] using hp
      exact ⟨f, xs, hs, ha, rfl, rfl⟩
    | pending | ready => simp [opened, Polled.events] at hp
  | committed f xs v hs ha => simp [opened] at hp
  | rolledBack f xs e hs ha => simp [opened] at hp
  | escaped f xs r n ctx hs ha => simp [opened] at hp
  | panicked f xs m ctx hs ha hleft =>
    obtain rfl : n = m := by simpa [opened] using hp
    exact ⟨f, xs, hs, ha, rfl, rfl⟩
  | cancelled evs p ctx h hl hleft ih =>
    obtain ⟨f, xs, -, -, -, hover⟩ := ih (by simpa using hp)
    rw [hover] at hl
    cases hl

theorem History.contract {cfg : Config} {job : Job α} {evs : List (Event α)} {p : Phase α}
    (h : History cfg job evs p) {f : Closure α} (hf : job.start = .ok f)
    (hfinished : ∀ r n, .finished r n ∈ evs → n = 0) : Contract cfg f evs p where
  ok_iff v := by
    constructor
    · rintro ⟨escaped, rfl⟩
      obtain ⟨f', xs, hs, ha, hev⟩ := h.of_ok
      cases hf.symm.trans hs
      exact ⟨xs, ha, hev⟩
    · rintro ⟨xs, -, rfl⟩
      have hmem : Event.commit none ∈ opened xs ++ [.finished (.ok v) 0, .commit none] := by simp
      obtain ⟨f', xs', v', -, -, hev, rfl⟩ := h.of_commit hmem
      obtain ⟨-, htail⟩ := List.append_inj' hev rfl
      cases htail
      exact ⟨none, rfl⟩
  ended hover hcancelled hpanicked := by
    cases p with
    | returned r escaped =>
      obtain rfl : escaped = none := by
        cases escaped with
        | none => rfl
        | some ctx =>
          obtain ⟨f', xs, r', n, -, -, hev, -⟩ := h.of_escaped
          exact absurd (hfinished r' (n + 1) (by simp [hev])) (Nat.succ_ne_zero n)
      refine ⟨r, rfl, fun hbegin => ?_⟩
      rcases h.of_returned hf hfinished with ⟨e, hev, -⟩ | ⟨xs, v, fault, -, -, hev⟩ | ⟨xs, e, fault, -, -, hev⟩
      · rw [hev] at hbegin
        simp at hbegin
      · exact .inl ⟨xs, v, fault, hev⟩
      · exact .inr ⟨xs, e, fault, hev⟩
    | dropped escaped =>
      rcases h.of_dropped with ⟨f', xs, n, -, -, hev, -⟩ | ⟨evs', p, -, -, hev, -⟩
      · exact absurd (by simp [hev]) (hpanicked n)
      · exact absurd (by simp [hev]) (hcancelled p.lent)
    | created | awaiting | committing | rollingBack => cases hover
  commit fault hc := by
    obtain ⟨f', xs, v, hs, ha, hev, -⟩ := h.of_commit hc
    cases hf.symm.trans hs
    exact ⟨xs, v, ha, hev⟩
  rollback fault hc := by
    obtain ⟨f', xs, e, hs, ha, hev, -⟩ := h.of_rollback hc
    cases hf.symm.trans hs
    exact ⟨xs, e, ha, hev⟩
  panicked n hp := by
    obtain ⟨f', xs, hs, ha, hev, -⟩ := h.of_panicked hp
    cases hf.symm.trans hs
    exact ⟨xs, ha, hev⟩
  error := by
    rintro e escaped rfl
    rcases h.of_returned hf hfinished with ⟨pg, hev, hr⟩ | ⟨xs, v, fault, ha, hr, hev⟩ | ⟨xs, e', fault, ha, hr, hev⟩
    · cases hr; exact .inl ⟨pg, rfl, hev⟩
    · cases fault with
      | some pg => cases hr; exact .inr (.inr ⟨xs, v, pg, ha, rfl, hev⟩)
      | none => cases hr
    · cases hr; exact .inr (.inl ⟨xs, fault, ha, hev⟩)

namespace State

variable {ι : Type} [DecidableEq ι] [Fintype ι] {cfg : Config} {jobs : ι → Job α} {db : Db}
  {as : List (Action ι)} {s s' : State ι α} {i : ι}

/-! ## The block comes to its end -/

/-- That a block, from where it is, comes to its end. -/
structure Ends (cfg : Config) (jobs : ι → Job α) (s : State ι α) (i : ι) : Prop where
  /-- As long as it is not over it can be polled, unless its statement has to wait. -/
  goesOn : (s.phase i).live = true → (s.phase i).waits cfg (jobs i) (s.others i) s.committed = false →
    ∃ s', s.step cfg jobs (.poll i) = some s'
  /-- It waits for the transaction of another block only. -/
  waits : (s.phase i).waits cfg (jobs i) (s.others i) s.committed = true → ∃ j, j ≠ i ∧ s.openTx j ≠ none
  /-- Whatever the others do in between, finitely many polls bring it to its end. -/
  ends : Eventually (step cfg jobs) (fun a => a.caller = i) (fun s => (s.phase i).live = false) s
  /-- Where nobody else has a transaction open, it is polled to its end. -/
  alone : (∀ j, j ≠ i → s.openTx j = none) →
    ∃ n s', run (step cfg jobs) s (List.replicate n (.poll i)) = some s' ∧ (s'.phase i).live = false

theorem over_or_after {a : Action ι} (hstep : s.step cfg jobs a = some s') (ha : a.caller = i) :
    (s'.phase i).live = false ∨ Phase.After (s'.phase i) (s.phase i) := by
  obtain ⟨j, ⟨ev, p', db'⟩, rfl, -, hr, rfl⟩ | ⟨j, rfl, hl, rfl⟩ | ⟨j, act, ctx, q, rfl, hp, -, rfl⟩ := step_cases hstep
  all_goals
    obtain rfl : j = i := ha
    rw [goto_phase_self]
  · exact .inr (.poll hr)
  · exact .inr (.cancel hl)
  · left
    rw [leave_live]
    exact live_escaped hp

/-- Polled on and on with nobody else around, a block comes to its end: the induction is on what is left of it. -/
theorem polled_to_end (halone : ∀ j, j ≠ i → s.openTx j = none) :
    ∃ n s', run (step cfg jobs) s (List.replicate n (.poll i)) = some s' ∧ (s'.phase i).live = false := by
  generalize hp : s.phase i = p
  induction p using after_wf.induction generalizing s with
  | _ p ih =>
    cases hlive : p.live with
    | false => exact ⟨0, s, rfl, hp ▸ hlive⟩
    | true =>
      obtain ⟨⟨ev, p', db'⟩, hr⟩ := p.poll_live cfg (jobs i) s.committed hlive
      have hstep : s.step cfg jobs (.poll i) = some (s.goto i p' db') := by
        simp only [step, not_waits_of_alone cfg jobs halone, Bool.false_eq_true, if_false, hp, hr, Option.map_some]
      have hothers : ∀ j, j ≠ i → (s.goto i p' db').openTx j = none := fun j hj => by
        rw [goto_openTx_ne _ _ _ hj, halone j hj]
      obtain ⟨n, s', hrun, hover⟩ := ih p' (.poll hr) hothers (goto_phase_self s i p' db')
      refine ⟨n + 1, s', ?_, hover⟩
      rw [List.replicate_succ, run_cons, hstep]
      exact hrun

theorem ends (cfg : Config) (jobs : ι → Job α) (s : State ι α) (i : ι) : Ends cfg jobs s i where
  goesOn hlive hwaits := by
    obtain ⟨r, hr⟩ := (s.phase i).poll_live cfg (jobs i) s.committed hlive
    exact ⟨s.goto i r.2.1 r.2.2, by simp [step, hwaits, hr]⟩
  waits hwaits := by
    by_contra halone
    push Not at halone
    rw [not_waits_of_alone cfg jobs halone] at hwaits
    cases hwaits
  ends := eventually_of_wf after_wf (fun s => s.phase i) (fun _ _ _ ha hstep => over_or_after hstep ha)
    (fun _ _ _ ha hstep => step_phase_ne hstep (Ne.symm ha)) s
  alone := polled_to_end

/-! ## What is left of it -/

/-- The block holds no transaction, and unless it has returned `Ok` the run without its actions leads to the same
committed rows and leaves everyone else where they are. -/
structure Contained (cfg : Config) (jobs : ι → Job α) (db : Db) (as : List (Action ι)) (s : State ι α) (i : ι) :
    Prop where
  closed : s.openTx i = none
  undone : (∀ v escaped, s.phase i ≠ .returned (.ok v) escaped) →
    ∃ t, run (step cfg jobs) (init db) (as.filter fun a => !decide (a.caller = i)) = some t ∧
      t.committed = s.committed ∧ ∀ j, j ≠ i → t.phase j = s.phase j

theorem openTx_over {p : Phase α} (hover : p.live = false) (hescaped : p.escaped = none) : p.openTx = none := by
  cases p with
  | returned r escaped | dropped escaped => cases hescaped; rfl
  | created | awaiting | committing | rollingBack => cases hover

/-- Nothing is left of a block that is over and whose closure has left nothing of the context. -/
theorem contained_of_released (h : run (step cfg jobs) (init db) as = some s)
    (hreleased : Released (trace cfg jobs i (init db) as)) (hover : (s.phase i).live = false) :
    Contained cfg jobs db as s i := by
  have hist := history_run h i
  refine ⟨openTx_over hover (hist.released hreleased), fun hnot => ?_⟩
  have hcommit : .commit none ∉ trace cfg jobs i (init db) as := by
    intro hc
    obtain ⟨f, xs, v, -, -, -, hp⟩ := hist.of_commit hc
    exact hnot v none hp
  obtain ⟨t, ht, hwithout⟩ := run_without h i hreleased hcommit
  exact ⟨t, ht, hwithout.committed, hwithout.phase⟩

/-- Where the end of a closure leaves something of its context outside, the transaction is still open. -/
theorem resume_left (calls : Nat) (tx : PgTx) {q : Polled α} {e : Event α} (he : e ∈ q.events) (hleft : e.left ≠ 0) :
    (resume calls tx q).live = false ∧ (resume calls tx q).openTx ≠ none := by
  match q with
  | .pending c k n => cases he
  | .ready r 0 => cases List.mem_singleton.1 he; exact absurd rfl hleft
  | .ready (.ok v) (n + 1) => exact ⟨rfl, by rintro ⟨⟩⟩
  | .ready (.error e) (n + 1) => exact ⟨rfl, by rintro ⟨⟩⟩
  | .panicked 0 => cases List.mem_singleton.1 he; exact absurd rfl hleft
  | .panicked (n + 1) => exact ⟨rfl, by rintro ⟨⟩⟩

theorem poll_left {job : Job α} {p p' : Phase α} {db db' : Db} {ev : List (Event α)}
    (hr : p.poll cfg job db = some (ev, p', db')) {e : Event α} (he : e ∈ ev) (hleft : e.left ≠ 0) :
    p'.live = false ∧ p'.openTx ≠ none := by
  have hlast : ∀ (e₀ : Event α) (q : Polled α), e₀.left = 0 → e ∈ e₀ :: q.events → e ∈ q.events := by
    intro e₀ q he₀ he
    rcases List.mem_cons.1 he with rfl | he
    · exact absurd he₀ hleft
    · exact he
  cases p with
  | created =>
    simp only [Phase.poll] at hr
    split at hr
    · cases hr; cases he
    · split at hr
      · cases hr; exact absurd rfl (List.mem_singleton.1 he ▸ hleft)
      · cases hr; exact resume_left _ _ (hlast _ _ rfl he) hleft
  | awaiting c k refs calls tx => cases hr; exact resume_left _ _ (hlast _ _ rfl he) hleft
  | committing | rollingBack => cases hr; exact absurd rfl (List.mem_singleton.1 he ▸ hleft)
  | returned | dropped => cases hr

/-- The action in which a closure leaves something of its context outside leaves the transaction open. -/
theorem events_left {a : Action ι} (hstep : s.step cfg jobs a = some s') {e : Event α}
    (he : e ∈ s.events cfg jobs i a) (hleft : e.left ≠ 0) : (s'.phase i).live = false ∧ s'.openTx i ≠ none := by
  by_cases hi : i = a.caller
  · obtain ⟨j, ⟨ev, p', db'⟩, rfl, -, hr, rfl⟩ | ⟨j, rfl, hl, rfl⟩ | ⟨j, act, ctx, q, rfl, -, -, -⟩ := step_cases hstep
    · obtain rfl : i = j := hi
      rw [events_poll hr] at he
      rw [goto_phase_self, goto_openTx_self]
      exact poll_left hr he hleft
    · obtain rfl : i = j := hi
      rw [events_cancel, List.mem_singleton] at he
      subst he
      rw [goto_phase_self, goto_openTx_self]
      cases hp : s.phase i with
      | awaiting c k refs calls tx =>
        rw [hp] at hleft
        cases hlent : refs.lent with
        | zero => exact absurd hlent hleft
        | succ n => exact ⟨rfl, by rw [Phase.cancel, hlent]; rintro ⟨⟩⟩
      | created | committing | rollingBack | returned | dropped => rw [hp] at hleft; exact absurd rfl hleft
    · cases he
  · rw [events_ne hi] at he
    cases he

/-- A block that was contained wherever it was over has never left anything of its context. -/
theorem released_of_contained (h : run (step cfg jobs) (init db) as = some s)
    (hall : ∀ before rest m, as = before ++ rest → run (step cfg jobs) (init db) before = some m →
      (m.phase i).live = false → Contained cfg jobs db before m i) : Released (trace cfg jobs i (init db) as) := by
  refine run_history (fun as _ => (∀ before rest m, as = before ++ rest →
    run (step cfg jobs) (init db) before = some m → (m.phase i).live = false →
      Contained cfg jobs db before m i) → Released (trace cfg jobs i (init db) as)) (fun _ e he => by cases he) ?_ as h hall
  intro as s a s' hrun ih hstep hall e he
  rw [trace_concat hrun hstep] at he
  rcases List.mem_append.1 he with he | he
  · exact ih (fun before rest m hb => hall before (rest ++ [a]) m (by rw [hb, List.append_assoc])) e he
  · by_contra hleft
    obtain ⟨hover, hopen⟩ := events_left hstep he hleft
    exact hopen (hall _ [] s' (List.append_nil _).symm (run_concat hrun hstep) hover).closed

/-- **The transaction-block contract.** In every run of any blocks, for a block over a closure that has let go of
the context when its future completes: the `Contract`; it comes to its end, and shows a cancellation only when it
was cancelled; and wherever it is over it is contained, exactly when no clone of the context was held outside its
closure at the point where it was cancelled or panicked. -/
theorem transaction_contract (h : run (step cfg jobs) (init db) as = some s) {f : Closure α}
    (hf : (jobs i).start = .ok f) (hfinished : ∀ r n, .finished r n ∈ trace cfg jobs i (init db) as → n = 0) :
    Contract cfg f (trace cfg jobs i (init db) as) (s.phase i) ∧
      Ends cfg jobs s i ∧ (∀ n, .cancelled n ∈ trace cfg jobs i (init db) as → .cancel i ∈ as) ∧
      ((∀ before rest m, as = before ++ rest → run (step cfg jobs) (init db) before = some m →
          (m.phase i).live = false → Contained cfg jobs db before m i) ↔
        ∀ n, .cancelled n ∈ trace cfg jobs i (init db) as ∨ .panicked n ∈ trace cfg jobs i (init db) as → n = 0) := by
  refine ⟨(history_run h i).contract hf hfinished, ends cfg jobs s i, fun n => cancelled_mem, fun hall n hn => ?_,
    fun hlent before rest m has hm hover => ?_⟩
  · have hreleased := released_of_contained h hall
    rcases hn with hn | hn
    · exact hreleased _ hn
    · exact hreleased _ hn
  · refine contained_of_released hm (fun e he => ?_) hover
    have hmem := (trace_grows cfg jobs i before rest (init db)).subset he
    rw [← has] at hmem
    cases e with
    | finished r n => exact hfinished r n hmem
    | panicked n => exact hlent n (.inr hmem)
    | cancelled n => exact hlent n (.inl hmem)
    | begin | call | commit | rollback => rfl

/-- A closure that creates an inventory row and then gives up. -/
def changedMind : Closure Unit :=
  .call (.createInventory ⟨⟨7⟩, 5⟩) fun _ => .drop (.ret (.error (.inventoryNotFound ⟨7⟩)))

/-- `changedMind` with a ROLLBACK that fails. -/
def changedMindJob (_ : Unit) : Job Unit := ⟨.ok changedMind, { Faults.none with rollback := some (.failure 0) }⟩

theorem changedMind_runs : (run (step (Makefile.config .sqlx) changedMindJob) (init fun _ => none)
    (List.replicate 3 (.poll ()))).isSome := by decide +kernel

theorem changedMind_trace : trace (Makefile.config .sqlx) changedMindJob () (init fun _ => none)
    (List.replicate 3 (.poll ())) =
      [.begin none, .call ⟨.createInventory ⟨⟨7⟩, 5⟩, .ok ⟨⟨7⟩, 5⟩⟩,
        .finished (.error (.inventoryNotFound ⟨7⟩)) 0, .rollback (some (.failure 0))] := rfl

theorem transaction_contract_changedMind :
    Contract (Makefile.config .sqlx) changedMind
        (trace (Makefile.config .sqlx) changedMindJob () (init fun _ => none) (List.replicate 3 (.poll ())))
        ((Option.get _ changedMind_runs).phase ()) ∧
      Ends (Makefile.config .sqlx) changedMindJob (Option.get _ changedMind_runs) () ∧
      Contained (Makefile.config .sqlx) changedMindJob (fun _ => none) (List.replicate 3 (.poll ()))
        (Option.get _ changedMind_runs) () := by
  have hrun := (Option.some_get changedMind_runs).symm
  obtain ⟨hc, hends, -, hcontained⟩ := transaction_contract hrun (i := ()) (f := changedMind) rfl (by
    rw [changedMind_trace]
    intro r n hmem
    simp only [List.mem_cons, reduceCtorEq, Event.finished.injEq, List.not_mem_nil, or_false, false_or] at hmem
    exact hmem.2)
  refine ⟨hc, hends, hcontained.2 (fun n hn => ?_) _ [] _ (List.append_nil _).symm hrun rfl⟩
  rw [changedMind_trace] at hn
  simp at hn

/-- A closure that lends a clone of its context while it works, and takes it back before it is done. -/
def lending : Closure Unit :=
  .clone (.lend (.call (.createInventory ⟨⟨7⟩, 5⟩) fun _ => .call (.findByItemId ⟨7⟩) fun _ =>
    .reclaim (.drop (.drop (.ret (.ok ()))))))

def lendingJob (_ : Unit) : Job Unit := ⟨.ok lending, .none⟩

theorem lending_cancelled : (run (step (Makefile.config .sqlx) lendingJob) (init fun _ => none)
    [.poll (), .poll (), .cancel ()]).isSome := by decide +kernel

theorem lending_committed : (step (Makefile.config .sqlx) lendingJob (Option.get _ lending_cancelled)
    (.holder () (.commit none))).isSome := by decide +kernel

/-- Its future is dropped before it has taken the clone back: the transaction is open, and its holder commits it. -/
theorem lent_not_contained : (lendingJob ()).LetsGo ∧ ∃ s s' : State Unit Unit,
    run (step (Makefile.config .sqlx) lendingJob) (init fun _ => none) [.poll (), .poll (), .cancel ()] = some s ∧
    (s.phase ()).live = false ∧ s.openTx () ≠ none ∧
    s.step (Makefile.config .sqlx) lendingJob (.holder () (.commit none)) = some s' ∧
    s'.committed (Backend.sqlx.inventoryKey ⟨7⟩) = some (inventoryRow ⟨7⟩ 5) ∧
    ∀ fault, .commit fault ∉ trace (Makefile.config .sqlx) lendingJob () (init fun _ => none)
      [.poll (), .poll (), .cancel (), .holder () (.commit none)] := by
  have htrace : trace (Makefile.config .sqlx) lendingJob () (init fun _ => none)
      [.poll (), .poll (), .cancel (), .holder () (.commit none)] =
        [.begin none, .call ⟨.createInventory ⟨⟨7⟩, 5⟩, .ok ⟨⟨7⟩, 5⟩⟩, .cancelled 1] := rfl
  refine ⟨?_, Option.get _ lending_cancelled, Option.get _ lending_committed,
    (Option.some_get lending_cancelled).symm, rfl, ?_, (Option.some_get lending_committed).symm, rfl, fun fault => ?_⟩
  · rintro f ⟨⟩ r r'
    rfl
  · exact Option.some_ne_none _
  · rw [htrace]
    simp

end State

end TransactionManager
