import TransactionManager.System
import TransactionManager.Tables
/-
# What a block shows

What a block shows (`State.trace`) has one of few shapes, and the phase it is in goes with the
shape: `History`. A block that has not committed, and of whose context nothing was left outside its
closure (`Released`), can be erased from the schedule without anyone noticing (`run_without`).
-/

namespace TransactionManager

open RowStore Run

variable {α : Type}

/-! ## Histories -/

/-- The closure, run with the given references to the context, has made the calls `xs`, got their
replies, and is now at the given point. -/
inductive Answered : Closure α → Refs → List Exchange → Polled α → Prop where
  | start (f : Closure α) (n : Refs) : Answered f n [] (f.poll n)
  | next {f : Closure α} {n m : Refs} {xs : List Exchange} {c : RepoCall} {k : Except Error c.Reply → Closure α}
      (h : Answered f n xs (.pending c k m)) (r : Except Error c.Reply) :
      Answered f n (xs ++ [⟨c, r⟩]) ((k r).poll m)

/-- The closure, with the given references to the context, has let go of it when it ends. -/
def Closure.LetsGo : Closure α → Refs → Prop
  | .ret _, refs => refs.clones = 0
  | .panic, _ => True
  | .call _ k, refs => ∀ r, (k r).LetsGo refs
  | .clone k, refs => k.LetsGo refs.clone
  | .drop k, refs => k.LetsGo refs.drop
  | .lend k, refs => k.LetsGo refs.lend
  | .reclaim k, refs => k.LetsGo refs.reclaim

def Job.LetsGo (job : Job α) : Prop := ∀ f, job.start = .ok f → f.LetsGo .given

/-- The point of a closure that lets go of the context. -/
def Polled.Releases : Polled α → Prop
  | .pending _ k n => ∀ r, (k r).LetsGo n
  | .ready _ n => n = 0
  | .panicked _ => True

theorem Closure.LetsGo.releases {f : Closure α} {n : Refs} (h : f.LetsGo n) : (f.poll n).Releases := by
  induction f generalizing n with
  | ret | panic | call => exact h
  | clone k ih | drop k ih | lend k ih | reclaim k ih => exact ih h

theorem Closure.LetsGo.answered {f : Closure α} {n : Refs} (h : f.LetsGo n) {p : Polled α} {xs : List Exchange}
    (ha : Answered f n xs p) :
    p.Releases := by
  induction ha with
  | start => exact h.releases
  | next ha r ih => exact (ih r).releases

/-- BEGIN and the calls after it. -/
def opened (xs : List Exchange) : List (Event α) := .begin none :: xs.map .call

/-- What the block returns of a finished closure whose context is still shared. -/
def shared : Except Error α → Except Error α
  | .ok _ => .error .failedToExtractContext
  | .error e => .error e

/-- What the block returns after its COMMIT. -/
def committed (cfg : Config) (fault : Option PgError) (v : α) : Except Error α :=
  match fault with
  | some e => .error (cfg.backend.driverError e)
  | none => .ok v

/-- What a block has shown so far, and where that leaves it. -/
inductive History (cfg : Config) (job : Job α) : List (Event α) → Phase α → Prop where
  | created : History cfg job [] .created
  | refused (e : Error) (hs : job.start = .error e) : History cfg job [] (.returned (.error e) none)
  | notBegun (f : Closure α) (e : PgError) (hs : job.start = .ok f) (hb : job.faults.begin = some e) :
      History cfg job [.begin (some e)] (.returned (.error (cfg.backend.driverError e)) none)
  | polled (f : Closure α) (xs : List Exchange) (p : Polled α) (tx : PgTx) (hs : job.start = .ok f)
      (ha : Answered f .given xs p) : History cfg job (opened xs ++ p.events) (resume xs.length tx p)
  | committed (f : Closure α) (xs : List Exchange) (v : α) (hs : job.start = .ok f)
      (ha : Answered f .given xs (.ready (.ok v) 0)) :
      History cfg job (opened xs ++ [.finished (.ok v) 0, .commit job.faults.commit])
        (.returned (committed cfg job.faults.commit v) none)
  | rolledBack (f : Closure α) (xs : List Exchange) (e : Error) (hs : job.start = .ok f)
      (ha : Answered f .given xs (.ready (.error e) 0)) :
      History cfg job (opened xs ++ [.finished (.error e) 0, .rollback job.faults.rollback])
        (.returned (.error e) none)
  | escaped (f : Closure α) (xs : List Exchange) (r : Except Error α) (n : Nat) (ctx : Option Context)
      (hs : job.start = .ok f) (ha : Answered f .given xs (.ready r (n + 1))) :
      History cfg job (opened xs ++ [.finished r (n + 1)]) (.returned (shared r) ctx)
  | panicked (f : Closure α) (xs : List Exchange) (n : Nat) (ctx : Option Context) (hs : job.start = .ok f)
      (ha : Answered f .given xs (.panicked n)) (hleft : n = 0 → ctx = none) :
      History cfg job (opened xs ++ [.panicked n]) (.dropped ctx)
  | cancelled (evs : List (Event α)) (p : Phase α) (ctx : Option Context) (h : History cfg job evs p)
      (hl : p.live = true) (hleft : p.lent = 0 → ctx = none) :
      History cfg job (evs ++ [.cancelled p.lent]) (.dropped ctx)

/-- The references to the context that the end of the closure's future has left outside of it. -/
def Event.left : Event α → Nat
  | .finished _ n => n
  | .panicked n => n
  | .cancelled n => n
  | _ => 0

/-- However the closure's future has ended, it has left no reference to the context. -/
def Released (evs : List (Event α)) : Prop := ∀ e ∈ evs, e.left = 0

theorem opened_concat (xs : List Exchange) (x : Exchange) :
    (opened (xs ++ [x]) : List (Event α)) = opened xs ++ [.call x] := by simp [opened]

theorem History.poll {cfg : Config} {job : Job α} {evs ev : List (Event α)} {p p' : Phase α} {db db' : Db}
    (h : History cfg job evs p) (hp : p.poll cfg job db = some (ev, p', db')) :
    History cfg job (evs ++ ev) p' := by
  cases h with
  | created =>
    simp only [Phase.poll] at hp
    cases hs : job.start with
    | error e =>
      simp only [hs, Option.some.injEq, Prod.mk.injEq] at hp
      obtain ⟨rfl, rfl, -⟩ := hp
      exact .refused e hs
    | ok f =>
      simp only [hs] at hp
      cases hb : job.faults.begin with
      | some e =>
        simp only [hb, Option.some.injEq, Prod.mk.injEq] at hp
        obtain ⟨rfl, rfl, -⟩ := hp
        exact .notBegun f e hs hb
      | none =>
        simp only [hb, Option.some.injEq, Prod.mk.injEq] at hp
        obtain ⟨rfl, rfl, -⟩ := hp
        exact .polled f [] _ _ hs (.start f .given)
  | polled f xs q tx hs ha =>
    cases q with
    | pending c k n =>
      rw [show resume xs.length tx (.pending c k n) = .awaiting c k n xs.length tx from rfl] at hp
      simp only [Phase.poll, Option.some.injEq, Prod.mk.injEq] at hp
      obtain ⟨rfl, rfl, -⟩ := hp
      have hnext : History cfg job _ _ :=
        .polled f _ _ (callRepo cfg db tx (job.faults.stmt xs.length) c).2 hs
          (ha.next (callRepo cfg db tx (job.faults.stmt xs.length) c).1)
      rw [opened_concat, List.append_assoc, List.length_append] at hnext
      simpa [Polled.events] using hnext
    | ready r n =>
      cases n with
      | succ n => cases r <;> simp [resume, Phase.poll] at hp
      | zero =>
        cases r with
        | ok v =>
          simp only [resume, Phase.poll, Option.some.injEq, Prod.mk.injEq] at hp
          obtain ⟨rfl, rfl, -⟩ := hp
          have hend : History cfg job _ _ := .committed f xs v hs ha
          unfold TransactionManager.committed at hend
          unfold DbContext.commit
          cases hc : job.faults.commit with
          | some e => simpa [hc, Polled.events, Except.map] using hend
          | none => simpa [hc, Polled.events, Except.map] using hend
        | error e =>
          simp only [resume, Phase.poll, Option.some.injEq, Prod.mk.injEq] at hp
          obtain ⟨rfl, rfl, -⟩ := hp
          have hend : History cfg job _ _ := .rolledBack f xs e hs ha
          simpa [Polled.events] using hend
    | panicked => simp [resume, Phase.poll] at hp
  | refused | notBegun | committed | rolledBack | escaped | panicked | cancelled => simp [Phase.poll] at hp

theorem History.cancel {cfg : Config} {job : Job α} {evs : List (Event α)} {p : Phase α}
    (h : History cfg job evs p) (hl : p.live = true) : History cfg job (evs ++ [.cancelled p.lent]) p.cancel := by
  cases p with
  | awaiting c k refs calls tx =>
    refine .cancelled evs _ _ h hl fun hlent => ?_
    rw [show refs.lent = 0 from hlent]
    rfl
  | created | committing | rollingBack => exact .cancelled evs _ none h hl fun _ => rfl
  | returned | dropped => cases hl

/-- A context has escaped a block that returned: the closure has finished with clones of it alive. -/
theorem History.of_escaped {cfg : Config} {job : Job α} {evs : List (Event α)} {r : Except Error α} {ctx : Context}
    (h : History cfg job evs (.returned r (some ctx))) :
    ∃ f xs r' n, job.start = .ok f ∧ Answered f .given xs (.ready r' (n + 1)) ∧
      evs = opened xs ++ [.finished r' (n + 1)] ∧ r = shared r' := by
  generalize hp : Phase.returned r (some ctx) = p at h
  cases h with
  | polled f xs q tx hs ha =>
    cases q with
    | ready r n =>
      cases n with
      | zero => cases r <;> cases hp
      | succ n =>
        cases r with
        | ok v => cases hp; exact ⟨f, xs, .ok v, n, hs, ha, rfl, rfl⟩
        | error e => cases hp; exact ⟨f, xs, .error e, n, hs, ha, rfl, rfl⟩
    | pending | panicked => cases hp
  | escaped f xs r' n ctx' hs ha => cases hp; exact ⟨f, xs, r', n, hs, ha, rfl, rfl⟩
  | created | refused | notBegun | committed | rolledBack | panicked | cancelled => cases hp

/-- The block is gone without having returned: its future was dropped, or its closure has panicked. -/
theorem History.of_dropped {cfg : Config} {job : Job α} {evs : List (Event α)} {escaped : Option Context}
    (h : History cfg job evs (.dropped escaped)) :
    (∃ f xs n, job.start = .ok f ∧ Answered f .given xs (.panicked n) ∧ evs = opened xs ++ [.panicked n] ∧
        (n = 0 → escaped = none)) ∨
      ∃ evs' p, History cfg job evs' p ∧ p.live = true ∧ evs = evs' ++ [.cancelled p.lent] ∧
        (p.lent = 0 → escaped = none) := by
  generalize hp : Phase.dropped escaped = p at h
  cases h with
  | polled f xs q tx hs ha =>
    match q, ha with
    | .pending c k n, ha => cases hp
    | .ready (.ok v) 0, ha => cases hp
    | .ready (.ok v) (n + 1), ha => cases hp
    | .ready (.error e) 0, ha => cases hp
    | .ready (.error e) (n + 1), ha => cases hp
    | .panicked n, ha =>
      cases hp
      refine .inl ⟨f, xs, n, hs, ha, rfl, ?_⟩
      rintro rfl
      rfl
  | panicked f xs n ctx hs ha hleft => cases hp; exact .inl ⟨f, xs, n, hs, ha, rfl, hleft⟩
  | cancelled evs p ctx h hl hleft => cases hp; exact .inr ⟨evs, p, h, hl, rfl, hleft⟩
  | created | refused | notBegun | committed | rolledBack | escaped => cases hp

/-- What the holder of an escaped context does is not seen of the block. -/
theorem History.leave {cfg : Config} {job : Job α} {evs : List (Event α)} {p : Phase α} {ctx : Context}
    (h : History cfg job evs p) (hp : p.escaped = some ctx) (escaped : Option Context) :
    History cfg job evs (p.leave escaped) := by
  cases p with
  | returned r escaped' =>
    cases hp
    obtain ⟨f, xs, r', n, hs, ha, rfl, rfl⟩ := h.of_escaped
    exact .escaped f xs r' n escaped hs ha
  | dropped escaped' =>
    cases hp
    rcases h.of_dropped with ⟨f, xs, n, hs, ha, rfl, hleft⟩ | ⟨evs', p, h', hl, rfl, hleft⟩
    · exact .panicked f xs n escaped hs ha fun hn => by cases hleft hn
    · exact .cancelled evs' p escaped h' hl fun hn => by cases hleft hn
  | created | awaiting | committing | rollingBack => cases hp

/-- Nothing escapes a closure whose future has left no reference to the context. -/
theorem History.released {cfg : Config} {job : Job α} {evs : List (Event α)} {p : Phase α}
    (h : History cfg job evs p) (hr : Released evs) : p.escaped = none := by
  cases p with
  | returned r escaped =>
    cases escaped with
    | none => rfl
    | some ctx =>
      obtain ⟨f, xs, r', n, -, -, rfl, -⟩ := h.of_escaped
      exact absurd (hr (.finished r' (n + 1)) (by simp)) (Nat.succ_ne_zero n)
  | dropped escaped =>
    rcases h.of_dropped with ⟨f, xs, n, -, -, rfl, hleft⟩ | ⟨evs', p, -, -, rfl, hleft⟩
    · exact hleft (hr (.panicked n) (by simp))
    · exact hleft (hr (.cancelled p.lent) (by simp))
  | created | awaiting | committing | rollingBack => rfl

/-- COMMIT was sent: the closure had finished with `Ok` and nothing else was sent. -/
theorem History.of_commit {cfg : Config} {job : Job α} {evs : List (Event α)} {p : Phase α}
    (h : History cfg job evs p) {fault : Option PgError} (hc : .commit fault ∈ evs) :
    ∃ f xs v, job.start = .ok f ∧ Answered f .given xs (.ready (.ok v) 0) ∧
      evs = opened xs ++ [.finished (.ok v) 0, .commit fault] ∧
      p = .returned (TransactionManager.committed cfg fault v) none := by
  induction h with
  | created => simp at hc
  | refused e hs => simp at hc
  | notBegun f e hs hb => simp at hc
  | polled f xs q tx hs ha => cases q <;> simp [opened, Polled.events] at hc
  | committed f xs v hs ha =>
    obtain rfl : fault = job.faults.commit := by simpa [opened] using hc
    exact ⟨f, xs, v, hs, ha, rfl, rfl⟩
  | rolledBack f xs e hs ha => simp [opened] at hc
  | escaped f xs r n ctx hs ha => simp [opened] at hc
  | panicked f xs n ctx hs ha => simp [opened] at hc
  | cancelled evs p ctx h hl hleft ih =>
    obtain ⟨f, xs, v, -, -, -, rfl⟩ := ih (by simpa using hc)
    cases hl

/-- ROLLBACK was sent: the closure had finished with `Err` and nothing else was sent. -/
theorem History.of_rollback {cfg : Config} {job : Job α} {evs : List (Event α)} {p : Phase α}
    (h : History cfg job evs p) {fault : Option PgError} (hc : .rollback fault ∈ evs) :
    ∃ f xs e, job.start = .ok f ∧ Answered f .given xs (.ready (.error e) 0) ∧
      evs = opened xs ++ [.finished (.error e) 0, .rollback fault] ∧ p = .returned (.error e) none := by
  induction h with
  | created => simp at hc
  | refused e hs => simp at hc
  | notBegun f e hs hb => simp at hc
  | polled f xs q tx hs ha => cases q <;> simp [opened, Polled.events] at hc
  | committed f xs v hs ha => simp [opened] at hc
  | rolledBack f xs e hs ha =>
    obtain rfl : fault = job.faults.rollback := by simpa [opened] using hc
    exact ⟨f, xs, e, hs, ha, rfl, rfl⟩
  | escaped f xs r n ctx hs ha => simp [opened] at hc
  | panicked f xs n ctx hs ha => simp [opened] at hc
  | cancelled evs p ctx h hl hleft ih =>
    obtain ⟨f, xs, e, -, -, -, rfl⟩ := ih (by simpa using hc)
    cases hl

/-- `Ok` came back: BEGIN, the closure and COMMIT have gone well. -/
theorem History.of_ok {cfg : Config} {job : Job α} {evs : List (Event α)} {v : α} {escaped : Option Context}
    (h : History cfg job evs (.returned (.ok v) escaped)) :
    ∃ f xs, job.start = .ok f ∧ Answered f .given xs (.ready (.ok v) 0) ∧
      evs = opened xs ++ [.finished (.ok v) 0, .commit none] := by
  generalize hp : Phase.returned (.ok v) escaped = p at h
  cases h with
  | polled f xs q tx hs ha =>
    match q, ha with
    | .pending c k n, ha => cases hp
    | .ready (.ok v) 0, ha => cases hp
    | .ready (.error e) 0, ha => cases hp
    | .ready (.ok v) (n + 1), ha => cases hp
    | .ready (.error e) (n + 1), ha => cases hp
    | .panicked n, ha => cases hp
  | committed f xs v' hs ha =>
    cases hc : job.faults.commit with
    | some e =>
      rw [hc] at hp
      cases hp
    | none =>
      rw [hc] at hp
      cases hp
      exact ⟨f, xs, hs, ha, rfl⟩
  | escaped f xs r n ctx hs ha => cases r <;> cases hp
  | created | refused | notBegun | rolledBack | panicked | cancelled => cases hp

/-- The ways for a block over `f` to return, when `f` has let go of the context by its end. -/
theorem History.of_returned {cfg : Config} {job : Job α} {evs : List (Event α)} {r : Except Error α}
    {escaped : Option Context} (h : History cfg job evs (.returned r escaped)) {f : Closure α}
    (hf : job.start = .ok f) (hreleased : ∀ r n, .finished r n ∈ evs → n = 0) :
    (∃ e, evs = [.begin (some e)] ∧ r = .error (cfg.backend.driverError e)) ∨
      (∃ xs v fault, Answered f .given xs (.ready (.ok v) 0) ∧ r = TransactionManager.committed cfg fault v ∧
        evs = opened xs ++ [.finished (.ok v) 0, .commit fault]) ∨
      (∃ xs e fault, Answered f .given xs (.ready (.error e) 0) ∧ r = .error e ∧
        evs = opened xs ++ [.finished (.error e) 0, .rollback fault]) := by
  generalize hp : Phase.returned r escaped = p at h
  cases h with
  | refused e hs => rw [hf] at hs; cases hs
  | notBegun f' e hs hb => cases hp; exact .inl ⟨e, rfl, rfl⟩
  | polled f' xs q tx hs ha =>
    match q, ha with
    | .pending c k n, ha => cases hp
    | .ready (.ok v) 0, ha => cases hp
    | .ready (.error e) 0, ha => cases hp
    | .ready r' (n + 1), ha => exact absurd (hreleased r' (n + 1) (by simp [Polled.events])) (Nat.succ_ne_zero n)
    | .panicked n, ha => cases hp
  | committed f' xs v hs ha =>
    cases hp
    cases hf.symm.trans hs
    exact .inr (.inl ⟨xs, v, _, ha, rfl, rfl⟩)
  | rolledBack f' xs e hs ha =>
    cases hp
    cases hf.symm.trans hs
    exact .inr (.inr ⟨xs, e, _, ha, rfl, rfl⟩)
  | escaped f' xs r' n ctx hs ha =>
    exact absurd (hreleased r' (n + 1) (by simp)) (Nat.succ_ne_zero n)
  | created | panicked | cancelled => cases hp

/-- The calls among the events of a block. -/
def exchanges (evs : List (Event α)) : List Exchange :=
  evs.filterMap fun
    | .call x => some x
    | _ => none

theorem exchanges_append (evs evs' : List (Event α)) : exchanges (evs ++ evs') = exchanges evs ++ exchanges evs' :=
  List.filterMap_append

@[simp] theorem exchanges_events (p : Polled α) : exchanges p.events = [] := by cases p <;> rfl

theorem exchanges_call (x : Exchange) (evs : List (Event α)) : exchanges (.call x :: evs) = x :: exchanges evs := rfl

theorem History.exchanges_created {cfg : Config} {job : Job α} {evs : List (Event α)}
    (h : History cfg job evs .created) : exchanges evs = [] := by
  generalize hp : Phase.created = p at h
  cases h with
  | created => rfl
  | polled f xs q tx hs ha => exact absurd hp.symm (resume_ne_created _ _ _)
  | refused | notBegun | committed | rolledBack | escaped | panicked | cancelled => cases hp

/-! ## Blocks in the system -/

namespace State

variable {ι : Type} [DecidableEq ι] [Fintype ι] {cfg : Config} {jobs : ι → Job α} {db : Db}
  {as : List (Action ι)} {s : State ι α}

omit [Fintype ι] in
/-- A cancellation is no call. -/
@[simp] theorem exchanges_cancel (i : ι) (s : State ι α) : exchanges (s.events cfg jobs i (.cancel i)) = [] := by
  rw [events_cancel]
  rfl

/-- Every block in every run has a history. -/
theorem history_run (h : run (step cfg jobs) (init db) as = some s) (i : ι) :
    History cfg (jobs i) (trace cfg jobs i (init db) as) (s.phase i) := by
  refine run_history (fun as s => History cfg (jobs i) (trace cfg jobs i (init db) as) (s.phase i)) .created ?_ as h
  intro as s a s' hrun ih hstep
  rw [trace_concat hrun hstep]
  by_cases hi : i = a.caller
  · obtain ⟨j, r, rfl, -, hr, rfl⟩ | ⟨j, rfl, hl, rfl⟩ | ⟨j, act, ctx, q, rfl, hp, -, rfl⟩ := step_cases hstep
    · obtain rfl : i = j := hi
      rw [events_poll hr, goto_phase_self]
      exact ih.poll hr
    · obtain rfl : i = j := hi
      rw [goto_phase_self, events_cancel]
      exact ih.cancel hl
    · obtain rfl : i = j := hi
      rw [goto_phase_self, show events cfg jobs i s (.holder i act) = [] from rfl, List.append_nil]
      exact ih.leave hp q.1
  · rw [events_ne hi, List.append_nil, step_phase_ne hstep hi]
    exact ih

omit [DecidableEq ι] [Fintype ι] in
theorem cancelled_not_polled {p p' : Phase α} {job : Job α} {ev : List (Event α)} {d d' : Db} {n : Nat}
    (hr : p.poll cfg job d = some (ev, p', d')) : .cancelled n ∉ ev := by
  have hevents : ∀ q : Polled α, .cancelled n ∉ q.events := fun q => by cases q <;> simp [Polled.events]
  cases p with
  | created =>
    simp only [Phase.poll] at hr
    split at hr
    · cases hr; simp
    · split at hr
      · cases hr; simp
      · cases hr; simp [hevents]
  | awaiting c k refs calls tx => cases hr; simp [hevents]
  | committing | rollingBack => cases hr; simp
  | returned | dropped => cases hr

/-- Only who is cancelled shows it. -/
theorem cancelled_mem {i : ι} {n : Nat} :
    ∀ {as : List (Action ι)} {s : State ι α}, .cancelled n ∈ trace cfg jobs i s as → .cancel i ∈ as
  | [], s, h => by simp [trace] at h
  | a :: as, s, h => by
    simp only [trace] at h
    split at h
    · cases h
    · rename_i s' hstep
      rcases List.mem_append.1 h with h | h
      · cases a with
        | poll j =>
          by_cases hj : i = j
          · subst hj
            obtain ⟨l, ⟨ev, p', d'⟩, hl, -, hr, -⟩ | ⟨l, hl, -⟩ | ⟨l, act, ctx, q, hl, -⟩ := step_cases hstep
            · cases hl
              rw [events_poll hr] at h
              exact absurd h (cancelled_not_polled hr)
            · cases hl
            · cases hl
          · rw [events_ne hj] at h
            cases h
        | cancel j =>
          by_cases hj : i = j
          · subst hj
            exact List.mem_cons_self
          · rw [events_ne hj] at h
            cases h
        | holder j act => cases h
      · exact List.mem_cons_of_mem a (cancelled_mem h)

/-- `t` is `s` without `i`. -/
structure Without (i : ι) (s t : State ι α) : Prop where
  committed : t.committed = s.committed
  phase : ∀ j, j ≠ i → t.phase j = s.phase j
  absent : t.phase i = .created

/-- Without `i`, the others find no more locks and pending rows than with it. -/
theorem Without.others {i : ι} {s t : State ι α} (h : Without i s t) (j : ι) (k : Key) :
    ((t.others j).locked k = true → (s.others j).locked k = true) ∧
      ((t.others j).written k = true → (s.others j).written k = true) := by
  have hopen : ∀ l, (t.openTx l).isSome = true → t.openTx l = s.openTx l := by
    intro l hl
    by_cases hli : l = i
    · subst hli
      simp [openTx, h.absent, Phase.openTx] at hl
    · simp only [openTx, h.phase l hli]
  constructor
  all_goals
    intro hk
    obtain ⟨l, hlj, hl⟩ := of_decide_eq_true hk
    refine decide_eq_true ⟨l, hlj, ?_⟩
    rw [← hopen l ?_]
    · exact hl
    · cases ht : t.openTx l with
      | none => simp [ht] at hl
      | some tx => rfl

theorem Without.calls {i j : ι} {s t : State ι α} (h : Without i s t) {db : Db} {tx : PgTx}
    {fault : Option PgError} {c : RepoCall}
    (hw : callWaits cfg (s.others j) db tx fault c = false) :
    callWaits cfg (t.others j) db tx fault c = false :=
  Stmt.waits_mono _ _ _ (fun k => (h.others j k).1) (fun k => (h.others j k).2) hw

omit [Fintype ι] in
theorem Without.goto {i j : ι} {s t : State ι α} (h : Without i s t) (hj : i ≠ j) (p : Phase α) (db : Db) :
    Without i (s.goto j p db) (t.goto j p db) where
  committed := rfl
  phase l hl := by
    by_cases hlj : l = j
    · subst hlj; simp
    · rw [goto_phase_ne _ _ _ hlj, goto_phase_ne _ _ _ hlj, h.phase l hl]
  absent := by rw [goto_phase_ne _ _ _ hj, h.absent]

/-- What another caller does with `i` around, it does as well without. -/
theorem Without.follow {i : ι} {s s' t : State ι α} {a : Action ι} (h : Without i s t) (ha : i ≠ a.caller)
    (hstep : s.step cfg jobs a = some s') : ∃ t', t.step cfg jobs a = some t' ∧ Without i s' t' := by
  have hphase := h.phase a.caller (Ne.symm ha)
  obtain ⟨j, r, rfl, hw, hr, rfl⟩ | ⟨j, rfl, hl, rfl⟩ | ⟨j, act, ctx, q, rfl, hp, hq, rfl⟩ := step_cases hstep
  all_goals simp only [Action.caller] at hphase ha
  · refine ⟨t.goto j r.2.1 r.2.2, ?_, h.goto ha _ _⟩
    have hw' : (s.phase j).waits cfg (jobs j) (t.others j) s.committed = false := by
      generalize s.phase j = p at hw
      cases p with
      | awaiting c k n calls tx => exact h.calls hw
      | created | committing | rollingBack | returned | dropped => rfl
    simp [step, hphase, h.committed, hw', hr]
  · refine ⟨t.goto j (s.phase j).cancel s.committed, ?_, h.goto ha _ _⟩
    simp [step, hphase, h.committed, hl]
  · refine ⟨t.goto j ((s.phase j).leave q.1) q.2, ?_, h.goto ha _ _⟩
    have hact : ctx.act cfg (t.others j) s.committed act = some q := by
      cases act with
      | call c fault =>
        simp only [Context.act] at hq ⊢
        split at hq
        · cases hq
        · rename_i hw
          rw [h.calls (by simpa using hw)]
          exact hq
      | clone | drop | commit | rollback => exact hq
    simp only [step, hphase, hp, h.committed, hact, Option.map_some]

/-- What `i` does short of a successful COMMIT is nothing to the others. -/
theorem Without.skip {i : ι} {s s' t : State ι α} {a : Action ι} (h : Without i s t) (ha : a.caller = i)
    (hescaped : (s.phase i).escaped = none) (hcommit : .commit none ∉ s.events cfg jobs i a)
    (hstep : s.step cfg jobs a = some s') : Without i s' t := by
  obtain ⟨j, r, rfl, -, hr, rfl⟩ | ⟨j, rfl, -, rfl⟩ | ⟨j, act, ctx, q, rfl, hp, -, rfl⟩ := step_cases hstep
  · obtain rfl : j = i := ha
    rw [events_poll hr] at hcommit
    refine ⟨?_, fun l hl => by rw [goto_phase_ne _ _ _ hl, h.phase l hl], h.absent⟩
    rw [goto_committed, h.committed]
    generalize s.phase j = p at hr
    cases p with
    | created =>
      simp only [Phase.poll] at hr
      split at hr
      · cases hr; rfl
      · split at hr <;> cases hr <;> rfl
    | awaiting c k n calls tx => cases hr; rfl
    | committing v tx =>
      cases hr
      cases hc : (jobs j).faults.commit with
      | some e => rfl
      | none => simp [hc] at hcommit
    | rollingBack e tx =>
      cases hr
      cases (jobs j).faults.rollback <;> rfl
    | returned | dropped => cases hr
  · obtain rfl : j = i := ha
    exact ⟨h.committed, fun l hl => by rw [goto_phase_ne _ _ _ hl, h.phase l hl], h.absent⟩
  · obtain rfl : j = i := ha
    rw [hescaped] at hp
    cases hp

/-- **Erasure.** The schedule without the actions of a block that has sent no successful COMMIT
and left nothing of its context leads everyone else to where they are, and to the same committed rows. -/
theorem run_without (h : run (step cfg jobs) (init db) as = some s) (i : ι)
    (hreleased : Released (trace cfg jobs i (init db) as))
    (hcommit : .commit none ∉ trace cfg jobs i (init db) as) :
    ∃ t, run (step cfg jobs) (init db) (as.filter fun a => !decide (a.caller = i)) = some t ∧ Without i s t := by
  refine run_erase (Without i) (fun a => decide (a.caller = i))
    (fun as => Released (trace cfg jobs i (init db) as) ∧
      .commit none ∉ trace cfg jobs i (init db) as) ⟨rfl, fun _ _ => rfl, rfl⟩ ?_ ?_ ?_ as
    ⟨hreleased, hcommit⟩ h
  · rintro as a ⟨hr, hc⟩
    have hsub := (trace_monotone cfg jobs i a as (init db)).subset
    exact ⟨fun e hmem => hr e (hsub hmem), fun hmem => hc (hsub hmem)⟩
  · rintro as s t a s' hrun ⟨hr, hc⟩ ha hwithout hstep
    rw [trace_concat hrun hstep] at hr hc
    exact hwithout.skip (of_decide_eq_true ha)
      ((history_run hrun i).released fun e he => hr e (List.mem_append_left _ he))
      (fun hmem => hc (List.mem_append_right _ hmem)) hstep
  · intro s t a s' ha hwithout hstep
    exact hwithout.follow (Ne.symm (of_decide_eq_false ha)) hstep

end State

end TransactionManager
