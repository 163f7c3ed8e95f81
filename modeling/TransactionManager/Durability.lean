import TransactionManager.Calls
/-
# Acknowledged writes and the COMMIT

`acknowledged` are the rows that the block's writes have answered `Ok` for, the last answer for
each row. While the transaction is not aborted they are its pending rows, except where the last answer
was that of an sqlx update that found no row (`Lost`; `Owed`, kept by every call and every run). And it is
aborted as soon as a call is answered with an error of the server. COMMIT makes the pending rows
durable, or, on an aborted transaction, forgets them, and reports success either way: so `Ok`
from `transaction` does not say that the acknowledged writes are durable (`ok_durable_iff`).
-/

namespace TransactionManager

open RowStore Run

variable {α : Type}

def Exchange.acknowledge (b : Backend) (acked : Store Key Row) (x : Exchange) : Store Key Row :=
  match x.2, x.1.write b with
  | .ok _, some (k, row) => put acked k row
  | _, _ => acked

/-- The rows of the writes that returned `Ok`, the last one for each key. -/
def acknowledged (b : Backend) (xs : List Exchange) : Store Key Row :=
  xs.foldl (Exchange.acknowledge b) fun _ => none

theorem acknowledged_concat (b : Backend) (xs : List Exchange) (x : Exchange) :
    acknowledged b (xs ++ [x]) = x.acknowledge b (acknowledged b xs) := by simp [acknowledged]

section
variable (b : Backend) (acked : Store Key Row) (c : RepoCall)

theorem acknowledge_read (r : Except Error c.Reply) (hw : c.write b = none) :
    Exchange.acknowledge b acked ⟨c, r⟩ = acked := by
  cases r <;> simp [Exchange.acknowledge, hw]

theorem acknowledge_write (v : c.Reply) {k : Key} {row : Row} (hw : c.write b = some (k, row)) :
    Exchange.acknowledge b acked ⟨c, .ok v⟩ = put acked k row := by simp [Exchange.acknowledge, hw]

theorem acknowledge_error (e : Error) (k : Key) :
    Exchange.acknowledge b acked ⟨c, .error e⟩ k = acked k := by simp [Exchange.acknowledge]

/-- The row is acknowledged by the exchange, or has been before. -/
theorem acknowledge_none (x : Exchange) (k : Key) :
    x.acknowledge b acked k = none ↔ x.acknowledge b (fun _ => none) k = none ∧ acked k = none := by
  obtain ⟨c, r⟩ := x
  cases r with
  | error e => simp [acknowledge_error]
  | ok v =>
    cases hw : c.write b with
    | none => simp [acknowledge_read _ _ _ _ hw]
    | some p =>
      obtain ⟨k', row⟩ := p
      rw [acknowledge_write _ _ _ v hw, acknowledge_write _ _ _ v hw]
      by_cases hk : k = k'
      · rw [hk, put_self, put_self]
        simp
      · rw [put_ne _ hk, put_ne _ hk]
        simp

end

theorem acknowledged_append (b : Backend) (xs ys : List Exchange) (k : Key) :
    acknowledged b (xs ++ ys) k = none ↔ acknowledged b xs k = none ∧ acknowledged b ys k = none := by
  induction ys using List.reverseRecOn with
  | nil => simp [acknowledged]
  | append_singleton ys y ih =>
    rw [← List.append_assoc, acknowledged_concat, acknowledged_concat, acknowledge_none,
      acknowledge_none b (acknowledged b ys), ih]
    exact and_left_comm

/-- A row that is not seen is not pending. -/
theorem writes_of_not_seen {tx : PgTx} {db : Db} {k : Key} (h : tx.sees db k = none) : tx.writes k = none := by
  by_contra hw
  obtain ⟨v, hv⟩ := Option.ne_none_iff_exists'.1 hw
  rw [Tx.sees, overlay_of_some hv] at h
  cases h

/-! ## What a transaction owes to its answers -/

/-- Unless the transaction is aborted, an acknowledged row is pending, and of the rows that are `lost`
none is. -/
structure Owed (b : Backend) (lost : Key → Prop) (xs : List Exchange) (tx : PgTx) : Prop where
  pending : tx.aborted = false → ∀ k row, acknowledged b xs k = some row → ¬ lost k → tx.writes k = some row
  lost : tx.aborted = false → ∀ k, lost k → tx.writes k = none

/-- The call is an update that finds no row, and is answered `Ok` all the same. -/
def Overlooks (b : Backend) (db : Db) (tx : PgTx) (x : Exchange) (k : Key) : Prop :=
  ∃ inventory, x = ⟨.updateInventory inventory, .ok inventory⟩ ∧ k = b.inventoryKey inventory.itemId ∧
    tx.sees db k = none

theorem Owed.fresh (b : Backend) {lost : Key → Prop} (hlost : ∀ k, ¬ lost k) : Owed b lost [] .fresh :=
  ⟨fun _ _ _ h => (by cases h), fun _ k hk => absurd hk (hlost k)⟩

/-- One more call. A row is lost from then on when the call overlooks it, and until it is acknowledged anew. -/
theorem Owed.step {cfg : Config} {lost lost' : Key → Prop} {db : Db} {xs : List Exchange} {tx tx' : PgTx} {c : RepoCall}
    {r : Except Error c.Reply} (h : Owed cfg.backend lost xs tx) (hc : CallStep cfg db tx c r tx')
    (hlost : tx.aborted = false → ∀ k, lost' k ↔
      (lost k ∧ Exchange.acknowledge cfg.backend (fun _ => none) ⟨c, r⟩ k = none) ∨
        Overlooks cfg.backend db tx ⟨c, r⟩ k) :
    Owed cfg.backend lost' (xs ++ [⟨c, r⟩]) tx' := by
  -- a call that writes its row: the row is pending, and no longer lost
  have hwrite : ∀ k row, tx.aborted = false →
      (∀ j, acknowledged cfg.backend (xs ++ [⟨c, r⟩]) j = put (acknowledged cfg.backend xs) k row j) →
      (∀ j, Exchange.acknowledge cfg.backend (fun _ => none) ⟨c, r⟩ j = put (fun _ => none) k row j) →
      (∀ j, ¬ Overlooks cfg.backend db tx ⟨c, r⟩ j) → tx'.writes = put tx.writes k row →
        Owed cfg.backend lost' (xs ++ [⟨c, r⟩]) tx' := by
    intro k row hact hacked hack hseen hw
    have hiff : ∀ j, lost' j ↔ lost j ∧ put (fun _ => (none : Option Row)) k row j = none := fun j => by
      rw [hlost hact j, hack j, or_iff_left (hseen j)]
    refine ⟨fun _ j row' hj hnot => ?_, fun _ j hj => ?_⟩
    · rw [hacked] at hj
      rw [hw]
      by_cases e : j = k
      · rw [e, put_self] at hj ⊢
        exact hj
      · rw [put_ne _ e] at hj ⊢
        exact h.pending hact j row' hj fun hl => hnot ((hiff j).2 ⟨hl, put_ne _ e⟩)
    · obtain ⟨hl, hj⟩ := (hiff j).1 hj
      have e : j ≠ k := by
        rintro rfl
        rw [put_self] at hj
        cases hj
      rw [hw, put_ne _ e]
      exact h.lost hact j hl
  -- a call that neither writes nor acknowledges
  have hkeep : tx.aborted = false → tx'.writes = tx.writes →
      (∀ j, acknowledged cfg.backend (xs ++ [⟨c, r⟩]) j = acknowledged cfg.backend xs j) →
      (∀ j, lost' j ↔ lost j) → Owed cfg.backend lost' (xs ++ [⟨c, r⟩]) tx' := by
    intro hact hw hacked hiff
    refine ⟨fun _ j row hj hnot => ?_, fun _ j hj => ?_⟩
    · rw [hw]
      exact h.pending hact j row (hacked j ▸ hj) fun hl => hnot ((hiff j).2 hl)
    · rw [hw]
      exact h.lost hact j ((hiff j).1 hj)
  have hread : c.write cfg.backend = none → tx.aborted = false → ∀ j, lost' j ↔ lost j := by
    intro hw hact j
    rw [hlost hact j, acknowledge_read _ _ _ _ hw]
    refine ⟨?_, fun hl => .inl ⟨hl, rfl⟩⟩
    rintro (⟨hl, -⟩ | ⟨inventory, hx, -⟩)
    · exact hl
    · cases hx
      cases hw
  cases hc with
  | failed c e => exact ⟨fun ha => (by simp at ha), fun ha => (by simp at ha)⟩
  | refused c hab => exact ⟨fun ha => (by simp [hab] at ha), fun ha => (by simp [hab] at ha)⟩
  | read c r hact hw =>
    exact hkeep hact rfl (fun j => by rw [acknowledged_concat, acknowledge_read _ _ _ _ hw]) (hread hw hact)
  | lockedRead c r k hact hw =>
    exact hkeep hact rfl (fun j => by rw [acknowledged_concat, acknowledge_read _ _ _ _ hw]) (hread hw hact)
  | inserted c v k row hact hw hs hcreates =>
    refine hwrite k row hact (fun j => by rw [acknowledged_concat, acknowledge_write _ _ _ v hw])
      (fun j => by rw [acknowledge_write _ _ _ v hw]) (fun j hj => ?_) rfl
    obtain ⟨inventory, hx, -⟩ := hj
    cases hx
    exact hcreates inventory rfl
  | updated inventory q hact hs =>
    refine hwrite _ _ hact (fun j => by rw [acknowledged_concat, acknowledge_write _ _ (.updateInventory inventory) _ rfl])
      (fun j => by rw [acknowledge_write _ _ (.updateInventory inventory) _ rfl]) (fun j hj => ?_) rfl
    obtain ⟨inventory', hx, rfl, hnone⟩ := hj
    cases hx
    rw [hs] at hnone
    cases hnone
  | missed inventory hact hs =>
    cases hb : cfg.backend with
    | seaOrm =>
      rw [hb] at hkeep hlost
      refine hkeep hact rfl (fun j => by rw [acknowledged_concat]; exact acknowledge_error _ _ _ _ _) fun j => ?_
      rw [hlost hact j]
      refine ⟨?_, fun hl => .inl ⟨hl, acknowledge_error _ _ _ _ _⟩⟩
      rintro (⟨hl, -⟩ | ⟨inventory', hx, -⟩)
      · exact hl
      · cases hx
    | sqlx =>
      rw [hb] at h hlost hs
      have hack : ∀ acked : Store Key Row, Exchange.acknowledge .sqlx acked
          ⟨.updateInventory inventory, Backend.sqlx.missedUpdate inventory⟩ =
            put acked (Backend.sqlx.inventoryKey inventory.itemId) (inventoryRow inventory.itemId inventory.quantity) :=
        fun acked => acknowledge_write _ _ (.updateInventory inventory) inventory rfl
      have hnone := writes_of_not_seen hs
      have hmine : lost' (Backend.sqlx.inventoryKey inventory.itemId) :=
        (hlost hact _).2 (.inr ⟨inventory, rfl, rfl, hs⟩)
      refine ⟨fun _ j row hj hnot => ?_, fun _ j hj => ?_⟩
      · have e : j ≠ Backend.sqlx.inventoryKey inventory.itemId := fun e => hnot (e ▸ hmine)
        rw [acknowledged_concat, hack, put_ne _ e] at hj
        exact h.pending hact j row hj fun hl => hnot ((hlost hact j).2 (.inl ⟨hl, by rw [hack, put_ne _ e]⟩))
      · rcases (hlost hact j).1 hj with ⟨hl, -⟩ | ⟨inventory', hx, rfl, -⟩
        · exact h.lost hact j hl
        · cases hx
          exact hnone

/-! ## When a transaction is aborted -/

/-- The call was answered with an error of the server. -/
def Exchange.Failed (b : Backend) (x : Exchange) : Prop := ∃ e, x.2 = .error e ∧ b.ServerError e

/-- A transaction is aborted when one of its statements has failed, and only then. -/
def AbortedByFailure (b : Backend) (xs : List Exchange) (tx : PgTx) : Prop :=
  tx.aborted = true ↔ ∃ x ∈ xs, x.Failed b

theorem AbortedByFailure.step {cfg : Config} {db : Db} {xs : List Exchange} {tx tx' : PgTx} {c : RepoCall}
    {r : Except Error c.Reply} (h : AbortedByFailure cfg.backend xs tx) (hc : CallStep cfg db tx c r tx') :
    AbortedByFailure cfg.backend (xs ++ [⟨c, r⟩]) tx' := by
  have hfails : ∀ pg, r = .error (cfg.backend.driverError pg) → tx'.aborted = true →
      AbortedByFailure cfg.backend (xs ++ [⟨c, r⟩]) tx' := fun pg hr ha =>
    ⟨fun _ => ⟨⟨c, r⟩, by simp, _, hr, pg, rfl⟩, fun _ => ha⟩
  have hworks : (∀ e, r = .error e → ¬ cfg.backend.ServerError e) → tx'.aborted = false → tx.aborted = false →
      AbortedByFailure cfg.backend (xs ++ [⟨c, r⟩]) tx' := by
    intro hr ha hact
    refine ⟨fun habort => (Bool.false_ne_true (ha.symm.trans habort)).elim, ?_⟩
    rintro ⟨x, hx, e, he, hserver⟩
    rcases List.mem_append.1 hx with hx | hx
    · exact absurd (h.2 ⟨x, hx, e, he, hserver⟩) (by simp [hact])
    · cases List.mem_singleton.1 hx
      exact absurd hserver (hr e he)
  cases hc with
  | failed c e => exact hfails e rfl (by simp)
  | refused c hab => exact hfails _ rfl hab
  | read c r hact hw hr => exact hworks hr hact hact
  | lockedRead c r k hact hw hr => exact hworks hr hact hact
  | inserted c v k row hact hw hs => exact hworks (fun e he => by cases he) hact hact
  | updated inventory q hact hs => exact hworks (fun e he => by cases he) hact hact
  | missed inventory hact hs => exact hworks (fun e => missedUpdate_error _) hact hact

namespace State

variable {ι : Type} [DecidableEq ι] [Fintype ι] {cfg : Config} {jobs : ι → Job α} {t₀ : Tables}
  {as : List (Action ι)} {s s' : State ι α}

/-- The block is at an update that finds no row of its item, and that is answered `Ok`. -/
def LosesUpdate (cfg : Config) (jobs : ι → Job α) (s : State ι α) (i : ι) (k : Key) : Prop :=
  ∃ c kont refs calls tx x, s.phase i = .awaiting c kont refs calls tx ∧
    exchanges (s.events cfg jobs i (.poll i)) = [x] ∧ Overlooks cfg.backend s.committed tx x k

/-- The last write of the row that the block has been answered `Ok` for was an update that found no row. -/
def Lost (cfg : Config) (jobs : ι → Job α) (db : Db) (as : List (Action ι)) (i : ι) (k : Key) : Prop :=
  ∃ before rest m m', as = before ++ .poll i :: rest ∧ run (step cfg jobs) (init db) before = some m ∧
    m.step cfg jobs (.poll i) = some m' ∧ m.LosesUpdate cfg jobs i k ∧
    acknowledged cfg.backend (exchanges (trace cfg jobs i m' rest)) k = none

theorem lost_concat {db : Db} {i : ι} {a : Action ι} (h : run (step cfg jobs) (init db) as = some s)
    (hstep : s.step cfg jobs a = some s') (k : Key) : Lost cfg jobs db (as ++ [a]) i k ↔
      (Lost cfg jobs db as i k ∧ acknowledged cfg.backend (exchanges (s.events cfg jobs i a)) k = none) ∨
        (a = .poll i ∧ s.LosesUpdate cfg jobs i k) := by
  have hmore : ∀ {m m' : State ι α} {before rest : List (Action ι)}, as = before ++ .poll i :: rest →
      run (step cfg jobs) (init db) before = some m → m.step cfg jobs (.poll i) = some m' →
      (acknowledged cfg.backend (exchanges (trace cfg jobs i m' (rest ++ [a]))) k = none ↔
        acknowledged cfg.backend (exchanges (trace cfg jobs i m' rest)) k = none ∧
          acknowledged cfg.backend (exchanges (s.events cfg jobs i a)) k = none) := by
    intro m m' before rest has hm hpoll
    rw [has, run_append, hm] at h
    obtain ⟨m₁, hm₁, hrest⟩ := run_cons_some h
    obtain rfl : m' = m₁ := Option.some.inj (hpoll.symm.trans hm₁)
    rw [trace_concat hrest hstep, exchanges_append, acknowledged_append]
  constructor
  · rintro ⟨before, rest, m, m', has, hm, hpoll, hloses, hack⟩
    rcases List.eq_nil_or_concat rest with rfl | ⟨rest, b, rfl⟩
    · obtain ⟨rfl, hlast⟩ := List.append_inj' has rfl
      cases hlast
      obtain rfl : m = s := Option.some.inj (hm.symm.trans h)
      exact .inr ⟨rfl, hloses⟩
    · rw [List.concat_eq_append, ← List.cons_append, ← List.append_assoc] at has
      obtain ⟨hbefore, hlast⟩ := List.append_inj' has rfl
      cases hlast
      rw [List.concat_eq_append] at hack
      obtain ⟨hearlier, hnone⟩ := (hmore hbefore hm hpoll).1 hack
      exact .inl ⟨⟨before, rest, m, m', hbefore, hm, hpoll, hloses, hearlier⟩, hnone⟩
  · rintro (⟨⟨before, rest, m, m', has, hm, hpoll, hloses, hack⟩, hlast⟩ | ⟨rfl, hloses⟩)
    · exact ⟨before, rest ++ [a], m, m', by rw [has]; simp, hm, hpoll, hloses, (hmore has hm hpoll).2 ⟨hack, hlast⟩⟩
    · exact ⟨as, [], s, s', rfl, h, hstep, hloses, rfl⟩

/-- In every run the transaction of a block still going has pending what the block was answered `Ok` for, except
what was lost. -/
theorem owed_run (hd : Deployed cfg.catalog cfg.backend)
    (h : run (step cfg jobs) (init (t₀.store cfg.backend)) as = some s) (i : ι) :
    (s.phase i).live = true → ∀ tx, s.openTx i = some tx →
      Owed cfg.backend (Lost cfg jobs (t₀.store cfg.backend) as i) (callsOf cfg jobs (t₀.store cfg.backend) as i) tx := by
  refine run_history (fun as s => (s.phase i).live = true → ∀ tx, s.openTx i = some tx →
    Owed cfg.backend (Lost cfg jobs (t₀.store cfg.backend) as i) (callsOf cfg jobs (t₀.store cfg.backend) as i) tx)
    (fun _ tx htx => by cases htx) ?_ as h
  intro as s a s' hrun ih hstep hlive tx htx
  have hcalls : callsOf cfg jobs (t₀.store cfg.backend) (as ++ [a]) i =
      callsOf cfg jobs (t₀.store cfg.backend) as i ++ exchanges (s.events cfg jobs i a) := by
    unfold callsOf
    rw [trace_concat hrun hstep, exchanges_append]
  rcases callsOf_concat hrun hstep i with
    ⟨hsame, hbegun⟩ | ⟨c, kont, n, calls, tx₀, fault, r, tx', hp, rfl, hcall, -, hopen, hnew⟩
  · have hnil : exchanges (s.events cfg jobs i a) = [] := List.append_right_eq_self.1 (hcalls.symm.trans hsame)
    have hlost : ∀ k, Lost cfg jobs (t₀.store cfg.backend) (as ++ [a]) i k ↔
        Lost cfg jobs (t₀.store cfg.backend) as i k := by
      intro k
      rw [lost_concat hrun hstep, hnil]
      refine ⟨?_, fun hl => .inl ⟨hl, rfl⟩⟩
      rintro (⟨hl, -⟩ | ⟨rfl, c, kont, refs, calls, tx, x, -, hx, -⟩)
      · exact hl
      · rw [hnil] at hx
        cases hx
    by_cases hi : i = a.caller
    · obtain ⟨hp, rfl⟩ := hbegun hi hlive tx htx
      have hempty : callsOf cfg jobs (t₀.store cfg.backend) as i = [] := (hp ▸ history_run hrun i).exchanges_created
      rw [hsame, hempty]
      refine ⟨fun _ _ _ hk => (by cases hk), fun _ _ _ => rfl⟩
    · rw [step_phase_ne hstep hi] at hlive
      rw [step_openTx_ne hstep hi] at htx
      rw [hsame, funext fun k => propext (hlost k)]
      exact ih hlive tx htx
  · have hopen₀ : s.openTx i = some tx₀ := by rw [openTx, hp]; rfl
    obtain rfl := hopen tx htx
    have hx : exchanges (s.events cfg jobs i (.poll i)) = [⟨c, r⟩] := List.append_cancel_left (hcalls.symm.trans hnew)
    rw [hnew]
    refine (ih (by rw [hp]; rfl) tx₀ hopen₀).step (call_at hd hrun hp hcall) fun _ k => ?_
    rw [lost_concat hrun hstep, hx]
    refine or_congr Iff.rfl ⟨?_, fun hover => ⟨rfl, c, kont, n, calls, tx₀, _, hp, hx, hover⟩⟩
    rintro ⟨-, c', kont', refs, calls', tx₁, x, hp', hx', hover⟩
    rw [hp] at hp'
    cases hp'
    rw [hx] at hx'
    cases hx'
    exact hover

theorem abortedByFailure_run (hd : Deployed cfg.catalog cfg.backend)
    (h : run (step cfg jobs) (init (t₀.store cfg.backend)) as = some s) (i : ι) :
    (s.phase i).live = true → ∀ tx, s.openTx i = some tx →
      AbortedByFailure cfg.backend (callsOf cfg jobs (t₀.store cfg.backend) as i) tx :=
  calls_run hd (AbortedByFailure cfg.backend) ⟨fun h => (by cases h), fun ⟨x, hx, _⟩ => (by cases hx)⟩
    (fun _ _ _ _ _ _ hb hc => hb.step hc) h i

/-- A poll that returns `Ok` is the successful COMMIT. -/
theorem step_ok {i : ι} (hstep : s.step cfg jobs (.poll i) = some s') {v : α} {escaped : Option Context}
    (hok : s'.phase i = .returned (.ok v) escaped) :
    ∃ tx, s.phase i = .committing v tx ∧ s' = s.goto i (.returned (.ok v) none) (tx.commit s.committed) := by
  obtain ⟨j, ⟨ev, p', db'⟩, hj, -, hr, rfl⟩ | ⟨j, hj, -⟩ | ⟨j, act, ctx, q, hj, -⟩ := step_cases hstep
  · obtain rfl : i = j := Action.poll.inj hj
    rw [goto_phase_self] at hok
    obtain rfl : p' = .returned (.ok v) escaped := hok
    cases hp : s.phase i with
    | created =>
      simp only [hp, Phase.poll] at hr
      split at hr
      · cases hr
      · split at hr
        · cases hr
        · simp only [Option.some.injEq, Prod.mk.injEq] at hr
          exact absurd hr.2.1 (resume_ne_ok _ _ _ _ _)
    | awaiting c k n calls tx =>
      simp only [hp, Phase.poll, Option.some.injEq, Prod.mk.injEq] at hr
      exact absurd hr.2.1 (resume_ne_ok _ _ _ _ _)
    | committing w tx =>
      simp only [hp, Phase.poll, Option.some.injEq, Prod.mk.injEq, Phase.returned.injEq] at hr
      obtain ⟨-, ⟨hv, rfl⟩, rfl⟩ := hr
      cases hc : (jobs i).faults.commit with
      | some e => rw [hc] at hv; cases hv
      | none =>
        rw [hc] at hv
        cases hv
        exact ⟨tx, rfl, rfl⟩
    | rollingBack e tx => rw [hp] at hr; cases hr
    | returned | dropped => rw [hp] at hr; cases hr
  · cases hj
  · cases hj

/-- **When `Ok` is durable.** In the poll in which a block returns `Ok`: every row it has acknowledged is
committed as acknowledged if and only if each either was not lost, and no call of the block has been answered
with an error of the server, or was committed like that already. -/
theorem ok_durable_iff (hd : Deployed cfg.catalog cfg.backend)
    (h : run (step cfg jobs) (init (t₀.store cfg.backend)) as = some s) {i : ι}
    (hstep : s.step cfg jobs (.poll i) = some s') {v : α} {escaped : Option Context}
    (hok : s'.phase i = .returned (.ok v) escaped) :
    (∀ k row, acknowledged cfg.backend (callsOf cfg jobs (t₀.store cfg.backend) as i) k = some row →
        s'.committed k = some row) ↔
      ∀ k row, acknowledged cfg.backend (callsOf cfg jobs (t₀.store cfg.backend) as i) k = some row →
        ((∀ x ∈ callsOf cfg jobs (t₀.store cfg.backend) as i, ¬ x.Failed cfg.backend) ∧
          ¬ Lost cfg jobs (t₀.store cfg.backend) as i k) ∨ s.committed k = some row := by
  obtain ⟨tx, hp, rfl⟩ := step_ok hstep hok
  have htx : s.openTx i = some tx := by simp [openTx, hp, Phase.openTx]
  have hlive : (s.phase i).live = true := by rw [hp]; rfl
  have howed := owed_run hd h i hlive tx htx
  have haborted := abortedByFailure_run hd h i hlive tx htx
  rw [goto_committed]
  refine forall_congr' fun k => forall_congr' fun row => imp_congr_right fun hk => ?_
  cases ha : tx.aborted with
  | true =>
    obtain ⟨x, hx, hfailed⟩ := haborted.1 ha
    rw [Tx.commit_of_aborted ha, or_iff_right fun hnone => hnone.1 x hx hfailed]
  | false =>
    have hnone : ∀ x ∈ callsOf cfg jobs (t₀.store cfg.backend) as i, ¬ x.Failed cfg.backend := fun x hx hfailed => by
      rw [haborted.2 ⟨x, hx, hfailed⟩] at ha
      cases ha
    by_cases hlost : Lost cfg jobs (t₀.store cfg.backend) as i k
    · rw [Tx.commit_of_not_written (howed.lost ha k hlost), or_iff_right fun hkept => hkept.2 hlost]
    · refine iff_of_true ?_ (.inl ⟨hnone, hlost⟩)
      rw [Tx.commit_of_active ha, Tx.sees, overlay_of_some (howed.pending ha k row hk hlost)]

/-- Creates an inventory row, tries again, ignores the error, and returns `Ok`. -/
def insistent : Closure Unit :=
  .call (.createInventory ⟨⟨7⟩, 5⟩) fun _ => .call (.createInventory ⟨⟨7⟩, 5⟩) fun _ => .drop (.ret (.ok ()))

def insistentJob (_ : Unit) : Job Unit := ⟨.ok insistent, .none⟩

theorem insistent_runs : (run (step (Makefile.config .sqlx) insistentJob) (init (Tables.empty.store .sqlx))
    (List.replicate 3 (.poll ()))).isSome := by decide +kernel

theorem insistent_commits :
    ((Option.get _ insistent_runs).step (Makefile.config .sqlx) insistentJob (.poll ())).isSome := by
  decide +kernel

theorem ok_durable_iff_insistent :
    (∀ k row, acknowledged .sqlx (callsOf (Makefile.config .sqlx) insistentJob (Tables.empty.store .sqlx)
        (List.replicate 3 (.poll ())) ()) k = some row → (Option.get _ insistent_commits).committed k = some row) ↔
      ∀ k row, acknowledged .sqlx (callsOf (Makefile.config .sqlx) insistentJob (Tables.empty.store .sqlx)
          (List.replicate 3 (.poll ())) ()) k = some row →
        ((∀ x ∈ callsOf (Makefile.config .sqlx) insistentJob (Tables.empty.store .sqlx) (List.replicate 3 (.poll ())) (),
            ¬ x.Failed .sqlx) ∧
          ¬ Lost (Makefile.config .sqlx) insistentJob (Tables.empty.store .sqlx) (List.replicate 3 (.poll ())) () k) ∨
        (Option.get _ insistent_runs).committed k = some row :=
  ok_durable_iff (Makefile.deployed .sqlx) (Option.some_get insistent_runs).symm
    (Option.some_get insistent_commits).symm (show _ = Phase.returned (.ok ()) none from rfl)

/-- The block returns `Ok`, its first write was acknowledged, and the row is not there. -/
theorem ok_not_durable : ∃ s : State Unit Unit, run (step (Makefile.config .sqlx) insistentJob)
      (init (Tables.empty.store .sqlx)) (List.replicate 4 (.poll ())) = some s ∧
    s.phase () = .returned (.ok ()) none ∧
    acknowledged .sqlx (exchanges (trace (Makefile.config .sqlx) insistentJob () (init (Tables.empty.store .sqlx))
      (List.replicate 4 (.poll ())))) (Backend.sqlx.inventoryKey ⟨7⟩) = some (inventoryRow ⟨7⟩ 5) ∧
    s.committed (Backend.sqlx.inventoryKey ⟨7⟩) = none := by
  have hruns : (run (step (Makefile.config .sqlx) insistentJob) (init (Tables.empty.store .sqlx))
      (List.replicate 4 (.poll ()))).isSome := by decide +kernel
  exact ⟨Option.get _ hruns, (Option.some_get hruns).symm, rfl, rfl, rfl⟩

end State

end TransactionManager
