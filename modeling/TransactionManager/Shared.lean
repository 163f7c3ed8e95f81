import TransactionManager.Lib.Guarded
import TransactionManager.Readable
import TransactionManager.Serial
/-
# Repository calls that share one context

Inside one closure any number of repository calls run at a time on the same `Arc<Mutex<DbContext>>`, as
under `tokio::join!`. Every method of the two stacks is one task of `Guarded`: it locks the context it
was handed a `&Arc` of, sends its statement, receives the outcome, decodes it and returns, by `Ok` or by
`?`, with its guard dropped.

| here | there |
| --- | --- |
| `SharedCall` | a call of one of the six methods, with the failure of its statement, if any |
| `protocol`   | `sqlx_impl/src/inventory_repository.rs:20-103`, `order_repository.rs:19-62`, and the same methods of `sea_orm_impl` |
| `wholeCall`  | `callRepo`, the call made alone |

The server runs a statement over the rows committed at that moment, when no other transaction makes it
wait (`Surroundings`). Before a statement is sent the driver reads the answer to one that a dropped call
has left on the connection.
-/

namespace TransactionManager

open RowStore Run Guarded

/-- A repository call, and the failure injected into its statement. -/
structure SharedCall where
  call : RepoCall
  fault : Option PgError

/-- What the server runs a statement in: what the other transactions hold, and the committed rows. -/
structure Surroundings where
  others : Others
  committed : Db

variable {ι : Type}

/-- The repository methods as tasks on one transaction. -/
def protocol (cfg : Config) (calls : ι → SharedCall) :
    Protocol ι Surroundings PgTx (Except PgError SqlResult) Exchange where
  exec i env tx :=
    if callWaits cfg env.others env.committed tx (calls i).fault (calls i).call then none
    else some ((cfg.backend.method (calls i).call).stmt.exec cfg.catalog cfg.freeOnAbort env.committed tx
      (calls i).fault)
  decode i answer := ⟨(calls i).call, (cfg.backend.method (calls i).call).decode answer⟩

/-- What a whole call makes of the transaction. -/
def wholeCall (cfg : Config) (calls : ι → SharedCall) (tx : PgTx) (e : ι × Surroundings) : Option PgTx :=
  if callWaits cfg e.2.others e.2.committed tx (calls e.1).fault (calls e.1).call then none
  else some (callRepo cfg e.2.committed tx (calls e.1).fault (calls e.1).call).2

theorem protocol_whole (cfg : Config) (calls : ι → SharedCall) :
    (protocol cfg calls).whole = wholeCall cfg calls := by
  funext tx e
  simp only [Protocol.whole, protocol, wholeCall]
  split <;> rfl

/-- With nobody else on the server no statement waits. -/
theorem callWaits_none (cfg : Config) (db : Db) (tx : PgTx) (fault : Option PgError) (c : RepoCall) :
    callWaits cfg .none db tx fault c = false := by
  unfold callWaits Stmt.waits
  cases fault with
  | some e => rfl
  | none =>
    simp only [Bool.and_eq_false_iff]
    right
    split
    · rfl
    · rename_i a _
      cases a <;> simp [Access.waits, Others.none]

/-- The calls whose statements were sent, one whole call after the other in the order in which they
locked the context: `ran` are those the server has run, and the transaction and the results are theirs. A
statement still on its way is the last, and `settled` is the transaction once the server has run it. -/
structure OneByOne (cfg : Config) (calls : ι → SharedCall) (tx₀ : PgTx) (as : List (Guarded.Action ι Surroundings))
    (s : Guarded.State ι PgTx (Except PgError SqlResult) Exchange) (ran : List (ι × Surroundings)) : Prop where
  nodup : (acquired as).Nodup
  order : (sends as).Sublist (acquired as)
  served : ran.map Prod.fst ++ s.requests = sends as
  surroundings : ran.map Prod.snd = serves as
  tx : run (wholeCall cfg calls) tx₀ ran = some s.resource
  settled : ∀ env tx, run (wholeCall cfg calls) s.resource (s.requests.map fun i => (i, env)) = some tx →
    run (wholeCall cfg calls) tx₀ (ran ++ s.requests.map fun i => (i, env)) = some tx
  result : ∀ i x, s.point i = .done x → ∃ before env rest tx, ran = before ++ (i, env) :: rest ∧
    run (wholeCall cfg calls) tx₀ before = some tx ∧
    x = ⟨(calls i).call, (callRepo cfg env.committed tx (calls i).fault (calls i).call).1⟩

section
variable {cfg : Config} {calls : ι → SharedCall} {tx₀ : PgTx} {refs : Nat}
  {as : List (Guarded.Action ι Surroundings)} {s : Guarded.State ι PgTx (Except PgError SqlResult) Exchange}

/-- Over the same committed rows whole calls are `callAll`. -/
theorem wholeCalls_callAll {db : Db} : ∀ {ran : List (ι × Surroundings)} {tx tx' : PgTx},
    (∀ e ∈ ran, e.2.committed = db) → run (wholeCall cfg calls) tx ran = some tx' →
      (callAll cfg db tx (ran.map fun e => ((calls e.1).fault, (calls e.1).call))).2 = tx'
  | [], tx, tx', _, h => by
    simp only [run_nil, Option.some.injEq] at h
    exact h
  | e :: ran, tx, tx', hdb, h => by
    obtain ⟨m, hm, hr⟩ := run_cons_some h
    have he : e.2.committed = db := hdb e List.mem_cons_self
    simp only [wholeCall, he] at hm
    split at hm
    · cases hm
    · cases hm
      have ih := wholeCalls_callAll (fun e' he' => hdb e' (List.mem_cons_of_mem _ he')) hr
      exact ih

/-- While nobody else commits, calls that share a context leave the transaction as the calls that were
sent leave it one after the other. -/
theorem OneByOne.callAll {ran : List (ι × Surroundings)} (h : OneByOne cfg calls tx₀ as s ran) {db : Db}
    (hdb : ∀ env ∈ serves as, env.committed = db) (hdone : s.requests = []) :
    (callAll cfg db tx₀ ((sends as).map fun i => ((calls i).fault, (calls i).call))).2 = s.resource := by
  have hsends : sends as = ran.map Prod.fst := by rw [← h.served, hdone, List.append_nil]
  have henvs : ∀ e ∈ ran, e.2.committed = db := fun e he =>
    hdb e.2 (h.surroundings ▸ List.mem_map_of_mem he)
  rw [hsends, List.map_map]
  exact wholeCalls_callAll henvs h.tx

variable [DecidableEq ι]

theorem oneByOne_run (h : run (Guarded.State.step (protocol cfg calls)) (.init tx₀ refs) as = some s) :
    ∃ ran, OneByOne cfg calls tx₀ as s ran := by
  obtain ⟨-, hordered, ran, hlinear⟩ := Guarded.State.linear_run h
  have hwhole := protocol_whole cfg calls
  have htx : run (wholeCall cfg calls) tx₀ ran = some s.resource := hwhole ▸ hlinear.resource
  refine ⟨ran, hordered.nodup, hordered.sublist, hlinear.served, hlinear.envs, htx, fun env tx hrest => ?_, ?_⟩
  · rw [run_append, htx]
    exact hrest
  intro i x hx
  obtain ⟨b, ⟨before, env, rest, tx, tx', hran, hbefore, hexec⟩, rfl⟩ := hlinear.decoded i x (.inr hx)
  refine ⟨before, env, rest, tx, hran, hwhole ▸ hbefore, ?_⟩
  simp only [protocol] at hexec
  split at hexec
  · cases hexec
  · simp only [protocol, callRepo, Option.some.inj hexec]

/-- **Calls that share a context are serialised.** Of any repository calls at once on one context, in
every schedule: at most one statement is in flight; the transaction and the results are those of whole
calls one after the other; an unfinished call never leaves them stuck, unless another transaction
makes a statement wait; and when all are finished the context is unlocked and as often referenced
as before. -/
theorem repoCalls_serialised (h : run (Guarded.State.step (protocol cfg calls)) (.init tx₀ refs) as = some s) :
    s.inFlight.length ≤ 1 ∧
    (∃ ran, OneByOne cfg calls tx₀ as s ran) ∧
    (∀ i, (s.point i).finished = false → ∀ db, ∃ a s', (∀ j, a ≠ .drop j) ∧
      (∀ env, a = .serve env → env = ⟨.none, db⟩) ∧ s.step (protocol cfg calls) a = some s') ∧
    ((∀ i, (s.point i).finished = true) → s.holder = none ∧ s.refs = refs) := by
  obtain ⟨hsafe, -⟩ := Guarded.State.linear_run h
  refine ⟨hsafe.single, oneByOne_run h, fun i hi db => ?_, fun hdone => ⟨hsafe.free hdone, Guarded.State.refs_run h⟩⟩
  refine hsafe.exists_step (fun j => ?_) hi
  simp [protocol, callWaits_none]

end

/-- A locked read and an update of the same row, joined. -/
def joinedCalls : Bool → SharedCall
  | false => ⟨.findByItemIdForUpdate ⟨7⟩, none⟩
  | true => ⟨.updateInventory ⟨⟨7⟩, 2⟩, none⟩

def quiet : Surroundings := ⟨.none, stocked.store .sqlx⟩

/-- The read is dropped with its statement on the way; the update finds the answer on the connection. -/
def joined : List (Guarded.Action Bool Surroundings) :=
  [.lock false, .send false, .drop false, .lock true, .serve quiet, .drain true, .send true, .serve quiet,
    .receive true, .decode true, .unlock true]

theorem joined_runs : (run (Guarded.State.step (protocol (Makefile.config .sqlx) joinedCalls))
    (.init .fresh 2) joined).isSome := by decide +kernel

theorem repoCalls_serialised_joined :
    (Option.get _ joined_runs).inFlight.length ≤ 1 ∧
    (∃ ran, OneByOne (Makefile.config .sqlx) joinedCalls .fresh joined (Option.get _ joined_runs) ran) ∧
    (Option.get _ joined_runs).holder = none ∧ (Option.get _ joined_runs).refs = 2 := by
  obtain ⟨hsingle, hran, -, hdone⟩ := repoCalls_serialised (Option.some_get joined_runs).symm
  refine ⟨hsingle, hran, hdone fun i => ?_⟩
  cases i with
  | false => rfl
  | true => rfl

end TransactionManager
