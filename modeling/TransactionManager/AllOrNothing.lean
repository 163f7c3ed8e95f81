import TransactionManager.Serial
/-
# `create_order` alone: all or nothing, with an exact effect

One caller, any tables, any failures, cancelled anywhere or not. The tables are those before
the call or, once it has returned `Ok`, those with the order placed (`Placed`); and a call
that is over holds no transaction.
-/

namespace TransactionManager

open RowStore RustInt Run

/-- What `Ok(order)` stands for: the order is the command's under the generated id, its row is
new, the stock of its item is lower by exactly its quantity, and every other row is as before. -/
structure Placed (b : Backend) (call : CreateOrderCall) (t₀ : Tables) (order : Order) (db : Db) : Prop where
  id : order.id = call.orderId
  item : order.itemId = call.command.itemId
  quantity : (order.quantity.value.toNat : Int) = call.command.quantity.toInt
  fresh : t₀.orders call.orderId = none
  effect : ∃ (q q' : Int32) (t : Tables), db = t.store b ∧
    t₀.inventory call.command.itemId = some q ∧ q'.toInt = q.toInt - call.command.quantity.toInt ∧
    t.inventory = Function.update t₀.inventory call.command.itemId (some q') ∧
    t.orders = Function.update t₀.orders call.orderId (some ⟨call.command.itemId, call.command.quantity⟩) ∧
    t.elsewhere = t₀.elsewhere

/-- What a call without failures needs to be placed. -/
def Servable (call : CreateOrderCall) (t₀ : Tables) : Prop :=
  0 < call.command.quantity.toInt ∧
    (∃ q, t₀.inventory call.command.itemId = some q ∧ call.command.quantity.toInt ≤ q.toInt) ∧
    t₀.orders call.orderId = none

section
variable {call : CreateOrderCall} {t₀ : Tables} {q : Int32}

theorem Accepted.placed (h : Accepted call t₀ q) (b : Backend) :
    Placed b call t₀ call.order ((call.place t₀ q).store b) where
  id := rfl
  item := rfl
  quantity := CreateOrderCall.order_toNat h.begun.pos
  fresh := h.fresh
  effect := by
    have hpos := h.begun.pos
    have hle := h.covered.le
    have hq := q.toInt_lt
    exact ⟨q, q - call.qty, call.place t₀ q, rfl, h.covered.stock,
      toInt_sub_of_inI32 ⟨by omega, by omega⟩, rfl, rfl, rfl⟩

/-- Without failures, servable is accepted. -/
theorem accepted_iff_servable (hf : call.faults = .none) : (∃ q, Accepted call t₀ q) ↔ Servable call t₀ := by
  constructor
  · rintro ⟨q, h⟩
    exact ⟨h.begun.pos, ⟨q, h.covered.stock, h.covered.le⟩, h.fresh⟩
  · rintro ⟨hpos, ⟨q, hstock, hle⟩, hfresh⟩
    refine ⟨q, ⟨hpos, ?_, ?_⟩, ⟨hstock, hle⟩, hfresh, ?_⟩
    · rw [hf]; rfl
    · intro m _
      rw [hf]; rfl
    · rw [hf]; rfl

/-- The result of a call is `Ok` exactly when the call is accepted. -/
theorem outcome_ok_iff (cfg : Config) :
    (∃ order, (call.outcome cfg t₀).1 = .ok order) ↔ ∃ q, Accepted call t₀ q := by
  constructor
  · rintro ⟨order, ho⟩
    rcases CreateOrderCall.outcome_cases cfg call t₀ with ⟨q, ha, -⟩ | ⟨e, he⟩
    · exact ⟨q, ha⟩
    · rw [he] at ho; cases ho
  · rintro ⟨q, ha⟩
    exact ⟨call.order, by rw [ha.outcome cfg]⟩

end

theorem nodup_unit {ds : List Unit} (h : ds.Nodup) : ds = [] ∨ ds = [()] := by
  match ds with
  | [] => exact .inl rfl
  | [()] => exact .inr rfl
  | () :: () :: ds => simp at h

section
variable {cfg : Config} (hd : Deployed cfg.catalog cfg.backend) (call : CreateOrderCall) (t₀ : Tables)
  {as : List (Action Unit)} {s : State Unit Order}
include hd

/-- The states of a call alone: nothing has happened to the tables, or the call has its outcome
and, unless that is a refusal, has returned it. -/
theorem alone_cases
    (h : run (State.step cfg (createOrders cfg fun _ => call)) (.init (t₀.store cfg.backend)) as = some s) :
    (s.committed = t₀.store cfg.backend ∧ (s.phase ()).decided = none) ∨
      (s.committed = (call.outcome cfg t₀).2.store cfg.backend ∧
        ((s.phase ()).decided = some (call.outcome cfg t₀).1 ∨
          s.phase () = .dropped none ∧ ∃ e, (call.outcome cfg t₀).1 = .error e)) := by
  obtain ⟨-, ds, hserved⟩ := served_run hd h
  -- a place in `ds` can only be the first
  have hplace : ∀ r, Decided cfg (fun _ => call) t₀ [()] () r → r = (call.outcome cfg t₀).1 := by
    rintro r ⟨before, rest, hds, rfl⟩
    cases before with
    | nil => rfl
    | cons u before => simp at hds
  rcases nodup_unit hserved.nodup with rfl | rfl
  · refine .inl ⟨hserved.committed, ?_⟩
    cases hdec : (s.phase ()).decided with
    | none => rfl
    | some r =>
      obtain ⟨before, rest, hds, -⟩ := hserved.result () r hdec
      simp at hds
  · refine .inr ⟨hserved.committed, ?_⟩
    rcases hserved.decided () (List.mem_singleton.2 rfl) with hdec | ⟨hdrop, e, he⟩
    · left
      obtain ⟨r, hr⟩ := Option.ne_none_iff_exists'.1 hdec
      rw [hr, hplace r (hserved.result () r hr)]
    · exact .inr ⟨hdrop, e, (hplace _ he).symm⟩

/-- A call that is over holds no transaction. -/
theorem alone_released
    (h : run (State.step cfg (createOrders cfg fun _ => call)) (.init (t₀.store cfg.backend)) as = some s)
    (hover : (s.phase ()).live = false) : s.openTx () = none := by
  obtain ⟨-, ds, hserved⟩ := served_run hd h
  obtain ⟨g, hg, -⟩ := hserved.stage ()
  unfold State.openTx
  rw [hg] at hover ⊢
  cases g with
  | returned | dropped => rfl
  | created | finding | updating | creating | committing | rollingBack => cases hover

/-- The result of a call alone is its outcome. -/
theorem alone_result
    (h : run (State.step cfg (createOrders cfg fun _ => call)) (.init (t₀.store cfg.backend)) as = some s)
    {r : Except Error Order} {escaped : Option Context} (hr : s.phase () = .returned r escaped) :
    escaped = none ∧ r = (call.outcome cfg t₀).1 ∧ s.committed = (call.outcome cfg t₀).2.store cfg.backend := by
  have hesc : escaped = none := by
    have := alone_released hd call t₀ h (by rw [hr]; rfl)
    cases escaped with
    | none => rfl
    | some ctx => simp [State.openTx, hr, Phase.openTx] at this
  subst hesc
  rcases alone_cases hd call t₀ h with ⟨-, hn⟩ | ⟨hdb, hdec | ⟨hdrop, -⟩⟩
  · rw [hr] at hn; cases hn
  · rw [hr] at hdec
    cases hdec
    exact ⟨rfl, rfl, hdb⟩
  · rw [hr] at hdrop; cases hdrop

/-- **All or nothing.** In every state that a call alone can reach, a returned `Ok` has its exact
effect, everything else has none, and a finished call holds no transaction; left alone the call
returns; and without failures it returns `Ok` exactly when it is servable. -/
theorem createOrder_all_or_nothing :
    (∀ as s, run (State.step cfg (createOrders cfg fun _ : Unit => call)) (.init (t₀.store cfg.backend)) as =
        some s →
      (∀ order escaped, s.phase () = .returned (.ok order) escaped →
        Placed cfg.backend call t₀ order s.committed) ∧
      ((∀ order escaped, s.phase () ≠ .returned (.ok order) escaped) → s.committed = t₀.store cfg.backend) ∧
      ((s.phase ()).live = false → s.openTx () = none) ∧
      (call.faults = .none → ∀ r escaped, s.phase () = .returned r escaped →
        ((∃ order, r = .ok order) ↔ Servable call t₀))) ∧
    ∃ n s r, run (State.step cfg (createOrders cfg fun _ : Unit => call)) (.init (t₀.store cfg.backend))
      (List.replicate n (.poll ())) = some s ∧ s.phase () = .returned r none := by
  constructor
  · intro as s h
    refine ⟨?_, ?_, alone_released hd call t₀ h, ?_⟩
    · intro order escaped hr
      obtain ⟨-, ho, hdb⟩ := alone_result hd call t₀ h hr
      rcases CreateOrderCall.outcome_cases cfg call t₀ with ⟨q, ha, hok⟩ | ⟨e, he⟩
      · rw [hok] at ho hdb
        cases ho
        rw [hdb]
        exact ha.placed cfg.backend
      · rw [he] at ho; cases ho
    · intro hnot
      rcases alone_cases hd call t₀ h with ⟨hdb, -⟩ | ⟨hdb, hdec⟩
      · exact hdb
      · rcases CreateOrderCall.outcome_cases cfg call t₀ with ⟨q, ha, hok⟩ | ⟨e, he⟩
        · -- the order is placed, so the call has returned it
          rw [hok] at hdec
          rcases hdec with hdec | ⟨-, e, he⟩
          · generalize hph : s.phase () = p at hdec hnot
            match p with
            | .returned r none =>
              simp only [Phase.decided, Option.some.injEq] at hdec
              exact absurd (by rw [hdec]) (hnot call.order none)
            | .rollingBack e tx => cases hdec
          · cases he
        · rw [hdb, he]
    · intro hf r escaped hr
      obtain ⟨-, rfl, -⟩ := alone_result hd call t₀ h hr
      rw [outcome_ok_iff, accepted_iff_servable hf]
  · have halone := runAlone_createOrder hd call t₀
    obtain ⟨n, hn⟩ := State.run_of_steps cfg (createOrders cfg fun _ : Unit => call) (i := ())
      (s := .init (t₀.store cfg.backend)) (fun j hj => absurd rfl hj) (steps_runAlone cfg _ _)
    refine ⟨n, _, (call.outcome cfg t₀).1, hn, ?_⟩
    rw [State.goto_phase_self]
    exact congrArg Prod.fst halone

end

theorem rival_alone_runs :
    (run (State.step (Makefile.config .sqlx) (createOrders (Makefile.config .sqlx) fun _ => rivals 0))
      (.init (stocked.store .sqlx)) (List.replicate 5 (.poll ()))).isSome := by decide +kernel

theorem createOrder_all_or_nothing_rival :
    Placed .sqlx (rivals 0) stocked (rivals 0).order (Option.get _ rival_alone_runs).committed ∧
      (Option.get _ rival_alone_runs).openTx () = none ∧
      ((∃ order, Except.ok (rivals 0).order = (.ok order : Except Error Order)) ↔ Servable (rivals 0) stocked) := by
  have h := (createOrder_all_or_nothing (Makefile.deployed .sqlx) (rivals 0) stocked).1 _ _
    (Option.some_get rival_alone_runs).symm
  exact ⟨h.1 _ none rfl, h.2.2.1 rfl, h.2.2.2 rfl _ none rfl⟩

end TransactionManager
