import TransactionManager.Serial
import Mathlib.Algebra.BigOperators.Group.Finset.Piecewise
import Mathlib.Algebra.Order.BigOperators.Group.Finset
/-
# Stock conservation

What the committed tables owe to the first ones, whatever the schedule: stock and new orders
of an item add up to its first stock (`Conserved`). One decided call keeps it
(`Conserved.outcome`), so `served_run` gives it for every reachable state.
-/

namespace TransactionManager

open RowStore RustInt Run

variable {ι : Type} [Fintype ι]

/-- The quantity an order row takes of an item. -/
def OrderRow.taken (x : ItemId) : Option OrderRow → Int
  | some o => if o.itemId = x then o.quantity.toInt else 0
  | none => 0

/-- The ids the calls may have added to the orders of `t₀`. -/
def newIds (calls : ι → CreateOrderCall) (t₀ : Tables) : Finset OrderId :=
  (Finset.univ.image fun i => (calls i).orderId).filter fun id => t₀.orders id = none

/-- The quantity that the orders added since `t₀` take of an item. -/
def ordered (calls : ι → CreateOrderCall) (t₀ t : Tables) (x : ItemId) : Int :=
  ∑ id ∈ newIds calls t₀, OrderRow.taken x (t.orders id)

structure Conserved (calls : ι → CreateOrderCall) (t₀ t : Tables) : Prop where
  /-- Stock and new orders add up to the first stock. -/
  stock : ∀ x q₀, t₀.inventory x = some q₀ → ∃ q, t.inventory x = some q ∧
    q.toInt + ordered calls t₀ t x = q₀.toInt ∧ 0 ≤ q.toInt ∧ q.toInt ≤ q₀.toInt
  /-- No inventory row appears. -/
  absent : ∀ x, t₀.inventory x = none → t.inventory x = none
  /-- No order row of before is changed or removed. -/
  kept : ∀ id o, t₀.orders id = some o → t.orders id = some o
  /-- An order row added is of one of the calls, with a positive `i32` quantity of an item that has
  a row. -/
  added : ∀ id o, t₀.orders id = none → t.orders id = some o →
    1 ≤ o.quantity.toInt ∧ o.quantity.toInt ≤ 2 ^ 31 - 1 ∧ t.inventory o.itemId ≠ none ∧ id ∈ newIds calls t₀

section
variable {calls : ι → CreateOrderCall} {t₀ t : Tables}

theorem ordered_self (calls : ι → CreateOrderCall) (t₀ : Tables) (x : ItemId) : ordered calls t₀ t₀ x = 0 := by
  refine Finset.sum_eq_zero fun id hid => ?_
  simp [(Finset.mem_filter.1 hid).2, OrderRow.taken]

/-- An order put under a new, unused id takes its quantity of its item. -/
theorem ordered_addOrder {id : OrderId} (hid : id ∈ newIds calls t₀) (hfresh : t.orders id = none)
    (o : OrderRow) (x : ItemId) :
    ordered calls t₀ (t.addOrder id o) x = ordered calls t₀ t x + OrderRow.taken x (some o) := by
  unfold ordered
  rw [← Finset.add_sum_erase _ _ hid, ← Finset.add_sum_erase _ (fun j => OrderRow.taken x (t.orders j)) hid]
  have hrest : ∀ j ∈ (newIds calls t₀).erase id,
      OrderRow.taken x ((t.addOrder id o).orders j) = OrderRow.taken x (t.orders j) := fun j hj => by
    rw [Tables.addOrder_ne t o (Finset.ne_of_mem_erase hj)]
  rw [Finset.sum_congr rfl hrest]
  simp only [Tables.addOrder_self, hfresh]
  simp only [OrderRow.taken]
  omega

theorem Conserved.init (h0 : ∀ x q, t₀.inventory x = some q → 0 ≤ q.toInt) : Conserved calls t₀ t₀ where
  stock x q₀ hq := ⟨q₀, hq, by rw [ordered_self]; omega, h0 x q₀ hq, Int.le_refl _⟩
  absent _ h := h
  kept _ _ h := h
  added id o hn ho := by rw [hn] at ho; cases ho

/-- A placed call moves its quantity from the stock to the orders. -/
theorem Conserved.place (h : Conserved calls t₀ t) {i : ι} {q : Int32} (ha : Accepted (calls i) t q) :
    Conserved calls t₀ ((calls i).place t q) := by
  have hpos := ha.begun.pos
  have hle := ha.covered.le
  have hq := q.toInt_lt
  have hsub : (q - (calls i).qty).toInt = q.toInt - (calls i).qty.toInt :=
    toInt_sub_of_inI32 ⟨by omega, by omega⟩
  have hid : (calls i).orderId ∈ newIds calls t₀ := by
    refine Finset.mem_filter.2 ⟨Finset.mem_image_of_mem _ (Finset.mem_univ i), ?_⟩
    cases ho : t₀.orders (calls i).orderId with
    | none => rfl
    | some o =>
      have := h.kept _ o ho
      rw [ha.fresh] at this
      cases this
  have hfresh : (t.setStock (calls i).itemId (q - (calls i).qty)).orders (calls i).orderId = none := ha.fresh
  constructor
  · intro x q₀ hx
    obtain ⟨q', hq', hsum, h0, hle'⟩ := h.stock x q₀ hx
    simp only [CreateOrderCall.place, Tables.addOrder_inventory, ordered_addOrder hid hfresh]
    have hsame : ordered calls t₀ (t.setStock (calls i).itemId (q - (calls i).qty)) x = ordered calls t₀ t x := rfl
    rw [hsame]
    by_cases hxi : x = (calls i).itemId
    · subst hxi
      rw [ha.covered.stock] at hq'
      cases hq'
      refine ⟨q - (calls i).qty, by simp, ?_, by omega, by omega⟩
      simp only [OrderRow.taken, if_true]
      omega
    · refine ⟨q', by rw [Tables.setStock_ne _ _ hxi]; exact hq', ?_, h0, hle'⟩
      simp only [OrderRow.taken, if_neg (Ne.symm hxi)]
      omega
  · intro x hx
    have hn := h.absent x hx
    have hxi : x ≠ (calls i).itemId := by
      rintro rfl
      rw [ha.covered.stock] at hn
      cases hn
    simp only [CreateOrderCall.place, Tables.addOrder_inventory, Tables.setStock_ne _ _ hxi, hn]
  · intro id o ho
    have hk := h.kept id o ho
    have hne : id ≠ (calls i).orderId := by
      rintro rfl
      rw [ha.fresh] at hk
      cases hk
    rw [CreateOrderCall.place, Tables.addOrder_ne _ _ hne]
    exact hk
  · intro id o hn ho
    have hrow : ∀ x, t.inventory x ≠ none → ((calls i).place t q).inventory x ≠ none := by
      intro x hx
      by_cases hxi : x = (calls i).itemId
      · subst hxi; simp [CreateOrderCall.place]
      · simpa [CreateOrderCall.place, Tables.setStock_ne _ _ hxi] using hx
    by_cases hne : id = (calls i).orderId
    · subst hne
      simp only [CreateOrderCall.place, Tables.addOrder_self, Option.some.injEq] at ho
      subst ho
      have hmax := (calls i).qty.toInt_lt
      refine ⟨?_, ?_, hrow _ (by rw [ha.covered.stock]; simp), hid⟩
      · show 1 ≤ (calls i).qty.toInt
        omega
      · show (calls i).qty.toInt ≤ 2 ^ 31 - 1
        omega
    · rw [CreateOrderCall.place, Tables.addOrder_ne _ _ hne] at ho
      obtain ⟨h1, hmax, hx, hmem⟩ := h.added id o hn ho
      exact ⟨h1, hmax, hrow _ hx, hmem⟩

/-- A decided call keeps the balance. -/
theorem Conserved.outcome (h : Conserved calls t₀ t) (cfg : Config) (i : ι) :
    Conserved calls t₀ ((calls i).outcome cfg t).2 := by
  rcases CreateOrderCall.outcome_cases cfg (calls i) t with ⟨q, ha, ho⟩ | ⟨e, ho⟩
  · rw [ho]; exact h.place ha
  · rw [ho]; exact h

/-- Any number of decided calls keep the balance. -/
theorem Conserved.after (h : Conserved calls t₀ t) (cfg : Config) :
    ∀ ds : List ι, Conserved calls t₀ (after cfg calls t ds) := by
  intro ds
  induction ds using List.reverseRecOn with
  | nil => exact h
  | append_singleton ds i ih =>
    rw [after_concat]
    exact ih.outcome cfg i

/-- **Stock conservation.** In every reachable state of concurrent `create_order` calls the
committed tables are a `Conserved` successor of the first ones. -/
theorem stock_conserved [DecidableEq ι] {cfg : Config} (hd : Deployed cfg.catalog cfg.backend)
    (h0 : ∀ x q, t₀.inventory x = some q → 0 ≤ q.toInt) {as : List (Action ι)} {s : State ι Order}
    (h : run (State.step cfg (createOrders cfg calls)) (.init (t₀.store cfg.backend)) as = some s) :
    ∃ t : Tables, s.committed = t.store cfg.backend ∧ Conserved calls t₀ t := by
  obtain ⟨-, ds, hserved⟩ := served_run hd h
  exact ⟨after cfg calls t₀ ds, hserved.committed, (Conserved.init h0).after cfg ds⟩

end

theorem stock_conserved_rivalry : ∃ t : Tables,
    (Option.get _ rivalry_runs).committed = t.store .sqlx ∧ Conserved rivals stocked t :=
  stock_conserved (Makefile.deployed .sqlx)
    (fun x q hq => by
      simp only [stocked] at hq
      split at hq <;> cases hq
      decide)
    (Option.some_get rivalry_runs).symm

end TransactionManager
