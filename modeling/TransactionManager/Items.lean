import TransactionManager.Serial
/-
# Items do not interfere

A `create_order` call reads and writes one inventory row, that of its item, and inserts one order of
it. So what a sequence of calls does for an item is what its subsequence of calls for that item does
(`answers_filter`), whatever else is in the sequence and in the database; and neighbouring calls for
different items can be swapped (`outcome_comm`).
-/

namespace TransactionManager

open RowStore RustInt

/-! ## The part of the tables that is about one item -/

namespace Tables

/-- The orders of an item. -/
def ordersOf (t : Tables) (x : ItemId) (id : OrderId) : Option OrderRow :=
  (t.orders id).filter fun o => o.itemId = x

/-- Two databases that are the same as far as `x` is concerned. -/
structure AgreeOn (x : ItemId) (t t' : Tables) : Prop where
  stock : t.inventory x = t'.inventory x
  orders : ∀ id, t.ordersOf x id = t'.ordersOf x id

variable {x : ItemId} {t t' u : Tables}

theorem AgreeOn.refl (x : ItemId) (t : Tables) : AgreeOn x t t := ⟨rfl, fun _ => rfl⟩

theorem AgreeOn.symm (h : AgreeOn x t t') : AgreeOn x t' t := ⟨h.stock.symm, fun id => (h.orders id).symm⟩

theorem AgreeOn.trans (h : AgreeOn x t t') (h' : AgreeOn x t' u) : AgreeOn x t u :=
  ⟨h.stock.trans h'.stock, fun id => (h.orders id).trans (h'.orders id)⟩

theorem ordersOf_addOrder (t : Tables) (x : ItemId) (id : OrderId) (o : OrderRow) (j : OrderId) :
    (t.addOrder id o).ordersOf x j = if j = id then (some o).filter fun o => o.itemId = x else t.ordersOf x j := by
  unfold ordersOf
  by_cases hj : j = id
  · subst hj
    rw [addOrder_self, if_pos rfl]
  · rw [addOrder_ne t o hj, if_neg hj]

end Tables

/-! ## One call -/

section
variable (cfg : Config) {call : CreateOrderCall} {t t' : Tables}

/-- A call adds no order but its own. -/
theorem outcome_orders_ne {id : OrderId} (h : id ≠ call.orderId) :
    (call.outcome cfg t).2.orders id = t.orders id := by
  rcases CreateOrderCall.outcome_cases cfg call t with ⟨q, -, ho⟩ | ⟨e, he⟩
  · rw [ho, CreateOrderCall.place, Tables.addOrder_ne _ _ h, Tables.setStock_orders]
  · rw [he]

/-- A call reads the stock of its item and looks for a row under its order id, and nothing else. -/
theorem outcome_result_congr (hi : t.inventory call.itemId = t'.inventory call.itemId)
    (ho : t.orders call.orderId = t'.orders call.orderId) : (call.outcome cfg t).1 = (call.outcome cfg t').1 := by
  unfold CreateOrderCall.outcome CreateOrderCall.settle
  rw [hi, ho]
  repeat' split
  all_goals rfl

/-- So on two databases that agree there it is placed over the same stock or refused with the same
error. -/
theorem outcome_congr (hi : t.inventory call.itemId = t'.inventory call.itemId)
    (ho : t.orders call.orderId = t'.orders call.orderId) :
    (∃ q, t.orders call.orderId = none ∧ call.outcome cfg t = (.ok call.order, call.place t q) ∧
      call.outcome cfg t' = (.ok call.order, call.place t' q)) ∨
    ∃ e, call.outcome cfg t = (.error e, t) ∧ call.outcome cfg t' = (.error e, t') := by
  have hr := outcome_result_congr cfg hi ho
  rcases CreateOrderCall.outcome_cases cfg call t with ⟨q, ha, h⟩ | ⟨e, h⟩
  · rcases CreateOrderCall.outcome_cases cfg call t' with ⟨q', ha', h'⟩ | ⟨e', h'⟩
    · obtain rfl : q = q' := by
        have hs := ha.covered.stock
        rw [hi, ha'.covered.stock] at hs
        exact (Option.some.inj hs).symm
      exact .inl ⟨q, ha.fresh, h, h'⟩
    · rw [h, h'] at hr
      cases hr
  · rcases CreateOrderCall.outcome_cases cfg call t' with ⟨q', ha', h'⟩ | ⟨e', h'⟩
    · rw [h, h'] at hr
      cases hr
    · rw [h, h'] at hr
      cases hr
      exact .inr ⟨e, h, h'⟩

/-- A call for another item does nothing to this one. -/
theorem outcome_other {x : ItemId} (h : call.itemId ≠ x) : (call.outcome cfg t).2.AgreeOn x t := by
  rcases CreateOrderCall.outcome_cases cfg call t with ⟨q, ha, ho⟩ | ⟨e, he⟩
  · rw [ho]
    constructor
    · rw [CreateOrderCall.place, Tables.addOrder_inventory, Tables.setStock_ne _ _ (Ne.symm h)]
    · intro id
      rw [CreateOrderCall.place, Tables.ordersOf_addOrder]
      split
      · -- under the id of the call there was no order, and now there is one of its own item
        rename_i hid
        subst hid
        simp [Tables.ordersOf, ha.fresh, Option.filter, h]
      · rfl
  · rw [he]
    exact .refl x t

/-- A call for the item does the same on databases that agree on the item. -/
theorem outcome_same {x : ItemId} (hx : call.itemId = x) (h : t.AgreeOn x t')
    (hfresh : t.orders call.orderId = none) (hfresh' : t'.orders call.orderId = none) :
    (call.outcome cfg t).1 = (call.outcome cfg t').1 ∧
      (call.outcome cfg t).2.AgreeOn x (call.outcome cfg t').2 := by
  subst hx
  rcases outcome_congr cfg h.stock (hfresh.trans hfresh'.symm) with ⟨q, -, ho, ho'⟩ | ⟨e, ho, ho'⟩
  · rw [ho, ho']
    refine ⟨rfl, ?_, ?_⟩
    · simp [CreateOrderCall.place]
    · intro id
      simp only [CreateOrderCall.place, Tables.ordersOf_addOrder]
      split
      · rfl
      · exact h.orders id
  · rw [ho, ho']
    exact ⟨rfl, h⟩

theorem place_comm {a b : CreateOrderCall} (hitem : a.itemId ≠ b.itemId) (hid : a.orderId ≠ b.orderId)
    (t : Tables) (q q' : Int32) : a.place (b.place t q') q = b.place (a.place t q) q' := by
  simp only [CreateOrderCall.place, Tables.setStock, Tables.addOrder, Function.update_comm hitem,
    Function.update_comm hid]

/-- Calls for different items, under different ids, can be swapped. -/
theorem outcome_comm {a b : CreateOrderCall} (hitem : a.itemId ≠ b.itemId) (hid : a.orderId ≠ b.orderId) :
    (a.outcome cfg (b.outcome cfg t).2).1 = (a.outcome cfg t).1 ∧
      (b.outcome cfg (a.outcome cfg t).2).1 = (b.outcome cfg t).1 ∧
      (a.outcome cfg (b.outcome cfg t).2).2 = (b.outcome cfg (a.outcome cfg t).2).2 := by
  have ha := outcome_congr cfg (outcome_other cfg (t := t) (Ne.symm hitem)).stock
    (outcome_orders_ne cfg hid)
  have hb := outcome_congr cfg (outcome_other cfg (t := t) hitem).stock
    (outcome_orders_ne cfg (Ne.symm hid))
  rcases ha with ⟨q, -, hab, ha⟩ | ⟨e, hab, ha⟩
  · rcases hb with ⟨q', -, hba, hb⟩ | ⟨e', hba, hb⟩
    · rw [hab, hba, ha, hb]
      exact ⟨rfl, rfl, place_comm hitem hid t q q'⟩
    · rw [hab, hba, ha, hb]
      exact ⟨rfl, rfl, rfl⟩
  · rcases hb with ⟨q', -, hba, hb⟩ | ⟨e', hba, hb⟩
    · rw [hab, hba, ha, hb]
      exact ⟨rfl, rfl, rfl⟩
    · rw [hab, hba, ha, hb]
      exact ⟨rfl, rfl, rfl⟩

end

/-! ## Sequences of calls -/

/-- Commands run one after the other: what each of them returned, and the committed rows. -/
def placeEach (cfg : Config) : List CreateOrderCall → Db → List (CreateOrderCall × Phase Order) × Db
  | [], db => ([], db)
  | call :: calls, db =>
    let r := (createOrder cfg.profile call).runAlone cfg db
    let rest := placeEach cfg calls r.2
    ((call, r.1) :: rest.1, rest.2)

/-- What each call of a sequence returns, from the tables before it. -/
def answers (cfg : Config) : Tables → List CreateOrderCall → List (CreateOrderCall × Phase Order)
  | _, [] => []
  | t, call :: calls => (call, .returned (call.outcome cfg t).1 none) :: answers cfg (call.outcome cfg t).2 calls

section
variable {cfg : Config}

theorem placeEach_eq (hd : Deployed cfg.catalog cfg.backend) (calls : List CreateOrderCall) (t : Tables) :
    placeEach cfg calls (t.store cfg.backend) = (answers cfg t calls, (after cfg id t calls).store cfg.backend) := by
  induction calls generalizing t with
  | nil => rfl
  | cons call calls ih =>
    simp only [placeEach, runAlone_createOrder hd, ih]
    rfl

/-- Fresh ids: no two calls have the same, and none is in the database. -/
structure FreshIds (calls : List CreateOrderCall) (t : Tables) : Prop where
  nodup : (calls.map (·.orderId)).Nodup
  unused : ∀ call ∈ calls, t.orders call.orderId = none

theorem FreshIds.ne {call call' : CreateOrderCall} {calls : List CreateOrderCall} {t : Tables}
    (h : FreshIds (call :: calls) t) (hmem : call' ∈ calls) : call'.orderId ≠ call.orderId :=
  fun hid => (List.nodup_cons.1 h.nodup).1 (List.mem_map.2 ⟨call', hmem, hid⟩)

theorem FreshIds.tail {call : CreateOrderCall} {calls : List CreateOrderCall} {t : Tables}
    (h : FreshIds (call :: calls) t) : FreshIds calls (call.outcome cfg t).2 := by
  refine ⟨(List.nodup_cons.1 h.nodup).2, fun call' hmem => ?_⟩
  rw [outcome_orders_ne cfg (h.ne hmem)]
  exact h.unused call' (List.mem_cons_of_mem call hmem)

variable (cfg) in
/-- **Unwinding.** What a sequence does for an item is what its calls for the item do by themselves,
on any database that agrees on the item. -/
theorem answers_filter {x : ItemId} {calls : List CreateOrderCall} {t t' : Tables} (h : t.AgreeOn x t')
    (hids : FreshIds calls t) (hunused : ∀ call ∈ calls, call.itemId = x → t'.orders call.orderId = none) :
    (answers cfg t calls).filter (fun r => r.1.itemId = x) = answers cfg t' (calls.filter fun c => c.itemId = x) ∧
      (after cfg id t calls).AgreeOn x (after cfg id t' (calls.filter fun c => c.itemId = x)) := by
  induction calls generalizing t t' with
  | nil => exact ⟨rfl, h⟩
  | cons call calls ih =>
    have hunused' : ∀ c ∈ calls, c.itemId = x → t'.orders c.orderId = none :=
      fun c hc => hunused c (List.mem_cons_of_mem call hc)
    by_cases hx : call.itemId = x
    · obtain ⟨hr, hagree⟩ := outcome_same cfg hx h (hids.unused call List.mem_cons_self)
        (hunused call List.mem_cons_self hx)
      obtain ⟨ih, ih'⟩ := ih hagree hids.tail fun c hc hcx => by
        rw [outcome_orders_ne cfg (hids.ne hc)]
        exact hunused' c hc hcx
      simp only [List.filter_cons, answers, hx, decide_true, if_true, hr, ih, true_and]
      exact ih'
    · obtain ⟨ih, ih'⟩ := ih ((outcome_other cfg (t := t) hx).trans h) hids.tail hunused'
      simp only [List.filter_cons, answers, hx, decide_false, Bool.false_eq_true, if_false, ih, true_and]
      exact ih'

theorem answers_append (t : Tables) (calls calls' : List CreateOrderCall) :
    answers cfg t (calls ++ calls') = answers cfg t calls ++ answers cfg (after cfg id t calls) calls' := by
  induction calls generalizing t with
  | nil => rfl
  | cons call calls ih => simp only [List.cons_append, answers, ih]; rfl

/-- Two sequences that differ in the order of two neighbouring calls: every call returns the same
in both, and the databases after them are the same. -/
structure Swapped (r r' : List (CreateOrderCall × Phase Order) × Db) (a b : CreateOrderCall) : Prop where
  answers : ∃ before after pa pb, r.1 = before ++ (a, pa) :: (b, pb) :: after ∧
    r'.1 = before ++ (b, pb) :: (a, pa) :: after
  committed : r.2 = r'.2

/-- **Items do not interfere.** On two databases that agree on an item, two sequences of calls with
the same calls for that item return the same for these, and leave databases that agree on the item
again. And neighbouring calls for different items can be swapped. -/
theorem items_do_not_interfere (hd : Deployed cfg.catalog cfg.backend) :
    (∀ (x : ItemId) (t t' : Tables) (calls calls' : List CreateOrderCall), t.AgreeOn x t' →
      FreshIds calls t → FreshIds calls' t' →
      calls.filter (fun c => c.itemId = x) = calls'.filter (fun c => c.itemId = x) →
      (placeEach cfg calls (t.store cfg.backend)).1.filter (fun r => r.1.itemId = x) =
          (placeEach cfg calls' (t'.store cfg.backend)).1.filter (fun r => r.1.itemId = x) ∧
        ∃ u u' : Tables, (placeEach cfg calls (t.store cfg.backend)).2 = u.store cfg.backend ∧
          (placeEach cfg calls' (t'.store cfg.backend)).2 = u'.store cfg.backend ∧ u.AgreeOn x u') ∧
    ∀ (t : Tables) (before after : List CreateOrderCall) (a b : CreateOrderCall), a.itemId ≠ b.itemId →
      FreshIds (before ++ a :: b :: after) t →
      Swapped (placeEach cfg (before ++ a :: b :: after) (t.store cfg.backend))
        (placeEach cfg (before ++ b :: a :: after) (t.store cfg.backend)) a b := by
  constructor
  · intro x t t' calls calls' hagree hids hids' hsame
    -- both runs are compared with that of the calls for the item on the second database
    rw [placeEach_eq hd, placeEach_eq hd]
    obtain ⟨hr, h⟩ := answers_filter cfg hagree hids fun call hmem hx => by
      have hmem' : call ∈ calls'.filter fun c => c.itemId = x := by
        rw [← hsame]
        exact List.mem_filter.2 ⟨hmem, decide_eq_true hx⟩
      exact hids'.unused call (List.mem_of_mem_filter hmem')
    obtain ⟨hr', h'⟩ := answers_filter cfg (.refl x t') hids' fun call hmem _ => hids'.unused call hmem
    rw [← hsame] at hr' h'
    exact ⟨hr.trans hr'.symm, _, _, rfl, rfl, h.trans h'.symm⟩
  · intro t before after' a b hitem hids
    have hid : a.orderId ≠ b.orderId := by
      have hn := hids.nodup
      rw [List.map_append, List.nodup_append] at hn
      exact fun heq => (List.nodup_cons.1 hn.2.1).1 (by simp [heq])
    rw [placeEach_eq hd, placeEach_eq hd, answers_append, answers_append, after_append, after_append]
    obtain ⟨hra, hrb, htables⟩ := outcome_comm cfg (t := after cfg id t before) hitem hid
    constructor
    · refine ⟨_, _, _, _, rfl, ?_⟩
      simp only [answers, hra, hrb, htables]
    · exact congrArg (fun t => (after cfg id t after').store cfg.backend) htables.symm

end

/-- The stock of `rivals`, and 100 of another item. -/
def stockedMore : Tables where
  inventory x := if x = ⟨8⟩ then some 100 else stocked.inventory x
  orders _ := none
  elsewhere _ := none

/-- A call for the other item. -/
def bystander : CreateOrderCall := ⟨⟨⟨8⟩, 1⟩, ⟨9⟩, .none⟩

theorem items_do_not_interfere_bystander :
    (placeEach (Makefile.config .sqlx) [rivals 0, rivals 1] (stocked.store .sqlx)).1.filter
        (fun r => r.1.itemId = ⟨7⟩) =
      (placeEach (Makefile.config .sqlx) [bystander, rivals 0, rivals 1] (stockedMore.store .sqlx)).1.filter
        (fun r => r.1.itemId = ⟨7⟩) := by
  have hfresh : FreshIds [rivals 0, rivals 1] stocked := ⟨by decide, fun _ _ => rfl⟩
  have hfresh' : FreshIds [bystander, rivals 0, rivals 1] stockedMore := ⟨by decide, fun _ _ => rfl⟩
  exact ((items_do_not_interfere (Makefile.deployed .sqlx)).1 ⟨7⟩ stocked stockedMore _ _ ⟨rfl, fun _ => rfl⟩ hfresh
    hfresh' rfl).1

end TransactionManager
