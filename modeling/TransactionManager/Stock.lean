import TransactionManager.Lib.Run
import TransactionManager.Domain
/-
# The `Inventory` aggregate (`inventory/inventory.rs:27-49`)

`decrease_stock` casts its `u32` amount to `i32` before it compares and subtracts, so an amount above
`i32::MAX` is negative by then: it passes the guard and raises the stock
(`decreaseStock_of_large`). `increase_stock` refuses a negative amount but not one that is too
large for the stock it is added to. A run of both keeps exact books as long as no increase goes past
`i32::MAX` (`keepsBooks_iff`).
-/

namespace TransactionManager

open RustInt Run

/-! ## `decrease_stock` -/

/-- What `decrease_stock` should do with an amount: subtract it when the stock covers it and refuse it
otherwise, in every build, so without an overflow. -/
structure ExactDecrease (inventory : Inventory) (amount : InventoryQuantity) : Prop where
  covered : (amount.value.toNat : Int) ≤ inventory.quantity.toInt → ∀ p, ∃ quantity : Int32,
    inventory.decreaseStock p amount = some (.ok (), { inventory with quantity }) ∧
      quantity.toInt = inventory.quantity.toInt - amount.value.toNat
  refused : inventory.quantity.toInt < amount.value.toNat → ∀ p, ∃ requested : Int32,
    inventory.decreaseStock p amount = some (.error (.insufficientStock inventory.quantity requested), inventory) ∧
      requested.toInt = amount.value.toNat

/-- The amount is representable as `i32`. -/
def InventoryQuantity.Fits (amount : InventoryQuantity) : Prop := amount.value.toNat ≤ 2147483647

theorem InventoryQuantity.toInt_toI32 {amount : InventoryQuantity} (h : amount.Fits) :
    amount.toI32.toInt = amount.value.toNat := by
  unfold InventoryQuantity.Fits at h
  exact toInt_toInt32_of_lt (by omega)

namespace Inventory

variable {inventory : Inventory} {amount : InventoryQuantity}

/-- An amount above `i32::MAX` is never refused: it is a subtraction of a negative number. -/
theorem decreaseStock_of_large (p : BuildProfile) (h0 : 0 ≤ inventory.quantity.toInt) (hlarge : ¬ amount.Fits) :
    amount.toI32.toInt = amount.value.toNat - 4294967296 ∧
      inventory.decreaseStock p amount =
        (subI32 p inventory.quantity amount.toI32).map fun quantity => (.ok (), { inventory with quantity }) := by
  unfold InventoryQuantity.Fits at hlarge
  have hcast : amount.toI32.toInt = amount.value.toNat - 4294967296 := toInt_toInt32_of_le (by omega)
  have hmax := UInt32.toNat_lt amount.value
  have hlt : ¬ inventory.quantity < amount.toI32 := by
    rw [Int32.lt_iff_toInt_lt]
    omega
  exact ⟨hcast, by simp [decreaseStock, hlt]⟩

/-- **`decrease_stock` is exact** on an amount if and only if the amount fits `i32`. -/
theorem decreaseStock_exact_iff (h0 : 0 ≤ inventory.quantity.toInt) :
    ExactDecrease inventory amount ↔ amount.Fits := by
  constructor
  · intro hexact
    by_contra hlarge
    have hmax := inventory.quantity.toInt_lt
    have hlt : inventory.quantity.toInt < amount.value.toNat := by
      unfold InventoryQuantity.Fits at hlarge
      omega
    obtain ⟨requested, hrefused, -⟩ := hexact.refused hlt .release
    rw [(decreaseStock_of_large .release h0 hlarge).2] at hrefused
    obtain ⟨quantity, -, hr⟩ := Option.map_eq_some_iff.1 hrefused
    cases hr
  · intro hfits
    have hcast := InventoryQuantity.toInt_toI32 hfits
    constructor
    · intro hle p
      refine ⟨_, decreaseStock_covered p inventory amount (by omega) (by omega), ?_⟩
      have hmax := inventory.quantity.toInt_lt
      rw [toInt_sub_of_inI32 ⟨by omega, by omega⟩, hcast]
    · intro hlt p
      exact ⟨_, decreaseStock_refused p inventory amount (by omega), hcast⟩

theorem decreaseStock_exact_iff_three :
    ExactDecrease ⟨⟨7⟩, 10⟩ ⟨3, by decide⟩ ↔ (⟨3, by decide⟩ : InventoryQuantity).Fits :=
  decreaseStock_exact_iff (by decide)

/-- `InventoryQuantity::new(4294967291)`, taken out of a stock of 10, leaves 15. -/
theorem decreaseStock_grows :
    ∃ amount, InventoryQuantity.new 4294967291 = .ok amount ∧ new ⟨7⟩ 10 = .ok ⟨⟨7⟩, 10⟩ ∧
      (∀ p, decreaseStock p ⟨⟨7⟩, 10⟩ amount = some (.ok (), ⟨⟨7⟩, 15⟩)) ∧ ¬ ExactDecrease ⟨⟨7⟩, 10⟩ amount := by
  have hgrows : ∀ p, decreaseStock p ⟨⟨7⟩, 10⟩ ⟨4294967291, by decide⟩ = some (.ok (), ⟨⟨7⟩, 15⟩) := by
    intro p
    cases p <;> rfl
  refine ⟨_, rfl, rfl, hgrows, fun hexact => ?_⟩
  obtain ⟨requested, hrefused, -⟩ := hexact.refused (by decide) .dev
  rw [hgrows] at hrefused
  cases hrefused

end Inventory

/-! ## Runs of both mutators -/

/-- A call of a mutator. -/
inductive StockOp where
  | increase (amount : Int32)
  | decrease (amount : InventoryQuantity)

namespace StockOp

/-- The amounts are those that the use case can come by: any `i32` to increase, and what
`InventoryQuantity::try_from(i32)` returns to decrease. -/
def Obtained : StockOp → Prop
  | increase _ => True
  | decrease amount => ∃ n, InventoryQuantity.tryFrom n = .ok amount

def apply (p : BuildProfile) (self : Inventory) : StockOp → Option (Except InventoryError Unit × Inventory)
  | increase amount => self.increaseStock p amount
  | decrease amount => self.decreaseStock p amount

/-- What goes into the books for a call with this result: nothing for an `Err`. -/
def entry : StockOp → Except InventoryError Unit → Int
  | _, .error _ => 0
  | increase amount, .ok () => amount.toInt
  | decrease amount, .ok () => -amount.value.toNat

end StockOp

/-- The aggregate and the sum of the entries booked so far. -/
structure Books where
  inventory : Inventory
  booked : Int

/-- One call and its entry; `none` is the overflow panic. -/
def Books.step (p : BuildProfile) (b : Books) (op : StockOp) : Option Books :=
  (op.apply p b.inventory).map fun r => ⟨r.2, b.booked + op.entry r.1⟩

/-- The books are right: the stock is what was there first and what has been booked since, it is
not negative, and the item is the same. -/
structure Balanced (first : Inventory) (b : Books) : Prop where
  item : b.inventory.itemId = first.itemId
  nonneg : 0 ≤ b.inventory.quantity.toInt
  sum : b.inventory.quantity.toInt = first.quantity.toInt + b.booked

/-- The run of `ops` is never ended by an overflow, the books are right at every point of it, and a
call that returns `Err` changes nothing. -/
structure KeepsBooks (p : BuildProfile) (first : Inventory) (ops : List StockOp) : Prop where
  balanced : ∀ before after, ops = before ++ after →
    ∃ b, run (Books.step p) ⟨first, 0⟩ before = some b ∧ Balanced first b
  unchanged : ∀ before op after b e inventory, ops = before ++ op :: after →
    run (Books.step p) ⟨first, 0⟩ before = some b → op.apply p b.inventory = some (.error e, inventory) →
      inventory = b.inventory

/-- There is room for every increase of the run: where it comes, an amount that is not negative
takes the stock at most to `i32::MAX`. -/
def Roomy (p : BuildProfile) (first : Inventory) (ops : List StockOp) : Prop :=
  ∀ before amount after b, ops = before ++ .increase amount :: after →
    run (Books.step p) ⟨first, 0⟩ before = some b → 0 ≤ amount.toInt →
      b.inventory.quantity.toInt + amount.toInt ≤ 2147483647

namespace Inventory

theorem increaseStock_of_neg (p : BuildProfile) (self : Inventory) {amount : Int32} (h : amount.toInt < 0) :
    self.increaseStock p amount = some (.error (.negativeAmount amount), self) := by
  have hneg : amount < 0 := lt_zero_iff.2 h
  simp [increaseStock, hneg]

theorem increaseStock_of_nonneg (p : BuildProfile) (self : Inventory) {amount : Int32} (h : 0 ≤ amount.toInt) :
    self.increaseStock p amount =
      (addI32 p self.quantity amount).map fun quantity => (.ok (), { self with quantity }) := by
  have hneg : ¬ amount < 0 := by
    rw [lt_zero_iff]
    omega
  simp [increaseStock, hneg]

end Inventory

namespace StockOp

/-- A call that returns `Err` leaves the aggregate as it was. -/
theorem apply_error {p : BuildProfile} {self inventory : Inventory} {op : StockOp} {e : InventoryError}
    (h : op.apply p self = some (.error e, inventory)) : inventory = self := by
  cases op with
  | increase amount =>
    simp only [apply, Inventory.increaseStock] at h
    split at h
    · cases h; rfl
    · obtain ⟨quantity, -, hr⟩ := Option.map_eq_some_iff.1 h
      cases hr
  | decrease amount =>
    simp only [apply, Inventory.decreaseStock] at h
    split at h
    · cases h; rfl
    · obtain ⟨quantity, -, hr⟩ := Option.map_eq_some_iff.1 h
      cases hr

/-- What `try_from(i32)` returns fits `i32`. -/
theorem fits_of_obtained {amount : InventoryQuantity} (h : (decrease amount).Obtained) : amount.Fits := by
  obtain ⟨n, hn⟩ := h
  by_cases hpos : 0 < n.toInt
  · rw [InventoryQuantity.tryFrom_of_pos hpos] at hn
    cases hn
    have hval : ((InventoryQuantity.ofPos n hpos).value.toNat : Int) = n.toInt :=
      toNat_toUInt32_of_nonneg (Int.le_of_lt hpos)
    have hmax := n.toInt_lt
    unfold InventoryQuantity.Fits
    omega
  · have herr : InventoryQuantity.tryFrom n = .error (.nonPositive n) := quantityTryFrom_of_nonpos (by omega)
    rw [herr] at hn
    cases hn

end StockOp

section
variable {p : BuildProfile} {first : Inventory} {b b' : Books}

/-- **The step lemma.** A call for which there is room keeps the books. -/
theorem Balanced.step (h : Balanced first b) {op : StockOp} (hop : op.Obtained)
    (hroom : ∀ amount, op = .increase amount → 0 ≤ amount.toInt →
      b.inventory.quantity.toInt + amount.toInt ≤ 2147483647) :
    ∃ b', b.step p op = some b' ∧ Balanced first b' := by
  have hsum := h.sum
  have h0 := h.nonneg
  cases op with
  | increase amount =>
    by_cases hneg : amount.toInt < 0
    · refine ⟨_, ?_, h⟩
      simp [Books.step, StockOp.apply, StockOp.entry, Inventory.increaseStock_of_neg p b.inventory hneg]
    · have hle := hroom amount rfl (by omega)
      have hin : InI32 (b.inventory.quantity.toInt + amount.toInt) := ⟨by omega, hle⟩
      refine ⟨⟨{ b.inventory with quantity := b.inventory.quantity + amount }, b.booked + amount.toInt⟩, ?_, h.item,
        ?_, ?_⟩
      · simp only [Books.step, StockOp.apply, Inventory.increaseStock_of_nonneg p b.inventory (Int.not_lt.1 hneg),
          addI32_of_inI32 hin, Option.map_some, StockOp.entry]
      · rw [toInt_add_of_inI32 hin]
        omega
      · show (b.inventory.quantity + amount).toInt = first.quantity.toInt + (b.booked + amount.toInt)
        rw [toInt_add_of_inI32 hin]
        omega
  | decrease amount =>
    have hexact := (Inventory.decreaseStock_exact_iff h0).2 (StockOp.fits_of_obtained hop)
    by_cases hle : (amount.value.toNat : Int) ≤ b.inventory.quantity.toInt
    · obtain ⟨quantity, hr, hq⟩ := hexact.covered hle p
      refine ⟨⟨{ b.inventory with quantity }, b.booked + -amount.value.toNat⟩, ?_, h.item, ?_, ?_⟩
      · simp only [Books.step, StockOp.apply, hr, Option.map_some, StockOp.entry]
      · show 0 ≤ quantity.toInt
        omega
      · show quantity.toInt = first.quantity.toInt + (b.booked + -amount.value.toNat)
        omega
    · obtain ⟨requested, hr, -⟩ := hexact.refused (by omega) p
      refine ⟨_, ?_, h⟩
      simp [Books.step, StockOp.apply, StockOp.entry, hr]

/-- An accepted increase that keeps the books has had room. -/
theorem Balanced.room (h : Balanced first b) (h' : Balanced first b') {amount : Int32}
    (hstep : b.step p (.increase amount) = some b') (h0 : 0 ≤ amount.toInt) :
    b.inventory.quantity.toInt + amount.toInt ≤ 2147483647 := by
  obtain ⟨r, hr, rfl⟩ := Option.map_eq_some_iff.1 hstep
  simp only [StockOp.apply, Inventory.increaseStock_of_nonneg p b.inventory h0] at hr
  obtain ⟨quantity, -, rfl⟩ := Option.map_eq_some_iff.1 hr
  have hsum := h.sum
  have hsum' := h'.sum
  have hmax := quantity.toInt_lt
  simp only [StockOp.entry] at hsum'
  omega

end

/-- **The aggregate keeps exact books** over a run if and only if there is room for its increases. -/
theorem keepsBooks_iff {p : BuildProfile} {itemId : ItemId} {quantity : Int32} {first : Inventory}
    {ops : List StockOp} (hnew : Inventory.new itemId quantity = .ok first) (hops : ∀ op ∈ ops, op.Obtained) :
    KeepsBooks p first ops ↔ Roomy p first ops := by
  constructor
  · rintro ⟨hbalanced, -⟩ before amount after b hops hrun h0
    obtain ⟨b₁, hrun₁, hb⟩ := hbalanced before (.increase amount :: after) hops
    obtain rfl : b = b₁ := Option.some.inj (hrun.symm.trans hrun₁)
    obtain ⟨b', hrun', hb'⟩ := hbalanced (before ++ [.increase amount]) after (by simp [hops])
    obtain ⟨m, hm, hstep⟩ := run_concat_some hrun'
    obtain rfl : b = m := Option.some.inj (hrun.symm.trans hm)
    exact hb.room hb' hstep h0
  · intro hroomy
    refine ⟨fun before => ?_, fun before op after b e inventory _ _ he => StockOp.apply_error he⟩
    induction before using List.reverseRecOn with
    | nil =>
      intro after _
      obtain ⟨rfl, h0⟩ := Inventory.new_ok hnew
      exact ⟨_, rfl, rfl, h0, by simp⟩
    | append_singleton before op ih =>
      intro after hsplit
      rw [List.append_assoc] at hsplit
      obtain ⟨b, hrun, hb⟩ := ih _ hsplit
      obtain ⟨b', hstep, hb'⟩ := hb.step (p := p) (hops op (by simp [hsplit]))
        fun amount hop h0 => hroomy before amount after b (by rw [hsplit, hop]; rfl) hrun h0
      exact ⟨b', run_concat hrun hstep, hb'⟩

/-- Some stock comes in, and more is asked for than there is. -/
def restock : List StockOp := [.increase 5, .decrease ⟨20, by decide⟩, .increase (-1)]

theorem keepsBooks_iff_restock : KeepsBooks .release ⟨⟨7⟩, 10⟩ restock ↔ Roomy .release ⟨⟨7⟩, 10⟩ restock :=
  keepsBooks_iff (show Inventory.new ⟨7⟩ 10 = .ok ⟨⟨7⟩, 10⟩ from rfl) (by
    intro op hop
    simp only [restock, List.mem_cons, List.not_mem_nil, or_false] at hop
    rcases hop with rfl | rfl | rfl
    · trivial
    · exact ⟨20, rfl⟩
    · trivial)

/-- One more than `i32::MAX` pieces: a checked build panics, a release build has a stock of `i32::MIN`. -/
theorem increaseStock_overflows : Inventory.new ⟨7⟩ 2147483647 = .ok ⟨⟨7⟩, 2147483647⟩ ∧
    Inventory.increaseStock .dev ⟨⟨7⟩, 2147483647⟩ 1 = none ∧
    Inventory.increaseStock .release ⟨⟨7⟩, 2147483647⟩ 1 = some (.ok (), ⟨⟨7⟩, -2147483648⟩) ∧
    ∀ p, ¬ KeepsBooks p ⟨⟨7⟩, 2147483647⟩ [.increase 1] := by
  refine ⟨rfl, rfl, rfl, fun p hkeeps => ?_⟩
  obtain ⟨b, hrun, hb⟩ := hkeeps.balanced [.increase 1] [] rfl
  cases p with
  | dev => cases hrun
  | release =>
    cases hrun
    exact absurd hb.nonneg (by decide)

end TransactionManager
