import Mathlib.Data.Set.Finite.Lemmas
import Mathlib.Data.Set.Finite.Range
import Mathlib.Logic.Relation
/-
# Wait-for relations

`W i j` says that `i` cannot go on before `j` has. Where every wait leads upwards in a rank,
nobody waits in a circle, and of finitely many parties that only wait for each other somebody
does not wait at all. The same where parties take their resources in an order (`exists_not_asking`).
-/

namespace WaitFor

open Relation

variable {ι : Type*} {W : ι → ι → Prop} {rank : ι → ℕ}

/-- Every wait leads upwards. -/
def Ranked (W : ι → ι → Prop) (rank : ι → ℕ) : Prop := ∀ i j, W i j → rank i < rank j

/-- `i` waits for somebody. -/
def Waiting (W : ι → ι → Prop) (i : ι) : Prop := ∃ j, W i j

theorem Ranked.transGen (h : Ranked W rank) {i j : ι} (hij : TransGen W i j) : rank i < rank j := by
  induction hij with
  | single hw => exact h _ _ hw
  | tail _ hw ih => exact ih.trans (h _ _ hw)

theorem Ranked.acyclic (h : Ranked W rank) (i : ι) : ¬ TransGen W i i :=
  fun hi => absurd (h.transGen hi) (lt_irrefl _)

/-- **No deadlock.** Of finitely many parties that wait for live ones only, a live one of the highest
rank does not wait. -/
theorem Ranked.exists_not_waiting [Finite ι] (h : Ranked W rank) {live : ι → Prop}
    (hlive : ∀ i j, W i j → live j) {i : ι} (hi : live i) : ∃ j, live j ∧ ¬ Waiting W j := by
  obtain ⟨j, hj, hmax⟩ := Set.exists_max_image {j | live j} rank (Set.toFinite _) ⟨i, hi⟩
  refine ⟨j, hj, ?_⟩
  rintro ⟨k, hk⟩
  have hle := hmax k (hlive j k hk)
  have hlt := h j k hk
  omega

/-! ## Resources taken in an order -/

section
variable {κ L : Type*} [LinearOrder L] {asks : ι → Option κ} {holds : ι → κ → Prop} {level : κ → L}

/-- **Resource ordering.** Of finitely many parties that hold nothing as high as what they ask for, and ask
for what live ones hold, a live one asks for nothing: otherwise the one that asks for the highest resource
would have to wait for one that asks for a higher one. -/
theorem exists_not_asking [Finite ι] {live : ι → Prop}
    (hup : ∀ i k, asks i = some k → ∀ k', holds i k' → level k' < level k)
    (hheld : ∀ i k, asks i = some k → ∃ j, live j ∧ holds j k) {i : ι} (hi : live i) :
    ∃ j, live j ∧ asks j = none := by
  let asked : Set κ := {k | ∃ j, live j ∧ asks j = some k}
  have hfinite : asked.Finite := by
    refine ((Set.finite_range asks).preimage (Option.some_injective κ).injOn).subset ?_
    rintro k ⟨j, -, hk⟩
    exact ⟨j, hk⟩
  by_contra hall
  have hasks : ∀ j, live j → ∃ k, k ∈ asked ∧ asks j = some k := fun j hj => by
    obtain ⟨k, hk⟩ := Option.ne_none_iff_exists'.1 fun hnone => hall ⟨j, hj, hnone⟩
    exact ⟨k, ⟨j, hj, hk⟩, hk⟩
  obtain ⟨k₀, hk₀, -⟩ := hasks i hi
  obtain ⟨k, ⟨j, hj, hk⟩, hmax⟩ := Set.exists_max_image asked level hfinite ⟨k₀, hk₀⟩
  obtain ⟨j', hj', hheld'⟩ := hheld j k hk
  obtain ⟨k', hk', hask'⟩ := hasks j' hj'
  exact absurd (hmax k' hk') (not_le.2 (hup j' k' hask' k hheld'))

end

end WaitFor
