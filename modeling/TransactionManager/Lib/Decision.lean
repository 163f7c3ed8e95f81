import Mathlib.Data.List.Induction
import Mathlib.Data.List.Nodup
import Mathlib.Logic.Function.Basic
import Mathlib.Logic.Relation
/-
# Parties that settle one after the other

Parties work on one store, each by a program of its own. Up to some step a party may read the store
and does not change it; the step that changes the store, or after which the party no longer reads it,
settles the party. As long as what a party has read so far stays true until it settles (`Open` is kept
by the steps of the others), every interleaving is one party after the other, in the order in which
they have settled (`Placed`).
-/

namespace Decision

open Relation

/-- Parties over one store. A settled party no longer looks at the store, a gone one has left. -/
structure Parties (ι σ δ : Type) where
  start : ι → σ
  next : ι → σ × δ → Option (σ × δ)
  settled : σ → Prop
  gone : σ → Prop

namespace Parties

variable {ι σ δ : Type} (P : Parties ι σ δ)

/-- The party has no step left. -/
def Over (i : ι) (x : σ) : Prop := ∀ d, P.next i (x, d) = none

/-- What a party does with the store all to itself. -/
def Path (i : ι) : σ × δ → σ × δ → Prop := ReflTransGen fun a b => P.next i a = some b

/-- The party has got to `x` over the store `d`, which it has not changed. -/
inductive Open (i : ι) (d : δ) : σ → Prop where
  | start : Open i d (P.start i)
  | next {x y : σ} (h : Open i d x) (hn : P.next i (x, d) = some (y, d)) : Open i d y

structure Lawful : Prop where
  /-- A settled party stays so or leaves, and its steps neither read nor change the store. -/
  settled : ∀ {i x d y d'}, P.settled x → P.next i (x, d) = some (y, d') →
    (P.settled y ∨ P.gone y) ∧ d' = d ∧ ∀ e, P.next i (x, e) = some (y, e)
  /-- A step that does not settle the party leaves the store alone. -/
  unsettled : ∀ {i x d y d'}, P.next i (x, d) = some (y, d') → ¬ P.settled y → d' = d
  /-- A step that changes the store is the party's last. -/
  last : ∀ {i x d y d'}, P.next i (x, d) = some (y, d') → d' = d ∨ P.Over i y
  /-- A party that has left is over, one that is over has settled or left. -/
  gone : ∀ {i x}, P.gone x → P.Over i x
  ended : ∀ {i x}, P.Over i x → P.settled x ∨ P.gone x
  apart : ∀ {x}, P.settled x → ¬ P.gone x
  /-- Nobody starts settled. -/
  start : ∀ i, ¬ P.settled (P.start i)

variable {P}

theorem Open.path {i : ι} {d : δ} {x : σ} (h : P.Open i d x) : P.Path i (P.start i, d) (x, d) := by
  induction h with
  | start => exact .refl
  | next _ hn ih => exact ih.tail hn

theorem Over.eq_of_path {i : ι} {x : σ} {d : δ} {b : σ × δ} (h : P.Over i x) (hp : P.Path i (x, d) b) :
    b = (x, d) := by
  rcases ReflTransGen.cases_head hp with he | ⟨c, hc, -⟩
  · exact he.symm
  · rw [h d] at hc
    cases hc

/-- From a settled party on, the store stays. -/
theorem Lawful.path_settled (hl : P.Lawful) {i : ι} {a b : σ × δ} (ha : P.settled a.1) (hp : P.Path i a b) :
    (P.settled b.1 ∨ P.gone b.1) ∧ b.2 = a.2 := by
  induction hp with
  | refl => exact ⟨.inl ha, rfl⟩
  | @tail b c _ hs ih =>
    obtain ⟨hb | hb, hstore⟩ := ih
    · obtain ⟨hset, hd, -⟩ := hl.settled hb hs
      exact ⟨hset, hd.trans hstore⟩
    · rw [hl.gone hb b.2] at hs
      cases hs

/-! ## One party after the other -/

variable (P) in
/-- `alone i d` is where party `i` ends with the store `d` all to itself. -/
structure RunsAlone (alone : ι → δ → σ × δ) : Prop where
  path : ∀ i d, P.Path i (P.start i, d) (alone i d)
  ended : ∀ i d, P.Over i (alone i d).1

/-- The store after the parties of `ds`, one after the other. -/
def after (alone : ι → δ → σ × δ) (d : δ) (ds : List ι) : δ := ds.foldl (fun d i => (alone i d).2) d

theorem after_concat (alone : ι → δ → σ × δ) (d : δ) (ds : List ι) (i : ι) :
    after alone d (ds ++ [i]) = (alone i (after alone d ds)).2 := by simp [after]

section
variable {alone : ι → δ → σ × δ} (ha : P.RunsAlone alone) {i : ι} {d d' : δ} {x : σ}
include ha

/-- What has been reached alone lies on the way to the end. -/
theorem RunsAlone.rest (hp : P.Path i (P.start i, d) (x, d')) : P.Path i (x, d') (alone i d) := by
  have hunique : Relator.RightUnique fun a b : σ × δ => P.next i a = some b :=
    fun a b c hb hc => Option.some.inj (hb.symm.trans hc)
  rcases hp.total_of_right_unique hunique (ha.path i d) with h | h
  · exact h
  · rw [(ha.ended i d).eq_of_path h]
    exact .refl

theorem RunsAlone.store_of_settled (hl : P.Lawful) (hx : P.settled x) (hp : P.Path i (P.start i, d) (x, d')) :
    (alone i d).2 = d' := (hl.path_settled hx (ha.rest hp)).2

theorem RunsAlone.eq_of_over (hx : P.Over i x) (hp : P.Path i (P.start i, d) (x, d')) : alone i d = (x, d') :=
  hx.eq_of_path (ha.rest hp)

end

/-! ## The invariant -/

variable (P) in
/-- `i`, having found the store `d` at its turn and left it as `d'`, is at `x` now. -/
inductive Came (i : ι) (d d' : δ) (x : σ) : Prop where
  | settled (hx : P.settled x) (hp : P.Path i (P.start i, d) (x, d')) (hlast : d' = d ∨ P.Over i x)
  | gone (hx : P.gone x) (hd : d' = d)

variable (P) in
/-- The parties of `ds` have settled, in this order; everyone else is still open over the store. -/
structure Placed (alone : ι → δ → σ × δ) (d₀ : δ) (ds : List ι) (xs : ι → σ) (d : δ) : Prop where
  store : d = after alone d₀ ds
  nodup : ds.Nodup
  here : ∀ i, i ∉ ds → P.gone (xs i) ∨ (P.Open i d (xs i) ∧ ¬ P.settled (xs i))
  there : ∀ before i rest, ds = before ++ i :: rest →
    P.Came i (after alone d₀ before) (after alone d₀ (before ++ [i])) (xs i)

section
variable {alone : ι → δ → σ × δ} {d₀ d d' : δ} {ds : List ι} {xs : ι → σ}

theorem placed_start (hl : P.Lawful) (alone : ι → δ → σ × δ) (d₀ : δ) : P.Placed alone d₀ [] P.start d₀ where
  store := rfl
  nodup := .nil
  here i _ := .inr ⟨.start, hl.start i⟩
  there before i rest h := by simp at h

theorem Placed.came (h : P.Placed alone d₀ ds xs d) {i : ι} (hi : i ∈ ds) : ∃ before rest, ds = before ++ i :: rest ∧
    P.Came i (after alone d₀ before) (after alone d₀ (before ++ [i])) (xs i) := by
  obtain ⟨before, rest, hds⟩ := List.append_of_mem hi
  exact ⟨before, rest, hds, h.there before i rest hds⟩

variable [DecidableEq ι]

/-- The place of a party in the order is unique, so what is known there is known of the others' states. -/
theorem Placed.there_update (h : P.Placed alone d₀ ds xs d) {i : ι} {y : σ}
    (hi : ∀ before rest, ds = before ++ i :: rest →
      P.Came i (after alone d₀ before) (after alone d₀ (before ++ [i])) y) (before : List ι) (j : ι) (rest : List ι)
    (hds : ds = before ++ j :: rest) :
    P.Came j (after alone d₀ before) (after alone d₀ (before ++ [j])) (Function.update xs i y j) := by
  by_cases hj : j = i
  · subst hj
    rw [Function.update_self]
    exact hi before rest hds
  · rw [Function.update_of_ne hj]
    exact h.there before j rest hds

/-- **A party leaves** before its last step: what it has done so far is nothing to the others. -/
theorem Placed.leave (h : P.Placed alone d₀ ds xs d) {i : ι} {z : σ} (hz : P.gone z) (hi : ¬ P.Over i (xs i)) :
    P.Placed alone d₀ ds (Function.update xs i z) d where
  store := h.store
  nodup := h.nodup
  here j hj := by
    by_cases e : j = i
    · subst e; rw [Function.update_self]; exact .inl hz
    · rw [Function.update_of_ne e]; exact h.here j hj
  there := h.there_update fun before rest hds => by
    cases h.there before i rest hds with
    | settled _ _ hlast => exact .gone hz (hlast.resolve_right hi)
    | gone _ hd => exact .gone hz hd

/-- **A step.** It settles nobody, or its party, which comes last then. -/
theorem Placed.next (hl : P.Lawful) (ha : P.RunsAlone alone) (h : P.Placed alone d₀ ds xs d) {i : ι} {y : σ}
    (hn : P.next i (xs i, d) = some (y, d'))
    (hkeep : ∀ j, j ≠ i → P.Open j d (xs j) → ¬ P.settled (xs j) → ¬ P.gone (xs j) → P.Open j d' (xs j)) :
    ∃ es, P.Placed alone d₀ (ds ++ es) (Function.update xs i y) d' := by
  have hlive : ¬ P.Over i (xs i) := fun ho => by rw [ho d] at hn; cases hn
  by_cases hi : i ∈ ds
  · -- settled before: the step does not touch the store
    have hset : P.settled (xs i) := by
      obtain ⟨before, rest, -, hcame⟩ := h.came hi
      cases hcame with
      | settled hx => exact hx
      | gone hx => exact absurd (hl.gone hx) hlive
    obtain ⟨hy, rfl, hany⟩ := hl.settled hset hn
    refine ⟨[], ?_⟩
    rw [List.append_nil]
    refine ⟨h.store, h.nodup, fun j hj => ?_, h.there_update fun before rest hds => ?_⟩
    · have e : j ≠ i := fun e => hj (e ▸ hi)
      rw [Function.update_of_ne e]
      exact h.here j hj
    · cases h.there before i rest hds with
      | settled _ hp hlast =>
        have hstore := hlast.resolve_right hlive
        rcases hy with hy | hy
        · exact .settled hy (hp.tail (hany _)) (.inl hstore)
        · exact .gone hy hstore
      | gone hx => exact absurd (hl.gone hx) hlive
  · obtain ⟨hopen, -⟩ := (h.here i hi).resolve_left fun hg => hlive (hl.gone hg)
    by_cases hy : P.settled y
    · have hpath : P.Path i (P.start i, d) (y, d') := hopen.path.tail hn
      have hd' : d' = after alone d₀ (ds ++ [i]) := by
        rw [after_concat, ← h.store, ha.store_of_settled hl hy hpath]
      refine ⟨[i], hd', ?_, fun j hj => ?_, fun before j rest hds => ?_⟩
      · rw [← List.concat_eq_append]
        exact h.nodup.concat hi
      · have hj' : j ∉ ds ∧ j ≠ i := by simpa using hj
        rw [Function.update_of_ne hj'.2]
        rcases h.here j hj'.1 with hg | ⟨ho, hs⟩
        · exact .inl hg
        · by_cases hg : P.gone (xs j)
          · exact .inl hg
          · exact .inr ⟨hkeep j hj'.2 ho hs hg, hs⟩
      · rcases List.eq_nil_or_concat rest with rfl | ⟨rest, k, rfl⟩
        · obtain ⟨rfl, hji⟩ := List.append_inj' hds rfl
          cases hji
          rw [Function.update_self, ← hd', ← h.store]
          exact .settled hy hpath (hl.last hn)
        · rw [List.concat_eq_append, ← List.cons_append, ← List.append_assoc] at hds
          obtain ⟨rfl, -⟩ := List.append_inj' hds rfl
          rw [Function.update_of_ne fun e => hi (by simp [← e])]
          exact h.there before j rest rfl
    · obtain rfl := hl.unsettled hn hy
      refine ⟨[], ?_⟩
      rw [List.append_nil]
      refine ⟨h.store, h.nodup, fun j hj => ?_, h.there_update fun before rest hds => ?_⟩
      · by_cases e : j = i
        · subst e
          rw [Function.update_self]
          exact .inr ⟨hopen.next hn, hy⟩
        · rw [Function.update_of_ne e]
          exact h.here j hj
      · exact absurd (by simp [hds]) hi

end

/-! ## The order of those that are over -/

section
variable {alone : ι → δ → σ × δ} {d₀ d : δ} {ds : List ι} {xs : ι → σ} (h : P.Placed alone d₀ ds xs d)
include h

/-- Leaving out parties that are not over, or have gone, changes no store on the way. -/
theorem Placed.after_filter (hl : P.Lawful) {keep : ι → Bool}
    (hkeep : ∀ i, keep i = false → P.Over i (xs i) → P.gone (xs i)) :
    ∀ before rest, ds = before ++ rest → after alone d₀ (before.filter keep) = after alone d₀ before := by
  intro before
  induction before using List.reverseRecOn with
  | nil => intro rest _; rfl
  | append_singleton before i ih =>
    intro rest hds
    rw [List.append_assoc, List.singleton_append] at hds
    rw [List.filter_append]
    cases hk : keep i with
    | true => rw [List.filter_cons_of_pos hk, List.filter_nil, after_concat, after_concat, ih _ hds]
    | false =>
      rw [List.filter_cons_of_neg (by simp [hk]), List.filter_nil, List.append_nil, ih _ hds]
      cases h.there before i rest hds with
      | settled hx _ hlast => exact (hlast.resolve_right fun ho => hl.apart hx (hkeep i hk ho)).symm
      | gone _ hd => exact hd.symm

/-- **Serializability.** The parties that are over, one after the other in the order in which they have
settled: each ends where it is, and the last store is the one there is. -/
theorem Placed.serial (hl : P.Lawful) (ha : P.RunsAlone alone) {keep : ι → Bool}
    (hkeep : ∀ i, keep i = true ↔ P.Over i (xs i) ∧ ¬ P.gone (xs i)) :
    after alone d₀ (ds.filter keep) = d ∧ ∀ i ∈ ds, keep i = true →
      ∃ before rest, ds.filter keep = before ++ i :: rest ∧ (alone i (after alone d₀ before)).1 = xs i := by
  have hout : ∀ i, keep i = false → P.Over i (xs i) → P.gone (xs i) := fun i hk ho => by
    by_contra hg
    simp [(hkeep i).2 ⟨ho, hg⟩] at hk
  refine ⟨(h.after_filter hl hout ds [] (List.append_nil ds).symm).trans h.store.symm, fun i hi hk => ?_⟩
  obtain ⟨before, rest, hds, hcame⟩ := h.came hi
  refine ⟨before.filter keep, rest.filter keep, ?_, ?_⟩
  · rw [hds, List.filter_append, List.filter_cons_of_pos hk]
  · rw [h.after_filter hl hout before _ hds]
    obtain ⟨hover, hnot⟩ := (hkeep i).1 hk
    cases hcame with
    | settled _ hp => rw [ha.eq_of_over hover hp]
    | gone hg => exact absurd hg hnot

/-- Whoever has settled has a place in the order. -/
theorem Placed.mem (hl : P.Lawful) {i : ι} (hi : P.settled (xs i)) : i ∈ ds := by
  by_contra hnot
  rcases h.here i hnot with hg | ⟨-, hs⟩
  · exact hl.apart hi hg
  · exact hs hi

end

end Parties

end Decision
