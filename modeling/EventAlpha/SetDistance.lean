import Mathlib.Algebra.Order.Field.Basic
import Mathlib.Data.Finset.SymmDiff
import Mathlib.Data.Finset.Card
import Mathlib.Data.Rat.Defs
import Mathlib.Algebra.Order.Ring.Rat
import Mathlib.Data.Rat.Cast.Order
import Mathlib.Tactic.Linarith
import Mathlib.Tactic.Positivity
import Mathlib.Tactic.Ring

/-!
# Distances between finite sets

A symmetric function that vanishes on the diagonal and satisfies the triangle
inequality keeps all this when it is measured against the distances to a fixed
point, as the Steinhaus transform `2 δ x y / (δ x a + δ y a + δ x y)`
(`IsDistance.relative`).

The number of elements that belong to exactly one of two finite sets is such a
function, and its transform at the empty set is the share of them among all
elements.  One minus that share is the overlap of the two sets, so overlaps
obey a triangle inequality as well (`overlap_triangle`).
-/

namespace SetDistance

open Finset
open scoped symmDiff

variable {α K : Type*} [Field K] [LinearOrder K] [IsStrictOrderedRing K]

/-- A symmetric function with the triangle inequality. -/
structure IsDistance (δ : α → α → K) : Prop where
  self : ∀ x, δ x x = 0
  comm : ∀ x y, δ x y = δ y x
  triangle : ∀ x y z, δ x z ≤ δ x y + δ y z

/-- Twice the distance of two points, relative to the way around a third one. -/
def relative (δ : α → α → K) (a x y : α) : K := (δ x y + δ x y) / (δ x a + δ y a + δ x y)

/-- The larger the total, the smaller the share. -/
theorem share_anti {t d d' : K} (ht : 0 ≤ t) (hd : t ≤ d) (hle : d ≤ d') : t / d' ≤ t / d := by
  rcases (ht.trans hd).eq_or_lt with hzero | hpos
  · have ht0 : t = 0 := le_antisymm (hzero ▸ hd) ht
    rw [ht0, zero_div, zero_div]
  · exact div_le_div_of_nonneg_left ht hpos hle

/-- A part that grows with its total takes a larger share. -/
theorem share_mono {s t t' : K} (hs : 0 ≤ s) (ht : 0 ≤ t) (hle : t ≤ t') :
    t / (s + t) ≤ t' / (s + t') := by
  rcases (add_nonneg hs ht).eq_or_lt with hzero | hpos
  · rw [← hzero, div_zero]
    exact div_nonneg (ht.trans hle) (add_nonneg hs (ht.trans hle))
  · have hpos' : 0 < s + t' := lt_of_lt_of_le hpos (by linarith)
    rw [div_le_div_iff₀ hpos hpos']
    have hcross : s * t ≤ s * t' := mul_le_mul_of_nonneg_left hle hs
    calc t * (s + t') = s * t + t * t' := by ring
      _ ≤ s * t' + t * t' := by linarith
      _ = t' * (s + t) := by ring

namespace IsDistance

variable {δ : α → α → K}

theorem nonneg (h : IsDistance δ) (x y : α) : 0 ≤ δ x y := by
  have htriangle := h.triangle x y x
  rw [h.self, h.comm y x] at htriangle
  linarith

/-- **Relative distances.**  Measuring a distance against the distances to a
fixed point leaves a distance. -/
theorem relative (h : IsDistance δ) (a : α) : IsDistance (relative δ a) where
  self x := by rw [SetDistance.relative, h.self, add_zero, zero_div]
  comm x y := by rw [SetDistance.relative, SetDistance.relative, h.comm x y, add_comm (δ x a)]
  triangle x y z := by
    have hxy := h.nonneg x y
    have hyz := h.nonneg y z
    have hxa := h.nonneg x a
    have hya := h.nonneg y a
    have hza := h.nonneg z a
    -- the way over `y` is at least as long, and counts against a larger total
    have hmono : δ x z / (δ x a + δ z a + δ x z) ≤
        (δ x y + δ y z) / (δ x a + δ z a + (δ x y + δ y z)) :=
      share_mono (add_nonneg hxa hza) (h.nonneg x z) (h.triangle x y z)
    have hyx : δ y a ≤ δ x y + δ x a := by
      have htriangle := h.triangle y x a
      rwa [h.comm y x] at htriangle
    have hyz' : δ y a ≤ δ y z + δ z a := h.triangle y z a
    have hfirst : δ x y / (δ x a + δ z a + (δ x y + δ y z)) ≤
        δ x y / (δ x a + δ y a + δ x y) :=
      share_anti hxy (by linarith) (by linarith)
    have hsecond : δ y z / (δ x a + δ z a + (δ x y + δ y z)) ≤
        δ y z / (δ y a + δ z a + δ y z) :=
      share_anti hyz (by linarith) (by linarith)
    rw [SetDistance.relative, SetDistance.relative, SetDistance.relative, add_div, add_div,
      add_div]
    rw [add_div] at hmono
    linarith

end IsDistance

section Sets

variable [DecidableEq α]

/-- The number of elements of exactly one of two sets is a distance. -/
theorem isDistance_card_symmDiff : IsDistance (fun A B : Finset α => ((A ∆ B).card : ℚ)) where
  self A := by rw [symmDiff_self, Finset.bot_eq_empty, Finset.card_empty, Nat.cast_zero]
  comm A B := by rw [symmDiff_comm]
  triangle A B C := by
    have hsub : A ∆ C ⊆ A ∆ B ∪ B ∆ C := symmDiff_triangle A B C
    exact_mod_cast (Finset.card_le_card hsub).trans (Finset.card_union_le _ _)

/-- The elements of two sets are those of both and those of exactly one. -/
theorem card_symmDiff_add_card_inter (A B : Finset α) :
    (A ∆ B).card + (A ∩ B).card = (A ∪ B).card := by
  have hsplit : A ∆ B = (A ∪ B) \ (A ∩ B) := symmDiff_eq_sup_sdiff_inf A B
  rw [hsplit]
  exact Finset.card_sdiff_add_card_eq_card
    (Finset.inter_subset_left.trans Finset.subset_union_left)

/-- The share of common elements among all elements of two sets. -/
def overlap (A B : Finset α) : ℚ := (A ∩ B).card / (A ∪ B).card

/-- **Overlap and distance.**  What two sets do not share is their distance,
relative to the empty set. -/
theorem overlap_add_relative {A B : Finset α} (h : (A ∪ B).Nonempty) :
    overlap A B + relative (fun A B : Finset α => ((A ∆ B).card : ℚ)) ∅ A B = 1 := by
  have hpos : (0 : ℚ) < (A ∪ B).card := by exact_mod_cast Finset.card_pos.mpr h
  have hsum : ((A ∆ B).card : ℚ) + (A ∩ B).card = (A ∪ B).card := by
    exact_mod_cast card_symmDiff_add_card_inter A B
  have htotal : ((A ∪ B).card : ℚ) + (A ∩ B).card = A.card + B.card := by
    exact_mod_cast Finset.card_union_add_card_inter A B
  have hempty : ∀ C : Finset α, C ∆ ∅ = C := fun C => symmDiff_bot C
  have hden : (A.card : ℚ) + B.card + (A ∆ B).card = 2 * (A ∪ B).card := by linarith
  rw [overlap, relative, hempty, hempty, hden, ← two_mul, mul_div_mul_left _ _ (by norm_num), ← add_div,
    add_comm, hsum, div_self hpos.ne']

theorem overlap_nonneg (A B : Finset α) : 0 ≤ overlap A B := by
  unfold overlap
  positivity

theorem overlap_le_one (A B : Finset α) : overlap A B ≤ 1 := by
  refine div_le_one_of_le₀ ?_ (Nat.cast_nonneg _)
  exact_mod_cast Finset.card_le_card (Finset.inter_subset_left.trans Finset.subset_union_left)

theorem overlap_comm (A B : Finset α) : overlap A B = overlap B A := by
  rw [overlap, overlap, Finset.inter_comm, Finset.union_comm]

theorem overlap_empty (A : Finset α) : overlap A ∅ = 0 := by
  rw [overlap, Finset.inter_empty, Finset.card_empty, Nat.cast_zero, zero_div]

/-- **Triangle inequality of overlaps.**  Two sets that both overlap with a
third one overlap with each other. -/
theorem overlap_triangle (A B C : Finset α) :
    overlap A B + overlap B C ≤ 1 + overlap A C := by
  rcases B.eq_empty_or_nonempty with rfl | hB
  · have hnonneg := overlap_nonneg A C
    rw [overlap_empty, overlap_comm ∅ C, overlap_empty]
    linarith
  rcases A.eq_empty_or_nonempty with rfl | hA
  · have hle := overlap_le_one B C
    rw [overlap_comm ∅ B, overlap_empty, overlap_comm ∅ C, overlap_empty]
    linarith
  · have hAB := overlap_add_relative (hB.mono (Finset.subset_union_right : B ⊆ A ∪ B))
    have hBC := overlap_add_relative (hB.mono (Finset.subset_union_left : B ⊆ B ∪ C))
    have hAC := overlap_add_relative (hA.mono (Finset.subset_union_left : A ⊆ A ∪ C))
    have htriangle := (isDistance_card_symmDiff.relative ∅).triangle A B C
    linarith

end Sets

end SetDistance
