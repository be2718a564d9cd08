import Mathlib.Algebra.Order.Group.Abs
import Mathlib.Data.List.Chain
import Mathlib.Data.Set.Insert
import Mathlib.Order.Bounds.Basic

/-!
# Points with bounded gaps

Points on a line that form one chain: from every point but the greatest one, a
greater point is at most `w` away.  A chain stays one when a point is added
within `w` of its greatest point, on either side of it and wherever the new
point falls among the others (`Linked.insert`).  In a sorted list of such
points, neighbours are at most `w` apart (`Linked.isChain`).
-/

namespace BoundedGaps

variable {α : Type*} [AddCommGroup α] [LinearOrder α] [IsOrderedAddMonoid α] {w : α} {points : Set α}

/-- From every point but the greatest one, a greater point is at most `w` away. -/
def Linked (w : α) (points : Set α) : Prop :=
  ∀ a ∈ points, ∀ c ∈ points, a < c → ∃ b ∈ points, a < b ∧ b - a ≤ w

omit [IsOrderedAddMonoid α] in
theorem linked_singleton (w a : α) : Linked w {a} := by
  intro b hb c hc hlt
  obtain rfl := Set.mem_singleton_iff.mp hb
  obtain rfl := Set.mem_singleton_iff.mp hc
  exact absurd hlt (lt_irrefl _)

/-- **Insertion.**  A point within `w` of the greatest one keeps the chain. -/
theorem Linked.insert {greatest new : α} (h : Linked w points)
    (hgreatest : IsGreatest points greatest) (hnear : |new - greatest| ≤ w) :
    Linked w (insert new points) := by
  obtain ⟨hafter, hbefore⟩ := abs_le.mp hnear
  intro a ha c hc hlt
  rcases Set.mem_insert_iff.mp ha with rfl | ha
  · -- the new point: the greatest one is in reach
    rcases Set.mem_insert_iff.mp hc with rfl | hc
    · exact absurd hlt (lt_irrefl _)
    · refine ⟨greatest, Set.mem_insert_of_mem _ hgreatest.1, hlt.trans_le (hgreatest.2 hc), ?_⟩
      rw [← neg_sub, neg_le]
      exact hafter
  · by_cases hlast : a = greatest
    · -- the old end of the chain: only the new point can be greater
      rcases Set.mem_insert_iff.mp hc with rfl | hc
      · exact ⟨c, Set.mem_insert _ _, hlt, hlast ▸ hbefore⟩
      · exact absurd (hgreatest.2 hc) (not_le.mpr (hlast ▸ hlt))
    · have hlt' : a < greatest := lt_of_le_of_ne (hgreatest.2 ha) hlast
      obtain ⟨b, hb, hab, hgap⟩ := h a ha greatest hgreatest.1 hlt'
      exact ⟨b, Set.mem_insert_of_mem _ hb, hab, hgap⟩

/-- Neighbours in a sorted list of linked points are at most `w` apart. -/
theorem Linked.isChain {l : List α} (h : Linked w {a | a ∈ l}) (hw : 0 ≤ w)
    (hsorted : l.Pairwise (· ≤ ·)) : l.IsChain (fun a b => b - a ≤ w) := by
  induction l with
  | nil => exact List.IsChain.nil
  | cons a l ih =>
      obtain ⟨hfirst, hrest⟩ := List.pairwise_cons.mp hsorted
      have htail : Linked w {b | b ∈ l} := by
        intro b hb c hc hlt
        obtain ⟨d, hd, hbd, hgap⟩ := h b (List.mem_cons_of_mem a hb) c
          (List.mem_cons_of_mem a hc) hlt
        rcases List.mem_cons.mp hd with rfl | hd
        · exact absurd (hfirst b hb) (not_le.mpr hbd)
        · exact ⟨d, hd, hbd, hgap⟩
      cases l with
      | nil => exact List.IsChain.singleton a
      | cons b l =>
          refine List.IsChain.cons_cons ?_ (ih htail hrest)
          have hab : a ≤ b := hfirst b List.mem_cons_self
          rcases hab.eq_or_lt with rfl | hlt
          · rw [sub_self]
            exact hw
          · obtain ⟨c, hc, hac, hgap⟩ := h a List.mem_cons_self b
              (List.mem_cons_of_mem a List.mem_cons_self) hlt
            rcases List.mem_cons.mp hc with rfl | hc
            · exact absurd hac (lt_irrefl _)
            · rcases List.mem_cons.mp hc with rfl | hc
              · exact hgap
              · have hbc : b ≤ c := (List.pairwise_cons.mp hrest).1 c hc
                exact (sub_le_sub_right hbc a).trans hgap

end BoundedGaps
