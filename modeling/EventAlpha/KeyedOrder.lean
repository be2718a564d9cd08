import Mathlib.Data.Finset.Card
import Mathlib.Data.List.MinMax
import Mathlib.Data.List.Sort
import Mathlib.Order.RelIso.Basic

/-!
# Ordering a list by a key

`sortedBy key` is the stable sort of a list by a key, and `maxBy?` the first
element of greatest key among those that have a key at all.  Both are the
library routines of a scripting language (`sorted(xs, key=...)` and
`max(..., key=...)` over a filtered comprehension).

Two facts carry the rest of the development.  The sort is a permutation, so
two sorts of the same multiset agree up to the order of equal keys
(`sortedBy_perm_of_perm`).  The choice by greatest key does not depend on the
order of the list as soon as keys tell the elements apart
(`maxBy?_eq_some_iff`), so it is a function of the set of candidates.
-/

namespace KeyedOrder

variable {α β γ : Type*} [LinearOrder β]

/-- The list in nondecreasing order of `key`. -/
def SortedBy (key : α → β) (l : List α) : Prop :=
  l.Pairwise (fun a b => key a ≤ key b)

/-- The stable sort of a list by `key`. -/
def sortedBy (key : α → β) (l : List α) : List α :=
  l.insertionSort (fun a b => key a ≤ key b)

theorem sortedBy_perm (key : α → β) (l : List α) : (sortedBy key l).Perm l :=
  List.perm_insertionSort _ l

theorem mem_sortedBy {key : α → β} {l : List α} {a : α} :
    a ∈ sortedBy key l ↔ a ∈ l :=
  (sortedBy_perm key l).mem_iff

theorem sortedBy_sorted (key : α → β) (l : List α) : SortedBy key (sortedBy key l) := by
  have htotal : Std.Total (fun a b : α => key a ≤ key b) :=
    ⟨fun a b => le_total (key a) (key b)⟩
  have htrans : IsTrans α (fun a b => key a ≤ key b) :=
    ⟨fun _ _ _ => le_trans⟩
  exact List.pairwise_insertionSort _ l

/-- Sorting two orders of the same elements gives the same elements. -/
theorem sortedBy_perm_of_perm (key : α → β) {l l' : List α} (h : l.Perm l') :
    (sortedBy key l).Perm (sortedBy key l') :=
  (sortedBy_perm key l).trans (h.trans (sortedBy_perm key l').symm)

/-- A sorted list stays as it is. -/
theorem sortedBy_of_sorted {key : α → β} {l : List α} (h : SortedBy key l) : sortedBy key l = l :=
  List.Pairwise.insertionSort_eq h

/-- A list of images is sorted by sorting the list. -/
theorem sortedBy_map (key : α → β) (f : γ → α) (l : List γ) :
    sortedBy key (l.map f) = (sortedBy (fun c => key (f c)) l).map f :=
  (List.map_insertionSort _ _ f l (fun _ _ _ _ => Iff.rfl)).symm

theorem sortedBy_singleton (key : α → β) (a : α) : SortedBy key [a] :=
  List.pairwise_singleton _ a

/-- The stable sort of a list by `key`, greatest first. -/
def sortedByDesc (key : α → β) (l : List α) : List α :=
  sortedBy (fun a => OrderDual.toDual (key a)) l

theorem mem_sortedByDesc {key : α → β} {l : List α} {a : α} :
    a ∈ sortedByDesc key l ↔ a ∈ l :=
  mem_sortedBy

theorem sortedByDesc_sorted (key : α → β) (l : List α) :
    (sortedByDesc key l).Pairwise (fun a b => key b ≤ key a) :=
  sortedBy_sorted (fun a => OrderDual.toDual (key a)) l

/-- The head of a descending sort is an element of greatest key. -/
theorem head?_sortedByDesc {key : α → β} {l : List α} {a : α}
    (h : (sortedByDesc key l).head? = some a) : a ∈ l ∧ ∀ b ∈ l, key b ≤ key a := by
  obtain ⟨rest, hrest⟩ := List.head?_eq_some_iff.mp h
  have hsorted := sortedByDesc_sorted key l
  rw [hrest, List.pairwise_cons] at hsorted
  have hmem : ∀ b, b ∈ l ↔ b = a ∨ b ∈ rest := by
    intro b
    have hb : b ∈ sortedByDesc key l ↔ b ∈ l := mem_sortedByDesc
    rw [← hb, hrest, List.mem_cons]
  refine ⟨(hmem a).mpr (Or.inl rfl), ?_⟩
  intro b hb
  rcases (hmem b).mp hb with rfl | hb
  · exact le_rfl
  · exact hsorted.1 b hb

section Firsts

variable [DecidableEq γ] {group : α → γ}

/-- The first element of every group, apart from the groups in `seen`. -/
def firstsFrom (group : α → γ) : List γ → List α → List α
  | _, [] => []
  | seen, a :: l =>
      if group a ∈ seen then firstsFrom group seen l
      else a :: firstsFrom group (group a :: seen) l

theorem firstsFrom_sublist (seen : List γ) (l : List α) :
    (firstsFrom group seen l).Sublist l := by
  induction l generalizing seen with
  | nil => exact List.Sublist.refl []
  | cons a l ih =>
      rw [firstsFrom]
      split
      · exact (ih seen).cons a
      · exact (ih (group a :: seen)).cons_cons a

/-- A group that is not in `seen` has its first element selected. -/
theorem exists_firstsFrom {seen : List γ} {l : List α} {b : α} (hb : b ∈ l)
    (hseen : group b ∉ seen) : ∃ a ∈ firstsFrom group seen l, group a = group b := by
  induction l generalizing seen with
  | nil => cases hb
  | cons c l ih =>
      rw [firstsFrom]
      by_cases hc : group c ∈ seen
      · rw [if_pos hc]
        rcases List.mem_cons.mp hb with rfl | hb
        · exact absurd hc hseen
        · exact ih hb hseen
      · rw [if_neg hc]
        by_cases hsame : group b = group c
        · exact ⟨c, List.mem_cons_self, hsame.symm⟩
        · rcases List.mem_cons.mp hb with rfl | hb
          · exact absurd rfl hsame
          · have hseen' : group b ∉ group c :: seen := by
              grind
            obtain ⟨a, ha, hgroup⟩ := ih hb hseen'
            exact ⟨a, List.mem_cons_of_mem c ha, hgroup⟩

/-- No element of a group in `seen` is selected. -/
theorem group_notMem_of_mem_firstsFrom {seen : List γ} {l : List α} {a : α}
    (ha : a ∈ firstsFrom group seen l) : group a ∉ seen := by
  induction l generalizing seen with
  | nil => cases ha
  | cons c l ih =>
      rw [firstsFrom] at ha
      by_cases hc : group c ∈ seen
      · rw [if_pos hc] at ha
        exact ih ha
      · rw [if_neg hc] at ha
        rcases List.mem_cons.mp ha with rfl | ha
        · exact hc
        · exact fun hmem => ih ha (List.mem_cons_of_mem (group c) hmem)

/-- No group is selected twice. -/
theorem firstsFrom_pairwise_ne (seen : List γ) (l : List α) :
    (firstsFrom group seen l).Pairwise (fun a b => group a ≠ group b) := by
  induction l generalizing seen with
  | nil => exact List.Pairwise.nil
  | cons c l ih =>
      rw [firstsFrom]
      split
      · exact ih seen
      · refine List.pairwise_cons.mpr ⟨?_, ih (group c :: seen)⟩
        intro b hb heq
        exact group_notMem_of_mem_firstsFrom hb (heq ▸ List.mem_cons_self)

/-- In a list in order, the selected element of a group precedes the others. -/
theorem rel_of_mem_firstsFrom {r : α → α → Prop} (hrefl : ∀ a, r a a) {seen : List γ}
    {l : List α} (hl : l.Pairwise r) {a b : α} (ha : a ∈ firstsFrom group seen l)
    (hb : b ∈ l) (hgroup : group b = group a) : r a b := by
  induction l generalizing seen with
  | nil => cases hb
  | cons c l ih =>
      obtain ⟨hfirst, hl⟩ := List.pairwise_cons.mp hl
      have hnew := group_notMem_of_mem_firstsFrom ha
      rw [firstsFrom] at ha
      by_cases hc : group c ∈ seen
      · rw [if_pos hc] at ha
        rcases List.mem_cons.mp hb with rfl | hb
        · exact absurd (hgroup ▸ hc) hnew
        · exact ih hl ha hb
      · rw [if_neg hc] at ha
        rcases List.mem_cons.mp ha with rfl | ha
        · rcases List.mem_cons.mp hb with rfl | hb
          · exact hrefl b
          · exact hfirst b hb
        · rcases List.mem_cons.mp hb with rfl | hb
          · exact absurd (hgroup ▸ List.mem_cons_self) (group_notMem_of_mem_firstsFrom ha)
          · exact ih hl ha hb

/-- There is one selected element for each group. -/
theorem length_firstsFrom (l : List α) :
    (firstsFrom group [] l).length = (l.map group).toFinset.card := by
  have hnodup : ((firstsFrom group [] l).map group).Nodup :=
    List.pairwise_map.mpr (firstsFrom_pairwise_ne [] l)
  have hgroups : ((firstsFrom group [] l).map group).toFinset = (l.map group).toFinset := by
    ext c
    simp only [List.mem_toFinset, List.mem_map]
    constructor
    · rintro ⟨a, ha, rfl⟩
      exact ⟨a, (firstsFrom_sublist [] l).subset ha, rfl⟩
    · rintro ⟨a, ha, rfl⟩
      exact exists_firstsFrom ha List.not_mem_nil
  rw [← hgroups, List.toFinset_card_of_nodup hnodup, List.length_map]

end Firsts

section LatestGroups

variable [LinearOrder γ] {group : α → γ} {l : List α}

/-- The selected elements of a descending list descend strictly. -/
theorem firstsFrom_pairwise_lt (h : l.Pairwise (fun a b => group b ≤ group a)) :
    (firstsFrom group [] l).Pairwise (fun a b => group b < group a) := by
  have hle : (firstsFrom group [] l).Pairwise (fun a b => group b ≤ group a) :=
    h.sublist (firstsFrom_sublist [] l)
  refine (hle.and (firstsFrom_pairwise_ne [] l)).imp ?_
  intro a b hand
  exact lt_of_le_of_ne hand.1 hand.2.symm

/-- **The latest groups.**  The groups left out by taking the first selected
elements only precede all those taken. -/
theorem taken_or_lt (h : l.Pairwise (fun a b => group b ≤ group a)) (k : ℕ) {a : α}
    (ha : a ∈ l) :
    (∃ b ∈ (firstsFrom group [] l).take k, group b = group a) ∨
      ∀ b ∈ (firstsFrom group [] l).take k, group a < group b := by
  obtain ⟨first, hfirst, hgroup⟩ : ∃ b ∈ firstsFrom group [] l, group b = group a :=
    exists_firstsFrom ha List.not_mem_nil
  have hordered := firstsFrom_pairwise_lt h
  rw [← List.take_append_drop k (firstsFrom group [] l)] at hfirst hordered
  rcases List.mem_append.mp hfirst with htaken | hleft
  · exact Or.inl ⟨first, htaken, hgroup⟩
  · refine Or.inr ?_
    intro b hb
    rw [← hgroup]
    exact (List.pairwise_append.mp hordered).2.2 b hb first hleft

end LatestGroups

/-- The element of greatest key among those to which `key` gives one. -/
def maxBy? (key : α → Option β) (l : List α) : Option α :=
  ((l.filterMap (fun a => (key a).map (fun k => (k, a)))).argmax Prod.fst).map Prod.snd

theorem maxBy?_eq_none_iff {key : α → Option β} {l : List α} :
    maxBy? key l = none ↔ ∀ a ∈ l, key a = none := by
  simp [maxBy?]

/-- The chosen element is in the list, has a key, and no candidate's key
exceeds it. -/
theorem maxBy?_spec {key : α → Option β} {l : List α} {a : α}
    (h : maxBy? key l = some a) :
    a ∈ l ∧ ∃ k, key a = some k ∧
      ∀ b ∈ l, ∀ j, key b = some j → j ≤ k := by
  obtain ⟨⟨k, a'⟩, harg, rfl⟩ := Option.map_eq_some_iff.mp h
  have hmem := List.argmax_mem harg
  obtain ⟨b, hb, hkey⟩ := List.mem_filterMap.mp hmem
  obtain ⟨k', hk', heq⟩ := Option.map_eq_some_iff.mp hkey
  obtain ⟨rfl, rfl⟩ := Prod.mk.injEq .. ▸ heq
  refine ⟨hb, k', hk', ?_⟩
  intro c hc j hj
  have hcand : (j, c) ∈ l.filterMap (fun a => (key a).map (fun k => (k, a))) :=
    List.mem_filterMap.mpr ⟨c, hc, by simp [hj]⟩
  exact List.le_of_mem_argmax hcand harg

/-- When keys tell the candidates apart, the choice is characterised by being
the greatest candidate: it does not depend on the order of the list. -/
theorem maxBy?_eq_some_iff {key : α → Option β} {l : List α}
    (hinj : ∀ a ∈ l, ∀ b ∈ l, ∀ k, key a = some k → key b = some k → a = b)
    {a : α} :
    maxBy? key l = some a ↔
      a ∈ l ∧ ∃ k, key a = some k ∧
        ∀ b ∈ l, ∀ j, key b = some j → j ≤ k := by
  refine ⟨maxBy?_spec, ?_⟩
  intro hand
  obtain ⟨ha, k, hk, hmax⟩ := hand
  cases hchoice : maxBy? key l with
  | none =>
      have := maxBy?_eq_none_iff.mp hchoice a ha
      simp [hk] at this
  | some b =>
      obtain ⟨hb, j, hj, hbmax⟩ := maxBy?_spec hchoice
      have hkj : k = j := le_antisymm (hbmax a ha k hk) (hmax b hb j hj)
      subst hkj
      rw [hinj b hb a ha k hj hk]

/-- The choice looks at the keys of the list only. -/
theorem maxBy?_congr {key key' : α → Option β} {l : List α}
    (h : ∀ a ∈ l, key a = key' a) : maxBy? key l = maxBy? key' l := by
  have hcand : l.filterMap (fun a => (key a).map (fun k => (k, a))) =
      l.filterMap (fun a => (key' a).map (fun k => (k, a))) :=
    List.filterMap_congr (fun a ha => by rw [h a ha])
  simp only [maxBy?, hcand]

/-- Elements that are no candidates may be left out. -/
theorem maxBy?_filter {key : α → Option β} {l : List α} {p : α → Bool}
    (h : ∀ a ∈ l, p a = false → key a = none) : maxBy? key (l.filter p) = maxBy? key l := by
  have hcand : (l.filter p).filterMap (fun a => (key a).map (fun k => (k, a))) =
      l.filterMap (fun a => (key a).map (fun k => (k, a))) := by
    rw [List.filterMap_filter]
    apply List.filterMap_congr
    intro a ha
    cases hp : p a with
    | true => simp
    | false => simp [h a ha hp]
  simp only [maxBy?, hcand]

/-- An element without a key is not a candidate. -/
theorem maxBy?_concat_of_none {key : α → Option β} {l : List α} {a : α}
    (h : key a = none) : maxBy? key (l ++ [a]) = maxBy? key l := by
  simp [maxBy?, h]

/-- The first candidate is chosen. -/
theorem maxBy?_concat_first {key : α → Option β} {l : List α} {a : α} {k : β}
    (hl : maxBy? key l = none) (h : key a = some k) :
    maxBy? key (l ++ [a]) = some a := by
  have hcand : l.filterMap (fun a => (key a).map (fun k => (k, a))) = [] := by
    apply List.filterMap_eq_nil_iff.mpr
    intro b hb
    rw [maxBy?_eq_none_iff.mp hl b hb]
    rfl
  simp [maxBy?, hcand, h]

/-- A further candidate is chosen if its key is greater than the present one. -/
theorem maxBy?_concat_next {key : α → Option β} {l : List α} {a b : α} {j k : β}
    (hl : maxBy? key l = some b) (hb : key b = some j) (h : key a = some k) :
    maxBy? key (l ++ [a]) = if j < k then some a else some b := by
  obtain ⟨⟨j', b'⟩, harg, rfl⟩ := Option.map_eq_some_iff.mp hl
  have hj : j' = j := by
    obtain ⟨c, -, hc⟩ := List.mem_filterMap.mp (List.argmax_mem harg)
    obtain ⟨i, hi, heq⟩ := Option.map_eq_some_iff.mp hc
    obtain ⟨rfl, rfl⟩ := Prod.mk.inj heq
    exact Option.some.inj (hi.symm.trans hb)
  subst hj
  have hlast : [a].filterMap (fun a => (key a).map (fun k => (k, a))) = [(k, a)] := by
    simp [h]
  rw [maxBy?, List.filterMap_append, hlast, List.argmax_concat, harg]
  by_cases hlt : j' < k
  · simp [hlt]
  · simp [hlt]

end KeyedOrder
