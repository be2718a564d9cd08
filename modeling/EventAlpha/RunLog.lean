import Mathlib.Data.List.Basic
import Mathlib.Data.List.Induction

/-!
# Runs with their moves

A run of a step relation that keeps every move it took: the state before, the
action and the state after.  A property of a run is then a property of its
list of moves, and what happened earlier or later is a matter of splitting
that list.

Two rules do the work.  A run may be cut at any move (`Run.at_move`), and what
every step keeps, the run keeps (`Run.keeps`).
-/

namespace RunLog

variable {σ α : Type*}

/-- One step of a run. -/
structure Move (σ α : Type*) where
  before : σ
  action : α
  after : σ

/-- A run of a step relation from a first state, with every move it took. -/
inductive Run (step : σ → α → σ → Prop) (first : σ) : List (Move σ α) → σ → Prop
  | nil : Run step first [] first
  | snoc {moves : List (Move σ α)} {state state' : σ} {action : α}
      (h : Run step first moves state) (hstep : step state action state') :
      Run step first (moves ++ [⟨state, action, state'⟩]) state'

variable {step : σ → α → σ → Prop} {first last : σ} {moves earlier later : List (Move σ α)}
  {move : Move σ α}

/-- The last move of a run is a step out of the run before it. -/
theorem Run.of_snoc (h : Run step first (moves ++ [move]) last) :
    Run step first moves move.before ∧ step move.before move.action move.after ∧
      move.after = last := by
  generalize hall : moves ++ [move] = all at h
  cases h with
  | nil => simp at hall
  | @snoc moves' state state' action hrun hstep =>
      obtain ⟨rfl, hmove⟩ := List.append_inj' hall rfl
      obtain rfl := List.singleton_inj.mp hmove
      exact ⟨hrun, hstep, rfl⟩

/-- A run may be cut anywhere. -/
theorem Run.cut (h : Run step first (earlier ++ later) last) :
    ∃ middle, Run step first earlier middle ∧ Run step middle later last := by
  induction later using List.reverseRecOn generalizing last with
  | nil =>
      rw [List.append_nil] at h
      exact ⟨last, h, Run.nil⟩
  | append_singleton later move ih =>
      rw [← List.append_assoc] at h
      obtain ⟨hrun, hstep, rfl⟩ := h.of_snoc
      obtain ⟨middle, hearlier, hlater⟩ := ih hrun
      exact ⟨middle, hearlier, hlater.snoc hstep⟩

/-- A run may be cut at any of its moves. -/
theorem Run.at_move (h : Run step first (earlier ++ move :: later) last) :
    Run step first earlier move.before ∧ step move.before move.action move.after ∧
      Run step move.after later last := by
  rw [List.append_cons] at h
  obtain ⟨middle, hearlier, hlater⟩ := h.cut
  obtain ⟨hrun, hstep, rfl⟩ := hearlier.of_snoc
  exact ⟨hrun, hstep, hlater⟩

/-- Two runs, one after the other. -/
theorem Run.append {middle : σ} (h : Run step first earlier middle)
    (hlater : Run step middle later last) : Run step first (earlier ++ later) last := by
  induction hlater with
  | nil => rwa [List.append_nil]
  | snoc _ hstep ih =>
      rw [← List.append_assoc]
      exact ih.snoc hstep

/-- A run out of a state that takes no step has no move. -/
theorem Run.eq_nil (h : Run step first moves last)
    (hfinal : ∀ action after, ¬step first action after) : moves = [] ∧ last = first := by
  induction h with
  | nil => exact ⟨rfl, rfl⟩
  | snoc _ hstep ih =>
      obtain ⟨-, rfl⟩ := ih
      exact absurd hstep (hfinal _ _)

/-- The first move of a run, and the run after it. -/
theorem Run.cases_first (h : Run step first moves last) :
    moves = [] ∧ last = first ∨ ∃ action after later, moves = ⟨first, action, after⟩ :: later ∧
      step first action after ∧ Run step after later last := by
  cases moves with
  | nil =>
      generalize hnil : ([] : List (Move σ α)) = all at h
      cases h with
      | nil => exact .inl ⟨rfl, rfl⟩
      | snoc _ _ => simp at hnil
  | cons move later =>
      have hcut : Run step first ([] ++ move :: later) last := h
      obtain ⟨hfirst, hstep, hlater⟩ := hcut.at_move
      have hbefore : move.before = first := by
        generalize hnil : ([] : List (Move σ α)) = all at hfirst
        cases hfirst with
        | nil => rfl
        | snoc _ _ => simp at hnil
      subst hbefore
      exact .inr ⟨move.action, move.after, later, rfl, hstep, hlater⟩

/-- What every step keeps, the run keeps. -/
theorem Run.keeps {P : σ → Prop} (hkeep : ∀ state action state', P state →
    step state action state' → P state') (h : Run step first moves last) (hfirst : P first) :
    P last := by
  induction h with
  | nil => exact hfirst
  | snoc _ hstep ih => exact hkeep _ _ _ ih hstep

/-- What holds at every cut of a list holds at the last one and at those
before. -/
theorem forall_cut_snoc {α : Type*} {P : List α → α → Prop} {l : List α} {a : α} :
    (∀ earlier b later, l ++ [a] = earlier ++ b :: later → P earlier b) ↔
      (∀ earlier b later, l = earlier ++ b :: later → P earlier b) ∧ P l a := by
  constructor
  · intro hall
    refine ⟨?_, hall l a [] rfl⟩
    intro earlier b later hcut
    apply hall earlier b (later ++ [a])
    rw [hcut, List.append_assoc, List.cons_append]
  · intro hand earlier b later hcut
    obtain ⟨hall, hlast⟩ := hand
    rcases List.eq_nil_or_concat later with rfl | ⟨later', last, rfl⟩
    · obtain ⟨rfl, hlist⟩ := List.append_inj' hcut rfl
      rwa [← List.singleton_inj.mp hlist]
    · rw [List.concat_eq_append, ← List.cons_append, ← List.append_assoc] at hcut
      exact hall earlier b later' (List.append_inj' hcut rfl).1

end RunLog
