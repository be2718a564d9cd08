import Mathlib.Data.List.SplitBy

/-!
# Splitting a list into runs

A loop that reads a list and either extends the last of the runs it has built or
opens a new one builds `List.splitBy` (`foldl_pushRun`).  Two facts about these
runs are stated for programs that report them: a list is cut between two
neighbours exactly where they are unrelated (`cut_splitBy_iff`), and there is
one run more than there are such places (`length_splitBy`).
-/

namespace SplitRuns

variable {α : Type*} {r : α → α → Bool}

/-- One turn of the loop. -/
def pushRun (r : α → α → Bool) (runs : List (List α)) (x : α) : List (List α) :=
  match runs.getLast? with
  | none => runs ++ [[x]]
  | some current =>
      match current.getLast? with
      | none => runs.dropLast ++ [current ++ [x]]
      | some previous =>
          if r previous x then runs.dropLast ++ [current ++ [x]] else runs ++ [[x]]

/-- A list of runs is cut between two parts of the list. -/
def Cut (runs : List (List α)) (before after : List α) : Prop :=
  ∃ left right, runs = left ++ right ∧ left.flatten = before ∧ right.flatten = after

/-- The last run of a list ends with its last element. -/
theorem exists_last_run (l : List α) (a : α) :
    ∃ runs run, (l ++ [a]).splitBy r = runs ++ [run ++ [a]] := by
  have hne : (l ++ [a]).splitBy r ≠ [] := List.splitBy_ne_nil.mpr (by simp)
  obtain ⟨runs, last, hruns⟩ : ∃ runs last, (l ++ [a]).splitBy r = runs ++ [last] :=
    ⟨_, _, (List.dropLast_append_getLast hne).symm⟩
  have hlast : last ≠ [] := by
    apply List.ne_nil_of_mem_splitBy (r := r)
    rw [hruns]
    exact List.mem_append_right _ (List.mem_singleton_self _)
  obtain ⟨run, x, hrun⟩ : ∃ run x, last = run ++ [x] :=
    ⟨_, _, (List.dropLast_append_getLast hlast).symm⟩
  have hflatten := List.flatten_splitBy r (l ++ [a])
  rw [hruns, hrun, List.flatten_append, List.flatten_singleton, ← List.append_assoc] at hflatten
  obtain ⟨-, hx⟩ := List.append_inj' hflatten rfl
  rw [List.singleton_inj] at hx
  exact ⟨runs, run, by rw [hruns, hrun, hx]⟩

/-- One more element extends the last run if the two are related. -/
theorem splitBy_snoc_of_related {l : List α} {a x : α} {runs : List (List α)} {run : List α}
    (h : (l ++ [a]).splitBy r = runs ++ [run ++ [a]]) (hrelated : r a x = true) :
    (l ++ [a] ++ [x]).splitBy r = runs ++ [run ++ [a] ++ [x]] := by
  obtain ⟨hflatten, hnil, hchain, hcuts⟩ := List.splitBy_eq_iff.mp h
  refine List.splitBy_eq_iff.mpr ⟨?_, ?_, ?_, ?_⟩
  · rw [hflatten]
    simp
  · intro hmem
    rcases List.mem_append.mp hmem with hmem | hmem
    · exact hnil (List.mem_append_left _ hmem)
    · simp at hmem
  · intro m hm
    rcases List.mem_append.mp hm with hm | hm
    · exact hchain m (List.mem_append_left _ hm)
    · rw [List.mem_singleton.mp hm]
      have hrun := hchain (run ++ [a]) (List.mem_append_right _ (List.mem_singleton_self _))
      refine List.isChain_append.mpr ⟨hrun, List.isChain_singleton x, ?_⟩
      intro last hlast head hhead
      simp at hlast hhead
      rw [← hlast, ← hhead]
      exact hrelated
  · rw [List.isChain_append] at hcuts ⊢
    refine ⟨hcuts.1, List.isChain_singleton _, ?_⟩
    intro last hlast head hhead
    obtain ⟨hne, hne', hcut⟩ := hcuts.2.2 last hlast (run ++ [a]) (by simp)
    obtain rfl : run ++ [a] ++ [x] = head := by simpa using hhead
    refine ⟨hne, by simp, ?_⟩
    rw [List.head_append_of_ne_nil hne']
    exact hcut

/-- One more element opens a run of its own if the two are unrelated. -/
theorem splitBy_snoc_of_unrelated {l : List α} {a x : α} (hunrelated : r a x = false) :
    (l ++ [a] ++ [x]).splitBy r = (l ++ [a]).splitBy r ++ [[x]] := by
  refine List.splitBy_append_cons [] ?_
  intro last hlast
  rw [List.getLast?_concat, Option.mem_some_iff] at hlast
  rw [← hlast]
  exact hunrelated

/-- One turn of the loop splits one more element. -/
theorem pushRun_splitBy (l : List α) (x : α) :
    pushRun r (l.splitBy r) x = (l ++ [x]).splitBy r := by
  rcases List.eq_nil_or_concat' l with rfl | ⟨l, a, rfl⟩
  · rfl
  · obtain ⟨runs, run, hruns⟩ := exists_last_run (r := r) l a
    rw [pushRun, hruns]
    simp only [List.getLast?_concat, List.dropLast_concat]
    cases hrelated : r a x with
    | true => rw [splitBy_snoc_of_related hruns hrelated, if_pos rfl]
    | false => rw [splitBy_snoc_of_unrelated hrelated, if_neg (by simp), hruns]

/-- **The loop.** -/
theorem foldl_pushRun (l : List α) : l.foldl (pushRun r) [] = l.splitBy r := by
  induction l using List.reverseRecOn with
  | nil => rfl
  | append_singleton l x ih => rw [List.foldl_append, List.foldl_cons, List.foldl_nil, ih,
      pushRun_splitBy]

/-- **Cuts.**  The runs are cut between two neighbours if and only if these are
unrelated. -/
theorem cut_splitBy_iff (before after : List α) (a b : α) :
    Cut ((before ++ a :: b :: after).splitBy r) (before ++ [a]) (b :: after) ↔ r a b = false := by
  constructor
  · intro hex
    obtain ⟨left, right, hruns, hleft, hright⟩ := hex
    obtain ⟨-, hnil, -, hcuts⟩ := List.splitBy_eq_iff.mp hruns
    rcases List.eq_nil_or_concat' left with rfl | ⟨left, run, rfl⟩
    · simp at hleft
    rcases right with _ | ⟨run', right⟩
    · simp at hright
    have hrun : run ≠ [] := fun heq => hnil (by simp [heq])
    have hrun' : run' ≠ [] := fun heq => hnil (by simp [heq])
    -- the two runs at the cut end and begin with the two neighbours
    obtain ⟨init, x, rfl⟩ := List.eq_nil_or_concat' run |>.resolve_left hrun
    obtain ⟨y, rest, rfl⟩ := List.exists_cons_of_ne_nil hrun'
    have hx : x = a := by
      rw [List.flatten_append, List.flatten_singleton, ← List.append_assoc] at hleft
      exact List.singleton_inj.mp (List.append_inj' hleft rfl).2
    have hy : y = b := by
      rw [List.flatten_cons, List.cons_append] at hright
      exact (List.cons.inj hright).1
    obtain ⟨_, _, hcut⟩ := (List.isChain_append.mp hcuts).2.2 (init ++ [x]) (by simp)
      (y :: rest) (by simp)
    rw [List.getLast_append_singleton, List.head_cons, hx, hy] at hcut
    exact hcut
  · intro hunrelated
    refine ⟨(before ++ [a]).splitBy r, (b :: after).splitBy r, ?_, List.flatten_splitBy _ _,
      List.flatten_splitBy _ _⟩
    rw [← List.splitBy_append_cons after (by simpa using hunrelated)]
    simp

/-- The pairs of neighbours in a list. -/
def neighbours (l : List α) : List (α × α) := l.zip l.tail

theorem neighbours_map {β : Type*} (f : α → β) (l : List α) :
    neighbours (l.map f) = (neighbours l).map (Prod.map f f) := by
  rw [neighbours, ← List.map_tail, List.zip_map]
  rfl

theorem neighbours_snoc (l : List α) (a x : α) :
    neighbours (l ++ [a] ++ [x]) = neighbours (l ++ [a]) ++ [(a, x)] := by
  induction l with
  | nil => rfl
  | cons b l ih =>
      cases l with
      | nil => rfl
      | cons c l => exact congrArg (List.cons (b, c)) ih

/-- There is one run more than there are unrelated neighbours. -/
theorem length_splitBy {l : List α} (h : l ≠ []) :
    (l.splitBy r).length = (neighbours l).countP (fun pair => !r pair.1 pair.2) + 1 := by
  induction l using List.reverseRecOn with
  | nil => exact absurd rfl h
  | append_singleton l x ih =>
      rcases List.eq_nil_or_concat' l with rfl | ⟨l, a, rfl⟩
      · rfl
      · rw [neighbours_snoc, List.countP_append]
        have hlength := ih (by simp)
        obtain ⟨runs, run, hruns⟩ := exists_last_run (r := r) l a
        cases hrelated : r a x with
        | true =>
            rw [splitBy_snoc_of_related hruns hrelated]
            rw [hruns] at hlength
            simpa [hrelated] using hlength
        | false =>
            rw [splitBy_snoc_of_unrelated hrelated, List.length_append, hlength]
            simp [hrelated]

end SplitRuns
