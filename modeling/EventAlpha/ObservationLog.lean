import EventAlpha.KeyedOrder
import Mathlib.Data.List.Induction
import Mathlib.Data.Prod.Lex

/-!
# Deduplicated logs of observations

Observations arrive one after the other and are corrected by later ones.  An
observation has a key, an effective moment, a moment of receipt, a content
fingerprint and a value.  The log keeps an observation unless one with its
fingerprint arrived before (`kept`), and what it keeps it may record with loss
(`record`).  A read as of a moment takes, among the observations of a key that
were received by then, one of greatest effective moment and, among those, the
one received last (`inForce`).

The question is when the reads of the log are the reads of all observations.
`serves_iff` answers it for observations that arrive in order of receipt,
arrival by arrival: an observation that comes into force must repeat the one
in force if its fingerprint is known, and must be recorded without loss if it
is not.  In particular a value that returns after a correction is lost.
-/

namespace ObservationLog

open KeyedOrder

/-- What a log and its reads see of an observation. -/
structure View (α κ φ ε τ ν : Type*) where
  key : α → κ
  print : α → φ
  effective : α → ε
  received : α → τ
  value : α → ν
  record : α → ν

/-- A moment of receipt that a read as of `asOf` takes into account. -/
def SeenAt {τ : Type*} [LE τ] (asOf : Option τ) (received : τ) : Prop :=
  ∀ bound ∈ asOf, received ≤ bound

instance {τ : Type*} [LE τ] [DecidableLE τ] (asOf : Option τ) (received : τ) :
    Decidable (SeenAt asOf received) := by
  unfold SeenAt; infer_instance

@[simp] theorem seenAt_some {τ : Type*} [LE τ] {bound received : τ} :
    SeenAt (some bound) received ↔ received ≤ bound := by
  simp [SeenAt]

theorem SeenAt.of_le {τ : Type*} [Preorder τ] {asOf : Option τ} {early late : τ}
    (h : SeenAt asOf late) (hle : early ≤ late) : SeenAt asOf early :=
  fun bound hbound => hle.trans (h bound hbound)

namespace View

variable {α κ φ ε τ ν : Type*} (view : View α κ φ ε τ ν)

/-- The observations of every key arrive in strictly increasing receipt. -/
def Arrives [LT τ] (log : List α) : Prop :=
  log.Pairwise (fun a b => view.key a = view.key b → view.received a < view.received b)

variable {view} in
/-- Two observations of one key and one receipt are the same. -/
theorem Arrives.eq_of_received [Preorder τ] {log : List α} (h : view.Arrives log) {a b : α}
    (ha : a ∈ log) (hb : b ∈ log) (hkey : view.key a = view.key b)
    (hreceived : view.received a = view.received b) : a = b := by
  induction log using List.reverseRecOn with
  | nil => cases ha
  | append_singleton log o ih =>
      obtain ⟨hlog, -, hlast⟩ := List.pairwise_append.mp h
      rw [List.mem_append, List.mem_singleton] at ha hb
      rcases ha with ha | rfl <;> rcases hb with hb | rfl
      · exact ih hlog ha hb
      · exact absurd hreceived (hlast a ha b (List.mem_singleton_self b) hkey).ne
      · exact absurd hreceived.symm
          (hlast b hb a (List.mem_singleton_self a) hkey.symm).ne
      · rfl

section Kept

variable [DecidableEq φ]

/-- Keep one arrival unless its fingerprint is known. -/
def keep (rows : List α) (o : α) : List α :=
  if view.print o ∈ rows.map view.print then rows else rows ++ [o]

/-- The observations a deduplicated log keeps: the first of each fingerprint. -/
def kept (log : List α) : List α := log.foldl view.keep []

theorem kept_snoc (log : List α) (o : α) :
    view.kept (log ++ [o]) = view.keep (view.kept log) o := by
  simp [kept]

theorem kept_sublist (log : List α) : (view.kept log).Sublist log := by
  induction log using List.reverseRecOn with
  | nil => exact List.Sublist.refl []
  | append_singleton log o ih =>
      rw [kept_snoc, keep]
      split
      · exact ih.trans (List.sublist_append_left log [o])
      · exact ih.append (List.Sublist.refl [o])

/-- Every fingerprint that arrived is the fingerprint of a kept observation. -/
theorem mem_prints_kept {log : List α} {print : φ} :
    print ∈ (view.kept log).map view.print ↔ print ∈ log.map view.print := by
  induction log using List.reverseRecOn with
  | nil => rfl
  | append_singleton log o ih =>
      rw [kept_snoc, keep]
      split
      case isTrue hknown =>
        rw [ih, List.map_append, List.mem_append, List.map_singleton, List.mem_singleton]
        refine ⟨Or.inl, ?_⟩
        intro h
        rcases h with h | h
        · exact h
        · subst h
          exact ih.mp hknown
      case isFalse =>
        simp only [List.map_append, List.mem_append, ih]

/-- No two kept observations share a fingerprint. -/
theorem nodup_prints_kept (log : List α) : ((view.kept log).map view.print).Nodup := by
  induction log using List.reverseRecOn with
  | nil => exact List.nodup_nil
  | append_singleton log o ih =>
      rw [kept_snoc, keep]
      split
      case isTrue => exact ih
      case isFalse hnew =>
        rw [List.map_append, List.map_singleton]
        exact ih.append (List.nodup_singleton _) (List.disjoint_singleton.mpr hnew)

/-- A known fingerprint leaves the kept observations alone. -/
theorem kept_snoc_of_known {log : List α} {o : α}
    (h : view.print o ∈ log.map view.print) :
    view.kept (log ++ [o]) = view.kept log := by
  rw [kept_snoc, keep, if_pos ((view.mem_prints_kept).mpr h)]

/-- A new fingerprint is kept. -/
theorem kept_snoc_of_new {log : List α} {o : α}
    (h : view.print o ∉ log.map view.print) :
    view.kept (log ++ [o]) = view.kept log ++ [o] := by
  rw [kept_snoc, keep, if_neg (fun hmem => h (view.mem_prints_kept.mp hmem))]

variable {view}

theorem Arrives.kept [LT τ] {log : List α} (h : view.Arrives log) : view.Arrives (view.kept log) :=
  h.sublist (view.kept_sublist log)

theorem Arrives.kept_snoc [LT τ] {log : List α} {o : α} (h : view.Arrives (log ++ [o])) :
    view.Arrives (view.kept log ++ [o]) :=
  h.sublist ((view.kept_sublist log).append (List.Sublist.refl [o]))

end Kept

section InForce

variable [DecidableEq κ] [LinearOrder ε] [LinearOrder τ]

/-- The precedence of an observation among those of its key: the effective
moment first, the receipt second. -/
def rank (o : α) : ε ×ₗ τ := toLex (view.effective o, view.received o)

/-- The observation of a key that a read as of a moment has to return. -/
def inForce (log : List α) (k : κ) (asOf : Option τ) : Option α :=
  maxBy? (fun o => if view.key o = k ∧ SeenAt asOf (view.received o) then
    some (view.rank o) else none) log

variable {view}

theorem inForce_spec {log : List α} {k : κ} {asOf : Option τ} {o : α}
    (h : view.inForce log k asOf = some o) :
    o ∈ log ∧ view.key o = k ∧ SeenAt asOf (view.received o) ∧
      ∀ b ∈ log, view.key b = k → SeenAt asOf (view.received b) →
        view.rank b ≤ view.rank o := by
  obtain ⟨hmem, r, hr, hmax⟩ := maxBy?_spec h
  rw [Option.ite_none_right_eq_some] at hr
  obtain ⟨⟨hkey, hseen⟩, hr⟩ := hr
  refine ⟨hmem, hkey, hseen, ?_⟩
  intro b hb hbkey hbseen
  have hle := hmax b hb (view.rank b) (if_pos ⟨hbkey, hbseen⟩)
  rw [Option.some.inj hr]
  exact hle

theorem inForce_eq_none_iff {log : List α} {k : κ} {asOf : Option τ} :
    view.inForce log k asOf = none ↔
      ∀ o ∈ log, view.key o = k → ¬SeenAt asOf (view.received o) := by
  simp [inForce, maxBy?_eq_none_iff]

/-- The observation in force is the seen one of greatest rank. -/
theorem Arrives.inForce_eq_some {log : List α} (h : view.Arrives log) {k : κ}
    {asOf : Option τ} {o : α} (hmem : o ∈ log) (hkey : view.key o = k)
    (hseen : SeenAt asOf (view.received o))
    (hmax : ∀ b ∈ log, view.key b = k → SeenAt asOf (view.received b) →
      view.rank b ≤ view.rank o) :
    view.inForce log k asOf = some o := by
  cases hforce : view.inForce log k asOf with
  | none => exact absurd hseen (inForce_eq_none_iff.mp hforce o hmem hkey)
  | some b =>
      obtain ⟨hb, hbkey, hbseen, hbmax⟩ := inForce_spec hforce
      have hrank : view.rank o = view.rank b :=
        le_antisymm (hbmax o hmem hkey hseen) (hmax b hb hbkey hbseen)
      have hreceived : view.received o = view.received b :=
        congrArg (fun r => (ofLex r).2) hrank
      rw [h.eq_of_received hmem hb (hkey.trans hbkey.symm) hreceived]

/-- A read sees only the moments of receipt of its own key. -/
theorem inForce_congr {log : List α} {k : κ} {asOf asOf' : Option τ}
    (h : ∀ o ∈ log, view.key o = k →
      (SeenAt asOf (view.received o) ↔ SeenAt asOf' (view.received o))) :
    view.inForce log k asOf = view.inForce log k asOf' := by
  apply maxBy?_congr
  intro o ho
  by_cases hkey : view.key o = k
  · simp only [hkey, true_and, h o ho hkey]
  · simp only [hkey, false_and]

/-- An arrival of another key, or after the moment of the read, is not seen. -/
theorem inForce_snoc_of_unseen {log : List α} {o : α} {k : κ} {asOf : Option τ}
    (h : ¬(view.key o = k ∧ SeenAt asOf (view.received o))) :
    view.inForce (log ++ [o]) k asOf = view.inForce log k asOf :=
  maxBy?_concat_of_none (if_neg h)

/-- The first arrival of a key is in force. -/
theorem inForce_snoc_first {log : List α} {o : α} {asOf : Option τ}
    (hforce : view.inForce log (view.key o) asOf = none)
    (hseen : SeenAt asOf (view.received o)) :
    view.inForce (log ++ [o]) (view.key o) asOf = some o :=
  maxBy?_concat_first hforce (if_pos ⟨rfl, hseen⟩)

/-- A later arrival comes into force unless the one in force is effective
later. -/
theorem Arrives.inForce_snoc {log : List α} {o p : α}
    (h : view.Arrives (log ++ [o])) {asOf : Option τ}
    (hforce : view.inForce log (view.key o) asOf = some p)
    (hseen : SeenAt asOf (view.received o)) :
    view.inForce (log ++ [o]) (view.key o) asOf =
      if view.effective o < view.effective p then some p else some o := by
  obtain ⟨-, -, hlast⟩ := List.pairwise_append.mp h
  obtain ⟨hp, hpkey, hpseen, -⟩ := inForce_spec hforce
  have hbefore : view.received p < view.received o :=
    hlast p hp o (List.mem_singleton_self o) hpkey
  have hrank : view.rank p < view.rank o ↔ ¬view.effective o < view.effective p := by
    rw [rank, rank, Prod.Lex.toLex_lt_toLex, not_lt, le_iff_lt_or_eq]
    simp only [hbefore, and_true]
  rw [inForce, maxBy?_concat_next hforce (if_pos ⟨hpkey, hpseen⟩) (if_pos ⟨rfl, hseen⟩)]
  simp only [hrank, ite_not]

/-- As of a moment that sees the last arrival, all earlier arrivals of its key
are seen: the read is the read at its receipt. -/
theorem Arrives.inForce_before {log : List α} {o : α} (h : view.Arrives (log ++ [o]))
    {asOf : Option τ} (hseen : SeenAt asOf (view.received o)) :
    view.inForce log (view.key o) asOf =
      view.inForce log (view.key o) (some (view.received o)) := by
  obtain ⟨-, -, hlast⟩ := List.pairwise_append.mp h
  apply inForce_congr
  intro b hb hkey
  have hbefore : view.received b < view.received o :=
    hlast b hb o (List.mem_singleton_self o) hkey
  exact iff_of_true (hseen.of_le hbefore.le) (seenAt_some.mpr hbefore.le)

/-- There is a moment before the last arrival that sees all earlier arrivals
of its key. -/
theorem Arrives.exists_before {log : List α} {o p : α} (h : view.Arrives (log ++ [o]))
    (hp : view.inForce log (view.key o) (some (view.received o)) = some p) :
    ∃ bound : τ, bound < view.received o ∧
      ∀ b ∈ log, view.key b = view.key o → view.received b ≤ bound := by
  obtain ⟨-, -, hlast⟩ := List.pairwise_append.mp h
  obtain ⟨hpmem, hpkey, -, -⟩ := inForce_spec hp
  have hchoice : ∃ b, maxBy? (fun b => if view.key b = view.key o then
      some (view.received b) else none) log = some b := by
    apply Option.ne_none_iff_exists'.mp
    intro hnone
    have := maxBy?_eq_none_iff.mp hnone p hpmem
    simp [hpkey] at this
  obtain ⟨b, hb⟩ := hchoice
  obtain ⟨hbmem, m, hm, hmax⟩ := maxBy?_spec hb
  rw [Option.ite_none_right_eq_some] at hm
  obtain ⟨hbkey, hm⟩ := hm
  refine ⟨view.received b, hlast b hbmem o (List.mem_singleton_self o) hbkey, ?_⟩
  intro c hc hckey
  rw [Option.some.inj hm]
  exact hmax c hc (view.received c) (if_pos hckey)

end InForce

section Serves

variable [DecidableEq κ] [DecidableEq φ] [LinearOrder ε] [LinearOrder τ]

/-- A kept observation stands for one that has to be returned: it is effective
at the same moment, and its record is the other's value. -/
def StandsFor (row o : α) : Prop :=
  view.effective row = view.effective o ∧ view.record row = view.value o

/-- Every read of the kept observations, of the watched keys and as of every
moment, returns what the read of all observations returns. -/
def Serves (watched : κ → Prop) (log : List α) : Prop :=
  ∀ k, watched k → ∀ asOf : Option τ,
    Option.Rel view.StandsFor (view.inForce (view.kept log) k asOf) (view.inForce log k asOf)

/-- The condition on one arrival.  One that is older than the observation in
force needs nothing.  Any other must repeat the one in force if its
fingerprint is known, and must be recorded without loss if it is new. -/
def Admits (log : List α) (o : α) : Prop :=
  (∃ p, view.inForce log (view.key o) (some (view.received o)) = some p ∧
    view.effective o < view.effective p) ∨
  if view.print o ∈ log.map view.print then
    ∃ p, view.inForce log (view.key o) (some (view.received o)) = some p ∧
      view.effective p = view.effective o ∧ view.value p = view.value o
  else view.record o = view.value o

variable {view}

theorem Arrives.inForce_kept_before {log : List α} {o : α} (h : view.Arrives (log ++ [o]))
    {asOf : Option τ} (hseen : SeenAt asOf (view.received o)) :
    view.inForce (view.kept log) (view.key o) asOf =
      view.inForce (view.kept log) (view.key o) (some (view.received o)) :=
  h.kept_snoc.inForce_before hseen

/-- Where nothing is in force, nothing that was kept is. -/
theorem inForce_kept_of_none {log : List α} {k : κ} {asOf : Option τ}
    (h : view.inForce log k asOf = none) : view.inForce (view.kept log) k asOf = none := by
  apply inForce_eq_none_iff.mpr
  intro o ho
  exact inForce_eq_none_iff.mp h o ((view.kept_sublist log).subset ho)

/-- A read that does not see an arrival does not see whether it was kept. -/
theorem inForce_kept_snoc_of_unseen {log : List α} {o : α} {k : κ}
    {asOf : Option τ} (hunseen : ¬(view.key o = k ∧ SeenAt asOf (view.received o))) :
    view.inForce (view.kept (log ++ [o])) k asOf = view.inForce (view.kept log) k asOf := by
  by_cases hknown : view.print o ∈ log.map view.print
  · rw [kept_snoc_of_known view hknown]
  · rw [kept_snoc_of_new view hknown, inForce_snoc_of_unseen hunseen]

/-- What serves all arrivals served them before the last one. -/
theorem Serves.of_snoc {watched : κ → Prop} {log : List α} {o : α}
    (h : view.Arrives (log ++ [o])) (hserves : view.Serves watched (log ++ [o])) :
    view.Serves watched log := by
  have hunseen : ∀ k, watched k → ∀ asOf : Option τ,
      ¬(view.key o = k ∧ SeenAt asOf (view.received o)) →
      Option.Rel view.StandsFor (view.inForce (view.kept log) k asOf)
        (view.inForce log k asOf) := by
    intro k hk asOf hnot
    have hrel := hserves k hk asOf
    rw [inForce_kept_snoc_of_unseen hnot, inForce_snoc_of_unseen hnot] at hrel
    exact hrel
  intro k hk asOf
  by_cases hsees : view.key o = k ∧ SeenAt asOf (view.received o)
  case neg => exact hunseen k hk asOf hsees
  case pos =>
    obtain ⟨rfl, hseen⟩ := hsees
    rw [h.inForce_before hseen, h.inForce_kept_before hseen]
    cases hp : view.inForce log (view.key o) (some (view.received o)) with
    | none =>
        rw [inForce_kept_of_none hp]
        exact Option.Rel.none
    | some p =>
        -- a moment just before the arrival reads the same
        obtain ⟨bound, hbound, hall⟩ := h.exists_before hp
        have hsame : ∀ rows : List α, rows ⊆ log →
            view.inForce rows (view.key o) (some (view.received o)) =
              view.inForce rows (view.key o) (some bound) := by
          intro rows hrows
          apply inForce_congr
          intro b hb hkey
          have hle := hall b (hrows hb) hkey
          exact iff_of_true (seenAt_some.mpr (hle.trans hbound.le)) (seenAt_some.mpr hle)
        have hrel := hunseen (view.key o) hk (some bound)
          (fun hand => not_le_of_gt hbound (seenAt_some.mp hand.2))
        rw [← hp, hsame log (List.Subset.refl log),
          hsame (view.kept log) (view.kept_sublist log).subset]
        exact hrel

/-- The read of the arrival's own key stays right exactly when the arrival is
admitted. -/
theorem Arrives.standsFor_snoc_iff {log : List α} {o : α}
    (h : view.Arrives (log ++ [o])) {asOf : Option τ}
    (hseen : SeenAt asOf (view.received o))
    (hbefore : Option.Rel view.StandsFor
      (view.inForce (view.kept log) (view.key o) asOf)
      (view.inForce log (view.key o) asOf)) :
    Option.Rel view.StandsFor (view.inForce (view.kept (log ++ [o])) (view.key o) asOf)
        (view.inForce (log ++ [o]) (view.key o) asOf) ↔
      view.Admits log o := by
  rw [Admits, ← h.inForce_before hseen]
  generalize hrow : view.inForce (view.kept log) (view.key o) asOf = row at hbefore
  generalize hfull : view.inForce log (view.key o) asOf = full at hbefore
  cases hbefore with
  | none =>
      -- the first arrival of its key: it comes into force
      rw [inForce_snoc_first hfull hseen]
      by_cases hknown : view.print o ∈ log.map view.print
      · rw [kept_snoc_of_known view hknown, hrow, if_pos hknown]
        simp
      · rw [kept_snoc_of_new view hknown, inForce_snoc_first hrow hseen, if_neg hknown]
        simp [StandsFor]
  | @some r p hrp =>
      obtain ⟨heffective, hrecord⟩ := hrp
      rw [h.inForce_snoc hfull hseen]
      by_cases holder : view.effective o < view.effective p
      · -- older than the observation in force: nothing changes
        have hstands : view.StandsFor r p := ⟨heffective, hrecord⟩
        rw [if_pos holder]
        refine iff_of_true ?_ (Or.inl ⟨p, rfl, holder⟩)
        by_cases hknown : view.print o ∈ log.map view.print
        · rw [kept_snoc_of_known view hknown, hrow]
          exact Option.Rel.some hstands
        · rw [kept_snoc_of_new view hknown, h.kept_snoc.inForce_snoc hrow hseen, heffective,
            if_pos holder]
          exact Option.Rel.some hstands
      · -- it comes into force
        rw [if_neg holder]
        by_cases hknown : view.print o ∈ log.map view.print
        · rw [kept_snoc_of_known view hknown, hrow, if_pos hknown]
          simp [StandsFor, heffective, hrecord, holder]
        · rw [kept_snoc_of_new view hknown, h.kept_snoc.inForce_snoc hrow hseen, heffective,
            if_neg holder, if_neg hknown]
          simp [StandsFor, holder]

/-- One arrival: the reads stay right exactly when it is admitted, unless its
key is not watched. -/
theorem Arrives.serves_snoc_iff {watched : κ → Prop} {log : List α} {o : α}
    (h : view.Arrives (log ++ [o])) :
    view.Serves watched (log ++ [o]) ↔
      view.Serves watched log ∧ (watched (view.key o) → view.Admits log o) := by
  have hseen : SeenAt (some (view.received o)) (view.received o) :=
    seenAt_some.mpr le_rfl
  constructor
  · intro hserves
    have hlog := Serves.of_snoc h hserves
    refine ⟨hlog, ?_⟩
    intro hwatched
    exact (h.standsFor_snoc_iff hseen (hlog _ hwatched _)).mp (hserves _ hwatched _)
  · intro hand k hk asOf
    obtain ⟨hlog, hadmits⟩ := hand
    by_cases hsees : view.key o = k ∧ SeenAt asOf (view.received o)
    · obtain ⟨rfl, hsees⟩ := hsees
      exact (h.standsFor_snoc_iff hsees (hlog _ hk _)).mpr (hadmits hk)
    · rw [inForce_kept_snoc_of_unseen hsees, inForce_snoc_of_unseen hsees]
      exact hlog k hk asOf

/-- Every arrival of a watched key is admitted after those before it. -/
def AdmitsAll (view : View α κ φ ε τ ν) (watched : κ → Prop) (log : List α) : Prop :=
  ∀ before o, before ++ [o] <+: log → watched (view.key o) → view.Admits before o

/-- **Deduplicated reads.**  The kept observations serve every read exactly
when every arrival was admitted. -/
theorem serves_iff {watched : κ → Prop} {log : List α} (h : view.Arrives log) :
    view.Serves watched log ↔ view.AdmitsAll watched log := by
  induction log using List.reverseRecOn with
  | nil =>
      refine iff_of_true ?_ ?_
      · intro k _ asOf
        exact Option.Rel.none
      · intro before o hbefore
        have hnil := List.prefix_nil.mp hbefore
        simp at hnil
  | append_singleton log o ih =>
      have hlog : view.Arrives log := (List.pairwise_append.mp h).1
      rw [h.serves_snoc_iff, ih hlog]
      constructor
      · intro hand before o' hbefore
        rcases List.prefix_concat_iff.mp hbefore with heq | hbefore
        · obtain ⟨rfl, rfl⟩ := List.append_singleton_inj.mp heq
          exact hand.2
        · exact hand.1 before o' hbefore
      · intro hall
        refine ⟨?_, hall log o (List.prefix_refl _)⟩
        intro before o' hbefore
        exact hall before o' (hbefore.trans (List.prefix_append log [o]))

end Serves

end View

end ObservationLog
