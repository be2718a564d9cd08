import EventAlpha.MemoryRefinement
import Mathlib.Data.List.Dedup
import Mathlib.Data.List.TakeDrop

/-!
# Recovery of the ingestion worker

The worker builds a service over the database, walks through the streams of
its providers and ingests every item.  Nothing is caught: the first stream or
ingestion that raises ends the process, and so does a kill.  The next process
starts over, with the streams from their beginning, and the items it sees
again have new identifiers and new times of receipt.

What a sequence of such passes leaves behind is what one pass would have left
that was never interrupted, over the feed in which every item is as it was
when it was first handled (`worker_recovers`).  Passes that hand over the same
items differ only in how far they get, so nothing but the longest one counts.
-/

namespace EventAlpha

open KeyedOrder VersionLog

/-- What the stream of one provider hands over, and whether it raises then. -/
structure NewsStream where
  items : List RawEnvelope
  raises : Bool

/-- The items of one stream after the other, until one raises. -/
def delivered : List NewsStream → List RawEnvelope
  | [] => []
  | stream :: rest => stream.items ++ if stream.raises then [] else delivered rest

/-- One process of the worker: its streams, and its calls with their replies. -/
structure Pass where
  streams : List NewsStream
  entries : List (Call × Reply)

/-- The items a pass handed over. -/
def Pass.items (pass : Pass) : List RawEnvelope := delivered pass.streams

/-- The items a pass ingested, with the identifiers drawn. -/
def Pass.handled (pass : Pass) : List (RawEnvelope × Uuid) := ingestedSteps pass.entries

/-- The number of items the longest pass ingested. -/
def longest (passes : List Pass) : ℕ :=
  passes.foldl (fun length pass => max length pass.handled.length) 0

/-- The feed of a sequence of passes, in which every item is as it was when a
pass first got to it. -/
def mergedSteps (passes : List Pass) : List (RawEnvelope × Uuid) :=
  passes.foldl (fun merged pass => merged ++ pass.handled.drop merged.length) []

theorem longest_snoc (passes : List Pass) (pass : Pass) :
    longest (passes ++ [pass]) = max (longest passes) pass.handled.length := by
  rw [longest, List.foldl_append]
  rfl

theorem mergedSteps_snoc (passes : List Pass) (pass : Pass) :
    mergedSteps (passes ++ [pass]) =
      mergedSteps passes ++ pass.handled.drop (mergedSteps passes).length := by
  rw [mergedSteps, List.foldl_append]
  rfl

theorem le_longest {passes : List Pass} {pass : Pass} (hmem : pass ∈ passes) :
    pass.handled.length ≤ longest passes := by
  induction passes using List.reverseRecOn with
  | nil => cases hmem
  | append_singleton passes last ih =>
      rw [longest_snoc]
      rcases List.mem_append.mp hmem with hold | hlast
      · exact (ih hold).trans (le_max_left _ _)
      · rw [List.mem_singleton.mp hlast]
        exact le_max_right _ _

/-- A prefix goes on where a shorter one ends. -/
theorem take_append_drop_take {α : Type*} (l : List α) (m n : ℕ) :
    l.take m ++ (l.take n).drop m = l.take (max m n) := by
  rcases le_total m n with hle | hle
  · rw [max_eq_right hle]
    have hfirst : l.take m = (l.take n).take m := by rw [List.take_take, min_eq_left hle]
    rw [hfirst, List.take_append_drop]
  · rw [max_eq_left hle, List.drop_eq_nil_of_le, List.append_nil]
    exact (List.length_take_le _ _).trans hle

theorem mem_take_max {α : Type*} {l : List α} {m n : ℕ} {a : α} :
    a ∈ l.take (max m n) ↔ a ∈ l.take m ∨ a ∈ l.take n := by
  rcases le_total m n with hle | hle
  · rw [max_eq_right hle]
    exact (or_iff_right_of_imp (fun h => List.take_subset_take_left l hle h)).symm
  · rw [max_eq_left hle]
    exact (or_iff_left_of_imp (fun h => List.take_subset_take_left l hle h)).symm

section Worker

variable [CharacterTables]

/-- The loop of `main` over the items handed over, until an ingestion raises. -/
inductive Ingests : System → List RawEnvelope → List (Call × Reply) → System → Prop
  | finished (system : System) : Ingests system [] [] system
  | ingested {system last : System} {envelope : RawEnvelope} {newId : Uuid} {fault : Bool}
      {result : IngestResult} {rest : List RawEnvelope} {entries : List (Call × Reply)}
      (hfresh : system.Unused newId)
      (hreply : (system.ingest envelope newId fault).1 = .ok result)
      (h : Ingests (system.ingest envelope newId fault).2 rest entries last) :
      Ingests system (envelope :: rest)
        ((.ingest envelope newId fault, .ingested (.ok result)) :: entries) last
  | raised {system : System} {envelope : RawEnvelope} {newId : Uuid} {fault : Bool}
      {error : IngestError} {rest : List RawEnvelope} (hfresh : system.Unused newId)
      (hreply : (system.ingest envelope newId fault).1 = .error error) :
      Ingests system (envelope :: rest)
        [(.ingest envelope newId fault, .ingested (.error error))]
        (system.ingest envelope newId fault).2

/-- `main`: a service is built over the database, and ingests. -/
inductive WorkerPass (system : System) : Pass → System → Prop
  | main {state : PersistedEventState} {streams : List NewsStream}
      {entries : List (Call × Reply)} {last : System}
      (hload : system.db.LoadsState system.db (.ok state))
      (h : Ingests ⟨.ofState state, system.db⟩ (delivered streams) entries last) :
      WorkerPass system ⟨streams, (.restart, .loaded (.ok ())) :: entries⟩ last

/-- One process of the worker after the other, over one database. -/
inductive WorkerRuns : List Pass → System → Prop
  | nil : WorkerRuns [] System.start
  | snoc {passes : List Pass} {pass : Pass} {system system' : System}
      (h : WorkerRuns passes system) (hpass : WorkerPass system pass system') :
      WorkerRuns (passes ++ [pass]) system'

/-- The calls of the loop, after those of a run. -/
theorem Ingests.trace {first system last : System} {items : List RawEnvelope}
    {before entries : List (Call × Reply)} (h : Ingests system items entries last)
    (hbefore : Trace first before system) : Trace first (before ++ entries) last := by
  induction h generalizing before with
  | finished system =>
      rw [List.append_nil]
      exact hbefore
  | @ingested system last envelope newId fault result rest entries hfresh hreply _ ih =>
      have hstep := Step.ingest system envelope newId fault hfresh
      rw [hreply] at hstep
      rw [List.append_cons]
      exact ih (hbefore.snoc hstep)
  | @raised system envelope newId fault error rest hfresh hreply =>
      have hstep := Step.ingest system envelope newId fault hfresh
      rw [hreply] at hstep
      exact hbefore.snoc hstep

/-- What the loop ingested comes first in what was handed over. -/
theorem Ingests.handled_prefix {system last : System} {items : List RawEnvelope}
    {entries : List (Call × Reply)} (h : Ingests system items entries last) :
    (ingestedSteps entries).map Prod.fst <+: items := by
  induction h with
  | finished system => exact List.nil_prefix
  | ingested _ _ _ ih => exact List.cons_prefix_cons.mpr ⟨rfl, ih⟩
  | raised _ _ => exact List.nil_prefix

/-- What the loop was called with was handed over. -/
theorem Ingests.envelopes_subset {system last : System} {items : List RawEnvelope}
    {entries : List (Call × Reply)} (h : Ingests system items entries last) :
    envelopesOf entries ⊆ items := by
  induction h with
  | finished system => exact List.Subset.refl _
  | ingested _ _ _ ih => exact List.cons_subset_cons _ ih
  | raised _ _ => exact List.cons_subset_cons _ (List.nil_subset _)

theorem WorkerRuns.trace {passes : List Pass} {system : System} (h : WorkerRuns passes system) :
    Trace System.start (passes.flatMap Pass.entries) system := by
  induction h with
  | nil => exact Trace.nil
  | snoc h hpass ih =>
      rw [List.flatMap_append, List.flatMap_singleton]
      cases hpass with
      | main hload hrun =>
          have hrestart := ih.snoc (Step.restart _ _ hload)
          have htrace := hrun.trace hrestart
          rw [List.append_assoc] at htrace
          exact htrace

theorem WorkerPass.handled_prefix {system system' : System} {pass : Pass}
    (h : WorkerPass system pass system') : pass.handled.map Prod.fst <+: pass.items := by
  cases h with
  | main _ hrun => exact hrun.handled_prefix

theorem WorkerRuns.envelopes_subset {passes : List Pass} {system : System}
    (h : WorkerRuns passes system) :
    envelopesOf (passes.flatMap Pass.entries) ⊆ passes.flatMap Pass.items := by
  induction h with
  | nil => exact List.Subset.refl _
  | snoc h hpass ih =>
      rw [List.flatMap_append, List.flatMap_append, List.flatMap_singleton,
        List.flatMap_singleton, envelopesOf_append]
      refine List.append_subset.mpr ⟨List.subset_append_of_subset_left _ ih, ?_⟩
      apply List.subset_append_of_subset_right
      cases hpass with
      | main _ hrun => exact hrun.envelopes_subset

end Worker

section Known

variable [CharacterTables] {service : EventService}

/-- An ingestion makes the key of its item known, and no other. -/
theorem Reachable.mem_identity_ingest (h : Reachable service) (envelope : RawEnvelope)
    (newId : Uuid) (key : IdentityKey) :
    key ∈ (service.ingestInMemory envelope newId).service.byIdentity.keys ↔
      key = envelope.identityKey ∨ key ∈ service.byIdentity.keys := by
  obtain ⟨log, -, harchives⟩ := h.archives
  rw [ingestInMemory_service service envelope newId harchives.toRepresents]
  split
  · rw [EventService.remember, InsertionDict.mem_keys_set]
  · rename_i hknown
    constructor
    · exact Or.inr
    · intro hor
      rcases hor with rfl | hold
      · rw [InsertionDict.get?_eq_none_iff, not_not] at hknown
        exact hknown
      · exact hold

/-- **Known keys.**  A run knows the keys of its items and those known before. -/
theorem Reachable.mem_identity_run (h : Reachable service) {steps : List (RawEnvelope × Uuid)}
    (hfresh : EveryStep FreshId service steps) (key : IdentityKey) :
    key ∈ (service.runInMemory steps).byIdentity.keys ↔
      key ∈ steps.map (fun step => step.1.identityKey) ∨ key ∈ service.byIdentity.keys := by
  induction steps generalizing service with
  | nil => exact (or_iff_right List.not_mem_nil).symm
  | cons step steps ih =>
      have hnext := Reachable.ingest h step.1 step.2 hfresh.1
      rw [EventService.runInMemory, ih hnext hfresh.2, h.mem_identity_ingest, List.map_cons,
        List.mem_cons, or_assoc, or_left_comm]

/-- Known items change nothing. -/
theorem Reachable.run_known (h : Reachable service) {steps : List (RawEnvelope × Uuid)}
    (hknown : ∀ step ∈ steps, step.1.identityKey ∈ service.byIdentity.keys) :
    service.runInMemory steps = service := by
  obtain ⟨log, -, harchives⟩ := h.archives
  induction steps with
  | nil => rfl
  | cons step steps ih =>
      have hget : ¬service.byIdentity.get? step.1.identityKey = none := by
        rw [InsertionDict.get?_eq_none_iff, not_not]
        exact hknown step List.mem_cons_self
      rw [EventService.runInMemory,
        ingestInMemory_service service step.1 step.2 harchives.toRepresents, if_neg hget]
      exact ih (fun step' hmem => hknown step' (List.mem_cons_of_mem _ hmem))

end Known

section Recovery

variable [CharacterTables] {keys : List IdentityKey} {passes : List Pass} {system : System}

/-- A memory after the passes over a feed of the given keys: it knows the keys
of the longest pass, and is where the merged feed leads. -/
structure Recovered (keys : List IdentityKey) (passes : List Pass) (memory : EventService) :
    Prop where
  reachable : Reachable memory
  run_merged : EventService.empty.runInMemory (mergedSteps passes) = memory
  merged_keys : (mergedSteps passes).map (fun step => step.1.identityKey) =
    keys.take (longest passes)
  longest_le : longest passes ≤ keys.length
  known : ∀ key, key ∈ memory.byIdentity.keys ↔ key ∈ keys.take (longest passes)

theorem recovered_nil (keys : List IdentityKey) : Recovered keys [] EventService.empty where
  reachable := Reachable.start
  run_merged := rfl
  merged_keys := rfl
  longest_le := Nat.zero_le _
  known key := by
    constructor
    · intro hmem
      cases hmem
    · intro hmem
      cases hmem

/-- **One more pass.**  What it sees again is known, and it goes on where the
longest one ended. -/
theorem Recovered.pass {memory : EventService} (h : Recovered keys passes memory) {pass : Pass}
    (hfresh : EveryStep FreshId memory pass.handled)
    (hkeys : pass.handled.map (fun step => step.1.identityKey) <+: keys) :
    Recovered keys (passes ++ [pass]) (memory.runInMemory pass.handled) := by
  have hhandled : pass.handled.map (fun step => step.1.identityKey) =
      keys.take pass.handled.length := by
    have htake := List.prefix_iff_eq_take.mp hkeys
    rwa [List.length_map] at htake
  have hlength : pass.handled.length ≤ keys.length := by
    have hle := hkeys.length_le
    rwa [List.length_map] at hle
  have hmerged : (mergedSteps passes).length = longest passes := by
    have hlengths := congrArg List.length h.merged_keys
    rwa [List.length_map, List.length_take, min_eq_left h.longest_le] at hlengths
  -- the items the longest pass before had ingested
  have hagain : memory.runInMemory (pass.handled.take (longest passes)) = memory := by
    refine h.reachable.run_known ?_
    intro step hstep
    rw [h.known]
    have hmem : step.1.identityKey ∈
        (pass.handled.take (longest passes)).map (fun step => step.1.identityKey) :=
      List.mem_map.mpr ⟨step, hstep, rfl⟩
    rw [List.map_take, hhandled, List.take_take] at hmem
    exact (List.take_subset_take_left keys (min_le_left _ _)) hmem
  have hsplit : memory.runInMemory pass.handled =
      memory.runInMemory (pass.handled.drop (longest passes)) := by
    rw [← List.take_append_drop (longest passes) pass.handled, runInMemory_append, hagain,
      List.take_append_drop]
  refine ⟨h.reachable.run hfresh, ?_, ?_, ?_, ?_⟩
  · rw [mergedSteps_snoc, hmerged, runInMemory_append, h.run_merged, hsplit]
  · rw [mergedSteps_snoc, hmerged, List.map_append, h.merged_keys, List.map_drop, hhandled,
      take_append_drop_take, longest_snoc]
  · rw [longest_snoc]
    exact max_le h.longest_le hlength
  · intro key
    rw [h.reachable.mem_identity_run hfresh, h.known, hhandled, longest_snoc, mem_take_max,
      or_comm]

/-- A condition along two lists of steps holds along the second one. -/
theorem EveryStep.of_append {P : EventService → RawEnvelope × Uuid → Prop}
    {service : EventService} {steps more : List (RawEnvelope × Uuid)}
    (h : EveryStep P service (steps ++ more)) : EveryStep P (service.runInMemory steps) more := by
  induction steps generalizing service with
  | nil => exact h
  | cons step steps ih => exact ih h.2

/-- **Run lemma.**  Over every sequence of passes the memory that saw what they
ingested recovers. -/
theorem WorkerRuns.recovered (h : WorkerRuns passes system)
    (hids : IdsIdentify (passes.flatMap Pass.items))
    (hkeys : ∀ pass ∈ passes, pass.items.map (fun item => item.identityKey) <+: keys) :
    Recovered keys passes
      (EventService.empty.runInMemory (ingestedSteps (passes.flatMap Pass.entries))) := by
  induction h with
  | nil => exact recovered_nil keys
  | @snoc passes pass system system' h hpass ih =>
      have hwhole := h.snoc hpass
      have hsteps := (hwhole.trace.mirrors (hids.mono hwhole.envelopes_subset)).1
      rw [List.flatMap_append] at hids
      have hrecovered := ih (hids.mono (List.subset_append_left _ _))
        (fun pass' hmem => hkeys pass' (List.mem_append_left _ hmem))
      rw [List.flatMap_append, List.flatMap_singleton, ingestedSteps_append] at hsteps ⊢
      rw [runInMemory_append]
      refine hrecovered.pass hsteps.of_append ?_
      have hhandled := hpass.handled_prefix.map (fun item => item.identityKey)
      rw [List.map_map] at hhandled
      exact hhandled.trans (hkeys pass (List.mem_append_right _ (List.mem_singleton_self _)))

omit [CharacterTables] in
/-- The items that are stored are those whose keys are known, each once. -/
theorem Mirrors.stored_keys {memory : EventService} {log : List Commit}
    (h : Mirrors memory system log) {known : List IdentityKey}
    (hknown : ∀ key, key ∈ memory.byIdentity.keys ↔ key ∈ known) :
    (system.db.rawItems.values.map RawItemRow.identityKey).Perm known.dedup := by
  have hrows : system.db.rawItems.values.map RawItemRow.identityKey =
      log.map (fun commit => commit.envelope.identityKey) := by
    rw [InsertionDict.values, h.consistent.stores.rawItems_eq, List.map_map, List.map_map]
    rfl
  rw [hrows]
  refine (List.perm_ext_iff_of_nodup h.consistent.keys (List.nodup_dedup _)).mpr ?_
  intro key
  rw [List.mem_dedup, ← hknown, ← not_iff_not, ← InsertionDict.get?_eq_none_iff,
    h.represents.identity_none_iff, List.mem_map]
  push Not
  rfl

/-- **Recovery.**  Passes over one feed, each cut off anywhere, leave what one
pass over the merged feed leaves: the indexes are those of a service that
ingested it once, every item that a pass got to is stored once, and a pass that
got to the end leaves nothing to do. -/
theorem worker_recovers (h : WorkerRuns passes system)
    (hids : IdsIdentify (passes.flatMap Pass.items))
    (hkeys : ∀ pass ∈ passes, pass.items.map (fun item => item.identityKey) <+: keys) :
    (mergedSteps passes).map (fun step => step.1.identityKey) = keys.take (longest passes) ∧
      SameIndexes (EventService.empty.runInMemory (mergedSteps passes)) system.service ∧
      (system.db.rawItems.values.map RawItemRow.identityKey).Perm
        (keys.take (longest passes)).dedup ∧
      ((∃ pass ∈ passes, keys.length ≤ pass.handled.length) →
        (system.db.rawItems.values.map RawItemRow.identityKey).Perm keys.dedup) := by
  have hrecovered := h.recovered hids hkeys
  obtain ⟨-, -, log, hmirrors, -⟩ := h.trace.mirrors (hids.mono h.envelopes_subset)
  have hstored := hmirrors.stored_keys hrecovered.known
  refine ⟨hrecovered.merged_keys, ?_, hstored, ?_⟩
  · rw [hrecovered.run_merged]
    exact hmirrors.sameIndexes
  · intro hcomplete
    obtain ⟨pass, hmem, hlength⟩ := hcomplete
    rw [List.take_of_length_le (hlength.trans (le_longest hmem))] at hstored
    exact hstored

end Recovery

section Sample

deriving instance DecidableEq for PersistedEventState

/-- A report as a process of the worker sees it. -/
@[reducible] def report (id : Uuid) (seenAt : UtcDatetime) : RawEnvelope :=
  testItem id (some "a") "first" seenAt seenAt

/-- The follow-up, from another source. -/
@[reducible] def followUp (id : Uuid) (seenAt : UtcDatetime) : RawEnvelope :=
  testItem id (some "b") "second" seenAt seenAt

/-- The service after the report. -/
@[reducible] def reported : System :=
  letI := asciiTables
  (System.start.ingest (report 1 50) 7 false).2

/-- A process that fails to save the follow-up. -/
@[reducible] def failedPass : Pass where
  streams := [⟨[report 1 50, followUp 2 51], false⟩]
  entries := [(.restart, .loaded (.ok ())),
    (.ingest (report 1 50) 7 false, .ingested (.ok ⟨(report 1 50).openEvent 7, true, false⟩)),
    (.ingest (followUp 2 51) 8 true, .ingested (.error .persistence))]

theorem failedPass_main :
    let := asciiTables
    WorkerPass System.start failedPass (reported.ingest (followUp 2 51) 8 true).2 := by
  intro
  have hload : System.start.db.LoadsState System.start.db (.ok {}) :=
    ⟨_, _, List.Perm.refl _, List.Perm.refl _, rfl⟩
  refine WorkerPass.main hload ?_
  refine Ingests.ingested (by decide +kernel) (by decide +kernel) ?_
  exact @Ingests.raised _ reported (followUp 2 51) 8 true .persistence [] (by decide +kernel)
    (by decide +kernel)

/-- What the second process loads. -/
@[reducible] def reportedState : PersistedEventState where
  events := [(report 1 50).openEvent 7]
  items := [⟨"fixture", "first", some "a", (report 1 50).contentHash, 7⟩]

/-- A process that sees the report again, and then the follow-up. -/
@[reducible] def secondPass : Pass where
  streams := [⟨[report 3 90, followUp 4 91], false⟩]
  entries := [(.restart, .loaded (.ok ())),
    (.ingest (report 3 90) 9 false, .ingested (.ok ⟨(report 1 50).openEvent 7, false, true⟩)),
    (.ingest (followUp 4 91) 9 false,
      .ingested (.ok ⟨((report 1 50).openEvent 7).extend (followUp 4 91), false, false⟩))]

/-- The service after it. -/
@[reducible] def recoveredSystem : System :=
  letI := asciiTables
  let loaded := System.mk (.ofState reportedState) (reported.ingest (followUp 2 51) 8 true).2.db
  ((loaded.ingest (report 3 90) 9 false).2.ingest (followUp 4 91) 9 false).2

theorem secondPass_main :
    let := asciiTables
    WorkerPass (reported.ingest (followUp 2 51) 8 true).2 secondPass recoveredSystem := by
  intro
  have hload : (reported.ingest (followUp 2 51) 8 true).2.db.LoadsState
      (reported.ingest (followUp 2 51) 8 true).2.db (.ok reportedState) :=
    ⟨_, _, List.Perm.refl _, List.Perm.refl _, by decide +kernel⟩
  refine WorkerPass.main hload ?_
  refine Ingests.ingested (by decide +kernel) (by decide +kernel) ?_
  refine Ingests.ingested (by decide +kernel) (by decide +kernel) ?_
  exact Ingests.finished _

/-- A pass that fails on the second of two items, and one that sees both again. -/
theorem worker_recovers_secondPass :
    let := asciiTables
    SameIndexes (EventService.empty.runInMemory [(report 1 50, 7), (followUp 4 91, 9)])
        recoveredSystem.service ∧
      (recoveredSystem.db.rawItems.values.map RawItemRow.identityKey).Perm
        [(report 1 50).identityKey, (followUp 2 51).identityKey] := by
  intro
  have hruns : WorkerRuns [failedPass, secondPass] recoveredSystem :=
    (WorkerRuns.nil.snoc failedPass_main).snoc secondPass_main
  have hkeys : ∀ pass ∈ [failedPass, secondPass],
      pass.items.map (fun item => item.identityKey) <+:
        [(report 1 50).identityKey, (followUp 2 51).identityKey] := by
    decide +kernel
  obtain ⟨-, hindexes, -, hstored⟩ :=
    worker_recovers hruns (idsIdentify_of_nodup (by decide +kernel)) hkeys
  exact ⟨hindexes, hstored ⟨secondPass, by simp, by decide +kernel⟩⟩

end Sample

end EventAlpha
