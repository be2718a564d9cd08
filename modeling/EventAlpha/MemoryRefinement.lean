import EventAlpha.Clusters
import EventAlpha.Categories
import EventAlpha.RestartEquivalence
import EventAlpha.IngestionGuarantees

/-!
# Persistence is transparent

A persistent service is the service without persistence, made durable.  Take
any run of it, with failed saves, refreshes, restarts and version reads, and
hand the items whose ingestion returned to a service that only has its memory.
Everything the run replied is what that service would have replied at that
point, and in the end the two hold the same indexes.

`Mirrors` relates the two sides: they represent one history, and the memory
has every version of it.  A call of the run is one ingestion on the memory
side, or none (`Mirrors.step`).
-/

namespace EventAlpha

open KeyedOrder VersionLog

/-- The ingestions of a run that returned, with the identifiers drawn. -/
def ingestedSteps (entries : List (Call × Reply)) : List (RawEnvelope × Uuid) :=
  entries.filterMap (fun entry =>
    match entry with
    | (.ingest envelope newId _, .ingested (.ok _)) => some (envelope, newId)
    | _ => none)

theorem ingestedSteps_append (entries entries' : List (Call × Reply)) :
    ingestedSteps (entries ++ entries') = ingestedSteps entries ++ ingestedSteps entries' :=
  List.filterMap_append

section Replies

variable [CharacterTables]

/-- What a service without persistence would reply to a call.  It has nothing
to rebuild, and only two calls can fail: the save of a new item, and the read of
a version that is no `INTEGER`, which it does not have. -/
inductive MatchesMemory (memory : EventService) : Call → Reply → Prop
  | failed {envelope : RawEnvelope} {newId : Uuid} {fault : Bool}
      (hnew : memory.byIdentity.get? envelope.identityKey = none) :
      MatchesMemory memory (.ingest envelope newId fault) (.ingested (.error .persistence))
  | ingested {envelope : RawEnvelope} {newId : Uuid} {fault : Bool} {result : IngestResult}
      (h : SameReply (.ok result) (memory.ingestInMemory envelope newId).reply) :
      MatchesMemory memory (.ingest envelope newId fault) (.ingested (.ok result))
  | refreshed : MatchesMemory memory .refresh (.loaded (.ok ()))
  | restarted : MatchesMemory memory .restart (.loaded (.ok ()))
  | version {eventId : Uuid} {eventVersion : ℕ} {found : Option CanonicalEvent}
      (h : Option.Rel CanonicalEvent.Agrees found
        (memory.versions.get? (eventId, eventVersion))) :
      MatchesMemory memory (.getEventVersion eventId eventVersion) (.version (.ok found))
  | beyond {eventId : Uuid} {eventVersion : ℕ} (hrange : 2 ^ 31 ≤ eventVersion)
      (hnone : memory.versions.get? (eventId, eventVersion) = none) :
      MatchesMemory memory (.getEventVersion eventId eventVersion)
        (.version (.error .dataError))

end Replies

/-- A memory and a persistent service that represent one history.  The memory
has every version. -/
structure Mirrors (memory : EventService) (system : System) (log : List Commit) : Prop where
  consistent : Consistent system log
  represents : Represents memory log
  versions_complete : ∀ commit ∈ log, ∃ event,
    memory.versions.get? (commit.eventId, commit.version) = some event

theorem mirrors_start : Mirrors EventService.empty System.start [] where
  consistent := consistent_start
  represents := represents_empty
  versions_complete commit hmem := by cases hmem

/-- An identifier that is not in the history is not in use. -/
theorem Represents.notMem_keys_of_fresh {service : EventService} {log : List Commit}
    (h : Represents service log) {newId : Uuid}
    (hfresh : ∀ commit ∈ log, commit.eventId ≠ newId) : newId ∉ service.events.keys := by
  intro hmem
  obtain ⟨event, hentry⟩ := InsertionDict.mem_keys.mp hmem
  obtain ⟨last, hlatest, -⟩ :=
    h.events_latest newId event (InsertionDict.get?_eq_some_iff.mpr hentry)
  obtain ⟨hlog, hid⟩ := latest_mem hlatest
  exact hfresh last hlog hid

namespace Mirrors

variable {memory : EventService} {system : System} {log : List Commit}

/-- The persistent side may change as long as its history does not. -/
theorem of_consistent (h : Mirrors memory system log) {system' : System}
    (h' : Consistent system' log) : Mirrors memory system' log :=
  { h with consistent := h' }

/-- Version reads answer what is in memory. -/
theorem version_answer [CharacterTables] (h : Mirrors memory system log) {eventId : Uuid} {eventVersion : ℕ}
    {answer : Except LoadError (Option CanonicalEvent)}
    (hanswer : AnswersVersion log eventId eventVersion answer) :
    MatchesMemory memory (.getEventVersion eventId eventVersion) (.version answer) := by
  cases hget : memory.versions.get? (eventId, eventVersion) with
  | some event =>
      obtain ⟨commit, hmem, hid, hversion, hsame, hordered⟩ :=
        h.represents.versions_recorded _ _ _ hget
      obtain ⟨found, rfl, hagrees⟩ :=
        hanswer.agrees h.consistent.grown hmem hid hversion hsame hordered
      refine .version ?_
      rw [hget]
      exact Option.Rel.some hagrees
  | none =>
      have habsent : ∀ commit ∈ log,
          ¬(commit.eventId = eventId ∧ commit.version = eventVersion) := by
        intro commit hmem hand
        obtain ⟨event, hevent⟩ := h.versions_complete commit hmem
        rw [hand.1, hand.2, hget] at hevent
        exact absurd hevent (by simp)
      rw [hanswer.eq_missing habsent]
      unfold missingVersion
      split
      · refine .version ?_
        rw [hget]
        exact Option.Rel.none
      · rename_i hrange
        exact .beyond (not_lt.mp hrange) hget

/-- The two sides have the same indexes. -/
theorem sameIndexes (h : Mirrors memory system log) : SameIndexes memory system.service :=
  h.represents.sameIndexes h.consistent.represents

/-- A save that returned is one more version in memory. -/
theorem remember (h : Mirrors memory system log) {envelope : RawEnvelope}
    {event view : CanonicalEvent} {system' : System}
    (hconsistent : Consistent system' (log ++ [⟨envelope, event⟩])) (hsame : view.Same event)
    (hordered : view.Ordered)
    (hnew : memory.byIdentity.get? envelope.identityKey = none) :
    Mirrors (memory.remember envelope view) system' (log ++ [⟨envelope, event⟩]) where
  consistent := hconsistent
  represents := h.represents.remember hsame hordered hnew
  versions_complete := by
    intro commit hmem
    rw [EventService.remember, InsertionDict.get?_set]
    split
    · exact ⟨view, rfl⟩
    · rename_i hother
      rcases List.mem_append.mp hmem with hold | hlast
      · exact h.versions_complete commit hold
      · obtain rfl := List.mem_singleton.mp hlast
        have hkey : (view.eventId, view.eventVersion) = (event.eventId, event.eventVersion) := by
          rw [hsame.eventId_eq, hsame.eventVersion_eq]
        exact absurd hkey.symm hother

section Ingest

variable [CharacterTables]

/-- **Ingestion.**  What the call of the persistent service replies, the memory
replies as well, unless the save of a new item failed. -/
theorem ingest (h : Mirrors memory system log) {envelope : RawEnvelope} {newId : Uuid}
    (hfresh : system.Unused newId)
    (hids : ∀ commit ∈ log, commit.envelope.id = envelope.id →
      commit.envelope.identityKey = envelope.identityKey) (fault : Bool) :
    (∃ error, (system.ingest envelope newId fault).1 = .error error ∧
      MatchesMemory memory (.ingest envelope newId fault) (.ingested (.error error)) ∧
      (system.ingest envelope newId fault).2 = system) ∨
    ∃ result, (system.ingest envelope newId fault).1 = .ok result ∧
      MatchesMemory memory (.ingest envelope newId fault) (.ingested (.ok result)) ∧
      ∃ rest, Mirrors (memory.ingestInMemory envelope newId).service
          (system.ingest envelope newId fault).2 (log ++ rest) ∧
        rest.map Commit.envelope ⊆ [envelope] := by
  have hindexes := h.represents.sameIndexes h.consistent.represents
  cases hget : system.service.byIdentity.get? envelope.identityKey with
  | some id =>
      have hget' : memory.byIdentity.get? envelope.identityKey = some id := by
        rw [hindexes.identity, hget]
      obtain ⟨event, hevent, hanswer⟩ := h.consistent.represents.ingest_known hget
      obtain ⟨event', hevent', hanswer'⟩ := h.represents.ingest_known hget'
      have hagree := h.consistent.represents.events_agree h.represents id
      rw [hevent, hevent'] at hagree
      cases hagree with
      | some hagree =>
          right
          have hmatch : SameReply (.ok ⟨event, false, true⟩)
              (memory.ingestInMemory envelope newId).reply := by
            rw [EventService.ingestInMemory, hanswer']
            exact SameReply.ok hagree false true
          refine ⟨⟨event, false, true⟩, ?_, MatchesMemory.ingested hmatch, [], ?_, by simp⟩
          · rw [System.ingest, hanswer]
          · rw [System.ingest, hanswer, EventService.ingestInMemory, hanswer', List.append_nil]
            exact h
  | none =>
      have hget' : memory.byIdentity.get? envelope.identityKey = none := by
        rw [hindexes.identity, hget]
      obtain ⟨hsame, hcreated⟩ :=
        h.consistent.represents.nextEvent_same h.represents envelope newId
      have hordered : (system.service.nextEvent envelope newId).1.Ordered :=
        Represents.nextEvent_ordered envelope newId
      have hordered' : (memory.nextEvent envelope newId).1.Ordered :=
        Represents.nextEvent_ordered envelope newId
      cases hsave : EventDb.saveUnless fault system.db envelope
          (system.service.nextEvent envelope newId).1 with
      | none =>
          left
          refine ⟨.persistence, ?_, MatchesMemory.failed hget', ?_⟩
          · rw [System.ingest, ingest_unknown hget, hsave]
          · rw [System.ingest, ingest_unknown hget, hsave]
      | some db' =>
          right
          have hnext := h.consistent.append hfresh hids hget hsave
          have hmatch : SameReply (.ok ⟨(system.service.nextEvent envelope newId).1,
              (system.service.nextEvent envelope newId).2, false⟩)
              (memory.ingestInMemory envelope newId).reply := by
            rw [EventService.ingestInMemory, ingest_unknown hget', hcreated]
            exact SameReply.ok ⟨hsame, hordered, hordered'⟩ _ false
          refine ⟨_, ?_, MatchesMemory.ingested hmatch,
            [⟨envelope, (system.service.nextEvent envelope newId).1⟩], ?_, by simp⟩
          · rw [System.ingest, ingest_unknown hget, hsave]
          · rw [System.ingest, ingest_unknown hget, hsave, EventService.ingestInMemory,
              ingest_unknown hget']
            exact h.remember hnext hsame.symm hordered' hget'

/-- **Step lemma.**  A call of the persistent service is one ingestion of the
memory or none, and replies what the memory would. -/
theorem step (h : Mirrors memory system log) {system' : System} {call : Call} {reply : Reply}
    (hstep : Step system call reply system')
    (hids : IdsIdentify (log.map Commit.envelope ++ envelopesOf [(call, reply)])) :
    EveryStep FreshId memory (ingestedSteps [(call, reply)]) ∧
      MatchesMemory memory call reply ∧
      ∃ rest, Mirrors (memory.runInMemory (ingestedSteps [(call, reply)])) system'
          (log ++ rest) ∧
        rest.map Commit.envelope ⊆ envelopesOf [(call, reply)] := by
  have hsilent : ∀ {system' : System}, Consistent system' log →
      ∃ rest, Mirrors memory system' (log ++ rest) ∧
        rest.map Commit.envelope ⊆ envelopesOf [(call, reply)] := by
    intro system' hconsistent
    exact ⟨[], by simpa using h.of_consistent hconsistent, by simp⟩
  cases hstep with
  | ingest envelope newId fault hfresh =>
      have hkeys : ∀ commit ∈ log, commit.envelope.id = envelope.id →
          commit.envelope.identityKey = envelope.identityKey := by
        intro commit hmem hid
        refine hids commit.envelope ?_ envelope ?_ hid
        · exact List.mem_append_left _ (List.mem_map.mpr ⟨commit, hmem, rfl⟩)
        · exact List.mem_append_right _ (by simp [envelopesOf])
      have hunused : newId ∉ memory.events.keys :=
        h.represents.notMem_keys_of_fresh (h.consistent.fresh_of_unused hfresh)
      rcases h.ingest hfresh hkeys fault with ⟨error, hreply, hmatch, hsystem⟩ |
        ⟨result, hreply, hmatch, rest, hmirrors, hrest⟩
      · rw [hsystem]
        simp only [hreply] at hsilent ⊢
        exact ⟨trivial, hmatch, hsilent h.consistent⟩
      · rw [hreply]
        exact ⟨⟨hunused, trivial⟩, hmatch, rest, hmirrors, hrest⟩
  | refresh state hload =>
      obtain ⟨state', heq, hconsistent⟩ := h.consistent.reload hload
      obtain rfl := Except.ok.inj heq
      exact ⟨trivial, MatchesMemory.refreshed, hsilent hconsistent⟩
  | refreshRaises error hload =>
      obtain ⟨state', heq, -⟩ := h.consistent.reload hload
      cases heq
  | restart state hload =>
      obtain ⟨state', heq, hconsistent⟩ := h.consistent.reload hload
      obtain rfl := Except.ok.inj heq
      exact ⟨trivial, MatchesMemory.restarted, hsilent hconsistent⟩
  | getEventVersion eventId eventVersion loaded hload =>
      obtain ⟨hanswer, hconsistent⟩ := h.consistent.getEventVersion hload
      exact ⟨trivial, h.version_answer hanswer, hsilent hconsistent⟩

end Ingest

end Mirrors

section Runs

variable [CharacterTables]

/-- A condition along one list of steps and then along another. -/
theorem EveryStep.append {P : EventService → RawEnvelope × Uuid → Prop} {service : EventService}
    {steps more : List (RawEnvelope × Uuid)} (h : EveryStep P service steps)
    (hmore : EveryStep P (service.runInMemory steps) more) :
    EveryStep P service (steps ++ more) := by
  induction steps generalizing service with
  | nil => exact hmore
  | cons step steps ih => exact ⟨h.1, ih h.2 hmore⟩

/-- **Run lemma.**  The memory that saw what the run ingested mirrors it. -/
theorem Trace.mirrors {system : System} {entries : List (Call × Reply)}
    (h : Trace System.start entries system) (hids : IdsIdentify (envelopesOf entries)) :
    EveryStep FreshId EventService.empty (ingestedSteps entries) ∧
      (∀ earlier entry later, entries = earlier ++ entry :: later →
        MatchesMemory (EventService.empty.runInMemory (ingestedSteps earlier))
          entry.1 entry.2) ∧
      ∃ log, Mirrors (EventService.empty.runInMemory (ingestedSteps entries)) system log ∧
        log.map Commit.envelope ⊆ envelopesOf entries := by
  induction h with
  | nil =>
      refine ⟨trivial, ?_, [], mirrors_start, by simp⟩
      intro earlier entry later hcut
      simp at hcut
  | @snoc entries system system' call reply h hstep ih =>
      rw [envelopesOf_append] at hids ⊢
      obtain ⟨hfresh, hmatches, log, hmirrors, hlog⟩ :=
        ih (hids.mono (List.subset_append_left _ _))
      have hids' : IdsIdentify (log.map Commit.envelope ++ envelopesOf [(call, reply)]) :=
        hids.mono (List.append_subset.mpr ⟨List.subset_append_of_subset_left _ hlog,
          List.subset_append_right _ _⟩)
      obtain ⟨hfresh', hmatch, rest, hmirrors', hrest⟩ := hmirrors.step hstep hids'
      rw [ingestedSteps_append, runInMemory_append]
      refine ⟨hfresh.append hfresh', ?_, log ++ rest, hmirrors', ?_⟩
      · exact RunLog.forall_cut_snoc.mpr ⟨hmatches, hmatch⟩
      · rw [List.map_append]
        exact List.append_subset.mpr ⟨List.subset_append_of_subset_left _ hlog,
          List.subset_append_of_subset_right _ hrest⟩

/-- **Persistence is transparent.**  Every reply of a run is the one a service
without persistence gives after the items that were ingested so far, and in the
end the two have the same indexes. -/
theorem persistence_transparent {system : System} {entries : List (Call × Reply)}
    (h : Trace System.start entries system) (hids : IdsIdentify (envelopesOf entries)) :
    EveryStep FreshId EventService.empty (ingestedSteps entries) ∧
      (∀ earlier call reply later, entries = earlier ++ (call, reply) :: later →
        MatchesMemory (EventService.empty.runInMemory (ingestedSteps earlier)) call reply) ∧
      SameIndexes (EventService.empty.runInMemory (ingestedSteps entries)) system.service := by
  obtain ⟨hfresh, hmatches, log, hmirrors, -⟩ := h.mirrors hids
  refine ⟨hfresh, ?_, hmirrors.sameIndexes⟩
  intro earlier call reply later hcut
  exact hmatches earlier (call, reply) later hcut

omit [CharacterTables] in
/-- A failed save, the same item again, and an item received earlier. -/
theorem persistence_transparent_sampleItems :
    let := asciiTables
    (∀ earlier call reply later, sampleEntries = earlier ++ (call, reply) :: later →
      MatchesMemory (EventService.empty.runInMemory (ingestedSteps earlier)) call reply) ∧
    SameIndexes (EventService.empty.runInMemory (ingestedSteps sampleEntries))
      sampleSystem.service := by
  intro
  exact (persistence_transparent sampleTrace (idsIdentify_of_nodup (by decide +kernel))).2

end Runs

end EventAlpha
