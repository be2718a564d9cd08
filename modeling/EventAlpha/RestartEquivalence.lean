import EventAlpha.PersistentRuns

/-!
# Restart equivalence

A service rebuilt from the database at any point of a run has the indexes of
the running one, up to the order of mentions received at the same moment, and
stays in lockstep with it: the two return the same results for every
continuation, each over its own copy of the database.

Nothing here compares dictionaries entry by entry.  Both services represent
one history (`Represents.sameIndexes`), the choice of the clusterer is a
function of the history, and saves of two views of one event write the same
rows, so a step keeps both systems consistent with one history
(`Consistent.lockstep`).
-/

namespace EventAlpha

open KeyedOrder VersionLog

/-- Two events equal in every scalar field, with the same mentions in order of
receipt: they can differ in the order of equal receipt times only. -/
structure CanonicalEvent.Agrees (event event' : CanonicalEvent) : Prop where
  same : event.Same event'
  ordered : event.Ordered
  ordered' : event'.Ordered

/-- Two services with the same indexes. -/
structure SameIndexes (service service' : EventService) : Prop where
  events : ∀ id, Option.Rel CanonicalEvent.Agrees (service.events.get? id)
    (service'.events.get? id)
  identity : ∀ key, service.byIdentity.get? key = service'.byIdentity.get? key
  content : ∀ hash, service.byContentHash.get? hash = service'.byContentHash.get? hash

/-- Two answers of `ingest` that say the same. -/
inductive SameReply : Except IngestError IngestResult → Except IngestError IngestResult → Prop
  | ok {event event' : CanonicalEvent} (h : event.Agrees event') (created idempotent : Bool) :
      SameReply (.ok ⟨event, created, idempotent⟩) (.ok ⟨event', created, idempotent⟩)
  | error (error : IngestError) : SameReply (.error error) (.error error)

namespace Represents

variable {service service' : EventService} {log : List Commit}

/-- Two views of one history hold views of the same newest events. -/
theorem events_agree (h : Represents service log) (h' : Represents service' log) (id : Uuid) :
    Option.Rel CanonicalEvent.Agrees (service.events.get? id) (service'.events.get? id) := by
  cases hlatest : latest Commit.eventId log id with
  | none =>
      have hnone : ∀ {s : EventService}, Represents s log → s.events.get? id = none := by
        intro s hs
        cases hget : s.events.get? id with
        | none => rfl
        | some event =>
            obtain ⟨last, hlast, _⟩ := hs.events_latest id event hget
            rw [hlatest] at hlast
            exact absurd hlast (by simp)
      rw [hnone h, hnone h']
      exact Option.Rel.none
  | some last =>
      have hsome : ∀ {s : EventService}, Represents s log →
          ∃ event, s.events.get? id = some event ∧ event.Same last.event ∧ event.Ordered := by
        intro s hs
        obtain ⟨event, hget⟩ := hs.events_complete id last hlatest
        obtain ⟨last', hlatest', hsame, hordered⟩ := hs.events_latest id event hget
        rw [hlatest] at hlatest'
        obtain rfl := Option.some.inj hlatest'
        exact ⟨event, hget, hsame, hordered⟩
      obtain ⟨event, hget, hsame, hordered⟩ := hsome h
      obtain ⟨event', hget', hsame', hordered'⟩ := hsome h'
      rw [hget, hget']
      exact Option.Rel.some ⟨hsame.trans hsame'.symm, hordered, hordered'⟩

/-- **Indexes are functions of the history.** -/
theorem sameIndexes (h : Represents service log) (h' : Represents service' log) :
    SameIndexes service service' := by
  constructor
  · exact h.events_agree h'
  · intro key
    apply Option.ext
    intro id
    rw [h.identity_iff, h'.identity_iff]
  · intro hash
    have hnone : service.byContentHash.get? hash = none ↔
        service'.byContentHash.get? hash = none := by
      rw [h.content_none_iff, h'.content_none_iff]
    have hmem : (service.byContentHash.get? hash).getD ∅ =
        (service'.byContentHash.get? hash).getD ∅ := by
      ext id
      rw [h.content_iff, h'.content_iff]
    cases hget : service.byContentHash.get? hash with
    | none => exact (hnone.mp hget).symm
    | some ids =>
        cases hget' : service'.byContentHash.get? hash with
        | none => exact absurd (hnone.mpr hget') (by simp [hget])
        | some ids' => rw [hget, hget'] at hmem; exact congrArg some hmem

end Represents

section Lockstep

variable [CharacterTables]

/-- **Lockstep.**  Two services that represent one history over equal tables
give the same answer, and do so again afterwards. -/
theorem Consistent.lockstep {service service' : EventService} {db : EventDb}
    {log : List Commit} (h : Consistent ⟨service, db⟩ log)
    (h' : Consistent ⟨service', db⟩ log) {envelope : RawEnvelope} {newId : Uuid}
    (hfresh : System.Unused ⟨service, db⟩ newId)
    (hids : ∀ commit ∈ log, commit.envelope.id = envelope.id →
      commit.envelope.identityKey = envelope.identityKey) (fault : Bool) :
    SameReply (System.ingest ⟨service, db⟩ envelope newId fault).1
        (System.ingest ⟨service', db⟩ envelope newId fault).1 ∧
      ∃ next next' db' rest,
        (System.ingest ⟨service, db⟩ envelope newId fault).2 = ⟨next, db'⟩ ∧
        (System.ingest ⟨service', db⟩ envelope newId fault).2 = ⟨next', db'⟩ ∧
        Consistent ⟨next, db'⟩ (log ++ rest) ∧ Consistent ⟨next', db'⟩ (log ++ rest) ∧
        rest.map Commit.envelope ⊆ [envelope] := by
  have hindexes := h.represents.sameIndexes h'.represents
  cases hget : service.byIdentity.get? envelope.identityKey with
  | some id =>
      have hget' : service'.byIdentity.get? envelope.identityKey = some id := by
        rw [← hindexes.identity, hget]
      obtain ⟨event, hevent, hanswer⟩ := h.represents.ingest_known hget
      obtain ⟨event', hevent', hanswer'⟩ := h'.represents.ingest_known hget'
      have hagree := h.represents.events_agree h'.represents id
      rw [hevent, hevent'] at hagree
      unfold System.ingest
      rw [hanswer, hanswer']
      cases hagree with
      | some hagree =>
          exact ⟨SameReply.ok hagree false true, service, service', db, [], rfl, rfl,
            by simpa using h, by simpa using h', by simp⟩
  | none =>
      have hget' : service'.byIdentity.get? envelope.identityKey = none := by
        rw [← hindexes.identity, hget]
      obtain ⟨hsame, hcreated⟩ := h.represents.nextEvent_same h'.represents envelope newId
      have hagree : CanonicalEvent.Agrees (service.nextEvent envelope newId).1
          (service'.nextEvent envelope newId).1 :=
        ⟨hsame, Represents.nextEvent_ordered envelope newId,
          Represents.nextEvent_ordered envelope newId⟩
      have hitem := h.item_new hids hget
      have hsaves : EventDb.saveUnless fault db envelope (service'.nextEvent envelope newId).1 =
          EventDb.saveUnless fault db envelope (service.nextEvent envelope newId).1 := by
        unfold EventDb.saveUnless
        rw [db.save_congr hsame.scalars_eq
          ((h.find?_nextEvent newId hitem).trans (h'.find?_nextEvent newId hitem).symm)]
      unfold System.ingest
      rw [ingest_unknown hget, ingest_unknown hget', hsaves, ← hcreated]
      cases hsave : EventDb.saveUnless fault db envelope
          (service.nextEvent envelope newId).1 with
      | none =>
          exact ⟨SameReply.error .persistence, service, service', db, [], rfl, rfl,
            by simpa using h, by simpa using h', by simp⟩
      | some db' =>
          have hnext := h.append hfresh hids hget hsave
          refine ⟨SameReply.ok hagree _ false, _, _, db', [⟨envelope, _⟩], rfl, rfl,
            hnext, ?_, by simp⟩
          exact { hnext with
            represents := h'.represents.remember hsame.symm hagree.ordered' hget' }

/-- **Lockstep runs.**  Two services that represent one history over equal
tables give the same answers for every continuation. -/
theorem Consistent.lockstep_all {service service' : EventService} {db : EventDb}
    {log : List Commit} (h : Consistent ⟨service, db⟩ log)
    (h' : Consistent ⟨service', db⟩ log)
    (continuation : List (RawEnvelope × Uuid × Bool))
    (hids : IdsIdentify (log.map Commit.envelope ++ continuation.map Prod.fst))
    (hfresh : System.FreshAlong ⟨service, db⟩ continuation) :
    List.Forall₂ SameReply (System.ingestAll ⟨service, db⟩ continuation).1
      (System.ingestAll ⟨service', db⟩ continuation).1 := by
  induction continuation generalizing service service' db log with
  | nil => exact List.Forall₂.nil
  | cons call continuation ih =>
      obtain ⟨envelope, newId, fault⟩ := call
      have hkeys : ∀ commit ∈ log, commit.envelope.id = envelope.id →
          commit.envelope.identityKey = envelope.identityKey := by
        intro commit hmem hid
        exact hids commit.envelope
          (List.mem_append_left _ (List.mem_map.mpr ⟨commit, hmem, rfl⟩)) envelope
          (by simp) hid
      obtain ⟨hreply, next, next', db', rest, hnext, hnext', hrest, hrest', henvelopes⟩ :=
        h.lockstep h' hfresh.1 hkeys fault
      refine List.Forall₂.cons hreply ?_
      show List.Forall₂ SameReply
        (System.ingestAll (System.ingest ⟨service, db⟩ envelope newId fault).2 continuation).1
        (System.ingestAll (System.ingest ⟨service', db⟩ envelope newId fault).2 continuation).1
      have hlater : System.FreshAlong (System.ingest ⟨service, db⟩ envelope newId fault).2
        continuation := hfresh.2
      rw [hnext] at hlater ⊢
      rw [hnext']
      have hids' : IdsIdentify (log.map Commit.envelope ++
          ([envelope] ++ continuation.map Prod.fst)) := hids
      exact ih hrest hrest' (hids'.advance henvelopes) hlater

/-- **Restart equivalence.**  At every point of a run, whatever order the rows
come back in, a service built over the database has the indexes of the running
one, and gives the same answers for every continuation. -/
theorem restart_equivalence {entries : List (Call × Reply)} {system : System}
    (h : Trace System.start entries system) (hids : IdsIdentify (envelopesOf entries))
    {result : Except LoadError PersistedEventState}
    (hload : system.db.LoadsState system.db result) :
    ∃ state, result = .ok state ∧
      SameIndexes system.service (EventService.ofState state) ∧
      ∀ continuation : List (RawEnvelope × Uuid × Bool),
        IdsIdentify (envelopesOf entries ++ continuation.map Prod.fst) →
        system.FreshAlong continuation →
        List.Forall₂ SameReply (system.ingestAll continuation).1
          (System.ingestAll ⟨EventService.ofState state, system.db⟩ continuation).1 := by
  obtain ⟨log, hconsistent, haccounts⟩ := h.consistent hids
  obtain ⟨state, rfl, hfresh⟩ := hconsistent.reload hload
  refine ⟨state, rfl, hconsistent.represents.sameIndexes hfresh.represents, ?_⟩
  intro continuation hcontinuation hunused
  have hlater : IdsIdentify (log.map Commit.envelope ++ continuation.map Prod.fst) :=
    @IdsIdentify.advance [] log _ _ hcontinuation haccounts.envelopes_subset
  exact hconsistent.lockstep_all hfresh continuation hlater hunused

omit [CharacterTables] in
/-- A failed save, the same item again, and an item received earlier, after
which the service is rebuilt and an item is redelivered. -/
theorem restart_equivalence_sampleItems :
    let := asciiTables
    ∃ state, loadState sampleSystem.db.latestEventRows sampleSystem.db.joinedRows =
        .ok state ∧
      SameIndexes sampleSystem.service (EventService.ofState state) ∧
      List.Forall₂ SameReply
        (sampleSystem.ingestAll [(testItem 4 (some "b") "second" 90 91, 9, false)]).1
        (System.ingestAll ⟨EventService.ofState state, sampleSystem.db⟩
          [(testItem 4 (some "b") "second" 90 91, 9, false)]).1 := by
  intro
  obtain ⟨state, hstate, hindexes, hreplies⟩ := restart_equivalence sampleTrace
    (idsIdentify_of_nodup (by decide +kernel)) (EventDb.loadsState_tableOrder _ _)
  exact ⟨state, hstate, hindexes, hreplies _
    (idsIdentify_of_nodup (by decide +kernel)) (by decide +kernel)⟩

end Lockstep

end EventAlpha
