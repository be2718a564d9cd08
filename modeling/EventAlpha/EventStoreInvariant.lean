import EventAlpha.EventIndexes
import Mathlib.Algebra.BigOperators.Group.List.Lemmas

/-!
# The in-memory event store

A service without persistence, fed any sequence of envelopes.  Its state is
not merely a view of the history but an archive of it: the version index holds
every committed version as it was made (`Archives`).  From the archive follow

* `reachable_storeInvariant` — what every reachable state asserts about its
  events, its versions and its indexes;
* `pointInTime_iff_inOrder` — when the creation times of versions can be used
  to select what was known at a moment.  An event version is stamped with the
  processing time of the envelope that made it, while its receipt bounds are
  clamped over all mentions, so an envelope that is ingested after a later one
  moves the stamp back.
-/

namespace EventAlpha

open KeyedOrder VersionLog

/-- A service that represents a history and still holds every version of it. -/
structure Archives (service : EventService) (log : List Commit) : Prop
    extends Represents service log where
  events_exact : ∀ id event, service.events.get? id = some event ↔
    ∃ last, latest Commit.eventId log id = some last ∧ last.event = event
  versions_exact : ∀ id version event,
    service.versions.get? (id, version) = some event ↔
      ∃ commit ∈ log, commit.eventId = id ∧ commit.version = version ∧ commit.event = event
  identity_keys : service.byIdentity.keys =
    log.map (fun commit => commit.envelope.identityKey)

theorem archives_empty : Archives EventService.empty [] where
  toRepresents := represents_empty
  events_exact id event := by simp [EventService.empty, latest, ofKey]
  versions_exact id version event := by simp [EventService.empty]
  identity_keys := rfl

/-- The index updates archive the new commit when its version is new. -/
theorem Archives.remember {service : EventService} {log : List Commit}
    (h : Archives service log) {envelope : RawEnvelope} {event : CanonicalEvent}
    (hordered : event.Ordered)
    (hnew : service.byIdentity.get? envelope.identityKey = none)
    (hversion : ∀ commit ∈ log,
      ¬ (commit.eventId = event.eventId ∧ commit.version = event.eventVersion)) :
    Archives (service.remember envelope event) (log ++ [⟨envelope, event⟩]) where
  toRepresents :=
    h.toRepresents.remember (CanonicalEvent.Same.refl event) hordered hnew
  events_exact id event' := by
    rw [EventService.remember, InsertionDict.get?_set, latest_snoc]
    by_cases hid : id = event.eventId
    · rw [if_pos hid, if_pos (by exact hid.symm)]
      simp
    · rw [if_neg hid, if_neg (fun heq => hid heq.symm)]
      exact h.events_exact id event'
  versions_exact id version event' := by
    rw [EventService.remember, InsertionDict.get?_set, exists_mem_snoc]
    by_cases hkey : (id, version) = (event.eventId, event.eventVersion)
    · rw [if_pos hkey, Option.some.injEq]
      obtain ⟨rfl, rfl⟩ := Prod.mk.inj hkey
      constructor
      · intro heq
        exact Or.inr ⟨rfl, rfl, heq⟩
      · intro hor
        rcases hor with ⟨commit, hmem, hid, hver, -⟩ | ⟨-, -, hevent⟩
        · exact absurd ⟨hid, hver⟩ (hversion commit hmem)
        · exact hevent
    · rw [if_neg hkey, h.versions_exact]
      exact (or_iff_left (fun hand => hkey (Prod.ext hand.1.symm hand.2.1.symm))).symm
  identity_keys := by
    have hkey := InsertionDict.get?_eq_none_iff.mp hnew
    rw [EventService.remember, InsertionDict.keys_set, if_neg hkey, h.identity_keys]
    simp

section Reachable

variable [CharacterTables]

/-- The states of a service without persistence: any envelopes in any order,
each new event under an identifier that is not in use. -/
inductive Reachable : EventService → Prop
  | start : Reachable .empty
  | ingest {service : EventService} (h : Reachable service) (envelope : RawEnvelope)
      (newId : Uuid) (hfresh : newId ∉ service.events.keys) :
      Reachable (service.ingestInMemory envelope newId).service

/-- One ingestion either changes nothing or archives one more commit. -/
theorem ingestInMemory_service (service : EventService) (envelope : RawEnvelope)
    (newId : Uuid) {log : List Commit} (h : Represents service log) :
    (service.ingestInMemory envelope newId).service =
      if service.byIdentity.get? envelope.identityKey = none then
        service.remember envelope (service.nextEvent envelope newId).1
      else service := by
  unfold EventService.ingestInMemory
  cases hget : service.byIdentity.get? envelope.identityKey with
  | none => rw [ingest_unknown hget]; simp
  | some id =>
      obtain ⟨event, _, hanswer⟩ := h.ingest_known hget
      rw [hanswer]
      simp

omit [CharacterTables] in
/-- An identifier that is not in use is not in the history. -/
theorem Represents.fresh_of_notMem_keys {service : EventService} {log : List Commit}
    (h : Represents service log) {newId : Uuid} (hfresh : newId ∉ service.events.keys) :
    ∀ commit ∈ log, commit.eventId ≠ newId := by
  have hnone := InsertionDict.get?_eq_none_iff.mpr hfresh
  refine latest_eq_none_iff.mp ?_
  cases hlatest : latest Commit.eventId log newId with
  | none => rfl
  | some last =>
      obtain ⟨event, hget⟩ := h.events_complete newId last hlatest
      rw [hnone] at hget
      exact absurd hget (by simp)

/-- **Archive step.**  One ingestion leaves an archive of a grown history, which
is longer by at most the commit of its envelope. -/
theorem Archives.ingest_step {service : EventService} {log : List Commit}
    (h : Archives service log) (hgrown : Grown log) (envelope : RawEnvelope)
    {newId : Uuid} (hfresh : newId ∉ service.events.keys) :
    ∃ commits, Grown (log ++ commits) ∧
      Archives (service.ingestInMemory envelope newId).service (log ++ commits) ∧
      (commits.map Commit.envelope).Sublist [envelope] := by
  rw [ingestInMemory_service service envelope newId h.toRepresents]
  split
  · rename_i hnew
    have hlog := h.fresh_of_notMem_keys hfresh
    exact ⟨[⟨envelope, (service.nextEvent envelope newId).1⟩],
      h.grown_next hgrown envelope hlog,
      h.remember (Represents.nextEvent_ordered envelope newId) hnew
        (h.nextEvent_version_new hgrown envelope hlog), List.Sublist.refl _⟩
  · refine ⟨[], ?_, ?_, List.nil_sublist _⟩
    · rw [List.append_nil]
      exact hgrown
    · rw [List.append_nil]
      exact h

/-- **Run invariant.**  Every reachable state archives a grown history. -/
theorem Reachable.archives {service : EventService} (h : Reachable service) :
    ∃ log, Grown log ∧ Archives service log := by
  induction h with
  | start => exact ⟨[], Grown.nil, archives_empty⟩
  | ingest h envelope newId hfresh ih =>
      obtain ⟨log, hgrown, harchives⟩ := ih
      obtain ⟨commits, hgrown', harchives', -⟩ :=
        harchives.ingest_step hgrown envelope hfresh
      exact ⟨log ++ commits, hgrown', harchives'⟩

/-- A property of every step of a run, read in the state before the step. -/
def EveryStep (P : EventService → RawEnvelope × Uuid → Prop) :
    EventService → List (RawEnvelope × Uuid) → Prop
  | _, [] => True
  | service, step :: rest =>
      P service step ∧ EveryStep P (service.ingestInMemory step.1 step.2).service rest

/-- A property of every state of a run, the first and the last included. -/
def EveryState (P : EventService → Prop) :
    EventService → List (RawEnvelope × Uuid) → Prop
  | service, [] => P service
  | service, step :: rest =>
      P service ∧ EveryState P (service.ingestInMemory step.1 step.2).service rest

/-- The identifier drawn for a new event is not in use. -/
def FreshId (service : EventService) (step : RawEnvelope × Uuid) : Prop :=
  step.2 ∉ service.events.keys

/-- A run of fresh identifiers leads from a reachable state to a reachable one. -/
theorem Reachable.run {service : EventService} (h : Reachable service)
    {steps : List (RawEnvelope × Uuid)} (hfresh : EveryStep FreshId service steps) :
    Reachable (service.runInMemory steps) := by
  induction steps generalizing service with
  | nil => exact h
  | cons step rest ih => exact ih (h.ingest step.1 step.2 hfresh.1) hfresh.2

/-- A run archives the commits of some of its envelopes, in their order. -/
theorem Archives.run {service : EventService} {log : List Commit}
    (h : Archives service log) (hgrown : Grown log) {steps : List (RawEnvelope × Uuid)}
    (hfresh : EveryStep FreshId service steps) :
    ∃ commits, Grown (log ++ commits) ∧
      Archives (service.runInMemory steps) (log ++ commits) ∧
      (commits.map Commit.envelope).Sublist (steps.map Prod.fst) := by
  induction steps generalizing service log with
  | nil =>
      refine ⟨[], ?_, ?_, List.nil_sublist _⟩
      · rw [List.append_nil]
        exact hgrown
      · rw [List.append_nil]
        exact h
  | cons step rest ih =>
      obtain ⟨first, hgrown₁, harchives₁, hfirst⟩ :=
        h.ingest_step hgrown step.1 hfresh.1
      obtain ⟨others, hgrown₂, harchives₂, hothers⟩ := ih harchives₁ hgrown₁ hfresh.2
      refine ⟨first ++ others, ?_, ?_, ?_⟩
      · rw [← List.append_assoc]
        exact hgrown₂
      · rw [← List.append_assoc]
        exact harchives₂
      · rw [List.map_append]
        exact hfirst.append hothers

omit [CharacterTables] in
/-- The keys of an archived history are distinct. -/
theorem Archives.keysDistinct {service : EventService} {log : List Commit}
    (h : Archives service log) : KeysDistinct log := by
  rw [KeysDistinct, ← h.identity_keys]
  exact service.byIdentity.nodup_keys

/-- What every reachable state asserts about its events, versions and indexes. -/
structure StoreInvariant (service : EventService) : Prop where
  coherent : ∀ id event, service.events.get? id = some event →
    event.eventId = id ∧ event.Coherent
  versions_exact : ∀ id version, (∃ event, service.versions.get? (id, version) = some event) ↔
    ∃ newest, service.events.get? id = some newest ∧
      1 ≤ version ∧ version ≤ newest.eventVersion
  versions_newest : ∀ id event, service.events.get? id = some event →
    service.versions.get? (id, event.eventVersion) = some event
  versions_step : ∀ id version event event',
    service.versions.get? (id, version) = some event →
    service.versions.get? (id, version + 1) = some event' →
    (∃ mention, event'.mentions.Perm (event.mentions ++ [mention])) ∧
      event'.lastingFields = event.lastingFields
  identity_known : ∀ key id, service.byIdentity.get? key = some id → id ∈ service.events.keys
  content_known : ∀ hash ids, service.byContentHash.get? hash = some ids →
    ∀ id ∈ ids, id ∈ service.events.keys
  identity_count : service.byIdentity.keys.length =
    (service.events.values.map (fun event => event.mentions.length)).sum

omit [CharacterTables] in
/-- A committed version has all its mentions and those of the version before. -/
theorem Grown.mentions_succ {log : List Commit} (h : Grown log) {commit commit' : Commit}
    (hmem : commit ∈ log) (hmem' : commit' ∈ log) (hid : commit'.eventId = commit.eventId)
    (hversion : commit'.version = commit.version + 1) :
    commit'.event.mentions.Perm (commit.event.mentions ++ [commit'.mention]) := by
  have hget := h.numbered.getElem?_number hmem'
  have hold := h.mentions_perm commit hmem
  have hnew := h.mentions_perm commit' hmem'
  rw [hversion, Nat.add_sub_cancel] at hget
  rw [hversion, List.take_add_one, commitsOf, hget, List.map_append, hid] at hnew
  exact hnew.trans (hold.symm.append_right _)

omit [CharacterTables] in
/-- Every commit adds one identity key and one mention. -/
theorem Archives.identity_count {service : EventService} {log : List Commit}
    (h : Archives service log) (hgrown : Grown log) :
    service.byIdentity.keys.length =
      (service.events.values.map (fun event => event.mentions.length)).sum := by
  have hkeys : service.events.keys.Perm (log.map Commit.eventId).dedup := by
    refine (List.perm_ext_iff_of_nodup service.events.nodup_keys (List.nodup_dedup _)).mpr ?_
    intro id
    rw [List.mem_dedup]
    constructor
    · intro hmem
      obtain ⟨event, hentry⟩ := InsertionDict.mem_keys.mp hmem
      obtain ⟨last, hlatest, _⟩ := h.events_latest id event
        (InsertionDict.get?_eq_some_iff.mpr hentry)
      exact List.mem_map.mpr ⟨last, latest_mem hlatest⟩
    · intro hmem
      by_contra hnot
      obtain ⟨commit, hcommit, hid⟩ := List.mem_map.mp hmem
      exact h.fresh_of_notMem_keys hnot commit hcommit hid
  have hcount : ∀ entry ∈ service.events.entries,
      entry.2.mentions.length = (log.map Commit.eventId).count entry.1 := by
    intro entry hentry
    obtain ⟨id, event⟩ := entry
    obtain ⟨last, hlatest, hsame, _⟩ := h.events_latest id event
      (InsertionDict.get?_eq_some_iff.mpr hentry)
    have hcoherent := hgrown.coherent last (latest_mem hlatest).1
    calc event.mentions.length
        = last.event.mentions.length := hsame.mentions_perm.length_eq
      _ = last.version := hcoherent.version_eq.symm
      _ = (ofKey Commit.eventId log id).length := hgrown.numbered.number_latest hlatest
      _ = (log.map Commit.eventId).count id := by
          rw [List.count, List.countP_map, ofKey, ← List.countP_eq_length_filter]
          rfl
  rw [h.identity_keys, List.length_map]
  calc log.length
      = (log.map Commit.eventId).length := (List.length_map _).symm
    _ = ((log.map Commit.eventId).dedup.map (fun id => (log.map Commit.eventId).count id)).sum :=
        (List.sum_map_count_dedup_eq_length _).symm
    _ = (service.events.keys.map (fun id => (log.map Commit.eventId).count id)).sum :=
        ((hkeys.map _).sum_eq).symm
    _ = (service.events.values.map (fun event => event.mentions.length)).sum := by
        rw [InsertionDict.keys, InsertionDict.values, List.map_map, List.map_map]
        exact congrArg List.sum (List.map_congr_left fun entry hentry =>
          (hcount entry hentry).symm)

omit [CharacterTables] in
/-- A stored event is the last commit of its identifier, whose version counts
its commits. -/
theorem Archives.last_of_event {service : EventService} {log : List Commit}
    (h : Archives service log) (hgrown : Grown log) {id : Uuid} {event : CanonicalEvent}
    (hget : service.events.get? id = some event) :
    ∃ last ∈ log, last.eventId = id ∧ last.event = event ∧
      last.version = (ofKey Commit.eventId log id).length := by
  obtain ⟨last, hlatest, rfl⟩ := (h.events_exact id event).mp hget
  exact ⟨last, (latest_mem hlatest).1, (latest_mem hlatest).2, rfl,
    hgrown.numbered.number_latest hlatest⟩

omit [CharacterTables] in
/-- The event of a commit is stored. -/
theorem Archives.eventId_known {service : EventService} {log : List Commit}
    (h : Archives service log) {commit : Commit} (hmem : commit ∈ log) :
    commit.eventId ∈ service.events.keys := by
  by_contra hnot
  exact h.fresh_of_notMem_keys hnot commit hmem rfl

omit [CharacterTables] in
/-- The versions of an event count from one to that of the newest. -/
theorem Archives.version_stored_iff {service : EventService} {log : List Commit}
    (h : Archives service log) (hgrown : Grown log) (id : Uuid) (version : ℕ) :
    (∃ event, service.versions.get? (id, version) = some event) ↔
      ∃ newest, service.events.get? id = some newest ∧
        1 ≤ version ∧ version ≤ newest.eventVersion := by
  constructor
  · intro hex
    obtain ⟨event, hget⟩ := hex
    obtain ⟨commit, hmem, hid, hversion, _⟩ := (h.versions_exact id version event).mp hget
    obtain ⟨newest, hentry⟩ := InsertionDict.mem_keys.mp (h.eventId_known hmem)
    rw [hid] at hentry
    have hnewest := InsertionDict.get?_eq_some_iff.mpr hentry
    obtain ⟨last, _, _, rfl, hlast⟩ := h.last_of_event hgrown hnewest
    obtain ⟨hpos, hle⟩ := hgrown.numbered.number_bounds hmem
    rw [hid, ← hlast] at hle
    exact ⟨last.event, hnewest, hversion ▸ hpos, hversion ▸ hle⟩
  · intro hex
    obtain ⟨newest, hnewest, hpos, hle⟩ := hex
    obtain ⟨last, _, _, rfl, hlast⟩ := h.last_of_event hgrown hnewest
    obtain ⟨commit, hmem, hid, hversion⟩ :=
      hgrown.numbered.exists_number hpos (hle.trans (le_of_eq hlast))
    exact ⟨commit.event,
      (h.versions_exact id version _).mpr ⟨commit, hmem, hid, hversion, rfl⟩⟩

/-- **Event store invariant.**  Every reachable state of a service without
persistence satisfies the store invariant. -/
theorem reachable_storeInvariant {service : EventService} (h : Reachable service) :
    StoreInvariant service := by
  obtain ⟨log, hgrown, harchives⟩ := h.archives
  constructor
  · intro id event hget
    obtain ⟨last, hmem, hid, rfl, _⟩ := harchives.last_of_event hgrown hget
    exact ⟨hid, hgrown.coherent last hmem⟩
  · exact harchives.version_stored_iff hgrown
  · intro id event hget
    obtain ⟨last, hmem, hid, rfl, _⟩ := harchives.last_of_event hgrown hget
    exact (harchives.versions_exact id _ _).mpr ⟨last, hmem, hid, rfl, rfl⟩
  · intro id version event event' hget hget'
    obtain ⟨commit, hmem, hid, hversion, rfl⟩ := (harchives.versions_exact _ _ _).mp hget
    obtain ⟨commit', hmem', hid', hversion', rfl⟩ := (harchives.versions_exact _ _ _).mp hget'
    constructor
    · exact ⟨commit'.mention, hgrown.mentions_succ hmem hmem' (hid'.trans hid.symm)
        (by rw [hversion', hversion])⟩
    · exact hgrown.lastingFields_eq commit' hmem' commit hmem (hid'.trans hid.symm)
  · intro key id hget
    obtain ⟨commit, hmem, _, rfl⟩ := (harchives.identity_iff key id).mp hget
    exact harchives.eventId_known hmem
  · intro hash ids hget id hid
    obtain ⟨commit, hmem, _, rfl⟩ := (harchives.content_iff hash id).mp (by simpa [hget] using hid)
    exact harchives.eventId_known hmem
  · exact harchives.identity_count hgrown

/-- Two steps of an empty service under two identifiers. -/
theorem everyStep_freshId_pair (envelope envelope' : RawEnvelope) {newId newId' : Uuid}
    (hne : newId' ≠ newId) :
    EveryStep FreshId EventService.empty [(envelope, newId), (envelope', newId')] := by
  refine ⟨List.not_mem_nil, ?_, trivial⟩
  unfold FreshId
  rw [ingestInMemory_service _ _ _ represents_empty]
  show newId' ∉ [newId]
  exact fun hmem => hne (List.mem_singleton.mp hmem)

/-- An item received before the newest mention of its event, a redelivery of
it, and an item without native identifier. -/
def outOfOrderRun : List (RawEnvelope × Uuid) :=
  [(testItem 1 (some "a") "first" 50 60, 7), (testItem 2 (some "b") "second" 20 61, 8),
    (testItem 3 (some "b") "second" 70 71, 9), (testItem 4 none "third" 90 91, 10)]

omit [CharacterTables] in
theorem outOfOrderRun_fresh :
    let := asciiTables
    EveryStep FreshId EventService.empty outOfOrderRun := by
  intro
  refine ⟨?_, ?_, ?_, ?_, trivial⟩
  · show (7 : Uuid) ∉ _
    decide +kernel
  · show (8 : Uuid) ∉ _
    decide +kernel
  · show (9 : Uuid) ∉ _
    decide +kernel
  · show (10 : Uuid) ∉ _
    decide +kernel

omit [CharacterTables] in
theorem storeInvariant_outOfOrder :
    let := asciiTables
    StoreInvariant (EventService.empty.runInMemory outOfOrderRun) := by
  intro
  exact reachable_storeInvariant (Reachable.start.run outOfOrderRun_fresh)

end Reachable

section PointInTime

/-- Version stamps are safe to select by: no version holds an item received
after its stamp, and no version is stamped before the one it follows. -/
structure PointInTime (service : EventService) : Prop where
  received_le : ∀ id version event, service.versions.get? (id, version) = some event →
    ∀ mention ∈ event.mentions, mention.receivedAt ≤ event.versionCreatedAt
  created_le : ∀ id version event event',
    service.versions.get? (id, version) = some event →
    service.versions.get? (id, version + 1) = some event' →
    event.versionCreatedAt ≤ event'.versionCreatedAt

/-- Versions selected by their stamp hold nothing received later. -/
theorem PointInTime.selection {service : EventService} (h : PointInTime service)
    {id : Uuid} {version : ℕ} {event : CanonicalEvent} {time : UtcDatetime}
    (hget : service.versions.get? (id, version) = some event)
    (htime : event.versionCreatedAt ≤ time) :
    ∀ mention ∈ event.mentions, mention.receivedAt ≤ time :=
  fun mention hmem => (h.received_le id version event hget mention hmem).trans htime

theorem pointInTime_empty : PointInTime EventService.empty where
  received_le id version event hget := by simp [EventService.empty] at hget
  created_le id version event event' hget := by simp [EventService.empty] at hget

/-- The newest version in memory is the cached version of its number, and no
later one is cached. -/
theorem Archives.versions_last {service : EventService} {log : List Commit}
    (h : Archives service log) (hgrown : Grown log) {existing : CanonicalEvent}
    (hmem : existing ∈ service.events.values) :
    service.versions.get? (existing.eventId, existing.eventVersion) = some existing ∧
      ∀ version event, service.versions.get? (existing.eventId, version) = some event →
        1 ≤ version ∧ version ≤ existing.eventVersion := by
  obtain ⟨id, hget⟩ := InsertionDict.mem_values_iff_get?.mp hmem
  obtain ⟨last, hlatest, rfl⟩ := (h.events_exact id existing).mp hget
  obtain ⟨hlast, rfl⟩ := latest_mem hlatest
  constructor
  · exact (h.versions_exact _ _ _).mpr ⟨last, hlast, rfl, rfl, rfl⟩
  · intro version event hversion
    obtain ⟨commit, hcommit, hid, rfl, _⟩ := (h.versions_exact _ _ _).mp hversion
    have hbounds := hgrown.numbered.number_bounds hcommit
    have hcount := hgrown.numbered.number_latest hlatest
    rw [hid] at hbounds
    exact ⟨hbounds.1, hbounds.2.trans (le_of_eq hcount.symm)⟩

/-- Opening an event keeps the stamps safe. -/
theorem Archives.pointInTime_open {service : EventService} {log : List Commit}
    (h : Archives service log) (hsafe : PointInTime service) {envelope : RawEnvelope}
    {newId : Uuid} (hfresh : newId ∉ service.events.keys)
    (htimes : envelope.receivedAt ≤ envelope.processedAt) :
    PointInTime (service.remember envelope (envelope.openEvent newId)) := by
  have hunused : ∀ version event, service.versions.get? (newId, version) ≠ some event := by
    intro version event hget
    obtain ⟨commit, hmem, hid, _⟩ := h.versions_recorded _ _ _ hget
    exact h.fresh_of_notMem_keys hfresh commit hmem hid
  constructor
  · intro id version event hget mention hmem
    rw [EventService.remember, InsertionDict.get?_set] at hget
    split at hget
    · obtain rfl := Option.some.inj hget
      obtain rfl := List.mem_singleton.mp hmem
      exact htimes
    · exact hsafe.received_le id version event hget mention hmem
  · intro id version event event' hget hget'
    rw [EventService.remember, InsertionDict.get?_set] at hget hget'
    split at hget'
    · rename_i hkey'
      obtain ⟨rfl, hversion⟩ := Prod.mk.inj hkey'
      rw [if_neg (by intro hkey; have := (Prod.mk.inj hkey).2; omega)] at hget
      exact absurd hget (hunused _ _)
    · split at hget
      · rename_i hkey
        obtain ⟨rfl, _⟩ := Prod.mk.inj hkey
        exact absurd hget' (hunused _ _)
      · exact hsafe.created_le id version event event' hget hget'

/-- Extending an event keeps the stamps safe exactly when the new stamp does
not precede the old one. -/
theorem Archives.pointInTime_extend {service : EventService} {log : List Commit}
    (h : Archives service log) (hgrown : Grown log) (hsafe : PointInTime service)
    {envelope : RawEnvelope} {existing : CanonicalEvent}
    (hmem : existing ∈ service.events.values)
    (htimes : envelope.receivedAt ≤ envelope.processedAt) :
    PointInTime (service.remember envelope (existing.extend envelope)) ↔
      existing.versionCreatedAt ≤ envelope.processedAt := by
  obtain ⟨hlast, hbounds⟩ := h.versions_last hgrown hmem
  constructor
  · intro hsafe'
    refine hsafe'.created_le existing.eventId existing.eventVersion existing
      (existing.extend envelope) ?_ ?_
    · rw [EventService.remember, InsertionDict.get?_set_of_ne]
      · exact hlast
      · intro hkey
        have hversion : existing.eventVersion = existing.eventVersion + 1 :=
          (Prod.mk.inj hkey).2
        omega
    · exact InsertionDict.get?_set_self _ _ _
  · intro hle
    constructor
    · intro id version event hget mention hmention
      rw [EventService.remember, InsertionDict.get?_set] at hget
      split at hget
      · obtain rfl := Option.some.inj hget
        rcases CanonicalEvent.mem_extend_mentions.mp hmention with hold | rfl
        · exact (hsafe.received_le _ _ _ hlast mention hold).trans hle
        · exact htimes
      · exact hsafe.received_le id version event hget mention hmention
    · intro id version event event' hget hget'
      rw [EventService.remember, InsertionDict.get?_set] at hget hget'
      split at hget'
      · rename_i hkey'
        obtain ⟨rfl, hversion⟩ := Prod.mk.inj hkey'
        have hold : version = existing.eventVersion := Nat.succ.inj hversion
        rw [if_neg (by intro hkey; have := (Prod.mk.inj hkey).2; omega)] at hget
        obtain rfl := Option.some.inj hget'
        obtain rfl := Option.some.inj ((hold ▸ hget).symm.trans hlast)
        exact hle
      · split at hget
        · rename_i hkey
          obtain ⟨rfl, hversion⟩ := Prod.mk.inj hkey
          have hnext := (hbounds _ _ hget').2
          have : version = existing.eventVersion + 1 := hversion
          omega
        · exact hsafe.created_le id version event event' hget hget'

variable [CharacterTables]

/-- An envelope that joins an event is not processed before the stamp of the
event's newest version. -/
def InOrder (service : EventService) (step : RawEnvelope × Uuid) : Prop :=
  service.byIdentity.get? step.1.identityKey = none →
    ∀ existing, service.similarEvent step.1 = some existing →
      existing.versionCreatedAt ≤ step.1.processedAt

/-- **Stamp step.**  A step from a state with safe stamps leads to one exactly
when the envelope is processed in order. -/
theorem Archives.pointInTime_step {service : EventService} {log : List Commit}
    (h : Archives service log) (hgrown : Grown log) (hsafe : PointInTime service)
    {step : RawEnvelope × Uuid} (hfresh : FreshId service step)
    (htimes : step.1.receivedAt ≤ step.1.processedAt) :
    PointInTime (service.ingestInMemory step.1 step.2).service ↔ InOrder service step := by
  rw [ingestInMemory_service service step.1 step.2 h.toRepresents]
  by_cases hnew : service.byIdentity.get? step.1.identityKey = none
  · rw [if_pos hnew]
    cases hsimilar : service.similarEvent step.1 with
    | none =>
        have hnext : (service.nextEvent step.1 step.2).1 = step.1.openEvent step.2 := by
          rw [EventService.nextEvent, hsimilar]
        rw [hnext]
        refine iff_of_true ?_ (fun _ existing hexisting => ?_)
        · exact h.pointInTime_open hsafe hfresh htimes
        · exact absurd (hsimilar.symm.trans hexisting) (by simp)
    | some existing =>
        have hnext : (service.nextEvent step.1 step.2).1 = existing.extend step.1 := by
          rw [EventService.nextEvent, hsimilar]
        rw [hnext, h.pointInTime_extend hgrown hsafe (maxBy?_spec hsimilar).1 htimes]
        constructor
        · intro hle _ existing' hexisting'
          obtain rfl := Option.some.inj (hsimilar.symm.trans hexisting')
          exact hle
        · intro horder
          exact horder hnew existing hsimilar
  · rw [if_neg hnew]
    exact iff_of_true hsafe (fun hnone => absurd hnone hnew)

/-- **Stamp run.**  From a state with safe stamps, all states of a run have safe
stamps exactly when all its envelopes are processed in order. -/
theorem pointInTime_run {service : EventService} {log : List Commit}
    (h : Archives service log) (hgrown : Grown log) (hsafe : PointInTime service)
    {steps : List (RawEnvelope × Uuid)} (hfresh : EveryStep FreshId service steps)
    (htimes : ∀ step ∈ steps, step.1.receivedAt ≤ step.1.processedAt) :
    EveryState PointInTime service steps ↔ EveryStep InOrder service steps := by
  induction steps generalizing service log with
  | nil => exact iff_of_true hsafe trivial
  | cons step rest ih =>
      obtain ⟨hfirst, hrest⟩ := hfresh
      have hstep := h.pointInTime_step hgrown hsafe hfirst (htimes step List.mem_cons_self)
      obtain ⟨commits, hgrown', h', -⟩ := h.ingest_step hgrown step.1 hfirst
      have htail := fun hsafe' => ih h' hgrown' hsafe' hrest
        (fun step' hmem => htimes step' (List.mem_cons_of_mem _ hmem))
      constructor
      · intro hand
        obtain ⟨_, hstates⟩ := hand
        have hsafe' : PointInTime (service.ingestInMemory step.1 step.2).service := by
          cases rest with
          | nil => exact hstates
          | cons next rest => exact hstates.1
        exact ⟨hstep.mp hsafe', (htail hsafe').mp hstates⟩
      · intro hand
        obtain ⟨horder, hsteps⟩ := hand
        exact ⟨hsafe, (htail (hstep.mpr horder)).mpr hsteps⟩

/-- **Version stamps.**  Along a run of a service without persistence in which
nothing is processed before it is received, every state has safe stamps exactly
when every envelope that joins an event is processed in order. -/
theorem pointInTime_iff_inOrder (steps : List (RawEnvelope × Uuid))
    (hfresh : EveryStep FreshId EventService.empty steps)
    (htimes : ∀ step ∈ steps, step.1.receivedAt ≤ step.1.processedAt) :
    EveryState PointInTime EventService.empty steps ↔
      EveryStep InOrder EventService.empty steps :=
  pointInTime_run archives_empty Grown.nil pointInTime_empty hfresh htimes

omit [CharacterTables] in
theorem pointInTime_iff_inOrder_outOfOrder :
    let := asciiTables
    EveryState PointInTime EventService.empty outOfOrderRun ↔
      EveryStep InOrder EventService.empty outOfOrderRun := by
  intro
  exact pointInTime_iff_inOrder outOfOrderRun outOfOrderRun_fresh (by decide +kernel)

/-- An item and, ingested after it, another report of the same content that was
received and processed five microseconds before it. -/
def lateArrival : List (RawEnvelope × Uuid) :=
  [(testItem 1 (some "a") "first" 10 10, 7), (testItem 2 (some "b") "second" 5 5, 8)]

omit [CharacterTables] in
/-- The second version of the event is stamped `5` and holds an item received
at `10`. -/
theorem stamps_unsafe :
    let := asciiTables
    ¬ ∀ steps, EveryStep FreshId EventService.empty steps →
      (∀ step ∈ steps, step.1.receivedAt ≤ step.1.processedAt) →
      EveryState PointInTime EventService.empty steps := by
  intro _ hlaw
  have hsafe : PointInTime (EventService.empty.runInMemory lateArrival) := by
    refine (hlaw lateArrival ⟨?_, ?_, trivial⟩ (by decide +kernel)).2.2
    · show (7 : Uuid) ∉ _
      decide +kernel
    · show (8 : Uuid) ∉ _
      decide +kernel
  have hversion : (EventService.empty.runInMemory lateArrival).versions.get? (7, 2) =
      some (((testItem 1 (some "a") "first" 10 10).openEvent 7).extend
        (testItem 2 (some "b") "second" 5 5)) := by
    decide +kernel
  have hle := hsafe.received_le 7 2 _ hversion (testItem 1 (some "a") "first" 10 10).mention
    (by decide +kernel)
  exact absurd hle (by decide +kernel)

end PointInTime

end EventAlpha
