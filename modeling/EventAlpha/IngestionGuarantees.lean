import EventAlpha.RestartEquivalence

/-!
# What ingestion guarantees

Two laws of every run of one persistent service, whatever the order of its
ingestions, failed saves, refreshes and restarts.

* `exactly_once` — an identity key leaves one item and one mention in one
  event, and once it was ingested every redelivery is answered from memory
  with the event that holds the mention, without a save and without a change.
* `versions_immutable` — every version an ingestion returned can be read back
  as it was, from the cache or from the tables, and no other version can.
-/

namespace EventAlpha

open KeyedOrder VersionLog

/-- The identity key of a stored item. -/
def RawItemRow.identityKey (row : RawItemRow) : IdentityKey :=
  (row.provider, row.sourceId, itemIdentity row.nativeId row.contentHash)

/-- Items and mentions are stored once, and every item is mentioned by one
event. -/
structure StoredOnce (system : System) : Prop where
  item_unique : ∀ row ∈ system.db.rawItems.values, ∀ row' ∈ system.db.rawItems.values,
    row.identityKey = row'.identityKey → row = row'
  mention_unique : ∀ row ∈ system.db.rawItems.values,
    ∃! mention, mention ∈ system.db.mentions.values ∧ mention.rawItemId = row.id
  mention_stored : ∀ mention ∈ system.db.mentions.values,
    ∃ row ∈ system.db.rawItems.values, row.id = mention.rawItemId
  event_unique : ∀ row ∈ system.db.rawItems.values,
    ∃! event, event ∈ system.service.events.values ∧
      ∃ mention ∈ event.mentions, mention.rawItemId = row.id
  once_in_event : ∀ event ∈ system.service.events.values,
    (event.mentions.map EventMention.rawItemId).Nodup

/-- Every envelope of a key is answered with an event that holds the mention of
the stored item of that key, whatever a save would do, and nothing changes. -/
def AnsweredFromMemory [CharacterTables] (system : System) (key : IdentityKey)
    (eventId : Uuid) : Prop :=
  ∃ event row, event.eventId = eventId ∧ row ∈ system.db.rawItems.values ∧
    row.identityKey = key ∧ (∃ mention ∈ event.mentions, mention.rawItemId = row.id) ∧
    ∀ redelivered : RawEnvelope, redelivered.identityKey = key →
      ∀ {σ : Type} (save : σ → RawEnvelope → CanonicalEvent → Option σ) (store : σ)
        (newId : Uuid), EventService.ingest save system.service store redelivered newId =
          ⟨.ok ⟨event, false, true⟩, system.service, store⟩

namespace Consistent

variable {system : System} {log : List Commit}

/-- An event in memory holds the mentions of all commits of its event. -/
theorem mentions_perm (h : Consistent system log) {event : CanonicalEvent}
    (hmem : event ∈ system.service.events.values) :
    event.mentions.Perm ((commitsOf log event.eventId).map Commit.mention) := by
  obtain ⟨last, hlatest, hsame, _⟩ := h.represents.latest_of_mem_values hmem
  exact hsame.mentions_perm.trans (h.grown.latest_mentions_perm hlatest)

/-- The event of a commit is in memory and holds its mention. -/
theorem event_of_commit (h : Consistent system log) {commit : Commit}
    (hcommit : commit ∈ log) :
    ∃ event, system.service.events.get? commit.eventId = some event ∧
      event.eventId = commit.eventId ∧ commit.mention ∈ event.mentions := by
  cases hlatest : latest Commit.eventId log commit.eventId with
  | none => exact absurd rfl (latest_eq_none_iff.mp hlatest commit hcommit)
  | some last =>
      obtain ⟨event, hget⟩ := h.represents.events_complete _ last hlatest
      have hid := h.represents.eventId_eq hget
      refine ⟨event, hget, hid, ?_⟩
      rw [(h.mentions_perm (InsertionDict.mem_values_iff_get?.mpr ⟨_, hget⟩)).mem_iff, hid]
      exact List.mem_map.mpr ⟨commit, mem_ofKey.mpr ⟨hcommit, rfl⟩, rfl⟩

/-- A mention in memory was left by a commit of its event. -/
theorem commit_of_mention (h : Consistent system log) {event : CanonicalEvent}
    (hmem : event ∈ system.service.events.values) {mention : EventMention}
    (hmention : mention ∈ event.mentions) :
    ∃ commit ∈ log, commit.eventId = event.eventId ∧ commit.mention = mention := by
  obtain ⟨commit, hcommit, rfl⟩ :=
    List.mem_map.mp ((h.mentions_perm hmem).mem_iff.mp hmention)
  obtain ⟨hlog, hid⟩ := mem_ofKey.mp hcommit
  exact ⟨commit, hlog, hid, rfl⟩

/-- A consistent system stores everything once. -/
theorem storedOnce (h : Consistent system log) : StoredOnce system := by
  constructor
  · intro row hrow row' hrow' hkey
    obtain ⟨commit, hcommit, rfl⟩ := h.stores.mem_rawItems_values.mp hrow
    obtain ⟨commit', hcommit', rfl⟩ := h.stores.mem_rawItems_values.mp hrow'
    rw [List.inj_on_of_nodup_map h.keys hcommit hcommit' hkey]
  · intro row hrow
    obtain ⟨commit, hcommit, rfl⟩ := h.stores.mem_rawItems_values.mp hrow
    refine ⟨commit.mentionRow, ⟨?_, rfl⟩, ?_⟩
    · rw [h.stores.mentions_values]
      exact List.mem_map.mpr ⟨commit, hcommit, rfl⟩
    · intro mention hand
      obtain ⟨hmention, hid⟩ := hand
      rw [h.stores.mentions_values] at hmention
      obtain ⟨commit', hcommit', rfl⟩ := List.mem_map.mp hmention
      rw [h.stores.eq_of_id_eq hcommit' hcommit hid]
  · intro mention hmention
    rw [h.stores.mentions_values] at hmention
    obtain ⟨commit, hcommit, rfl⟩ := List.mem_map.mp hmention
    exact ⟨commit.rawItemRow, h.stores.mem_rawItems_values.mpr ⟨commit, hcommit, rfl⟩, rfl⟩
  · intro row hrow
    obtain ⟨commit, hcommit, rfl⟩ := h.stores.mem_rawItems_values.mp hrow
    obtain ⟨event, hget, hid, hmention⟩ := h.event_of_commit hcommit
    refine ⟨event, ⟨InsertionDict.mem_values_iff_get?.mpr ⟨_, hget⟩, commit.mention, hmention,
      rfl⟩, ?_⟩
    intro event' hand
    obtain ⟨hmem', mention, hmention', hitem⟩ := hand
    obtain ⟨commit', hcommit', hid', rfl⟩ := h.commit_of_mention hmem' hmention'
    obtain rfl := h.stores.eq_of_id_eq hcommit' hcommit hitem
    obtain ⟨id, hget'⟩ := InsertionDict.mem_values_iff_get?.mp hmem'
    have hsame : commit'.eventId = id := hid'.trans (h.represents.eventId_eq hget')
    rw [hsame, hget'] at hget
    exact Option.some.inj hget
  · intro event hmem
    have hids : ((commitsOf log event.eventId).map
        (fun commit => commit.envelope.id)).Nodup :=
      h.stores.nodup_ids.sublist ((List.filter_sublist (l := log)).map _)
    have hperm := (h.mentions_perm hmem).map EventMention.rawItemId
    rw [List.map_map] at hperm
    exact hperm.nodup_iff.mpr hids

/-- The key of a commit is answered from memory. -/
theorem answeredFromMemory [CharacterTables] (h : Consistent system log) {commit : Commit}
    (hcommit : commit ∈ log) :
    AnsweredFromMemory system commit.envelope.identityKey commit.eventId := by
  obtain ⟨event, hget, hid, hmention⟩ := h.event_of_commit hcommit
  refine ⟨event, commit.rawItemRow, hid,
    h.stores.mem_rawItems_values.mpr ⟨commit, hcommit, rfl⟩, rfl,
    ⟨commit.mention, hmention, rfl⟩, ?_⟩
  intro redelivered hkey σ save store newId
  have hknown : system.service.byIdentity.get? redelivered.identityKey =
      some commit.eventId :=
    (h.represents.identity_iff _ _).mpr ⟨commit, hcommit, hkey.symm, rfl⟩
  obtain ⟨event', hget', hanswer⟩ := h.represents.ingest_known hknown
  obtain rfl := Option.some.inj (hget.symm.trans hget')
  exact hanswer save store newId

end Consistent

section Guarantees

/-- A read of a committed version agrees with every view of it. -/
theorem AnswersVersion.agrees {log : List Commit} {id : Uuid} {version : ℕ}
    {answer : Except LoadError (Option CanonicalEvent)} (h : AnswersVersion log id version answer)
    (hgrown : Grown log) {commit : Commit} (hcommit : commit ∈ log)
    (hid : commit.eventId = id) (hversion : commit.version = version)
    {view : CanonicalEvent} (hview : view.Same commit.event) (hordered : view.Ordered) :
    ∃ event, answer = .ok (some event) ∧ event.Agrees view := by
  cases h with
  | committed hmem hid' hversion' hsame hordered' =>
      obtain rfl := hgrown.numbered.eq_of_number_eq hmem hcommit (hid'.trans hid.symm)
        (hversion'.trans hversion.symm)
      exact ⟨_, rfl, hsame.trans hview.symm, hordered', hordered⟩
  | absent _ hnone => exact absurd ⟨hid, hversion⟩ (hnone commit hcommit)
  | refused _ hnone => exact absurd ⟨hid, hversion⟩ (hnone commit hcommit)

/-- What a read answers for a version that was not committed. -/
def missingVersion (version : ℕ) : Except LoadError (Option CanonicalEvent) :=
  if version < 2 ^ 31 then .ok none else .error .dataError

/-- A version that was not committed is not found. -/
theorem AnswersVersion.eq_missing {log : List Commit} {id : Uuid} {version : ℕ}
    {answer : Except LoadError (Option CanonicalEvent)} (h : AnswersVersion log id version answer)
    (habsent : ∀ commit ∈ log, ¬(commit.eventId = id ∧ commit.version = version)) :
    answer = missingVersion version := by
  unfold missingVersion
  cases h with
  | committed hmem hid hversion _ _ => exact absurd ⟨hid, hversion⟩ (habsent _ hmem)
  | absent hrange _ => rw [if_pos hrange]
  | refused hrange _ => rw [if_neg (not_lt.mpr hrange)]

variable [CharacterTables]

/-- **Exactly-once ingestion.**  After every run everything is stored once, and
every key that was ingested is answered from memory with its event. -/
theorem exactly_once {entries : List (Call × Reply)} {system : System}
    (h : Trace System.start entries system) (hids : IdsIdentify (envelopesOf entries)) :
    StoredOnce system ∧
      ∀ envelope newId fault result,
        (Call.ingest envelope newId fault, Reply.ingested (.ok result)) ∈ entries →
        AnsweredFromMemory system envelope.identityKey result.event.eventId := by
  obtain ⟨log, hconsistent, haccounts⟩ := h.consistent hids
  refine ⟨hconsistent.storedOnce, ?_⟩
  intro envelope newId fault result hentry
  obtain ⟨commit, hcommit, hkey, hid⟩ := haccounts.keyed _ _ _ _ hentry
  rw [← hkey, ← hid]
  exact hconsistent.answeredFromMemory hcommit

omit [CharacterTables] in
theorem exactly_once_sampleItems :
    let := asciiTables
    StoredOnce sampleSystem ∧
      AnsweredFromMemory sampleSystem (testItem 2 (some "a") "first" 50 60).identityKey 7 := by
  intro
  obtain ⟨honce, hanswered⟩ :=
    exactly_once sampleTrace (idsIdentify_of_nodup (by decide +kernel))
  exact ⟨honce, hanswered (testItem 2 (some "a") "first" 50 60) 7 false
    ⟨(testItem 2 (some "a") "first" 50 60).openEvent 7, true, false⟩ (by decide +kernel)⟩

/-- **Immutable versions.**  After every run, a version that some ingestion
returned is read back as it was returned, from the tables and by the service,
and a version that none returned is not found.  A number that is no `INTEGER` is
refused. -/
theorem versions_immutable {entries : List (Call × Reply)} {system : System}
    (h : Trace System.start entries system) (hids : IdsIdentify (envelopesOf entries))
    {eventId : Uuid} {eventVersion : ℕ} {loaded : Except LoadError (Option CanonicalEvent)}
    (hload : system.db.LoadsEventVersion system.db eventId eventVersion loaded) :
    (∀ envelope newId fault result,
      (Call.ingest envelope newId fault, Reply.ingested (.ok result)) ∈ entries →
      result.event.eventId = eventId → result.event.eventVersion = eventVersion →
      (∃ event, loaded = .ok (some event) ∧ event.Agrees result.event) ∧
      ∃ event, (system.service.getEventVersion loaded eventId eventVersion).1 =
        .ok (some event) ∧ event.Agrees result.event) ∧
    ((∀ envelope newId fault result,
      (Call.ingest envelope newId fault, Reply.ingested (.ok result)) ∈ entries →
      ¬ (result.event.eventId = eventId ∧ result.event.eventVersion = eventVersion)) →
      loaded = missingVersion eventVersion ∧
        (system.service.getEventVersion loaded eventId eventVersion).1 =
          missingVersion eventVersion) := by
  obtain ⟨log, hconsistent, haccounts⟩ := h.consistent hids
  have hstores : Stores system.db (log ++ []) := by simpa using hconsistent.stores
  have hgrown : Grown (log ++ []) := by simpa using hconsistent.grown
  have htables := hconsistent.stores.loadEventVersion_spec hstores hgrown hload
  have hservice := (hconsistent.getEventVersion hload).1
  constructor
  · intro envelope newId fault result hentry hid hversion
    obtain ⟨commit, hcommit, hview, hordered⟩ := haccounts.viewed _ _ _ _ hentry
    have hid' : commit.eventId = eventId := hview.eventId_eq.symm.trans hid
    have hversion' : commit.version = eventVersion := hview.eventVersion_eq.symm.trans hversion
    exact ⟨htables.agrees hconsistent.grown hcommit hid' hversion' hview hordered,
      hservice.agrees hconsistent.grown hcommit hid' hversion' hview hordered⟩
  · intro hnever
    have habsent : ∀ commit ∈ log,
        ¬ (commit.eventId = eventId ∧ commit.version = eventVersion) := by
      intro commit hcommit
      obtain ⟨newId, fault, created, hentry⟩ := haccounts.committed commit hcommit
      exact hnever _ _ _ _ hentry
    exact ⟨htables.eq_missing habsent, hservice.eq_missing habsent⟩

omit [CharacterTables] in
/-- The first version of an event that has a second one. -/
theorem versions_immutable_sampleItems :
    let := asciiTables
    ∃ event, loadEventVersion (sampleSystem.db.events.get? (7, 1))
        (sampleSystem.db.mentionRowsUpTo 7 1) = .ok (some event) ∧
      event.Agrees ((testItem 2 (some "a") "first" 50 60).openEvent 7) := by
  intro
  have hload := sampleSystem.db.loadsEventVersion_of_lt
    (by decide : 1 < 2 ^ 31) (List.Perm.refl (sampleSystem.db.mentionRowsUpTo 7 1))
  exact ((versions_immutable sampleTrace (idsIdentify_of_nodup (by decide +kernel))
    hload).1 (testItem 2 (some "a") "first" 50 60) 7 false
    ⟨(testItem 2 (some "a") "first" 50 60).openEvent 7, true, false⟩ (by decide +kernel)
    rfl rfl).1

/-- The version an ingestion returned. -/
def Reply.returnedVersion? : Reply → Option ℕ
  | .ingested (.ok result) => some result.event.eventVersion
  | _ => none

omit [CharacterTables] in
/-- A version that no ingestion of the run returned, and that is not answered
with nothing: its number is no `INTEGER`. -/
theorem unknown_version_refused :
    let := asciiTables
    Trace System.start sampleEntries sampleSystem ∧
      (∀ entry ∈ sampleEntries, ∀ result, entry.2 = .ingested (.ok result) →
        result.event.eventVersion ≠ 2 ^ 31) ∧
      (∀ loaded, sampleSystem.db.LoadsEventVersion sampleSystem.db 7 (2 ^ 31) loaded ↔
        loaded = .error .dataError) ∧
      (sampleSystem.service.getEventVersion (.error .dataError) 7 (2 ^ 31)).1 =
        .error .dataError := by
  intro
  refine ⟨sampleTrace, ?_, ?_, ?_⟩
  · have hsmall : sampleEntries.all (fun entry =>
        entry.2.returnedVersion?.all (fun version => version < 3)) = true := by decide +kernel
    intro entry hentry result hreply
    have hversion := List.all_eq_true.mp hsmall entry hentry
    rw [hreply] at hversion
    have hlt : result.event.eventVersion < 3 := of_decide_eq_true hversion
    omega
  · intro loaded
    rw [EventDb.LoadsEventVersion, if_neg (by decide)]
  · have hcached : sampleSystem.service.versions.get? (7, 2 ^ 31) = none := by decide +kernel
    rw [EventService.getEventVersion, hcached]

end Guarantees

end EventAlpha
