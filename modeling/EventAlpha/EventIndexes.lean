import EventAlpha.EventHistory

/-!
# The indexes represent the history

`Represents` is the relation between the four in-memory indexes and the
history of commits: the event index holds a sorted view of the newest version
of every event, the identity index sends the key of every committed envelope
to its event, the content index collects the events of every committed
content hash, and cached versions are views of committed ones.

The relation is kept by the only step that changes the indexes
(`Represents.remember`), it makes the next commit grow the history
(`Represents.grown_next`), and it determines the choice of the clusterer: two
services representing one history choose views of the same event
(`similarEvent_same`), whatever the order of their dictionaries.
-/

namespace EventAlpha

open KeyedOrder VersionLog

/-- The mentions of an event in order of receipt. -/
def CanonicalEvent.Ordered (event : CanonicalEvent) : Prop :=
  SortedBy EventMention.receivedAt event.mentions

/-- No two commits of a history carry the same identity key. -/
def KeysDistinct (log : List Commit) : Prop :=
  (log.map (fun commit => commit.envelope.identityKey)).Nodup

/-- The indexes of a service are views of a history. -/
structure Represents (service : EventService) (log : List Commit) : Prop where
  events_latest : ∀ id event, service.events.get? id = some event →
    ∃ last, latest Commit.eventId log id = some last ∧
      event.Same last.event ∧ event.Ordered
  events_complete : ∀ id last, latest Commit.eventId log id = some last →
    ∃ event, service.events.get? id = some event
  versions_recorded : ∀ id version event,
    service.versions.get? (id, version) = some event →
    ∃ commit ∈ log, commit.eventId = id ∧ commit.version = version ∧
      event.Same commit.event ∧ event.Ordered
  identity_iff : ∀ key id, service.byIdentity.get? key = some id ↔
    ∃ commit ∈ log, commit.envelope.identityKey = key ∧ commit.eventId = id
  content_iff : ∀ hash id, id ∈ (service.byContentHash.get? hash).getD ∅ ↔
    ∃ commit ∈ log, commit.envelope.contentHash = hash ∧ commit.eventId = id
  content_none_iff : ∀ hash, service.byContentHash.get? hash = none ↔
    ∀ commit ∈ log, commit.envelope.contentHash ≠ hash

/-- The empty service represents the empty history. -/
theorem represents_empty : Represents EventService.empty [] where
  events_latest id event h := by simp [EventService.empty] at h
  events_complete id last h := by simp [latest, ofKey] at h
  versions_recorded id version event h := by simp [EventService.empty] at h
  identity_iff key id := by simp [EventService.empty]
  content_iff hash id := by simp [EventService.empty]
  content_none_iff hash := by simp [EventService.empty]

namespace Represents

variable {service : EventService} {log : List Commit}

/-- The event index files every event under its own identifier. -/
theorem eventId_eq (h : Represents service log) {id : Uuid} {event : CanonicalEvent}
    (hget : service.events.get? id = some event) : event.eventId = id := by
  obtain ⟨last, hlatest, hsame, _⟩ := h.events_latest id event hget
  exact hsame.eventId_eq.trans (latest_mem hlatest).2

/-- An event in memory is the view of the newest version of its event. -/
theorem latest_of_mem_values (h : Represents service log) {event : CanonicalEvent}
    (hmem : event ∈ service.events.values) :
    ∃ last, latest Commit.eventId log event.eventId = some last ∧
      event.Same last.event ∧ event.Ordered := by
  obtain ⟨id, hget⟩ := InsertionDict.mem_values_iff_get?.mp hmem
  rw [h.eventId_eq hget]
  exact h.events_latest id event hget

/-- An identity key is unknown exactly when no commit carries it. -/
theorem identity_none_iff (h : Represents service log) {key : IdentityKey} :
    service.byIdentity.get? key = none ↔
      ∀ commit ∈ log, commit.envelope.identityKey ≠ key := by
  rw [Option.eq_none_iff_forall_ne_some]
  constructor
  · intro hnone commit hmem hkey
    exact hnone commit.eventId ((h.identity_iff key _).mpr ⟨commit, hmem, hkey, rfl⟩)
  · intro hall id hget
    obtain ⟨commit, hmem, hkey, _⟩ := (h.identity_iff key id).mp hget
    exact hall commit hmem hkey

/-- The event an identity key points at is in memory. -/
theorem events_of_identity (h : Represents service log) {key : IdentityKey} {id : Uuid}
    (hget : service.byIdentity.get? key = some id) :
    ∃ event, service.events.get? id = some event := by
  obtain ⟨commit, hmem, _, hid⟩ := (h.identity_iff key id).mp hget
  cases hlatest : latest Commit.eventId log id with
  | none => exact absurd hid (latest_eq_none_iff.mp hlatest commit hmem)
  | some last => exact h.events_complete id last hlatest

/-- The event of every commit is in memory. -/
theorem exists_event (h : Represents service log) {commit : Commit} (hmem : commit ∈ log) :
    ∃ event ∈ service.events.values, event.eventId = commit.eventId := by
  cases hlatest : latest Commit.eventId log commit.eventId with
  | none => exact absurd rfl (latest_eq_none_iff.mp hlatest commit hmem)
  | some last =>
      obtain ⟨event, hget⟩ := h.events_complete commit.eventId last hlatest
      exact ⟨event, InsertionDict.mem_values_iff_get?.mpr ⟨commit.eventId, hget⟩,
        h.eventId_eq hget⟩

/-- **Index step.**  The four updates after a save represent the history with
the new commit at its end, whichever view of the event is stored. -/
theorem remember (h : Represents service log) {envelope : RawEnvelope}
    {view event : CanonicalEvent} (hsame : view.Same event) (hordered : view.Ordered)
    (hnew : service.byIdentity.get? envelope.identityKey = none) :
    Represents (service.remember envelope view) (log ++ [⟨envelope, event⟩]) where
  events_latest id event' hget := by
    rw [latest_snoc]
    rw [EventService.remember, InsertionDict.get?_set, hsame.eventId_eq] at hget
    by_cases hid : id = event.eventId
    · rw [if_pos hid] at hget
      obtain rfl := Option.some.inj hget
      exact ⟨⟨envelope, event⟩, if_pos hid.symm, hsame, hordered⟩
    · rw [if_neg hid] at hget
      obtain ⟨last, hlatest, hview, hsorted⟩ := h.events_latest id event' hget
      exact ⟨last, (if_neg (fun heq => hid heq.symm)).trans hlatest, hview, hsorted⟩
  events_complete id last hlatest := by
    rw [EventService.remember, InsertionDict.get?_set, hsame.eventId_eq]
    by_cases hid : id = event.eventId
    · exact ⟨view, if_pos hid⟩
    · rw [latest_snoc, if_neg (fun heq => hid heq.symm)] at hlatest
      rw [if_neg hid]
      exact h.events_complete id last hlatest
  versions_recorded id version event' hget := by
    rw [EventService.remember, InsertionDict.get?_set, hsame.eventId_eq,
      hsame.eventVersion_eq] at hget
    by_cases hkey : (id, version) = (event.eventId, event.eventVersion)
    · rw [if_pos hkey] at hget
      obtain rfl := Option.some.inj hget
      obtain ⟨rfl, rfl⟩ := Prod.mk.inj hkey
      exact ⟨⟨envelope, event⟩, by simp, rfl, rfl, hsame, hordered⟩
    · rw [if_neg hkey] at hget
      obtain ⟨commit, hmem, hrest⟩ := h.versions_recorded id version event' hget
      exact ⟨commit, List.mem_append_left _ hmem, hrest⟩
  identity_iff key id := by
    rw [EventService.remember, InsertionDict.get?_set, hsame.eventId_eq, exists_mem_snoc]
    by_cases hkey : key = envelope.identityKey
    · have hold := h.identity_none_iff.mp hnew
      rw [if_pos hkey, Option.some.injEq]
      constructor
      · intro hid
        exact Or.inr ⟨hkey.symm, hid⟩
      · intro hor
        rcases hor with ⟨commit, hmem, hk, -⟩ | ⟨-, hid⟩
        · exact absurd (hk.trans hkey) (hold commit hmem)
        · exact hid
    · rw [if_neg hkey, h.identity_iff]
      exact (or_iff_left (fun hand => hkey hand.1.symm)).symm
  content_iff hash id := by
    rw [EventService.remember, InsertionDict.get?_addTo, hsame.eventId_eq, exists_mem_snoc]
    by_cases hhash : hash = envelope.contentHash
    · subst hhash
      rw [if_pos rfl, Option.getD_some, Finset.mem_insert, h.content_iff]
      constructor
      · intro hor
        rcases hor with hid | hold
        · exact Or.inr ⟨rfl, hid.symm⟩
        · exact Or.inl hold
      · intro hor
        rcases hor with hold | ⟨-, hid⟩
        · exact Or.inr hold
        · exact Or.inl hid.symm
    · rw [if_neg hhash, h.content_iff]
      exact (or_iff_left (fun hand => hhash hand.1.symm)).symm
  content_none_iff hash := by
    rw [EventService.remember, InsertionDict.get?_addTo, List.forall_mem_append,
      List.forall_mem_singleton]
    by_cases hhash : hash = envelope.contentHash
    · rw [if_pos hhash]
      refine iff_of_false (Option.some_ne_none _) ?_
      intro hand
      exact hand.2 hhash.symm
    · rw [if_neg hhash, h.content_none_iff]
      exact (and_iff_left (fun heq => hhash heq.symm)).symm

/-- A commit under an unknown key keeps the keys distinct. -/
theorem keysDistinct_snoc (h : Represents service log) (hkeys : KeysDistinct log)
    {envelope : RawEnvelope} {event : CanonicalEvent}
    (hnew : service.byIdentity.get? envelope.identityKey = none) :
    KeysDistinct (log ++ [⟨envelope, event⟩]) := by
  have hold := h.identity_none_iff.mp hnew
  rw [KeysDistinct, List.map_append, List.nodup_append]
  refine ⟨hkeys, List.nodup_singleton _, ?_⟩
  intro key hmem key' hmem' heq
  obtain ⟨commit, hcommit, rfl⟩ := List.mem_map.mp hmem
  exact hold commit hcommit (heq.trans (by simpa using hmem'))

section Clustering

variable [CharacterTables]

/-- An event becomes a candidate only within the window of its last update,
within its own category, and by exact content or a similar title. -/
theorem candidateRank_admits {envelope : RawEnvelope}
    {event : CanonicalEvent} {rank : EventService.Rank}
    (hrank : service.candidateRank envelope event = some rank) :
    event.eventType = envelope.category ∧
      |envelope.receivedAt - event.lastUpdatedAt| ≤ clusterWindow ∧
      (event.eventId ∈ service.exactEventIds envelope ∨
        similarityThreshold ≤ jaccard (titleFingerprint envelope.title)
          (titleFingerprint event.canonicalTitle)) := by
  unfold EventService.candidateRank at hrank
  simp only at hrank
  split at hrank
  · exact absurd hrank (by simp)
  · rename_i hwindow
    split at hrank
    · exact absurd hrank (by simp)
    · rename_i hsimilar
      push Not at hwindow hsimilar
      exact ⟨hwindow.1, hwindow.2, or_iff_not_imp_left.mpr hsimilar⟩

/-- The last component of a rank is the candidate's identifier. -/
theorem candidateRank_eventId {envelope : RawEnvelope} {event event' : CanonicalEvent}
    {rank : EventService.Rank}
    (hrank : service.candidateRank envelope event = some rank)
    (hrank' : service.candidateRank envelope event' = some rank) :
    event.eventId = event'.eventId := by
  unfold EventService.candidateRank at hrank hrank'
  simp only at hrank hrank'
  split at hrank
  · exact absurd hrank (by simp)
  split at hrank
  · exact absurd hrank (by simp)
  split at hrank'
  · exact absurd hrank' (by simp)
  split at hrank'
  · exact absurd hrank' (by simp)
  have heq := (Option.some.inj hrank).trans (Option.some.inj hrank').symm
  simp only [EmbeddingLike.apply_eq_iff_eq, Prod.mk.injEq] at heq
  exact heq.2.2.2

/-- The rank of a candidate reads only its scalar fields and the content index. -/
theorem candidateRank_congr {service' : EventService} {envelope : RawEnvelope}
    {event event' : CanonicalEvent}
    (hexact : service.exactEventIds envelope = service'.exactEventIds envelope)
    (hsame : event.Same event') :
    service.candidateRank envelope event = service'.candidateRank envelope event' := by
  unfold EventService.candidateRank
  rw [hexact, hsame.eventId_eq, hsame.field CanonicalEvent.eventType (fun _ => rfl),
    hsame.field CanonicalEvent.lastUpdatedAt (fun _ => rfl),
    hsame.field CanonicalEvent.canonicalTitle (fun _ => rfl)]

/-- The rank of an event reads of the content index only whether it is in it. -/
theorem candidateRank_congr_mem {service' : EventService} {envelope : RawEnvelope}
    {event : CanonicalEvent}
    (hexact : event.eventId ∈ service.exactEventIds envelope ↔
      event.eventId ∈ service'.exactEventIds envelope) :
    service.candidateRank envelope event = service'.candidateRank envelope event := by
  unfold EventService.candidateRank
  simp only [hexact]

/-- Ranks tell the events in memory apart. -/
theorem candidateRank_injective (h : Represents service log) (envelope : RawEnvelope) :
    ∀ event ∈ service.events.values, ∀ event' ∈ service.events.values, ∀ rank,
      service.candidateRank envelope event = some rank →
      service.candidateRank envelope event' = some rank → event = event' := by
  intro event hmem event' hmem' rank hrank hrank'
  obtain ⟨id, hget⟩ := InsertionDict.mem_values_iff_get?.mp hmem
  obtain ⟨id', hget'⟩ := InsertionDict.mem_values_iff_get?.mp hmem'
  have hid : id = id' := by
    rw [← h.eventId_eq hget, ← h.eventId_eq hget']
    exact candidateRank_eventId hrank hrank'
  subst hid
  exact Option.some.inj (hget.symm.trans hget')

/-- The chosen event is a view of the newest version of an event, and it
admits the envelope. -/
theorem similarEvent_spec (h : Represents service log) {envelope : RawEnvelope}
    {existing : CanonicalEvent} (hsimilar : service.similarEvent envelope = some existing) :
    (∃ last, latest Commit.eventId log existing.eventId = some last ∧
      existing.Same last.event ∧ existing.Ordered) ∧
    existing.eventType = envelope.category ∧
    |envelope.receivedAt - existing.lastUpdatedAt| ≤ clusterWindow := by
  obtain ⟨hmem, rank, hrank, _⟩ := maxBy?_spec hsimilar
  have hadmits := candidateRank_admits hrank
  exact ⟨h.latest_of_mem_values hmem, hadmits.1, hadmits.2.1⟩

/-- The event that follows a new envelope has its mentions in order. -/
theorem nextEvent_ordered (envelope : RawEnvelope) (newId : Uuid) :
    (service.nextEvent envelope newId).1.Ordered := by
  unfold EventService.nextEvent
  split
  · exact sortedBy_singleton _ _
  · exact sortedBy_sorted _ _

/-- **History step.**  The commit `ingest` makes grows the history. -/
theorem grown_next (h : Represents service log) (hgrown : Grown log)
    (envelope : RawEnvelope) {newId : Uuid}
    (hfresh : ∀ commit ∈ log, commit.eventId ≠ newId) :
    Grown (log ++ [⟨envelope, (service.nextEvent envelope newId).1⟩]) := by
  unfold EventService.nextEvent
  split
  · exact Grown.opening hgrown envelope newId hfresh
  · rename_i existing hsimilar
    obtain ⟨⟨last, hlatest, hsame, _⟩, _⟩ := h.similarEvent_spec hsimilar
    exact Grown.extending hgrown envelope hlatest hsame

/-- **The choice is a function of the history.**  Two services representing one
history choose views of the same event. -/
theorem similarEvent_same {service' : EventService} (h : Represents service log)
    (h' : Represents service' log) (envelope : RawEnvelope) :
    Option.Rel CanonicalEvent.Same (service.similarEvent envelope)
      (service'.similarEvent envelope) := by
  have hexact : service.exactEventIds envelope = service'.exactEventIds envelope := by
    ext id
    rw [EventService.exactEventIds, EventService.exactEventIds,
      h.content_iff, h'.content_iff]
  have counterpart : ∀ {s t : EventService}, Represents s log → Represents t log →
      ∀ event ∈ s.events.values, ∃ event' ∈ t.events.values, event.Same event' := by
    intro s t hs ht event hmem
    obtain ⟨last, hlatest, hsame, _⟩ := hs.latest_of_mem_values hmem
    obtain ⟨event', hget'⟩ := ht.events_complete _ last hlatest
    obtain ⟨last', hlatest', hsame', _⟩ := ht.events_latest _ event' hget'
    rw [hlatest] at hlatest'
    obtain rfl := Option.some.inj hlatest'
    exact ⟨event', InsertionDict.mem_values_iff_get?.mpr ⟨_, hget'⟩,
      hsame.trans hsame'.symm⟩
  cases hchoice : service.similarEvent envelope with
  | none =>
      have hnone : service'.similarEvent envelope = none := by
        refine maxBy?_eq_none_iff.mpr ?_
        intro event' hmem'
        obtain ⟨event, hmem, hsame⟩ := counterpart h' h event' hmem'
        rw [candidateRank_congr hexact.symm hsame]
        exact maxBy?_eq_none_iff.mp hchoice event hmem
      rw [hnone]
      exact Option.Rel.none
  | some event =>
      obtain ⟨hmem, rank, hrank, hmax⟩ := maxBy?_spec hchoice
      obtain ⟨event', hmem', hsame⟩ := counterpart h h' event hmem
      have hsome : service'.similarEvent envelope = some event' := by
        refine (maxBy?_eq_some_iff (h'.candidateRank_injective envelope)).mpr
          ⟨hmem', rank, ?_, ?_⟩
        · rw [← candidateRank_congr hexact hsame]
          exact hrank
        · intro other' hother' j hj
          obtain ⟨other, hother, hsameOther⟩ := counterpart h' h other' hother'
          refine hmax other hother j ?_
          rw [← candidateRank_congr hexact.symm hsameOther]
          exact hj
      rw [hsome]
      exact Option.Rel.some hsame

/-- Two services representing one history lead an envelope to views of the
same event version. -/
theorem nextEvent_same {service' : EventService} (h : Represents service log)
    (h' : Represents service' log) (envelope : RawEnvelope) (newId : Uuid) :
    (service.nextEvent envelope newId).1.Same (service'.nextEvent envelope newId).1 ∧
      (service.nextEvent envelope newId).2 = (service'.nextEvent envelope newId).2 := by
  have hrel := h.similarEvent_same h' envelope
  unfold EventService.nextEvent
  generalize service.similarEvent envelope = choice at hrel
  generalize service'.similarEvent envelope = choice' at hrel
  cases hrel with
  | none => exact ⟨CanonicalEvent.Same.refl _, rfl⟩
  | some hsame => exact ⟨hsame.extend envelope, rfl⟩

/-- The version that follows an envelope is not in the history yet. -/
theorem nextEvent_version_new (h : Represents service log) (hgrown : Grown log)
    (envelope : RawEnvelope) {newId : Uuid}
    (hfresh : ∀ commit ∈ log, commit.eventId ≠ newId) :
    ∀ commit ∈ log, ¬ (commit.eventId = (service.nextEvent envelope newId).1.eventId ∧
      commit.version = (service.nextEvent envelope newId).1.eventVersion) := by
  intro commit hmem ⟨hid, hversion⟩
  have hnumbered := (h.grown_next hgrown envelope hfresh).numbered
  have hbefore := (hgrown.numbered.number_bounds hmem).2
  have hnew := hnumbered.number_latest
    (a := ⟨envelope, (service.nextEvent envelope newId).1⟩)
    (k := (service.nextEvent envelope newId).1.eventId) (by rw [latest_snoc]; exact if_pos rfl)
  rw [ofKey_snoc, if_pos (by rfl), List.length_append, List.length_singleton] at hnew
  rw [hid, hversion] at hbefore
  have : (service.nextEvent envelope newId).1.eventVersion =
      (ofKey Commit.eventId log (service.nextEvent envelope newId).1.eventId).length + 1 := hnew
  omega

/-- A known identity answers from memory: whatever the save would do, it is
not called and nothing changes. -/
theorem ingest_known (h : Represents service log) {envelope : RawEnvelope}
    {id : Uuid} (hget : service.byIdentity.get? envelope.identityKey = some id) :
    ∃ event, service.events.get? id = some event ∧
      ∀ {σ : Type} (save : σ → RawEnvelope → CanonicalEvent → Option σ) (store : σ)
        (newId : Uuid), EventService.ingest save service store envelope newId =
          ⟨.ok ⟨event, false, true⟩, service, store⟩ := by
  obtain ⟨event, hevent⟩ := h.events_of_identity hget
  refine ⟨event, hevent, ?_⟩
  intro σ save store newId
  simp [EventService.ingest, hget, hevent]

end Clustering

end Represents

/-- An unknown identity is saved first and remembered when the save returned. -/
theorem ingest_unknown [CharacterTables] {service : EventService} {envelope : RawEnvelope}
    (hnone : service.byIdentity.get? envelope.identityKey = none) {σ : Type}
    (save : σ → RawEnvelope → CanonicalEvent → Option σ) (store : σ) (newId : Uuid) :
    EventService.ingest save service store envelope newId =
      match save store envelope (service.nextEvent envelope newId).1 with
      | none => ⟨.error .persistence, service, store⟩
      | some store' =>
          ⟨.ok ⟨(service.nextEvent envelope newId).1,
            (service.nextEvent envelope newId).2, false⟩,
            service.remember envelope (service.nextEvent envelope newId).1, store'⟩ := by
  unfold EventService.ingest
  rw [hnone]
  rfl


end EventAlpha
