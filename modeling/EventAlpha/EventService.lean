import EventAlpha.InsertionDict
import EventAlpha.KeyedOrder
import EventAlpha.TitleFingerprint
import Mathlib.Algebra.Order.Group.Unbundled.Int
import Mathlib.Data.Prod.Lex

/-!
# The event service

The in-memory side of the event pipeline: four indexes, the clusterer that
picks the event a new item belongs to, and `ingest`, which is the only
operation that changes the indexes one item at a time.

Two things the program takes from its environment are arguments here: the
identifier `uuid4` draws for a new event, and the persistence the service was
built over, reduced to the one call `ingest` makes of it.  A persistence call
that raises leaves its store as it was and is the value `none`.
-/

namespace EventAlpha

open KeyedOrder

/-- The cluster window of 24 hours. -/
def clusterWindow : Int := 24 * 60 * 60 * 1000000

/-- The name of the clustering rules an event version was made by. -/
def clusteringVersion : String := "title-jaccard-v1"

/-- The similarity a title needs to join an event, `0.85`. -/
def similarityThreshold : ℚ := 17 / 20

/-- What the durable store says about one ingested item. -/
structure StoredItemIndex where
  provider : String
  sourceId : String
  nativeId : Option String
  contentHash : String
  eventId : Uuid
  deriving DecidableEq

/-- What the durable store says about the events and items it holds. -/
structure PersistedEventState where
  events : List CanonicalEvent := []
  items : List StoredItemIndex := []

/-- The identity of an item within its source: its native identifier, or its
content hash when it has none. -/
def itemIdentity (nativeId : Option String) (contentHash : String) : String :=
  orElseText nativeId ("sha256:" ++ contentHash)

/-- Provider, source and identity within the source. -/
abbrev IdentityKey := String × String × String

/-- The identity key of an envelope. -/
def RawEnvelope.identityKey (envelope : RawEnvelope) : IdentityKey :=
  (envelope.provider, envelope.sourceId,
    itemIdentity envelope.nativeId envelope.contentHash)

/-- The identity key of a stored item. -/
def StoredItemIndex.identityKey (item : StoredItemIndex) : IdentityKey :=
  (item.provider, item.sourceId, itemIdentity item.nativeId item.contentHash)

/-- The group whose members count once towards independence. -/
def RawEnvelope.group (envelope : RawEnvelope) : String :=
  orElseText envelope.independenceGroup envelope.sourceId

/-- The mention an envelope leaves in its event. -/
def RawEnvelope.mention (envelope : RawEnvelope) : EventMention where
  rawItemId := envelope.id
  sourceId := envelope.sourceId
  independenceGroup := envelope.group
  publishedAt := envelope.publishedAt
  receivedAt := envelope.receivedAt

/-- The first version of a new event. -/
def RawEnvelope.openEvent (envelope : RawEnvelope) (eventId : Uuid) : CanonicalEvent where
  eventId := eventId
  eventVersion := 1
  versionCreatedAt := envelope.processedAt
  clusteringVersion := clusteringVersion
  canonicalTitle := envelope.title
  eventType := envelope.category
  eventTime := envelope.eventTime.or envelope.publishedAt
  firstReceivedAt := envelope.receivedAt
  lastUpdatedAt := envelope.receivedAt
  language := envelope.language
  novelty := 1
  sourceIndependence := 1 / 2
  mentions := [envelope.mention]

/-- The next version of an event that an envelope joins. -/
def CanonicalEvent.extend (existing : CanonicalEvent) (envelope : RawEnvelope) :
    CanonicalEvent :=
  { existing with
    eventVersion := existing.eventVersion + 1
    versionCreatedAt := envelope.processedAt
    clusteringVersion := EventAlpha.clusteringVersion
    firstReceivedAt := min existing.firstReceivedAt envelope.receivedAt
    lastUpdatedAt := max existing.lastUpdatedAt envelope.receivedAt
    sourceIndependence :=
      independenceScore (independenceGroups existing.mentions ∪ {envelope.group})
    mentions := sortedBy EventMention.receivedAt (existing.mentions ++ [envelope.mention]) }

/-- The in-memory store of events. -/
structure EventService where
  events : InsertionDict Uuid CanonicalEvent
  versions : InsertionDict (Uuid × ℕ) CanonicalEvent
  byIdentity : InsertionDict IdentityKey Uuid
  byContentHash : InsertionDict String (Finset Uuid)

/-- What `ingest` returns for an envelope. -/
structure IngestResult where
  event : CanonicalEvent
  created : Bool
  idempotent : Bool
  deriving DecidableEq

/-- How `ingest` can raise: the identity index names an event that is not in
memory, or the persistence raised. -/
inductive IngestError
  | keyError
  | persistence
  deriving DecidableEq, Repr

/-- A call of `ingest`: its answer, the service and the store it leaves. -/
structure IngestOutcome (σ : Type*) where
  reply : Except IngestError IngestResult
  service : EventService
  store : σ

namespace EventService

/-- A service without persistence starts empty. -/
def empty : EventService where
  events := .empty
  versions := .empty
  byIdentity := .empty
  byContentHash := .empty

/-- `refresh`: the four indexes rebuilt from what the store holds.  A new
service over the same store starts from the same indexes. -/
def ofState (state : PersistedEventState) : EventService where
  events := .ofList (state.events.map (fun event => (event.eventId, event)))
  versions := .ofList
    (state.events.map (fun event => ((event.eventId, event.eventVersion), event)))
  byIdentity := .ofList (state.items.map (fun item => (item.identityKey, item.eventId)))
  byContentHash := .collect (state.items.map (fun item => (item.contentHash, item.eventId)))

/-- The events that already hold the content of an envelope. -/
def exactEventIds (service : EventService) (envelope : RawEnvelope) : Finset Uuid :=
  (service.byContentHash.get? envelope.contentHash).getD ∅

/-- Candidates are ranked by exact content, similarity, closeness in time and
identifier, in this order. -/
abbrev Rank := ℕ ×ₗ ℚ ×ₗ ℤ ×ₗ Uuid

variable [CharacterTables]

/-- The rank of an event as the cluster of an envelope, if it is a candidate. -/
def candidateRank (service : EventService) (envelope : RawEnvelope)
    (event : CanonicalEvent) : Option Rank :=
  let distance := |envelope.receivedAt - event.lastUpdatedAt|
  let similarity :=
    jaccard (titleFingerprint envelope.title) (titleFingerprint event.canonicalTitle)
  let exactContent := event.eventId ∈ service.exactEventIds envelope
  if event.eventType ≠ envelope.category ∨ clusterWindow < distance then none
  else if ¬ exactContent ∧ similarity < similarityThreshold then none
  else some (toLex (if exactContent then 1 else 0,
    toLex (similarity, toLex (-distance, event.eventId))))

/-- `_similar_event`: the candidate of greatest rank. -/
def similarEvent (service : EventService) (envelope : RawEnvelope) :
    Option CanonicalEvent :=
  maxBy? (service.candidateRank envelope) service.events.values

/-- The event version an envelope leads to, and whether it is a new event. -/
def nextEvent (service : EventService) (envelope : RawEnvelope) (newId : Uuid) :
    CanonicalEvent × Bool :=
  match service.similarEvent envelope with
  | none => (envelope.openEvent newId, true)
  | some existing => (existing.extend envelope, false)

omit [CharacterTables] in
/-- The four index updates that follow a successful save. -/
def remember (service : EventService) (envelope : RawEnvelope) (event : CanonicalEvent) :
    EventService where
  events := service.events.set event.eventId event
  versions := service.versions.set (event.eventId, event.eventVersion) event
  byContentHash := service.byContentHash.addTo envelope.contentHash event.eventId
  byIdentity := service.byIdentity.set envelope.identityKey event.eventId

/-- `ingest`.  A known identity answers from memory and touches nothing.  A new
one is saved first and indexed only when the save returned. -/
def ingest {σ : Type*} (save : σ → RawEnvelope → CanonicalEvent → Option σ)
    (service : EventService) (store : σ) (envelope : RawEnvelope) (newId : Uuid) :
    IngestOutcome σ :=
  match service.byIdentity.get? envelope.identityKey with
  | some existingId =>
      match service.events.get? existingId with
      | some event => ⟨.ok ⟨event, false, true⟩, service, store⟩
      | none => ⟨.error .keyError, service, store⟩
  | none =>
      let (event, created) := service.nextEvent envelope newId
      match save store envelope event with
      | none => ⟨.error .persistence, service, store⟩
      | some store' => ⟨.ok ⟨event, created, false⟩, service.remember envelope event, store'⟩

/-- `ingest` of a service without persistence. -/
def ingestInMemory (service : EventService) (envelope : RawEnvelope) (newId : Uuid) :
    IngestOutcome Unit :=
  ingest (fun _ _ _ => some ()) service () envelope newId

/-- The service after a list of envelopes, each with the identifier `uuid4`
would draw if the envelope opens an event. -/
def runInMemory (service : EventService) : List (RawEnvelope × Uuid) → EventService
  | [] => service
  | (envelope, newId) :: rest =>
      runInMemory (service.ingestInMemory envelope newId).service rest

end EventService

/-- The item the repository's own tests are made of: one headline and one
content, told apart by native identifier and source. -/
def testItem (id : Uuid) (nativeId : Option String) (sourceId : String)
    (receivedAt processedAt : UtcDatetime) : RawEnvelope where
  id := id
  traceId := 0
  provider := "fixture"
  sourceId := sourceId
  sourceType := "test_fixture"
  nativeId := nativeId
  publishedAt := some 0
  receivedAt := receivedAt
  processedAt := processedAt
  title := "ACME raises outlook"
  content := "ACME raised its outlook."
  url := "https://example.invalid/acme"
  language := "en"
  category := "earnings"
  contentHash := String.ofList (List.replicate 64 'a')
  storagePolicy := .metadataAndDerivedOnly
  independenceGroup := some sourceId
  accepted := by
    simp only [RawEnvelopeFields.Accepted]
    decide +kernel

end EventAlpha
