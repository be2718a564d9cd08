import EventAlpha.EventService

/-!
# The event repository

The four tables of the durable store, the transaction `save` that records one
source item with its event version, and the two reads `load_state` and
`load_event_version`.

A table is a dictionary from primary keys to rows, and `session.merge` is its
write.  A transaction that violates a declared constraint, gives a column a
text it cannot hold, or does not find the mention of its own item, raises and
is rolled back: `save` is `none`.  A text longer than its column raises also
where all the excess is blank, which `VARCHAR` cuts off; `EventDb.store`
follows the cut.

A read consists of separate statements.  Each statement returns its rows in
any order, and each sees the transactions committed before it starts, so the
two statements of one read may see different tables.  The reads are therefore
relations between the tables each statement sees and a result.
-/

namespace EventAlpha

open KeyedOrder

/-- A row of `sources`. -/
structure SourceRow where
  sourceId : String
  provider : String
  sourceType : String
  credibilityPrior : PyFloat
  storagePolicy : String
  deriving DecidableEq

/-- A row of `raw_items`. -/
structure RawItemRow where
  id : Uuid
  traceId : Uuid
  provider : String
  sourceId : String
  nativeId : Option String
  eventTime : Option UtcDatetime
  publishedAt : Option UtcDatetime
  receivedAt : UtcDatetime
  processedAt : UtcDatetime
  title : String
  url : String
  language : String
  category : String
  contentHash : String
  storagePolicy : String
  independenceGroup : Option String
  derivedAttributes : List (String × String)
  deriving DecidableEq

/-- A row of `events`. -/
structure EventRow where
  eventId : Uuid
  eventVersion : ℕ
  versionCreatedAt : UtcDatetime
  clusteringVersion : String
  canonicalTitle : String
  eventType : String
  eventTime : Option UtcDatetime
  firstReceivedAt : UtcDatetime
  lastUpdatedAt : UtcDatetime
  language : String
  novelty : ℚ
  sourceIndependence : ℚ
  deriving DecidableEq

/-- A row of `event_mentions`. -/
structure EventMentionRow where
  rawItemId : Uuid
  eventId : Uuid
  eventVersion : ℕ
  sourceId : String
  independenceGroup : String
  publishedAt : Option UtcDatetime
  receivedAt : UtcDatetime
  deriving DecidableEq

/-- The tables of the store, each by its primary key. -/
structure EventDb where
  sources : InsertionDict String SourceRow
  rawItems : InsertionDict Uuid RawItemRow
  events : InsertionDict (Uuid × ℕ) EventRow
  mentions : InsertionDict Uuid EventMentionRow

/-- The tables after the schema was created. -/
def EventDb.empty : EventDb := ⟨.empty, .empty, .empty, .empty⟩

section Rows

/-- The source an envelope names. -/
def RawEnvelope.sourceRow (envelope : RawEnvelope) : SourceRow where
  sourceId := envelope.sourceId
  provider := envelope.provider
  sourceType := envelope.sourceType
  credibilityPrior := envelope.sourceCredibilityPrior
  storagePolicy := envelope.storagePolicy.value

/-- The stored form of an envelope.  The content itself is not kept. -/
def RawEnvelope.rawItemRow (envelope : RawEnvelope) : RawItemRow where
  id := envelope.id
  traceId := envelope.traceId
  provider := envelope.provider
  sourceId := envelope.sourceId
  nativeId := envelope.nativeId
  eventTime := envelope.eventTime
  publishedAt := envelope.publishedAt
  receivedAt := envelope.receivedAt
  processedAt := envelope.processedAt
  title := envelope.title
  url := envelope.url
  language := envelope.language
  category := envelope.category
  contentHash := envelope.contentHash
  storagePolicy := envelope.storagePolicy.value
  independenceGroup := envelope.independenceGroup
  derivedAttributes := envelope.derivedAttributes

/-- The stored form of an event version, without its mentions. -/
def CanonicalEvent.row (event : CanonicalEvent) : EventRow where
  eventId := event.eventId
  eventVersion := event.eventVersion
  versionCreatedAt := event.versionCreatedAt
  clusteringVersion := event.clusteringVersion
  canonicalTitle := event.canonicalTitle
  eventType := event.eventType
  eventTime := event.eventTime
  firstReceivedAt := event.firstReceivedAt
  lastUpdatedAt := event.lastUpdatedAt
  language := event.language
  novelty := event.novelty
  sourceIndependence := event.sourceIndependence

/-- The stored form of a mention, under the event version that added it. -/
def CanonicalEvent.mentionRow (event : CanonicalEvent) (mention : EventMention) :
    EventMentionRow where
  rawItemId := mention.rawItemId
  eventId := event.eventId
  eventVersion := event.eventVersion
  sourceId := mention.sourceId
  independenceGroup := mention.independenceGroup
  publishedAt := mention.publishedAt
  receivedAt := mention.receivedAt

/-- The mention a row stores. -/
def EventMentionRow.mention (row : EventMentionRow) : EventMention where
  rawItemId := row.rawItemId
  sourceId := row.sourceId
  independenceGroup := row.independenceGroup
  publishedAt := row.publishedAt
  receivedAt := row.receivedAt

/-- `_canonical_event`, before validation. -/
def EventRow.canonicalEvent (row : EventRow) (mentions : List EventMention) :
    CanonicalEvent where
  eventId := row.eventId
  eventVersion := row.eventVersion
  versionCreatedAt := row.versionCreatedAt
  clusteringVersion := row.clusteringVersion
  canonicalTitle := row.canonicalTitle
  eventType := row.eventType
  eventTime := row.eventTime
  firstReceivedAt := row.firstReceivedAt
  lastUpdatedAt := row.lastUpdatedAt
  language := row.language
  novelty := row.novelty
  sourceIndependence := row.sourceIndependence
  mentions := mentions

@[simp] theorem CanonicalEvent.mention_mentionRow (event : CanonicalEvent)
    (mention : EventMention) : (event.mentionRow mention).mention = mention := rfl

/-- Storing and rebuilding an event keeps its scalar fields. -/
@[simp] theorem CanonicalEvent.scalars_canonicalEvent_row (event : CanonicalEvent)
    (mentions : List EventMention) :
    (event.row.canonicalEvent mentions).scalars = event.scalars := rfl

/-- Two views of one event have one row. -/
theorem CanonicalEvent.row_congr {event event' : CanonicalEvent}
    (h : event.scalars = event'.scalars) : event.row = event'.row := by
  have hrow : event.scalars.row = event'.scalars.row := congrArg CanonicalEvent.row h
  exact hrow

end Rows

section Constraints

/-- The database takes no text with a NUL. -/
def HasNoNul (text : String) : Prop := text.toList.contains (Char.ofNat 0) = false

instance (text : String) : Decidable (HasNoNul text) := by
  unfold HasNoNul; infer_instance

/-- What a `VARCHAR` column holds.  That it cuts off an excess of blanks is left
out here, and with it in every `Valid` below. -/
def FitsColumn (width : ℕ) (text : String) : Prop := text.length ≤ width ∧ HasNoNul text

instance (width : ℕ) (text : String) : Decidable (FitsColumn width text) := by
  unfold FitsColumn; infer_instance

/-- The columns and checks of `sources`. -/
def SourceRow.Valid (row : SourceRow) : Prop :=
  FitsColumn 255 row.sourceId ∧ FitsColumn 100 row.provider ∧ FitsColumn 100 row.sourceType ∧
  row.credibilityPrior.between 0 1 = true ∧ FitsColumn 50 row.storagePolicy

/-- The columns of `raw_items`. -/
def RawItemRow.Valid (row : RawItemRow) : Prop :=
  FitsColumn 100 row.provider ∧ FitsColumn 255 row.sourceId ∧
  (∀ nativeId ∈ row.nativeId, FitsColumn 500 nativeId) ∧ FitsColumn 1000 row.title ∧
  HasNoNul row.url ∧ FitsColumn 10 row.language ∧ FitsColumn 100 row.category ∧
  FitsColumn 64 row.contentHash ∧ FitsColumn 50 row.storagePolicy ∧
  (∀ group ∈ row.independenceGroup, FitsColumn 255 group) ∧
  ∀ entry ∈ row.derivedAttributes, HasNoNul entry.1 ∧ HasNoNul entry.2

/-- The columns and checks of `events`. -/
def EventRow.Valid (row : EventRow) : Prop :=
  (1 ≤ row.eventVersion ∧ row.eventVersion < 2 ^ 31) ∧
  FitsColumn 100 row.clusteringVersion ∧ FitsColumn 1000 row.canonicalTitle ∧
  FitsColumn 100 row.eventType ∧ FitsColumn 10 row.language ∧
  (0 ≤ row.novelty ∧ row.novelty ≤ 1) ∧
  (0 ≤ row.sourceIndependence ∧ row.sourceIndependence ≤ 1)

/-- The columns of `event_mentions`. -/
def EventMentionRow.Valid (row : EventMentionRow) : Prop :=
  FitsColumn 255 row.sourceId ∧ FitsColumn 255 row.independenceGroup

/-- The partial unique indexes `uq_raw_provider_native` and
`uq_raw_provider_content_fallback` let no two items clash. -/
def RawItemRow.Clashes (row row' : RawItemRow) : Prop :=
  row.id ≠ row'.id ∧ row.provider = row'.provider ∧ row.sourceId = row'.sourceId ∧
  ((row.nativeId ≠ none ∧ row.nativeId = row'.nativeId) ∨
    (row.nativeId = none ∧ row'.nativeId = none ∧ row.contentHash = row'.contentHash))

instance (row : SourceRow) : Decidable row.Valid := by
  unfold SourceRow.Valid; infer_instance

instance (row : RawItemRow) : Decidable row.Valid := by
  unfold RawItemRow.Valid; infer_instance

instance (row : EventRow) : Decidable row.Valid := by
  unfold EventRow.Valid; infer_instance

instance (row : EventMentionRow) : Decidable row.Valid := by
  unfold EventMentionRow.Valid; infer_instance

instance (row row' : RawItemRow) : Decidable (row.Clashes row') := by
  unfold RawItemRow.Clashes; infer_instance

end Constraints

namespace EventDb

/-- The constraints hold of every row the transaction writes.  Its foreign keys
name rows it has just written or found. -/
def Admits (db : EventDb) (envelope : RawEnvelope) (event : CanonicalEvent)
    (current : EventMention) : Prop :=
  (envelope.sourceId ∈ db.sources.keys ∨ envelope.sourceRow.Valid) ∧
  envelope.rawItemRow.Valid ∧
  (∀ row ∈ db.rawItems.values, ¬ row.Clashes envelope.rawItemRow) ∧
  event.row.Valid ∧ (event.mentionRow current).Valid

instance (db : EventDb) (envelope : RawEnvelope) (event : CanonicalEvent)
    (current : EventMention) : Decidable (db.Admits envelope event current) := by
  unfold Admits; infer_instance

/-- The rows `save` writes: the source unless it is known, the item, the event
version and the mention of the item. -/
def write (db : EventDb) (envelope : RawEnvelope) (event : CanonicalEvent)
    (current : EventMention) : EventDb where
  sources :=
    if envelope.sourceId ∈ db.sources.keys then db.sources
    else db.sources.set envelope.sourceId envelope.sourceRow
  rawItems := db.rawItems.set envelope.id envelope.rawItemRow
  events := db.events.set (event.eventId, event.eventVersion) event.row
  mentions := db.mentions.set current.rawItemId (event.mentionRow current)

/-- `save`: one transaction, rolled back when it raises. -/
def save (db : EventDb) (envelope : RawEnvelope) (event : CanonicalEvent) :
    Option EventDb :=
  match event.mentions.find? (fun mention => mention.rawItemId = envelope.id) with
  | none => none
  | some current =>
      if db.Admits envelope event current then some (db.write envelope event current)
      else none

/-- What a save does depends on the scalar fields of the event and on the
mention of its own item. -/
theorem save_congr (db : EventDb) {envelope : RawEnvelope} {event event' : CanonicalEvent}
    (hscalars : event.scalars = event'.scalars)
    (hfind : event.mentions.find? (fun mention => mention.rawItemId = envelope.id) =
      event'.mentions.find? (fun mention => mention.rawItemId = envelope.id)) :
    db.save envelope event = db.save envelope event' := by
  have hrow := CanonicalEvent.row_congr hscalars
  have hmention : event.mentionRow = event'.mentionRow := by
    have heq : event.scalars.mentionRow = event'.scalars.mentionRow :=
      congrArg CanonicalEvent.mentionRow hscalars
    exact heq
  have hid : event.eventId = event'.eventId := congrArg EventRow.eventId hrow
  have hversion : event.eventVersion = event'.eventVersion :=
    congrArg EventRow.eventVersion hrow
  simp only [save, hfind, Admits, write, hrow, hmention, hid, hversion]

/-- A save that returned wrote its rows. -/
theorem save_eq_some {db db' : EventDb} {envelope : RawEnvelope}
    {event : CanonicalEvent} {current : EventMention}
    (hfind : event.mentions.find? (fun mention => mention.rawItemId = envelope.id) =
      some current)
    (hsave : db.save envelope event = some db') : db' = db.write envelope event current := by
  unfold save at hsave
  rw [hfind] at hsave
  simp only at hsave
  split at hsave
  · exact (Option.some.inj hsave).symm
  · exact absurd hsave (by simp)

/-- The number of a version that was saved is an `INTEGER`. -/
theorem version_lt_of_save {db db' : EventDb} {envelope : RawEnvelope} {event : CanonicalEvent}
    (hsave : db.save envelope event = some db') : event.eventVersion < 2 ^ 31 := by
  unfold save at hsave
  split at hsave
  · exact absurd hsave (by simp)
  · obtain ⟨hadmits, -⟩ := Option.ite_none_right_eq_some.mp hsave
    obtain ⟨-, -, -, hrow, -⟩ := hadmits
    exact hrow.1.2

/-- `save` over a connection that may fail for reasons of its own. -/
def saveUnless (fault : Bool) (db : EventDb) (envelope : RawEnvelope)
    (event : CanonicalEvent) : Option EventDb :=
  if fault then none else db.save envelope event

/-- The rows of `events` joined with the greatest version of their event. -/
def latestEventRows (db : EventDb) : List EventRow :=
  db.events.values.filter (fun row => ∀ row' ∈ db.events.values,
    row'.eventId = row.eventId → row'.eventVersion ≤ row.eventVersion)

/-- `event_mentions` joined with `raw_items`. -/
def joinedRows (db : EventDb) : List (EventMentionRow × RawItemRow) :=
  db.mentions.values.flatMap (fun mentionRow =>
    (db.rawItems.values.filter (fun rawRow => mentionRow.rawItemId = rawRow.id)).map
      (fun rawRow => (mentionRow, rawRow)))

/-- The mentions of an event up to a version. -/
def mentionRowsUpTo (db : EventDb) (eventId : Uuid) (eventVersion : ℕ) :
    List EventMentionRow :=
  db.mentions.values.filter
    (fun row => row.eventId = eventId ∧ row.eventVersion ≤ eventVersion)

end EventDb

/-- How a read raises: at a row that does not meet the contract, and at a
version that is no `INTEGER`. -/
inductive LoadError
  | validation
  | dataError
  deriving DecidableEq, Repr

/-- What one joined row says about its item. -/
def storedItem (joined : EventMentionRow × RawItemRow) : StoredItemIndex where
  provider := joined.2.provider
  sourceId := joined.2.sourceId
  nativeId := joined.2.nativeId
  contentHash := joined.2.contentHash
  eventId := joined.1.eventId

/-- `load_state`, from the rows its two statements returned. -/
def loadState (eventRows : List EventRow) (joined : List (EventMentionRow × RawItemRow)) :
    Except LoadError PersistedEventState :=
  let mentionsByEvent :=
    InsertionDict.gather (joined.map (fun row => (row.1.eventId, row.1.mention)))
  let events : List CanonicalEvent := eventRows.map (fun row => row.canonicalEvent
    (sortedBy EventMention.receivedAt ((mentionsByEvent.get? row.eventId).getD [])))
  if ∀ event ∈ events, event.Accepted then .ok ⟨events, joined.map storedItem⟩
  else .error .validation

/-- `load_event_version`, from the rows its two statements returned. -/
def loadEventVersion (row : Option EventRow) (mentionRows : List EventMentionRow) :
    Except LoadError (Option CanonicalEvent) :=
  match row with
  | none => .ok none
  | some row =>
      let event := row.canonicalEvent
        (sortedBy EventMention.receivedAt (mentionRows.map EventMentionRow.mention))
      if event.Accepted then .ok (some event) else .error .validation

/-- The results `load_state` may have when its first statement sees the tables
`eventsView` and its second one `itemsView`. -/
def EventDb.LoadsState (eventsView itemsView : EventDb)
    (result : Except LoadError PersistedEventState) : Prop :=
  ∃ eventRows joined, eventRows.Perm eventsView.latestEventRows ∧
    joined.Perm itemsView.joinedRows ∧ loadState eventRows joined = result

/-- The rows may come back in the order of the tables. -/
theorem EventDb.loadsState_tableOrder (eventsView itemsView : EventDb) :
    eventsView.LoadsState itemsView
      (loadState eventsView.latestEventRows itemsView.joinedRows) :=
  ⟨_, _, List.Perm.refl _, List.Perm.refl _, rfl⟩

/-- The results `load_event_version` may have when its first statement sees the
tables `eventsView` and its second one `itemsView`.  The statements compare the
version as an `INTEGER`. -/
def EventDb.LoadsEventVersion (eventsView itemsView : EventDb) (eventId : Uuid)
    (eventVersion : ℕ) (result : Except LoadError (Option CanonicalEvent)) : Prop :=
  if eventVersion < 2 ^ 31 then
    ∃ mentionRows, mentionRows.Perm (itemsView.mentionRowsUpTo eventId eventVersion) ∧
      loadEventVersion (eventsView.events.get? (eventId, eventVersion)) mentionRows = result
  else result = .error .dataError

/-- The rows of a version that a column can hold are read. -/
theorem EventDb.loadsEventVersion_of_lt {eventsView itemsView : EventDb} {eventId : Uuid}
    {eventVersion : ℕ} (hrange : eventVersion < 2 ^ 31) {mentionRows : List EventMentionRow}
    (hrows : mentionRows.Perm (itemsView.mentionRowsUpTo eventId eventVersion)) :
    eventsView.LoadsEventVersion itemsView eventId eventVersion
      (loadEventVersion (eventsView.events.get? (eventId, eventVersion)) mentionRows) := by
  rw [LoadsEventVersion, if_pos hrange]
  exact ⟨mentionRows, hrows, rfl⟩

end EventAlpha
