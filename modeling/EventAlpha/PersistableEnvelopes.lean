import EventAlpha.EventTransaction
import EventAlpha.PersistentRuns
import EventAlpha.RssFeeds

/-!
# Envelopes that can be stored

The contract of the envelope and the columns of the schema bound the same texts,
each with limits of its own.  Four texts have a column but no limit in the
contract: the provider, the source, the native identifier and the independence
group.  The contract also takes a NUL, which no column does, and a credibility
that is no number, which the check of a new source refuses.

`StoreRun` is every run of a persistent service over the transaction that cuts
(`EventDb.store`).  The texts it holds in memory and in its tables are taken
again (`StoreRun.holdsTaken`), so whether an envelope is stored depends on its own
texts and on its place in the tables (`store_isSome_iff`).
-/

namespace EventAlpha

open KeyedOrder Varchar

section Columns

/-- The texts of an envelope that are stored are taken by their columns. -/
structure RawEnvelope.FitsColumns (envelope : RawEnvelope) : Prop where
  provider : Takes 100 envelope.provider
  sourceId : Takes 255 envelope.sourceId
  nativeId : ∀ nativeId ∈ envelope.nativeId, Takes 500 nativeId
  independenceGroup : ∀ group ∈ envelope.independenceGroup, Takes 255 group
  title : HasNoNul envelope.title
  url : HasNoNul envelope.url
  language : HasNoNul envelope.language
  category : HasNoNul envelope.category
  derivedAttributes : ∀ entry ∈ envelope.derivedAttributes, HasNoNul entry.1 ∧ HasNoNul entry.2

/-- The source of an envelope is known by its identifier.  Otherwise its row can
be added, under what the column keeps of the identifier. -/
def EventDb.AcceptsSource (db : EventDb) (envelope : RawEnvelope) : Prop :=
  envelope.sourceId ∈ db.sources.keys ∨
    (envelope.sourceCredibilityPrior ≠ .nan ∧ HasNoNul envelope.sourceType ∧
      Varchar.cut 255 envelope.sourceId ∉ db.sources.keys)

/-- A stored item with another identifier has the provider, the source and the
native identifier of an envelope, as the columns keep them, and if there is no
native identifier its content. -/
def EventDb.HoldsTwin (db : EventDb) (envelope : RawEnvelope) : Prop :=
  ∃ row ∈ db.rawItems.values, row.id ≠ envelope.id ∧
    row.provider = Varchar.cut 100 envelope.provider ∧
    row.sourceId = Varchar.cut 255 envelope.sourceId ∧
    row.nativeId = envelope.nativeId.map (Varchar.cut 500) ∧
    (envelope.nativeId = none → row.contentHash = envelope.contentHash)

instance (db : EventDb) (envelope : RawEnvelope) : Decidable (db.HoldsTwin envelope) := by
  unfold EventDb.HoldsTwin; infer_instance

/-- A digest has 64 characters, none of them NUL. -/
theorem takes_of_isHexDigest {text : String} (h : isHexDigest text = true) :
    text.length = 64 ∧ Takes 64 text := by
  simp only [isHexDigest, Bool.and_eq_true, decide_eq_true_eq] at h
  obtain ⟨hlength, hdigits⟩ := h
  rw [String.length_toList] at hlength
  refine ⟨hlength, (takes_iff_of_le hlength.le).mpr ?_⟩
  rw [HasNoNul, List.contains_eq_any_beq, List.any_eq_false]
  intro char hmem hnul
  have hdigit := List.all_eq_true.mp hdigits char hmem
  rw [← eq_of_beq hnul] at hdigit
  exact absurd hdigit (by decide)

theorem StoragePolicy.takes_value (policy : StoragePolicy) : Takes 50 policy.value := by
  cases policy with
  | metadataAndDerivedOnly => decide
  | licensedRawArchive => decide

/-- The item row of an envelope is taken exactly if the envelope fits. -/
theorem RawEnvelope.rawItemRow_taken_iff (envelope : RawEnvelope) :
    envelope.rawItemRow.Taken ↔ envelope.FitsColumns := by
  obtain ⟨-, -, htitle, -, -, hlanguage, hcategory, hhash⟩ := envelope.accepted
  have hdigest := (takes_of_isHexDigest hhash).2
  have hpolicy := envelope.storagePolicy.takes_value
  constructor
  · intro h
    obtain ⟨hprovider, hsource, hnative, htitle', hurl, hlanguage', hcategory', -, -, hgroup,
      hderived⟩ := h
    exact ⟨hprovider, hsource, hnative, hgroup, htitle'.1, hurl, hlanguage'.1, hcategory'.1,
      hderived⟩
  · intro h
    exact ⟨h.provider, h.sourceId, h.nativeId, (takes_iff_of_le htitle.2).mpr h.title, h.url,
      (takes_iff_of_le hlanguage.2).mpr h.language, (takes_iff_of_le hcategory.2).mpr h.category,
      hdigest, hpolicy, h.independenceGroup, h.derivedAttributes⟩

/-- The transaction fails for an envelope that does not fit. -/
theorem EventDb.store_eq_none {envelope : RawEnvelope} (h : ¬envelope.FitsColumns) (db : EventDb)
    (event : CanonicalEvent) : db.store envelope event = none := by
  unfold EventDb.store
  cases event.mentions.find? (fun mention => mention.rawItemId = envelope.id) with
  | none => rfl
  | some current =>
      refine if_neg (fun htakes => h ?_)
      exact envelope.rawItemRow_taken_iff.mp htakes.2.1

/-- The source row of an envelope that fits has its type and its prior left to be
taken for. -/
theorem RawEnvelope.FitsColumns.takesSource_iff {envelope : RawEnvelope}
    (h : envelope.FitsColumns) (db : EventDb) :
    db.TakesSource envelope.sourceRow ↔ db.AcceptsSource envelope := by
  obtain ⟨htype, ⟨hbelow, habove⟩, -⟩ := envelope.accepted
  have hprior := PyFloat.between_iff_ne_nan hbelow habove
  have htaken : envelope.sourceRow.Taken ↔
      envelope.sourceCredibilityPrior ≠ .nan ∧ HasNoNul envelope.sourceType := by
    constructor
    · intro hrow
      obtain ⟨-, -, htaken, hbetween, -⟩ := hrow
      exact ⟨hprior.mp hbetween, htaken.1⟩
    · intro hrow
      exact ⟨h.sourceId, h.provider, (takes_iff_of_le htype.2).mpr hrow.2, hprior.mpr hrow.1,
        envelope.storagePolicy.takes_value⟩
  rw [EventDb.TakesSource, EventDb.AcceptsSource, htaken, and_assoc]
  exact Iff.rfl

/-- The unique indexes refuse an item exactly if its twin is stored. -/
theorem RawEnvelope.clashes_iff_holdsTwin (envelope : RawEnvelope) (db : EventDb) :
    (∀ row ∈ db.rawItems.values, ¬row.Clashes envelope.rawItemRow.cut) ↔
      ¬db.HoldsTwin envelope := by
  have hlength := (takes_of_isHexDigest envelope.accepted.2.2.2.2.2.2.2).1
  have hhash : Varchar.cut 64 envelope.contentHash = envelope.contentHash :=
    cut_eq_self_iff.mpr hlength.le
  have hkeys : ∀ row : RawItemRow, row.Clashes envelope.rawItemRow.cut ↔
      row.id ≠ envelope.id ∧ row.provider = Varchar.cut 100 envelope.provider ∧
        row.sourceId = Varchar.cut 255 envelope.sourceId ∧
        row.nativeId = envelope.nativeId.map (Varchar.cut 500) ∧
        (envelope.nativeId = none → row.contentHash = envelope.contentHash) := by
    intro row
    show row.id ≠ envelope.id ∧ row.provider = Varchar.cut 100 envelope.provider ∧
      row.sourceId = Varchar.cut 255 envelope.sourceId ∧
      ((row.nativeId ≠ none ∧ row.nativeId = envelope.nativeId.map (Varchar.cut 500)) ∨
        (row.nativeId = none ∧ envelope.nativeId.map (Varchar.cut 500) = none ∧
          row.contentHash = Varchar.cut 64 envelope.contentHash)) ↔ _
    rw [hhash]
    cases envelope.nativeId with
    | none => cases row.nativeId <;> simp
    | some nativeId => cases row.nativeId <;> simp
  rw [EventDb.HoldsTwin]
  push Not
  refine forall₂_congr (fun row hrow => ?_)
  rw [hkeys]
  push Not
  rfl

end Columns

section Events

/-- An event that meets the contract, with texts and mentions that are taken. -/
structure CanonicalEvent.Taken (event : CanonicalEvent) : Prop where
  accepted : event.Accepted
  texts : event.row.TextsTaken
  mentions : ∀ mention ∈ event.mentions, (event.mentionRow mention).Taken

theorem takes_clusteringVersion : Takes 100 clusteringVersion := by decide

/-- The mention of an envelope that fits is taken. -/
theorem RawEnvelope.FitsColumns.mention_taken {envelope : RawEnvelope} (h : envelope.FitsColumns)
    (event : CanonicalEvent) : (event.mentionRow envelope.mention).Taken := by
  refine ⟨h.sourceId, ?_⟩
  show Takes 255 (orElseText envelope.independenceGroup envelope.sourceId)
  unfold orElseText
  split
  · rename_i group hgroup
    split
    · exact h.sourceId
    · exact h.independenceGroup group hgroup
  · exact h.sourceId

theorem RawEnvelope.FitsColumns.openEvent_taken {envelope : RawEnvelope}
    (h : envelope.FitsColumns) (eventId : Uuid) : (envelope.openEvent eventId).Taken := by
  have hrow := envelope.rawItemRow_taken_iff.mpr h
  obtain ⟨-, -, -, htitle, -, hlanguage, hcategory, -⟩ := hrow
  refine ⟨envelope.openEvent_accepted eventId,
    ⟨takes_clusteringVersion, htitle, hcategory, hlanguage⟩, ?_⟩
  intro mention hmem
  obtain rfl := List.mem_singleton.mp hmem
  exact h.mention_taken _

theorem CanonicalEvent.Taken.extend {event : CanonicalEvent} (h : event.Taken)
    {envelope : RawEnvelope} (hfits : envelope.FitsColumns) : (event.extend envelope).Taken := by
  obtain ⟨-, htitle, htype, hlanguage⟩ := h.texts
  refine ⟨h.accepted.extend envelope, ⟨takes_clusteringVersion, htitle, htype, hlanguage⟩, ?_⟩
  intro mention hmem
  rcases List.mem_append.mp ((event.extend_mentions_perm envelope).mem_iff.mp hmem) with
    hold | hnew
  · exact h.mentions mention hold
  · obtain rfl := List.mem_singleton.mp hnew
    exact hfits.mention_taken _

/-- The row of an event that is taken has only its version to be taken for. -/
theorem CanonicalEvent.Taken.row_taken_iff {event : CanonicalEvent} (h : event.Taken) :
    event.row.Taken ↔ event.eventVersion < 2 ^ 31 := by
  obtain ⟨hversion, -, hnovelty, hindependence⟩ := h.accepted
  constructor
  · intro hrow
    exact hrow.1.2
  · intro hrange
    exact ⟨⟨hversion, hrange⟩, h.texts, hnovelty, hindependence⟩

/-- An event of a load comes from a row, and its mentions from joined rows. -/
theorem loadState_event {eventRows : List EventRow}
    {joined : List (EventMentionRow × RawItemRow)} {state : PersistedEventState}
    (h : loadState eventRows joined = .ok state) {event : CanonicalEvent}
    (hmem : event ∈ state.events) :
    event.Accepted ∧ event.row ∈ eventRows ∧
      ∀ mention ∈ event.mentions, ∃ rows ∈ joined, rows.1.mention = mention := by
  unfold loadState at h
  simp only at h
  split at h
  · rename_i haccepted
    obtain rfl := Except.ok.inj h
    refine ⟨haccepted event hmem, ?_⟩
    obtain ⟨row, hrow, rfl⟩ := List.mem_map.mp hmem
    refine ⟨hrow, fun mention hmention => ?_⟩
    have hgathered := mem_sortedBy.mp hmention
    rw [InsertionDict.getD_get?_gather] at hgathered
    obtain ⟨pair, hpair, rfl⟩ := List.mem_map.mp hgathered
    obtain ⟨rows, hrows, rfl⟩ := List.mem_map.mp (List.mem_of_mem_filter hpair)
    exact ⟨rows, hrows, rfl⟩
  · exact absurd h (by simp)

end Events

section Runs

/-- What a service and its tables hold is taken. -/
structure System.HoldsTaken (system : System) : Prop where
  events : ∀ event ∈ system.service.events.values, event.Taken
  eventRows : ∀ row ∈ system.db.events.values, row.TextsTaken
  mentionRows : ∀ row ∈ system.db.mentions.values, row.Taken

/-- A load of rows that are taken gives events that are. -/
theorem System.HoldsTaken.load {system : System} (h : system.HoldsTaken)
    {state : PersistedEventState} (hload : system.db.LoadsState system.db (.ok state)) :
    System.HoldsTaken ⟨.ofState state, system.db⟩ := by
  refine ⟨fun event hmem => ?_, h.eventRows, h.mentionRows⟩
  obtain ⟨eventRows, joined, hevents, hjoined, hstate⟩ := hload
  obtain ⟨id, hentry⟩ := InsertionDict.mem_values.mp hmem
  obtain ⟨event', hevent', heq⟩ :=
    List.mem_map.mp (InsertionDict.mem_of_mem_entries_ofList hentry)
  obtain ⟨-, rfl⟩ := Prod.mk.inj heq
  obtain ⟨haccepted, hrow, hmentions⟩ := loadState_event hstate hevent'
  refine ⟨haccepted, ?_, fun mention hmention => ?_⟩
  · exact h.eventRows _ (List.mem_of_mem_filter (hevents.mem_iff.mp hrow))
  · obtain ⟨rows, hrows, rfl⟩ := hmentions mention hmention
    obtain ⟨mentionRow, hmentionRow, hpair⟩ := List.mem_flatMap.mp (hjoined.mem_iff.mp hrows)
    obtain ⟨rawRow, -, rfl⟩ := List.mem_map.mp hpair
    exact h.mentionRows mentionRow hmentionRow

variable [CharacterTables] {system : System}

/-- The event an envelope that fits leads to is taken. -/
theorem System.HoldsTaken.nextEvent (h : system.HoldsTaken) {envelope : RawEnvelope}
    (hfits : envelope.FitsColumns) (newId : Uuid) :
    (system.service.nextEvent envelope newId).1.Taken := by
  unfold EventService.nextEvent
  cases hsimilar : system.service.similarEvent envelope with
  | none => exact hfits.openEvent_taken newId
  | some existing => exact (h.events existing (maxBy?_spec hsimilar).1).extend hfits

/-- The call of `ingest` over the transaction that cuts. -/
def System.ingestStoring (system : System) (envelope : RawEnvelope) (newId : Uuid)
    (fault : Bool) : System :=
  let outcome := EventService.ingest (EventDb.storeUnless fault) system.service system.db
    envelope newId
  ⟨outcome.service, outcome.store⟩

/-- A call of `ingest` changes nothing, or stores the item with its event. -/
theorem System.ingestStoring_cases (system : System) (envelope : RawEnvelope) (newId : Uuid)
    (fault : Bool) :
    system.ingestStoring envelope newId fault = system ∨
      ∃ current ∈ (system.service.nextEvent envelope newId).1.mentions,
        system.db.Takes envelope (system.service.nextEvent envelope newId).1 current ∧
        system.ingestStoring envelope newId fault =
          ⟨system.service.remember envelope (system.service.nextEvent envelope newId).1,
            system.db.writeCut envelope (system.service.nextEvent envelope newId).1 current⟩ := by
  unfold System.ingestStoring EventService.ingest
  split
  · split
    · exact Or.inl rfl
    · exact Or.inl rfl
  · simp only
    split
    · exact Or.inl rfl
    · rename_i db hstore
      unfold EventDb.storeUnless at hstore
      split at hstore
      · exact absurd hstore (by simp)
      · unfold EventDb.store at hstore
        split at hstore
        · exact absurd hstore (by simp)
        · rename_i current hfind
          obtain ⟨htakes, hdb⟩ := Option.ite_none_right_eq_some.mp hstore
          exact Or.inr ⟨current, List.mem_of_find?_eq_some hfind, htakes,
            by rw [← Option.some.inj hdb]⟩

/-- **Step lemma.**  What an ingestion stores is taken. -/
theorem System.HoldsTaken.ingest (h : system.HoldsTaken) (envelope : RawEnvelope) (newId : Uuid)
    (fault : Bool) : (system.ingestStoring envelope newId fault).HoldsTaken := by
  rcases system.ingestStoring_cases envelope newId fault with hsame |
    ⟨current, hcurrent, htakes, hnext⟩
  · rw [hsame]
    exact h
  · rw [hnext]
    obtain ⟨-, hitem, -, hrow, hmention⟩ := htakes
    have hevent := h.nextEvent (envelope.rawItemRow_taken_iff.mp hitem) newId
    exact ⟨InsertionDict.forall_mem_values_set h.events hevent,
      InsertionDict.forall_mem_values_set h.eventRows hrow.2.1.cut,
      InsertionDict.forall_mem_values_set h.mentionRows hmention.cut⟩

/-- What one persistent service over the transaction that cuts can reach.  A load
is a refresh or a restart; one that raises changes nothing or ends the service. -/
inductive StoreRun : System → Prop
  | start : StoreRun System.start
  | ingest {system : System} (h : StoreRun system) (envelope : RawEnvelope) (newId : Uuid)
      (fault : Bool) : StoreRun (system.ingestStoring envelope newId fault)
  | load {system : System} (h : StoreRun system) {state : PersistedEventState}
      (hload : system.db.LoadsState system.db (.ok state)) :
      StoreRun ⟨.ofState state, system.db⟩
  | getEventVersion {system : System} (h : StoreRun system) {eventId : Uuid} {eventVersion : ℕ}
      {loaded : Except LoadError (Option CanonicalEvent)}
      (hload : system.db.LoadsEventVersion system.db eventId eventVersion loaded) :
      StoreRun ⟨(system.service.getEventVersion loaded eventId eventVersion).2, system.db⟩

omit [CharacterTables] in
theorem EventService.events_getEventVersion (service : EventService)
    (loaded : Except LoadError (Option CanonicalEvent)) (eventId : Uuid) (eventVersion : ℕ) :
    (service.getEventVersion loaded eventId eventVersion).2.events = service.events := by
  unfold EventService.getEventVersion
  split
  · rfl
  · split <;> rfl

/-- **Run lemma.**  Whatever a run holds is taken. -/
theorem StoreRun.holdsTaken (h : StoreRun system) : system.HoldsTaken := by
  induction h with
  | start =>
      refine ⟨?_, ?_, ?_⟩
      · exact fun event hmem => absurd hmem List.not_mem_nil
      · exact fun row hmem => absurd hmem List.not_mem_nil
      · exact fun row hmem => absurd hmem List.not_mem_nil
  | ingest h envelope newId fault ih => exact ih.ingest envelope newId fault
  | load h hload ih => exact ih.load hload
  | getEventVersion h hload ih =>
      refine ⟨?_, ih.eventRows, ih.mentionRows⟩
      rw [EventService.events_getEventVersion]
      exact ih.events

/-- The version of the event an envelope leads to fits its column. -/
theorem nextEvent_version_lt_iff (service : EventService) (envelope : RawEnvelope)
    (newId : Uuid) :
    (service.nextEvent envelope newId).1.eventVersion < 2 ^ 31 ↔
      ∀ existing, service.similarEvent envelope = some existing →
        existing.eventVersion + 1 < 2 ^ 31 := by
  unfold EventService.nextEvent
  cases hsimilar : service.similarEvent envelope with
  | none =>
      have hfirst : (envelope.openEvent newId).eventVersion < 2 ^ 31 := by
        show 1 < 2 ^ 31
        norm_num
      exact iff_of_true hfirst (fun existing heq => by cases heq)
  | some existing =>
      simp only [Option.some.injEq, forall_eq']
      exact Iff.rfl

/-- The event an envelope leads to mentions it. -/
theorem mention_mem_nextEvent (service : EventService) (envelope : RawEnvelope) (newId : Uuid) :
    envelope.mention ∈ (service.nextEvent envelope newId).1.mentions := by
  unfold EventService.nextEvent
  cases service.similarEvent envelope with
  | none => exact List.mem_singleton_self _
  | some existing =>
      exact (existing.extend_mentions_perm envelope).mem_iff.mpr (by simp)

/-- **Storing what was accepted.**  Whatever a service has reached, the
transaction for an envelope meets the schema exactly if its texts fit their
columns, its source is accepted, its twin is not stored, and the event it joins
has a next version. -/
theorem store_isSome_iff (h : StoreRun system) (envelope : RawEnvelope) (newId : Uuid) :
    (system.db.store envelope (system.service.nextEvent envelope newId).1).isSome = true ↔
      envelope.FitsColumns ∧ system.db.AcceptsSource envelope ∧
        ¬system.db.HoldsTwin envelope ∧
        ∀ existing, system.service.similarEvent envelope = some existing →
          existing.eventVersion + 1 < 2 ^ 31 := by
  unfold EventDb.store
  cases hfind : (system.service.nextEvent envelope newId).1.mentions.find?
      (fun mention => mention.rawItemId = envelope.id) with
  | none =>
      have hmention := mention_mem_nextEvent system.service envelope newId
      exact absurd (decide_eq_true rfl) (List.find?_eq_none.mp hfind _ hmention)
  | some current =>
      have hcurrent := List.mem_of_find?_eq_some hfind
      dsimp only
      rw [Option.isSome_ite, EventDb.Takes, envelope.rawItemRow_taken_iff,
        envelope.clashes_iff_holdsTwin, ← nextEvent_version_lt_iff]
      constructor
      · intro hex
        obtain ⟨hsource, hfits, htwin, hrow, -⟩ := hex
        have hevent := h.holdsTaken.nextEvent hfits newId
        exact ⟨hfits, (hfits.takesSource_iff _).mp hsource, htwin, hevent.row_taken_iff.mp hrow⟩
      · intro hex
        obtain ⟨hfits, hsource, htwin, hversion⟩ := hex
        have hevent := h.holdsTaken.nextEvent hfits newId
        exact ⟨(hfits.takesSource_iff _).mpr hsource, hfits, htwin,
          hevent.row_taken_iff.mpr hversion, hevent.mentions current hcurrent⟩

end Runs

/-- An item of a known source, without a credibility and with a provider that has
blanks beyond its column. -/
@[reducible] def paddedItem : RawEnvelope where
  toRawEnvelopeFields :=
    { (testItem 4 (some "b") "first" 70 80).toRawEnvelopeFields with
      provider := "fixture" ++ String.ofList (List.replicate 100 ' ')
      sourceCredibilityPrior := .nan }
  accepted := by
    simp only [RawEnvelopeFields.Accepted]
    decide +kernel

/-- It is stored after the item that made its source known. -/
theorem store_isSome_iff_paddedItem :
    let _ : CharacterTables := asciiTables
    let system := System.start.ingestStoring (testItem 1 (some "a") "first" 50 60) 7 false
    (system.db.store paddedItem (system.service.nextEvent paddedItem 9).1).isSome = true := by
  intro _ system
  have hfits : paddedItem.FitsColumns := by
    refine ⟨?_, ?_, ?_, ?_, ?_, ?_, ?_, ?_, ?_⟩ <;> decide +kernel
  have hsource : system.db.AcceptsSource paddedItem := Or.inl (by decide +kernel)
  have htwin : ¬system.db.HoldsTwin paddedItem := by decide +kernel
  have hjoined : system.service.similarEvent paddedItem =
      some ((testItem 1 (some "a") "first" 50 60).openEvent 7) := by decide +kernel
  refine (store_isSome_iff (.ingest .start _ _ _) paddedItem 9).mpr
    ⟨hfits, hsource, htwin, fun existing heq => ?_⟩
  obtain rfl := Option.some.inj (hjoined.symm.trans heq)
  decide

section LongLinks

/-- A link of a given length. -/
def longLink (length : ℕ) : String := String.ofList (List.replicate length 'a')

/-- An item that has no identifier but its link. -/
def linkItem (link : String) : XmlElement :=
  .node "item" none [.node "title" (some "Policy update") [], .node "link" (some link) [],
    .node "description" (some "Official text") []]

/-- A feed with that item. -/
def linkFeed (link : String) : XmlElement :=
  .node "rss" none [.node "channel" none [linkItem link]]

theorem length_longLink (length : ℕ) : (longLink length).length = length := by
  rw [longLink, String.length_ofList, List.length_replicate]

variable [CharacterTables]

/-- A link without blanks is stripped of nothing. -/
theorem strip_longLink (length : ℕ) : strip (longLink length) = longLink length := by
  have hblank : CharacterTables.isspace 'a' = false := by
    rw [CharacterTables.isspace_ascii 'a' (by decide)]
    decide
  have hdrop : (List.replicate length 'a').dropWhile CharacterTables.isspace =
      List.replicate length 'a' := by
    cases length with
    | zero => rfl
    | succ length => rw [List.replicate_succ, List.dropWhile_cons_of_neg (by simp [hblank])]
  rw [strip, longLink, String.toList_ofList, hdrop, List.reverse_replicate, hdrop,
    List.reverse_replicate]

/-- The link of an item without an identifier is its identifier. -/
theorem linkItem_link {link : String} (hne : link ≠ "") (hstrip : strip link = link) :
    (linkItem link).itemLink = link ∧ (linkItem link).itemNativeId = some link := by
  have hlink : (linkItem link).itemLink = link := by
    have htext : orElseText ((linkItem link).findtext "link") "" = link := if_neg hne
    rw [XmlElement.itemLink, htext, hstrip]
  have hguid : strip (orElseText ((linkItem link).findtext "guid") (linkItem link).itemLink) =
      link := by
    rw [hlink]
    exact hstrip
  exact ⟨hlink, by rw [XmlElement.itemNativeId, hguid, if_neg hne]⟩

end LongLinks

/-- The adapter yields an envelope for the item if its link fits the contract. -/
theorem linkFeed_yields {link : String} (hne : link ≠ "") (hlength : link.length ≤ 2000) :
    let _ : CharacterTables := asciiTables
    let _ : Digest := feedDigest
    let _ : DateParsers := feedDates
    strip link = link →
      ∃ envelope ∈ (agencyProvider.streamItems (linkFeed link) sampleDraws).yielded,
        envelope.nativeId = some link := by
  intro _ _ _ hstrip
  obtain ⟨hlink, hnativeId⟩ := linkItem_link hne hstrip
  have htitle : (linkItem link).itemTitle = "Policy update" := by
    show strip (orElseText (some "Policy update") "") = _
    decide +kernel
  have hcontent : (linkItem link).itemContent = "Official text" := by
    have htext : orElseText ((linkItem link).findtext "description") (linkItem link).itemTitle =
        "Official text" := rfl
    rw [XmlElement.itemContent, htext]
    decide +kernel
  have hreported : (linkItem link).Reported := by
    rw [XmlElement.Reported, htitle, hlink]
    exact ⟨by decide, hne⟩
  have hharmless : Harmless agencyProvider (linkItem link) := by
    refine ⟨fun hdate => absurd rfl hdate, fun _ => ⟨⟨?_, ?_, ?_, ?_⟩, by decide⟩⟩
    · rw [htitle]
      decide
    · rw [hcontent]
      decide
    · rw [hcontent]
      decide
    · rwa [hlink]
  rcases entry_spec feedDigest_isHexDigest agencyProvider (sampleDraws 0) (linkItem link) with
    ⟨-, hskipped, -⟩ | ⟨-, -, envelope, hentry, hyields⟩ | ⟨hharmful, -⟩
  · exact absurd hreported hskipped
  · have hitems : (linkFeed link).items = [linkItem link] := rfl
    refine ⟨envelope, ?_, hentry.nativeId_eq.trans hnativeId⟩
    simp [OfficialRssProvider.streamItems, hitems, OfficialRssProvider.streamEntries, hyields]
  · exact absurd hharmless hharmful

/-- The adapter yields an envelope for an item with a link of 501 characters, and
the first transaction of a new service violates a constraint. -/
theorem long_link_not_stored :
    let _ : CharacterTables := asciiTables
    let _ : Digest := feedDigest
    let _ : DateParsers := feedDates
    StoreRun System.start ∧
      ∃ envelope ∈ (agencyProvider.streamItems (linkFeed (longLink 501)) sampleDraws).yielded,
        envelope.nativeId = some (longLink 501) ∧
        System.start.service.byIdentity.get? envelope.identityKey = none ∧
        (System.start.db.store envelope
          (System.start.service.nextEvent envelope 7).1).isSome = false := by
  intro _ _ _
  have hlength := length_longLink 501
  have hne : longLink 501 ≠ "" := by
    intro h
    rw [h] at hlength
    exact absurd hlength (by decide)
  have hle : (longLink 501).length ≤ 2000 := by
    rw [hlength]
    decide
  obtain ⟨envelope, hmem, hnativeId⟩ := linkFeed_yields hne hle (strip_longLink 501)
  have hnot : ¬envelope.FitsColumns := by
    intro hfits
    have htakes := hfits.nativeId (longLink 501) hnativeId
    rw [Takes, longLink, String.toList_ofList, List.drop_replicate] at htakes
    exact absurd htakes.2 (by decide)
  refine ⟨.start, envelope, hmem, hnativeId, rfl, ?_⟩
  rw [EventDb.store_eq_none hnot]
  rfl

end EventAlpha
