import EventAlpha.IngestionGuarantees

/-!
# Identity keys and unique indexes

The identity of an item within its source is decided twice: by the key that
`ingest` and `refresh` compute, for which an empty native identifier counts as
none, and by the partial unique indexes of `raw_items`, for which it is an
identifier like any other.

`sameIdentity_iff_clashes` says for which two items the decisions agree.
`clashes_iff_emptyNativeId` says it along every run of a persistent service:
an item of a new identity key violates an index exactly when its native
identifier is empty and so is that of a stored item of its source.
-/

namespace EventAlpha

section TwoItems

/-- The cases in which keys and indexes decide alike about two items of one
source. -/
structure RawEnvelope.Distinguishable (first second : RawEnvelope) : Prop where
  bothEmpty : first.nativeId = some "" → second.nativeId = some "" →
    first.contentHash = second.contentHash
  emptyOrNone : first.nativeId = some "" ∧ second.nativeId = none ∨
    first.nativeId = none ∧ second.nativeId = some "" → first.contentHash ≠ second.contentHash
  secondSpelled : first.nativeId = some ("sha256:" ++ second.contentHash) →
    second.nativeId ≠ none ∧ second.nativeId ≠ some ""
  firstSpelled : second.nativeId = some ("sha256:" ++ first.contentHash) →
    first.nativeId ≠ none ∧ first.nativeId ≠ some ""

theorem fallback_ne_empty (contentHash : String) : "sha256:" ++ contentHash ≠ "" := by
  intro h
  have hlength := congrArg String.length h
  rw [String.length_append] at hlength
  have hscheme : "sha256:".length = 7 := rfl
  have hempty : "".length = 0 := rfl
  omega

/-- A native identifier counts unless it is empty. -/
theorem itemIdentity_some {nativeId : String} (contentHash : String) (h : nativeId ≠ "") :
    itemIdentity (some nativeId) contentHash = nativeId := by
  simp [itemIdentity, orElseText, h]

theorem itemIdentity_empty (contentHash : String) :
    itemIdentity (some "") contentHash = "sha256:" ++ contentHash := rfl

theorem itemIdentity_none (contentHash : String) :
    itemIdentity none contentHash = "sha256:" ++ contentHash := rfl

/-- Two items of one source have one key exactly when their identities agree. -/
theorem identityKey_eq_iff {first second : RawEnvelope}
    (hprovider : first.provider = second.provider) (hsource : first.sourceId = second.sourceId) :
    first.identityKey = second.identityKey ↔
      itemIdentity first.nativeId first.contentHash =
        itemIdentity second.nativeId second.contentHash := by
  simp [RawEnvelope.identityKey, hprovider, hsource]

/-- Two items of one source clash when both have one native identifier, or
neither has one and the contents agree. -/
theorem clashes_iff {first second : RawEnvelope} (hid : first.id ≠ second.id)
    (hprovider : first.provider = second.provider) (hsource : first.sourceId = second.sourceId) :
    first.rawItemRow.Clashes second.rawItemRow ↔
      (first.nativeId ≠ none ∧ first.nativeId = second.nativeId) ∨
      (first.nativeId = none ∧ second.nativeId = none ∧
        first.contentHash = second.contentHash) := by
  simp [RawItemRow.Clashes, RawEnvelope.rawItemRow, hid, hprovider, hsource]

/-- **Keys against indexes.**  Of two items of one source, having one key and
violating an index are the same exactly for distinguishable items. -/
theorem sameIdentity_iff_clashes {first second : RawEnvelope} (hid : first.id ≠ second.id)
    (hprovider : first.provider = second.provider) (hsource : first.sourceId = second.sourceId) :
    (first.identityKey = second.identityKey ↔ first.rawItemRow.Clashes second.rawItemRow) ↔
      first.Distinguishable second := by
  rw [identityKey_eq_iff hprovider hsource, clashes_iff hid hprovider hsource]
  have hform : first.Distinguishable second ↔ _ ∧ _ ∧ _ ∧ _ :=
    ⟨fun h => ⟨h.bothEmpty, h.emptyOrNone, h.secondSpelled, h.firstSpelled⟩,
      fun h => ⟨h.1, h.2.1, h.2.2.1, h.2.2.2⟩⟩
  rw [hform]
  -- each native identifier is absent, empty, or a text that counts
  rcases hfirst : first.nativeId with _ | nativeId <;>
    rcases hsecond : second.nativeId with _ | nativeId'
  · simp [itemIdentity_none]
  · by_cases hempty' : nativeId' = ""
    · subst hempty'
      simp [itemIdentity_none, itemIdentity_empty, (fallback_ne_empty _).symm]
    · simp [itemIdentity_none, itemIdentity_some _ hempty', hempty', eq_comm]
  · by_cases hempty : nativeId = ""
    · subst hempty
      simp [itemIdentity_none, itemIdentity_empty, (fallback_ne_empty _).symm]
    · simp [itemIdentity_none, itemIdentity_some _ hempty, hempty]
  · by_cases hempty : nativeId = "" <;> by_cases hempty' : nativeId' = ""
    · subst hempty hempty'
      simp [itemIdentity_empty, (fallback_ne_empty _).symm]
    · subst hempty
      simp [itemIdentity_empty, itemIdentity_some _ hempty', hempty', eq_comm,
        (fallback_ne_empty _).symm]
    · subst hempty'
      simp [itemIdentity_empty, itemIdentity_some _ hempty, hempty, eq_comm,
        (fallback_ne_empty _).symm]
    · simp [itemIdentity_some _ hempty, itemIdentity_some _ hempty', hempty, hempty']

/-- What a service without persistence answers to the second of two items. -/
def secondReply [CharacterTables] (first second : RawEnvelope) (newId newId' : Uuid) :
    Except IngestError IngestResult :=
  (EventService.ingestInMemory (EventService.ingestInMemory (.ofState {}) first newId).service
    second newId').reply

/-- An answer from memory. -/
def IsIdempotent (reply : Except IngestError IngestResult) : Prop :=
  ∃ result, reply = .ok result ∧ result.idempotent = true

/-- The second item is answered from memory exactly when the keys agree. -/
theorem isIdempotent_secondReply_iff [CharacterTables] (first second : RawEnvelope)
    (newId newId' : Uuid) :
    IsIdempotent (secondReply first second newId newId') ↔
      first.identityKey = second.identityKey := by
  have hfirst : (EventService.ingestInMemory (.ofState {}) first newId).service =
      (EventService.ofState {}).remember first (first.openEvent newId) := rfl
  have hget : ((EventService.ofState {}).remember first
      (first.openEvent newId)).byIdentity.get? second.identityKey =
        if second.identityKey = first.identityKey then some (first.openEvent newId).eventId
        else none := by
    rw [EventService.remember, InsertionDict.get?_set]
    rfl
  unfold secondReply IsIdempotent
  rw [hfirst]
  by_cases hkey : first.identityKey = second.identityKey
  · rw [if_pos hkey.symm] at hget
    have hevent : ((EventService.ofState {}).remember first
        (first.openEvent newId)).events.get? (first.openEvent newId).eventId =
          some (first.openEvent newId) := InsertionDict.get?_set_self _ _ _
    refine iff_of_true ⟨⟨first.openEvent newId, false, true⟩, ?_, rfl⟩ hkey
    rw [EventService.ingestInMemory, EventService.ingest, hget]
    simp only [hevent]
  · rw [if_neg (fun heq => hkey heq.symm)] at hget
    refine iff_of_false ?_ hkey
    intro hidempotent
    obtain ⟨result, hreply, htrue⟩ := hidempotent
    rw [EventService.ingestInMemory, EventService.ingest, hget] at hreply
    obtain rfl := Except.ok.inj hreply
    exact absurd htrue (by simp)

end TwoItems

section Runs

/-- The items in the tables are those whose keys the service knows, each filed
with its mention. -/
structure System.KnowsItems (system : System) : Prop where
  filed : ∀ id row, system.db.rawItems.get? id = some row → row.id = id
  mentioned : ∀ id ∈ system.db.rawItems.keys, ∃ mention,
    system.db.mentions.get? id = some mention ∧ mention.rawItemId = id
  known : ∀ row ∈ system.db.rawItems.values,
    system.service.byIdentity.get? row.identityKey ≠ none

theorem knowsItems_start : System.start.KnowsItems where
  filed id row hget := by simp [System.start, EventDb.empty] at hget
  mentioned id hmem := by
    simp [System.start, EventDb.empty, InsertionDict.keys, InsertionDict.empty] at hmem
  known row hmem := by
    simp [System.start, EventDb.empty, InsertionDict.values, InsertionDict.empty] at hmem

/-- A rebuild knows every stored item, whatever order its rows come in. -/
theorem System.KnowsItems.reload {system : System} (h : system.KnowsItems)
    {state : PersistedEventState} (hload : system.db.LoadsState system.db (.ok state)) :
    System.KnowsItems ⟨.ofState state, system.db⟩ := by
  refine ⟨h.filed, h.mentioned, ?_⟩
  intro row hmem
  obtain ⟨eventRows, joined, -, hjoined, hstate⟩ := hload
  have hitems : state.items = joined.map storedItem := by
    simp only [loadState] at hstate
    split at hstate
    · rw [← Except.ok.inj hstate]
    · exact absurd hstate (by simp)
  obtain ⟨id, hget⟩ := InsertionDict.mem_values_iff_get?.mp hmem
  have hid := h.filed id row hget
  have hkey : id ∈ system.db.rawItems.keys :=
    InsertionDict.mem_keys.mpr ⟨row, InsertionDict.get?_eq_some_iff.mp hget⟩
  obtain ⟨mention, hmention, hraw⟩ := h.mentioned id hkey
  have hpair : (mention, row) ∈ joined := by
    rw [hjoined.mem_iff, EventDb.joinedRows]
    refine List.mem_flatMap.mpr ⟨mention, InsertionDict.mem_values_iff_get?.mpr ⟨id, hmention⟩, ?_⟩
    exact List.mem_map.mpr ⟨row, List.mem_filter.mpr ⟨hmem, by simp [hraw, hid]⟩, rfl⟩
  intro hnone
  apply InsertionDict.get?_eq_none_iff.mp hnone
  refine InsertionDict.mem_keys_ofList.mpr ?_
  rw [hitems]
  refine ⟨(row.identityKey, mention.eventId), ?_, rfl⟩
  exact List.mem_map.mpr ⟨storedItem (mention, row), List.mem_map_of_mem hpair, rfl⟩

variable [CharacterTables]

omit [CharacterTables] in
/-- Storing an item and learning its key keeps to the stored items. -/
theorem System.KnowsItems.write {system : System} (h : system.KnowsItems)
    {envelope : RawEnvelope} {event : CanonicalEvent} {current : EventMention}
    (hid : current.rawItemId = envelope.id) :
    System.KnowsItems ⟨system.service.remember envelope event,
      system.db.write envelope event current⟩ := by
  refine ⟨?_, ?_, ?_⟩
  · intro id row hget
    rw [EventDb.write, InsertionDict.get?_set] at hget
    split at hget
    · rename_i hkey
      rw [hkey, ← Option.some.inj hget]
      rfl
    · exact h.filed id row hget
  · intro id hmem
    simp only [EventDb.write, InsertionDict.get?_set, hid]
    rcases InsertionDict.mem_keys_set.mp hmem with rfl | hold
    · exact ⟨event.mentionRow current, by simp, hid⟩
    · by_cases hkey : id = envelope.id
      · exact ⟨event.mentionRow current, by simp [hkey], by rw [hkey]; exact hid⟩
      · obtain ⟨mention, hmention, hraw⟩ := h.mentioned id hold
        exact ⟨mention, by simp [hkey, hmention], hraw⟩
  · intro row hmem
    obtain ⟨id, hget⟩ := InsertionDict.mem_values_iff_get?.mp hmem
    rw [EventDb.write, InsertionDict.get?_set] at hget
    simp only [EventService.remember, InsertionDict.get?_set]
    split
    · simp
    · rename_i hkey
      split at hget
      · rw [← Option.some.inj hget] at hkey
        exact absurd rfl hkey
      · exact h.known row (InsertionDict.mem_values_iff_get?.mpr ⟨id, hget⟩)

/-- **Step lemma.**  Every call keeps to the stored items. -/
theorem System.KnowsItems.step {system system' : System} (h : system.KnowsItems) {call : Call}
    {reply : Reply} (hstep : Step system call reply system') : system'.KnowsItems := by
  cases hstep with
  | ingest envelope newId fault hfresh =>
      rcases system.ingest_cases envelope newId fault with hsame |
        ⟨event, current, hid, hwritten⟩
      · rw [hsame]
        exact h
      · rw [hwritten]
        exact h.write hid
  | refresh state hload => exact h.reload hload
  | refreshRaises error hload => exact h
  | restart state hload => exact h.reload hload
  | getEventVersion eventId eventVersion loaded hload =>
      refine ⟨h.filed, h.mentioned, ?_⟩
      have hsame : (system.service.getEventVersion loaded eventId eventVersion).2.byIdentity =
          system.service.byIdentity := by
        unfold EventService.getEventVersion
        split
        · rfl
        · split <;> rfl
      simp only [hsame]
      exact h.known

/-- **Run lemma.**  A service knows the key of every item in its database. -/
theorem Trace.knowsItems {system : System} {entries : List (Call × Reply)}
    (h : Trace System.start entries system) : system.KnowsItems := by
  induction h with
  | nil => exact knowsItems_start
  | snoc _ hstep ih => exact ih.step hstep

omit [CharacterTables] in
/-- An item of a new key clashes with a stored one when both native
identifiers are empty, and in no other case. -/
theorem System.KnowsItems.clashes_iff_emptyNativeId {system : System} (h : system.KnowsItems)
    {envelope : RawEnvelope}
    (hnew : system.service.byIdentity.get? envelope.identityKey = none) {row : RawItemRow}
    (hmem : row ∈ system.db.rawItems.values) :
    row.Clashes envelope.rawItemRow ↔
      row.id ≠ envelope.id ∧ row.provider = envelope.provider ∧
        row.sourceId = envelope.sourceId ∧ row.nativeId = some "" ∧
        envelope.nativeId = some "" := by
  have hother : row.identityKey ≠ envelope.identityKey := by
    intro heq
    exact h.known row hmem (by rw [heq, hnew])
  constructor
  · intro hclash
    obtain ⟨hid, hprovider, hsource, hsame⟩ := hclash
    have hidentity : itemIdentity row.nativeId row.contentHash ≠
        itemIdentity envelope.nativeId envelope.contentHash := by
      intro heq
      exact hother (Prod.ext hprovider (Prod.ext hsource heq))
    refine ⟨hid, hprovider, hsource, ?_⟩
    simp only [RawEnvelope.rawItemRow] at hsame
    rcases hsame with ⟨hsome, hnative⟩ | ⟨hnone, hnone', hcontent⟩
    · obtain ⟨nativeId, hrow⟩ := Option.ne_none_iff_exists'.mp hsome
      by_cases hempty : nativeId = ""
      · subst hempty
        exact ⟨hrow, by rw [← hnative, hrow]⟩
      · rw [← hnative, hrow, itemIdentity_some _ hempty, itemIdentity_some _ hempty] at hidentity
        exact absurd rfl hidentity
    · rw [hnone, hnone', hcontent] at hidentity
      exact absurd rfl hidentity
  · intro hempty
    obtain ⟨hid, hprovider, hsource, hrow, hnative⟩ := hempty
    exact ⟨hid, hprovider, hsource, Or.inl ⟨by simp [hrow],
      by simp [RawEnvelope.rawItemRow, hrow, hnative]⟩⟩

/-- Whether the unique indexes refuse an item. -/
def EventDb.RefusesAsDuplicate (db : EventDb) (envelope : RawEnvelope) : Prop :=
  ∃ row ∈ db.rawItems.values, row.Clashes envelope.rawItemRow

instance EventDb.decidableRefusesAsDuplicate (db : EventDb) (envelope : RawEnvelope) :
    Decidable (db.RefusesAsDuplicate envelope) := by
  unfold EventDb.RefusesAsDuplicate; infer_instance

/-- The native identifier of an item is empty, and so is that of another
stored item of its source. -/
def EventDb.RepeatsEmptyNativeId (db : EventDb) (envelope : RawEnvelope) : Prop :=
  ∃ row ∈ db.rawItems.values, row.id ≠ envelope.id ∧ row.provider = envelope.provider ∧
    row.sourceId = envelope.sourceId ∧ row.nativeId = some "" ∧ envelope.nativeId = some ""

instance EventDb.decidableRepeatsEmptyNativeId (db : EventDb) (envelope : RawEnvelope) :
    Decidable (db.RepeatsEmptyNativeId envelope) := by
  unfold EventDb.RepeatsEmptyNativeId; infer_instance

/-- For two items of one source, answering the second from memory and refusing
to store both are the same exactly when they are distinguishable; and along
every run an item of a new key is not refused as a duplicate exactly when it
does not repeat an empty native identifier. -/
theorem identity_matches_indexes :
    (∀ (first second : RawEnvelope) (newId newId' : Uuid), first.id ≠ second.id →
      first.provider = second.provider → first.sourceId = second.sourceId →
      ((IsIdempotent (secondReply first second newId newId') ↔
          first.rawItemRow.Clashes second.rawItemRow) ↔ first.Distinguishable second)) ∧
    (∀ (entries : List (Call × Reply)) (system : System) (envelope : RawEnvelope),
      Trace System.start entries system →
      system.service.byIdentity.get? envelope.identityKey = none →
      (¬ system.db.RefusesAsDuplicate envelope ↔ ¬ system.db.RepeatsEmptyNativeId envelope)) := by
  refine ⟨?_, ?_⟩
  · intro first second newId newId' hid hprovider hsource
    rw [isIdempotent_secondReply_iff]
    exact sameIdentity_iff_clashes hid hprovider hsource
  · intro entries system envelope htrace hnew
    apply not_congr
    apply exists_congr
    intro row
    apply and_congr_right
    intro hmem
    exact htrace.knowsItems.clashes_iff_emptyNativeId hnew hmem

end Runs

section Sample

def otherItemFields (id : Uuid) (nativeId : Option String) : RawEnvelopeFields :=
  { (testItem id nativeId "first" 51 61).toRawEnvelopeFields with
    contentHash := String.ofList (List.replicate 64 'b') }

theorem otherItemFields_accepted (id : Uuid) (nativeId : Option String) :
    (otherItemFields id nativeId).Accepted := by
  simp only [RawEnvelopeFields.Accepted, otherItemFields, testItem]
  decide +kernel

/-- An item of the same source with another content. -/
def otherItem (id : Uuid) (nativeId : Option String) : RawEnvelope :=
  ⟨otherItemFields id nativeId, otherItemFields_accepted id nativeId⟩

/-- The database after the first of two items with an empty native identifier. -/
@[reducible] def emptyNativeIdSystem : System :=
  letI := asciiTables
  (System.start.ingest (testItem 1 (some "") "first" 50 60) 7 false).2

theorem emptyNativeIdTrace :
    let := asciiTables
    ∃ entries, Trace System.start entries emptyNativeIdSystem := by
  intro
  have hfresh : System.start.Unused 7 := by decide
  exact ⟨_, Trace.nil.snoc (Step.ingest System.start (testItem 1 (some "") "first" 50 60) 7 false
    hfresh)⟩

/-- Two items of one source with an empty native identifier and different
contents are no repetition for the service, and the database refuses to store
both. -/
theorem identity_differs_from_indexes :
    let := asciiTables
    let first := testItem 1 (some "") "first" 50 60
    let second := otherItem 2 (some "")
    (first.id ≠ second.id ∧ first.provider = second.provider ∧
      first.sourceId = second.sourceId ∧ ¬ IsIdempotent (secondReply first second 7 8) ∧
      first.rawItemRow.Clashes second.rawItemRow) ∧
    (∃ entries, Trace System.start entries emptyNativeIdSystem) ∧
    emptyNativeIdSystem.service.byIdentity.get? second.identityKey = none ∧
    emptyNativeIdSystem.db.RefusesAsDuplicate second := by
  intro
  refine ⟨⟨by decide, by decide, by decide, ?_, by decide +kernel⟩, emptyNativeIdTrace,
    by decide +kernel, by decide +kernel⟩
  rw [isIdempotent_secondReply_iff]
  decide +kernel

/-- Items without a native identifier meet the condition. -/
theorem identity_matches_indexes_absent :
    let := asciiTables
    let first := testItem 1 none "first" 50 60
    let second := otherItem 2 none
    ((IsIdempotent (secondReply first second 7 8) ↔
        first.rawItemRow.Clashes second.rawItemRow) ↔ first.Distinguishable second) ∧
    (¬ emptyNativeIdSystem.db.RefusesAsDuplicate second ↔
      ¬ emptyNativeIdSystem.db.RepeatsEmptyNativeId second) := by
  intro
  obtain ⟨entries, htrace⟩ := emptyNativeIdTrace
  exact ⟨identity_matches_indexes.1 _ _ 7 8 (by decide) (by decide) (by decide),
    identity_matches_indexes.2 entries _ _ htrace (by decide +kernel)⟩

end Sample

end EventAlpha
