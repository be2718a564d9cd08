import EventAlpha.EventRepository
import EventAlpha.EventIndexes
import Mathlib.Logic.Function.Basic

/-!
# Event workers and their lease

Any number of event workers over one database, each going through the steps of
`main`: it builds the service, whose two statements read the state, then tries
to take the lease, ingests and commits item by item, and releases the lease.
Their steps interleave in any order.

The state is read before the lease is asked for, so a worker may hold the lease
with a memory that another worker's commits have overtaken, and then writes a
version that is already stored.  `history_intact_iff_upToDate` says that this
is the only way the history is damaged: along every interleaving the history
stays intact and no committed row changes if and only if every event that a
committed item joins is in the worker's memory at its newest stored version.
-/

namespace EventAlpha

open KeyedOrder VersionLog

/-- Where a worker is in `main`. -/
inductive Phase
  | starting
  | reading (eventRows : List EventRow)
  | loaded (service : EventService)
  | leased (service : EventService)
  | stopping
  | finished

/-- The workers, the database and the worker that holds the lease. -/
structure Fleet where
  db : EventDb
  holder : Option ℕ
  phase : ℕ → Phase

/-- Nothing stored, no worker started. -/
def Fleet.start : Fleet := ⟨.empty, none, fun _ => .starting⟩

/-- One worker moves to a phase. -/
def Fleet.move (fleet : Fleet) (worker : ℕ) (phase : Phase) : Fleet :=
  { fleet with phase := Function.update fleet.phase worker phase }

/-- What a worker does in one step. -/
inductive WorkerAction
  | selectEvents
  | selectItems
  | takeLease
  | ingest (envelope : RawEnvelope) (newId : Uuid) (fault : Bool)
  | release

/-- The identifiers `uuid4` drew for an item and for a new event are in no table. -/
def EventDb.Unused (db : EventDb) (envelope : RawEnvelope) (newId : Uuid) : Prop :=
  envelope.id ∉ db.mentions.keys ∧ ∀ key ∈ db.events.keys, key.1 ≠ newId

instance EventDb.decidableUnused (db : EventDb) (envelope : RawEnvelope) (newId : Uuid) :
    Decidable (db.Unused envelope newId) := by
  unfold EventDb.Unused; infer_instance

section Steps

variable [CharacterTables]

/-- The fleet after a worker ingested an item.  An exception ends its loop. -/
def Fleet.ingested (fleet : Fleet) (worker : ℕ) (service : EventService)
    (envelope : RawEnvelope) (newId : Uuid) (fault : Bool) : Fleet :=
  let outcome := EventService.ingest (EventDb.saveUnless fault) service fleet.db envelope newId
  Fleet.move { fleet with db := outcome.store } worker
    (match outcome.reply with
      | .ok _ => .leased outcome.service
      | .error _ => .stopping)

/-- The steps of `main`.  The lease is granted to one worker at a time and kept
until that worker releases it. -/
inductive FleetStep (fleet : Fleet) (worker : ℕ) : WorkerAction → Fleet → Prop
  | selectEvents {eventRows : List EventRow} (hphase : fleet.phase worker = .starting)
      (hrows : eventRows.Perm fleet.db.latestEventRows) :
      FleetStep fleet worker .selectEvents (fleet.move worker (.reading eventRows))
  | selectItems {eventRows : List EventRow} {joined : List (EventMentionRow × RawItemRow)}
      {state : PersistedEventState} (hphase : fleet.phase worker = .reading eventRows)
      (hjoined : joined.Perm fleet.db.joinedRows)
      (hload : loadState eventRows joined = .ok state) :
      FleetStep fleet worker .selectItems (fleet.move worker (.loaded (.ofState state)))
  | selectRaises {eventRows : List EventRow} {joined : List (EventMentionRow × RawItemRow)}
      {error : LoadError} (hphase : fleet.phase worker = .reading eventRows)
      (hjoined : joined.Perm fleet.db.joinedRows)
      (hload : loadState eventRows joined = .error error) :
      FleetStep fleet worker .selectItems (fleet.move worker .finished)
  | leaseGranted {service : EventService} (hphase : fleet.phase worker = .loaded service)
      (hfree : fleet.holder = none) :
      FleetStep fleet worker .takeLease
        (Fleet.move { fleet with holder := some worker } worker (.leased service))
  | leaseRefused {service : EventService} {other : ℕ}
      (hphase : fleet.phase worker = .loaded service) (htaken : fleet.holder = some other) :
      FleetStep fleet worker .takeLease (fleet.move worker .finished)
  | ingest {service : EventService} (hphase : fleet.phase worker = .leased service)
      {envelope : RawEnvelope} {newId : Uuid} (fault : Bool)
      (hunused : fleet.db.Unused envelope newId) :
      FleetStep fleet worker (.ingest envelope newId fault)
        (fleet.ingested worker service envelope newId fault)
  | release (hphase : (∃ service, fleet.phase worker = .leased service) ∨
        fleet.phase worker = .stopping) :
      FleetStep fleet worker .release
        (Fleet.move { fleet with holder := none } worker .finished)

/-- One step of an interleaving. -/
structure FleetMove where
  before : Fleet
  worker : ℕ
  action : WorkerAction
  after : Fleet

/-- An interleaving, with every step it took. -/
inductive FleetRun : List FleetMove → Fleet → Prop
  | start : FleetRun [] .start
  | step {moves : List FleetMove} {fleet fleet' : Fleet} {worker : ℕ}
      {action : WorkerAction} (h : FleetRun moves fleet)
      (hstep : FleetStep fleet worker action fleet') :
      FleetRun (moves ++ [⟨fleet, worker, action, fleet'⟩]) fleet'

end Steps

/-- The versions of every event are numbered from one without a gap, and each
has exactly one mention. -/
structure EventDb.Intact (db : EventDb) : Prop where
  versions : ∀ eventId, ∃ count, ∀ eventVersion,
    (eventId, eventVersion) ∈ db.events.keys ↔ 1 ≤ eventVersion ∧ eventVersion ≤ count
  mention : ∀ key ∈ db.events.keys,
    ∃! row, row ∈ db.mentions.values ∧ (row.eventId, row.eventVersion) = key

/-- No committed row of `events` or `event_mentions` changed. -/
structure EventDb.Preserves (db db' : EventDb) : Prop where
  events : ∀ key row, db.events.get? key = some row → db'.events.get? key = some row
  mentions : ∀ key row, db.mentions.get? key = some row → db'.mentions.get? key = some row

/-- The version in memory is the newest stored one. -/
def EventDb.UpToDate (db : EventDb) (event : CanonicalEvent) : Prop :=
  ∀ key ∈ db.events.keys, key.1 = event.eventId → key.2 ≤ event.eventVersion

/-- An item that joins an event and is accepted by the database finds the event
up to date in the memory of its worker. -/
def FleetMove.Current [CharacterTables] (move : FleetMove) : Prop :=
  match move.action with
  | .ingest envelope _ fault => ∀ service existing,
      move.before.phase move.worker = .leased service →
      service.byIdentity.get? envelope.identityKey = none →
      service.similarEvent envelope = some existing →
      (EventDb.saveUnless fault move.before.db envelope (existing.extend envelope)).isSome →
      move.before.db.UpToDate existing
  | _ => True

/-- What holds of the tables along every interleaving: rows are filed under
their own keys, and mentions name stored versions. -/
structure EventDb.WellFormed (db : EventDb) : Prop where
  event_keyed : ∀ key row, db.events.get? key = some row →
    (row.eventId, row.eventVersion) = key
  mention_keyed : ∀ key row, db.mentions.get? key = some row → row.rawItemId = key
  mention_version : ∀ row ∈ db.mentions.values,
    (row.eventId, row.eventVersion) ∈ db.events.keys

/-- The versions in the memory of a service are stored. -/
def EventService.Stored (db : EventDb) (service : EventService) : Prop :=
  ∀ id event, service.events.get? id = some event →
    event.eventId = id ∧ (event.eventId, event.eventVersion) ∈ db.events.keys

/-- The versions in the memory of a worker are stored. -/
def Phase.Stored (db : EventDb) : Phase → Prop
  | .reading eventRows => ∀ row ∈ eventRows, (row.eventId, row.eventVersion) ∈ db.events.keys
  | .loaded service => service.Stored db
  | .leased service => service.Stored db
  | _ => True

theorem EventService.Stored.mono {db db' : EventDb} {service : EventService}
    (h : service.Stored db) (hkeys : ∀ key ∈ db.events.keys, key ∈ db'.events.keys) :
    service.Stored db' :=
  fun id event hget => ⟨(h id event hget).1, hkeys _ (h id event hget).2⟩

theorem EventService.Stored.version {db : EventDb} {service : EventService}
    (h : service.Stored db) {event : CanonicalEvent} (hmem : event ∈ service.events.values) :
    (event.eventId, event.eventVersion) ∈ db.events.keys := by
  obtain ⟨id, hget⟩ := InsertionDict.mem_values_iff_get?.mp hmem
  exact (h id event hget).2

theorem Phase.Stored.mono {db db' : EventDb} {phase : Phase} (h : phase.Stored db)
    (hkeys : ∀ key ∈ db.events.keys, key ∈ db'.events.keys) : phase.Stored db' := by
  cases phase with
  | reading eventRows => exact fun row hmem => hkeys _ (h row hmem)
  | loaded service => exact EventService.Stored.mono h hkeys
  | leased service => exact EventService.Stored.mono h hkeys
  | _ => trivial

namespace EventDb

variable {db : EventDb} {envelope : RawEnvelope} {event : CanonicalEvent}
  {current : EventMention}

theorem Preserves.refl (db : EventDb) : db.Preserves db :=
  ⟨fun _ _ hget => hget, fun _ _ hget => hget⟩

theorem intact_empty : EventDb.empty.Intact where
  versions eventId := ⟨0, fun eventVersion => by
    simp [EventDb.empty, InsertionDict.empty, InsertionDict.keys]; omega⟩
  mention key hmem := by simp [EventDb.empty, InsertionDict.empty, InsertionDict.keys] at hmem

theorem wellFormed_empty : EventDb.empty.WellFormed where
  event_keyed key row hget := by simp [EventDb.empty] at hget
  mention_keyed key row hget := by simp [EventDb.empty] at hget
  mention_version row hmem := by
    simp [EventDb.empty, InsertionDict.empty, InsertionDict.values] at hmem

theorem mem_events_keys_write {key : Uuid × ℕ} :
    key ∈ (db.write envelope event current).events.keys ↔
      key = (event.eventId, event.eventVersion) ∨ key ∈ db.events.keys :=
  InsertionDict.mem_keys_set

/-- The mentions after a save of a new item. -/
theorem mem_mentions_write (hfresh : current.rawItemId ∉ db.mentions.keys)
    {row : EventMentionRow} :
    row ∈ (db.write envelope event current).mentions.values ↔
      row = event.mentionRow current ∨ row ∈ db.mentions.values := by
  rw [InsertionDict.values, write, InsertionDict.entries_set_of_notMem hfresh,
    List.map_append, List.mem_append, or_comm]
  simp [InsertionDict.values]

theorem WellFormed.write (h : db.WellFormed)
    (hfresh : current.rawItemId ∉ db.mentions.keys) :
    (db.write envelope event current).WellFormed where
  event_keyed key row hget := by
    rw [EventDb.write, InsertionDict.get?_set] at hget
    split at hget
    · rename_i hkey
      obtain rfl := Option.some.inj hget
      exact hkey.symm
    · exact h.event_keyed key row hget
  mention_keyed key row hget := by
    rw [EventDb.write, InsertionDict.get?_set] at hget
    split at hget
    · rename_i hkey
      obtain rfl := Option.some.inj hget
      exact hkey.symm
    · exact h.mention_keyed key row hget
  mention_version row hmem := by
    rw [mem_events_keys_write]
    rcases (mem_mentions_write hfresh).mp hmem with rfl | hold
    · exact Or.inl rfl
    · exact Or.inr (h.mention_version row hold)

/-- Saving the version after the newest one keeps the history intact. -/
theorem Intact.write_next (h : db.Intact) (hform : db.WellFormed)
    (hfresh : current.rawItemId ∉ db.mentions.keys) {count : ℕ}
    (hcount : ∀ eventVersion, (event.eventId, eventVersion) ∈ db.events.keys ↔
      1 ≤ eventVersion ∧ eventVersion ≤ count)
    (hnext : event.eventVersion = count + 1) :
    (db.write envelope event current).Intact ∧
      db.Preserves (db.write envelope event current) := by
  have hnew : (event.eventId, event.eventVersion) ∉ db.events.keys := by
    rw [hcount]
    omega
  refine ⟨⟨?_, ?_⟩, ⟨?_, ?_⟩⟩
  · intro eventId
    by_cases hid : eventId = event.eventId
    · subst hid
      refine ⟨count + 1, fun eventVersion => ?_⟩
      simp only [mem_events_keys_write, hcount, Prod.mk.injEq, true_and, hnext]
      omega
    · obtain ⟨count', hcount'⟩ := h.versions eventId
      refine ⟨count', fun eventVersion => ?_⟩
      rw [mem_events_keys_write, hcount', Prod.mk.injEq]
      exact or_iff_right (fun heq => hid heq.1)
  · intro key hkey
    rcases mem_events_keys_write.mp hkey with rfl | hold
    · refine ⟨event.mentionRow current, ⟨(mem_mentions_write hfresh).mpr (Or.inl rfl), rfl⟩, ?_⟩
      intro row hand
      obtain ⟨hmem, hrow⟩ := hand
      rcases (mem_mentions_write hfresh).mp hmem with rfl | hold
      · rfl
      · exact absurd (hrow ▸ hform.mention_version row hold) hnew
    · obtain ⟨row, ⟨hmem, hrow⟩, hunique⟩ := h.mention key hold
      refine ⟨row, ⟨(mem_mentions_write hfresh).mpr (Or.inr hmem), hrow⟩, ?_⟩
      intro row' hand
      obtain ⟨hmem', hrow'⟩ := hand
      rcases (mem_mentions_write hfresh).mp hmem' with rfl | hold'
      · exact absurd (hrow'.symm ▸ hold : (event.eventId, event.eventVersion) ∈ db.events.keys)
          hnew
      · exact hunique row' ⟨hold', hrow'⟩
  · intro key row hget
    rw [EventDb.write, InsertionDict.get?_set_of_ne]
    · exact hget
    · intro heq
      obtain rfl := heq
      exact hnew (InsertionDict.mem_keys.mpr ⟨row, InsertionDict.get?_eq_some_iff.mp hget⟩)
  · intro key row hget
    rw [EventDb.write, InsertionDict.get?_set_of_ne]
    · exact hget
    · intro heq
      obtain rfl := heq
      exact hfresh (InsertionDict.mem_keys.mpr ⟨row, InsertionDict.get?_eq_some_iff.mp hget⟩)

/-- Saving a version that is already stored leaves it with two mentions. -/
theorem Intact.write_stored (h : db.Intact) (hform : db.WellFormed)
    (hfresh : current.rawItemId ∉ db.mentions.keys)
    (hstored : (event.eventId, event.eventVersion) ∈ db.events.keys) :
    ¬ (db.write envelope event current).Intact := by
  intro hintact
  obtain ⟨row, ⟨hmem, hrow⟩, _⟩ := h.mention _ hstored
  have hsame : row = event.mentionRow current :=
    (hintact.mention _ (mem_events_keys_write.mpr (Or.inl rfl))).unique
      ⟨(mem_mentions_write hfresh).mpr (Or.inr hmem), hrow⟩
      ⟨(mem_mentions_write hfresh).mpr (Or.inl rfl), rfl⟩
  obtain ⟨key, hget⟩ := InsertionDict.mem_values_iff_get?.mp hmem
  have hkey : current.rawItemId = key := by
    rw [← hform.mention_keyed key row hget, hsame]
    rfl
  exact hfresh (InsertionDict.mem_keys.mpr
    ⟨row, hkey ▸ InsertionDict.get?_eq_some_iff.mp hget⟩)

end EventDb

/-- The versions a load returns are those of the rows it read. -/
theorem row_of_loadState {eventRows : List EventRow}
    {joined : List (EventMentionRow × RawItemRow)} {state : PersistedEventState}
    (hload : loadState eventRows joined = .ok state) :
    ∀ event ∈ state.events, ∃ row ∈ eventRows,
      (row.eventId, row.eventVersion) = (event.eventId, event.eventVersion) := by
  unfold loadState at hload
  simp only at hload
  split at hload
  · obtain rfl := Except.ok.inj hload
    intro event hmem
    obtain ⟨row, hrow, rfl⟩ := List.mem_map.mp hmem
    exact ⟨row, hrow, rfl⟩
  · exact absurd hload (by simp)

/-- What holds of a fleet along every interleaving. -/
structure Fleet.Sound (fleet : Fleet) : Prop where
  wellFormed : fleet.db.WellFormed
  stored : ∀ worker, (fleet.phase worker).Stored fleet.db

namespace Fleet

variable {fleet : Fleet}

theorem sound_start : Fleet.start.Sound := ⟨EventDb.wellFormed_empty, fun _ => trivial⟩

/-- A worker may move to a phase whose memory is stored. -/
theorem Sound.move (h : fleet.Sound) (worker : ℕ) (phase : Phase)
    (hphase : phase.Stored fleet.db) (holder : Option ℕ) :
    (Fleet.move { fleet with holder := holder } worker phase).Sound where
  wellFormed := h.wellFormed
  stored other := by
    by_cases hother : other = worker
    · subst hother
      show (Function.update fleet.phase other phase other).Stored fleet.db
      rw [Function.update_self]
      exact hphase
    · show (Function.update fleet.phase worker phase other).Stored fleet.db
      rw [Function.update_of_ne hother]
      exact h.stored other

/-- What the holder of the lease has in memory is stored. -/
theorem Sound.leased (h : fleet.Sound) {worker : ℕ} {service : EventService}
    (hphase : fleet.phase worker = .leased service) : service.Stored fleet.db := by
  have hstored := h.stored worker
  rw [hphase] at hstored
  exact hstored

/-- The tables may change under the workers as long as no version is lost. -/
theorem Sound.withDb (h : fleet.Sound) {db : EventDb} (hform : db.WellFormed)
    (hkeys : ∀ key ∈ fleet.db.events.keys, key ∈ db.events.keys) :
    Fleet.Sound { fleet with db := db } where
  wellFormed := hform
  stored worker := (h.stored worker).mono hkeys

section Steps

variable [CharacterTables]

/-- An item with a known key leaves the tables alone. -/
theorem ingested_known {service : EventService} {envelope : RawEnvelope} {id : Uuid}
    (hget : service.byIdentity.get? envelope.identityKey = some id) (worker : ℕ)
    (newId : Uuid) (fault : Bool) :
    fleet.ingested worker service envelope newId fault = fleet.move worker (.leased service) ∨
      fleet.ingested worker service envelope newId fault = fleet.move worker .stopping := by
  unfold Fleet.ingested EventService.ingest
  cases hevent : service.events.get? id with
  | none => exact Or.inr (by simp [hget, hevent])
  | some event => exact Or.inl (by simp [hget, hevent])

/-- A new item that the database does not accept leaves the tables alone. -/
theorem ingested_refused {service : EventService} {envelope : RawEnvelope} {newId : Uuid}
    {fault : Bool} (hget : service.byIdentity.get? envelope.identityKey = none)
    (hsave : EventDb.saveUnless fault fleet.db envelope (service.nextEvent envelope newId).1 =
      none) (worker : ℕ) :
    fleet.ingested worker service envelope newId fault = fleet.move worker .stopping := by
  unfold Fleet.ingested
  rw [ingest_unknown hget, hsave]

/-- A new item that the database accepts is remembered. -/
theorem ingested_saved {service : EventService} {envelope : RawEnvelope} {newId : Uuid}
    {fault : Bool} {db' : EventDb}
    (hget : service.byIdentity.get? envelope.identityKey = none)
    (hsave : EventDb.saveUnless fault fleet.db envelope (service.nextEvent envelope newId).1 =
      some db') (worker : ℕ) :
    fleet.ingested worker service envelope newId fault =
      Fleet.move { fleet with db := db' } worker
        (.leased (service.remember envelope (service.nextEvent envelope newId).1)) := by
  unfold Fleet.ingested
  rw [ingest_unknown hget, hsave]

/-- Ingesting an item either leaves the tables alone, as the item is known or its
save is refused, or commits the item and remembers its event. -/
theorem ingested_cases (fleet : Fleet) (worker : ℕ) (service : EventService)
    (envelope : RawEnvelope) (newId : Uuid) (fault : Bool) :
    ((fleet.ingested worker service envelope newId fault = fleet.move worker (.leased service) ∨
        fleet.ingested worker service envelope newId fault = fleet.move worker .stopping) ∧
      ∀ db', service.byIdentity.get? envelope.identityKey = none →
        EventDb.saveUnless fault fleet.db envelope (service.nextEvent envelope newId).1 ≠
          some db') ∨
    ∃ db', service.byIdentity.get? envelope.identityKey = none ∧
      EventDb.saveUnless fault fleet.db envelope (service.nextEvent envelope newId).1 =
        some db' ∧
      fleet.ingested worker service envelope newId fault =
        Fleet.move { fleet with db := db' } worker
          (.leased (service.remember envelope (service.nextEvent envelope newId).1)) := by
  cases hget : service.byIdentity.get? envelope.identityKey with
  | some id =>
      refine Or.inl ⟨ingested_known hget worker newId fault, ?_⟩
      intro db' hnone
      cases hnone
  | none =>
      cases hsave : EventDb.saveUnless fault fleet.db envelope
          (service.nextEvent envelope newId).1 with
      | none =>
          refine Or.inl ⟨Or.inr (ingested_refused hget hsave worker), ?_⟩
          intro db' _ hsaved
          cases hsaved
      | some db' => exact Or.inr ⟨db', rfl, rfl, ingested_saved hget hsave worker⟩

omit [CharacterTables] in
/-- An accepted save wrote the row of its item under a new key. -/
theorem saved_write {db db' : EventDb} {fault : Bool} {envelope : RawEnvelope}
    {event : CanonicalEvent}
    (hsave : EventDb.saveUnless fault db envelope event = some db') :
    ∃ current, current.rawItemId = envelope.id ∧ db' = db.write envelope event current := by
  unfold EventDb.saveUnless at hsave
  split at hsave
  · exact absurd hsave (by simp)
  · cases hfind : event.mentions.find? (fun mention => mention.rawItemId = envelope.id) with
    | none =>
        unfold EventDb.save at hsave
        rw [hfind] at hsave
        exact absurd hsave (by simp)
    | some current =>
        exact ⟨current, by simpa using List.find?_some hfind, EventDb.save_eq_some hfind hsave⟩

/-- **Committing step.**  An accepted item keeps the history intact exactly when
the event it joins, if any, is up to date in memory. -/
theorem intact_saved {db db' : EventDb} {service : EventService} {envelope : RawEnvelope}
    {newId : Uuid} {fault : Bool} (hform : db.WellFormed) (hintact : db.Intact)
    (hmemory : service.Stored db) (hunused : db.Unused envelope newId)
    (hsave : EventDb.saveUnless fault db envelope (service.nextEvent envelope newId).1 =
      some db') :
    db'.Intact ∧ db.Preserves db' ↔
      ∀ existing, service.similarEvent envelope = some existing → db.UpToDate existing := by
  obtain ⟨current, hid, rfl⟩ := saved_write hsave
  have hfresh : current.rawItemId ∉ db.mentions.keys := hid ▸ hunused.1
  unfold EventService.nextEvent
  cases hsimilar : service.similarEvent envelope with
  | none =>
      refine iff_of_true ?_ (fun existing hexisting => absurd hexisting (by simp))
      have hnone : ∀ eventVersion, (newId, eventVersion) ∈ db.events.keys ↔
          1 ≤ eventVersion ∧ eventVersion ≤ 0 := by
        intro eventVersion
        refine iff_of_false (fun hmem => ?_) (by omega)
        exact hunused.2 _ hmem rfl
      exact hintact.write_next hform hfresh hnone rfl
  | some existing =>
      have hstored := hmemory.version (maxBy?_spec hsimilar).1
      obtain ⟨count, hcount⟩ := hintact.versions existing.eventId
      obtain ⟨_, hle⟩ := (hcount existing.eventVersion).mp hstored
      constructor
      · intro hand event heq key hkey hid
        obtain ⟨hnext, _⟩ := hand
        obtain rfl := Option.some.inj heq
        by_contra hlater
        refine hintact.write_stored hform hfresh ?_ hnext
        have hnewer : (existing.eventId, key.2) ∈ db.events.keys := hid ▸ hkey
        have hbound := ((hcount key.2).mp hnewer).2
        refine (hcount (existing.eventVersion + 1)).mpr ?_
        omega
      · intro hcurrent
        have hnewest : existing.eventVersion = count := by
          refine le_antisymm hle ?_
          have hpos := ((hcount existing.eventVersion).mp hstored).1
          exact hcurrent existing rfl (existing.eventId, count)
            ((hcount count).mpr ⟨by omega, le_refl _⟩) rfl
        exact hintact.write_next hform hfresh hcount (congrArg Nat.succ hnewest)

/-- An accepted item keeps the fleet sound. -/
theorem Sound.saved (h : fleet.Sound) {db' : EventDb} {service : EventService}
    {envelope : RawEnvelope} {newId : Uuid} {fault : Bool}
    (hmemory : service.Stored fleet.db) (hunused : fleet.db.Unused envelope newId)
    (hsave : EventDb.saveUnless fault fleet.db envelope (service.nextEvent envelope newId).1 =
      some db') (worker : ℕ) :
    (Fleet.move { fleet with db := db' } worker
      (.leased (service.remember envelope (service.nextEvent envelope newId).1))).Sound := by
  obtain ⟨current, hid, hwrite⟩ := saved_write hsave
  have hkeys : ∀ key ∈ fleet.db.events.keys, key ∈ db'.events.keys := by
    intro key hkey
    rw [hwrite]
    exact EventDb.mem_events_keys_write.mpr (Or.inr hkey)
  have hform : db'.WellFormed := by
    rw [hwrite]
    exact h.wellFormed.write (hid ▸ hunused.1)
  refine (h.withDb hform hkeys).move worker _ ?_ fleet.holder
  intro id event hget
  rw [EventService.remember, InsertionDict.get?_set] at hget
  split at hget
  · rename_i hid
    obtain rfl := Option.some.inj hget
    rw [hwrite]
    exact ⟨hid.symm, EventDb.mem_events_keys_write.mpr (Or.inl rfl)⟩
  · exact hmemory.mono hkeys id event hget

end Steps

end Fleet

section Runs

variable [CharacterTables]

/-- The ingesting step keeps the fleet sound, and an intact history intact
exactly when it meets the condition. -/
theorem Fleet.Sound.ingested {fleet : Fleet} (hsound : fleet.Sound) (hintact : fleet.db.Intact)
    {worker : ℕ} {service : EventService} (hphase : fleet.phase worker = .leased service)
    {envelope : RawEnvelope} {newId : Uuid} (fault : Bool)
    (hunused : fleet.db.Unused envelope newId) :
    (fleet.ingested worker service envelope newId fault).Sound ∧
      ((fleet.ingested worker service envelope newId fault).db.Intact ∧
          fleet.db.Preserves (fleet.ingested worker service envelope newId fault).db ↔
        FleetMove.Current ⟨fleet, worker, .ingest envelope newId fault,
          fleet.ingested worker service envelope newId fault⟩) := by
  have hsame := And.intro hintact (EventDb.Preserves.refl fleet.db)
  have hmemory := hsound.leased hphase
  have hnext : ∀ existing, service.similarEvent envelope = some existing →
      (service.nextEvent envelope newId).1 = existing.extend envelope := by
    intro existing hsimilar
    rw [EventService.nextEvent, hsimilar]
  rcases fleet.ingested_cases worker service envelope newId fault with
    ⟨hmove, hrejected⟩ | ⟨db', hget, hsave, hmove⟩
  · have hcurrent : FleetMove.Current ⟨fleet, worker, .ingest envelope newId fault,
        fleet.ingested worker service envelope newId fault⟩ := by
      intro service' existing hphase' hnone hsimilar haccepted
      obtain rfl := Phase.leased.inj (hphase.symm.trans hphase')
      obtain ⟨db', hsave⟩ := Option.isSome_iff_exists.mp haccepted
      rw [← hnext existing hsimilar] at hsave
      exact absurd hsave (hrejected db' hnone)
    rcases hmove with hmove | hmove
    · rw [hmove] at hcurrent ⊢
      exact ⟨hsound.move worker (.leased service) hmemory fleet.holder,
        iff_of_true hsame hcurrent⟩
    · rw [hmove] at hcurrent ⊢
      exact ⟨hsound.move worker .stopping trivial fleet.holder,
        iff_of_true hsame hcurrent⟩
  · rw [hmove]
    refine ⟨hsound.saved hmemory hunused hsave worker,
      (Fleet.intact_saved hsound.wellFormed hintact hmemory hunused hsave).trans ?_⟩
    constructor
    · intro hcurrent service' existing hphase' _ hsimilar _
      obtain rfl := Phase.leased.inj (hphase.symm.trans hphase')
      exact hcurrent existing hsimilar
    · intro hcurrent existing hsimilar
      refine hcurrent service existing hphase hget hsimilar ?_
      rw [hnext existing hsimilar] at hsave
      exact Option.isSome_iff_exists.mpr ⟨db', hsave⟩

/-- **Step lemma.**  Every step keeps the fleet sound, and keeps an intact
history intact exactly when it meets the condition. -/
theorem FleetStep.spec {fleet fleet' : Fleet} {worker : ℕ} {action : WorkerAction}
    (hstep : FleetStep fleet worker action fleet') (hsound : fleet.Sound)
    (hintact : fleet.db.Intact) :
    fleet'.Sound ∧ (fleet'.db.Intact ∧ fleet.db.Preserves fleet'.db ↔
      FleetMove.Current ⟨fleet, worker, action, fleet'⟩) := by
  have hsame := And.intro hintact (EventDb.Preserves.refl fleet.db)
  cases hstep with
  | selectEvents hphase hrows =>
      refine ⟨hsound.move worker _ ?_ fleet.holder, iff_of_true hsame trivial⟩
      intro row hmem
      obtain ⟨key, hget⟩ := InsertionDict.mem_values_iff_get?.mp
        (List.mem_of_mem_filter (hrows.mem_iff.mp hmem))
      rw [hsound.wellFormed.event_keyed key row hget]
      exact InsertionDict.mem_keys.mpr ⟨row, InsertionDict.get?_eq_some_iff.mp hget⟩
  | @selectItems eventRows joined state hphase hjoined hload =>
      refine ⟨hsound.move worker _ ?_ fleet.holder, iff_of_true hsame trivial⟩
      have hread : (Phase.reading eventRows).Stored fleet.db := hphase ▸ hsound.stored worker
      intro id event hget
      obtain ⟨event', hmem', heq⟩ := List.mem_map.mp
        (InsertionDict.mem_of_mem_entries_ofList (InsertionDict.get?_eq_some_iff.mp hget))
      obtain ⟨hid, rfl⟩ := Prod.mk.inj heq
      obtain ⟨row, hrow, hkey⟩ := row_of_loadState hload event' hmem'
      exact ⟨hid, hkey ▸ hread row hrow⟩
  | selectRaises hphase hjoined hload =>
      exact ⟨hsound.move worker .finished trivial fleet.holder, iff_of_true hsame trivial⟩
  | leaseGranted hphase hfree =>
      have hmemory : (Phase.loaded _).Stored fleet.db := hphase ▸ hsound.stored worker
      exact ⟨hsound.move worker (.leased _) hmemory (some worker), iff_of_true hsame trivial⟩
  | leaseRefused hphase htaken =>
      exact ⟨hsound.move worker .finished trivial fleet.holder, iff_of_true hsame trivial⟩
  | release hphase =>
      exact ⟨hsound.move worker .finished trivial none, iff_of_true hsame trivial⟩
  | ingest hphase fault hunused => exact hsound.ingested hintact hphase fault hunused

/-- The history is intact, and no step changed a committed row. -/
def HistoryIntact (moves : List FleetMove) : Prop :=
  ∀ move ∈ moves, move.after.db.Intact ∧ move.before.db.Preserves move.after.db

/-- Along an interleaving the fleet is sound, and its history is intact as long
as no step damaged it. -/
theorem FleetRun.sound {moves : List FleetMove} {fleet : Fleet} (h : FleetRun moves fleet)
    (hintact : HistoryIntact moves) : fleet.Sound ∧ fleet.db.Intact := by
  induction h with
  | start => exact ⟨Fleet.sound_start, EventDb.intact_empty⟩
  | step h hstep ih =>
      obtain ⟨hsound, hold⟩ := ih (fun move hmem => hintact move (List.mem_append_left _ hmem))
      have hlast := hintact _ (List.mem_append_right _ (List.mem_singleton_self _))
      exact ⟨(hstep.spec hsound hold).1, hlast.1⟩

/-- **Leased histories.**  Along every interleaving of workers, the history
stays intact and no committed row changes exactly when every accepted item
finds the event it joins up to date in the memory of its worker. -/
theorem history_intact_iff_upToDate {moves : List FleetMove} {fleet : Fleet}
    (h : FleetRun moves fleet) :
    HistoryIntact moves ↔ ∀ move ∈ moves, move.Current := by
  induction h with
  | start => simp [HistoryIntact]
  | @step moves fleet fleet' worker action h hstep ih =>
      unfold HistoryIntact at ih ⊢
      simp only [List.forall_mem_append, List.forall_mem_singleton]
      rw [← ih]
      refine and_congr_right (fun hintact => ?_)
      obtain ⟨hsound, hold⟩ := h.sound hintact
      exact (hstep.spec hsound hold).2

/-- A lease is granted to a worker whose memory no commit has overtaken. -/
def FleetMove.FreshLease (move : FleetMove) : Prop :=
  move.action = .takeLease → ∀ service, move.before.phase move.worker = .loaded service →
    ∀ event ∈ service.events.values, move.before.db.UpToDate event

/-- The worker that ingests or stops holds the lease, and while it ingests its
memory is up to date. -/
structure Fleet.Protected (fleet : Fleet) : Prop where
  leased : ∀ worker service, fleet.phase worker = .leased service →
    fleet.holder = some worker ∧
      ∀ event ∈ service.events.values, fleet.db.UpToDate event
  stopping : ∀ worker, fleet.phase worker = .stopping → fleet.holder = some worker

omit [CharacterTables] in
/-- A worker without the lease moves to a phase without the lease. -/
theorem Fleet.Protected.move {fleet : Fleet} (h : fleet.Protected) {worker : ℕ}
    (phase : Phase) (hleased : ∀ service, phase ≠ .leased service)
    (hstopping : phase = .stopping → fleet.holder = some worker) :
    (fleet.move worker phase).Protected where
  leased other service hphase := by
    by_cases hother : other = worker
    · subst hother
      have hself : phase = .leased service := by simpa [Fleet.move] using hphase
      exact absurd hself (hleased service)
    · exact h.leased other service (by simpa [Fleet.move, hother] using hphase)
  stopping other hphase := by
    by_cases hother : other = worker
    · subst hother
      exact hstopping (by simpa [Fleet.move] using hphase)
    · exact h.stopping other (by simpa [Fleet.move, hother] using hphase)

omit [CharacterTables] in
/-- When the worker that may hold the lease is known, only its phase matters. -/
theorem Fleet.Protected.of_only {fleet : Fleet} {worker : ℕ} {phase : Phase}
    {holder : Option ℕ} {db : EventDb}
    (hothers : ∀ other, other ≠ worker →
      (∀ service, fleet.phase other ≠ .leased service) ∧ fleet.phase other ≠ .stopping)
    (hself : ∀ service, phase = .leased service →
      holder = some worker ∧ ∀ event ∈ service.events.values, db.UpToDate event)
    (hstopping : phase = .stopping → holder = some worker) :
    (Fleet.move ⟨db, holder, fleet.phase⟩ worker phase).Protected where
  leased other service hphase := by
    by_cases hother : other = worker
    · subst hother
      exact hself service (by simpa [Fleet.move] using hphase)
    · exact absurd (by simpa [Fleet.move, hother] using hphase) ((hothers other hother).1 service)
  stopping other hphase := by
    by_cases hother : other = worker
    · subst hother
      exact hstopping (by simpa [Fleet.move] using hphase)
    · exact absurd (by simpa [Fleet.move, hother] using hphase) (hothers other hother).2

omit [CharacterTables] in
/-- The lease excludes every worker but its holder. -/
theorem Fleet.Protected.others {fleet : Fleet} (h : fleet.Protected) {worker : ℕ}
    (hholder : ∀ other, fleet.holder = some other → other = worker) :
    ∀ other, other ≠ worker →
      (∀ service, fleet.phase other ≠ .leased service) ∧ fleet.phase other ≠ .stopping := by
  intro other hother
  constructor
  · intro service hphase
    exact hother (hholder other (h.leased other service hphase).1)
  · intro hphase
    exact hother (hholder other (h.stopping other hphase))

/-- After an accepted item the memory of its worker is still up to date. -/
theorem Fleet.upToDate_saved {db db' : EventDb} {service : EventService}
    {envelope : RawEnvelope} {newId : Uuid} {fault : Bool} (hmemory : service.Stored db)
    (hcurrent : ∀ event ∈ service.events.values, db.UpToDate event)
    (hunused : db.Unused envelope newId)
    (hsave : EventDb.saveUnless fault db envelope (service.nextEvent envelope newId).1 =
      some db') :
    ∀ event ∈ (service.remember envelope (service.nextEvent envelope newId).1).events.values,
      db'.UpToDate event := by
  obtain ⟨current, _, rfl⟩ := Fleet.saved_write hsave
  intro event hmem key hkey hid
  obtain ⟨id, hget⟩ := InsertionDict.mem_values_iff_get?.mp hmem
  rw [EventService.remember, InsertionDict.get?_set] at hget
  split at hget
  · obtain rfl := Option.some.inj hget
    rcases EventDb.mem_events_keys_write.mp hkey with rfl | hold
    · exact le_refl _
    · unfold EventService.nextEvent at hid ⊢
      split at hid
      · exact absurd hid (hunused.2 key hold)
      · rename_i existing hsimilar
        exact (hcurrent existing (maxBy?_spec hsimilar).1 key hold hid).trans (Nat.le_succ _)
  · rename_i hother
    obtain ⟨rfl, _⟩ := hmemory id event hget
    rcases EventDb.mem_events_keys_write.mp hkey with rfl | hold
    · exact absurd hid.symm hother
    · exact hcurrent event (InsertionDict.mem_values_iff_get?.mpr ⟨_, hget⟩) key hold hid

/-- **Protected step.**  When leases are granted to workers with an up-to-date
memory, the holder's memory stays up to date. -/
theorem FleetStep.protected {fleet fleet' : Fleet} {worker : ℕ} {action : WorkerAction}
    (hstep : FleetStep fleet worker action fleet') (hsound : fleet.Sound)
    (h : fleet.Protected) (hlease : FleetMove.FreshLease ⟨fleet, worker, action, fleet'⟩) :
    fleet'.Protected ∧ FleetMove.Current ⟨fleet, worker, action, fleet'⟩ := by
  cases hstep with
  | selectEvents hphase hrows =>
      exact ⟨h.move (.reading _) (by simp) (by simp), trivial⟩
  | selectItems hphase hjoined hload =>
      exact ⟨h.move (.loaded _) (by simp) (by simp), trivial⟩
  | selectRaises hphase hjoined hload =>
      exact ⟨h.move .finished (by simp) (by simp), trivial⟩
  | leaseGranted hphase hfree =>
      refine ⟨Fleet.Protected.of_only (h.others (by simp [hfree])) ?_ (by simp), trivial⟩
      intro service heq
      obtain rfl := Phase.leased.inj heq
      exact ⟨rfl, hlease rfl _ hphase⟩
  | leaseRefused hphase htaken =>
      exact ⟨h.move .finished (by simp) (by simp), trivial⟩
  | release hphase =>
      have hholder : fleet.holder = some worker := by
        rcases hphase with ⟨service, hphase⟩ | hphase
        · exact (h.leased worker service hphase).1
        · exact h.stopping worker hphase
      refine ⟨Fleet.Protected.of_only (h.others ?_) (by simp) (by simp), trivial⟩
      intro other hother
      exact (Option.some.inj (hholder.symm.trans hother)).symm
  | @ingest service hphase envelope newId fault hunused =>
      obtain ⟨hholder, hcurrent⟩ := h.leased worker service hphase
      have honly : ∀ other, fleet.holder = some other → other = worker := fun other hother =>
        (Option.some.inj (hholder.symm.trans hother)).symm
      have hothers := h.others honly
      have hmemory := hsound.leased hphase
      constructor
      · rcases fleet.ingested_cases worker service envelope newId fault with
          ⟨hmove | hmove, -⟩ | ⟨db', -, hsave, hmove⟩
        · rw [hmove]
          refine Fleet.Protected.of_only hothers ?_ (by simp)
          intro service' heq
          obtain rfl := Phase.leased.inj heq
          exact ⟨hholder, hcurrent⟩
        · rw [hmove]
          exact Fleet.Protected.of_only hothers (by simp) (fun _ => hholder)
        · rw [hmove]
          refine Fleet.Protected.of_only hothers ?_ (by simp)
          intro service' heq
          obtain rfl := Phase.leased.inj heq
          exact ⟨hholder, Fleet.upToDate_saved hmemory hcurrent hunused hsave⟩
      · intro service' existing hphase' _ hsimilar _
        obtain rfl := Phase.leased.inj (hphase.symm.trans hphase')
        exact hcurrent existing (maxBy?_spec hsimilar).1

/-- **The lease protects what it was granted on.**  When no commit overtakes the
memory of a worker between its load and its lease, the history stays intact
whatever the interleaving. -/
theorem history_intact_of_freshLease {moves : List FleetMove} {fleet : Fleet}
    (h : FleetRun moves fleet) (hlease : ∀ move ∈ moves, move.FreshLease) :
    HistoryIntact moves := by
  have hrun : fleet.Protected ∧ HistoryIntact moves := by
    induction h with
    | start => exact ⟨⟨by simp [Fleet.start], by simp [Fleet.start]⟩, by simp [HistoryIntact]⟩
    | @step moves fleet fleet' worker action h hstep ih =>
        obtain ⟨hprotected, hintact⟩ :=
          ih (fun move hmem => hlease move (List.mem_append_left _ hmem))
        obtain ⟨hsound, hold⟩ := h.sound hintact
        obtain ⟨hnext, hcurrent⟩ := hstep.protected hsound hprotected
          (hlease _ (List.mem_append_right _ (List.mem_singleton_self _)))
        refine ⟨hnext, ?_⟩
        unfold HistoryIntact at hintact ⊢
        simp only [List.forall_mem_append, List.forall_mem_singleton]
        exact ⟨hintact, (hstep.spec hsound hold).2.mpr hcurrent⟩
  exact hrun.2

/-- A step of a worker whose statements return their rows in table order, if
the worker can take it. -/
def Fleet.next (fleet : Fleet) (worker : ℕ) (action : WorkerAction) : Option Fleet :=
  match action, fleet.phase worker with
  | .selectEvents, .starting => some (fleet.move worker (.reading fleet.db.latestEventRows))
  | .selectItems, .reading eventRows =>
      match loadState eventRows fleet.db.joinedRows with
      | .ok state => some (fleet.move worker (.loaded (.ofState state)))
      | .error _ => some (fleet.move worker .finished)
  | .takeLease, .loaded service =>
      match fleet.holder with
      | none => some (Fleet.move { fleet with holder := some worker } worker (.leased service))
      | some _ => some (fleet.move worker .finished)
  | .ingest envelope newId fault, .leased service =>
      if fleet.db.Unused envelope newId then
        some (fleet.ingested worker service envelope newId fault)
      else none
  | .release, .leased _ => some (Fleet.move { fleet with holder := none } worker .finished)
  | .release, .stopping => some (Fleet.move { fleet with holder := none } worker .finished)
  | _, _ => none

theorem FleetStep.of_next {fleet fleet' : Fleet} {worker : ℕ} {action : WorkerAction}
    (h : fleet.next worker action = some fleet') : FleetStep fleet worker action fleet' := by
  unfold Fleet.next at h
  split at h
  · rename_i hphase
    obtain rfl := Option.some.inj h
    exact FleetStep.selectEvents hphase (List.Perm.refl _)
  · rename_i hphase
    split at h
    · rename_i hload
      obtain rfl := Option.some.inj h
      exact FleetStep.selectItems hphase (List.Perm.refl _) hload
    · rename_i hload
      obtain rfl := Option.some.inj h
      exact FleetStep.selectRaises hphase (List.Perm.refl _) hload
  · rename_i hphase
    split at h
    · rename_i hholder
      obtain rfl := Option.some.inj h
      exact FleetStep.leaseGranted hphase hholder
    · rename_i hholder
      obtain rfl := Option.some.inj h
      exact FleetStep.leaseRefused hphase hholder
  · rename_i hphase
    split at h
    · rename_i hunused
      obtain rfl := Option.some.inj h
      exact FleetStep.ingest hphase _ hunused
    · exact absurd h (by simp)
  · rename_i hphase
    obtain rfl := Option.some.inj h
    exact FleetStep.release (Or.inl ⟨_, hphase⟩)
  · rename_i hphase
    obtain rfl := Option.some.inj h
    exact FleetStep.release (Or.inr hphase)
  · exact absurd h (by simp)

/-- The interleaving of a schedule, if every worker can take its steps. -/
def Fleet.schedule (fleet : Fleet) : List (ℕ × WorkerAction) →
    Option (List FleetMove × Fleet)
  | [] => some ([], fleet)
  | (worker, action) :: rest =>
      match fleet.next worker action with
      | none => none
      | some fleet' =>
          (fleet'.schedule rest).map (fun run => (⟨fleet, worker, action, fleet'⟩ :: run.1, run.2))

theorem FleetRun.schedule {moves more : List FleetMove} {fleet last : Fleet}
    (h : FleetRun moves fleet) {steps : List (ℕ × WorkerAction)}
    (hsteps : fleet.schedule steps = some (more, last)) : FleetRun (moves ++ more) last := by
  induction steps generalizing moves more fleet with
  | nil =>
      obtain ⟨rfl, rfl⟩ := Prod.mk.inj (Option.some.inj hsteps)
      simpa using h
  | cons step steps ih =>
      obtain ⟨worker, action⟩ := step
      unfold Fleet.schedule at hsteps
      split at hsteps
      · exact absurd hsteps (by simp)
      · rename_i fleet' hnext
        obtain ⟨⟨moves', last'⟩, hrest, heq⟩ := Option.map_eq_some_iff.mp hsteps
        obtain ⟨rfl, rfl⟩ := Prod.mk.inj heq
        have hrun := ih (h.step (FleetStep.of_next hnext)) hrest
        rwa [List.append_assoc] at hrun

/-- The second worker reads the event at its first version, waits for the lease
while the first worker commits the second version, and commits another one. -/
def staleSchedule : List (ℕ × WorkerAction) :=
  [(0, .selectEvents), (0, .selectItems), (0, .takeLease),
    (0, .ingest (testItem 1 (some "a") "first" 10 11) 7 false),
    (1, .selectEvents), (1, .selectItems),
    (0, .ingest (testItem 2 (some "b") "second" 20 21) 8 false),
    (0, .release), (1, .takeLease),
    (1, .ingest (testItem 3 (some "c") "third" 30 31) 9 false)]

omit [CharacterTables] in
theorem history_intact_iff_upToDate_staleSchedule :
    let := asciiTables
    ∃ moves fleet, Fleet.start.schedule staleSchedule = some (moves, fleet) ∧
      (HistoryIntact moves ↔ ∀ move ∈ moves, move.Current) := by
  intro
  obtain ⟨⟨moves, fleet⟩, hrun⟩ := Option.isSome_iff_exists.mp
    (show (Fleet.start.schedule staleSchedule).isSome = true by decide +kernel)
  exact ⟨moves, fleet, hrun, history_intact_iff_upToDate (FleetRun.start.schedule hrun)⟩

omit [CharacterTables] in
/-- The second version of the event is overwritten and left with two mentions. -/
theorem history_damaged :
    let := asciiTables
    ¬ ∀ (moves : List FleetMove) (fleet : Fleet), FleetRun moves fleet →
      HistoryIntact moves := by
  intro _ hlaw
  have hrows : (Fleet.start.schedule staleSchedule).map (fun run =>
      (decide ((7, 2) ∈ run.2.db.events.keys),
        (run.2.db.mentions.values.filter (fun row =>
          (row.eventId, row.eventVersion) = (7, 2))).map EventMentionRow.rawItemId)) =
      some (true, [2, 3]) := by
    decide +kernel
  obtain ⟨⟨moves, fleet⟩, hschedule, heq⟩ := Option.map_eq_some_iff.mp hrows
  obtain ⟨hkey, hids⟩ := Prod.mk.inj heq
  have hrun := FleetRun.start.schedule hschedule
  have hintact := (hrun.sound (hlaw _ _ hrun)).2
  obtain ⟨row, hrow, hunique⟩ := hintact.mention (7, 2) (of_decide_eq_true hkey)
  have hmention : ∀ id ∈ [2, 3], row.rawItemId = id := by
    intro id hid
    rw [← hids] at hid
    obtain ⟨row', hmem, rfl⟩ := List.mem_map.mp hid
    obtain ⟨hvalue, hversion⟩ := List.mem_filter.mp hmem
    rw [hunique row' ⟨hvalue, of_decide_eq_true hversion⟩]
  have htwo := hmention 2 (by simp)
  have hthree := hmention 3 (by simp)
  exact absurd (htwo.symm.trans hthree) (by decide)

end Runs

end EventAlpha
