import EventAlpha.StoredHistory

/-!
# Runs of a persistent service

One event service over one database, stepped through any sequence of calls:
`ingest` (whose save may fail), `refresh`, a restart of the process and
`get_event_version`.  A step is a relation because the reads may return their
rows in any order, and because `uuid4` may draw any identifier the database
does not hold.

The invariant is `Consistent`: one grown history with distinct identity keys
that the indexes represent and the tables store.  `Trace.accounts` carries it
through every run in which envelopes of different identity keys have different
identifiers, together with the correspondence between the replies of the run
and the commits of the history.
-/

namespace EventAlpha

open KeyedOrder VersionLog

/-- A service and the database it was built over. -/
structure System where
  service : EventService
  db : EventDb

/-- A service built over the empty schema. -/
def System.start : System := ⟨.ofState {}, .empty⟩

/-- `get_event_version`, given what `load_event_version` answers if it is asked. -/
def EventService.getEventVersion (service : EventService)
    (loaded : Except LoadError (Option CanonicalEvent)) (eventId : Uuid)
    (eventVersion : ℕ) : Except LoadError (Option CanonicalEvent) × EventService :=
  match service.versions.get? (eventId, eventVersion) with
  | some event => (.ok (some event), service)
  | none =>
      match loaded with
      | .ok (some event) =>
          (.ok (some event),
            { service with versions := service.versions.set (eventId, eventVersion) event })
      | .ok none => (.ok none, service)
      | .error error => (.error error, service)

/-- The calls of a run.  An `ingest` carries the identifier `uuid4` draws if it
opens an event, and whether its save fails for outside reasons. -/
inductive Call
  | ingest (envelope : RawEnvelope) (newId : Uuid) (fault : Bool)
  | refresh
  | restart
  | getEventVersion (eventId : Uuid) (eventVersion : ℕ)
  deriving DecidableEq

/-- What a call returns or raises. -/
inductive Reply
  | ingested (result : Except IngestError IngestResult)
  | loaded (result : Except LoadError Unit)
  | version (result : Except LoadError (Option CanonicalEvent))
  deriving DecidableEq

/-- The identifier drawn for a new event is not in the database. -/
def System.Unused (system : System) (newId : Uuid) : Prop :=
  ∀ key ∈ system.db.events.keys, key.1 ≠ newId

instance (system : System) (newId : Uuid) : Decidable (system.Unused newId) := by
  unfold System.Unused; infer_instance

section Calls

variable [CharacterTables]

/-- `ingest` of a persistent service. -/
def System.ingest (system : System) (envelope : RawEnvelope) (newId : Uuid)
    (fault : Bool) : Except IngestError IngestResult × System :=
  let outcome := EventService.ingest (EventDb.saveUnless fault) system.service system.db
    envelope newId
  (outcome.reply, ⟨outcome.service, outcome.store⟩)

/-- A call of `ingest` changes nothing, or stores the item and learns its key. -/
theorem System.ingest_cases (system : System) (envelope : RawEnvelope) (newId : Uuid)
    (fault : Bool) :
    (system.ingest envelope newId fault).2 = system ∨
      ∃ event current, current.rawItemId = envelope.id ∧
        (system.ingest envelope newId fault).2 =
          ⟨system.service.remember envelope event, system.db.write envelope event current⟩ := by
  unfold System.ingest EventService.ingest
  split
  · split
    · exact Or.inl rfl
    · exact Or.inl rfl
  · simp only
    split
    · exact Or.inl rfl
    · rename_i db hsave
      unfold EventDb.saveUnless at hsave
      split at hsave
      · exact absurd hsave (by simp)
      · unfold EventDb.save at hsave
        split at hsave
        · exact absurd hsave (by simp)
        · rename_i current hfind
          have hid : current.rawItemId = envelope.id := by
            simpa using List.find?_some hfind
          obtain ⟨-, hdb⟩ := Option.ite_none_right_eq_some.mp hsave
          exact Or.inr ⟨_, current, hid, by rw [← Option.some.inj hdb]⟩

/-- One call of a run.  A refresh that raises leaves the indexes alone; a
restart that raises leaves no service to go on with. -/
inductive Step : System → Call → Reply → System → Prop
  | ingest (system : System) (envelope : RawEnvelope) (newId : Uuid) (fault : Bool)
      (hfresh : system.Unused newId) :
      Step system (.ingest envelope newId fault)
        (.ingested (system.ingest envelope newId fault).1)
        (system.ingest envelope newId fault).2
  | refresh (system : System) (state : PersistedEventState)
      (hload : system.db.LoadsState system.db (.ok state)) :
      Step system .refresh (.loaded (.ok ())) ⟨.ofState state, system.db⟩
  | refreshRaises (system : System) (error : LoadError)
      (hload : system.db.LoadsState system.db (.error error)) :
      Step system .refresh (.loaded (.error error)) system
  | restart (system : System) (state : PersistedEventState)
      (hload : system.db.LoadsState system.db (.ok state)) :
      Step system .restart (.loaded (.ok ())) ⟨.ofState state, system.db⟩
  | getEventVersion (system : System) (eventId : Uuid) (eventVersion : ℕ)
      (loaded : Except LoadError (Option CanonicalEvent))
      (hload : system.db.LoadsEventVersion system.db eventId eventVersion loaded) :
      Step system (.getEventVersion eventId eventVersion)
        (.version (system.service.getEventVersion loaded eventId eventVersion).1)
        ⟨(system.service.getEventVersion loaded eventId eventVersion).2, system.db⟩

/-- A run, with what every call returned. -/
inductive Trace (first : System) : List (Call × Reply) → System → Prop
  | nil : Trace first [] first
  | snoc {entries : List (Call × Reply)} {system system' : System} {call : Call}
      {reply : Reply} (h : Trace first entries system)
      (hstep : Step system call reply system') :
      Trace first (entries ++ [(call, reply)]) system'

/-- `ingest` of one envelope after the other. -/
def System.ingestAll (system : System) : List (RawEnvelope × Uuid × Bool) →
    List (Except IngestError IngestResult) × System
  | [] => ([], system)
  | (envelope, newId, fault) :: rest =>
      let (reply, system') := system.ingest envelope newId fault
      let (replies, system'') := system'.ingestAll rest
      (reply :: replies, system'')

/-- Every identifier drawn for a new event is not in the database then. -/
def System.FreshAlong (system : System) : List (RawEnvelope × Uuid × Bool) → Prop
  | [] => True
  | (envelope, newId, fault) :: rest =>
      system.Unused newId ∧ (system.ingest envelope newId fault).2.FreshAlong rest

/-- The calls and replies of one ingestion after the other. -/
def System.ingestEntries (system : System) (items : List (RawEnvelope × Uuid × Bool)) :
    List (Call × Reply) :=
  List.zipWith (fun item reply => (.ingest item.1 item.2.1 item.2.2, .ingested reply))
    items (system.ingestAll items).1

end Calls

/-- The envelopes handed to a run. -/
def envelopesOf (entries : List (Call × Reply)) : List RawEnvelope :=
  entries.filterMap (fun entry =>
    match entry.1 with
    | .ingest envelope _ _ => some envelope
    | _ => none)

/-- Envelopes of different identity keys have different identifiers. -/
def IdsIdentify (envelopes : List RawEnvelope) : Prop :=
  ∀ envelope ∈ envelopes, ∀ envelope' ∈ envelopes,
    envelope.id = envelope'.id → envelope.identityKey = envelope'.identityKey

instance (envelopes : List RawEnvelope) : Decidable (IdsIdentify envelopes) := by
  unfold IdsIdentify; infer_instance

/-- Envelopes of pairwise distinct identifiers are a special case. -/
theorem idsIdentify_of_nodup {envelopes : List RawEnvelope}
    (h : (envelopes.map (fun envelope => envelope.id)).Nodup) : IdsIdentify envelopes := by
  intro envelope hmem envelope' hmem' hid
  rw [List.inj_on_of_nodup_map h hmem hmem' hid]

theorem IdsIdentify.mono {envelopes envelopes' : List RawEnvelope}
    (h : IdsIdentify envelopes') (hsub : envelopes ⊆ envelopes') : IdsIdentify envelopes :=
  fun envelope hmem envelope' hmem' => h envelope (hsub hmem) envelope' (hsub hmem')

/-- The first part of what is handed over. -/
theorem IdsIdentify.handed {known handed later : List RawEnvelope}
    (h : IdsIdentify (known ++ (handed ++ later))) : IdsIdentify (known ++ handed) := by
  rw [← List.append_assoc] at h
  exact h.mono (List.subset_append_left _ _)

/-- The rest of it, after commits of the first part. -/
theorem IdsIdentify.advance {log rest : List Commit} {handed later : List RawEnvelope}
    (h : IdsIdentify (log.map Commit.envelope ++ (handed ++ later)))
    (hrest : rest.map Commit.envelope ⊆ handed) :
    IdsIdentify ((log ++ rest).map Commit.envelope ++ later) := by
  apply h.mono
  rw [List.map_append, List.append_assoc]
  refine List.append_subset.mpr ⟨List.subset_append_left _ _, ?_⟩
  apply List.subset_append_of_subset_right
  refine List.append_subset.mpr ⟨?_, List.subset_append_right _ _⟩
  exact List.Subset.trans hrest (List.subset_append_left _ _)

/-- Indexes and tables are views of one history. -/
structure Consistent (system : System) (log : List Commit) : Prop where
  grown : Grown log
  keys : KeysDistinct log
  represents : Represents system.service log
  stores : Stores system.db log

theorem consistent_start : Consistent System.start [] where
  grown := Grown.nil
  keys := List.nodup_nil
  represents := represents_empty
  stores := stores_empty

/-- The mentions of a committed version were left by commits of its event. -/
theorem Grown.commit_of_mention {log : List Commit} (h : Grown log) {commit : Commit}
    (hmem : commit ∈ log) {mention : EventMention}
    (hmention : mention ∈ commit.event.mentions) :
    ∃ commit' ∈ log, commit'.eventId = commit.eventId ∧ commit'.mention = mention := by
  have hin := (h.mentions_perm commit hmem).mem_iff.mp hmention
  obtain ⟨commit', htake, rfl⟩ := List.mem_map.mp hin
  obtain ⟨hlog, hid⟩ := mem_ofKey.mp (List.mem_of_mem_take htake)
  exact ⟨commit', hlog, hid, rfl⟩

namespace Consistent

variable {system : System} {log : List Commit}

/-- An identifier that is not in the database is not in the history. -/
theorem fresh_of_unused (h : Consistent system log) {newId : Uuid}
    (hfresh : system.Unused newId) : ∀ commit ∈ log, commit.eventId ≠ newId := by
  intro commit hmem
  exact hfresh (commit.eventId, commit.version)
    (h.stores.mem_events_keys.mpr ⟨commit, hmem, rfl, rfl⟩)

/-- **Reading back.**  A rebuild does not raise, and leaves a consistent system. -/
theorem reload (h : Consistent system log)
    {result : Except LoadError PersistedEventState}
    (hload : system.db.LoadsState system.db result) :
    ∃ state, result = .ok state ∧ Consistent ⟨.ofState state, system.db⟩ log := by
  obtain ⟨state, rfl, hloaded⟩ := h.stores.loadState_spec h.grown h.stores hload
  exact ⟨state, rfl, h.grown, h.keys, hloaded.represents h.grown h.keys, h.stores⟩

/-- **Version reads.**  Cached or loaded, a version is returned as it was
committed, a version that was never committed is not returned, and the answer
may be cached. -/
theorem getEventVersion (h : Consistent system log) {id : Uuid} {version : ℕ}
    {loaded : Except LoadError (Option CanonicalEvent)}
    (hload : system.db.LoadsEventVersion system.db id version loaded) :
    AnswersVersion log id version (system.service.getEventVersion loaded id version).1 ∧
    Consistent ⟨(system.service.getEventVersion loaded id version).2, system.db⟩ log := by
  have hgrown : Grown (log ++ []) := by simpa using h.grown
  have hstores : Stores system.db (log ++ []) := by simpa using h.stores
  have hspec := h.stores.loadEventVersion_spec hstores hgrown hload
  unfold EventService.getEventVersion
  cases hcached : system.service.versions.get? (id, version) with
  | some event =>
      obtain ⟨commit, hmem, hid, hversion, hsame, hordered⟩ :=
        h.represents.versions_recorded id version event hcached
      exact ⟨.committed hmem hid hversion hsame hordered, h⟩
  | none =>
      cases hspec with
      | absent hrange hnone => exact ⟨.absent hrange hnone, h⟩
      | refused hrange hnone => exact ⟨.refused hrange hnone, h⟩
      | committed hmem hid hversion hsame hordered =>
          refine ⟨.committed hmem hid hversion hsame hordered, h.grown, h.keys, ?_, h.stores⟩
          refine { h.represents with versions_recorded := ?_ }
          intro id' version' event' hget
          rw [InsertionDict.get?_set] at hget
          split at hget
          · rename_i hkey
            obtain ⟨rfl, rfl⟩ := Prod.mk.inj hkey
            obtain rfl := Option.some.inj hget
            exact ⟨_, hmem, hid, hversion, hsame, hordered⟩
          · exact h.represents.versions_recorded id' version' event' hget

section Ingest

variable [CharacterTables]

/-- The save finds the mention of its own item. -/
theorem find?_nextEvent (h : Consistent system log) {envelope : RawEnvelope} (newId : Uuid)
    (hitem : ∀ commit ∈ log, commit.envelope.id ≠ envelope.id) :
    (system.service.nextEvent envelope newId).1.mentions.find?
      (fun mention => mention.rawItemId = envelope.id) = some envelope.mention := by
  have hnew : ∀ mention ∈ (system.service.nextEvent envelope newId).1.mentions,
      mention = envelope.mention ∨ ∃ commit ∈ log, commit.mention = mention := by
    intro mention hmem
    unfold EventService.nextEvent at hmem
    split at hmem
    · exact Or.inl (List.mem_singleton.mp hmem)
    · rename_i existing hsimilar
      rcases CanonicalEvent.mem_extend_mentions.mp hmem with hold | rfl
      · obtain ⟨⟨last, hlatest, hsame, _⟩, _⟩ := h.represents.similarEvent_spec hsimilar
        obtain ⟨commit, hcommit, _, rfl⟩ := h.grown.commit_of_mention (latest_mem hlatest).1
          (hsame.mentions_perm.mem_iff.mp hold)
        exact Or.inr ⟨commit, hcommit, rfl⟩
      · exact Or.inl rfl
  refine find?_eq_some_of_unique ?_ (decide_eq_true rfl) ?_
  · unfold EventService.nextEvent
    split
    · exact List.mem_singleton_self _
    · exact CanonicalEvent.mem_extend_mentions.mpr (Or.inr rfl)
  · intro mention hmem hid
    rcases hnew mention hmem with rfl | ⟨commit, hcommit, rfl⟩
    · rfl
    · exact absurd (of_decide_eq_true hid) (hitem commit hcommit)

omit [CharacterTables] in
/-- An item stored under another identity key has another identifier. -/
theorem item_new (h : Consistent system log) {envelope : RawEnvelope}
    (hids : ∀ commit ∈ log, commit.envelope.id = envelope.id →
      commit.envelope.identityKey = envelope.identityKey)
    (hnew : system.service.byIdentity.get? envelope.identityKey = none) :
    ∀ commit ∈ log, commit.envelope.id ≠ envelope.id :=
  fun commit hmem hid => h.represents.identity_none_iff.mp hnew commit hmem
    (hids commit hmem hid)

/-- A successful save of a new item appends its commit. -/
theorem append (h : Consistent system log) {envelope : RawEnvelope} {newId : Uuid}
    (hfresh : system.Unused newId)
    (hids : ∀ commit ∈ log, commit.envelope.id = envelope.id →
      commit.envelope.identityKey = envelope.identityKey)
    (hnew : system.service.byIdentity.get? envelope.identityKey = none) {fault : Bool}
    {db' : EventDb}
    (hsave : EventDb.saveUnless fault system.db envelope
      (system.service.nextEvent envelope newId).1 = some db') :
    Consistent ⟨system.service.remember envelope (system.service.nextEvent envelope newId).1,
      db'⟩ (log ++ [⟨envelope, (system.service.nextEvent envelope newId).1⟩]) := by
  have hitem := h.item_new hids hnew
  have hlog := h.fresh_of_unused hfresh
  have hordered : (system.service.nextEvent envelope newId).1.Ordered :=
    Represents.nextEvent_ordered envelope newId
  constructor
  · exact h.represents.grown_next h.grown envelope hlog
  · exact h.represents.keysDistinct_snoc h.keys hnew
  · exact h.represents.remember (CanonicalEvent.Same.refl _) hordered hnew
  · refine h.stores.save (h.find?_nextEvent newId hitem) hitem
      (h.represents.nextEvent_version_new h.grown envelope hlog) ?_
    unfold EventDb.saveUnless at hsave
    split at hsave
    · exact absurd hsave (by simp)
    · exact hsave

/-- **Ingestion.**  A known key answers from memory and changes nothing.  A new
one fails and changes nothing, or appends one commit to the history. -/
theorem ingest (h : Consistent system log) {envelope : RawEnvelope} {newId : Uuid}
    (hfresh : system.Unused newId)
    (hids : ∀ commit ∈ log, commit.envelope.id = envelope.id →
      commit.envelope.identityKey = envelope.identityKey) (fault : Bool) :
    (∃ event, system.service.byIdentity.get? envelope.identityKey = some event.eventId ∧
      system.service.events.get? event.eventId = some event ∧
      system.ingest envelope newId fault = (.ok ⟨event, false, true⟩, system)) ∨
    (system.service.byIdentity.get? envelope.identityKey = none ∧
      system.ingest envelope newId fault = (.error .persistence, system)) ∨
    (system.service.byIdentity.get? envelope.identityKey = none ∧
      ∃ created event system',
        system.ingest envelope newId fault = (.ok ⟨event, created, false⟩, system') ∧
        event.Ordered ∧ Consistent system' (log ++ [⟨envelope, event⟩])) := by
  unfold System.ingest
  cases hget : system.service.byIdentity.get? envelope.identityKey with
  | some id =>
      obtain ⟨event, hevent, hanswer⟩ := h.represents.ingest_known hget
      have hid := h.represents.eventId_eq hevent
      subst hid
      exact Or.inl ⟨event, rfl, hevent, by rw [hanswer]⟩
  | none =>
      rw [ingest_unknown hget]
      cases hsave : EventDb.saveUnless fault system.db envelope
          (system.service.nextEvent envelope newId).1 with
      | none => exact Or.inr (Or.inl ⟨rfl, rfl⟩)
      | some db' =>
          exact Or.inr (Or.inr ⟨rfl, _, _, _, rfl,
            Represents.nextEvent_ordered envelope newId, h.append hfresh hids hget hsave⟩)

end Ingest

end Consistent

/-- How the replies of a stretch of a run account for the commits `rest` it
added to the history `log`. -/
structure Accounts (log rest : List Commit) (entries : List (Call × Reply)) : Prop where
  keyed : ∀ envelope newId fault result,
    (Call.ingest envelope newId fault, Reply.ingested (.ok result)) ∈ entries →
    ∃ commit ∈ log ++ rest, commit.envelope.identityKey = envelope.identityKey ∧
      commit.eventId = result.event.eventId
  viewed : ∀ envelope newId fault result,
    (Call.ingest envelope newId fault, Reply.ingested (.ok result)) ∈ entries →
    ∃ commit ∈ log ++ rest, result.event.Same commit.event ∧ result.event.Ordered
  saved : ∀ envelope newId fault result,
    (Call.ingest envelope newId fault, Reply.ingested (.ok result)) ∈ entries →
    result.idempotent = false → ⟨envelope, result.event⟩ ∈ rest
  committed : ∀ commit ∈ rest, ∃ newId fault created,
    (Call.ingest commit.envelope newId fault,
      Reply.ingested (.ok ⟨commit.event, created, false⟩)) ∈ entries

namespace Accounts

theorem nil (log : List Commit) : Accounts log [] [] := by
  constructor <;> simp

/-- A call without a successful ingestion adds nothing. -/
theorem silent (log : List Commit) {call : Call} {reply : Reply}
    (h : ∀ result, reply ≠ .ingested (.ok result)) : Accounts log [] [(call, reply)] := by
  have hnot : ∀ envelope newId fault result,
      (Call.ingest envelope newId fault, Reply.ingested (.ok result)) ∉ [(call, reply)] := by
    intro envelope newId fault result hmem
    exact h result (Prod.mk.inj (List.mem_singleton.mp hmem)).2.symm
  constructor
  · exact fun envelope newId fault result hmem => absurd hmem (hnot _ _ _ _)
  · exact fun envelope newId fault result hmem => absurd hmem (hnot _ _ _ _)
  · exact fun envelope newId fault result hmem => absurd hmem (hnot _ _ _ _)
  · simp

/-- The only entry of a single ingestion is that ingestion. -/
theorem entry_eq {envelope envelope' : RawEnvelope} {newId newId' : Uuid} {fault fault' : Bool}
    {result result' : IngestResult}
    (h : (Call.ingest envelope' newId' fault', Reply.ingested (.ok result')) ∈
      [(Call.ingest envelope newId fault, Reply.ingested (.ok result))]) :
    envelope' = envelope ∧ result' = result := by
  obtain ⟨hcall, hreply⟩ := Prod.mk.inj (List.mem_singleton.mp h)
  exact ⟨(Call.ingest.inj hcall).1, Except.ok.inj (Reply.ingested.inj hreply)⟩

/-- An item that is known is answered from the history. -/
theorem answered {log : List Commit} {envelope : RawEnvelope} {newId : Uuid} {fault : Bool}
    {result : IngestResult} (hidempotent : result.idempotent = true)
    (hkeyed : ∃ commit ∈ log, commit.envelope.identityKey = envelope.identityKey ∧
      commit.eventId = result.event.eventId)
    (hviewed : ∃ commit ∈ log, result.event.Same commit.event ∧ result.event.Ordered) :
    Accounts log [] [(.ingest envelope newId fault, .ingested (.ok result))] := by
  rw [← List.append_nil log] at hkeyed hviewed
  constructor
  · intro envelope' newId' fault' result' hmem
    obtain ⟨rfl, rfl⟩ := entry_eq hmem
    exact hkeyed
  · intro envelope' newId' fault' result' hmem
    obtain ⟨-, rfl⟩ := entry_eq hmem
    exact hviewed
  · intro envelope' newId' fault' result' hmem hsaved
    obtain ⟨-, rfl⟩ := entry_eq hmem
    exact absurd (hidempotent.symm.trans hsaved) (by decide)
  · intro commit hmem
    cases hmem

/-- An item that is saved adds its commit. -/
theorem committing (log : List Commit) (envelope : RawEnvelope) {event : CanonicalEvent}
    (newId : Uuid) (fault created : Bool) (hordered : event.Ordered) :
    Accounts log [⟨envelope, event⟩]
      [(.ingest envelope newId fault, .ingested (.ok ⟨event, created, false⟩))] := by
  have hlast : (⟨envelope, event⟩ : Commit) ∈ log ++ [⟨envelope, event⟩] :=
    List.mem_append_right _ (List.mem_singleton_self _)
  constructor
  · intro envelope' newId' fault' result hmem
    obtain ⟨rfl, rfl⟩ := entry_eq hmem
    exact ⟨_, hlast, rfl, rfl⟩
  · intro envelope' newId' fault' result hmem
    obtain ⟨-, rfl⟩ := entry_eq hmem
    exact ⟨_, hlast, CanonicalEvent.Same.refl event, hordered⟩
  · intro envelope' newId' fault' result hmem _
    obtain ⟨rfl, rfl⟩ := entry_eq hmem
    exact List.mem_singleton_self _
  · intro commit hmem
    obtain rfl := List.mem_singleton.mp hmem
    exact ⟨newId, fault, created, List.mem_singleton_self _⟩

/-- The accounts of two stretches add up. -/
theorem append {log rest more : List Commit} {entries entries' : List (Call × Reply)}
    (h : Accounts log rest entries) (h' : Accounts (log ++ rest) more entries') :
    Accounts log (rest ++ more) (entries ++ entries') := by
  have hsub : ∀ commit ∈ log ++ rest, commit ∈ log ++ (rest ++ more) := by
    intro commit hmem
    rw [← List.append_assoc]
    exact List.mem_append_left _ hmem
  constructor
  · intro envelope newId fault result hmem
    rcases List.mem_append.mp hmem with hold | hnew
    · obtain ⟨commit, hcommit, hrest⟩ := h.keyed _ _ _ _ hold
      exact ⟨commit, hsub commit hcommit, hrest⟩
    · rw [← List.append_assoc]
      exact h'.keyed _ _ _ _ hnew
  · intro envelope newId fault result hmem
    rcases List.mem_append.mp hmem with hold | hnew
    · obtain ⟨commit, hcommit, hrest⟩ := h.viewed _ _ _ _ hold
      exact ⟨commit, hsub commit hcommit, hrest⟩
    · rw [← List.append_assoc]
      exact h'.viewed _ _ _ _ hnew
  · intro envelope newId fault result hmem hsaved
    rcases List.mem_append.mp hmem with hold | hnew
    · exact List.mem_append_left _ (h.saved _ _ _ _ hold hsaved)
    · exact List.mem_append_right _ (h'.saved _ _ _ _ hnew hsaved)
  · intro commit hmem
    rcases List.mem_append.mp hmem with hold | hnew
    · obtain ⟨newId, fault, created, hentry⟩ := h.committed commit hold
      exact ⟨newId, fault, created, List.mem_append_left _ hentry⟩
    · obtain ⟨newId, fault, created, hentry⟩ := h'.committed commit hnew
      exact ⟨newId, fault, created, List.mem_append_right _ hentry⟩

end Accounts

section Runs

variable [CharacterTables]

/-- **Step lemma.**  Every call keeps the system consistent and accounts for
what it adds to the history. -/
theorem Consistent.step {system system' : System} {log : List Commit}
    (h : Consistent system log) {call : Call} {reply : Reply}
    (hstep : Step system call reply system')
    (hids : IdsIdentify (log.map Commit.envelope ++ envelopesOf [(call, reply)])) :
    ∃ rest, Consistent system' (log ++ rest) ∧ Accounts log rest [(call, reply)] := by
  cases hstep with
  | ingest envelope newId fault hfresh =>
      have hkeys : ∀ commit ∈ log, commit.envelope.id = envelope.id →
          commit.envelope.identityKey = envelope.identityKey := by
        intro commit hmem hid
        refine hids commit.envelope ?_ envelope ?_ hid
        · exact List.mem_append_left _ (List.mem_map.mpr ⟨commit, hmem, rfl⟩)
        · exact List.mem_append_right _ (by simp [envelopesOf])
      rcases h.ingest hfresh hkeys fault with ⟨event, hget, hevent, hanswer⟩ |
        ⟨_, hanswer⟩ | ⟨_, created, event, system', hanswer, hordered, hconsistent⟩
      · rw [hanswer]
        obtain ⟨last, hlatest, hsame, hordered⟩ := h.represents.events_latest _ event hevent
        obtain ⟨commit, hcommit, hkey, hid⟩ :=
          (h.represents.identity_iff _ _).mp hget
        exact ⟨[], by simpa using h, Accounts.answered rfl ⟨commit, hcommit, hkey, hid⟩
          ⟨last, (latest_mem hlatest).1, hsame, hordered⟩⟩
      · rw [hanswer]
        exact ⟨[], by simpa using h, Accounts.silent log (by simp)⟩
      · rw [hanswer]
        exact ⟨[⟨envelope, event⟩], hconsistent,
          Accounts.committing log envelope newId fault created hordered⟩
  | refresh state hload =>
      obtain ⟨state', heq, hconsistent⟩ := h.reload hload
      obtain rfl := Except.ok.inj heq
      exact ⟨[], by simpa using hconsistent, Accounts.silent log (by simp)⟩
  | refreshRaises error hload =>
      exact ⟨[], by simpa using h, Accounts.silent log (by simp)⟩
  | restart state hload =>
      obtain ⟨state', heq, hconsistent⟩ := h.reload hload
      obtain rfl := Except.ok.inj heq
      exact ⟨[], by simpa using hconsistent, Accounts.silent log (by simp)⟩
  | getEventVersion eventId eventVersion loaded hload =>
      exact ⟨[], by simpa using (h.getEventVersion hload).2, Accounts.silent log (by simp)⟩

omit [CharacterTables] in
theorem envelopesOf_append (entries entries' : List (Call × Reply)) :
    envelopesOf (entries ++ entries') = envelopesOf entries ++ envelopesOf entries' :=
  List.filterMap_append

omit [CharacterTables] in
/-- The envelopes of the commits of a stretch were handed to it. -/
theorem Accounts.envelopes_subset {log rest : List Commit} {entries : List (Call × Reply)}
    (h : Accounts log rest entries) : rest.map Commit.envelope ⊆ envelopesOf entries := by
  intro envelope hmem
  obtain ⟨commit, hcommit, rfl⟩ := List.mem_map.mp hmem
  obtain ⟨newId, fault, created, hentry⟩ := h.committed commit hcommit
  exact List.mem_filterMap.mpr ⟨_, hentry, rfl⟩

/-- **Run lemma.**  A run from a consistent system ends in a consistent system
and accounts for what it added to the history. -/
theorem Trace.accounts {first system : System} {entries : List (Call × Reply)}
    {log : List Commit} (h : Trace first entries system) (hfirst : Consistent first log)
    (hids : IdsIdentify (log.map Commit.envelope ++ envelopesOf entries)) :
    ∃ rest, Consistent system (log ++ rest) ∧ Accounts log rest entries := by
  induction h with
  | nil => exact ⟨[], by simpa using hfirst, Accounts.nil log⟩
  | @snoc entries system system' call reply h hstep ih =>
      rw [envelopesOf_append] at hids
      obtain ⟨rest, hconsistent, haccounts⟩ := ih hids.handed
      obtain ⟨more, hconsistent', haccounts'⟩ :=
        hconsistent.step hstep (hids.advance haccounts.envelopes_subset)
      exact ⟨rest ++ more, by rwa [← List.append_assoc], haccounts.append haccounts'⟩

/-- A run of a service built over the empty schema. -/
theorem Trace.consistent {system : System} {entries : List (Call × Reply)}
    (h : Trace System.start entries system) (hids : IdsIdentify (envelopesOf entries)) :
    ∃ log, Consistent system log ∧ Accounts [] log entries :=
  h.accounts consistent_start hids

/-- Ingesting one item after the other is a run. -/
theorem Trace.ingestAll {first system : System} {entries : List (Call × Reply)}
    (h : Trace first entries system) (items : List (RawEnvelope × Uuid × Bool))
    (hfresh : system.FreshAlong items) :
    Trace first (entries ++ system.ingestEntries items) (system.ingestAll items).2 := by
  induction items generalizing system entries with
  | nil =>
      rw [System.ingestEntries, List.zipWith_nil_left, List.append_nil]
      exact h
  | cons item items ih =>
      obtain ⟨envelope, newId, fault⟩ := item
      have hstep := h.snoc (Step.ingest system envelope newId fault hfresh.1)
      have hrest := ih hstep hfresh.2
      rw [List.append_assoc] at hrest
      exact hrest

end Runs

section Sample

instance System.decidableFreshAlong [CharacterTables] :
    (system : System) → (items : List (RawEnvelope × Uuid × Bool)) →
      Decidable (system.FreshAlong items)
  | _, [] => isTrue trivial
  | system, (envelope, newId, fault) :: rest =>
      have := System.decidableFreshAlong (system.ingest envelope newId fault).2 rest
      inferInstanceAs (Decidable (_ ∧ _))

/-- A failed save, the same item again, and an item received earlier. -/
def sampleItems : List (RawEnvelope × Uuid × Bool) :=
  [(testItem 1 (some "a") "first" 50 60, 7, true),
    (testItem 2 (some "a") "first" 50 60, 7, false),
    (testItem 3 (some "b") "second" 20 61, 8, false)]

@[reducible] def sampleEntries : List (Call × Reply) :=
  letI := asciiTables
  System.start.ingestEntries sampleItems

@[reducible] def sampleSystem : System :=
  letI := asciiTables
  (System.start.ingestAll sampleItems).2

theorem sampleTrace :
    let := asciiTables
    Trace System.start sampleEntries sampleSystem := by
  intro
  exact Trace.nil.ingestAll sampleItems (by decide +kernel)

end Sample

end EventAlpha
