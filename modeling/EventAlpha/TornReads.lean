import EventAlpha.PersistentRuns

/-!
# Torn reads

`load_state` reads the newest versions and the mentions in two statements, and
each statement sees the transactions committed before it starts.  Commits of
the worker that fall between them add mentions of versions the first statement
did not see, or items of events it did not see.

`load_untorn_iff` says that these are exactly the loads that go wrong: a load
is untorn if and only if the worker saves nothing between its statements.
`load_event_version` has the same gap and is not torn by it, because it selects
mentions by version (`Stores.loadEventVersion_spec`).
-/

namespace EventAlpha

open KeyedOrder VersionLog

/-- What a reader relies on after a load over the tables `db`. -/
structure Untorn (state : PersistedEventState) (db : EventDb) : Prop where
  mentions_recorded : ∀ event ∈ state.events, event.mentions.Perm
    ((db.mentionRowsUpTo event.eventId event.eventVersion).map EventMentionRow.mention)
  coherent : ∀ event ∈ state.events, event.Coherent
  items_known : ∀ item ∈ state.items, ∃ event ∈ state.events, event.eventId = item.eventId
  served : ∀ eventId eventVersion event loaded,
    (EventService.ofState state).versions.get? (eventId, eventVersion) = some event →
    ((EventService.ofState state).getEventVersion loaded eventId eventVersion).1 =
        .ok (some event) ∧
      ∀ mention ∈ event.mentions, ∃ row ∈ db.mentionRowsUpTo eventId eventVersion,
        row.mention = mention

/-- No call of a stretch of a run saved anything. -/
def SavesNothing (entries : List (Call × Reply)) : Prop :=
  ∀ envelope newId fault result,
    (Call.ingest envelope newId fault, Reply.ingested (.ok result)) ∈ entries →
    result.idempotent = true

/-- A stretch saves nothing exactly when it adds nothing to the history. -/
theorem Accounts.savesNothing_iff {log rest : List Commit} {entries : List (Call × Reply)}
    (h : Accounts log rest entries) : SavesNothing entries ↔ rest = [] := by
  constructor
  · intro hnothing
    refine List.eq_nil_iff_forall_not_mem.mpr ?_
    intro commit hmem
    obtain ⟨newId, fault, created, hentry⟩ := h.committed commit hmem
    exact absurd (hnothing _ _ _ _ hentry) (by simp)
  · intro heq envelope newId fault result hentry
    obtain rfl := heq
    by_contra hsaved
    exact absurd (h.saved _ _ _ _ hentry (by simpa using hsaved)) (by simp)

namespace LoadedFrom

variable {state : PersistedEventState} {db : EventDb} {log rest : List Commit}

/-- A load of one history is untorn. -/
theorem untorn (h : LoadedFrom state log log) (hstores : Stores db log) (hgrown : Grown log)
    (hkeys : KeysDistinct log) : Untorn state db := by
  have hevent : ∀ event ∈ state.events, ∃ last,
      latest Commit.eventId log event.eventId = some last ∧ event.Same last.event ∧
        event.Ordered := by
    intro event hmem
    obtain ⟨last, hlatest, hscalars, hordered⟩ := h.events_row event hmem
    exact ⟨last, hlatest, ⟨hscalars, (h.events_mentions event hmem).trans
      (hgrown.latest_mentions_perm hlatest).symm⟩, hordered⟩
  have hrecorded : ∀ commit ∈ log, ∀ view : CanonicalEvent, view.Same commit.event →
      view.mentions.Perm ((db.mentionRowsUpTo commit.eventId commit.version).map
        EventMentionRow.mention) := by
    intro commit hmem view hsame
    rw [hstores.mentionRowsUpTo_eq hgrown, List.map_map]
    exact hsame.mentions_perm.trans (hgrown.mentions_perm commit hmem)
  constructor
  · intro event hmem
    obtain ⟨last, hlatest, hsame, _⟩ := hevent event hmem
    rw [hsame.eventId_eq, hsame.eventVersion_eq]
    exact hrecorded last (latest_mem hlatest).1 event hsame
  · intro event hmem
    obtain ⟨last, hlatest, hsame, hordered⟩ := hevent event hmem
    exact (hgrown.coherent last (latest_mem hlatest).1).of_same hsame.symm hordered
  · intro item hmem
    obtain ⟨commit, hcommit, rfl⟩ := List.mem_map.mp (h.items_perm.mem_iff.mp hmem)
    cases hlatest : latest Commit.eventId log commit.eventId with
    | none => exact absurd rfl (latest_eq_none_iff.mp hlatest commit hcommit)
    | some last => exact h.events_complete _ last hlatest
  · intro eventId eventVersion event loaded hget
    constructor
    · unfold EventService.getEventVersion
      rw [hget]
    · intro mention hmention
      obtain ⟨commit, hmem, rfl, rfl, hsame, _⟩ :=
        (h.represents hgrown hkeys).versions_recorded _ _ _ hget
      exact List.mem_map.mp ((hrecorded commit hmem event hsame).mem_iff.mp hmention)

/-- A commit between the statements tears the load. -/
theorem torn (h : LoadedFrom state log (log ++ rest)) (hstores : Stores db (log ++ rest))
    (hold : Grown log) (hgrown : Grown (log ++ rest)) (huntorn : Untorn state db) :
    rest = [] := by
  refine List.eq_nil_iff_forall_not_mem.mpr ?_
  intro commit hmem
  -- the item of the commit was read, so its event must have been read before
  have hitem : commit.item ∈ state.items :=
    h.items_perm.mem_iff.mpr (List.mem_map.mpr ⟨commit, List.mem_append_right _ hmem, rfl⟩)
  obtain ⟨event, hevent, hid⟩ := huntorn.items_known _ hitem
  have hid' : event.eventId = commit.eventId := hid
  obtain ⟨last, hlatest, hscalars, _⟩ := h.events_row event hevent
  have hversion : event.eventVersion = (commitsOf log event.eventId).length :=
    (congrArg CanonicalEvent.eventVersion hscalars).trans (hold.numbered.number_latest hlatest)
  -- then it was read with one mention too many for its version
  have hread := (h.events_mentions event hevent).length_eq
  have hrecorded := (huntorn.mentions_recorded event hevent).length_eq
  have hnew : 0 < (commitsOf rest event.eventId).length :=
    List.length_pos_of_mem (mem_ofKey.mpr ⟨hmem, hid'.symm⟩)
  rw [commitsOf, ofKey_append, List.length_map, List.length_append] at hread
  rw [hstores.mentionRowsUpTo_eq hgrown, List.length_map, List.length_map, hversion,
    List.length_take] at hrecorded
  have hle := Nat.min_le_left (commitsOf log event.eventId).length
    (commitsOf (log ++ rest) event.eventId).length
  rw [commitsOf] at hnew hle hrecorded
  omega

end LoadedFrom

section Reader

variable [CharacterTables]

/-- **Torn loads.**  A reader loads the state while a worker runs: its first
statement sees the tables after `before`, its second one those after `between`
as well.  The load is untorn exactly when the worker saved nothing between. -/
theorem load_untorn_iff {before between : List (Call × Reply)} {system system' : System}
    (h : Trace System.start before system) (h' : Trace system between system')
    (hids : IdsIdentify (envelopesOf before ++ envelopesOf between))
    {result : Except LoadError PersistedEventState}
    (hload : system.db.LoadsState system'.db result) :
    ∃ state, result = .ok state ∧ (Untorn state system'.db ↔ SavesNothing between) := by
  obtain ⟨log, hconsistent, haccounts⟩ :=
    h.consistent (hids.mono (List.subset_append_left _ _))
  obtain ⟨rest, hconsistent', haccounts'⟩ := h'.accounts hconsistent
    (@IdsIdentify.advance [] log _ _ hids haccounts.envelopes_subset)
  obtain ⟨state, rfl, hloaded⟩ :=
    hconsistent.stores.loadState_spec hconsistent.grown hconsistent'.stores hload
  refine ⟨state, rfl, ?_⟩
  rw [haccounts'.savesNothing_iff]
  constructor
  · exact hloaded.torn hconsistent'.stores hconsistent.grown hconsistent'.grown
  · intro heq
    obtain rfl := heq
    have hwhole : LoadedFrom state log log := by simpa using hloaded
    exact hwhole.untorn (by simpa using hconsistent'.stores) hconsistent.grown
      hconsistent.keys

/-- The item saved between the two statements of the reader. -/
def lateItem : RawEnvelope × Uuid × Bool := (testItem 4 (some "c") "third" 90 91, 9, false)

omit [CharacterTables] in
theorem load_untorn_iff_lateItem :
    let := asciiTables
    ∃ state, loadState sampleSystem.db.latestEventRows
        (sampleSystem.ingestAll [lateItem]).2.db.joinedRows = .ok state ∧
      (Untorn state (sampleSystem.ingestAll [lateItem]).2.db ↔
        SavesNothing (sampleSystem.ingestEntries [lateItem])) := by
  intro
  exact load_untorn_iff sampleTrace (Trace.nil.ingestAll [lateItem] (by decide +kernel))
    (idsIdentify_of_nodup (by decide +kernel)) (EventDb.loadsState_tableOrder _ _)

omit [CharacterTables] in
/-- The reader holds version two of the event with three mentions. -/
theorem load_torn :
    let := asciiTables
    ¬ ∀ (before between : List (Call × Reply)) (system system' : System),
      Trace System.start before system → Trace system between system' →
      IdsIdentify (envelopesOf before ++ envelopesOf between) →
      ∀ result, system.db.LoadsState system'.db result →
        ∃ state, result = .ok state ∧ Untorn state system'.db := by
  intro _ hlaw
  obtain ⟨state, hstate, huntorn⟩ := hlaw _ _ _ _ sampleTrace
    (Trace.nil.ingestAll [lateItem] (by decide +kernel))
    (idsIdentify_of_nodup (by decide +kernel)) _ (EventDb.loadsState_tableOrder _ _)
  have hread : (loadState sampleSystem.db.latestEventRows
      (sampleSystem.ingestAll [lateItem]).2.db.joinedRows).toOption.map
        (fun loaded => loaded.events.map (fun event =>
          (event.eventVersion, event.mentions.length))) = some [(2, 3)] := by
    decide +kernel
  rw [hstate] at hread
  have hevents : state.events.map (fun event =>
      (event.eventVersion, event.mentions.length)) = [(2, 3)] := Option.some.inj hread
  obtain ⟨event, hmem, hcount⟩ := List.mem_map.mp (hevents ▸ List.mem_singleton_self (2, 3))
  have hcoherent := (huntorn.coherent event hmem).version_eq
  have hversion : event.eventVersion = 2 := congrArg Prod.fst hcount
  have hlength : event.mentions.length = 3 := congrArg Prod.snd hcount
  omega

end Reader

end EventAlpha
