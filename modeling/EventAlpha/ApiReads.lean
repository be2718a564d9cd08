import EventAlpha.PersistentRuns
import EventAlpha.RunLog

/-!
# Event reads of the API

`GET /api/v1/events` and `GET /api/v1/events/{event_id}` reload the indexes of
the one event service of the process and then read it.  A request takes three
steps: its refresh loads a snapshot of the tables in a worker thread, assigns
the rebuilt indexes, and the handler reads them.  Between the steps other
requests take theirs and the ingestion worker commits.

Whichever refresh assigns last decides what every handler reads next, so a
request may answer from a snapshot older than its own.  `reads_reflect` says
exactly when it does: an answer reflects the snapshot of its own request if
and only if the snapshot being served covers it.  Where every answer is so
covered, no request goes back behind what a completed one has shown.
-/

namespace EventAlpha

open KeyedOrder VersionLog RunLog

/-- `list_events`: the events in memory, the last received first. -/
def EventService.listEvents (service : EventService) : List CanonicalEvent :=
  sortedByDesc CanonicalEvent.firstReceivedAt service.events.values

/-- `get_event`. -/
def EventService.getEvent (service : EventService) (eventId : Uuid) : Option CanonicalEvent :=
  service.events.get? eventId

/-- The two endpoints that read the event indexes. -/
inductive Query
  | listEvents
  | getEvent (eventId : Uuid)
  deriving DecidableEq

/-- What they answer; an unknown event is a 404. -/
inductive Answer
  | events (data : List CanonicalEvent)
  | event (found : Option CanonicalEvent)
  deriving DecidableEq

/-- The handler of a query, after its refresh. -/
def EventService.answer (service : EventService) : Query → Answer
  | .listEvents => .events service.listEvents
  | .getEvent eventId => .event (service.getEvent eventId)

/-- The events an answer shows. -/
def Answer.shown : Answer → List CanonicalEvent
  | .events data => data
  | .event found => found.toList

/-- The query asks for the event. -/
def Query.Concerns : Query → Uuid → Prop
  | .listEvents, _ => True
  | .getEvent eventId, id => id = eventId

instance (query : Query) (id : Uuid) : Decidable (query.Concerns id) := by
  unfold Query.Concerns; split <;> infer_instance

/-- How far a request has come. -/
inductive RequestPhase
  | arrived
  | loaded (state : PersistedEventState)
  | refreshed
  | answered (answer : Answer)
  | failed (error : LoadError)

/-- The ingestion worker over its database, and the service and the requests
of the API process. -/
structure ReadApi where
  worker : System
  events : EventService
  requests : ℕ → RequestPhase

/-- A process that has built its service and received no request yet. -/
def ReadApi.started (worker : System) (state : PersistedEventState) : ReadApi :=
  ⟨worker, .ofState state, fun _ => .arrived⟩

/-- A request enters its next phase. -/
def ReadApi.enter (api : ReadApi) (request : ℕ) (phase : RequestPhase) : ReadApi :=
  { api with requests := Function.update api.requests request phase }

@[simp] theorem ReadApi.enter_worker (api : ReadApi) (request : ℕ) (phase : RequestPhase) :
    (api.enter request phase).worker = api.worker := rfl

@[simp] theorem ReadApi.enter_events (api : ReadApi) (request : ℕ) (phase : RequestPhase) :
    (api.enter request phase).events = api.events := rfl

@[simp] theorem ReadApi.enter_requests (api : ReadApi) (request request' : ℕ)
    (phase : RequestPhase) :
    (api.enter request phase).requests request' =
      if request' = request then phase else api.requests request' := by
  simp [enter, Function.update_apply]

/-- A request that is in another phase than the one entered was in it before. -/
theorem ReadApi.requests_of_enter {api : ReadApi} {request request' : ℕ}
    {phase phase' : RequestPhase} (h : (api.enter request phase).requests request' = phase')
    (hother : phase ≠ phase') : request' ≠ request ∧ api.requests request' = phase' := by
  rw [enter_requests] at h
  split at h
  · exact absurd h hother
  · rename_i hne
    exact ⟨hne, h⟩

/-- The steps of the worker and of the requests. -/
inductive ReadAction
  | work (call : Call) (reply : Reply)
  | load (request : ℕ)
  | assign (request : ℕ)
  | read (request : ℕ)

section Steps

variable [CharacterTables] (asks : ℕ → Query)

/-- One step.  `asks` is the query of each request; a load that raises ends its
request. -/
inductive ReadStep : ReadApi → ReadAction → ReadApi → Prop
  | work (api : ReadApi) {call : Call} {reply : Reply} {worker' : System}
      (hstep : Step api.worker call reply worker') :
      ReadStep api (.work call reply) { api with worker := worker' }
  | load (api : ReadApi) (request : ℕ) {state : PersistedEventState}
      (hphase : api.requests request = .arrived)
      (hload : api.worker.db.LoadsState api.worker.db (.ok state)) :
      ReadStep api (.load request) (api.enter request (.loaded state))
  | loadRaises (api : ReadApi) (request : ℕ) {error : LoadError}
      (hphase : api.requests request = .arrived)
      (hload : api.worker.db.LoadsState api.worker.db (.error error)) :
      ReadStep api (.load request) (api.enter request (.failed error))
  | assign (api : ReadApi) (request : ℕ) {state : PersistedEventState}
      (hphase : api.requests request = .loaded state) :
      ReadStep api (.assign request)
        { api.enter request .refreshed with events := .ofState state }
  | read (api : ReadApi) (request : ℕ) (hphase : api.requests request = .refreshed) :
      ReadStep api (.read request)
        (api.enter request (.answered (api.events.answer (asks request))))

end Steps

/-- The tables each request has loaded, and those whose indexes are served. -/
structure Views where
  loaded : ℕ → Option EventDb
  served : EventDb

/-- What a move changes about the views. -/
def Views.next (views : Views) (move : Move ReadApi ReadAction) : Views :=
  match move.action with
  | .load request =>
      { views with loaded := Function.update views.loaded request (some move.before.worker.db) }
  | .assign request => { views with served := (views.loaded request).getD views.served }
  | _ => views

/-- The views after a run of a process started over the tables `db`. -/
def viewsAfter (db : EventDb) (moves : List (Move ReadApi ReadAction)) : Views :=
  moves.foldl Views.next ⟨fun _ => none, db⟩

/-- What the worker was called with in a run, and what it replied. -/
def workerEntries (moves : List (Move ReadApi ReadAction)) : List (Call × Reply) :=
  moves.filterMap (fun move =>
    match move.action with
    | .work call reply => some (call, reply)
    | _ => none)

/-- The answer shows every asked-for event in a version at least as new as any
in the tables. -/
def Reflects (db : EventDb) (query : Query) (answer : Answer) : Prop :=
  ∀ key ∈ db.events.keys, query.Concerns key.1 →
    ∃ event ∈ answer.shown, event.eventId = key.1 ∧ key.2 ≤ event.eventVersion

instance (db : EventDb) (query : Query) (answer : Answer) :
    Decidable (Reflects db query answer) := by
  unfold Reflects; infer_instance

/-- The tables served hold every version of the asked-for events that the
tables `own` hold. -/
def Covers (served own : EventDb) (query : Query) : Prop :=
  ∀ key ∈ own.events.keys, query.Concerns key.1 → key ∈ served.events.keys

/-- Each answer of a run reflects the snapshot its own request has loaded. -/
def AlwaysReflects (asks : ℕ → Query) (db : EventDb)
    (moves : List (Move ReadApi ReadAction)) : Prop :=
  ∀ earlier move later request own answer, moves = earlier ++ move :: later →
    move.action = .read request → (viewsAfter db earlier).loaded request = some own →
    move.after.requests request = .answered answer → Reflects own (asks request) answer

/-- Each read of a run reads indexes that cover the snapshot of its request. -/
def NeverOvertaken (asks : ℕ → Query) (db : EventDb)
    (moves : List (Move ReadApi ReadAction)) : Prop :=
  ∀ earlier move later request own, moves = earlier ++ move :: later →
    move.action = .read request → (viewsAfter db earlier).loaded request = some own →
    Covers (viewsAfter db earlier).served own (asks request)

/-- An event a completed request has shown is shown in no older version by a
request that starts afterwards and asks for it. -/
def NeverBack (asks : ℕ → Query) (moves : List (Move ReadApi ReadAction)) : Prop :=
  ∀ earlier first between load between' second later request request' answer answer',
    moves = earlier ++ first :: (between ++ load :: (between' ++ second :: later)) →
    first.action = .read request → first.after.requests request = .answered answer →
    load.action = .load request' →
    second.action = .read request' → second.after.requests request' = .answered answer' →
    ∀ event ∈ answer.shown, (asks request').Concerns event.eventId →
      ∃ event' ∈ answer'.shown, event'.eventId = event.eventId ∧
        event.eventVersion ≤ event'.eventVersion

theorem NeverOvertaken.nil {asks : ℕ → Query} {db : EventDb} : NeverOvertaken asks db [] := by
  intro earlier move later request own hmoves
  simp at hmoves

/-- A run of one more move, which is not a read or reads what its request covers. -/
theorem NeverOvertaken.snoc {asks : ℕ → Query} {db : EventDb} {move : Move ReadApi ReadAction}
    {moves : List (Move ReadApi ReadAction)} (h : NeverOvertaken asks db moves)
    (hcovers : ∀ request own, move.action = .read request →
      (viewsAfter db moves).loaded request = some own →
      Covers (viewsAfter db moves).served own (asks request)) :
    NeverOvertaken asks db (moves ++ [move]) := by
  intro earlier move' later request own hmoves haction hown
  rcases List.eq_nil_or_concat later with rfl | ⟨later, last, rfl⟩
  · obtain ⟨rfl, hmove⟩ := List.append_inj' hmoves rfl
    obtain rfl := List.singleton_inj.mp hmove
    exact hcovers request own haction hown
  · rw [List.concat_eq_append, ← List.cons_append, ← List.append_assoc] at hmoves
    obtain ⟨rfl, -⟩ := List.append_inj' hmoves rfl
    exact h earlier move' later request own rfl haction hown

/-- Moves that are no reads do not count. -/
theorem NeverOvertaken.append {asks : ℕ → Query} {db : EventDb}
    {moves more : List (Move ReadApi ReadAction)} (h : NeverOvertaken asks db moves)
    (hother : ∀ move ∈ more, ∀ request, move.action ≠ .read request) :
    NeverOvertaken asks db (moves ++ more) := by
  induction more using List.reverseRecOn with
  | nil => rwa [List.append_nil]
  | append_singleton more move ih =>
      rw [← List.append_assoc]
      refine (ih (fun other hmem => hother other (List.mem_append_left _ hmem))).snoc ?_
      intro request own haction hown
      exact absurd haction (hother move (List.mem_append_right _ List.mem_cons_self) request)

section Answers

variable {service : EventService} {log : List Commit}

/-- An answer shows the asked-for events in memory. -/
theorem Represents.mem_shown (h : Represents service log) {query : Query}
    {event : CanonicalEvent} :
    event ∈ (service.answer query).shown ↔
      service.events.get? event.eventId = some event ∧ query.Concerns event.eventId := by
  cases query with
  | listEvents =>
      show event ∈ sortedByDesc _ service.events.values ↔ _ ∧ True
      rw [mem_sortedByDesc, InsertionDict.mem_values_iff_get?, and_true]
      constructor
      · intro hex
        obtain ⟨id, hget⟩ := hex
        rw [h.eventId_eq hget]
        exact hget
      · intro hget
        exact ⟨event.eventId, hget⟩
  | getEvent eventId =>
      show event ∈ (service.events.get? eventId).toList ↔ _ ∧ event.eventId = eventId
      rw [Option.mem_toList]
      constructor
      · intro hget
        have hid := h.eventId_eq hget
        rw [hid]
        exact ⟨hget, rfl⟩
      · intro hand
        obtain ⟨hget, hid⟩ := hand
        rwa [hid] at hget

/-- **Freshness of an answer.**  Read from indexes of the tables `served`, it
reflects the tables `own` exactly when these are covered. -/
theorem Represents.reflects_iff_covers {served own : EventDb} {ownLog : List Commit}
    (h : Represents service log) (hgrown : Grown log) (hserved : Stores served log)
    (hownGrown : Grown ownLog) (hown : Stores own ownLog) (query : Query) :
    Reflects own query (service.answer query) ↔ Covers served own query := by
  constructor
  · intro hreflects key hkey hconcerns
    obtain ⟨event, hshown, hid, hversion⟩ := hreflects key hkey hconcerns
    obtain ⟨hget, -⟩ := h.mem_shown.mp hshown
    obtain ⟨last, hlatest, hsame, -⟩ := h.events_latest _ _ hget
    obtain ⟨commit, hmem, -, hnumber⟩ := hown.mem_events_keys.mp hkey
    have hpos := (hownGrown.numbered.number_bounds hmem).1
    have hcount : event.eventVersion = _ :=
      hsame.eventVersion_eq.trans (hgrown.numbered.number_latest hlatest)
    obtain ⟨commit', hmem', hid', hnumber'⟩ := hgrown.numbered.exists_number
      (k := event.eventId) (v := key.2) (by omega) (by omega)
    exact hserved.mem_events_keys.mpr ⟨commit', hmem', hid'.trans hid, hnumber'⟩
  · intro hcovers key hkey hconcerns
    obtain ⟨commit, hmem, hid, hnumber⟩ :=
      hserved.mem_events_keys.mp (hcovers key hkey hconcerns)
    have hle := (hgrown.numbered.number_bounds hmem).2
    cases hlatest : latest Commit.eventId log key.1 with
    | none => exact absurd hid (latest_eq_none_iff.mp hlatest commit hmem)
    | some last =>
        obtain ⟨event, hget⟩ := h.events_complete _ last hlatest
        have heventId := h.eventId_eq hget
        obtain ⟨last', hlatest', hsame, -⟩ := h.events_latest _ _ hget
        have hcount := hsame.eventVersion_eq.trans (hgrown.numbered.number_latest hlatest')
        refine ⟨event, h.mem_shown.mpr ⟨by rwa [heventId], by rwa [heventId]⟩, heventId, ?_⟩
        have hnumber' : Commit.version commit = key.2 := hnumber
        rw [hid] at hle
        omega

end Answers

/-- Tables that stored the first commits of a history. -/
structure PastTables (db : EventDb) (old log : List Commit) : Prop where
  earlier : old <+: log
  grown : Grown old
  keys : KeysDistinct old
  stores : Stores db old

/-- The state was loaded from such tables. -/
def Snapshot (db : EventDb) (state : PersistedEventState) (log : List Commit) : Prop :=
  ∃ old, PastTables db old log ∧ LoadedFrom state old old

theorem Snapshot.later {db : EventDb} {state : PersistedEventState} {log : List Commit}
    (h : Snapshot db state log) (rest : List Commit) : Snapshot db state (log ++ rest) := by
  obtain ⟨old, hpast, hloaded⟩ := h
  exact ⟨old, { hpast with earlier := hpast.earlier.trans (List.prefix_append _ _) }, hloaded⟩

/-- The versions of such tables are commits of the history. -/
theorem PastTables.keys_subset {db db' : EventDb} {old log : List Commit}
    (h : PastTables db old log) (hstores : Stores db' log) : db.events.keys ⊆ db'.events.keys := by
  intro key hkey
  obtain ⟨commit, hmem, hid, hversion⟩ := h.stores.mem_events_keys.mp hkey
  exact hstores.mem_events_keys.mpr ⟨commit, h.earlier.subset hmem, hid, hversion⟩

/-- A load of consistent tables succeeds and takes a snapshot of them. -/
theorem Consistent.snapshot {system : System} {log : List Commit} (h : Consistent system log)
    {result : Except LoadError PersistedEventState}
    (hload : system.db.LoadsState system.db result) :
    ∃ state, result = .ok state ∧ Snapshot system.db state log := by
  obtain ⟨state, rfl, hloaded⟩ := h.stores.loadState_spec h.grown h.stores hload
  exact ⟨state, rfl, log, ⟨List.prefix_refl _, h.grown, h.keys, h.stores⟩, hloaded⟩

/-- Where the loaded, the refreshed and the served state of a process come
from. -/
structure Traced (api : ReadApi) (views : Views) (log : List Commit) : Prop where
  consistent : Consistent api.worker log
  loaded : ∀ request state, api.requests request = .loaded state →
    ∃ own, views.loaded request = some own ∧ Snapshot own state log
  refreshed : ∀ request, api.requests request = .refreshed →
    ∃ own state, views.loaded request = some own ∧ Snapshot own state log
  served : ∃ state, api.events = .ofState state ∧ Snapshot views.served state log

@[simp] theorem viewsAfter_nil (db : EventDb) : viewsAfter db [] = ⟨fun _ => none, db⟩ := rfl

theorem viewsAfter_snoc (db : EventDb) (moves : List (Move ReadApi ReadAction))
    (move : Move ReadApi ReadAction) :
    viewsAfter db (moves ++ [move]) = (viewsAfter db moves).next move := by
  rw [viewsAfter, List.foldl_append]
  rfl

theorem workerEntries_snoc (moves : List (Move ReadApi ReadAction))
    (move : Move ReadApi ReadAction) :
    workerEntries (moves ++ [move]) = workerEntries moves ++ workerEntries [move] :=
  List.filterMap_append

section Runs

variable [CharacterTables] {asks : ℕ → Query}

/-- **Step lemma.**  Every step keeps its states traced. -/
theorem Traced.step {api api' : ReadApi} {action : ReadAction} {views : Views}
    {log : List Commit} (h : Traced api views log) (hstep : ReadStep asks api action api')
    (hids : IdsIdentify (log.map Commit.envelope ++
      envelopesOf (workerEntries [⟨api, action, api'⟩]))) :
    ∃ rest, Traced api' (views.next ⟨api, action, api'⟩) (log ++ rest) ∧
      Accounts log rest (workerEntries [⟨api, action, api'⟩]) := by
  cases hstep with
  | @work call reply worker' hstep =>
      obtain ⟨rest, hconsistent, haccounts⟩ := h.consistent.step hstep hids
      refine ⟨rest, ⟨hconsistent, ?_, ?_, ?_⟩, haccounts⟩
      · intro request state hphase
        obtain ⟨own, hown, hsnapshot⟩ := h.loaded request state hphase
        exact ⟨own, hown, hsnapshot.later rest⟩
      · intro request hphase
        obtain ⟨own, state, hown, hsnapshot⟩ := h.refreshed request hphase
        exact ⟨own, state, hown, hsnapshot.later rest⟩
      · obtain ⟨state, hevents, hsnapshot⟩ := h.served
        exact ⟨state, hevents, hsnapshot.later rest⟩
  | @load request state hphase hload =>
      refine ⟨[], ?_, Accounts.nil log⟩
      rw [List.append_nil]
      obtain ⟨state', heq, hsnapshot⟩ := h.consistent.snapshot hload
      obtain rfl := Except.ok.inj heq
      refine ⟨h.consistent, ?_, ?_, h.served⟩
      · intro request' state' hphase'
        by_cases hsame : request' = request
        · subst hsame
          obtain rfl : state = state' := by simpa using hphase'
          exact ⟨api.worker.db, by simp [Views.next], hsnapshot⟩
        · obtain ⟨own, hown, hsnapshot'⟩ := h.loaded request' state'
            (by simpa [hsame] using hphase')
          exact ⟨own, by simpa [Views.next, hsame] using hown, hsnapshot'⟩
      · intro request' hphase'
        obtain ⟨hne, hbefore⟩ := ReadApi.requests_of_enter hphase' (by simp)
        obtain ⟨own, state', hown, hsnapshot'⟩ := h.refreshed request' hbefore
        exact ⟨own, state', by simpa [Views.next, hne] using hown, hsnapshot'⟩
  | @loadRaises request error hphase hload =>
      obtain ⟨state, heq, -⟩ := h.consistent.snapshot hload
      exact absurd heq (by simp)
  | @assign request state hphase =>
      refine ⟨[], ?_, Accounts.nil log⟩
      rw [List.append_nil]
      obtain ⟨own, hown, hsnapshot⟩ := h.loaded request state hphase
      refine ⟨h.consistent, ?_, ?_, state, rfl, by simpa [Views.next, hown] using hsnapshot⟩
      · intro request' state' hphase'
        exact h.loaded request' state' (ReadApi.requests_of_enter hphase' (by simp)).2
      · intro request' hphase'
        by_cases hsame : request' = request
        · subst hsame
          exact ⟨own, state, hown, hsnapshot⟩
        · exact h.refreshed request' (by simpa [hsame] using hphase')
  | @read request hphase =>
      refine ⟨[], ?_, Accounts.nil log⟩
      rw [List.append_nil]
      refine ⟨h.consistent, ?_, ?_, h.served⟩
      · intro request' state' hphase'
        exact h.loaded request' state' (ReadApi.requests_of_enter hphase' (by simp)).2
      · intro request' hphase'
        exact h.refreshed request' (ReadApi.requests_of_enter hphase' (by simp)).2

/-- **Run lemma.** -/
theorem Traced.run {api api' : ReadApi} {log : List Commit}
    {moves : List (Move ReadApi ReadAction)} {db : EventDb}
    (h : Traced api (viewsAfter db []) log) (hrun : Run (ReadStep asks) api moves api')
    (hids : IdsIdentify (log.map Commit.envelope ++ envelopesOf (workerEntries moves))) :
    ∃ rest, Traced api' (viewsAfter db moves) (log ++ rest) ∧
      Accounts log rest (workerEntries moves) := by
  induction hrun with
  | nil => exact ⟨[], by simpa using h, Accounts.nil log⟩
  | @snoc moves api' api'' action hrun hstep ih =>
      rw [workerEntries_snoc, envelopesOf_append] at hids
      obtain ⟨rest, htraced, haccounts⟩ := ih hids.handed
      obtain ⟨more, htraced', haccounts'⟩ :=
        htraced.step hstep (hids.advance haccounts.envelopes_subset)
      rw [viewsAfter_snoc, workerEntries_snoc]
      exact ⟨rest ++ more, by rwa [← List.append_assoc], haccounts.append haccounts'⟩

/-- A read enters the answer read from the indexes of the moment. -/
theorem ReadStep.read_answer {api api' : ReadApi} {request : ℕ} {answer : Answer}
    (hstep : ReadStep asks api (.read request) api')
    (hanswer : api'.requests request = .answered answer) :
    api.requests request = .refreshed ∧ answer = api.events.answer (asks request) := by
  cases hstep with
  | read _ hphase =>
      refine ⟨hphase, ?_⟩
      symm
      simpa using hanswer

/-- A read answers. -/
theorem ReadStep.answered {api api' : ReadApi} {request : ℕ}
    (hstep : ReadStep asks api (.read request) api') :
    ∃ answer, api'.requests request = .answered answer := by
  cases hstep with
  | read => exact ⟨api.events.answer (asks request), by simp⟩

/-- **Read lemma.**  A traced read answers from the tables served, and its
request has loaded tables of the history. -/
theorem Traced.read {api api' : ReadApi} {views : Views} {log : List Commit} {request : ℕ}
    {answer : Answer} (h : Traced api views log)
    (hstep : ReadStep asks api (.read request) api')
    (hanswer : api'.requests request = .answered answer) :
    ∃ own, views.loaded request = some own ∧
      (Reflects own (asks request) answer ↔ Covers views.served own (asks request)) ∧
      ∀ event ∈ answer.shown,
        (event.eventId, event.eventVersion) ∈ api.worker.db.events.keys := by
  obtain ⟨hphase, rfl⟩ := hstep.read_answer hanswer
  obtain ⟨own, -, hown, ownLog, hownPast, -⟩ := h.refreshed request hphase
  obtain ⟨state, hevents, servedLog, hpast, hloaded⟩ := h.served
  have hrepresents := hloaded.represents hpast.grown hpast.keys
  rw [hevents]
  refine ⟨own, hown, ?_, ?_⟩
  · exact hrepresents.reflects_iff_covers hpast.grown hpast.stores hownPast.grown
      hownPast.stores (asks request)
  · intro event hshown
    obtain ⟨hget, -⟩ := hrepresents.mem_shown.mp hshown
    obtain ⟨latest, hlatest, hsame, -⟩ := hrepresents.events_latest _ _ hget
    obtain ⟨hmem, hid⟩ := latest_mem hlatest
    refine hpast.keys_subset h.consistent.stores (hpast.stores.mem_events_keys.mpr ?_)
    exact ⟨latest, hmem, hid, hsame.eventVersion_eq.symm⟩

/-- Calls of the worker lose no version. -/
theorem Step.keys_subset {system system' : System} {call : Call} {reply : Reply}
    (hstep : Step system call reply system') :
    system.db.events.keys ⊆ system'.db.events.keys := by
  cases hstep with
  | ingest envelope newId fault =>
      rcases system.ingest_cases envelope newId fault with hsame |
        ⟨event, current, -, hwrite⟩
      · rw [hsame]
        exact List.Subset.refl _
      · rw [hwrite]
        intro key hkey
        exact InsertionDict.mem_keys_set.mpr (Or.inr hkey)
  | refresh => exact List.Subset.refl _
  | refreshRaises => exact List.Subset.refl _
  | restart => exact List.Subset.refl _
  | getEventVersion => exact List.Subset.refl _

theorem ReadStep.keys_subset {api api' : ReadApi} {action : ReadAction}
    (hstep : ReadStep asks api action api') :
    api.worker.db.events.keys ⊆ api'.worker.db.events.keys := by
  cases hstep with
  | work hstep => exact hstep.keys_subset
  | load => exact List.Subset.refl _
  | loadRaises => exact List.Subset.refl _
  | assign => exact List.Subset.refl _
  | read => exact List.Subset.refl _

/-- A run loses no version. -/
theorem keys_subset_run {api api' : ReadApi} {moves : List (Move ReadApi ReadAction)}
    (hrun : Run (ReadStep asks) api moves api') :
    api.worker.db.events.keys ⊆ api'.worker.db.events.keys :=
  hrun.keeps (P := fun reached => api.worker.db.events.keys ⊆ reached.worker.db.events.keys)
    (fun _ _ _ hsubset hstep => List.Subset.trans hsubset hstep.keys_subset)
    (List.Subset.refl _)

/-- A request loads once: no step takes it back to its arrival, and none but a
load changes what it has loaded. -/
theorem ReadStep.loaded_stable {api api' : ReadApi} {action : ReadAction} {request : ℕ}
    (hstep : ReadStep asks api action api') (views : Views)
    (hphase : api.requests request ≠ .arrived) :
    api'.requests request ≠ .arrived ∧
      (views.next ⟨api, action, api'⟩).loaded request = views.loaded request := by
  cases hstep with
  | work => exact ⟨hphase, rfl⟩
  | load request' harrived =>
      have hother : request ≠ request' := fun heq => hphase (heq ▸ harrived)
      exact ⟨by simpa [hother] using hphase, by simp [Views.next, hother]⟩
  | loadRaises request' harrived =>
      have hother : request ≠ request' := fun heq => hphase (heq ▸ harrived)
      exact ⟨by simpa [hother] using hphase, by simp [Views.next, hother]⟩
  | assign request' =>
      refine ⟨?_, rfl⟩
      by_cases hsame : request = request'
      · simp [hsame]
      · simpa [hsame] using hphase
  | read request' =>
      refine ⟨?_, rfl⟩
      by_cases hsame : request = request'
      · simp [hsame]
      · simpa [hsame] using hphase

/-- What a request has loaded stays what it was through the rest of a run. -/
theorem loaded_stable_run {api api' : ReadApi} {request : ℕ} {db : EventDb}
    {earlier moves : List (Move ReadApi ReadAction)}
    (hrun : Run (ReadStep asks) api moves api') (hphase : api.requests request ≠ .arrived) :
    api'.requests request ≠ .arrived ∧
      (viewsAfter db (earlier ++ moves)).loaded request =
        (viewsAfter db earlier).loaded request := by
  induction hrun with
  | nil => exact ⟨hphase, by rw [List.append_nil]⟩
  | @snoc moves api' api'' action hrun hstep ih =>
      obtain ⟨hphase', hloaded⟩ := ih
      obtain ⟨hphase'', hsame⟩ :=
        hstep.loaded_stable (viewsAfter db (earlier ++ moves)) hphase'
      refine ⟨hphase'', ?_⟩
      rw [← List.append_assoc, viewsAfter_snoc, hsame, hloaded]

/-- After its load, a request has loaded the tables of that moment. -/
theorem loaded_after_load {api api' api'' : ReadApi} {request : ℕ} (db : EventDb)
    (earlier : List (Move ReadApi ReadAction)) {moves : List (Move ReadApi ReadAction)}
    (hstep : ReadStep asks api (.load request) api') (hrun : Run (ReadStep asks) api' moves api'') :
    (viewsAfter db (earlier ++ ⟨api, .load request, api'⟩ :: moves)).loaded request =
      some api.worker.db := by
  have hphase : api'.requests request ≠ .arrived := by
    cases hstep <;> simp
  rw [List.append_cons, (loaded_stable_run hrun hphase).2, viewsAfter_snoc]
  simp only [Views.next, Function.update_self]

omit [CharacterTables] in
/-- A process over a consistent database starts traced. -/
theorem traced_started {worker : System} {log : List Commit} (h : Consistent worker log)
    {state : PersistedEventState} (hload : worker.db.LoadsState worker.db (.ok state)) :
    Traced (ReadApi.started worker state) (viewsAfter worker.db []) log := by
  obtain ⟨state', heq, hsnapshot⟩ := h.snapshot hload
  obtain rfl := Except.ok.inj heq
  exact ⟨h, fun _ _ hphase => absurd hphase (by simp [ReadApi.started]),
    fun _ hphase => absurd hphase (by simp [ReadApi.started]), state, rfl, hsnapshot⟩

/-- Every move of a run starts traced. -/
theorem traced_before {entries : List (Call × Reply)} {worker : System}
    (hworker : Trace System.start entries worker) {state : PersistedEventState}
    (hload : worker.db.LoadsState worker.db (.ok state))
    {earlier later : List (Move ReadApi ReadAction)} {move : Move ReadApi ReadAction}
    {last : ReadApi}
    (hrun : Run (ReadStep asks) (ReadApi.started worker state) (earlier ++ move :: later) last)
    (hids : IdsIdentify (envelopesOf entries ++
      envelopesOf (workerEntries (earlier ++ move :: later)))) :
    (∃ log, Traced move.before (viewsAfter worker.db earlier) log) ∧
      ReadStep asks move.before move.action move.after ∧
      Run (ReadStep asks) move.after later last := by
  obtain ⟨hearlier, hstep, hlater⟩ := hrun.at_move
  have hsub : workerEntries earlier ⊆ workerEntries (earlier ++ move :: later) :=
    List.filterMap_subset _ (List.subset_append_left _ _)
  obtain ⟨log, hconsistent, haccounts⟩ :=
    hworker.consistent (hids.mono (List.subset_append_left _ _))
  have htraced := traced_started hconsistent hload
  obtain ⟨rest, htraced', -⟩ := htraced.run hearlier (hids.mono (by
    refine List.append_subset.mpr ⟨?_, ?_⟩
    · exact List.Subset.trans haccounts.envelopes_subset (List.subset_append_left _ _)
    · exact List.Subset.trans (List.filterMap_subset _ hsub) (List.subset_append_right _ _)))
  exact ⟨⟨_, htraced'⟩, hstep, hlater⟩

/-- **Fresh reads.**  In every run of the requests of a process with each other
and with the ingestion worker, all answers reflect the snapshots of their own
requests exactly when no read is overtaken.  Then no request goes back behind
what a completed one has shown. -/
theorem reads_reflect {entries : List (Call × Reply)} {worker : System}
    (hworker : Trace System.start entries worker) {state : PersistedEventState}
    (hload : worker.db.LoadsState worker.db (.ok state))
    {moves : List (Move ReadApi ReadAction)} {last : ReadApi}
    (hrun : Run (ReadStep asks) (ReadApi.started worker state) moves last)
    (hids : IdsIdentify (envelopesOf entries ++ envelopesOf (workerEntries moves))) :
    (AlwaysReflects asks worker.db moves ↔ NeverOvertaken asks worker.db moves) ∧
    (NeverOvertaken asks worker.db moves → NeverBack asks moves) := by
  refine ⟨⟨?_, ?_⟩, ?_⟩
  · intro hreflects earlier move later request own hmoves haction hown
    subst hmoves
    obtain ⟨⟨log, htraced⟩, hstep, -⟩ := traced_before hworker hload hrun hids
    rw [haction] at hstep
    obtain ⟨answer, hanswer⟩ := hstep.answered
    obtain ⟨own', hown', hiff, -⟩ := htraced.read hstep hanswer
    obtain rfl : own' = own := Option.some.inj (hown'.symm.trans hown)
    exact hiff.mp (hreflects earlier move later request _ answer rfl haction hown hanswer)
  · intro hcovers earlier move later request own answer hmoves haction hown hanswer
    subst hmoves
    obtain ⟨⟨log, htraced⟩, hstep, -⟩ := traced_before hworker hload hrun hids
    rw [haction] at hstep
    obtain ⟨own', hown', hiff, -⟩ := htraced.read hstep hanswer
    obtain rfl : own' = own := Option.some.inj (hown'.symm.trans hown)
    exact hiff.mpr (hcovers earlier move later request _ rfl haction hown)
  · intro hcovers earlier first between load between' second later request request' answer
      answer' hmoves hfirst hanswer hloads hsecond hanswer' event hshown hconcerns
    subst hmoves
    -- what the first answer showed was in the tables then
    obtain ⟨⟨log, htraced⟩, hstep, hrest⟩ := traced_before hworker hload hrun hids
    rw [hfirst] at hstep
    obtain ⟨-, -, -, hkeys⟩ := htraced.read hstep hanswer
    -- and so it was in the tables the second request loaded
    obtain ⟨hbetween, hloadStep, hrest'⟩ := hrest.at_move
    have hkey : (event.eventId, event.eventVersion) ∈ load.before.worker.db.events.keys :=
      keys_subset_run hbetween (hstep.keys_subset (hkeys event hshown))
    obtain ⟨hbetween', -, -⟩ := hrest'.at_move
    rw [hloads] at hloadStep
    have hloaded := loaded_after_load worker.db (earlier ++ first :: between) hloadStep hbetween'
    have hmoves : earlier ++ first :: (between ++ load :: (between' ++ second :: later)) =
        (earlier ++ first :: between ++ load :: between') ++ second :: later := by simp
    rw [hmoves] at hrun hids hcovers
    obtain ⟨⟨log', htraced'⟩, hstep', -⟩ := traced_before hworker hload hrun hids
    rw [hsecond] at hstep'
    obtain ⟨own, hown, hiff, -⟩ := htraced'.read hstep' hanswer'
    have hload' : (⟨load.before, .load request', load.after⟩ : Move ReadApi ReadAction) = load :=
      by rw [← hloads]
    rw [hload', hown] at hloaded
    obtain rfl := Option.some.inj hloaded
    exact hiff.mpr (hcovers _ second later request' _ rfl hsecond hown) _ hkey hconcerns

end Runs

section Sample

/-- What a load reads that meets the rows in the order of the tables. -/
def EventDb.tableState (db : EventDb) : PersistedEventState :=
  (loadState db.latestEventRows db.joinedRows).toOption.getD {}

theorem EventDb.loadsState_tableState (db : EventDb)
    (h : (loadState db.latestEventRows db.joinedRows).toOption ≠ none) :
    db.LoadsState db (.ok db.tableState) := by
  have hload := EventDb.loadsState_tableOrder db db
  unfold EventDb.tableState
  cases hresult : loadState db.latestEventRows db.joinedRows with
  | error error => exact absurd (by rw [hresult]; rfl) h
  | ok state =>
      rw [hresult] at hload
      exact hload

/-- The item the worker saves while the requests are under way. -/
@[reducible] def readItem : RawEnvelope := testItem 1 (some "a") "first" 50 60

/-- The worker after it. -/
@[reducible] def readWorker : System :=
  letI := asciiTables
  (System.start.ingest readItem 7 false).2

@[reducible] def readReply : Reply :=
  letI := asciiTables
  .ingested (System.start.ingest readItem 7 false).1

/-- The state before and after the save. -/
@[reducible] def oldState : PersistedEventState := System.start.db.tableState

@[reducible] def newState : PersistedEventState := readWorker.db.tableState

/-- A refresh of one request. -/
def ReadApi.assigned (api : ReadApi) (request : ℕ) (state : PersistedEventState) : ReadApi :=
  { api.enter request .refreshed with events := .ofState state }

/-- A read of the event list. -/
def ReadApi.listed (api : ReadApi) (request : ℕ) : ReadApi :=
  api.enter request (.answered (api.events.answer .listEvents))

/-- A process that has loaded a first request, with the save after it. -/
@[reducible] def firstLoaded : ReadApi := (ReadApi.started System.start oldState).enter 0
  (.loaded oldState)

@[reducible] def afterSave : ReadApi := { firstLoaded with worker := readWorker }

/-- Request 1 runs to its end, and request 2 up to its assignment. -/
@[reducible] def secondLoaded : ReadApi := afterSave.enter 1 (.loaded newState)

@[reducible] def secondAssigned : ReadApi := secondLoaded.assigned 1 newState

@[reducible] def secondListed : ReadApi := secondAssigned.listed 1

@[reducible] def thirdLoaded : ReadApi := secondListed.enter 2 (.loaded newState)

@[reducible] def thirdAssigned : ReadApi := thirdLoaded.assigned 2 newState

/-- Request 0 assigns what it loaded before the save. -/
@[reducible] def firstAssigned : ReadApi := thirdAssigned.assigned 0 oldState

@[reducible] def thirdListed : ReadApi := firstAssigned.listed 2

/-- The moves up to the answer of request 1. -/
@[reducible] def saveMoves : List (Move ReadApi ReadAction) :=
  [⟨ReadApi.started System.start oldState, .load 0, firstLoaded⟩,
    ⟨firstLoaded, .work (.ingest readItem 7 false) readReply, afterSave⟩,
    ⟨afterSave, .load 1, secondLoaded⟩, ⟨secondLoaded, .assign 1, secondAssigned⟩]

@[reducible] def secondMove : Move ReadApi ReadAction := ⟨secondAssigned, .read 1, secondListed⟩

@[reducible] def thirdLoad : Move ReadApi ReadAction := ⟨secondListed, .load 2, thirdLoaded⟩

@[reducible] def assignMoves : List (Move ReadApi ReadAction) :=
  [⟨thirdLoaded, .assign 2, thirdAssigned⟩, ⟨thirdAssigned, .assign 0, firstAssigned⟩]

@[reducible] def thirdMove : Move ReadApi ReadAction := ⟨firstAssigned, .read 2, thirdListed⟩

theorem loads_oldState : System.start.db.LoadsState System.start.db (.ok oldState) :=
  EventDb.loadsState_tableState _ (by decide +kernel)

theorem loads_newState : readWorker.db.LoadsState readWorker.db (.ok newState) :=
  EventDb.loadsState_tableState _ (by decide +kernel)

theorem run_secondMove :
    let := asciiTables
    Run (ReadStep (fun _ => .listEvents)) (ReadApi.started System.start oldState)
      (saveMoves ++ [secondMove]) secondListed := by
  intro
  have hfirst : Run (ReadStep (fun _ => .listEvents)) (ReadApi.started System.start oldState)
      [⟨_, .load 0, firstLoaded⟩] firstLoaded :=
    Run.nil.snoc (ReadStep.load _ 0 rfl loads_oldState)
  have hsave := hfirst.snoc (ReadStep.work firstLoaded
    (Step.ingest System.start readItem 7 false (by decide)))
  have hload := hsave.snoc (ReadStep.load afterSave 1 rfl loads_newState)
  have hassign := hload.snoc (ReadStep.assign secondLoaded 1 rfl)
  exact hassign.snoc (ReadStep.read secondAssigned 1 rfl)

theorem run_thirdMove :
    let := asciiTables
    Run (ReadStep (fun _ => .listEvents)) (ReadApi.started System.start oldState)
      (saveMoves ++ secondMove :: ([] ++ thirdLoad :: (assignMoves ++ thirdMove :: [])))
      thirdListed := by
  intro
  have hload := run_secondMove.snoc (ReadStep.load secondListed 2 rfl loads_newState)
  have hassign := hload.snoc (ReadStep.assign thirdLoaded 2 rfl)
  have hover := hassign.snoc (ReadStep.assign thirdAssigned 0 rfl)
  exact hover.snoc (ReadStep.read firstAssigned 2 rfl)

/-- Request 1 shows the saved event.  Request 2 starts afterwards, loads it, and
answers an empty list, because request 0 assigns its older snapshot between. -/
theorem read_overtaken :
    let := asciiTables
    ∃ moves last, Run (ReadStep (fun _ => .listEvents)) (ReadApi.started System.start oldState)
        moves last ∧ IdsIdentify (envelopesOf (workerEntries moves)) ∧
      ¬ AlwaysReflects (fun _ => .listEvents) System.start.db moves ∧
      ¬ NeverBack (fun _ => .listEvents) moves := by
  intro
  refine ⟨_, _, run_thirdMove, idsIdentify_of_nodup (by decide), ?_, ?_⟩
  · intro hreflects
    have hanswer := hreflects (saveMoves ++ secondMove :: thirdLoad :: assignMoves) thirdMove []
      2 readWorker.db ((EventService.ofState oldState).answer .listEvents) rfl rfl rfl rfl
    exact absurd hanswer (by decide +kernel)
  · intro hback
    have hshown := hback saveMoves secondMove [] thirdLoad assignMoves thirdMove [] 1 2
      ((EventService.ofState newState).answer .listEvents)
      ((EventService.ofState oldState).answer .listEvents) rfl rfl rfl rfl rfl rfl
    exact absurd hshown (by decide +kernel)

/-- Request 2 reads what it has assigned. -/
@[reducible] def timelyMove : Move ReadApi ReadAction :=
  ⟨thirdAssigned, .read 2, thirdAssigned.listed 2⟩

/-- The moves up to the answer of request 2, without the assignment of request 0. -/
@[reducible] def timelyMoves : List (Move ReadApi ReadAction) :=
  saveMoves ++ [secondMove, thirdLoad, ⟨thirdLoaded, .assign 2, thirdAssigned⟩, timelyMove]

theorem run_timelyMoves :
    let := asciiTables
    Run (ReadStep (fun _ => .listEvents)) (ReadApi.started System.start oldState) timelyMoves
      (thirdAssigned.listed 2) := by
  intro
  have hload := run_secondMove.snoc (ReadStep.load secondListed 2 rfl loads_newState)
  have hassign := hload.snoc (ReadStep.assign thirdLoaded 2 rfl)
  exact hassign.snoc (ReadStep.read thirdAssigned 2 rfl)

/-- The events an answered request has shown, with their versions. -/
def ReadApi.shownVersions (api : ReadApi) (request : ℕ) : List (Uuid × ℕ) :=
  match api.requests request with
  | .answered answer => answer.shown.map (fun event => (event.eventId, event.eventVersion))
  | _ => []

/-- Request 2 starts after request 1 has answered, and nothing overtakes either:
both show the saved event. -/
theorem reads_reflect_second :
    let := asciiTables
    secondListed.shownVersions 1 = [(7, 1)] ∧
      (thirdAssigned.listed 2).shownVersions 2 = [(7, 1)] ∧
      AlwaysReflects (fun _ => .listEvents) System.start.db timelyMoves ∧
      NeverBack (fun _ => .listEvents) timelyMoves := by
  intro
  obtain ⟨hiff, hback⟩ := reads_reflect Trace.nil loads_oldState
    run_timelyMoves (idsIdentify_of_nodup (by decide))
  have hsave : NeverOvertaken (fun _ => .listEvents) System.start.db saveMoves :=
    NeverOvertaken.nil.append (by simp)
  have hsecond : NeverOvertaken (fun _ => .listEvents) System.start.db
      (saveMoves ++ [secondMove]) := by
    refine hsave.snoc (fun request own haction hown => ?_)
    obtain rfl := ReadAction.read.inj haction
    obtain rfl : readWorker.db = own := Option.some.inj hown
    exact fun key hkey _ => hkey
  have hassigned : NeverOvertaken (fun _ => .listEvents) System.start.db
      (saveMoves ++ [secondMove] ++ [thirdLoad, ⟨thirdLoaded, .assign 2, thirdAssigned⟩]) :=
    hsecond.append (by simp)
  have htimely : NeverOvertaken (fun _ => .listEvents) System.start.db
      (saveMoves ++ [secondMove] ++ [thirdLoad, ⟨thirdLoaded, .assign 2, thirdAssigned⟩] ++
        [timelyMove]) := by
    refine hassigned.snoc (fun request own haction hown => ?_)
    obtain rfl := ReadAction.read.inj haction
    obtain rfl : readWorker.db = own := Option.some.inj hown
    exact fun key hkey _ => hkey
  exact ⟨by decide +kernel, by decide +kernel, hiff.mpr htimely, hback htimely⟩

end Sample

end EventAlpha
