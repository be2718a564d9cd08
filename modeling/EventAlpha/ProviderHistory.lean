import EventAlpha.MarketRepository

/-!
# The history of a provider

The state of a provider is written by `record_success` and `record_failure`,
one row a provider.  Each call either inserts that row or changes its fields
one by one.

The state is stated here from the history alone: `stateAfter` says of the
calls that returned, in their order, what the row holds.  It is carried by one
lemma for one more call, whichever of the four paths the call took, and
`providerState_attempts` puts the calls of a run together.

A call that raises is rolled back and is no part of the history.
-/

namespace EventAlpha

open MarketDb (laterMessage failureStatus)

/-- The status a text names, if it names one. -/
def ProviderStatus.ofText? (text : String) : Option ProviderStatus :=
  [healthy, degraded, unavailable].find? (fun status => status.value = text)

@[simp] theorem ProviderStatus.ofText?_value (status : ProviderStatus) :
    ofText? status.value = some status := by
  cases status <;> decide

/-- The state of a provider as it is read. -/
structure StoredMarketProviderState where
  providerId : String
  heartbeatAt : UtcDatetime
  lastMessageReceivedAt : Option UtcDatetime
  lastSuccessAt : Option UtcDatetime
  lastFailureAt : Option UtcDatetime
  consecutiveFailures : ℕ
  reconnectCount : ℕ
  status : ProviderStatus
  detail : Option String
  deriving DecidableEq

/-- A state rebuilt from its row.  A text that names no status raises. -/
def ProviderStateRow.stored (row : ProviderStateRow) : Option StoredMarketProviderState :=
  (ProviderStatus.ofText? row.status).map (fun status => {
    providerId := row.providerId
    heartbeatAt := row.heartbeatAt
    lastMessageReceivedAt := row.lastMessageReceivedAt
    lastSuccessAt := row.lastSuccessAt
    lastFailureAt := row.lastFailureAt
    consecutiveFailures := row.consecutiveFailures
    reconnectCount := row.reconnectCount
    status := status
    detail := row.detail })

/-- `provider_state`. -/
def MarketDb.providerState (db : MarketDb) (provider : String) :
    Option (Option StoredMarketProviderState) :=
  match db.providerStates.get? provider with
  | none => some none
  | some row => row.stored.map some

/-- The row a state is read from. -/
def StoredMarketProviderState.row (state : StoredMarketProviderState) : ProviderStateRow where
  providerId := state.providerId
  heartbeatAt := state.heartbeatAt
  lastMessageReceivedAt := state.lastMessageReceivedAt
  lastSuccessAt := state.lastSuccessAt
  lastFailureAt := state.lastFailureAt
  consecutiveFailures := state.consecutiveFailures
  reconnectCount := state.reconnectCount
  status := state.status.value
  detail := state.detail

@[simp] theorem StoredMarketProviderState.stored_row (state : StoredMarketProviderState) :
    state.row.stored = some state := by
  simp [ProviderStateRow.stored, row]

section Calls

/-- Which of the two methods was called, with the arguments it has alone. -/
inductive ProviderOutcome
  | success (reconnected : Bool)
  | failure (detail : String) (exhausted : Bool)
  deriving DecidableEq

/-- A call of `record_success` or `record_failure`. -/
structure ProviderCall where
  provider : String
  observedAt : UtcDatetime
  lastMessageReceivedAt : Option UtcDatetime
  outcome : ProviderOutcome
  deriving DecidableEq

/-- The tables after a call that returns. -/
def MarketDb.recorded (db : MarketDb) (call : ProviderCall) : Option MarketDb :=
  match call.outcome with
  | .success reconnected =>
      db.recordSuccess call.provider call.observedAt call.lastMessageReceivedAt reconnected
  | .failure detail exhausted =>
      db.recordFailure call.provider call.observedAt detail exhausted
        call.lastMessageReceivedAt

/-- The tables and the calls that returned so far. -/
structure ProviderRun where
  db : MarketDb
  returned : List ProviderCall

/-- One more call.  One that raises leaves the tables alone. -/
def ProviderRun.attempt (run : ProviderRun) (call : ProviderCall) : ProviderRun :=
  match run.db.recorded call with
  | some db => ⟨db, run.returned ++ [call]⟩
  | none => run

/-- A sequence of calls, for any providers. -/
def attempts (db : MarketDb) (calls : List ProviderCall) : ProviderRun :=
  calls.foldl ProviderRun.attempt ⟨db, []⟩

end Calls

section Reference

namespace ProviderCall

def succeeded (call : ProviderCall) : Bool :=
  match call.outcome with
  | .success _ => true
  | .failure _ _ => false

/-- A success that was flagged as a reconnection. -/
def reconnected (call : ProviderCall) : Bool :=
  match call.outcome with
  | .success reconnected => reconnected
  | .failure _ _ => false

/-- The status a call leaves its provider in. -/
def status (call : ProviderCall) : ProviderStatus :=
  match call.outcome with
  | .success _ => ProviderStatus.healthy
  | .failure _ true => ProviderStatus.unavailable
  | .failure _ false => ProviderStatus.degraded

/-- The detail of a failure. -/
def detail (call : ProviderCall) : Option String :=
  match call.outcome with
  | .success _ => none
  | .failure detail _ => some detail

end ProviderCall

/-- The state of a provider, from the calls that were made for it. -/
def stateAfter (calls : List ProviderCall) : Option StoredMarketProviderState :=
  calls.getLast?.map (fun last => {
    providerId := last.provider
    heartbeatAt := last.observedAt
    lastMessageReceivedAt := (calls.filterMap ProviderCall.lastMessageReceivedAt).max?
    lastSuccessAt := (calls.filter (fun call => call.succeeded)).getLast?.map
      ProviderCall.observedAt
    lastFailureAt := (calls.filter (fun call => !call.succeeded)).getLast?.map
      ProviderCall.observedAt
    consecutiveFailures := (calls.reverse.takeWhile (fun call => !call.succeeded)).length
    reconnectCount := calls.countP ProviderCall.reconnected
    status := last.status
    detail := last.detail })

end Reference

section OneCall

/-- What a call makes of the row of its provider, if there is one. -/
def ProviderCall.rowAfter (call : ProviderCall) (current : Option ProviderStateRow) :
    ProviderStateRow where
  providerId := (current.map ProviderStateRow.providerId).getD call.provider
  heartbeatAt := call.observedAt
  lastMessageReceivedAt :=
    laterMessage (current.bind ProviderStateRow.lastMessageReceivedAt) call.lastMessageReceivedAt
  lastSuccessAt :=
    if call.succeeded then some call.observedAt else current.bind ProviderStateRow.lastSuccessAt
  lastFailureAt :=
    if call.succeeded then current.bind ProviderStateRow.lastFailureAt else some call.observedAt
  consecutiveFailures :=
    if call.succeeded then 0
    else (current.map ProviderStateRow.consecutiveFailures).getD 0 + 1
  reconnectCount :=
    (current.map ProviderStateRow.reconnectCount).getD 0 + if call.reconnected then 1 else 0
  status := call.status.value
  detail := call.detail

@[simp] theorem laterMessage_none (received : Option UtcDatetime) :
    laterMessage none received = received := by
  cases received <;> rfl

/-- Either method writes one row, inserting it or changing it. -/
theorem MarketDb.recorded_eq (db : MarketDb) (call : ProviderCall) :
    db.recorded call = (db.ensureProvider call.provider call.observedAt).bind (fun db' =>
      db'.putState call.provider (call.rowAfter (db'.providerStates.get? call.provider))) := by
  obtain ⟨provider, observedAt, message, outcome⟩ := call
  cases outcome with
  | success reconnected =>
      simp only [recorded, recordSuccess, Option.bind_eq_bind]
      refine Option.bind_congr ?_
      intro db' _
      split
      · rename_i hget
        cases reconnected <;>
          simp [hget, ProviderCall.rowAfter, ProviderCall.succeeded, ProviderCall.reconnected,
            ProviderCall.status, ProviderCall.detail]
      · rename_i state hget
        cases reconnected <;>
          simp [hget, ProviderCall.rowAfter, ProviderCall.succeeded, ProviderCall.reconnected,
            ProviderCall.status, ProviderCall.detail]
  | failure detail exhausted =>
      simp only [recorded, recordFailure, Option.bind_eq_bind]
      refine Option.bind_congr ?_
      intro db' _
      split
      · rename_i hget
        cases exhausted <;>
          simp [hget, ProviderCall.rowAfter, ProviderCall.succeeded, ProviderCall.reconnected,
            ProviderCall.status, ProviderCall.detail, failureStatus]
      · rename_i state hget
        cases exhausted <;>
          simp [hget, ProviderCall.rowAfter, ProviderCall.succeeded, ProviderCall.reconnected,
            ProviderCall.status, ProviderCall.detail, failureStatus]

/-- A call that returns writes the row of its own provider and no other. -/
theorem MarketDb.providerStates_recorded {db db' : MarketDb} {call : ProviderCall}
    (h : db.recorded call = some db') :
    db'.providerStates = db.providerStates.set call.provider
      (call.rowAfter (db.providerStates.get? call.provider)) := by
  rw [recorded_eq] at h
  obtain ⟨db₁, hprovider, h⟩ := Option.bind_eq_some_iff.mp h
  obtain ⟨-, -, hstates⟩ := ensureProvider_frame hprovider
  obtain ⟨-, h⟩ := Option.ite_none_right_eq_some.mp h
  cases h
  rw [hstates]

/-- A call returns when its provider is known, or has a name the column holds,
and the new row passes the checks. -/
theorem MarketDb.recorded_isSome_iff {db : MarketDb} {call : ProviderCall} :
    (db.recorded call).isSome ↔
      (call.provider ∈ db.providers.keys ∨ call.provider.length ≤ 100) ∧
        (call.rowAfter (db.providerStates.get? call.provider)).Valid := by
  rw [recorded_eq, ensureProvider]
  split
  · rename_i row hget
    have hknown : call.provider ∈ db.providers.keys :=
      InsertionDict.mem_keys.mpr ⟨row, InsertionDict.get?_eq_some_iff.mp hget⟩
    simp [putState, hknown]
  · rename_i hget
    have hnew : call.provider ∉ db.providers.keys := InsertionDict.get?_eq_none_iff.mp hget
    by_cases hlength : call.provider.length ≤ 100
    · simp [putState, hlength]
    · simp [hnew, hlength]

/-- Another provider's state is untouched. -/
theorem MarketDb.providerState_recorded_of_ne {db db' : MarketDb} {call : ProviderCall}
    {provider : String} (hne : provider ≠ call.provider) (h : db.recorded call = some db') :
    db'.providerState provider = db.providerState provider := by
  rw [providerState, providerStates_recorded h, InsertionDict.get?_set_of_ne _ _ hne]
  rfl

/-- A saved quote leaves the states of the providers alone. -/
theorem MarketDb.providerStates_saveQuote [Digest] {db db' : MarketDb} {quote : MarketQuote}
    {inserted : Bool} (h : db.saveQuote quote = some (inserted, db')) :
    db'.providerStates = db.providerStates := by
  obtain ⟨contentHash, -, h⟩ := Option.bind_eq_some_iff.mp h
  obtain ⟨db₁, hprovider, h⟩ := Option.bind_eq_some_iff.mp h
  obtain ⟨db₂, hinstrument, h⟩ := Option.bind_eq_some_iff.mp h
  obtain ⟨-, -, hstates₁⟩ := ensureProvider_frame hprovider
  obtain ⟨-, -, hstates₂⟩ := ensureInstrument_frame hinstrument
  have hstates : db₂.providerStates = db.providerStates := hstates₂.trans hstates₁
  split at h
  · cases h
    exact hstates
  · obtain ⟨row, -, h⟩ := Option.bind_eq_some_iff.mp h
    obtain ⟨-, h⟩ := Option.ite_none_right_eq_some.mp h
    cases h
    exact hstates

/-- The latest message after one more is the later of the two. -/
theorem laterMessage_max? (messages : List UtcDatetime) (received : Option UtcDatetime) :
    laterMessage messages.max? received = (messages ++ received.toList).max? := by
  cases received with
  | none => simp [laterMessage]
  | some received =>
      cases messages with
      | nil => rfl
      | cons first rest =>
          simp only [List.max?_cons', List.cons_append, Option.toList_some, List.foldl_append,
            List.foldl_cons, List.foldl_nil, laterMessage]
          split
          · rename_i hlt
            rw [max_eq_right (le_of_lt hlt)]
          · rename_i hle
            rw [max_eq_left (not_lt.mp hle)]

/-- One more call extends the history by the row it writes. -/
theorem stateAfter_snoc {calls : List ProviderCall} {call : ProviderCall}
    (hsame : ∀ other ∈ calls, other.provider = call.provider) :
    (stateAfter (calls ++ [call])).map StoredMarketProviderState.row =
      some (call.rowAfter ((stateAfter calls).map StoredMarketProviderState.row)) := by
  have hmessage := laterMessage_max? (calls.filterMap ProviderCall.lastMessageReceivedAt)
    call.lastMessageReceivedAt
  rcases List.eq_nil_or_concat' calls with rfl | ⟨older, last, rfl⟩
  · cases houtcome : call.succeeded <;>
      cases hreconnected : call.reconnected <;>
        cases hreceived : call.lastMessageReceivedAt <;>
          simp [stateAfter, ProviderCall.rowAfter, StoredMarketProviderState.row, houtcome,
            hreconnected, hreceived]
  · have hlast : last.provider = call.provider := hsame last (by simp)
    have hreceived : (List.filterMap ProviderCall.lastMessageReceivedAt [call]) =
        call.lastMessageReceivedAt.toList := by
      cases hreceived : call.lastMessageReceivedAt <;> simp [hreceived]
    rw [← hreceived, ← List.filterMap_append] at hmessage
    simp only [stateAfter, List.getLast?_append, List.getLast?_singleton, Option.some_or,
      Option.map_some, ProviderCall.rowAfter, StoredMarketProviderState.row, Option.bind_some,
      Option.getD_some, hmessage, Option.some.injEq, ProviderStateRow.mk.injEq]
    refine ⟨hlast.symm, trivial, trivial, ?_, ?_, ?_, ?_, trivial, trivial⟩
    · cases houtcome : call.succeeded <;> simp [List.filter_append, houtcome]
    · cases houtcome : call.succeeded <;> simp [List.filter_append, houtcome]
    · cases houtcome : call.succeeded <;> simp [List.takeWhile_cons, houtcome]
    · rw [List.countP_append]
      simp

end OneCall

section Runs

/-- The calls made for a provider. -/
def callsFor (provider : String) (calls : List ProviderCall) : List ProviderCall :=
  calls.filter (fun call => call.provider = provider)

/-- The row of a provider is the one its history states. -/
def ProviderRun.Follows (run : ProviderRun) (provider : String) : Prop :=
  run.db.providerStates.get? provider =
    (stateAfter (callsFor provider run.returned)).map StoredMarketProviderState.row

/-- One more call keeps to the history. -/
theorem ProviderRun.Follows.attempt {run : ProviderRun} {provider : String}
    (h : run.Follows provider) (call : ProviderCall) : (run.attempt call).Follows provider := by
  unfold ProviderRun.attempt
  split
  · rename_i db hdb
    have hstates := MarketDb.providerStates_recorded hdb
    unfold ProviderRun.Follows callsFor
    rw [hstates, List.filter_append]
    by_cases hprovider : call.provider = provider
    · subst hprovider
      have hsame : ∀ other ∈ callsFor call.provider run.returned,
          other.provider = call.provider := by
        intro other hmem
        simpa [callsFor] using (List.mem_filter.mp hmem).2
      have hsnoc := stateAfter_snoc hsame
      rw [InsertionDict.get?_set_self, h]
      simpa [callsFor] using hsnoc.symm
    · rw [InsertionDict.get?_set_of_ne _ _ (fun heq => hprovider heq.symm), h]
      simp [hprovider, callsFor]
  · exact h

/-- Every sequence of calls keeps to the history. -/
theorem follows_attempts {db : MarketDb} {provider : String}
    (hnew : db.providerStates.get? provider = none) (calls : List ProviderCall) :
    (attempts db calls).Follows provider := by
  induction calls using List.reverseRecOn with
  | nil => exact hnew
  | append_singleton calls call ih =>
      have hsnoc : attempts db (calls ++ [call]) = (attempts db calls).attempt call := by
        rw [attempts, List.foldl_append]
        rfl
      rw [hsnoc]
      exact ih.attempt call

/-- What is read of a provider is what its history states. -/
theorem providerState_of_follows {run : ProviderRun} {provider : String}
    (h : run.Follows provider) :
    run.db.providerState provider = some (stateAfter (callsFor provider run.returned)) := by
  unfold MarketDb.providerState
  rw [h]
  cases stateAfter (callsFor provider run.returned) with
  | none => rfl
  | some state => simp

/-- Of a provider without a state, any sequence of calls for any providers
stores what the calls for it that returned state, and a further call for
another provider leaves it as it is. -/
theorem providerState_attempts (db : MarketDb) (calls : List ProviderCall) (provider : String)
    (hnew : db.providerStates.get? provider = none) :
    (attempts db calls).db.providerState provider =
        some (stateAfter (callsFor provider (attempts db calls).returned)) ∧
      ∀ call db', provider ≠ call.provider →
        (attempts db calls).db.recorded call = some db' →
        db'.providerState provider = (attempts db calls).db.providerState provider := by
  refine ⟨providerState_of_follows (follows_attempts hnew calls), ?_⟩
  intro call db' hne hdb
  exact MarketDb.providerState_recorded_of_ne hne hdb

/-- Two failures after a reconnection, the first of them with a message that
arrived out of order, and a success of another provider between them. -/
theorem providerState_attempts_failing :
    (attempts .empty [⟨"alpha", 10, some 9, .success true⟩,
        ⟨"alpha", 20, some 4, .failure "TimeoutError" false⟩,
        ⟨"beta", 30, some 29, .success false⟩,
        ⟨"alpha", 40, none, .failure "ConnectionError" true⟩]).db.providerState "alpha" =
      some (some ⟨"alpha", 40, some 9, some 10, some 40, 2, 1, .unavailable,
        some "ConnectionError"⟩) :=
  (providerState_attempts .empty [⟨"alpha", 10, some 9, .success true⟩,
      ⟨"alpha", 20, some 4, .failure "TimeoutError" false⟩,
      ⟨"beta", 30, some 29, .success false⟩,
      ⟨"alpha", 40, none, .failure "ConnectionError" true⟩] "alpha" rfl).1.trans
    (by decide +kernel)

end Runs

end EventAlpha
