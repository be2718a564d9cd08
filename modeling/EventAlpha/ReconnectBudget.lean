import EventAlpha.MarketDataService
import EventAlpha.ProviderHistory
import EventAlpha.Streaks

/-!
# The reconnect budget

`refresh_watchlist` reads a stream of the provider in two nested loops: the
inner one takes its quotes, the outer one opens the next stream after a failure.
It gives up once `attempts` failures have come in a row.

A provider is a script of connections here, and the store does not fail.  A run
of the method is then a function of the script (`Refresh.play`): every event of
the provider is followed by the calls of the store that it leads to, and by the
backoff.  `Refresh.Stands` says where the run is after any number of events, in
terms of the events alone.
-/

namespace EventAlpha

open RunLog Streaks

section Scripts

namespace ProviderEvent

def isFailure : ProviderEvent → Bool
  | .failed _ => true
  | _ => false

def isQuote : ProviderEvent → Bool
  | .quote _ => true
  | _ => false

def isEnd : ProviderEvent → Bool
  | .ended => true
  | _ => false

def quote? : ProviderEvent → Option MarketQuote
  | .quote received => some received
  | _ => none

theorem disjoint_isFailure_isEnd : Streaks.Disjoint isFailure isEnd := by
  intro event h
  cases event with
  | failed error => rfl
  | quote received => cases h
  | ended => cases h

end ProviderEvent

/-- The quotes among some events. -/
def quotesOf (events : List ProviderEvent) : List MarketQuote :=
  events.filterMap ProviderEvent.quote?

/-- How a stream comes to its end: by itself, or with a transient error. -/
inductive Closing
  | ended
  | failed (error : Raised) (transient : error.transient = true)

def Closing.event : Closing → ProviderEvent
  | .ended => .ended
  | .failed error _ => .failed error

/-- What one stream sends: quotes, and then its end. -/
structure Connection where
  quotes : List MarketQuote
  closing : Closing

def Connection.events (connection : Connection) : List ProviderEvent :=
  connection.quotes.map .quote ++ [connection.closing.event]

/-- All that a provider sends, over all its streams. -/
def scriptEvents (script : List Connection) : List ProviderEvent :=
  script.flatMap Connection.events

/-- The failures of a script are transient. -/
theorem transient_of_mem_scriptEvents {script : List Connection} {error : Raised}
    (h : .failed error ∈ scriptEvents script) : error.transient = true := by
  obtain ⟨connection, -, h⟩ := List.mem_flatMap.mp h
  rcases List.mem_append.mp h with h | h
  · obtain ⟨quote, -, hquote⟩ := List.mem_map.mp h
    cases hquote
  · have hclosing := List.mem_singleton.mp h
    cases hconnection : connection.closing with
    | ended =>
        rw [hconnection] at hclosing
        cases hclosing
    | failed raised htransient =>
        rw [hconnection] at hclosing
        cases hclosing
        exact htransient

end Scripts

section Play

variable [CharacterTables] [Digest] {δ : Type*}

/-- What `refresh_watchlist` does with the provider between two events. -/
inductive RefreshEffect (δ : Type*)
  | sleeps (delay : δ)
  | opens
  deriving DecidableEq

/-- A call of `refresh_watchlist`, with the events it has taken so far and what
it did after each of them. -/
structure Refresh (δ : Type*) where
  operation : Operation
  latest : InsertionDict String MarketQuote
  db : MarketDb
  calls : ℕ
  effects : List (RefreshEffect δ)
  log : List (ProviderEvent × List (RefreshEffect δ))

namespace Refresh

variable (config : MarketConfig) (backoff : ℕ → δ) (clock : ℕ → UtcDatetime)

/-- The call begins, and opens its first stream. -/
def start (attempts : Int) (latest : InsertionDict String MarketQuote) (db : MarketDb) :
    Refresh δ :=
  ⟨config.beginRefresh attempts, latest, db, 0, [], []⟩

/-- One move of its own: a call of the store returns, or a backoff is over.
`clock n` is what the clock shows at the call with number `n`. -/
def advance (refresh : Refresh δ) : Option (Refresh δ) :=
  match refresh.operation with
  | .calling call =>
      (call.commit config (clock refresh.calls) refresh.db).map (fun done => { refresh with
        operation := (call.resume refresh.latest (.ok done.1)).1
        latest := (call.resume refresh.latest (.ok done.1)).2
        db := done.2
        calls := refresh.calls + 1 })
  | .sleeping watch =>
      some { refresh with
        operation := .streaming watch
        effects := refresh.effects ++ [.sleeps (backoff (watch.consecutiveFailures - 1)), .opens] }
  | _ => some refresh

/-- An event of the provider, if the call awaits one, and what it leads to. -/
def serve (refresh : Refresh δ) (event : ProviderEvent) : Option (Refresh δ) :=
  match refresh.operation with
  | .streaming watch => do
      let provided : Refresh δ :=
        { refresh with operation := (Operation.streaming watch).provided event, effects := [] }
      let refresh ← provided.advance config backoff clock
      let refresh ← refresh.advance config backoff clock
      return { refresh with log := refresh.log ++ [(event, refresh.effects)] }
  | _ => some refresh

/-- The call with a provider that sends these events, if no call of the store
raises. -/
def play (attempts : Int) (latest : InsertionDict String MarketQuote) (db : MarketDb)
    (events : List ProviderEvent) : Option (Refresh δ) :=
  events.foldlM (serve config backoff clock) (start config attempts latest db)

/-- The events the call has taken. -/
def served (refresh : Refresh δ) : List ProviderEvent := refresh.log.map Prod.fst

/-- The stored state of the provider. -/
def state (refresh : Refresh δ) : Option ProviderStateRow :=
  refresh.db.providerStates.get? config.providerName

end Refresh

section OneEvent

variable {config : MarketConfig} {backoff : ℕ → δ} {clock : ℕ → UtcDatetime}
  {refresh refresh' : Refresh δ} {watch : Watch}

/-- The calls of the store that go to the state of the provider. -/
def Watch.successCall (watch : Watch) (config : MarketConfig) (observedAt : UtcDatetime) :
    ProviderCall :=
  ⟨config.providerName, observedAt, watch.lastMessage, .success watch.reconnectPending⟩

def Watch.failureCall (watch : Watch) (config : MarketConfig) (observedAt : UtcDatetime)
    (error : Raised) : ProviderCall :=
  ⟨config.providerName, observedAt, watch.lastMessage,
    .failure error.typeName watch.exhausted⟩

/-- A quote is stored and recorded before the next event. -/
theorem Refresh.serve_quote {quote : MarketQuote} (hop : refresh.operation = .streaming watch)
    (h : refresh.serve config backoff clock (.quote quote) = some refresh') :
    refresh'.operation = .streaming (watch.received quote).delivered ∧
      refresh'.log = refresh.log ++ [(.quote quote, [])] ∧
      ∃ observedAt, refresh'.state config =
        some (((watch.received quote).successCall config observedAt).rowAfter
          (refresh.state config)) := by
  simp only [serve, hop, Option.bind_eq_bind, Option.pure_def] at h
  obtain ⟨saved, hsaved, h⟩ := Option.bind_eq_some_iff.mp h
  obtain ⟨recorded, hrecorded, h⟩ := Option.bind_eq_some_iff.mp h
  obtain ⟨done, hdone, rfl⟩ := Option.map_eq_some_iff.mp hsaved
  obtain ⟨⟨inserted, db⟩, hsave, rfl⟩ := Option.map_eq_some_iff.mp hdone
  obtain ⟨done, hdone, rfl⟩ := Option.map_eq_some_iff.mp hrecorded
  obtain ⟨db', hrecord, rfl⟩ := Option.map_eq_some_iff.mp hdone
  obtain rfl := Option.some.inj h
  refine ⟨rfl, rfl, clock (refresh.calls + 1), ?_⟩
  have hrecorded : db.recorded ((watch.received quote).successCall config
      (clock (refresh.calls + 1))) = some db' := hrecord
  have hrow := MarketDb.providerStates_recorded hrecorded
  have hsame := MarketDb.providerStates_saveQuote hsave
  show db'.providerStates.get? config.providerName = _
  rw [hrow, hsame]
  exact InsertionDict.get?_set_self _ _ _

/-- At the end of the stream the call returns. -/
theorem Refresh.serve_ended (hop : refresh.operation = .streaming watch)
    (h : refresh.serve config backoff clock .ended = some refresh') :
    refresh'.operation = .returnedCount watch.count ∧
      refresh'.log = refresh.log ++ [(.ended, [])] ∧
      refresh'.state config = refresh.state config := by
  simp only [serve, hop, Option.bind_eq_bind, Option.pure_def] at h
  obtain rfl := Option.some.inj h
  exact ⟨rfl, rfl, rfl⟩

/-- A transient failure is recorded.  Either the budget is spent, or the next
stream is opened after the backoff. -/
theorem Refresh.serve_failed {error : Raised} (htransient : error.transient = true)
    (hop : refresh.operation = .streaming watch)
    (h : refresh.serve config backoff clock (.failed error) = some refresh') :
    (∃ observedAt, refresh'.state config =
      some ((watch.failed.failureCall config observedAt error).rowAfter
        (refresh.state config))) ∧
    (if watch.failed.exhausted then
      refresh'.operation = .raised error ∧
        refresh'.log = refresh.log ++ [(.failed error, [])]
    else
      refresh'.operation = .streaming watch.failed.retried ∧
        refresh'.log = refresh.log ++
          [(.failed error, [.sleeps (backoff watch.consecutiveFailures), .opens])]) := by
  simp only [serve, hop, Option.bind_eq_bind, Option.pure_def, Operation.provided,
    htransient, if_true] at h
  obtain ⟨recorded, hrecorded, h⟩ := Option.bind_eq_some_iff.mp h
  obtain ⟨settled, hsettled, h⟩ := Option.bind_eq_some_iff.mp h
  obtain ⟨done, hdone, rfl⟩ := Option.map_eq_some_iff.mp hrecorded
  obtain ⟨db', hrecord, rfl⟩ := Option.map_eq_some_iff.mp hdone
  have hrecorded : refresh.db.recorded (watch.failed.failureCall config
      (clock refresh.calls) error) = some db' := hrecord
  have hrow := MarketDb.providerStates_recorded hrecorded
  have hstate : db'.providerStates.get? config.providerName =
      some ((watch.failed.failureCall config (clock refresh.calls) error).rowAfter
        (refresh.state config)) := by
    rw [hrow]
    exact InsertionDict.get?_set_self _ _ _
  cases hexhausted : watch.failed.exhausted with
  | true =>
      simp only [StoreCall.resume, hexhausted, if_true, advance] at hsettled
      obtain rfl := Option.some.inj hsettled
      obtain rfl := Option.some.inj h
      exact ⟨⟨_, hstate⟩, rfl, rfl⟩
  | false =>
      simp only [StoreCall.resume, hexhausted, advance] at hsettled
      obtain rfl := Option.some.inj hsettled
      obtain rfl := Option.some.inj h
      exact ⟨⟨_, hstate⟩, rfl, rfl⟩

/-- A call that has ended takes no more events. -/
theorem Refresh.serve_ended_call {event : ProviderEvent}
    (hop : ∀ watch, refresh.operation ≠ .streaming watch) :
    refresh.serve config backoff clock event = some refresh := by
  unfold serve
  split
  · rename_i watch hwatch
    exact absurd hwatch (hop watch)
  · rfl

end OneEvent

end Play

section ProviderAccounts

/-- What comes before the first end of a stream. -/
def heard (events : List ProviderEvent) : List ProviderEvent :=
  events.takeWhile (fun event => !event.isEnd)

/-- The failures in a row that a state holds. -/
def storedFailures (state : Option ProviderStateRow) : ℕ :=
  (state.map ProviderStateRow.consecutiveFailures).getD 0

def storedReconnects (state : Option ProviderStateRow) : ℕ :=
  (state.map ProviderStateRow.reconnectCount).getD 0

def storedMessage (state : Option ProviderStateRow) : Option UtcDatetime :=
  state.bind ProviderStateRow.lastMessageReceivedAt

/-- No quote was received after a message. -/
def CoversReceipts (message : Option UtcDatetime) (quotes : List MarketQuote) : Prop :=
  ∀ quote ∈ quotes, ∃ last, message = some last ∧ quote.receivedAt ≤ last

/-- The stored state after some events, none of them an end, from the one
before them. -/
structure ProviderAccounts (prior state : Option ProviderStateRow) (events : List ProviderEvent) :
    Prop where
  failures : storedFailures state = (if quotesOf events = [] then storedFailures prior else 0) +
    trailing ProviderEvent.isFailure events
  reconnects : storedReconnects state = storedReconnects prior +
    following ProviderEvent.isFailure ProviderEvent.isQuote events
  message : CoversReceipts (storedMessage state) (quotesOf events)

/-- The loop variables after some events, none of them an end. -/
structure Watch.Counts (watch : Watch) (attempts : Int) (events : List ProviderEvent) : Prop where
  attempts_eq : watch.attempts = attempts
  count_eq : watch.count = (quotesOf events).length
  failures_eq : watch.consecutiveFailures = trailing ProviderEvent.isFailure events
  pending_eq : watch.reconnectPending = decide (0 < trailing ProviderEvent.isFailure events)
  message : CoversReceipts watch.lastMessage (quotesOf events)

variable {prior state : Option ProviderStateRow}
  {events : List ProviderEvent} {watch : Watch} {attempts : Int}

theorem quotesOf_quote (events : List ProviderEvent) (quote : MarketQuote) :
    quotesOf (events ++ [.quote quote]) = quotesOf events ++ [quote] := by
  simp [quotesOf, ProviderEvent.quote?]

theorem quotesOf_failed (events : List ProviderEvent) (error : Raised) :
    quotesOf (events ++ [.failed error]) = quotesOf events := by
  simp [quotesOf, ProviderEvent.quote?]

theorem laterMessage_some (current received : UtcDatetime) :
    MarketDb.laterMessage (some current) (some received) = some (max current received) := by
  show (if current < received then some received else some current) = _
  by_cases hlt : current < received
  · rw [if_pos hlt, max_eq_right hlt.le]
  · rw [if_neg hlt, max_eq_left (not_lt.mp hlt)]

/-- The later of two messages covers what either covers. -/
theorem CoversReceipts.laterMessage {message received : Option UtcDatetime} {quotes : List MarketQuote}
    (h : CoversReceipts message quotes ∨ CoversReceipts received quotes) :
    CoversReceipts (MarketDb.laterMessage message received) quotes := by
  intro quote hquote
  have hlast : (∃ last, message = some last ∧ quote.receivedAt ≤ last) ∨
      ∃ last, received = some last ∧ quote.receivedAt ≤ last :=
    h.imp (fun hcovers => hcovers quote hquote) (fun hcovers => hcovers quote hquote)
  rcases hlast with ⟨last, rfl, hle⟩ | ⟨last, rfl, hle⟩
  · cases received with
    | none => exact ⟨last, rfl, hle⟩
    | some received => exact ⟨_, laterMessage_some last received, le_max_of_le_left hle⟩
  · cases message with
    | none => exact ⟨last, rfl, hle⟩
    | some current => exact ⟨_, laterMessage_some current last, le_max_of_le_right hle⟩

theorem CoversReceipts.append {message : Option UtcDatetime} {quotes : List MarketQuote}
    (h : CoversReceipts message quotes) (hquote : CoversReceipts message [quote]) :
    CoversReceipts message (quotes ++ [quote]) := by
  intro other hother
  rcases List.mem_append.mp hother with hother | hother
  · exact h other hother
  · exact hquote other hother

/-- Before the first event. -/
theorem Watch.counts_start (attempts : Int) : (Watch.start attempts).Counts attempts [] where
  attempts_eq := rfl
  count_eq := rfl
  failures_eq := rfl
  pending_eq := rfl
  message := by
    intro quote hquote
    cases hquote

theorem ProviderAccounts.nil (prior : Option ProviderStateRow) : ProviderAccounts prior prior [] where
  failures := rfl
  reconnects := rfl
  message := by
    intro quote hquote
    cases hquote

/-- The latest message covers a quote that has just been received. -/
theorem Watch.Counts.received (h : watch.Counts attempts events) (quote : MarketQuote) :
    CoversReceipts (watch.received quote).lastMessage (quotesOf events ++ [quote]) := by
  have hmessage : (watch.received quote).lastMessage =
      MarketDb.laterMessage watch.lastMessage (some quote.receivedAt) := by
    cases hlast : watch.lastMessage with
    | none => simp [Watch.received, hlast]
    | some last => simp [Watch.received, hlast, laterMessage_some]
  rw [hmessage]
  refine (CoversReceipts.laterMessage (.inl h.message)).append (CoversReceipts.laterMessage (.inr ?_))
  intro other hother
  rw [List.mem_singleton.mp hother]
  exact ⟨_, rfl, le_refl _⟩

/-- **A quote.**  The budget starts anew. -/
theorem Watch.Counts.quote (h : watch.Counts attempts events) (quote : MarketQuote) :
    (watch.received quote).delivered.Counts attempts (events ++ [.quote quote]) where
  attempts_eq := h.attempts_eq
  count_eq := by
    rw [quotesOf_quote, List.length_append, ← h.count_eq]
    rfl
  failures_eq := (trailing_concat_of_neg rfl).symm
  pending_eq := by
    rw [trailing_concat_of_neg rfl]
    rfl
  message := by
    rw [quotesOf_quote]
    exact h.received quote

/-- **A failure.** -/
theorem Watch.Counts.failed (h : watch.Counts attempts events) (error : Raised) :
    watch.failed.retried.Counts attempts (events ++ [.failed error]) where
  attempts_eq := h.attempts_eq
  count_eq := by
    rw [quotesOf_failed, ← h.count_eq]
    rfl
  failures_eq := by
    rw [trailing_concat_of_pos rfl, ← h.failures_eq]
    rfl
  pending_eq := by
    rw [trailing_concat_of_pos rfl]
    simp [Watch.retried]
  message := by
    rw [quotesOf_failed]
    exact h.message

/-- The budget is spent with a failure if as many as that came in a row. -/
theorem Watch.Counts.exhausted_iff (h : watch.Counts attempts events) (error : Raised) :
    watch.failed.exhausted = true ↔
      attempts ≤ (trailing ProviderEvent.isFailure (events ++ [.failed error]) : Int) := by
  rw [← (h.failed error).failures_eq, ← h.attempts_eq]
  exact decide_eq_true_iff

/-- The state after the success that a quote leads to. -/
theorem ProviderAccounts.quote (h : ProviderAccounts prior state events)
    (hcounts : watch.Counts attempts events) (config : MarketConfig) (observedAt : UtcDatetime)
    (quote : MarketQuote) :
    ProviderAccounts prior
      (some (((watch.received quote).successCall config observedAt).rowAfter state))
      (events ++ [.quote quote]) where
  failures := by
    rw [quotesOf_quote, if_neg (by simp), trailing_concat_of_neg rfl]
    rfl
  reconnects := by
    have hpending : (watch.received quote).reconnectPending =
        decide (0 < trailing ProviderEvent.isFailure events) := hcounts.pending_eq
    have hrow : storedReconnects
        (some (((watch.received quote).successCall config observedAt).rowAfter state)) =
        storedReconnects state + if (watch.received quote).reconnectPending then 1 else 0 := rfl
    rw [hrow, h.reconnects, following_concat, hpending]
    simp [ProviderEvent.isQuote, Nat.add_assoc]
  message := by
    rw [quotesOf_quote]
    exact CoversReceipts.laterMessage (.inr (hcounts.received quote))

/-- The state after the failure that a failure of the provider leads to. -/
theorem ProviderAccounts.failed (h : ProviderAccounts prior state events)
    (config : MarketConfig) (observedAt : UtcDatetime) (watch : Watch) (error : Raised) :
    ProviderAccounts prior (some ((watch.failureCall config observedAt error).rowAfter state))
      (events ++ [.failed error]) where
  failures := by
    have hrow : storedFailures (some ((watch.failureCall config observedAt error).rowAfter state)) =
        storedFailures state + 1 := rfl
    rw [hrow, h.failures, quotesOf_failed, trailing_concat_of_pos rfl, Nat.add_assoc]
  reconnects := by
    have hrow : storedReconnects (some ((watch.failureCall config observedAt error).rowAfter
        state)) = storedReconnects state := rfl
    rw [hrow, h.reconnects, following_concat]
    simp [ProviderEvent.isQuote]
  message := by
    rw [quotesOf_failed]
    exact CoversReceipts.laterMessage (.inl h.message)

end ProviderAccounts

section Runs

variable [CharacterTables] [Digest] {δ : Type*} {config : MarketConfig} {backoff : ℕ → δ}
  {clock : ℕ → UtcDatetime} {attempts : Int} {prior : Option ProviderStateRow}
  {refresh refresh' : Refresh δ} {events : List ProviderEvent} {event : ProviderEvent}
  {latest : InsertionDict String MarketQuote} {db : MarketDb}

omit [CharacterTables] [Digest]

/-- As many failures in a row as there are attempts, before any end of a
stream. -/
def SpendsBudget (attempts : Int) (events : List ProviderEvent) : Prop :=
  HasStreak ProviderEvent.isFailure ProviderEvent.isEnd attempts.toNat events

/-- After the failure that is the `j`-th in a row, if it leaves an attempt, the
call sleeps for `backoff (j - 1)` and opens one stream.  After every other event
it does neither. -/
def Answered (backoff : ℕ → δ) (attempts : Int)
    (log : List (ProviderEvent × List (RefreshEffect δ))) : Prop :=
  ∀ earlier entry later, log = earlier ++ entry :: later →
    ∀ j, j = trailing ProviderEvent.isFailure (earlier.map Prod.fst ++ [entry.1]) →
      entry.2 = if entry.1.isFailure = true ∧ (j : Int) < attempts then
        [.sleeps (backoff (j - 1)), .opens] else []

section Answers

variable {log : List (ProviderEvent × List (RefreshEffect δ))}

theorem Answered.snoc {effects : List (RefreshEffect δ)} (h : Answered backoff attempts log)
    (heffects : ∀ j, j = trailing ProviderEvent.isFailure (log.map Prod.fst ++ [event]) →
      effects = if event.isFailure = true ∧ (j : Int) < attempts then
        [.sleeps (backoff (j - 1)), .opens] else []) :
    Answered backoff attempts (log ++ [(event, effects)]) :=
  forall_cut_snoc.mpr ⟨h, heffects⟩

/-- Nothing is done after an event that is no failure, nor after the failure
that spends the budget. -/
theorem Answered.idle (h : Answered backoff attempts log)
    (hspent : event.isFailure = true →
      attempts ≤ (trailing ProviderEvent.isFailure (log.map Prod.fst ++ [event]) : Int)) :
    Answered backoff attempts (log ++ [(event, [])]) := by
  refine h.snoc ?_
  rintro j rfl
  rw [if_neg]
  rintro ⟨hfailure, hlt⟩
  exact absurd (hspent hfailure) (not_le.mpr hlt)

/-- A failure within the budget is waited for and a stream is opened. -/
theorem Answered.retries (h : Answered backoff attempts log)
    (hfailure : event.isFailure = true)
    (hleft : (trailing ProviderEvent.isFailure (log.map Prod.fst ++ [event]) : Int) < attempts) :
    Answered backoff attempts (log ++ [(event,
      [.sleeps (backoff (trailing ProviderEvent.isFailure (log.map Prod.fst))), .opens])]) := by
  refine h.snoc ?_
  rintro j rfl
  rw [if_pos ⟨hfailure, hleft⟩, trailing_concat_of_pos hfailure, Nat.add_sub_cancel]

end Answers

/-- One more event spends nothing if the failures it ends are too few. -/
theorem SpendsBudget.not_concat (h : ¬SpendsBudget attempts events)
    (hleft : (trailing ProviderEvent.isFailure (events ++ [event]) : Int) < attempts) :
    ¬SpendsBudget attempts (events ++ [event]) := by
  intro hspends
  rcases (hasStreak_concat_iff ProviderEvent.disjoint_isFailure_isEnd).mp hspends with
    hspends | ⟨-, hle⟩
  · exact h hspends
  · omega

/-- One more event that is no failure spends nothing. -/
theorem SpendsBudget.not_concat_other (hattempts : 1 ≤ attempts)
    (h : ¬SpendsBudget attempts events) (hevent : event.isFailure = false) :
    ¬SpendsBudget attempts (events ++ [event]) := by
  refine not_concat h ?_
  rw [trailing_concat_of_neg hevent]
  omega

/-- Where a call stands after some events, all or the first of which it has
taken. -/
inductive Refresh.Stands (config : MarketConfig) (attempts : Int)
    (prior : Option ProviderStateRow) (refresh : Refresh δ) (events : List ProviderEvent) : Prop
  | streaming (watch : Watch) (hop : refresh.operation = .streaming watch)
      (hserved : refresh.served = events) (hopen : ∀ event ∈ events, event.isEnd = false)
      (hbudget : ¬SpendsBudget attempts events) (hcounts : watch.Counts attempts events)
      (haccounts : ProviderAccounts prior (refresh.state config) events)
  | returned (before later : List ProviderEvent)
      (hop : refresh.operation = .returnedCount (quotesOf before).length)
      (hserved : refresh.served = before ++ [.ended]) (hevents : events = refresh.served ++ later)
      (hopen : ∀ event ∈ before, event.isEnd = false)
      (hbudget : ¬SpendsBudget attempts before)
      (haccounts : ProviderAccounts prior (refresh.state config) before)
  | raised (before later : List ProviderEvent) (error : Raised)
      (hop : refresh.operation = .raised error)
      (hserved : refresh.served = before ++ [.failed error])
      (hevents : events = refresh.served ++ later)
      (hopen : ∀ event ∈ before, event.isEnd = false)
      (hbudget : ¬SpendsBudget attempts before)
      (hspent : attempts ≤ (trailing ProviderEvent.isFailure refresh.served : Int))
      (hstatus : (refresh.state config).map ProviderStateRow.status =
        some ProviderStatus.unavailable.value)
      (haccounts : ProviderAccounts prior (refresh.state config) refresh.served)

/-- One more event at the end of the log. -/
theorem Refresh.served_snoc {effects : List (RefreshEffect δ)}
    (h : refresh'.log = refresh.log ++ [(event, effects)]) :
    refresh'.served = refresh.served ++ [event] := by
  rw [served, h, List.map_append]
  rfl

theorem forall_open_concat (hopen : ∀ event ∈ events, event.isEnd = false)
    (hevent : event.isEnd = false) : ∀ other ∈ events ++ [event], other.isEnd = false := by
  intro other hother
  rcases List.mem_append.mp hother with hother | hother
  · exact hopen other hother
  · rw [List.mem_singleton.mp hother]
    exact hevent

variable [CharacterTables] [Digest]

/-- **A failure.**  The call raises with the failure that spends the budget, and
streams again after every other one. -/
theorem Refresh.stands_of_failed {watch : Watch} {error : Raised}
    (htransient : error.transient = true) (hop : refresh.operation = .streaming watch)
    (hopen : ∀ event ∈ refresh.served, event.isEnd = false)
    (hbudget : ¬SpendsBudget attempts refresh.served)
    (hcounts : watch.Counts attempts refresh.served)
    (haccounts : ProviderAccounts prior (refresh.state config) refresh.served)
    (hanswered : Answered backoff attempts refresh.log)
    (h : refresh.serve config backoff clock (.failed error) = some refresh') :
    refresh'.Stands config attempts prior (refresh.served ++ [.failed error]) ∧
      Answered backoff attempts refresh'.log := by
  obtain ⟨⟨observedAt, hstate⟩, hcase⟩ := serve_failed htransient hop h
  have haccounts' := haccounts.failed config observedAt watch.failed error
  rw [← hstate] at haccounts'
  have hexhausted := hcounts.exhausted_iff error
  by_cases hspent : watch.failed.exhausted = true
  · rw [if_pos hspent] at hcase
    obtain ⟨hop', hlog⟩ := hcase
    have hserved := served_snoc hlog
    rw [← hserved] at haccounts' hexhausted
    refine ⟨.raised refresh.served [] error hop' hserved ?_ hopen hbudget (hexhausted.mp hspent)
      ?_ haccounts', ?_⟩
    · rw [hserved, List.append_nil]
    · rw [hstate]
      simp [ProviderCall.rowAfter, Watch.failureCall, hspent, ProviderCall.status]
    · rw [hlog]
      refine hanswered.idle ?_
      intro _
      rw [hserved] at hexhausted
      exact hexhausted.mp hspent
  · rw [if_neg hspent] at hcase
    obtain ⟨hop', hlog⟩ := hcase
    have hleft := not_le.mp (mt hexhausted.mpr hspent)
    refine ⟨.streaming _ hop' (served_snoc hlog) (forall_open_concat hopen rfl)
      (SpendsBudget.not_concat hbudget hleft) (hcounts.failed error) haccounts', ?_⟩
    rw [hlog, hcounts.failures_eq]
    exact hanswered.retries rfl hleft

/-- **One event.**  A call that awaits an event goes on, returns or raises. -/
theorem Refresh.stands_of_streaming {watch : Watch} (hattempts : 1 ≤ attempts)
    (htransient : ∀ error, event = .failed error → error.transient = true)
    (hop : refresh.operation = .streaming watch)
    (hopen : ∀ event ∈ refresh.served, event.isEnd = false)
    (hbudget : ¬SpendsBudget attempts refresh.served)
    (hcounts : watch.Counts attempts refresh.served)
    (haccounts : ProviderAccounts prior (refresh.state config) refresh.served)
    (hanswered : Answered backoff attempts refresh.log)
    (h : refresh.serve config backoff clock event = some refresh') :
    refresh'.Stands config attempts prior (refresh.served ++ [event]) ∧
      Answered backoff attempts refresh'.log := by
  cases event with
  | quote quote =>
      obtain ⟨hop', hlog, observedAt, hstate⟩ := serve_quote hop h
      refine ⟨.streaming _ hop' (served_snoc hlog) (forall_open_concat hopen rfl)
        (SpendsBudget.not_concat_other hattempts hbudget rfl) (hcounts.quote quote) ?_, ?_⟩
      · rw [hstate]
        exact haccounts.quote hcounts config observedAt quote
      · rw [hlog]
        exact hanswered.idle nofun
  | ended =>
      obtain ⟨hop', hlog, hstate⟩ := serve_ended hop h
      have hserved := served_snoc hlog
      refine ⟨.returned refresh.served [] ?_ hserved ?_ hopen hbudget ?_, ?_⟩
      · rw [hop', hcounts.count_eq]
      · rw [hserved, List.append_nil]
      · rw [hstate]
        exact haccounts
      · rw [hlog]
        exact hanswered.idle nofun
  | failed error =>
      exact stands_of_failed (htransient error rfl) hop hopen hbudget hcounts haccounts
        hanswered h

/-- A call whose last event is behind it takes no more. -/
theorem Refresh.Stands.serve (h : refresh.Stands config attempts prior events)
    (hattempts : 1 ≤ attempts)
    (htransient : ∀ error, event = .failed error → error.transient = true)
    (hanswered : Answered backoff attempts refresh.log)
    (hserve : refresh.serve config backoff clock event = some refresh') :
    refresh'.Stands config attempts prior (events ++ [event]) ∧
      Answered backoff attempts refresh'.log := by
  cases h with
  | streaming watch hop hserved hopen hbudget hcounts haccounts =>
      subst hserved
      exact stands_of_streaming hattempts htransient hop hopen hbudget hcounts haccounts
        hanswered hserve
  | returned before later hop hserved hevents hopen hbudget haccounts =>
      rw [serve_ended_call (by rw [hop]; intro _ heq; cases heq)] at hserve
      obtain rfl := Option.some.inj hserve
      refine ⟨.returned before (later ++ [event]) hop hserved ?_ hopen hbudget haccounts,
        hanswered⟩
      rw [hevents, List.append_assoc]
  | raised before later error hop hserved hevents hopen hbudget hspent hstatus haccounts =>
      rw [serve_ended_call (by rw [hop]; intro _ heq; cases heq)] at hserve
      obtain rfl := Option.some.inj hserve
      refine ⟨.raised before (later ++ [event]) error hop hserved ?_ hopen hbudget hspent hstatus
        haccounts, hanswered⟩
      rw [hevents, List.append_assoc]

omit [CharacterTables] [Digest] in
/-- A call with an attempt awaits the provider at once. -/
theorem Refresh.start_operation (hreads : config.providerReadsEnabled = true)
    (hattempts : 1 ≤ attempts) (latest : InsertionDict String MarketQuote) (db : MarketDb) :
    (start config attempts latest db : Refresh δ).operation = .streaming (.start attempts) := by
  show config.beginRefresh attempts = _
  rw [MarketConfig.beginRefresh, if_neg (by simp [hreads]), if_neg (by omega)]

theorem Refresh.play_snoc :
    play config backoff clock attempts latest db (events ++ [event]) =
      (play config backoff clock attempts latest db events).bind
        (fun refresh => refresh.serve config backoff clock event) := by
  unfold play
  rw [List.foldlM_append]
  refine Option.bind_congr ?_
  intro refresh _
  rw [List.foldlM_cons]
  cases refresh.serve config backoff clock event <;> rfl

/-- **Any events.**  A call stands where the events say. -/
theorem Refresh.stands_play (hreads : config.providerReadsEnabled = true)
    (hattempts : 1 ≤ attempts)
    (htransient : ∀ error, .failed error ∈ events → error.transient = true)
    (h : play config backoff clock attempts latest db events = some refresh) :
    refresh.Stands config attempts (db.providerStates.get? config.providerName) events ∧
      Answered backoff attempts refresh.log := by
  induction events using List.reverseRecOn generalizing refresh with
  | nil =>
      obtain rfl := Option.some.inj h
      refine ⟨.streaming (.start attempts) (start_operation hreads hattempts latest db) rfl ?_ ?_
        (Watch.counts_start attempts) (ProviderAccounts.nil _), ?_⟩
      · intro event hevent
        cases hevent
      · rintro ⟨earlier, streak, later, hnil, hlength, -⟩
        have hempty : streak = [] :=
          (List.append_eq_nil_iff.mp (List.append_eq_nil_iff.mp hnil.symm).1).2
        rw [hempty, List.length_nil] at hlength
        omega
      · intro earlier entry later hlog
        exact absurd hlog (by simp [start])
  | append_singleton events event ih =>
      rw [play_snoc] at h
      obtain ⟨middle, hmiddle, hserve⟩ := Option.bind_eq_some_iff.mp h
      obtain ⟨hstands, hanswered⟩ :=
        ih (fun error hmem => htransient error (List.mem_append_left _ hmem)) hmiddle
      refine hstands.serve hattempts ?_ hanswered hserve
      rintro error rfl
      exact htransient error (by simp)

end Runs

section Processes

variable [CharacterTables] [Digest] {δ : Type*} {config : MarketConfig} {backoff : ℕ → δ}
  {clock : ℕ → UtcDatetime} {refresh refresh' : Refresh δ} {process : MarketProcess} {op : ℕ}

omit [CharacterTables] [Digest] in
/-- The call is operation `op` of a process. -/
structure Refresh.Within (refresh : Refresh δ) (process : MarketProcess) (op : ℕ) : Prop where
  operation_eq : process.operations op = refresh.operation
  latest_eq : process.latest = refresh.latest
  db_eq : process.db = refresh.db

/-- Its own moves are moves of the process. -/
theorem Refresh.Within.advance (h : refresh.Within process op)
    (hadvance : refresh.advance config backoff clock = some refresh') :
    ∃ moves process', Run (MarketStep config) process moves process' ∧
      refresh'.Within process' op := by
  obtain ⟨hop, hlatest, hdb⟩ := h
  unfold Refresh.advance at hadvance
  split at hadvance
  · rename_i call hcall
    obtain ⟨⟨found, db'⟩, hcommit, rfl⟩ := Option.map_eq_some_iff.mp hadvance
    have hperform := MarketStep.perform process op (hop.trans hcall)
      (Performs.returns (clock refresh.calls) (hdb ▸ hcommit))
    have hcalled : ({ process.enter op (.called call (.ok found)) with db := db' } :
        MarketProcess).operations op = .called call (.ok found) := by
      simp
    refine ⟨_, _, (Run.nil.snoc hperform).snoc (.resume _ op hcalled), ?_, ?_, rfl⟩
    · simp [hlatest]
    · simp [hlatest]
  · rename_i watch hsleeping
    obtain rfl := Option.some.inj hadvance
    have hwake : MarketStep config process (.wake op) (process.enter op (.streaming watch)) :=
      .wake process op (hop.trans hsleeping)
    exact ⟨_, _, Run.nil.snoc hwake, by simp, hlatest, hdb⟩
  · obtain rfl := Option.some.inj hadvance
    exact ⟨_, _, Run.nil, hop, hlatest, hdb⟩

/-- What an event leads to is a run of the process. -/
theorem Refresh.Within.serve {event : ProviderEvent} (h : refresh.Within process op)
    (hserve : refresh.serve config backoff clock event = some refresh') :
    ∃ moves process', Run (MarketStep config) process moves process' ∧
      refresh'.Within process' op := by
  unfold Refresh.serve at hserve
  split at hserve
  · rename_i watch hop
    obtain ⟨first, hfirst, hserve⟩ := Option.bind_eq_some_iff.mp hserve
    obtain ⟨second, hsecond, hserve⟩ := Option.bind_eq_some_iff.mp hserve
    obtain rfl := Option.some.inj hserve
    have hawaits : (process.operations op).AwaitsProvider := by
      rw [h.operation_eq, hop]
      exact trivial
    have hprovide : MarketStep config process (.provide op event)
        (process.enter op ((process.operations op).provided event)) :=
      .provide process op event hawaits
    rw [h.operation_eq, hop] at hprovide
    have hprovided : ({ refresh with
        operation := (Operation.streaming watch).provided event, effects := [] } :
        Refresh δ).Within (process.enter op ((Operation.streaming watch).provided event)) op :=
      ⟨by simp, h.latest_eq, h.db_eq⟩
    obtain ⟨moves₁, process₁, hrun₁, hwithin₁⟩ := hprovided.advance hfirst
    obtain ⟨moves₂, process₂, hrun₂, hwithin₂⟩ := hwithin₁.advance hsecond
    exact ⟨_, process₂, ((Run.nil.snoc hprovide).append hrun₁).append hrun₂,
      hwithin₂.operation_eq, hwithin₂.latest_eq, hwithin₂.db_eq⟩
  · obtain rfl := Option.some.inj hserve
    exact ⟨[], process, Run.nil, h⟩

/-- **Refinement.**  A call that was played is a run of a process that has just
built its service. -/
theorem Refresh.play_run {attempts : Int} {db : MarketDb} {events : List ProviderEvent}
    (h : play config backoff clock attempts .empty db events = some refresh) (op : ℕ) :
    ∃ moves process, Run (MarketStep config) (.started db) moves process ∧
      refresh.Within process op := by
  induction events using List.reverseRecOn generalizing refresh with
  | nil =>
      obtain rfl := Option.some.inj h
      have hbegin : MarketStep config (.started db) (.refreshWatchlist op attempts) _ :=
        .refreshWatchlist (.started db) op attempts rfl
      exact ⟨_, _, Run.nil.snoc hbegin, by simp [start], rfl, rfl⟩
  | append_singleton events event ih =>
      rw [play_snoc] at h
      obtain ⟨middle, hmiddle, hserve⟩ := Option.bind_eq_some_iff.mp h
      obtain ⟨moves, process, hrun, hwithin⟩ := ih hmiddle
      obtain ⟨moves', process', hrun', hwithin'⟩ := hwithin.serve hserve
      exact ⟨_, process', hrun.append hrun', hwithin'⟩

end Processes

section Guarantee

variable [CharacterTables] [Digest] {δ : Type*} {config : MarketConfig} {attempts : Int}
  {events : List ProviderEvent} {refresh : Refresh δ} {prior : Option ProviderStateRow}

omit [CharacterTables] [Digest]

/-- The call has taken the events up to the failure that spent the budget, and
not before: as many failures as attempts, the last of them this error. -/
def Refresh.SpentBy (refresh : Refresh δ) (attempts : Int) (events : List ProviderEvent)
    (error : Raised) : Prop :=
  ∃ earlier errors later, events = refresh.served ++ later ∧
    refresh.served = earlier ++ (errors ++ [error]).map .failed ∧
    ((errors ++ [error]).length : Int) = attempts ∧
    (∀ event ∈ earlier, event.isEnd = false) ∧
    ¬SpendsBudget attempts (earlier ++ errors.map .failed)

theorem heard_eq_self (hopen : ∀ event ∈ events, event.isEnd = false) : heard events = events :=
  List.takeWhile_eq_self_iff.mpr (fun event hevent => by simp [hopen event hevent])

theorem heard_concat_ended (hopen : ∀ event ∈ events, event.isEnd = false)
    (later : List ProviderEvent) : heard (events ++ .ended :: later) = events := by
  unfold heard
  rw [List.takeWhile_append_of_pos (fun event hevent => by simp [hopen event hevent])]
  simp [ProviderEvent.isEnd]

/-- Events that are all failures are those of some errors. -/
theorem exists_errors (h : ∀ event ∈ events, event.isFailure = true) :
    ∃ errors : List Raised, events = errors.map .failed := by
  induction events with
  | nil => exact ⟨[], rfl⟩
  | cons event events ih =>
      obtain ⟨errors, rfl⟩ := ih (fun other hother => h other (List.mem_cons_of_mem _ hother))
      cases event with
      | failed error => exact ⟨error :: errors, rfl⟩
      | quote quote => cases h _ (List.mem_cons_self)
      | ended => cases h _ (List.mem_cons_self)

/-- What the budget was spent on, from the counter. -/
theorem spentBy_of_trailing {before later : List ProviderEvent} {error : Raised}
    (hattempts : 1 ≤ attempts) (hserved : refresh.served = before ++ [.failed error])
    (hevents : events = refresh.served ++ later)
    (hopen : ∀ event ∈ before, event.isEnd = false) (hbudget : ¬SpendsBudget attempts before)
    (hspent : attempts ≤ (trailing ProviderEvent.isFailure refresh.served : Int)) :
    refresh.SpentBy attempts events error := by
  obtain ⟨earlier, streak, hstreak, hlength, hall⟩ := le_trailing_iff.mp (Int.toNat_le.mpr hspent)
  obtain ⟨errors, rfl⟩ := exists_errors hall
  rw [List.length_map] at hlength
  rcases List.eq_nil_or_concat' errors with rfl | ⟨errors, last, rfl⟩
  · rw [List.length_nil] at hlength
    omega
  · rw [hserved, List.map_append, ← List.append_assoc] at hstreak
    obtain ⟨hbefore, hlast⟩ := List.append_inj' hstreak rfl
    obtain rfl : error = last := by simpa using hlast
    refine ⟨earlier, errors, later, hevents, ?_, by omega, ?_, ?_⟩
    · rw [hserved, hstreak, List.map_append, List.append_assoc]
    · intro event hevent
      exact hopen event (hbefore ▸ List.mem_append_left _ hevent)
    · rwa [← hbefore]

/-- What a call makes of the events a provider has for it. -/
structure Refresh.Accounted (refresh : Refresh δ) (config : MarketConfig) (backoff : ℕ → δ)
    (attempts : Int) (prior : Option ProviderStateRow) (events : List ProviderEvent) : Prop where
  raises_iff : (∃ error, refresh.operation = .raised error) ↔ SpendsBudget attempts events
  raises_last : ∀ error, refresh.operation = .raised error →
    refresh.SpentBy attempts events error ∧
      (refresh.state config).map ProviderStateRow.status = some ProviderStatus.unavailable.value
  returns : ¬SpendsBudget attempts events → .ended ∈ events →
    refresh.operation = .returnedCount (quotesOf (heard events)).length ∧
      refresh.served = heard events ++ [.ended]
  awaits : ¬SpendsBudget attempts events → .ended ∉ events →
    (∃ watch, refresh.operation = .streaming watch) ∧ refresh.served = events
  answered : Answered backoff attempts refresh.log
  accounts : ProviderAccounts prior (refresh.state config) (heard refresh.served)

/-- The budget is spent by the failures that the counter counted. -/
theorem spends_of_trailing {before later : List ProviderEvent} {error : Raised}
    (hevents : events = before ++ [.failed error] ++ later)
    (hopen : ∀ event ∈ before, event.isEnd = false)
    (hspent : attempts ≤ (trailing ProviderEvent.isFailure (before ++ [.failed error]) : Int)) :
    SpendsBudget attempts events := by
  have hstreak : SpendsBudget attempts (before ++ [.failed error]) :=
    (hasStreak_concat_iff ProviderEvent.disjoint_isFailure_isEnd).mpr
      (.inr ⟨hopen, Int.toNat_le.mpr hspent⟩)
  rw [hevents]
  exact hstreak.append later

/-- Where a call stands decides all of it. -/
theorem Refresh.Stands.accounted {backoff : ℕ → δ} (hattempts : 1 ≤ attempts)
    (h : refresh.Stands config attempts prior events)
    (hanswered : Answered backoff attempts refresh.log) :
    refresh.Accounted config backoff attempts prior events := by
  cases h with
  | streaming watch hop hserved hopen hbudget hcounts haccounts =>
      have hnone : ∀ error, refresh.operation ≠ .raised error := by
        intro error heq
        rw [hop] at heq
        cases heq
      refine ⟨iff_of_false (fun hraised => hnone _ hraised.choose_spec) hbudget,
        fun error heq => absurd heq (hnone error), ?_, fun _ _ => ⟨⟨watch, hop⟩, hserved⟩,
        hanswered, ?_⟩
      · intro _ hended
        cases hopen _ hended
      · rwa [hserved, heard_eq_self hopen]
  | returned before later hop hserved hevents hopen hbudget haccounts =>
      have hnone : ∀ error, refresh.operation ≠ .raised error := by
        intro error heq
        rw [hop] at heq
        cases heq
      rw [hserved, List.append_assoc, List.singleton_append] at hevents
      have hkept : ¬SpendsBudget attempts events := by
        intro hspends
        rw [hevents] at hspends
        exact hbudget (hspends.of_stop ProviderEvent.disjoint_isFailure_isEnd rfl)
      have hheard : heard events = before := by
        rw [hevents, heard_concat_ended hopen]
      refine ⟨iff_of_false (fun hraised => hnone _ hraised.choose_spec) hkept,
        fun error heq => absurd heq (hnone error), ?_, ?_, hanswered, ?_⟩
      · intro _ _
        rw [hheard]
        exact ⟨hop, hserved⟩
      · intro _ hnever
        exact absurd (hevents ▸ List.mem_append_right _ List.mem_cons_self) hnever
      · rwa [hserved, heard_concat_ended hopen]
  | raised before later error hop hserved hevents hopen hbudget hspent hstatus haccounts =>
      have hspends : SpendsBudget attempts events :=
        spends_of_trailing (hserved ▸ hevents) hopen (hserved ▸ hspent)
      refine ⟨iff_of_true ⟨error, hop⟩ hspends, ?_, fun hkept => absurd hspends hkept,
        fun hkept => absurd hspends hkept, hanswered, ?_⟩
      · intro raised hraised
        obtain rfl : error = raised := by simpa [hop] using hraised
        exact ⟨spentBy_of_trailing hattempts hserved hevents hopen hbudget hspent, hstatus⟩
      · have hopen' := forall_open_concat hopen
          (show ProviderEvent.isEnd (.failed error) = false from rfl)
        rwa [hserved, heard_eq_self hopen', ← hserved]

variable [CharacterTables] [Digest]

/-- **The reconnect budget.**  For every script of connections, if no call of
the store raises, `refresh_watchlist` raises exactly if the budget is spent
before any end of a stream, and keeps its accounts. -/
theorem reconnect_budget_accounted (config : MarketConfig) (backoff : ℕ → δ)
    (clock : ℕ → UtcDatetime) (attempts : Int) (latest : InsertionDict String MarketQuote)
    (db : MarketDb) (script : List Connection) {refresh : Refresh δ}
    (hreads : config.providerReadsEnabled = true) (hattempts : 1 ≤ attempts)
    (h : Refresh.play config backoff clock attempts latest db (scriptEvents script) =
      some refresh) :
    refresh.Accounted config backoff attempts (db.providerStates.get? config.providerName)
      (scriptEvents script) := by
  obtain ⟨hstands, hanswered⟩ :=
    Refresh.stands_play hreads hattempts (fun _ => transient_of_mem_scriptEvents) h
  exact hstands.accounted hattempts hanswered

end Guarantee

section Sample

def disconnect : Raised := ⟨"ConnectionError", "disconnect", true⟩

/-- A provider that fails after each of two quotes, and then at once. -/
def failingScript : List Connection :=
  [⟨[sampleQuote 60], .failed disconnect rfl⟩, ⟨[sampleQuote 120], .failed disconnect rfl⟩,
    ⟨[], .failed disconnect rfl⟩]

/-- With two attempts the third failure is the last: the call has slept after
the others and has reconnected once. -/
theorem reconnect_budget_accounted_failing :
    let _ : CharacterTables := asciiTables
    let _ : Digest := sampleDigest
    ∃ refresh : Refresh ℕ,
      Refresh.play ⟨"fixture-market", true⟩ id (fun _ => sampleNoon) 2 .empty .empty
        (scriptEvents failingScript) = some refresh ∧
      refresh.log.map Prod.snd = [[], [.sleeps 0, .opens], [], [.sleeps 0, .opens], []] ∧
      storedReconnects (refresh.state ⟨"fixture-market", true⟩) = 1 ∧
      (∃ error, refresh.operation = .raised error) ∧
      refresh.Accounted ⟨"fixture-market", true⟩ id 2 none (scriptEvents failingScript) := by
  intro _ _
  have hplayed : (Refresh.play ⟨"fixture-market", true⟩ id (fun _ => sampleNoon) 2 .empty .empty
      (scriptEvents failingScript)).map (fun refresh =>
        (refresh.log.map Prod.snd, storedReconnects (refresh.state ⟨"fixture-market", true⟩))) =
      some ([[], [.sleeps 0, .opens], [], [.sleeps 0, .opens], []], 1) := by
    decide +kernel
  obtain ⟨refresh, hplays, hshown⟩ := Option.map_eq_some_iff.mp hplayed
  obtain ⟨hlog, hreconnects⟩ := Prod.mk.inj hshown
  have haccounted := reconnect_budget_accounted ⟨"fixture-market", true⟩ id
    (fun _ => sampleNoon) 2 .empty .empty failingScript rfl (by decide) hplays
  have hspends : SpendsBudget 2 (scriptEvents failingScript) :=
    ⟨[.quote (sampleQuote 60), .failed disconnect, .quote (sampleQuote 120)],
      [.failed disconnect, .failed disconnect], [], rfl, rfl, by decide, by decide⟩
  exact ⟨refresh, hplays, hlog, hreconnects, haccounted.raises_iff.mpr hspends, haccounted⟩

end Sample

end EventAlpha
