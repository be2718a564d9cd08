import EventAlpha.PointInTimeReads
import EventAlpha.RunLog

/-!
# The market data service

The operations of one `MarketDataService` over a durable store: `latest`, and
`refresh_watchlist` with its reconnecting stream.  Several of them may be under
way in one process.  An operation runs from one `await` to the next without
interruption, so it is a state machine whose states are its awaits.

A call of the store runs in a thread.  It takes effect when the thread commits
(`perform`), and the operation goes on with its reply later (`resume`).  Either
may raise: before the commit, which is rolled back, or after it.

What the provider sends, what the clock shows, when an operation is cancelled
and what other processes write is left open.
-/

namespace EventAlpha

open RunLog

/-- `_quote_rank`. -/
def MarketQuoteFields.quoteRank (quote : MarketQuoteFields) : Int ×ₗ Int ×ₗ Uuid :=
  toLex (quote.effectiveTime, toLex (quote.receivedAt, quote.id))

/-- `_remember_quote`. -/
def rememberQuote (latest : InsertionDict String MarketQuote) (quote : MarketQuote) :
    InsertionDict String MarketQuote :=
  match latest.get? quote.symbol with
  | none => latest.set quote.symbol quote
  | some current =>
      if current.quoteRank < quote.quoteRank then latest.set quote.symbol quote else latest

/-- An exception: the name of its type, its text, and whether it is one of
`TRANSIENT_MARKET_ERRORS`. -/
structure Raised where
  typeName : String
  message : String
  transient : Bool
  deriving DecidableEq

/-- The `MarketPersistenceError` with a text. -/
def Raised.persistence (message : String) : Raised := ⟨"MarketPersistenceError", message, false⟩

/-- The loop variables of `refresh_watchlist`. -/
structure Watch where
  attempts : Int
  count : ℕ
  lastMessage : Option UtcDatetime
  consecutiveFailures : ℕ
  reconnectPending : Bool
  deriving DecidableEq

/-- Before the first quote. -/
def Watch.start (attempts : Int) : Watch := ⟨attempts, 0, none, 0, false⟩

/-- A quote is stored: its receipt counts. -/
def Watch.received (watch : Watch) (quote : MarketQuote) : Watch :=
  { watch with lastMessage := some (match watch.lastMessage with
      | none => quote.receivedAt
      | some last => max last quote.receivedAt) }

/-- A quote is published. -/
def Watch.delivered (watch : Watch) : Watch :=
  { watch with count := watch.count + 1, consecutiveFailures := 0, reconnectPending := false }

/-- The provider has failed once more. -/
def Watch.failed (watch : Watch) : Watch :=
  { watch with consecutiveFailures := watch.consecutiveFailures + 1 }

def Watch.exhausted (watch : Watch) : Bool := watch.attempts ≤ watch.consecutiveFailures

/-- The failure is recorded; a new stream is opened after the backoff. -/
def Watch.retried (watch : Watch) : Watch := { watch with reconnectPending := true }

/-- The calls of the store, with what the operation needs to go on.  The quote
to save is that of `latest`, or one of a stream. -/
inductive StoreCall
  | latestQuote (symbol : String) (asOf : Option UtcDatetime)
  | saveQuote (quote : MarketQuote) (watch : Option Watch)
  | recordSuccess (quote : MarketQuote) (watch : Watch)
  | recordFailure (error : Raised) (watch : Watch)
  | reportFailure (error : Raised) (lastMessage : Option UtcDatetime)
  deriving DecidableEq

/-- What a call of the store returns or raises; only `latest_quote` returns a
quote. -/
abbrev StoreReply := Except Raised (Option MarketQuote)

/-- Where an operation is. -/
inductive Operation
  | idle
  | fetching
  | streaming (watch : Watch)
  | calling (call : StoreCall)
  | called (call : StoreCall) (reply : StoreReply)
  | sleeping (watch : Watch)
  | returnedQuote (quote : MarketQuote)
  | returnedCount (count : ℕ)
  | raised (error : Raised)

/-- Whether an operation awaits the provider. -/
def Operation.AwaitsProvider : Operation → Prop
  | .fetching | .streaming _ => True
  | _ => False

/-- Whether an operation has come to its end. -/
def Operation.Ended : Operation → Prop
  | .returnedQuote _ | .returnedCount _ | .raised _ => True
  | _ => False

theorem Operation.AwaitsProvider.not_ended {operation : Operation}
    (h : operation.AwaitsProvider) : ¬ operation.Ended := by
  cases operation <;> first | exact id | exact absurd h id

/-- How a service was built. -/
structure MarketConfig where
  providerName : String
  providerReadsEnabled : Bool

/-- A process with one service, and the store it shares with others. -/
structure MarketProcess where
  latest : InsertionDict String MarketQuote
  db : MarketDb
  operations : ℕ → Operation

/-- A process that has just built its service. -/
def MarketProcess.started (db : MarketDb) : MarketProcess := ⟨.empty, db, fun _ => .idle⟩

/-- An operation goes on. -/
def MarketProcess.enter (process : MarketProcess) (op : ℕ) (operation : Operation) :
    MarketProcess :=
  { process with operations := Function.update process.operations op operation }

@[simp] theorem MarketProcess.enter_latest (process : MarketProcess) (op : ℕ)
    (operation : Operation) : (process.enter op operation).latest = process.latest := rfl

@[simp] theorem MarketProcess.enter_db (process : MarketProcess) (op : ℕ)
    (operation : Operation) : (process.enter op operation).db = process.db := rfl

@[simp] theorem MarketProcess.enter_operations (process : MarketProcess) (op op' : ℕ)
    (operation : Operation) :
    (process.enter op operation).operations op' =
      if op' = op then operation else process.operations op' := by
  simp [enter, Function.update_apply]

section Calls

variable [CharacterTables] [Digest]

/-- The call a thread makes of the store, at the time the clock shows. -/
def StoreCall.commit (config : MarketConfig) (observedAt : UtcDatetime) (db : MarketDb) :
    StoreCall → Option (Option MarketQuote × MarketDb)
  | latestQuote symbol asOf =>
      (db.latestQuote config.providerName symbol asOf).map (fun found => (found, db))
  | saveQuote quote _ => (db.saveQuote quote).map (fun saved => (none, saved.2))
  | recordSuccess _ watch =>
      (db.recordSuccess config.providerName observedAt watch.lastMessage
        watch.reconnectPending).map (fun db => (none, db))
  | recordFailure error watch =>
      (db.recordFailure config.providerName observedAt error.typeName watch.exhausted
        watch.lastMessage).map (fun db => (none, db))
  | reportFailure error lastMessage =>
      (db.recordFailure config.providerName observedAt ("persistence:" ++ error.typeName) true
        lastMessage).map (fun db => (none, db))

/-- What may come of a call.  It raises before its commit or after it. -/
inductive Performs (config : MarketConfig) (db : MarketDb) (call : StoreCall) :
    StoreReply → MarketDb → Prop
  | returns (observedAt : UtcDatetime) {found : Option MarketQuote} {db' : MarketDb}
      (hcommit : call.commit config observedAt db = some (found, db')) :
      Performs config db call (.ok found) db'
  | raises (error : Raised) : Performs config db call (.error error) db
  | raisesAfter (observedAt : UtcDatetime) (error : Raised) {found : Option MarketQuote}
      {db' : MarketDb} (hcommit : call.commit config observedAt db = some (found, db')) :
      Performs config db call (.error error) db'

/-- What the provider sends or raises. -/
inductive ProviderEvent
  | quote (quote : MarketQuote)
  | ended
  | failed (error : Raised)
  deriving DecidableEq

/-- How an operation that awaits the provider goes on. -/
def Operation.provided : Operation → ProviderEvent → Operation
  | .fetching, .quote quote => .calling (.saveQuote quote none)
  | .fetching, .failed error => .raised error
  | .streaming watch, .quote quote => .calling (.saveQuote quote (some watch))
  | .streaming watch, .ended => .returnedCount watch.count
  | .streaming watch, .failed error =>
      if error.transient then .calling (.recordFailure error watch.failed) else .raised error
  | operation, _ => operation

/-- How an operation goes on after a call of the store, and what it leaves in
`_latest`. -/
def StoreCall.resume (latest : InsertionDict String MarketQuote) :
    StoreCall → StoreReply → Operation × InsertionDict String MarketQuote
  | latestQuote _ _, .ok (some quote) => (.returnedQuote quote, rememberQuote latest quote)
  | latestQuote symbol _, .ok none => (.raised ⟨"KeyError", symbol, false⟩, latest)
  | latestQuote _ _, .error error => (.raised error, latest)
  | saveQuote quote none, .ok _ => (.returnedQuote quote, rememberQuote latest quote)
  | saveQuote quote (some watch), .ok _ =>
      (.calling (.recordSuccess quote (watch.received quote)), latest)
  | saveQuote quote _, .error error =>
      (.calling (.reportFailure error (some quote.receivedAt)), latest)
  | recordSuccess quote watch, .ok _ => (.streaming watch.delivered, rememberQuote latest quote)
  | recordSuccess _ watch, .error error =>
      (.calling (.reportFailure error watch.lastMessage), latest)
  | recordFailure error watch, .ok _ =>
      if watch.exhausted then (.raised error, latest) else (.sleeping watch.retried, latest)
  | recordFailure _ _, .error error =>
      (.raised (.persistence ("Could not persist provider failure: " ++ error.message)), latest)
  | reportFailure error _, _ =>
      (.raised (.persistence ("Market persistence failed: " ++ error.message)), latest)

/-- How `latest` begins. -/
def MarketConfig.beginLatest (config : MarketConfig) (symbol : String)
    (asOf : Option UtcDatetime) : Operation :=
  if config.providerReadsEnabled then .fetching else .calling (.latestQuote (upper symbol) asOf)

/-- How `refresh_watchlist` begins. -/
def MarketConfig.beginRefresh (config : MarketConfig) (attempts : Int) : Operation :=
  if config.providerReadsEnabled = false then
    .raised ⟨"RuntimeError", "Read-only market service cannot open a provider stream", false⟩
  else if attempts < 1 then .raised ⟨"ValueError", "attempts must be positive", false⟩
  else .streaming (.start attempts)

/-- The moves of a process. -/
inductive MarketAction
  | latest (op : ℕ) (symbol : String) (asOf : Option UtcDatetime)
  | refreshWatchlist (op : ℕ) (attempts : Int)
  | provide (op : ℕ) (event : ProviderEvent)
  | perform (op : ℕ)
  | resume (op : ℕ)
  | wake (op : ℕ)
  | cancel (op : ℕ)
  | write (call : MarketCall)

/-- The operation a move belongs to; a write is another process's. -/
def MarketAction.operation : MarketAction → Option ℕ
  | latest op _ _ | refreshWatchlist op _ | provide op _ | perform op | resume op | wake op
  | cancel op => some op
  | write _ => none

/-- One move. -/
inductive MarketStep (config : MarketConfig) : MarketProcess → MarketAction → MarketProcess → Prop
  | latest (process : MarketProcess) (op : ℕ) (symbol : String) (asOf : Option UtcDatetime)
      (hidle : process.operations op = .idle) :
      MarketStep config process (.latest op symbol asOf)
        (process.enter op (config.beginLatest symbol asOf))
  | refreshWatchlist (process : MarketProcess) (op : ℕ) (attempts : Int)
      (hidle : process.operations op = .idle) :
      MarketStep config process (.refreshWatchlist op attempts)
        (process.enter op (config.beginRefresh attempts))
  | provide (process : MarketProcess) (op : ℕ) (event : ProviderEvent)
      (hawaits : (process.operations op).AwaitsProvider) :
      MarketStep config process (.provide op event)
        (process.enter op ((process.operations op).provided event))
  | perform (process : MarketProcess) (op : ℕ) {call : StoreCall} {reply : StoreReply}
      {db' : MarketDb} (hcalling : process.operations op = .calling call)
      (hperforms : Performs config process.db call reply db') :
      MarketStep config process (.perform op)
        { process.enter op (.called call reply) with db := db' }
  | resume (process : MarketProcess) (op : ℕ) {call : StoreCall} {reply : StoreReply}
      (hcalled : process.operations op = .called call reply) :
      MarketStep config process (.resume op)
        { process.enter op (call.resume process.latest reply).1 with
          latest := (call.resume process.latest reply).2 }
  | wake (process : MarketProcess) (op : ℕ) {watch : Watch}
      (hsleeping : process.operations op = .sleeping watch) :
      MarketStep config process (.wake op) (process.enter op (.streaming watch))
  | cancel (process : MarketProcess) (op : ℕ) (hrunning : ¬ (process.operations op).Ended) :
      MarketStep config process (.cancel op)
        (process.enter op (.raised ⟨"CancelledError", "", false⟩))
  | write (process : MarketProcess) (call : MarketCall) {db' : MarketDb}
      (hcommit : call.commit process.db = some db') :
      MarketStep config process (.write call) { process with db := db' }

end Calls

end EventAlpha
