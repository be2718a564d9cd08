import EventAlpha.InsertionDict
import EventAlpha.KeyedOrder
import EventAlpha.MarketContracts
import EventAlpha.ObservationLog
import Mathlib.Data.Prod.Lex
import Mathlib.Data.String.Basic

/-!
# The market repository

The five tables of the market store, the four transactions that write them
and the three reads.  Observations are append-only: a row is added under its
content fingerprint unless the fingerprint is taken, and no transaction
changes a row of `market_bar_observations` or `market_quote_observations`.

A price column is `NUMERIC(28, 10)`: the number is rounded to ten fractional
digits before the checks see it.  A transaction that meets a number or a text
its column cannot hold, or a violated check, raises and is rolled back; it is
`none`.  A text longer than its column raises also where all the excess is
blank, which the database would cut off.

A read raises, and is `none`, when a row it selects does not pass the
validation of the contract it is rebuilt through.
-/

namespace EventAlpha

open KeyedOrder ObservationLog

section Rows

/-- A row of `providers`. -/
structure ProviderRow where
  providerId : String
  providerType : String
  createdAt : UtcDatetime
  deriving DecidableEq

/-- A row of `instruments`. -/
structure InstrumentRow where
  symbol : String
  assetClass : String
  active : Bool
  createdAt : UtcDatetime
  deriving DecidableEq

/-- A row of `market_bar_observations`. -/
structure MarketBarRow where
  contentHash : String
  observationId : Uuid
  traceId : Uuid
  provider : String
  nativeId : Option String
  symbol : String
  timeframe : String
  barStartAt : UtcDatetime
  barEndAt : UtcDatetime
  providerUpdatedAt : Option UtcDatetime
  receivedAt : UtcDatetime
  processedAt : UtcDatetime
  isFinal : Bool
  «open» : Decimal
  high : Decimal
  low : Decimal
  close : Decimal
  volume : Option Int
  deriving DecidableEq

/-- A row of `market_quote_observations`. -/
structure MarketQuoteRow where
  contentHash : String
  observationId : Uuid
  traceId : Uuid
  provider : String
  nativeId : Option String
  symbol : String
  bid : Option Decimal
  ask : Option Decimal
  last : Option Decimal
  providerTimestamp : Option UtcDatetime
  receivedAt : UtcDatetime
  processedAt : UtcDatetime
  deriving DecidableEq

/-- A row of `provider_state`. -/
structure ProviderStateRow where
  providerId : String
  heartbeatAt : UtcDatetime
  lastMessageReceivedAt : Option UtcDatetime
  lastSuccessAt : Option UtcDatetime
  lastFailureAt : Option UtcDatetime
  consecutiveFailures : ℕ
  reconnectCount : ℕ
  status : String
  detail : Option String
  deriving DecidableEq

/-- The tables of the store, each by its primary key. -/
structure MarketDb where
  providers : InsertionDict String ProviderRow
  instruments : InsertionDict String InstrumentRow
  barObservations : InsertionDict String MarketBarRow
  quoteObservations : InsertionDict String MarketQuoteRow
  providerStates : InsertionDict String ProviderStateRow

/-- The tables after the schema was migrated. -/
def MarketDb.empty : MarketDb := ⟨.empty, .empty, .empty, .empty, .empty⟩

/-- What a column of type `NUMERIC(28, 10)` holds of a number: it is rounded
to ten fractional digits.  More than 18 digits before the point, or more than
16383 behind it, raise. -/
def numericColumn (price : Decimal) : Option Decimal :=
  if price.exponent < -16383 ∨ 10 ^ 28 ≤ (price.toScale 10).coefficient.natAbs then none
  else some (price.toScale 10)

/-- A nullable column of type `NUMERIC(28, 10)`. -/
def nullableNumericColumn : Option Decimal → Option (Option Decimal)
  | none => some none
  | some price => (numericColumn price).map some

/-- The row of a bar under its content hash. -/
def MarketBar.row (bar : MarketBar) (contentHash : String) : Option MarketBarRow := do
  let «open» ← numericColumn bar.open
  let high ← numericColumn bar.high
  let low ← numericColumn bar.low
  let close ← numericColumn bar.close
  return {
    contentHash := contentHash
    observationId := bar.id
    traceId := bar.traceId
    provider := bar.provider
    nativeId := bar.nativeId
    symbol := bar.symbol
    timeframe := bar.timeframe.value
    barStartAt := bar.timestamp
    barEndAt := bar.barEndAt
    providerUpdatedAt := bar.providerUpdatedAt
    receivedAt := bar.receivedAt
    processedAt := bar.processedAt
    isFinal := bar.isFinal
    «open» := «open»
    high := high
    low := low
    close := close
    volume := bar.volume }

/-- The row of a quote under its content hash. -/
def MarketQuote.row (quote : MarketQuote) (contentHash : String) : Option MarketQuoteRow := do
  let bid ← nullableNumericColumn quote.bid
  let ask ← nullableNumericColumn quote.ask
  let last ← nullableNumericColumn quote.last
  return {
    contentHash := contentHash
    observationId := quote.id
    traceId := quote.traceId
    provider := quote.provider
    nativeId := quote.nativeId
    symbol := quote.symbol
    bid := bid
    ask := ask
    last := last
    providerTimestamp := quote.providerTimestamp
    receivedAt := quote.receivedAt
    processedAt := quote.processedAt }

/-- The fields of a bar's row: everything but the prices is stored as given. -/
theorem MarketBar.row_eq_some {bar : MarketBar} {contentHash : String} {row : MarketBarRow}
    (h : bar.row contentHash = some row) :
    ∃ «open» high low close, numericColumn bar.open = some «open» ∧
      numericColumn bar.high = some high ∧ numericColumn bar.low = some low ∧
      numericColumn bar.close = some close ∧
      row = ⟨contentHash, bar.id, bar.traceId, bar.provider, bar.nativeId, bar.symbol,
        bar.timeframe.value, bar.timestamp, bar.barEndAt, bar.providerUpdatedAt,
        bar.receivedAt, bar.processedAt, bar.isFinal, «open», high, low, close,
        bar.volume⟩ := by
  obtain ⟨«open», hopen, h⟩ := Option.bind_eq_some_iff.mp h
  obtain ⟨high, hhigh, h⟩ := Option.bind_eq_some_iff.mp h
  obtain ⟨low, hlow, h⟩ := Option.bind_eq_some_iff.mp h
  obtain ⟨close, hclose, h⟩ := Option.bind_eq_some_iff.mp h
  exact ⟨«open», high, low, close, hopen, hhigh, hlow, hclose, (Option.some.inj h).symm⟩

theorem MarketBar.receivedAt_of_row {bar : MarketBar} {contentHash : String}
    {row : MarketBarRow} (h : bar.row contentHash = some row) :
    row.receivedAt = bar.receivedAt := by
  obtain ⟨«open», high, low, close, -, -, -, -, rfl⟩ := MarketBar.row_eq_some h
  rfl

/-- The fields of a quote's row: everything but the prices is stored as given. -/
theorem MarketQuote.row_eq_some {quote : MarketQuote} {contentHash : String}
    {row : MarketQuoteRow} (h : quote.row contentHash = some row) :
    ∃ bid ask last, nullableNumericColumn quote.bid = some bid ∧
      nullableNumericColumn quote.ask = some ask ∧
      nullableNumericColumn quote.last = some last ∧
      row = ⟨contentHash, quote.id, quote.traceId, quote.provider, quote.nativeId,
        quote.symbol, bid, ask, last, quote.providerTimestamp, quote.receivedAt,
        quote.processedAt⟩ := by
  obtain ⟨bid, hbid, h⟩ := Option.bind_eq_some_iff.mp h
  obtain ⟨ask, hask, h⟩ := Option.bind_eq_some_iff.mp h
  obtain ⟨last, hlast, h⟩ := Option.bind_eq_some_iff.mp h
  exact ⟨bid, ask, last, hbid, hask, hlast, (Option.some.inj h).symm⟩

theorem MarketQuote.receivedAt_of_row {quote : MarketQuote} {contentHash : String}
    {row : MarketQuoteRow} (h : quote.row contentHash = some row) :
    row.receivedAt = quote.receivedAt := by
  obtain ⟨bid, ask, last, -, -, -, rfl⟩ := MarketQuote.row_eq_some h
  rfl

/-- The column widths and checks of `market_bar_observations`. -/
def MarketBarRow.Valid (row : MarketBarRow) : Prop :=
  row.provider.length ≤ 100 ∧ FitsWithin 500 row.nativeId ∧ row.symbol.length ≤ 12 ∧
  row.timeframe.length ≤ 10 ∧ (∀ volume ∈ row.volume, volume < 2 ^ 63) ∧
  row.barStartAt < row.barEndAt ∧
  (row.open.value ≤ row.high.value ∧ row.close.value ≤ row.high.value ∧
    row.low.value ≤ row.high.value) ∧
  (row.low.value ≤ row.open.value ∧ row.low.value ≤ row.close.value ∧
    row.low.value ≤ row.high.value) ∧
  (∀ volume ∈ row.volume, 0 ≤ volume)

instance MarketBarRow.decidableValid (row : MarketBarRow) : Decidable row.Valid := by
  unfold MarketBarRow.Valid; infer_instance

/-- The column widths and checks of `market_quote_observations`. -/
def MarketQuoteRow.Valid (row : MarketQuoteRow) : Prop :=
  row.provider.length ≤ 100 ∧ FitsWithin 500 row.nativeId ∧ row.symbol.length ≤ 12 ∧
  AbsentOrPositive row.bid ∧ AbsentOrPositive row.ask ∧ AbsentOrPositive row.last ∧
  (∀ bid ∈ row.bid, ∀ ask ∈ row.ask, bid.value ≤ ask.value) ∧
  ¬(row.bid = none ∧ row.ask = none ∧ row.last = none)

instance MarketQuoteRow.decidableValid (row : MarketQuoteRow) : Decidable row.Valid := by
  unfold MarketQuoteRow.Valid; infer_instance

/-- The column widths and ranges of `provider_state`. -/
def ProviderStateRow.Valid (row : ProviderStateRow) : Prop :=
  row.consecutiveFailures < 2 ^ 31 ∧ row.reconnectCount < 2 ^ 31 ∧
  row.status.length ≤ 30 ∧ FitsWithin 1000 row.detail

instance ProviderStateRow.decidableValid (row : ProviderStateRow) : Decidable row.Valid := by
  unfold ProviderStateRow.Valid; infer_instance

end Rows

section Rebuilding

/-- The arguments a bar is rebuilt from. -/
def MarketBarRow.fields (row : MarketBarRow) (timeframe : MarketTimeframe) :
    MarketBarFields where
  id := row.observationId
  traceId := row.traceId
  provider := row.provider
  nativeId := row.nativeId
  symbol := row.symbol
  timeframe := timeframe
  timestamp := row.barStartAt
  barEndAt := row.barEndAt
  providerUpdatedAt := row.providerUpdatedAt
  receivedAt := row.receivedAt
  processedAt := row.processedAt
  isFinal := row.isFinal
  «open» := row.open
  high := row.high
  low := row.low
  close := row.close
  volume := row.volume

/-- A bar rebuilt from its row. -/
def MarketBarRow.bar (row : MarketBarRow) : Option MarketBar :=
  (MarketTimeframe.ofText? row.timeframe).bind (fun timeframe =>
    MarketBar.validate (row.fields timeframe))

theorem MarketBarRow.fields_of_bar {row : MarketBarRow} {bar : MarketBar}
    (h : row.bar = some bar) : bar.toMarketBarFields = row.fields bar.timeframe := by
  obtain ⟨timeframe, -, hbar⟩ := Option.bind_eq_some_iff.mp h
  have hfields := MarketBar.fields_of_validate hbar
  rw [hfields]
  rfl

/-- The arguments a quote is rebuilt from. -/
def MarketQuoteRow.fields (row : MarketQuoteRow) : MarketQuoteFields where
  id := row.observationId
  traceId := row.traceId
  symbol := row.symbol
  nativeId := row.nativeId
  bid := row.bid
  ask := row.ask
  last := row.last
  providerTimestamp := row.providerTimestamp
  receivedAt := row.receivedAt
  processedAt := row.processedAt
  provider := row.provider

/-- A quote rebuilt from its row. -/
def MarketQuoteRow.quote (row : MarketQuoteRow) : Option MarketQuote :=
  MarketQuote.validate row.fields

theorem MarketQuoteRow.fields_of_quote {row : MarketQuoteRow} {quote : MarketQuote}
    (h : row.quote = some quote) : quote.toMarketQuoteFields = row.fields :=
  MarketQuote.fields_of_validate h

/-- The results of a function that may fail, if it fails nowhere. -/
def traverse {α β : Type*} (f : α → Option β) : List α → Option (List β)
  | [] => some []
  | a :: l => (f a).bind (fun b => (traverse f l).map (b :: ·))

/-- The order in which bar rows are read, latest first. -/
def MarketBarRow.readKey (row : MarketBarRow) : Int ×ₗ Int ×ₗ Int ×ₗ String :=
  toLex (row.barStartAt, toLex (row.receivedAt, toLex (row.processedAt, row.contentHash)))

/-- The order in which quote rows are read, latest first. -/
def MarketQuoteRow.readKey (row : MarketQuoteRow) : Int ×ₗ Int ×ₗ Int ×ₗ String :=
  toLex (row.providerTimestamp.getD row.receivedAt,
    toLex (row.receivedAt, toLex (row.processedAt, row.contentHash)))

end Rebuilding

namespace MarketDb

section Writes

/-- `_ensure_provider`. -/
def ensureProvider (db : MarketDb) (provider : String) (createdAt : UtcDatetime) :
    Option MarketDb :=
  let row : ProviderRow :=
    { providerId := provider, providerType := "market_data", createdAt := createdAt }
  match db.providers.get? provider with
  | some _ => some db
  | none =>
      if provider.length ≤ 100 then
        some { db with providers := db.providers.set provider row }
      else none

/-- `_ensure_instrument`. -/
def ensureInstrument (db : MarketDb) (symbol : String) (createdAt : UtcDatetime) :
    Option MarketDb :=
  let row : InstrumentRow :=
    { symbol := symbol, assetClass := "unknown", active := true, createdAt := createdAt }
  match db.instruments.get? symbol with
  | some _ => some db
  | none =>
      if symbol.length ≤ 12 then
        some { db with instruments := db.instruments.set symbol row }
      else none

/-- Write the state of a provider. -/
def putState (db : MarketDb) (provider : String) (row : ProviderStateRow) : Option MarketDb :=
  if row.Valid then some { db with providerStates := db.providerStates.set provider row } else none

variable [Digest]

/-- `save_quote`: whether a row was added, and the tables after it. -/
def saveQuote (db : MarketDb) (quote : MarketQuote) : Option (Bool × MarketDb) := do
  let contentHash ← quoteFingerprint quote
  let db ← db.ensureProvider quote.provider quote.processedAt
  let db ← db.ensureInstrument quote.symbol quote.processedAt
  match db.quoteObservations.get? contentHash with
  | some _ => return (false, db)
  | none =>
      let row ← quote.row contentHash
      if row.Valid then
        return (true, { db with quoteObservations := db.quoteObservations.set contentHash row })
      else none

/-- The body of the loop of `save_bars`: how many rows one bar adds, and the
tables after it. -/
def saveBar (db : MarketDb) (bar : MarketBar) : Option (ℕ × MarketDb) := do
  let db ← db.ensureProvider bar.provider bar.processedAt
  let db ← db.ensureInstrument bar.symbol bar.processedAt
  let contentHash ← barFingerprint bar
  match db.barObservations.get? contentHash with
  | some _ => return (0, db)
  | none =>
      let row ← bar.row contentHash
      if row.Valid then
        return (1, { db with barObservations := db.barObservations.set contentHash row })
      else none

/-- `save_bars`: how many rows were added, and the tables after it. -/
def saveBars (db : MarketDb) (bars : List MarketBar) : Option (ℕ × MarketDb) :=
  bars.foldlM (fun state bar => do
    let (inserted, db) ← saveBar state.2 bar
    return (state.1 + inserted, db)) (0, db)

/-- The later of a stored moment of receipt and a new one, as far as given. -/
def laterMessage (current received : Option UtcDatetime) : Option UtcDatetime :=
  match received, current with
  | none, current => current
  | some received, none => some received
  | some received, some current => if current < received then some received else some current

omit [Digest] in
/-- `record_success`. -/
def recordSuccess (db : MarketDb) (provider : String) (observedAt : UtcDatetime)
    (lastMessageReceivedAt : Option UtcDatetime) (reconnected : Bool) : Option MarketDb := do
  let db ← db.ensureProvider provider observedAt
  match db.providerStates.get? provider with
  | none =>
      db.putState provider {
        providerId := provider
        heartbeatAt := observedAt
        lastMessageReceivedAt := lastMessageReceivedAt
        lastSuccessAt := some observedAt
        lastFailureAt := none
        consecutiveFailures := 0
        reconnectCount := if reconnected then 1 else 0
        status := ProviderStatus.healthy.value
        detail := none }
  | some state =>
      db.putState provider { state with
        heartbeatAt := observedAt
        lastMessageReceivedAt :=
          laterMessage state.lastMessageReceivedAt lastMessageReceivedAt
        lastSuccessAt := some observedAt
        consecutiveFailures := 0
        reconnectCount := state.reconnectCount + if reconnected then 1 else 0
        status := ProviderStatus.healthy.value
        detail := none }

/-- The status a failure leaves a provider in. -/
def failureStatus (exhausted : Bool) : ProviderStatus :=
  if exhausted then ProviderStatus.unavailable else ProviderStatus.degraded

omit [Digest] in
/-- `record_failure`. -/
def recordFailure (db : MarketDb) (provider : String) (observedAt : UtcDatetime)
    (detail : String) (exhausted : Bool) (lastMessageReceivedAt : Option UtcDatetime) :
    Option MarketDb := do
  let db ← db.ensureProvider provider observedAt
  match db.providerStates.get? provider with
  | none =>
      db.putState provider {
        providerId := provider
        heartbeatAt := observedAt
        lastMessageReceivedAt := lastMessageReceivedAt
        lastSuccessAt := none
        lastFailureAt := some observedAt
        consecutiveFailures := 1
        reconnectCount := 0
        status := (failureStatus exhausted).value
        detail := some detail }
  | some state =>
      db.putState provider { state with
        heartbeatAt := observedAt
        lastMessageReceivedAt :=
          laterMessage state.lastMessageReceivedAt lastMessageReceivedAt
        lastFailureAt := some observedAt
        consecutiveFailures := state.consecutiveFailures + 1
        status := (failureStatus exhausted).value
        detail := some detail }

end Writes

section Reads

variable [CharacterTables]

/-- The rows `latest_quote` selects. -/
def quoteRows (db : MarketDb) (provider symbol : String) (asOf : Option UtcDatetime) :
    List MarketQuoteRow :=
  db.quoteObservations.values.filter (fun row =>
    row.provider = provider ∧ row.symbol = upper symbol ∧ SeenAt asOf row.receivedAt)

/-- `latest_quote`. -/
def latestQuote (db : MarketDb) (provider symbol : String) (asOf : Option UtcDatetime) :
    Option (Option MarketQuote) :=
  match (sortedByDesc MarketQuoteRow.readKey (quoteRows db provider symbol asOf)).head? with
  | none => some none
  | some row => row.quote.map some

/-- The rows `bars` selects. -/
def barRows (db : MarketDb) (provider symbol timeframe : String) (asOf : Option UtcDatetime)
    (finalOnly : Bool) : List MarketBarRow :=
  db.barObservations.values.filter (fun row =>
    row.provider = provider ∧ row.symbol = upper symbol ∧ row.timeframe = timeframe ∧
      SeenAt asOf row.receivedAt ∧ (finalOnly = true → row.isFinal = true))

/-- The loop of `bars`: the first row of every start, until `limit` are
selected. -/
def selectRows (limit : Int) : List MarketBarRow → List UtcDatetime → List MarketBarRow →
    List MarketBarRow
  | [], _, selected => selected
  | row :: rows, seenStarts, selected =>
      if row.barStartAt ∈ seenStarts then selectRows limit rows seenStarts selected
      else if ((selected ++ [row]).length : Int) = limit then selected ++ [row]
      else selectRows limit rows (row.barStartAt :: seenStarts) (selected ++ [row])

/-- `bars`. -/
def bars (db : MarketDb) (provider symbol timeframe : String) (limit : Int)
    (asOf : Option UtcDatetime) (finalOnly : Bool) : Option (List MarketBar) :=
  let rows := sortedByDesc MarketBarRow.readKey
    (barRows db provider symbol timeframe asOf finalOnly)
  traverse MarketBarRow.bar (selectRows limit rows [] []).reverse

end Reads

section WriteLemmas

/-- `_ensure_provider` leaves the observations and the states alone. -/
theorem ensureProvider_frame {db db' : MarketDb} {provider : String} {createdAt : UtcDatetime}
    (h : db.ensureProvider provider createdAt = some db') :
    db'.barObservations = db.barObservations ∧
      db'.quoteObservations = db.quoteObservations ∧
      db'.providerStates = db.providerStates := by
  unfold ensureProvider at h
  split at h
  · cases h
    exact ⟨rfl, rfl, rfl⟩
  · obtain ⟨-, h⟩ := Option.ite_none_right_eq_some.mp h
    cases h
    exact ⟨rfl, rfl, rfl⟩

/-- `_ensure_instrument` leaves the observations and the states alone. -/
theorem ensureInstrument_frame {db db' : MarketDb} {symbol : String} {createdAt : UtcDatetime}
    (h : db.ensureInstrument symbol createdAt = some db') :
    db'.barObservations = db.barObservations ∧
      db'.quoteObservations = db.quoteObservations ∧
      db'.providerStates = db.providerStates := by
  unfold ensureInstrument at h
  split at h
  · cases h
    exact ⟨rfl, rfl, rfl⟩
  · obtain ⟨-, h⟩ := Option.ite_none_right_eq_some.mp h
    cases h
    exact ⟨rfl, rfl, rfl⟩

/-- The reference rows of an observation leave the observations alone. -/
theorem ensure_frame {db db₁ db₂ : MarketDb} {provider symbol : String}
    {createdAt createdAt' : UtcDatetime}
    (hprovider : db.ensureProvider provider createdAt = some db₁)
    (hinstrument : db₁.ensureInstrument symbol createdAt' = some db₂) :
    db₂.barObservations = db.barObservations ∧
      db₂.quoteObservations = db.quoteObservations := by
  obtain ⟨hbars₁, hquotes₁, -⟩ := ensureProvider_frame hprovider
  obtain ⟨hbars₂, hquotes₂, -⟩ := ensureInstrument_frame hinstrument
  exact ⟨hbars₂.trans hbars₁, hquotes₂.trans hquotes₁⟩

/-- A state write leaves the observations alone. -/
theorem putState_frame {db db' : MarketDb} {provider : String} {row : ProviderStateRow}
    (h : db.putState provider row = some db') :
    db'.barObservations = db.barObservations ∧
      db'.quoteObservations = db.quoteObservations := by
  obtain ⟨-, h⟩ := Option.ite_none_right_eq_some.mp h
  cases h
  exact ⟨rfl, rfl⟩

theorem recordSuccess_frame {db db' : MarketDb} {provider : String}
    {observedAt : UtcDatetime} {lastMessageReceivedAt : Option UtcDatetime}
    {reconnected : Bool}
    (h : db.recordSuccess provider observedAt lastMessageReceivedAt reconnected = some db') :
    db'.barObservations = db.barObservations ∧
      db'.quoteObservations = db.quoteObservations := by
  obtain ⟨db₁, hprovider, h⟩ := Option.bind_eq_some_iff.mp h
  obtain ⟨hbars, hquotes, -⟩ := ensureProvider_frame hprovider
  rw [← hbars, ← hquotes]
  split at h
  · exact putState_frame h
  · exact putState_frame h

theorem recordFailure_frame {db db' : MarketDb} {provider : String}
    {observedAt : UtcDatetime} {detail : String} {exhausted : Bool}
    {lastMessageReceivedAt : Option UtcDatetime}
    (h : db.recordFailure provider observedAt detail exhausted lastMessageReceivedAt =
      some db') :
    db'.barObservations = db.barObservations ∧
      db'.quoteObservations = db.quoteObservations := by
  obtain ⟨db₁, hprovider, h⟩ := Option.bind_eq_some_iff.mp h
  obtain ⟨hbars, hquotes, -⟩ := ensureProvider_frame hprovider
  rw [← hbars, ← hquotes]
  split at h
  · exact putState_frame h
  · exact putState_frame h

variable [Digest]

/-- What a saved bar does to the observations: its fingerprint is known and
nothing changes, or its row is added. -/
theorem saveBar_eq_some {db db' : MarketDb} {bar : MarketBar} {inserted : ℕ}
    (h : db.saveBar bar = some (inserted, db')) :
    ∃ contentHash, barFingerprint bar = some contentHash ∧
      db'.quoteObservations = db.quoteObservations ∧
      ((contentHash ∈ db.barObservations.keys ∧
          db'.barObservations = db.barObservations ∧ inserted = 0) ∨
        (contentHash ∉ db.barObservations.keys ∧ inserted = 1 ∧
          ∃ row, bar.row contentHash = some row ∧ row.Valid ∧
            db'.barObservations = db.barObservations.set contentHash row)) := by
  obtain ⟨db₁, hprovider, h⟩ := Option.bind_eq_some_iff.mp h
  obtain ⟨db₂, hinstrument, h⟩ := Option.bind_eq_some_iff.mp h
  obtain ⟨contentHash, hhash, h⟩ := Option.bind_eq_some_iff.mp h
  obtain ⟨hbars, hquotes⟩ := ensure_frame hprovider hinstrument
  refine ⟨contentHash, hhash, ?_⟩
  split at h
  case h_1 row hget =>
    cases h
    refine ⟨hquotes, Or.inl ⟨?_, hbars, rfl⟩⟩
    rw [← hbars]
    exact InsertionDict.mem_keys.mpr ⟨row, InsertionDict.get?_eq_some_iff.mp hget⟩
  case h_2 hget =>
    obtain ⟨row, hrow, h⟩ := Option.bind_eq_some_iff.mp h
    obtain ⟨hvalid, h⟩ := Option.ite_none_right_eq_some.mp h
    cases h
    refine ⟨hquotes, Or.inr ⟨?_, rfl, row, hrow, hvalid, ?_⟩⟩
    · rw [← hbars]
      exact InsertionDict.get?_eq_none_iff.mp hget
    · rw [← hbars]

/-- What a saved quote does to the observations: its fingerprint is known and
nothing changes, or its row is added. -/
theorem saveQuote_eq_some {db db' : MarketDb} {quote : MarketQuote} {inserted : Bool}
    (h : db.saveQuote quote = some (inserted, db')) :
    ∃ contentHash, quoteFingerprint quote = some contentHash ∧
      db'.barObservations = db.barObservations ∧
      ((contentHash ∈ db.quoteObservations.keys ∧
          db'.quoteObservations = db.quoteObservations ∧ inserted = false) ∨
        (contentHash ∉ db.quoteObservations.keys ∧ inserted = true ∧
          ∃ row, quote.row contentHash = some row ∧ row.Valid ∧
            db'.quoteObservations = db.quoteObservations.set contentHash row)) := by
  obtain ⟨contentHash, hhash, h⟩ := Option.bind_eq_some_iff.mp h
  obtain ⟨db₁, hprovider, h⟩ := Option.bind_eq_some_iff.mp h
  obtain ⟨db₂, hinstrument, h⟩ := Option.bind_eq_some_iff.mp h
  obtain ⟨hbars, hquotes⟩ := ensure_frame hprovider hinstrument
  refine ⟨contentHash, hhash, ?_⟩
  split at h
  case h_1 row hget =>
    cases h
    refine ⟨hbars, Or.inl ⟨?_, hquotes, rfl⟩⟩
    rw [← hquotes]
    exact InsertionDict.mem_keys.mpr ⟨row, InsertionDict.get?_eq_some_iff.mp hget⟩
  case h_2 hget =>
    obtain ⟨row, hrow, h⟩ := Option.bind_eq_some_iff.mp h
    obtain ⟨hvalid, h⟩ := Option.ite_none_right_eq_some.mp h
    cases h
    refine ⟨hbars, Or.inr ⟨?_, rfl, row, hrow, hvalid, ?_⟩⟩
    · rw [← hquotes]
      exact InsertionDict.get?_eq_none_iff.mp hget
    · rw [← hquotes]

omit [Digest] in
theorem exists_ensureProvider (db : MarketDb) {provider : String} (createdAt : UtcDatetime)
    (h : provider.length ≤ 100) : ∃ db', db.ensureProvider provider createdAt = some db' := by
  unfold ensureProvider
  split
  · exact ⟨_, rfl⟩
  · exact ⟨_, if_pos h⟩

omit [Digest] in
theorem exists_ensureInstrument (db : MarketDb) {symbol : String} (createdAt : UtcDatetime)
    (h : symbol.length ≤ 12) : ∃ db', db.ensureInstrument symbol createdAt = some db' := by
  unfold ensureInstrument
  split
  · exact ⟨_, rfl⟩
  · exact ⟨_, if_pos h⟩

/-- A bar whose row fits the columns and passes the checks can be saved. -/
theorem exists_saveBar (db : MarketDb) {bar : MarketBar} {contentHash : String}
    {row : MarketBarRow} (hhash : barFingerprint bar = some contentHash)
    (hrow : bar.row contentHash = some row) (hvalid : row.Valid) :
    ∃ saved, db.saveBar bar = some saved := by
  obtain ⟨«open», high, low, close, -, -, -, -, hfields⟩ := MarketBar.row_eq_some hrow
  have hwidths : bar.provider.length ≤ 100 ∧ bar.symbol.length ≤ 12 := by
    rw [hfields] at hvalid
    exact ⟨hvalid.1, hvalid.2.2.1⟩
  obtain ⟨db₁, hprovider⟩ := db.exists_ensureProvider bar.processedAt hwidths.1
  obtain ⟨db₂, hinstrument⟩ := db₁.exists_ensureInstrument bar.processedAt hwidths.2
  unfold saveBar
  rw [hprovider, Option.bind_eq_bind, Option.bind_some, hinstrument, Option.bind_eq_bind,
    Option.bind_some, hhash, Option.bind_eq_bind, Option.bind_some]
  split
  · exact ⟨_, rfl⟩
  · rw [hrow, Option.bind_some, if_pos hvalid]
    exact ⟨_, rfl⟩

/-- What `save_bars` reports of one bar is how many rows it adds. -/
theorem saveBar_inserted {db db' : MarketDb} {bar : MarketBar} {inserted : ℕ}
    (h : db.saveBar bar = some (inserted, db')) :
    db'.barObservations.values.length = db.barObservations.values.length + inserted := by
  obtain ⟨contentHash, -, -, hknown | hnew⟩ := saveBar_eq_some h
  · obtain ⟨-, hbars, rfl⟩ := hknown
    rw [hbars, Nat.add_zero]
  · obtain ⟨hkey, rfl, row, -, -, hbars⟩ := hnew
    rw [hbars, InsertionDict.values_set_of_notMem hkey, List.length_append, List.length_singleton]

@[simp] theorem saveBars_nil (db : MarketDb) : db.saveBars [] = some (0, db) := rfl

/-- The last bar of a batch is saved after the others. -/
theorem saveBars_snoc (db : MarketDb) (bars : List MarketBar) (bar : MarketBar) :
    db.saveBars (bars ++ [bar]) =
      (db.saveBars bars).bind (fun state =>
        (state.2.saveBar bar).map (fun added => (state.1 + added.1, added.2))) := by
  simp only [saveBars, List.foldlM_append, List.foldlM_cons, List.foldlM_nil]
  refine Option.bind_congr ?_
  intro state _
  cases state.2.saveBar bar <;> rfl

/-- So can a batch of such bars. -/
theorem exists_saveBars (db : MarketDb) {bars : List MarketBar}
    (h : ∀ bar ∈ bars, ∃ contentHash row, barFingerprint bar = some contentHash ∧
      bar.row contentHash = some row ∧ row.Valid) :
    ∃ saved, db.saveBars bars = some saved := by
  induction bars using List.reverseRecOn with
  | nil => exact ⟨_, saveBars_nil db⟩
  | append_singleton bars bar ih =>
    obtain ⟨saved, hsaved⟩ := ih (fun b hb => h b (List.mem_append_left _ hb))
    obtain ⟨contentHash, row, hhash, hrow, hvalid⟩ :=
      h bar (List.mem_append_right _ (List.mem_singleton_self bar))
    obtain ⟨added, hadded⟩ := exists_saveBar saved.2 hhash hrow hvalid
    rw [saveBars_snoc, hsaved, Option.bind_some, hadded]
    exact ⟨_, rfl⟩

/-- What `save_bars` reports is how many rows it adds. -/
theorem saveBars_inserted {db db' : MarketDb} {bars : List MarketBar} {inserted : ℕ}
    (h : db.saveBars bars = some (inserted, db')) :
    db'.barObservations.values.length = db.barObservations.values.length + inserted := by
  induction bars using List.reverseRecOn generalizing inserted db' with
  | nil =>
    cases h
    rfl
  | append_singleton bars bar ih =>
    rw [saveBars_snoc, Option.bind_eq_some_iff] at h
    obtain ⟨⟨count, db₁⟩, hbars, h⟩ := h
    obtain ⟨⟨added, db₂⟩, hbar, heq⟩ := Option.map_eq_some_iff.mp h
    cases heq
    rw [saveBar_inserted hbar, ih hbars, Nat.add_assoc]

end WriteLemmas

end MarketDb

end EventAlpha
