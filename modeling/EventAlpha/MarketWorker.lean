import EventAlpha.BarRefresh
import EventAlpha.ReplayMarket

/-!
# The market worker

`market_worker.main` with the replay provider: pass after pass it refreshes the
watchlist and then the bars of the watchlist.  A pass that raises ends its
process.  Whatever the readings of the clocks are, as long as the provider can
answer, every pass reports the same two counts, and what is stored is one quote
for each symbol and reading and one bar for each symbol and minute covered
(`market_worker_stores_once`): with `REPLAY_AT` set, later passes add nothing.
-/

namespace EventAlpha

open ObservationLog

/-- How an error of the replay provider is raised.  None of them is transient. -/
def ReplayError.raised : ReplayError → Raised
  | valueError message => ⟨"ValueError", message, false⟩
  | keyError key => ⟨"KeyError", key, false⟩
  | overflowError => ⟨"OverflowError", "date value out of range", false⟩
  | validationError => ⟨"ValidationError", "", false⟩

theorem MarketQuote.eq_of_fields {quote quote' : MarketQuote}
    (h : quote.toMarketQuoteFields = quote'.toMarketQuoteFields) : quote = quote' := by
  cases quote
  cases quote'
  cases h
  rfl

namespace ReplayMarketDataProvider

variable (uuid5 : String → Uuid)

/-- The arguments of the quote at a reading. -/
def quoteFields (normalized : String) (now : UtcDatetime) : MarketQuoteFields :=
  let last : Decimal := if normalized = "ACME" then ⟨10124, -2⟩ else ⟨54218, -2⟩
  let nativeId := normalized ++ ":" ++ CivilTime.isoformat now
  { id := uuid5 ("eventalpha:quote:" ++ nativeId)
    traceId := uuid5 ("eventalpha:quote-trace:" ++ nativeId)
    symbol := normalized
    nativeId := some nativeId
    bid := some (last.plus ⟨-2, -2⟩)
    ask := some (last.plus ⟨2, -2⟩)
    last := some last
    providerTimestamp := some now
    receivedAt := now
    processedAt := now
    provider := name }

variable [CharacterTables]

/-- `latest_quote`. -/
def latestQuote (clock : ClockReading) (symbol : String) : Except ReplayError MarketQuote :=
  if ¬Known (upper symbol) then .error (.keyError (upper symbol))
  else
    (now clock).bind (fun now =>
      match MarketQuote.validate (quoteFields uuid5 (upper symbol) now) with
      | some quote => .ok quote
      | none => .error .validationError)

/-- `stream_quotes`, as the service hears it: each symbol comes with the reading
of the clock when its quote is asked for. -/
def streamQuotes : List (String × ClockReading) → List ProviderEvent
  | [] => [.ended]
  | (symbol, clock) :: later =>
      match latestQuote uuid5 clock symbol with
      | .ok quote => .quote quote :: streamQuotes later
      | .error error => [.failed error.raised]

/-- A quote is made up if the symbol is known and the clock can be read. -/
def QuoteAnswered (clock : ClockReading) (symbol : String) (receivedAt : UtcDatetime) : Prop :=
  Known (upper symbol) ∧ now clock = .ok receivedAt

section Quotes

variable {normalized symbol : String} {receivedAt : UtcDatetime} {clock : ClockReading}
  {quote quote' : MarketQuote}

/-- The last price of a symbol, in cents. -/
def lastCents (normalized : String) : Int := if normalized = "ACME" then 10124 else 54218

omit [CharacterTables] in
theorem lastCents_bounds (normalized : String) :
    10000 ≤ lastCents normalized ∧ lastCents normalized < 100000 := by
  unfold lastCents
  split <;> omega

omit [CharacterTables] in
/-- The prices of a quote in cents. -/
theorem quoteFields_prices (normalized : String) (receivedAt : UtcDatetime) :
    (quoteFields uuid5 normalized receivedAt).bid = some ⟨lastCents normalized - 2, -2⟩ ∧
      (quoteFields uuid5 normalized receivedAt).ask = some ⟨lastCents normalized + 2, -2⟩ ∧
      (quoteFields uuid5 normalized receivedAt).last = some ⟨lastCents normalized, -2⟩ := by
  unfold lastCents
  by_cases hsymbol : normalized = "ACME"
  · simp [quoteFields, hsymbol, Decimal.plus]
  · simp [quoteFields, hsymbol, Decimal.plus]

omit [CharacterTables] in
/-- Every quote the provider makes up passes the checks of the contract. -/
theorem quoteFields_accepted (hknown : Known normalized)
    (hfirst : CivilTime.firstInstant ≤ receivedAt) (hlast : receivedAt ≤ CivilTime.lastInstant) :
    (quoteFields uuid5 normalized receivedAt).Accepted := by
  obtain ⟨hbid, hask, hlastPrice⟩ := quoteFields_prices uuid5 normalized receivedAt
  obtain ⟨hcents, -⟩ := lastCents_bounds normalized
  have hpositive : ∀ cents : Int, 0 < cents → AbsentOrPositive (some ⟨cents, -2⟩) :=
    fun cents hpos => absentOrPositive_some (Decimal.coefficient_pos_iff.mp hpos)
  unfold MarketQuoteFields.Accepted
  rw [hbid, hask, hlastPrice]
  refine ⟨hknown.isSymbol, ?_, hpositive _ (by omega), hpositive _ (by omega),
    hpositive _ (by omega), ?_, ?_⟩
  · intro nativeId hnative
    rw [← Option.mem_some_iff.mp hnative, String.length_append, String.length_append]
    have hsymbol := hknown.length_le
    have hinstant := CivilTime.length_isoformat_le hfirst hlast
    have hmark : (":" : String).length = 1 := rfl
    omega
  · intro bid hmem ask hmem'
    rw [← Option.mem_some_iff.mp hmem, ← Option.mem_some_iff.mp hmem', value_cents, value_cents,
      not_lt]
    push_cast
    linarith
  · intro hex
    cases hex.1

/-- When a quote is made up, and what it is. -/
theorem latestQuote_eq_ok_iff : latestQuote uuid5 clock symbol = .ok quote ↔
    ∃ receivedAt, QuoteAnswered clock symbol receivedAt ∧
      quoteFields uuid5 (upper symbol) receivedAt = quote.toMarketQuoteFields := by
  unfold latestQuote QuoteAnswered
  by_cases hknown : Known (upper symbol)
  · rw [if_neg (not_not.mpr hknown)]
    cases hnow : now clock with
    | error error => simp [Except.bind]
    | ok receivedAt =>
      obtain ⟨hfirst, hlast⟩ := now_eq_ok hnow
      have haccepted := quoteFields_accepted uuid5 hknown hfirst hlast
      simp only [Except.bind, MarketQuote.validate_of_accepted haccepted, Except.ok.injEq]
      constructor
      · intro heq
        obtain rfl := heq
        exact ⟨receivedAt, ⟨hknown, rfl⟩, rfl⟩
      · intro hex
        obtain ⟨_, ⟨-, rfl⟩, hfields⟩ := hex
        exact MarketQuote.eq_of_fields hfields
  · simp [hknown]

/-- A quote the provider made up. -/
structure MadeQuote (quote : MarketQuote) : Prop where
  known : Known quote.symbol
  range : CivilTime.firstInstant ≤ quote.receivedAt ∧ quote.receivedAt ≤ CivilTime.lastInstant
  fields : quote.toMarketQuoteFields = quoteFields uuid5 quote.symbol quote.receivedAt

theorem QuoteAnswered.exists_quote (h : QuoteAnswered clock symbol receivedAt) :
    ∃ quote, latestQuote uuid5 clock symbol = .ok quote ∧ MadeQuote uuid5 quote ∧
      quote.symbol = upper symbol ∧ quote.receivedAt = receivedAt := by
  obtain ⟨hknown, hnow⟩ := h
  obtain ⟨hfirst, hlast⟩ := now_eq_ok hnow
  exact ⟨⟨_, quoteFields_accepted uuid5 hknown hfirst hlast⟩,
    (latestQuote_eq_ok_iff uuid5).mpr ⟨receivedAt, ⟨hknown, hnow⟩, rfl⟩,
    ⟨hknown, ⟨hfirst, hlast⟩, rfl⟩, rfl, rfl⟩

variable {uuid5}

omit [CharacterTables] in
/-- The fields of a quote are written. -/
theorem MadeQuote.exists_parts (h : MadeQuote uuid5 quote) :
    ∃ fields, quoteParts quote = some fields := by
  obtain ⟨hbid, hask, hlast⟩ := quoteFields_prices uuid5 quote.symbol quote.receivedAt
  obtain ⟨hge, hlt⟩ := lastCents_bounds quote.symbol
  rw [← h.fields] at hbid hask hlast
  obtain ⟨bid, hbidText⟩ := decimalText_cents (lastCents quote.symbol - 2) (by omega) (by omega)
  obtain ⟨ask, haskText⟩ := decimalText_cents (lastCents quote.symbol + 2) (by omega) (by omega)
  obtain ⟨last, hlastText⟩ := decimalText_cents (lastCents quote.symbol) (by omega) (by omega)
  exact ⟨_, quoteParts_eq_some_iff.mpr ⟨bid, ask, last, hbid ▸ hbidText, hask ▸ haskText,
    hlast ▸ hlastText, rfl⟩⟩

omit [CharacterTables] in
/-- The row of a quote fits the columns and passes the checks. -/
theorem MadeQuote.exists_row (h : MadeQuote uuid5 quote) (contentHash : String) :
    ∃ row, quote.row contentHash = some row ∧ row.Valid := by
  obtain ⟨hbid, hask, hlast⟩ := quoteFields_prices uuid5 quote.symbol quote.receivedAt
  obtain ⟨hge, hlt⟩ := lastCents_bounds quote.symbol
  rw [← h.fields] at hbid hask hlast
  have hcolumn : ∀ cents : Int, 0 < cents → cents < 1000000 →
      ∃ stored, nullableNumericColumn (some ⟨cents, -2⟩) = some (some stored) ∧
        stored.value = (⟨cents, -2⟩ : Decimal).value := by
    intro cents hpos hsmall
    obtain ⟨stored, hstored, hvalue⟩ := numericColumn_cents cents hpos hsmall
    exact ⟨stored, by rw [nullableNumericColumn, hstored, Option.map_some], hvalue⟩
  obtain ⟨bid, hbidStored, hbidValue⟩ :=
    hcolumn (lastCents quote.symbol - 2) (by omega) (by omega)
  obtain ⟨ask, haskStored, haskValue⟩ :=
    hcolumn (lastCents quote.symbol + 2) (by omega) (by omega)
  obtain ⟨last, hlastStored, hlastValue⟩ := hcolumn (lastCents quote.symbol) (by omega) (by omega)
  obtain ⟨-, hnative, hbidOk, haskOk, hlastOk, horder, -⟩ := quote.accepted
  have hprovider : quote.provider = name := congrArg MarketQuoteFields.provider h.fields
  have hrow : quote.row contentHash = some ⟨contentHash, quote.id, quote.traceId, quote.provider,
      quote.nativeId, quote.symbol, some bid, some ask, some last, quote.providerTimestamp,
      quote.receivedAt, quote.processedAt⟩ := by
    rw [MarketQuote.row, hbid, hask, hlast, hbidStored, haskStored, hlastStored]
    rfl
  rw [hbid] at hbidOk horder
  rw [hask] at haskOk horder
  rw [hlast] at hlastOk
  have hpositive : ∀ {price stored : Decimal}, AbsentOrPositive (some price) →
      stored.value = price.value → AbsentOrPositive (some stored) := by
    intro price stored hprice hvalue
    refine absentOrPositive_some ?_
    rw [hvalue]
    exact hprice price rfl
  refine ⟨_, hrow, ?_, hnative, h.known.length_le.trans (by decide), hpositive hbidOk hbidValue,
    hpositive haskOk haskValue, hpositive hlastOk hlastValue, ?_, ?_⟩
  · rw [hprovider]
    show name.length ≤ 100
    decide
  · intro stored hmem stored' hmem'
    rw [← Option.mem_some_iff.mp hmem, ← Option.mem_some_iff.mp hmem', hbidValue, haskValue]
    exact not_lt.mp (horder _ rfl _ rfl)
  · intro hex
    cases hex.1

variable [Digest]

omit [CharacterTables] in
/-- A quote whose row fits the columns and passes the checks can be saved. -/
theorem exists_saveQuote (db : MarketDb) (h : MadeQuote uuid5 quote) :
    ∃ inserted db', db.saveQuote quote = some (inserted, db') := by
  obtain ⟨fields, hfields⟩ := h.exists_parts
  obtain ⟨row, hrow, hvalid⟩ := h.exists_row (fingerprint fields)
  have hprovider : quote.provider = name := congrArg MarketQuoteFields.provider h.fields
  have hlength : quote.provider.length ≤ 100 := by
    rw [hprovider]
    decide
  have hlength' : quote.symbol.length ≤ 12 := h.known.length_le.trans (by decide)
  obtain ⟨db₁, hensure⟩ := db.exists_ensureProvider quote.processedAt hlength
  obtain ⟨db₂, hensure'⟩ := db₁.exists_ensureInstrument quote.processedAt hlength'
  have hhash : quoteFingerprint quote = some (fingerprint fields) := by
    rw [quoteFingerprint, hfields, Option.map_some]
  unfold MarketDb.saveQuote
  rw [hhash, Option.bind_eq_bind, Option.bind_some, hensure, Option.bind_eq_bind,
    Option.bind_some, hensure', Option.bind_eq_bind, Option.bind_some]
  split
  · exact ⟨_, _, rfl⟩
  · rw [hrow, Option.bind_some, if_pos hvalid]
    exact ⟨_, _, rfl⟩

omit [CharacterTables] in
/-- Without collisions, quotes share a fingerprint if and only if they share
symbol and reading. -/
theorem MadeQuote.print_eq_iff {texts : Set String} (hsha : Set.InjOn Digest.sha256 texts)
    (h : MadeQuote uuid5 quote) (h' : MadeQuote uuid5 quote')
    (htexts : ∀ text, (quoteParts quote).map (String.intercalate "\x1f") = some text → text ∈ texts)
    (htexts' : ∀ text, (quoteParts quote').map (String.intercalate "\x1f") = some text →
      text ∈ texts) :
    quoteFingerprint quote = quoteFingerprint quote' ↔
      quote.symbol = quote'.symbol ∧ quote.receivedAt = quote'.receivedAt := by
  constructor
  · intro hprint
    obtain ⟨fields, hfields⟩ := h.exists_parts
    obtain ⟨fields', hfields'⟩ := h'.exists_parts
    rw [quoteFingerprint, quoteFingerprint, hfields, hfields', Option.map_some, Option.map_some,
      Option.some.injEq] at hprint
    have htext := hsha (htexts _ (by rw [hfields]; rfl)) (htexts' _ (by rw [hfields']; rfl)) hprint
    have hjoin := congrArg String.toList htext
    rw [String.toList_intercalate, String.toList_intercalate] at hjoin
    obtain ⟨bid, ask, last, hbid, hask, hlast, rfl⟩ := quoteParts_eq_some_iff.mp hfields
    obtain ⟨bid', ask', last', hbid', hask', hlast', rfl⟩ := quoteParts_eq_some_iff.mp hfields'
    obtain ⟨⟨htime, -⟩, horigin⟩ := (quoteParts_join_iff hbid hask hlast hbid' hask' hlast').mp hjoin
    have hprovider : quote.provider = quote'.provider :=
      (congrArg MarketQuoteFields.provider h.fields).trans
        (congrArg MarketQuoteFields.provider h'.fields).symm
    have heffective : quote.effectiveTime = quote.receivedAt := by
      rw [h.fields]
      rfl
    have heffective' : quote'.effectiveTime = quote'.receivedAt := by
      rw [h'.fields]
      rfl
    rw [heffective, heffective'] at htime
    rcases horigin with hsame | hshift | hshift
    · exact ⟨hsame.2.1, CivilTime.isoformatMicroseconds_inj h.range.1 h'.range.1 htime⟩
    · exact absurd hprovider hshift.provider_ne
    · exact absurd hprovider.symm hshift.provider_ne
  · intro hex
    obtain ⟨hsymbol, hread⟩ := hex
    have heq : quote = quote' := by
      apply MarketQuote.eq_of_fields
      rw [h.fields, h'.fields, hsymbol, hread]
    rw [heq]

end Quotes

end ReplayMarketDataProvider

section Worker

variable (uuid5 : String → Uuid) {δ : Type} (backoff : ℕ → δ) (watchlist : List String)
  (limit : Int)

/-- The watchlist of the worker. -/
def WATCHLIST : List String := ["ACME", "SPY"]

/-- One pass: what the clock of the provider reads for the symbol at a position,
and what the clock of the service shows at the writes. -/
structure MarketPass where
  quoteReading : ℕ → ClockReading
  barReading : ℕ → ClockReading
  quoteClock : ℕ → UtcDatetime
  barClock : ℕ → UtcDatetime
  restarted : Bool

/-- The quotes asked for. -/
def MarketPass.asked (pass : MarketPass) : List (String × ClockReading) :=
  watchlist.zipIdx.map (fun entry => (entry.1, pass.quoteReading entry.2))

/-- The bars asked for. -/
def MarketPass.polls (pass : MarketPass) : List ReplayPoll :=
  watchlist.zipIdx.map (fun entry => ⟨entry.1, limit, pass.barReading entry.2⟩)

/-- The service of the worker: its provider is the replay, and it reads it. -/
def workerConfig : MarketConfig := ⟨ReplayMarketDataProvider.name, true⟩

/-- Symbol and receipt of a row. -/
def MarketQuoteRow.reading (row : MarketQuoteRow) : String × UtcDatetime :=
  (row.symbol, row.receivedAt)

/-- How a pass ends. -/
structure PassEnd where
  latest : InsertionDict String MarketQuote
  db : MarketDb
  result : Except Raised (ℕ × ℕ)

variable [CharacterTables] [Digest]

omit [Digest] in
/-- The quotes the provider sends in a pass. -/
def MarketPass.quotes (pass : MarketPass) : List MarketQuote :=
  quotesOf (ReplayMarketDataProvider.streamQuotes uuid5 (pass.asked watchlist))

omit [Digest] in
/-- Everything asked for in the pass can be answered: the symbols are known, and
the clock can be read and has enough of the calendar behind it. -/
structure MarketPass.Answered (pass : MarketPass) : Prop where
  quotes : ∀ entry ∈ pass.asked watchlist, ∃ receivedAt,
    ReplayMarketDataProvider.QuoteAnswered entry.2 entry.1 receivedAt
  bars : ∀ poll ∈ pass.polls watchlist limit, ∃ receivedAt,
    ReplayMarketDataProvider.PollAnswered poll.clock poll.symbol poll.limit receivedAt

omit [Digest] in
/-- The texts that are hashed in some passes. -/
def observedTexts (passes : List MarketPass) : Set String :=
  {text | ∃ pass ∈ passes, ∃ quote ∈ pass.quotes uuid5 watchlist,
    (quoteParts quote).map (String.intercalate "\x1f") = some text} ∪
  hashedTexts uuid5 (passes.flatMap (MarketPass.polls watchlist limit))

omit [Digest] in
/-- What the provider answers to a poll. -/
def ReplayPoll.reply (poll : ReplayPoll) : BarReply :=
  match poll.bars uuid5 with
  | .ok bars => .ok bars
  | .error error => .error error.raised

/-- `ingest_once`.  It is `none` if a write raises. -/
def ingestOnce (latest : InsertionDict String MarketQuote) (db : MarketDb) (pass : MarketPass) :
    Option PassEnd := do
  let quotes ← Refresh.play workerConfig backoff pass.quoteClock 3 latest db
    (ReplayMarketDataProvider.streamQuotes uuid5 (pass.asked watchlist))
  match quotes.operation with
  | .returnedCount refreshedQuotes => do
      let bars ← BarRefresh.play workerConfig backoff pass.barClock watchlist "1m" limit 3
        quotes.db ((pass.polls watchlist limit).map (ReplayPoll.reply uuid5))
      match bars.operation with
      | .returnedCount refreshedBars =>
          return ⟨quotes.latest, bars.db, .ok (refreshedQuotes, refreshedBars)⟩
      | .raised error => return ⟨quotes.latest, bars.db, .error error⟩
      | _ => none
  | .raised error => return ⟨quotes.latest, quotes.db, .error error⟩
  | _ => none

/-- The worker between two passes, with what its passes returned or raised. -/
structure MarketWorker where
  latest : InsertionDict String MarketQuote
  db : MarketDb
  results : List (Except Raised (ℕ × ℕ))

/-- A pass of `main`.  A new process has published nothing yet. -/
def MarketWorker.pass (worker : MarketWorker) (pass : MarketPass) : Option MarketWorker :=
  (ingestOnce uuid5 backoff watchlist limit
    (if pass.restarted then .empty else worker.latest) worker.db pass).map (fun ended =>
      ⟨ended.latest, ended.db, worker.results ++ [ended.result]⟩)

/-- Passes over an initially empty database. -/
def runMarketWorker (passes : List MarketPass) : Option MarketWorker :=
  passes.foldlM (MarketWorker.pass uuid5 backoff watchlist limit) ⟨.empty, .empty, []⟩

end Worker

section Tables

variable {α κ κ' ε τ ν ρ : Type} {view : View α κ (Option String) ε τ ν} {row : α → Option ρ}
  {table : InsertionDict String ρ} {log : List α} {read : ρ → κ'} {mark : α → κ'}

/-- Where the observations of a log share a fingerprint if and only if they
share a mark, the table holds one row for each mark. -/
theorem HoldsKept.one_each (h : HoldsKept view row table log)
    (hprint : ∀ o ∈ log, ∀ o' ∈ log, view.print o = view.print o' ↔ mark o = mark o')
    (hread : ∀ o r, row o = some r → read r = mark o) :
    (table.values.map read).Nodup ∧
      ∀ m, m ∈ table.values.map read ↔ ∃ o ∈ log, mark o = m := by
  have hlog : ∀ o ∈ view.kept log, o ∈ log := fun o ho => (view.kept_sublist log).mem ho
  have hprints := view.nodup_prints_kept log
  have hrows : table.values.map read = (view.kept log).map mark := by
    rw [h.values]
    apply map_filterMap_eq
    intro o ho
    obtain ⟨r, hr⟩ := h.stored o ho
    exact ⟨r, hr, hread o r hr⟩
  rw [hrows]
  constructor
  · rw [List.nodup_map_iff_inj_on hprints.of_map]
    intro o ho o' ho' hmark
    exact List.inj_on_of_nodup_map hprints ho ho'
      ((hprint o (hlog o ho) o' (hlog o' ho')).mpr hmark)
  · intro m
    rw [List.mem_map]
    constructor
    · intro hex
      obtain ⟨o, ho, rfl⟩ := hex
      exact ⟨o, hlog o ho, rfl⟩
    · intro hex
      obtain ⟨o, ho, rfl⟩ := hex
      obtain ⟨first, hfirst, hsame⟩ := List.mem_map.mp
        (view.mem_prints_kept.mpr (List.mem_map_of_mem ho))
      exact ⟨first, hfirst, (hprint first (hlog first hfirst) o ho).mp hsame⟩

end Tables

section Steps

open ReplayMarketDataProvider

variable {uuid5 : String → Uuid} {δ : Type} {backoff : ℕ → δ} {clock : ℕ → UtcDatetime}
  [CharacterTables] [Digest] {quotes : List MarketQuote} {polls : List ReplayPoll}

/-- The state of a provider that never failed. -/
structure ProviderStateRow.Calm (row : ProviderStateRow) : Prop where
  failures : row.consecutiveFailures = 0
  reconnects : row.reconnectCount = 0
  status : row.status = ProviderStatus.healthy.value
  detail : row.detail = none

/-- What the database holds after some quotes and some polls. -/
structure WorkerStored (uuid5 : String → Uuid) (quotes : List MarketQuote)
    (polls : List ReplayPoll) (db : MarketDb) : Prop where
  quotes_kept : HoldsKept quoteView MarketQuote.storedRow db.quoteObservations quotes
  bars_kept : HoldsKept barView MarketBar.storedRow db.barObservations
    (polls.flatMap (ReplayPoll.returned uuid5))
  calm : ∀ row, db.providerStates.get? name = some row → row.Calm

theorem WorkerStored.empty : WorkerStored uuid5 [] [] .empty :=
  ⟨HoldsKept.empty, HoldsKept.empty, fun _ h => by cases h⟩

/-- A success without a reconnection is recorded, and leaves the provider calm. -/
theorem WorkerStored.recordSuccess {db : MarketDb} (h : WorkerStored uuid5 quotes polls db)
    (observedAt : UtcDatetime) (message : Option UtcDatetime) :
    ∃ db', db.recordSuccess name observedAt message false = some db' ∧
      WorkerStored uuid5 quotes polls db' ∧ ∃ row, db'.providerStates.get? name = some row := by
  obtain ⟨call, hcall⟩ : ∃ call : ProviderCall, call = ⟨name, observedAt, message, .success false⟩ :=
    ⟨_, rfl⟩
  have hreconnects : ((db.providerStates.get? name).map ProviderStateRow.reconnectCount).getD 0 =
      0 := by
    cases hrow : db.providerStates.get? name with
    | none => rfl
    | some row => exact (h.calm row hrow).reconnects
  have hcalm : (call.rowAfter (db.providerStates.get? name)).Calm := by
    rw [hcall]
    exact ⟨rfl, hreconnects, rfl, rfl⟩
  have hvalid : (call.rowAfter (db.providerStates.get? name)).Valid := by
    refine ⟨?_, ?_, ?_, ?_⟩
    · rw [hcalm.failures]
      decide
    · rw [hcalm.reconnects]
      decide
    · rw [hcalm.status]
      decide
    · rw [hcalm.detail]
      intro detail hdetail
      cases hdetail
  have hsome : (db.recorded call).isSome := by
    rw [MarketDb.recorded_isSome_iff, hcall]
    rw [hcall] at hvalid
    exact ⟨Or.inr (show name.length ≤ 100 by decide), hvalid⟩
  obtain ⟨db', hrecorded⟩ := Option.isSome_iff_exists.mp hsome
  have hstates := MarketDb.providerStates_recorded hrecorded
  obtain ⟨hbars, hquotes⟩ := MarketDb.recorded_frame hrecorded
  have hself : db'.providerStates.get? name = some (call.rowAfter (db.providerStates.get? name)) := by
    rw [hstates, hcall]
    exact InsertionDict.get?_set_self _ _ _
  refine ⟨db', ?_, ⟨?_, ?_, ?_⟩, ⟨_, hself⟩⟩
  · rw [hcall] at hrecorded
    exact hrecorded
  · rw [hquotes]
    exact h.quotes_kept
  · rw [hbars]
    exact h.bars_kept
  · intro row hrow
    rw [hself, Option.some.injEq] at hrow
    rw [← hrow]
    exact hcalm

/-- A quote that was made up is saved. -/
theorem WorkerStored.saveQuote {db : MarketDb} (h : WorkerStored uuid5 quotes polls db)
    {quote : MarketQuote} (hmade : MadeQuote uuid5 quote) :
    ∃ inserted db', db.saveQuote quote = some (inserted, db') ∧
      WorkerStored uuid5 (quotes ++ [quote]) polls db' := by
  obtain ⟨inserted, db', hsave⟩ := exists_saveQuote db hmade
  obtain ⟨hquotes, hbars⟩ := h.quotes_kept.saveQuote hsave
  refine ⟨inserted, db', hsave, hquotes, ?_, ?_⟩
  · rw [hbars]
    exact h.bars_kept
  · rw [MarketDb.providerStates_saveQuote hsave]
    exact h.calm

/-- The bars of a poll are saved. -/
theorem WorkerStored.saveBars {db : MarketDb} (h : WorkerStored uuid5 quotes polls db)
    {poll : ReplayPoll} {out : List MarketBar} (hbars : poll.bars uuid5 = .ok out) :
    ∃ inserted db', db.saveBars out = some (inserted, db') ∧
      WorkerStored uuid5 quotes (polls ++ [poll]) db' := by
  have hreturned : poll.returned uuid5 = out := by rw [ReplayPoll.returned, hbars]
  have hstorable : ∀ made ∈ out, ∃ contentHash row, barFingerprint made = some contentHash ∧
      made.row contentHash = some row ∧ row.Valid :=
    fun made hmade => (ReplayPoll.made_of_returned (hreturned.symm ▸ hmade)).storable
  obtain ⟨⟨inserted, db'⟩, hsave⟩ := db.exists_saveBars hstorable
  obtain ⟨hstates, hquotes⟩ := MarketDb.saveBars_frame hsave
  refine ⟨inserted, db', hsave, ?_, ?_, ?_⟩
  · rw [hquotes]
    exact h.quotes_kept
  · rw [List.flatMap_append, List.flatMap_singleton, hreturned]
    exact (h.bars_kept.saveBars hsave).1
  · rw [hstates]
    exact h.calm

variable (backoff) (clock) in
/-- A quote of the stream is stored and recorded before the next one. -/
theorem Refresh.serve_made {refresh : Refresh δ} {watch : Watch} {quote : MarketQuote}
    (hop : refresh.operation = .streaming watch) (hpending : watch.reconnectPending = false)
    (h : WorkerStored uuid5 quotes polls refresh.db) (hmade : MadeQuote uuid5 quote) :
    ∃ refresh', refresh.serve workerConfig backoff clock (.quote quote) = some refresh' ∧
      refresh'.operation = .streaming (watch.received quote).delivered ∧
      WorkerStored uuid5 (quotes ++ [quote]) polls refresh'.db ∧
      ∃ row, refresh'.db.providerStates.get? name = some row := by
  obtain ⟨inserted, db, hsave, hstored⟩ := h.saveQuote hmade
  obtain ⟨db', hrecord, hstored', hstate⟩ := hstored.recordSuccess (clock (refresh.calls + 1))
    (watch.received quote).lastMessage
  have hrecord' : db.recordSuccess workerConfig.providerName (clock (refresh.calls + 1))
      (watch.received quote).lastMessage (watch.received quote).reconnectPending = some db' := by
    rw [show (watch.received quote).reconnectPending = false from hpending]
    exact hrecord
  refine ⟨⟨.streaming (watch.received quote).delivered, rememberQuote refresh.latest quote, db',
    refresh.calls + 2, [], refresh.log ++ [(.quote quote, [])]⟩, ?_, rfl, hstored', hstate⟩
  simp [serve, hop, Operation.provided, advance, StoreCall.commit, hsave, StoreCall.resume,
    hrecord']

variable (backoff) (clock) in
/-- Bars are stored and recorded before the next request. -/
theorem BarRefresh.serve_made {refresh : BarRefresh δ} {loop : BarLoop} {poll : ReplayPoll}
    {out : List MarketBar} (hop : refresh.operation = .refreshing loop) (hfirst : loop.attempt = 0)
    (h : WorkerStored uuid5 quotes polls refresh.db) (hbars : poll.bars uuid5 = .ok out) :
    ∃ refresh', refresh.serve workerConfig backoff clock (.ok out) = some refresh' ∧
      refresh'.operation = .refresh loop.timeframe loop.limit loop.attempts loop.later
        (loop.count + out.length) ∧
      WorkerStored uuid5 quotes (polls ++ [poll]) refresh'.db ∧
      ∃ row, refresh'.db.providerStates.get? name = some row := by
  obtain ⟨inserted, db, hsave, hstored⟩ := h.saveBars hbars
  obtain ⟨db', hrecord, hstored', hstate⟩ :=
    hstored.recordSuccess (clock (refresh.calls + 1)) none
  refine ⟨⟨.refresh loop.timeframe loop.limit loop.attempts loop.later (loop.count + out.length),
    db', refresh.calls + 2, refresh.requests ++ [(loop.symbol, .ok out)], refresh.slept⟩, ?_, rfl,
    hstored', hstate⟩
  have hrecord' : db.recordSuccess workerConfig.providerName (clock (refresh.calls + 1)) none
      (decide (0 < loop.attempt)) = some db' := by
    rw [hfirst]
    exact hrecord
  simp [serve, hop, BarOperation.provided, advance, BarCall.write?, StoreWrite.commit, hsave,
    BarCall.resume, hrecord']

variable (backoff) (clock) in
/-- The quotes of a stream are stored one after the other. -/
theorem Refresh.serve_stream {sent : List MarketQuote} (hmade : ∀ quote ∈ sent, MadeQuote uuid5 quote)
    {refresh : Refresh δ} {watch : Watch} (hop : refresh.operation = .streaming watch)
    (hpending : watch.reconnectPending = false)
    (h : WorkerStored uuid5 quotes polls refresh.db) :
    ∃ refresh' watch', (sent.map ProviderEvent.quote).foldlM (serve workerConfig backoff clock)
        refresh = some refresh' ∧
      refresh'.operation = .streaming watch' ∧ watch'.count = watch.count + sent.length ∧
      WorkerStored uuid5 (quotes ++ sent) polls refresh'.db := by
  induction sent generalizing refresh watch quotes with
  | nil => exact ⟨refresh, watch, rfl, hop, rfl, by rwa [List.append_nil]⟩
  | cons quote sent ih =>
      obtain ⟨middle, hserve, hop', hstored, -⟩ :=
        serve_made backoff clock hop hpending h (hmade quote List.mem_cons_self)
      obtain ⟨refresh', watch', hrun, hop'', hcount, hstored'⟩ :=
        ih (fun quote' hmem => hmade quote' (List.mem_cons_of_mem _ hmem)) hop' rfl hstored
      refine ⟨refresh', watch', ?_, hop'', ?_, ?_⟩
      · rw [List.map_cons, List.foldlM_cons, hserve]
        exact hrun
      · rw [hcount, List.length_cons]
        show watch.count + 1 + sent.length = watch.count + (sent.length + 1)
        omega
      · rwa [List.append_assoc] at hstored'

omit [Digest] in
variable (uuid5) in
/-- A stream that can be answered: the quotes it sends. -/
theorem streamQuotes_answered {asked : List (String × ClockReading)}
    (h : ∀ entry ∈ asked, ∃ receivedAt, QuoteAnswered entry.2 entry.1 receivedAt) :
    streamQuotes uuid5 asked =
        (quotesOf (streamQuotes uuid5 asked)).map ProviderEvent.quote ++ [.ended] ∧
      (∀ quote ∈ quotesOf (streamQuotes uuid5 asked), MadeQuote uuid5 quote) ∧
      (quotesOf (streamQuotes uuid5 asked)).map
          (fun quote => (quote.symbol, (.ok quote.receivedAt : Except ReplayError UtcDatetime))) =
        asked.map (fun entry => (upper entry.1, now entry.2)) := by
  induction asked with
  | nil => exact ⟨rfl, fun quote hmem => absurd hmem List.not_mem_nil, rfl⟩
  | cons entry later ih =>
      obtain ⟨hstream, hmade, hmarks⟩ := ih (fun other hmem => h other (List.mem_cons_of_mem _ hmem))
      obtain ⟨receivedAt, hanswered⟩ := h entry List.mem_cons_self
      obtain ⟨quote, hquote, hmadeQuote, hsymbol, hreceived⟩ := hanswered.exists_quote uuid5
      have hcons : streamQuotes uuid5 (entry :: later) = .quote quote :: streamQuotes uuid5 later := by
        rw [streamQuotes, hquote]
      have hsent : quotesOf (streamQuotes uuid5 (entry :: later)) =
          quote :: quotesOf (streamQuotes uuid5 later) := by
        rw [hcons]
        rfl
      rw [hsent]
      refine ⟨?_, ?_, ?_⟩
      · rw [hcons, List.map_cons, List.cons_append, ← hstream]
      · intro other hmem
        rcases List.mem_cons.mp hmem with rfl | hlater
        · exact hmadeQuote
        · exact hmade other hlater
      · rw [List.map_cons, List.map_cons, hmarks, hsymbol, hreceived, hanswered.2]

variable (backoff) (clock) in
/-- The bars of some polls are stored one poll after the other. -/
theorem BarRefresh.serve_polls {asked : List ReplayPoll} {limit : Int} {count : ℕ}
    (hbars : ∀ poll ∈ asked, ∃ out, poll.bars uuid5 = .ok out) {refresh : BarRefresh δ}
    (hop : refresh.operation = .refresh "1m" limit 3 (asked.map ReplayPoll.symbol) count)
    (h : WorkerStored uuid5 quotes polls refresh.db) :
    ∃ refresh', (asked.map (ReplayPoll.reply uuid5)).foldlM (serve workerConfig backoff clock)
        refresh = some refresh' ∧
      refresh'.operation =
        .returnedCount (count + (asked.flatMap (ReplayPoll.returned uuid5)).length) ∧
      WorkerStored uuid5 quotes (polls ++ asked) refresh'.db := by
  induction asked generalizing refresh count polls with
  | nil => exact ⟨refresh, rfl, hop, by rwa [List.append_nil]⟩
  | cons poll later ih =>
      obtain ⟨out, hout⟩ := hbars poll List.mem_cons_self
      have hreturned : poll.returned uuid5 = out := by rw [ReplayPoll.returned, hout]
      have hreply : poll.reply uuid5 = .ok out := by rw [ReplayPoll.reply, hout]
      obtain ⟨middle, hserve, hop', hstored, -⟩ :=
        serve_made backoff clock hop rfl h hout
      obtain ⟨refresh', hrun, hop'', hstored'⟩ :=
        ih (fun other hmem => hbars other (List.mem_cons_of_mem _ hmem)) hop' hstored
      refine ⟨refresh', ?_, ?_, ?_⟩
      · rw [List.map_cons, hreply, List.foldlM_cons, hserve]
        exact hrun
      · rw [hop'', List.flatMap_cons, List.length_append, hreturned, Nat.add_assoc]
      · rwa [List.append_assoc] at hstored'

variable {watchlist : List String} {limit : Int} {pass : MarketPass}

omit [Digest] in
variable (uuid5) in
theorem MarketPass.Answered.exists_bars (h : pass.Answered watchlist limit) :
    ∀ poll ∈ pass.polls watchlist limit, ∃ out, poll.bars uuid5 = .ok out := by
  intro poll hmem
  obtain ⟨receivedAt, hanswered⟩ := h.bars poll hmem
  exact hanswered.exists_bars uuid5

omit [CharacterTables] [Digest] in
theorem MarketPass.polls_symbols (pass : MarketPass) (watchlist : List String) (limit : Int) :
    (pass.polls watchlist limit).map ReplayPoll.symbol = watchlist := by
  rw [MarketPass.polls, List.map_map]
  exact List.zipIdx_map_fst 0 watchlist

omit [CharacterTables] [Digest] in
theorem MarketPass.asked_symbols (pass : MarketPass) (watchlist : List String) :
    (pass.asked watchlist).map Prod.fst = watchlist := by
  rw [MarketPass.asked, List.map_map]
  exact List.zipIdx_map_fst 0 watchlist

omit [Digest] in
variable (uuid5) in
/-- A pass returns as many bars as it asks for. -/
theorem MarketPass.Answered.length_bars (h : pass.Answered watchlist limit) :
    ((pass.polls watchlist limit).flatMap (ReplayPoll.returned uuid5)).length =
      watchlist.length * count limit := by
  have hlength : ∀ poll ∈ pass.polls watchlist limit,
      (poll.returned uuid5).length = count limit := by
    intro poll hmem
    obtain ⟨out, hout⟩ := h.exists_bars uuid5 poll hmem
    obtain ⟨receivedAt, -, hfields⟩ := (bars_eq_ok_iff uuid5).mp hout
    have hlimit : poll.limit = limit := by
      obtain ⟨entry, -, rfl⟩ := List.mem_map.mp hmem
      rfl
    rw [ReplayPoll.returned, hout, length_of_pollFields uuid5 hfields, hlimit]
  rw [List.length_flatMap, List.map_congr_left hlength, List.map_const', List.sum_replicate,
    nsmul_eq_mul, Nat.cast_id]
  have hsymbols := congrArg List.length (pass.polls_symbols watchlist limit)
  rw [List.length_map] at hsymbols
  rw [hsymbols]

variable (backoff) in
/-- **A pass.**  It reports its counts, and everything it asked for is stored. -/
theorem ingestOnce_stored (h : pass.Answered watchlist limit)
    (latest : InsertionDict String MarketQuote) {db : MarketDb}
    (hstored : WorkerStored uuid5 quotes polls db) :
    ∃ ended, ingestOnce uuid5 backoff watchlist limit latest db pass = some ended ∧
      ended.result = .ok (watchlist.length, watchlist.length * count limit) ∧
      WorkerStored uuid5 (quotes ++ pass.quotes uuid5 watchlist)
        (polls ++ pass.polls watchlist limit) ended.db := by
  obtain ⟨hstream, hmade, hmarks⟩ := streamQuotes_answered uuid5 h.quotes
  have hsent : (pass.quotes uuid5 watchlist).length = watchlist.length := by
    have hlength := congrArg List.length hmarks
    have hsymbols := congrArg List.length (pass.asked_symbols watchlist)
    rw [List.length_map, List.length_map] at hlength
    rw [List.length_map] at hsymbols
    exact hlength.trans hsymbols
  have hstart : (Refresh.start workerConfig 3 latest db : Refresh δ).operation =
      .streaming (.start 3) := rfl
  obtain ⟨streamed, watch, hserved, hop, hcount, hquotes⟩ :=
    Refresh.serve_stream backoff pass.quoteClock hmade hstart rfl hstored
  obtain ⟨refresh, hplay, hended, hdb⟩ : ∃ refresh : Refresh δ,
      Refresh.play workerConfig backoff pass.quoteClock 3 latest db
        (streamQuotes uuid5 (pass.asked watchlist)) = some refresh ∧
      refresh.operation = .returnedCount watchlist.length ∧ refresh.db = streamed.db := by
    refine ⟨⟨.returnedCount watchlist.length, streamed.latest, streamed.db, streamed.calls, [],
      streamed.log ++ [(.ended, [])]⟩, ?_, rfl, rfl⟩
    rw [Refresh.play, hstream, List.foldlM_append, hserved]
    have hwatch : watch.count = watchlist.length := by
      rw [hcount, ← hsent]
      exact Nat.zero_add _
    simp [Refresh.serve, hop, Operation.provided, Refresh.advance, hwatch]
  have hbegun : (BarRefresh.start workerConfig watchlist "1m" limit 3 refresh.db :
      BarRefresh δ).operation =
        .refresh "1m" limit 3 ((pass.polls watchlist limit).map ReplayPoll.symbol) 0 := by
    rw [MarketPass.polls_symbols]
    rfl
  obtain ⟨finished, hrun, hop', hbars⟩ := BarRefresh.serve_polls backoff pass.barClock (h.exists_bars uuid5) hbegun
    (hdb ▸ hquotes)
  rw [h.length_bars, Nat.zero_add] at hop'
  refine ⟨⟨refresh.latest, finished.db, .ok (watchlist.length, watchlist.length * count limit)⟩,
    ?_, rfl, hbars⟩
  have hplay' : BarRefresh.play workerConfig backoff pass.barClock watchlist "1m" limit 3 refresh.db
      ((pass.polls watchlist limit).map (ReplayPoll.reply uuid5)) = some finished := hrun
  simp [ingestOnce, hplay, hended, hplay', hop']

variable {passes : List MarketPass}

variable (uuid5) (backoff) in
/-- Passes that can be answered, one after the other. -/
theorem runMarketWorker_stored (hanswered : ∀ pass ∈ passes, pass.Answered watchlist limit) :
    ∃ worker, runMarketWorker uuid5 backoff watchlist limit passes = some worker ∧
      worker.results =
        passes.map (fun _ => .ok (watchlist.length, watchlist.length * count limit)) ∧
      WorkerStored uuid5 (passes.flatMap (MarketPass.quotes uuid5 watchlist))
        (passes.flatMap (MarketPass.polls watchlist limit)) worker.db := by
  induction passes using List.reverseRecOn with
  | nil => exact ⟨_, rfl, rfl, WorkerStored.empty⟩
  | append_singleton passes pass ih =>
      obtain ⟨worker, hrun, hresults, hstored⟩ :=
        ih (fun other hmem => hanswered other (List.mem_append_left _ hmem))
      have hlast := hanswered pass (List.mem_append_right _ (List.mem_singleton_self _))
      obtain ⟨ended, hingest, hresult, hstored'⟩ :=
        ingestOnce_stored backoff hlast
          (if pass.restarted then .empty else worker.latest) hstored
      refine ⟨⟨ended.latest, ended.db, worker.results ++ [ended.result]⟩, ?_, ?_, ?_⟩
      · rw [runMarketWorker, List.foldlM_append, ← runMarketWorker, hrun, Option.bind_eq_bind,
          Option.bind_some, List.foldlM_cons, MarketWorker.pass, hingest]
        rfl
      · rw [hresults, hresult, List.map_append]
        rfl
      · rw [List.flatMap_append, List.flatMap_append, List.flatMap_singleton,
          List.flatMap_singleton]
        exact hstored'

/-- One quote for each symbol and reading. -/
theorem WorkerStored.quotes_once {db : MarketDb}
    (hanswered : ∀ pass ∈ passes, pass.Answered watchlist limit)
    (hsha : Set.InjOn Digest.sha256 (observedTexts uuid5 watchlist limit passes))
    (h : WorkerStored uuid5 (passes.flatMap (MarketPass.quotes uuid5 watchlist)) polls db) :
    (db.quoteObservations.values.map MarketQuoteRow.reading).Nodup ∧
      ∀ symbol receivedAt,
        (symbol, receivedAt) ∈ db.quoteObservations.values.map MarketQuoteRow.reading ↔
          ∃ pass ∈ passes, ∃ entry ∈ pass.asked watchlist,
            upper entry.1 = symbol ∧ now entry.2 = .ok receivedAt := by
  have hstream : ∀ pass ∈ passes, (∀ quote ∈ pass.quotes uuid5 watchlist, MadeQuote uuid5 quote) ∧
      (pass.quotes uuid5 watchlist).map (fun quote =>
          (quote.symbol, (.ok quote.receivedAt : Except ReplayError UtcDatetime))) =
        (pass.asked watchlist).map (fun entry => (upper entry.1, now entry.2)) :=
    fun pass hmem => (streamQuotes_answered uuid5 (hanswered pass hmem).quotes).2
  have hprint : ∀ quote ∈ passes.flatMap (MarketPass.quotes uuid5 watchlist),
      ∀ quote' ∈ passes.flatMap (MarketPass.quotes uuid5 watchlist),
      quoteView.print quote = quoteView.print quote' ↔
        (quote.symbol, quote.receivedAt) = (quote'.symbol, quote'.receivedAt) := by
    intro quote hquote quote' hquote'
    obtain ⟨pass, hpass, hmem⟩ := List.mem_flatMap.mp hquote
    obtain ⟨pass', hpass', hmem'⟩ := List.mem_flatMap.mp hquote'
    rw [Prod.mk.injEq]
    exact ((hstream pass hpass).1 quote hmem).print_eq_iff hsha ((hstream pass' hpass').1 quote' hmem')
      (fun text htext => Or.inl ⟨pass, hpass, quote, hmem, htext⟩)
      (fun text htext => Or.inl ⟨pass', hpass', quote', hmem', htext⟩)
  have hread : ∀ (quote : MarketQuote) row, quote.storedRow = some row →
      row.reading = (quote.symbol, quote.receivedAt) := by
    intro quote row hrow
    obtain ⟨contentHash, -, hrow⟩ := Option.bind_eq_some_iff.mp hrow
    obtain ⟨bid, ask, last, -, -, -, rfl⟩ :=
      MarketQuote.row_eq_some (Option.filter_eq_some_iff.mp hrow).1
    rfl
  obtain ⟨hnodup, hmem⟩ := h.quotes_kept.one_each hprint hread
  refine ⟨hnodup, ?_⟩
  intro symbol receivedAt
  rw [hmem]
  constructor
  · intro hex
    obtain ⟨quote, hquote, hmark⟩ := hex
    obtain ⟨pass, hpass, hquote⟩ := List.mem_flatMap.mp hquote
    obtain ⟨rfl, rfl⟩ := Prod.mk.inj hmark
    have hin := List.mem_map_of_mem (f := fun quote : MarketQuote =>
      (quote.symbol, (.ok quote.receivedAt : Except ReplayError UtcDatetime))) hquote
    rw [(hstream pass hpass).2] at hin
    obtain ⟨entry, hentry, heq⟩ := List.mem_map.mp hin
    obtain ⟨hsymbol, hnow⟩ := Prod.mk.inj heq
    exact ⟨pass, hpass, entry, hentry, hsymbol, hnow⟩
  · intro hex
    obtain ⟨pass, hpass, entry, hentry, hsymbol, hnow⟩ := hex
    have hin := List.mem_map_of_mem (f := fun entry : String × ClockReading =>
      (upper entry.1, now entry.2)) hentry
    rw [← (hstream pass hpass).2] at hin
    obtain ⟨quote, hquote, heq⟩ := List.mem_map.mp hin
    obtain ⟨hsame, hread'⟩ := Prod.mk.inj heq
    refine ⟨quote, List.mem_flatMap.mpr ⟨pass, hpass, hquote⟩, ?_⟩
    rw [hsame, hsymbol, Except.ok.inj (hread'.trans hnow)]

/-- One bar for each symbol and minute covered. -/
theorem WorkerStored.bars_once {db : MarketDb}
    (hsha : Set.InjOn Digest.sha256 (observedTexts uuid5 watchlist limit passes))
    (h : WorkerStored uuid5 quotes (passes.flatMap (MarketPass.polls watchlist limit)) db) :
    (db.barObservations.values.map MarketBarRow.barMinute).Nodup ∧
      ∀ symbol start, (symbol, start) ∈ db.barObservations.values.map MarketBarRow.barMinute ↔
        ∃ pass ∈ passes, ∃ poll ∈ pass.polls watchlist limit, poll.Covers symbol start := by
  have hstored : ReplayStored uuid5 (passes.flatMap (MarketPass.polls watchlist limit))
      ([db.barObservations.values.length], db) := ⟨h.bars_kept, List.sum_singleton⟩
  obtain ⟨hnodup, hmem⟩ := hstored.one_each (hsha.mono Set.subset_union_right)
  refine ⟨hnodup, ?_⟩
  intro symbol start
  rw [hmem]
  constructor
  · intro hex
    obtain ⟨poll, hpoll, hcovers⟩ := hex
    obtain ⟨pass, hpass, hpoll⟩ := List.mem_flatMap.mp hpoll
    exact ⟨pass, hpass, poll, hpoll, hcovers⟩
  · intro hex
    obtain ⟨pass, hpass, poll, hpoll, hcovers⟩ := hex
    exact ⟨poll, List.mem_flatMap.mpr ⟨pass, hpass, hpoll⟩, hcovers⟩

/-- All readings of the clock of the provider are one. -/
def ReplayedAt (watchlist : List String) (limit : Int) (passes : List MarketPass)
    (replayAt : UtcDatetime) : Prop :=
  ∀ pass ∈ passes, (∀ entry ∈ pass.asked watchlist, now entry.2 = .ok replayAt) ∧
    ∀ poll ∈ pass.polls watchlist limit, now poll.clock = .ok replayAt

omit [CharacterTables] [Digest] in
theorem startBefore_inj {receivedAt : UtcDatetime} {minutes minutes' : Int}
    (h : startBefore receivedAt minutes = startBefore receivedAt minutes') : minutes = minutes' := by
  have hsame : minute * minutes = minute * minutes' := sub_right_inj.mp h
  unfold minute at hsame
  omega

omit [Digest] in
/-- With one reading, there is one quote for each symbol. -/
theorem ReplayedAt.length_readings {replayAt : UtcDatetime} (h : ReplayedAt watchlist limit passes replayAt)
    (hsome : passes ≠ []) {readings : List (String × UtcDatetime)} (hnodup : readings.Nodup)
    (hmem : ∀ symbol receivedAt, (symbol, receivedAt) ∈ readings ↔
      ∃ pass ∈ passes, ∃ entry ∈ pass.asked watchlist,
        upper entry.1 = symbol ∧ now entry.2 = .ok receivedAt) :
    readings.length = (watchlist.map upper).dedup.length := by
  have hperm : readings.Perm ((watchlist.map upper).dedup.map (fun symbol => (symbol, replayAt))) := by
    refine (List.perm_ext_iff_of_nodup hnodup ?_).mpr ?_
    · exact (List.nodup_dedup _).map (fun _ _ heq => (Prod.mk.inj heq).1)
    · intro reading
      obtain ⟨symbol, receivedAt⟩ := reading
      rw [hmem, List.mem_map]
      constructor
      · intro hex
        obtain ⟨pass, hpass, entry, hentry, rfl, hnow⟩ := hex
        have hsame := Except.ok.inj (((h pass hpass).1 entry hentry).symm.trans hnow)
        have hlisted : entry.1 ∈ watchlist := by
          rw [← pass.asked_symbols watchlist]
          exact List.mem_map_of_mem hentry
        exact ⟨upper entry.1, List.mem_dedup.mpr (List.mem_map_of_mem hlisted), by rw [hsame]⟩
      · intro hex
        obtain ⟨listed, hlisted, heq⟩ := hex
        obtain ⟨rfl, rfl⟩ := Prod.mk.inj heq
        obtain ⟨symbol, hsymbol, rfl⟩ := List.mem_map.mp (List.mem_dedup.mp hlisted)
        obtain ⟨pass, hpass⟩ := List.exists_mem_of_ne_nil passes hsome
        rw [← pass.asked_symbols watchlist] at hsymbol
        obtain ⟨entry, hentry, rfl⟩ := List.mem_map.mp hsymbol
        exact ⟨pass, hpass, entry, hentry, rfl, (h pass hpass).1 entry hentry⟩
  rw [hperm.length_eq, List.length_map]

omit [Digest] in
/-- With one reading, there are as many bars for each symbol as are asked for. -/
theorem ReplayedAt.length_minutes {replayAt : UtcDatetime} (h : ReplayedAt watchlist limit passes replayAt)
    (hanswered : ∀ pass ∈ passes, pass.Answered watchlist limit) (hsome : passes ≠ [])
    {minutes : List (String × UtcDatetime)} (hnodup : minutes.Nodup)
    (hmem : ∀ symbol start, (symbol, start) ∈ minutes ↔
      ∃ pass ∈ passes, ∃ poll ∈ pass.polls watchlist limit, poll.Covers symbol start) :
    minutes.length = (watchlist.map upper).dedup.length * count limit := by
  obtain ⟨starts, hstarts⟩ : ∃ starts, starts =
      (List.range (count limit)).map (fun i => startBefore replayAt (i + 1 : ℕ)) := ⟨_, rfl⟩
  have hperm : minutes.Perm ((watchlist.map upper).dedup ×ˢ starts) := by
    refine (List.perm_ext_iff_of_nodup hnodup ?_).mpr ?_
    · refine (List.nodup_dedup _).product ?_
      rw [hstarts]
      refine List.nodup_range.map ?_
      intro i i' heq
      have hsame := startBefore_inj heq
      omega
    · intro barMinute
      obtain ⟨symbol, start⟩ := barMinute
      rw [hmem, List.mem_product, List.mem_dedup, hstarts, List.mem_map, List.mem_map]
      constructor
      · intro hex
        obtain ⟨pass, hpass, poll, hpoll, receivedAt, hpolled, rfl, before, hpos, hle, rfl⟩ := hex
        have hsame := Except.ok.inj (((h pass hpass).2 poll hpoll).symm.trans hpolled.2.1)
        have hlisted : poll.symbol ∈ watchlist := by
          rw [← pass.polls_symbols watchlist limit]
          exact List.mem_map_of_mem hpoll
        have hlimit : poll.limit = limit := by
          obtain ⟨entry, -, rfl⟩ := List.mem_map.mp hpoll
          rfl
        rw [hlimit] at hle
        refine ⟨⟨poll.symbol, hlisted, rfl⟩, before - 1, List.mem_range.mpr (by omega), ?_⟩
        rw [Nat.sub_add_cancel hpos, hsame]
      · intro hex
        obtain ⟨⟨listed, hlisted, rfl⟩, before, hbefore, rfl⟩ := hex
        obtain ⟨pass, hpass⟩ := List.exists_mem_of_ne_nil passes hsome
        rw [← pass.polls_symbols watchlist limit] at hlisted
        obtain ⟨poll, hpoll, rfl⟩ := List.mem_map.mp hlisted
        obtain ⟨receivedAt, hpolled⟩ := (hanswered pass hpass).bars poll hpoll
        have hsame := Except.ok.inj (((h pass hpass).2 poll hpoll).symm.trans hpolled.2.1)
        have hlimit : poll.limit = limit := by
          obtain ⟨entry, -, rfl⟩ := List.mem_map.mp hpoll
          rfl
        refine ⟨pass, hpass, poll, hpoll, receivedAt, hpolled, rfl, before + 1, by omega, ?_, ?_⟩
        · rw [hlimit]
          exact List.mem_range.mp hbefore
        · rw [hsame]
  rw [hperm.length_eq, List.length_product, hstarts, List.length_map, List.length_range]

end Steps

open ReplayMarketDataProvider in
/-- **What the worker stores.**  Passes that can be answered never raise, report
the same counts, and leave one quote for each symbol and reading, one bar for
each symbol and minute covered, and a provider without failures.  With one
reading for all of them, they leave what the first one left. -/
theorem market_worker_stores_once [CharacterTables] [Digest] (uuid5 : String → Uuid) {δ : Type}
    (backoff : ℕ → δ) (watchlist : List String) (limit : Int) (passes : List MarketPass)
    (hanswered : ∀ pass ∈ passes, pass.Answered watchlist limit)
    (hsha : Set.InjOn Digest.sha256 (observedTexts uuid5 watchlist limit passes)) :
    ∃ worker, runMarketWorker uuid5 backoff watchlist limit passes = some worker ∧
      worker.results =
        passes.map (fun _ => .ok (watchlist.length, watchlist.length * count limit)) ∧
      ((worker.db.quoteObservations.values.map MarketQuoteRow.reading).Nodup ∧
        ∀ symbol receivedAt, (symbol, receivedAt) ∈
            worker.db.quoteObservations.values.map MarketQuoteRow.reading ↔
          ∃ pass ∈ passes, ∃ entry ∈ pass.asked watchlist,
            upper entry.1 = symbol ∧ now entry.2 = .ok receivedAt) ∧
      ((worker.db.barObservations.values.map MarketBarRow.barMinute).Nodup ∧
        ∀ symbol start, (symbol, start) ∈
            worker.db.barObservations.values.map MarketBarRow.barMinute ↔
          ∃ pass ∈ passes, ∃ poll ∈ pass.polls watchlist limit, poll.Covers symbol start) ∧
      (∀ row, worker.db.providerStates.get? name = some row → row.Calm) ∧
      ∀ replayAt, passes ≠ [] → ReplayedAt watchlist limit passes replayAt →
        worker.db.quoteObservations.values.length = (watchlist.map upper).dedup.length ∧
        worker.db.barObservations.values.length =
          (watchlist.map upper).dedup.length * count limit := by
  obtain ⟨worker, hrun, hresults, hstored⟩ :=
    runMarketWorker_stored uuid5 backoff hanswered
  have hquotes := hstored.quotes_once hanswered hsha
  have hbars := hstored.bars_once hsha
  refine ⟨worker, hrun, hresults, hquotes, hbars, hstored.calm, ?_⟩
  intro replayAt hsome hreplayed
  have hquoteRows := hreplayed.length_readings hsome hquotes.1 hquotes.2
  have hbarRows := hreplayed.length_minutes hanswered hsome hbars.1 hbars.2
  rw [List.length_map] at hquoteRows hbarRows
  exact ⟨hquoteRows, hbarRows⟩

section Sample

/-- The digests of the bars of three minutes and of a quote. -/
def workerDigests : List (String × String) :=
  ("replay-market\x1fACME\x1fACME:2026-07-18T12:01:30+00:00\x1f" ++
      "2026-07-18T12:01:30.000000+00:00\x1f101.22\x1f101.26\x1f101.24",
    "0bb28d8f9177c75a75dc944a8c3c373c96ab48fd9e88040d469595b5270ab849") :: replayDigests

/-- Their identifiers and those of their traces. -/
def workerUuid5 (url : String) : Uuid :=
  if url = "eventalpha:quote:ACME:2026-07-18T12:01:30+00:00" then
    216696651715990759007624073796694212908
  else if url = "eventalpha:quote-trace:ACME:2026-07-18T12:01:30+00:00" then
    30590467788759026360827634563826744264
  else replayUuid5 url

/-- A pass replayed ninety seconds after noon. -/
def replayedPass (restarted : Bool) : MarketPass where
  quoteReading _ := ⟨sampleNoon + 90000000, some 0⟩
  barReading _ := ⟨sampleNoon + 90000000, some 0⟩
  quoteClock calls := sampleNoon + 91000000 + calls
  barClock calls := sampleNoon + 92000000 + calls
  restarted := restarted

theorem replayedPass_answered (restarted : Bool) :
    let _ : CharacterTables := asciiTables
    (replayedPass restarted).Answered ["ACME"] 2 := by
  intro _
  have hknown : ReplayMarketDataProvider.Known (upper "ACME") := by decide
  have hfirst : CivilTime.firstInstant ≤ ReplayMarketDataProvider.startBefore
      (sampleNoon + 90000000) (ReplayMarketDataProvider.count 2) := by
    decide
  constructor
  · intro entry hentry
    obtain rfl := List.mem_singleton.mp hentry
    exact ⟨sampleNoon + 90000000, hknown, rfl⟩
  · intro poll hpoll
    obtain rfl := List.mem_singleton.mp hpoll
    exact ⟨sampleNoon + 90000000, hknown, rfl, hfirst⟩

/-- Of two processes at one `REPLAY_AT`, the second adds nothing. -/
theorem market_worker_stores_once_restarted :
    let _ : CharacterTables := asciiTables
    let _ : Digest := tableDigest workerDigests
    ∃ worker, runMarketWorker workerUuid5 (id : ℕ → ℕ) ["ACME"] 2
        [replayedPass false, replayedPass true] = some worker ∧
      worker.results = [.ok (1, 2), .ok (1, 2)] ∧
      worker.db.quoteObservations.values.length = 1 ∧
      worker.db.barObservations.values.length = 2 := by
  intro _ _
  have hinjective : Function.Injective (tableDigest workerDigests).sha256 :=
    tableDigest_injective (by decide +kernel) (by decide +kernel)
  have hanswered : ∀ pass ∈ [replayedPass false, replayedPass true], pass.Answered ["ACME"] 2 := by
    intro pass hpass
    simp only [List.mem_cons, List.not_mem_nil, or_false] at hpass
    rcases hpass with rfl | rfl
    · exact replayedPass_answered false
    · exact replayedPass_answered true
  obtain ⟨worker, hrun, hresults, -, -, -, hreplayed⟩ :=
    market_worker_stores_once workerUuid5 (id : ℕ → ℕ) ["ACME"] 2
      [replayedPass false, replayedPass true] hanswered hinjective.injOn
  have hrows := hreplayed (sampleNoon + 90000000) (List.cons_ne_nil _ _)
  refine ⟨worker, hrun, hresults, hrows ?_⟩
  intro pass hpass
  simp only [List.mem_cons, List.not_mem_nil, or_false] at hpass
  have hreading : ∀ restarted, (∀ entry ∈ (replayedPass restarted).asked ["ACME"],
      ReplayMarketDataProvider.now entry.2 = .ok (sampleNoon + 90000000)) ∧
        ∀ poll ∈ (replayedPass restarted).polls ["ACME"] 2,
          ReplayMarketDataProvider.now poll.clock = .ok (sampleNoon + 90000000) := by
    intro restarted
    constructor
    · intro entry hentry
      obtain rfl := List.mem_singleton.mp hentry
      rfl
    · intro poll hpoll
      obtain rfl := List.mem_singleton.mp hpoll
      rfl
  rcases hpass with rfl | rfl
  · exact hreading false
  · exact hreading true

/-- The counts of the worker itself. -/
example :
    let _ : CharacterTables := asciiTables
    (WATCHLIST.map upper).dedup.length = 2 ∧
      (WATCHLIST.map upper).dedup.length * ReplayMarketDataProvider.count 60 = 120 := by
  decide +kernel

end Sample

end EventAlpha
