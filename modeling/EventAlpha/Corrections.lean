import EventAlpha.MarketReads
import EventAlpha.PointInTimeReads

/-!
# Corrections of market observations

A provider corrects a bar or a quote by sending it again with other prices,
and the correction received last is the one a read has to return.  The store
keeps every correction as a row of its own, and its reads prefer the row that
was received last, but it drops an observation whose content it has already
stored, and the content leaves out the moment of receipt.

So the reads are right exactly as long as every arrival is admitted
(`last_correction_wins_iff`): an arrival that comes into force and whose
content is known must repeat the prices in force, and one whose content is new
must have prices of at most ten fractional digits.  A correction back to an
earlier value is not admitted: the store goes on returning the value that was
withdrawn.
-/

namespace EventAlpha

open KeyedOrder ObservationLog

section Views

/-- What a price column holds of a price. -/
def storedPrice (price : Decimal) : ℚ := (price.toScale 10).value

theorem value_of_numericColumn {price stored : Decimal} (h : numericColumn price = some stored) :
    stored.value = storedPrice price := by
  obtain ⟨-, hstored⟩ := Option.ite_none_left_eq_some.mp h
  rw [← Option.some.inj hstored]
  rfl

theorem value_of_nullableNumericColumn {price stored : Option Decimal}
    (h : nullableNumericColumn price = some stored) :
    stored.map Decimal.value = price.map storedPrice := by
  cases price with
  | none =>
      cases h
      rfl
  | some price =>
      obtain ⟨column, hcolumn, rfl⟩ := Option.map_eq_some_iff.mp h
      rw [Option.map_some, Option.map_some, value_of_numericColumn hcolumn]

/-- What the store holds of the prices and the volume of a bar. -/
def MarketBarFields.storedOhlcv (bar : MarketBarFields) : Ohlcv where
  «open» := storedPrice bar.open
  high := storedPrice bar.high
  low := storedPrice bar.low
  close := storedPrice bar.close
  volume := bar.volume

/-- What the store holds of the prices of a quote. -/
def MarketQuoteFields.storedPrices (quote : MarketQuoteFields) : QuotePrices where
  bid := quote.bid.map storedPrice
  ask := quote.ask.map storedPrice
  last := quote.last.map storedPrice

/-- Provider, symbol, timeframe and start of a bar, and whether it is final. -/
abbrev BarKey := String × String × String × UtcDatetime × Bool

variable [Digest]

/-- Bars as observations: a bar is effective at its start. -/
def barView : View MarketBar BarKey (Option String) UtcDatetime UtcDatetime Ohlcv where
  key bar := (bar.provider, bar.symbol, bar.timeframe.value, bar.timestamp, bar.isFinal)
  print := barFingerprint
  effective bar := bar.timestamp
  received bar := bar.receivedAt
  value bar := bar.ohlcv
  record bar := bar.storedOhlcv

/-- Quotes as observations, keyed by provider and symbol. -/
def quoteView : View MarketQuote (String × String) (Option String) UtcDatetime UtcDatetime
    QuotePrices where
  key quote := (quote.provider, quote.symbol)
  print := quoteFingerprint
  effective quote := quote.effectiveTime
  received quote := quote.receivedAt
  value quote := quote.prices
  record quote := quote.storedPrices

/-- The row the store adds for a bar. -/
def MarketBar.storedRow (bar : MarketBar) : Option MarketBarRow :=
  (barFingerprint bar).bind bar.row

/-- The row the store adds for a quote, if it passes the checks. -/
def MarketQuote.storedRow (quote : MarketQuote) : Option MarketQuoteRow :=
  (quoteFingerprint quote).bind (fun contentHash =>
    (quote.row contentHash).filter (fun row => row.Valid))

end Views

section HoldsKept

variable {α κ ε τ ν ρ : Type*} {view : View α κ (Option String) ε τ ν} {row : α → Option ρ}
  {table : InsertionDict String ρ} {log : List α}

/-- A table holds the kept observations of a log, in their order, under their
fingerprints. -/
structure HoldsKept (view : View α κ (Option String) ε τ ν) (row : α → Option ρ)
    (table : InsertionDict String ρ) (log : List α) : Prop where
  values : table.values = (view.kept log).filterMap row
  stored : ∀ o ∈ view.kept log, ∃ r, row o = some r
  keys : ∀ contentHash, contentHash ∈ table.keys ↔ some contentHash ∈ log.map view.print

theorem HoldsKept.empty : HoldsKept view row .empty [] := by
  refine ⟨rfl, ?_, ?_⟩
  · intro o ho
    cases ho
  · intro contentHash
    exact iff_of_false List.not_mem_nil List.not_mem_nil

/-- An observation whose fingerprint is a key of the table changes nothing. -/
theorem HoldsKept.known (h : HoldsKept view row table log) {o : α} {contentHash : String}
    (hprint : view.print o = some contentHash) (hkey : contentHash ∈ table.keys) :
    HoldsKept view row table (log ++ [o]) := by
  have hknown : view.print o ∈ log.map view.print := by
    rw [hprint]
    exact (h.keys contentHash).mp hkey
  refine ⟨?_, ?_, ?_⟩
  · rw [View.kept_snoc_of_known view hknown]
    exact h.values
  · rw [View.kept_snoc_of_known view hknown]
    exact h.stored
  · intro contentHash'
    rw [h.keys, List.map_append, List.map_singleton, List.mem_append, List.mem_singleton]
    refine ⟨Or.inl, ?_⟩
    intro hmem
    rcases hmem with hmem | hmem
    · exact hmem
    · rw [hmem]
      exact hknown

/-- An observation with a new fingerprint adds its row. -/
theorem HoldsKept.new (h : HoldsKept view row table log) {o : α} {contentHash : String} {r : ρ}
    (hprint : view.print o = some contentHash) (hkey : contentHash ∉ table.keys)
    (hrow : row o = some r) :
    HoldsKept view row (table.set contentHash r) (log ++ [o]) := by
  have hnew : view.print o ∉ log.map view.print := by
    rw [hprint]
    exact fun hmem => hkey ((h.keys contentHash).mpr hmem)
  refine ⟨?_, ?_, ?_⟩
  · rw [InsertionDict.values_set_of_notMem hkey, View.kept_snoc_of_new view hnew,
      List.filterMap_append, h.values]
    simp [hrow]
  · intro o' ho'
    rw [View.kept_snoc_of_new view hnew, List.mem_append, List.mem_singleton] at ho'
    rcases ho' with ho' | rfl
    · exact h.stored o' ho'
    · exact ⟨r, hrow⟩
  · intro contentHash'
    rw [InsertionDict.mem_keys_set, h.keys, List.map_append, List.map_singleton,
      List.mem_append, List.mem_singleton, hprint, Option.some.injEq, or_comm]

/-- The rows of the table are the rows of the kept observations. -/
theorem HoldsKept.mem_values (h : HoldsKept view row table log) {r : ρ} :
    r ∈ table.values ↔ ∃ o ∈ view.kept log, row o = some r := by
  rw [h.values, List.mem_filterMap]

theorem HoldsKept.length_values (h : HoldsKept view row table log) :
    table.values.length ≤ log.length := by
  rw [h.values]
  exact (List.length_filterMap_le row _).trans (view.kept_sublist log).length_le

end HoldsKept

section Runs

/-- The calls that save observations. -/
inductive SaveCall
  | bars (batch : List MarketBar)
  | quote (quote : MarketQuote)

/-- The tables, with the observations of the calls that returned, in order. -/
structure MarketHistory where
  db : MarketDb
  bars : List MarketBar
  quotes : List MarketQuote

/-- The initially empty repository. -/
def MarketHistory.start : MarketHistory := ⟨.empty, [], []⟩

variable [Digest]

/-- One call.  A call that raises is rolled back. -/
def MarketHistory.call (history : MarketHistory) : SaveCall → MarketHistory
  | .bars batch =>
      match history.db.saveBars batch with
      | some (_, db) => { history with db := db, bars := history.bars ++ batch }
      | none => history
  | .quote quote =>
      match history.db.saveQuote quote with
      | some (_, db) => { history with db := db, quotes := history.quotes ++ [quote] }
      | none => history

/-- A sequence of calls on an initially empty repository. -/
def MarketHistory.after (calls : List SaveCall) : MarketHistory :=
  calls.foldl MarketHistory.call MarketHistory.start

/-- Both tables hold what a deduplicated log keeps of the observations. -/
structure MarketHistory.Stored (history : MarketHistory) : Prop where
  bars : HoldsKept barView MarketBar.storedRow history.db.barObservations history.bars
  quotes : HoldsKept quoteView MarketQuote.storedRow history.db.quoteObservations history.quotes

/-- A saved bar extends the log of bars. -/
theorem HoldsKept.saveBar {db db' : MarketDb} {received : List MarketBar} {bar : MarketBar}
    {inserted : ℕ} (h : HoldsKept barView MarketBar.storedRow db.barObservations received)
    (hsave : db.saveBar bar = some (inserted, db')) :
    HoldsKept barView MarketBar.storedRow db'.barObservations (received ++ [bar]) ∧
      db'.quoteObservations = db.quoteObservations := by
  obtain ⟨contentHash, hhash, hquotes, hbars⟩ := MarketDb.saveBar_eq_some hsave
  refine ⟨?_, hquotes⟩
  rcases hbars with ⟨hkey, hbars, -⟩ | ⟨hkey, -, row, hrow, -, hbars⟩
  · rw [hbars]
    exact h.known hhash hkey
  · rw [hbars]
    apply h.new hhash hkey
    rw [MarketBar.storedRow, hhash, Option.bind_some, hrow]

/-- A saved batch extends the log of bars. -/
theorem HoldsKept.saveBars {db db' : MarketDb} {received batch : List MarketBar} {inserted : ℕ}
    (h : HoldsKept barView MarketBar.storedRow db.barObservations received)
    (hsave : db.saveBars batch = some (inserted, db')) :
    HoldsKept barView MarketBar.storedRow db'.barObservations (received ++ batch) ∧
      db'.quoteObservations = db.quoteObservations := by
  induction batch using List.reverseRecOn generalizing inserted db' with
  | nil =>
      cases hsave
      rw [List.append_nil]
      exact ⟨h, rfl⟩
  | append_singleton batch bar ih =>
      rw [MarketDb.saveBars_snoc, Option.bind_eq_some_iff] at hsave
      obtain ⟨⟨count, db₁⟩, hbatch, hsave⟩ := hsave
      obtain ⟨⟨added, db₂⟩, hbar, heq⟩ := Option.map_eq_some_iff.mp hsave
      cases heq
      obtain ⟨hfirst, hquotes⟩ := ih hbatch
      obtain ⟨hlast, hquotes'⟩ := hfirst.saveBar hbar
      rw [← List.append_assoc]
      exact ⟨hlast, hquotes'.trans hquotes⟩

/-- A saved quote extends the log of quotes. -/
theorem HoldsKept.saveQuote {db db' : MarketDb} {received : List MarketQuote}
    {quote : MarketQuote} {inserted : Bool}
    (h : HoldsKept quoteView MarketQuote.storedRow db.quoteObservations received)
    (hsave : db.saveQuote quote = some (inserted, db')) :
    HoldsKept quoteView MarketQuote.storedRow db'.quoteObservations (received ++ [quote]) ∧
      db'.barObservations = db.barObservations := by
  obtain ⟨contentHash, hhash, hbars, hquotes⟩ := MarketDb.saveQuote_eq_some hsave
  refine ⟨?_, hbars⟩
  rcases hquotes with ⟨hkey, hquotes, -⟩ | ⟨hkey, -, row, hrow, hvalid, hquotes⟩
  · rw [hquotes]
    exact h.known hhash hkey
  · rw [hquotes]
    apply h.new hhash hkey
    rw [MarketQuote.storedRow, hhash, Option.bind_some, hrow]
    simp [hvalid]

/-- One call keeps the tables in step with the observations. -/
theorem MarketHistory.Stored.call {history : MarketHistory} (h : history.Stored)
    (call : SaveCall) : (history.call call).Stored := by
  cases call with
  | bars batch =>
      rw [MarketHistory.call]
      split
      case h_1 inserted db hsave =>
        obtain ⟨hbars, hquotes⟩ := h.bars.saveBars hsave
        refine ⟨hbars, ?_⟩
        rw [hquotes]
        exact h.quotes
      case h_2 => exact h
  | quote quote =>
      rw [MarketHistory.call]
      split
      case h_1 inserted db hsave =>
        obtain ⟨hquotes, hbars⟩ := h.quotes.saveQuote hsave
        refine ⟨?_, hquotes⟩
        rw [hbars]
        exact h.bars
      case h_2 => exact h

/-- After any calls, the tables hold what a deduplicated log keeps. -/
theorem MarketHistory.after_stored (calls : List SaveCall) :
    (MarketHistory.after calls).Stored := by
  induction calls using List.reverseRecOn with
  | nil => exact ⟨HoldsKept.empty, HoldsKept.empty⟩
  | append_singleton calls call ih =>
      rw [MarketHistory.after, List.foldl_append]
      exact ih.call call

end Runs

section BarReads

variable [CharacterTables] [Digest]

/-- The final bar of a start that was received last, as of a moment. -/
def lastReceivedBar (received : List MarketBar) (provider symbol timeframe : String)
    (start : UtcDatetime) (asOf : Option UtcDatetime) : Option MarketBar :=
  barView.inForce received (provider, upper symbol, timeframe, start, true) asOf

/-- Every read of the final bars returns, for each start it returns, the prices
and the volume of the bar received last, and leaves out no start unless the
limit is reached. -/
def BarsCurrent (db : MarketDb) (received : List MarketBar) : Prop :=
  ∀ provider symbol timeframe asOf, ∀ limit : Int, 1 ≤ limit →
    ∃ out, db.bars provider symbol timeframe limit asOf true = some out ∧
      (∀ bar ∈ out, ∃ last,
        lastReceivedBar received provider symbol timeframe bar.timestamp asOf = some last ∧
          bar.ohlcv = last.ohlcv) ∧
      ((received.length : Int) ≤ limit → ∀ start last,
        lastReceivedBar received provider symbol timeframe start asOf = some last →
          ∃ bar ∈ out, bar.timestamp = start)

/-- The keys of final bars. -/
def IsFinalKey (key : BarKey) : Prop := key.2.2.2.2 = true

variable {db : MarketDb} {received : List MarketBar}
  {provider symbol timeframe : String} {asOf : Option UtcDatetime}

omit [CharacterTables] in
/-- The row of a bar has all its fields but the prices, which are rounded. -/
theorem MarketBar.fields_of_storedRow {bar : MarketBar} {row : MarketBarRow}
    (h : bar.storedRow = some row) :
    row.timeframe = bar.timeframe.value ∧
      row.fields bar.timeframe = { bar.toMarketBarFields with
        «open» := row.open, high := row.high, low := row.low, close := row.close } ∧
      (row.fields bar.timeframe).ohlcv = bar.storedOhlcv := by
  obtain ⟨contentHash, -, hrow⟩ := Option.bind_eq_some_iff.mp h
  obtain ⟨«open», high, low, close, hopen, hhigh, hlow, hclose, rfl⟩ :=
    MarketBar.row_eq_some hrow
  refine ⟨rfl, rfl, ?_⟩
  simp only [MarketBarFields.ohlcv, MarketBarRow.fields, MarketBarFields.storedOhlcv,
    value_of_numericColumn hopen, value_of_numericColumn hhigh, value_of_numericColumn hlow,
    value_of_numericColumn hclose]

omit [CharacterTables] in
/-- The key and the receipt of a bar are those of its row. -/
theorem MarketBar.key_of_storedRow {bar : MarketBar} {row : MarketBarRow}
    (h : bar.storedRow = some row) :
    barView.key bar = (row.provider, row.symbol, row.timeframe, row.barStartAt, row.isFinal) ∧
      bar.receivedAt = row.receivedAt := by
  obtain ⟨htimeframe, hfields, -⟩ := MarketBar.fields_of_storedRow h
  have hprovider : row.provider = bar.provider := congrArg MarketBarFields.provider hfields
  have hsymbol : row.symbol = bar.symbol := congrArg MarketBarFields.symbol hfields
  have hstart : row.barStartAt = bar.timestamp := congrArg MarketBarFields.timestamp hfields
  have hfinal : row.isFinal = bar.isFinal := congrArg MarketBarFields.isFinal hfields
  have hreceived : row.receivedAt = bar.receivedAt :=
    congrArg MarketBarFields.receivedAt hfields
  rw [hprovider, hsymbol, htimeframe, hstart, hfinal, hreceived]
  exact ⟨rfl, rfl⟩

/-- The rows a read of final bars selects are the rows of the kept bars of its
key that it sees. -/
theorem mem_barRows_iff (h : HoldsKept barView MarketBar.storedRow db.barObservations received)
    {row : MarketBarRow} :
    row ∈ db.barRows provider symbol timeframe asOf true ↔
      ∃ bar ∈ barView.kept received, bar.storedRow = some row ∧
        barView.key bar = (provider, upper symbol, timeframe, row.barStartAt, true) ∧
        SeenAt asOf (barView.received bar) := by
  rw [MarketDb.barRows, List.mem_filter, h.mem_values]
  constructor
  · intro hand
    obtain ⟨⟨bar, hbar, hrow⟩, hselects⟩ := hand
    simp only [decide_eq_true_eq] at hselects
    obtain ⟨hprovider, hsymbol, htimeframe, hseen, hfinal⟩ := hselects
    obtain ⟨hkey, hreceived⟩ := MarketBar.key_of_storedRow hrow
    refine ⟨bar, hbar, hrow, ?_, ?_⟩
    · rw [hkey, hprovider, hsymbol, htimeframe, hfinal trivial]
    · show SeenAt asOf bar.receivedAt
      rw [hreceived]
      exact hseen
  · intro hex
    obtain ⟨bar, hbar, hrow, hselects, hseen⟩ := hex
    obtain ⟨hkey, hreceived⟩ := MarketBar.key_of_storedRow hrow
    refine ⟨⟨bar, hbar, hrow⟩, ?_⟩
    rw [hkey] at hselects
    simp only [Prod.mk.injEq] at hselects
    obtain ⟨hprovider, hsymbol, htimeframe, -, hfinal⟩ := hselects
    simp only [decide_eq_true_eq]
    exact ⟨hprovider, hsymbol, htimeframe, hreceived ▸ hseen, fun _ => hfinal⟩

/-- The latest revision of a start is the row of the kept bar in force. -/
theorem inForce_of_latestRevision
    (h : HoldsKept barView MarketBar.storedRow db.barObservations received)
    (harrives : barView.Arrives received) {row : MarketBarRow}
    (hrow : MarketDb.LatestRevision (db.barRows provider symbol timeframe asOf true) row) :
    ∃ bar, bar.storedRow = some row ∧
      barView.inForce (barView.kept received)
        (provider, upper symbol, timeframe, row.barStartAt, true) asOf = some bar := by
  obtain ⟨hmem, hgreatest⟩ := hrow
  obtain ⟨bar, hbar, hstored, hkey, hseen⟩ := (mem_barRows_iff h).mp hmem
  refine ⟨bar, hstored, harrives.kept.inForce_eq_some hbar hkey hseen ?_⟩
  intro bar' hbar' hkey' hseen'
  obtain ⟨row', hstored'⟩ := h.stored bar' hbar'
  obtain ⟨hrowkey, hreceived⟩ := MarketBar.key_of_storedRow hstored
  obtain ⟨hrowkey', hreceived'⟩ := MarketBar.key_of_storedRow hstored'
  have hstart : row'.barStartAt = row.barStartAt := by
    rw [hrowkey'] at hkey'
    exact congrArg (fun key : BarKey => key.2.2.2.1) hkey'
  have hmem' : row' ∈ db.barRows provider symbol timeframe asOf true :=
    (mem_barRows_iff h).mpr ⟨bar', hbar', hstored', hstart ▸ hkey', hseen'⟩
  have hle : row'.receivedAt ≤ row.receivedAt :=
    MarketDb.receivedAt_le_of_readKey_le hstart (hgreatest row' hmem' hstart)
  apply Prod.Lex.toLex_le_toLex.mpr
  refine Or.inr ⟨?_, ?_⟩
  · exact congrArg (fun key : BarKey => key.2.2.2.1) (hkey'.trans hkey.symm)
  · show bar'.receivedAt ≤ bar.receivedAt
    rw [hreceived, hreceived']
    exact hle

omit [CharacterTables] in
/-- A row whose prices are those of a bar can be rebuilt. -/
theorem exists_bar_of_storedOhlcv {bar last : MarketBar} {row : MarketBarRow}
    (hrow : bar.storedRow = some row) (hprices : bar.storedOhlcv = last.ohlcv) :
    ∃ rebuilt, row.bar = some rebuilt ∧ rebuilt.ohlcv = last.ohlcv := by
  obtain ⟨htimeframe, hfields, hohlcv⟩ := MarketBar.fields_of_storedRow hrow
  have hsame : (row.fields bar.timeframe).ohlcv = last.ohlcv := hohlcv.trans hprices
  have haccepted : (row.fields bar.timeframe).Accepted := by
    obtain ⟨hprovider, hnative, hsymbol, -, hvolume, hinterval, -, -⟩ := bar.accepted
    obtain ⟨-, -, -, hpositive, -, -, hbounds, horder⟩ := last.accepted
    have hopen : row.open.value = last.open.value := congrArg Ohlcv.open hsame
    have hhigh : row.high.value = last.high.value := congrArg Ohlcv.high hsame
    have hlow : row.low.value = last.low.value := congrArg Ohlcv.low hsame
    have hclose : row.close.value = last.close.value := congrArg Ohlcv.close hsame
    rw [hfields]
    refine ⟨hprovider, hnative, hsymbol, ?_, hvolume, hinterval, ?_, ?_⟩
    · simp only [hopen, hhigh, hlow, hclose]
      exact hpositive
    · simp only [hopen, hhigh, hlow, hclose]
      exact hbounds
    · simp only [hhigh, hlow]
      exact horder
  refine ⟨⟨row.fields bar.timeframe, haccepted⟩, ?_, hsame⟩
  rw [MarketBarRow.bar, htimeframe, MarketTimeframe.ofText?_value, Option.bind_some,
    MarketBar.validate_of_accepted haccepted]

/-- Where the kept bars serve every read of final bars, a latest revision has
the prices of the bar received last and can be rebuilt. -/
theorem lastReceived_of_latestRevision
    (h : HoldsKept barView MarketBar.storedRow db.barObservations received)
    (harrives : barView.Arrives received) (hserves : barView.Serves IsFinalKey received)
    {row : MarketBarRow}
    (hrow : MarketDb.LatestRevision (db.barRows provider symbol timeframe asOf true) row) :
    ∃ last rebuilt,
      lastReceivedBar received provider symbol timeframe row.barStartAt asOf = some last ∧
      row.bar = some rebuilt ∧ rebuilt.ohlcv = last.ohlcv := by
  obtain ⟨bar, hstored, hforce⟩ := inForce_of_latestRevision h harrives hrow
  have hrel := hserves (provider, upper symbol, timeframe, row.barStartAt, true) rfl asOf
  rw [hforce] at hrel
  cases hlast : barView.inForce received
      (provider, upper symbol, timeframe, row.barStartAt, true) asOf with
  | none => rw [hlast] at hrel; cases hrel
  | some last =>
      rw [hlast, Option.rel_some_some] at hrel
      obtain ⟨rebuilt, hrebuilt, hohlcv⟩ := exists_bar_of_storedOhlcv hstored hrel.2
      exact ⟨last, rebuilt, hlast, hrebuilt, hohlcv⟩

/-- The kept bar in force for a start has its row among those read. -/
theorem exists_row_of_inForce
    (h : HoldsKept barView MarketBar.storedRow db.barObservations received)
    {start : UtcDatetime} {bar : MarketBar}
    (hforce : barView.inForce (barView.kept received)
      (provider, upper symbol, timeframe, start, true) asOf = some bar) :
    ∃ row ∈ db.barRows provider symbol timeframe asOf true, row.barStartAt = start := by
  obtain ⟨hbar, hkey, hseen, -⟩ := View.inForce_spec hforce
  obtain ⟨row, hstored⟩ := h.stored bar hbar
  obtain ⟨hrowkey, -⟩ := MarketBar.key_of_storedRow hstored
  have hstart : row.barStartAt = start := by
    rw [hrowkey] at hkey
    exact congrArg (fun key : BarKey => key.2.2.2.1) hkey
  exact ⟨row, (mem_barRows_iff h).mpr ⟨bar, hbar, hstored, hstart ▸ hkey, hseen⟩, hstart⟩

/-- If the kept bars serve every read of final bars, the reads return the bars
received last. -/
theorem BarsCurrent.of_serves
    (h : HoldsKept barView MarketBar.storedRow db.barObservations received)
    (harrives : barView.Arrives received) (hserves : barView.Serves IsFinalKey received) :
    BarsCurrent db received := by
  intro provider symbol timeframe asOf limit hlimit
  obtain ⟨out, hout⟩ := MarketDb.bars_succeeds hlimit (fun row hrow => by
    obtain ⟨last, rebuilt, -, hrebuilt, -⟩ :=
      lastReceived_of_latestRevision h harrives hserves hrow
    exact ⟨rebuilt, hrebuilt⟩)
  refine ⟨out, hout, ?_, ?_⟩
  · intro bar hbar
    obtain ⟨row, hrow, hrebuilt⟩ := MarketDb.latestRevision_of_bars hlimit hout hbar
    obtain ⟨last, rebuilt, hlast, hrebuilt', hohlcv⟩ :=
      lastReceived_of_latestRevision h harrives hserves hrow
    obtain rfl : rebuilt = bar := Option.some.inj (hrebuilt'.symm.trans hrebuilt)
    refine ⟨last, ?_, hohlcv⟩
    rw [MarketBarRow.fields_of_bar hrebuilt]
    exact hlast
  · intro hcovers start last hlast
    have hrel := hserves (provider, upper symbol, timeframe, start, true) rfl asOf
    rw [lastReceivedBar] at hlast
    rw [hlast] at hrel
    cases hforce : barView.inForce (barView.kept received)
        (provider, upper symbol, timeframe, start, true) asOf with
    | none => rw [hforce] at hrel; cases hrel
    | some bar =>
        obtain ⟨row, hmem, hstart⟩ := exists_row_of_inForce h hforce
        have hlength : (db.barRows provider symbol timeframe asOf true).length ≤
            received.length :=
          (List.length_filter_le _ _).trans h.length_values
        obtain ⟨bar', hbar', hbarStart⟩ := MarketDb.exists_bar_of_bars hout hmem (by omega)
        exact ⟨bar', hbar', hbarStart.trans hstart⟩

/-- If the reads return the bars received last, the kept bars serve every read
of final bars. -/
theorem BarsCurrent.serves
    (h : HoldsKept barView MarketBar.storedRow db.barObservations received)
    (harrives : barView.Arrives received) (hcurrent : BarsCurrent db received) :
    barView.Serves IsFinalKey received := by
  intro key hfinal asOf
  cases hlast : barView.inForce received key asOf with
  | none =>
      rw [View.inForce_kept_of_none hlast]
      exact Option.Rel.none
  | some last =>
      obtain ⟨-, hkey, -, -⟩ := View.inForce_spec hlast
      have hfinalLast : last.isFinal = true := by
        rw [← hkey] at hfinal
        exact hfinal
      have hlastKey : key =
          (last.provider, upper last.symbol, last.timeframe.value, last.timestamp, true) := by
        rw [upper_of_isSymbol last.accepted.2.2.1, ← hfinalLast]
        exact hkey.symm
      rw [hlastKey] at hlast ⊢
      obtain ⟨out, hout, hright, hcovers⟩ := hcurrent last.provider last.symbol
        last.timeframe.value asOf (max 1 (received.length : Int)) (le_max_left _ _)
      obtain ⟨bar, hbar, hstart⟩ := hcovers (le_max_right _ _) last.timestamp last hlast
      obtain ⟨last', hlast', hohlcv⟩ := hright bar hbar
      rw [hstart, lastReceivedBar, hlast, Option.some.injEq] at hlast'
      obtain ⟨row, hrow, hrebuilt⟩ :=
        MarketDb.latestRevision_of_bars (le_max_left _ _) hout hbar
      obtain ⟨kept, hstored, hforce⟩ := inForce_of_latestRevision h harrives hrow
      have hfields := MarketBarRow.fields_of_bar hrebuilt
      have hrowStart : row.barStartAt = last.timestamp := by
        rw [← hstart, hfields]
        rfl
      rw [hrowStart] at hforce
      rw [hforce, Option.rel_some_some]
      refine ⟨?_, ?_⟩
      · obtain ⟨-, hkeptKey, -, -⟩ := View.inForce_spec hforce
        exact congrArg (fun key : BarKey => key.2.2.2.1) hkeptKey
      · have hkeptOhlcv := (MarketBar.fields_of_storedRow hstored).2.2
        have hbarOhlcv : bar.ohlcv = (row.fields kept.timeframe).ohlcv := by
          rw [hfields]
          rfl
        show kept.storedOhlcv = last.ohlcv
        rw [← hkeptOhlcv, ← hbarOhlcv, hohlcv, hlast']

/-- The reads of bars are right exactly when every arrival of a final bar was
admitted. -/
theorem barsCurrent_iff
    (h : HoldsKept barView MarketBar.storedRow db.barObservations received)
    (harrives : barView.Arrives received) :
    BarsCurrent db received ↔ barView.AdmitsAll IsFinalKey received := by
  rw [← View.serves_iff harrives]
  exact ⟨BarsCurrent.serves h harrives, BarsCurrent.of_serves h harrives⟩

end BarReads

section QuoteReads

variable [CharacterTables] [Digest]

/-- Among the quotes of greatest effective time, the one received last, as of a
moment. -/
def lastReceivedQuote (received : List MarketQuote) (provider symbol : String)
    (asOf : Option UtcDatetime) : Option MarketQuote :=
  quoteView.inForce received (provider, upper symbol) asOf

/-- Every read of a quote returns the effective time and the prices of the
quote received last among those of greatest effective time. -/
def QuotesCurrent (db : MarketDb) (received : List MarketQuote) : Prop :=
  ∀ provider symbol asOf, ∃ found, db.latestQuote provider symbol asOf = some found ∧
    Option.Rel (fun quote last : MarketQuote =>
        quote.effectiveTime = last.effectiveTime ∧ quote.prices = last.prices)
      found (lastReceivedQuote received provider symbol asOf)

variable {db : MarketDb} {received : List MarketQuote} {provider symbol : String}
  {asOf : Option UtcDatetime}

omit [CharacterTables] in
/-- The row of a quote has all its fields but the prices, which are rounded,
and can be rebuilt. -/
theorem MarketQuote.fields_of_storedRow {quote : MarketQuote} {row : MarketQuoteRow}
    (h : quote.storedRow = some row) :
    row.fields = { quote.toMarketQuoteFields with
        bid := row.bid, ask := row.ask, last := row.last } ∧
      row.fields.prices = quote.storedPrices ∧ row.Valid := by
  obtain ⟨contentHash, -, hfilter⟩ := Option.bind_eq_some_iff.mp h
  obtain ⟨hrow, hvalid⟩ := Option.filter_eq_some_iff.mp hfilter
  obtain ⟨bid, ask, last, hbid, hask, hlast, rfl⟩ := MarketQuote.row_eq_some hrow
  refine ⟨rfl, ?_, of_decide_eq_true hvalid⟩
  simp only [MarketQuoteFields.prices, MarketQuoteRow.fields, MarketQuoteFields.storedPrices,
    value_of_nullableNumericColumn hbid, value_of_nullableNumericColumn hask,
    value_of_nullableNumericColumn hlast]

omit [CharacterTables] in
/-- A row that passes the checks of the table passes the validation of the
contract. -/
theorem MarketQuote.exists_quote_of_storedRow {quote : MarketQuote} {row : MarketQuoteRow}
    (h : quote.storedRow = some row) :
    ∃ rebuilt, row.quote = some rebuilt ∧ rebuilt.toMarketQuoteFields = row.fields := by
  obtain ⟨hfields, -, hvalid⟩ := MarketQuote.fields_of_storedRow h
  have hsymbolEq : row.symbol = quote.symbol := congrArg MarketQuoteFields.symbol hfields
  have hsymbol : isSymbol row.symbol = true := by
    rw [hsymbolEq]
    exact quote.accepted.1
  obtain ⟨-, hnative, -, hbid, hask, hlast, hspread, hprice⟩ := hvalid
  have haccepted : row.fields.Accepted := by
    refine ⟨hsymbol, hnative, hbid, hask, hlast, ?_, hprice⟩
    intro bid hbidMem ask haskMem
    exact not_lt_of_ge (hspread bid hbidMem ask haskMem)
  exact ⟨⟨row.fields, haccepted⟩, MarketQuote.validate_of_accepted haccepted, rfl⟩

omit [CharacterTables] in
/-- The key, the effective time and the receipt of a quote are those of its
row. -/
theorem MarketQuote.key_of_storedRow {quote : MarketQuote} {row : MarketQuoteRow}
    (h : quote.storedRow = some row) :
    quoteView.key quote = (row.provider, row.symbol) ∧
      quote.effectiveTime = row.providerTimestamp.getD row.receivedAt ∧
      quote.receivedAt = row.receivedAt := by
  obtain ⟨hfields, -, -⟩ := MarketQuote.fields_of_storedRow h
  have hprovider : row.provider = quote.provider :=
    congrArg MarketQuoteFields.provider hfields
  have hsymbol : row.symbol = quote.symbol := congrArg MarketQuoteFields.symbol hfields
  have heffective : row.fields.effectiveTime = quote.effectiveTime := by
    rw [hfields]
    rfl
  have hreceived : row.receivedAt = quote.receivedAt :=
    congrArg MarketQuoteFields.receivedAt hfields
  rw [hprovider, hsymbol]
  exact ⟨rfl, heffective.symm, hreceived.symm⟩

/-- The rows a read of a quote selects are the rows of the kept quotes of its
key that it sees. -/
theorem mem_quoteRows_iff
    (h : HoldsKept quoteView MarketQuote.storedRow db.quoteObservations received)
    {row : MarketQuoteRow} :
    row ∈ db.quoteRows provider symbol asOf ↔
      ∃ quote ∈ quoteView.kept received, quote.storedRow = some row ∧
        quoteView.key quote = (provider, upper symbol) ∧
        SeenAt asOf (quoteView.received quote) := by
  rw [MarketDb.quoteRows, List.mem_filter, h.mem_values]
  constructor
  · intro hand
    obtain ⟨⟨quote, hquote, hrow⟩, hselects⟩ := hand
    simp only [decide_eq_true_eq] at hselects
    obtain ⟨hprovider, hsymbol, hseen⟩ := hselects
    obtain ⟨hkey, -, hreceived⟩ := MarketQuote.key_of_storedRow hrow
    refine ⟨quote, hquote, hrow, ?_, ?_⟩
    · rw [hkey, hprovider, hsymbol]
    · show SeenAt asOf quote.receivedAt
      rw [hreceived]
      exact hseen
  · intro hex
    obtain ⟨quote, hquote, hrow, hselects, hseen⟩ := hex
    obtain ⟨hkey, -, hreceived⟩ := MarketQuote.key_of_storedRow hrow
    refine ⟨⟨quote, hquote, hrow⟩, ?_⟩
    rw [hkey, Prod.mk.injEq] at hselects
    simp only [decide_eq_true_eq]
    exact ⟨hselects.1, hselects.2, hreceived ▸ hseen⟩

/-- The read of a quote succeeds, and returns the effective time and the stored
prices of the kept quote in force. -/
theorem latestQuote_kept
    (h : HoldsKept quoteView MarketQuote.storedRow db.quoteObservations received)
    (harrives : quoteView.Arrives received) (provider symbol : String)
    (asOf : Option UtcDatetime) :
    ∃ found, db.latestQuote provider symbol asOf = some found ∧
      Option.Rel (fun quote kept : MarketQuote =>
          quote.effectiveTime = kept.effectiveTime ∧ quote.prices = kept.storedPrices)
        found (quoteView.inForce (quoteView.kept received) (provider, upper symbol) asOf) := by
  obtain ⟨found, hfound⟩ := MarketDb.latestQuote_succeeds (fun row hrow => by
    obtain ⟨quote, -, hstored, -, -⟩ := (mem_quoteRows_iff h).mp hrow
    obtain ⟨rebuilt, hrebuilt, -⟩ := MarketQuote.exists_quote_of_storedRow hstored
    exact ⟨rebuilt, hrebuilt⟩)
  refine ⟨found, hfound, ?_⟩
  cases found with
  | none =>
      have hnil := MarketDb.latestQuote_eq_none hfound
      have hnone : quoteView.inForce (quoteView.kept received)
          (provider, upper symbol) asOf = none := by
        apply View.inForce_eq_none_iff.mpr
        intro quote hquote hkey hseen
        obtain ⟨row, hstored⟩ := h.stored quote hquote
        have hmem : row ∈ db.quoteRows provider symbol asOf :=
          (mem_quoteRows_iff h).mpr ⟨quote, hquote, hstored, hkey, hseen⟩
        rw [hnil] at hmem
        cases hmem
      rw [hnone]
      exact Option.Rel.none
  | some found =>
      obtain ⟨row, hrow, hrebuilt, hgreatest⟩ := MarketDb.latestQuote_eq_some hfound
      obtain ⟨kept, hkept, hstored, hkey, hseen⟩ := (mem_quoteRows_iff h).mp hrow
      obtain ⟨hrowKey, heffective, hreceived⟩ := MarketQuote.key_of_storedRow hstored
      have hforce : quoteView.inForce (quoteView.kept received)
          (provider, upper symbol) asOf = some kept := by
        apply harrives.kept.inForce_eq_some hkept hkey hseen
        intro kept' hkept' hkey' hseen'
        obtain ⟨row', hstored'⟩ := h.stored kept' hkept'
        obtain ⟨-, heffective', hreceived'⟩ := MarketQuote.key_of_storedRow hstored'
        have hmem' : row' ∈ db.quoteRows provider symbol asOf :=
          (mem_quoteRows_iff h).mpr ⟨kept', hkept', hstored', hkey', hseen'⟩
        have hle := MarketDb.rank_le_of_readKey_le (hgreatest row' hmem')
        rw [← heffective, ← hreceived, ← heffective', ← hreceived'] at hle
        exact hle
      rw [hforce, Option.rel_some_some]
      have hfields := MarketQuoteRow.fields_of_quote hrebuilt
      refine ⟨?_, ?_⟩
      · rw [hfields, heffective]
        rfl
      · rw [hfields]
        exact (MarketQuote.fields_of_storedRow hstored).2.1

/-- A read of a quote is right exactly when the kept quote in force stands for
the one received last. -/
theorem quoteRead_iff
    (h : HoldsKept quoteView MarketQuote.storedRow db.quoteObservations received)
    (harrives : quoteView.Arrives received) (provider symbol : String)
    (asOf : Option UtcDatetime) :
    (∃ found, db.latestQuote provider symbol asOf = some found ∧
      Option.Rel (fun quote last : MarketQuote =>
          quote.effectiveTime = last.effectiveTime ∧ quote.prices = last.prices)
        found (lastReceivedQuote received provider symbol asOf)) ↔
    Option.Rel quoteView.StandsFor
      (quoteView.inForce (quoteView.kept received) (provider, upper symbol) asOf)
      (quoteView.inForce received (provider, upper symbol) asOf) := by
  obtain ⟨found, hfound, hkept⟩ := latestQuote_kept h harrives provider symbol asOf
  rw [lastReceivedQuote]
  generalize quoteView.inForce received (provider, upper symbol) asOf = last
  generalize quoteView.inForce (quoteView.kept received) (provider, upper symbol) asOf = kept
    at hkept
  constructor
  · intro hread
    obtain ⟨found', hfound', hlast⟩ := hread
    obtain rfl : found = found' := Option.some.inj (hfound.symm.trans hfound')
    cases hkept with
    | none =>
        cases hlast
        exact Option.Rel.none
    | some hkept =>
        cases hlast with
        | some hlast =>
            exact Option.Rel.some ⟨hkept.1.symm.trans hlast.1, hkept.2.symm.trans hlast.2⟩
  · intro hstands
    refine ⟨found, hfound, ?_⟩
    cases hkept with
    | none =>
        cases hstands
        exact Option.Rel.none
    | some hkept =>
        cases hstands with
        | some hstands =>
            exact Option.Rel.some ⟨hkept.1.trans hstands.1, hkept.2.trans hstands.2⟩

/-- The reads of quotes are right exactly when every arrival of a quote was
admitted. -/
theorem quotesCurrent_iff
    (h : HoldsKept quoteView MarketQuote.storedRow db.quoteObservations received)
    (harrives : quoteView.Arrives received) :
    QuotesCurrent db received ↔ quoteView.AdmitsAll (fun _ => True) received := by
  rw [← View.serves_iff harrives]
  constructor
  · intro hcurrent key _ asOf
    cases hlast : quoteView.inForce received key asOf with
    | none =>
        rw [View.inForce_kept_of_none hlast]
        exact Option.Rel.none
    | some last =>
        obtain ⟨-, hkey, -, -⟩ := View.inForce_spec hlast
        have hlastKey : key = (last.provider, upper last.symbol) := by
          rw [upper_of_isSymbol last.accepted.1]
          exact hkey.symm
        have hread := (quoteRead_iff h harrives last.provider last.symbol asOf).mp
          (hcurrent last.provider last.symbol asOf)
        rw [← hlastKey, hlast] at hread
        exact hread
  · intro hserves provider symbol asOf
    exact (quoteRead_iff h harrives provider symbol asOf).mpr
      (hserves (provider, upper symbol) trivial asOf)

end QuoteReads

section LastCorrection

variable [CharacterTables] [Digest]

/-- The observations of every key arrive in strictly increasing receipt. -/
def MarketHistory.InOrder (history : MarketHistory) : Prop :=
  barView.Arrives history.bars ∧ quoteView.Arrives history.quotes

/-- Every read returns the correction received last. -/
def MarketHistory.LastCorrectionWins (history : MarketHistory) : Prop :=
  BarsCurrent history.db history.bars ∧ QuotesCurrent history.db history.quotes

/-- Every arrival of a final bar and of a quote was admitted. -/
def MarketHistory.Admitted (history : MarketHistory) : Prop :=
  barView.AdmitsAll IsFinalKey history.bars ∧
    quoteView.AdmitsAll (fun _ => True) history.quotes

/-- **The last correction wins exactly among admitted observations.**  After
any calls whose observations arrive in order, the reads return the correction
received last if and only if every observation that came into force either
repeated the prices in force, if its content was known, or had prices the
columns hold exactly, if it was not. -/
theorem last_correction_wins_iff (calls : List SaveCall)
    (horder : (MarketHistory.after calls).InOrder) :
    (MarketHistory.after calls).LastCorrectionWins ↔ (MarketHistory.after calls).Admitted := by
  have hstored := MarketHistory.after_stored calls
  have hbars := barsCurrent_iff hstored.bars horder.1
  have hquotes := quotesCurrent_iff hstored.quotes horder.2
  exact and_congr hbars hquotes

end LastCorrection

section Sample

/-- A bar, and its correction a minute later. -/
def correctedBar : List SaveCall :=
  [.bars [sampleBar 60], .bars [sampleCorrection 120]]

/-- The bar is corrected back another minute later. -/
def withdrawnCorrection : List SaveCall :=
  correctedBar ++ [.bars [sampleBar 180]]

theorem correctedBar_inOrder :
    let _ : Digest := sampleDigest
    (MarketHistory.after correctedBar).InOrder := by
  intro _
  unfold MarketHistory.InOrder View.Arrives
  decide +kernel

theorem withdrawnCorrection_inOrder :
    let _ : Digest := sampleDigest
    (MarketHistory.after withdrawnCorrection).InOrder := by
  intro _
  unfold MarketHistory.InOrder View.Arrives
  decide +kernel

end Sample

/-- A bar and one correction of it, in order. -/
theorem last_correction_wins_iff_correctedBar :
    let _ : CharacterTables := asciiTables
    let _ : Digest := sampleDigest
    (MarketHistory.after correctedBar).LastCorrectionWins ↔
      (MarketHistory.after correctedBar).Admitted := by
  intro _ _
  exact last_correction_wins_iff correctedBar correctedBar_inOrder

/-- A correction back to the first value is lost: the bar is still read with
the close that was withdrawn. -/
theorem last_correction_lost :
    let _ : CharacterTables := asciiTables
    let _ : Digest := sampleDigest
    (MarketHistory.after withdrawnCorrection).InOrder ∧
      ¬(MarketHistory.after withdrawnCorrection).LastCorrectionWins := by
  intro _ _
  refine ⟨withdrawnCorrection_inOrder, ?_⟩
  intro hwins
  obtain ⟨out, hout, hright, -⟩ :=
    hwins.1 "fixture-market" "ACME" "1m" none 10 (by decide)
  have hread : ((MarketHistory.after withdrawnCorrection).db.bars "fixture-market" "ACME" "1m"
      10 none true).map (fun out => out.map (fun bar => (bar.timestamp, bar.ohlcv.close))) =
      some [(sampleNoon, 507 / 5)] := by
    decide +kernel
  have hlast : (lastReceivedBar (MarketHistory.after withdrawnCorrection).bars
      "fixture-market" "ACME" "1m" sampleNoon none).map (fun bar => bar.ohlcv.close) =
      some 101 := by
    decide +kernel
  rw [hout, Option.map_some, Option.some.injEq] at hread
  obtain ⟨bar, hbar, hpair⟩ := List.mem_map.mp (hread ▸ List.mem_singleton_self _)
  obtain ⟨hstart, hclose⟩ := Prod.mk.inj hpair
  obtain ⟨last, hlastBar, hohlcv⟩ := hright bar hbar
  rw [hstart] at hlastBar
  rw [hlastBar, Option.map_some, Option.some.injEq, ← hohlcv, hclose] at hlast
  exact absurd hlast (by decide +kernel)

end EventAlpha
