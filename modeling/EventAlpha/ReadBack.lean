import EventAlpha.Corrections
import EventAlpha.ReadReference

/-!
# Reading back what was accepted

An observation that a save accepts is a row from then on, and a read that
selects the row has to return the observation.  Between the two the prices pass
through columns of ten fractional digits, and a price that needs more digits
comes back as another number.  For a bar it may not come back at all: its table,
unlike that of quotes, has no check against a price that was rounded to zero, so
the row is stored and every read that selects it raises.

`reads_back_iff` says that nothing else goes wrong: a read returns what was
saved exactly if the prices behind the rows it selects fit the columns.
-/

namespace EventAlpha

open KeyedOrder ObservationLog

section ReadBack

/-- The bar is returned as it was saved: the same prices, and all other fields
as given. -/
structure MarketBar.ReturnedFor (bar saved : MarketBar) : Prop where
  ohlcv_eq : bar.ohlcv = saved.ohlcv
  fields_eq : bar.toMarketBarFields = { saved.toMarketBarFields with
    «open» := bar.open, high := bar.high, low := bar.low, close := bar.close }

/-- The quote is returned as it was saved. -/
structure MarketQuote.ReturnedFor (quote saved : MarketQuote) : Prop where
  prices_eq : quote.prices = saved.prices
  fields_eq : quote.toMarketQuoteFields = { saved.toMarketQuoteFields with
    bid := quote.bid, ask := quote.ask, last := quote.last }

/-- The prices of a bar fit the columns of its table. -/
def MarketBar.FitsColumns (bar : MarketBar) : Prop := bar.storedOhlcv = bar.ohlcv

/-- The prices of a quote fit the columns of its table. -/
def MarketQuote.FitsColumns (quote : MarketQuote) : Prop := quote.storedPrices = quote.prices

/-- A row can be rebuilt and returned for a bar exactly if the bar fits. -/
theorem MarketBar.exists_returned_iff [Digest] {saved : MarketBar} {row : MarketBarRow}
    (h : saved.storedRow = some row) :
    (∃ bar, row.bar = some bar ∧ bar.ReturnedFor saved) ↔ saved.FitsColumns := by
  obtain ⟨htimeframe, hfields, hohlcv⟩ := MarketBar.fields_of_storedRow h
  have hread : ∀ bar, row.bar = some bar → bar.toMarketBarFields = row.fields saved.timeframe := by
    intro bar hbar
    obtain ⟨timeframe, hknown, hbar⟩ := Option.bind_eq_some_iff.mp hbar
    rw [htimeframe, MarketTimeframe.ofText?_value, Option.some.injEq] at hknown
    subst hknown
    exact MarketBar.fields_of_validate hbar
  constructor
  · rintro ⟨bar, hbar, hreturned⟩
    calc saved.storedOhlcv
        = (row.fields saved.timeframe).ohlcv := hohlcv.symm
      _ = bar.ohlcv := congrArg MarketBarFields.ohlcv (hread bar hbar).symm
      _ = saved.ohlcv := hreturned.ohlcv_eq
  · intro hfits
    obtain ⟨bar, hbar, hsame⟩ := exists_bar_of_storedOhlcv h hfits
    refine ⟨bar, hbar, hsame, ?_⟩
    have hrow := hread bar hbar
    have hprices : row.open = bar.open ∧ row.high = bar.high ∧ row.low = bar.low ∧
        row.close = bar.close := by
      rw [hrow]
      exact ⟨rfl, rfl, rfl, rfl⟩
    obtain ⟨hopen, hhigh, hlow, hclose⟩ := hprices
    rw [hrow, hfields, hopen, hhigh, hlow, hclose]

/-- A row of a quote can always be rebuilt, and is returned for the quote
exactly if that fits. -/
theorem MarketQuote.exists_returned_iff [Digest] {saved : MarketQuote} {row : MarketQuoteRow}
    (h : saved.storedRow = some row) :
    (∃ quote, row.quote = some quote ∧ quote.ReturnedFor saved) ↔ saved.FitsColumns := by
  obtain ⟨hfields, hprices, -⟩ := MarketQuote.fields_of_storedRow h
  constructor
  · rintro ⟨quote, hquote, hreturned⟩
    calc saved.storedPrices
        = row.fields.prices := hprices.symm
      _ = quote.prices :=
          congrArg MarketQuoteFields.prices (MarketQuoteRow.fields_of_quote hquote).symm
      _ = saved.prices := hreturned.prices_eq
  · intro hfits
    obtain ⟨quote, hquote, hrow⟩ := MarketQuote.exists_quote_of_storedRow h
    refine ⟨quote, hquote, ?_, ?_⟩
    · show quote.toMarketQuoteFields.prices = saved.prices
      rw [hrow, hprices]
      exact hfits
    · have hsame : row.bid = quote.bid ∧ row.ask = quote.ask ∧ row.last = quote.last := by
        rw [hrow]
        exact ⟨rfl, rfl, rfl⟩
      obtain ⟨hbid, hask, hlast⟩ := hsame
      rw [hrow, hfields, hbid, hask, hlast]

end ReadBack

section Histories

variable [CharacterTables] [Digest] {history : MarketHistory} {provider symbol timeframe : String}
  {limit : Int} {asOf : Option UtcDatetime} {finalOnly : Bool}

omit [CharacterTables] in
/-- The bar whose save added a row. -/
def MarketHistory.SavedBar (history : MarketHistory) (row : MarketBarRow) (bar : MarketBar) :
    Prop :=
  bar ∈ barView.kept history.bars ∧ bar.storedRow = some row

omit [CharacterTables] in
/-- The quote whose save added a row. -/
def MarketHistory.SavedQuote (history : MarketHistory) (row : MarketQuoteRow)
    (quote : MarketQuote) : Prop :=
  quote ∈ quoteView.kept history.quotes ∧ quote.storedRow = some row

omit [Digest] in
/-- The rows a read of bars selects, oldest first. -/
def MarketDb.selectedBars (db : MarketDb) (provider symbol timeframe : String) (limit : Int)
    (asOf : Option UtcDatetime) (finalOnly : Bool) : List MarketBarRow :=
  (selectRows limit (sortedByDesc MarketBarRow.readKey
    (db.barRows provider symbol timeframe asOf finalOnly)) [] []).reverse

omit [Digest] in
/-- The row a read of a quote selects, if there is one. -/
def MarketDb.selectedQuote (db : MarketDb) (provider symbol : String)
    (asOf : Option UtcDatetime) : Option MarketQuoteRow :=
  (sortedByDesc MarketQuoteRow.readKey (db.quoteRows provider symbol asOf)).head?

/-- A read of bars succeeds and returns, for every row it selects, the bar that
was saved. -/
def MarketHistory.BarsReadBack (history : MarketHistory) (provider symbol timeframe : String)
    (limit : Int) (asOf : Option UtcDatetime) (finalOnly : Bool) : Prop :=
  ∃ out, history.db.bars provider symbol timeframe limit asOf finalOnly = some out ∧
    List.Forall₂ (fun row bar => ∀ saved, history.SavedBar row saved → bar.ReturnedFor saved)
      (history.db.selectedBars provider symbol timeframe limit asOf finalOnly) out

/-- A read of a quote succeeds and returns the quote that was saved, if it
selects a row. -/
def MarketHistory.QuoteReadBack (history : MarketHistory) (provider symbol : String)
    (asOf : Option UtcDatetime) : Prop :=
  ∃ found, history.db.latestQuote provider symbol asOf = some found ∧
    Option.Rel (fun row quote => ∀ saved, history.SavedQuote row saved → quote.ReturnedFor saved)
      (history.db.selectedQuote provider symbol asOf) found

omit [Digest] in
/-- A row that a read of bars selects is in the table. -/
theorem MarketDb.mem_values_of_selectedBars {db : MarketDb} {row : MarketBarRow}
    (h : row ∈ db.selectedBars provider symbol timeframe limit asOf finalOnly) :
    row ∈ db.barObservations.values := by
  rcases mem_of_mem_selectRows (List.mem_reverse.mp h) with hmem | hmem
  · cases hmem
  · exact List.mem_of_mem_filter (mem_sortedByDesc.mp hmem)

omit [Digest] in
theorem MarketDb.mem_values_of_selectedQuote {db : MarketDb} {row : MarketQuoteRow}
    (h : db.selectedQuote provider symbol asOf = some row) :
    row ∈ db.quoteObservations.values :=
  List.mem_of_mem_filter (head?_sortedByDesc h).1

omit [CharacterTables] in
/-- Every row was added by the save of one observation. -/
theorem MarketHistory.Stored.exists_savedBar (h : history.Stored) {row : MarketBarRow}
    (hrow : row ∈ history.db.barObservations.values) : ∃ saved, history.SavedBar row saved :=
  h.bars.mem_values.mp hrow

omit [CharacterTables] in
theorem MarketHistory.Stored.exists_savedQuote (h : history.Stored) {row : MarketQuoteRow}
    (hrow : row ∈ history.db.quoteObservations.values) :
    ∃ saved, history.SavedQuote row saved :=
  h.quotes.mem_values.mp hrow

/-- **Bars.**  A read of bars returns what was saved exactly if the bars behind
its rows fit the columns. -/
theorem MarketHistory.Stored.barsReadBack_iff (h : history.Stored) :
    history.BarsReadBack provider symbol timeframe limit asOf finalOnly ↔
      ∀ row ∈ history.db.selectedBars provider symbol timeframe limit asOf finalOnly,
        ∀ saved, history.SavedBar row saved → saved.FitsColumns := by
  constructor
  · rintro ⟨out, hout, hmatches⟩ row hrow saved hsaved
    obtain ⟨bar, hbar, hreturned⟩ := exists_rel_of_traverse hout hmatches hrow
    exact (MarketBar.exists_returned_iff hsaved.2).mp ⟨bar, hbar, hreturned saved hsaved⟩
  · intro hfits
    have hreturned : ∀ row ∈ history.db.selectedBars provider symbol timeframe limit asOf
        finalOnly, ∃ bar, row.bar = some bar ∧
          ∀ saved, history.SavedBar row saved → bar.ReturnedFor saved := by
      intro row hrow
      obtain ⟨saved, hsaved⟩ := h.exists_savedBar (MarketDb.mem_values_of_selectedBars hrow)
      obtain ⟨bar, hbar, -⟩ :=
        (MarketBar.exists_returned_iff hsaved.2).mpr (hfits row hrow saved hsaved)
      refine ⟨bar, hbar, ?_⟩
      intro other hother
      obtain ⟨bar', hbar', hreturned⟩ :=
        (MarketBar.exists_returned_iff hother.2).mpr (hfits row hrow other hother)
      obtain rfl := Option.some.inj (hbar.symm.trans hbar')
      exact hreturned
    obtain ⟨out, hout⟩ := exists_traverse (fun row hrow =>
      (hreturned row hrow).imp (fun _ hand => hand.1))
    refine ⟨out, hout, List.forall₂_iff_zip.mpr ?_⟩
    obtain ⟨hlength, hrebuilt⟩ := List.forall₂_iff_zip.mp (forall₂_of_traverse hout)
    refine ⟨hlength, ?_⟩
    intro row bar hpair
    obtain ⟨bar', hbar', hsame⟩ := hreturned row (List.of_mem_zip hpair).1
    obtain rfl := Option.some.inj ((hrebuilt hpair).symm.trans hbar')
    exact hsame

omit [Digest] in
/-- A read of a quote rebuilds the row it selects. -/
theorem MarketDb.latestQuote_of_selected {db : MarketDb} {row : MarketQuoteRow}
    (h : db.selectedQuote provider symbol asOf = some row) :
    db.latestQuote provider symbol asOf = row.quote.map some := by
  unfold selectedQuote at h
  rw [latestQuote, h]

omit [Digest] in
theorem MarketDb.latestQuote_of_none {db : MarketDb}
    (h : db.selectedQuote provider symbol asOf = none) :
    db.latestQuote provider symbol asOf = some none := by
  unfold selectedQuote at h
  rw [latestQuote, h]

/-- **Quotes.**  A read of a quote returns what was saved exactly if the quote
behind its row fits the columns. -/
theorem MarketHistory.Stored.quoteReadBack_iff (h : history.Stored) :
    history.QuoteReadBack provider symbol asOf ↔
      ∀ row ∈ history.db.selectedQuote provider symbol asOf,
        ∀ saved, history.SavedQuote row saved → saved.FitsColumns := by
  unfold MarketHistory.QuoteReadBack
  cases hselected : history.db.selectedQuote provider symbol asOf with
  | none =>
      have hread := MarketDb.latestQuote_of_none hselected
      refine iff_of_true ⟨none, hread, Option.Rel.none⟩ ?_
      intro row hrow
      cases hrow
  | some row =>
      have hread := MarketDb.latestQuote_of_selected hselected
      constructor
      · rintro ⟨found, hfound, hmatches⟩ _ ⟨⟩ saved hsaved
        cases hmatches with
        | @some _ quote hreturned =>
            rw [hread, Option.map_eq_some_iff] at hfound
            obtain ⟨quote', hquote, heq⟩ := hfound
            obtain rfl := Option.some.inj heq
            exact (MarketQuote.exists_returned_iff hsaved.2).mp
              ⟨quote', hquote, hreturned saved hsaved⟩
      · intro hfits
        obtain ⟨saved, hsaved⟩ :=
          h.exists_savedQuote (MarketDb.mem_values_of_selectedQuote hselected)
        obtain ⟨quote, hquote, -⟩ :=
          (MarketQuote.exists_returned_iff hsaved.2).mpr (hfits row rfl saved hsaved)
        have hfound : history.db.latestQuote provider symbol asOf = some (some quote) := by
          rw [hread, hquote, Option.map_some]
        refine ⟨some quote, hfound, Option.Rel.some ?_⟩
        intro other hother
        obtain ⟨quote', hquote', hreturned⟩ :=
          (MarketQuote.exists_returned_iff hother.2).mpr (hfits row rfl other hother)
        obtain rfl := Option.some.inj (hquote.symm.trans hquote')
        exact hreturned

end Histories

section Guarantee

variable [CharacterTables] [Digest]

/-- **Reading back.**  After any calls, a read of bars or of a quote returns
what was saved if and only if the prices behind every row it selects fit the
columns. -/
theorem reads_back_iff (calls : List SaveCall) (provider symbol timeframe : String)
    (limit : Int) (asOf : Option UtcDatetime) (finalOnly : Bool) :
    ((MarketHistory.after calls).BarsReadBack provider symbol timeframe limit asOf finalOnly ↔
      ∀ row ∈ (MarketHistory.after calls).db.selectedBars provider symbol timeframe limit asOf
        finalOnly, ∀ saved, (MarketHistory.after calls).SavedBar row saved → saved.FitsColumns) ∧
    ((MarketHistory.after calls).QuoteReadBack provider symbol asOf ↔
      ∀ row ∈ (MarketHistory.after calls).db.selectedQuote provider symbol asOf,
        ∀ saved, (MarketHistory.after calls).SavedQuote row saved → saved.FitsColumns) :=
  ⟨(MarketHistory.after_stored calls).barsReadBack_iff,
    (MarketHistory.after_stored calls).quoteReadBack_iff⟩

/-- A bar that traded, for a moment, at a hundredth of a billionth. -/
def tinyLowFields : MarketBarFields :=
  { sampleBarFields 10100 60 with low := ⟨1, -11⟩ }

omit [CharacterTables] [Digest] in
theorem tinyLowFields_accepted : tinyLowFields.Accepted := by
  decide +kernel

def tinyLow : MarketBar := ⟨tinyLowFields, tinyLowFields_accepted⟩

omit [CharacterTables] [Digest] in
/-- The bar is saved, with its low rounded to zero, and no read of its symbol
succeeds afterwards. -/
theorem saved_bar_unreadable :
    let _ : CharacterTables := asciiTables
    let _ : Digest := sampleDigest
    (MarketDb.empty.saveBars [tinyLow]).isSome ∧
      ¬(MarketHistory.after [.bars [tinyLow]]).BarsReadBack "fixture-market" "ACME" "1m" 10
        none true := by
  intro _ _
  refine ⟨by decide +kernel, ?_⟩
  rintro ⟨out, hout, -⟩
  have hraises : (MarketHistory.after [.bars [tinyLow]]).db.bars "fixture-market" "ACME" "1m" 10
      none true = none := by
    decide +kernel
  rw [hraises] at hout
  cases hout

end Guarantee

end EventAlpha
