import EventAlpha.ChartGeometry
import EventAlpha.Configuration
import EventAlpha.MarketEndpoints

/-!
# The live market page

The page asks the API for the bars and the snapshot of one asset and derives
from both what it shows: the source, whether the quote and the bars are stale,
and the chart.  It judges the age of what it was sent by its own clock, besides
what the API says of it.

Together with the endpoints and the store this gives the way of a price to the
page: every bar of a response is charted, in order (`live_chart_complete`), and
nothing is shown as fresh, or as anything but a replay, that is not
(`live_status_honest`).

The texts that are made of these parts for display are left out.
-/

namespace EventAlpha

namespace LivePage

open KeyedOrder SplitRuns

section Sending

/-- An instant in a response. -/
def jsonInstant (instant : UtcDatetime) : String :=
  String.ofList (CivilTime.isoSeconds instant ++
    (if instant % 1000000 = 0 then [] else CivilTime.isoFraction instant) ++ ['Z'])

/-- A datetime, which lies in the years 1 to 9999. -/
def IsDatetime (instant : UtcDatetime) : Prop :=
  CivilTime.firstInstant ≤ instant ∧ instant ≤ CivilTime.lastInstant

instance (instant : UtcDatetime) : Decidable (IsDatetime instant) :=
  inferInstanceAs (Decidable (_ ∧ _))

/-- What a `NUMERIC(28, 10)` column may hold of a positive price. -/
def IsColumnPrice (price : Decimal) : Prop :=
  1 / 10 ^ 10 ≤ price.value ∧ price.value < 10 ^ 18

/-- The text of a decimal in a response, and how the page reads the texts of a
response: an instant to the millisecond, and a price as a positive number. -/
class SentTexts extends PageParsers where
  decimalText : Decimal → String
  dateParse_jsonInstant : ∀ instant : UtcDatetime, IsDatetime instant →
    dateParse (jsonInstant instant) = some ((instant / 1000 : Int) : ℚ)
  isBlank_decimalText : ∀ price : Decimal, IsColumnPrice price →
    isBlank (decimalText price) = false
  number_decimalText : ∀ price : Decimal, IsColumnPrice price →
    ∃ number', number (decimalText price) = some number' ∧ 0 < number'

/-- A bar of a response. -/
structure SentBar extends MarketBar where
  provider : String
  barEndAt : String
  providerUpdatedAt : Option String

/-- `BarsPayload`. -/
structure BarsPayload where
  data : List SentBar
  source : String
  storage : String
  availability : String
  barFreshnessMs : Option Int
  stale : Bool

/-- The quote of a response. -/
structure SentQuote where
  provider : String
  providerTimestamp : Option String
  receivedAt : String

/-- `SnapshotPayload`. -/
structure SnapshotPayload where
  quote : SentQuote
  quoteFreshnessMs : Option Int
  stale : Bool
  source : String
  storage : String

/-- `readApi`.  A request may fail. -/
def readApi {β γ : Type} (payload : β → γ) : Option (Response β) → Option γ
  | some (.ok body) => some (payload body)
  | _ => none

variable [SentTexts]

def sendBar (bar : EventAlpha.MarketBar) : SentBar where
  timestamp := jsonInstant bar.timestamp
  close := SentTexts.decimalText bar.close
  provider := bar.provider
  barEndAt := jsonInstant bar.barEndAt
  providerUpdatedAt := bar.providerUpdatedAt.map jsonInstant

def sendBars (body : AssetBars) : BarsPayload where
  data := body.data.map sendBar
  source := body.source
  storage := body.storage
  availability := body.availability
  barFreshnessMs := body.barFreshnessMs
  stale := body.stale

omit [SentTexts] in
def sendSnapshot (body : AssetSnapshot) : SnapshotPayload where
  quote := {
    provider := body.quote.provider
    providerTimestamp := body.quote.providerTimestamp.map jsonInstant
    receivedAt := jsonInstant body.quote.receivedAt }
  quoteFreshnessMs := body.quoteFreshnessMs
  stale := body.stale
  source := body.source
  storage := body.storage

end Sending

section Page

variable [PageParsers]

/-- `ageMs`: no age of what lies ahead of the clock. -/
def ageMs (value : Option String) (nowMs : ℚ) : Option ℚ :=
  (value.bind parseTimestamp).bind (fun timestampMs =>
    if nowMs < timestampMs then none else some (nowMs - timestampMs))

/-- Whether an age is not known, or above a bound. -/
def olderThan (bound : ℚ) : Option ℚ → Bool
  | none => true
  | some age => bound < age

/-- `QUOTE_STALE_AFTER_MS` and `BAR_STALE_AFTER_MS`. -/
def quoteStaleAfterMs : ℚ := 15000

def barStaleAfterMs : ℚ := 90000

/-- The sample of a bar, unless it has no time or no positive price. -/
def sample? (bar : MarketBar) : Option ChartSample := do
  let timestampMs ← parseTimestamp bar.timestamp
  let price ← if PageParsers.isBlank bar.close then none else PageParsers.number bar.close
  if 0 < price then some ⟨bar, price, timestampMs⟩ else none

/-- `chartSamples`, with the bars as they were sent. -/
def liveSamples (data : List SentBar) : List (SentBar × ChartSample) :=
  sortedBy (fun sample => sample.2.timestampMs)
    (data.filterMap (fun bar => (sample? bar.toMarketBar).map (fun sample => (bar, sample))))

/-- The samples are those of `chartSamples`. -/
theorem map_liveSamples (data : List SentBar) :
    (liveSamples data).map Prod.snd = chartSamples (data.map SentBar.toMarketBar) := by
  unfold liveSamples chartSamples
  rw [← sortedBy_map, List.map_filterMap, List.filterMap_map]
  congr 2
  funext bar
  show ((sample? bar.toMarketBar).map (fun sample => (bar, sample))).map Prod.snd =
    sample? bar.toMarketBar
  rw [Option.map_map]
  exact Option.map_id_apply

/-- What the page says of the source. -/
structure SourceDescription where
  label : String
  replay : Bool
  unavailable : Bool

/-- Whether a text contains another. -/
def includes (text part : List Char) : Bool :=
  text.tails.any (fun tail => part.isPrefixOf tail)

/-- The first provider that is named. -/
def namedProvider (bars : Option BarsPayload) (snapshot : Option SnapshotPayload) :
    Option String :=
  [bars.map BarsPayload.source, snapshot.map SnapshotPayload.source,
    bars.bind (fun payload => payload.data.head?.map SentBar.provider),
    snapshot.map (fun payload => payload.quote.provider)].findSome?
      (fun name => name.filter (fun text => text ≠ ""))

def persisted (bars : Option BarsPayload) (snapshot : Option SnapshotPayload) : Bool :=
  bars.any (fun payload => payload.storage = "persistent") ||
    snapshot.any (fun payload => payload.storage = "persistent")

variable [CharacterTables]

/-- `sourceDescription`. -/
def sourceDescription (bars : Option BarsPayload) (snapshot : Option SnapshotPayload) :
    SourceDescription :=
  match namedProvider bars snapshot with
  | none => ⟨"MARKET DATA UNAVAILABLE", false, true⟩
  | some provider =>
      if includes (lowered provider.toList) "replay".toList then
        ⟨if persisted bars snapshot then "PERSISTED REPLAY MARKET DATA" else "REPLAY MARKET DATA",
          true, false⟩
      else
        ⟨(if persisted bars snapshot then "PERSISTED " else "") ++ upper provider ++
          " MARKET DATA", false, false⟩

/-- The color of what is shown of observations that are stale or fresh. -/
def freshnessColor (stale : Bool) : String :=
  if stale then "#e5b45f" else "#77d9a7"

/-- What the page shows, with the colors of its status line, of the two lines
on freshness, and of the chart where one is drawn. -/
structure LiveMarket where
  source : SourceDescription
  statusColor : String
  quoteColor : String
  barsColor : String
  chartColor : Option String
  quoteAgeMs : Option ℚ
  quoteStale : Bool
  barAgeMs : Option ℚ
  barsUnavailable : Bool
  barsStale : Bool
  samples : List (SentBar × ChartSample)
  geometry : Option ChartGeometry

/-- `LiveMarket`. -/
def liveMarket (bars : Option BarsPayload) (snapshot : Option SnapshotPayload) (nowMs : ℚ) :
    LiveMarket :=
  let samples := liveSamples ((bars.map BarsPayload.data).getD [])
  let geometry := chartGeometry (samples.map Prod.snd)
  let measuredQuoteAgeMs := ageMs (snapshot.map (fun payload =>
    payload.quote.providerTimestamp.getD payload.quote.receivedAt)) nowMs
  let quoteStale := match snapshot with
    | none => true
    | some payload => payload.stale || olderThan quoteStaleAfterMs measuredQuoteAgeMs
  let measuredBarAgeMs := ageMs (samples.getLast?.map (fun sample =>
    sample.1.providerUpdatedAt.getD sample.1.barEndAt)) nowMs
  let barsUnavailable := match bars with
    | none => true
    | some payload => payload.availability = "unavailable" || geometry.isNone
  let barsStale := barsUnavailable || bars.any BarsPayload.stale ||
    olderThan barStaleAfterMs measuredBarAgeMs
  let source := sourceDescription bars snapshot
  { source := source
    statusColor := if source.unavailable || barsUnavailable then "#f08b8b"
      else if source.replay || quoteStale || barsStale then "#e5b45f" else "#77d9a7"
    quoteColor := match snapshot with
      | none => "#f08b8b"
      | some _ => freshnessColor quoteStale
    barsColor := match barsUnavailable with
      | true => "#f08b8b"
      | false => freshnessColor barsStale
    chartColor := match barsUnavailable, geometry, samples.getLast? with
      | false, some _, some _ => some (freshnessColor barsStale)
      | _, _, _ => none
    quoteAgeMs := (snapshot.bind SnapshotPayload.quoteFreshnessMs).elim measuredQuoteAgeMs
      (fun age => some (age : ℚ))
    quoteStale := quoteStale
    barAgeMs := (bars.bind BarsPayload.barFreshnessMs).elim measuredBarAgeMs
      (fun age => some (age : ℚ))
    barsUnavailable := barsUnavailable
    barsStale := barsStale
    samples := samples
    geometry := geometry }

/-- The chart is that of the bars that were sent. -/
theorem geometry_liveMarket (bars : Option BarsPayload) (snapshot : Option SnapshotPayload)
    (nowMs : ℚ) : (liveMarket bars snapshot nowMs).geometry = chartGeometry (chartSamples
      (((bars.map BarsPayload.data).getD []).map SentBar.toMarketBar)) := by
  rw [← map_liveSamples]
  rfl

omit [PageParsers] [CharacterTables] in
theorem freshnessColor_eq_iff {stale : Bool} :
    freshnessColor stale = "#77d9a7" ↔ stale = false := by
  cases stale <;> decide

/-- The quote is shown in the color of fresh observations if it is not stale. -/
theorem quoteColor_eq_iff {bars : Option BarsPayload} {snapshot : Option SnapshotPayload}
    {nowMs : ℚ} : (liveMarket bars snapshot nowMs).quoteColor = "#77d9a7" ↔
      (liveMarket bars snapshot nowMs).quoteStale = false := by
  cases snapshot with
  | none => exact iff_of_false (by decide : "#f08b8b" ≠ "#77d9a7") (by simp [liveMarket])
  | some payload => exact freshnessColor_eq_iff

/-- A chart is drawn of bars that are available, and only of these. -/
theorem chartColor_liveMarket (bars : Option BarsPayload) (snapshot : Option SnapshotPayload)
    (nowMs : ℚ) : (liveMarket bars snapshot nowMs).chartColor =
      if (liveMarket bars snapshot nowMs).barsUnavailable then none
      else some (freshnessColor (liveMarket bars snapshot nowMs).barsStale) := by
  have hcolor : (liveMarket bars snapshot nowMs).chartColor =
      match (liveMarket bars snapshot nowMs).barsUnavailable,
        (liveMarket bars snapshot nowMs).geometry,
        (liveMarket bars snapshot nowMs).samples.getLast? with
      | false, some _, some _ => some (freshnessColor (liveMarket bars snapshot nowMs).barsStale)
      | _, _, _ => none := rfl
  have hdrawn : (liveMarket bars snapshot nowMs).barsUnavailable = false →
      ∃ geometry, (liveMarket bars snapshot nowMs).geometry = some geometry := by
    cases bars with
    | none => exact fun h => nomatch h
    | some payload =>
        intro havailable
        have hsome := Option.isNone_eq_false_iff.mp (Bool.or_eq_false_iff.mp havailable).2
        exact Option.isSome_iff_exists.mp hsome
  have hlast : ∀ geometry, (liveMarket bars snapshot nowMs).geometry = some geometry →
      ∃ latest, (liveMarket bars snapshot nowMs).samples.getLast? = some latest := by
    intro geometry hgeometry
    cases hsamples : (liveMarket bars snapshot nowMs).samples.getLast? with
    | some latest => exact ⟨latest, rfl⟩
    | none =>
        have hshown : (liveMarket bars snapshot nowMs).geometry =
          chartGeometry ((liveMarket bars snapshot nowMs).samples.map Prod.snd) := rfl
        rw [hshown, List.getLast?_eq_none_iff.mp hsamples] at hgeometry
        exact nomatch hgeometry
  rw [hcolor]
  cases havailable : (liveMarket bars snapshot nowMs).barsUnavailable with
  | true => rfl
  | false =>
      obtain ⟨geometry, hgeometry⟩ := hdrawn havailable
      obtain ⟨latest, hlatest⟩ := hlast geometry hgeometry
      rw [hgeometry, hlatest]
      rfl

/-- The bars and their chart are shown in the color of fresh observations if they
are not stale. -/
theorem barsColor_eq_iff {bars : Option BarsPayload} {snapshot : Option SnapshotPayload}
    {nowMs : ℚ} :
    ((liveMarket bars snapshot nowMs).barsColor = "#77d9a7" ↔
      (liveMarket bars snapshot nowMs).barsStale = false) ∧
    ((liveMarket bars snapshot nowMs).chartColor = some "#77d9a7" ↔
      (liveMarket bars snapshot nowMs).barsStale = false) := by
  have hcolor : (liveMarket bars snapshot nowMs).barsColor =
      match (liveMarket bars snapshot nowMs).barsUnavailable with
      | true => "#f08b8b"
      | false => freshnessColor (liveMarket bars snapshot nowMs).barsStale := rfl
  rw [hcolor, chartColor_liveMarket]
  cases havailable : (liveMarket bars snapshot nowMs).barsUnavailable with
  | true =>
      -- bars that are not available are stale
      have hstale : (liveMarket bars snapshot nowMs).barsStale = true := by
        show ((liveMarket bars snapshot nowMs).barsUnavailable || _ || _) = true
        rw [havailable, Bool.true_or, Bool.true_or]
      simp [hstale]
  | false =>
      rw [if_neg Bool.false_ne_true, Option.some.injEq]
      exact ⟨freshnessColor_eq_iff, freshnessColor_eq_iff⟩

end Page

section Columns

/-- What a column holds of a price is a price of the column, if it is positive. -/
theorem isColumnPrice_of_numericColumn {price column : Decimal}
    (h : numericColumn price = some column) (hpos : 0 < column.value) : IsColumnPrice column := by
  unfold numericColumn at h
  split at h
  · exact nomatch h
  rename_i hfits
  obtain rfl := Option.some.inj h
  obtain ⟨coefficient, hcoefficient⟩ : ∃ coefficient, (price.toScale 10).coefficient =
    coefficient := ⟨_, rfl⟩
  have hvalue : (price.toScale 10).value = coefficient / 10 ^ 10 := by
    have hscale : (price.toScale 10).exponent = -10 := rfl
    rw [Decimal.value_eq, hcoefficient, hscale]
    norm_num [zpow_neg]
    ring
  have hpositive : 0 < coefficient := by
    rw [← hcoefficient]
    exact Decimal.coefficient_pos_iff.mpr hpos
  have hbound : coefficient < 10 ^ 28 := by
    rw [hcoefficient] at hfits
    omega
  have hone : (1 : ℚ) ≤ coefficient := by exact_mod_cast hpositive
  have htop : (coefficient : ℚ) < 10 ^ 28 := by exact_mod_cast hbound
  constructor
  · rw [hvalue]
    exact div_le_div_of_nonneg_right hone (by positivity)
  · rw [hvalue, div_lt_iff₀ (by positivity)]
    linarith

variable [Digest]

/-- A call commits rows of observations. -/
theorem holdsKept_commit {db db' : MarketDb} {received : List EventAlpha.MarketBar}
    {call : MarketCall} (h : HoldsKept barView MarketBar.storedRow db.barObservations received)
    (hcommit : call.commit db = some db') :
    ∃ received', HoldsKept barView MarketBar.storedRow db'.barObservations received' := by
  cases call with
  | saveQuote quote =>
      obtain ⟨⟨inserted, db₁⟩, hsave, rfl⟩ := Option.map_eq_some_iff.mp hcommit
      obtain ⟨contentHash, -, hbars, -⟩ := MarketDb.saveQuote_eq_some hsave
      exact ⟨received, by rwa [hbars]⟩
  | saveBars bars =>
      obtain ⟨⟨inserted, db₁⟩, hsave, rfl⟩ := Option.map_eq_some_iff.mp hcommit
      exact ⟨_, (h.saveBars hsave).1⟩
  | recordSuccess provider observedAt lastMessageReceivedAt reconnected =>
      obtain ⟨hbars, -⟩ := MarketDb.recordSuccess_frame hcommit
      exact ⟨received, by rwa [hbars]⟩
  | recordFailure provider observedAt detail exhausted lastMessageReceivedAt =>
      obtain ⟨hbars, -⟩ := MarketDb.recordFailure_frame hcommit
      exact ⟨received, by rwa [hbars]⟩

/-- After any attempts the table of bars holds rows of observations. -/
theorem holdsKept_afterAttempts (attempts : List MarketAttempt) :
    ∃ received, HoldsKept barView MarketBar.storedRow
      (MarketDb.empty.afterAttempts attempts).barObservations received := by
  induction attempts using List.reverseRecOn with
  | nil => exact ⟨[], HoldsKept.empty⟩
  | append_singleton attempts attempt ih =>
      obtain ⟨received, hkept⟩ := ih
      rw [MarketDb.afterAttempts, List.foldl_append]
      show ∃ received, HoldsKept barView MarketBar.storedRow
        (attempt.run (MarketDb.empty.afterAttempts attempts)).barObservations received
      unfold MarketAttempt.run
      split
      · exact ⟨received, hkept⟩
      · cases hcommit : attempt.call.commit (MarketDb.empty.afterAttempts attempts) with
        | none => exact ⟨received, hkept⟩
        | some db' => exact holdsKept_commit hkept hcommit

/-- A bar that is read closes at a price of the column. -/
theorem isColumnPrice_close {attempts : List MarketAttempt} {row : MarketBarRow}
    {bar : EventAlpha.MarketBar}
    (hrow : row ∈ (MarketDb.empty.afterAttempts attempts).barObservations.values)
    (hbar : row.bar = some bar) : IsColumnPrice bar.close := by
  obtain ⟨received, hkept⟩ := holdsKept_afterAttempts attempts
  obtain ⟨saved, -, hstored⟩ := hkept.mem_values.mp hrow
  obtain ⟨contentHash, -, hsaved⟩ := Option.bind_eq_some_iff.mp hstored
  obtain ⟨«open», high, low, close, -, -, -, hclose, rfl⟩ := MarketBar.row_eq_some hsaved
  have hsame : bar.close = close := by
    rw [MarketBarRow.fields_of_bar hbar]
    rfl
  rw [hsame]
  refine isColumnPrice_of_numericColumn hclose ?_
  rw [← hsame]
  exact bar.accepted.2.2.2.1.2.2.2

end Columns

section Chart

variable [SentTexts]

/-- The sample of a bar that was sent. -/
def charted (bar : EventAlpha.MarketBar) : SentBar × ChartSample :=
  (sendBar bar, ⟨(sendBar bar).toMarketBar,
    (PageParsers.number (SentTexts.decimalText bar.close)).getD 0,
    ((bar.timestamp / 1000 : Int) : ℚ)⟩)

/-- An instant of a response is read back. -/
theorem parseTimestamp_jsonInstant {instant : UtcDatetime} (h : IsDatetime instant) :
    parseTimestamp (jsonInstant instant) = some ((instant / 1000 : Int) : ℚ) := by
  have hne : jsonInstant instant ≠ "" := by
    intro hempty
    have hlist := congrArg String.toList hempty
    simp [jsonInstant] at hlist
  rw [parseTimestamp, if_neg hne]
  exact SentTexts.dateParse_jsonInstant instant h

/-- The page has a sample of every bar. -/
theorem sample?_sendBar {bar : EventAlpha.MarketBar} (hinstant : IsDatetime bar.timestamp)
    (hprice : IsColumnPrice bar.close) :
    PageParsers.number (SentTexts.decimalText bar.close) = some (charted bar).2.price ∧
      0 < (charted bar).2.price ∧
      sample? (sendBar bar).toMarketBar = some (charted bar).2 := by
  obtain ⟨price, hnumber, hpos⟩ := SentTexts.number_decimalText bar.close hprice
  have hcharted : (charted bar).2.price = price := by
    show (PageParsers.number (SentTexts.decimalText bar.close)).getD 0 = price
    rw [hnumber]
    rfl
  refine ⟨by rw [hcharted]; exact hnumber, by rw [hcharted]; exact hpos, ?_⟩
  have htime : parseTimestamp (sendBar bar).timestamp = some ((bar.timestamp / 1000 : Int) : ℚ) :=
    parseTimestamp_jsonInstant hinstant
  have htext : PageParsers.isBlank (sendBar bar).close = false :=
    SentTexts.isBlank_decimalText bar.close hprice
  have hread : PageParsers.number (sendBar bar).close = some price := hnumber
  unfold sample?
  rw [htime, htext, hread]
  simp [charted, hnumber, hpos]

@[simp] theorem charted_fst (bar : EventAlpha.MarketBar) : (charted bar).1 = sendBar bar := rfl

@[simp] theorem charted_timestampMs (bar : EventAlpha.MarketBar) :
    (charted bar).2.timestampMs = ((bar.timestamp / 1000 : Int) : ℚ) := rfl

/-- Later bars have later samples. -/
theorem charted_le {bar bar' : EventAlpha.MarketBar} (h : bar.timestamp < bar'.timestamp) :
    (charted bar).2.timestampMs ≤ (charted bar').2.timestampMs := by
  rw [charted_timestampMs, charted_timestampMs, Int.cast_le]
  exact Int.ediv_le_ediv (by decide) h.le

/-- **The samples of a response** are its bars, in order. -/
theorem liveSamples_sent {bars : List EventAlpha.MarketBar}
    (hincreasing : bars.Pairwise (fun bar bar' => bar.timestamp < bar'.timestamp))
    (hinstants : ∀ bar ∈ bars, IsDatetime bar.timestamp)
    (hprices : ∀ bar ∈ bars, IsColumnPrice bar.close) :
    liveSamples (bars.map sendBar) = bars.map charted := by
  have hsample : ∀ bar ∈ bars, (sample? (sendBar bar).toMarketBar).map
      (fun sample => (sendBar bar, sample)) = some (charted bar) := by
    intro bar hbar
    rw [(sample?_sendBar (hinstants bar hbar) (hprices bar hbar)).2.2, Option.map_some,
      ← charted_fst]
  have hsamples : (bars.map sendBar).filterMap (fun sent =>
      (sample? sent.toMarketBar).map (fun sample => (sent, sample))) = bars.map charted := by
    rw [List.filterMap_map, ← List.filterMap_eq_map]
    apply List.filterMap_congr
    intro bar hbar
    rw [Function.comp_apply, Function.comp_apply]
    exact hsample bar hbar
  unfold liveSamples
  rw [hsamples]
  refine sortedBy_of_sorted (List.pairwise_map.mpr ?_)
  exact hincreasing.imp charted_le

/-- The chart of a response: a sample of every bar, drawn by the rules of the
chart, with a break for every two neighbours that start too far apart. -/
structure Charts (bars : List EventAlpha.MarketBar) (page : LiveMarket) : Prop where
  samples_eq : page.samples = bars.map charted
  prices : ∀ bar ∈ bars,
    PageParsers.number (SentTexts.decimalText bar.close) = some (charted bar).2.price ∧
      0 < (charted bar).2.price
  none_iff : page.geometry = none ↔ bars = []
  drawn : ∀ geometry, page.geometry = some geometry → ∃ first rest,
    bars.map (fun bar => (charted bar).2) = first :: rest ∧ Draws first rest geometry ∧
      geometry.gapCount = (neighbours bars).countP (fun pair =>
        90000 < pair.2.timestamp / 1000 - pair.1.timestamp / 1000)

/-- The breaks of a chart are between the bars that are too far apart. -/
theorem gapCount_charted {bars : List EventAlpha.MarketBar} {first : ChartSample}
    {rest : List ChartSample} {geometry : ChartGeometry}
    (hbars : bars.map (fun bar => (charted bar).2) = first :: rest)
    (hdraws : Draws first rest geometry) :
    geometry.gapCount = (neighbours bars).countP (fun pair =>
      90000 < pair.2.timestamp / 1000 - pair.1.timestamp / 1000) := by
  have hpoints : points first rest =
      bars.map (fun bar => chartPoint first rest (charted bar).2) := by
    rw [points, ← hbars, List.map_map]
    rfl
  rw [hdraws.gapCount_eq, hpoints, neighbours_map, List.countP_map]
  refine List.countP_congr (fun pair _ => ?_)
  have htimes : (90000 : ℚ) < ((pair.2.timestamp / 1000 : Int) : ℚ) -
        ((pair.1.timestamp / 1000 : Int) : ℚ) ↔
      90000 < pair.2.timestamp / 1000 - pair.1.timestamp / 1000 := by
    rw [← Int.cast_sub]
    exact_mod_cast Iff.rfl
  simpa [chartPoint] using htimes

variable [CharacterTables]

theorem charts_sent {bars : List EventAlpha.MarketBar} {payload : BarsPayload}
    (hdata : payload.data = bars.map sendBar)
    (hincreasing : bars.Pairwise (fun bar bar' => bar.timestamp < bar'.timestamp))
    (hinstants : ∀ bar ∈ bars, IsDatetime bar.timestamp)
    (hprices : ∀ bar ∈ bars, IsColumnPrice bar.close) (snapshot : Option SnapshotPayload)
    (nowMs : ℚ) : Charts bars (liveMarket (some payload) snapshot nowMs) := by
  have hsamples : (liveMarket (some payload) snapshot nowMs).samples = bars.map charted := by
    show liveSamples payload.data = bars.map charted
    rw [hdata]
    exact liveSamples_sent hincreasing hinstants hprices
  have hgeometry : (liveMarket (some payload) snapshot nowMs).geometry =
      chartGeometry (bars.map (fun bar => (charted bar).2)) := by
    rw [geometry_liveMarket, Option.map_some, Option.getD_some, ← map_liveSamples, hdata,
      liveSamples_sent hincreasing hinstants hprices, List.map_map]
    rfl
  have hsorted : SortedBy ChartSample.timestampMs (bars.map (fun bar => (charted bar).2)) :=
    List.pairwise_map.mpr (hincreasing.imp charted_le)
  refine ⟨hsamples, ?_, ?_, ?_⟩
  · intro bar hbar
    obtain ⟨hnumber, hpos, -⟩ := sample?_sendBar (hinstants bar hbar) (hprices bar hbar)
    exact ⟨hnumber, hpos⟩
  · rw [hgeometry]
    cases bars <;> simp [chartGeometry]
  · intro geometry hdrawn
    rw [hgeometry] at hdrawn
    rcases hbars : bars.map (fun bar => (charted bar).2) with _ | ⟨first, rest⟩
    · rw [hbars] at hdrawn
      exact absurd hdrawn (by simp [chartGeometry])
    · rw [hbars] at hdrawn hsorted
      obtain rfl := Option.some.inj hdrawn
      have hdraws := draws_geometry hsorted
      exact ⟨first, rest, rfl, hdraws, gapCount_charted hbars hdraws⟩

end Chart

section Complete

/-- The instants that are stored are datetimes. -/
structure HoldsDatetimes (db : MarketDb) : Prop where
  bars : ∀ row ∈ db.barObservations.values, IsDatetime row.barStartAt ∧ IsDatetime row.barEndAt ∧
    ∀ updatedAt ∈ row.providerUpdatedAt, IsDatetime updatedAt
  quotes : ∀ row ∈ db.quoteObservations.values, IsDatetime row.receivedAt ∧
    ∀ timestamp ∈ row.providerTimestamp, IsDatetime timestamp

variable [CharacterTables] [Digest] [SentTexts] {attempts : List MarketAttempt}
  {now : UtcDatetime} {symbol timeframe : String} {limit : Int} {asOf : AsOf} {body : AssetBars}

omit [SentTexts] in
/-- The bars of a response were stored: their instants are datetimes and they
close at prices of the column. -/
theorem sent_of_assetBars (hdatetimes : HoldsDatetimes (MarketDb.empty.afterAttempts attempts))
    (hbody : assetBars (.persistent (MarketDb.empty.afterAttempts attempts)) now symbol timeframe
      limit asOf = .ok body) {bar : EventAlpha.MarketBar} (hbar : bar ∈ body.data) :
    IsDatetime bar.timestamp ∧ IsDatetime (bar.providerUpdatedAt.getD bar.barEndAt) ∧
      IsColumnPrice bar.close := by
  obtain ⟨-, -, utc, -, hbars, -, -⟩ := assetBars_eq_ok hbody
  obtain ⟨row, hrow, hrebuilt⟩ := MarketDb.exists_row_of_bars (bars_of_bars hbars) hbar
  have hstored := List.mem_of_mem_filter hrow
  obtain ⟨hstart, hend, hupdated⟩ := hdatetimes.bars row hstored
  have hfields := MarketBarRow.fields_of_bar hrebuilt
  refine ⟨?_, ?_, isColumnPrice_close hstored hrebuilt⟩
  · rw [MarketBarRow.timestamp_of_bar hrebuilt]
    exact hstart
  · have htime : bar.providerUpdatedAt.getD bar.barEndAt =
        row.providerUpdatedAt.getD row.barEndAt := by
      rw [hfields]
      rfl
    rw [htime]
    cases hcase : row.providerUpdatedAt with
    | none => exact hend
    | some updatedAt => exact hupdated updatedAt hcase

/-- A response is charted. -/
theorem charts_of_assetBars (hdatetimes : HoldsDatetimes (MarketDb.empty.afterAttempts attempts))
    (hbody : assetBars (.persistent (MarketDb.empty.afterAttempts attempts)) now symbol timeframe
      limit asOf = .ok body) (snapshot : Option SnapshotPayload) (nowMs : ℚ) :
    Charts body.data (liveMarket (some (sendBars body)) snapshot nowMs) := by
  obtain ⟨hlimit, -, utc, -, hbars, -, -⟩ := assetBars_eq_ok hbody
  have hreference := MarketDb.barsReference_of_bars hlimit (bars_of_bars hbars)
  refine charts_sent rfl hreference.increasing ?_ ?_ snapshot nowMs
  · intro bar hbar
    exact (sent_of_assetBars hdatetimes hbody hbar).1
  · intro bar hbar
    exact (sent_of_assetBars hdatetimes hbody hbar).2.2

/-- **From the store to the chart.**  The bars of a response are the latest
revisions of the newest starts in the store, as many as it asks for, and the page
charts all of them, in order, with breaks only where bars are missing: where two
neighbours start more than ninety seconds apart, in whole milliseconds. -/
theorem live_chart_complete (attempts : List MarketAttempt)
    (hdatetimes : HoldsDatetimes (MarketDb.empty.afterAttempts attempts)) {now : UtcDatetime}
    {symbol timeframe : String} {limit : Int} {asOf : AsOf} {body : AssetBars}
    (hbody : assetBars (.persistent (MarketDb.empty.afterAttempts attempts)) now symbol timeframe
      limit asOf = .ok body) (snapshot : Option SnapshotPayload) (nowMs : ℚ) :
    (∃ utc, asOfUtc asOf = .ok utc ∧ BarsReference
      ((MarketDb.empty.afterAttempts attempts).barRows ReplayMarketDataProvider.name
        (upper symbol) timeframe utc true) limit body.data) ∧
      Charts body.data (liveMarket (readApi sendBars (some (.ok body))) snapshot nowMs) := by
  obtain ⟨hlimit, -, utc, hutc, hbars, -, -⟩ := assetBars_eq_ok hbody
  have hreference := MarketDb.barsReference_of_bars hlimit (bars_of_bars hbars)
  exact ⟨⟨utc, hutc, hreference⟩, charts_of_assetBars hdatetimes hbody snapshot nowMs⟩

end Complete

section Honest

/-- Not ahead of the clock of the API, and of an age up to a bound. -/
def FreshAt (now : UtcDatetime) (bound : Int) (instant : UtcDatetime) : Prop :=
  0 ≤ EventAlpha.ageMs (now - instant) ∧ EventAlpha.ageMs (now - instant) ≤ bound

/-- Not ahead of the clock of the page, and of an age up to a bound. -/
def FreshOn (nowMs bound : ℚ) (instant : UtcDatetime) : Prop :=
  0 ≤ nowMs - ((instant / 1000 : Int) : ℚ) ∧ nowMs - ((instant / 1000 : Int) : ℚ) ≤ bound

/-- An age that the page knows and that is within a bound. -/
theorem olderThan_jsonInstant [SentTexts] {instant : UtcDatetime} (h : IsDatetime instant)
    (bound nowMs : ℚ) : olderThan bound (ageMs (some (jsonInstant instant)) nowMs) = false ↔
      FreshOn nowMs bound instant := by
  unfold FreshOn
  have hage : ageMs (some (jsonInstant instant)) nowMs =
      if nowMs < ((instant / 1000 : Int) : ℚ) then none
      else some (nowMs - ((instant / 1000 : Int) : ℚ)) := by
    rw [ageMs, Option.bind_some, parseTimestamp_jsonInstant h, Option.bind_some]
  rw [hage, sub_nonneg]
  by_cases hahead : nowMs < ((instant / 1000 : Int) : ℚ)
  · simp [olderThan, hahead]
  · rw [if_neg hahead]
    simp [olderThan, not_lt.mp hahead]

variable [CharacterTables]

/-- The name of the replay provider tells the page that it is one. -/
theorem includes_replay :
    includes (lowered ReplayMarketDataProvider.name.toList) "replay".toList = true := by
  rw [lowered_of_ascii rfl]
  rfl

/-- What the page says of the source of a replay that is stored. -/
theorem sourceDescription_replay {bars : Option BarsPayload} {snapshot : Option SnapshotPayload}
    (hbars : ∀ payload ∈ bars, payload.source = ReplayMarketDataProvider.name ∧
      payload.storage = "persistent")
    (hsnapshot : ∀ payload ∈ snapshot, payload.source = ReplayMarketDataProvider.name ∧
      payload.storage = "persistent") :
    (bars = none ∧ snapshot = none ∧
      sourceDescription bars snapshot = ⟨"MARKET DATA UNAVAILABLE", false, true⟩) ∨
    sourceDescription bars snapshot = ⟨"PERSISTED REPLAY MARKET DATA", true, false⟩ := by
  have hnamed : (some ReplayMarketDataProvider.name).filter (fun text => text ≠ "") =
      some ReplayMarketDataProvider.name := by decide
  have hdescribed : namedProvider bars snapshot = some ReplayMarketDataProvider.name →
      persisted bars snapshot = true →
      sourceDescription bars snapshot = ⟨"PERSISTED REPLAY MARKET DATA", true, false⟩ := by
    intro hprovider hpersisted
    unfold sourceDescription
    rw [hprovider, hpersisted]
    exact if_pos includes_replay
  cases bars with
  | some payload =>
      obtain ⟨hsource, hstorage⟩ := hbars payload rfl
      refine .inr (hdescribed ?_ (by simp [persisted, hstorage]))
      rw [namedProvider, List.findSome?_cons, Option.map_some, hsource, hnamed]
  | none =>
      cases snapshot with
      | some payload =>
          obtain ⟨hsource, hstorage⟩ := hsnapshot payload rfl
          refine .inr (hdescribed ?_ (by simp [persisted, hstorage]))
          rw [namedProvider, List.findSome?_cons, Option.map_none, Option.filter_none,
            List.findSome?_cons, Option.map_some, hsource, hnamed]
      | none => exact .inl ⟨rfl, rfl, rfl⟩

/-- Neither a replay nor the lack of data has a status line in the color of live
data. -/
theorem statusColor_ne [PageParsers] {bars : Option BarsPayload}
    {snapshot : Option SnapshotPayload} {nowMs : ℚ}
    (h : (sourceDescription bars snapshot).unavailable = true ∨
      (sourceDescription bars snapshot).replay = true) :
    (liveMarket bars snapshot nowMs).statusColor ≠ "#77d9a7" := by
  have hcolor : (liveMarket bars snapshot nowMs).statusColor =
      if (sourceDescription bars snapshot).unavailable ||
        (liveMarket bars snapshot nowMs).barsUnavailable then "#f08b8b"
      else if (sourceDescription bars snapshot).replay ||
        (liveMarket bars snapshot nowMs).quoteStale ||
        (liveMarket bars snapshot nowMs).barsStale then "#e5b45f" else "#77d9a7" := rfl
  rw [hcolor]
  rcases h with h | h
  · simp [h]
  · rw [h]
    split <;> simp

section Responses

variable [SentTexts] {db : MarketDb} {now : UtcDatetime} {symbol timeframe : String} {limit : Int}
  {asOf : AsOf}

/-- What a response of bars says of its source. -/
theorem sendBars_source {body : AssetBars}
    (h : assetBars (.persistent db) now symbol timeframe limit asOf = .ok body) :
    ((sendBars body).source = ReplayMarketDataProvider.name ∧
      (sendBars body).storage = "persistent") ∧
      ((sendBars body).availability = "unavailable" ↔ body.data = []) := by
  obtain ⟨-, utc, -, hbars, -, hbody⟩ := assetBars_parts h
  have hread := bars_of_bars hbars
  refine ⟨⟨?_, ?_⟩, ?_⟩
  · show body.source = ReplayMarketDataProvider.name
    rw [hbody]
    cases hhead : body.data.head? with
    | none => rfl
    | some bar =>
        obtain ⟨row, hrow, hrebuilt⟩ :=
          MarketDb.exists_row_of_bars hread (List.mem_of_mem_head? hhead)
        have hselected := (List.mem_filter.mp hrow).2
        simp only [decide_eq_true_eq] at hselected
        show bar.provider = ReplayMarketDataProvider.name
        rw [MarketBarRow.fields_of_bar hrebuilt]
        exact hselected.1
  · show body.storage = "persistent"
    rw [hbody]
    rfl
  · show body.availability = "unavailable" ↔ body.data = []
    rw [hbody]
    by_cases hempty : body.data = []
    · simp [hempty]
    · simp [hempty]

omit [SentTexts] in
/-- What a response of a quote says of its source. -/
theorem sendSnapshot_source {body : AssetSnapshot}
    (h : assetSnapshot (.persistent db) now symbol asOf = .ok body) :
    (sendSnapshot body).source = ReplayMarketDataProvider.name ∧
      (sendSnapshot body).storage = "persistent" := by
  obtain ⟨utc, -, hquote, hbody⟩ := assetSnapshot_parts h
  obtain ⟨row, hrow, hrebuilt, -⟩ := MarketDb.latestQuote_eq_some (latestQuote_of_latest hquote)
  have hselected := (List.mem_filter.mp hrow).2
  simp only [decide_eq_true_eq] at hselected
  constructor
  · show body.source = ReplayMarketDataProvider.name
    rw [hbody]
    show body.quote.provider = ReplayMarketDataProvider.name
    rw [MarketQuoteRow.fields_of_quote hrebuilt]
    exact hselected.1
  · show body.storage = "persistent"
    rw [hbody]
    rfl

omit [SentTexts] in
/-- The instants of a quote that is read are datetimes. -/
theorem isDatetime_effectiveTime (h : HoldsDatetimes db) {body : AssetSnapshot}
    (hbody : assetSnapshot (.persistent db) now symbol asOf = .ok body) :
    IsDatetime body.quote.effectiveTime := by
  obtain ⟨utc, -, hquote, -⟩ := assetSnapshot_parts hbody
  obtain ⟨row, hrow, hrebuilt, -⟩ := MarketDb.latestQuote_eq_some (latestQuote_of_latest hquote)
  obtain ⟨hreceived, hprovided⟩ := h.quotes row (List.mem_of_mem_filter hrow)
  have htime : body.quote.effectiveTime = row.providerTimestamp.getD row.receivedAt := by
    rw [MarketQuoteFields.effectiveTime, MarketQuoteRow.fields_of_quote hrebuilt]
    rfl
  rw [htime]
  cases hcase : row.providerTimestamp with
  | none => exact hreceived
  | some timestamp => exact hprovided timestamp hcase

end Responses

section Status

variable [Digest] [SentTexts]

/-- What a page of ACME says of the responses it read. -/
structure HonestStatus (now now' : UtcDatetime) (nowMs : ℚ) (bars : Option (Response AssetBars))
    (snapshot : Option (Response AssetSnapshot)) (page : LiveMarket) : Prop where
  source_eq : page.source = ⟨"PERSISTED REPLAY MARKET DATA", true, false⟩ ∨
    page.source = ⟨"MARKET DATA UNAVAILABLE", false, true⟩ ∧ page.quoteStale = true ∧
      page.barsUnavailable = true
  statusColor_ne : page.statusColor ≠ "#77d9a7"
  quoteColor_iff : page.quoteColor = "#77d9a7" ↔ page.quoteStale = false
  barsColor_iff : page.barsColor = "#77d9a7" ↔ page.barsStale = false
  chartColor_iff : page.chartColor = some "#77d9a7" ↔ page.barsStale = false
  quoteStale_iff : page.quoteStale = false ↔ ∃ body, snapshot = some (.ok body) ∧
    FreshAt now' 15000 body.quote.effectiveTime ∧ FreshOn nowMs 15000 body.quote.effectiveTime
  barsUnavailable_iff : page.barsUnavailable = false ↔
    ∃ body, bars = some (.ok body) ∧ body.data ≠ []
  barsStale_iff : page.barsStale = false ↔ ∃ body last newest, bars = some (.ok body) ∧
    body.data.getLast? = some last ∧ (body.data.map (fun bar => bar.barEndAt)).max? = some newest ∧
    FreshAt now 120000 newest ∧ FreshOn nowMs 90000 (last.providerUpdatedAt.getD last.barEndAt)

omit [CharacterTables] [Digest] [SentTexts] in
/-- The body of a request that was answered. -/
theorem readApi_eq_some {β γ : Type} {payload : β → γ} {answer : Option (Response β)} {sent : γ} :
    readApi payload answer = some sent ↔ ∃ body, answer = some (.ok body) ∧ payload body = sent := by
  unfold readApi
  split
  · simp
  · rename_i hanswer
    refine iff_of_false (by simp) ?_
    intro hex
    obtain ⟨body, hbody, -⟩ := hex
    exact hanswer body hbody

omit [CharacterTables] [Digest] [SentTexts] in
/-- What a page says only of a response that it read. -/
theorem shown_iff_answered {β γ : Type} {payload : β → γ} {answer : Option (Response β)}
    {P : β → Prop} (shown : Option γ → Bool) (hnone : shown none = true)
    (hsome : ∀ body, answer = some (.ok body) → (shown (some (payload body)) = false ↔ P body)) :
    shown (readApi payload answer) = false ↔ ∃ body, answer = some (.ok body) ∧ P body := by
  cases hread : readApi payload answer with
  | none =>
      refine iff_of_false (by simp [hnone]) ?_
      intro hex
      obtain ⟨body, hanswer, -⟩ := hex
      rw [hanswer] at hread
      exact nomatch hread
  | some sent =>
      obtain ⟨body, hanswer, rfl⟩ := readApi_eq_some.mp hread
      rw [hsome body hanswer, hanswer]
      simp

omit [Digest] in
/-- Whether the quote is shown as stale. -/
theorem quoteStale_sent {db : MarketDb} (h : HoldsDatetimes db) {now : UtcDatetime}
    {symbol : String} {body : AssetSnapshot}
    (hbody : assetSnapshot (.persistent db) now symbol .absent = .ok body)
    (bars : Option BarsPayload) (nowMs : ℚ) :
    (liveMarket bars (some (sendSnapshot body)) nowMs).quoteStale = false ↔
      FreshAt now 15000 body.quote.effectiveTime ∧
        FreshOn nowMs 15000 body.quote.effectiveTime := by
  have htext : (sendSnapshot body).quote.providerTimestamp.getD (sendSnapshot body).quote.receivedAt =
      jsonInstant body.quote.effectiveTime := by
    rw [MarketQuoteFields.effectiveTime]
    show (body.quote.providerTimestamp.map jsonInstant).getD (jsonInstant body.quote.receivedAt) =
      jsonInstant (body.quote.providerTimestamp.getD body.quote.receivedAt)
    cases body.quote.providerTimestamp <;> rfl
  have hshown : (liveMarket bars (some (sendSnapshot body)) nowMs).quoteStale =
      (body.stale || olderThan quoteStaleAfterMs
        (ageMs (some (jsonInstant body.quote.effectiveTime)) nowMs)) := by
    rw [← htext]
    rfl
  obtain ⟨utc, hutc, -, hfresh, hstale⟩ := assetSnapshot_eq_ok hbody
  obtain rfl := Except.ok.inj hutc
  have hapi : body.stale = false ↔ FreshAt now 15000 body.quote.effectiveTime := by
    rw [← Bool.not_eq_true, hstale, hfresh, Option.getD_none]
    exact not_stale_iff
  rw [hshown, Bool.or_eq_false_iff, hapi, quoteStaleAfterMs,
    olderThan_jsonInstant (isDatetime_effectiveTime h hbody)]

/-- Whether the bars are shown, and as stale. -/
theorem barsStale_sent {attempts : List MarketAttempt}
    (h : HoldsDatetimes (MarketDb.empty.afterAttempts attempts)) {now : UtcDatetime}
    {symbol : String} {limit : Int} {body : AssetBars}
    (hbody : assetBars (.persistent (MarketDb.empty.afterAttempts attempts)) now symbol "1m"
      limit .absent = .ok body) (snapshot : Option SnapshotPayload) (nowMs : ℚ) :
    ((liveMarket (some (sendBars body)) snapshot nowMs).barsUnavailable = false ↔
      body.data ≠ []) ∧
    ((liveMarket (some (sendBars body)) snapshot nowMs).barsStale = false ↔ ∃ last newest,
      body.data.getLast? = some last ∧
      (body.data.map (fun bar => bar.barEndAt)).max? = some newest ∧
      FreshAt now 120000 newest ∧
      FreshOn nowMs 90000 (last.providerUpdatedAt.getD last.barEndAt)) := by
  have hcharts := charts_of_assetBars h hbody snapshot nowMs
  have hunavailable : (liveMarket (some (sendBars body)) snapshot nowMs).barsUnavailable = false ↔
      body.data ≠ [] := by
    show ((sendBars body).availability = "unavailable" ||
      (liveMarket (some (sendBars body)) snapshot nowMs).geometry.isNone) = false ↔ _
    rw [Bool.or_eq_false_iff, decide_eq_false_iff_not, (sendBars_source hbody).2,
      Option.isNone_eq_false_iff, Option.isSome_iff_ne_none, ne_eq, hcharts.none_iff, and_self]
  refine ⟨hunavailable, ?_⟩
  have hshown : (liveMarket (some (sendBars body)) snapshot nowMs).barsStale =
      ((liveMarket (some (sendBars body)) snapshot nowMs).barsUnavailable || body.stale ||
        olderThan barStaleAfterMs (ageMs (body.data.getLast?.map (fun last =>
          jsonInstant (last.providerUpdatedAt.getD last.barEndAt))) nowMs)) := by
    show ((liveMarket (some (sendBars body)) snapshot nowMs).barsUnavailable || body.stale ||
      olderThan barStaleAfterMs (ageMs ((liveMarket (some (sendBars body)) snapshot
        nowMs).samples.getLast?.map (fun sample =>
          sample.1.providerUpdatedAt.getD sample.1.barEndAt)) nowMs)) = _
    rw [hcharts.samples_eq, List.getLast?_map, Option.map_map]
    congr 4
    funext last
    show (last.providerUpdatedAt.map jsonInstant).getD (jsonInstant last.barEndAt) = _
    cases last.providerUpdatedAt <;> rfl
  obtain ⟨-, -, utc, hutc, hbars, hfresh, hstale⟩ := assetBars_eq_ok hbody
  obtain rfl := Except.ok.inj hutc
  rw [hfresh, Option.getD_none] at hstale
  have hbound : EventAlpha.barStaleAfterMs.get? "1m" = some 120000 := by decide
  have hapi := stale_eq_false_iff hbound hstale
  rw [hshown, Bool.or_eq_false_iff, Bool.or_eq_false_iff, hunavailable, hapi]
  cases hlast : body.data.getLast? with
  | none =>
      obtain hempty := List.getLast?_eq_none_iff.mp hlast
      simp [hempty]
  | some last =>
      have hne : body.data ≠ [] := by
        intro hempty
        simp [hempty] at hlast
      have hdatetime := (sent_of_assetBars h hbody (List.mem_of_getLast? hlast)).2.1
      rw [Option.map_some, barStaleAfterMs, olderThan_jsonInstant hdatetime]
      constructor
      · intro hand
        obtain ⟨⟨-, newest, hnewest, hage⟩, hage'⟩ := hand
        exact ⟨last, newest, rfl, hnewest, hage, hage'⟩
      · intro hex
        obtain ⟨last', newest, hlast', hnewest, hage, hage'⟩ := hex
        obtain rfl := Option.some.inj hlast'
        exact ⟨⟨hne, newest, hnewest, hage⟩, hage'⟩

/-- **The page is honest.**  Whatever the workers stored, each request to the API
was answered or failed, and whatever the clocks: the page says that its data are
a replay, or none, on a status line that never has the color of live data, and
calls fresh, in that color, exactly what is so by the clock of the API and by its
own, in whole milliseconds. -/
theorem live_status_honest (attempts attempts' : List MarketAttempt)
    (hdatetimes : HoldsDatetimes (MarketDb.empty.afterAttempts attempts))
    (hdatetimes' : HoldsDatetimes (MarketDb.empty.afterAttempts attempts'))
    (now now' : UtcDatetime) (nowMs : ℚ) (bars : Option (Response AssetBars))
    (snapshot : Option (Response AssetSnapshot))
    (hbars : ∀ response ∈ bars, response = assetBars
      (.persistent (MarketDb.empty.afterAttempts attempts)) now "ACME" "1m" 30 .absent)
    (hsnapshot : ∀ response ∈ snapshot, response = assetSnapshot
      (.persistent (MarketDb.empty.afterAttempts attempts')) now' "ACME" .absent) :
    HonestStatus now now' nowMs bars snapshot
      (liveMarket (readApi sendBars bars) (readApi sendSnapshot snapshot) nowMs) := by
  have hbody : ∀ body, bars = some (.ok body) → assetBars
      (.persistent (MarketDb.empty.afterAttempts attempts)) now "ACME" "1m" 30 .absent =
        .ok body := fun body hanswer => (hbars _ hanswer).symm
  have hbody' : ∀ body, snapshot = some (.ok body) → assetSnapshot
      (.persistent (MarketDb.empty.afterAttempts attempts')) now' "ACME" .absent =
        .ok body := fun body hanswer => (hsnapshot _ hanswer).symm
  have hnamed : ∀ payload ∈ readApi sendBars bars,
      payload.source = ReplayMarketDataProvider.name ∧ payload.storage = "persistent" := by
    intro payload hpayload
    obtain ⟨body, hanswer, rfl⟩ := readApi_eq_some.mp hpayload
    exact (sendBars_source (hbody body hanswer)).1
  have hnamed' : ∀ payload ∈ readApi sendSnapshot snapshot,
      payload.source = ReplayMarketDataProvider.name ∧ payload.storage = "persistent" := by
    intro payload hpayload
    obtain ⟨body, hanswer, rfl⟩ := readApi_eq_some.mp hpayload
    exact sendSnapshot_source (hbody' body hanswer)
  have hsource := sourceDescription_replay hnamed hnamed'
  refine ⟨?_, ?_, quoteColor_eq_iff, barsColor_eq_iff.1, barsColor_eq_iff.2, ?_, ?_, ?_⟩
  · rcases hsource with ⟨hnone, hnone', hsource⟩ | hsource
    · refine .inr ⟨hsource, ?_, ?_⟩
      · rw [hnone']
        rfl
      · rw [hnone]
        rfl
    · exact .inl hsource
  · apply statusColor_ne
    rcases hsource with ⟨-, -, hsource⟩ | hsource
    · exact .inl (congrArg SourceDescription.unavailable hsource)
    · exact .inr (congrArg SourceDescription.replay hsource)
  · refine shown_iff_answered
      (fun sent => (liveMarket (readApi sendBars bars) sent nowMs).quoteStale) rfl ?_
    intro body hanswer
    exact quoteStale_sent hdatetimes' (hbody' body hanswer) _ nowMs
  · refine shown_iff_answered
      (fun sent => (liveMarket sent (readApi sendSnapshot snapshot) nowMs).barsUnavailable) rfl ?_
    intro body hanswer
    exact (barsStale_sent hdatetimes (hbody body hanswer) _ nowMs).1
  · have hstale := shown_iff_answered
      (fun sent => (liveMarket sent (readApi sendSnapshot snapshot) nowMs).barsStale) rfl
      (fun body hanswer => (barsStale_sent hdatetimes (hbody body hanswer) _ nowMs).2)
    refine hstale.trans ?_
    simp only [exists_and_left]

end Status

end Honest

section Sample

/-- The positional text of a price of a column is read back as it is. -/
theorem readFixed_columnPrice {price : Decimal} (h : IsColumnPrice price) :
    0 < price.coefficient ∧ Decimal.readFixed price.fixedText.toList = price.value ∧
      0 < price.value := by
  have hpos : 0 < price.value := lt_of_lt_of_le (by norm_num) h.1
  have hcoefficient := Decimal.coefficient_pos_iff.mpr hpos
  exact ⟨hcoefficient, Decimal.readFixed_fixedText hcoefficient.le, hpos⟩

/-- Positional texts, which a page reads exactly. -/
@[reducible] def exactTexts : SentTexts where
  decimalText := Decimal.fixedText
  dateParse text := some ((CivilTime.readInstant text.toList / 1000 : Int) : ℚ)
  number text := some (Decimal.readFixed text.toList)
  isBlank text := text.toList.all (fun c => c = ' ')
  dateParse_jsonInstant := by
    intro instant h
    have hrest : ∀ c ∈ ['Z'].head?, c ≠ '.' := by
      intro c hc
      obtain rfl := Option.some.inj hc
      exact (by decide : 'Z' ≠ '.')
    rw [jsonInstant, String.toList_ofList, CivilTime.readInstant_isoSeconds h.1 h.2 hrest]
  isBlank_decimalText := by
    intro price h
    obtain ⟨hcoefficient, hread, hpos⟩ := readFixed_columnPrice h
    rw [Bool.eq_false_iff]
    intro hblank
    rcases htext : price.fixedText.toList with _ | ⟨c, rest⟩
    · -- nothing would be read as zero
      rw [htext] at hread
      simp [← hread, Decimal.readFixed, Nat.ofDigitChars] at hpos
    · have hmem : c ∈ price.fixedText.toList := by simp [htext]
      obtain rfl : c = ' ' := of_decide_eq_true (List.all_eq_true.mp hblank c hmem)
      rcases Decimal.mem_fixedText hcoefficient.le hmem with hdigit | hpoint
      · exact absurd hdigit (by decide)
      · exact absurd hpoint (by decide)
  number_decimalText := by
    intro price h
    obtain ⟨-, hread, hpos⟩ := readFixed_columnPrice h
    exact ⟨price.value, congrArg some hread, hpos⟩

theorem holdsDatetimes_firstObservations : HoldsDatetimes firstObservations := by
  constructor <;> decide +kernel

/-- Five seconds after the bar ended. -/
@[reducible] def sampleClock : UtcDatetime := sampleNoon + 65000000

/-- The digests of bars of three more minutes, and of a correction. -/
def chartDigests : List (String × String) :=
  endpointDigests ++
  [("replay-market\x1fACME\x1f1m\x1f2026-07-18T12:01:00.000000+00:00\x1f" ++
      "2026-07-18T12:02:00.000000+00:00\x1f100.5\x1f101.5\x1f100\x1f101\x1f1000\x1fTrue",
    "781b5afe5a1e9dcbaf28333b35d72acacbe1b2cd3234f1f9d39c9bded48b8b44"),
   ("replay-market\x1fACME\x1f1m\x1f2026-07-18T12:01:00.000000+00:00\x1f" ++
      "2026-07-18T12:02:00.000000+00:00\x1f100.5\x1f101.5\x1f100\x1f101.4\x1f1000\x1fTrue",
    "54001ecba6029a15dd4a43533a784041520ae0e3a3966fe312531ca8e7b90960"),
   ("replay-market\x1fACME\x1f1m\x1f2026-07-18T12:02:00.000000+00:00\x1f" ++
      "2026-07-18T12:03:00.000000+00:00\x1f100.5\x1f101.5\x1f100\x1f101.2\x1f1000\x1fTrue",
    "1574ec817488adf7421761b87dbb1b317c37327f72224d75db2c024479e283a9"),
   ("replay-market\x1fACME\x1f1m\x1f2026-07-18T12:06:00.000000+00:00\x1f" ++
      "2026-07-18T12:07:00.000000+00:00\x1f100.5\x1f101.5\x1f100\x1f100.8\x1f1000\x1fTrue",
    "ec9ed3c5bab9867d3d2025620f4cd05a3eafbac8a6d0e8af25fe48e9a4af641f")]

/-- The bar of a minute after noon. -/
@[reducible] def chartBarFields (minute cents seconds : Int) : MarketBarFields :=
  { endpointBarFields cents seconds with
    timestamp := sampleNoon + minute * 60000000
    barEndAt := sampleNoon + (minute + 1) * 60000000 }

def chartBar : EventAlpha.MarketBar := ⟨chartBarFields 0 10100 420, by decide +kernel⟩

def chartBar₁ : EventAlpha.MarketBar := ⟨chartBarFields 1 10100 420, by decide +kernel⟩

/-- The bar of the second minute again, with another close. -/
def chartCorrection₁ : EventAlpha.MarketBar := ⟨chartBarFields 1 10140 450, by decide +kernel⟩

def chartBar₂ : EventAlpha.MarketBar := ⟨chartBarFields 2 10120 480, by decide +kernel⟩

def chartBar₆ : EventAlpha.MarketBar := ⟨chartBarFields 6 10080 420, by decide +kernel⟩

/-- The bars come out of order, one is corrected, and three minutes are missing. -/
@[reducible] def chartAttempts : List MarketAttempt :=
  [⟨.saveBars [chartBar₆, chartBar₁], false⟩, ⟨.saveBars [chartCorrection₁, chartBar], false⟩,
    ⟨.saveBars [chartBar₂], false⟩]

@[reducible] def chartObservations : MarketDb :=
  letI := tableDigest chartDigests
  MarketDb.empty.afterAttempts chartAttempts

theorem holdsDatetimes_chartObservations : HoldsDatetimes chartObservations := by
  constructor <;> decide +kernel

/-- The three newest minutes are charted in order, the second of all with its
correction, and with a break for the minutes that are missing. -/
theorem live_chart_complete_gap :
    let _ : CharacterTables := asciiTables
    let _ : Digest := tableDigest chartDigests
    let _ : SentTexts := exactTexts
    let bars := assetBars (.persistent chartObservations) (sampleNoon + 500000000) "acme" "1m" 3
      .absent
    let page := liveMarket (readApi sendBars (some bars)) none 0
    bars.closes = some [507 / 5, 506 / 5, 504 / 5] ∧
      page.geometry.map ChartGeometry.gapCount = some 1 ∧
      ∃ body, bars = .ok body ∧
        (∃ utc, asOfUtc .absent = .ok utc ∧ BarsReference (chartObservations.barRows
          ReplayMarketDataProvider.name (upper "acme") "1m" utc true) 3 body.data) ∧
        Charts body.data page := by
  intro _ _ _ bars page
  have hcloses : bars.closes = some [507 / 5, 506 / 5, 504 / 5] := by decide +kernel
  refine ⟨hcloses, by decide +kernel, ?_⟩
  cases hbody : bars with
  | ok body =>
      have hcomplete := live_chart_complete _ holdsDatetimes_chartObservations hbody none 0
      rw [← hbody] at hcomplete
      exact ⟨body, rfl, hcomplete⟩
  | http status detail => rw [hbody] at hcloses; exact nomatch hcloses
  | serverError => rw [hbody] at hcloses; exact nomatch hcloses

/-- The bar is fresh, in the color of fresh observations under a status line in
another, and the quote is older than a quarter of a minute. -/
theorem live_status_honest_first :
    let _ : CharacterTables := asciiTables
    let _ : Digest := tableDigest endpointDigests
    let _ : SentTexts := exactTexts
    let bars := assetBars (.persistent firstObservations) sampleClock "ACME" "1m" 30 .absent
    let snapshot := assetSnapshot (.persistent firstObservations) sampleClock "ACME" .absent
    let page := liveMarket (readApi sendBars (some bars)) (readApi sendSnapshot (some snapshot))
      ((sampleClock / 1000 : Int) : ℚ)
    page.barsStale = false ∧ page.barsColor = "#77d9a7" ∧ page.statusColor = "#e5b45f" ∧
      page.quoteStale = true ∧
      HonestStatus sampleClock sampleClock ((sampleClock / 1000 : Int) : ℚ) (some bars)
        (some snapshot) page := by
  intro _ _ _ bars snapshot page
  refine ⟨by decide +kernel, by decide +kernel, by decide +kernel, by decide +kernel, ?_⟩
  exact live_status_honest _ _ holdsDatetimes_firstObservations holdsDatetimes_firstObservations
    sampleClock sampleClock _ _ _ (fun _ h => (Option.some.inj h).symm)
    (fun _ h => (Option.some.inj h).symm)

end Sample

end LivePage

end EventAlpha
