import EventAlpha.MarketHealth
import EventAlpha.MarketWorker
import EventAlpha.ReadReference

/-!
# The market endpoints

`asset_snapshot`, `asset_bars` and `provider_health` of the API.  With a
database they read what the workers have stored; without one they ask the
replay provider for every response.

What a row is rejected with, and the demonstration signal of a snapshot, which
is drawn anew for each response, are left out.

A response as of a moment is settled: neither the clock nor what is stored later
changes it (`asset_responses_settled`).  A live response never goes back
(`asset_responses_advance`).  The health is that of the history of the provider
(`health_after_attempts`).
-/

namespace EventAlpha

open KeyedOrder ObservationLog

section Model

/-- The query parameter `as_of`. -/
inductive AsOf
  | absent
  | naive
  | aware (instant : UtcDatetime)
  deriving DecidableEq

/-- What a request is answered with: a body, an `HTTPException`, or the answer
to an exception that nothing catches. -/
inductive Response (β : Type)
  | ok (body : β)
  | http (status : ℕ) (detail : Option String)
  | serverError

/-- `_as_of_utc`. -/
def asOfUtc : AsOf → Except (ℕ × String) (Option UtcDatetime)
  | .absent => .ok none
  | .naive => .error (422, "as_of must include a timezone")
  | .aware instant => .ok (some instant)

/-- What `market_data` reads: the database of the workers, or the provider. -/
inductive Storage
  | persistent (db : MarketDb)
  | ephemeral (uuid5 : String → Uuid) (clock : ClockReading)

/-- The name of a storage in a response. -/
def Storage.value : Storage → String
  | persistent _ => "persistent"
  | ephemeral _ _ => "ephemeral"

variable [CharacterTables]

/-- `latest` of the market service. -/
def Storage.latest (storage : Storage) (symbol : String) (asOf : Option UtcDatetime) :
    Except ReplayError MarketQuote :=
  match storage with
  | persistent db =>
      match db.latestQuote ReplayMarketDataProvider.name (upper symbol) asOf with
      | none => .error .validationError
      | some none => .error (.keyError (upper symbol))
      | some (some quote) => .ok quote
  | ephemeral uuid5 clock => ReplayMarketDataProvider.latestQuote uuid5 clock (upper symbol)

/-- `bars` of the market service. -/
def Storage.bars (storage : Storage) (symbol timeframe : String) (limit : Int)
    (asOf : Option UtcDatetime) : Except ReplayError (List MarketBar) :=
  if unsupportedTimeframe timeframe then
    .error (.valueError ("Unsupported timeframe: " ++ timeframe))
  else
    match storage with
    | persistent db =>
        match db.bars ReplayMarketDataProvider.name (upper symbol) timeframe limit asOf true with
        | none => .error .validationError
        | some bars => .ok bars
    | ephemeral uuid5 clock =>
        ReplayMarketDataProvider.bars uuid5 clock (upper symbol) timeframe limit

/-- The age of market data at a reference time, unless they are ahead of it. -/
def freshnessMs (reference marketTime : UtcDatetime) : Option Int :=
  if ageMs (reference - marketTime) < 0 then none else some (ageMs (reference - marketTime))

/-- `quote_freshness_ms`. -/
def quoteFreshnessMs (quote : MarketQuote) (reference : UtcDatetime) : Option Int :=
  freshnessMs reference quote.effectiveTime

/-- `bar_freshness_ms`. -/
def barFreshnessMs (bars : List MarketBar) (reference : UtcDatetime) : Option Int :=
  (bars.map (fun bar => bar.barEndAt)).max?.bind (freshnessMs reference)

/-- `BAR_STALE_AFTER_MS`. -/
def barStaleAfterMs : InsertionDict String Int :=
  .ofList [("1m", 120000), ("5m", 600000), ("15m", 1800000), ("1h", 7200000),
    ("1d", 172800000)]

/-- The response of `asset_snapshot`. -/
structure AssetSnapshot where
  symbol : String
  quote : MarketQuote
  quoteFreshnessMs : Option Int
  stale : Bool
  source : String
  storage : String

/-- `asset_snapshot`. -/
def assetSnapshot (storage : Storage) (now : UtcDatetime) (symbol : String) (asOf : AsOf) :
    Response AssetSnapshot :=
  match asOfUtc asOf with
  | .error (status, detail) => .http status (some detail)
  | .ok asOfUtc =>
      match storage.latest symbol asOfUtc with
      | .error (.keyError _) =>
          match storage with
          | .persistent _ =>
              .http 503 (some ("No persisted quote is available for " ++ upper symbol))
          | .ephemeral _ _ => .http 404 (some ("Unknown replay symbol: " ++ upper symbol))
      | .error _ => .serverError
      | .ok quote =>
          let freshness := quoteFreshnessMs quote (asOfUtc.getD now)
          .ok {
            symbol := upper symbol
            quote := quote
            quoteFreshnessMs := freshness
            stale := ∀ age ∈ freshness, 15000 < age
            source := quote.provider
            storage := storage.value }

/-- The response of `asset_bars`. -/
structure AssetBars where
  symbol : String
  timeframe : String
  data : List MarketBar
  availability : String
  latestReceivedAt : Option UtcDatetime
  barFreshnessMs : Option Int
  stale : Bool
  source : String
  storage : String

/-- `freshness_ms is None or freshness_ms > BAR_STALE_AFTER_MS[timeframe]`. -/
def staleBars (timeframe : String) : Option Int → Except ReplayError Bool
  | none => .ok true
  | some age =>
      match barStaleAfterMs.get? timeframe with
      | none => .error (.keyError timeframe)
      | some bound => .ok (bound < age)

/-- `asset_bars`. -/
def assetBars (storage : Storage) (now : UtcDatetime) (symbol timeframe : String) (limit : Int)
    (asOf : AsOf) : Response AssetBars :=
  if limit < 1 ∨ 1000 < limit then .http 422 (some "limit must be between 1 and 1000")
  else
    match asOfUtc asOf with
    | .error (status, detail) => .http status (some detail)
    | .ok asOfUtc =>
        match storage.bars symbol timeframe limit asOfUtc with
        | .error (.keyError _) => .http 404 (some ("Unknown replay symbol: " ++ upper symbol))
        | .error (.valueError message) => .http 422 (some message)
        -- the rejection of a row is a `ValueError` too, an overflow is not
        | .error .validationError => .http 422 none
        | .error .overflowError => .serverError
        | .ok bars =>
            let freshness := barFreshnessMs bars (asOfUtc.getD now)
            match staleBars timeframe freshness with
            | .error _ => .serverError
            | .ok stale => .ok {
                symbol := upper symbol
                timeframe := timeframe
                data := bars
                availability := if bars ≠ [] then "available" else "unavailable"
                latestReceivedAt := (bars.map (fun bar => bar.receivedAt)).max?
                barFreshnessMs := freshness
                stale := stale
                source := (bars.head?.map (fun bar => bar.provider)).getD
                  ReplayMarketDataProvider.name
                storage := storage.value }

omit [CharacterTables] in
/-- `health` of the replay provider, by the time of its last message. -/
def ReplayMarketDataProvider.health (lastMessageAt : Option UtcDatetime) (now : UtcDatetime) :
    ProviderHealth :=
  let freshness := lastMessageAt.map (fun last => (ageMs (now - last)).toNat)
  { name := name
    status := if ∃ age ∈ freshness, age ≤ 15000 then .healthy else .degraded
    lastMessageAt := lastMessageAt
    freshnessMs := freshness
    detail := some "Deterministic replay provider; no external market coverage." }

/-- `provider_health`. -/
def providerHealth (storage : Storage) (lastMessageAt : Option UtcDatetime) (now : UtcDatetime) :
    Option ProviderHealth :=
  match storage with
  | .persistent db =>
      MarketConfig.health ⟨ReplayMarketDataProvider.name, false⟩ (some db)
        (ReplayMarketDataProvider.health lastMessageAt) now
  | .ephemeral _ _ =>
      MarketConfig.health ⟨ReplayMarketDataProvider.name, true⟩ none
        (ReplayMarketDataProvider.health lastMessageAt) now

end Model

section Bodies

variable [CharacterTables] {storage : Storage} {now : UtcDatetime} {symbol timeframe : String}
  {limit : Int} {asOf : AsOf}

omit [CharacterTables] in
/-- A freshness is an age that is not negative. -/
theorem freshnessMs_eq_some_iff {reference marketTime : UtcDatetime} {age : Int} :
    freshnessMs reference marketTime = some age ↔
      0 ≤ ageMs (reference - marketTime) ∧ ageMs (reference - marketTime) = age := by
  unfold freshnessMs
  by_cases hneg : ageMs (reference - marketTime) < 0
  · rw [if_pos hneg]
    refine iff_of_false (by simp) ?_
    intro hand
    omega
  · rw [if_neg hneg, Option.some_inj]
    exact (and_iff_right (not_lt.mp hneg)).symm

/-- What a snapshot is made of. -/
theorem assetSnapshot_parts {body : AssetSnapshot}
    (h : assetSnapshot storage now symbol asOf = .ok body) :
    ∃ utc, asOfUtc asOf = .ok utc ∧ storage.latest symbol utc = .ok body.quote ∧
      body = {
        symbol := upper symbol
        quote := body.quote
        quoteFreshnessMs := quoteFreshnessMs body.quote (utc.getD now)
        stale := ∀ age ∈ quoteFreshnessMs body.quote (utc.getD now), 15000 < age
        source := body.quote.provider
        storage := storage.value } := by
  unfold assetSnapshot at h
  split at h
  · exact nomatch h
  · rename_i utc hutc
    split at h
    · split at h
      · exact nomatch h
      · exact nomatch h
    · exact nomatch h
    · rename_i quote hquote
      obtain rfl := Response.ok.inj h
      exact ⟨utc, hutc, hquote, rfl⟩

theorem assetSnapshot_eq_ok {body : AssetSnapshot}
    (h : assetSnapshot storage now symbol asOf = .ok body) :
    ∃ utc, asOfUtc asOf = .ok utc ∧ storage.latest symbol utc = .ok body.quote ∧
      body.quoteFreshnessMs = quoteFreshnessMs body.quote (utc.getD now) ∧
      (body.stale = true ↔ ∀ age ∈ body.quoteFreshnessMs, 15000 < age) := by
  obtain ⟨utc, hutc, hquote, hbody⟩ := assetSnapshot_parts h
  refine ⟨utc, hutc, hquote, ?_⟩
  rw [hbody]
  exact ⟨rfl, decide_eq_true_iff⟩

/-- What a chart is made of. -/
theorem assetBars_parts {body : AssetBars}
    (h : assetBars storage now symbol timeframe limit asOf = .ok body) :
    (1 ≤ limit ∧ limit ≤ 1000) ∧ ∃ utc, asOfUtc asOf = .ok utc ∧
      storage.bars symbol timeframe limit utc = .ok body.data ∧
      staleBars timeframe (barFreshnessMs body.data (utc.getD now)) = .ok body.stale ∧
      body = {
        symbol := upper symbol
        timeframe := timeframe
        data := body.data
        availability := if body.data ≠ [] then "available" else "unavailable"
        latestReceivedAt := (body.data.map (fun bar => bar.receivedAt)).max?
        barFreshnessMs := barFreshnessMs body.data (utc.getD now)
        stale := body.stale
        source := (body.data.head?.map (fun bar => bar.provider)).getD
          ReplayMarketDataProvider.name
        storage := storage.value } := by
  unfold assetBars at h
  split at h
  · exact nomatch h
  · rename_i hlimit
    split at h
    · exact nomatch h
    · rename_i utc hutc
      split at h
      · exact nomatch h
      · exact nomatch h
      · exact nomatch h
      · exact nomatch h
      · rename_i bars hbars
        simp only at h
        split at h
        · exact nomatch h
        · rename_i stale hstale
          obtain rfl := Response.ok.inj h
          exact ⟨⟨by omega, by omega⟩, utc, hutc, hbars, hstale, rfl⟩

theorem assetBars_eq_ok {body : AssetBars}
    (h : assetBars storage now symbol timeframe limit asOf = .ok body) :
    1 ≤ limit ∧ limit ≤ 1000 ∧ ∃ utc, asOfUtc asOf = .ok utc ∧
      storage.bars symbol timeframe limit utc = .ok body.data ∧
      body.barFreshnessMs = barFreshnessMs body.data (utc.getD now) ∧
      staleBars timeframe body.barFreshnessMs = .ok body.stale := by
  obtain ⟨⟨hpos, hlimit⟩, utc, hutc, hbars, hstale, hbody⟩ := assetBars_parts h
  have hfresh : body.barFreshnessMs = barFreshnessMs body.data (utc.getD now) := by rw [hbody]
  exact ⟨hpos, hlimit, utc, hutc, hbars, hfresh, by rw [hfresh]; exact hstale⟩

/-- Bars are given of the five timeframes only, and each has its bound. -/
theorem exists_bound_of_bars {utc : Option UtcDatetime} {bars : List MarketBar}
    (h : storage.bars symbol timeframe limit utc = .ok bars) :
    ∃ bound, barStaleAfterMs.get? timeframe = some bound := by
  unfold Storage.bars at h
  split at h
  · exact nomatch h
  · rename_i hsupported
    have hmem : timeframe ∈ ["1m", "5m", "15m", "1h", "1d"] := by
      rw [unsupportedTimeframe, decide_eq_true_eq, not_not] at hsupported
      exact hsupported
    simp only [List.mem_cons, List.not_mem_nil, or_false] at hmem
    rcases hmem with rfl | rfl | rfl | rfl | rfl
    · exact ⟨120000, by decide⟩
    · exact ⟨600000, by decide⟩
    · exact ⟨1800000, by decide⟩
    · exact ⟨7200000, by decide⟩
    · exact ⟨172800000, by decide⟩

omit [CharacterTables] in
/-- A chart is fresh exactly when its newest end is, by the bound of its
timeframe. -/
theorem stale_eq_false_iff {bars : List MarketBar} {reference : UtcDatetime} {bound : Int}
    {stale : Bool} (hbound : barStaleAfterMs.get? timeframe = some bound)
    (hstale : staleBars timeframe (barFreshnessMs bars reference) = .ok stale) :
    stale = false ↔ ∃ newest, (bars.map (fun bar => bar.barEndAt)).max? = some newest ∧
      0 ≤ ageMs (reference - newest) ∧ ageMs (reference - newest) ≤ bound := by
  cases hnewest : (bars.map (fun bar => bar.barEndAt)).max? with
  | none =>
      rw [barFreshnessMs, hnewest, Option.bind_none, staleBars] at hstale
      obtain rfl := Except.ok.inj hstale
      simp
  | some newest =>
      rw [barFreshnessMs, hnewest, Option.bind_some] at hstale
      cases hfresh : freshnessMs reference newest with
      | none =>
          rw [hfresh, staleBars] at hstale
          obtain rfl := Except.ok.inj hstale
          refine iff_of_false (by simp) ?_
          intro hex
          obtain ⟨newest', heq, hnonneg, -⟩ := hex
          obtain rfl := Option.some.inj heq
          have hsome := freshnessMs_eq_some_iff.mpr ⟨hnonneg, rfl⟩
          rw [hfresh] at hsome
          exact nomatch hsome
      | some age =>
          obtain ⟨hnonneg, rfl⟩ := freshnessMs_eq_some_iff.mp hfresh
          rw [hfresh, staleBars, hbound] at hstale
          obtain rfl := Except.ok.inj hstale
          rw [decide_eq_false_iff_not, not_lt]
          constructor
          · intro hle
            exact ⟨newest, rfl, hnonneg, hle⟩
          · intro hex
            obtain ⟨newest', heq, -, hle⟩ := hex
            rwa [Option.some.inj heq]

omit [CharacterTables] in
theorem not_stale_iff {quote : MarketQuote} {reference : UtcDatetime} :
    (¬∀ age ∈ quoteFreshnessMs quote reference, 15000 < age) ↔
      0 ≤ ageMs (reference - quote.effectiveTime) ∧
        ageMs (reference - quote.effectiveTime) ≤ 15000 := by
  unfold quoteFreshnessMs
  constructor
  · intro hstale
    obtain ⟨age, himp⟩ := not_forall.mp hstale
    obtain ⟨hage, hle⟩ := Classical.not_imp.mp himp
    obtain ⟨hnonneg, rfl⟩ := freshnessMs_eq_some_iff.mp hage
    exact ⟨hnonneg, not_lt.mp hle⟩
  · intro hand hall
    obtain ⟨hnonneg, hle⟩ := hand
    have hlt := hall _ (freshnessMs_eq_some_iff.mpr ⟨hnonneg, rfl⟩)
    omega

theorem latestQuote_of_latest {db : MarketDb} {utc : Option UtcDatetime} {quote : MarketQuote}
    (h : (Storage.persistent db).latest symbol utc = .ok quote) :
    db.latestQuote ReplayMarketDataProvider.name (upper symbol) utc = some (some quote) := by
  simp only [Storage.latest] at h
  split at h
  · exact nomatch h
  · exact nomatch h
  · rename_i quote' hquote
    rw [hquote, Except.ok.inj h]

theorem bars_of_bars {db : MarketDb} {utc : Option UtcDatetime} {bars : List MarketBar}
    (h : (Storage.persistent db).bars symbol timeframe limit utc = .ok bars) :
    db.bars ReplayMarketDataProvider.name (upper symbol) timeframe limit utc true =
      some bars := by
  simp only [Storage.bars] at h
  split at h
  · exact nomatch h
  · split at h
    · exact nomatch h
    · rename_i bars' hbars
      rw [hbars, Except.ok.inj h]

end Bodies

section Settled

variable [CharacterTables] [Digest] {db db' : MarketDb} {symbol timeframe : String} {limit : Int}
  {since asOf now now' : UtcDatetime}

omit [Digest] in
theorem latestQuote_extends (h : MarketDb.Extends since db db') (hasOf : asOf ≤ since)
    (provider symbol : String) :
    db'.latestQuote provider symbol (some asOf) = db.latestQuote provider symbol (some asOf) := by
  rw [MarketDb.latestQuote, MarketDb.quoteRows_extends h hasOf, MarketDb.latestQuote]

omit [Digest] in
theorem bars_extends (h : MarketDb.Extends since db db') (hasOf : asOf ≤ since)
    (provider symbol timeframe : String) (limit : Int) (finalOnly : Bool) :
    db'.bars provider symbol timeframe limit (some asOf) finalOnly =
      db.bars provider symbol timeframe limit (some asOf) finalOnly := by
  rw [MarketDb.bars, MarketDb.barRows_extends h hasOf, MarketDb.bars]

/-- Bars that were received by a moment, in the order of their starts. -/
structure ShownAsOf (asOf : UtcDatetime) (data : List MarketBar) : Prop where
  received : ∀ bar ∈ data, bar.receivedAt ≤ asOf
  increasing : data.Pairwise (fun bar bar' => bar.timestamp < bar'.timestamp)

/-- **As of a moment.**  What is received later changes no response, and nor
does the clock.  A response shows what was received by the moment, and is fresh
if it was so at the moment. -/
theorem asset_responses_settled (db : MarketDb) (attempts : List MarketAttempt)
    (hlater : ∀ attempt ∈ attempts, attempt.call.ReceivedAfter since) (hasOf : asOf ≤ since)
    (now now' : UtcDatetime) (symbol timeframe : String) (limit : Int) :
    (assetSnapshot (.persistent (db.afterAttempts attempts)) now' symbol (.aware asOf) =
        assetSnapshot (.persistent db) now symbol (.aware asOf) ∧
      assetBars (.persistent (db.afterAttempts attempts)) now' symbol timeframe limit
          (.aware asOf) =
        assetBars (.persistent db) now symbol timeframe limit (.aware asOf)) ∧
    (∀ body, assetSnapshot (.persistent db) now symbol (.aware asOf) = .ok body →
      body.quote.receivedAt ≤ asOf ∧
      (body.stale = false ↔ 0 ≤ ageMs (asOf - body.quote.effectiveTime) ∧
        ageMs (asOf - body.quote.effectiveTime) ≤ 15000)) ∧
    ∀ body, assetBars (.persistent db) now symbol timeframe limit (.aware asOf) = .ok body →
      ShownAsOf asOf body.data ∧ (body.data.length : Int) ≤ limit ∧
      ∃ bound, barStaleAfterMs.get? timeframe = some bound ∧
        (body.stale = false ↔ ∃ newest,
          (body.data.map (fun bar => bar.barEndAt)).max? = some newest ∧
          0 ≤ ageMs (asOf - newest) ∧ ageMs (asOf - newest) ≤ bound) := by
  have hextends := db.afterAttempts_extends hlater
  refine ⟨⟨?_, ?_⟩, ?_, ?_⟩
  · simp only [assetSnapshot, asOfUtc, Storage.latest, latestQuote_extends hextends hasOf,
      Option.getD_some]
    rfl
  · simp only [assetBars, asOfUtc, Storage.bars, bars_extends hextends hasOf, Option.getD_some]
    rfl
  · intro body hbody
    obtain ⟨utc, hutc, hquote, hfresh, hstale⟩ := assetSnapshot_eq_ok hbody
    obtain rfl := Except.ok.inj hutc
    refine ⟨MarketDb.latestQuote_seen (latestQuote_of_latest hquote), ?_⟩
    rw [← Bool.not_eq_true, hstale, hfresh, Option.getD_some]
    exact not_stale_iff
  · intro body hbody
    obtain ⟨hlimit, -, utc, hutc, hbars, hfresh, hstale⟩ := assetBars_eq_ok hbody
    obtain rfl := Except.ok.inj hutc
    obtain ⟨bound, hbound⟩ := exists_bound_of_bars hbars
    have hread := bars_of_bars hbars
    have hreference := MarketDb.barsReference_of_bars hlimit hread
    refine ⟨⟨fun bar hbar => MarketDb.bars_seen hread hbar, hreference.increasing⟩, ?_, bound,
      hbound, ?_⟩
    · rw [hreference.count]
      exact min_le_left _ _
    · rw [hfresh] at hstale
      exact stale_eq_false_iff hbound hstale

end Settled

section Advance

/-- A later moment to look back from, and none is the latest. -/
def AsOf.NoLater : AsOf → AsOf → Prop
  | .aware instant, .aware instant' => instant ≤ instant'
  | .naive, _ => False
  | _, asOf => asOf = .absent

instance (asOf asOf' : AsOf) : Decidable (asOf.NoLater asOf') := by
  cases asOf <;> cases asOf' <;> unfold AsOf.NoLater <;> infer_instance

/-- How a chart follows an earlier one: each bar is there, or a revision that was
received no earlier, unless later bars fill the chart. -/
structure ChartAdvances (limit : Int) (data data' : List MarketBar) : Prop where
  kept : ∀ bar ∈ data,
    (∃ bar' ∈ data', bar'.timestamp = bar.timestamp ∧ bar.receivedAt ≤ bar'.receivedAt) ∨
      ((data'.length : Int) = limit ∧ ∀ bar' ∈ data', bar.timestamp < bar'.timestamp)
  newest : ∀ bar ∈ data, ∃ bar' ∈ data', bar.timestamp ≤ bar'.timestamp
  longer : data.length ≤ data'.length

/-- The order in which quotes supersede each other. -/
def MarketQuoteFields.readRank (quote : MarketQuoteFields) : Int ×ₗ Int ×ₗ Int :=
  toLex (quote.effectiveTime, toLex (quote.receivedAt, quote.processedAt))

theorem readRank_le_of_readKey_le {row row' : MarketQuoteRow} {quote quote' : MarketQuote}
    (hquote : row.quote = some quote) (hquote' : row'.quote = some quote')
    (hle : row.readKey ≤ row'.readKey) : quote.readRank ≤ quote'.readRank := by
  have hfields := MarketQuoteRow.fields_of_quote hquote
  have hfields' := MarketQuoteRow.fields_of_quote hquote'
  have hrank : quote.readRank =
      toLex (row.providerTimestamp.getD row.receivedAt,
        toLex (row.receivedAt, row.processedAt)) := by
    rw [MarketQuoteFields.readRank, MarketQuoteFields.effectiveTime, hfields]
    rfl
  have hrank' : quote'.readRank = toLex (row'.providerTimestamp.getD row'.receivedAt,
      toLex (row'.receivedAt, row'.processedAt)) := by
    rw [MarketQuoteFields.readRank, MarketQuoteFields.effectiveTime, hfields']
    rfl
  rw [hrank, hrank']
  simp only [MarketQuoteRow.readKey, Prod.Lex.toLex_le_toLex] at hle ⊢
  rcases hle with hlt | ⟨heq, hlt | ⟨heq', hlt | ⟨heq'', -⟩⟩⟩
  · exact .inl hlt
  · exact .inr ⟨heq, .inl hlt⟩
  · exact .inr ⟨heq, .inr ⟨heq', hlt.le⟩⟩
  · exact .inr ⟨heq, .inr ⟨heq', heq''.le⟩⟩

theorem MarketBarRow.receivedAt_of_bar {row : MarketBarRow} {bar : MarketBar}
    (h : row.bar = some bar) : bar.receivedAt = row.receivedAt := by
  rw [MarketBarRow.fields_of_bar h]
  rfl

theorem receivedAt_le_of_revisionKey_le {row row' : MarketBarRow}
    (hle : row.revisionKey ≤ row'.revisionKey) : row.receivedAt ≤ row'.receivedAt := by
  simp only [MarketBarRow.revisionKey, Prod.Lex.toLex_le_toLex] at hle
  rcases hle with hlt | ⟨heq, -⟩
  · exact hlt.le
  · exact heq.le

variable {rows rows' : List MarketBarRow} {limit limit' : Int} {data data' : List MarketBar}

/-- A start that is not shown has been pushed out of a full chart. -/
theorem BarsReference.full (h : BarsReference rows limit data) {row : MarketBarRow}
    (hrow : row ∈ rows) (hnot : row.barStartAt ∉ startsOf data) :
    (data.length : Int) = limit := by
  have hsub : startsOf data ⊆ (rows.map MarketBarRow.barStartAt).toFinset.erase row.barStartAt := by
    intro start hstart
    obtain ⟨other, hother, rfl⟩ := h.exists_row hstart
    refine Finset.mem_erase.mpr ⟨fun heq => hnot (heq ▸ hstart), ?_⟩
    exact List.mem_toFinset.mpr (List.mem_map_of_mem hother)
  have hmem : row.barStartAt ∈ (rows.map MarketBarRow.barStartAt).toFinset :=
    List.mem_toFinset.mpr (List.mem_map_of_mem hrow)
  have hcard := Finset.card_le_card hsub
  rw [h.card_startsOf, Finset.card_erase_of_mem hmem] at hcard
  have hpos : 0 < (rows.map MarketBarRow.barStartAt).toFinset.card :=
    Finset.card_pos.mpr ⟨_, hmem⟩
  have hcount := h.count
  omega

/-- **Charts advance with the rows.** -/
theorem BarsReference.advances (h : BarsReference rows limit data)
    (h' : BarsReference rows' limit' data') (hrows : ∀ row ∈ rows, row ∈ rows')
    (hlimit : limit ≤ limit') (hpos : 1 ≤ limit') : ChartAdvances limit' data data' := by
  have hkept : ∀ bar ∈ data,
      (∃ bar' ∈ data', bar'.timestamp = bar.timestamp ∧ bar.receivedAt ≤ bar'.receivedAt) ∨
        ((data'.length : Int) = limit' ∧ ∀ bar' ∈ data', bar.timestamp < bar'.timestamp) := by
    intro bar hbar
    obtain ⟨row, hrow, hrowBar, -⟩ := h.represented bar hbar
    have hstart := MarketBarRow.timestamp_of_bar hrowBar
    rcases h'.latest row (hrows row hrow) with ⟨bar', hbar', hsame⟩ | hlater
    · obtain ⟨row', hrow', hrowBar', hlast⟩ := h'.represented bar' hbar'
      have hle := receivedAt_le_of_revisionKey_le (hlast row (hrows row hrow) hsame.symm)
      refine .inl ⟨bar', hbar', hsame.trans hstart.symm, ?_⟩
      rwa [MarketBarRow.receivedAt_of_bar hrowBar, MarketBarRow.receivedAt_of_bar hrowBar']
    · have hnot : row.barStartAt ∉ startsOf data' := by
        intro hmem
        obtain ⟨bar', hbar', heq⟩ := mem_startsOf.mp hmem
        exact absurd heq.symm (hlater bar' hbar').ne
      refine .inr ⟨h'.full (hrows row hrow) hnot, ?_⟩
      intro bar' hbar'
      rw [hstart]
      exact hlater bar' hbar'
  refine ⟨hkept, ?_, ?_⟩
  · intro bar hbar
    rcases hkept bar hbar with ⟨bar', hbar', hsame, -⟩ | ⟨hfull, hlater⟩
    · exact ⟨bar', hbar', hsame.ge⟩
    · obtain ⟨bar', hbar'⟩ := List.exists_mem_of_length_pos (l := data') (by omega)
      exact ⟨bar', hbar', (hlater bar' hbar').le⟩
  · have hsub : (rows.map MarketBarRow.barStartAt).toFinset ⊆
        (rows'.map MarketBarRow.barStartAt).toFinset := by
      intro start hstart
      obtain ⟨row, hrow, rfl⟩ := List.mem_map.mp (List.mem_toFinset.mp hstart)
      exact List.mem_toFinset.mpr (List.mem_map_of_mem (hrows row hrow))
    have hcard := Finset.card_le_card hsub
    have hcount := h.count
    have hcount' := h'.count
    omega

variable [Digest]

/-- When the observations of a call were received. -/
def MarketCall.receipts : MarketCall → List UtcDatetime
  | saveQuote quote => [quote.receivedAt]
  | saveBars bars => bars.map (fun bar => bar.receivedAt)
  | recordSuccess .. => []
  | recordFailure .. => []

omit [Digest] in
theorem MarketCall.receivedAfter_iff {call : MarketCall} {since : UtcDatetime} :
    call.ReceivedAfter since ↔ ∀ receipt ∈ call.receipts, since < receipt := by
  cases call <;> simp [ReceivedAfter, receipts]

omit [Digest] in
/-- Finitely many calls were all received after some moment. -/
theorem exists_receivedAfter (attempts : List MarketAttempt) :
    ∃ since : UtcDatetime, ∀ attempt ∈ attempts, attempt.call.ReceivedAfter since := by
  have hbelow : ∀ moments : List UtcDatetime, ∃ since : UtcDatetime, ∀ moment ∈ moments,
      since < moment := by
    intro moments
    induction moments with
    | nil => exact ⟨0, by simp⟩
    | cons moment moments ih =>
        obtain ⟨since, hsince⟩ := ih
        refine ⟨min since (moment - 1), List.forall_mem_cons.mpr ⟨?_, ?_⟩⟩
        · exact (min_le_right since (moment - 1)).trans_lt (Int.sub_one_lt_of_le le_rfl)
        · intro other hother
          exact (min_le_left since (moment - 1)).trans_lt (hsince other hother)
  obtain ⟨since, hsince⟩ := hbelow (attempts.flatMap (fun attempt => attempt.call.receipts))
  refine ⟨since, ?_⟩
  intro attempt hattempt
  rw [MarketCall.receivedAfter_iff]
  intro receipt hreceipt
  exact hsince receipt (List.mem_flatMap.mpr ⟨attempt, hattempt, hreceipt⟩)

/-- What is stored stays. -/
theorem afterAttempts_rows (db : MarketDb) (attempts : List MarketAttempt) :
    db.quoteObservations.values ⊆ (db.afterAttempts attempts).quoteObservations.values ∧
      db.barObservations.values ⊆ (db.afterAttempts attempts).barObservations.values := by
  obtain ⟨since, hsince⟩ := exists_receivedAfter attempts
  have hextends := db.afterAttempts_extends hsince
  obtain ⟨laterQuotes, hquotes, -⟩ := hextends.quotes
  obtain ⟨laterBars, hbars, -⟩ := hextends.bars
  rw [hquotes, hbars]
  exact ⟨List.subset_append_left _ _, List.subset_append_left _ _⟩

omit [Digest] in
/-- What is seen as of a moment is seen as of a later one. -/
theorem AsOf.NoLater.seen {asOf asOf' : AsOf} (h : asOf.NoLater asOf')
    {utc utc' : Option UtcDatetime} (hutc : asOfUtc asOf = .ok utc)
    (hutc' : asOfUtc asOf' = .ok utc') {received : UtcDatetime} (hseen : SeenAt utc received) :
    SeenAt utc' received := by
  cases asOf with
  | naive => exact h.elim
  | absent =>
      obtain rfl : asOf' = .absent := h
      obtain rfl := Except.ok.inj (hutc.symm.trans hutc')
      exact hseen
  | aware instant =>
      cases asOf' with
      | naive => exact nomatch hutc'
      | absent =>
          obtain rfl := Except.ok.inj hutc'
          exact fun bound hbound => nomatch hbound
      | aware instant' =>
          obtain rfl := Except.ok.inj hutc
          obtain rfl := Except.ok.inj hutc'
          rw [seenAt_some] at hseen ⊢
          exact hseen.trans h

end Advance

section Requests

variable [CharacterTables] [Digest]

/-- The rows that later requests select include those of earlier ones. -/
theorem selectedRows_later (db : MarketDb) (attempts : List MarketAttempt)
    {utc utc' : Option UtcDatetime}
    (hseen : ∀ received : UtcDatetime, SeenAt utc received → SeenAt utc' received)
    (provider symbol timeframe : String) (finalOnly : Bool) :
    (∀ row ∈ db.quoteRows provider symbol utc,
      row ∈ (db.afterAttempts attempts).quoteRows provider symbol utc') ∧
    ∀ row ∈ db.barRows provider symbol timeframe utc finalOnly,
      row ∈ (db.afterAttempts attempts).barRows provider symbol timeframe utc' finalOnly := by
  obtain ⟨hquotes, hbars⟩ := afterAttempts_rows db attempts
  constructor
  · intro row hrow
    obtain ⟨hmem, hselected⟩ := List.mem_filter.mp hrow
    rw [decide_eq_true_eq] at hselected
    obtain ⟨hprovider, hsymbol, hreceived⟩ := hselected
    refine List.mem_filter.mpr ⟨hquotes hmem, ?_⟩
    rw [decide_eq_true_eq]
    exact ⟨hprovider, hsymbol, hseen _ hreceived⟩
  · intro row hrow
    obtain ⟨hmem, hselected⟩ := List.mem_filter.mp hrow
    rw [decide_eq_true_eq] at hselected
    obtain ⟨hprovider, hsymbol, htimeframe, hreceived, hfinal⟩ := hselected
    refine List.mem_filter.mpr ⟨hbars hmem, ?_⟩
    rw [decide_eq_true_eq]
    exact ⟨hprovider, hsymbol, htimeframe, hseen _ hreceived, hfinal⟩

omit [Digest] in
/-- A snapshot is refused with a status only for want of a quote. -/
theorem assetSnapshot_eq_http {db : MarketDb} {now : UtcDatetime} {symbol : String} {asOf : AsOf}
    {utc : Option UtcDatetime} (hutc : asOfUtc asOf = .ok utc) {status : ℕ}
    {detail : Option String}
    (h : assetSnapshot (.persistent db) now symbol asOf = .http status detail) :
    db.latestQuote ReplayMarketDataProvider.name (upper symbol) utc = some none := by
  cases hfound : db.latestQuote ReplayMarketDataProvider.name (upper symbol) utc with
  | none => simp [assetSnapshot, hutc, Storage.latest, hfound] at h
  | some found =>
      cases found with
      | none => rfl
      | some quote => simp [assetSnapshot, hutc, Storage.latest, hfound] at h

omit [CharacterTables] [Digest] in
theorem AsOf.NoLater.exists_utc {asOf asOf' : AsOf} (h : asOf.NoLater asOf') :
    ∃ utc', asOfUtc asOf' = .ok utc' := by
  cases asOf' with
  | absent => exact ⟨none, rfl⟩
  | aware instant => exact ⟨some instant, rfl⟩
  | naive => cases asOf <;> simp [AsOf.NoLater] at h

/-- **Responses never go back.**  Later in the life of the store, or as of a later
moment, a snapshot that was given is not refused, and its quote does not
supersede the new one; and charts advance. -/
theorem asset_responses_advance (db : MarketDb) (attempts : List MarketAttempt)
    {asOf asOf' : AsOf} (hasOf : asOf.NoLater asOf') (now now' : UtcDatetime) (symbol : String) :
    (∀ body, assetSnapshot (.persistent db) now symbol asOf = .ok body →
      (∀ status detail, assetSnapshot (.persistent (db.afterAttempts attempts)) now' symbol
        asOf' ≠ .http status detail) ∧
      ∀ body', assetSnapshot (.persistent (db.afterAttempts attempts)) now' symbol asOf' =
        .ok body' → body.quote.readRank ≤ body'.quote.readRank) ∧
    ∀ timeframe limit limit' body body', limit ≤ limit' →
      assetBars (.persistent db) now symbol timeframe limit asOf = .ok body →
      assetBars (.persistent (db.afterAttempts attempts)) now' symbol timeframe limit' asOf' =
        .ok body' → ChartAdvances limit' body.data body'.data := by
  constructor
  · intro body hbody
    obtain ⟨utc, hutc, hlatest, -, -⟩ := assetSnapshot_eq_ok hbody
    obtain ⟨row, hrow, hquote, -⟩ :=
      MarketDb.latestQuote_eq_some (latestQuote_of_latest hlatest)
    obtain ⟨utc', hutc'⟩ := hasOf.exists_utc
    have hrow' := (selectedRows_later db attempts (fun _ hseen => hasOf.seen hutc hutc' hseen)
      ReplayMarketDataProvider.name (upper symbol) "" true).1 row hrow
    constructor
    · intro status detail hrefused
      have hnone := MarketDb.latestQuote_eq_none (assetSnapshot_eq_http hutc' hrefused)
      rw [hnone] at hrow'
      simp at hrow'
    · intro body' hbody'
      obtain ⟨utc'', hutc'', hlatest', -, -⟩ := assetSnapshot_eq_ok hbody'
      obtain rfl := Except.ok.inj (hutc'.symm.trans hutc'')
      obtain ⟨row', -, hquote', hlast⟩ :=
        MarketDb.latestQuote_eq_some (latestQuote_of_latest hlatest')
      exact readRank_le_of_readKey_le hquote hquote' (hlast row hrow')
  · intro timeframe limit limit' body body' hlimit hbody hbody'
    obtain ⟨hpos, -, utc, hutc, hbars, -, -⟩ := assetBars_eq_ok hbody
    obtain ⟨hpos', -, utc', hutc', hbars', -, -⟩ := assetBars_eq_ok hbody'
    have hreference := MarketDb.barsReference_of_bars hpos (bars_of_bars hbars)
    have hreference' := MarketDb.barsReference_of_bars hpos' (bars_of_bars hbars')
    exact hreference.advances hreference' (selectedRows_later db attempts
      (fun _ hseen => hasOf.seen hutc hutc' hseen) _ _ _ _).2 hlimit hpos'

end Requests

section Health

/-- What a call records of a provider. -/
def MarketCall.providerCall? : MarketCall → Option ProviderCall
  | recordSuccess provider observedAt lastMessageReceivedAt reconnected =>
      some ⟨provider, observedAt, lastMessageReceivedAt, .success reconnected⟩
  | recordFailure provider observedAt detail exhausted lastMessageReceivedAt =>
      some ⟨provider, observedAt, lastMessageReceivedAt, .failure detail exhausted⟩
  | saveQuote _ | saveBars _ => none

variable [Digest]

/-- One more attempt of a worker. -/
def ProviderRun.serve (run : ProviderRun) (attempt : MarketAttempt) : ProviderRun :=
  if attempt.fails then run
  else
    match attempt.call.commit run.db with
    | none => run
    | some db => ⟨db, run.returned ++ attempt.call.providerCall?.toList⟩

/-- The attempts of the workers, with the records that returned. -/
def workerRun (attempts : List MarketAttempt) : ProviderRun :=
  attempts.foldl ProviderRun.serve ⟨.empty, []⟩

theorem workerRun_snoc (attempts : List MarketAttempt) (attempt : MarketAttempt) :
    workerRun (attempts ++ [attempt]) = (workerRun attempts).serve attempt := by
  rw [workerRun, List.foldl_append]
  rfl

theorem db_workerRun (attempts : List MarketAttempt) :
    (workerRun attempts).db = MarketDb.empty.afterAttempts attempts := by
  induction attempts using List.reverseRecOn with
  | nil => rfl
  | append_singleton attempts attempt ih =>
      rw [workerRun_snoc, MarketDb.afterAttempts, List.foldl_append]
      show _ = attempt.run (MarketDb.empty.afterAttempts attempts)
      rw [← ih, ProviderRun.serve, MarketAttempt.run]
      split
      · rfl
      · cases hcommit : attempt.call.commit (workerRun attempts).db with
        | none => rfl
        | some db => rfl

theorem MarketCall.commit_eq_recorded {db : MarketDb} {call : MarketCall} {record : ProviderCall}
    (h : call.providerCall? = some record) : call.commit db = db.recorded record := by
  cases call with
  | saveQuote quote => exact nomatch h
  | saveBars bars => exact nomatch h
  | recordSuccess provider observedAt lastMessageReceivedAt reconnected =>
      obtain rfl := Option.some.inj h
      rfl
  | recordFailure provider observedAt detail exhausted lastMessageReceivedAt =>
      obtain rfl := Option.some.inj h
      rfl

theorem MarketCall.providerStates_commit {db db' : MarketDb} {call : MarketCall}
    (h : call.commit db = some db') (hnone : call.providerCall? = none) :
    db'.providerStates = db.providerStates := by
  cases call with
  | saveQuote quote =>
      obtain ⟨⟨inserted, saved⟩, hsave, rfl⟩ := Option.map_eq_some_iff.mp h
      exact MarketDb.providerStates_saveQuote hsave
  | saveBars bars =>
      obtain ⟨⟨inserted, saved⟩, hsave, rfl⟩ := Option.map_eq_some_iff.mp h
      exact (MarketDb.saveBars_frame hsave).1
  | recordSuccess _ _ _ _ => exact nomatch hnone
  | recordFailure _ _ _ _ _ => exact nomatch hnone

theorem ProviderRun.Follows.serve {run : ProviderRun} {provider : String}
    (h : run.Follows provider) (attempt : MarketAttempt) :
    (run.serve attempt).Follows provider := by
  unfold ProviderRun.serve
  split
  · exact h
  · cases hrecord : attempt.call.providerCall? with
    | none =>
        cases hcommit : attempt.call.commit run.db with
        | none => exact h
        | some db =>
            show ProviderRun.Follows ⟨db, run.returned ++ []⟩ provider
            rw [List.append_nil]
            have hstates := MarketCall.providerStates_commit hcommit hrecord
            unfold ProviderRun.Follows at h ⊢
            rw [← h, hstates]
    | some record =>
        have hattempt := h.attempt record
        unfold ProviderRun.attempt at hattempt
        rw [MarketCall.commit_eq_recorded hrecord]
        cases hcommit : run.db.recorded record with
        | none => exact h
        | some db =>
            rw [hcommit] at hattempt
            exact hattempt

theorem follows_workerRun (attempts : List MarketAttempt) (provider : String) :
    (workerRun attempts).Follows provider := by
  induction attempts using List.reverseRecOn with
  | nil => rfl
  | append_singleton attempts attempt ih =>
      rw [workerRun_snoc]
      exact ih.serve attempt

/-- The health that a history of records comes to. -/
structure HealthOf (calls : List ProviderCall) (provider : String) (now : UtcDatetime)
    (health : ProviderHealth) : Prop where
  name : health.name = provider
  lastMessageAt : health.lastMessageAt = (calls.filterMap ProviderCall.lastMessageReceivedAt).max?
  healthy_iff : health.status = .healthy ↔
    (∃ last, calls.getLast? = some last ∧ last.succeeded = true) ∧
      ∃ message, (calls.filterMap ProviderCall.lastMessageReceivedAt).max? = some message ∧
        0 ≤ ageMs (now - message) ∧ ageMs (now - message) ≤ 15000
  unavailable_iff : health.status = .unavailable ↔ calls = [] ∨
    (∃ last, calls.getLast? = some last ∧ last.status = .unavailable) ∧
      ∀ message ∈ (calls.filterMap ProviderCall.lastMessageReceivedAt).max?,
        0 ≤ ageMs (now - message)

omit [Digest] in
theorem ProviderCall.status_eq_healthy_iff {call : ProviderCall} :
    call.status = .healthy ↔ call.succeeded = true := by
  obtain ⟨provider, observedAt, lastMessageReceivedAt, outcome⟩ := call
  cases outcome with
  | success reconnected => simp [status, succeeded]
  | failure detail exhausted => cases exhausted <;> simp [status, succeeded]

omit [Digest] in
theorem ProviderStatus.staled_eq_unavailable_iff {status : ProviderStatus} :
    status.staled = .unavailable ↔ status = .unavailable := by
  cases status <;> simp [staled]

omit [Digest] in
/-- **The health of a history.** -/
theorem healthOf_stateAfter {calls : List ProviderCall} {provider : String}
    (hsame : ∀ call ∈ calls, call.provider = provider) (now : UtcDatetime) :
    HealthOf calls provider now
      ((HealthSource.stored (stateAfter calls)).health provider now) := by
  cases hlast : calls.getLast? with
  | none =>
      obtain rfl := List.getLast?_eq_none_iff.mp hlast
      exact ⟨rfl, rfl, by simp [stateAfter, HealthSource.health],
        by simp [stateAfter, HealthSource.health]⟩
  | some last =>
      have hne : calls ≠ [] := by
        intro hnil
        simp [hnil] at hlast
      have hprovider : last.provider = provider := hsame last (List.mem_of_getLast? hlast)
      obtain ⟨state, hstate, hid, hmessage, hstatus⟩ : ∃ state, stateAfter calls = some state ∧
          state.providerId = provider ∧ state.lastMessageReceivedAt =
            (calls.filterMap ProviderCall.lastMessageReceivedAt).max? ∧
          state.status = last.status := by
        rw [stateAfter, hlast]
        exact ⟨_, rfl, hprovider, rfl, rfl⟩
      rw [hstate]
      cases hnewest : (calls.filterMap ProviderCall.lastMessageReceivedAt).max? with
      | none =>
          rw [hnewest] at hmessage
          have hhealth : ((HealthSource.stored (some state)).health provider now).status =
              state.status.staled := HealthSource.status_stored_none hmessage
          refine ⟨?_, ?_, ?_, ?_⟩
          · simp [HealthSource.health, hmessage, hid]
          · simp [HealthSource.health, hmessage, hnewest]
          · rw [hhealth, hnewest]
            simp [ProviderStatus.staled_ne_healthy]
          · rw [hhealth, ProviderStatus.staled_eq_unavailable_iff, hnewest, hstatus]
            simp [hne, hlast]
      | some message =>
          rw [hnewest] at hmessage
          have hhealth : ((HealthSource.stored (some state)).health provider now).status =
              if ageMs (now - message) < 0 then .degraded
              else if 15000 < ageMs (now - message) then state.status.staled
              else state.status := HealthSource.status_stored hmessage
          refine ⟨?_, ?_, ?_, ?_⟩
          · simp only [HealthSource.health, hmessage]
            split <;> exact hid
          · simp only [HealthSource.health, hmessage]
            split <;> exact hnewest.symm
          · rw [hhealth, hnewest, hstatus, hlast]
            simp only [Option.some_inj, exists_eq_left', ← ProviderCall.status_eq_healthy_iff]
            split_ifs with hahead hstale
            · exact iff_of_false (by simp) (fun hand => absurd hand.2.1 (by omega))
            · exact iff_of_false (ProviderStatus.staled_ne_healthy _)
                (fun hand => absurd hand.2.2 (by omega))
            · exact (and_iff_left ⟨by omega, by omega⟩).symm
          · rw [hhealth, hnewest, hstatus, hlast]
            simp only [Option.some_inj, exists_eq_left', hne, false_or, Option.mem_def, forall_eq']
            split_ifs with hahead hstale
            · exact iff_of_false (by simp) (fun hand => absurd hand.2 (by omega))
            · rw [ProviderStatus.staled_eq_unavailable_iff]
              exact (and_iff_left (by omega)).symm
            · exact (and_iff_left (by omega)).symm

/-- **The health the API reports** after any attempts of the workers, with the
calls of any other providers among them, is that of the records that returned
for its provider. -/
theorem health_after_attempts (attempts : List MarketAttempt)
    (lastMessageAt : Option UtcDatetime) (now : UtcDatetime) :
    ∃ health, providerHealth (.persistent (MarketDb.empty.afterAttempts attempts)) lastMessageAt
        now = some health ∧
      HealthOf (callsFor ReplayMarketDataProvider.name (workerRun attempts).returned)
        ReplayMarketDataProvider.name now health := by
  have hread := providerState_of_follows
    (follows_workerRun attempts ReplayMarketDataProvider.name)
  rw [db_workerRun] at hread
  refine ⟨_, ?_, healthOf_stateAfter ?_ now⟩
  · simp only [providerHealth, MarketConfig.health, MarketConfig.healthSource, hread,
      Option.map_some]
  · intro call hcall
    simpa [callsFor] using (List.mem_filter.mp hcall).2

end Health

section Sample

/-- The digests of a bar, its correction and a quote of the replay provider. -/
def endpointDigests : List (String × String) :=
  [("replay-market\x1fACME\x1f1m\x1f2026-07-18T12:00:00.000000+00:00\x1f" ++
      "2026-07-18T12:01:00.000000+00:00\x1f100.5\x1f101.5\x1f100\x1f101\x1f1000\x1fTrue",
    "066d8d625ad6046e16611dfbd1b8431e8f843865f6653fa58f60a8dc87a09b9c"),
   ("replay-market\x1fACME\x1f1m\x1f2026-07-18T12:00:00.000000+00:00\x1f" ++
      "2026-07-18T12:01:00.000000+00:00\x1f100.5\x1f101.5\x1f100\x1f101.4\x1f1000\x1fTrue",
    "5dc2f287199b64b889d88f76e7cdf343c1d4dbdb8c18d098fa769e7a01465214"),
   ("replay-market\x1fACME\x1f\x1f2026-07-18T12:00:00.000000+00:00\x1f" ++
      "100.9\x1f101.1\x1f101",
    "caab7db5e16d89d72a9fe4e9689ae202629184b6edaa3276112ec9912b50a6c5")]

@[reducible] def endpointBarFields (cents seconds : Int) : MarketBarFields :=
  { sampleBarFields cents seconds with provider := "replay-market" }

@[reducible] def endpointQuoteFields (seconds : Int) : MarketQuoteFields :=
  { sampleQuoteFields seconds with provider := "replay-market" }

def endpointBar : MarketBar := ⟨endpointBarFields 10100 60, by decide +kernel⟩

/-- The bar again, with another close. -/
def endpointCorrection : MarketBar := ⟨endpointBarFields 10140 120, by decide +kernel⟩

def endpointQuote : MarketQuote := ⟨endpointQuoteFields 60, by decide +kernel⟩

/-- A minute after noon. -/
@[reducible] def firstObservations : MarketDb :=
  letI := tableDigest endpointDigests
  MarketDb.empty.afterAttempts
    [⟨.saveBars [endpointBar], false⟩, ⟨.saveQuote endpointQuote, false⟩]

/-- What is received in the next minute. -/
@[reducible] def laterAttempts : List MarketAttempt :=
  [⟨.saveBars [endpointCorrection], false⟩,
    ⟨.recordSuccess "replay-market" (sampleNoon + 120000000) (some (sampleNoon + 120000000))
      false, false⟩]

/-- The bar is corrected, and the response as of a minute after noon is what it
was. -/
theorem asset_responses_settled_correction :
    let _ : CharacterTables := asciiTables
    let _ : Digest := tableDigest endpointDigests
    ∀ now now', assetSnapshot (.persistent (firstObservations.afterAttempts laterAttempts)) now'
          "acme" (.aware (sampleNoon + 60000000)) =
        assetSnapshot (.persistent firstObservations) now "acme"
          (.aware (sampleNoon + 60000000)) ∧
      assetBars (.persistent (firstObservations.afterAttempts laterAttempts)) now' "acme" "1m" 10
          (.aware (sampleNoon + 60000000)) =
        assetBars (.persistent firstObservations) now "acme" "1m" 10
          (.aware (sampleNoon + 60000000)) := by
  intro _ _ now now'
  have hlater : ∀ attempt ∈ laterAttempts,
      attempt.call.ReceivedAfter (sampleNoon + 60000000) := by
    simp [MarketCall.ReceivedAfter, endpointCorrection, sampleBarFields]
  exact (asset_responses_settled firstObservations laterAttempts hlater le_rfl now now' "acme"
    "1m" 10).1

/-- The closing prices of a chart. -/
def Response.closes : Response AssetBars → Option (List ℚ)
  | ok body => some (body.data.map (fun bar => bar.close.value))
  | _ => none

/-- The live chart shows the correction. -/
theorem asset_responses_advance_correction :
    let _ : CharacterTables := asciiTables
    let _ : Digest := tableDigest endpointDigests
    let before := assetBars (.persistent firstObservations) sampleNoon "acme" "1m" 10
      (.aware (sampleNoon + 60000000))
    let after := assetBars (.persistent (firstObservations.afterAttempts laterAttempts))
      sampleNoon "acme" "1m" 60 .absent
    before.closes = some [101] ∧ after.closes = some [507 / 5] ∧
      ∀ body body', before = .ok body → after = .ok body' →
        ChartAdvances 60 body.data body'.data := by
  intro _ _ before after
  refine ⟨by decide +kernel, by decide +kernel, ?_⟩
  intro body body' hbefore hafter
  have hasOf : (AsOf.aware (sampleNoon + 60000000)).NoLater .absent := by decide
  exact (asset_responses_advance firstObservations laterAttempts hasOf sampleNoon sampleNoon
    "acme").2 "1m" 10 60 body body' (by decide) hbefore hafter

end Sample

end EventAlpha
