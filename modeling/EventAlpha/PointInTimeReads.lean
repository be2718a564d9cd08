import EventAlpha.MarketReads

/-!
# Point-in-time market reads

No read as of a moment looks ahead of it.  Whatever is written after a moment
`since`, in any calls, failing ones included, the reads as of `since` or
earlier are what they were: the same observations, or the same exception.

A read as of a moment is a function of the rows received by then
(`barRows`, `quoteRows`), and every call only appends rows
(`Extends`).  A row received later is never among the visible ones, so it can
neither be chosen, nor supersede a visible row, nor use up the limit.
-/

namespace EventAlpha

open KeyedOrder ObservationLog

/-- The calls that write the market store. -/
inductive MarketCall
  | saveQuote (quote : MarketQuote)
  | saveBars (bars : List MarketBar)
  | recordSuccess (provider : String) (observedAt : UtcDatetime)
      (lastMessageReceivedAt : Option UtcDatetime) (reconnected : Bool)
  | recordFailure (provider : String) (observedAt : UtcDatetime) (detail : String)
      (exhausted : Bool) (lastMessageReceivedAt : Option UtcDatetime)

/-- All observations of a call were received after a moment. -/
def MarketCall.ReceivedAfter (since : UtcDatetime) : MarketCall → Prop
  | saveQuote quote => since < quote.receivedAt
  | saveBars bars => ∀ bar ∈ bars, since < bar.receivedAt
  | recordSuccess .. => True
  | recordFailure .. => True

section Calls

variable [Digest]

/-- The tables a call commits, unless it raises. -/
def MarketCall.commit (db : MarketDb) : MarketCall → Option MarketDb
  | saveQuote quote => (db.saveQuote quote).map Prod.snd
  | saveBars bars => (db.saveBars bars).map Prod.snd
  | recordSuccess provider observedAt lastMessageReceivedAt reconnected =>
      db.recordSuccess provider observedAt lastMessageReceivedAt reconnected
  | recordFailure provider observedAt detail exhausted lastMessageReceivedAt =>
      db.recordFailure provider observedAt detail exhausted lastMessageReceivedAt

/-- A call, and whether the database fails before it commits. -/
structure MarketAttempt where
  call : MarketCall
  fails : Bool

/-- The tables after an attempt.  A call that raises is rolled back. -/
def MarketAttempt.run (db : MarketDb) (attempt : MarketAttempt) : MarketDb :=
  if attempt.fails then db else (attempt.call.commit db).getD db

/-- The tables after a sequence of attempts. -/
def MarketDb.afterAttempts (db : MarketDb) (attempts : List MarketAttempt) : MarketDb :=
  attempts.foldl MarketAttempt.run db

end Calls

section Appended

variable {α : Type*} {received : α → UtcDatetime} {since : UtcDatetime}

/-- Rows were appended, all of them received after a moment. -/
def AppendedAfter (received : α → UtcDatetime) (since : UtcDatetime) (rows rows' : List α) :
    Prop :=
  ∃ later, rows' = rows ++ later ∧ ∀ row ∈ later, since < received row

theorem AppendedAfter.refl (rows : List α) : AppendedAfter received since rows rows :=
  ⟨[], (List.append_nil rows).symm, fun _ hrow => absurd hrow List.not_mem_nil⟩

theorem AppendedAfter.snoc (rows : List α) {row : α} (h : since < received row) :
    AppendedAfter received since rows (rows ++ [row]) := by
  refine ⟨[row], rfl, ?_⟩
  intro row' hrow'
  rw [List.mem_singleton.mp hrow']
  exact h

theorem AppendedAfter.trans {rows₁ rows₂ rows₃ : List α}
    (h : AppendedAfter received since rows₁ rows₂)
    (h' : AppendedAfter received since rows₂ rows₃) :
    AppendedAfter received since rows₁ rows₃ := by
  obtain ⟨later, rfl, hlater⟩ := h
  obtain ⟨later', rfl, hlater'⟩ := h'
  refine ⟨later ++ later', List.append_assoc .., ?_⟩
  intro row hrow
  exact (List.mem_append.mp hrow).elim (hlater row) (hlater' row)

/-- A selection that keeps to a moment does not see later rows. -/
theorem AppendedAfter.filter_eq {rows rows' : List α} (h : AppendedAfter received since rows rows')
    {selects : α → Bool} {asOf : UtcDatetime} (hasOf : asOf ≤ since)
    (hselects : ∀ row, selects row = true → received row ≤ asOf) :
    rows'.filter selects = rows.filter selects := by
  obtain ⟨later, rfl, hlater⟩ := h
  have hnone : later.filter selects = [] := by
    apply List.filter_eq_nil_iff.mpr
    intro row hrow hselected
    exact absurd (hselects row hselected) (not_le_of_gt (hasOf.trans_lt (hlater row hrow)))
  rw [List.filter_append, hnone, List.append_nil]

end Appended

section Extends

/-- Observations were appended, all of them received after a moment. -/
structure MarketDb.Extends (since : UtcDatetime) (db db' : MarketDb) : Prop where
  bars : AppendedAfter MarketBarRow.receivedAt since
    db.barObservations.values db'.barObservations.values
  quotes : AppendedAfter MarketQuoteRow.receivedAt since
    db.quoteObservations.values db'.quoteObservations.values

namespace MarketDb

theorem Extends.of_eq {since : UtcDatetime} {db db' : MarketDb}
    (hbars : db'.barObservations = db.barObservations)
    (hquotes : db'.quoteObservations = db.quoteObservations) : Extends since db db' := by
  refine ⟨?_, ?_⟩
  · rw [hbars]
    exact AppendedAfter.refl _
  · rw [hquotes]
    exact AppendedAfter.refl _

theorem Extends.refl (since : UtcDatetime) (db : MarketDb) : Extends since db db :=
  Extends.of_eq rfl rfl

theorem Extends.trans {since : UtcDatetime} {db₁ db₂ db₃ : MarketDb}
    (h : Extends since db₁ db₂) (h' : Extends since db₂ db₃) : Extends since db₁ db₃ :=
  ⟨h.bars.trans h'.bars, h.quotes.trans h'.quotes⟩

variable [Digest]

/-- A saved bar only appends. -/
theorem saveBar_extends {since : UtcDatetime} {db db' : MarketDb} {bar : MarketBar}
    {inserted : ℕ} (h : db.saveBar bar = some (inserted, db'))
    (hlate : since < bar.receivedAt) : Extends since db db' := by
  obtain ⟨contentHash, -, hquotes, hbars⟩ := saveBar_eq_some h
  rcases hbars with ⟨-, hbars, -⟩ | ⟨hnew, -, row, hrow, -, hbars⟩
  · exact Extends.of_eq hbars hquotes
  · rw [← MarketBar.receivedAt_of_row hrow] at hlate
    refine ⟨?_, ?_⟩
    · rw [hbars, InsertionDict.values_set_of_notMem hnew]
      exact AppendedAfter.snoc _ hlate
    · rw [hquotes]
      exact AppendedAfter.refl _

/-- A saved batch of bars only appends. -/
theorem saveBars_extends {since : UtcDatetime} {db db' : MarketDb} {bars : List MarketBar}
    {inserted : ℕ} (h : db.saveBars bars = some (inserted, db'))
    (hlate : ∀ bar ∈ bars, since < bar.receivedAt) : Extends since db db' := by
  induction bars using List.reverseRecOn generalizing inserted db' with
  | nil =>
      cases h
      exact Extends.refl since db
  | append_singleton bars bar ih =>
      rw [saveBars_snoc, Option.bind_eq_some_iff] at h
      obtain ⟨⟨count, db₁⟩, hbars, h⟩ := h
      obtain ⟨⟨added, db₂⟩, hbar, heq⟩ := Option.map_eq_some_iff.mp h
      cases heq
      have hfirst : Extends since db db₁ :=
        ih hbars (fun b hb => hlate b (List.mem_append_left _ hb))
      have hlast : Extends since db₁ db₂ :=
        saveBar_extends hbar (hlate bar (List.mem_append_right _ (List.mem_singleton_self bar)))
      exact hfirst.trans hlast

/-- A saved quote only appends. -/
theorem saveQuote_extends {since : UtcDatetime} {db db' : MarketDb} {quote : MarketQuote}
    {inserted : Bool} (h : db.saveQuote quote = some (inserted, db'))
    (hlate : since < quote.receivedAt) : Extends since db db' := by
  obtain ⟨contentHash, -, hbars, hquotes⟩ := saveQuote_eq_some h
  rcases hquotes with ⟨-, hquotes, -⟩ | ⟨hnew, -, row, hrow, -, hquotes⟩
  · exact Extends.of_eq hbars hquotes
  · rw [← MarketQuote.receivedAt_of_row hrow] at hlate
    refine ⟨?_, ?_⟩
    · rw [hbars]
      exact AppendedAfter.refl _
    · rw [hquotes, InsertionDict.values_set_of_notMem hnew]
      exact AppendedAfter.snoc _ hlate

end MarketDb

variable [Digest]

/-- A committed call only appends. -/
theorem MarketCall.commit_extends {since : UtcDatetime} {db db' : MarketDb}
    {call : MarketCall} (h : call.commit db = some db') (hlate : call.ReceivedAfter since) :
    MarketDb.Extends since db db' := by
  cases call with
  | saveQuote quote =>
      obtain ⟨⟨inserted, db₁⟩, hsave, rfl⟩ := Option.map_eq_some_iff.mp h
      exact MarketDb.saveQuote_extends hsave hlate
  | saveBars bars =>
      obtain ⟨⟨inserted, db₁⟩, hsave, rfl⟩ := Option.map_eq_some_iff.mp h
      exact MarketDb.saveBars_extends hsave hlate
  | recordSuccess provider observedAt lastMessageReceivedAt reconnected =>
      obtain ⟨hbars, hquotes⟩ := MarketDb.recordSuccess_frame h
      exact MarketDb.Extends.of_eq hbars hquotes
  | recordFailure provider observedAt detail exhausted lastMessageReceivedAt =>
      obtain ⟨hbars, hquotes⟩ := MarketDb.recordFailure_frame h
      exact MarketDb.Extends.of_eq hbars hquotes

/-- An attempt only appends, whether it commits, raises or fails. -/
theorem MarketAttempt.run_extends {since : UtcDatetime} (db : MarketDb)
    {attempt : MarketAttempt} (hlate : attempt.call.ReceivedAfter since) :
    MarketDb.Extends since db (attempt.run db) := by
  unfold MarketAttempt.run
  split
  · exact MarketDb.Extends.refl since db
  · cases hcommit : attempt.call.commit db with
    | none => exact MarketDb.Extends.refl since db
    | some db' => exact MarketCall.commit_extends hcommit hlate

/-- Any sequence of attempts only appends. -/
theorem MarketDb.afterAttempts_extends {since : UtcDatetime} (db : MarketDb)
    {attempts : List MarketAttempt}
    (hlate : ∀ attempt ∈ attempts, attempt.call.ReceivedAfter since) :
    Extends since db (db.afterAttempts attempts) := by
  induction attempts using List.reverseRecOn with
  | nil => exact Extends.refl since db
  | append_singleton attempts attempt ih =>
      have hfirst : Extends since db (db.afterAttempts attempts) :=
        ih (fun a ha => hlate a (List.mem_append_left _ ha))
      have hlast := MarketAttempt.run_extends (db.afterAttempts attempts)
        (hlate attempt (List.mem_append_right _ (List.mem_singleton_self attempt)))
      rw [afterAttempts, List.foldl_append]
      exact hfirst.trans hlast

end Extends

section Reads

variable [CharacterTables]

theorem MarketDb.quoteRows_extends {since asOf : UtcDatetime} {db db' : MarketDb}
    (h : Extends since db db') (hasOf : asOf ≤ since) (provider symbol : String) :
    db'.quoteRows provider symbol (some asOf) = db.quoteRows provider symbol (some asOf) := by
  apply h.quotes.filter_eq hasOf
  intro row hrow
  simp only [decide_eq_true_eq] at hrow
  exact seenAt_some.mp hrow.2.2

theorem MarketDb.barRows_extends {since asOf : UtcDatetime} {db db' : MarketDb}
    (h : Extends since db db') (hasOf : asOf ≤ since) (provider symbol timeframe : String)
    (finalOnly : Bool) :
    db'.barRows provider symbol timeframe (some asOf) finalOnly =
      db.barRows provider symbol timeframe (some asOf) finalOnly := by
  apply h.bars.filter_eq hasOf
  intro row hrow
  simp only [decide_eq_true_eq] at hrow
  exact seenAt_some.mp hrow.2.2.2.1

/-- The quote that is returned is one the read may see. -/
theorem MarketDb.latestQuote_seen {db : MarketDb} {provider symbol : String}
    {asOf : UtcDatetime} {quote : MarketQuote}
    (h : db.latestQuote provider symbol (some asOf) = some (some quote)) :
    quote.receivedAt ≤ asOf := by
  obtain ⟨row, hrow, hquote, -⟩ := latestQuote_eq_some h
  have hselected := (List.mem_filter.mp hrow).2
  simp only [decide_eq_true_eq] at hselected
  rw [MarketQuoteRow.fields_of_quote hquote]
  exact seenAt_some.mp hselected.2.2

/-- The bars that are returned are ones the read may see. -/
theorem MarketDb.bars_seen {db : MarketDb} {provider symbol timeframe : String}
    {limit : Int} {asOf : UtcDatetime} {finalOnly : Bool} {out : List MarketBar}
    (h : db.bars provider symbol timeframe limit (some asOf) finalOnly = some out)
    {bar : MarketBar} (hbar : bar ∈ out) : bar.receivedAt ≤ asOf := by
  obtain ⟨row, hrow, hrebuilt⟩ := exists_row_of_bars h hbar
  have hselected := (List.mem_filter.mp hrow).2
  simp only [decide_eq_true_eq] at hselected
  rw [MarketBarRow.fields_of_bar hrebuilt]
  exact seenAt_some.mp hselected.2.2.2.1

end Reads

section NoLookahead

variable [CharacterTables] [Digest]

/-- **No look-ahead.**  The reads as of a moment are not changed by any calls
whose observations are received after it, and what they return was received by
then. -/
theorem reads_ignore_later (db : MarketDb) (attempts : List MarketAttempt)
    {since asOf : UtcDatetime}
    (hlater : ∀ attempt ∈ attempts, attempt.call.ReceivedAfter since) (hasOf : asOf ≤ since)
    (provider symbol timeframe : String) (limit : Int) (finalOnly : Bool) :
    ((db.afterAttempts attempts).latestQuote provider symbol (some asOf) =
        db.latestQuote provider symbol (some asOf) ∧
      (db.afterAttempts attempts).bars provider symbol timeframe limit (some asOf) finalOnly =
        db.bars provider symbol timeframe limit (some asOf) finalOnly) ∧
    (∀ quote, db.latestQuote provider symbol (some asOf) = some (some quote) →
      quote.receivedAt ≤ asOf) ∧
    ∀ out, db.bars provider symbol timeframe limit (some asOf) finalOnly = some out →
      ∀ bar ∈ out, bar.receivedAt ≤ asOf := by
  have hextends : MarketDb.Extends since db (db.afterAttempts attempts) :=
    db.afterAttempts_extends hlater
  refine ⟨⟨?_, ?_⟩, ?_, ?_⟩
  · unfold MarketDb.latestQuote
    rw [MarketDb.quoteRows_extends hextends hasOf]
  · unfold MarketDb.bars
    rw [MarketDb.barRows_extends hextends hasOf]
  · intro quote hquote
    exact MarketDb.latestQuote_seen hquote
  · intro out hout bar hbar
    exact MarketDb.bars_seen hout hbar

end NoLookahead

section Sample

/-- The digests of the sample observations. -/
def sampleDigests : List (String × String) :=
  [("fixture-market\x1fACME\x1f1m\x1f2026-07-18T12:00:00.000000+00:00\x1f" ++
      "2026-07-18T12:01:00.000000+00:00\x1f100.5\x1f101.5\x1f100\x1f101\x1f1000\x1fTrue",
    "4de9fd6a4ecd1cd951e0227631e543958ff9dcf13a7222de259cb0b7b662604d"),
   ("fixture-market\x1fACME\x1f1m\x1f2026-07-18T12:00:00.000000+00:00\x1f" ++
      "2026-07-18T12:01:00.000000+00:00\x1f100.5\x1f101.5\x1f100\x1f101.4\x1f1000\x1fTrue",
    "4bf59452e9a091cf0023eaf752c1d1766e16d02bd13fe5a004f729c84049512b"),
   ("fixture-market\x1fACME\x1f\x1f2026-07-18T12:00:00.000000+00:00\x1f" ++
      "100.9\x1f101.1\x1f101",
    "47cdac6bb3ad47e765b7017b51ed5250147abe34ebc699706caa2eee68f99d5c"),
   ("fixture-market\x1fACME\x1f\x1f2026-07-18T12:00:00.000000+00:00\x1f" ++
      "100.9\x1f101.1\x1f101.05",
    "a46fe93ec205393338afae1ce9863b385071b612f395dcc707893a030f1bda92")]

/-- SHA-256 on the sample observations. -/
@[reducible] def sampleDigest : Digest where
  sha256 text := ((sampleDigests.find? (fun entry => entry.1 = text)).map Prod.snd).getD ""

/-- Noon of 2026-07-18. -/
def sampleNoon : UtcDatetime := 1784376000000000

/-- The bar of the minute after noon, with a given close in cents, as received
a number of seconds after noon. -/
def sampleBarFields (cents : Int) (seconds : Int) : MarketBarFields where
  id := 1
  traceId := 2
  provider := "fixture-market"
  symbol := "ACME"
  timeframe := MarketTimeframe.oneMinute
  timestamp := sampleNoon
  barEndAt := sampleNoon + 60000000
  receivedAt := sampleNoon + seconds * 1000000
  processedAt := sampleNoon + seconds * 1000000
  «open» := ⟨10050, -2⟩
  high := ⟨10150, -2⟩
  low := ⟨10000, -2⟩
  close := ⟨cents, -2⟩
  volume := some 1000

theorem sampleBarFields_accepted (seconds : Int) : (sampleBarFields 10100 seconds).Accepted := by
  have h : (sampleBarFields 10100 0).Accepted := by decide +kernel
  exact h

theorem sampleCorrectionFields_accepted (seconds : Int) :
    (sampleBarFields 10140 seconds).Accepted := by
  have h : (sampleBarFields 10140 0).Accepted := by decide +kernel
  exact h

/-- The bar as first received. -/
def sampleBar (seconds : Int) : MarketBar :=
  ⟨sampleBarFields 10100 seconds, sampleBarFields_accepted seconds⟩

/-- The bar with its close corrected. -/
def sampleCorrection (seconds : Int) : MarketBar :=
  ⟨sampleBarFields 10140 seconds, sampleCorrectionFields_accepted seconds⟩

/-- A quote of noon, as received a number of seconds after it. -/
def sampleQuoteFields (seconds : Int) : MarketQuoteFields where
  id := 3
  traceId := 4
  symbol := "ACME"
  bid := some ⟨10090, -2⟩
  ask := some ⟨10110, -2⟩
  last := some ⟨10100, -2⟩
  providerTimestamp := some sampleNoon
  receivedAt := sampleNoon + seconds * 1000000
  processedAt := sampleNoon + seconds * 1000000
  provider := "fixture-market"

theorem sampleQuoteFields_accepted (seconds : Int) : (sampleQuoteFields seconds).Accepted := by
  have h : (sampleQuoteFields 0).Accepted := by decide +kernel
  exact h

def sampleQuote (seconds : Int) : MarketQuote :=
  ⟨sampleQuoteFields seconds, sampleQuoteFields_accepted seconds⟩

end Sample

/-- A correction after two minutes does not change what was read as of one,
whether the quote that follows it is committed or fails. -/
theorem reads_ignore_later_correction :
    let _ : CharacterTables := asciiTables
    let _ : Digest := sampleDigest
    let before := MarketDb.empty.afterAttempts
      [⟨.saveBars [sampleBar 60], false⟩, ⟨.saveQuote (sampleQuote 60), false⟩]
    let after := before.afterAttempts
      [⟨.saveBars [sampleCorrection 120], false⟩, ⟨.saveQuote (sampleQuote 180), true⟩]
    after.latestQuote "fixture-market" "acme" (some (sampleNoon + 60000000)) =
        before.latestQuote "fixture-market" "acme" (some (sampleNoon + 60000000)) ∧
      after.bars "fixture-market" "acme" "1m" 10 (some (sampleNoon + 60000000)) true =
        before.bars "fixture-market" "acme" "1m" 10 (some (sampleNoon + 60000000)) true := by
  intro _ _ before
  have hlater : ∀ attempt ∈ [(⟨.saveBars [sampleCorrection 120], false⟩ : MarketAttempt),
      ⟨.saveQuote (sampleQuote 180), true⟩],
      attempt.call.ReceivedAfter (sampleNoon + 60000000) := by
    simp [MarketCall.ReceivedAfter, sampleCorrection, sampleQuote, sampleBarFields,
      sampleQuoteFields]
  exact (reads_ignore_later before _ hlater le_rfl "fixture-market" "acme" "1m" 10 true).1

end EventAlpha
