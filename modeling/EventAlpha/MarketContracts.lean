import EventAlpha.CivilTime
import EventAlpha.Contracts
import EventAlpha.Decimals
import EventAlpha.TitleFingerprint

/-!
# Market contracts

The provider-neutral observations of the market pipeline, `MarketBar` and
`MarketQuote`, with the checks their constructors make, and the content
fingerprints by which the store recognises a redelivery.

A fingerprint is the SHA-256 digest of the observation's content, joined with
the unit separator.  It leaves out the identifiers and every moment of
receipt.

Prices are finite decimals and are compared by the numbers they denote.
-/

namespace EventAlpha

/-- The width of a bar. -/
inductive MarketTimeframe
  | oneMinute
  | fiveMinutes
  | fifteenMinutes
  | oneHour
  | oneDay
  deriving DecidableEq, Repr

/-- The text of a timeframe. -/
def MarketTimeframe.value : MarketTimeframe → String
  | oneMinute => "1m"
  | fiveMinutes => "5m"
  | fifteenMinutes => "15m"
  | oneHour => "1h"
  | oneDay => "1d"

/-- The timeframe a text names, if it names one. -/
def MarketTimeframe.ofText? (text : String) : Option MarketTimeframe :=
  [oneMinute, fiveMinutes, fifteenMinutes, oneHour, oneDay].find? (fun t => t.value = text)

@[simp] theorem MarketTimeframe.ofText?_value (timeframe : MarketTimeframe) :
    ofText? timeframe.value = some timeframe := by
  cases timeframe <;> decide

/-- How well a provider serves at present. -/
inductive ProviderStatus
  | healthy
  | degraded
  | unavailable
  deriving DecidableEq, Repr

/-- The stored text of a status. -/
def ProviderStatus.value : ProviderStatus → String
  | healthy => "healthy"
  | degraded => "degraded"
  | unavailable => "unavailable"

section Symbols

/-- The pattern `^[A-Z.]{1,12}$` of a symbol. -/
def isSymbol (text : String) : Bool :=
  1 ≤ text.length && text.length ≤ 12 &&
    text.toList.all (fun c => ('A' ≤ c && c ≤ 'Z') || c = '.')

/-- `str.upper()`. -/
def upper [CharacterTables] (text : String) : String :=
  String.ofList (text.toList.flatMap CharacterTables.upper)

/-- The characters of a symbol are their own upper case. -/
theorem upper_symbol_char [CharacterTables] {c : Char}
    (h : ('A' ≤ c && c ≤ 'Z') || c = '.') : CharacterTables.upper c = [c] := by
  have htable : ∀ n : Fin 128,
      (('A' ≤ Char.ofNat n && Char.ofNat n ≤ 'Z') || Char.ofNat n = '.') = true →
        (Char.ofNat n).toUpper = Char.ofNat n := by
    decide
  have hascii : c.toNat < 128 := by
    simp only [Bool.or_eq_true, Bool.and_eq_true, decide_eq_true_eq] at h
    rcases h with ⟨-, hle⟩ | rfl
    · exact lt_of_le_of_lt hle (by decide)
    · decide
  have hself := htable ⟨c.toNat, hascii⟩
  simp only [Char.ofNat_toNat] at hself
  rw [CharacterTables.upper_ascii c hascii, hself h]

/-- A symbol is in upper case. -/
theorem upper_of_isSymbol [CharacterTables] {text : String} (h : isSymbol text = true) :
    upper text = text := by
  have hchar : ∀ c ∈ text.toList, CharacterTables.upper c = [c] := by
    intro c hc
    rw [isSymbol, Bool.and_eq_true, List.all_eq_true] at h
    exact upper_symbol_char (h.2 c hc)
  rw [upper, List.flatMap_congr hchar]
  simp

end Symbols

section Bars

/-- The fields of a bar, before validation. -/
structure MarketBarFields where
  id : Uuid
  traceId : Uuid
  provider : String
  nativeId : Option String := none
  symbol : String
  timeframe : MarketTimeframe
  timestamp : UtcDatetime
  barEndAt : UtcDatetime
  providerUpdatedAt : Option UtcDatetime := none
  receivedAt : UtcDatetime
  processedAt : UtcDatetime
  isFinal : Bool := true
  «open» : Decimal
  high : Decimal
  low : Decimal
  close : Decimal
  volume : Option Int := none
  deriving DecidableEq

/-- The field constraints of the `MarketBar` contract and its
`validate_ohlc_bounds`. -/
def MarketBarFields.Accepted (bar : MarketBarFields) : Prop :=
  (1 ≤ bar.provider.length ∧ bar.provider.length ≤ 100) ∧ FitsWithin 500 bar.nativeId ∧
  isSymbol bar.symbol = true ∧
  (0 < bar.open.value ∧ 0 < bar.high.value ∧ 0 < bar.low.value ∧ 0 < bar.close.value) ∧
  (∀ volume ∈ bar.volume, 0 ≤ volume) ∧
  ¬bar.barEndAt ≤ bar.timestamp ∧
  ¬(bar.high.value < max bar.open.value bar.close.value ∨
    min bar.open.value bar.close.value < bar.low.value) ∧
  ¬bar.high.value < bar.low.value

instance MarketBarFields.decidableAccepted (bar : MarketBarFields) : Decidable bar.Accepted := by
  unfold MarketBarFields.Accepted; infer_instance

/-- A provider-neutral OHLCV bar. -/
structure MarketBar extends MarketBarFields where
  accepted : toMarketBarFields.Accepted
  deriving DecidableEq

/-- A bar is given by its fields. -/
theorem MarketBar.eq_of_fields {bar bar' : MarketBar}
    (h : bar.toMarketBarFields = bar'.toMarketBarFields) : bar = bar' := by
  cases bar
  cases bar'
  cases h
  rfl

/-- The contract's constructor: the validated bar, or nothing. -/
def MarketBar.validate (fields : MarketBarFields) : Option MarketBar :=
  if h : fields.Accepted then some ⟨fields, h⟩ else none

theorem MarketBar.fields_of_validate {fields : MarketBarFields} {bar : MarketBar}
    (h : validate fields = some bar) : bar.toMarketBarFields = fields := by
  obtain ⟨_, hbar⟩ := Option.dite_none_right_eq_some.mp h
  rw [← Option.some.inj hbar]

theorem MarketBar.validate_of_accepted {fields : MarketBarFields} (h : fields.Accepted) :
    validate fields = some ⟨fields, h⟩ :=
  dif_pos h

/-- What a correction of a bar may change: the numbers its prices denote, and
its volume. -/
structure Ohlcv where
  «open» : ℚ
  high : ℚ
  low : ℚ
  close : ℚ
  volume : Option Int
  deriving DecidableEq

def MarketBarFields.ohlcv (bar : MarketBarFields) : Ohlcv where
  «open» := bar.open.value
  high := bar.high.value
  low := bar.low.value
  close := bar.close.value
  volume := bar.volume

end Bars

section Quotes

/-- The fields of a quote, before validation. -/
structure MarketQuoteFields where
  id : Uuid
  traceId : Uuid
  symbol : String
  nativeId : Option String := none
  bid : Option Decimal := none
  ask : Option Decimal := none
  last : Option Decimal := none
  providerTimestamp : Option UtcDatetime
  receivedAt : UtcDatetime
  processedAt : UtcDatetime
  provider : String
  deriving DecidableEq

/-- A price that is absent or positive. -/
def AbsentOrPositive (price : Option Decimal) : Prop := ∀ p ∈ price, 0 < p.value

instance AbsentOrPositive.decidable (price : Option Decimal) : Decidable (AbsentOrPositive price) := by
  unfold AbsentOrPositive; infer_instance

/-- The field constraints of the `MarketQuote` contract and its
`validate_spread`. -/
def MarketQuoteFields.Accepted (quote : MarketQuoteFields) : Prop :=
  isSymbol quote.symbol = true ∧ FitsWithin 500 quote.nativeId ∧
  AbsentOrPositive quote.bid ∧ AbsentOrPositive quote.ask ∧ AbsentOrPositive quote.last ∧
  (∀ bid ∈ quote.bid, ∀ ask ∈ quote.ask, ¬ask.value < bid.value) ∧
  ¬(quote.bid = none ∧ quote.ask = none ∧ quote.last = none)

instance MarketQuoteFields.decidableAccepted (quote : MarketQuoteFields) : Decidable quote.Accepted := by
  unfold MarketQuoteFields.Accepted; infer_instance

/-- A quote with at least one price. -/
structure MarketQuote extends MarketQuoteFields where
  accepted : toMarketQuoteFields.Accepted
  deriving DecidableEq

/-- The contract's constructor: the validated quote, or nothing. -/
def MarketQuote.validate (fields : MarketQuoteFields) : Option MarketQuote :=
  if h : fields.Accepted then some ⟨fields, h⟩ else none

theorem MarketQuote.fields_of_validate {fields : MarketQuoteFields} {quote : MarketQuote}
    (h : validate fields = some quote) : quote.toMarketQuoteFields = fields := by
  obtain ⟨_, hquote⟩ := Option.dite_none_right_eq_some.mp h
  rw [← Option.some.inj hquote]

theorem MarketQuote.validate_of_accepted {fields : MarketQuoteFields} (h : fields.Accepted) :
    validate fields = some ⟨fields, h⟩ :=
  dif_pos h

/-- The moment from which a quote is effective. -/
def MarketQuoteFields.effectiveTime (quote : MarketQuoteFields) : UtcDatetime :=
  quote.providerTimestamp.getD quote.receivedAt

/-- The numbers the prices of a quote denote. -/
structure QuotePrices where
  bid : Option ℚ
  ask : Option ℚ
  last : Option ℚ
  deriving DecidableEq

def MarketQuoteFields.prices (quote : MarketQuoteFields) : QuotePrices where
  bid := quote.bid.map Decimal.value
  ask := quote.ask.map Decimal.value
  last := quote.last.map Decimal.value

end Quotes

section Fingerprints

/-- The arithmetic context of the program: the default one. -/
def decimalContext : Decimal.Context := ⟨28, 999999, -999999⟩

/-- `_decimal_text`.  A price beyond the arithmetic context raises. -/
def decimalText : Option Decimal → Option String
  | none => some "null"
  | some price => (price.normalize decimalContext).map Decimal.fixedText

/-- `_time_text`. -/
def timeText : Option UtcDatetime → String
  | none => "null"
  | some instant => CivilTime.isoformatMicroseconds instant

/-- The text of a volume.  The `str` of an integer of more than 4300 digits
raises. -/
def volumeText : Option Int → Option String
  | none => some "null"
  | some volume => if Decimal.digits volume.natAbs ≤ 4300 then some (toString volume) else none

/-- `str` of a truth value. -/
def boolText : Bool → String
  | true => "True"
  | false => "False"

variable [Digest]

/-- `_fingerprint`. -/
def fingerprint (parts : List String) : String :=
  Digest.sha256 (String.intercalate "\x1f" parts)

/-- The content of a quote, in the order in which it is fingerprinted. -/
def quoteParts (quote : MarketQuote) : Option (List String) := do
  let bid ← decimalText quote.bid
  let ask ← decimalText quote.ask
  let last ← decimalText quote.last
  return [quote.provider, quote.symbol, orElseText quote.nativeId "",
    timeText (some quote.effectiveTime), bid, ask, last]

/-- The content fingerprint of a quote. -/
def quoteFingerprint (quote : MarketQuote) : Option String :=
  (quoteParts quote).map fingerprint

/-- The content of a bar, in the order in which it is fingerprinted. -/
def barParts (bar : MarketBar) : Option (List String) := do
  let «open» ← decimalText (some bar.open)
  let high ← decimalText (some bar.high)
  let low ← decimalText (some bar.low)
  let close ← decimalText (some bar.close)
  let volume ← volumeText bar.volume
  return [bar.provider, bar.symbol, bar.timeframe.value, timeText (some bar.timestamp),
    timeText (some bar.barEndAt), «open», high, low, close,
    volume, boolText bar.isFinal]

/-- The content fingerprint of a bar. -/
def barFingerprint (bar : MarketBar) : Option String :=
  (barParts bar).map fingerprint

end Fingerprints

end EventAlpha
