import EventAlpha.DecimalTexts
import EventAlpha.InstantTexts
import EventAlpha.JoinedTexts
import EventAlpha.PointInTimeReads

/-!
# Which observations share a fingerprint

The fields of an observation are joined with the unit separator before they are
hashed.  All but the provider and the native identifier are plain, so a bar is
given back by its text up to the rounding of its prices
(`sameFingerprint_bars_iff`), and a quote up to that, to a separator inside its
provider or its native identifier, and to an empty native identifier
(`sameFingerprint_quotes_iff`).  What this leaves of "one fingerprint, one
observation" is `fingerprint_identifies_iff`.
-/

namespace EventAlpha

open JoinedTexts

section Fields

/-- The character between the fields of a fingerprinted text. -/
def unitSeparator : Char := '\x1f'

theorem unitSeparator_notMem {text : List Char} (h : ∀ c ∈ text, ' ' < c) :
    unitSeparator ∉ text :=
  fun hmem => absurd (h unitSeparator hmem) (by decide)

theorem plain_timeText (instant : UtcDatetime) :
    unitSeparator ∉ (timeText (some instant)).toList :=
  unitSeparator_notMem (fun _ hc => CivilTime.lt_of_mem_isoformatMicroseconds hc)

theorem plain_symbol {symbol : String} (h : isSymbol symbol = true) :
    unitSeparator ∉ symbol.toList := by
  intro hmem
  rw [isSymbol, Bool.and_eq_true, List.all_eq_true] at h
  exact absurd (h.2 unitSeparator hmem) (by decide)

theorem plain_timeframe (timeframe : MarketTimeframe) :
    unitSeparator ∉ timeframe.value.toList := by
  cases timeframe <;> decide

theorem plain_boolText (b : Bool) : unitSeparator ∉ (boolText b).toList := by
  cases b <;> decide

theorem boolText_inj {b b' : Bool} (h : boolText b = boolText b') : b = b' := by
  revert h
  cases b <;> cases b' <;> decide

theorem timeframe_value_inj {timeframe timeframe' : MarketTimeframe}
    (h : timeframe.value = timeframe'.value) : timeframe = timeframe' := by
  have hread := congrArg MarketTimeframe.ofText? h
  rwa [MarketTimeframe.ofText?_value, MarketTimeframe.ofText?_value, Option.some.injEq] at hread

end Fields

section Volumes

variable {volume volume' : Option Int} {text text' : String}

/-- The volumes whose digits the interpreter writes. -/
def VolumeWritten (volume : Option Int) : Prop :=
  ∀ v ∈ volume, Decimal.digits v.natAbs ≤ 4300

theorem volumeText_eq_some_iff : (∃ text, volumeText volume = some text) ↔ VolumeWritten volume := by
  cases volume with
  | none => simp [volumeText, VolumeWritten]
  | some volume => simp [volumeText, VolumeWritten]

/-- The text of a volume that is given has digits only. -/
theorem toList_volumeText {volume : Int} (hvolume : 0 ≤ volume)
    (h : volumeText (some volume) = some text) :
    text.toList = Nat.toDigits 10 volume.natAbs := by
  obtain ⟨-, htext⟩ := Option.ite_none_right_eq_some.mp h
  rw [← Option.some.inj htext, DigitTexts.toList_toString hvolume]

theorem plain_volumeText (hvolume : ∀ v ∈ volume, 0 ≤ v) (h : volumeText volume = some text) :
    unitSeparator ∉ text.toList := by
  cases volume with
  | none =>
    cases h
    decide
  | some volume =>
    rw [toList_volumeText (hvolume volume rfl) h]
    exact unitSeparator_notMem (fun _ hc => DigitTexts.lt_of_isDigit (DigitTexts.isDigit_of_mem hc))

/-- Digits are not the text of an absent number. -/
theorem toDigits_ne_null (n : ℕ) : Nat.toDigits 10 n ≠ "null".toList := by
  intro h
  have hmem : 'n' ∈ Nat.toDigits 10 n := by
    rw [h]
    decide
  exact absurd (DigitTexts.isDigit_of_mem hmem) (by decide)

theorem volumeText_inj (hvolume : ∀ v ∈ volume, 0 ≤ v) (hvolume' : ∀ v ∈ volume', 0 ≤ v)
    (h : volumeText volume = some text) (h' : volumeText volume' = some text) :
    volume = volume' := by
  cases volume with
  | none =>
    cases h
    cases volume' with
    | none => rfl
    | some volume' => exact absurd (toList_volumeText (hvolume' _ rfl) h').symm (toDigits_ne_null _)
  | some volume =>
    have hdigits := toList_volumeText (hvolume volume rfl) h
    cases volume' with
    | none =>
      cases h'
      exact absurd hdigits.symm (toDigits_ne_null _)
    | some volume' =>
      have hnat := DigitTexts.toDigits_inj (hdigits.symm.trans (toList_volumeText (hvolume' _ rfl) h'))
      have hnonneg := hvolume volume rfl
      have hnonneg' := hvolume' volume' rfl
      rw [Option.some.injEq]
      omega

end Volumes

section Prices

variable {price price' : Option Decimal} {text text' : String}

/-- The number to which a price is rounded before it is written. -/
def roundedPrice (price : Decimal) : ℚ := decimalContext.rounded price.value

/-- A price that is not too great for the arithmetic context. -/
def WithinContext (price : Option Decimal) : Prop :=
  ∀ p ∈ price, roundedPrice p < 10 ^ (decimalContext.emax + 1)

theorem decimalText_eq_some_iff (hprice : AbsentOrPositive price) :
    (∃ text, decimalText price = some text) ↔ WithinContext price := by
  cases price with
  | none => simp [decimalText, WithinContext]
  | some price =>
    have hnormalize := Decimal.normalize_isSome_iff decimalContext (hprice price rfl)
    have hwithin : WithinContext (some price) ↔
        decimalContext.rounded price.value < 10 ^ (decimalContext.emax + 1) := by
      simp only [WithinContext, roundedPrice, Option.mem_def, Option.some.injEq, forall_eq']
    rw [hwithin, ← hnormalize]
    simp [decimalText, Option.map_eq_some_iff]

/-- The text of a price is that of a canonical decimal. -/
theorem decimalText_some {price : Decimal} (hprice : 0 < price.value)
    (h : decimalText (some price) = some text) :
    ∃ r : Decimal,
      price.normalize decimalContext = some r ∧ r.Canonical ∧ text = r.fixedText := by
  obtain ⟨r, hr, htext⟩ := Option.map_eq_some_iff.mp h
  exact ⟨r, hr, (Decimal.of_normalize_eq_some hprice hr).1, htext.symm⟩

theorem plain_decimalText (hprice : AbsentOrPositive price) (h : decimalText price = some text) :
    unitSeparator ∉ text.toList := by
  cases price with
  | none =>
    cases h
    decide
  | some price =>
    obtain ⟨r, -, hcanonical, rfl⟩ := decimalText_some (hprice price rfl) h
    refine unitSeparator_notMem (fun c hc => ?_)
    rcases Decimal.mem_fixedText hcanonical.1 hc with hdigit | rfl
    · exact DigitTexts.lt_of_isDigit hdigit
    · decide

theorem fixedText_ne_null {r : Decimal} (h : r.Canonical) : r.fixedText ≠ "null" := by
  intro hnull
  have hmem : 'n' ∈ r.fixedText.toList := by
    rw [hnull]
    decide
  rcases Decimal.mem_fixedText h.1 hmem with hdigit | hpoint
  · exact absurd hdigit (by decide)
  · exact absurd hpoint (by decide)

/-- Two prices are written alike when they are rounded alike. -/
theorem decimalText_eq_iff (hprice : AbsentOrPositive price) (hprice' : AbsentOrPositive price')
    (h : decimalText price = some text) (h' : decimalText price' = some text') :
    text = text' ↔ price.map roundedPrice = price'.map roundedPrice := by
  cases price with
  | none =>
    cases h
    cases price' with
    | none =>
      cases h'
      simp
    | some price' =>
      obtain ⟨r', -, hcanonical', rfl⟩ := decimalText_some (hprice' price' rfl) h'
      exact iff_of_false (fixedText_ne_null hcanonical').symm (by simp)
  | some price =>
    obtain ⟨r, hr, hcanonical, rfl⟩ := decimalText_some (hprice price rfl) h
    cases price' with
    | none =>
      cases h'
      exact iff_of_false (fixedText_ne_null hcanonical) (by simp)
    | some price' =>
      obtain ⟨r', hr', hcanonical', rfl⟩ := decimalText_some (hprice' price' rfl) h'
      rw [Option.map_some, Option.map_some, Option.some.injEq, roundedPrice, roundedPrice,
        ← Decimal.normalize_eq_iff (hprice price rfl) (hprice' price' rfl) hr hr']
      constructor
      · intro htext
        exact hcanonical.eq_of_fixedText_eq hcanonical' htext
      · intro hsame
        rw [hsame]

theorem absentOrPositive_some {price : Decimal} (h : 0 < price.value) :
    AbsentOrPositive (some price) := by
  intro p hp
  rwa [← Option.mem_some_iff.mp hp]

/-- Two prices with one text. -/
def WrittenAlike (price price' : Option Decimal) : Prop :=
  ∃ text, decimalText price = some text ∧ decimalText price' = some text

theorem writtenAlike_iff (hprice : AbsentOrPositive price) (hprice' : AbsentOrPositive price') :
    WrittenAlike price price' ↔
      WithinContext price ∧ price.map roundedPrice = price'.map roundedPrice := by
  constructor
  · intro hex
    obtain ⟨text, h, h'⟩ := hex
    exact ⟨(decimalText_eq_some_iff hprice).mp ⟨text, h⟩,
      (decimalText_eq_iff hprice hprice' h h').mp rfl⟩
  · intro hex
    obtain ⟨hwithin, hrounded⟩ := hex
    obtain ⟨text, h⟩ := (decimalText_eq_some_iff hprice).mpr hwithin
    have hwithin' : WithinContext price' := by
      intro p' hp'
      rw [Option.mem_def.mp hp', Option.map_some] at hrounded
      obtain ⟨p, hp, heq⟩ := Option.map_eq_some_iff.mp hrounded
      rw [← heq]
      exact hwithin p hp
    obtain ⟨text', h'⟩ := (decimalText_eq_some_iff hprice').mpr hwithin'
    refine ⟨text, h, ?_⟩
    rw [(decimalText_eq_iff hprice hprice' h h').mpr hrounded, h']

/-- Equal numbers are rounded alike. -/
theorem map_roundedPrice_eq (h : price.map Decimal.value = price'.map Decimal.value) :
    price.map roundedPrice = price'.map roundedPrice := by
  have hcompose := congrArg (Option.map decimalContext.rounded) h
  rwa [Option.map_map, Option.map_map] at hcompose

end Prices

section Same

variable [Digest]

/-- Two fingerprints were taken, and are equal. -/
def SameFingerprint (taken taken' : Option String) : Prop :=
  ∃ text, taken = some text ∧ taken' = some text

/-- Without collisions, equal fingerprints are those of equal fields. -/
theorem sameFingerprint_iff (hsha : Function.Injective Digest.sha256)
    (parts parts' : Option (List String)) :
    SameFingerprint (parts.map fingerprint) (parts'.map fingerprint) ↔
      ∃ fields fields', parts = some fields ∧ parts' = some fields' ∧
        [unitSeparator].intercalate (fields.map String.toList) =
          [unitSeparator].intercalate (fields'.map String.toList) := by
  have hjoin : ∀ fields : List String, (String.intercalate "\x1f" fields).toList =
      [unitSeparator].intercalate (fields.map String.toList) :=
    fun fields => String.toList_intercalate
  constructor
  · intro hex
    obtain ⟨text, h, h'⟩ := hex
    obtain ⟨fields, hfields, htext⟩ := Option.map_eq_some_iff.mp h
    obtain ⟨fields', hfields', htext'⟩ := Option.map_eq_some_iff.mp h'
    refine ⟨fields, fields', hfields, hfields', ?_⟩
    rw [← hjoin, ← hjoin, hsha (htext.trans htext'.symm)]
  · intro hex
    obtain ⟨fields, fields', rfl, rfl, htext⟩ := hex
    rw [← hjoin, ← hjoin, String.toList_inj] at htext
    refine ⟨fingerprint fields, rfl, ?_⟩
    rw [Option.map_some, fingerprint, fingerprint, htext]

end Same

section Quotes

/-- The text of a native identifier. -/
def MarketQuoteFields.nativeText (quote : MarketQuoteFields) : String :=
  orElseText quote.nativeId ""

/-- The numbers to which the prices of a quote are rounded. -/
def MarketQuoteFields.roundedPrices (quote : MarketQuoteFields) : QuotePrices where
  bid := quote.bid.map roundedPrice
  ask := quote.ask.map roundedPrice
  last := quote.last.map roundedPrice

/-- A quote whose prices are not too great for the arithmetic context. -/
def MarketQuoteFields.Written (quote : MarketQuoteFields) : Prop :=
  WithinContext quote.bid ∧ WithinContext quote.ask ∧ WithinContext quote.last

/-- Two quotes of one provider and symbol, with one text of the native
identifier. -/
def MarketQuoteFields.SameOrigin (quote quote' : MarketQuoteFields) : Prop :=
  quote.provider = quote'.provider ∧ quote.symbol = quote'.symbol ∧
  quote.nativeText = quote'.nativeText

/-- The provider of the second quote takes over the provider and the symbol of
the first, and a piece of its native identifier, over a unit separator. -/
def MarketQuoteFields.ShiftsTo (quote quote' : MarketQuoteFields) : Prop :=
  ∃ piece : String,
    quote'.provider ++ "\x1f" = quote.provider ++ "\x1f" ++ quote.symbol ++ "\x1f" ++ piece ∧
    quote.nativeText = piece ++ quote'.symbol ++ "\x1f" ++ quote'.nativeText

theorem MarketQuoteFields.shiftsTo_iff {quote quote' : MarketQuoteFields} :
    quote.ShiftsTo quote' ↔ Shifted unitSeparator quote.provider.toList quote.symbol.toList
      quote.nativeText.toList quote'.provider.toList quote'.symbol.toList
      quote'.nativeText.toList := by
  have hunit : "\x1f".toList = [unitSeparator] := rfl
  constructor
  · intro hex
    obtain ⟨piece, hprovider, hnative⟩ := hex
    refine ⟨piece.toList, ?_, ?_⟩
    · simpa [hunit] using congrArg String.toList hprovider
    · simpa [hunit] using congrArg String.toList hnative
  · intro hex
    obtain ⟨piece, hprovider, hnative⟩ := hex
    refine ⟨String.ofList piece, ?_, ?_⟩
    · rw [← String.toList_inj]
      simpa [hunit] using hprovider
    · rw [← String.toList_inj]
      simpa [hunit] using hnative

theorem MarketQuoteFields.ShiftsTo.provider_ne {quote quote' : MarketQuoteFields}
    (h : quote.ShiftsTo quote') : quote.provider ≠ quote'.provider := by
  intro heq
  have hlt := (shiftsTo_iff.mp h).length_lt
  rw [heq] at hlt
  exact absurd hlt (lt_irrefl _)

variable {quote quote' : MarketQuote}

theorem quoteParts_eq_some_iff {fields : List String} : quoteParts quote = some fields ↔
    ∃ bid ask last, decimalText quote.bid = some bid ∧ decimalText quote.ask = some ask ∧
      decimalText quote.last = some last ∧
      [quote.provider, quote.symbol, quote.nativeText,
        timeText (some quote.effectiveTime), bid, ask, last] = fields := by
  simp [quoteParts, Option.bind_eq_some_iff, MarketQuoteFields.nativeText]

/-- The joined fields of a quote: three texts of which only the symbol is plain,
before four plain ones. -/
theorem quoteText_eq (provider symbol native time bid ask last : List Char) :
    [unitSeparator].intercalate [provider, symbol, native, time, bid, ask, last] =
      (provider ++ unitSeparator :: (symbol ++ unitSeparator :: native)) ++
        unitSeparator :: [unitSeparator].intercalate [time, bid, ask, last] := by
  simp [List.intercalate_cons_cons]

/-- The two texts are one text. -/
theorem quoteParts_join_iff {bid ask last bid' ask' last' : String}
    (hbid : decimalText quote.bid = some bid) (hask : decimalText quote.ask = some ask)
    (hlast : decimalText quote.last = some last) (hbid' : decimalText quote'.bid = some bid')
    (hask' : decimalText quote'.ask = some ask') (hlast' : decimalText quote'.last = some last') :
    [unitSeparator].intercalate ([quote.provider, quote.symbol, quote.nativeText,
        timeText (some quote.effectiveTime), bid, ask, last].map String.toList) =
      [unitSeparator].intercalate ([quote'.provider, quote'.symbol, quote'.nativeText,
        timeText (some quote'.effectiveTime), bid', ask', last'].map String.toList) ↔
    (timeText (some quote.effectiveTime) = timeText (some quote'.effectiveTime) ∧
      bid = bid' ∧ ask = ask' ∧ last = last') ∧
    (quote.SameOrigin quote'.toMarketQuoteFields ∨ quote.ShiftsTo quote'.toMarketQuoteFields ∨
      quote'.ShiftsTo quote.toMarketQuoteFields) := by
  obtain ⟨hsymbol, -, hbidOk, haskOk, hlastOk, -⟩ := quote.accepted
  obtain ⟨hsymbol', -, hbidOk', haskOk', hlastOk', -⟩ := quote'.accepted
  have horigin : quote.provider.toList ++ unitSeparator ::
        (quote.symbol.toList ++ unitSeparator :: quote.nativeText.toList) =
      quote'.provider.toList ++ unitSeparator ::
        (quote'.symbol.toList ++ unitSeparator :: quote'.nativeText.toList) ↔
      quote.SameOrigin quote'.toMarketQuoteFields ∨ quote.ShiftsTo quote'.toMarketQuoteFields ∨
        quote'.ShiftsTo quote.toMarketQuoteFields := by
    rw [joined_three_iff (plain_symbol hsymbol) (plain_symbol hsymbol'),
      ← MarketQuoteFields.shiftsTo_iff, ← MarketQuoteFields.shiftsTo_iff, String.toList_inj,
      String.toList_inj, String.toList_inj]
    rfl
  have hplain : ∀ field ∈ [(timeText (some quote.effectiveTime)).toList, bid.toList, ask.toList,
      last.toList], unitSeparator ∉ field := by
    simp [plain_timeText, plain_decimalText hbidOk hbid, plain_decimalText haskOk hask,
      plain_decimalText hlastOk hlast]
  have hplain' : ∀ field ∈ [(timeText (some quote'.effectiveTime)).toList, bid'.toList,
      ask'.toList, last'.toList], unitSeparator ∉ field := by
    simp [plain_timeText, plain_decimalText hbidOk' hbid', plain_decimalText haskOk' hask',
      plain_decimalText hlastOk' hlast']
  simp only [List.map_cons, List.map_nil, quoteText_eq]
  constructor
  · intro h
    obtain ⟨hfree, hfields⟩ := append_intercalate_inj hplain hplain' (List.cons_ne_nil _ _)
      (by simp only [List.length_cons]) h
    simp only [List.cons.injEq, String.toList_inj, and_true] at hfields
    exact ⟨hfields, horigin.mp hfree⟩
  · intro hex
    obtain ⟨⟨htime, rfl, rfl, rfl⟩, hfree⟩ := hex
    rw [horigin.mpr hfree, htime]

/-- The prices of two quotes are written alike. -/
theorem MarketQuote.writtenAlike_iff :
    (WrittenAlike quote.bid quote'.bid ∧ WrittenAlike quote.ask quote'.ask ∧
      WrittenAlike quote.last quote'.last) ↔
    quote.Written ∧ quote.roundedPrices = quote'.roundedPrices := by
  obtain ⟨-, -, hbid, hask, hlast, -⟩ := quote.accepted
  obtain ⟨-, -, hbid', hask', hlast', -⟩ := quote'.accepted
  rw [EventAlpha.writtenAlike_iff hbid hbid', EventAlpha.writtenAlike_iff hask hask',
    EventAlpha.writtenAlike_iff hlast hlast']
  simp only [MarketQuoteFields.Written, MarketQuoteFields.roundedPrices, QuotePrices.mk.injEq]
  tauto

theorem MarketQuoteFields.roundedPrices_eq {quote quote' : MarketQuoteFields}
    (h : quote.prices = quote'.prices) : quote.roundedPrices = quote'.roundedPrices := by
  simp only [prices, QuotePrices.mk.injEq] at h
  simp only [roundedPrices, QuotePrices.mk.injEq]
  exact ⟨map_roundedPrice_eq h.1, map_roundedPrice_eq h.2.1, map_roundedPrice_eq h.2.2⟩

variable [Digest]

/-- Without collisions, two quotes share a fingerprint when they are rounded
alike and come from one origin, or from two that a separator confuses. -/
theorem sameFingerprint_quotes_iff (hsha : Function.Injective Digest.sha256)
    (hfirst : CivilTime.firstInstant ≤ quote.effectiveTime)
    (hfirst' : CivilTime.firstInstant ≤ quote'.effectiveTime) :
    SameFingerprint (quoteFingerprint quote) (quoteFingerprint quote') ↔
      (quote.Written ∧ quote.roundedPrices = quote'.roundedPrices) ∧
      quote.effectiveTime = quote'.effectiveTime ∧
      (quote.SameOrigin quote'.toMarketQuoteFields ∨ quote.ShiftsTo quote'.toMarketQuoteFields ∨
        quote'.ShiftsTo quote.toMarketQuoteFields) := by
  rw [quoteFingerprint, quoteFingerprint, sameFingerprint_iff hsha, ← MarketQuote.writtenAlike_iff]
  constructor
  · intro hex
    obtain ⟨fields, fields', hfields, hfields', hjoin⟩ := hex
    obtain ⟨bid, ask, last, hbid, hask, hlast, rfl⟩ := quoteParts_eq_some_iff.mp hfields
    obtain ⟨bid', ask', last', hbid', hask', hlast', rfl⟩ := quoteParts_eq_some_iff.mp hfields'
    obtain ⟨⟨htime, rfl, rfl, rfl⟩, horigin⟩ :=
      (quoteParts_join_iff hbid hask hlast hbid' hask' hlast').mp hjoin
    exact ⟨⟨⟨bid, hbid, hbid'⟩, ⟨ask, hask, hask'⟩, ⟨last, hlast, hlast'⟩⟩,
      CivilTime.isoformatMicroseconds_inj hfirst hfirst' htime, horigin⟩
  · intro hex
    obtain ⟨⟨⟨bid, hbid, hbid'⟩, ⟨ask, hask, hask'⟩, ⟨last, hlast, hlast'⟩⟩, htime, horigin⟩ := hex
    refine ⟨_, _, quoteParts_eq_some_iff.mpr ⟨bid, ask, last, hbid, hask, hlast, rfl⟩,
      quoteParts_eq_some_iff.mpr ⟨bid, ask, last, hbid', hask', hlast', rfl⟩, ?_⟩
    rw [quoteParts_join_iff hbid hask hlast hbid' hask' hlast', htime]
    exact ⟨⟨rfl, rfl, rfl, rfl⟩, horigin⟩

/-- Two quotes report one observation. -/
def MarketQuoteFields.Agrees (quote quote' : MarketQuoteFields) : Prop :=
  quote.provider = quote'.provider ∧ quote.symbol = quote'.symbol ∧
  quote.nativeId = quote'.nativeId ∧ quote.effectiveTime = quote'.effectiveTime ∧
  quote.prices = quote'.prices

/-- Two quotes that agree have prices the arithmetic context can write.  Two
quotes of one moment whose prices it rounds alike have one text of the native
identifier only if they have one native identifier and the same prices, and no
unit separator in a provider or a native identifier confuses them. -/
def MarketQuoteFields.ToldApart (quote quote' : MarketQuoteFields) : Prop :=
  (quote.Agrees quote' → quote.Written) ∧
  (quote.Written → quote.roundedPrices = quote'.roundedPrices →
    quote.effectiveTime = quote'.effectiveTime →
      (quote.SameOrigin quote' → quote.nativeId = quote'.nativeId ∧ quote.prices = quote'.prices) ∧
      ¬quote.ShiftsTo quote' ∧ ¬quote'.ShiftsTo quote)

/-- The fingerprints of two quotes identify the observation exactly if the
quotes are told apart. -/
theorem quotes_identified_iff (hsha : Function.Injective Digest.sha256)
    (hfirst : CivilTime.firstInstant ≤ quote.effectiveTime)
    (hfirst' : CivilTime.firstInstant ≤ quote'.effectiveTime) :
    (SameFingerprint (quoteFingerprint quote) (quoteFingerprint quote') ↔
      quote.Agrees quote'.toMarketQuoteFields) ↔
    quote.ToldApart quote'.toMarketQuoteFields := by
  rw [sameFingerprint_quotes_iff hsha hfirst hfirst']
  constructor
  · intro h
    refine ⟨fun hagrees => (h.mpr hagrees).1.1, fun hwritten hrounded htime => ?_⟩
    have hsame := fun horigin => h.mp ⟨⟨hwritten, hrounded⟩, htime, horigin⟩
    refine ⟨fun horigin => ?_, fun hshift => ?_, fun hshift => ?_⟩
    · obtain ⟨-, -, hnative, -, hprices⟩ := hsame (.inl horigin)
      exact ⟨hnative, hprices⟩
    · exact hshift.provider_ne (hsame (.inr (.inl hshift))).1
    · exact hshift.provider_ne (hsame (.inr (.inr hshift))).1.symm
  · intro hex
    obtain ⟨hcontext, hapart⟩ := hex
    constructor
    · intro hex
      obtain ⟨⟨hwritten, hrounded⟩, htime, horigin⟩ := hex
      obtain ⟨hsame, hnot, hnot'⟩ := hapart hwritten hrounded htime
      rcases horigin with horigin | hshift | hshift
      · obtain ⟨hnative, hprices⟩ := hsame horigin
        exact ⟨horigin.1, horigin.2.1, hnative, htime, hprices⟩
      · exact absurd hshift hnot
      · exact absurd hshift hnot'
    · intro hagrees
      have hwritten := hcontext hagrees
      obtain ⟨hprovider, hsymbol, hnative, htime, hprices⟩ := hagrees
      exact ⟨⟨hwritten, MarketQuoteFields.roundedPrices_eq hprices⟩, htime,
        .inl ⟨hprovider, hsymbol, congrArg (orElseText · "") hnative⟩⟩

end Quotes

section Bars

/-- The numbers to which the prices of a bar are rounded, and its volume. -/
def MarketBarFields.roundedOhlcv (bar : MarketBarFields) : Ohlcv where
  «open» := roundedPrice bar.open
  high := roundedPrice bar.high
  low := roundedPrice bar.low
  close := roundedPrice bar.close
  volume := bar.volume

/-- A bar whose prices and volume are not too great to be written. -/
def MarketBarFields.Written (bar : MarketBarFields) : Prop :=
  WithinContext (some bar.open) ∧ WithinContext (some bar.high) ∧ WithinContext (some bar.low) ∧
  WithinContext (some bar.close) ∧ VolumeWritten bar.volume

/-- Two bars of one provider, symbol, timeframe and interval, and of one
finality. -/
def MarketBarFields.SameInterval (bar bar' : MarketBarFields) : Prop :=
  bar.provider = bar'.provider ∧ bar.symbol = bar'.symbol ∧ bar.timeframe = bar'.timeframe ∧
  bar.timestamp = bar'.timestamp ∧ bar.barEndAt = bar'.barEndAt ∧ bar.isFinal = bar'.isFinal

/-- Two bars report one observation. -/
def MarketBarFields.Agrees (bar bar' : MarketBarFields) : Prop :=
  bar.SameInterval bar' ∧ bar.ohlcv = bar'.ohlcv

/-- Two bars that agree can be written, and two bars of one interval that are
rounded alike have the same prices. -/
def MarketBarFields.ToldApart (bar bar' : MarketBarFields) : Prop :=
  (bar.Agrees bar' → bar.Written) ∧
  (bar.Written → bar.roundedOhlcv = bar'.roundedOhlcv → bar.SameInterval bar' →
    bar.ohlcv = bar'.ohlcv)

variable {bar bar' : MarketBar}

theorem barParts_eq_some_iff {fields : List String} : barParts bar = some fields ↔
    ∃ «open» high low close volume, decimalText (some bar.open) = some «open» ∧
      decimalText (some bar.high) = some high ∧ decimalText (some bar.low) = some low ∧
      decimalText (some bar.close) = some close ∧ volumeText bar.volume = some volume ∧
      [bar.provider, bar.symbol, bar.timeframe.value, timeText (some bar.timestamp),
        timeText (some bar.barEndAt), «open», high, low, close, volume,
        boolText bar.isFinal] = fields := by
  simp [barParts, Option.bind_eq_some_iff]

/-- The fields of a bar: its provider before ten plain texts. -/
theorem barParts_plain {fields : List String} (h : barParts bar = some fields) :
    ∃ rest, fields = bar.provider :: rest ∧ rest.length = 10 ∧
      ∀ field ∈ rest.map String.toList, unitSeparator ∉ field := by
  obtain ⟨«open», high, low, close, volume, hopen, hhigh, hlow, hclose, hvolume, rfl⟩ :=
    barParts_eq_some_iff.mp h
  obtain ⟨-, -, hsymbol, ⟨hopenOk, hhighOk, hlowOk, hcloseOk⟩, hvolumeOk, -⟩ := bar.accepted
  have hprice : ∀ {price : Decimal} {text : String}, 0 < price.value →
      decimalText (some price) = some text → unitSeparator ∉ text.toList :=
    fun hpos htext => plain_decimalText (absentOrPositive_some hpos) htext
  refine ⟨_, rfl, rfl, ?_⟩
  simp [plain_symbol hsymbol, plain_timeframe, plain_timeText, hprice hopenOk hopen,
    hprice hhighOk hhigh, hprice hlowOk hlow, hprice hcloseOk hclose,
    plain_volumeText hvolumeOk hvolume, plain_boolText]

/-- The fields of a bar are given back by their join. -/
theorem barParts_join_inj {fields fields' : List String} (h : barParts bar = some fields)
    (h' : barParts bar' = some fields')
    (hjoin : [unitSeparator].intercalate (fields.map String.toList) =
      [unitSeparator].intercalate (fields'.map String.toList)) : fields = fields' := by
  obtain ⟨rest, rfl, hlength, hplain⟩ := barParts_plain h
  obtain ⟨rest', rfl, hlength', hplain'⟩ := barParts_plain h'
  have hne : ∀ {rest : List String}, rest.length = 10 → rest.map String.toList ≠ [] := by
    intro rest hlength hnil
    rw [List.map_eq_nil_iff.mp hnil] at hlength
    cases hlength
  have hcut : ∀ {rest : List String} (provider : String), rest.length = 10 →
      [unitSeparator].intercalate ((provider :: rest).map String.toList) =
        provider.toList ++ unitSeparator :: [unitSeparator].intercalate (rest.map String.toList) := by
    intro rest provider hlength
    rw [List.map_cons, List.intercalate_cons_of_ne_nil (hne hlength)]
    simp
  rw [hcut _ hlength, hcut _ hlength'] at hjoin
  obtain ⟨hprovider, hrest⟩ := append_intercalate_inj hplain hplain' (hne hlength)
    (by rw [List.length_map, List.length_map, hlength, hlength']) hjoin
  have htoList : Function.Injective String.toList := fun _ _ => String.toList_inj.mp
  rw [String.toList_inj.mp hprovider, List.map_injective_iff.mpr htoList hrest]

/-- The prices and the volumes of two bars are written alike. -/
theorem MarketBar.writtenAlike_iff :
    (WrittenAlike (some bar.open) (some bar'.open) ∧ WrittenAlike (some bar.high) (some bar'.high) ∧
      WrittenAlike (some bar.low) (some bar'.low) ∧
      WrittenAlike (some bar.close) (some bar'.close) ∧
      VolumeWritten bar.volume ∧ bar.volume = bar'.volume) ↔
    bar.Written ∧ bar.roundedOhlcv = bar'.roundedOhlcv := by
  obtain ⟨-, -, -, ⟨hopen, hhigh, hlow, hclose⟩, -⟩ := bar.accepted
  obtain ⟨-, -, -, ⟨hopen', hhigh', hlow', hclose'⟩, -⟩ := bar'.accepted
  have hprice : ∀ {price price' : Decimal}, 0 < price.value → 0 < price'.value →
      (WrittenAlike (some price) (some price') ↔
        WithinContext (some price) ∧ roundedPrice price = roundedPrice price') := by
    intro price price' hpos hpos'
    rw [EventAlpha.writtenAlike_iff (absentOrPositive_some hpos) (absentOrPositive_some hpos'),
      Option.map_some, Option.map_some, Option.some.injEq]
  rw [hprice hopen hopen', hprice hhigh hhigh', hprice hlow hlow', hprice hclose hclose']
  simp only [MarketBarFields.Written, MarketBarFields.roundedOhlcv, Ohlcv.mk.injEq]
  tauto

theorem MarketBarFields.roundedOhlcv_eq {bar bar' : MarketBarFields} (h : bar.ohlcv = bar'.ohlcv) :
    bar.roundedOhlcv = bar'.roundedOhlcv := by
  simp only [ohlcv, Ohlcv.mk.injEq] at h
  simp only [roundedOhlcv, roundedPrice, h]

variable [Digest]

/-- Without collisions, two bars share a fingerprint when they are of one
interval and rounded alike. -/
theorem sameFingerprint_bars_iff (hsha : Function.Injective Digest.sha256)
    (hfirst : CivilTime.firstInstant ≤ bar.timestamp)
    (hfirst' : CivilTime.firstInstant ≤ bar'.timestamp) :
    SameFingerprint (barFingerprint bar) (barFingerprint bar') ↔
      (bar.Written ∧ bar.roundedOhlcv = bar'.roundedOhlcv) ∧
      bar.SameInterval bar'.toMarketBarFields := by
  obtain ⟨-, -, -, -, hvolumeOk, hlater, -⟩ := bar.accepted
  obtain ⟨-, -, -, -, hvolumeOk', hlater', -⟩ := bar'.accepted
  rw [barFingerprint, barFingerprint, sameFingerprint_iff hsha, ← MarketBar.writtenAlike_iff]
  constructor
  · intro hex
    obtain ⟨fields, fields', hfields, hfields', hjoin⟩ := hex
    have hsame := barParts_join_inj hfields hfields' hjoin
    obtain ⟨«open», high, low, close, volume, hopen, hhigh, hlow, hclose, hvolume, rfl⟩ :=
      barParts_eq_some_iff.mp hfields
    obtain ⟨open', high', low', close', volume', hopen', hhigh', hlow', hclose', hvolume', rfl⟩ :=
      barParts_eq_some_iff.mp hfields'
    simp only [List.cons.injEq, and_true] at hsame
    obtain ⟨hprovider, hsymbol, htimeframe, hstart, hend, rfl, rfl, rfl, rfl, rfl, hfinal⟩ := hsame
    refine ⟨⟨⟨_, hopen, hopen'⟩, ⟨_, hhigh, hhigh'⟩, ⟨_, hlow, hlow'⟩, ⟨_, hclose, hclose'⟩,
      volumeText_eq_some_iff.mp ⟨_, hvolume⟩, volumeText_inj hvolumeOk hvolumeOk' hvolume hvolume'⟩,
      hprovider, hsymbol, timeframe_value_inj htimeframe,
      CivilTime.isoformatMicroseconds_inj hfirst hfirst' hstart,
      CivilTime.isoformatMicroseconds_inj (hfirst.trans (not_le.mp hlater).le)
        (hfirst'.trans (not_le.mp hlater').le) hend, boolText_inj hfinal⟩
  · intro hex
    obtain ⟨⟨⟨«open», hopen, hopen'⟩, ⟨high, hhigh, hhigh'⟩, ⟨low, hlow, hlow'⟩, ⟨close, hclose,
      hclose'⟩, hwritten, hvolume⟩, hprovider, hsymbol, htimeframe, hstart, hend, hfinal⟩ := hex
    obtain ⟨volume, hvolumeText⟩ := volumeText_eq_some_iff.mpr hwritten
    refine ⟨_, _, barParts_eq_some_iff.mpr ⟨«open», high, low, close, volume, hopen, hhigh, hlow,
      hclose, hvolumeText, rfl⟩, barParts_eq_some_iff.mpr ⟨«open», high, low, close, volume, hopen',
      hhigh', hlow', hclose', hvolume ▸ hvolumeText, rfl⟩, ?_⟩
    rw [hprovider, hsymbol, htimeframe, hstart, hend, hfinal]

/-- The fingerprints of two bars identify the observation exactly if the bars
are told apart. -/
theorem bars_identified_iff (hsha : Function.Injective Digest.sha256)
    (hfirst : CivilTime.firstInstant ≤ bar.timestamp)
    (hfirst' : CivilTime.firstInstant ≤ bar'.timestamp) :
    (SameFingerprint (barFingerprint bar) (barFingerprint bar') ↔
      bar.Agrees bar'.toMarketBarFields) ↔
    bar.ToldApart bar'.toMarketBarFields := by
  rw [sameFingerprint_bars_iff hsha hfirst hfirst']
  constructor
  · intro h
    exact ⟨fun hagrees => (h.mpr hagrees).1.1,
      fun hwritten hrounded hinterval => (h.mp ⟨⟨hwritten, hrounded⟩, hinterval⟩).2⟩
  · intro hex
    obtain ⟨hcontext, hapart⟩ := hex
    constructor
    · intro hex
      obtain ⟨⟨hwritten, hrounded⟩, hinterval⟩ := hex
      exact ⟨hinterval, hapart hwritten hrounded hinterval⟩
    · intro hagrees
      exact ⟨⟨hcontext hagrees, MarketBarFields.roundedOhlcv_eq hagrees.2⟩, hagrees.1⟩

end Bars

/-- Without collisions, and from year one on, fingerprints identify observations
exactly as far as these are told apart. -/
theorem fingerprint_identifies_iff [Digest] (hsha : Function.Injective Digest.sha256) :
    (∀ quote quote' : MarketQuote, CivilTime.firstInstant ≤ quote.effectiveTime →
      CivilTime.firstInstant ≤ quote'.effectiveTime →
      ((SameFingerprint (quoteFingerprint quote) (quoteFingerprint quote') ↔
          quote.Agrees quote'.toMarketQuoteFields) ↔
        quote.ToldApart quote'.toMarketQuoteFields)) ∧
    ∀ bar bar' : MarketBar, CivilTime.firstInstant ≤ bar.timestamp →
      CivilTime.firstInstant ≤ bar'.timestamp →
      ((SameFingerprint (barFingerprint bar) (barFingerprint bar') ↔
          bar.Agrees bar'.toMarketBarFields) ↔
        bar.ToldApart bar'.toMarketBarFields) :=
  ⟨fun _ _ hfirst hfirst' => quotes_identified_iff hsha hfirst hfirst',
    fun _ _ hfirst hfirst' => bars_identified_iff hsha hfirst hfirst'⟩

section Sample

/-- Given digests of some texts; another text stands for itself. -/
@[reducible] def tableDigest (table : List (String × String)) : Digest where
  sha256 text := ((table.find? (fun entry => entry.1 = text)).map Prod.snd).getD ("=" ++ text)

/-- Different digests, none of which looks like a text, make no collision. -/
theorem tableDigest_injective {table : List (String × String)}
    (hdigest : ∀ entry ∈ table, ∀ entry' ∈ table, entry.2 = entry'.2 → entry.1 = entry'.1)
    (hplain : ∀ entry ∈ table, '=' ∉ entry.2.toList) :
    Function.Injective (tableDigest table).sha256 := by
  have hother : ∀ entry ∈ table, ∀ text : String, entry.2 ≠ "=" ++ text := by
    intro entry hentry text heq
    apply hplain entry hentry
    rw [heq, String.toList_append]
    exact List.mem_append_left _ List.mem_cons_self
  intro text text' h
  change ((table.find? (fun entry => entry.1 = text)).map Prod.snd).getD ("=" ++ text) =
    ((table.find? (fun entry => entry.1 = text')).map Prod.snd).getD ("=" ++ text') at h
  cases hfound : table.find? (fun entry => entry.1 = text) with
  | none =>
    cases hfound' : table.find? (fun entry => entry.1 = text') with
    | none =>
      rw [hfound, hfound'] at h
      simpa using h
    | some entry' =>
      rw [hfound, hfound'] at h
      exact absurd h.symm (hother entry' (List.mem_of_find?_eq_some hfound') text)
  | some entry =>
    have hmatch := List.find?_some hfound
    have htext := of_decide_eq_true hmatch
    cases hfound' : table.find? (fun entry => entry.1 = text') with
    | none =>
      rw [hfound, hfound'] at h
      exact absurd h (hother entry (List.mem_of_find?_eq_some hfound) text')
    | some entry' =>
      have hmatch' := List.find?_some hfound'
      have htext' := of_decide_eq_true hmatch'
      rw [hfound, hfound'] at h
      rw [← htext, ← htext']
      exact hdigest entry (List.mem_of_find?_eq_some hfound) entry'
        (List.mem_of_find?_eq_some hfound') h

theorem sampleTable_injective : Function.Injective (tableDigest sampleDigests).sha256 :=
  tableDigest_injective (by decide +kernel) (by decide +kernel)

/-- The sample quote is written. -/
theorem sampleQuote_written (seconds : Int) : (sampleQuote seconds).Written := by
  obtain ⟨-, -, hbid, hask, hlast, -⟩ := (sampleQuote seconds).accepted
  have htext : decimalText (some ⟨10090, -2⟩) = some "100.9" ∧
      decimalText (some ⟨10110, -2⟩) = some "101.1" ∧
      decimalText (some ⟨10100, -2⟩) = some "101" := by
    decide
  exact ⟨(decimalText_eq_some_iff hbid).mp ⟨"100.9", htext.1⟩,
    (decimalText_eq_some_iff hask).mp ⟨"101.1", htext.2.1⟩,
    (decimalText_eq_some_iff hlast).mp ⟨"101", htext.2.2⟩⟩

/-- A quote that is received again is recognised, and a corrected bar is not
taken for the first one. -/
theorem fingerprint_identifies_iff_sample :
    let _ : Digest := tableDigest sampleDigests
    SameFingerprint (quoteFingerprint (sampleQuote 0)) (quoteFingerprint (sampleQuote 60)) ∧
    ¬SameFingerprint (barFingerprint (sampleBar 60)) (barFingerprint (sampleCorrection 60)) := by
  intro _
  obtain ⟨hquotes, hbars⟩ := fingerprint_identifies_iff sampleTable_injective
  have hnoon : CivilTime.firstInstant ≤ sampleNoon := by decide
  constructor
  · refine ((hquotes (sampleQuote 0) (sampleQuote 60) hnoon hnoon).mpr ⟨?_, ?_⟩).mpr
      ⟨rfl, rfl, rfl, rfl, rfl⟩
    · exact fun _ => sampleQuote_written 0
    · exact fun _ _ _ => ⟨fun _ => ⟨rfl, rfl⟩, fun h => h.provider_ne rfl, fun h => h.provider_ne rfl⟩
  · have hclose : (sampleBar 60).ohlcv ≠ (sampleCorrection 60).ohlcv := by
      decide +kernel
    have happart : (sampleBar 60).ToldApart (sampleCorrection 60).toMarketBarFields := by
      refine ⟨fun h => absurd h.2 hclose, fun _ hrounded _ => ?_⟩
      have hequal := congrArg Ohlcv.close hrounded
      have htexts := (decimalText_eq_iff (absentOrPositive_some (sampleBar 60).accepted.2.2.2.1.2.2.2)
        (absentOrPositive_some (sampleCorrection 60).accepted.2.2.2.1.2.2.2)
        (show decimalText (some ⟨10100, -2⟩) = some "101" by decide)
        (show decimalText (some ⟨10140, -2⟩) = some "101.4" by decide)).mpr
        (congrArg some hequal)
      exact absurd htexts (by decide)
    have hiff := (hbars (sampleBar 60) (sampleCorrection 60) hnoon hnoon).mpr happart
    exact fun hsame => hclose (hiff.mp hsame).2

/-- A quote of a last price with one digit more than are written. -/
def finePriceFields (digit : Int) : MarketQuoteFields :=
  { sampleQuoteFields 0 with
    bid := none
    ask := none
    last := some ⟨10000000000000000000000000000 + digit, -28⟩ }

theorem finePriceFields_accepted :
    (finePriceFields 1).Accepted ∧ (finePriceFields 2).Accepted := by
  decide +kernel

def fineQuote : MarketQuote := ⟨finePriceFields 1, finePriceFields_accepted.1⟩

def finerQuote : MarketQuote := ⟨finePriceFields 2, finePriceFields_accepted.2⟩

/-- Two quotes that differ in the last digit of a price share a fingerprint. -/
theorem last_digit_not_fingerprinted :
    let _ : Digest := tableDigest sampleDigests
    Function.Injective (tableDigest sampleDigests).sha256 ∧
    SameFingerprint (quoteFingerprint fineQuote) (quoteFingerprint finerQuote) ∧
    ¬fineQuote.Agrees finerQuote.toMarketQuoteFields := by
  intro _
  refine ⟨sampleTable_injective,
    ⟨"=fixture-market\x1fACME\x1f\x1f2026-07-18T12:00:00.000000+00:00\x1fnull\x1fnull\x1f1",
      by decide +kernel, by decide +kernel⟩, ?_⟩
  intro hex
  obtain ⟨-, -, -, -, hprices⟩ := hex
  exact absurd hprices (by decide +kernel)

end Sample

end EventAlpha
