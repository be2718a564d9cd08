import EventAlpha.Corrections
import EventAlpha.PersistBeforePublish

/-!
# The cache and the store

Two rankings decide which quote of a symbol is the latest.  The cache ranks by
effective time, receipt and identifier.  The store ranks its rows by effective
time, receipt, processing and content hash, and has no row for a quote whose
content it knows.

`agrees_iff_keepsAgreement` says for one quote when they still agree after it, from
what each of them does with it.  `cache_agrees_iff` says it along every run of
`refresh_watchlist` with a repository that works.
-/

namespace EventAlpha

open KeyedOrder ObservationLog RunLog

section StoreReads

variable [CharacterTables]

/-- The rows of the quote table are filed under their hash and can be read
back. -/
def QuotesReadable (db : MarketDb) : Prop :=
  ∀ contentHash row, db.quoteObservations.get? contentHash = some row →
    row.contentHash = contentHash ∧ ∃ quote, row.quote = some quote

/-- A row no other one of its provider and symbol follows. -/
def IsLatestRow (db : MarketDb) (provider symbol : String) (row : MarketQuoteRow) : Prop :=
  row ∈ db.quoteRows provider symbol none ∧
    ∀ row' ∈ db.quoteRows provider symbol none, row'.readKey ≤ row.readKey

variable {db db' : MarketDb} {provider symbol : String}

theorem mem_quoteRows_none {row : MarketQuoteRow} :
    row ∈ db.quoteRows provider symbol none ↔
      row ∈ db.quoteObservations.values ∧ row.provider = provider ∧ row.symbol = upper symbol := by
  simp [MarketDb.quoteRows, SeenAt]

/-- The read looks at the quotes alone. -/
theorem latestQuote_congr (h : db.quoteObservations = db'.quoteObservations)
    (asOf : Option UtcDatetime) :
    db.latestQuote provider symbol asOf = db'.latestQuote provider symbol asOf := by
  unfold MarketDb.latestQuote MarketDb.quoteRows
  rw [h]

/-- The latest row is one. -/
theorem IsLatestRow.unique (hreadable : QuotesReadable db) {row row' : MarketQuoteRow}
    (h : IsLatestRow db provider symbol row) (h' : IsLatestRow db provider symbol row') :
    row = row' := by
  have hkey : row.readKey = row'.readKey := le_antisymm (h'.2 row h.1) (h.2 row' h'.1)
  have hhash : row.contentHash = row'.contentHash := by
    have hlex := hkey
    simp only [MarketQuoteRow.readKey, EmbeddingLike.apply_eq_iff_eq, Prod.mk.injEq] at hlex
    exact hlex.2.2.2
  obtain ⟨contentHash, hget⟩ :=
    InsertionDict.mem_values_iff_get?.mp (mem_quoteRows_none.mp h.1).1
  obtain ⟨contentHash', hget'⟩ :=
    InsertionDict.mem_values_iff_get?.mp (mem_quoteRows_none.mp h'.1).1
  rw [← (hreadable _ _ hget).1, hhash, (hreadable _ _ hget').1] at hget
  exact Option.some.inj (hget.symm.trans hget')

/-- The read does not raise. -/
theorem QuotesReadable.latestQuote (hreadable : QuotesReadable db) (provider symbol : String) :
    ∃ found, db.latestQuote provider symbol none = some found := by
  apply MarketDb.latestQuote_succeeds
  intro row hrow
  obtain ⟨contentHash, hget⟩ :=
    InsertionDict.mem_values_iff_get?.mp (mem_quoteRows_none.mp hrow).1
  exact (hreadable _ _ hget).2

/-- The read returns the latest row. -/
theorem latestQuote_of_isLatestRow (hreadable : QuotesReadable db) {row : MarketQuoteRow}
    {quote : MarketQuote} (h : IsLatestRow db provider symbol row)
    (hquote : row.quote = some quote) :
    db.latestQuote provider symbol none = some (some quote) := by
  obtain ⟨found, hfound⟩ := hreadable.latestQuote provider symbol
  cases found with
  | none =>
      have hnil := MarketDb.latestQuote_eq_none hfound
      rw [IsLatestRow, hnil] at h
      exact absurd h.1 List.not_mem_nil
  | some quote' =>
      obtain ⟨row', hrow', hquote', hgreatest⟩ := MarketDb.latestQuote_eq_some hfound
      obtain rfl := h.unique hreadable ⟨hrow', hgreatest⟩
      rw [hfound, ← hquote', hquote]

/-- Where there are rows, one is the latest. -/
theorem exists_isLatestRow (hreadable : QuotesReadable db)
    (h : db.quoteRows provider symbol none ≠ []) :
    ∃ row quote, IsLatestRow db provider symbol row ∧ row.quote = some quote := by
  obtain ⟨found, hfound⟩ := hreadable.latestQuote provider symbol
  cases found with
  | none => exact absurd (MarketDb.latestQuote_eq_none hfound) h
  | some quote =>
      obtain ⟨row, hrow, hquote, hgreatest⟩ := MarketDb.latestQuote_eq_some hfound
      exact ⟨row, quote, ⟨hrow, hgreatest⟩, hquote⟩

end StoreReads

section Adoption

variable [CharacterTables] [Digest]

/-- The place of a quote among the rows, under its hash. -/
def MarketQuote.readKey (quote : MarketQuote) (contentHash : String) :
    Int ×ₗ Int ×ₗ Int ×ₗ String :=
  toLex (quote.effectiveTime,
    toLex (quote.receivedAt, toLex (quote.processedAt, contentHash)))

/-- The cache takes the quote as the latest of its symbol. -/
def CacheAdopts (latest : InsertionDict String MarketQuote) (quote : MarketQuote) : Prop :=
  ∀ current, latest.get? quote.symbol = some current → current.quoteRank < quote.quoteRank

/-- The store takes the quote as the latest of its symbol: its content is new
and its place is after every row. -/
def StoreAdopts (db : MarketDb) (quote : MarketQuote) : Prop :=
  ∃ contentHash, quoteFingerprint quote = some contentHash ∧
    contentHash ∉ db.quoteObservations.keys ∧
    ∀ row ∈ db.quoteRows quote.provider quote.symbol none,
      row.readKey < quote.readKey contentHash

/-- Two quotes agree in effective time and prices. -/
def SameQuote (quote quote' : MarketQuote) : Prop :=
  quote.effectiveTime = quote'.effectiveTime ∧ quote.prices = quote'.prices

instance (quote quote' : MarketQuote) : Decidable (SameQuote quote quote') := by
  unfold SameQuote; infer_instance

/-- Each cached quote agrees with what the store reads as the latest. -/
def Agrees (provider : String) (latest : InsertionDict String MarketQuote) (db : MarketDb) :
    Prop :=
  ∀ symbol cached, latest.get? symbol = some cached →
    ∃ stored, db.latestQuote provider symbol none = some (some stored) ∧ SameQuote stored cached

/-- What a quote must be for cache and store to agree after it, when they agree
before: taken by both, its prices fit the columns; taken by the cache alone,
the store already reads its time and prices; taken by the store alone, they
are those already cached, as the columns hold them. -/
structure KeepsAgreement (latest : InsertionDict String MarketQuote) (db : MarketDb)
    (quote : MarketQuote) : Prop where
  both : CacheAdopts latest quote → StoreAdopts db quote → quote.storedPrices = quote.prices
  cacheAlone : CacheAdopts latest quote → ¬ StoreAdopts db quote →
    ∃ stored, db.latestQuote quote.provider quote.symbol none = some (some stored) ∧
      SameQuote stored quote
  storeAlone : ¬ CacheAdopts latest quote → StoreAdopts db quote →
    ∀ current, latest.get? quote.symbol = some current →
      quote.effectiveTime = current.effectiveTime ∧ quote.storedPrices = current.prices

variable {db db' : MarketDb} {quote : MarketQuote} {inserted : Bool}

omit [Digest] in
/-- The rows after a save. -/
theorem quoteRows_saved {contentHash : String} {row : MarketQuoteRow}
    (hkey : contentHash ∉ db.quoteObservations.keys)
    (hquotes : db'.quoteObservations = db.quoteObservations.set contentHash row)
    (provider symbol : String) :
    db'.quoteRows provider symbol none =
      db.quoteRows provider symbol none ++
        if row.provider = provider ∧ row.symbol = upper symbol then [row] else [] := by
  unfold MarketDb.quoteRows
  rw [hquotes, InsertionDict.values_set_of_notMem hkey, List.filter_append]
  refine congrArg _ ?_
  by_cases hselects : row.provider = provider ∧ row.symbol = upper symbol
  · rw [if_pos hselects, List.filter_cons_of_pos (by simp [hselects, SeenAt]), List.filter_nil]
  · rw [if_neg hselects, List.filter_cons_of_neg, List.filter_nil]
    intro htrue
    obtain ⟨hprovider, hsymbol, -⟩ := of_decide_eq_true htrue
    exact hselects ⟨hprovider, hsymbol⟩

omit [CharacterTables] in
/-- What a save stores of a quote it has no content of. -/
theorem fields_of_saved {contentHash : String} {row : MarketQuoteRow}
    (hhash : quoteFingerprint quote = some contentHash)
    (hrow : quote.row contentHash = some row) (hvalid : row.Valid) :
    row.contentHash = contentHash ∧ row.provider = quote.provider ∧ row.symbol = quote.symbol ∧
      row.readKey = quote.readKey contentHash ∧
      ∃ stored, row.quote = some stored ∧ stored.effectiveTime = quote.effectiveTime ∧
        stored.prices = quote.storedPrices := by
  have hstored : quote.storedRow = some row := by
    rw [MarketQuote.storedRow, hhash, Option.bind_some, hrow]
    simp [hvalid]
  obtain ⟨stored, hquote, hfields⟩ := MarketQuote.exists_quote_of_storedRow hstored
  obtain ⟨hsame, hprices, -⟩ := MarketQuote.fields_of_storedRow hstored
  obtain ⟨bid, ask, last, -, -, -, rfl⟩ := MarketQuote.row_eq_some hrow
  refine ⟨rfl, rfl, rfl, rfl, stored, hquote, ?_, ?_⟩
  · rw [hfields]
    rfl
  · rw [hfields, hprices]

omit [CharacterTables] in
/-- A save keeps the rows readable. -/
theorem QuotesReadable.saveQuote (h : QuotesReadable db)
    (hsave : db.saveQuote quote = some (inserted, db')) : QuotesReadable db' := by
  obtain ⟨contentHash, hhash, -, hsame | hnew⟩ := MarketDb.saveQuote_eq_some hsave
  · rw [QuotesReadable, hsame.2.1]
    exact h
  · obtain ⟨-, -, row, hrow, hvalid, hquotes⟩ := hnew
    obtain ⟨hfiled, -, -, -, stored, hstored, -⟩ := fields_of_saved hhash hrow hvalid
    intro contentHash' row' hget
    rw [hquotes, InsertionDict.get?_set] at hget
    split at hget
    · rename_i heq
      obtain rfl := Option.some.inj hget
      exact ⟨hfiled.trans heq.symm, stored, hstored⟩
    · exact h _ _ hget

/-- **The store adopts.**  The read then returns the quote as the columns hold
it. -/
theorem latestQuote_adopted (hreadable : QuotesReadable db)
    (hsave : db.saveQuote quote = some (inserted, db')) (hadopts : StoreAdopts db quote) :
    ∃ stored, db'.latestQuote quote.provider quote.symbol none = some (some stored) ∧
      stored.effectiveTime = quote.effectiveTime ∧ stored.prices = quote.storedPrices := by
  obtain ⟨contentHash, hhash, hkey, hgreatest⟩ := hadopts
  obtain ⟨contentHash', hhash', -, hsame | hnew⟩ := MarketDb.saveQuote_eq_some hsave
  · obtain rfl : contentHash = contentHash' := Option.some.inj (hhash.symm.trans hhash')
    exact absurd hsame.1 hkey
  · obtain rfl : contentHash = contentHash' := Option.some.inj (hhash.symm.trans hhash')
    obtain ⟨-, -, row, hrow, hvalid, hquotes⟩ := hnew
    obtain ⟨-, hprovider, hsymbol, hplace, stored, hstored, heffective, hprices⟩ :=
      fields_of_saved hhash hrow hvalid
    have hupper := upper_of_isSymbol quote.accepted.1
    have hrows := quoteRows_saved hkey hquotes quote.provider quote.symbol
    rw [if_pos ⟨hprovider, hsymbol.trans hupper.symm⟩] at hrows
    have hlatest : IsLatestRow db' quote.provider quote.symbol row := by
      rw [IsLatestRow, hrows]
      refine ⟨List.mem_append_right _ (List.mem_singleton_self _), ?_⟩
      intro row' hrow'
      rcases List.mem_append.mp hrow' with hold | hself
      · rw [hplace]
        exact (hgreatest row' hold).le
      · rw [List.mem_singleton.mp hself]
    exact ⟨stored, latestQuote_of_isLatestRow (hreadable.saveQuote hsave) hlatest hstored,
      heffective, hprices⟩

/-- **The store does not adopt.**  The read returns what it returned. -/
theorem latestQuote_kept_on (hreadable : QuotesReadable db)
    (hsave : db.saveQuote quote = some (inserted, db')) {provider symbol : String}
    (hother : quote.provider = provider ∧ quote.symbol = upper symbol → ¬ StoreAdopts db quote) :
    db'.latestQuote provider symbol none = db.latestQuote provider symbol none := by
  obtain ⟨contentHash, hhash, -, hsame | hnew⟩ := MarketDb.saveQuote_eq_some hsave
  · exact latestQuote_congr hsame.2.1 none
  · obtain ⟨hkey, -, row, hrow, hvalid, hquotes⟩ := hnew
    obtain ⟨-, hprovider, hsymbol, hplace, -⟩ := fields_of_saved hhash hrow hvalid
    have hrows := quoteRows_saved hkey hquotes provider symbol
    by_cases hselects : row.provider = provider ∧ row.symbol = upper symbol
    · rw [if_pos hselects] at hrows
      have hsame : db.quoteRows quote.provider quote.symbol none =
          db.quoteRows provider symbol none := by
        unfold MarketDb.quoteRows
        rw [upper_of_isSymbol quote.accepted.1, ← hprovider, ← hsymbol, hselects.1, hselects.2]
      -- some row has a place at or after that of the new one
      obtain ⟨row₀, hrow₀, hbefore⟩ : ∃ row₀ ∈ db.quoteRows provider symbol none,
          row.readKey ≤ row₀.readKey := by
        by_contra hall
        apply hother ⟨hprovider.symm.trans hselects.1, hsymbol.symm.trans hselects.2⟩
        refine ⟨contentHash, hhash, hkey, ?_⟩
        intro row₀ hrow₀
        rw [← hplace]
        rw [hsame] at hrow₀
        exact lt_of_not_ge (fun hle => hall ⟨row₀, hrow₀, hle⟩)
      obtain ⟨latest, stored, hlatest, hstored⟩ :=
        exists_isLatestRow hreadable (List.ne_nil_of_mem hrow₀)
      have hlatest' : IsLatestRow db' provider symbol latest := by
        rw [IsLatestRow, hrows]
        refine ⟨List.mem_append_left _ hlatest.1, ?_⟩
        intro row' hrow'
        rcases List.mem_append.mp hrow' with hold | hself
        · exact hlatest.2 row' hold
        · rw [List.mem_singleton.mp hself]
          exact hbefore.trans (hlatest.2 row₀ hrow₀)
      rw [latestQuote_of_isLatestRow hreadable hlatest hstored,
        latestQuote_of_isLatestRow (hreadable.saveQuote hsave) hlatest' hstored]
    · rw [if_neg hselects, List.append_nil] at hrows
      unfold MarketDb.latestQuote
      rw [hrows]

omit [CharacterTables] [Digest] in
/-- **The cache adopts.** -/
theorem get?_rememberQuote {latest : InsertionDict String MarketQuote}
    (hadopts : CacheAdopts latest quote) (symbol : String) :
    (rememberQuote latest quote).get? symbol =
      if symbol = quote.symbol then some quote else latest.get? symbol := by
  have hset : rememberQuote latest quote = latest.set quote.symbol quote := by
    unfold rememberQuote
    split
    · rfl
    · rename_i current hcurrent
      exact if_pos (hadopts current hcurrent)
  rw [hset, InsertionDict.get?_set]

omit [CharacterTables] [Digest] in
/-- **The cache does not adopt.** -/
theorem rememberQuote_kept {latest : InsertionDict String MarketQuote}
    (hkept : ¬ CacheAdopts latest quote) :
    rememberQuote latest quote = latest ∧ ∃ current, latest.get? quote.symbol = some current := by
  have hcurrent : ∃ current, latest.get? quote.symbol = some current ∧
      ¬ current.quoteRank < quote.quoteRank := by
    by_contra hall
    apply hkept
    intro current hget
    by_contra hnot
    exact hall ⟨current, hget, hnot⟩
  obtain ⟨current, hget, hnot⟩ := hcurrent
  refine ⟨?_, current, hget⟩
  unfold rememberQuote
  rw [hget]
  exact if_neg hnot

/-- The cached quotes are filed under their symbols and come from one
provider. -/
def Filed (provider : String) (latest : InsertionDict String MarketQuote) : Prop :=
  ∀ symbol cached, latest.get? symbol = some cached →
    cached.symbol = symbol ∧ cached.provider = provider

omit [CharacterTables] [Digest] in
theorem Filed.rememberQuote {provider : String} {latest : InsertionDict String MarketQuote}
    (h : Filed provider latest) (hprovider : quote.provider = provider) :
    Filed provider (rememberQuote latest quote) := by
  by_cases hadopts : CacheAdopts latest quote
  · intro symbol cached hget
    rw [get?_rememberQuote hadopts] at hget
    split at hget
    · rename_i hsymbol
      rw [← Option.some.inj hget]
      exact ⟨hsymbol.symm, hprovider⟩
    · exact h symbol cached hget
  · rw [(rememberQuote_kept hadopts).1]
    exact h

/-- The cached quote of a symbol agrees with what the store reads as its
latest. -/
def AgreesAt (provider symbol : String) (latest : InsertionDict String MarketQuote)
    (db : MarketDb) : Prop :=
  ∀ cached, latest.get? symbol = some cached →
    ∃ stored, db.latestQuote provider symbol none = some (some stored) ∧ SameQuote stored cached

/-- A quote matters to its own symbol alone. -/
theorem agrees_iff_agreesAt {latest : InsertionDict String MarketQuote}
    (hreadable : QuotesReadable db) (hfiled : Filed quote.provider latest)
    (hagrees : Agrees quote.provider latest db)
    (hsave : db.saveQuote quote = some (inserted, db')) :
    Agrees quote.provider (rememberQuote latest quote) db' ↔
      AgreesAt quote.provider quote.symbol (rememberQuote latest quote) db' := by
  refine ⟨fun hafter => hafter quote.symbol, ?_⟩
  intro hsymbol symbol cached hget
  by_cases hne : symbol = quote.symbol
  · subst hne
    exact hsymbol cached hget
  · have hget' : latest.get? symbol = some cached := by
      by_cases hadopts : CacheAdopts latest quote
      · rwa [get?_rememberQuote hadopts, if_neg hne] at hget
      · rwa [(rememberQuote_kept hadopts).1] at hget
    have hupper : upper symbol = symbol := by
      rw [← (hfiled symbol cached hget').1]
      exact upper_of_isSymbol cached.accepted.1
    have hread : db'.latestQuote quote.provider symbol none =
        db.latestQuote quote.provider symbol none := by
      apply latestQuote_kept_on hreadable hsave
      intro hand
      exact absurd (hand.2.trans hupper).symm hne
    rw [hread]
    exact hagrees symbol cached hget'

/-- Taken by both. -/
theorem agreesAt_both {latest : InsertionDict String MarketQuote}
    (hreadable : QuotesReadable db) (hsave : db.saveQuote quote = some (inserted, db'))
    (hcache : CacheAdopts latest quote) (hstore : StoreAdopts db quote) :
    AgreesAt quote.provider quote.symbol (rememberQuote latest quote) db' ↔
      quote.storedPrices = quote.prices := by
  have hget : (rememberQuote latest quote).get? quote.symbol = some quote := by
    rw [get?_rememberQuote hcache, if_pos rfl]
  obtain ⟨stored, hread, heffective, hprices⟩ := latestQuote_adopted hreadable hsave hstore
  constructor
  · intro hafter
    obtain ⟨stored', hread', -, hprices'⟩ := hafter quote hget
    obtain rfl : stored = stored' := by simpa using hread.symm.trans hread'
    exact hprices.symm.trans hprices'
  · intro hexact cached hcached
    obtain rfl : quote = cached := Option.some.inj (hget.symm.trans hcached)
    exact ⟨stored, hread, heffective, hprices.trans hexact⟩

/-- Taken by the cache alone. -/
theorem agreesAt_cacheAlone {latest : InsertionDict String MarketQuote}
    (hreadable : QuotesReadable db) (hsave : db.saveQuote quote = some (inserted, db'))
    (hcache : CacheAdopts latest quote) (hstore : ¬ StoreAdopts db quote) :
    AgreesAt quote.provider quote.symbol (rememberQuote latest quote) db' ↔
      ∃ stored, db.latestQuote quote.provider quote.symbol none = some (some stored) ∧
        SameQuote stored quote := by
  have hget : (rememberQuote latest quote).get? quote.symbol = some quote := by
    rw [get?_rememberQuote hcache, if_pos rfl]
  rw [AgreesAt, latestQuote_kept_on hreadable hsave (fun _ => hstore)]
  refine ⟨fun hafter => hafter quote hget, ?_⟩
  intro hstored cached hcached
  obtain rfl : quote = cached := Option.some.inj (hget.symm.trans hcached)
  exact hstored

/-- Taken by the store alone. -/
theorem agreesAt_storeAlone {latest : InsertionDict String MarketQuote}
    (hreadable : QuotesReadable db) (hsave : db.saveQuote quote = some (inserted, db'))
    (hcache : ¬ CacheAdopts latest quote) (hstore : StoreAdopts db quote) :
    AgreesAt quote.provider quote.symbol (rememberQuote latest quote) db' ↔
      ∀ current, latest.get? quote.symbol = some current →
        quote.effectiveTime = current.effectiveTime ∧ quote.storedPrices = current.prices := by
  rw [(rememberQuote_kept hcache).1]
  obtain ⟨stored, hread, heffective, hprices⟩ := latestQuote_adopted hreadable hsave hstore
  constructor
  · intro hafter current hcurrent
    obtain ⟨stored', hread', heffective', hprices'⟩ := hafter current hcurrent
    obtain rfl : stored = stored' := by simpa using hread.symm.trans hread'
    exact ⟨heffective.symm.trans heffective', hprices.symm.trans hprices'⟩
  · intro hsame current hcurrent
    obtain ⟨heffective', hprices'⟩ := hsame current hcurrent
    exact ⟨stored, hread, heffective.trans heffective', hprices.trans hprices'⟩

/-- **One quote.**  Cache and store agree after it exactly when it meets the
condition. -/
theorem agrees_iff_keepsAgreement {provider : String} {latest : InsertionDict String MarketQuote}
    (hreadable : QuotesReadable db) (hfiled : Filed provider latest)
    (hprovider : quote.provider = provider) (hagrees : Agrees provider latest db)
    (hsave : db.saveQuote quote = some (inserted, db')) :
    Agrees provider (rememberQuote latest quote) db' ↔ KeepsAgreement latest db quote := by
  subst hprovider
  rw [agrees_iff_agreesAt hreadable hfiled hagrees hsave]
  by_cases hcache : CacheAdopts latest quote
  · by_cases hstore : StoreAdopts db quote
    · rw [agreesAt_both hreadable hsave hcache hstore]
      refine ⟨?_, fun hmeets => hmeets.both hcache hstore⟩
      intro hexact
      exact ⟨fun _ _ => hexact, fun _ hnot => absurd hstore hnot,
        fun hnot => absurd hcache hnot⟩
    · rw [agreesAt_cacheAlone hreadable hsave hcache hstore]
      refine ⟨?_, fun hmeets => hmeets.cacheAlone hcache hstore⟩
      intro hstored
      exact ⟨fun _ hnot => absurd hnot hstore, fun _ _ => hstored,
        fun hnot => absurd hcache hnot⟩
  · by_cases hstore : StoreAdopts db quote
    · rw [agreesAt_storeAlone hreadable hsave hcache hstore]
      refine ⟨?_, fun hmeets => hmeets.storeAlone hcache hstore⟩
      intro hsame
      exact ⟨fun hnot => absurd hnot hcache, fun hnot => absurd hnot hcache, fun _ _ => hsame⟩
    · -- taken by neither: cache and store stay as they are
      rw [AgreesAt, (rememberQuote_kept hcache).1,
        latestQuote_kept_on hreadable hsave (fun _ => hstore)]
      refine iff_of_true (hagrees quote.symbol) ?_
      exact ⟨fun hnot => absurd hnot hcache, fun hnot => absurd hnot hcache,
        fun _ hnot => absurd hnot hstore⟩

end Adoption

/-- A quote of a stream from its arrival to its publication. -/
structure Delivery where
  before : MarketProcess
  quote : MarketQuote
  after : MarketProcess

/-- The quote under way, and those delivered. -/
structure Progress where
  pending : Option (MarketProcess × MarketQuote)
  done : List Delivery

/-- A quote is under way from the move that provides it to the move that goes
on after its success is recorded. -/
def Progress.next (progress : Progress) (move : Move MarketProcess MarketAction) : Progress :=
  match move.action with
  | .provide _ (.quote quote) => { progress with pending := some (move.before, quote) }
  | .resume op =>
      match move.before.operations op, progress.pending with
      | .called (.recordSuccess _ _) (.ok _), some (before, quote) =>
          ⟨none, progress.done ++ [⟨before, quote, move.after⟩]⟩
      | _, _ => progress
  | _ => progress

def progressAfter (moves : List (Move MarketProcess MarketAction)) : Progress :=
  moves.foldl Progress.next ⟨none, []⟩

/-- The quotes a run has delivered. -/
def deliveries (moves : List (Move MarketProcess MarketAction)) : List Delivery :=
  (progressAfter moves).done

theorem progressAfter_snoc (moves : List (Move MarketProcess MarketAction))
    (move : Move MarketProcess MarketAction) :
    progressAfter (moves ++ [move]) = (progressAfter moves).next move := by
  rw [progressAfter, List.foldl_append]
  rfl

/-- The moves of one call of `refresh_watchlist` whose quotes come from one
provider. -/
def MarketAction.Watches (op : ℕ) (provider : String) : MarketAction → Prop
  | .provide op' (.quote quote) => op' = op ∧ quote.provider = provider
  | .refreshWatchlist op' _ | .provide op' _ | .perform op' | .resume op' | .wake op'
  | .cancel op' => op' = op
  | .latest _ _ _ | .write _ => False

/-- Nothing but the call moves, and no call of the store raises. -/
def Working (op : ℕ) (provider : String) (moves : List (Move MarketProcess MarketAction)) :
    Prop :=
  ∀ move ∈ moves, move.action.Watches op provider ∧
    ∀ call error, move.after.operations op ≠ .called call (.error error)

section Deliveries

variable [Digest]

/-- Deliveries that follow each other, from an empty cache and empty tables, to
the given ones. -/
inductive Chained (provider : String) : List Delivery → InsertionDict String MarketQuote →
    InsertionDict String MarketQuoteRow → Prop
  | nil : Chained provider [] .empty .empty
  | snoc {done : List Delivery} {before after : MarketProcess} {quote : MarketQuote}
      {inserted : Bool} {db' : MarketDb}
      (h : Chained provider done before.latest before.db.quoteObservations)
      (hprovider : quote.provider = provider)
      (hsave : before.db.saveQuote quote = some (inserted, db'))
      (hlatest : after.latest = rememberQuote before.latest quote)
      (htable : after.db.quoteObservations = db'.quoteObservations) :
      Chained provider (done ++ [⟨before, quote, after⟩]) after.latest
        after.db.quoteObservations

/-- Whether a call of `refresh_watchlist` has no quote under way. -/
def Operation.Resting : Operation → Prop
  | .idle | .streaming _ | .calling (.recordFailure _ _) | .called (.recordFailure _ _) (.ok _)
  | .sleeping _ => True
  | _ => False

/-- Whether it has stored a quote and not published it yet. -/
def Operation.Stored (quote : MarketQuote) : Operation → Prop
  | .called (.saveQuote quote' (some _)) (.ok _) => quote' = quote
  | .calling (.recordSuccess quote' _) => quote' = quote
  | .called (.recordSuccess quote' _) (.ok _) => quote' = quote
  | _ => False

/-- How far a call of `refresh_watchlist` is with its deliveries. -/
inductive Follows (provider : String) (op : ℕ) (process : MarketProcess) (progress : Progress) :
    Prop
  | resting (hop : (process.operations op).Resting)
      (hchain : Chained provider progress.done process.latest process.db.quoteObservations)
  | saving {before : MarketProcess} {quote : MarketQuote} {watch : Watch}
      (hop : process.operations op = .calling (.saveQuote quote (some watch)))
      (hpending : progress.pending = some (before, quote))
      (hlatest : process.latest = before.latest) (hdb : process.db = before.db)
      (hprovider : quote.provider = provider)
      (hchain : Chained provider progress.done before.latest before.db.quoteObservations)
  | stored {before : MarketProcess} {quote : MarketQuote} {inserted : Bool} {db' : MarketDb}
      (hop : (process.operations op).Stored quote)
      (hpending : progress.pending = some (before, quote))
      (hlatest : process.latest = before.latest)
      (hsave : before.db.saveQuote quote = some (inserted, db'))
      (htable : process.db.quoteObservations = db'.quoteObservations)
      (hprovider : quote.provider = provider)
      (hchain : Chained provider progress.done before.latest before.db.quoteObservations)
  | finished (hop : (process.operations op).Ended) {latest : InsertionDict String MarketQuote}
      {table : InsertionDict String MarketQuoteRow}
      (hchain : Chained provider progress.done latest table)

theorem Follows.chained {provider : String} {op : ℕ} {process : MarketProcess}
    {progress : Progress} (h : Follows provider op process progress) :
    ∃ latest table, Chained provider progress.done latest table := by
  cases h with
  | resting hop hchain => exact ⟨_, _, hchain⟩
  | saving hop hpending hlatest hdb hprovider hchain => exact ⟨_, _, hchain⟩
  | stored hop hpending hlatest hsave htable hprovider hchain => exact ⟨_, _, hchain⟩
  | finished hop hchain => exact ⟨_, _, hchain⟩

/-- A move that delivers nothing and ends the call. -/
theorem Follows.ended {provider : String} {op : ℕ} {process process' : MarketProcess}
    {progress : Progress} (h : Follows provider op process progress)
    (hop : (process'.operations op).Ended) : Follows provider op process' progress := by
  obtain ⟨latest, table, hchain⟩ := h.chained
  exact .finished hop hchain

/-- The call starts, or does not. -/
theorem Follows.begins {provider : String} {op : ℕ} {process : MarketProcess}
    {progress : Progress} (h : Follows provider op process progress) (config : MarketConfig)
    (attempts : Int) (hidle : process.operations op = .idle) :
    Follows provider op (process.enter op (config.beginRefresh attempts)) progress := by
  by_cases henabled : config.providerReadsEnabled = false
  · apply h.ended
    simp [MarketConfig.beginRefresh, henabled, Operation.Ended]
  · by_cases hattempts : attempts < 1
    · apply h.ended
      simp [MarketConfig.beginRefresh, henabled, hattempts, Operation.Ended]
    · cases h with
      | resting hop hchain =>
          refine .resting ?_ hchain
          simp [MarketConfig.beginRefresh, henabled, hattempts, Operation.Resting]
      | saving hop => rw [hidle] at hop; exact absurd hop (by simp)
      | stored hop => rw [hidle] at hop; exact absurd hop id
      | finished hop => rw [hidle] at hop; exact absurd hop id

/-- The provider sends a quote, ends or fails. -/
theorem Follows.provided {provider : String} {op : ℕ} {process : MarketProcess}
    {progress : Progress} (h : Follows provider op process progress) {event : ProviderEvent}
    (hawaits : (process.operations op).AwaitsProvider)
    (hprovider : ∀ quote, event = .quote quote → quote.provider = provider) :
    let process' := process.enter op ((process.operations op).provided event)
    Follows provider op process' (progress.next ⟨process, .provide op event, process'⟩) := by
  intro process'
  cases h with
  | resting hop hchain =>
      cases hstate : process.operations op with
      | streaming watch =>
          have hnow : process'.operations op = (Operation.streaming watch).provided event := by
            simp [process', hstate]
          cases event with
          | quote quote =>
              exact .saving hnow rfl rfl rfl (hprovider quote rfl) hchain
          | ended =>
              refine .finished ?_ hchain
              rw [hnow]
              exact trivial
          | failed error =>
              by_cases htransient : error.transient = true
              · refine .resting ?_ hchain
                simp [hnow, Operation.provided, htransient, Operation.Resting]
              · refine .finished ?_ hchain
                simp [hnow, Operation.provided, htransient, Operation.Ended]
      | _ => simp [hstate, Operation.AwaitsProvider, Operation.Resting] at hawaits hop
  | saving hop => rw [hop] at hawaits; exact absurd hawaits id
  | stored hop =>
      cases hstate : process.operations op with
      | streaming watch => rw [hstate] at hop; exact absurd hop id
      | fetching => rw [hstate] at hop; exact absurd hop id
      | _ => rw [hstate] at hawaits; exact absurd hawaits id
  | finished hop => exact absurd hop hawaits.not_ended

/-- The call goes on after a call of the store that returned. -/
theorem Follows.resumed {provider : String} {op : ℕ} {process : MarketProcess}
    {progress : Progress} (h : Follows provider op process progress) {call : StoreCall}
    {found : Option MarketQuote} (hcalled : process.operations op = .called call (.ok found)) :
    let process' := { process.enter op (call.resume process.latest (.ok found)).1 with
      latest := (call.resume process.latest (.ok found)).2 }
    Follows provider op process' (progress.next ⟨process, .resume op, process'⟩) := by
  intro process'
  cases h with
  | resting hop hchain =>
      rw [hcalled] at hop
      cases call with
      | recordFailure error watch =>
          have hnext : progress.next ⟨process, .resume op, process'⟩ = progress := by
            simp [Progress.next, hcalled]
          rw [hnext]
          by_cases hexhausted : watch.exhausted = true
          · refine .finished ?_ hchain
            simp [process', StoreCall.resume, hexhausted, Operation.Ended]
          · refine .resting ?_ ?_
            · simp [process', StoreCall.resume, hexhausted, Operation.Resting]
            · simpa [process', StoreCall.resume, hexhausted] using hchain
      | _ => exact absurd hop id
  | saving hop => rw [hcalled] at hop; exact absurd hop (by simp)
  | @stored before quote _ _ hop hpending hlatest hsave htable hprovider hchain =>
      rw [hcalled] at hop
      cases call with
      | saveQuote quote' watch =>
          cases watch with
          | none => exact absurd hop id
          | some watch =>
              obtain rfl : quote' = quote := hop
              have hnext : progress.next ⟨process, .resume op, process'⟩ = progress := by
                simp [Progress.next, hcalled]
              rw [hnext]
              exact .stored (by simp [process', StoreCall.resume, Operation.Stored]) hpending
                hlatest hsave htable hprovider hchain
      | recordSuccess quote' watch =>
          obtain rfl : quote' = quote := hop
          -- the quote is published
          have hnext : progress.next ⟨process, .resume op, process'⟩ =
              ⟨none, progress.done ++ [⟨before, quote', process'⟩]⟩ := by
            simp [Progress.next, hcalled, hpending]
          rw [hnext]
          refine .resting (by simp [process', StoreCall.resume, Operation.Resting]) ?_
          refine hchain.snoc hprovider hsave ?_ htable
          rw [← hlatest]
          rfl
      | _ => exact absurd hop id
  | finished hop => rw [hcalled] at hop; exact absurd hop id

variable [CharacterTables]

/-- A thread commits. -/
theorem Follows.performed {config : MarketConfig} {provider : String} {op : ℕ}
    {process : MarketProcess} {progress : Progress} (h : Follows provider op process progress)
    {call : StoreCall} {found : Option MarketQuote} {db' : MarketDb} {observedAt : UtcDatetime}
    (hcalling : process.operations op = .calling call)
    (hcommit : call.commit config observedAt process.db = some (found, db')) :
    Follows provider op { process.enter op (.called call (.ok found)) with db := db' }
      progress := by
  cases h with
  | resting hop hchain =>
      rw [hcalling] at hop
      cases call with
      | recordFailure error watch =>
          obtain ⟨recorded, hrecord, heq⟩ := Option.map_eq_some_iff.mp hcommit
          obtain ⟨-, rfl⟩ := Prod.mk.inj heq
          refine .resting (by simp [Operation.Resting]) ?_
          rw [← (MarketDb.recordFailure_frame hrecord).2] at hchain
          exact hchain
      | _ => exact absurd hop id
  | saving hop hpending hlatest hdb hprovider hchain =>
      obtain rfl := Operation.calling.inj (hcalling.symm.trans hop)
      obtain ⟨⟨inserted, saved⟩, hsave, heq⟩ := Option.map_eq_some_iff.mp hcommit
      obtain ⟨rfl, rfl⟩ := Prod.mk.inj heq
      rw [hdb] at hsave
      exact .stored (by simp [Operation.Stored]) hpending hlatest hsave rfl hprovider hchain
  | @stored before quote _ _ hop hpending hlatest hsave htable hprovider hchain =>
      rw [hcalling] at hop
      cases call with
      | recordSuccess quote' watch =>
          obtain rfl : quote' = quote := hop
          obtain ⟨recorded, hrecord, heq⟩ := Option.map_eq_some_iff.mp hcommit
          obtain ⟨-, rfl⟩ := Prod.mk.inj heq
          refine .stored (by simp [Operation.Stored]) hpending hlatest hsave ?_ hprovider hchain
          exact (MarketDb.recordSuccess_frame hrecord).2.trans htable
      | _ => exact absurd hop id
  | finished hop => rw [hcalling] at hop; exact absurd hop id

/-- **Step lemma.** -/
theorem Follows.step {config : MarketConfig} {provider : String} {op : ℕ}
    {process process' : MarketProcess} {action : MarketAction} {progress : Progress}
    (h : Follows provider op process progress)
    (hstep : MarketStep config process action process')
    (hwatches : action.Watches op provider)
    (hworks : ∀ call error, process'.operations op ≠ .called call (.error error))
    (hworked : ∀ call error, process.operations op ≠ .called call (.error error)) :
    Follows provider op process' (progress.next ⟨process, action, process'⟩) := by
  cases hstep with
  | latest => exact absurd hwatches id
  | write => exact absurd hwatches id
  | refreshWatchlist op' attempts hidle =>
      obtain rfl : op' = op := hwatches
      exact h.begins config attempts hidle
  | provide op' event hawaits =>
      obtain rfl : op' = op := by cases event <;> first | exact hwatches | exact hwatches.1
      apply h.provided hawaits
      rintro quote rfl
      exact hwatches.2
  | @perform op' call reply db' hcalling hperforms =>
      obtain rfl : op' = op := hwatches
      have hok : ∃ observedAt found, reply = .ok found ∧
          call.commit config observedAt process.db = some (found, db') := by
        cases hperforms with
        | returns observedAt hcommit => exact ⟨observedAt, _, rfl, hcommit⟩
        | raises error => exact absurd (by simp) (hworks call error)
        | raisesAfter observedAt error hcommit => exact absurd (by simp) (hworks call error)
      obtain ⟨observedAt, found, rfl, hcommit⟩ := hok
      exact h.performed hcalling hcommit
  | @resume op' call reply hcalled =>
      obtain rfl : op' = op := hwatches
      rcases reply with error | found
      · exact absurd hcalled (hworked call error)
      · exact h.resumed hcalled
  | @wake op' watch hsleeping =>
      obtain rfl : op' = op := hwatches
      cases h with
      | resting hop hchain => exact .resting (by simp [Operation.Resting]) hchain
      | saving hop => rw [hsleeping] at hop; exact absurd hop (by simp)
      | stored hop => rw [hsleeping] at hop; exact absurd hop id
      | finished hop => rw [hsleeping] at hop; exact absurd hop id
  | cancel op' hrunning =>
      obtain rfl : op' = op := hwatches
      exact h.ended (by simp [Operation.Ended])

/-- **Run lemma.** -/
theorem follows_run {config : MarketConfig} {provider : String} {op : ℕ}
    {moves : List (Move MarketProcess MarketAction)} {process : MarketProcess}
    (hrun : Run (MarketStep config) (MarketProcess.started .empty) moves process)
    (hworking : Working op provider moves) :
    Follows provider op process (progressAfter moves) ∧
      ∀ call error, process.operations op ≠ .called call (.error error) := by
  induction hrun with
  | nil =>
      refine ⟨.resting trivial .nil, ?_⟩
      intro call error hcalled
      exact absurd hcalled (by simp [MarketProcess.started])
  | snoc hrun hstep ih =>
      have hbefore := fun move hmove => hworking move (List.mem_append_left _ hmove)
      obtain ⟨hwatches, hworks⟩ :=
        hworking _ (List.mem_append_right _ (List.mem_singleton_self _))
      obtain ⟨hfollows, hworked⟩ := ih hbefore
      rw [progressAfter_snoc]
      exact ⟨hfollows.step hstep hwatches hworks hworked, hworks⟩

omit [Digest] in
/-- Agreement is about the quotes alone. -/
theorem Agrees.congr {provider : String} {latest : InsertionDict String MarketQuote}
    {db db' : MarketDb} (h : db.quoteObservations = db'.quoteObservations) :
    Agrees provider latest db ↔ Agrees provider latest db' := by
  unfold Agrees
  simp only [latestQuote_congr h]

omit [CharacterTables] in
/-- The rows after deliveries are readable. -/
theorem Chained.readable {provider : String} {done : List Delivery}
    {latest : InsertionDict String MarketQuote} {table : InsertionDict String MarketQuoteRow}
    (h : Chained provider done latest table) {db : MarketDb}
    (htable : db.quoteObservations = table) : QuotesReadable db := by
  induction h generalizing db with
  | nil =>
      intro contentHash row hrow
      rw [htable] at hrow
      exact absurd hrow (by simp)
  | snoc h hprovider hsave hlatest hafter ih =>
      have hsaved := (ih rfl).saveQuote hsave
      rwa [QuotesReadable, ← htable.trans hafter] at hsaved

omit [CharacterTables] in
/-- The cache after deliveries is filed. -/
theorem Chained.filed {provider : String} {done : List Delivery}
    {latest : InsertionDict String MarketQuote} {table : InsertionDict String MarketQuoteRow}
    (h : Chained provider done latest table) : Filed provider latest := by
  induction h with
  | nil =>
      intro symbol cached hcached
      exact absurd hcached (by simp)
  | snoc h hprovider hsave hlatest hafter ih =>
      rw [hlatest]
      exact ih.rememberQuote hprovider

/-- The last delivery is all that counts for the state after it. -/
theorem Chained.agrees {provider : String} {done : List Delivery}
    {latest : InsertionDict String MarketQuote} {table : InsertionDict String MarketQuoteRow}
    (h : Chained provider done latest table)
    (hagree : ∀ delivery ∈ done, Agrees provider delivery.after.latest delivery.after.db)
    {db : MarketDb} (htable : db.quoteObservations = table) : Agrees provider latest db := by
  cases h with
  | nil =>
      intro symbol cached hcached
      exact absurd hcached (by simp)
  | snoc h hprovider hsave hlatest hafter =>
      rw [Agrees.congr htable]
      exact hagree _ (List.mem_append_right _ (List.mem_singleton_self _))

/-- Deliveries that follow each other. -/
theorem Chained.agrees_iff {provider : String} {done : List Delivery}
    {latest : InsertionDict String MarketQuote} {table : InsertionDict String MarketQuoteRow}
    (h : Chained provider done latest table) :
    (∀ delivery ∈ done, Agrees provider delivery.after.latest delivery.after.db) ↔
      ∀ delivery ∈ done,
        KeepsAgreement delivery.before.latest delivery.before.db delivery.quote := by
  induction h with
  | nil => simp
  | @snoc done before after quote inserted db' h hprovider hsave hlatest hafter ih =>
      simp only [List.forall_mem_append, List.forall_mem_singleton]
      rw [← ih]
      apply and_congr_right
      intro hagree
      rw [Agrees.congr hafter, hlatest]
      exact agrees_iff_keepsAgreement (h.readable rfl) h.filed hprovider (h.agrees hagree rfl) hsave

/-- **Cache and store.**  In every run of `refresh_watchlist` with a store that
works, from an empty cache and empty tables, cache and store agree after every
delivered quote exactly when each of them met the condition on the state it
arrived in. -/
theorem cache_agrees_iff {config : MarketConfig} {provider : String} {op : ℕ}
    {moves : List (Move MarketProcess MarketAction)} {process : MarketProcess}
    (hrun : Run (MarketStep config) (MarketProcess.started .empty) moves process)
    (hworking : Working op provider moves) :
    (∀ delivery ∈ deliveries moves, Agrees provider delivery.after.latest delivery.after.db) ↔
      ∀ delivery ∈ deliveries moves,
        KeepsAgreement delivery.before.latest delivery.before.db delivery.quote := by
  obtain ⟨latest, table, hchain⟩ := (follows_run hrun hworking).1.chained
  exact hchain.agrees_iff

/-- The thread of a call can reply. -/
theorem MarketProcess.exists_perform {config : MarketConfig} {process : MarketProcess} {op : ℕ}
    {call : StoreCall} {reply : StoreReply} {db' : MarketDb}
    (hcalling : process.operations op = .calling call)
    (hperforms : Performs config process.db call reply db') :
    ∃ process', MarketStep config process (.perform op) process' ∧
      process'.operations op = .called call reply ∧ process'.latest = process.latest ∧
      process'.db = db' :=
  ⟨_, .perform process op hcalling hperforms, by simp, rfl, rfl⟩

/-- The operation can then go on. -/
theorem MarketProcess.exists_resume (config : MarketConfig) {process : MarketProcess} {op : ℕ}
    {call : StoreCall} {reply : StoreReply} (hcalled : process.operations op = .called call reply) :
    ∃ process', MarketStep config process (.resume op) process' ∧
      process'.operations op = (call.resume process.latest reply).1 ∧
      process'.latest = (call.resume process.latest reply).2 ∧ process'.db = process.db :=
  ⟨_, .resume process op hcalled, by simp, rfl, rfl⟩

omit [Digest] [CharacterTables] in
theorem Working.snoc {op : ℕ} {provider : String}
    {moves : List (Move MarketProcess MarketAction)} {move : Move MarketProcess MarketAction}
    (h : Working op provider moves) (hwatches : move.action.Watches op provider)
    (hreturns : ∀ call error, move.after.operations op ≠ .called call (.error error)) :
    Working op provider (moves ++ [move]) := by
  intro move' hmem
  rcases List.mem_append.mp hmem with hold | hnew
  · exact h move' hold
  · rw [List.mem_singleton.mp hnew]
    exact ⟨hwatches, hreturns⟩

/-- **A delivery.**  A quote that arrives while a call streams and that the
store takes is published. -/
theorem exists_delivery {config : MarketConfig} {first process : MarketProcess}
    {moves : List (Move MarketProcess MarketAction)} {op : ℕ}
    (hrun : Run (MarketStep config) first moves process) {quote : MarketQuote}
    (hworking : Working op quote.provider moves) {watch : Watch}
    (hstreaming : process.operations op = .streaming watch) {saved recorded : MarketDb}
    (hsave : Performs config process.db (.saveQuote quote (some watch)) (.ok none) saved)
    (hrecord : Performs config saved (.recordSuccess quote (watch.received quote)) (.ok none)
      recorded) :
    ∃ moves' after, Run (MarketStep config) first moves' after ∧
      Working op quote.provider moves' ∧
      after.operations op = .streaming (watch.received quote).delivered ∧
      after.latest = rememberQuote process.latest quote ∧ after.db = recorded ∧
      deliveries moves' = deliveries moves ++ [⟨process, quote, after⟩] := by
  obtain ⟨arrived, hprovide, hcalling, hlatest, hdb⟩ : ∃ arrived,
      MarketStep config process (.provide op (.quote quote)) arrived ∧
      arrived.operations op = .calling (.saveQuote quote (some watch)) ∧
      arrived.latest = process.latest ∧ arrived.db = process.db :=
    ⟨_, .provide process op (.quote quote) (by rw [hstreaming]; trivial),
      by simp [hstreaming, Operation.provided], rfl, rfl⟩
  obtain ⟨stored, hperform, hstored, hlatest₁, rfl⟩ :=
    arrived.exists_perform hcalling (hdb ▸ hsave)
  obtain ⟨gone, hresume, hgone, hlatest₂, hdb₂⟩ := stored.exists_resume config hstored
  obtain ⟨noted, hperform', hnoted, hlatest₃, rfl⟩ := gone.exists_perform hgone (hdb₂ ▸ hrecord)
  obtain ⟨after, hresume', hafter, hlatest₄, hdb₄⟩ := noted.exists_resume config hnoted
  have hrun' := ((((hrun.snoc hprovide).snoc hperform).snoc hresume).snoc hperform').snoc hresume'
  refine ⟨_, after, hrun', ?_, hafter, ?_, hdb₄, ?_⟩
  · have hprovided : Working op quote.provider
        (moves ++ [⟨process, .provide op (.quote quote), arrived⟩]) :=
      hworking.snoc ⟨rfl, rfl⟩ (by simp [hcalling])
    refine (((hprovided.snoc ?_ ?_).snoc ?_ ?_).snoc ?_ ?_).snoc ?_ ?_
    all_goals first | exact rfl | simp [hstored, hgone, hnoted, hafter, StoreCall.resume]
  · rw [hlatest₄, hlatest₃, hlatest₂, hlatest₁, hlatest]
    rfl
  · simp only [deliveries, progressAfter_snoc]
    simp [Progress.next, hstored, hnoted]

end Deliveries

section Sample

/-- The quote of noon with its last price corrected. -/
def correctedQuoteFields (seconds : Int) : MarketQuoteFields :=
  { sampleQuoteFields seconds with last := some ⟨10105, -2⟩ }

theorem correctedQuoteFields_accepted (seconds : Int) :
    (correctedQuoteFields seconds).Accepted := by
  have h : (correctedQuoteFields 0).Accepted := by decide +kernel
  exact h

def correctedQuote (seconds : Int) : MarketQuote :=
  ⟨correctedQuoteFields seconds, correctedQuoteFields_accepted seconds⟩

/-- The tables after a worker that streams has taken a quote. -/
@[reducible] def MarketDb.afterTaking (db : MarketDb) (watch : Watch) (quote : MarketQuote) :
    MarketDb :=
  (StoreCall.recordSuccess quote (watch.received quote)).afterNoon
    ((StoreCall.saveQuote quote (some watch)).afterNoon db)

/-- A worker of the fixture provider takes a quote. -/
theorem exists_fixture_delivery {moves : List (Move MarketProcess MarketAction)}
    {process : MarketProcess} {watch : Watch} (quote : MarketQuote) :
    let _ : CharacterTables := asciiTables
    let _ : Digest := sampleDigest
    Run (MarketStep fixtureWorker) (MarketProcess.started .empty) moves process →
    Working 0 quote.provider moves → process.operations 0 = .streaming watch →
    ((StoreCall.saveQuote quote (some watch)).commit fixtureWorker sampleNoon process.db).map
      Prod.fst = some none →
    ((StoreCall.recordSuccess quote (watch.received quote)).commit fixtureWorker sampleNoon
      ((StoreCall.saveQuote quote (some watch)).afterNoon process.db)).map Prod.fst = some none →
    ∃ moves' after, Run (MarketStep fixtureWorker) (MarketProcess.started .empty) moves' after ∧
      Working 0 quote.provider moves' ∧
      after.operations 0 = .streaming (watch.received quote).delivered ∧
      after.latest = rememberQuote process.latest quote ∧
      after.db = process.db.afterTaking watch quote ∧
      deliveries moves' = deliveries moves ++ [⟨process, quote, after⟩] := by
  intro _ _ hrun hworking hstreaming hsave hrecord
  exact exists_delivery hrun hworking hstreaming (performs_afterNoon hsave)
    (performs_afterNoon hrecord)

/-- A worker that has just begun to stream. -/
theorem exists_fixture_stream :
    let _ : CharacterTables := asciiTables
    let _ : Digest := sampleDigest
    ∃ moves process, Run (MarketStep fixtureWorker) (MarketProcess.started .empty) moves process ∧
      Working 0 "fixture-market" moves ∧ process.operations 0 = .streaming (.start 3) ∧
      process.latest = .empty ∧ process.db = .empty ∧ deliveries moves = [] := by
  intro _ _
  refine ⟨_, _, Run.nil.snoc (.refreshWatchlist _ 0 3 rfl), ?_, rfl, rfl, rfl, rfl⟩
  intro move hmove
  obtain rfl := List.mem_singleton.mp hmove
  refine ⟨rfl, ?_⟩
  intro call error hcalled
  exact absurd hcalled (by simp [MarketConfig.beginRefresh])

end Sample

/-- The first quote of an empty cache and empty tables is adopted by both. -/
theorem keepsAgreement_first :
    let _ : CharacterTables := asciiTables
    let _ : Digest := sampleDigest
    KeepsAgreement .empty .empty (sampleQuote 60) := by
  intro _ _
  have hcache : CacheAdopts .empty (sampleQuote 60) := by
    intro current hcurrent
    exact absurd hcurrent (by simp)
  have hstore : StoreAdopts .empty (sampleQuote 60) := by
    have hhash : (quoteFingerprint (sampleQuote 60)).isSome := by decide +kernel
    obtain ⟨contentHash, hhash⟩ := Option.isSome_iff_exists.mp hhash
    refine ⟨contentHash, hhash, by simp [MarketDb.empty, InsertionDict.keys, InsertionDict.empty], ?_⟩
    intro row hrow
    exact absurd hrow (by simp [MarketDb.quoteRows, MarketDb.empty, InsertionDict.values,
      InsertionDict.empty])
  have hprices : (sampleQuote 60).storedPrices = (sampleQuote 60).prices := by decide +kernel
  exact ⟨fun _ _ => hprices, fun _ hnot => absurd hstore hnot, fun hnot => absurd hcache hnot⟩

/-- The correction of a quote is adopted by both. -/
theorem keepsAgreement_correction :
    let _ : CharacterTables := asciiTables
    let _ : Digest := sampleDigest
    KeepsAgreement (rememberQuote .empty (sampleQuote 60))
      (MarketDb.empty.afterTaking (.start 3) (sampleQuote 60)) (correctedQuote 120) := by
  intro _ _
  have hcache : CacheAdopts (rememberQuote .empty (sampleQuote 60)) (correctedQuote 120) := by
    have hcached : (rememberQuote .empty (sampleQuote 60)).get? (correctedQuote 120).symbol =
        some (sampleQuote 60) := by decide +kernel
    intro current hcurrent
    obtain rfl := Option.some.inj (hcached.symm.trans hcurrent)
    decide +kernel
  have hstore : StoreAdopts (MarketDb.empty.afterTaking (.start 3) (sampleQuote 60))
      (correctedQuote 120) := by
    refine ⟨(quoteFingerprint (correctedQuote 120)).get (by decide +kernel), by simp, ?_, ?_⟩
    · decide +kernel
    · decide +kernel
  have hprices : (correctedQuote 120).storedPrices = (correctedQuote 120).prices := by
    decide +kernel
  exact ⟨fun _ _ => hprices, fun _ hnot => absurd hstore hnot, fun hnot => absurd hcache hnot⟩

/-- A quote and its correction: cache and store agree after each. -/
theorem cache_agrees_iff_correction :
    let _ : CharacterTables := asciiTables
    let _ : Digest := sampleDigest
    ∃ moves last, Run (MarketStep fixtureWorker) (MarketProcess.started .empty) moves last ∧
      Working 0 "fixture-market" moves ∧
      (deliveries moves).map (·.quote) = [sampleQuote 60, correctedQuote 120] ∧
      ∀ delivery ∈ deliveries moves,
        Agrees "fixture-market" delivery.after.latest delivery.after.db := by
  intro _ _
  obtain ⟨moves, process, hrun, hworking, hstreaming, hlatest, hdb, hnone⟩ := exists_fixture_stream
  obtain ⟨moves₁, second, hrun₁, hworking₁, hstreaming₁, hlatest₁, hdb₁, hfirst⟩ :=
    exists_fixture_delivery (sampleQuote 60) hrun hworking hstreaming
      (by rw [hdb]; decide +kernel) (by rw [hdb]; decide +kernel)
  rw [hdb] at hdb₁
  obtain ⟨moves₂, last, hrun₂, hworking₂, -, -, -, hsecond⟩ :=
    exists_fixture_delivery (correctedQuote 120) hrun₁ hworking₁ hstreaming₁
      (by rw [hdb₁]; decide +kernel) (by rw [hdb₁]; decide +kernel)
  have hdeliveries : deliveries moves₂ =
      [⟨process, sampleQuote 60, second⟩, ⟨second, correctedQuote 120, last⟩] := by
    rw [hsecond, hfirst, hnone]
    rfl
  refine ⟨moves₂, last, hrun₂, hworking₂, by rw [hdeliveries]; rfl, ?_⟩
  apply (cache_agrees_iff hrun₂ hworking₂).mpr
  rw [hdeliveries, List.forall_mem_cons, List.forall_mem_singleton, hlatest₁, hdb₁, hlatest, hdb]
  exact ⟨keepsAgreement_first, keepsAgreement_correction⟩

/-- A correction that is taken back: the cache holds the last quote, and the
store the withdrawn one, since it knows the content of the last. -/
theorem cache_differs_from_store :
    let _ : CharacterTables := asciiTables
    let _ : Digest := sampleDigest
    ∃ moves last, Run (MarketStep fixtureWorker) (MarketProcess.started .empty) moves last ∧
      Working 0 "fixture-market" moves ∧
      (deliveries moves).map (·.quote) =
        [sampleQuote 60, correctedQuote 120, sampleQuote 180] ∧
      ¬ ∀ delivery ∈ deliveries moves,
        Agrees "fixture-market" delivery.after.latest delivery.after.db := by
  intro _ _
  obtain ⟨moves, process, hrun, hworking, hstreaming, hlatest, hdb, hnone⟩ := exists_fixture_stream
  obtain ⟨moves₁, second, hrun₁, hworking₁, hstreaming₁, hlatest₁, hdb₁, hfirst⟩ :=
    exists_fixture_delivery (sampleQuote 60) hrun hworking hstreaming
      (by rw [hdb]; decide +kernel) (by rw [hdb]; decide +kernel)
  rw [hdb] at hdb₁
  obtain ⟨moves₂, third, hrun₂, hworking₂, hstreaming₂, hlatest₂, hdb₂, hsecond⟩ :=
    exists_fixture_delivery (correctedQuote 120) hrun₁ hworking₁ hstreaming₁
      (by rw [hdb₁]; decide +kernel) (by rw [hdb₁]; decide +kernel)
  rw [hdb₁] at hdb₂
  obtain ⟨moves₃, fourth, hrun₃, hworking₃, -, hlatest₃, hdb₃, hthird⟩ :=
    exists_fixture_delivery (sampleQuote 180) hrun₂ hworking₂ hstreaming₂
      (by rw [hdb₂]; decide +kernel) (by rw [hdb₂]; decide +kernel)
  rw [hdb₂] at hdb₃
  refine ⟨moves₃, fourth, hrun₃, hworking₃, ?_, ?_⟩
  · rw [hthird, hsecond, hfirst, hnone]
    rfl
  · intro hagree
    have hlast : Agrees "fixture-market" fourth.latest fourth.db :=
      hagree ⟨third, sampleQuote 180, fourth⟩
        (by rw [hthird]; exact List.mem_append_right _ (List.mem_singleton_self _))
    have hcached : fourth.latest.get? "ACME" = some (sampleQuote 180) := by
      rw [hlatest₃, hlatest₂, hlatest₁, hlatest]
      decide +kernel
    obtain ⟨stored, hstored, -, hprices⟩ := hlast "ACME" _ hcached
    have hread : (fourth.db.latestQuote "fixture-market" "ACME" none).map
        (fun found => found.map (·.prices.last)) = some (some (some (2021 / 20))) := by
      rw [hdb₃]
      decide +kernel
    rw [hstored] at hread
    have hprice : stored.prices.last = some (2021 / 20) := by simpa using hread
    rw [hprices] at hprice
    exact absurd hprice (by decide +kernel)

end EventAlpha
