import EventAlpha.PointInTimeReads

/-!
# The market reads and their reference

What a read has to return, as a property of the set of rows it sees:
`BarsReference` for bars and `QuoteReference` for a quote.  Neither mentions an
order in which rows are stored or visited, a loop or a limit that is counted
down, and each determines what is returned.  `reads_equal_reference` says that
the reads of the repository return just that.
-/

namespace EventAlpha

open KeyedOrder

/-- Among the rows of one start, the order in which later revisions are greater. -/
def MarketBarRow.revisionKey (row : MarketBarRow) : Int ×ₗ Int ×ₗ String :=
  toLex (row.receivedAt, toLex (row.processedAt, row.contentHash))

/-- The bars to return of the visible rows: those of the latest starts, oldest
first, each rebuilt from the greatest revision of its start. -/
structure BarsReference (rows : List MarketBarRow) (limit : Int) (out : List MarketBar) :
    Prop where
  count : (out.length : Int) = min limit ((rows.map MarketBarRow.barStartAt).toFinset.card : Int)
  increasing : out.Pairwise (fun bar bar' => bar.timestamp < bar'.timestamp)
  latest : ∀ row ∈ rows, (∃ bar ∈ out, bar.timestamp = row.barStartAt) ∨
    ∀ bar ∈ out, row.barStartAt < bar.timestamp
  represented : ∀ bar ∈ out, ∃ row ∈ rows, row.bar = some bar ∧
    ∀ row' ∈ rows, row'.barStartAt = bar.timestamp → row'.revisionKey ≤ row.revisionKey

/-- The quote to return of the visible rows: the greatest, if there is one. -/
def QuoteReference (rows : List MarketQuoteRow) (found : Option MarketQuote) : Prop :=
  (found = none ↔ rows = []) ∧
    ∀ quote ∈ found, ∃ row ∈ rows, row.quote = some quote ∧
      ∀ row' ∈ rows, row'.readKey ≤ row.readKey

/-- The rows are filed by their content hash, and their values satisfy the
contracts. -/
structure ContractRows (db : MarketDb) : Prop where
  bars_keyed : ∀ hash row, db.barObservations.get? hash = some row → row.contentHash = hash
  bars_accepted : ∀ row ∈ db.barObservations.values, ∃ bar, row.bar = some bar
  quotes_keyed : ∀ hash row, db.quoteObservations.get? hash = some row → row.contentHash = hash
  quotes_accepted : ∀ row ∈ db.quoteObservations.values, ∃ quote, row.quote = some quote

section Determined

variable {rows : List MarketBarRow} {limit : Int} {out out' : List MarketBar}

/-- The order of the query compares starts first. -/
theorem MarketBarRow.readKey_eq (row : MarketBarRow) :
    row.readKey = toLex (row.barStartAt, row.revisionKey) := rfl

/-- A rebuilt bar starts when its row says. -/
theorem MarketBarRow.timestamp_of_bar {row : MarketBarRow} {bar : MarketBar}
    (h : row.bar = some bar) : bar.timestamp = row.barStartAt := by
  rw [MarketBarRow.fields_of_bar h]
  rfl

/-- The starts of a list of bars. -/
def startsOf (out : List MarketBar) : Finset UtcDatetime :=
  (out.map (fun bar => bar.timestamp)).toFinset

theorem mem_startsOf {start : UtcDatetime} :
    start ∈ startsOf out ↔ ∃ bar ∈ out, bar.timestamp = start := by
  simp [startsOf]

theorem BarsReference.card_startsOf (h : BarsReference rows limit out) :
    (startsOf out).card = out.length := by
  have hnodup : (out.map (fun bar => bar.timestamp)).Nodup :=
    List.pairwise_map.mpr (h.increasing.imp (fun hlt => hlt.ne))
  rw [startsOf, List.toFinset_card_of_nodup hnodup, List.length_map]

/-- A start that is returned is that of a visible row. -/
theorem BarsReference.exists_row (h : BarsReference rows limit out) {start : UtcDatetime}
    (hstart : start ∈ startsOf out) : ∃ row ∈ rows, row.barStartAt = start := by
  obtain ⟨bar, hbar, rfl⟩ := mem_startsOf.mp hstart
  obtain ⟨row, hrow, hrebuilt, -⟩ := h.represented bar hbar
  exact ⟨row, hrow, (MarketBarRow.timestamp_of_bar hrebuilt).symm⟩

/-- **The latest starts are determined.**  Of two sets of latest starts, one
contains the other, and they are equally many. -/
theorem BarsReference.startsOf_subset (h : BarsReference rows limit out)
    (h' : BarsReference rows limit out') : startsOf out ⊆ startsOf out' := by
  intro start hstart
  by_contra hmissing
  obtain ⟨row, hrow, rfl⟩ := h.exists_row hstart
  have hbelow : ∀ bar ∈ out', row.barStartAt < bar.timestamp := by
    rcases h'.latest row hrow with hfound | hbelow
    · exact absurd (mem_startsOf.mpr hfound) hmissing
    · exact hbelow
  have hsubset : startsOf out' ⊆ startsOf out := by
    intro start' hstart'
    obtain ⟨bar', hbar', rfl⟩ := mem_startsOf.mp hstart'
    obtain ⟨row', hrow', heq⟩ := h'.exists_row hstart'
    rcases h.latest row' hrow' with hfound | hbelow'
    · rw [← heq]
      exact mem_startsOf.mpr hfound
    · obtain ⟨bar, hbar, hbarStart⟩ := mem_startsOf.mp hstart
      have hlt := hbelow' bar hbar
      rw [heq, hbarStart] at hlt
      exact absurd (hbelow bar' hbar') (not_lt.mpr hlt.le)
  have hcard : (startsOf out).card ≤ (startsOf out').card := by
    have hcount := h.count.trans h'.count.symm
    rw [h.card_startsOf, h'.card_startsOf]
    exact_mod_cast hcount.le
  exact hmissing (Finset.eq_of_subset_of_card_le hsubset hcard ▸ hstart)

/-- The content hash is part of the revision key. -/
theorem MarketBarRow.contentHash_eq_of_revisionKey {row row' : MarketBarRow}
    (h : row.revisionKey = row'.revisionKey) : row.contentHash = row'.contentHash := by
  simp only [MarketBarRow.revisionKey, EmbeddingLike.apply_eq_iff_eq, Prod.mk.injEq] at h
  exact h.2.2

theorem MarketQuoteRow.contentHash_eq_of_readKey {row row' : MarketQuoteRow}
    (h : row.readKey = row'.readKey) : row.contentHash = row'.contentHash := by
  simp only [MarketQuoteRow.readKey, EmbeddingLike.apply_eq_iff_eq, Prod.mk.injEq] at h
  exact h.2.2.2

/-- The bar of a start is determined. -/
theorem BarsReference.mem_of_mem (h : BarsReference rows limit out)
    (h' : BarsReference rows limit out')
    (hkeys : ∀ row ∈ rows, ∀ row' ∈ rows, row.contentHash = row'.contentHash → row = row')
    {bar : MarketBar} (hbar : bar ∈ out) : bar ∈ out' := by
  obtain ⟨bar', hbar', hstart⟩ := mem_startsOf.mp
    (h.startsOf_subset h' (mem_startsOf.mpr ⟨bar, hbar, rfl⟩))
  obtain ⟨row, hrow, hrebuilt, hgreatest⟩ := h.represented bar hbar
  obtain ⟨row', hrow', hrebuilt', hgreatest'⟩ := h'.represented bar' hbar'
  have hrowStart := MarketBarRow.timestamp_of_bar hrebuilt
  have hrowStart' := MarketBarRow.timestamp_of_bar hrebuilt'
  have hkey : row.revisionKey = row'.revisionKey := by
    apply le_antisymm
    · exact hgreatest' row hrow (by rw [hstart, hrowStart])
    · exact hgreatest row' hrow' (by rw [← hstart, hrowStart'])
  have hsame := hkeys row hrow row' hrow' (MarketBarRow.contentHash_eq_of_revisionKey hkey)
  subst hsame
  obtain rfl := Option.some.inj (hrebuilt.symm.trans hrebuilt')
  exact hbar'

/-- **The bars to return are determined.** -/
theorem BarsReference.unique (h : BarsReference rows limit out)
    (h' : BarsReference rows limit out')
    (hkeys : ∀ row ∈ rows, ∀ row' ∈ rows, row.contentHash = row'.contentHash → row = row') :
    out' = out := by
  have hne : ∀ {bar bar' : MarketBar}, bar.timestamp < bar'.timestamp → bar ≠ bar' := by
    rintro bar _ hlt rfl
    exact absurd hlt (lt_irrefl _)
  have hperm : out'.Perm out := by
    refine (List.perm_ext_iff_of_nodup (h'.increasing.imp hne) (h.increasing.imp hne)).mpr ?_
    intro bar
    exact ⟨h'.mem_of_mem h hkeys, h.mem_of_mem h' hkeys⟩
  refine List.Perm.eq_of_pairwise ?_ h'.increasing h.increasing hperm
  intro bar bar' _ _ hlt hgt
  exact absurd hlt hgt.asymm

/-- The quote to return is determined. -/
theorem QuoteReference.unique {rows : List MarketQuoteRow} {found found' : Option MarketQuote}
    (h : QuoteReference rows found) (h' : QuoteReference rows found')
    (hkeys : ∀ row ∈ rows, ∀ row' ∈ rows, row.contentHash = row'.contentHash → row = row') :
    found' = found := by
  obtain ⟨hnone, hsome⟩ := h
  obtain ⟨hnone', hsome'⟩ := h'
  cases found with
  | none => exact hnone'.mpr (hnone.mp rfl)
  | some quote =>
      cases found' with
      | none => exact absurd (hnone.mpr (hnone'.mp rfl)) (by simp)
      | some quote' =>
          obtain ⟨row, hrow, hrebuilt, hgreatest⟩ := hsome quote rfl
          obtain ⟨row', hrow', hrebuilt', hgreatest'⟩ := hsome' quote' rfl
          have hkey : row.readKey = row'.readKey :=
            le_antisymm (hgreatest' row hrow) (hgreatest row' hrow')
          have hsame := hkeys row hrow row' hrow' (MarketQuoteRow.contentHash_eq_of_readKey hkey)
          subst hsame
          exact hrebuilt'.symm.trans hrebuilt

end Determined

section Rows

/-- Among the rows of one start, the order of the query is that of revisions. -/
theorem MarketBarRow.revisionKey_le {row row' : MarketBarRow}
    (hstart : row'.barStartAt = row.barStartAt) (hle : row'.readKey ≤ row.readKey) :
    row'.revisionKey ≤ row.revisionKey := by
  rw [MarketBarRow.readKey_eq, MarketBarRow.readKey_eq] at hle
  rcases Prod.Lex.toLex_le_toLex.mp hle with hlt | ⟨-, hle⟩
  · exact absurd hstart hlt.ne
  · exact hle

/-- The rows `bars` rebuilds: the first of each of the latest starts. -/
def latestRows (limit : Int) (rows : List MarketBarRow) : List MarketBarRow :=
  (firstsFrom MarketBarRow.barStartAt [] (sortedByDesc MarketBarRow.readKey rows)).take
    limit.toNat

theorem length_latestRows {limit : Int} (rows : List MarketBarRow) :
    (latestRows limit rows).length =
      min limit.toNat (rows.map MarketBarRow.barStartAt).toFinset.card := by
  have hperm : (sortedByDesc MarketBarRow.readKey rows).Perm rows := sortedBy_perm _ rows
  rw [latestRows, List.length_take, length_firstsFrom,
    List.toFinset_eq_of_perm _ _ (hperm.map _)]

theorem descending_starts (rows : List MarketBarRow) :
    (sortedByDesc MarketBarRow.readKey rows).Pairwise
      (fun row row' => row'.barStartAt ≤ row.barStartAt) := by
  refine (sortedByDesc_sorted MarketBarRow.readKey rows).imp ?_
  intro row row' hle
  exact (Prod.Lex.toLex_le_toLex.mp hle).elim le_of_lt (fun hand => hand.1.le)

/-- Rows filed by their content hash are told apart by it. -/
theorem eq_of_contentHash_eq {ρ : Type*} {rows : InsertionDict String ρ}
    {contentHash : ρ → String} (hkeyed : ∀ hash row, rows.get? hash = some row →
      contentHash row = hash) {row row' : ρ} (hrow : row ∈ rows.values)
    (hrow' : row' ∈ rows.values) (hsame : contentHash row = contentHash row') : row = row' := by
  obtain ⟨hash, hget⟩ := InsertionDict.mem_values_iff_get?.mp hrow
  obtain ⟨hash', hget'⟩ := InsertionDict.mem_values_iff_get?.mp hrow'
  rw [hkeyed hash row hget, hkeyed hash' row' hget'] at hsame
  subst hsame
  exact Option.some.inj (hget.symm.trans hget')

end Rows

section Reads

variable [CharacterTables] {db : MarketDb} {provider symbol timeframe : String} {limit : Int}
  {asOf : Option UtcDatetime} {finalOnly : Bool}

/-- The bars that are returned are those of the selected rows, oldest first. -/
theorem MarketDb.forall₂_of_bars {out : List MarketBar} (hlimit : 1 ≤ limit)
    (h : db.bars provider symbol timeframe limit asOf finalOnly = some out) :
    List.Forall₂ (fun row bar => row.bar = some bar)
      (latestRows limit (barRows db provider symbol timeframe asOf finalOnly)).reverse out := by
  have hselected : selectRows limit (sortedByDesc MarketBarRow.readKey
      (barRows db provider symbol timeframe asOf finalOnly)) [] [] =
      latestRows limit (barRows db provider symbol timeframe asOf finalOnly) := by
    rw [selectRows_eq _ _ (by rw [List.length_nil]; omega), List.nil_append, List.length_nil,
      latestRows, Nat.cast_zero, sub_zero]
  rw [← hselected]
  exact forall₂_of_traverse h

/-- **Bars.**  What `bars` returns is what its reference asks for. -/
theorem MarketDb.barsReference_of_bars {out : List MarketBar} (hlimit : 1 ≤ limit)
    (h : db.bars provider symbol timeframe limit asOf finalOnly = some out) :
    BarsReference (barRows db provider symbol timeframe asOf finalOnly) limit out := by
  have hmatches := forall₂_of_bars hlimit h
  generalize hrows : barRows db provider symbol timeframe asOf finalOnly = rows at hmatches
  have hstarts : out.map (fun bar => bar.timestamp) =
      (latestRows limit rows).reverse.map MarketBarRow.barStartAt := by
    rw [← List.forall₂_eq_eq_eq, List.forall₂_map_left_iff, List.forall₂_map_right_iff]
    exact hmatches.flip.imp (fun _ _ hrebuilt => MarketBarRow.timestamp_of_bar hrebuilt)
  constructor
  · have hlength : out.length = (latestRows limit rows).length := by
      rw [← hmatches.length_eq, List.length_reverse]
    rw [hlength, length_latestRows, Nat.cast_min, Int.toNat_of_nonneg (by omega)]
  · apply List.pairwise_map.mp
    rw [hstarts, List.map_reverse, List.pairwise_reverse, List.pairwise_map]
    exact (firstsFrom_pairwise_lt (descending_starts rows)).sublist (List.take_sublist _ _)
  · intro row hrow
    have hmem : ∀ start, (∃ bar ∈ out, bar.timestamp = start) ↔
        ∃ row ∈ latestRows limit rows, row.barStartAt = start := by
      intro start
      rw [← mem_startsOf, startsOf, hstarts]
      simp
    rcases taken_or_lt (descending_starts rows) limit.toNat (mem_sortedByDesc.mpr hrow) with
      htaken | hbelow
    · exact Or.inl ((hmem _).mpr htaken)
    · refine Or.inr ?_
      intro bar hbar
      obtain ⟨row', hrow', hstart⟩ := (hmem _).mp ⟨bar, hbar, rfl⟩
      rw [← hstart]
      exact hbelow row' hrow'
  · intro bar hbar
    obtain ⟨row, ⟨hrow, hgreatest⟩, hrebuilt⟩ := latestRevision_of_bars hlimit h hbar
    rw [hrows] at hrow hgreatest
    have hstart := MarketBarRow.timestamp_of_bar hrebuilt
    refine ⟨row, hrow, hrebuilt, ?_⟩
    intro row' hrow' hstart'
    have hsame := hstart'.trans hstart
    exact MarketBarRow.revisionKey_le hsame (hgreatest row' hrow' hsame)

/-- **Quotes.**  What `latest_quote` returns is what its reference asks for. -/
theorem MarketDb.quoteReference_of_latestQuote {found : Option MarketQuote}
    (h : db.latestQuote provider symbol asOf = some found) :
    QuoteReference (quoteRows db provider symbol asOf) found := by
  cases found with
  | none => exact ⟨iff_of_true rfl (latestQuote_eq_none h), fun _ hquote => by cases hquote⟩
  | some quote =>
      obtain ⟨row, hrow, hrebuilt, hgreatest⟩ := latestQuote_eq_some h
      refine ⟨iff_of_false (by simp) (List.ne_nil_of_mem hrow), ?_⟩
      rintro _ ⟨⟩
      exact ⟨row, hrow, hrebuilt, hgreatest⟩

/-- **Reads equal their reference.**  On tables of rows that satisfy the
contracts, both reads succeed and return the one result their reference asks
for. -/
theorem reads_equal_reference (hrows : ContractRows db) (provider symbol timeframe : String)
    {limit : Int} (hlimit : 1 ≤ limit) (asOf : Option UtcDatetime) (finalOnly : Bool) :
    (∃ out, db.bars provider symbol timeframe limit asOf finalOnly = some out ∧
      ∀ out', BarsReference (db.barRows provider symbol timeframe asOf finalOnly) limit out' ↔
        out' = out) ∧
    ∃ found, db.latestQuote provider symbol asOf = some found ∧
      ∀ found', QuoteReference (db.quoteRows provider symbol asOf) found' ↔ found' = found := by
  constructor
  · obtain ⟨out, hout⟩ : ∃ out,
        db.bars provider symbol timeframe limit asOf finalOnly = some out :=
      MarketDb.bars_succeeds hlimit
        (fun row hlatest => hrows.bars_accepted row (List.mem_of_mem_filter hlatest.1))
    have hreference := MarketDb.barsReference_of_bars hlimit hout
    refine ⟨out, hout, ?_⟩
    intro out'
    constructor
    · intro hreference'
      refine hreference.unique hreference' ?_
      intro row hrow row' hrow'
      exact eq_of_contentHash_eq hrows.bars_keyed (List.mem_of_mem_filter hrow)
        (List.mem_of_mem_filter hrow')
    · rintro rfl
      exact hreference
  · obtain ⟨found, hfound⟩ : ∃ found, db.latestQuote provider symbol asOf = some found :=
      MarketDb.latestQuote_succeeds
        (fun row hrow => hrows.quotes_accepted row (List.mem_of_mem_filter hrow))
    have hreference := MarketDb.quoteReference_of_latestQuote hfound
    refine ⟨found, hfound, ?_⟩
    intro found'
    constructor
    · intro hreference'
      refine hreference.unique hreference' ?_
      intro row hrow row' hrow'
      exact eq_of_contentHash_eq hrows.quotes_keyed (List.mem_of_mem_filter hrow)
        (List.mem_of_mem_filter hrow')
    · rintro rfl
      exact hreference

end Reads

section Sample

/-- The tables after a bar, its correction and a quote were saved. -/
@[reducible] def correctedTables : MarketDb :=
  letI := sampleDigest
  MarketDb.empty.afterAttempts [⟨.saveBars [sampleBar 60, sampleCorrection 120], false⟩,
    ⟨.saveQuote (sampleQuote 60), false⟩]

theorem correctedTables_contractRows : ContractRows correctedTables := by
  refine ⟨?_, ?_, ?_, ?_⟩
  · have hkeyed : ∀ entry ∈ correctedTables.barObservations.entries,
        entry.2.contentHash = entry.1 := by
      decide +kernel
    exact InsertionDict.forall_get? hkeyed
  · have hbars : ∀ row ∈ correctedTables.barObservations.values, row.bar.isSome := by
      decide +kernel
    exact fun row hrow => Option.isSome_iff_exists.mp (hbars row hrow)
  · have hkeyed : ∀ entry ∈ correctedTables.quoteObservations.entries,
        entry.2.contentHash = entry.1 := by
      decide +kernel
    exact InsertionDict.forall_get? hkeyed
  · have hquotes : ∀ row ∈ correctedTables.quoteObservations.values, row.quote.isSome := by
      decide +kernel
    exact fun row hrow => Option.isSome_iff_exists.mp (hquotes row hrow)

end Sample

/-- The reads of a corrected bar and a quote. -/
theorem reads_equal_reference_corrected :
    let _ : CharacterTables := asciiTables
    (∃ out, correctedTables.bars "fixture-market" "acme" "1m" 10 none true = some out ∧
      ∀ out', BarsReference (correctedTables.barRows "fixture-market" "acme" "1m" none true)
        10 out' ↔ out' = out) ∧
    ∃ found, correctedTables.latestQuote "fixture-market" "acme" none = some found ∧
      ∀ found', QuoteReference (correctedTables.quoteRows "fixture-market" "acme" none) found' ↔
        found' = found := by
  intro _
  exact reads_equal_reference correctedTables_contractRows "fixture-market" "acme" "1m"
    (by decide) none true

end EventAlpha
