import EventAlpha.MarketRepository

/-!
# What the market reads return

`latest_quote` returns the greatest of the rows it selects in the order of its
query.  `bars` returns one bar for each start: the loop over the rows in
descending order keeps the first of every start (`selectRows_eq`), which is
the greatest of its start.  A read raises only where a row it has to return
cannot be rebuilt.
-/

namespace EventAlpha

open KeyedOrder ObservationLog

section Traverse

theorem mem_of_traverse {α β : Type*} {f : α → Option β} {l : List α} {out : List β}
    (h : traverse f l = some out) {b : β} (hb : b ∈ out) : ∃ a ∈ l, f a = some b := by
  induction l generalizing out with
  | nil =>
      cases h
      exact absurd hb List.not_mem_nil
  | cons a l ih =>
      obtain ⟨first, hfirst, h⟩ := Option.bind_eq_some_iff.mp h
      obtain ⟨rest, hrest, rfl⟩ := Option.map_eq_some_iff.mp h
      rcases List.mem_cons.mp hb with rfl | hb
      · exact ⟨a, List.mem_cons_self, hfirst⟩
      · obtain ⟨a', ha', hfa'⟩ := ih hrest hb
        exact ⟨a', List.mem_cons_of_mem a ha', hfa'⟩

theorem traverse_covers {α β : Type*} {f : α → Option β} {l : List α} {out : List β}
    (h : traverse f l = some out) {a : α} (ha : a ∈ l) : ∃ b ∈ out, f a = some b := by
  induction l generalizing out with
  | nil => cases ha
  | cons c l ih =>
      obtain ⟨first, hfirst, h⟩ := Option.bind_eq_some_iff.mp h
      obtain ⟨rest, hrest, rfl⟩ := Option.map_eq_some_iff.mp h
      rcases List.mem_cons.mp ha with rfl | ha
      · exact ⟨first, List.mem_cons_self, hfirst⟩
      · obtain ⟨b, hb, hfa⟩ := ih hrest ha
        exact ⟨b, List.mem_cons_of_mem first hb, hfa⟩

theorem exists_traverse {α β : Type*} {f : α → Option β} {l : List α}
    (h : ∀ a ∈ l, ∃ b, f a = some b) : ∃ out, traverse f l = some out := by
  induction l with
  | nil => exact ⟨[], rfl⟩
  | cons a l ih =>
      obtain ⟨b, hb⟩ := h a List.mem_cons_self
      obtain ⟨out, hout⟩ := ih (fun a' ha' => h a' (List.mem_cons_of_mem a ha'))
      refine ⟨b :: out, ?_⟩
      rw [traverse, hb, Option.bind_some, hout, Option.map_some]

/-- The results stand in the order of the list. -/
theorem forall₂_of_traverse {α β : Type*} {f : α → Option β} {l : List α} {out : List β}
    (h : traverse f l = some out) : List.Forall₂ (fun a b => f a = some b) l out := by
  induction l generalizing out with
  | nil =>
      cases h
      exact List.Forall₂.nil
  | cons a l ih =>
      obtain ⟨first, hfirst, h⟩ := Option.bind_eq_some_iff.mp h
      obtain ⟨rest, hrest, rfl⟩ := Option.map_eq_some_iff.mp h
      exact List.Forall₂.cons hfirst (ih hrest)

/-- What relates the list to its results relates each element to its own. -/
theorem exists_rel_of_traverse {α β : Type*} {f : α → Option β} {related : α → β → Prop}
    {l : List α} {out : List β} (h : traverse f l = some out)
    (hrelated : List.Forall₂ related l out) {a : α} (ha : a ∈ l) :
    ∃ b, f a = some b ∧ related a b := by
  induction l generalizing out with
  | nil => cases ha
  | cons c l ih =>
      obtain ⟨first, hfirst, h⟩ := Option.bind_eq_some_iff.mp h
      obtain ⟨rest, hrest, rfl⟩ := Option.map_eq_some_iff.mp h
      obtain ⟨hhead, htail⟩ := List.forall₂_cons.mp hrelated
      rcases List.mem_cons.mp ha with rfl | ha
      · exact ⟨first, hfirst, hhead⟩
      · exact ih hrest htail ha

end Traverse

namespace MarketDb

section Selection

/-- The loop of `bars` selects the first row of every start, up to the
limit. -/
theorem selectRows_eq {limit : Int} (rows : List MarketBarRow) (seenStarts : List UtcDatetime)
    {selected : List MarketBarRow} (hlimit : (selected.length : Int) < limit) :
    selectRows limit rows seenStarts selected =
      selected ++ (firstsFrom MarketBarRow.barStartAt seenStarts rows).take
        (limit - selected.length).toNat := by
  fun_induction selectRows limit rows seenStarts selected with
  | case1 seenStarts selected => simp [firstsFrom]
  | case2 row rows seenStarts selected hseen ih =>
      rw [ih hlimit, firstsFrom, if_pos hseen]
  | case3 row rows seenStarts selected hseen hfull =>
      have hone : (limit - selected.length).toNat = 1 := by
        rw [List.length_append, List.length_singleton] at hfull
        omega
      rw [firstsFrom, if_neg hseen, hone, List.take_succ_cons, List.take_zero]
  | case4 row rows seenStarts selected hseen hfull ih =>
      rw [List.length_append, List.length_singleton] at hfull ih
      have hnext : (limit - selected.length).toNat =
          (limit - ((selected.length + 1 : ℕ) : Int)).toNat + 1 := by
        omega
      rw [ih (by omega), firstsFrom, if_neg hseen, hnext, List.take_succ_cons,
        List.append_assoc, List.singleton_append]

/-- A selected row is one of the rows read. -/
theorem mem_of_mem_selectRows {limit : Int} {rows selected : List MarketBarRow}
    {seenStarts : List UtcDatetime} {row : MarketBarRow}
    (h : row ∈ selectRows limit rows seenStarts selected) : row ∈ selected ∨ row ∈ rows := by
  fun_induction selectRows limit rows seenStarts selected with
  | case1 => exact Or.inl h
  | case2 first rows seenStarts selected hseen ih =>
      exact (ih h).imp_right (List.mem_cons_of_mem first)
  | case3 first rows seenStarts selected hseen hfull =>
      rw [List.mem_append, List.mem_singleton] at h
      rcases h with h | rfl
      · exact Or.inl h
      · exact Or.inr List.mem_cons_self
  | case4 first rows seenStarts selected hseen hfull ih =>
      rcases ih h with h | h
      · rw [List.mem_append, List.mem_singleton] at h
        rcases h with h | rfl
        · exact Or.inl h
        · exact Or.inr List.mem_cons_self
      · exact Or.inr (List.mem_cons_of_mem first h)

/-- A row that no other row of its start follows in the order of the read. -/
def LatestRevision (rows : List MarketBarRow) (row : MarketBarRow) : Prop :=
  row ∈ rows ∧
    ∀ row' ∈ rows, row'.barStartAt = row.barStartAt → row'.readKey ≤ row.readKey

/-- Among the rows of one start, the read prefers later receipts. -/
theorem receivedAt_le_of_readKey_le {row row' : MarketBarRow}
    (hstart : row'.barStartAt = row.barStartAt) (hle : row'.readKey ≤ row.readKey) :
    row'.receivedAt ≤ row.receivedAt := by
  rcases Prod.Lex.toLex_le_toLex.mp hle with hlt | ⟨-, hle⟩
  · exact absurd hstart hlt.ne
  · rcases Prod.Lex.toLex_le_toLex.mp hle with hlt | ⟨heq, -⟩
    · exact hlt.le
    · exact heq.le

/-- Among all rows, the read of a quote prefers later effective times, and then
later receipts. -/
theorem rank_le_of_readKey_le {row row' : MarketQuoteRow} (hle : row'.readKey ≤ row.readKey) :
    toLex (row'.providerTimestamp.getD row'.receivedAt, row'.receivedAt) ≤
      toLex (row.providerTimestamp.getD row.receivedAt, row.receivedAt) := by
  rw [Prod.Lex.toLex_le_toLex]
  rcases Prod.Lex.toLex_le_toLex.mp hle with hlt | ⟨heq, hle⟩
  · exact Or.inl hlt
  · rcases Prod.Lex.toLex_le_toLex.mp hle with hlt | ⟨heq', -⟩
    · exact Or.inr ⟨heq, hlt.le⟩
    · exact Or.inr ⟨heq, heq'.le⟩

/-- Every selected row is the latest revision of its start. -/
theorem latestRevision_of_mem_selectRows {limit : Int} {rows : List MarketBarRow}
    {row : MarketBarRow} (hlimit : 1 ≤ limit)
    (h : row ∈ selectRows limit (sortedByDesc MarketBarRow.readKey rows) [] []) :
    LatestRevision rows row := by
  rw [selectRows_eq _ _ (by rw [List.length_nil]; omega), List.nil_append] at h
  have hfirst := List.mem_of_mem_take h
  refine ⟨mem_sortedByDesc.mp ((firstsFrom_sublist [] _).subset hfirst), ?_⟩
  intro row' hrow' hstart
  have hsorted := sortedByDesc_sorted MarketBarRow.readKey rows
  exact rel_of_mem_firstsFrom (fun row => le_refl row.readKey) hsorted hfirst
    (mem_sortedByDesc.mpr hrow') hstart

/-- Under a limit that is not reached, every start is selected. -/
theorem exists_mem_selectRows {limit : Int} {rows : List MarketBarRow} {row : MarketBarRow}
    (hrow : row ∈ rows) (hlimit : (rows.length : Int) ≤ limit) :
    ∃ row' ∈ selectRows limit (sortedByDesc MarketBarRow.readKey rows) [] [],
      row'.barStartAt = row.barStartAt := by
  have hpositive : 0 < rows.length := List.length_pos_of_mem hrow
  have hlength : (sortedByDesc MarketBarRow.readKey rows).length = rows.length :=
    (sortedBy_perm _ rows).length_eq
  have hfirsts : (firstsFrom MarketBarRow.barStartAt []
      (sortedByDesc MarketBarRow.readKey rows)).length ≤
      (sortedByDesc MarketBarRow.readKey rows).length :=
    (firstsFrom_sublist [] _).length_le
  rw [selectRows_eq _ _ (by rw [List.length_nil]; omega), List.nil_append,
    List.take_of_length_le (by rw [List.length_nil]; omega)]
  exact exists_firstsFrom (mem_sortedByDesc.mpr hrow) List.not_mem_nil

end Selection

section Reads

variable [CharacterTables]

/-- The row `latest_quote` returns is the greatest of those it selects. -/
theorem latestQuote_eq_some {db : MarketDb} {provider symbol : String}
    {asOf : Option UtcDatetime} {quote : MarketQuote}
    (h : db.latestQuote provider symbol asOf = some (some quote)) :
    ∃ row ∈ quoteRows db provider symbol asOf, row.quote = some quote ∧
      ∀ row' ∈ quoteRows db provider symbol asOf, row'.readKey ≤ row.readKey := by
  unfold latestQuote at h
  generalize hhead : (sortedByDesc MarketQuoteRow.readKey
    (quoteRows db provider symbol asOf)).head? = head at h
  cases head with
  | none => cases h
  | some row =>
      obtain ⟨hmem, hgreatest⟩ := head?_sortedByDesc hhead
      simp only [Option.map_eq_some_iff, Option.some.injEq, exists_eq_right] at h
      exact ⟨row, hmem, h, hgreatest⟩

/-- `latest_quote` finds nothing only if it selects no row. -/
theorem latestQuote_eq_none {db : MarketDb} {provider symbol : String}
    {asOf : Option UtcDatetime}
    (h : db.latestQuote provider symbol asOf = some none) :
    quoteRows db provider symbol asOf = [] := by
  unfold latestQuote at h
  generalize hhead : (sortedByDesc MarketQuoteRow.readKey
    (quoteRows db provider symbol asOf)).head? = head at h
  cases head with
  | none =>
      have hnil := List.head?_eq_none_iff.mp hhead
      apply List.eq_nil_of_length_eq_zero
      exact (sortedBy_perm _ _).length_eq.symm.trans (congrArg List.length hnil)
  | some row =>
      obtain ⟨quote, -, hquote⟩ := Option.map_eq_some_iff.mp h
      cases hquote

/-- `latest_quote` raises only if a row it selects cannot be rebuilt. -/
theorem latestQuote_succeeds {db : MarketDb} {provider symbol : String}
    {asOf : Option UtcDatetime}
    (h : ∀ row ∈ quoteRows db provider symbol asOf, ∃ quote, row.quote = some quote) :
    ∃ found, db.latestQuote provider symbol asOf = some found := by
  unfold latestQuote
  generalize hhead : (sortedByDesc MarketQuoteRow.readKey
    (quoteRows db provider symbol asOf)).head? = head
  cases head with
  | none => exact ⟨none, rfl⟩
  | some row =>
      obtain ⟨quote, hquote⟩ := h row (head?_sortedByDesc hhead).1
      exact ⟨some quote, congrArg (Option.map some) hquote⟩

/-- Every bar that is returned is rebuilt from a row that was selected. -/
theorem exists_row_of_bars {db : MarketDb} {provider symbol timeframe : String}
    {limit : Int} {asOf : Option UtcDatetime} {finalOnly : Bool} {out : List MarketBar}
    (h : db.bars provider symbol timeframe limit asOf finalOnly = some out) {bar : MarketBar}
    (hbar : bar ∈ out) :
    ∃ row ∈ barRows db provider symbol timeframe asOf finalOnly, row.bar = some bar := by
  obtain ⟨row, hrow, hrebuilt⟩ := mem_of_traverse h hbar
  rcases mem_of_mem_selectRows (List.mem_reverse.mp hrow) with hrow | hrow
  · exact absurd hrow List.not_mem_nil
  · exact ⟨row, mem_sortedByDesc.mp hrow, hrebuilt⟩

variable {db : MarketDb} {provider symbol timeframe : String} {limit : Int}
  {asOf : Option UtcDatetime} {finalOnly : Bool} {out : List MarketBar}

/-- Every bar that is returned is rebuilt from the latest revision of its
start. -/
theorem latestRevision_of_bars (hlimit : 1 ≤ limit)
    (h : db.bars provider symbol timeframe limit asOf finalOnly = some out) {bar : MarketBar}
    (hbar : bar ∈ out) :
    ∃ row, LatestRevision (barRows db provider symbol timeframe asOf finalOnly) row ∧
      row.bar = some bar := by
  obtain ⟨row, hrow, hrebuilt⟩ := mem_of_traverse h hbar
  exact ⟨row, latestRevision_of_mem_selectRows hlimit (List.mem_reverse.mp hrow), hrebuilt⟩

/-- Under a limit that is not reached, a bar is returned for every start. -/
theorem exists_bar_of_bars
    (h : db.bars provider symbol timeframe limit asOf finalOnly = some out)
    {row : MarketBarRow} (hrow : row ∈ barRows db provider symbol timeframe asOf finalOnly)
    (hlimit : ((barRows db provider symbol timeframe asOf finalOnly).length : Int) ≤ limit) :
    ∃ bar ∈ out, bar.timestamp = row.barStartAt := by
  obtain ⟨row', hselected, hstart⟩ := exists_mem_selectRows hrow hlimit
  obtain ⟨bar, hbar, hrebuilt⟩ := traverse_covers h (List.mem_reverse.mpr hselected)
  refine ⟨bar, hbar, ?_⟩
  rw [MarketBarRow.fields_of_bar hrebuilt]
  exact hstart

/-- The read succeeds if the latest revisions can be rebuilt. -/
theorem bars_succeeds (hlimit : 1 ≤ limit)
    (h : ∀ row, LatestRevision (barRows db provider symbol timeframe asOf finalOnly) row →
      ∃ bar, row.bar = some bar) :
    ∃ out, db.bars provider symbol timeframe limit asOf finalOnly = some out := by
  apply exists_traverse
  intro row hrow
  exact h row (latestRevision_of_mem_selectRows hlimit (List.mem_reverse.mp hrow))

end Reads

end MarketDb

end EventAlpha
