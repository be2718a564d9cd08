import EventAlpha.MarketDataService

/-!
# Persist before publish

Only two moves of an operation change `_latest`: the return of `latest`, and
the moment `refresh_watchlist` goes back to its stream (`resume_cases`).  Both
follow a call of the store that returned, and nothing can raise between that
return and the publication.

`persist_before_publish` says what this guarantees in every run, with any
number of operations under way and any calls of the store raising.
-/

namespace EventAlpha

open RunLog

section Tables

/-- The quotes stored in one database are stored in the other. -/
def MarketDb.KeepsQuotes (db db' : MarketDb) : Prop :=
  ∀ contentHash row, db.quoteObservations.get? contentHash = some row →
    db'.quoteObservations.get? contentHash = some row

theorem MarketDb.KeepsQuotes.of_eq {db db' : MarketDb}
    (h : db'.quoteObservations = db.quoteObservations) : db.KeepsQuotes db' := by
  intro contentHash row hrow
  rwa [h]

theorem MarketDb.KeepsQuotes.trans {db db' db'' : MarketDb} (h : db.KeepsQuotes db')
    (h' : db'.KeepsQuotes db'') : db.KeepsQuotes db'' :=
  fun contentHash row hrow => h' contentHash row (h contentHash row hrow)

variable [Digest]

theorem MarketDb.saveQuote_keeps {db db' : MarketDb} {quote : MarketQuote} {inserted : Bool}
    (h : db.saveQuote quote = some (inserted, db')) : db.KeepsQuotes db' := by
  obtain ⟨contentHash, -, -, hsame | hnew⟩ := MarketDb.saveQuote_eq_some h
  · exact .of_eq hsame.2.1
  · obtain ⟨hkey, -, row, -, -, hquotes⟩ := hnew
    intro contentHash' row' hrow'
    rw [hquotes, InsertionDict.get?_set_of_ne]
    · exact hrow'
    · intro heq
      rw [heq, InsertionDict.get?_eq_none_iff.mpr hkey] at hrow'
      exact absurd hrow' (by simp)

/-- A quote that was saved has a row under its fingerprint. -/
theorem MarketDb.saveQuote_stores {db db' : MarketDb} {quote : MarketQuote} {inserted : Bool}
    (h : db.saveQuote quote = some (inserted, db')) :
    ∃ contentHash row, quoteFingerprint quote = some contentHash ∧
      db'.quoteObservations.get? contentHash = some row := by
  obtain ⟨contentHash, hhash, -, hsame | hnew⟩ := MarketDb.saveQuote_eq_some h
  · obtain ⟨hkey, hquotes, -⟩ := hsame
    obtain ⟨row, hrow⟩ := InsertionDict.mem_keys.mp hkey
    exact ⟨contentHash, row, hhash, by rw [hquotes, InsertionDict.get?_eq_some_iff.mpr hrow]⟩
  · obtain ⟨-, -, row, -, -, hquotes⟩ := hnew
    exact ⟨contentHash, row, hhash, by rw [hquotes, InsertionDict.get?_set_self]⟩

theorem MarketDb.saveBars_quotes {db db' : MarketDb} {bars : List MarketBar} {inserted : ℕ}
    (h : db.saveBars bars = some (inserted, db')) :
    db'.quoteObservations = db.quoteObservations := by
  induction bars using List.reverseRecOn generalizing inserted db' with
  | nil =>
      obtain ⟨-, rfl⟩ := Prod.mk.inj (Option.some.inj h)
      rfl
  | append_singleton bars bar ih =>
      rw [MarketDb.saveBars_snoc] at h
      obtain ⟨⟨first, middle⟩, hfirst, h⟩ := Option.bind_eq_some_iff.mp h
      obtain ⟨⟨added, last⟩, hbar, h⟩ := Option.map_eq_some_iff.mp h
      obtain ⟨-, rfl⟩ := Prod.mk.inj h
      obtain ⟨-, -, hquotes, -⟩ := MarketDb.saveBar_eq_some hbar
      rw [hquotes, ih hfirst]

theorem MarketCall.commit_keeps {db db' : MarketDb} {call : MarketCall}
    (h : call.commit db = some db') : db.KeepsQuotes db' := by
  cases call with
  | saveQuote quote =>
      obtain ⟨⟨inserted, saved⟩, hsave, rfl⟩ := Option.map_eq_some_iff.mp h
      exact MarketDb.saveQuote_keeps hsave
  | saveBars bars =>
      obtain ⟨⟨inserted, saved⟩, hsave, rfl⟩ := Option.map_eq_some_iff.mp h
      exact .of_eq (MarketDb.saveBars_quotes hsave)
  | recordSuccess => exact .of_eq (MarketDb.recordSuccess_frame h).2
  | recordFailure => exact .of_eq (MarketDb.recordFailure_frame h).2

variable [CharacterTables]

theorem StoreCall.commit_keeps {config : MarketConfig} {observedAt : UtcDatetime}
    {db db' : MarketDb} {call : StoreCall} {found : Option MarketQuote}
    (h : call.commit config observedAt db = some (found, db')) : db.KeepsQuotes db' := by
  cases call with
  | latestQuote symbol asOf =>
      obtain ⟨found', -, heq⟩ := Option.map_eq_some_iff.mp h
      exact .of_eq (by rw [← (Prod.mk.inj heq).2])
  | saveQuote quote watch =>
      obtain ⟨⟨inserted, saved⟩, hsave, heq⟩ := Option.map_eq_some_iff.mp h
      obtain ⟨-, rfl⟩ := Prod.mk.inj heq
      exact MarketDb.saveQuote_keeps hsave
  | recordSuccess quote watch =>
      obtain ⟨saved, hsave, heq⟩ := Option.map_eq_some_iff.mp h
      obtain ⟨-, rfl⟩ := Prod.mk.inj heq
      exact .of_eq (MarketDb.recordSuccess_frame hsave).2
  | recordFailure error watch =>
      obtain ⟨saved, hsave, heq⟩ := Option.map_eq_some_iff.mp h
      obtain ⟨-, rfl⟩ := Prod.mk.inj heq
      exact .of_eq (MarketDb.recordFailure_frame hsave).2
  | reportFailure error lastMessage =>
      obtain ⟨saved, hsave, heq⟩ := Option.map_eq_some_iff.mp h
      obtain ⟨-, rfl⟩ := Prod.mk.inj heq
      exact .of_eq (MarketDb.recordFailure_frame hsave).2

theorem Performs.keeps {config : MarketConfig} {db db' : MarketDb} {call : StoreCall}
    {reply : StoreReply} (h : Performs config db call reply db') : db.KeepsQuotes db' := by
  cases h with
  | returns observedAt hcommit => exact StoreCall.commit_keeps hcommit
  | raises error => exact .of_eq rfl
  | raisesAfter observedAt error hcommit => exact StoreCall.commit_keeps hcommit

end Tables

section Cache

/-- A remembered quote is the new one or one remembered before. -/
theorem mem_rememberQuote {latest : InsertionDict String MarketQuote} {quote cached : MarketQuote}
    (h : cached ∈ (rememberQuote latest quote).values) :
    cached = quote ∨ cached ∈ latest.values := by
  have hset : cached ∈ (latest.set quote.symbol quote).values →
      cached = quote ∨ cached ∈ latest.values := by
    intro hmem
    obtain ⟨symbol, hget⟩ := InsertionDict.mem_values_iff_get?.mp hmem
    rw [InsertionDict.get?_set] at hget
    split at hget
    · exact Or.inl (Option.some.inj hget).symm
    · exact Or.inr (InsertionDict.mem_values_iff_get?.mpr ⟨symbol, hget⟩)
  unfold rememberQuote at h
  split at h
  · exact hset h
  · split at h
    · exact hset h
    · exact Or.inr h

/-- Remembering lowers no rank. -/
theorem rank_rememberQuote {latest : InsertionDict String MarketQuote} {quote cached : MarketQuote}
    {symbol : String} (h : latest.get? symbol = some cached) :
    ∃ cached', (rememberQuote latest quote).get? symbol = some cached' ∧
      cached.quoteRank ≤ cached'.quoteRank := by
  unfold rememberQuote
  split
  · rename_i hnone
    refine ⟨cached, ?_, le_refl _⟩
    rw [InsertionDict.get?_set_of_ne _ _ (fun heq => by rw [← heq, h] at hnone; simp at hnone)]
    exact h
  · rename_i current hcurrent
    split
    · rename_i hlt
      by_cases hsymbol : symbol = quote.symbol
      · subst hsymbol
        obtain rfl := Option.some.inj (h.symm.trans hcurrent)
        exact ⟨quote, InsertionDict.get?_set_self _ _ _, hlt.le⟩
      · exact ⟨cached, by rw [InsertionDict.get?_set_of_ne _ _ hsymbol, h], le_refl _⟩
    · exact ⟨cached, h, le_refl _⟩

end Cache

/-- The quote an operation is about to publish, once it is durable. -/
def Operation.holds : Operation → Option MarketQuote
  | .called (.latestQuote _ _) (.ok found) => found
  | .called (.saveQuote quote _) (.ok _) => some quote
  | .calling (.recordSuccess quote _) => some quote
  | .called (.recordSuccess quote _) _ => some quote
  | _ => none

/-- What goes on after a call holds no other quote than the call. -/
theorem StoreCall.holds_resume {call : StoreCall} {reply : StoreReply}
    {latest : InsertionDict String MarketQuote} {quote : MarketQuote}
    (h : (call.resume latest reply).1.holds = some quote) :
    (Operation.called call reply).holds = some quote := by
  cases call with
  | latestQuote symbol asOf =>
      rcases reply with error | _ | found
      · exact absurd h (by simp [resume, Operation.holds])
      · exact absurd h (by simp [resume, Operation.holds])
      · exact absurd h (by simp [resume, Operation.holds])
  | saveQuote saved watch =>
      cases watch with
      | none =>
          rcases reply with error | found
          · exact absurd h (by simp [resume, Operation.holds])
          · exact absurd h (by simp [resume, Operation.holds])
      | some watch =>
          rcases reply with error | found
          · exact absurd h (by simp [resume, Operation.holds])
          · exact h
  | recordSuccess saved watch =>
      rcases reply with error | found
      · exact absurd h (by simp [resume, Operation.holds])
      · exact absurd h (by simp [resume, Operation.holds])
  | recordFailure error watch =>
      rcases reply with error' | found
      · exact absurd h (by simp [resume, Operation.holds])
      · by_cases hexhausted : watch.exhausted = true
        · exact absurd h (by simp [resume, hexhausted, Operation.holds])
        · exact absurd h (by simp [resume, hexhausted, Operation.holds])
  | reportFailure error lastMessage => exact absurd h (by simp [resume, Operation.holds])

/-- **Where quotes are published.**  An operation that goes on after a call
leaves `_latest` alone, or remembers the quote it holds and is done with it. -/
theorem StoreCall.resume_cases (latest : InsertionDict String MarketQuote) (call : StoreCall)
    (reply : StoreReply) :
    (call.resume latest reply).2 = latest ∨
      ∃ quote, (Operation.called call reply).holds = some quote ∧
        (call.resume latest reply).2 = rememberQuote latest quote ∧
        ((call.resume latest reply).1 = .returnedQuote quote ∨
          ∃ watch, (call.resume latest reply).1 = .streaming watch) := by
  cases call with
  | latestQuote symbol asOf =>
      rcases reply with error | _ | quote
      · exact Or.inl rfl
      · exact Or.inl rfl
      · exact Or.inr ⟨quote, rfl, rfl, Or.inl rfl⟩
  | saveQuote quote watch =>
      rcases reply with error | found
      · exact Or.inl (by cases watch <;> rfl)
      · cases watch with
        | none => exact Or.inr ⟨quote, rfl, rfl, Or.inl rfl⟩
        | some watch => exact Or.inl rfl
  | recordSuccess quote watch =>
      rcases reply with error | found
      · exact Or.inl rfl
      · exact Or.inr ⟨quote, rfl, rfl, Or.inr ⟨watch.delivered, rfl⟩⟩
  | recordFailure error watch =>
      rcases reply with error' | found
      · exact Or.inl rfl
      · left
        show (if watch.exhausted then _ else _ : Operation × InsertionDict String MarketQuote).2 =
          latest
        split <;> rfl
  | reportFailure error lastMessage => exact Or.inl rfl

section Durable

variable [CharacterTables] [Digest]

/-- A call of the store replied in a run. -/
def Replied (moves : List (Move MarketProcess MarketAction)) (call : StoreCall)
    (reply : StoreReply) : Prop :=
  ∃ move ∈ moves, ∃ op, move.action = .perform op ∧
    move.before.operations op = .calling call ∧ move.after.operations op = .called call reply

/-- The quote was saved in the run and has a row under its fingerprint, or it
was read from the store and is the content of a row. -/
inductive Durable (moves : List (Move MarketProcess MarketAction)) (db : MarketDb)
    (quote : MarketQuote) : Prop
  | saved {watch : Option Watch} (hreplied : Replied moves (.saveQuote quote watch) (.ok none))
      {contentHash : String} {row : MarketQuoteRow}
      (hhash : quoteFingerprint quote = some contentHash)
      (hrow : db.quoteObservations.get? contentHash = some row)
  | read {symbol : String} {asOf : Option UtcDatetime}
      (hreplied : Replied moves (.latestQuote symbol asOf) (.ok (some quote)))
      {contentHash : String} {row : MarketQuoteRow}
      (hrow : db.quoteObservations.get? contentHash = some row) (hquote : row.quote = some quote)

omit [CharacterTables] [Digest] in
theorem Replied.later {moves : List (Move MarketProcess MarketAction)} {call : StoreCall}
    {reply : StoreReply} (h : Replied moves call reply)
    (more : List (Move MarketProcess MarketAction)) : Replied (moves ++ more) call reply := by
  obtain ⟨move, hmem, hmove⟩ := h
  exact ⟨move, List.mem_append_left _ hmem, hmove⟩

omit [CharacterTables] in
theorem Durable.later {moves : List (Move MarketProcess MarketAction)} {db db' : MarketDb}
    {quote : MarketQuote} (h : Durable moves db quote) (hkeeps : db.KeepsQuotes db')
    (more : List (Move MarketProcess MarketAction)) : Durable (moves ++ more) db' quote := by
  cases h with
  | saved hreplied hhash hrow => exact .saved (hreplied.later more) hhash (hkeeps _ _ hrow)
  | read hreplied hrow hquote => exact .read (hreplied.later more) (hkeeps _ _ hrow) hquote

/-- Everything published, and everything about to be, is durable. -/
structure Published (moves : List (Move MarketProcess MarketAction)) (process : MarketProcess) :
    Prop where
  cached : ∀ quote ∈ process.latest.values, Durable moves process.db quote
  held : ∀ op quote, (process.operations op).holds = some quote → Durable moves process.db quote

omit [CharacterTables] in
/-- An operation that goes on with nothing new to publish. -/
theorem Published.enter {moves : List (Move MarketProcess MarketAction)}
    {process : MarketProcess} (h : Published moves process) (op : ℕ) {operation : Operation}
    (hholds : ∀ quote, operation.holds = some quote → Durable moves process.db quote) :
    Published moves (process.enter op operation) := by
  refine ⟨h.cached, ?_⟩
  intro op' quote hquote
  rw [MarketProcess.enter_operations] at hquote
  by_cases hop : op' = op
  · rw [if_pos hop] at hquote
    exact hholds quote hquote
  · rw [if_neg hop] at hquote
    exact h.held op' quote hquote

omit [CharacterTables] in
theorem Published.later {moves : List (Move MarketProcess MarketAction)}
    {process : MarketProcess} (h : Published moves process) {db' : MarketDb}
    (hkeeps : process.db.KeepsQuotes db') (more : List (Move MarketProcess MarketAction)) :
    Published (moves ++ more) { process with db := db' } :=
  ⟨fun quote hquote => (h.cached quote hquote).later hkeeps more,
    fun op quote hquote => (h.held op quote hquote).later hkeeps more⟩

/-- What a thread leaves behind when it replies is durable. -/
theorem Published.performed {moves : List (Move MarketProcess MarketAction)}
    {config : MarketConfig} {process : MarketProcess} (h : Published moves process) {op : ℕ}
    {call : StoreCall} {reply : StoreReply} {db' : MarketDb}
    (hcalling : process.operations op = .calling call)
    (hperforms : Performs config process.db call reply db') {process' : MarketProcess}
    (hprocess' : process' = { process.enter op (.called call reply) with db := db' })
    {quote : MarketQuote} (hholds : (Operation.called call reply).holds = some quote) :
    Durable (moves ++ [⟨process, .perform op, process'⟩]) db' quote := by
  have hreplied : Replied (moves ++ [⟨process, .perform op, process'⟩]) call reply := by
    refine ⟨_, List.mem_append_right _ (List.mem_singleton_self _), op, rfl, hcalling, ?_⟩
    simp [hprocess']
  cases call with
  | latestQuote symbol asOf =>
      rcases reply with error | found
      · exact absurd hholds (by simp [Operation.holds])
      · obtain rfl : found = some quote := hholds
        cases hperforms with
        | returns observedAt hcommit =>
            obtain ⟨found', hread, heq⟩ := Option.map_eq_some_iff.mp hcommit
            obtain ⟨rfl, rfl⟩ := Prod.mk.inj heq
            obtain ⟨row, hrow, hquote, -⟩ := MarketDb.latestQuote_eq_some hread
            obtain ⟨contentHash, hget⟩ :=
              InsertionDict.mem_values_iff_get?.mp (List.mem_of_mem_filter hrow)
            exact .read hreplied hget hquote
  | saveQuote saved watch =>
      rcases reply with error | found
      · exact absurd hholds (by simp [Operation.holds])
      · obtain rfl : saved = quote := Option.some.inj hholds
        cases hperforms with
        | returns observedAt hcommit =>
            obtain ⟨⟨inserted, stored⟩, hsave, heq⟩ := Option.map_eq_some_iff.mp hcommit
            obtain ⟨rfl, rfl⟩ := Prod.mk.inj heq
            obtain ⟨contentHash, row, hhash, hrow⟩ := MarketDb.saveQuote_stores hsave
            exact .saved hreplied hhash hrow
  | recordSuccess saved watch =>
      obtain rfl : saved = quote := by
        cases reply <;> exact Option.some.inj hholds
      have hheld := h.held op saved (by rw [hcalling]; rfl)
      exact hheld.later hperforms.keeps _
  | recordFailure error watch =>
      exact absurd hholds (by cases reply <;> simp [Operation.holds])
  | reportFailure error lastMessage =>
      exact absurd hholds (by cases reply <;> simp [Operation.holds])

omit [Digest] [CharacterTables] in
/-- An operation that has just begun holds nothing. -/
theorem MarketConfig.holds_begin (config : MarketConfig) (symbol : String)
    (asOf : Option UtcDatetime) (attempts : Int) [CharacterTables] :
    (config.beginLatest symbol asOf).holds = none ∧
      (config.beginRefresh attempts).holds = none := by
  unfold beginLatest beginRefresh
  refine ⟨?_, ?_⟩
  · split <;> rfl
  · split
    · rfl
    · split <;> rfl

omit [Digest] [CharacterTables] in
/-- Nor does one that has just heard from the provider. -/
theorem Operation.holds_provided {operation : Operation} {event : ProviderEvent}
    {quote : MarketQuote} (h : (operation.provided event).holds = some quote) :
    operation.holds = some quote := by
  unfold Operation.provided at h
  split at h
  · exact absurd h (by simp [Operation.holds])
  · exact absurd h (by simp [Operation.holds])
  · exact absurd h (by simp [Operation.holds])
  · exact absurd h (by simp [Operation.holds])
  · split at h
    · exact absurd h (by simp [Operation.holds])
    · exact absurd h (by simp [Operation.holds])
  · exact h

/-- **Step lemma.**  Every move publishes only what is durable. -/
theorem Published.step {moves : List (Move MarketProcess MarketAction)} {config : MarketConfig}
    {process process' : MarketProcess} {action : MarketAction} (h : Published moves process)
    (hstep : MarketStep config process action process') :
    Published (moves ++ [⟨process, action, process'⟩]) process' := by
  cases hstep with
  | latest op symbol asOf hidle =>
      apply (h.later (.of_eq rfl) _).enter op
      intro quote hquote
      rw [(config.holds_begin symbol asOf 0).1] at hquote
      exact absurd hquote (by simp)
  | refreshWatchlist op attempts hidle =>
      apply (h.later (.of_eq rfl) _).enter op
      intro quote hquote
      rw [(config.holds_begin "" none attempts).2] at hquote
      exact absurd hquote (by simp)
  | provide op event hawaits =>
      apply (h.later (.of_eq rfl) _).enter op
      intro quote hquote
      exact (h.held op quote (Operation.holds_provided hquote)).later (.of_eq rfl) _
  | @perform op call reply db' hcalling hperforms =>
      apply (h.later hperforms.keeps _).enter op
      intro quote hquote
      exact h.performed hcalling hperforms rfl hquote
  | @resume op call reply hcalled =>
      have hheld : ∀ quote, (Operation.called call reply).holds = some quote →
          ∀ more, Durable (moves ++ more) process.db quote := by
        intro quote hquote more
        exact (h.held op quote (by rw [hcalled]; exact hquote)).later (.of_eq rfl) more
      refine ⟨?_, ?_⟩
      · intro quote hquote
        rcases call.resume_cases process.latest reply with hsame |
          ⟨published, hholds, hremember, -⟩
        · rw [hsame] at hquote
          exact (h.cached quote hquote).later (.of_eq rfl) _
        · rw [hremember] at hquote
          rcases mem_rememberQuote hquote with rfl | hold
          · exact hheld quote hholds _
          · exact (h.cached quote hold).later (.of_eq rfl) _
      · apply ((h.later (.of_eq rfl) _).enter op _).held
        intro quote hquote
        exact hheld quote (StoreCall.holds_resume hquote) _
  | @wake op watch hsleeping =>
      apply (h.later (.of_eq rfl) _).enter op
      exact fun quote hquote => absurd hquote (by simp [Operation.holds])
  | cancel op hrunning =>
      apply (h.later (.of_eq rfl) _).enter op
      exact fun quote hquote => absurd hquote (by simp [Operation.holds])
  | write call hcommit => exact h.later (MarketCall.commit_keeps hcommit) _

/-- **Run lemma.** -/
theorem published_run {config : MarketConfig} {db : MarketDb}
    {moves : List (Move MarketProcess MarketAction)} {process : MarketProcess}
    (hrun : Run (MarketStep config) (MarketProcess.started db) moves process) :
    Published moves process := by
  induction hrun with
  | nil =>
      refine ⟨?_, ?_⟩
      · intro quote hquote
        simp [MarketProcess.started, InsertionDict.values, InsertionDict.empty] at hquote
      · intro op quote hquote
        simp [MarketProcess.started, Operation.holds] at hquote
  | snoc hrun hstep ih => exact ih.step hstep

/-- **Where the cache changes.**  Only where an operation goes on after a call,
and then it has returned its quote or is back at its stream. -/
theorem MarketStep.latest_cases {config : MarketConfig} {process process' : MarketProcess}
    {action : MarketAction} (hstep : MarketStep config process action process') :
    process'.latest = process.latest ∨
      ∃ op quote, action = .resume op ∧
        process'.latest = rememberQuote process.latest quote ∧
        (process'.operations op = .returnedQuote quote ∨
          ∃ watch, process'.operations op = .streaming watch) := by
  cases hstep with
  | @resume op call reply hcalled =>
      rcases call.resume_cases process.latest reply with hsame |
        ⟨quote, -, hremember, hgoes⟩
      · exact Or.inl hsame
      · refine Or.inr ⟨op, quote, rfl, hremember, ?_⟩
        simpa using hgoes
  | latest => exact Or.inl rfl
  | refreshWatchlist => exact Or.inl rfl
  | provide => exact Or.inl rfl
  | perform => exact Or.inl rfl
  | wake => exact Or.inl rfl
  | cancel => exact Or.inl rfl
  | write => exact Or.inl rfl

/-- No move lowers the rank of a cached quote. -/
theorem MarketStep.rank_mono {config : MarketConfig} {process process' : MarketProcess}
    {action : MarketAction} (hstep : MarketStep config process action process')
    {symbol : String} {cached : MarketQuote} (h : process.latest.get? symbol = some cached) :
    ∃ cached', process'.latest.get? symbol = some cached' ∧
      cached.quoteRank ≤ cached'.quoteRank := by
  rcases hstep.latest_cases with hsame | ⟨op, quote, -, hremember, -⟩
  · exact ⟨cached, by rw [hsame, h], le_refl _⟩
  · rw [hremember]
    exact rank_rememberQuote h

theorem rank_mono_run {config : MarketConfig} {first last : MarketProcess}
    {moves : List (Move MarketProcess MarketAction)}
    (hrun : Run (MarketStep config) first moves last) {symbol : String} {cached : MarketQuote}
    (h : first.latest.get? symbol = some cached) :
    ∃ cached', last.latest.get? symbol = some cached' ∧
      cached.quoteRank ≤ cached'.quoteRank := by
  induction hrun with
  | nil => exact ⟨cached, h, le_refl _⟩
  | snoc hrun hstep ih =>
      obtain ⟨middle, hmiddle, hle⟩ := ih
      obtain ⟨cached', hget, hle'⟩ := hstep.rank_mono hmiddle
      exact ⟨cached', hget, hle.trans hle'⟩

/-- An operation that has come to its end stays there. -/
theorem MarketStep.ended_stable {config : MarketConfig} {process process' : MarketProcess}
    {action : MarketAction} (hstep : MarketStep config process action process') {op : ℕ}
    (h : (process.operations op).Ended) : process'.operations op = process.operations op := by
  have hother : ∀ {op' operation}, (op = op' → ¬ (process.operations op).Ended) →
      (process.enter op' operation).operations op = process.operations op := by
    intro op' operation hrunning
    rw [MarketProcess.enter_operations, if_neg (fun heq => hrunning heq h)]
  cases hstep with
  | latest op' symbol asOf hidle =>
      exact hother (fun heq => by rw [heq, hidle]; exact id)
  | refreshWatchlist op' attempts hidle =>
      exact hother (fun heq => by rw [heq, hidle]; exact id)
  | provide op' event hawaits =>
      exact hother (fun heq => by rw [heq]; exact hawaits.not_ended)
  | perform op' hcalling => exact hother (fun heq => by rw [heq, hcalling]; exact id)
  | resume op' hcalled => exact hother (fun heq => by rw [heq, hcalled]; exact id)
  | wake op' hsleeping => exact hother (fun heq => by rw [heq, hsleeping]; exact id)
  | cancel op' hrunning => exact hother (fun heq => by rw [heq]; exact hrunning)
  | write => rfl

theorem ended_stable_run {config : MarketConfig} {first last : MarketProcess}
    {moves : List (Move MarketProcess MarketAction)}
    (hrun : Run (MarketStep config) first moves last) {op : ℕ}
    (h : (first.operations op).Ended) : last.operations op = first.operations op := by
  induction hrun with
  | nil => rfl
  | snoc hrun hstep ih => rw [hstep.ended_stable (by rw [ih]; exact h), ih]

/-- Whether an operation has no quote in hand. -/
def Operation.AwaitsQuote : Operation → Prop
  | .idle | .fetching | .streaming _ => True
  | _ => False

/-- The moment an operation last awaited a quote. -/
theorem exists_last_await {config : MarketConfig} {db : MarketDb} {last : MarketProcess}
    {moves : List (Move MarketProcess MarketAction)}
    (hrun : Run (MarketStep config) (MarketProcess.started db) moves last) {op : ℕ}
    (hlast : ¬ (last.operations op).AwaitsQuote) :
    ∃ earlier later middle, moves = earlier ++ later ∧
      Run (MarketStep config) (MarketProcess.started db) earlier middle ∧
      Run (MarketStep config) middle later last ∧ (middle.operations op).AwaitsQuote ∧
      ∀ move ∈ later, ¬ (move.after.operations op).AwaitsQuote := by
  induction hrun with
  | nil => exact absurd trivial hlast
  | @snoc moves process process' action hrun hstep ih =>
      by_cases hawaits : (process.operations op).AwaitsQuote
      · refine ⟨moves, _, process, rfl, hrun, Run.nil.snoc hstep, hawaits, ?_⟩
        intro move hmove
        obtain rfl := List.mem_singleton.mp hmove
        exact hlast
      · obtain ⟨earlier, later, middle, rfl, hearlier, hlater, hmiddle, hnone⟩ := ih hawaits
        refine ⟨earlier, _, middle, List.append_assoc _ _ _, hearlier, hlater.snoc hstep, hmiddle,
          ?_⟩
        intro move hmove
        rcases List.mem_append.mp hmove with hold | hnew
        · exact hnone move hold
        · obtain rfl := List.mem_singleton.mp hnew
          exact hlast

/-- An operation that raises has published nothing since it last awaited a
quote. -/
theorem raised_published_nothing {config : MarketConfig} {middle last : MarketProcess}
    {later : List (Move MarketProcess MarketAction)}
    (hrun : Run (MarketStep config) middle later last) {op : ℕ} {error : Raised}
    (hraised : last.operations op = .raised error)
    (hnone : ∀ move ∈ later, ¬ (move.after.operations op).AwaitsQuote) :
    ∀ move ∈ later, move.action.operation = some op →
      move.after.latest = move.before.latest := by
  intro move hmove hown
  obtain ⟨before, after, rfl⟩ := List.append_of_mem hmove
  obtain ⟨-, hstep, hrest⟩ := hrun.at_move
  rcases hstep.latest_cases with hsame | ⟨op', quote, haction, -, hgoes⟩
  · exact hsame
  · exfalso
    obtain rfl : op' = op := by simpa [haction, MarketAction.operation] using hown
    rcases hgoes with hreturned | ⟨watch, hstreaming⟩
    · have hended : (move.after.operations op').Ended := by
        rw [hreturned]
        trivial
      have hstays := ended_stable_run hrest hended
      rw [hraised, hreturned] at hstays
      exact absurd hstays (by simp)
    · exact hnone move hmove (by rw [hstreaming]; trivial)

/-- What moves that leave the cache alone leave behind. -/
theorem latest_unchanged {config : MarketConfig} {first last : MarketProcess}
    {moves : List (Move MarketProcess MarketAction)}
    (hrun : Run (MarketStep config) first moves last)
    (h : ∀ move ∈ moves, move.after.latest = move.before.latest) : last.latest = first.latest := by
  induction hrun with
  | nil => rfl
  | snoc hrun hstep ih =>
      have hlast := h _ (List.mem_append_right _ (List.mem_singleton_self _))
      rw [hlast]
      exact ih (fun move hmove => h move (List.mem_append_left _ hmove))

/-- **Persist before publish.**  In every run of a process, whatever its
provider sends and whichever calls of the store raise: what is cached is
durable; no cached quote is replaced by one of lower rank; and an operation
that raises has published nothing since it last awaited a quote. -/
theorem persist_before_publish {config : MarketConfig} {db : MarketDb} {last : MarketProcess}
    {moves : List (Move MarketProcess MarketAction)}
    (hrun : Run (MarketStep config) (MarketProcess.started db) moves last) :
    (∀ quote ∈ last.latest.values, Durable moves last.db quote) ∧
    (∀ earlier later middle, moves = earlier ++ later →
      Run (MarketStep config) (MarketProcess.started db) earlier middle →
      Run (MarketStep config) middle later last →
      ∀ symbol cached, middle.latest.get? symbol = some cached →
        ∃ cached', last.latest.get? symbol = some cached' ∧
          cached.quoteRank ≤ cached'.quoteRank) ∧
    (∀ op error, last.operations op = .raised error →
      ∃ earlier later middle, moves = earlier ++ later ∧
        Run (MarketStep config) (MarketProcess.started db) earlier middle ∧
        Run (MarketStep config) middle later last ∧ (middle.operations op).AwaitsQuote ∧
        (∀ move ∈ later, ¬ (move.after.operations op).AwaitsQuote) ∧
        (∀ move ∈ later, move.action.operation = some op →
          move.after.latest = move.before.latest) ∧
        ((∀ move ∈ later, move.action.operation ≠ some op →
          move.after.latest = move.before.latest) → last.latest = middle.latest)) := by
  refine ⟨(published_run hrun).cached, ?_, ?_⟩
  · intro earlier later middle _ _ hlater symbol cached hcached
    exact rank_mono_run hlater hcached
  · intro op error hraised
    have hdone : ¬ (last.operations op).AwaitsQuote := by
      rw [hraised]
      exact id
    obtain ⟨earlier, later, middle, hmoves, hearlier, hlater, hawaits, hnone⟩ :=
      exists_last_await hrun hdone
    have hown := raised_published_nothing hlater hraised hnone
    refine ⟨earlier, later, middle, hmoves, hearlier, hlater, hawaits, hnone, hown, ?_⟩
    intro hothers
    apply latest_unchanged hlater
    intro move hmove
    by_cases hop : move.action.operation = some op
    · exact hown move hmove hop
    · exact hothers move hmove hop

end Durable

section Sample

/-- A worker of the fixture provider. -/
@[reducible] def fixtureWorker : MarketConfig := ⟨"fixture-market", true⟩

/-- The tables after a call of the store at noon. -/
@[reducible] def StoreCall.afterNoon (call : StoreCall) (db : MarketDb) : MarketDb :=
  letI := asciiTables
  letI := sampleDigest
  ((call.commit fixtureWorker sampleNoon db).getD (none, db)).2

theorem performs_afterNoon {call : StoreCall} {db : MarketDb}
    (h : letI := asciiTables; letI := sampleDigest
      (call.commit fixtureWorker sampleNoon db).map Prod.fst = some none) :
    letI := asciiTables; letI := sampleDigest
    Performs fixtureWorker db call (.ok none) (call.afterNoon db) := by
  obtain ⟨⟨found, db'⟩, hcommit, hfound⟩ := Option.map_eq_some_iff.mp h
  obtain rfl : found = none := hfound
  have hafter : call.afterNoon db = db' := by
    unfold StoreCall.afterNoon
    rw [hcommit]
    rfl
  exact hafter ▸ @Performs.returns asciiTables sampleDigest _ _ _ sampleNoon _ _ hcommit

/-- What the worker does with its first quote. -/
@[reducible] def firstSave : StoreCall := .saveQuote (sampleQuote 60) (some (.start 3))

@[reducible] def firstRecord : StoreCall :=
  .recordSuccess (sampleQuote 60) ((Watch.start 3).received (sampleQuote 60))

@[reducible] def firstTables : MarketDb := firstRecord.afterNoon (firstSave.afterNoon .empty)

@[reducible] def rejection : Raised := ⟨"RuntimeError", "database write rejected", false⟩

/-- What it does when the store rejects its second one. -/
@[reducible] def rejectionReport : StoreCall :=
  .reportFailure rejection (some (sampleQuote 120).receivedAt)

/-- One quote is published; the store rejects the next one. -/
theorem persist_before_publish_rejected :
    let _ : CharacterTables := asciiTables
    let _ : Digest := sampleDigest
    ∃ moves last, Run (MarketStep fixtureWorker) (MarketProcess.started .empty) moves last ∧
      last.latest.get? "ACME" = some (sampleQuote 60) ∧
      last.operations 0 =
        .raised (.persistence "Market persistence failed: database write rejected") ∧
      (∀ quote ∈ last.latest.values, Durable moves last.db quote) ∧
      ∃ later, ∃ middle : MarketProcess, (middle.operations 0).AwaitsQuote ∧
        Run (MarketStep fixtureWorker) middle later last ∧
        ∀ move ∈ later, move.action.operation = some 0 →
          move.after.latest = move.before.latest := by
  intro _ _
  have hsaves : Performs fixtureWorker .empty firstSave (.ok none) (firstSave.afterNoon .empty) :=
    performs_afterNoon (by decide +kernel)
  have hrecords : Performs fixtureWorker (firstSave.afterNoon .empty) firstRecord (.ok none)
      firstTables :=
    performs_afterNoon (by decide +kernel)
  have hreports : Performs fixtureWorker firstTables rejectionReport (.ok none)
      (rejectionReport.afterNoon firstTables) :=
    performs_afterNoon (by decide +kernel)
  have hstart : Run (MarketStep fixtureWorker) (MarketProcess.started .empty) _ _ :=
    Run.nil.snoc (.refreshWatchlist _ 0 3 rfl)
  have hquote := hstart.snoc (.provide _ 0 (.quote (sampleQuote 60)) trivial)
  have hsave := hquote.snoc (.perform _ 0 rfl hsaves)
  have hsaved := hsave.snoc (.resume _ 0 rfl)
  have hrecord := hsaved.snoc (.perform _ 0 rfl hrecords)
  have hpublish := hrecord.snoc (.resume _ 0 rfl)
  have hsecond := hpublish.snoc (.provide _ 0 (.quote (sampleQuote 120)) trivial)
  have hreject := hsecond.snoc (.perform _ 0 rfl (.raises rejection))
  have hreport := hreject.snoc (.resume _ 0 rfl)
  have hreported := hreport.snoc (.perform _ 0 rfl hreports)
  have hraised := hreported.snoc (.resume _ 0 rfl)
  obtain ⟨hdurable, -, hnothing⟩ := persist_before_publish hraised
  obtain ⟨-, later, middle, -, -, hlater, hawaits, -, hown, -⟩ := hnothing 0 _ rfl
  refine ⟨_, _, hraised, by decide +kernel, rfl, hdurable, later, middle, hawaits, hlater, hown⟩

end Sample

end EventAlpha
