import EventAlpha.BarOperations
import EventAlpha.PointInTimeReads
import EventAlpha.ProviderHistory

/-!
# Failures of the store

What the provider raises and what the store raises are exceptions of the same
classes, and mean different things: the first is retried, the second ends the
operation with a `MarketPersistenceError`.

The four operations that read the provider are put together here, one operation
a run, and every write they make is named by its arguments.  A run answers each
step as it likes.  `storage_failure_stops_iff` looks at any write of any run that
raises: the operation stops there, after at most one report that marks the
provider unavailable.  The one exception is the write of `refresh_bars` that
records a failure of the provider: it is not wrapped, and the caller sees what
the store raised.
-/

namespace EventAlpha

open RunLog

section Writes

/-- A write of the store, with its arguments. -/
inductive StoreWrite
  | saveQuote (quote : MarketQuote)
  | saveBars (bars : List MarketBar)
  | recordSuccess (lastMessage : Option UtcDatetime) (reconnected : Bool)
  | recordFailure (detail : String) (exhausted : Bool) (lastMessage : Option UtcDatetime)
  deriving DecidableEq

/-- The tables after a write that returns. -/
def StoreWrite.commit [Digest] (config : MarketConfig) (observedAt : UtcDatetime)
    (db : MarketDb) : StoreWrite → Option MarketDb
  | saveQuote quote => (db.saveQuote quote).map Prod.snd
  | saveBars bars => (db.saveBars bars).map Prod.snd
  | recordSuccess lastMessage reconnected =>
      db.recordSuccess config.providerName observedAt lastMessage reconnected
  | recordFailure detail exhausted lastMessage =>
      db.recordFailure config.providerName observedAt detail exhausted lastMessage

/-- The detail of a report. -/
def Raised.reportDetail (error : Raised) : String := "persistence:" ++ error.typeName

/-- The write a call of the store makes, if it makes one. -/
def StoreCall.write? : StoreCall → Option StoreWrite
  | latestQuote _ _ => none
  | saveQuote quote _ => some (.saveQuote quote)
  | recordSuccess _ watch => some (.recordSuccess watch.lastMessage watch.reconnectPending)
  | recordFailure error watch =>
      some (.recordFailure error.typeName watch.exhausted watch.lastMessage)
  | reportFailure error lastMessage =>
      some (.recordFailure error.reportDetail true lastMessage)

def BarCall.write? : BarCall → Option StoreWrite
  | readBars _ _ _ _ => none
  | saveBars bars _ => some (.saveBars bars)
  | recordSuccess _ loop => some (.recordSuccess none (0 < loop.attempt))
  | recordFailure error loop => some (.recordFailure error.typeName loop.exhausted none)
  | reportFailure error lastMessage =>
      some (.recordFailure error.reportDetail true lastMessage)

variable [CharacterTables] [Digest] {config : MarketConfig} {observedAt : UtcDatetime}
  {db db' : MarketDb}

/-- What a call commits is its write. -/
theorem StoreCall.commit_eq_write {call : StoreCall} {write : StoreWrite}
    (h : call.write? = some write) :
    (call.commit config observedAt db).map Prod.snd = write.commit config observedAt db := by
  cases call with
  | latestQuote symbol asOf => cases h
  | saveQuote quote watch =>
      obtain rfl := Option.some.inj h
      rw [commit, StoreWrite.commit, Option.map_map]
      rfl
  | recordSuccess quote watch =>
      obtain rfl := Option.some.inj h
      rw [commit, StoreWrite.commit, Option.map_map]
      exact Option.map_id'
  | recordFailure error watch =>
      obtain rfl := Option.some.inj h
      rw [commit, StoreWrite.commit, Option.map_map]
      exact Option.map_id'
  | reportFailure error lastMessage =>
      obtain rfl := Option.some.inj h
      rw [commit, StoreWrite.commit, Option.map_map]
      exact Option.map_id'

omit [CharacterTables] in
/-- A report that returns leaves the provider unavailable. -/
theorem StoreWrite.unavailable_of_commit {detail : String} {lastMessage : Option UtcDatetime}
    (h : (recordFailure detail true lastMessage).commit config observedAt db = some db') :
    (db'.providerStates.get? config.providerName).map ProviderStateRow.status =
      some ProviderStatus.unavailable.value := by
  have hrecorded : db.recorded
      ⟨config.providerName, observedAt, lastMessage, .failure detail true⟩ = some db' := h
  rw [MarketDb.providerStates_recorded hrecorded, InsertionDict.get?_set_self]
  rfl

end Writes

section Steps

/-- What an operation on quotes waits for, and what comes of it. -/
inductive QuoteAnswer
  | provider (event : ProviderEvent)
  | store (reply : StoreReply)
  | woken

/-- One step of an operation on quotes; what it leaves in `_latest` aside. -/
inductive QuoteStep : Operation → QuoteAnswer → Operation → Prop
  | provided {operation : Operation} (event : ProviderEvent)
      (hawaits : operation.AwaitsProvider) :
      QuoteStep operation (.provider event) (operation.provided event)
  | resumed (call : StoreCall) (reply : StoreReply) :
      QuoteStep (.calling call) (.store reply) (call.resume .empty reply).1
  | woken (watch : Watch) : QuoteStep (.sleeping watch) .woken (.streaming watch)

/-- What an operation waits for: a call of the store until its reply is taken. -/
def Operation.awaited : Operation → Operation
  | .called call _ => .calling call
  | operation => operation

/-- What was known of a symbol does not decide how an operation goes on. -/
theorem StoreCall.resume_fst (call : StoreCall) (reply : StoreReply)
    (latest latest' : InsertionDict String MarketQuote) :
    (call.resume latest reply).1 = (call.resume latest' reply).1 := by
  cases call with
  | latestQuote symbol asOf =>
      rcases reply with error | found
      · rfl
      · cases found <;> rfl
  | saveQuote quote watch => cases watch <;> cases reply <;> rfl
  | recordSuccess quote watch => cases reply <;> rfl
  | recordFailure error watch =>
      cases reply with
      | error raised => rfl
      | ok found =>
          simp only [resume]
          cases watch.exhausted <;> rfl
  | reportFailure error lastMessage => rfl

/-- An operation under way in a process takes these steps and no others, unless
it is cancelled. -/
theorem MarketStep.quoteStep [CharacterTables] [Digest] {config : MarketConfig}
    {process process' : MarketProcess} {action : MarketAction} {op : ℕ}
    (hstep : MarketStep config process action process') (hop : action.operation = some op)
    (hbegun : process.operations op ≠ .idle) (hkept : action ≠ .cancel op) :
    (process'.operations op).awaited = (process.operations op).awaited ∨
      ∃ answer, QuoteStep (process.operations op).awaited answer (process'.operations op) := by
  cases hstep with
  | latest op' symbol asOf hidle =>
      obtain rfl := Option.some.inj hop
      exact absurd hidle hbegun
  | refreshWatchlist op' attempts hidle =>
      obtain rfl := Option.some.inj hop
      exact absurd hidle hbegun
  | provide op' event hawaits =>
      obtain rfl := Option.some.inj hop
      refine .inr ⟨.provider event, ?_⟩
      have hsame : (process.operations op').awaited = process.operations op' := by
        cases hoperation : process.operations op' <;> first | rfl | simp [hoperation,
          Operation.AwaitsProvider] at hawaits
      rw [hsame, MarketProcess.enter_operations, if_pos rfl]
      exact .provided event hawaits
  | @perform op' call reply db' hcalling hperforms =>
      obtain rfl := Option.some.inj hop
      refine .inl ?_
      simp [hcalling, Operation.awaited]
  | @resume op' call reply hcalled =>
      obtain rfl := Option.some.inj hop
      refine .inr ⟨.store reply, ?_⟩
      have hresumed := QuoteStep.resumed call reply
      rw [call.resume_fst reply .empty process.latest] at hresumed
      simpa [hcalled, Operation.awaited] using hresumed
  | @wake op' watch hsleeping =>
      obtain rfl := Option.some.inj hop
      refine .inr ⟨.woken, ?_⟩
      simpa [hsleeping, Operation.awaited] using QuoteStep.woken watch
  | cancel op' hrunning =>
      obtain rfl := Option.some.inj hop
      exact absurd rfl hkept
  | write call hcommit => cases hop

/-- An operation of the service. -/
inductive ServiceOperation
  | quotes (operation : Operation)
  | bars (operation : BarOperation)

inductive ServiceAnswer
  | quotes (answer : QuoteAnswer)
  | bars (answer : BarAnswer)

inductive ServiceStep : ServiceOperation → ServiceAnswer → ServiceOperation → Prop
  | quotes {operation operation' : Operation} {answer : QuoteAnswer}
      (hstep : QuoteStep operation answer operation') :
      ServiceStep (.quotes operation) (.quotes answer) (.quotes operation')
  | bars {operation operation' : BarOperation} {answer : BarAnswer}
      (hstep : BarStep operation answer operation') :
      ServiceStep (.bars operation) (.bars answer) (.bars operation')

/-- A call of one of the four operations that read the provider. -/
inductive ServiceCall
  | latest (symbol : String) (asOf : Option UtcDatetime)
  | bars (symbol timeframe : String) (limit : Int) (asOf : Option UtcDatetime)
  | refreshWatchlist (attempts : Int)
  | refreshBars (symbols : List String) (timeframe : String) (limit attempts : Int)

/-- How an operation begins. -/
def ServiceCall.begin [CharacterTables] (config : MarketConfig) : ServiceCall → ServiceOperation
  | latest symbol asOf => .quotes (config.beginLatest symbol asOf)
  | bars symbol timeframe limit asOf => .bars (config.beginBars symbol timeframe limit asOf)
  | refreshWatchlist attempts => .quotes (config.beginRefresh attempts)
  | refreshBars symbols timeframe limit attempts =>
      .bars (config.beginRefreshBars symbols timeframe limit attempts)

/-- The write an operation waits for, if it waits for one. -/
def ServiceOperation.write? : ServiceOperation → Option StoreWrite
  | quotes (.calling call) => call.write?
  | bars (.calling call) => call.write?
  | _ => none

/-- What an operation has raised. -/
def ServiceOperation.error? : ServiceOperation → Option Raised
  | quotes (.raised error) => some error
  | bars (.raised error) => some error
  | _ => none

/-- What the store raised. -/
def ServiceAnswer.storeError? : ServiceAnswer → Option Raised
  | quotes (.store (.error error)) => some error
  | bars (.store (.error error)) => some error
  | _ => none

/-- Where an operation reports a failure of the store. -/
inductive ServiceOperation.Reports (cause : Raised) : ServiceOperation → Prop
  | quotes (lastMessage : Option UtcDatetime) :
      Reports cause (.quotes (.calling (.reportFailure cause lastMessage)))
  | bars (lastMessage : Option UtcDatetime) :
      Reports cause (.bars (.calling (.reportFailure cause lastMessage)))

/-- Where `refresh_bars` records a failure of the provider. -/
inductive ServiceOperation.RecordsForBars : ServiceOperation → Prop
  | recording (error : Raised) (loop : BarLoop) :
      RecordsForBars (.bars (.calling (.recordFailure error loop)))

/-- The failure of the store the caller is told of, if a write raises: for a
report it is the failure that is reported. -/
def ServiceOperation.cause (raised : Raised) : ServiceOperation → Raised
  | quotes (.calling (.reportFailure error _)) => error
  | bars (.calling (.reportFailure error _)) => error
  | _ => raised

end Steps

section Failures

variable {operation operation' last : ServiceOperation} {answer : ServiceAnswer}
  {error cause : Raised} {write : StoreWrite}
  {earlier later : List (Move ServiceOperation ServiceAnswer)}
  {move : Move ServiceOperation ServiceAnswer}

/-- The operation has raised a `MarketPersistenceError` with the text of a
failure. -/
def ServiceOperation.RaisesPersistence (operation : ServiceOperation) (cause : Raised) : Prop :=
  ∃ text, operation.error? = some (.persistence (text ++ cause.message))

/-- The operation waits for the write that marks the provider unavailable
because of a failure. -/
def ServiceOperation.MarksUnavailable (operation : ServiceOperation) (cause : Raised) : Prop :=
  ∃ lastMessage, operation.write? = some (.recordFailure cause.reportDetail true lastMessage)

/-- After the write that failed the operation does nothing but mark the provider
unavailable, at most once, and raises a `MarketPersistenceError`, whatever came
of that mark. -/
structure StopsWith (cause : Raised) (later : List (Move ServiceOperation ServiceAnswer))
    (last : ServiceOperation) : Prop where
  only_report : ∀ move ∈ later, move.before.MarksUnavailable cause
  once : later.length ≤ 1
  stops : last.RaisesPersistence cause ∨ later = [] ∧ last.MarksUnavailable cause ∧
    ∀ answer after, ServiceStep last answer after → after.RaisesPersistence cause

theorem ServiceOperation.error?_eq_some (h : operation.error? = some error) :
    operation = .quotes (.raised error) ∨ operation = .bars (.raised error) := by
  unfold error? at h
  split at h
  · exact .inl (by rw [Option.some.inj h])
  · exact .inr (by rw [Option.some.inj h])
  · cases h

/-- An operation that has raised takes no step. -/
theorem ServiceOperation.final_of_error (h : operation.error? = some error) :
    ∀ answer after, ¬ServiceStep operation answer after := by
  rintro answer after hstep
  rcases error?_eq_some h with rfl | rfl
  · cases hstep with
    | quotes hstep =>
        cases hstep with
        | provided event hawaits => exact hawaits
  · cases hstep with
    | bars hstep =>
        cases hstep with
        | provided reply hawaits => exact hawaits

/-- The report is the mark. -/
theorem ServiceOperation.Reports.marksUnavailable (h : operation.Reports cause) :
    operation.MarksUnavailable cause := by
  cases h with
  | quotes lastMessage => exact ⟨lastMessage, rfl⟩
  | bars lastMessage => exact ⟨lastMessage, rfl⟩

/-- After the report, the caller sees what was reported. -/
theorem ServiceOperation.Reports.step (h : operation.Reports cause)
    (hstep : ServiceStep operation answer operation') : operation'.RaisesPersistence cause := by
  refine ⟨"Market persistence failed: ", ?_⟩
  cases h with
  | quotes lastMessage =>
      cases hstep with
      | quotes hstep =>
          cases hstep with
          | provided event hawaits => exact absurd hawaits id
          | resumed call reply => rfl
  | bars lastMessage =>
      cases hstep with
      | bars hstep =>
          cases hstep with
          | provided reply hawaits => exact absurd hawaits id
          | resumed call reply => rfl

/-- **One write.**  A write that raises is reported, ends the operation or is
that of `refresh_bars` after a failure of the provider. -/
theorem ServiceStep.of_failed_write (hstep : ServiceStep operation answer operation')
    (hwrite : operation.write? = some write) (herror : answer.storeError? = some error) :
    operation'.Reports (operation.cause error) ∧ ¬operation.RecordsForBars ∨
      operation'.RaisesPersistence (operation.cause error) ∧ ¬operation.RecordsForBars ∨
      operation.RecordsForBars ∧ operation.cause error = error ∧
        operation'.error? = some error := by
  cases hstep with
  | quotes hstep =>
      cases hstep with
      | provided event hawaits => cases herror
      | woken watch => cases herror
      | resumed call reply =>
          cases reply with
          | ok found => cases herror
          | error raised =>
              obtain rfl := Option.some.inj herror
              cases call with
              | latestQuote symbol asOf => cases hwrite
              | saveQuote quote watch => cases watch <;> exact .inl ⟨.quotes _, nofun⟩
              | recordSuccess quote watch => exact .inl ⟨.quotes _, nofun⟩
              | recordFailure failure watch =>
                  exact .inr (.inl ⟨⟨"Could not persist provider failure: ", rfl⟩, nofun⟩)
              | reportFailure failure lastMessage =>
                  exact .inr (.inl ⟨⟨"Market persistence failed: ", rfl⟩, nofun⟩)
  | bars hstep =>
      cases hstep with
      | provided reply hawaits => cases herror
      | woken loop => cases herror
      | resumed call reply =>
          cases reply with
          | ok bars => cases herror
          | error raised =>
              obtain rfl := Option.some.inj herror
              cases call with
              | readBars symbol timeframe limit asOf => cases hwrite
              | saveBars bars loop => cases loop <;> exact .inl ⟨.bars _, nofun⟩
              | recordSuccess bars loop => exact .inl ⟨.bars _, nofun⟩
              | recordFailure failure loop =>
                  exact .inr (.inr ⟨.recording failure loop, rfl, rfl⟩)
              | reportFailure failure lastMessage =>
                  exact .inr (.inl ⟨⟨"Market persistence failed: ", rfl⟩, nofun⟩)

/-- An operation that ended with a `MarketPersistenceError` stops. -/
theorem stopsWith_of_raises (hraises : operation.RaisesPersistence cause)
    (hrun : Run ServiceStep operation later last) : StopsWith cause later last := by
  obtain ⟨text, herror⟩ := hraises
  obtain ⟨rfl, rfl⟩ := hrun.eq_nil (ServiceOperation.final_of_error herror)
  exact ⟨by simp, by simp, .inl ⟨text, herror⟩⟩

/-- An operation that reports stops after the report. -/
theorem stopsWith_of_reports (hreports : operation.Reports cause)
    (hrun : Run ServiceStep operation later last) : StopsWith cause later last := by
  rcases hrun.cases_first with ⟨rfl, rfl⟩ | ⟨answer, after, rest, rfl, hstep, hrest⟩
  · refine ⟨by simp, by simp, .inr ⟨rfl, hreports.marksUnavailable, ?_⟩⟩
    intro answer after hstep
    exact hreports.step hstep
  · obtain ⟨text, herror⟩ := hreports.step hstep
    obtain ⟨rfl, rfl⟩ := hrest.eq_nil (ServiceOperation.final_of_error herror)
    refine ⟨?_, by simp, .inl ⟨text, herror⟩⟩
    intro move hmove
    obtain rfl := List.mem_singleton.mp hmove
    exact hreports.marksUnavailable

/-- An operation that ended with another error has not stopped as it should. -/
theorem not_stopsWith_of_error (herror : operation.error? = some error)
    (hother : ∀ text, error ≠ .persistence (text ++ cause.message))
    (hrun : Run ServiceStep operation later last) : ¬StopsWith cause later last := by
  obtain ⟨rfl, rfl⟩ := hrun.eq_nil (ServiceOperation.final_of_error herror)
  intro hstops
  rcases hstops.stops with ⟨text, hraised⟩ | ⟨-, ⟨lastMessage, hwrite⟩, -⟩
  · rw [herror] at hraised
    exact hother text (Option.some.inj hraised)
  · rcases ServiceOperation.error?_eq_some herror with rfl | rfl <;> cases hwrite

/-- An error of the store is a `MarketPersistenceError` already. -/
def Raised.IsPersistence (error : Raised) : Prop := error = .persistence error.message

/-- **Failures of the store.**  At every write of every run of the four
operations that raises, the operation stops with a `MarketPersistenceError` if
and only if it is not `refresh_bars` recording a failure of the provider, or
what the store raised is such an error already. -/
theorem storage_failure_stops_iff [CharacterTables] (config : MarketConfig) (call : ServiceCall)
    (hrun : Run ServiceStep (call.begin config) (earlier ++ move :: later) last)
    (hwrite : move.before.write? = some write) (herror : move.action.storeError? = some error) :
    StopsWith (move.before.cause error) later last ↔
      ¬(move.before.RecordsForBars ∧ ¬error.IsPersistence) := by
  obtain ⟨-, hstep, hlater⟩ := hrun.at_move
  rcases hstep.of_failed_write hwrite herror with
    ⟨hreports, hnot⟩ | ⟨hraises, hnot⟩ | ⟨hrecords, hcause, hraised⟩
  · exact iff_of_true (stopsWith_of_reports hreports hlater) (fun hand => hnot hand.1)
  · exact iff_of_true (stopsWith_of_raises hraises hlater) (fun hand => hnot hand.1)
  · rw [hcause]
    by_cases hpersistence : error.IsPersistence
    · refine iff_of_true (stopsWith_of_raises ⟨"", ?_⟩ hlater) (fun hand => hand.2 hpersistence)
      rw [hraised, String.empty_append]
      exact congrArg some hpersistence
    · refine iff_of_false (not_stopsWith_of_error hraised ?_ hlater)
        (fun hnot => hnot ⟨hrecords, hpersistence⟩)
      intro text htext
      have hmessage : text ++ error.message = error.message :=
        (congrArg Raised.message htext).symm
      exact hpersistence (htext.trans (congrArg Raised.persistence hmessage))

/-- The market worker's call, for one symbol. -/
def workerCall : ServiceCall := .refreshBars ["ACME"] "1m" 60 3

def workerLoop : BarLoop := ⟨"1m", 60, 3, "ACME", [], 0, 0⟩

/-- A lost connection, to the provider or to the database. -/
def connectionLost : Raised := ⟨"ConnectionError", "connection lost", true⟩

/-- The bar of the provider is not saved, and the store cannot mark the provider
either: the caller sees why the bar was not saved. -/
theorem storage_failure_stops_iff_saving :
    let _ : CharacterTables := asciiTables
    ∃ earlier move report last,
      Run ServiceStep (workerCall.begin ⟨"fixture-market", true⟩) (earlier ++ move :: [report])
        last ∧
      move.before.write? = some (.saveBars [sampleBar 60]) ∧
      move.action.storeError? = some connectionLost ∧
      report.before.write? = some (.recordFailure "persistence:ConnectionError" true
        (some (sampleNoon + 60000000))) ∧
      last.error? = some (.persistence "Market persistence failed: connection lost") ∧
      StopsWith connectionLost [report] last := by
  intro _
  have hfetched : Run ServiceStep (.bars (.refreshing workerLoop)) _ _ :=
    Run.nil.snoc (.bars (.provided (.ok [sampleBar 60]) trivial))
  have hfailed := hfetched.snoc
    (.bars (.resumed (.saveBars [sampleBar 60] (some workerLoop)) (.error connectionLost)))
  have hreported := hfailed.snoc (.bars (.resumed (.reportFailure connectionLost
    (some (sampleNoon + 60000000))) (.error ⟨"TimeoutError", "no database", true⟩)))
  rw [List.append_assoc] at hreported
  refine ⟨_, _, _, _, hreported, rfl, rfl, rfl, rfl, ?_⟩
  exact (storage_failure_stops_iff ⟨"fixture-market", true⟩ workerCall hreported rfl rfl).mpr nofun

/-- The provider cannot be reached, and the store cannot record it: the caller
of `refresh_bars` sees the error of the store. -/
theorem storage_failure_escapes :
    let _ : CharacterTables := asciiTables
    ∃ earlier move last,
      Run ServiceStep (workerCall.begin ⟨"fixture-market", true⟩) (earlier ++ [move]) last ∧
      move.before.write? = some (.recordFailure "ConnectionError" false none) ∧
      move.action.storeError? = some connectionLost ∧
      last.error? = some connectionLost ∧ ¬StopsWith connectionLost [] last := by
  intro _
  have hfetched : Run ServiceStep (.bars (.refreshing workerLoop)) _ _ :=
    Run.nil.snoc (.bars (.provided (.error connectionLost) trivial))
  have hfailed := hfetched.snoc
    (.bars (.resumed (.recordFailure connectionLost workerLoop) (.error connectionLost)))
  refine ⟨_, _, _, hfailed, rfl, rfl, rfl, not_stopsWith_of_error rfl ?_ Run.nil⟩
  intro text htext
  have hname : "ConnectionError" = "MarketPersistenceError" := congrArg Raised.typeName htext
  exact absurd hname (by decide)

end Failures

end EventAlpha
