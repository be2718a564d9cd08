import EventAlpha.Corrections
import EventAlpha.ReconnectBudget
import EventAlpha.StorageFailures

/-!
# Refreshing bars

`refresh_bars` asks the provider for the bars of one symbol after the other and
gives each of them a budget of attempts of its own, unlike `refresh_watchlist`,
whose budget is one streak of failures over the whole call.

The call is driven here by what the provider answers, request after request,
over a store whose calls return.  Whatever the answers are, the call stands at
one of four points (`Stands`): it has returned, it awaits the next answer, the
last symbol has spent its attempts, or a failure was not one to retry.  In all
of them the finished symbols are a list of turns, and what was stored, recorded
and slept is a function of the turns and of the failures since the last one
(`Accounts`).
-/

namespace EventAlpha

open KeyedOrder ObservationLog

/-- What one symbol took: some failures, and then its bars. -/
structure Turn where
  symbol : String
  errors : List Raised
  bars : List MarketBar

/-- The requests of a symbol that failed. -/
def failedRequests (symbol : String) (errors : List Raised) : List (String × BarReply) :=
  errors.map (fun error => (symbol, .error error))

/-- The requests of a turn, with their answers. -/
def Turn.requests (turn : Turn) : List (String × BarReply) :=
  failedRequests turn.symbol turn.errors ++ [(turn.symbol, .ok turn.bars)]

/-- All bars of some turns. -/
def turnBars (turns : List Turn) : List MarketBar := turns.flatMap Turn.bars

/-- All requests of some turns. -/
def turnRequests (turns : List Turn) : List (String × BarReply) := turns.flatMap Turn.requests

theorem turnBars_snoc (turns : List Turn) (turn : Turn) :
    turnBars (turns ++ [turn]) = turnBars turns ++ turn.bars := by
  rw [turnBars, List.flatMap_append, List.flatMap_singleton]
  rfl

theorem turnRequests_snoc (turns : List Turn) (turn : Turn) :
    turnRequests (turns ++ [turn]) = turnRequests turns ++ turn.requests := by
  rw [turnRequests, List.flatMap_append, List.flatMap_singleton]
  rfl

theorem failedRequests_snoc (symbol : String) (errors : List Raised) (error : Raised) :
    failedRequests symbol (errors ++ [error]) =
      failedRequests symbol errors ++ [(symbol, .error error)] := by
  rw [failedRequests, List.map_append]
  rfl

section Play

variable {δ : Type*}

/-- A call of `refresh_bars`, with the requests that were answered and the
delays it slept. -/
structure BarRefresh (δ : Type*) where
  operation : BarOperation
  db : MarketDb
  calls : ℕ
  requests : List (String × BarReply)
  slept : List δ

namespace BarRefresh

variable [Digest] (config : MarketConfig) (backoff : ℕ → δ) (clock : ℕ → UtcDatetime)

omit [Digest] in
/-- The call begins. -/
def start (symbols : List String) (timeframe : String) (limit attempts : Int) (db : MarketDb) :
    BarRefresh δ :=
  ⟨config.beginRefreshBars symbols timeframe limit attempts, db, 0, [], []⟩

/-- One move of its own: a write returns, or a backoff is over.  `clock n` is
what the clock shows at the write with number `n`. -/
def advance (refresh : BarRefresh δ) : Option (BarRefresh δ) :=
  match refresh.operation with
  | .calling call =>
      (call.write?.bind (fun write =>
        write.commit config (clock refresh.calls) refresh.db)).map (fun db =>
          { refresh with
            operation := call.resume (.ok [])
            db := db
            calls := refresh.calls + 1 })
  | .sleeping loop =>
      some { refresh with
        operation := .refreshing loop.retried
        slept := refresh.slept ++ [backoff loop.attempt] }
  | _ => some refresh

/-- An answer of the provider, if the call awaits one, and what it leads to. -/
def serve (refresh : BarRefresh δ) (reply : BarReply) : Option (BarRefresh δ) :=
  match refresh.operation with
  | .refreshing loop => do
      let provided : BarRefresh δ :=
        { refresh with operation := (BarOperation.refreshing loop).provided reply }
      let refresh ← provided.advance config backoff clock
      let refresh ← refresh.advance config backoff clock
      return { refresh with requests := refresh.requests ++ [(loop.symbol, reply)] }
  | _ => some refresh

/-- The call with a provider that gives these answers, if no write raises. -/
def play (symbols : List String) (timeframe : String) (limit attempts : Int) (db : MarketDb)
    (replies : List BarReply) : Option (BarRefresh δ) :=
  replies.foldlM (serve config backoff clock) (start config symbols timeframe limit attempts db)

omit [Digest] in
/-- The stored state of the provider. -/
def state (refresh : BarRefresh δ) : Option ProviderStateRow :=
  refresh.db.providerStates.get? config.providerName

end BarRefresh

end Play

section OneAnswer

variable [Digest] {δ : Type*} {config : MarketConfig} {backoff : ℕ → δ}
  {clock : ℕ → UtcDatetime} {refresh refresh' : BarRefresh δ} {loop : BarLoop}

/-- What a call of the store says about the provider. -/
def BarLoop.successCall (loop : BarLoop) (config : MarketConfig) (observedAt : UtcDatetime) :
    ProviderCall :=
  ⟨config.providerName, observedAt, none, .success (0 < loop.attempt)⟩

def BarLoop.failureCall (loop : BarLoop) (config : MarketConfig) (observedAt : UtcDatetime)
    (error : Raised) : ProviderCall :=
  ⟨config.providerName, observedAt, none, .failure error.typeName loop.exhausted⟩

/-- Bars are stored and recorded before the next request. -/
theorem BarRefresh.serve_bars {bars : List MarketBar}
    (hop : refresh.operation = .refreshing loop)
    (h : refresh.serve config backoff clock (.ok bars) = some refresh') :
    refresh'.operation = .refresh loop.timeframe loop.limit loop.attempts loop.later
        (loop.count + bars.length) ∧
      refresh'.requests = refresh.requests ++ [(loop.symbol, .ok bars)] ∧
      refresh'.slept = refresh.slept ∧
      ∃ inserted saved observedAt, refresh.db.saveBars bars = some (inserted, saved) ∧
        saved.recorded (loop.successCall config observedAt) = some refresh'.db := by
  simp only [serve, hop, Option.bind_eq_bind, Option.pure_def] at h
  obtain ⟨saved, hsaved, h⟩ := Option.bind_eq_some_iff.mp h
  obtain ⟨recorded, hrecorded, h⟩ := Option.bind_eq_some_iff.mp h
  obtain ⟨db, hdb, rfl⟩ := Option.map_eq_some_iff.mp hsaved
  obtain ⟨⟨inserted, db⟩, hsave, rfl⟩ := Option.map_eq_some_iff.mp hdb
  obtain ⟨db', hrecord, rfl⟩ := Option.map_eq_some_iff.mp hrecorded
  obtain rfl := Option.some.inj h
  exact ⟨rfl, rfl, rfl, inserted, db, _, hsave, hrecord⟩

/-- A transient failure is recorded.  Either the attempts of the symbol are
spent, or it is asked for again after the backoff. -/
theorem BarRefresh.serve_transient {error : Raised} (htransient : error.transient = true)
    (hop : refresh.operation = .refreshing loop)
    (h : refresh.serve config backoff clock (.error error) = some refresh') :
    refresh'.requests = refresh.requests ++ [(loop.symbol, .error error)] ∧
      (∃ observedAt, refresh.db.recorded (loop.failureCall config observedAt error) =
        some refresh'.db) ∧
      if loop.exhausted then
        refresh'.operation = .raised error ∧ refresh'.slept = refresh.slept
      else
        refresh'.operation = .refreshing loop.retried ∧
          refresh'.slept = refresh.slept ++ [backoff loop.attempt] := by
  simp only [serve, hop, Option.bind_eq_bind, Option.pure_def, BarOperation.provided,
    htransient, if_true] at h
  obtain ⟨recorded, hrecorded, h⟩ := Option.bind_eq_some_iff.mp h
  obtain ⟨settled, hsettled, h⟩ := Option.bind_eq_some_iff.mp h
  obtain ⟨db, hrecord, rfl⟩ := Option.map_eq_some_iff.mp hrecorded
  cases hexhausted : loop.exhausted with
  | true =>
      simp only [BarCall.resume, hexhausted, if_true, advance] at hsettled
      obtain rfl := Option.some.inj hsettled
      obtain rfl := Option.some.inj h
      exact ⟨rfl, ⟨_, hrecord⟩, rfl, rfl⟩
  | false =>
      simp only [BarCall.resume, hexhausted, advance] at hsettled
      obtain rfl := Option.some.inj hsettled
      obtain rfl := Option.some.inj h
      exact ⟨rfl, ⟨_, hrecord⟩, rfl, rfl⟩

/-- Any other failure ends the call, and nothing is recorded. -/
theorem BarRefresh.serve_refused {error : Raised} (hrefused : error.transient = false)
    (hop : refresh.operation = .refreshing loop)
    (h : refresh.serve config backoff clock (.error error) = some refresh') :
    refresh'.operation = .raised error ∧
      refresh'.requests = refresh.requests ++ [(loop.symbol, .error error)] ∧
      refresh'.slept = refresh.slept ∧ refresh'.db = refresh.db := by
  simp only [serve, hop, Option.bind_eq_bind, Option.pure_def, BarOperation.provided,
    hrefused, advance] at h
  obtain rfl := Option.some.inj h
  exact ⟨rfl, rfl, rfl, rfl⟩

/-- A call that has ended takes no more answers. -/
theorem BarRefresh.serve_ended_call {reply : BarReply}
    (hop : ∀ loop, refresh.operation ≠ .refreshing loop) :
    refresh.serve config backoff clock reply = some refresh := by
  unfold serve
  split
  · rename_i loop heq
    exact absurd heq (hop loop)
  · rfl

omit [Digest] in
/-- The table of provider states is not touched by a save. -/
theorem MarketDb.providerStates_saveBar [Digest] {db db' : MarketDb} {bar : MarketBar}
    {inserted : ℕ} (h : db.saveBar bar = some (inserted, db')) :
    db'.providerStates = db.providerStates := by
  obtain ⟨db₁, hprovider, h⟩ := Option.bind_eq_some_iff.mp h
  obtain ⟨db₂, hinstrument, h⟩ := Option.bind_eq_some_iff.mp h
  obtain ⟨contentHash, -, h⟩ := Option.bind_eq_some_iff.mp h
  obtain ⟨-, -, hstates₁⟩ := ensureProvider_frame hprovider
  obtain ⟨-, -, hstates₂⟩ := ensureInstrument_frame hinstrument
  have hstates : db₂.providerStates = db.providerStates := hstates₂.trans hstates₁
  split at h
  · cases h
    exact hstates
  · obtain ⟨row, -, h⟩ := Option.bind_eq_some_iff.mp h
    split at h
    · cases h
      exact hstates
    · cases h

/-- A save of bars touches neither the provider states nor the quotes. -/
theorem MarketDb.saveBars_frame {db db' : MarketDb} {bars : List MarketBar}
    {inserted : ℕ} (h : db.saveBars bars = some (inserted, db')) :
    db'.providerStates = db.providerStates ∧ db'.quoteObservations = db.quoteObservations := by
  induction bars using List.reverseRecOn generalizing inserted db' with
  | nil =>
      cases h
      exact ⟨rfl, rfl⟩
  | append_singleton bars bar ih =>
      rw [saveBars_snoc, Option.bind_eq_some_iff] at h
      obtain ⟨⟨count, db₁⟩, hbars, h⟩ := h
      obtain ⟨⟨added, db₂⟩, hbar, heq⟩ := Option.map_eq_some_iff.mp h
      cases heq
      obtain ⟨hstates, hquotes⟩ := ih hbars
      obtain ⟨-, -, hquotes', -⟩ := saveBar_eq_some hbar
      exact ⟨(providerStates_saveBar hbar).trans hstates, hquotes'.trans hquotes⟩

omit [Digest] in
/-- The tables of observations are not touched by a record. -/
theorem MarketDb.recorded_frame {db db' : MarketDb} {call : ProviderCall}
    (h : db.recorded call = some db') :
    db'.barObservations = db.barObservations ∧
      db'.quoteObservations = db.quoteObservations := by
  unfold recorded at h
  split at h
  · exact recordSuccess_frame h
  · exact recordFailure_frame h

end OneAnswer

section Runs

variable [Digest] {δ : Type*} {config : MarketConfig} {backoff : ℕ → δ} {clock : ℕ → UtcDatetime}
  {symbols : List String} {timeframe : String} {limit attempts : Int} {db : MarketDb}
  {refresh refresh' : BarRefresh δ} {turns : List Turn} {errors : List Raised}
  {replies : List BarReply}

/-- The delays before a number of retries. -/
def delays (backoff : ℕ → δ) (retries : ℕ) : List δ := (List.range retries).map backoff

omit [Digest] in
theorem delays_succ (backoff : ℕ → δ) (retries : ℕ) :
    delays backoff (retries + 1) = delays backoff retries ++ [backoff retries] := by
  rw [delays, List.range_succ, List.map_append]
  rfl

/-- What is stored and recorded and was slept after some turns and some failures
of the symbol that comes next. -/
structure BarRefresh.Accounts (refresh : BarRefresh δ) (config : MarketConfig) (backoff : ℕ → δ)
    (attempts : Int) (db : MarketDb) (turns : List Turn) (errors : List Raised) : Prop where
  budget : ∀ turn ∈ turns, (turn.errors.length : Int) < attempts
  transient : ∀ turn ∈ turns, ∀ error ∈ turn.errors, error.transient = true
  transient_last : ∀ error ∈ errors, error.transient = true
  slept_eq : refresh.slept = turns.flatMap (fun turn => delays backoff turn.errors.length) ++
    delays backoff (min errors.length (attempts - 1).toNat)
  failures_eq : storedFailures (refresh.state config) = errors.length +
    if turns = [] then storedFailures (db.providerStates.get? config.providerName) else 0
  reconnects_eq : storedReconnects (refresh.state config) =
    storedReconnects (db.providerStates.get? config.providerName) +
      turns.countP (fun turn => turn.errors ≠ [])
  bars_kept : ∀ received, HoldsKept barView MarketBar.storedRow db.barObservations received →
    HoldsKept barView MarketBar.storedRow refresh.db.barObservations (received ++ turnBars turns)
  quotes_eq : refresh.db.quoteObservations = db.quoteObservations

/-- A call that awaits the next answer for a symbol, after some turns and some
failures of that symbol. -/
structure BarRefresh.Awaits (config : MarketConfig) (backoff : ℕ → δ) (symbols : List String)
    (timeframe : String) (limit attempts : Int) (db : MarketDb) (refresh : BarRefresh δ)
    (replies : List BarReply) (turns : List Turn) (symbol : String) (rest : List String)
    (errors : List Raised) : Prop where
  operation_eq : refresh.operation = .refreshing ⟨timeframe, limit, attempts, symbol, rest,
    errors.length, (turnBars turns).length⟩
  symbols_eq : symbols = turns.map Turn.symbol ++ symbol :: rest
  requests_eq : refresh.requests = turnRequests turns ++ failedRequests symbol errors
  replies_eq : replies = refresh.requests.map Prod.snd
  left : (errors.length : Int) < attempts
  accounts : refresh.Accounts config backoff attempts db turns errors

/-- Where a call stands after some answers of the provider. -/
inductive BarRefresh.Stands (config : MarketConfig) (backoff : ℕ → δ) (symbols : List String)
    (timeframe : String) (limit attempts : Int) (db : MarketDb) (refresh : BarRefresh δ)
    (replies : List BarReply) : Prop
  | returned (turns : List Turn) (later : List BarReply)
      (hop : refresh.operation = .returnedCount (turnBars turns).length)
      (hsymbols : symbols = turns.map Turn.symbol)
      (hrequests : refresh.requests = turnRequests turns)
      (hreplies : replies = refresh.requests.map Prod.snd ++ later)
      (haccounts : refresh.Accounts config backoff attempts db turns [])
  | awaiting (turns : List Turn) (symbol : String) (rest : List String) (errors : List Raised)
      (h : refresh.Awaits config backoff symbols timeframe limit attempts db replies turns symbol
        rest errors)
  | spent (turns : List Turn) (symbol : String) (rest : List String) (errors : List Raised)
      (error : Raised) (later : List BarReply) (hop : refresh.operation = .raised error)
      (hsymbols : symbols = turns.map Turn.symbol ++ symbol :: rest)
      (hrequests : refresh.requests =
        turnRequests turns ++ failedRequests symbol (errors ++ [error]))
      (hreplies : replies = refresh.requests.map Prod.snd ++ later)
      (hspent : ((errors ++ [error]).length : Int) = attempts)
      (hstatus : (refresh.state config).map ProviderStateRow.status =
        some ProviderStatus.unavailable.value)
      (haccounts : refresh.Accounts config backoff attempts db turns (errors ++ [error]))
  | refused (turns : List Turn) (symbol : String) (rest : List String) (errors : List Raised)
      (error : Raised) (later : List BarReply) (hop : refresh.operation = .raised error)
      (hrefused : error.transient = false)
      (hsymbols : symbols = turns.map Turn.symbol ++ symbol :: rest)
      (hrequests : refresh.requests = turnRequests turns ++
        failedRequests symbol errors ++ [(symbol, .error error)])
      (hreplies : replies = refresh.requests.map Prod.snd ++ later)
      (hleft : (errors.length : Int) < attempts)
      (haccounts : refresh.Accounts config backoff attempts db turns errors)

/-- Before the first answer nothing is to account for. -/
theorem BarRefresh.accounts_start (operation : BarOperation) :
    (⟨operation, db, 0, [], []⟩ : BarRefresh δ).Accounts config backoff attempts db [] [] where
  budget turn hmem := by cases hmem
  transient turn hmem := by cases hmem
  transient_last error hmem := by cases hmem
  slept_eq := by simp [delays]
  failures_eq := by simp [state]
  reconnects_eq := by simp [state]
  bars_kept received h := by simpa [turnBars] using h
  quotes_eq := rfl

/-- The loop goes on with the symbols that are left, or returns. -/
theorem BarRefresh.stands_next (turns : List Turn) (rest : List String)
    (hop : refresh.operation =
      .refresh timeframe limit attempts rest (turnBars turns).length)
    (hattempts : 1 ≤ attempts) (hsymbols : symbols = turns.map Turn.symbol ++ rest)
    (hrequests : refresh.requests = turnRequests turns)
    (hreplies : replies = refresh.requests.map Prod.snd)
    (haccounts : refresh.Accounts config backoff attempts db turns []) :
    refresh.Stands config backoff symbols timeframe limit attempts db replies := by
  cases rest with
  | nil =>
      rw [List.append_nil] at hsymbols
      exact .returned turns [] hop hsymbols hrequests (by simpa using hreplies) haccounts
  | cons symbol rest =>
      refine .awaiting turns symbol rest [] ⟨hop, hsymbols, ?_, hreplies, ?_, haccounts⟩
      · rw [failedRequests, List.map_nil, List.append_nil]
        exact hrequests
      · simpa using (by omega : 0 < attempts)

/-- **A turn ends.**  The bars are stored and the success is recorded. -/
theorem BarRefresh.Accounts.turn (turn : Turn) {saved : MarketDb} {inserted : ℕ}
    {observedAt : UtcDatetime}
    (h : refresh.Accounts config backoff attempts db turns turn.errors)
    (hleft : (turn.errors.length : Int) < attempts) (hslept : refresh'.slept = refresh.slept)
    (hsave : refresh.db.saveBars turn.bars = some (inserted, saved))
    (hrecord : saved.recorded ⟨config.providerName, observedAt, none,
      .success (0 < turn.errors.length)⟩ = some refresh'.db) :
    refresh'.Accounts config backoff attempts db (turns ++ [turn]) [] := by
  have hstates := MarketDb.providerStates_recorded hrecord
  rw [(MarketDb.saveBars_frame hsave).1] at hstates
  have hstate : refresh'.state config = some (ProviderCall.rowAfter ⟨config.providerName,
      observedAt, none, .success (0 < turn.errors.length)⟩ (refresh.state config)) := by
    rw [state, hstates]
    exact InsertionDict.get?_set_self _ _ _
  obtain ⟨hbars, hquotes⟩ := MarketDb.recorded_frame hrecord
  constructor
  · intro other hmem
    rcases List.mem_append.mp hmem with hold | hlast
    · exact h.budget other hold
    · rw [List.mem_singleton.mp hlast]
      exact hleft
  · intro other hmem
    rcases List.mem_append.mp hmem with hold | hlast
    · exact h.transient other hold
    · rw [List.mem_singleton.mp hlast]
      exact h.transient_last
  · intro error hmem
    cases hmem
  · have hmin : min turn.errors.length (attempts - 1).toNat = turn.errors.length := by omega
    rw [hslept, h.slept_eq, hmin, List.flatMap_append, List.flatMap_singleton]
    simp [delays]
  · rw [hstate]
    simp [storedFailures, ProviderCall.rowAfter, ProviderCall.succeeded]
  · rw [hstate, List.countP_append, ← Nat.add_assoc, ← h.reconnects_eq]
    cases herrors : turn.errors with
    | nil => simp [storedReconnects, ProviderCall.rowAfter, ProviderCall.reconnected, herrors]
    | cons error rest =>
        simp [storedReconnects, ProviderCall.rowAfter, ProviderCall.reconnected, herrors]
  · intro received hreceived
    obtain ⟨hkept, -⟩ := (h.bars_kept received hreceived).saveBars hsave
    rw [turnBars_snoc, ← List.append_assoc, hbars]
    exact hkept
  · rw [hquotes, ← h.quotes_eq]
    exact (MarketDb.saveBars_frame hsave).2

/-- **A failure.**  It is recorded, and slept after if attempts are left. -/
theorem BarRefresh.Accounts.failure {error : Raised} {observedAt : UtcDatetime} {exhausted : Bool}
    (h : refresh.Accounts config backoff attempts db turns errors)
    (hleft : (errors.length : Int) < attempts) (htransient : error.transient = true)
    (hslept : refresh'.slept = refresh.slept ++
      if (errors.length : Int) = attempts - 1 then [] else [backoff errors.length])
    (hrecord : refresh.db.recorded ⟨config.providerName, observedAt, none,
      .failure error.typeName exhausted⟩ = some refresh'.db) :
    refresh'.Accounts config backoff attempts db turns (errors ++ [error]) := by
  have hstates := MarketDb.providerStates_recorded hrecord
  have hstate : refresh'.state config = some (ProviderCall.rowAfter ⟨config.providerName,
      observedAt, none, .failure error.typeName exhausted⟩ (refresh.state config)) := by
    rw [state, hstates]
    exact InsertionDict.get?_set_self _ _ _
  obtain ⟨hbars, hquotes⟩ := MarketDb.recorded_frame hrecord
  refine ⟨h.budget, h.transient, ?_, ?_, ?_, ?_, ?_, ?_⟩
  · intro other hmem
    rcases List.mem_append.mp hmem with hold | hlast
    · exact h.transient_last other hold
    · rw [List.mem_singleton.mp hlast]
      exact htransient
  · rw [hslept, h.slept_eq, List.append_assoc, List.length_append, List.length_singleton]
    have hmin : min errors.length (attempts - 1).toNat = errors.length := by omega
    rw [hmin]
    split
    · have hspent : min (errors.length + 1) (attempts - 1).toNat = errors.length := by omega
      rw [hspent, List.append_nil]
    · have hmore : min (errors.length + 1) (attempts - 1).toNat = errors.length + 1 := by omega
      rw [hmore, delays_succ]
  · have hfailures : storedFailures (refresh'.state config) =
        storedFailures (refresh.state config) + 1 := by
      rw [hstate]
      rfl
    rw [hfailures, h.failures_eq, List.length_append, List.length_singleton]
    omega
  · rw [← h.reconnects_eq, hstate]
    rfl
  · intro received hreceived
    rw [hbars]
    exact h.bars_kept received hreceived
  · rw [hquotes]
    exact h.quotes_eq

namespace BarRefresh.Awaits

variable {symbol : String} {rest : List String} {error : Raised}

/-- The bars of the symbol end its turn. -/
theorem serve_bars {bars : List MarketBar} (hattempts : 1 ≤ attempts)
    (h : refresh.Awaits config backoff symbols timeframe limit attempts db replies turns symbol
      rest errors)
    (hserve : refresh.serve config backoff clock (.ok bars) = some refresh') :
    refresh'.Stands config backoff symbols timeframe limit attempts db
      (replies ++ [.ok bars]) := by
  obtain ⟨hop', hrequests', hslept, inserted, saved, observedAt, hsave, hrecord⟩ :=
    BarRefresh.serve_bars h.operation_eq hserve
  have hturn : refresh'.Accounts config backoff attempts db
      (turns ++ [⟨symbol, errors, bars⟩]) [] :=
    h.accounts.turn ⟨symbol, errors, bars⟩ h.left hslept hsave hrecord
  refine stands_next (turns ++ [⟨symbol, errors, bars⟩]) rest ?_ hattempts ?_ ?_ ?_ hturn
  · rw [turnBars_snoc, List.length_append]
    exact hop'
  · rw [h.symbols_eq, List.map_append, List.append_assoc]
    rfl
  · rw [hrequests', h.requests_eq, turnRequests_snoc, Turn.requests, List.append_assoc]
  · rw [hrequests', List.map_append, h.replies_eq]
    rfl

/-- A failure is the next request that failed, whatever comes of it. -/
theorem failed (h : refresh.Awaits config backoff symbols timeframe limit attempts db replies
      turns symbol rest errors)
    (hrequests : refresh'.requests = refresh.requests ++ [(symbol, .error error)]) :
    refresh'.requests = turnRequests turns ++ failedRequests symbol (errors ++ [error]) ∧
      replies ++ [.error error] = refresh'.requests.map Prod.snd := by
  constructor
  · rw [hrequests, h.requests_eq, failedRequests_snoc, List.append_assoc]
  · rw [hrequests, List.map_append, h.replies_eq]
    rfl

/-- The failure that spends the attempts of the symbol is raised. -/
theorem serve_last (h : refresh.Awaits config backoff symbols timeframe limit attempts db replies
      turns symbol rest errors)
    (htransient : error.transient = true) (hlast : (errors.length : Int) = attempts - 1)
    (hserve : refresh.serve config backoff clock (.error error) = some refresh') :
    refresh'.Stands config backoff symbols timeframe limit attempts db
      (replies ++ [.error error]) := by
  obtain ⟨hrequests', ⟨observedAt, hrecord⟩, hnext⟩ :=
    serve_transient htransient h.operation_eq hserve
  obtain ⟨hanswered, hreplied⟩ := h.failed hrequests'
  have hexhausted : BarLoop.exhausted ⟨timeframe, limit, attempts, symbol, rest,
      errors.length, (turnBars turns).length⟩ = true := decide_eq_true hlast
  rw [if_pos hexhausted] at hnext
  obtain ⟨hop', hslept⟩ := hnext
  refine .spent turns symbol rest errors error [] hop' h.symbols_eq hanswered
    (by rw [hreplied, List.append_nil]) ?_ ?_ ?_
  · rw [List.length_append, List.length_singleton]
    omega
  · rw [state, MarketDb.providerStates_recorded hrecord, BarLoop.failureCall,
      InsertionDict.get?_set_self, hexhausted]
    rfl
  · refine h.accounts.failure h.left htransient ?_ hrecord
    rw [if_pos hlast, List.append_nil]
    exact hslept

/-- After any earlier failure the symbol is asked for again. -/
theorem serve_again (h : refresh.Awaits config backoff symbols timeframe limit attempts db replies
      turns symbol rest errors)
    (htransient : error.transient = true) (hlast : ¬(errors.length : Int) = attempts - 1)
    (hserve : refresh.serve config backoff clock (.error error) = some refresh') :
    refresh'.Awaits config backoff symbols timeframe limit attempts db
      (replies ++ [.error error]) turns symbol rest (errors ++ [error]) := by
  obtain ⟨hrequests', ⟨observedAt, hrecord⟩, hnext⟩ :=
    serve_transient htransient h.operation_eq hserve
  obtain ⟨hanswered, hreplied⟩ := h.failed hrequests'
  have hexhausted : ¬BarLoop.exhausted ⟨timeframe, limit, attempts, symbol, rest,
      errors.length, (turnBars turns).length⟩ = true :=
    fun heq => hlast (of_decide_eq_true heq)
  rw [if_neg hexhausted] at hnext
  obtain ⟨hop', hslept⟩ := hnext
  refine ⟨?_, h.symbols_eq, hanswered, hreplied, ?_, ?_⟩
  · rw [hop', List.length_append, List.length_singleton]
    rfl
  · have hleft := h.left
    rw [List.length_append, List.length_singleton]
    omega
  · refine h.accounts.failure h.left htransient ?_ hrecord
    rw [if_neg hlast]
    exact hslept

/-- A failure that is not to be retried is raised at once. -/
theorem serve_refused (h : refresh.Awaits config backoff symbols timeframe limit attempts db
      replies turns symbol rest errors)
    (hrefused : error.transient = false)
    (hserve : refresh.serve config backoff clock (.error error) = some refresh') :
    refresh'.Stands config backoff symbols timeframe limit attempts db
      (replies ++ [.error error]) := by
  obtain ⟨hop', hrequests', hslept, hdb⟩ :=
    BarRefresh.serve_refused hrefused h.operation_eq hserve
  refine .refused turns symbol rest errors error [] hop' hrefused h.symbols_eq ?_ ?_ h.left ?_
  · rw [hrequests', h.requests_eq]
  · rw [hrequests', List.map_append, h.replies_eq, List.append_nil]
    rfl
  · have hstate : refresh'.state config = refresh.state config := by
      rw [state, state, hdb]
    exact { h.accounts with
      slept_eq := by rw [hslept]; exact h.accounts.slept_eq
      failures_eq := by rw [hstate]; exact h.accounts.failures_eq
      reconnects_eq := by rw [hstate]; exact h.accounts.reconnects_eq
      bars_kept := by rw [hdb]; exact h.accounts.bars_kept
      quotes_eq := by rw [hdb]; exact h.accounts.quotes_eq }

end BarRefresh.Awaits

/-- **Step lemma.**  One more answer. -/
theorem BarRefresh.Stands.serve {reply : BarReply} (hattempts : 1 ≤ attempts)
    (h : refresh.Stands config backoff symbols timeframe limit attempts db replies)
    (hserve : refresh.serve config backoff clock reply = some refresh') :
    refresh'.Stands config backoff symbols timeframe limit attempts db (replies ++ [reply]) := by
  cases h with
  | returned turns later hop hsymbols hrequests hreplies haccounts =>
      rw [serve_ended_call (fun loop heq => by rw [hop] at heq; cases heq)] at hserve
      obtain rfl := Option.some.inj hserve
      exact .returned turns (later ++ [reply]) hop hsymbols hrequests
        (by rw [hreplies, List.append_assoc]) haccounts
  | spent turns symbol rest errors error later hop hsymbols hrequests hreplies hspent hstatus
      haccounts =>
      rw [serve_ended_call (fun loop heq => by rw [hop] at heq; cases heq)] at hserve
      obtain rfl := Option.some.inj hserve
      exact .spent turns symbol rest errors error (later ++ [reply]) hop hsymbols hrequests
        (by rw [hreplies, List.append_assoc]) hspent hstatus haccounts
  | refused turns symbol rest errors error later hop hrefused hsymbols hrequests hreplies hleft
      haccounts =>
      rw [serve_ended_call (fun loop heq => by rw [hop] at heq; cases heq)] at hserve
      obtain rfl := Option.some.inj hserve
      exact .refused turns symbol rest errors error (later ++ [reply]) hop hrefused hsymbols
        hrequests (by rw [hreplies, List.append_assoc]) hleft haccounts
  | awaiting turns symbol rest errors hawaits =>
      cases reply with
      | ok bars => exact hawaits.serve_bars hattempts hserve
      | error error =>
          cases htransient : error.transient with
          | true =>
              by_cases hlast : (errors.length : Int) = attempts - 1
              · exact hawaits.serve_last htransient hlast hserve
              · exact .awaiting turns symbol rest (errors ++ [error])
                  (hawaits.serve_again htransient hlast hserve)
          | false => exact hawaits.serve_refused htransient hserve

theorem BarRefresh.play_snoc {reply : BarReply} :
    play config backoff clock symbols timeframe limit attempts db (replies ++ [reply]) =
      (play config backoff clock symbols timeframe limit attempts db replies).bind
        (fun refresh => refresh.serve config backoff clock reply) := by
  unfold play
  rw [List.foldlM_append]
  refine Option.bind_congr ?_
  intro refresh _
  rw [List.foldlM_cons]
  exact bind_pure _

/-- One step of the operation, whatever it waits for. -/
def BarOperation.Goes (operation operation' : BarOperation) : Prop :=
  ∃ answer, BarStep operation answer operation'

theorem BarRefresh.advance_goes (h : refresh.advance config backoff clock = some refresh') :
    Relation.ReflTransGen BarOperation.Goes refresh.operation refresh'.operation := by
  unfold advance at h
  split at h
  · rename_i call hop
    obtain ⟨db, -, rfl⟩ := Option.map_eq_some_iff.mp h
    rw [hop]
    exact .single ⟨_, .resumed call (.ok [])⟩
  · rename_i loop hop
    obtain rfl := Option.some.inj h
    rw [hop]
    exact .single ⟨_, .woken loop⟩
  · obtain rfl := Option.some.inj h
    exact .refl

/-- **Refinement.**  A call that was played takes the steps of the operation. -/
theorem BarRefresh.play_goes
    (h : play config backoff clock symbols timeframe limit attempts db replies = some refresh) :
    Relation.ReflTransGen BarOperation.Goes
      (config.beginRefreshBars symbols timeframe limit attempts) refresh.operation := by
  induction replies using List.reverseRecOn generalizing refresh with
  | nil =>
      obtain rfl := Option.some.inj h
      exact .refl
  | append_singleton replies reply ih =>
      rw [play_snoc] at h
      obtain ⟨middle, hmiddle, hserve⟩ := Option.bind_eq_some_iff.mp h
      refine (ih hmiddle).trans ?_
      unfold serve at hserve
      split at hserve
      · rename_i loop hop
        obtain ⟨first, hfirst, hserve⟩ := Option.bind_eq_some_iff.mp hserve
        obtain ⟨second, hsecond, hserve⟩ := Option.bind_eq_some_iff.mp hserve
        obtain rfl := Option.some.inj hserve
        have hprovided : BarOperation.Goes (.refreshing loop)
            ((BarOperation.refreshing loop).provided reply) :=
          ⟨_, .provided reply trivial⟩
        have hwrites := (advance_goes hfirst).trans (advance_goes hsecond)
        rw [hop]
        exact .head hprovided hwrites
      · obtain rfl := Option.some.inj hserve
        exact .refl

/-- **Where a refresh of bars stands.**  For every list of answers of the
provider, if no write raises, `refresh_bars` has returned the number of bars of
its turns, one for each symbol and in order, or it awaits the next answer for
the first symbol left, or it has raised the failure that spent the attempts of
that symbol, or one that is not to be retried; and it keeps its accounts. -/
theorem refresh_bars_stands (config : MarketConfig) (backoff : ℕ → δ) (clock : ℕ → UtcDatetime)
    (symbols : List String) (timeframe : String) (limit attempts : Int) (db : MarketDb)
    (replies : List BarReply) {refresh : BarRefresh δ}
    (hreads : config.providerReadsEnabled = true)
    (htimeframe : unsupportedTimeframe timeframe = false) (hattempts : 1 ≤ attempts)
    (h : BarRefresh.play config backoff clock symbols timeframe limit attempts db replies =
      some refresh) :
    refresh.Stands config backoff symbols timeframe limit attempts db replies := by
  induction replies using List.reverseRecOn generalizing refresh with
  | nil =>
      obtain rfl := Option.some.inj h
      have hbegin : config.beginRefreshBars symbols timeframe limit attempts =
          .refresh timeframe limit attempts symbols 0 := by
        rw [MarketConfig.beginRefreshBars, if_neg (by simp [hreads]), if_neg (by simp [htimeframe]),
          if_neg (by omega)]
      exact BarRefresh.stands_next [] symbols hbegin hattempts rfl rfl rfl
        (BarRefresh.accounts_start _)
  | append_singleton replies reply ih =>
      rw [BarRefresh.play_snoc] at h
      obtain ⟨middle, hmiddle, hserve⟩ := Option.bind_eq_some_iff.mp h
      exact (ih hmiddle).serve hattempts hserve

end Runs

section Sample

/-- A symbol that fails once before its bars come, and one that keeps failing:
with two attempts the call sleeps after the first failure of each, stores the
bars of the first symbol and raises. -/
theorem refresh_bars_stands_failing :
    let _ : Digest := sampleDigest
    ∃ refresh : BarRefresh ℕ,
      BarRefresh.play ⟨"fixture-market", true⟩ id (fun _ => sampleNoon) ["ACME", "SPY"] "1m" 60 2
        .empty [.error disconnect, .ok [sampleBar 60], .error disconnect, .error disconnect] =
          some refresh ∧
      refresh.slept = [0, 0] ∧ refresh.db.barObservations.values.length = 1 ∧
      refresh.Stands ⟨"fixture-market", true⟩ id ["ACME", "SPY"] "1m" 60 2 .empty
        [.error disconnect, .ok [sampleBar 60], .error disconnect, .error disconnect] := by
  intro _
  have hplayed : (BarRefresh.play ⟨"fixture-market", true⟩ id (fun _ => sampleNoon)
      ["ACME", "SPY"] "1m" 60 2 .empty
      [.error disconnect, .ok [sampleBar 60], .error disconnect, .error disconnect]).map
        (fun refresh => (refresh.slept, refresh.db.barObservations.values.length)) =
      some ([0, 0], 1) := by
    decide +kernel
  obtain ⟨refresh, hplays, hshown⟩ := Option.map_eq_some_iff.mp hplayed
  obtain ⟨hslept, hrows⟩ := Prod.mk.inj hshown
  exact ⟨refresh, hplays, hslept, hrows, refresh_bars_stands ⟨"fixture-market", true⟩ id
    (fun _ => sampleNoon) ["ACME", "SPY"] "1m" 60 2 .empty _ rfl (by decide) (by decide) hplays⟩

end Sample

end EventAlpha
