import EventAlpha.MarketDataService

/-!
# The operations on bars

`bars` and `refresh_bars` of a `MarketDataService`, as state machines in the
manner of `latest` and `refresh_watchlist`.  `refresh_bars` is two nested loops:
over the symbols, and for each of them over the attempts.

A call of the store is one step here, with whatever it returns or raises.
-/

namespace EventAlpha

section Model

/-- `timeframe not in {"1m", "5m", "15m", "1h", "1d"}`. -/
def unsupportedTimeframe (timeframe : String) : Bool :=
  timeframe ∉ ["1m", "5m", "15m", "1h", "1d"]

/-- The loop variables of `refresh_bars`: the symbol at hand and those after
it, the attempt and the number of bars so far. -/
structure BarLoop where
  timeframe : String
  limit : Int
  attempts : Int
  symbol : String
  later : List String
  attempt : ℕ
  count : ℕ
  deriving DecidableEq

/-- The attempt is the last one. -/
def BarLoop.exhausted (loop : BarLoop) : Bool := (loop.attempt : Int) = loop.attempts - 1

/-- The next attempt. -/
def BarLoop.retried (loop : BarLoop) : BarLoop := { loop with attempt := loop.attempt + 1 }

/-- The calls of the store, with what the operation needs to go on.  The bars to
save are those of `bars`, or of one attempt of `refresh_bars`. -/
inductive BarCall
  | readBars (symbol timeframe : String) (limit : Int) (asOf : Option UtcDatetime)
  | saveBars (bars : List MarketBar) (loop : Option BarLoop)
  | recordSuccess (bars : List MarketBar) (loop : BarLoop)
  | recordFailure (error : Raised) (loop : BarLoop)
  | reportFailure (error : Raised) (lastMessage : Option UtcDatetime)

/-- What the provider or a call of the store returns or raises; a write returns
no bars. -/
abbrev BarReply := Except Raised (List MarketBar)

/-- Where an operation is. -/
inductive BarOperation
  | fetching (symbol timeframe : String) (limit : Int)
  | refreshing (loop : BarLoop)
  | calling (call : BarCall)
  | sleeping (loop : BarLoop)
  | returnedBars (bars : List MarketBar)
  | returnedCount (count : ℕ)
  | raised (error : Raised)

/-- The symbols that are left, from the first attempt of the first of them. -/
def BarOperation.refresh (timeframe : String) (limit attempts : Int) (symbols : List String)
    (count : ℕ) : BarOperation :=
  match symbols with
  | [] => .returnedCount count
  | symbol :: later => .refreshing ⟨timeframe, limit, attempts, symbol, later, 0, count⟩

/-- How `bars` begins. -/
def MarketConfig.beginBars [CharacterTables] (config : MarketConfig) (symbol timeframe : String)
    (limit : Int) (asOf : Option UtcDatetime) : BarOperation :=
  if unsupportedTimeframe timeframe then
    .raised ⟨"ValueError", "Unsupported timeframe: " ++ timeframe, false⟩
  else if config.providerReadsEnabled then .fetching (upper symbol) timeframe limit
  else .calling (.readBars (upper symbol) timeframe limit asOf)

/-- How `refresh_bars` begins. -/
def MarketConfig.beginRefreshBars (config : MarketConfig) (symbols : List String)
    (timeframe : String) (limit attempts : Int) : BarOperation :=
  if config.providerReadsEnabled = false then
    .raised ⟨"RuntimeError", "Read-only market service cannot fetch provider bars", false⟩
  else if unsupportedTimeframe timeframe then
    .raised ⟨"ValueError", "Unsupported timeframe: " ++ timeframe, false⟩
  else if attempts < 1 then .raised ⟨"ValueError", "attempts must be positive", false⟩
  else .refresh timeframe limit attempts symbols 0

/-- Whether an operation awaits the provider. -/
def BarOperation.AwaitsProvider : BarOperation → Prop
  | .fetching _ _ _ | .refreshing _ => True
  | _ => False

/-- How an operation that awaits the provider goes on. -/
def BarOperation.provided : BarOperation → BarReply → BarOperation
  | .fetching _ _ _, .ok bars => .calling (.saveBars bars none)
  | .fetching _ _ _, .error error => .raised error
  | .refreshing loop, .ok bars => .calling (.saveBars bars (some loop))
  | .refreshing loop, .error error =>
      if error.transient then .calling (.recordFailure error loop) else .raised error
  | operation, _ => operation

/-- How an operation goes on after a call of the store. -/
def BarCall.resume : BarCall → BarReply → BarOperation
  | readBars _ _ _ _, .ok bars => .returnedBars bars
  | readBars _ _ _ _, .error error => .raised error
  | saveBars bars none, .ok _ => .returnedBars bars
  | saveBars bars (some loop), .ok _ => .calling (.recordSuccess bars loop)
  | saveBars bars _, .error error =>
      .calling (.reportFailure error (bars.map (fun bar => bar.receivedAt)).max?)
  | recordSuccess bars loop, .ok _ =>
      .refresh loop.timeframe loop.limit loop.attempts loop.later (loop.count + bars.length)
  | recordSuccess _ _, .error error => .calling (.reportFailure error none)
  | recordFailure error loop, .ok _ =>
      if loop.exhausted then .raised error else .sleeping loop
  -- this write is not wrapped: what it raises is what the caller sees
  | recordFailure _ _, .error error => .raised error
  | reportFailure error _, _ =>
      .raised (.persistence ("Market persistence failed: " ++ error.message))

/-- What an operation on bars waits for, and what comes of it. -/
inductive BarAnswer
  | provider (reply : BarReply)
  | store (reply : BarReply)
  | woken

/-- One step of an operation on bars. -/
inductive BarStep : BarOperation → BarAnswer → BarOperation → Prop
  | provided {operation : BarOperation} (reply : BarReply) (hawaits : operation.AwaitsProvider) :
      BarStep operation (.provider reply) (operation.provided reply)
  | resumed (call : BarCall) (reply : BarReply) :
      BarStep (.calling call) (.store reply) (call.resume reply)
  | woken (loop : BarLoop) : BarStep (.sleeping loop) .woken (.refreshing loop.retried)

end Model

end EventAlpha
