import EventAlpha.Corrections
import EventAlpha.Fingerprints

/-!
# The replay market

`ReplayMarketDataProvider.bars` makes up the one-minute bars before a reading of
its clock, `ACME` and `SPY` being its symbols.  Prices and volume are a function
of the minute, so the bars of overlapping polls differ in their receipt only,
and the store keeps each minute once (`replay_inserts_once`).

`uuid5` stands for `uuid5(NAMESPACE_URL, ·)`.  A sum or a product of prices is
exact: it has far fewer digits than the arithmetic context.
-/

namespace Decimal

/-- The exact sum of two decimals. -/
def plus (d d' : Decimal) : Decimal :=
  let exponent := min d.exponent d'.exponent
  ⟨d.coefficient * 10 ^ (d.exponent - exponent).toNat +
    d'.coefficient * 10 ^ (d'.exponent - exponent).toNat, exponent⟩

/-- The exact product of two decimals. -/
def times (d d' : Decimal) : Decimal :=
  ⟨d.coefficient * d'.coefficient, d.exponent + d'.exponent⟩

end Decimal

namespace EventAlpha

open ObservationLog

/-- A reading of a clock: the wall time, and its offset from UTC unless it is
naive. -/
structure ClockReading where
  wall : Int
  offset : Option Int

/-- How a poll of the replay provider can raise. -/
inductive ReplayError
  | valueError (message : String)
  | keyError (key : String)
  | overflowError
  | validationError
  deriving DecidableEq, Repr

/-- The length of a minute in microseconds. -/
def minute : Int := 60000000

namespace ReplayMarketDataProvider

def name : String := "replay-market"

/-- The symbols the provider knows. -/
def Known (normalized : String) : Prop := normalized = "ACME" ∨ normalized = "SPY"

instance decidableKnown (normalized : String) : Decidable (Known normalized) := by
  unfold Known; infer_instance

/-- `_now`. -/
def now (clock : ClockReading) : Except ReplayError UtcDatetime :=
  match clock.offset with
  | none => .error (.valueError "Replay clock must return a timezone-aware timestamp")
  | some offset =>
      if clock.wall - offset < CivilTime.firstInstant ∨
          CivilTime.lastInstant < clock.wall - offset then .error .overflowError
      else .ok (clock.wall - offset)

variable (uuid5 : String → Uuid)

/-- The arguments of the bar that starts at `timestamp`. -/
def barFields (normalized : String) (receivedAt timestamp : UtcDatetime) : MarketBarFields :=
  let anchor : Decimal := if normalized = "ACME" then ⟨10000, -2⟩ else ⟨54000, -2⟩
  let minuteBucket := timestamp / 1000000 / 60 % 100
  let close := anchor.plus (Decimal.times ⟨minuteBucket, 0⟩ ⟨8, -2⟩)
  let nativeId := normalized ++ ":1m:" ++ CivilTime.isoformat timestamp
  { id := uuid5 ("eventalpha:bar:" ++ nativeId)
    traceId := uuid5 ("eventalpha:bar-trace:" ++ nativeId)
    provider := name
    nativeId := some nativeId
    symbol := normalized
    timeframe := .oneMinute
    timestamp := timestamp
    barEndAt := timestamp + minute
    providerUpdatedAt := some receivedAt
    receivedAt := receivedAt
    processedAt := receivedAt
    «open» := close.plus ⟨-3, -2⟩
    high := close.plus ⟨5, -2⟩
    low := close.plus ⟨-6, -2⟩
    close := close
    volume := some (10000 + minuteBucket * 100) }

/-- How many bars a poll asks for. -/
def count (limit : Int) : ℕ := (min (max limit 1) 1000).toNat

/-- The reading with its seconds cut off. -/
def startOfMinute (receivedAt : UtcDatetime) : UtcDatetime := receivedAt - receivedAt % minute

/-- The body of the loop of `bars`. -/
def bar (normalized : String) (receivedAt : UtcDatetime) (count index : ℕ) :
    Except ReplayError MarketBar :=
  let timestamp := startOfMinute receivedAt - minute * (count - index)
  if timestamp < CivilTime.firstInstant then .error .overflowError
  else
    match MarketBar.validate (barFields uuid5 normalized receivedAt timestamp) with
    | some bar => .ok bar
    | none => .error .validationError

/-- `bars`. -/
def bars [CharacterTables] (clock : ClockReading) (symbol timeframe : String) (limit : Int) :
    Except ReplayError (List MarketBar) :=
  if timeframe ≠ "1m" then
    .error (.valueError "Replay adapter currently supports 1m bars only")
  else if ¬Known (upper symbol) then .error (.keyError (upper symbol))
  else
    (now clock).bind (fun receivedAt =>
      (List.range (count limit)).mapM (bar uuid5 (upper symbol) receivedAt (count limit)))

section Prices

variable {normalized : String} {receivedAt timestamp : UtcDatetime}

/-- The close of the bar that starts at `timestamp`, in cents. -/
def closeCents (normalized : String) (timestamp : UtcDatetime) : Int :=
  (if normalized = "ACME" then 10000 else 54000) + timestamp / 1000000 / 60 % 100 * 8

theorem closeCents_bounds (normalized : String) (timestamp : UtcDatetime) :
    10000 ≤ closeCents normalized timestamp ∧ closeCents normalized timestamp < 100000 := by
  unfold closeCents
  split <;> omega

/-- The prices of a bar in cents. -/
theorem barFields_prices (normalized : String) (receivedAt timestamp : UtcDatetime) :
    (barFields uuid5 normalized receivedAt timestamp).open =
        ⟨closeCents normalized timestamp - 3, -2⟩ ∧
      (barFields uuid5 normalized receivedAt timestamp).high =
        ⟨closeCents normalized timestamp + 5, -2⟩ ∧
      (barFields uuid5 normalized receivedAt timestamp).low =
        ⟨closeCents normalized timestamp - 6, -2⟩ ∧
      (barFields uuid5 normalized receivedAt timestamp).close =
        ⟨closeCents normalized timestamp, -2⟩ := by
  unfold closeCents
  by_cases hsymbol : normalized = "ACME"
  · simp [barFields, hsymbol, Decimal.plus, Decimal.times]
    omega
  · simp [barFields, hsymbol, Decimal.plus, Decimal.times]
    omega

theorem value_cents (cents : Int) : (⟨cents, -2⟩ : Decimal).value = cents / 100 := by
  rw [Decimal.value_eq, div_eq_mul_inv]
  norm_num

theorem Known.isSymbol (h : Known normalized) : EventAlpha.isSymbol normalized = true := by
  rcases h with rfl | rfl <;> decide

theorem Known.length_le (h : Known normalized) : normalized.length ≤ 4 := by
  rcases h with rfl | rfl <;> decide

/-- Every bar the provider makes up passes the checks of the contract. -/
theorem barFields_accepted (hknown : Known normalized)
    (hfirst : CivilTime.firstInstant ≤ timestamp) (hlast : timestamp ≤ CivilTime.lastInstant) :
    (barFields uuid5 normalized receivedAt timestamp).Accepted := by
  obtain ⟨hopen, hhigh, hlow, hclose⟩ := barFields_prices uuid5 normalized receivedAt timestamp
  have hcents : (10000 : ℚ) ≤ closeCents normalized timestamp := by
    exact_mod_cast (closeCents_bounds normalized timestamp).1
  unfold MarketBarFields.Accepted
  rw [hopen, hhigh, hlow, hclose]
  simp only [value_cents]
  push_cast
  refine ⟨⟨?_, ?_⟩, ?_, hknown.isSymbol, ⟨?_, ?_, ?_, ?_⟩, ?_, ?_, ?_, ?_⟩
  · show 1 ≤ name.length
    decide
  · show name.length ≤ 100
    decide
  · intro nativeId hnative
    rw [← Option.mem_some_iff.mp hnative, String.length_append, String.length_append]
    have hsymbol := hknown.length_le
    have hinstant := CivilTime.length_isoformat_le hfirst hlast
    have hmark : (":1m:" : String).length = 4 := rfl
    omega
  · linarith
  · linarith
  · linarith
  · linarith
  · intro volume hvolume
    rw [← Option.mem_some_iff.mp hvolume]
    omega
  · exact not_le.mpr (lt_add_of_pos_right timestamp (by decide : (0 : Int) < minute))
  · rw [not_or, not_lt, not_lt]
    exact ⟨max_le (by linarith) (by linarith), le_min (by linarith) (by linarith)⟩
  · linarith

end Prices

section Polls

/-- A loop over a step that either raises or has the result it should have. -/
theorem mapM_eq_ok_iff {α β γ ε : Type} {f : α → Except ε β} {p : α → Prop} {g : α → γ} {k : β → γ}
    {l : List α} (hstep : ∀ a ∈ l, ∀ b, f a = .ok b ↔ p a ∧ g a = k b) {out : List β} :
    l.mapM f = .ok out ↔ (∀ a ∈ l, p a) ∧ l.map g = out.map k := by
  induction l generalizing out with
  | nil =>
    cases out with
    | nil => simp [pure, Except.pure]
    | cons b out => simp [pure, Except.pure]
  | cons a l ih =>
    have hrest : ∀ rest, l.mapM f = .ok rest ↔ (∀ a ∈ l, p a) ∧ l.map g = rest.map k :=
      fun rest => ih (fun a' ha' => hstep a' (List.mem_cons_of_mem a ha'))
    have hfirst := hstep a List.mem_cons_self
    rw [List.mapM_cons, List.forall_mem_cons, List.map_cons]
    constructor
    · intro h
      cases ha : f a with
      | error error =>
        rw [ha] at h
        cases h
      | ok b =>
        cases hl : l.mapM f with
        | error error =>
          rw [ha, hl] at h
          cases h
        | ok rest =>
          rw [ha, hl] at h
          cases h
          obtain ⟨hp, hg⟩ := (hfirst b).mp ha
          obtain ⟨hps, hgs⟩ := (hrest rest).mp hl
          exact ⟨⟨hp, hps⟩, by rw [hg, hgs, List.map_cons]⟩
    · intro hex
      obtain ⟨⟨hp, hps⟩, hmap⟩ := hex
      obtain ⟨b, rest, rfl, hg, hgs⟩ := List.map_eq_cons_iff.mp hmap.symm
      rw [(hfirst b).mpr ⟨hp, hg.symm⟩, (hrest rest).mpr ⟨hps, hgs.symm⟩]
      rfl

variable {normalized : String} {receivedAt : UtcDatetime} {index total : ℕ}

/-- The start of a bar, counted in minutes before the minute of the reading. -/
def startBefore (receivedAt : UtcDatetime) (minutes : Int) : UtcDatetime :=
  startOfMinute receivedAt - minute * minutes

theorem startOfMinute_bounds (receivedAt : UtcDatetime) :
    startOfMinute receivedAt ≤ receivedAt ∧ receivedAt < startOfMinute receivedAt + minute := by
  have hpos : (0 : Int) < minute := by decide
  have hnonneg := Int.emod_nonneg receivedAt hpos.ne'
  have hlt := Int.emod_lt_of_pos receivedAt hpos
  unfold startOfMinute
  constructor
  · exact sub_le_self receivedAt hnonneg
  · linarith

theorem startBefore_le (receivedAt : UtcDatetime) {minutes : Int} (h : 0 ≤ minutes) :
    startBefore receivedAt minutes ≤ receivedAt := by
  have hpast : 0 ≤ minute * minutes := mul_nonneg (by decide) h
  exact (sub_le_self _ hpast).trans (startOfMinute_bounds receivedAt).1

/-- One bar is made up unless it would start before the first instant. -/
theorem bar_eq_ok_iff {made : MarketBar} (hknown : Known normalized)
    (hlast : receivedAt ≤ CivilTime.lastInstant) (hindex : index < total) :
    bar uuid5 normalized receivedAt total index = .ok made ↔
      CivilTime.firstInstant ≤ startBefore receivedAt (total - index) ∧
      barFields uuid5 normalized receivedAt (startBefore receivedAt (total - index)) =
        made.toMarketBarFields := by
  have hstart := (startBefore_le receivedAt (by omega : 0 ≤ (total : Int) - index)).trans hlast
  unfold bar
  rw [← startBefore]
  by_cases hfirst : startBefore receivedAt (total - index) < CivilTime.firstInstant
  · simp [hfirst]
  · have haccepted : (barFields uuid5 normalized receivedAt
        (startBefore receivedAt (total - index))).Accepted :=
      barFields_accepted uuid5 hknown (not_lt.mp hfirst) hstart
    simp only [if_neg hfirst, MarketBar.validate_of_accepted haccepted, not_lt.mp hfirst, true_and,
      Except.ok.injEq]
    exact ⟨fun h => by rw [← h], fun h => MarketBar.eq_of_fields h⟩

/-- The arguments of the bars of a poll, earliest first. -/
def pollFields (normalized : String) (receivedAt : UtcDatetime) (total : ℕ) :
    List MarketBarFields :=
  (List.range total).map (fun (index : ℕ) => barFields uuid5 normalized receivedAt
    (startBefore receivedAt (total - index)))

/-- The loop returns the bars of the minutes before the reading, unless the first
would start before the first instant. -/
theorem loop_eq_ok_iff {out : List MarketBar} (hknown : Known normalized)
    (hlast : receivedAt ≤ CivilTime.lastInstant) (htotal : 0 < total) :
    (List.range total).mapM (bar uuid5 normalized receivedAt total) = .ok out ↔
      CivilTime.firstInstant ≤ startBefore receivedAt total ∧
      pollFields uuid5 normalized receivedAt total = out.map MarketBar.toMarketBarFields := by
  rw [mapM_eq_ok_iff (fun (index : ℕ) hindex made =>
    bar_eq_ok_iff uuid5 hknown hlast (List.mem_range.mp hindex)), pollFields]
  refine and_congr_left (fun _ => ?_)
  constructor
  · intro h
    have hzero := h 0 (List.mem_range.mpr htotal)
    simpa using hzero
  · intro h index hindex
    refine h.trans ?_
    unfold startBefore minute
    omega

variable {clock : ClockReading} {symbol timeframe : String} {limit : Int}

theorem now_eq_ok {receivedAt : UtcDatetime} (h : now clock = .ok receivedAt) :
    CivilTime.firstInstant ≤ receivedAt ∧ receivedAt ≤ CivilTime.lastInstant := by
  unfold now at h
  split at h
  · cases h
  · split at h
    · cases h
    · rename_i hrange
      rw [not_or, not_lt, not_lt] at hrange
      cases h
      exact hrange

theorem count_pos (limit : Int) : 0 < count limit := by
  unfold count
  omega

variable [CharacterTables]

/-- A poll for one-minute bars is answered at `receivedAt`: the symbol is known,
the clock is not naive, and all the bars asked for start within the calendar. -/
def PollAnswered (clock : ClockReading) (symbol : String) (limit : Int) (receivedAt : UtcDatetime) :
    Prop :=
  Known (upper symbol) ∧ now clock = .ok receivedAt ∧
  CivilTime.firstInstant ≤ startBefore receivedAt (count limit)

/-- What a poll for one-minute bars returns. -/
theorem bars_eq_ok_iff {out : List MarketBar} :
    bars uuid5 clock symbol "1m" limit = .ok out ↔
      ∃ receivedAt, PollAnswered clock symbol limit receivedAt ∧
        pollFields uuid5 (upper symbol) receivedAt (count limit) =
          out.map MarketBar.toMarketBarFields := by
  unfold bars PollAnswered
  rw [if_neg (not_not.mpr rfl)]
  by_cases hknown : Known (upper symbol)
  · rw [if_neg (not_not.mpr hknown)]
    cases hnow : now clock with
    | error error =>
      constructor
      · intro h
        cases h
      · intro hex
        obtain ⟨receivedAt, ⟨-, h, -⟩, -⟩ := hex
        cases h
    | ok receivedAt =>
      have hlast := (now_eq_ok hnow).2
      constructor
      · intro h
        obtain ⟨hfirst, hfields⟩ := (loop_eq_ok_iff uuid5 hknown hlast (count_pos limit)).mp h
        exact ⟨receivedAt, ⟨hknown, rfl, hfirst⟩, hfields⟩
      · intro hex
        obtain ⟨receivedAt', ⟨-, hreceived, hfirst⟩, hfields⟩ := hex
        cases hreceived
        exact (loop_eq_ok_iff uuid5 hknown hlast (count_pos limit)).mpr ⟨hfirst, hfields⟩
  · rw [if_pos hknown]
    constructor
    · intro h
      cases h
    · intro hex
      obtain ⟨receivedAt, ⟨h, -⟩, -⟩ := hex
      exact absurd h hknown

/-- An answered poll returns bars. -/
theorem PollAnswered.exists_bars {receivedAt : UtcDatetime}
    (h : PollAnswered clock symbol limit receivedAt) :
    ∃ out, bars uuid5 clock symbol "1m" limit = .ok out := by
  obtain ⟨hknown, hnow, hfirst⟩ := h
  have haccepted : ∀ fields ∈ pollFields uuid5 (upper symbol) receivedAt (count limit),
      fields.Accepted := by
    intro fields hfields
    obtain ⟨index, hindex, rfl⟩ := List.mem_map.mp hfields
    have hindex := List.mem_range.mp hindex
    refine barFields_accepted uuid5 hknown (hfirst.trans ?_)
      ((startBefore_le receivedAt (by omega)).trans (now_eq_ok hnow).2)
    unfold startBefore minute
    omega
  refine ⟨(pollFields uuid5 (upper symbol) receivedAt (count limit)).pmap MarketBar.mk haccepted,
    (bars_eq_ok_iff uuid5).mpr ⟨receivedAt, ⟨hknown, hnow, hfirst⟩, ?_⟩⟩
  rw [List.map_pmap]
  simp

/-- The bars a poll returned: the consecutive minutes that ended last before the
reading, as many as were asked for. -/
structure Delivers (receivedAt : UtcDatetime) (limit : Int) (out : List MarketBar) : Prop where
  length : (out.length : Int) = min (max limit 1) 1000
  width : ∀ made ∈ out, made.barEndAt = made.timestamp + minute
  consecutive : out.IsChain (fun made next => made.barEndAt = next.timestamp)
  latest : ∀ last ∈ out.getLast?,
    last.barEndAt ≤ receivedAt ∧ receivedAt < last.barEndAt + minute

/-- A bar the provider made up. -/
structure Made (made : MarketBar) : Prop where
  known : Known made.symbol
  range : CivilTime.firstInstant ≤ made.timestamp ∧ made.timestamp ≤ CivilTime.lastInstant
  fields : made.toMarketBarFields = barFields uuid5 made.symbol made.receivedAt made.timestamp

omit [CharacterTables] in
theorem length_of_pollFields {receivedAt : UtcDatetime} {out : List MarketBar}
    (h : pollFields uuid5 normalized receivedAt total = out.map MarketBar.toMarketBarFields) :
    out.length = total := by
  have hlength := congrArg List.length h
  rw [pollFields, List.length_map, List.length_range, List.length_map] at hlength
  exact hlength.symm

omit [CharacterTables] in
theorem getElem_of_pollFields {receivedAt : UtcDatetime} {out : List MarketBar}
    (h : pollFields uuid5 normalized receivedAt total = out.map MarketBar.toMarketBarFields)
    {i : ℕ} (hi : i < out.length) :
    out[i].toMarketBarFields =
      barFields uuid5 normalized receivedAt (startBefore receivedAt (total - i)) := by
  have htotal := length_of_pollFields uuid5 h
  have hget := congrArg (fun fields => fields[i]?) h
  simp only [pollFields, List.getElem?_map, List.getElem?_range (htotal ▸ hi),
    List.getElem?_eq_getElem hi, Option.map_some, Option.some.injEq] at hget
  exact hget.symm

omit [CharacterTables] in
/-- The bars of a poll were made up of their own symbol, receipt and start. -/
theorem made_of_pollFields {receivedAt : UtcDatetime} {out : List MarketBar}
    (h : pollFields uuid5 normalized receivedAt total = out.map MarketBar.toMarketBarFields)
    (hknown : Known normalized) (hlast : receivedAt ≤ CivilTime.lastInstant)
    (hfirst : CivilTime.firstInstant ≤ startBefore receivedAt total) :
    ∀ made ∈ out, Made uuid5 made ∧ made.symbol = normalized ∧
      ∃ minutes : ℕ, 1 ≤ minutes ∧ minutes ≤ total ∧
        made.timestamp = startBefore receivedAt minutes := by
  intro made hmade
  obtain ⟨i, hi, rfl⟩ := List.mem_iff_getElem.mp hmade
  have htotal := length_of_pollFields uuid5 h
  have hfields := getElem_of_pollFields uuid5 h hi
  have hsymbol : out[i].symbol = normalized := congrArg MarketBarFields.symbol hfields
  have hstart : out[i].timestamp = startBefore receivedAt (total - i) :=
    congrArg MarketBarFields.timestamp hfields
  have hreceived : out[i].receivedAt = receivedAt := congrArg MarketBarFields.receivedAt hfields
  have hminutes : ((total - i : ℕ) : Int) = total - i := by omega
  refine ⟨⟨?_, ⟨?_, ?_⟩, ?_⟩, hsymbol, total - i, by omega, by omega, by rw [hminutes, hstart]⟩
  · rwa [hsymbol]
  · rw [hstart]
    refine hfirst.trans ?_
    unfold startBefore minute
    omega
  · rw [hstart]
    exact (startBefore_le receivedAt (by omega)).trans hlast
  · rw [hsymbol, hreceived, hstart, hfields]

omit [CharacterTables] in
theorem delivers_of_pollFields {receivedAt : UtcDatetime} {out : List MarketBar}
    (h : pollFields uuid5 normalized receivedAt (count limit) =
      out.map MarketBar.toMarketBarFields) :
    Delivers receivedAt limit out := by
  have htotal := length_of_pollFields uuid5 h
  have hcount := count_pos limit
  have hstart : ∀ {i : ℕ} (hi : i < out.length),
      out[i].timestamp = startBefore receivedAt (count limit - i) :=
    fun hi => congrArg MarketBarFields.timestamp (getElem_of_pollFields uuid5 h hi)
  have hend : ∀ {i : ℕ} (hi : i < out.length), out[i].barEndAt = out[i].timestamp + minute := by
    intro i hi
    rw [hstart hi, getElem_of_pollFields uuid5 h hi]
    rfl
  refine ⟨?_, ?_, ?_, ?_⟩
  · rw [htotal]
    unfold count
    omega
  · intro made hmade
    obtain ⟨i, hi, rfl⟩ := List.mem_iff_getElem.mp hmade
    exact hend hi
  · rw [List.isChain_iff_getElem]
    intro i hi
    rw [hend (by omega), hstart (by omega), hstart hi]
    unfold startBefore
    push_cast
    ring
  · intro last hlast
    rw [List.getLast?_eq_getElem?] at hlast
    obtain ⟨hi, hget⟩ := List.getElem?_eq_some_iff.mp hlast
    obtain ⟨hle, hlt⟩ := startOfMinute_bounds receivedAt
    have hone : (count limit : Int) - (out.length - 1 : ℕ) = 1 := by omega
    rw [← hget, hend hi, hstart hi, hone, startBefore, mul_one, sub_add_cancel]
    exact ⟨hle, hlt⟩

omit [CharacterTables] in
/-- At one reading, the bars of a smaller limit end those of a larger one. -/
theorem suffix_of_pollFields {receivedAt : UtcDatetime} {limit' : Int} {out out' : List MarketBar}
    (hle : limit ≤ limit')
    (h : pollFields uuid5 normalized receivedAt (count limit) =
      out.map MarketBar.toMarketBarFields)
    (h' : pollFields uuid5 normalized receivedAt (count limit') =
      out'.map MarketBar.toMarketBarFields) : out <:+ out' := by
  have hlength := length_of_pollFields uuid5 h
  have hlength' := length_of_pollFields uuid5 h'
  have hcount : count limit ≤ count limit' := by
    unfold count
    omega
  have hdrop : out'.drop (count limit' - count limit) = out := by
    apply List.ext_getElem
    · rw [List.length_drop, hlength, hlength']
      omega
    · intro i hi hi'
      have hminutes : (count limit' : Int) - (count limit' - count limit + i : ℕ) =
          count limit - i := by
        omega
      have hfields : (out'.drop (count limit' - count limit))[i].toMarketBarFields =
          out[i].toMarketBarFields := by
        rw [List.getElem_drop, getElem_of_pollFields uuid5 h', getElem_of_pollFields uuid5 h,
          hminutes]
      exact MarketBar.eq_of_fields hfields
  rw [← hdrop]
  exact List.drop_suffix _ _

omit [CharacterTables] in
theorem startBefore_mono (receivedAt : UtcDatetime) {minutes minutes' : Int}
    (h : minutes ≤ minutes') : startBefore receivedAt minutes' ≤ startBefore receivedAt minutes :=
  sub_le_sub_left (mul_le_mul_of_nonneg_left h (by decide)) _

/-- A poll of a smaller limit is answered where one of a larger limit is. -/
theorem PollAnswered.of_limit_le {receivedAt : UtcDatetime} {limit' : Int}
    (h : PollAnswered clock symbol limit' receivedAt) (hle : limit ≤ limit') :
    PollAnswered clock symbol limit receivedAt := by
  refine ⟨h.1, h.2.1, h.2.2.trans (startBefore_mono receivedAt ?_)⟩
  unfold count
  omega

end Polls

section Storing

variable {made made' : MarketBar}

/-- A price in cents is written exactly. -/
theorem decimalText_cents (cents : Int) (hpos : 0 < cents) (hlt : cents < 1000000) :
    ∃ text, decimalText (some ⟨cents, -2⟩) = some text := by
  have hvalue : 0 < (⟨cents, -2⟩ : Decimal).value := Decimal.coefficient_pos_iff.mp hpos
  have hdigits : Decimal.digits cents.natAbs ≤ 28 :=
    (Nat.length_toDigits_le_iff (by decide) (by decide)).mpr
      (lt_of_lt_of_le (by omega : cents.natAbs < 10 ^ 6) (by decide))
  have hrounded : roundedPrice ⟨cents, -2⟩ = cents / 100 := by
    rw [roundedPrice, Decimal.rounded_of_digits_le hvalue hdigits
      (show decimalContext.etiny ≤ -2 by decide), value_cents]
  rw [decimalText_eq_some_iff (absentOrPositive_some hvalue)]
  intro p hp
  rw [← Option.mem_some_iff.mp hp, hrounded]
  have hcents : (cents : ℚ) < 1000000 := by exact_mod_cast hlt
  calc (cents : ℚ) / 100 < 10 ^ (4 : Int) := by norm_num; linarith
    _ ≤ 10 ^ (decimalContext.emax + 1) := zpow_le_zpow_right₀ (by norm_num) (by decide)

/-- What a price column holds of a price in cents. -/
theorem numericColumn_cents (cents : Int) (hpos : 0 < cents) (hlt : cents < 1000000) :
    ∃ stored, numericColumn ⟨cents, -2⟩ = some stored ∧
      stored.value = (⟨cents, -2⟩ : Decimal).value := by
  have hscale : (⟨cents, -2⟩ : Decimal).toScale 10 = ⟨cents * 100000000, -10⟩ := by
    simp [Decimal.toScale, Decimal.signed, not_lt.mpr hpos.le]
    omega
  refine ⟨⟨cents * 100000000, -10⟩, ?_, ?_⟩
  · rw [numericColumn, hscale]
    have hfits : ¬(-2 < (-16383 : Int) ∨ 10 ^ 28 ≤ (cents * 100000000).natAbs) := by omega
    rw [if_neg hfits]
  · rw [value_cents, Decimal.value_eq]
    push_cast
    norm_num
    ring

variable {uuid5}

/-- The prices of a bar the provider made up are small amounts of cents. -/
theorem Made.prices {P : Decimal → Prop} (h : Made uuid5 made)
    (hcents : ∀ cents : Int, 0 < cents → cents < 1000000 → P ⟨cents, -2⟩) :
    P made.open ∧ P made.high ∧ P made.low ∧ P made.close := by
  obtain ⟨hopen, hhigh, hlow, hclose⟩ :=
    barFields_prices uuid5 made.symbol made.receivedAt made.timestamp
  obtain ⟨hge, hlt⟩ := closeCents_bounds made.symbol made.timestamp
  rw [h.fields, hopen, hhigh, hlow, hclose]
  exact ⟨hcents _ (by omega) (by omega), hcents _ (by omega) (by omega),
    hcents _ (by omega) (by omega), hcents _ (by omega) (by omega)⟩

theorem Made.volume (h : Made uuid5 made) :
    ∃ volume, made.volume = some volume ∧ 0 ≤ volume ∧ volume < 100000 := by
  refine ⟨_, congrArg MarketBarFields.volume h.fields, ?_, ?_⟩ <;> omega

/-- The fields of a bar are written. -/
theorem Made.exists_parts (h : Made uuid5 made) : ∃ fields, barParts made = some fields := by
  obtain ⟨⟨«open», hopen⟩, ⟨high, hhigh⟩, ⟨low, hlow⟩, ⟨close, hclose⟩⟩ :=
    h.prices (P := fun price => ∃ text, decimalText (some price) = some text) decimalText_cents
  obtain ⟨volume, hvolume, hnonneg, hsmall⟩ := h.volume
  have hdigits : Decimal.digits volume.natAbs ≤ 4300 :=
    ((Nat.length_toDigits_le_iff (by decide) (by decide)).mpr
      (by omega : volume.natAbs < 10 ^ 5)).trans (by decide)
  have hwritten : VolumeWritten made.volume := by
    rw [hvolume]
    intro v hv
    rwa [← Option.mem_some_iff.mp hv]
  obtain ⟨volumeText, hvolumeText⟩ := volumeText_eq_some_iff.mpr hwritten
  exact ⟨_, barParts_eq_some_iff.mpr ⟨«open», high, low, close, volumeText, hopen, hhigh, hlow,
    hclose, hvolumeText, rfl⟩⟩

/-- The fields of a bar do not depend on its receipt. -/
theorem Made.parts_congr (h : Made uuid5 made) (h' : Made uuid5 made')
    (hsymbol : made.symbol = made'.symbol) (hstart : made.timestamp = made'.timestamp) :
    barParts made = barParts made' := by
  have hreceipt : ∀ {normalized normalized' : String} {receivedAt receivedAt' timestamp timestamp'}
      (accepted : (barFields uuid5 normalized receivedAt timestamp).Accepted)
      (accepted' : (barFields uuid5 normalized' receivedAt' timestamp').Accepted),
      normalized = normalized' → timestamp = timestamp' →
        barParts ⟨_, accepted⟩ = barParts ⟨_, accepted'⟩ := by
    intro normalized _ receivedAt receivedAt' timestamp _ accepted accepted' heq heq'
    obtain rfl := heq
    obtain rfl := heq'
    rfl
  have haccepted := h.fields ▸ made.accepted
  have haccepted' := h'.fields ▸ made'.accepted
  calc barParts made = barParts ⟨_, haccepted⟩ := congrArg barParts (MarketBar.eq_of_fields h.fields)
    _ = barParts ⟨_, haccepted'⟩ := hreceipt haccepted haccepted' hsymbol hstart
    _ = barParts made' := congrArg barParts (MarketBar.eq_of_fields h'.fields).symm

/-- The row of a bar fits the columns and passes the checks. -/
theorem Made.exists_row (h : Made uuid5 made) (contentHash : String) :
    ∃ row, made.row contentHash = some row ∧ row.Valid := by
  obtain ⟨⟨«open», hopen, hopenValue⟩, ⟨high, hhigh, hhighValue⟩, ⟨low, hlow, hlowValue⟩,
    ⟨close, hclose, hcloseValue⟩⟩ := h.prices (P := fun price =>
      ∃ stored, numericColumn price = some stored ∧ stored.value = price.value) numericColumn_cents
  obtain ⟨volume, hvolume, hnonneg, hsmall⟩ := h.volume
  obtain ⟨hprovider, hnative, -, -, -, hlater, hbounds, hrange⟩ := made.accepted
  rw [not_or, not_lt, not_lt, max_le_iff, le_min_iff, ← hopenValue, ← hhighValue, ← hlowValue,
    ← hcloseValue] at hbounds
  rw [not_lt, ← hhighValue, ← hlowValue] at hrange
  have hwidth : ∀ v ∈ made.volume, 0 ≤ v ∧ v < 2 ^ 63 := by
    rw [hvolume]
    intro v hv
    rw [← Option.mem_some_iff.mp hv]
    omega
  have htimeframe : made.timeframe.value.length ≤ 10 := by
    cases made.timeframe <;> decide
  have hsymbol : made.symbol.length ≤ 12 := h.known.length_le.trans (by decide)
  obtain ⟨row, hrow⟩ : ∃ row, made.row contentHash = some row := by
    rw [MarketBar.row, hopen, hhigh, hlow, hclose]
    exact ⟨_, rfl⟩
  refine ⟨row, hrow, ?_⟩
  obtain ⟨open', high', low', close', hopen', hhigh', hlow', hclose', rfl⟩ :=
    MarketBar.row_eq_some hrow
  rw [hopen, Option.some.injEq] at hopen'
  rw [hhigh, Option.some.injEq] at hhigh'
  rw [hlow, Option.some.injEq] at hlow'
  rw [hclose, Option.some.injEq] at hclose'
  subst hopen' hhigh' hlow' hclose'
  exact ⟨hprovider.2, hnative, hsymbol, htimeframe, fun v hv => (hwidth v hv).2, not_le.mp hlater,
    ⟨hbounds.1.1, hbounds.1.2, hrange⟩, ⟨hbounds.2.1, hbounds.2.2, hrange⟩,
    fun v hv => (hwidth v hv).1⟩

/-- A bar that was made up can be stored. -/
theorem Made.storable [Digest] (h : Made uuid5 made) :
    ∃ contentHash row, barFingerprint made = some contentHash ∧
      made.row contentHash = some row ∧ row.Valid := by
  obtain ⟨fields, hfields⟩ := h.exists_parts
  obtain ⟨row, hrow, hvalid⟩ := h.exists_row (fingerprint fields)
  exact ⟨fingerprint fields, row, by rw [barFingerprint, hfields, Option.map_some], hrow, hvalid⟩

end Storing

end ReplayMarketDataProvider

section Runs

open ReplayMarketDataProvider

/-- What is read off the rows that a list gives. -/
theorem map_filterMap_eq {α β γ : Type} {row : α → Option β} {read : β → γ} {read' : α → γ}
    {l : List α} (h : ∀ a ∈ l, ∃ b, row a = some b ∧ read b = read' a) :
    (l.filterMap row).map read = l.map read' := by
  induction l with
  | nil => rfl
  | cons a l ih =>
    obtain ⟨b, hb, hread⟩ := h a List.mem_cons_self
    rw [List.filterMap_cons_some hb, List.map_cons, List.map_cons, hread,
      ih (fun a' ha' => h a' (List.mem_cons_of_mem a ha'))]

/-- A poll for one-minute bars. -/
structure ReplayPoll where
  symbol : String
  limit : Int
  clock : ClockReading

variable (uuid5 : String → Uuid) [CharacterTables]

/-- What a poll returns. -/
def ReplayPoll.bars (poll : ReplayPoll) : Except ReplayError (List MarketBar) :=
  ReplayMarketDataProvider.bars uuid5 poll.clock poll.symbol "1m" poll.limit

/-- The bars of a poll, none if it raises. -/
def ReplayPoll.returned (poll : ReplayPoll) : List MarketBar :=
  match poll.bars uuid5 with
  | .ok bars => bars
  | .error _ => []

/-- A poll covers the minutes before its reading, as many as it asks for, if it
is answered. -/
def ReplayPoll.Covers (poll : ReplayPoll) (symbol : String) (start : UtcDatetime) : Prop :=
  ∃ receivedAt, PollAnswered poll.clock poll.symbol poll.limit receivedAt ∧
    symbol = upper poll.symbol ∧
    ∃ minutes : ℕ, 1 ≤ minutes ∧ minutes ≤ count poll.limit ∧ start = startBefore receivedAt minutes

variable [Digest]

/-- One poll that is passed to `save_bars` if it returns: the counts that
`save_bars` returned, and the tables. -/
def ReplayPoll.save (state : List ℕ × MarketDb) (poll : ReplayPoll) :
    Option (List ℕ × MarketDb) :=
  match poll.bars uuid5 with
  | .ok bars => (state.2.saveBars bars).map (fun saved => (state.1 ++ [saved.1], saved.2))
  | .error _ => some state

/-- Polls on an initially empty repository. -/
def replayRun (polls : List ReplayPoll) : Option (List ℕ × MarketDb) :=
  polls.foldlM (ReplayPoll.save uuid5) ([], .empty)

/-- The texts that are hashed for the bars of some polls. -/
def hashedTexts (polls : List ReplayPoll) : Set String :=
  {text | ∃ poll ∈ polls, ∃ made ∈ poll.returned uuid5,
    (barParts made).map (String.intercalate "\x1f") = some text}

/-- Symbol and start of a row. -/
def MarketBarRow.barMinute (row : MarketBarRow) : String × UtcDatetime := (row.symbol, row.barStartAt)

/-- The state after some polls: the tables hold what a deduplicated log keeps of
the bars returned, and the counts add up to the rows. -/
structure ReplayStored (polls : List ReplayPoll) (state : List ℕ × MarketDb) : Prop where
  holds : HoldsKept barView MarketBar.storedRow state.2.barObservations
    (polls.flatMap (ReplayPoll.returned uuid5))
  counted : state.1.sum = state.2.barObservations.values.length

variable {uuid5} {polls : List ReplayPoll} {poll : ReplayPoll}

omit [Digest] in
/-- A bar a poll returns stands among the bars of an answered poll. -/
theorem ReplayPoll.mem_returned {made : MarketBar} (h : made ∈ poll.returned uuid5) :
    ∃ out receivedAt, poll.bars uuid5 = .ok out ∧ made ∈ out ∧
      PollAnswered poll.clock poll.symbol poll.limit receivedAt ∧
      pollFields uuid5 (upper poll.symbol) receivedAt (count poll.limit) =
        out.map MarketBar.toMarketBarFields := by
  unfold returned at h
  cases hbars : poll.bars uuid5 with
  | error error =>
    rw [hbars] at h
    cases h
  | ok out =>
    rw [hbars] at h
    obtain ⟨receivedAt, hanswered, hfields⟩ := (bars_eq_ok_iff uuid5).mp hbars
    exact ⟨out, receivedAt, rfl, h, hanswered, hfields⟩

omit [Digest] in
/-- Every bar a poll returns was made up. -/
theorem ReplayPoll.made_of_returned {made : MarketBar} (h : made ∈ poll.returned uuid5) :
    Made uuid5 made := by
  obtain ⟨out, receivedAt, -, hmade, ⟨hknown, hnow, hfirst⟩, hfields⟩ := mem_returned h
  exact (made_of_pollFields uuid5 hfields hknown (now_eq_ok hnow).2 hfirst made hmade).1

omit [Digest] in
variable (uuid5) in
/-- A poll covers the symbols and starts of the bars it returns. -/
theorem ReplayPoll.covers_iff {symbol : String} {start : UtcDatetime} :
    poll.Covers symbol start ↔
      ∃ made ∈ poll.returned uuid5, made.symbol = symbol ∧ made.timestamp = start := by
  constructor
  · intro hex
    obtain ⟨receivedAt, hanswered, rfl, minutes, hpos, hle, rfl⟩ := hex
    obtain ⟨out, hbars⟩ := hanswered.exists_bars uuid5
    obtain ⟨receivedAt', hanswered', hfields⟩ := (bars_eq_ok_iff uuid5).mp hbars
    obtain rfl : receivedAt' = receivedAt :=
      Except.ok.inj (hanswered'.2.1.symm.trans hanswered.2.1)
    have hlength := length_of_pollFields uuid5 hfields
    have hindex : count poll.limit - minutes < out.length := by omega
    have hmade := getElem_of_pollFields uuid5 hfields hindex
    have hminutes : (count poll.limit : Int) - (count poll.limit - minutes : ℕ) = minutes := by
      omega
    have hreturned : poll.returned uuid5 = out := by
      rw [returned, show poll.bars uuid5 = .ok out from hbars]
    refine ⟨out[count poll.limit - minutes], ?_, congrArg MarketBarFields.symbol hmade, ?_⟩
    · rw [hreturned]
      exact List.getElem_mem hindex
    · rw [← hminutes]
      exact congrArg MarketBarFields.timestamp hmade
  · intro hex
    obtain ⟨made, hmade, rfl, rfl⟩ := hex
    obtain ⟨out, receivedAt, -, hmem, hanswered, hfields⟩ := mem_returned hmade
    obtain ⟨hknown, hnow, hfirst⟩ := hanswered
    obtain ⟨-, hsymbol, minutes, hpos, hle, hstart⟩ :=
      made_of_pollFields uuid5 hfields hknown (now_eq_ok hnow).2 hfirst made hmem
    exact ⟨receivedAt, ⟨hknown, hnow, hfirst⟩, hsymbol, minutes, hpos, hle, hstart⟩

/-- A poll keeps the tables in step with the bars returned. -/
theorem ReplayStored.save {state : List ℕ × MarketDb} (h : ReplayStored uuid5 polls state)
    (poll : ReplayPoll) :
    ∃ state', ReplayPoll.save uuid5 state poll = some state' ∧
      ReplayStored uuid5 (polls ++ [poll]) state' := by
  have hlog : (polls ++ [poll]).flatMap (ReplayPoll.returned uuid5) =
      polls.flatMap (ReplayPoll.returned uuid5) ++ poll.returned uuid5 := by
    rw [List.flatMap_append, List.flatMap_singleton]
  cases hbars : poll.bars uuid5 with
  | error error =>
    have hreturned : poll.returned uuid5 = [] := by rw [ReplayPoll.returned, hbars]
    rw [hreturned, List.append_nil] at hlog
    refine ⟨state, by rw [ReplayPoll.save, hbars], ?_, h.counted⟩
    rw [hlog]
    exact h.holds
  | ok out =>
    have hreturned : poll.returned uuid5 = out := by rw [ReplayPoll.returned, hbars]
    rw [hreturned] at hlog
    have hstorable : ∀ made ∈ out, ∃ contentHash row, barFingerprint made = some contentHash ∧
        made.row contentHash = some row ∧ row.Valid :=
      fun made hmade => (ReplayPoll.made_of_returned (hreturned.symm ▸ hmade)).storable
    obtain ⟨⟨inserted, db⟩, hsaved⟩ := state.2.exists_saveBars hstorable
    refine ⟨(state.1 ++ [inserted], db), by simp only [ReplayPoll.save, hbars, hsaved, Option.map_some], ?_, ?_⟩
    · rw [hlog]
      exact (h.holds.saveBars hsaved).1
    · rw [List.sum_append, List.sum_singleton, h.counted, MarketDb.saveBars_inserted hsaved]

variable (uuid5) in
/-- Polls on an initially empty repository. -/
theorem replayRun_stored (polls : List ReplayPoll) :
    ∃ state, replayRun uuid5 polls = some state ∧ ReplayStored uuid5 polls state := by
  induction polls using List.reverseRecOn with
  | nil => exact ⟨_, rfl, HoldsKept.empty, rfl⟩
  | append_singleton polls poll ih =>
    obtain ⟨state, hrun, hstored⟩ := ih
    obtain ⟨state', hsave, hstored'⟩ := hstored.save poll
    refine ⟨state', ?_, hstored'⟩
    rw [replayRun, List.foldlM_append, ← replayRun, hrun, Option.bind_eq_bind, Option.bind_some,
      List.foldlM_cons, hsave]
    rfl

/-- Without collisions among the texts hashed, the bars of polls share a
fingerprint if and only if they share symbol and start. -/
theorem print_eq_iff (hsha : Set.InjOn Digest.sha256 (hashedTexts uuid5 polls))
    {made made' : MarketBar} (h : made ∈ polls.flatMap (ReplayPoll.returned uuid5))
    (h' : made' ∈ polls.flatMap (ReplayPoll.returned uuid5)) :
    barFingerprint made = barFingerprint made' ↔
      made.symbol = made'.symbol ∧ made.timestamp = made'.timestamp := by
  obtain ⟨poll, hpoll, hmem⟩ := List.mem_flatMap.mp h
  obtain ⟨poll', hpoll', hmem'⟩ := List.mem_flatMap.mp h'
  have hmade := ReplayPoll.made_of_returned hmem
  have hmade' := ReplayPoll.made_of_returned hmem'
  constructor
  · intro hprint
    obtain ⟨fields, hfields⟩ := hmade.exists_parts
    obtain ⟨fields', hfields'⟩ := hmade'.exists_parts
    rw [barFingerprint, barFingerprint, hfields, hfields', Option.map_some, Option.map_some,
      Option.some.injEq] at hprint
    have htext := hsha ⟨poll, hpoll, made, hmem, by rw [hfields]; rfl⟩
      ⟨poll', hpoll', made', hmem', by rw [hfields']; rfl⟩ hprint
    have hjoin := congrArg String.toList htext
    rw [String.toList_intercalate, String.toList_intercalate] at hjoin
    have hsame := barParts_join_inj hfields hfields' hjoin
    obtain ⟨_, _, _, _, _, -, -, -, -, -, rfl⟩ := barParts_eq_some_iff.mp hfields
    obtain ⟨_, _, _, _, _, -, -, -, -, -, rfl⟩ := barParts_eq_some_iff.mp hfields'
    simp only [List.cons.injEq] at hsame
    exact ⟨hsame.2.1, CivilTime.isoformatMicroseconds_inj hmade.range.1 hmade'.range.1 hsame.2.2.2.1⟩
  · intro hex
    obtain ⟨hsymbol, hstart⟩ := hex
    rw [barFingerprint, barFingerprint, hmade.parts_congr hmade' hsymbol hstart]

/-- The rows are those of the kept bars, by symbol and start. -/
theorem ReplayStored.minutes {state : List ℕ × MarketDb} (h : ReplayStored uuid5 polls state) :
    state.2.barObservations.values.map MarketBarRow.barMinute =
      (barView.kept (polls.flatMap (ReplayPoll.returned uuid5))).map
        (fun made => (made.symbol, made.timestamp)) := by
  rw [h.holds.values]
  apply map_filterMap_eq
  intro made hmade
  obtain ⟨row, hrow⟩ := h.holds.stored made hmade
  obtain ⟨hkey, -⟩ := MarketBar.key_of_storedRow hrow
  have hsymbol : made.symbol = row.symbol := congrArg (fun key : BarKey => key.2.1) hkey
  have hstart : made.timestamp = row.barStartAt :=
    congrArg (fun key : BarKey => key.2.2.2.1) hkey
  exact ⟨row, hrow, by rw [MarketBarRow.barMinute, hsymbol, hstart]⟩

/-- Without collisions, the rows are one for each symbol and minute covered. -/
theorem ReplayStored.one_each (hsha : Set.InjOn Digest.sha256 (hashedTexts uuid5 polls))
    {state : List ℕ × MarketDb} (h : ReplayStored uuid5 polls state) :
    (state.2.barObservations.values.map MarketBarRow.barMinute).Nodup ∧
      ∀ symbol start, (symbol, start) ∈
          state.2.barObservations.values.map MarketBarRow.barMinute ↔
        ∃ poll ∈ polls, poll.Covers symbol start := by
  have hlog : ∀ made ∈ barView.kept (polls.flatMap (ReplayPoll.returned uuid5)),
      made ∈ polls.flatMap (ReplayPoll.returned uuid5) :=
    fun made hmade => (barView.kept_sublist _).mem hmade
  have hprints := barView.nodup_prints_kept (polls.flatMap (ReplayPoll.returned uuid5))
  rw [h.minutes]
  constructor
  · rw [List.nodup_map_iff_inj_on hprints.of_map]
    intro made hmade made' hmade' hsame
    rw [Prod.mk.injEq] at hsame
    exact List.inj_on_of_nodup_map hprints hmade hmade'
      ((print_eq_iff hsha (hlog made hmade) (hlog made' hmade')).mpr hsame)
  · intro symbol start
    rw [List.mem_map]
    constructor
    · intro hex
      obtain ⟨made, hmade, heq⟩ := hex
      obtain ⟨poll, hpoll, hmem⟩ := List.mem_flatMap.mp (hlog made hmade)
      rw [Prod.mk.injEq] at heq
      exact ⟨poll, hpoll, (ReplayPoll.covers_iff uuid5).mpr ⟨made, hmem, heq⟩⟩
    · intro hex
      obtain ⟨poll, hpoll, hcovers⟩ := hex
      obtain ⟨made, hmem, rfl, rfl⟩ := (ReplayPoll.covers_iff uuid5).mp hcovers
      have hmade := List.mem_flatMap.mpr ⟨poll, hpoll, hmem⟩
      obtain ⟨first, hfirst, hprint⟩ := List.mem_map.mp
        (barView.mem_prints_kept.mpr (List.mem_map_of_mem hmade))
      obtain ⟨hsymbol, hstart⟩ := (print_eq_iff hsha (hlog first hfirst) hmade).mp hprint
      exact ⟨first, hfirst, by rw [hsymbol, hstart]⟩

omit [Digest] in
/-- What one poll returns. -/
theorem ReplayPoll.delivers {out : List MarketBar} (h : poll.bars uuid5 = .ok out) :
    ∃ receivedAt, PollAnswered poll.clock poll.symbol poll.limit receivedAt ∧
      Delivers receivedAt poll.limit out ∧
      ∀ limit ≤ poll.limit, ∃ fewer,
        ReplayPoll.bars uuid5 { poll with limit := limit } = .ok fewer ∧ fewer <:+ out := by
  obtain ⟨receivedAt, hanswered, hfields⟩ := (bars_eq_ok_iff uuid5).mp h
  refine ⟨receivedAt, hanswered, delivers_of_pollFields uuid5 hfields, fun limit hle => ?_⟩
  obtain ⟨fewer, hfewer⟩ := (hanswered.of_limit_le hle).exists_bars uuid5
  obtain ⟨receivedAt', hanswered', hfields'⟩ := (bars_eq_ok_iff uuid5).mp hfewer
  obtain rfl : receivedAt' = receivedAt :=
    Except.ok.inj (hanswered'.2.1.symm.trans hanswered.2.1)
  exact ⟨fewer, hfewer, suffix_of_pollFields uuid5 hle hfields' hfields⟩

end Runs

/-- Polls of the replay provider, passed to `save_bars` one after the other on an
initially empty repository, leave one row for each symbol and minute covered,
and the counts add up to the rows.  A poll that is answered returns consecutive
minutes up to its reading, and a smaller limit the last of them. -/
theorem replay_inserts_once [CharacterTables] [Digest] (uuid5 : String → Uuid)
    (polls : List ReplayPoll) (hsha : Set.InjOn Digest.sha256 (hashedTexts uuid5 polls)) :
    (∃ counts db, replayRun uuid5 polls = some (counts, db) ∧
      (db.barObservations.values.map MarketBarRow.barMinute).Nodup ∧
      (∀ symbol start, (symbol, start) ∈ db.barObservations.values.map MarketBarRow.barMinute ↔
        ∃ poll ∈ polls, poll.Covers symbol start) ∧
      counts.sum = db.barObservations.values.length) ∧
    ∀ poll ∈ polls,
      (∀ receivedAt, ReplayMarketDataProvider.PollAnswered poll.clock poll.symbol poll.limit receivedAt →
        ∃ bars, poll.bars uuid5 = .ok bars) ∧
      ∀ bars, poll.bars uuid5 = .ok bars →
        ∃ receivedAt,
          ReplayMarketDataProvider.PollAnswered poll.clock poll.symbol poll.limit receivedAt ∧
          ReplayMarketDataProvider.Delivers receivedAt poll.limit bars ∧
          ∀ limit ≤ poll.limit, ∃ fewer,
            ReplayPoll.bars uuid5 { poll with limit := limit } = .ok fewer ∧ fewer <:+ bars := by
  obtain ⟨⟨counts, db⟩, hrun, hstored⟩ := replayRun_stored uuid5 polls
  obtain ⟨hnodup, hminutes⟩ := hstored.one_each hsha
  refine ⟨⟨counts, db, hrun, hnodup, hminutes, hstored.counted⟩, fun poll _ => ⟨?_, ?_⟩⟩
  · exact fun receivedAt hanswered => hanswered.exists_bars uuid5
  · exact fun bars hbars => ReplayPoll.delivers hbars

section Sample

/-- The digests of the bars of three minutes. -/
def replayDigests : List (String × String) :=
  [("replay-market\x1fACME\x1f1m\x1f2026-07-18T11:59:00.000000+00:00\x1f" ++
      "2026-07-18T12:00:00.000000+00:00\x1f107.89\x1f107.97\x1f107.86\x1f107.92\x1f19900\x1fTrue",
    "a461023464633d9a84441cab3d26f10a75d90b06aef857b81e35d93b8ef2f5d6"),
   ("replay-market\x1fACME\x1f1m\x1f2026-07-18T12:00:00.000000+00:00\x1f" ++
      "2026-07-18T12:01:00.000000+00:00\x1f99.97\x1f100.05\x1f99.94\x1f100\x1f10000\x1fTrue",
    "cba8e5e1f0096dbb0fb7f0e250018db210f375f1271ea510a48091a922a17975"),
   ("replay-market\x1fACME\x1f1m\x1f2026-07-18T12:01:00.000000+00:00\x1f" ++
      "2026-07-18T12:02:00.000000+00:00\x1f100.05\x1f100.13\x1f100.02\x1f100.08\x1f10100\x1fTrue",
    "c7f60f1c16cd97d86ece26dd218bf8eadd444e5dc6f1f6ad22d13a938d64148c")]

/-- The identifiers of the bars of three minutes and of their traces. -/
def replayUuid5 (url : String) : Uuid :=
  (([("eventalpha:bar:ACME:1m:2026-07-18T11:59:00+00:00", 323463066950734194608681231180126902171),
    ("eventalpha:bar-trace:ACME:1m:2026-07-18T11:59:00+00:00",
      296103885989502253994197237493219077766),
    ("eventalpha:bar:ACME:1m:2026-07-18T12:00:00+00:00", 23077246656038612471823481459073574172),
    ("eventalpha:bar-trace:ACME:1m:2026-07-18T12:00:00+00:00",
      130852496335706259147029714506335045227),
    ("eventalpha:bar:ACME:1m:2026-07-18T12:01:00+00:00", 153756998340336404859204826853879057151),
    ("eventalpha:bar-trace:ACME:1m:2026-07-18T12:01:00+00:00",
      203925078208707045253737987831308451690)].find? (fun entry => entry.1 = url)).map
    Prod.snd).getD 0

/-- Two bars each at two readings, ninety seconds and two and a half minutes
after noon, and the second again. -/
def overlappingPolls : List ReplayPoll :=
  [⟨"ACME", 2, ⟨sampleNoon + 90000000, some 0⟩⟩, ⟨"acme", 2, ⟨sampleNoon + 150000000, some 0⟩⟩,
    ⟨"ACME", 1, ⟨sampleNoon + 150000000, some 0⟩⟩]

/-- Of five bars, the store keeps the three minutes. -/
theorem replay_inserts_once_overlapping :
    let _ : CharacterTables := asciiTables
    let _ : Digest := tableDigest replayDigests
    ∃ db, replayRun replayUuid5 overlappingPolls = some ([2, 1, 0], db) ∧
      db.barObservations.values.length = 3 ∧
      (db.barObservations.values.map MarketBarRow.barMinute).Nodup := by
  intro _ _
  have hinjective : Function.Injective (tableDigest replayDigests).sha256 :=
    tableDigest_injective (by decide +kernel) (by decide +kernel)
  obtain ⟨⟨counts, db, hrun, hnodup, -, hcounted⟩, -⟩ :=
    replay_inserts_once replayUuid5 overlappingPolls hinjective.injOn
  have hcounts : (replayRun replayUuid5 overlappingPolls).map Prod.fst = some [2, 1, 0] := by
    decide +kernel
  rw [hrun, Option.map_some, Option.some.injEq] at hcounts
  change counts = [2, 1, 0] at hcounts
  rw [hcounts] at hrun hcounted
  exact ⟨db, hrun, hcounted.symm, hnodup⟩

end Sample

end EventAlpha
