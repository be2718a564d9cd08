import EventAlpha.KeyedOrder
import EventAlpha.SplitRuns
import Mathlib.Algebra.Order.Field.Rat
import Mathlib.Data.Rat.Floor
import Mathlib.Tactic.FieldSimp
import Mathlib.Tactic.Linarith
import Mathlib.Tactic.Positivity

/-!
# The chart of the live page

The page draws the closing prices of the bars it is sent as polylines, and
breaks a line where a bar is missing.  `chartSamples` takes the bars apart and
sorts them, and `chartGeometry` scales them and collects them into groups, in a
loop that extends the last group or opens a new one.

Numbers are exact.  The parsers of the language are the class `PageParsers`,
of which nothing is assumed.
-/

namespace EventAlpha

namespace LivePage

open KeyedOrder SplitRuns

section Page

/-- `Date.parse`, `Number` and `trim` on a text, where the first two have a
finite result. -/
class PageParsers where
  dateParse : String → Option ℚ
  number : String → Option ℚ
  isBlank : String → Bool

/-- The fields of a bar that the chart is made of. -/
structure MarketBar where
  timestamp : String
  close : String

/-- A bar with its price and time as numbers. -/
structure ChartSample where
  bar : MarketBar
  price : ℚ
  timestampMs : ℚ

/-- A sample on the page. -/
structure ChartPoint where
  x : ℚ
  y : ℚ
  timestampMs : ℚ
  deriving DecidableEq

/-- What the page draws. -/
structure ChartGeometry where
  segments : List String
  isolatedPoints : List (ℚ × ℚ)
  gapCount : ℕ
  firstTimestampMs : ℚ
  lastTimestampMs : ℚ
  deriving DecidableEq

/-- `EXPECTED_BAR_INTERVAL_MS`. -/
def expectedBarIntervalMs : ℚ := 60000

/-- `parseTimestamp`. -/
def parseTimestamp [PageParsers] (value : String) : Option ℚ :=
  if value = "" then none else PageParsers.dateParse value

/-- `chartSamples`: the bars with a time and a positive price, in order of
time. -/
def chartSamples [PageParsers] (data : List MarketBar) : List ChartSample :=
  sortedBy ChartSample.timestampMs (data.filterMap (fun bar => do
    let timestampMs ← parseTimestamp bar.timestamp
    let price ← if PageParsers.isBlank bar.close then none else PageParsers.number bar.close
    if 0 < price then some ⟨bar, price, timestampMs⟩ else none))

end Page

section Geometry

def width : ℚ := 720

def height : ℚ := 240

def padding : ℚ := 24

variable (first : ChartSample) (rest : List ChartSample)

def minimum : ℚ := (rest.map ChartSample.price).foldl min first.price

def maximum : ℚ := (rest.map ChartSample.price).foldl max first.price

/-- `maximum - minimum || 1`. -/
def priceRange : ℚ :=
  if maximum first rest - minimum first rest = 0 then 1
  else maximum first rest - minimum first rest

def lastTimestampMs : ℚ := (rest.getLast?.getD first).timestampMs

def timeRange : ℚ := lastTimestampMs first rest - first.timestampMs

/-- The place of a sample. -/
def chartPoint (sample : ChartSample) : ChartPoint where
  x := if timeRange first rest = 0 then width / 2
    else padding + (sample.timestampMs - first.timestampMs) / timeRange first rest *
      (width - padding * 2)
  y := height - padding - (sample.price - minimum first rest) / priceRange first rest *
    (height - padding * 2)
  timestampMs := sample.timestampMs

/-- The places of all samples, which are `first` and the rest. -/
def points : List ChartPoint := (first :: rest).map (chartPoint first rest)

/-- One turn of the loop that groups the points. -/
def pushPoint (grouped : List (List ChartPoint)) (point : ChartPoint) : List (List ChartPoint) :=
  match grouped.getLast? with
  | none => grouped ++ [[point]]
  | some current =>
      match current.getLast? with
      | none => grouped.dropLast ++ [current ++ [point]]
      | some previous =>
          if expectedBarIntervalMs * (3 / 2) < point.timestampMs - previous.timestampMs then
            grouped ++ [[point]]
          else grouped.dropLast ++ [current ++ [point]]

/-- The groups of points between which the line breaks. -/
def grouped : List (List ChartPoint) := (points first rest).foldl pushPoint []

/-- `toFixed(1)`: rounded to a tenth, half up in magnitude. -/
def toFixed (x : ℚ) : String :=
  let tenths := ⌊|x| * 10 + 1 / 2⌋.toNat
  (if x < 0 then "-" else "") ++ toString (tenths / 10) ++ "." ++ toString (tenths % 10)

/-- The `points` of a polyline. -/
def segmentText (segment : List ChartPoint) : String :=
  " ".intercalate (segment.map (fun point => toFixed point.x ++ "," ++ toFixed point.y))

/-- The groups that are drawn as lines. -/
def polylines : List (List ChartPoint) :=
  (grouped first rest).filter (fun segment => 1 < segment.length)

/-- The groups that are drawn as points. -/
def isolated : List (List ChartPoint) :=
  (grouped first rest).filter (fun segment => segment.length = 1)

/-- The geometry of `first` and the rest. -/
def geometry : ChartGeometry where
  segments := (polylines first rest).map segmentText
  isolatedPoints := (isolated first rest).filterMap
    (fun segment => segment.head?.map (fun point => (point.x, point.y)))
  gapCount := max ((grouped first rest).length - 1) 0
  firstTimestampMs := first.timestampMs
  lastTimestampMs := lastTimestampMs first rest

/-- `chartGeometry`. -/
def chartGeometry : List ChartSample → Option ChartGeometry
  | [] => none
  | first :: rest => some (geometry first rest)

end Geometry

section Scale

variable {first : ChartSample} {rest : List ChartSample}

/-- The loop over the prices finds bounds of all of them. -/
theorem foldl_min_le (prices : List ℚ) (start : ℚ) :
    ∀ price ∈ start :: prices, prices.foldl min start ≤ price := by
  induction prices generalizing start with
  | nil => simp
  | cons head prices ih =>
      have hstart := ih (min start head) (min start head) List.mem_cons_self
      intro price hprice
      rcases List.mem_cons.mp hprice with rfl | hprice
      · exact hstart.trans (min_le_left _ _)
      · rcases List.mem_cons.mp hprice with rfl | hprice
        · exact hstart.trans (min_le_right _ _)
        · exact ih _ price (List.mem_cons_of_mem _ hprice)

theorem le_foldl_max (prices : List ℚ) (start : ℚ) :
    ∀ price ∈ start :: prices, price ≤ prices.foldl max start := by
  induction prices generalizing start with
  | nil => simp
  | cons head prices ih =>
      have hstart := ih (max start head) (max start head) List.mem_cons_self
      intro price hprice
      rcases List.mem_cons.mp hprice with rfl | hprice
      · exact (le_max_left _ _).trans hstart
      · rcases List.mem_cons.mp hprice with rfl | hprice
        · exact (le_max_right _ _).trans hstart
        · exact ih _ price (List.mem_cons_of_mem _ hprice)

theorem minimum_le {sample : ChartSample} (h : sample ∈ first :: rest) :
    minimum first rest ≤ sample.price := by
  apply foldl_min_le
  rw [← List.map_cons]
  exact List.mem_map_of_mem h

theorem le_maximum {sample : ChartSample} (h : sample ∈ first :: rest) :
    sample.price ≤ maximum first rest := by
  apply le_foldl_max
  rw [← List.map_cons]
  exact List.mem_map_of_mem h

/-- Prices are never divided by zero. -/
theorem priceRange_pos (first : ChartSample) (rest : List ChartSample) :
    0 < priceRange first rest := by
  have hmin : minimum first rest ≤ first.price := minimum_le List.mem_cons_self
  have hmax : first.price ≤ maximum first rest := le_maximum List.mem_cons_self
  unfold priceRange
  split
  · exact one_pos
  · rename_i hne
    have hnonneg : 0 ≤ maximum first rest - minimum first rest := by linarith
    exact lt_of_le_of_ne hnonneg (fun heq => hne heq.symm)

/-- The spread of the prices fills at most the range. -/
theorem price_le_range {sample : ChartSample} (h : sample ∈ first :: rest) :
    sample.price - minimum first rest ≤ priceRange first rest := by
  have hmin := minimum_le h
  have hmax := le_maximum h
  unfold priceRange
  split
  · linarith
  · linarith

/-- The last sample is the one the loop of the page takes for it. -/
theorem lastTimestampMs_ge (hsorted : SortedBy ChartSample.timestampMs (first :: rest))
    {sample : ChartSample} (h : sample ∈ first :: rest) :
    sample.timestampMs ≤ lastTimestampMs first rest := by
  rcases List.eq_nil_or_concat' rest with rfl | ⟨init, last, rfl⟩
  · rw [List.mem_singleton.mp h]
    rfl
  · rw [lastTimestampMs, List.getLast?_concat, Option.getD_some]
    rw [← List.cons_append] at h hsorted
    rcases List.mem_append.mp h with h | h
    · exact (List.pairwise_append.mp hsorted).2.2 sample h last (List.mem_singleton_self _)
    · rw [List.mem_singleton.mp h]

theorem first_le (hsorted : SortedBy ChartSample.timestampMs (first :: rest))
    {sample : ChartSample} (h : sample ∈ first :: rest) :
    first.timestampMs ≤ sample.timestampMs := by
  rcases List.mem_cons.mp h with rfl | h
  · exact le_rfl
  · exact (List.pairwise_cons.mp hsorted).1 sample h

/-- A point of the drawing area inside its margins. -/
def ChartPoint.InFrame (point : ChartPoint) : Prop :=
  (24 ≤ point.x ∧ point.x ≤ 696) ∧ (24 ≤ point.y ∧ point.y ≤ 216)

/-- A share of a length. -/
theorem div_mul_bounds {part whole length : ℚ} (hwhole : 0 < whole) (hpart : 0 ≤ part)
    (hle : part ≤ whole) (hlength : 0 ≤ length) :
    0 ≤ part / whole * length ∧ part / whole * length ≤ length := by
  have hshare : part / whole ≤ 1 := (div_le_one hwhole).mpr hle
  exact ⟨mul_nonneg (div_nonneg hpart hwhole.le) hlength,
    mul_le_of_le_one_left hlength hshare⟩

/-- **The frame.**  Every sample is inside, also where all prices or all times
are equal. -/
theorem chartPoint_inFrame (hsorted : SortedBy ChartSample.timestampMs (first :: rest))
    {sample : ChartSample} (h : sample ∈ first :: rest) :
    (chartPoint first rest sample).InFrame := by
  have hfirst := first_le hsorted h
  have hlast := lastTimestampMs_ge hsorted h
  have hheight : height - padding * 2 = 192 := by norm_num [height, padding]
  have hwidth : width - padding * 2 = 672 := by norm_num [width, padding]
  have hy := div_mul_bounds (priceRange_pos first rest)
    (sub_nonneg.mpr (minimum_le h)) (price_le_range h) (show (0 : ℚ) ≤ 192 by norm_num)
  refine ⟨?_, ?_⟩
  · by_cases htime : timeRange first rest = 0
    · simp only [chartPoint, if_pos htime]
      norm_num [width]
    · have hpos : 0 < timeRange first rest :=
        lt_of_le_of_ne (sub_nonneg.mpr (hfirst.trans hlast)) (fun heq => htime heq.symm)
      have hx := div_mul_bounds hpos (sub_nonneg.mpr hfirst) (sub_le_sub_right hlast _)
        (show (0 : ℚ) ≤ 672 by norm_num)
      simp only [chartPoint, if_neg htime, hwidth]
      constructor <;> norm_num [padding] <;> linarith
  · simp only [chartPoint, hheight]
    constructor <;> norm_num [height, padding] <;> linarith

end Scale

section Groups

variable {first : ChartSample} {rest : List ChartSample}

/-- Two points between which no bar is missing. -/
def near (previous point : ChartPoint) : Bool :=
  point.timestampMs - previous.timestampMs ≤ 90000

theorem near_eq_false_iff {previous point : ChartPoint} :
    near previous point = false ↔ 90000 < point.timestampMs - previous.timestampMs := by
  rw [near, decide_eq_false_iff_not, not_le]

/-- The loop of the page is the one that splits a list into runs. -/
theorem pushPoint_eq : pushPoint = pushRun near := by
  have hinterval : expectedBarIntervalMs * (3 / 2) = 90000 := by
    norm_num [expectedBarIntervalMs]
  funext grouped point
  have hturn : ∀ (previous : ChartPoint) (opened extended : List (List ChartPoint)),
      (if expectedBarIntervalMs * (3 / 2) < point.timestampMs - previous.timestampMs then opened
        else extended) = if near previous point = true then extended else opened := by
    intro previous opened extended
    rw [hinterval]
    by_cases hfar : 90000 < point.timestampMs - previous.timestampMs
    · rw [if_pos hfar, if_neg (by simp [near_eq_false_iff.mpr hfar])]
    · rw [if_neg hfar, if_pos (by simpa [near] using hfar)]
  simp only [pushPoint, pushRun, hturn]
  cases grouped.getLast? with
  | none => rfl
  | some current =>
      dsimp only
      cases current.getLast? <;> rfl

theorem grouped_eq : grouped first rest = (points first rest).splitBy near := by
  rw [grouped, pushPoint_eq, foldl_pushRun]

/-- No group is empty, so each is drawn as a line or as a point, and not as
both. -/
theorem polylines_append_isolated_perm (first : ChartSample) (rest : List ChartSample) :
    (polylines first rest ++ isolated first rest).Perm (grouped first rest) := by
  have hisolated : isolated first rest =
      (grouped first rest).filter (fun segment => !decide (1 < segment.length)) := by
    apply List.filter_congr
    intro segment hsegment
    rw [grouped_eq] at hsegment
    have hpos := List.length_pos_of_ne_nil (List.ne_nil_of_mem_splitBy hsegment)
    rw [← decide_not, decide_eq_decide]
    omega
  rw [hisolated]
  exact List.filter_append_perm _ _

/-- A polyline only joins points between which no bar is missing. -/
theorem isChain_of_mem_polylines {segment : List ChartPoint}
    (h : segment ∈ polylines first rest) :
    segment.IsChain (fun previous point => point.timestampMs - previous.timestampMs ≤ 90000) := by
  have hgroup : segment ∈ grouped first rest := (List.mem_filter.mp h).1
  rw [grouped_eq] at hgroup
  refine (List.isChain_of_mem_splitBy hgroup).imp ?_
  intro previous point hnear
  simpa [near] using hnear

end Groups

section Drawing

/-- What the page draws of a nonempty list of samples, which are `first` and the
rest, in order of time. -/
structure Draws (first : ChartSample) (rest : List ChartSample) (geometry : ChartGeometry) :
    Prop where
  /-- The points are the samples, and the groups are the points, in order. -/
  points_eq : (grouped first rest).flatten = points first rest
  times_eq : (points first rest).map ChartPoint.timestampMs =
    (first :: rest).map ChartSample.timestampMs
  /-- The line breaks between two neighbours exactly if they are too far apart. -/
  breaks_iff : ∀ before a b after, points first rest = before ++ a :: b :: after →
    (Cut (grouped first rest) (before ++ [a]) (b :: after) ↔
      90000 < b.timestampMs - a.timestampMs)
  /-- Every point is drawn once, as part of a line or on its own. -/
  segments_eq : geometry.segments = (polylines first rest).map segmentText
  isolatedPoints_eq : geometry.isolatedPoints =
    (isolated first rest).flatten.map (fun point => (point.x, point.y))
  drawn_once : ((polylines first rest).flatten ++ (isolated first rest).flatten).Perm
    (points first rest)
  polyline_length : ∀ segment ∈ polylines first rest, 2 ≤ segment.length
  /-- No line bridges a gap. -/
  polyline_near : ∀ segment ∈ polylines first rest, segment.IsChain
    (fun previous point => point.timestampMs - previous.timestampMs ≤ 90000)
  gapCount_eq : geometry.gapCount = (neighbours (points first rest)).countP
    (fun pair => 90000 < pair.2.timestampMs - pair.1.timestampMs)
  /-- Every point is in the frame, and no price was divided by zero.  Times are
  divided only if they differ. -/
  in_frame : ∀ point ∈ points first rest, point.InFrame
  priceRange_ne : priceRange first rest ≠ 0

variable {first : ChartSample} {rest : List ChartSample}

/-- Groups of one point, point by point. -/
theorem filterMap_head?_eq {groups : List (List ChartPoint)}
    (h : ∀ segment ∈ groups, segment.length = 1) :
    groups.filterMap (fun segment => segment.head?.map (fun point => (point.x, point.y))) =
      groups.flatten.map (fun point => (point.x, point.y)) := by
  induction groups with
  | nil => rfl
  | cons segment groups ih =>
      obtain ⟨point, rfl⟩ := List.length_eq_one_iff.mp (h segment List.mem_cons_self)
      rw [List.flatten_cons, List.map_append,
        ← ih (fun other hother => h other (List.mem_cons_of_mem _ hother))]
      rfl

/-- The geometry of samples in order of time draws them. -/
theorem draws_geometry (hsorted : SortedBy ChartSample.timestampMs (first :: rest)) :
    Draws first rest (geometry first rest) := by
  have hpoints : points first rest ≠ [] := by simp [points]
  refine
    { points_eq := ?_, times_eq := ?_, breaks_iff := ?_, segments_eq := rfl,
      isolatedPoints_eq := ?_, drawn_once := ?_, polyline_length := ?_,
      polyline_near := fun segment => isChain_of_mem_polylines, gapCount_eq := ?_,
      in_frame := ?_, priceRange_ne := (priceRange_pos first rest).ne' }
  · rw [grouped_eq]
    exact List.flatten_splitBy _ _
  · rw [points, List.map_map]
    rfl
  · intro before a b after hsplit
    rw [grouped_eq, hsplit, cut_splitBy_iff, near_eq_false_iff]
  · apply filterMap_head?_eq
    intro segment hsegment
    simpa using (List.mem_filter.mp hsegment).2
  · have hperm := (polylines_append_isolated_perm first rest).flatten
    rwa [List.flatten_append, grouped_eq, List.flatten_splitBy] at hperm
  · intro segment hsegment
    exact of_decide_eq_true (List.mem_filter.mp hsegment).2
  · show max ((grouped first rest).length - 1) 0 = _
    rw [grouped_eq, length_splitBy hpoints, Nat.add_sub_cancel, Nat.max_zero]
    apply List.countP_congr
    intro pair _
    rw [Bool.not_eq_true', near_eq_false_iff, decide_eq_true_eq]
  · intro point hpoint
    obtain ⟨sample, hsample, rfl⟩ := List.mem_map.mp hpoint
    exact chartPoint_inFrame hsorted hsample

/-- **The chart.**  Of every nonempty list of samples in order of time, the page
draws every sample once and bridges no gap. -/
theorem chart_draws (first : ChartSample) (rest : List ChartSample)
    (hsorted : SortedBy ChartSample.timestampMs (first :: rest)) :
    ∃ geometry, chartGeometry (first :: rest) = some geometry ∧ Draws first rest geometry :=
  ⟨_, rfl, draws_geometry hsorted⟩

/-- Three bars, a minute and then two minutes apart, at one price. -/
def threeSamples : List ChartSample :=
  [⟨⟨"", ""⟩, 100, 60000⟩, ⟨⟨"", ""⟩, 100, 120000⟩, ⟨⟨"", ""⟩, 100, 240000⟩]

theorem chart_draws_threeSamples :
    ∃ geometry, chartGeometry threeSamples = some geometry ∧
      geometry.segments = ["24.0,216.0 248.0,216.0"] ∧
      geometry.isolatedPoints = [(696, 216)] ∧ geometry.gapCount = 1 ∧
      Draws ⟨⟨"", ""⟩, 100, 60000⟩ [⟨⟨"", ""⟩, 100, 120000⟩, ⟨⟨"", ""⟩, 100, 240000⟩] geometry := by
  have hsorted : SortedBy ChartSample.timestampMs threeSamples := by
    norm_num [SortedBy, threeSamples]
  obtain ⟨geometry, hgeometry, hdraws⟩ := chart_draws _ _ hsorted
  obtain rfl := Option.some.inj hgeometry
  exact ⟨_, rfl, by decide +kernel, by decide +kernel, by decide +kernel, hdraws⟩

/-- **The page.**  Whatever bars the page is sent, it draws those with a time and
a positive price, or no chart if there are none. -/
theorem page_draws [PageParsers] (data : List MarketBar) :
    chartSamples data = [] ∧ chartGeometry (chartSamples data) = none ∨
      ∃ first rest, chartSamples data = first :: rest ∧
        chartGeometry (chartSamples data) = some (geometry first rest) ∧
        Draws first rest (geometry first rest) := by
  have hsorted : SortedBy ChartSample.timestampMs (chartSamples data) := sortedBy_sorted _ _
  rcases hsamples : chartSamples data with _ | ⟨first, rest⟩
  · exact .inl ⟨rfl, rfl⟩
  · rw [hsamples] at hsorted
    exact .inr ⟨first, rest, rfl, rfl, draws_geometry hsorted⟩

end Drawing

end LivePage

end EventAlpha
