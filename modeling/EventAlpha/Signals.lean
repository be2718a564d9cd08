import EventAlpha.Contracts
import Mathlib.Algebra.Order.AbsoluteValue.Basic
import Mathlib.Algebra.Order.Field.Basic
import Mathlib.Tactic.FieldSimp
import Mathlib.Tactic.NormNum
import Mathlib.Tactic.Positivity

/-!
# Signal candidates

`create_candidate` fuses the event component of an analysis with the
quantitative evidence of a feature snapshot into one edge, squashes the edge
into a score and reads an action off the score and a calibrated probability.

Arithmetic is exact, over any ordered field, and `tanh` is any strictly
increasing odd function into the open unit interval.  Over the reals it is the
hyperbolic tangent; over the rationals there is one that can be computed.

`proposedAction_mono` is the result: for one uncertainty the proposed action
never falls as the edge rises.
-/

namespace EventAlpha

section Contracts

/-- What a signal proposes, and what a decision comes to. -/
inductive Action
  | strongBuy
  | buy
  | hold
  | sell
  | strongSell
  | avoid
  deriving DecidableEq, Repr

variable (K : Type*) [Field K] [LinearOrder K] [IsStrictOrderedRing K]

/-- A strictly increasing odd function into the open unit interval. -/
structure Squash where
  toFun : K → K
  strictMono : StrictMono toFun
  odd : ∀ x, toFun (-x) = -toFun x
  lt_one : ∀ x, toFun x < 1

/-- One entity an event bears on. -/
structure EventEntity where
  ticker : Option String
  impact : K
  confidence : K
  impact_bounds : -1 ≤ impact ∧ impact ≤ 1
  confidence_bounds : 0 ≤ confidence ∧ confidence ≤ 1

/-- What an analysis says of an event, as far as it is fused. -/
structure AIEventAnalysis where
  analysisId : Uuid
  eventId : Uuid
  novelty : K
  uncertainty : K
  entities : List (EventEntity K)
  evidenceSourceIds : List String
  novelty_bounds : 0 ≤ novelty ∧ novelty ≤ 1
  uncertainty_bounds : 0 ≤ uncertainty ∧ uncertainty ≤ 1

/-- The market features of a symbol at one moment. -/
structure FeatureSnapshot where
  snapshotId : Uuid
  symbol : String
  asOf : UtcDatetime
  ret15m : K
  realizedVol30m : K
  volumeZ30m : K
  sectorRelativeRet15m : K
  marketDataAgeMs : Int
  ret15m_bounds : -1 ≤ ret15m ∧ ret15m ≤ 1
  realizedVol30m_nonneg : 0 ≤ realizedVol30m
  sectorRelativeRet15m_bounds : -1 ≤ sectorRelativeRet15m ∧ sectorRelativeRet15m ≤ 1
  marketDataAgeMs_nonneg : 0 ≤ marketDataAgeMs

/-- A proposed signal with the evidence it was built from. -/
structure SignalCandidate where
  signalId : Uuid
  symbol : String
  eventId : Uuid
  analysisId : Uuid
  featureSnapshotId : Uuid
  strategyVersion : String
  asOf : UtcDatetime
  horizon : String
  score : K
  calibratedProbability : K
  proposedAction : Action
  expiresAt : UtcDatetime
  evidenceIds : List String
  explanation : String
  score_bounds : -1 ≤ score ∧ score ≤ 1
  probability_bounds : 0 ≤ calibratedProbability ∧ calibratedProbability ≤ 1

end Contracts

/-- The place of an action between selling and buying strongly. -/
def Action.level : Action → Int
  | strongSell => -2
  | sell => -1
  | hold => 0
  | avoid => 0
  | buy => 1
  | strongBuy => 2

variable {K : Type*} [Field K] [LinearOrder K] [IsStrictOrderedRing K]

namespace Squash

variable (tanh : Squash K)

instance : CoeFun (Squash K) (fun _ => K → K) := ⟨Squash.toFun⟩

theorem neg_one_lt (x : K) : -1 < tanh x := by
  have hneg := tanh.lt_one (-x)
  rw [tanh.odd] at hneg
  linarith

theorem bounds (x : K) : -1 ≤ tanh x ∧ tanh x ≤ 1 :=
  ⟨le_of_lt (tanh.neg_one_lt x), le_of_lt (tanh.lt_one x)⟩

omit [IsStrictOrderedRing K] in
theorem mono : Monotone tanh := tanh.strictMono.monotone

end Squash

section Fusion

/-- `_action`. -/
def action (score probability : K) : Action :=
  if probability < 55 / 100 then Action.hold
  else if 72 / 100 ≤ score then Action.strongBuy
  else if 35 / 100 ≤ score then Action.buy
  else if score ≤ -(72 / 100) then Action.strongSell
  else if score ≤ -(35 / 100) then Action.sell
  else Action.hold

/-- The entity an analysis holds for the symbol of the features. -/
def matchedEntity (analysis : AIEventAnalysis K) (features : FeatureSnapshot K) :
    Option (EventEntity K) :=
  analysis.entities.find? (fun item => item.ticker = some features.symbol)

/-- The edge before it is squashed. -/
def rawEdge (analysis : AIEventAnalysis K) (features : FeatureSnapshot K)
    (entity : EventEntity K) : K :=
  let eventComponent := entity.impact * entity.confidence * analysis.novelty
  let quantComponent := features.ret15m * 8 + features.sectorRelativeRet15m * 4
  let confirmation :=
    min (features.volumeZ30m / 4) 1 * (if 0 ≤ features.ret15m then 1 else -1)
  55 / 100 * eventComponent + 30 / 100 * quantComponent + 15 / 100 * confirmation

/-- The probability that goes with a score. -/
def calibratedProbability (score uncertainty : K) : K :=
  min (95 / 100) (max (5 / 100) (50 / 100 + |score| * (1 - uncertainty) / 2))

theorem calibratedProbability_bounds (score uncertainty : K) :
    0 ≤ calibratedProbability score uncertainty ∧
      calibratedProbability score uncertainty ≤ 1 := by
  have hlow : (0 : K) ≤ 5 / 100 := by norm_num
  have hhigh : (95 / 100 : K) ≤ 1 := by norm_num
  have hnonneg : (0 : K) ≤ 95 / 100 := by norm_num
  exact ⟨le_min hnonneg (hlow.trans (le_max_left _ _)), (min_le_left _ _).trans hhigh⟩

/-- How `create_candidate` can raise. -/
inductive CandidateError
  | valueError (message : String)
  | overflowError
  deriving DecidableEq

/-- The last instant a `datetime` holds. -/
def datetimeMax : UtcDatetime := 253402300799999999

/-- Four hours. -/
def candidateLifetime : Int := 4 * 60 * 60 * 1000000

/-- `create_candidate`, with the identifier `uuid4` draws for the signal. -/
def createCandidate (tanh : Squash K) (signalId : Uuid) (analysis : AIEventAnalysis K)
    (features : FeatureSnapshot K) : Except CandidateError (SignalCandidate K) :=
  match matchedEntity analysis features with
  | none => .error (.valueError ("No evidence-bound entity exists for " ++ features.symbol))
  | some entity =>
      let score := tanh (rawEdge analysis features entity)
      let probability := calibratedProbability score analysis.uncertainty
      if datetimeMax < features.asOf + candidateLifetime then .error .overflowError
      else .ok {
        signalId := signalId
        symbol := features.symbol
        eventId := analysis.eventId
        analysisId := analysis.analysisId
        featureSnapshotId := features.snapshotId
        strategyVersion := "event-fusion-v0.1.0"
        asOf := features.asOf
        horizon := "4h"
        score := score
        calibratedProbability := probability
        proposedAction := action score probability
        expiresAt := features.asOf + candidateLifetime
        evidenceIds := analysis.evidenceSourceIds
        explanation :=
          "Interpretable event, price, sector-relative, and volume-confirmation fusion."
        score_bounds := tanh.bounds _
        probability_bounds := calibratedProbability_bounds _ _ }

/-- What a candidate takes from the analysis and the features. -/
structure BuiltFrom (tanh : Squash K) (analysis : AIEventAnalysis K)
    (features : FeatureSnapshot K) (entity : EventEntity K) (candidate : SignalCandidate K) :
    Prop where
  matched : matchedEntity analysis features = some entity
  symbol : candidate.symbol = features.symbol
  snapshot : candidate.featureSnapshotId = features.snapshotId
  asOf : candidate.asOf = features.asOf
  expiry : candidate.expiresAt = features.asOf + candidateLifetime
  evidence : candidate.evidenceIds = analysis.evidenceSourceIds
  score : candidate.score = tanh (rawEdge analysis features entity)
  proposed : candidate.proposedAction = action candidate.score
    (calibratedProbability candidate.score analysis.uncertainty)

/-- What a call that returns has done. -/
theorem createCandidate_eq_ok {tanh : Squash K} {signalId : Uuid}
    {analysis : AIEventAnalysis K} {features : FeatureSnapshot K} {candidate : SignalCandidate K}
    (h : createCandidate tanh signalId analysis features = .ok candidate) :
    ∃ entity, BuiltFrom tanh analysis features entity candidate := by
  unfold createCandidate at h
  split at h
  · exact absurd h (by simp)
  · rename_i entity hentity
    simp only at h
    split at h
    · exact absurd h (by simp)
    · obtain rfl := Except.ok.inj h
      exact ⟨entity, hentity, rfl, rfl, rfl, rfl, rfl, rfl, rfl⟩

/-- A call returns when the analysis holds an entity for the symbol and the
expiry can be represented. -/
theorem createCandidate_returns_iff {tanh : Squash K} {signalId : Uuid}
    {analysis : AIEventAnalysis K} {features : FeatureSnapshot K} :
    (∃ candidate, createCandidate tanh signalId analysis features = .ok candidate) ↔
      (∃ entity ∈ analysis.entities, entity.ticker = some features.symbol) ∧
        features.asOf + candidateLifetime ≤ datetimeMax := by
  unfold createCandidate
  cases hentity : matchedEntity analysis features with
  | none =>
      have hnone : ¬ ∃ entity ∈ analysis.entities, entity.ticker = some features.symbol := by
        intro h
        obtain ⟨entity, hmem, hticker⟩ := h
        have := List.find?_eq_none.mp hentity entity hmem
        simp [hticker] at this
      simp [hnone]
  | some entity =>
      have hsome : ∃ entity ∈ analysis.entities, entity.ticker = some features.symbol :=
        ⟨entity, List.mem_of_find?_eq_some hentity, by simpa using List.find?_some hentity⟩
      by_cases htime : datetimeMax < features.asOf + candidateLifetime
      · simp only [if_pos htime]
        simp [not_le.mpr htime]
      · simp only [if_neg htime]
        simp [hsome, not_lt.mp htime]

end Fusion

section Monotone

/-- The probability is high enough when the score, discounted by the
uncertainty, is at least a tenth. -/
theorem calibratedProbability_lt_iff {score uncertainty : K} :
    calibratedProbability score uncertainty < 55 / 100 ↔
      |score| * (1 - uncertainty) < 1 / 10 := by
  have hhigh : ¬ (95 / 100 : K) < 55 / 100 := by norm_num
  have hlow : (5 / 100 : K) < 55 / 100 := by norm_num
  rw [calibratedProbability, min_lt_iff, max_lt_iff]
  constructor
  · intro h
    rcases h with h | ⟨-, h⟩
    · exact absurd h hhigh
    · linarith
  · intro h
    refine Or.inr ⟨hlow, ?_⟩
    linarith

/-- The level of an action, from the score and the discounted score. -/
theorem level_action {score uncertainty : K} :
    (action score (calibratedProbability score uncertainty)).level =
      if |score| * (1 - uncertainty) < 1 / 10 then 0
      else if 72 / 100 ≤ score then 2
      else if 35 / 100 ≤ score then 1
      else if score ≤ -(72 / 100) then -2
      else if score ≤ -(35 / 100) then -1
      else 0 := by
  unfold action
  simp only [calibratedProbability_lt_iff]
  split_ifs <;> rfl

/-- A higher score on the buying side proposes no weaker a purchase. -/
theorem level_action_mono_pos {score score' uncertainty : K} (huncertainty : uncertainty ≤ 1)
    (hpos : 0 ≤ score) (hle : score ≤ score') :
    (action score (calibratedProbability score uncertainty)).level ≤
      (action score' (calibratedProbability score' uncertainty)).level := by
  have hpos' : 0 ≤ score' := hpos.trans hle
  have hdiscount : |score| * (1 - uncertainty) ≤ |score'| * (1 - uncertainty) := by
    apply mul_le_mul_of_nonneg_right _ (by linarith)
    rw [abs_of_nonneg hpos, abs_of_nonneg hpos']
    exact hle
  have hsell : ¬ score' ≤ -(72 / 100) := by intro h; linarith
  have hsell' : ¬ score' ≤ -(35 / 100) := by intro h; linarith
  have hold : ¬ score ≤ -(72 / 100) := by intro h; linarith
  have hold' : ¬ score ≤ -(35 / 100) := by intro h; linarith
  rw [level_action, level_action]
  simp only [hsell, hsell', hold, hold', if_false]
  split_ifs <;> first | omega | (exfalso; linarith)

/-- The action mirrors with the sign of the score. -/
theorem level_action_neg {score uncertainty : K} :
    (action (-score) (calibratedProbability (-score) uncertainty)).level =
      -(action score (calibratedProbability score uncertainty)).level := by
  rw [level_action, level_action, abs_neg]
  split_ifs <;> first | rfl | (exfalso; linarith)

/-- A score on the buying side proposes no sale. -/
theorem level_action_nonneg {score uncertainty : K} (hpos : 0 ≤ score) :
    0 ≤ (action score (calibratedProbability score uncertainty)).level := by
  rw [level_action]
  split_ifs <;> first | omega | (exfalso; linarith)

/-- For one uncertainty the action never falls as the score rises. -/
theorem level_action_mono {score score' uncertainty : K} (huncertainty : uncertainty ≤ 1)
    (hle : score ≤ score') :
    (action score (calibratedProbability score uncertainty)).level ≤
      (action score' (calibratedProbability score' uncertainty)).level := by
  by_cases hpos : 0 ≤ score
  · exact level_action_mono_pos huncertainty hpos hle
  · push Not at hpos
    by_cases hpos' : 0 ≤ score'
    · have hbuy : 0 ≤ (action score' (calibratedProbability score' uncertainty)).level :=
        level_action_nonneg hpos'
      have hsell : 0 ≤ (action (-score) (calibratedProbability (-score) uncertainty)).level :=
        level_action_nonneg (by linarith)
      rw [level_action_neg] at hsell
      omega
    · push Not at hpos'
      have hmirror : (action (-score') (calibratedProbability (-score') uncertainty)).level ≤
          (action (-score) (calibratedProbability (-score) uncertainty)).level :=
        level_action_mono_pos huncertainty (by linarith) (by linarith)
      rw [level_action_neg, level_action_neg] at hmirror
      omega

/-- **Monotone in the edge.**  For one uncertainty the proposed action never
falls as the edge rises, whatever else the two calls are made with. -/
theorem proposedAction_mono {tanh : Squash K} {analysis analysis' : AIEventAnalysis K}
    {features features' : FeatureSnapshot K} {entity entity' : EventEntity K}
    {candidate candidate' : SignalCandidate K}
    (h : BuiltFrom tanh analysis features entity candidate)
    (h' : BuiltFrom tanh analysis' features' entity' candidate')
    (huncertainty : analysis.uncertainty = analysis'.uncertainty)
    (hedge : rawEdge analysis features entity ≤ rawEdge analysis' features' entity') :
    candidate.proposedAction.level ≤ candidate'.proposedAction.level := by
  have hscore : candidate.score ≤ candidate'.score := by
    rw [h.score, h'.score]
    exact tanh.mono hedge
  rw [h.proposed, h'.proposed, huncertainty]
  exact level_action_mono analysis'.uncertainty_bounds.2 hscore

/-- More uncertainty leaves the action or takes it back. -/
theorem action_of_more_uncertain {score uncertainty uncertainty' : K}
    (hle : uncertainty ≤ uncertainty') :
    action score (calibratedProbability score uncertainty') =
        action score (calibratedProbability score uncertainty) ∨
      action score (calibratedProbability score uncertainty') = Action.hold := by
  have hdiscount : |score| * (1 - uncertainty') ≤ |score| * (1 - uncertainty) := by
    apply mul_le_mul_of_nonneg_left _ (abs_nonneg score)
    linarith
  by_cases hgate : |score| * (1 - uncertainty') < 1 / 10
  · right
    unfold action
    rw [if_pos (calibratedProbability_lt_iff.mpr hgate)]
  · left
    have hgate' : ¬ |score| * (1 - uncertainty) < 1 / 10 := by
      intro h
      exact hgate (lt_of_le_of_lt hdiscount h)
    unfold action
    rw [if_neg (fun h => hgate (calibratedProbability_lt_iff.mp h)),
      if_neg (fun h => hgate' (calibratedProbability_lt_iff.mp h))]

end Monotone

end EventAlpha
