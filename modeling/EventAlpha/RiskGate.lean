import EventAlpha.Decimals
import EventAlpha.Signals

/-!
# The risk gate

`evaluate` is the last word on a candidate.  It checks the features it is
given, the evidence and the settings, and approves the proposed action or
takes it back to `HOLD` or `AVOID`.

`evaluate_approved_iff` says exactly when it approves.  Two results follow from
it and from the fusion: worse evidence never strengthens a decision
(`pipeline_weakens`), and an approval rests on the age of the market data as it
was recorded, so it is bound to its evidence as far as the candidate is built
from the same features and evaluated in time (`approval_is_bound`).
-/

namespace EventAlpha

/-- The settings the gate reads. -/
structure Settings where
  demoMode : Bool
  killSwitch : Bool
  deriving DecidableEq

/-- The decision on a candidate. -/
structure RiskDecision where
  riskDecisionId : Uuid
  signalId : Uuid
  policyVersion : String
  evaluatedAt : UtcDatetime
  approved : Bool
  finalAction : Action
  sizeCapNotional : Decimal
  reasonCodes : List String
  checks : List (String × Bool)
  size_nonneg : 0 ≤ sizeCapNotional.value

variable {K : Type*} [Field K] [LinearOrder K]

section Evaluation

/-- `MAX_MARKET_DATA_AGE_MS`. -/
def maxMarketDataAgeMs : Int := 15000

/-- `MAX_REALIZED_VOL_30M`. -/
def maxRealizedVol30m : K := 1 / 10

/-- The checks, in the order in which they are reported. -/
def riskChecks (candidate : SignalCandidate K) (features : FeatureSnapshot K)
    (settings : Settings) : List (String × Bool) :=
  [("market_data_fresh", features.marketDataAgeMs ≤ maxMarketDataAgeMs),
    ("volatility_ok", features.realizedVol30m ≤ maxRealizedVol30m),
    ("evidence_present", !candidate.evidenceIds.isEmpty),
    ("kill_switch_off", !settings.killSwitch),
    ("demo_mode", settings.demoMode)]

/-- The codes of the checks that failed. -/
def failureCodes (checks : List (String × Bool)) : List String :=
  (checks.filter (fun check => !check.2)).map (fun check =>
    String.ofList (check.1.toList.map Char.toUpper))

/-- What a decision allows to be traded. -/
def sizeCap (approved : Bool) : Decimal := if approved then ⟨1000, 0⟩ else ⟨0, 0⟩

theorem sizeCap_value (approved : Bool) :
    (sizeCap approved).value = if approved then 1000 else 0 := by
  cases approved <;> simp [sizeCap, Decimal.value]

theorem sizeCap_nonneg (approved : Bool) : 0 ≤ (sizeCap approved).value := by
  rw [sizeCap_value]
  cases approved <;> simp

/-- `evaluate`, with the identifier `uuid4` draws and the time of the clock. -/
def evaluate (riskDecisionId : Uuid) (now : UtcDatetime) (candidate : SignalCandidate K)
    (features : FeatureSnapshot K) (settings : Settings) : RiskDecision :=
  let checks := riskChecks candidate features settings
  let failures := failureCodes checks
  let approved := failures.isEmpty && candidate.proposedAction ≠ Action.hold &&
    candidate.proposedAction ≠ Action.avoid
  { riskDecisionId := riskDecisionId
    signalId := candidate.signalId
    policyVersion := "paper-risk-v0.1.0"
    evaluatedAt := now
    approved := approved
    finalAction :=
      if approved then candidate.proposedAction
      else if failures.isEmpty then Action.hold
      else Action.avoid
    sizeCapNotional := sizeCap approved
    reasonCodes :=
      if failures.isEmpty then (if approved then [] else ["INSUFFICIENT_EDGE"]) else failures
    checks := checks
    size_nonneg := sizeCap_nonneg approved }

/-- Every check passes. -/
structure Passes (candidate : SignalCandidate K) (features : FeatureSnapshot K)
    (settings : Settings) : Prop where
  fresh : features.marketDataAgeMs ≤ maxMarketDataAgeMs
  volatility : features.realizedVol30m ≤ maxRealizedVol30m
  evidence : candidate.evidenceIds ≠ []
  killSwitch : settings.killSwitch = false
  demoMode : settings.demoMode = true

theorem failureCodes_isEmpty_iff {checks : List (String × Bool)} :
    (failureCodes checks).isEmpty = true ↔ ∀ check ∈ checks, check.2 = true := by
  simp [failureCodes, List.filter_eq_nil_iff]

theorem passes_iff {candidate : SignalCandidate K} {features : FeatureSnapshot K}
    {settings : Settings} :
    (∀ check ∈ riskChecks candidate features settings, check.2 = true) ↔
      Passes candidate features settings := by
  constructor
  · intro h
    simp [riskChecks] at h
    exact ⟨h.1, h.2.1, h.2.2.1, h.2.2.2.1, h.2.2.2.2⟩
  · intro h
    simp [riskChecks, h.fresh, h.volatility, h.evidence, h.killSwitch, h.demoMode]

/-- **The gate.**  A candidate is approved when every check passes and it
proposes to trade. -/
theorem evaluate_approved_iff {riskDecisionId : Uuid} {now : UtcDatetime}
    {candidate : SignalCandidate K} {features : FeatureSnapshot K} {settings : Settings} :
    (evaluate riskDecisionId now candidate features settings).approved = true ↔
      Passes candidate features settings ∧ candidate.proposedAction ≠ Action.hold ∧
        candidate.proposedAction ≠ Action.avoid := by
  simp only [evaluate, Bool.and_eq_true, decide_eq_true_eq, failureCodes_isEmpty_iff, passes_iff,
    and_assoc]

/-- An approved candidate keeps its action, and any other loses it. -/
theorem evaluate_finalAction (riskDecisionId : Uuid) (now : UtcDatetime)
    (candidate : SignalCandidate K) (features : FeatureSnapshot K) (settings : Settings) :
    ((evaluate riskDecisionId now candidate features settings).approved = true →
      (evaluate riskDecisionId now candidate features settings).finalAction =
        candidate.proposedAction) ∧
    ((evaluate riskDecisionId now candidate features settings).approved = false →
      (evaluate riskDecisionId now candidate features settings).finalAction = Action.hold ∨
      (evaluate riskDecisionId now candidate features settings).finalAction = Action.avoid) := by
  refine ⟨?_, ?_⟩
  · intro h
    exact if_pos h
  · intro h
    have hdenied : (evaluate riskDecisionId now candidate features settings).finalAction =
        if (failureCodes (riskChecks candidate features settings)).isEmpty then Action.hold
        else Action.avoid := if_neg (fun hon => absurd (h.symm.trans hon) (by simp))
    rw [hdenied]
    split
    · exact Or.inl rfl
    · exact Or.inr rfl

/-- A decision trades what was proposed or nothing, exactly when it is approved,
and then every check passed. -/
theorem evaluate_sound (riskDecisionId : Uuid) (now : UtcDatetime)
    (candidate : SignalCandidate K) (features : FeatureSnapshot K) (settings : Settings) :
    (evaluate riskDecisionId now candidate features settings).finalAction ∈
        [candidate.proposedAction, Action.hold, Action.avoid] ∧
      (0 < (evaluate riskDecisionId now candidate features settings).sizeCapNotional.value ↔
        (evaluate riskDecisionId now candidate features settings).approved = true) ∧
      ((evaluate riskDecisionId now candidate features settings).approved = true →
        ∀ check ∈ (evaluate riskDecisionId now candidate features settings).checks,
          check.2 = true) := by
  have hfinal := evaluate_finalAction riskDecisionId now candidate features settings
  refine ⟨?_, ?_, ?_⟩
  · cases happroved : (evaluate riskDecisionId now candidate features settings).approved with
    | true => simp [hfinal.1 happroved]
    | false =>
        rcases hfinal.2 happroved with hhold | havoid
        · simp [hhold]
        · simp [havoid]
  · have hsize : (evaluate riskDecisionId now candidate features settings).sizeCapNotional =
        sizeCap (evaluate riskDecisionId now candidate features settings).approved := rfl
    rw [hsize, sizeCap_value]
    cases (evaluate riskDecisionId now candidate features settings).approved <;> simp
  · intro happroved
    exact passes_iff.mpr (evaluate_approved_iff.mp happroved).1

end Evaluation

section Pipeline

variable [IsStrictOrderedRing K]

/-- How strongly an action trades. -/
def Action.strength (action : Action) : ℕ := action.level.natAbs

/-- A call of `create_candidate` that returns. -/
def Proposes (tanh : Squash K) (analysis : AIEventAnalysis K) (features : FeatureSnapshot K)
    (candidate : SignalCandidate K) : Prop :=
  ∃ signalId, createCandidate tanh signalId analysis features = .ok candidate

/-- A call of `evaluate` on what `create_candidate` returned. -/
def Decides (tanh : Squash K) (analysis : AIEventAnalysis K) (features : FeatureSnapshot K)
    (settings : Settings) (decision : RiskDecision) : Prop :=
  ∃ candidate, Proposes tanh analysis features candidate ∧
    ∃ riskDecisionId now, decision = evaluate riskDecisionId now candidate features settings

/-- Worse evidence: any of more uncertainty, older market data, more
volatility, no evidence at all, the kill switch on, demo mode off. -/
structure Worse (analysis analysis' : AIEventAnalysis K) (features features' : FeatureSnapshot K)
    (settings settings' : Settings) : Prop where
  entities : analysis'.entities = analysis.entities
  novelty : analysis'.novelty = analysis.novelty
  uncertainty : analysis.uncertainty ≤ analysis'.uncertainty
  evidence : analysis'.evidenceSourceIds = analysis.evidenceSourceIds ∨
    analysis'.evidenceSourceIds = []
  symbol : features'.symbol = features.symbol
  asOf : features'.asOf = features.asOf
  ret15m : features'.ret15m = features.ret15m
  volumeZ30m : features'.volumeZ30m = features.volumeZ30m
  sectorRelativeRet15m : features'.sectorRelativeRet15m = features.sectorRelativeRet15m
  realizedVol30m : features.realizedVol30m ≤ features'.realizedVol30m
  marketDataAgeMs : features.marketDataAgeMs ≤ features'.marketDataAgeMs
  killSwitch : settings.killSwitch = true → settings'.killSwitch = true
  demoMode : settings'.demoMode = true → settings.demoMode = true

variable {tanh : Squash K} {analysis analysis' : AIEventAnalysis K}
  {features features' : FeatureSnapshot K} {settings settings' : Settings}
  {candidate candidate' : SignalCandidate K}

/-- Worse evidence leaves the proposal or takes it back. -/
theorem Worse.proposed (h : Worse analysis analysis' features features' settings settings')
    (hcandidate : Proposes tanh analysis features candidate)
    (hcandidate' : Proposes tanh analysis' features' candidate') :
    candidate'.proposedAction = candidate.proposedAction ∨
      candidate'.proposedAction = Action.hold := by
  obtain ⟨signalId, hcall⟩ := hcandidate
  obtain ⟨signalId', hcall'⟩ := hcandidate'
  obtain ⟨entity, hbuilt⟩ := createCandidate_eq_ok hcall
  obtain ⟨entity', hbuilt'⟩ := createCandidate_eq_ok hcall'
  have hentity : entity' = entity := by
    have hmatched := hbuilt'.matched
    rw [matchedEntity, h.entities, h.symbol] at hmatched
    exact Option.some.inj (hmatched.symm.trans hbuilt.matched)
  have hedge : rawEdge analysis' features' entity' = rawEdge analysis features entity := by
    rw [rawEdge, rawEdge, hentity, h.novelty, h.ret15m, h.volumeZ30m, h.sectorRelativeRet15m]
  have hscore : candidate'.score = candidate.score := by
    rw [hbuilt'.score, hbuilt.score, hedge]
  rw [hbuilt'.proposed, hbuilt.proposed, hscore]
  exact action_of_more_uncertain h.uncertainty

/-- Checks that pass on worse evidence passed before. -/
theorem Worse.passes (h : Worse analysis analysis' features features' settings settings')
    (hcandidate : Proposes tanh analysis features candidate)
    (hcandidate' : Proposes tanh analysis' features' candidate')
    (hpasses : Passes candidate' features' settings') : Passes candidate features settings := by
  obtain ⟨signalId, hcall⟩ := hcandidate
  obtain ⟨signalId', hcall'⟩ := hcandidate'
  obtain ⟨entity, hbuilt⟩ := createCandidate_eq_ok hcall
  obtain ⟨entity', hbuilt'⟩ := createCandidate_eq_ok hcall'
  refine ⟨h.marketDataAgeMs.trans hpasses.fresh, h.realizedVol30m.trans hpasses.volatility, ?_, ?_,
    h.demoMode hpasses.demoMode⟩
  · have hevidence := hpasses.evidence
    rw [hbuilt'.evidence] at hevidence
    rw [hbuilt.evidence]
    rcases h.evidence with hsame | hnone
    · rw [← hsame]
      exact hevidence
    · exact absurd hnone hevidence
  · by_contra hon
    rw [Bool.not_eq_false] at hon
    have hoff := hpasses.killSwitch
    rw [h.killSwitch hon] at hoff
    exact absurd hoff (by simp)

/-- What a decision on worse evidence comes to: nothing, or what it came to
before. -/
theorem Worse.decision (h : Worse analysis analysis' features features' settings settings')
    {decision decision' : RiskDecision} (hdecides : Decides tanh analysis features settings decision)
    (hdecides' : Decides tanh analysis' features' settings' decision') :
    (decision'.approved = true ∧ decision.approved = true ∧
        decision'.finalAction = decision.finalAction) ∨
      (decision'.approved = false ∧
        (decision'.finalAction = Action.hold ∨ decision'.finalAction = Action.avoid)) := by
  obtain ⟨candidate, hcandidate, riskDecisionId, now, rfl⟩ := hdecides
  obtain ⟨candidate', hcandidate', riskDecisionId', now', rfl⟩ := hdecides'
  have hfinal := evaluate_finalAction riskDecisionId now candidate features settings
  have hfinal' := evaluate_finalAction riskDecisionId' now' candidate' features' settings'
  cases happroved' : (evaluate riskDecisionId' now' candidate' features' settings').approved with
  | false => exact Or.inr ⟨rfl, hfinal'.2 happroved'⟩
  | true =>
      obtain ⟨hpasses', htrades', havoid'⟩ := evaluate_approved_iff.mp happroved'
      have hsame : candidate'.proposedAction = candidate.proposedAction := by
        rcases h.proposed hcandidate hcandidate' with hsame | hhold
        · exact hsame
        · exact absurd hhold htrades'
      have happroved : (evaluate riskDecisionId now candidate features settings).approved = true := by
        rw [evaluate_approved_iff, ← hsame]
        exact ⟨h.passes hcandidate hcandidate' hpasses', htrades', havoid'⟩
      refine Or.inl ⟨rfl, happroved, ?_⟩
      rw [hfinal'.1 happroved', hfinal.1 happroved, hsame]

/-- The size of a decision is the cap of its approval. -/
theorem Decides.sizeCap {decision : RiskDecision}
    (h : Decides tanh analysis features settings decision) :
    decision.sizeCapNotional = EventAlpha.sizeCap decision.approved := by
  obtain ⟨candidate, -, riskDecisionId, now, rfl⟩ := h
  rfl

/-- Worse evidence never approves, strengthens, turns or enlarges a decision. -/
theorem Worse.weakens (h : Worse analysis analysis' features features' settings settings')
    {decision decision' : RiskDecision} (hdecides : Decides tanh analysis features settings decision)
    (hdecides' : Decides tanh analysis' features' settings' decision') :
    (decision'.approved = true → decision.approved = true) ∧
      decision'.finalAction.strength ≤ decision.finalAction.strength ∧
      ¬decision.finalAction.level * decision'.finalAction.level < 0 ∧
      decision'.sizeCapNotional.value ≤ decision.sizeCapNotional.value := by
  rw [hdecides.sizeCap, hdecides'.sizeCap, sizeCap_value, sizeCap_value]
  rcases h.decision hdecides hdecides' with ⟨happroved', happroved, hsame⟩ |
    ⟨hdenied', hnothing⟩
  · rw [happroved', happroved, hsame]
    exact ⟨fun _ => rfl, le_rfl, not_lt.mpr (mul_self_nonneg _), le_rfl⟩
  · have hlevel : decision'.finalAction.level = 0 := by
      rcases hnothing with hhold | havoid
      · rw [hhold]
        rfl
      · rw [havoid]
        rfl
    rw [hdenied', Action.strength, hlevel]
    refine ⟨by simp, by simp, by simp, ?_⟩
    cases decision.approved <;> simp

end Pipeline

section Results

variable [IsStrictOrderedRing K] (tanh : Squash K)

/-- The pipeline returns a candidate whenever an entity matches and the expiry
can be represented.  For one uncertainty its action never falls as the edge
rises; worse evidence never approves, strengthens, turns or enlarges a
decision; and a decision trades what was proposed or nothing, exactly when it
is approved, and then every check passed. -/
theorem pipeline_weakens :
    (∀ (signalId : Uuid) (analysis : AIEventAnalysis K) (features : FeatureSnapshot K),
      (∃ candidate, createCandidate tanh signalId analysis features = .ok candidate) ↔
        (∃ entity ∈ analysis.entities, entity.ticker = some features.symbol) ∧
          features.asOf + candidateLifetime ≤ datetimeMax) ∧
    (∀ (analysis analysis' : AIEventAnalysis K) (features features' : FeatureSnapshot K)
      (entity entity' : EventEntity K) (candidate candidate' : SignalCandidate K),
      Proposes tanh analysis features candidate → Proposes tanh analysis' features' candidate' →
      matchedEntity analysis features = some entity →
      matchedEntity analysis' features' = some entity' →
      analysis.uncertainty = analysis'.uncertainty →
      rawEdge analysis features entity ≤ rawEdge analysis' features' entity' →
      candidate.proposedAction.level ≤ candidate'.proposedAction.level) ∧
    (∀ (analysis analysis' : AIEventAnalysis K) (features features' : FeatureSnapshot K)
      (settings settings' : Settings) (decision decision' : RiskDecision),
      Worse analysis analysis' features features' settings settings' →
      Decides tanh analysis features settings decision →
      Decides tanh analysis' features' settings' decision' →
      (decision'.approved = true → decision.approved = true) ∧
      decision'.finalAction.strength ≤ decision.finalAction.strength ∧
      ¬ decision.finalAction.level * decision'.finalAction.level < 0 ∧
      decision'.sizeCapNotional.value ≤ decision.sizeCapNotional.value) ∧
    (∀ (riskDecisionId : Uuid) (now : UtcDatetime) (candidate : SignalCandidate K)
      (features : FeatureSnapshot K) (settings : Settings) (decision : RiskDecision),
      decision = evaluate riskDecisionId now candidate features settings →
      decision.finalAction ∈ [candidate.proposedAction, Action.hold, Action.avoid] ∧
      (0 < decision.sizeCapNotional.value ↔ decision.approved = true) ∧
      (decision.approved = true → ∀ check ∈ decision.checks, check.2 = true)) := by
  refine ⟨?_, ?_, ?_, ?_⟩
  · intro signalId analysis features
    exact createCandidate_returns_iff
  · intro analysis analysis' features features' entity entity' candidate candidate' hproposes
      hproposes' hmatched hmatched' huncertainty hedge
    obtain ⟨signalId, hcall⟩ := hproposes
    obtain ⟨signalId', hcall'⟩ := hproposes'
    obtain ⟨found, hbuilt⟩ := createCandidate_eq_ok hcall
    obtain ⟨found', hbuilt'⟩ := createCandidate_eq_ok hcall'
    obtain rfl := Option.some.inj (hmatched.symm.trans hbuilt.matched)
    obtain rfl := Option.some.inj (hmatched'.symm.trans hbuilt'.matched)
    exact proposedAction_mono hbuilt hbuilt' huncertainty hedge
  · intro analysis analysis' features features' settings settings' decision decision' hworse
      hdecides hdecides'
    exact hworse.weakens hdecides hdecides'
  · intro riskDecisionId now candidate features settings decision hdecision
    subst hdecision
    exact evaluate_sound riskDecisionId now candidate features settings

/-- What an approval says of the evidence at the moment of the decision. -/
structure BoundAt (candidate : SignalCandidate K) (features : FeatureSnapshot K)
    (evaluatedAt : UtcDatetime) : Prop where
  unexpired : evaluatedAt ≤ candidate.expiresAt
  snapshot : candidate.featureSnapshotId = features.snapshotId
  symbol : candidate.symbol = features.symbol
  fresh : features.marketDataAgeMs * 1000 + (evaluatedAt - features.asOf) ≤
    maxMarketDataAgeMs * 1000

/-- A candidate is approved, at any time, exactly when the recorded age of the
market data and the other checks pass and it proposes to trade.  A candidate
built from the features it is judged by matches them, and is bound to current
evidence exactly when the recorded age and the time since then are together
within the limit. -/
theorem approval_is_bound :
    (∀ (riskDecisionId : Uuid) (now : UtcDatetime) (candidate : SignalCandidate K)
      (features : FeatureSnapshot K) (settings : Settings),
      (evaluate riskDecisionId now candidate features settings).approved = true ↔
        Passes candidate features settings ∧ candidate.proposedAction ≠ Action.hold ∧
          candidate.proposedAction ≠ Action.avoid) ∧
    (∀ (riskDecisionId : Uuid) (now : UtcDatetime) (analysis : AIEventAnalysis K)
      (candidate : SignalCandidate K) (features : FeatureSnapshot K) (settings : Settings),
      Proposes tanh analysis features candidate →
      candidate.featureSnapshotId = features.snapshotId ∧ candidate.symbol = features.symbol ∧
      (BoundAt candidate features
          (evaluate riskDecisionId now candidate features settings).evaluatedAt ↔
        features.marketDataAgeMs * 1000 + (now - features.asOf) ≤ maxMarketDataAgeMs * 1000)) := by
  refine ⟨?_, ?_⟩
  · intro riskDecisionId now candidate features settings
    exact evaluate_approved_iff
  · intro riskDecisionId now analysis candidate features settings hproposes
    obtain ⟨signalId, hcall⟩ := hproposes
    obtain ⟨entity, hbuilt⟩ := createCandidate_eq_ok hcall
    refine ⟨hbuilt.snapshot, hbuilt.symbol, fun h => h.fresh, ?_⟩
    intro hintime
    have hunexpired : now ≤ features.asOf + candidateLifetime := by
      have hage := features.marketDataAgeMs_nonneg
      unfold maxMarketDataAgeMs at hintime
      unfold candidateLifetime
      linarith
    refine ⟨?_, hbuilt.snapshot, hbuilt.symbol, hintime⟩
    rw [hbuilt.expiry]
    exact hunexpired

end Results

section Sample

/-- A strictly increasing odd function into the open unit interval that can be
computed: `x / (1 + |x|)`. -/
def softsign : Squash ℚ where
  toFun x := x / (1 + |x|)
  strictMono := by
    intro x y hlt
    have hx : 0 < 1 + |x| := by positivity
    have hy : 0 < 1 + |y| := by positivity
    show x / (1 + |x|) < y / (1 + |y|)
    rw [div_lt_div_iff₀ hx hy]
    rcases abs_cases x with ⟨habs, hsign⟩ | ⟨habs, hsign⟩ <;>
      rcases abs_cases y with ⟨habs', hsign'⟩ | ⟨habs', hsign'⟩ <;>
      rw [habs, habs'] <;> nlinarith
  odd x := by
    rw [abs_neg, neg_div]
  lt_one x := by
    have hx : 0 < 1 + |x| := by positivity
    rw [div_lt_one hx]
    linarith [le_abs_self x]

/-- The analysis of the repository's own test, with an uncertainty and evidence. -/
def testAnalysis (uncertainty : ℚ) (hbounds : 0 ≤ uncertainty ∧ uncertainty ≤ 1)
    (evidenceSourceIds : List String) : AIEventAnalysis ℚ where
  analysisId := 1
  eventId := 2
  novelty := 8 / 10
  uncertainty := uncertainty
  entities := [⟨some "ACME", 9 / 10, 9 / 10, by norm_num, by norm_num⟩]
  evidenceSourceIds := evidenceSourceIds
  novelty_bounds := by norm_num
  uncertainty_bounds := hbounds

/-- Features of the symbol of that analysis. -/
def testFeatures (snapshotId : Uuid) (asOf : UtcDatetime) (marketDataAgeMs : ℕ) :
    FeatureSnapshot ℚ where
  snapshotId := snapshotId
  symbol := "ACME"
  asOf := asOf
  ret15m := 2 / 10
  realizedVol30m := 2 / 100
  volumeZ30m := 2
  sectorRelativeRet15m := 1 / 100
  marketDataAgeMs := marketDataAgeMs
  ret15m_bounds := by norm_num
  realizedVol30m_nonneg := by norm_num
  sectorRelativeRet15m_bounds := by norm_num
  marketDataAgeMs_nonneg := by omega

/-- The test analysis has an entity for the test features. -/
theorem proposes_test (uncertainty : ℚ) (hbounds : 0 ≤ uncertainty ∧ uncertainty ≤ 1)
    (evidenceSourceIds : List String) (snapshotId : Uuid) (marketDataAgeMs : ℕ) :
    ∃ candidate, Proposes softsign (testAnalysis uncertainty hbounds evidenceSourceIds)
      (testFeatures snapshotId 0 marketDataAgeMs) candidate := by
  have htime : (0 : Int) + candidateLifetime ≤ datetimeMax := by decide
  obtain ⟨candidate, hcall⟩ : ∃ candidate, createCandidate softsign 3
      (testAnalysis uncertainty hbounds evidenceSourceIds)
      (testFeatures snapshotId 0 marketDataAgeMs) = .ok candidate :=
    createCandidate_returns_iff.mpr ⟨⟨_, List.mem_singleton_self _, rfl⟩, htime⟩
  exact ⟨candidate, 3, hcall⟩

/-- Hardly any certainty, no evidence, older market data and the kill switch on
are worse than a nearly certain analysis. -/
theorem worse_test : Worse (testAnalysis (1 / 10) (by norm_num) ["source-1"])
    (testAnalysis (9 / 10) (by norm_num) []) (testFeatures 4 0 30) (testFeatures 5 0 40)
    ⟨true, false⟩ ⟨true, true⟩ where
  entities := rfl
  novelty := rfl
  uncertainty := by norm_num [testAnalysis]
  evidence := Or.inr rfl
  symbol := rfl
  asOf := rfl
  ret15m := rfl
  volumeZ30m := rfl
  sectorRelativeRet15m := rfl
  realizedVol30m := le_rfl
  marketDataAgeMs := by decide
  killSwitch := fun _ => rfl
  demoMode := fun _ => rfl

/-- A nearly certain analysis, and the same with hardly any certainty, no
evidence, older market data and the kill switch on. -/
theorem pipeline_weakens_uncertain :
    ∃ decision decision',
      Decides softsign (testAnalysis (1 / 10) (by norm_num) ["source-1"]) (testFeatures 4 0 30)
        ⟨true, false⟩ decision ∧
      Decides softsign (testAnalysis (9 / 10) (by norm_num) []) (testFeatures 5 0 40)
        ⟨true, true⟩ decision' ∧
      decision'.finalAction.strength ≤ decision.finalAction.strength ∧
      decision'.sizeCapNotional.value ≤ decision.sizeCapNotional.value := by
  obtain ⟨candidate, hcandidate⟩ := proposes_test (1 / 10) (by norm_num) ["source-1"] 4 30
  obtain ⟨candidate', hcandidate'⟩ := proposes_test (9 / 10) (by norm_num) [] 5 40
  have hdecides : Decides softsign _ _ ⟨true, false⟩ _ := ⟨candidate, hcandidate, 8, 1000, rfl⟩
  have hdecides' : Decides softsign _ _ ⟨true, true⟩ _ := ⟨candidate', hcandidate', 9, 2000, rfl⟩
  obtain ⟨-, hstrength, -, hsize⟩ :=
    (pipeline_weakens softsign).2.2.1 _ _ _ _ _ _ _ _ worse_test hdecides hdecides'
  exact ⟨_, _, hdecides, hdecides', hstrength, hsize⟩

/-- A candidate is approved five hours after the features it was built from,
an hour after it expired, on another snapshot. -/
theorem approval_outlives_evidence :
    ∃ candidate, Proposes softsign (testAnalysis (1 / 10) (by norm_num) ["source-1"])
        (testFeatures 4 0 30) candidate ∧
      (evaluate 9 18000000000 candidate (testFeatures 5 0 30) ⟨true, false⟩).approved = true ∧
      ¬ (evaluate 9 18000000000 candidate (testFeatures 5 0 30) ⟨true, false⟩).evaluatedAt ≤
        candidate.expiresAt ∧
      candidate.featureSnapshotId ≠ (testFeatures 5 0 30).snapshotId ∧
      ¬ (testFeatures 5 0 30).marketDataAgeMs * 1000 +
        (18000000000 - (testFeatures 5 0 30).asOf) ≤ maxMarketDataAgeMs * 1000 := by
  refine ⟨_, ⟨3, rfl⟩, ?_, ?_, ?_, ?_⟩
  · decide +kernel
  · decide +kernel
  · decide +kernel
  · decide +kernel

/-- Ten seconds after the features a candidate was built from, it is bound to
them. -/
theorem approval_is_bound_in_time :
    ∃ candidate, Proposes softsign (testAnalysis (1 / 10) (by norm_num) ["source-1"])
        (testFeatures 4 0 30) candidate ∧
      BoundAt candidate (testFeatures 4 0 30)
        (evaluate 9 10000000 candidate (testFeatures 4 0 30) ⟨true, false⟩).evaluatedAt := by
  obtain ⟨candidate, hcandidate⟩ := proposes_test (1 / 10) (by norm_num) ["source-1"] 4 30
  refine ⟨candidate, hcandidate, ?_⟩
  exact ((approval_is_bound softsign).2 9 10000000 _ candidate _ ⟨true, false⟩ hcandidate).2.2.mpr
    (by decide)

end Sample

end EventAlpha
