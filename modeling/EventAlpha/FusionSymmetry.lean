import EventAlpha.RiskGate
import Mathlib.Tactic.Linarith
import Mathlib.Tactic.Ring

/-!
# The symmetry of the fusion

What speaks for a purchase speaks, with the opposite sign, for a sale.  The
mirror image of an analysis and of features has the impact of the matched entity
and the returns negated.  The event and the price components of the edge are odd
in these, the thresholds of `_action` lie on both sides of zero alike, and
`tanh` is odd.

The volume confirmation takes its sign from a comparison of the return with
zero, and counts a return of zero as a rise.  `fusion_symmetric_iff` says that
this is all that breaks the symmetry.
-/

namespace EventAlpha

section Mirror

variable {K : Type*} [Field K] [LinearOrder K] [IsStrictOrderedRing K]

/-- The action for the opposite evidence. -/
def Action.mirror : Action → Action
  | strongBuy => strongSell
  | buy => sell
  | hold => hold
  | sell => buy
  | strongSell => strongBuy
  | avoid => avoid

theorem neg_unit_bounds {x : K} (h : -1 ≤ x ∧ x ≤ 1) : -1 ≤ -x ∧ -x ≤ 1 :=
  ⟨neg_le_neg h.2, neg_le.mpr h.1⟩

def EventEntity.mirrored (entity : EventEntity K) : EventEntity K where
  ticker := entity.ticker
  impact := -entity.impact
  confidence := entity.confidence
  impact_bounds := neg_unit_bounds entity.impact_bounds
  confidence_bounds := entity.confidence_bounds

/-- The first entity with a ticker mirrored, the others as they are. -/
def mirrorFirst (symbol : String) : List (EventEntity K) → List (EventEntity K)
  | [] => []
  | entity :: entities =>
      if entity.ticker = some symbol then entity.mirrored :: entities
      else entity :: mirrorFirst symbol entities

/-- An analysis with the impact on a symbol negated. -/
def AIEventAnalysis.mirrored (analysis : AIEventAnalysis K) (symbol : String) :
    AIEventAnalysis K :=
  { analysis with entities := mirrorFirst symbol analysis.entities }

/-- Features with the returns negated. -/
def FeatureSnapshot.mirrored (features : FeatureSnapshot K) : FeatureSnapshot K where
  snapshotId := features.snapshotId
  symbol := features.symbol
  asOf := features.asOf
  ret15m := -features.ret15m
  realizedVol30m := features.realizedVol30m
  volumeZ30m := features.volumeZ30m
  sectorRelativeRet15m := -features.sectorRelativeRet15m
  marketDataAgeMs := features.marketDataAgeMs
  ret15m_bounds := neg_unit_bounds features.ret15m_bounds
  realizedVol30m_nonneg := features.realizedVol30m_nonneg
  sectorRelativeRet15m_bounds := neg_unit_bounds features.sectorRelativeRet15m_bounds
  marketDataAgeMs_nonneg := features.marketDataAgeMs_nonneg

/-- A candidate is the mirror image of another, as far as it is fused. -/
structure SignalCandidate.Mirrors (candidate' candidate : SignalCandidate K) : Prop where
  score_eq : candidate'.score = -candidate.score
  probability_eq : candidate'.calibratedProbability = candidate.calibratedProbability
  action_eq : candidate'.proposedAction = candidate.proposedAction.mirror

variable {tanh : Squash K} {analysis : AIEventAnalysis K} {features : FeatureSnapshot K}
  {entity : EventEntity K} {candidate : SignalCandidate K} {signalId : Uuid}

/-- The matched entity of the mirror image is the mirror image of the matched
entity. -/
theorem find?_mirrorFirst (symbol : String) (entities : List (EventEntity K)) :
    (mirrorFirst symbol entities).find? (fun item => item.ticker = some symbol) =
      (entities.find? (fun item => item.ticker = some symbol)).map EventEntity.mirrored := by
  induction entities with
  | nil => rfl
  | cons entity entities ih =>
      by_cases hticker : entity.ticker = some symbol
      · have hticker' : entity.mirrored.ticker = some symbol := hticker
        simp [mirrorFirst, hticker, hticker']
      · simp [mirrorFirst, hticker, ih]

theorem matchedEntity_mirrored (h : matchedEntity analysis features = some entity) :
    matchedEntity (analysis.mirrored features.symbol) features.mirrored =
      some entity.mirrored := by
  have hfind := find?_mirrorFirst features.symbol analysis.entities
  unfold matchedEntity at h
  rw [h] at hfind
  exact hfind

omit [IsStrictOrderedRing K] in
/-- The probability does not depend on the sign of the score. -/
theorem calibratedProbability_neg (score uncertainty : K) :
    calibratedProbability (-score) uncertainty = calibratedProbability score uncertainty := by
  rw [calibratedProbability, calibratedProbability, abs_neg]

/-- The thresholds lie alike on both sides of zero. -/
theorem action_neg (score probability : K) :
    action (-score) probability = (action score probability).mirror := by
  unfold action
  by_cases hlow : probability < 55 / 100
  · rw [if_pos hlow, if_pos hlow]
    rfl
  · rw [if_neg hlow, if_neg hlow]
    split_ifs <;> first | rfl | (exfalso; linarith)

/-- The confirmation is nothing only without a deviation of the volume. -/
theorem min_confirmation_eq_zero_iff {volume : K} : min (volume / 4) 1 = 0 ↔ volume = 0 := by
  constructor
  · intro hmin
    rcases le_total (volume / 4) 1 with hle | hle
    · rw [min_eq_left hle] at hmin
      linarith
    · rw [min_eq_right hle] at hmin
      exact absurd hmin one_ne_zero
  · rintro rfl
    simp

/-- **The edge.**  The mirror image has the opposite edge unless a volume that
deviates is confirmed at a return of zero. -/
theorem rawEdge_mirrored_iff (analysis : AIEventAnalysis K) (features : FeatureSnapshot K)
    (entity : EventEntity K) (symbol : String) :
    rawEdge (analysis.mirrored symbol) features.mirrored entity.mirrored =
        -rawEdge analysis features entity ↔
      features.ret15m ≠ 0 ∨ features.volumeZ30m = 0 := by
  have hedge : rawEdge analysis features entity =
      55 / 100 * (entity.impact * entity.confidence * analysis.novelty) +
        30 / 100 * (features.ret15m * 8 + features.sectorRelativeRet15m * 4) +
        15 / 100 * (min (features.volumeZ30m / 4) 1 * (if 0 ≤ features.ret15m then 1 else -1)) := rfl
  have hedge' : rawEdge (analysis.mirrored symbol) features.mirrored entity.mirrored =
      55 / 100 * (-entity.impact * entity.confidence * analysis.novelty) +
        30 / 100 * (-features.ret15m * 8 + -features.sectorRelativeRet15m * 4) +
        15 / 100 * (min (features.volumeZ30m / 4) 1 *
          (if 0 ≤ -features.ret15m then 1 else -1)) := rfl
  rw [← min_confirmation_eq_zero_iff, hedge, hedge']
  generalize min (features.volumeZ30m / 4) 1 = volume
  rcases lt_trichotomy features.ret15m 0 with hret | hret | hret
  · rw [if_neg (not_le.mpr hret), if_pos (neg_nonneg.mpr hret.le)]
    exact iff_of_true (by ring) (.inl hret.ne)
  · -- both images are confirmed as a rise
    rw [hret, neg_zero, if_pos le_rfl]
    constructor
    · intro hneg
      right
      linarith
    · rintro (hne | rfl)
      · exact absurd rfl hne
      · ring
  · rw [if_pos hret.le, if_neg (not_le.mpr (neg_lt_zero.mpr hret))]
    exact iff_of_true (by ring) (.inl hret.ne')

/-- What a call that returns has made of the edge. -/
theorem createCandidate_fused
    (h : createCandidate tanh signalId analysis features = .ok candidate) :
    ∃ entity, matchedEntity analysis features = some entity ∧
      candidate.score = tanh (rawEdge analysis features entity) ∧
      candidate.calibratedProbability =
        calibratedProbability candidate.score analysis.uncertainty ∧
      candidate.proposedAction = action candidate.score candidate.calibratedProbability := by
  unfold createCandidate at h
  split at h
  · cases h
  · rename_i entity hentity
    simp only at h
    split at h
    · cases h
    · obtain rfl := Except.ok.inj h
      exact ⟨entity, hentity, rfl, rfl, rfl⟩

/-- **Symmetry.**  The mirror image of an analysis and of features gives a
candidate, and this is the mirror image of the candidate if and only if the
return is not zero or the volume does not deviate. -/
theorem fusion_symmetric_iff (tanh : Squash K) (analysis : AIEventAnalysis K)
    (features : FeatureSnapshot K) (signalId' : Uuid)
    (h : createCandidate tanh signalId analysis features = .ok candidate) :
    ∃ candidate', createCandidate tanh signalId' (analysis.mirrored features.symbol)
        features.mirrored = .ok candidate' ∧
      (candidate'.Mirrors candidate ↔ features.ret15m ≠ 0 ∨ features.volumeZ30m = 0) := by
  obtain ⟨entity, hentity, hscore, hprobability, haction⟩ := createCandidate_fused h
  have hentity' := matchedEntity_mirrored hentity
  obtain ⟨candidate', h'⟩ : ∃ candidate', createCandidate tanh signalId'
      (analysis.mirrored features.symbol) features.mirrored = .ok candidate' := by
    have htime := (createCandidate_returns_iff.mp ⟨candidate, h⟩).2
    exact createCandidate_returns_iff.mpr ⟨⟨entity.mirrored, List.mem_of_find?_eq_some hentity',
      by simpa using List.find?_some hentity'⟩, htime⟩
  refine ⟨candidate', h', ?_⟩
  obtain ⟨found, hfound, hscore', hprobability', haction'⟩ := createCandidate_fused h'
  obtain rfl := Option.some.inj (hentity'.symm.trans hfound)
  rw [← rawEdge_mirrored_iff analysis features entity features.symbol]
  constructor
  · intro hmirrors
    apply tanh.strictMono.injective
    rw [tanh.odd, ← hscore, ← hscore', hmirrors.score_eq]
  · intro hedge
    have hneg : candidate'.score = -candidate.score := by
      rw [hscore', hscore, hedge, tanh.odd]
    have hsame : candidate'.calibratedProbability = candidate.calibratedProbability := by
      rw [hprobability', hprobability, hneg]
      exact calibratedProbability_neg _ _
    refine ⟨hneg, hsame, ?_⟩
    rw [haction', haction, hneg, hsame, action_neg]

end Mirror

section Sample

/-- A rise of a fifth, and its mirror image. -/
theorem fusion_symmetric_iff_rise :
    ∃ candidate candidate',
      createCandidate softsign 3 (testAnalysis (1 / 10) (by norm_num) ["source-1"])
        (testFeatures 4 0 30) = .ok candidate ∧
      createCandidate softsign 5 ((testAnalysis (1 / 10) (by norm_num) ["source-1"]).mirrored "ACME")
        (testFeatures 4 0 30).mirrored = .ok candidate' ∧
      candidate'.Mirrors candidate := by
  have hcall : createCandidate softsign 3 (testAnalysis (1 / 10) (by norm_num) ["source-1"])
      (testFeatures 4 0 30) = .ok _ := rfl
  obtain ⟨candidate', hcall', hmirrors⟩ := fusion_symmetric_iff softsign _ _ 5 hcall
  have hrise : (testFeatures 4 0 30).ret15m ≠ 0 := by norm_num [testFeatures]
  exact ⟨_, candidate', hcall, hcall', hmirrors.mpr (.inl hrise)⟩

theorem flat_bounds : (-1 : ℚ) ≤ 0 ∧ (0 : ℚ) ≤ 1 := by norm_num

/-- The same features without a price move. -/
def flatFeatures : FeatureSnapshot ℚ :=
  { testFeatures 4 0 30 with ret15m := 0, ret15m_bounds := flat_bounds }

/-- The volume is counted for a purchase in both images. -/
theorem fusion_asymmetric_flat :
    ∃ candidate candidate',
      createCandidate softsign 3 (testAnalysis (1 / 10) (by norm_num) ["source-1"])
        flatFeatures = .ok candidate ∧
      createCandidate softsign 5 ((testAnalysis (1 / 10) (by norm_num) ["source-1"]).mirrored "ACME")
        flatFeatures.mirrored = .ok candidate' ∧
      ¬candidate'.Mirrors candidate := by
  refine ⟨_, _, rfl, rfl, ?_⟩
  intro hmirrors
  exact absurd hmirrors.score_eq (by decide +kernel)

end Sample

end EventAlpha
