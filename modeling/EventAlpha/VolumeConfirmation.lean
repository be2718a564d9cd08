import EventAlpha.RiskGate
import Mathlib.Tactic.Linarith

/-!
# Volume against the evidence

The volume of a symbol is meant to confirm what the event and the prices speak
for.  Its share of the edge is capped at 0.15 from above, but not from below: a
volume far under the average outweighs any evidence, and turns the sign of the
score.

`volume_keeps_direction_iff` says which volumes do not: those whose shortfall,
weighed as the fusion weighs it, is at most the evidence itself.
-/

namespace EventAlpha

section Direction

variable {K : Type*} [Field K] [LinearOrder K] [IsStrictOrderedRing K]

/-- The impact of the entity and both returns are at least zero. -/
def FavoursRise (features : FeatureSnapshot K) (entity : EventEntity K) : Prop :=
  0 ≤ entity.impact ∧ 0 ≤ features.ret15m ∧ 0 ≤ features.sectorRelativeRet15m

/-- The impact of the entity and both returns are below zero. -/
def FavoursFall (features : FeatureSnapshot K) (entity : EventEntity K) : Prop :=
  entity.impact < 0 ∧ features.ret15m < 0 ∧ features.sectorRelativeRet15m < 0

/-- What the event and the prices contribute to the edge: all of it, where the
volume is the average one. -/
def weighedEvidence (analysis : AIEventAnalysis K) (features : FeatureSnapshot K)
    (entity : EventEntity K) : K :=
  rawEdge analysis { features with volumeZ30m := 0 } entity

/-- The candidate goes where the evidence points, whatever the volume. -/
structure KeepsDirection (features : FeatureSnapshot K) (entity : EventEntity K)
    (candidate : SignalCandidate K) : Prop where
  rise : FavoursRise features entity → 0 ≤ candidate.score ∧
    candidate.proposedAction ≠ .sell ∧ candidate.proposedAction ≠ .strongSell
  fall : FavoursFall features entity → candidate.score ≤ 0 ∧
    candidate.proposedAction ≠ .buy ∧ candidate.proposedAction ≠ .strongBuy

variable {tanh : Squash K} {analysis : AIEventAnalysis K} {features : FeatureSnapshot K}
  {entity : EventEntity K} {candidate : SignalCandidate K} {signalId : Uuid}

/-- A squashed edge has the sign of the edge. -/
theorem Squash.nonneg_iff (tanh : Squash K) {x : K} : 0 ≤ tanh x ↔ 0 ≤ x := by
  have hzero : tanh 0 = 0 := by
    have hodd := tanh.odd 0
    rw [neg_zero] at hodd
    linarith
  have hmono : tanh 0 ≤ tanh x ↔ 0 ≤ x := tanh.strictMono.le_iff_le
  rwa [hzero] at hmono

theorem Squash.nonpos_iff (tanh : Squash K) {x : K} : tanh x ≤ 0 ↔ x ≤ 0 := by
  have hneg := tanh.nonneg_iff (x := -x)
  rw [tanh.odd] at hneg
  simpa using hneg

/-- A score on the selling side proposes no purchase. -/
theorem level_action_nonpos {score uncertainty : K} (hneg : score ≤ 0) :
    (action score (calibratedProbability score uncertainty)).level ≤ 0 := by
  have hmirror : 0 ≤ (action (-score) (calibratedProbability (-score) uncertainty)).level :=
    level_action_nonneg (neg_nonneg.mpr hneg)
  rw [level_action_neg] at hmirror
  omega

/-- The evidence is weighed without the volume. -/
theorem weighedEvidence_eq : weighedEvidence analysis features entity =
    55 / 100 * (entity.impact * entity.confidence * analysis.novelty) +
      30 / 100 * (features.ret15m * 8 + features.sectorRelativeRet15m * 4) := by
  unfold weighedEvidence rawEdge
  simp only [zero_div, min_eq_left zero_le_one, zero_mul, mul_zero, add_zero]

/-- Evidence for a rise and evidence for a fall have their signs. -/
theorem FavoursRise.weighedEvidence_nonneg (h : FavoursRise features entity) :
    0 ≤ weighedEvidence analysis features entity := by
  obtain ⟨himpact, hret, hsector⟩ := h
  have hevent : 0 ≤ entity.impact * entity.confidence * analysis.novelty :=
    mul_nonneg (mul_nonneg himpact entity.confidence_bounds.1) analysis.novelty_bounds.1
  rw [weighedEvidence_eq]
  linarith

theorem FavoursFall.weighedEvidence_neg (h : FavoursFall features entity) :
    weighedEvidence analysis features entity < 0 := by
  obtain ⟨himpact, hret, hsector⟩ := h
  have hevent : entity.impact * entity.confidence * analysis.novelty ≤ 0 :=
    mul_nonpos_of_nonpos_of_nonneg
      (mul_nonpos_of_nonpos_of_nonneg himpact.le entity.confidence_bounds.1)
      analysis.novelty_bounds.1
  rw [weighedEvidence_eq]
  linarith

/-- The confirmation is added to the evidence with the sign of the return. -/
theorem rawEdge_eq : rawEdge analysis features entity =
    weighedEvidence analysis features entity +
      15 / 100 * (min (features.volumeZ30m / 4) 1 * (if 0 ≤ features.ret15m then 1 else -1)) := by
  rw [weighedEvidence_eq]
  rfl

/-- With evidence for a rise, the edge is on the side of the evidence unless the
shortfall of the volume outweighs it. -/
theorem FavoursRise.rawEdge_nonneg_iff (h : FavoursRise features entity) :
    0 ≤ rawEdge analysis features entity ↔
      0 ≤ |weighedEvidence analysis features entity| + 15 / 100 * (features.volumeZ30m / 4) := by
  have hevidence : 0 ≤ weighedEvidence analysis features entity := h.weighedEvidence_nonneg
  rw [rawEdge_eq, if_pos h.2.1, mul_one, abs_of_nonneg hevidence]
  rcases le_total (features.volumeZ30m / 4) 1 with hle | hle
  · rw [min_eq_left hle]
  · -- a volume above the cap confirms, capped or not
    rw [min_eq_right hle]
    exact iff_of_true (by linarith) (by linarith)

theorem FavoursFall.rawEdge_nonpos_iff (h : FavoursFall features entity) :
    rawEdge analysis features entity ≤ 0 ↔
      0 ≤ |weighedEvidence analysis features entity| + 15 / 100 * (features.volumeZ30m / 4) := by
  have hevidence : weighedEvidence analysis features entity < 0 := h.weighedEvidence_neg
  rw [rawEdge_eq, if_neg (not_le.mpr h.2.1), abs_of_neg hevidence]
  rcases le_total (features.volumeZ30m / 4) 1 with hle | hle
  · rw [min_eq_left hle]
    constructor <;> intro hedge <;> linarith
  · rw [min_eq_right hle]
    exact iff_of_true (by linarith) (by linarith)

/-- The score has the sign of the edge, and the action that of the score. -/
theorem BuiltFrom.rise_iff (h : BuiltFrom tanh analysis features entity candidate) :
    (0 ≤ candidate.score ∧ candidate.proposedAction ≠ .sell ∧
      candidate.proposedAction ≠ .strongSell) ↔ 0 ≤ rawEdge analysis features entity := by
  rw [← tanh.nonneg_iff (x := rawEdge analysis features entity), ← h.score]
  refine ⟨And.left, ?_⟩
  intro hscore
  have hlevel : 0 ≤ candidate.proposedAction.level := by
    rw [h.proposed]
    exact level_action_nonneg hscore
  refine ⟨hscore, ?_, ?_⟩
  · intro hsell
    rw [hsell] at hlevel
    exact absurd hlevel (by decide)
  · intro hsell
    rw [hsell] at hlevel
    exact absurd hlevel (by decide)

theorem BuiltFrom.fall_iff (h : BuiltFrom tanh analysis features entity candidate) :
    (candidate.score ≤ 0 ∧ candidate.proposedAction ≠ .buy ∧
      candidate.proposedAction ≠ .strongBuy) ↔ rawEdge analysis features entity ≤ 0 := by
  rw [← tanh.nonpos_iff (x := rawEdge analysis features entity), ← h.score]
  refine ⟨And.left, ?_⟩
  intro hscore
  have hlevel : candidate.proposedAction.level ≤ 0 := by
    rw [h.proposed]
    exact level_action_nonpos hscore
  refine ⟨hscore, ?_, ?_⟩
  · intro hbuy
    rw [hbuy] at hlevel
    exact absurd hlevel (by decide)
  · intro hbuy
    rw [hbuy] at hlevel
    exact absurd hlevel (by decide)

/-- **Volume against the evidence.**  Where impact and returns are all at least
zero, or all below zero, a candidate goes where they point if and only if the
shortfall of the volume does not outweigh them. -/
theorem volume_keeps_direction_iff (hentity : matchedEntity analysis features = some entity)
    (h : createCandidate tanh signalId analysis features = .ok candidate) :
    KeepsDirection features entity candidate ↔
      (FavoursRise features entity ∨ FavoursFall features entity →
        0 ≤ |weighedEvidence analysis features entity| +
          15 / 100 * (features.volumeZ30m / 4)) := by
  obtain ⟨found, hbuilt⟩ := createCandidate_eq_ok h
  obtain rfl := Option.some.inj (hentity.symm.trans hbuilt.matched)
  constructor
  · intro hkeeps hor
    rcases hor with hrise | hfall
    · exact hrise.rawEdge_nonneg_iff.mp (hbuilt.rise_iff.mp (hkeeps.rise hrise))
    · exact hfall.rawEdge_nonpos_iff.mp (hbuilt.fall_iff.mp (hkeeps.fall hfall))
  · intro hvolume
    refine ⟨fun hrise => ?_, fun hfall => ?_⟩
    · exact hbuilt.rise_iff.mpr (hrise.rawEdge_nonneg_iff.mpr (hvolume (.inl hrise)))
    · exact hbuilt.fall_iff.mpr (hfall.rawEdge_nonpos_iff.mpr (hvolume (.inr hfall)))

end Direction

section Sample

theorem testEntity_bounds :
    (-1 ≤ (9 / 10 : ℚ) ∧ (9 / 10 : ℚ) ≤ 1) ∧ 0 ≤ (9 / 10 : ℚ) ∧ (9 / 10 : ℚ) ≤ 1 := by
  norm_num

/-- The entity of the test analysis. -/
def testEntity : EventEntity ℚ :=
  ⟨some "ACME", 9 / 10, 9 / 10, testEntity_bounds.1, testEntity_bounds.2⟩

/-- The features of a rise, with the given volume. -/
def featuresAtVolume (volumeZ30m : ℚ) : FeatureSnapshot ℚ :=
  { testFeatures 4 0 30 with volumeZ30m := volumeZ30m }

theorem favoursRise_test (volumeZ30m : ℚ) :
    FavoursRise (featuresAtVolume volumeZ30m) testEntity := by
  norm_num [FavoursRise, featuresAtVolume, testFeatures, testEntity]

/-- A volume under the average, which the evidence outweighs. -/
theorem volume_keeps_direction_iff_below :
    ∃ candidate,
      createCandidate softsign 3 (testAnalysis (1 / 10) (by norm_num) ["source-1"])
        (featuresAtVolume (-8)) = .ok candidate ∧
      FavoursRise (featuresAtVolume (-8)) testEntity ∧
      KeepsDirection (featuresAtVolume (-8)) testEntity candidate := by
  have hcall : createCandidate softsign 3 (testAnalysis (1 / 10) (by norm_num) ["source-1"])
      (featuresAtVolume (-8)) = .ok _ := rfl
  have hentity : matchedEntity (testAnalysis (1 / 10) (by norm_num) ["source-1"])
      (featuresAtVolume (-8)) = some testEntity := rfl
  refine ⟨_, hcall, favoursRise_test (-8), ?_⟩
  refine (volume_keeps_direction_iff hentity hcall).mpr ?_
  intro _
  decide +kernel

/-- A volume far under the average turns a purchase into a sale. -/
theorem evidence_reversed_by_volume :
    ∃ candidate,
      matchedEntity (testAnalysis (1 / 10) (by norm_num) ["source-1"]) (featuresAtVolume (-100)) =
        some testEntity ∧
      createCandidate softsign 3 (testAnalysis (1 / 10) (by norm_num) ["source-1"])
        (featuresAtVolume (-100)) = .ok candidate ∧
      FavoursRise (featuresAtVolume (-100)) testEntity ∧
      candidate.proposedAction = .strongSell ∧
      ¬KeepsDirection (featuresAtVolume (-100)) testEntity candidate := by
  refine ⟨_, rfl, rfl, favoursRise_test (-100), by decide +kernel, ?_⟩
  intro hkeeps
  exact absurd (hkeeps.rise (favoursRise_test (-100))).1 (by decide +kernel)

end Sample

end EventAlpha
