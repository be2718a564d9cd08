import Mathlib.Algebra.Order.Field.Rat
import Mathlib.Data.Finset.Card
import Mathlib.Data.Finset.Image
import Mathlib.Tactic.Linarith

/-!
# Event contracts

The records that cross the boundaries of the event pipeline: the normalised
source item (`RawEnvelope`), its mention inside an event, and the canonical
event itself.

Three conventions hold throughout.

* Timestamps are UTC instants.  The contracts reject naive timestamps and
  convert the others to UTC, and both the program and its database resolve
  microseconds, so an instant is an integer count of them.
* A UUID is its 128-bit integer.  The canonical text form is fixed-width
  lower-case hexadecimal, so comparing texts is comparing integers.
* The scores (`novelty`, `sourceIndependence`) are exact rationals.  The
  program only forms multiples of a quarter and ratios of token counts below
  a few hundred, where doubles compare as rationals do.  A credibility comes
  from outside and may be no number.
-/

namespace EventAlpha

/-- A UTC instant in microseconds. -/
abbrev UtcDatetime := Int

/-- A UUID as its integer value. -/
abbrev Uuid := Fin (2 ^ 128)

instance Uuid.neZero : NeZero (2 ^ 128) := ⟨by decide⟩

/-- The SHA-256 digest of a text, in hexadecimal.  Nothing is assumed of it. -/
class Digest where
  sha256 : String → String

/-- `value or fallback` on an optional text: absent and empty are both false. -/
def orElseText (value : Option String) (fallback : String) : String :=
  match value with
  | some text => if text = "" then fallback else text
  | none => fallback

/-- An optional text of at most the given number of characters. -/
def FitsWithin (width : ℕ) (text : Option String) : Prop :=
  ∀ value ∈ text, value.length ≤ width

instance (width : ℕ) (text : Option String) : Decidable (FitsWithin width text) := by
  unfold FitsWithin; infer_instance

/-- A double, as far as it is compared. -/
inductive PyFloat
  | finite (value : ℚ)
  | infinite (negative : Bool)
  | nan
  deriving DecidableEq

/-- `value < bound`, which is false of what is not a number. -/
def PyFloat.below (bound : ℚ) : PyFloat → Bool
  | finite value => value < bound
  | infinite negative => negative
  | nan => false

/-- `bound < value`, which is false of what is not a number. -/
def PyFloat.above (bound : ℚ) : PyFloat → Bool
  | finite value => bound < value
  | infinite negative => !negative
  | nan => false

/-- `value BETWEEN low AND high` of the database, where NaN is the greatest
value. -/
def PyFloat.between (low high : ℚ) : PyFloat → Bool
  | finite value => low ≤ value ∧ value ≤ high
  | infinite _ => false
  | nan => false

/-- What is neither below nor above is between, or is not a number. -/
theorem PyFloat.between_iff_ne_nan {low high : ℚ} {value : PyFloat}
    (hbelow : value.below low = false) (habove : value.above high = false) :
    value.between low high = true ↔ value ≠ .nan := by
  cases value with
  | finite value =>
      simp only [below, above, decide_eq_false_iff_not, not_lt] at hbelow habove
      simp [between, hbelow, habove]
  | infinite negative => cases negative <;> simp_all [below, above]
  | nan => simp [between]

/-- The credibility of a source that names none is accepted. -/
theorem PyFloat.half_accepted :
    (PyFloat.finite (1 / 2)).below 0 = false ∧ (PyFloat.finite (1 / 2)).above 1 = false := by
  constructor
  · norm_num [below]
  · norm_num [above]

/-- What the licence of a source lets the program keep. -/
inductive StoragePolicy
  | metadataAndDerivedOnly
  | licensedRawArchive
  deriving DecidableEq, Repr

/-- The stored text of a policy. -/
def StoragePolicy.value : StoragePolicy → String
  | metadataAndDerivedOnly => "metadata_and_derived_only"
  | licensedRawArchive => "licensed_raw_archive"

/-- The fields of a normalised source item, before validation. -/
structure RawEnvelopeFields where
  id : Uuid
  traceId : Uuid
  provider : String
  sourceId : String
  sourceType : String := "unspecified"
  sourceCredibilityPrior : PyFloat := .finite (1 / 2)
  nativeId : Option String := none
  eventTime : Option UtcDatetime := none
  publishedAt : Option UtcDatetime := none
  receivedAt : UtcDatetime
  processedAt : UtcDatetime
  title : String
  content : String
  url : String
  language : String
  category : String
  contentHash : String
  storagePolicy : StoragePolicy
  independenceGroup : Option String := none
  derivedAttributes : List (String × String) := []
  deriving DecidableEq

/-- The pattern `^[a-f0-9]{64}$` of a content hash. -/
def isHexDigest (text : String) : Bool :=
  text.toList.length = 64 && text.toList.all
    (fun c => ('a' ≤ c && c ≤ 'f') || ('0' ≤ c && c ≤ '9'))

/-- The field constraints of the `RawEnvelope` contract. -/
def RawEnvelopeFields.Accepted (fields : RawEnvelopeFields) : Prop :=
  (1 ≤ fields.sourceType.length ∧ fields.sourceType.length ≤ 100) ∧
  (fields.sourceCredibilityPrior.below 0 = false ∧
    fields.sourceCredibilityPrior.above 1 = false) ∧
  (1 ≤ fields.title.length ∧ fields.title.length ≤ 1000) ∧
  (1 ≤ fields.content.length ∧ fields.content.length ≤ 10000) ∧
  (1 ≤ fields.url.length ∧ fields.url.length ≤ 2000) ∧
  (2 ≤ fields.language.length ∧ fields.language.length ≤ 10) ∧
  (1 ≤ fields.category.length ∧ fields.category.length ≤ 100) ∧
  isHexDigest fields.contentHash = true

instance (fields : RawEnvelopeFields) : Decidable fields.Accepted := by
  unfold RawEnvelopeFields.Accepted; infer_instance

/-- A normalised source item with preserved availability timestamps. -/
structure RawEnvelope extends RawEnvelopeFields where
  accepted : toRawEnvelopeFields.Accepted
  deriving DecidableEq

/-- The contract's constructor: the validated envelope, or nothing. -/
def RawEnvelope.validate (fields : RawEnvelopeFields) : Option RawEnvelope :=
  if h : fields.Accepted then some ⟨fields, h⟩ else none

/-- One source item inside a canonical event. -/
structure EventMention where
  rawItemId : Uuid
  sourceId : String
  independenceGroup : String
  publishedAt : Option UtcDatetime
  receivedAt : UtcDatetime
  deriving DecidableEq

/-- One version of a canonical event. -/
structure CanonicalEvent where
  eventId : Uuid
  eventVersion : ℕ
  versionCreatedAt : UtcDatetime
  clusteringVersion : String
  canonicalTitle : String
  eventType : String
  eventTime : Option UtcDatetime
  firstReceivedAt : UtcDatetime
  lastUpdatedAt : UtcDatetime
  language : String
  novelty : ℚ
  sourceIndependence : ℚ
  mentions : List EventMention
  deriving DecidableEq

/-- The field constraints of the `CanonicalEvent` contract. -/
def CanonicalEvent.Accepted (event : CanonicalEvent) : Prop :=
  1 ≤ event.eventVersion ∧
  (1 ≤ event.clusteringVersion.length ∧ event.clusteringVersion.length ≤ 100) ∧
  (0 ≤ event.novelty ∧ event.novelty ≤ 1) ∧
  (0 ≤ event.sourceIndependence ∧ event.sourceIndependence ≤ 1)

instance (event : CanonicalEvent) : Decidable event.Accepted := by
  unfold CanonicalEvent.Accepted; infer_instance

/-- The event without its mentions: every field that is stored in one row. -/
def CanonicalEvent.scalars (event : CanonicalEvent) : CanonicalEvent :=
  { event with mentions := [] }

/-- The distinct independence groups among mentions. -/
def independenceGroups (mentions : List EventMention) : Finset String :=
  (mentions.map EventMention.independenceGroup).toFinset

/-- `min(1.0, 0.5 + 0.25 * (n - 1))` for `n` distinct groups. -/
def independenceScore (groups : Finset String) : ℚ :=
  min 1 (1 / 2 + 1 / 4 * ((groups.card : ℚ) - 1))

theorem independenceScore_bounds (groups : Finset String) :
    0 ≤ independenceScore groups ∧ independenceScore groups ≤ 1 := by
  have hcard : (0 : ℚ) ≤ groups.card := Nat.cast_nonneg _
  unfold independenceScore
  refine ⟨le_min zero_le_one ?_, min_le_left _ _⟩
  linarith

end EventAlpha
