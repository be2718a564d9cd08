import EventAlpha.FloatRounding
import EventAlpha.MarketDataService
import EventAlpha.ProviderHistory
import Mathlib.Data.Rat.Floor

/-!
# The health of a provider

`health` reports the status of a provider, and is meant to lower it where the
data are old.  A service that does not read the provider reports the stored
state of it; one that does reports what the provider says of itself.

A report is `Honest` if it is no better than what it is made from, is healthy
only for data of a known age of at most 15 seconds, and does not improve with
age.  `health_honest_iff` names the two inputs for which it is not.

An age is a difference of instants in microseconds; its milliseconds are computed
with floating point numbers, which are modelled here.
-/

namespace EventAlpha

open FloatRounding

section Ages

/-- `int(delta.total_seconds() * 1000)` of a difference in microseconds. -/
def ageMs (microseconds : Int) : Int :=
  let totalSeconds := rounded 53 ((microseconds : ℚ) / 10 ^ 6)
  truncated (rounded 53 (totalSeconds * 1000))

/-- An older message has as many milliseconds at least. -/
theorem ageMs_mono {older newer : Int} (h : newer ≤ older) : ageMs newer ≤ ageMs older := by
  have hcast : (newer : ℚ) / 10 ^ 6 ≤ (older : ℚ) / 10 ^ 6 :=
    div_le_div_of_nonneg_right (by exact_mod_cast h) (by norm_num)
  have hseconds := rounded_mono (p := 53) (by norm_num) hcast
  exact truncated_mono (rounded_mono (by norm_num)
    (mul_le_mul_of_nonneg_right hseconds (by norm_num)))

theorem ageMs_nonneg {microseconds : Int} (h : 0 ≤ microseconds) : 0 ≤ ageMs microseconds := by
  have hcast : (0 : ℚ) ≤ (microseconds : ℚ) / 10 ^ 6 :=
    div_nonneg (by exact_mod_cast h) (by norm_num)
  exact truncated_nonneg (rounded_nonneg (mul_nonneg (rounded_nonneg hcast) (by norm_num)))

/-- An age of 0 to 15 000 milliseconds is one of less than a millisecond before
and less than 15 001 milliseconds after the clock. -/
theorem microseconds_of_ageMs {microseconds : Int} (hnonneg : 0 ≤ ageMs microseconds)
    (hfresh : ageMs microseconds ≤ 15000) : -1000 < microseconds ∧ microseconds < 15001000 := by
  have hahead : ageMs (-1000) = -1 := by decide +kernel
  have hstale : ageMs 15001000 = 15001 := by decide +kernel
  constructor
  · by_contra hle
    have := ageMs_mono (not_lt.mp hle)
    omega
  · by_contra hle
    have := ageMs_mono (not_lt.mp hle)
    omega

end Ages

section Model

/-- `ProviderHealth`. -/
structure ProviderHealth where
  name : String
  status : ProviderStatus
  lastMessageAt : Option UtcDatetime
  freshnessMs : Option ℕ
  detail : Option String
  deriving DecidableEq

/-- What a report is made from: the stored state of a provider, if there is one,
or what the provider reports. -/
inductive HealthSource
  | stored (state : Option StoredMarketProviderState)
  | reported (health : ProviderHealth)

/-- The status of a state that has no fresh message. -/
def ProviderStatus.staled : ProviderStatus → ProviderStatus
  | unavailable => unavailable
  | _ => degraded

/-- The report of `health`, by a service for this provider at this time. -/
def HealthSource.health (providerName : String) (now : UtcDatetime) :
    HealthSource → ProviderHealth
  | stored none =>
      { name := providerName
        status := .unavailable
        lastMessageAt := none
        freshnessMs := none
        detail := some "No durable provider heartbeat is available." }
  | stored (some state) =>
      match state.lastMessageReceivedAt with
      | none =>
          { name := state.providerId
            status := state.status.staled
            lastMessageAt := none
            freshnessMs := none
            detail := state.detail }
      | some last =>
          let age := ageMs (now - last)
          -- a message from the future is reported without a look at the status
          if age < 0 then
            { name := state.providerId
              status := .degraded
              lastMessageAt := some last
              freshnessMs := some 0
              detail := some "Provider receipt timestamp is ahead of the service clock." }
          else
            { name := state.providerId
              status := if 15000 < age then state.status.staled else state.status
              lastMessageAt := some last
              freshnessMs := some age.toNat
              detail := state.detail }
  | reported health =>
      match health.freshnessMs with
      | none => health
      | some freshness =>
          if 15000 < freshness ∧ health.status = .healthy then
            { health with status := .degraded }
          else health

/-- What `health` makes its report from: the stored state is read if the service
has a store and does not read the provider. -/
def MarketConfig.healthSource (config : MarketConfig) (persistence : Option MarketDb)
    (provider : UtcDatetime → ProviderHealth) (now : UtcDatetime) : Option HealthSource :=
  match persistence, config.providerReadsEnabled with
  | some db, false => (db.providerState config.providerName).map .stored
  | _, _ => some (.reported (provider now))

/-- `health`, at the time the clock shows. -/
def MarketConfig.health (config : MarketConfig) (persistence : Option MarketDb)
    (provider : UtcDatetime → ProviderHealth) (now : UtcDatetime) : Option ProviderHealth :=
  (config.healthSource persistence provider now).map (fun source =>
    source.health config.providerName now)

end Model

section Honesty

/-- How good a status is. -/
def ProviderStatus.rank : ProviderStatus → ℕ
  | healthy => 2
  | degraded => 1
  | unavailable => 0

/-- The status a report is made from. -/
def HealthSource.underlying : HealthSource → Option ProviderStatus
  | stored state => state.map StoredMarketProviderState.status
  | reported health => some health.status

/-- The age of the last message in milliseconds, if it is known. -/
def HealthSource.ageMs? (now : UtcDatetime) : HealthSource → Option Int
  | stored state =>
      (state.bind StoredMarketProviderState.lastMessageReceivedAt).map (fun last =>
        ageMs (now - last))
  | reported health => health.freshnessMs.map Int.ofNat

/-- The age, which is not negative, has grown, and nothing else has changed. -/
inductive HealthSource.Ages (now later : UtcDatetime) : HealthSource → HealthSource → Prop
  | stored (state : StoredMarketProviderState) (last last' : UtcDatetime)
      (hstate : state.lastMessageReceivedAt = some last) (hnonneg : 0 ≤ now - last)
      (hgrows : now - last ≤ later - last') :
      Ages now later (.stored (some state))
        (.stored (some { state with lastMessageReceivedAt := some last' }))
  | reported (health : ProviderHealth) (freshness freshness' : ℕ)
      (hhealth : health.freshnessMs = some freshness) (hgrows : freshness ≤ freshness') :
      Ages now later (.reported health)
        (.reported { health with freshnessMs := some freshness' })

/-- A report that is no better than it should be. -/
structure HealthSource.Honest (providerName : String) (now : UtcDatetime)
    (source : HealthSource) : Prop where
  not_better : ∀ status ∈ source.underlying,
    (source.health providerName now).status.rank ≤ status.rank
  healthy_fresh : (source.health providerName now).status = .healthy →
    ∃ age, source.ageMs? now = some age ∧ 0 ≤ age ∧ age ≤ 15000
  ages : ∀ later source', HealthSource.Ages now later source source' →
    (source'.health providerName later).status.rank ≤
      (source.health providerName now).status.rank

/-- What a report hides: the message of a provider that is unavailable comes from
the future, or a provider calls itself healthy without an age. -/
def HealthSource.Hides (now : UtcDatetime) : HealthSource → Prop
  | stored none => False
  | stored (some state) => state.status = .unavailable ∧
      ∃ last, state.lastMessageReceivedAt = some last ∧ ageMs (now - last) < 0
  | reported health => health.status = .healthy ∧ health.freshnessMs = none

variable {providerName : String} {now later : UtcDatetime} {source source' : HealthSource}

theorem ProviderStatus.rank_staled_le (status : ProviderStatus) :
    status.staled.rank ≤ status.rank := by
  cases status <;> decide

theorem ProviderStatus.staled_ne_healthy (status : ProviderStatus) : status.staled ≠ .healthy := by
  cases status <;> decide

theorem ProviderStatus.rank_le_of_ne_unavailable {status : ProviderStatus}
    (h : status ≠ .unavailable) : degraded.rank ≤ status.rank := by
  cases status with
  | healthy => decide
  | degraded => decide
  | unavailable => exact absurd rfl h

/-- The status that is reported of a stored state with a message. -/
theorem HealthSource.status_stored {state : StoredMarketProviderState} {last : UtcDatetime}
    (h : state.lastMessageReceivedAt = some last) :
    ((stored (some state)).health providerName now).status =
      if ageMs (now - last) < 0 then .degraded
      else if 15000 < ageMs (now - last) then state.status.staled else state.status := by
  simp only [health, h]
  split <;> rfl

theorem HealthSource.status_stored_none {state : StoredMarketProviderState}
    (h : state.lastMessageReceivedAt = none) :
    ((stored (some state)).health providerName now).status = state.status.staled := by
  simp only [health, h]

/-- The status that is reported from a report. -/
theorem HealthSource.status_reported {report : ProviderHealth} {freshness : ℕ}
    (h : report.freshnessMs = some freshness) :
    ((reported report).health providerName now).status =
      if 15000 < freshness ∧ report.status = .healthy then .degraded else report.status := by
  simp only [health, h]
  split <;> rfl

theorem HealthSource.health_reported_none {report : ProviderHealth}
    (h : report.freshnessMs = none) : (reported report).health providerName now = report := by
  simp only [health, h]

/-- **No better.**  Only a message from the future raises a status. -/
theorem HealthSource.rank_le (h : ¬source.Hides now) :
    ∀ status ∈ source.underlying, (source.health providerName now).status.rank ≤ status.rank := by
  rintro status hstatus
  cases source with
  | stored found =>
      cases found with
      | none => cases hstatus
      | some state =>
          obtain rfl := Option.some.inj hstatus
          cases hlast : state.lastMessageReceivedAt with
          | none =>
              rw [status_stored_none hlast]
              exact state.status.rank_staled_le
          | some last =>
              rw [status_stored hlast]
              split
              · rename_i hahead
                apply ProviderStatus.rank_le_of_ne_unavailable
                intro hunavailable
                exact h ⟨hunavailable, last, hlast, hahead⟩
              · split
                · exact state.status.rank_staled_le
                · exact le_refl _
  | reported report =>
      obtain rfl := Option.some.inj hstatus
      cases hfreshness : report.freshnessMs with
      | none => rw [health_reported_none hfreshness]
      | some freshness =>
          rw [status_reported hfreshness]
          split
          · rename_i hstale
            rw [hstale.2]
            decide
          · exact le_refl _

/-- **Healthy.**  Only a provider that says so without an age is reported
healthy without one. -/
theorem HealthSource.fresh_of_healthy (h : ¬source.Hides now)
    (hhealthy : (source.health providerName now).status = .healthy) :
    ∃ age, source.ageMs? now = some age ∧ 0 ≤ age ∧ age ≤ 15000 := by
  cases source with
  | stored found =>
      cases found with
      | none => cases hhealthy
      | some state =>
          cases hlast : state.lastMessageReceivedAt with
          | none =>
              rw [status_stored_none hlast] at hhealthy
              exact absurd hhealthy state.status.staled_ne_healthy
          | some last =>
              rw [status_stored hlast] at hhealthy
              split at hhealthy
              · cases hhealthy
              · rename_i hbehind
                split at hhealthy
                · exact absurd hhealthy state.status.staled_ne_healthy
                · rename_i hfresh
                  refine ⟨ageMs (now - last), ?_, by omega, by omega⟩
                  simp [ageMs?, hlast]
  | reported report =>
      cases hfreshness : report.freshnessMs with
      | none =>
          rw [health_reported_none hfreshness] at hhealthy
          exact absurd ⟨hhealthy, hfreshness⟩ h
      | some freshness =>
          rw [status_reported hfreshness] at hhealthy
          split at hhealthy
          · cases hhealthy
          · rename_i hfresh
            refine ⟨freshness, by simp [ageMs?, hfreshness], by omega, ?_⟩
            by_contra hstale
            exact hfresh ⟨by omega, hhealthy⟩

/-- A stored state is reported healthy only with a message of less than 15 001
milliseconds ago, or of less than one ahead. -/
theorem HealthSource.within_of_healthy {state : StoredMarketProviderState}
    (h : ((stored (some state)).health providerName now).status = .healthy) :
    ∃ last, state.lastMessageReceivedAt = some last ∧ -1000 < now - last ∧
      now - last < 15001000 := by
  have hshown : ¬(stored (some state)).Hides now := by
    rintro ⟨hunavailable, last, hlast, hahead⟩
    rw [status_stored hlast, if_pos hahead] at h
    cases h
  obtain ⟨age, hage, hnonneg, hfresh⟩ := fresh_of_healthy hshown h
  obtain ⟨last, hlast, rfl⟩ := Option.map_eq_some_iff.mp hage
  exact ⟨last, hlast, microseconds_of_ageMs hnonneg hfresh⟩

/-- **Older.**  Age improves no status. -/
theorem HealthSource.rank_le_of_ages (h : Ages now later source source') :
    (source'.health providerName later).status.rank ≤
      (source.health providerName now).status.rank := by
  cases h with
  | stored state last last' hstate hnonneg hgrows =>
      have holder := ageMs_mono hgrows
      have hbehind : ¬ageMs (now - last) < 0 := not_lt.mpr (ageMs_nonneg hnonneg)
      have hbehind' : ¬ageMs (later - last') < 0 :=
        not_lt.mpr ((ageMs_nonneg hnonneg).trans holder)
      rw [status_stored hstate, status_stored rfl, if_neg hbehind, if_neg hbehind']
      by_cases hstale : 15000 < ageMs (now - last)
      · have hstale' : 15000 < ageMs (later - last') := lt_of_lt_of_le hstale holder
        rw [if_pos hstale, if_pos hstale']
      · rw [if_neg hstale]
        split
        · exact state.status.rank_staled_le
        · exact le_refl _
  | reported report freshness freshness' hreport hgrows =>
      rw [status_reported hreport, status_reported rfl]
      by_cases hstale : 15000 < freshness ∧ report.status = .healthy
      · rw [if_pos hstale, if_pos ⟨by omega, hstale.2⟩]
      · rw [if_neg hstale]
        split
        · rename_i holder
          show _ ≤ report.status.rank
          rw [holder.2]
          decide
        · exact le_refl _

/-- **Health.**  A report is honest if and only if it is not made from the state
of an unavailable provider whose last message is ahead of the clock, nor from a
report that is healthy without an age. -/
theorem health_honest_iff (providerName : String) (now : UtcDatetime) (source : HealthSource) :
    source.Honest providerName now ↔ ¬source.Hides now := by
  constructor
  · rintro hhonest hhides
    cases source with
    | stored found =>
        cases found with
        | none => exact hhides
        | some state =>
            obtain ⟨hunavailable, last, hlast, hahead⟩ := hhides
            have hrank := hhonest.not_better state.status rfl
            rw [HealthSource.status_stored hlast, if_pos hahead, hunavailable] at hrank
            exact absurd hrank (by decide)
    | reported report =>
        obtain ⟨hhealthy, hfreshness⟩ := hhides
        obtain ⟨age, hage, -⟩ := hhonest.healthy_fresh (by
          rw [HealthSource.health_reported_none hfreshness, hhealthy])
        rw [HealthSource.ageMs?, hfreshness] at hage
        cases hage
  · intro hshown
    exact ⟨HealthSource.rank_le hshown, HealthSource.fresh_of_healthy hshown,
      fun _ _ => HealthSource.rank_le_of_ages⟩

/-- The state of a provider that was given up, with a message from a clock that
is a minute ahead. -/
def aheadState : StoredMarketProviderState where
  providerId := "fixture-market"
  heartbeatAt := 0
  lastMessageReceivedAt := some 60000000
  lastSuccessAt := none
  lastFailureAt := some 0
  consecutiveFailures := 1
  reconnectCount := 0
  status := .unavailable
  detail := some "TimeoutError"

/-- A failure that exhausts the retries stores that state, and the provider is
reported degraded. -/
theorem unavailable_reported_degraded :
    ((MarketDb.empty.recordFailure "fixture-market" 0 "TimeoutError" true (some 60000000)).bind
      (fun db => db.providerState "fixture-market")) = some (some aheadState) ∧
    ((HealthSource.stored (some aheadState)).health "fixture-market" 0).status = .degraded ∧
    ¬(HealthSource.stored (some aheadState)).Honest "fixture-market" 0 := by
  have hdegraded : ((HealthSource.stored (some aheadState)).health "fixture-market" 0).status =
      .degraded := by
    decide +kernel
  refine ⟨by decide +kernel, hdegraded, ?_⟩
  intro hhonest
  have hrank := hhonest.not_better .unavailable rfl
  rw [hdegraded] at hrank
  exact absurd hrank (by decide)

end Honesty

end EventAlpha
