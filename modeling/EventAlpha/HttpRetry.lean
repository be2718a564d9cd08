import Mathlib.Algebra.Order.Field.Rat
import Mathlib.Data.List.Basic
import Mathlib.Data.String.Basic
import Mathlib.Tactic.Linarith
import Mathlib.Tactic.NormNum
import Mathlib.Tactic.Positivity

/-!
# Requests with retries

`_get_with_retry` sends a request up to three times.  The transport is the
sequence of outcomes it would answer with, one for each request that is sent.

The delay before the next request may come from the `Retry-After` header of a
response, which is parsed in the handler of the exception.  `str.isdigit`
accepts digits that `float` does not, superscripts for instance, and then the
parser's own exception leaves the loop.  `retry_protocol_iff` says that nothing
else goes wrong.
-/

namespace EventAlpha

/-- The digits of the string type.  Only their ASCII part is stable across
Unicode versions; a digit that counts in a number counts as a digit. -/
class DigitTables where
  isdigit : Char → Bool
  decimal : Char → Option ℕ
  isdigit_ascii : ∀ c : Char, c.toNat < 128 → isdigit c = c.isDigit
  decimal_ascii : ∀ c : Char, c.toNat < 128 →
    decimal c = if c.isDigit then some (c.toNat - '0'.toNat) else none
  isdigit_of_decimal : ∀ (c : Char) (digit : ℕ), decimal c = some digit → isdigit c = true

section Model

/-- A response, as far as the loop looks at it. -/
structure HttpResponse where
  statusCode : ℕ
  headers : List (String × String)
  deriving DecidableEq

variable {ε : Type*}

/-- What comes of a request: a response, or an exception of one of the classes
the loop tells apart. -/
inductive HttpOutcome (ε : Type*)
  | responds (response : HttpResponse)
  | timesOut (error : ε)
  | networkFails (error : ε)
  | fails (error : ε)

/-- What leaves `_get_with_retry` as an exception. -/
inductive HttpError (ε : Type*)
  | httpStatus (response : HttpResponse)
  | transport (error : ε)
  | valueError
  | runtimeError (message : String)

/-- What the loop does, in its order. -/
inductive HttpEvent
  | request
  | sleep (delay : ℚ)
  deriving DecidableEq

/-- A call with what it did and how it ended. -/
structure HttpExchange (ε : Type*) where
  trace : List HttpEvent
  result : Except (HttpError ε) HttpResponse

/-- `RETRYABLE_STATUS_CODES`. -/
def retryableStatusCodes : List ℕ := [429, 500, 502, 503, 504]

/-- `MAX_HTTP_ATTEMPTS`. -/
def maxHttpAttempts : ℕ := 3

/-- `raise_for_status` returns. -/
def HttpResponse.isSuccess (response : HttpResponse) : Bool :=
  200 ≤ response.statusCode && response.statusCode < 300

/-- `headers.get(name, "")`: the names are compared without regard to case, and
several values are joined. -/
def HttpResponse.header (response : HttpResponse) (name : String) : String :=
  ", ".intercalate ((response.headers.filter (fun header =>
    header.1.map Char.toLower = name.map Char.toLower)).map Prod.snd)

/-- What the loop does after an outcome. -/
inductive HttpTurn (ε : Type*)
  | ends (result : Except (HttpError ε) HttpResponse)
  | sleeps (delay : ℚ)

variable [DigitTables]

/-- `str.isdigit()`. -/
def isdigit (text : String) : Bool :=
  text ≠ "" && text.toList.all DigitTables.isdigit

/-- `float` of a text of digits.  Of a number of at least 2 only that matters
here, so it is not rounded. -/
def floatOfDigits (text : String) : Option ℕ :=
  (text.toList.mapM DigitTables.decimal).map
    (fun digits => digits.foldl (fun number digit => 10 * number + digit) 0)

omit [DigitTables] in
/-- The delay without a header. -/
def backoffDelay (attempt : ℕ) : ℚ := 5 / 100 * 2 ^ attempt

/-- The delay after a response, or none if `float` raises. -/
def retryDelay (attempt : ℕ) (retryAfter : String) : Option ℚ :=
  if isdigit retryAfter then (floatOfDigits retryAfter).map (fun delay => min (delay : ℚ) 2)
  else some (backoffDelay attempt)

/-- One turn of the loop, up to its `sleep`. -/
def httpTurn (attempt : ℕ) : HttpOutcome ε → HttpTurn ε
  | .responds response =>
      if response.isSuccess then .ends (.ok response)
      else if response.statusCode ∉ retryableStatusCodes ∨ attempt = maxHttpAttempts - 1 then
        .ends (.error (.httpStatus response))
      else
        match retryDelay attempt (response.header "Retry-After") with
        | none => .ends (.error .valueError)
        | some delay => .sleeps delay
  | .timesOut error | .networkFails error =>
      if attempt = maxHttpAttempts - 1 then .ends (.error (.transport error))
      else .sleeps (backoffDelay attempt)
  | .fails error => .ends (.error (.transport error))

/-- The loop, from an attempt on. -/
def retryFrom (outcomes : ℕ → HttpOutcome ε) (attempt : ℕ) : ℕ → HttpExchange ε
  | 0 => ⟨[], .error
      (.runtimeError "HTTP retry loop exhausted without returning or raising")⟩
  | remaining + 1 =>
      match httpTurn attempt (outcomes attempt) with
      | .ends result => ⟨[.request], result⟩
      | .sleeps delay =>
          let rest := retryFrom outcomes (attempt + 1) remaining
          ⟨.request :: .sleep delay :: rest.trace, rest.result⟩

/-- `_get_with_retry`. -/
def getWithRetry (outcomes : ℕ → HttpOutcome ε) : HttpExchange ε :=
  retryFrom outcomes 0 maxHttpAttempts

end Model

section Protocol

variable {ε : Type*}

/-- An outcome after which another request is worth a try. -/
def HttpOutcome.Retryable : HttpOutcome ε → Prop
  | responds response => response.statusCode ∈ retryableStatusCodes
  | timesOut _ => True
  | networkFails _ => True
  | fails _ => False

/-- What a caller is to see of an outcome. -/
def HttpOutcome.result : HttpOutcome ε → Except (HttpError ε) HttpResponse
  | responds response =>
      if response.isSuccess then .ok response else .error (.httpStatus response)
  | timesOut error => .error (.transport error)
  | networkFails error => .error (.transport error)
  | fails error => .error (.transport error)

/-- One request, and another one after each of the delays. -/
def requestsAfter (delays : List ℚ) : List HttpEvent :=
  .request :: delays.flatMap (fun delay => [.sleep delay, .request])

/-- The protocol: at most three requests, another one exactly after a retryable
outcome of the first or the second, each after a wait of at most two seconds; and
the outcome of the last is what the caller sees. -/
structure FollowsProtocol (outcomes : ℕ → HttpOutcome ε) (exchange : HttpExchange ε)
    (delays : List ℚ) : Prop where
  trace_eq : exchange.trace = requestsAfter delays
  at_most : delays.length + 1 ≤ 3
  again_iff : ∀ k < delays.length + 1,
    k + 1 < delays.length + 1 ↔ (outcomes k).Retryable ∧ k + 1 < 3
  waits : ∀ delay ∈ delays, 0 ≤ delay ∧ delay ≤ 2
  result_eq : exchange.result = (outcomes delays.length).result

variable [DigitTables]

/-- A response that is to be retried and whose `Retry-After` consists of digits,
not all of which count in a number. -/
def HttpOutcome.Unreadable : HttpOutcome ε → Prop
  | responds response => response.statusCode ∈ retryableStatusCodes ∧
      isdigit (response.header "Retry-After") = true ∧
      ∃ c ∈ (response.header "Retry-After").toList, DigitTables.decimal c = none
  | _ => False

/-- How the loop ends with an outcome that leaves so many attempts. -/
inductive Ending (outcome : HttpOutcome ε) (remaining : ℕ)
    (result : Except (HttpError ε) HttpResponse) : Prop
  | regular (hresult : result = outcome.result) (hlast : ¬(outcome.Retryable ∧ 0 < remaining))
  | unreadable (hresult : result = .error .valueError) (hremaining : 0 < remaining)
      (hunreadable : outcome.Unreadable)

end Protocol

section Loop

variable {ε : Type*} [DigitTables] {attempt remaining : ℕ} {response : HttpResponse}

/-- `float` reads a text of digits if each of them counts in a number. -/
theorem floatOfDigits_eq_none_iff {text : String} :
    floatOfDigits text = none ↔ ∃ c ∈ text.toList, DigitTables.decimal c = none := by
  rw [floatOfDigits, Option.map_eq_none_iff]
  induction text.toList with
  | nil => simp
  | cons c characters ih =>
      rw [List.mapM_cons]
      cases hdigit : DigitTables.decimal c with
      | none => simp [hdigit]
      | some digit =>
          simp only [List.mem_cons, exists_eq_or_imp, hdigit, reduceCtorEq, false_or, ← ih]
          cases characters.mapM DigitTables.decimal <;> simp

omit [DigitTables] in
/-- The delays of the first two attempts are short. -/
theorem backoffDelay_bounds (h : attempt + remaining + 1 = maxHttpAttempts) :
    0 ≤ backoffDelay attempt ∧ backoffDelay attempt ≤ 2 := by
  have hattempt : attempt ≤ 2 := by
    rw [maxHttpAttempts] at h
    omega
  have hpow : (2 : ℚ) ^ attempt ≤ 2 ^ 2 := pow_le_pow_right₀ one_le_two hattempt
  unfold backoffDelay
  constructor
  · positivity
  · linarith

/-- A delay is short, and there is none only for a text `float` rejects. -/
theorem retryDelay_spec (h : attempt + remaining + 1 = maxHttpAttempts) (retryAfter : String) :
    (retryDelay attempt retryAfter = none ∧ isdigit retryAfter = true ∧
        ∃ c ∈ retryAfter.toList, DigitTables.decimal c = none) ∨
      ∃ delay, retryDelay attempt retryAfter = some delay ∧ (0 ≤ delay ∧ delay ≤ 2) ∧
        ¬(isdigit retryAfter = true ∧ ∃ c ∈ retryAfter.toList, DigitTables.decimal c = none) := by
  unfold retryDelay
  by_cases hdigits : isdigit retryAfter = true
  · rw [if_pos hdigits, ← floatOfDigits_eq_none_iff]
    cases floatOfDigits retryAfter with
    | none => exact .inl ⟨rfl, hdigits, rfl⟩
    | some delay =>
        refine .inr ⟨_, rfl, ⟨?_, min_le_right _ _⟩, fun hand => absurd hand.2 (by simp)⟩
        exact le_min (Nat.cast_nonneg delay) zero_le_two
  · rw [if_neg hdigits]
    exact .inr ⟨_, rfl, backoffDelay_bounds h, fun hand => hdigits hand.1⟩

omit [DigitTables] in
/-- No status that is to be retried is one of success. -/
theorem not_isSuccess_of_retryable (h : response.statusCode ∈ retryableStatusCodes) :
    response.isSuccess = false := by
  simp only [retryableStatusCodes, List.mem_cons, List.not_mem_nil, or_false] at h
  rcases h with h | h | h | h | h <;> simp [HttpResponse.isSuccess, h]

/-- **One turn.**  It ends the loop, or waits after a retryable outcome. -/
theorem httpTurn_spec (attempt remaining : ℕ) (outcome : HttpOutcome ε)
    (h : attempt + remaining + 1 = maxHttpAttempts) :
    (∃ result, httpTurn attempt outcome = .ends result ∧ Ending outcome remaining result) ∨
      ∃ delay, httpTurn attempt outcome = .sleeps delay ∧ (0 ≤ delay ∧ delay ≤ 2) ∧
        outcome.Retryable ∧ ¬outcome.Unreadable ∧ 0 < remaining := by
  have hlast : attempt = maxHttpAttempts - 1 ↔ ¬0 < remaining := by
    rw [← h]
    omega
  cases outcome with
  | responds response =>
      by_cases hretryable : response.statusCode ∈ retryableStatusCodes
      · have hfailed := not_isSuccess_of_retryable hretryable
        by_cases hremaining : 0 < remaining
        · have hloop : ¬(response.statusCode ∉ retryableStatusCodes ∨
              attempt = maxHttpAttempts - 1) := by
            rw [hlast]
            tauto
          rcases retryDelay_spec h (response.header "Retry-After") with
            ⟨hdelay, hunreadable⟩ | ⟨delay, hdelay, hbounds, hreadable⟩
          · refine .inl ⟨_, ?_, .unreadable rfl hremaining ⟨hretryable, hunreadable⟩⟩
            simp only [httpTurn, hfailed, if_neg hloop, hdelay]
            rfl
          · refine .inr ⟨delay, ?_, hbounds, hretryable, fun hand => hreadable hand.2, hremaining⟩
            simp only [httpTurn, hfailed, if_neg hloop, hdelay]
            rfl
        · refine .inl ⟨_, ?_, .regular rfl (fun hand => hremaining hand.2)⟩
          simp only [httpTurn, HttpOutcome.result, hfailed, hlast.mpr hremaining, or_true, if_true]
          rfl
      · refine .inl ⟨_, ?_, .regular rfl (fun hand => hretryable hand.1)⟩
        simp only [httpTurn, HttpOutcome.result, hretryable, not_false_eq_true, true_or, if_true]
        cases response.isSuccess <;> rfl
  | timesOut error | networkFails error =>
      by_cases hremaining : 0 < remaining
      · refine .inr ⟨_, if_neg ?_, backoffDelay_bounds h, trivial, id, hremaining⟩
        exact fun heq => hlast.mp heq hremaining
      · exact .inl ⟨_, if_pos (hlast.mpr hremaining), .regular rfl (fun hand => hremaining hand.2)⟩
  | fails error => exact .inl ⟨_, rfl, .regular rfl And.left⟩

/-- **The loop.**  It waits after retryable outcomes until one ends it. -/
theorem retryFrom_spec (outcomes : ℕ → HttpOutcome ε) (attempt remaining : ℕ)
    (h : attempt + remaining + 1 = maxHttpAttempts) :
    ∃ delays, (retryFrom outcomes attempt (remaining + 1)).trace = requestsAfter delays ∧
      delays.length ≤ remaining ∧ (∀ delay ∈ delays, 0 ≤ delay ∧ delay ≤ 2) ∧
      (∀ k < delays.length, (outcomes (attempt + k)).Retryable ∧
        ¬(outcomes (attempt + k)).Unreadable) ∧
      Ending (outcomes (attempt + delays.length)) (remaining - delays.length)
        (retryFrom outcomes attempt (remaining + 1)).result := by
  induction remaining generalizing attempt with
  | zero =>
      rcases httpTurn_spec attempt 0 (outcomes attempt) h with
        ⟨result, hturn, hending⟩ | ⟨_, _, _, _, _, hremaining⟩
      · refine ⟨[], ?_, le_rfl, by simp, by simp, ?_⟩
        · simp [retryFrom, hturn, requestsAfter]
        · simpa [retryFrom, hturn] using hending
      · exact absurd hremaining (Nat.lt_irrefl 0)
  | succ remaining ih =>
      rcases httpTurn_spec attempt (remaining + 1) (outcomes attempt) h with
        ⟨result, hturn, hending⟩ | ⟨delay, hturn, hbounds, hretryable, hreadable, -⟩
      · refine ⟨[], ?_, Nat.zero_le _, by simp, by simp, ?_⟩
        · simp [retryFrom, hturn, requestsAfter]
        · rw [retryFrom, hturn]
          exact hending
      · obtain ⟨delays, htrace, hlength, hwaits, hturns, hending⟩ :=
          ih (attempt + 1) (by omega)
        refine ⟨delay :: delays, ?_, ?_, ?_, ?_, ?_⟩
        · rw [retryFrom, hturn]
          simp [htrace, requestsAfter]
        · rw [List.length_cons]
          omega
        · exact List.forall_mem_cons.mpr ⟨hbounds, hwaits⟩
        · intro k hk
          rcases k with _ | k
          · exact ⟨hretryable, hreadable⟩
          · have hnext := hturns k (by simpa using hk)
            rwa [Nat.add_right_comm, Nat.add_assoc] at hnext
        · rw [retryFrom, hturn, List.length_cons, Nat.add_sub_add_right,
            show attempt + (delays.length + 1) = attempt + 1 + delays.length by omega]
          exact hending

/-- An unreadable response is one to be retried. -/
theorem HttpOutcome.Unreadable.retryable {outcome : HttpOutcome ε} (h : outcome.Unreadable) :
    outcome.Retryable := by
  cases outcome with
  | responds response => exact h.1
  | timesOut error | networkFails error => trivial
  | fails error => exact h

omit [DigitTables] in
/-- No outcome shows the caller the exception of the header's parser, or that the
loop ran out. -/
theorem HttpOutcome.result_ne (outcome : HttpOutcome ε) :
    outcome.result ≠ .error .valueError ∧
      ∀ message, outcome.result ≠ .error (.runtimeError message) := by
  cases outcome with
  | responds response =>
      by_cases hsuccess : response.isSuccess = true <;> simp [HttpOutcome.result, hsuccess]
  | timesOut error | networkFails error | fails error => simp [HttpOutcome.result]

omit [DigitTables] in
/-- The events count the delays. -/
theorem length_requestsAfter (delays : List ℚ) :
    (requestsAfter delays).length = 2 * delays.length + 1 := by
  rw [requestsAfter, List.length_cons, Nat.add_right_cancel_iff]
  induction delays with
  | nil => rfl
  | cons delay delays ih =>
      rw [List.flatMap_cons, List.length_append, ih]
      simp only [List.length_cons, List.length_nil]
      omega

end Loop

section Claim

variable {ε : Type*} [DigitTables]

/-- **The retry protocol.**  It is followed exactly if no response that is to be
retried, before the last attempt, has a `Retry-After` of digits that `float`
rejects; and the loop never runs out. -/
theorem retry_protocol_iff (outcomes : ℕ → HttpOutcome ε) :
    ((∃ delays, FollowsProtocol outcomes (getWithRetry outcomes) delays) ↔
      ∀ k, k + 1 < 3 → (∀ j < k, (outcomes j).Retryable) → ¬(outcomes k).Unreadable) ∧
    ∀ message, (getWithRetry outcomes).result ≠ .error (.runtimeError message) := by
  obtain ⟨delays, htrace, hlength, hwaits, hturns, hending⟩ :=
    retryFrom_spec outcomes 0 2 rfl
  simp only [Nat.zero_add] at hturns hending
  refine ⟨⟨?_, ?_⟩, ?_⟩
  · intro hex k hk hretryable hunreadable
    obtain ⟨delays', hfollows⟩ := hex
    have hsame : delays'.length = delays.length := by
      have hlengths := congrArg List.length (hfollows.trace_eq.symm.trans htrace)
      rw [length_requestsAfter, length_requestsAfter] at hlengths
      omega
    cases hending with
    | unreadable hresult hremaining hlast =>
        exact (outcomes delays'.length).result_ne.1 (hfollows.result_eq.symm.trans hresult)
    | regular hresult hlast =>
        rcases lt_trichotomy k delays.length with hbefore | rfl | hafter
        · exact (hturns k hbefore).2 hunreadable
        · exact hlast ⟨hunreadable.retryable, by omega⟩
        · exact hlast ⟨hretryable delays.length hafter, by omega⟩
  · intro hreadable
    cases hending with
    | unreadable hresult hremaining hlast =>
        exact absurd hlast (hreadable delays.length (by omega) (fun j hj => (hturns j hj).1))
    | regular hresult hlast =>
        refine ⟨delays, htrace, by omega, ?_, hwaits, hresult⟩
        intro k hk
        rcases Nat.lt_succ_iff_lt_or_eq.mp hk with hbefore | rfl
        · exact iff_of_true (by omega) ⟨(hturns k hbefore).1, by omega⟩
        · exact iff_of_false (lt_irrefl _) (fun hand => hlast ⟨hand.1, by omega⟩)
  · intro message hexhausted
    cases hending with
    | unreadable hresult hremaining hlast =>
        exact absurd (hresult.symm.trans hexhausted) (by simp)
    | regular hresult hlast =>
        exact (outcomes delays.length).result_ne.2 message (hresult.symm.trans hexhausted)

end Claim

/-- The digits of Latin-1: the three superscripts are digits that count in no
number. -/
@[reducible] def latin1Digits : DigitTables where
  isdigit c := c.isDigit || c = '²' || c = '³' || c = '¹'
  decimal c := if c.isDigit then some (c.toNat - '0'.toNat) else none
  isdigit_ascii c hc := by
    have hplain : c ≠ '²' ∧ c ≠ '³' ∧ c ≠ '¹' := by
      refine ⟨?_, ?_, ?_⟩ <;>
      · intro heq
        obtain rfl := heq
        exact absurd hc (by decide)
    simp [hplain]
  decimal_ascii c hc := rfl
  isdigit_of_decimal c digit h := by
    by_cases hdigit : c.isDigit = true
    · simp [hdigit]
    · rw [if_neg hdigit] at h
      cases h

/-- A `Retry-After` of a superscript two: its parser's exception leaves the loop
after one request. -/
theorem superscript_leaves_the_loop :
    letI := latin1Digits
    let outcomes : ℕ → HttpOutcome String :=
      fun _ => .responds ⟨503, [("Retry-After", "²")]⟩
    (getWithRetry outcomes).trace = [.request] ∧
      (getWithRetry outcomes).result = .error .valueError ∧
      ¬∃ delays, FollowsProtocol outcomes (getWithRetry outcomes) delays := by
  let tables := latin1Digits
  intro outcomes
  have hdigit : DigitTables.isdigit '²' = true := rfl
  have hdecimal : DigitTables.decimal '²' = none := rfl
  have hheader : (⟨503, [("Retry-After", "²")]⟩ : HttpResponse).header "Retry-After" = "²" := by
    simp [HttpResponse.header]
  have hdelay : retryDelay 0 "²" = none := by
    simp [retryDelay, isdigit, floatOfDigits, hdigit, hdecimal]
  have hturn : getWithRetry outcomes = ⟨[.request], .error .valueError⟩ := by
    simp [getWithRetry, maxHttpAttempts, retryFrom, httpTurn, outcomes, HttpResponse.isSuccess,
      retryableStatusCodes, hheader, hdelay]
  refine ⟨by rw [hturn], by rw [hturn], ?_⟩
  intro hex
  obtain ⟨delays, hfollows⟩ := hex
  refine (outcomes delays.length).result_ne.1 ?_
  rw [← hfollows.result_eq, hturn]

end EventAlpha
