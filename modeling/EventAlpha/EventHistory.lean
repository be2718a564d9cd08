import EventAlpha.EventService
import EventAlpha.VersionLog
import Mathlib.Order.Bounds.Basic

/-!
# The history of committed ingestions

What the event pipeline is for, stated without its indexes or its tables: a
history is the list of committed ingestions, oldest first, each an envelope
with the event version it produced.  A history is `Grown` when every commit
either opens an event under an unused identifier or extends the newest version
of the event it names.  Both the in-memory service and the database are later
shown to be views of one grown history.

A view may hold the mentions of an event in another order of equal receipt
times, because a rebuild sorts rows that arrive in any order.  `Same` is
equality up to that order, and extension only ever starts from an event that
is `Same` as the newest one.

Everything one event version asserts about itself is `Coherent`, and
`Grown.coherent` says that every committed version is.
-/

namespace EventAlpha

open KeyedOrder VersionLog

/-- One committed ingestion: the envelope and the event version it produced. -/
structure Commit where
  envelope : RawEnvelope
  event : CanonicalEvent

/-- The event a commit belongs to. -/
def Commit.eventId (commit : Commit) : Uuid := commit.event.eventId

/-- The event version a commit produced. -/
def Commit.version (commit : Commit) : ℕ := commit.event.eventVersion

/-- The mention a commit recorded. -/
def Commit.mention (commit : Commit) : EventMention := commit.envelope.mention

/-- Equality of events up to the order of their mentions. -/
structure CanonicalEvent.Same (event event' : CanonicalEvent) : Prop where
  scalars_eq : event.scalars = event'.scalars
  mentions_perm : event.mentions.Perm event'.mentions

namespace CanonicalEvent

theorem Same.refl (event : CanonicalEvent) : event.Same event :=
  ⟨rfl, List.Perm.refl _⟩

theorem Same.symm {event event' : CanonicalEvent} (h : event.Same event') :
    event'.Same event :=
  ⟨h.scalars_eq.symm, h.mentions_perm.symm⟩

theorem Same.trans {event event' event'' : CanonicalEvent} (h : event.Same event')
    (h' : event'.Same event'') : event.Same event'' :=
  ⟨h.scalars_eq.trans h'.scalars_eq, h.mentions_perm.trans h'.mentions_perm⟩

/-- Two views of one event agree on every field other than the mentions. -/
theorem Same.field {event event' : CanonicalEvent} (h : event.Same event')
    {τ : Type*} (read : CanonicalEvent → τ) (hread : ∀ e, read e.scalars = read e) :
    read event = read event' := by
  rw [← hread event, ← hread event', h.scalars_eq]

theorem Same.eventId_eq {event event' : CanonicalEvent} (h : event.Same event') :
    event.eventId = event'.eventId :=
  h.field CanonicalEvent.eventId (fun _ => rfl)

theorem Same.eventVersion_eq {event event' : CanonicalEvent} (h : event.Same event') :
    event.eventVersion = event'.eventVersion :=
  h.field CanonicalEvent.eventVersion (fun _ => rfl)

/-- The groups of an event do not depend on the order of its mentions. -/
theorem independenceGroups_perm {mentions mentions' : List EventMention}
    (h : mentions.Perm mentions') :
    independenceGroups mentions = independenceGroups mentions' :=
  List.toFinset_eq_of_perm _ _ (h.map _)

/-- Extending two views of one event gives two views of one event. -/
theorem Same.extend {event event' : CanonicalEvent} (h : event.Same event')
    (envelope : RawEnvelope) : (event.extend envelope).Same (event'.extend envelope) := by
  obtain ⟨hscalars, hperm⟩ := h
  constructor
  · cases event
    cases event'
    simp only [scalars, mk.injEq, and_true] at hscalars
    obtain ⟨rfl, rfl, rfl, rfl, rfl, rfl, rfl, rfl, rfl, rfl, rfl, rfl⟩ := hscalars
    simp [scalars, CanonicalEvent.extend, independenceGroups_perm hperm]
  · exact sortedBy_perm_of_perm _ (hperm.append_right _)

/-- The receipt times of an event's mentions. -/
def receiptTimes (event : CanonicalEvent) : Set UtcDatetime :=
  {time | ∃ mention ∈ event.mentions, mention.receivedAt = time}

/-- What an event version asserts about its own mentions. -/
structure Coherent (event : CanonicalEvent) : Prop where
  version_eq : event.eventVersion = event.mentions.length
  sorted : SortedBy EventMention.receivedAt event.mentions
  first_least : IsLeast event.receiptTimes event.firstReceivedAt
  last_greatest : IsGreatest event.receiptTimes event.lastUpdatedAt
  independence_eq :
    event.sourceIndependence = independenceScore (independenceGroups event.mentions)

/-- A sorted view of a coherent event is coherent. -/
theorem Coherent.of_same {event event' : CanonicalEvent} (h : event.Coherent)
    (hsame : event.Same event')
    (hsorted : SortedBy EventMention.receivedAt event'.mentions) : event'.Coherent := by
  have htimes : event.receiptTimes = event'.receiptTimes := by
    ext time
    simp only [receiptTimes, Set.mem_ofPred_eq, hsame.mentions_perm.mem_iff]
  constructor
  · rw [← hsame.eventVersion_eq, h.version_eq, hsame.mentions_perm.length_eq]
  · exact hsorted
  · rw [← htimes, ← hsame.field CanonicalEvent.firstReceivedAt (fun _ => rfl)]
    exact h.first_least
  · rw [← htimes, ← hsame.field CanonicalEvent.lastUpdatedAt (fun _ => rfl)]
    exact h.last_greatest
  · rw [← hsame.field CanonicalEvent.sourceIndependence (fun _ => rfl),
      h.independence_eq, independenceGroups_perm hsame.mentions_perm]

end CanonicalEvent

/-- A new event is coherent. -/
theorem RawEnvelope.openEvent_coherent (envelope : RawEnvelope) (eventId : Uuid) :
    (envelope.openEvent eventId).Coherent where
  version_eq := rfl
  sorted := sortedBy_singleton _ _
  first_least := by
    constructor
    · exact ⟨envelope.mention, List.mem_singleton_self _, rfl⟩
    · intro time hex
      obtain ⟨mention, hmem, rfl⟩ := hex
      obtain rfl := List.mem_singleton.mp hmem
      exact le_refl _
  last_greatest := by
    constructor
    · exact ⟨envelope.mention, List.mem_singleton_self _, rfl⟩
    · intro time hex
      obtain ⟨mention, hmem, rfl⟩ := hex
      obtain rfl := List.mem_singleton.mp hmem
      exact le_refl _
  independence_eq := by
    simp [RawEnvelope.openEvent, independenceScore, independenceGroups]
    norm_num

/-- The contract reads only scalar fields. -/
theorem CanonicalEvent.Accepted.of_same {event event' : CanonicalEvent}
    (h : event.Accepted) (hsame : event.Same event') : event'.Accepted := by
  rw [← hsame.field CanonicalEvent.Accepted (fun _ => rfl)]
  exact h

theorem clusteringVersion_length :
    1 ≤ clusteringVersion.length ∧ clusteringVersion.length ≤ 100 := by
  decide

/-- A new event meets the contract. -/
theorem RawEnvelope.openEvent_accepted (envelope : RawEnvelope) (eventId : Uuid) :
    (envelope.openEvent eventId).Accepted := by
  refine ⟨le_refl _, clusteringVersion_length, ?_, ?_⟩
  · exact ⟨zero_le_one, le_refl _⟩
  · show (0 : ℚ) ≤ 1 / 2 ∧ (1 / 2 : ℚ) ≤ 1
    norm_num

/-- Extending an event keeps it within the contract. -/
theorem CanonicalEvent.Accepted.extend {event : CanonicalEvent} (h : event.Accepted)
    (envelope : RawEnvelope) : (event.extend envelope).Accepted :=
  ⟨Nat.le_add_left 1 _, clusteringVersion_length, h.2.2.1, independenceScore_bounds _⟩

/-- Extending adds exactly the mention of the envelope. -/
theorem CanonicalEvent.extend_mentions_perm (event : CanonicalEvent)
    (envelope : RawEnvelope) :
    (event.extend envelope).mentions.Perm (event.mentions ++ [envelope.mention]) :=
  sortedBy_perm _ _

theorem CanonicalEvent.mem_extend_mentions {event : CanonicalEvent}
    {envelope : RawEnvelope} {mention : EventMention} :
    mention ∈ (event.extend envelope).mentions ↔
      mention ∈ event.mentions ∨ mention = envelope.mention := by
  rw [(event.extend_mentions_perm envelope).mem_iff]
  simp

theorem CanonicalEvent.receiptTimes_extend (event : CanonicalEvent)
    (envelope : RawEnvelope) :
    (event.extend envelope).receiptTimes =
      insert envelope.receivedAt event.receiptTimes := by
  ext time
  simp only [receiptTimes, Set.mem_ofPred_eq, Set.mem_insert_iff,
    CanonicalEvent.mem_extend_mentions]
  constructor
  · intro hex
    obtain ⟨mention, hold | rfl, rfl⟩ := hex
    · exact Or.inr ⟨mention, hold, rfl⟩
    · exact Or.inl rfl
  · intro hor
    rcases hor with rfl | ⟨mention, hmem, rfl⟩
    · exact ⟨envelope.mention, Or.inr rfl, rfl⟩
    · exact ⟨mention, Or.inl hmem, rfl⟩

/-- Extending a coherent event, in or out of order of receipt, gives a
coherent event. -/
theorem CanonicalEvent.Coherent.extend {event : CanonicalEvent} (h : event.Coherent)
    (envelope : RawEnvelope) : (event.extend envelope).Coherent where
  version_eq := by
    have hlen := (event.extend_mentions_perm envelope).length_eq
    rw [hlen, List.length_append, List.length_singleton, ← h.version_eq]
    rfl
  sorted := sortedBy_sorted _ _
  first_least := by
    rw [event.receiptTimes_extend]
    show IsLeast _ (min event.firstReceivedAt envelope.receivedAt)
    rw [min_comm]
    exact h.first_least.insert _
  last_greatest := by
    rw [event.receiptTimes_extend]
    show IsGreatest _ (max event.lastUpdatedAt envelope.receivedAt)
    rw [max_comm]
    exact h.last_greatest.insert _
  independence_eq := by
    have hgroups : independenceGroups (event.extend envelope).mentions =
        independenceGroups event.mentions ∪ {envelope.group} := by
      rw [CanonicalEvent.independenceGroups_perm (event.extend_mentions_perm envelope)]
      simp [independenceGroups, RawEnvelope.mention, Finset.union_comm]
    rw [hgroups]
    rfl

/-- The fields an event keeps from its first version on. -/
def CanonicalEvent.lastingFields (event : CanonicalEvent) :
    String × String × Option UtcDatetime × String × ℚ :=
  (event.canonicalTitle, event.eventType, event.eventTime, event.language, event.novelty)

/-- A history in which every commit opens an event under an unused identifier
or extends the newest version of the event it names. -/
inductive Grown : List Commit → Prop
  | nil : Grown []
  | opening {log : List Commit} (h : Grown log) (envelope : RawEnvelope) (newId : Uuid)
      (hfresh : ∀ commit ∈ log, commit.eventId ≠ newId) :
      Grown (log ++ [⟨envelope, envelope.openEvent newId⟩])
  | extending {log : List Commit} (h : Grown log) (envelope : RawEnvelope)
      {existing : CanonicalEvent} {last : Commit}
      (hlatest : latest Commit.eventId log existing.eventId = some last)
      (hsame : existing.Same last.event) :
      Grown (log ++ [⟨envelope, existing.extend envelope⟩])

/-- The commits of one event, oldest first. -/
def commitsOf (log : List Commit) (eventId : Uuid) : List Commit :=
  ofKey Commit.eventId log eventId

namespace Grown

variable {log : List Commit}

/-- The versions of every event are numbered consecutively from one. -/
theorem numbered (h : Grown log) : Numbered Commit.eventId Commit.version log := by
  induction h with
  | nil => exact Numbered.nil
  | opening h envelope newId hfresh ih =>
      refine Numbered.snoc ih ?_
      have hnil : ofKey Commit.eventId _ newId = [] := ofKey_eq_nil_iff.mpr hfresh
      show 1 = (ofKey Commit.eventId _ newId).length + 1
      rw [hnil]
      rfl
  | @extending log h envelope existing last hlatest hsame ih =>
      refine Numbered.snoc ih ?_
      show existing.eventVersion + 1 =
        (ofKey Commit.eventId log existing.eventId).length + 1
      rw [hsame.eventVersion_eq, ← ih.number_latest hlatest]
      rfl

/-- Every committed event version meets the contract, although an extended
event is never validated. -/
theorem accepted (h : Grown log) : ∀ commit ∈ log, commit.event.Accepted := by
  induction h with
  | nil => simp
  | opening h envelope newId hfresh ih =>
      intro commit hmem
      rcases List.mem_append.mp hmem with hold | hnew
      · exact ih commit hold
      · obtain rfl := List.mem_singleton.mp hnew
        exact envelope.openEvent_accepted newId
  | extending h envelope hlatest hsame ih =>
      intro commit hmem
      rcases List.mem_append.mp hmem with hold | hnew
      · exact ih commit hold
      · obtain rfl := List.mem_singleton.mp hnew
        exact ((ih _ (latest_mem hlatest).1).of_same hsame.symm).extend envelope

/-- Every committed event version is coherent. -/
theorem coherent (h : Grown log) : ∀ commit ∈ log, commit.event.Coherent := by
  induction h with
  | nil => simp
  | opening h envelope newId hfresh ih =>
      intro commit hmem
      rcases List.mem_append.mp hmem with hold | hnew
      · exact ih commit hold
      · obtain rfl := List.mem_singleton.mp hnew
        exact envelope.openEvent_coherent newId
  | extending h envelope hlatest hsame ih =>
      intro commit hmem
      rcases List.mem_append.mp hmem with hold | hnew
      · exact ih commit hold
      · obtain rfl := List.mem_singleton.mp hnew
        have hlast := (ih _ (latest_mem hlatest).1).extend envelope
        exact hlast.of_same (hsame.symm.extend envelope) (sortedBy_sorted _ _)

/-- **Cumulative membership.**  The mentions of version `v` of an event are
those of its first `v` commits. -/
theorem mentions_perm (h : Grown log) : ∀ commit ∈ log,
    commit.event.mentions.Perm
      (((commitsOf log commit.eventId).take commit.version).map Commit.mention) := by
  induction h with
  | nil => simp
  | @opening log h envelope newId hfresh ih =>
      intro commit hmem
      rcases List.mem_append.mp hmem with hold | hnew
      · rw [commitsOf, take_ofKey_append _ (h.numbered.number_bounds hold).2]
        exact ih commit hold
      · obtain rfl := List.mem_singleton.mp hnew
        have hnil : ofKey Commit.eventId log newId = [] := ofKey_eq_nil_iff.mpr hfresh
        have hself : commitsOf (log ++ [⟨envelope, envelope.openEvent newId⟩]) newId =
            [⟨envelope, envelope.openEvent newId⟩] := by
          rw [commitsOf, ofKey_snoc, hnil]
          exact if_pos rfl
        show List.Perm [envelope.mention] (((commitsOf _ newId).take 1).map Commit.mention)
        rw [hself]
        exact List.Perm.refl _
  | @extending log h envelope existing last hlatest hsame ih =>
      intro commit hmem
      rcases List.mem_append.mp hmem with hold | hnew
      · rw [commitsOf, take_ofKey_append _ (h.numbered.number_bounds hold).2]
        exact ih commit hold
      · obtain rfl := List.mem_singleton.mp hnew
        have hlast := ih last (latest_mem hlatest).1
        have hkey : last.eventId = existing.eventId := (latest_mem hlatest).2
        have hcount : last.version = (commitsOf log existing.eventId).length :=
          h.numbered.number_latest hlatest
        rw [hkey, hcount, List.take_length] at hlast
        have hself : commitsOf (log ++ [⟨envelope, existing.extend envelope⟩])
            existing.eventId =
            commitsOf log existing.eventId ++ [⟨envelope, existing.extend envelope⟩] := by
          rw [commitsOf, ofKey_snoc]
          exact if_pos rfl
        have hversion : existing.eventVersion = (commitsOf log existing.eventId).length :=
          hsame.eventVersion_eq.trans hcount
        show (existing.extend envelope).mentions.Perm
          (((commitsOf _ existing.eventId).take (existing.eventVersion + 1)).map Commit.mention)
        rw [hself, hversion, List.take_of_length_le (by simp), List.map_append]
        exact (existing.extend_mentions_perm envelope).trans
          ((hsame.mentions_perm.trans hlast).append_right _)

/-- The newest version of an event holds the mentions of all its commits. -/
theorem latest_mentions_perm (h : Grown log) {id : Uuid} {last : Commit}
    (hlatest : latest Commit.eventId log id = some last) :
    last.event.mentions.Perm ((commitsOf log id).map Commit.mention) := by
  obtain ⟨hmem, rfl⟩ := latest_mem hlatest
  have hcount : last.version = (commitsOf log last.eventId).length :=
    h.numbered.number_latest hlatest
  have hmentions := h.mentions_perm last hmem
  rwa [hcount, List.take_length] at hmentions

/-- All versions of an event agree on the lasting fields. -/
theorem lastingFields_eq (h : Grown log) : ∀ commit ∈ log, ∀ commit' ∈ log,
    commit.eventId = commit'.eventId →
      commit.event.lastingFields = commit'.event.lastingFields := by
  induction h with
  | nil => simp
  | @opening log h envelope newId hfresh ih =>
      intro commit hmem commit' hmem' hid
      rcases List.mem_append.mp hmem with hold | hnew
      · rcases List.mem_append.mp hmem' with hold' | hnew'
        · exact ih commit hold commit' hold' hid
        · obtain rfl := List.mem_singleton.mp hnew'
          exact absurd hid (hfresh commit hold)
      · obtain rfl := List.mem_singleton.mp hnew
        rcases List.mem_append.mp hmem' with hold' | hnew'
        · exact absurd hid.symm (hfresh commit' hold')
        · obtain rfl := List.mem_singleton.mp hnew'
          rfl
  | @extending log h envelope existing last hlatest hsame ih =>
      have hkept : ∀ commit ∈ log, commit.eventId = existing.eventId →
          commit.event.lastingFields = (existing.extend envelope).lastingFields := by
        intro commit hmem hid
        obtain ⟨hlast, hkey⟩ := latest_mem hlatest
        calc commit.event.lastingFields
            = last.event.lastingFields := ih commit hmem last hlast (hid.trans hkey.symm)
          _ = existing.lastingFields :=
              (hsame.field CanonicalEvent.lastingFields (fun _ => rfl)).symm
      intro commit hmem commit' hmem' hid
      rcases List.mem_append.mp hmem with hold | hnew
      · rcases List.mem_append.mp hmem' with hold' | hnew'
        · exact ih commit hold commit' hold' hid
        · obtain rfl := List.mem_singleton.mp hnew'
          exact hkept commit hold hid
      · obtain rfl := List.mem_singleton.mp hnew
        rcases List.mem_append.mp hmem' with hold' | hnew'
        · exact (hkept commit' hold' hid.symm).symm
        · obtain rfl := List.mem_singleton.mp hnew'
          rfl

end Grown

end EventAlpha
