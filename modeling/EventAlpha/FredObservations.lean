import EventAlpha.Clusters
import EventAlpha.SecSubmissions

/-!
# FRED observations

The adapter that turns the observations of a FRED series into envelopes, and
what the event clusterer makes of them.

The date of an observation is in its title, `FRED GDP observation for
2026-07-01`, but the month and the day are tokens of two characters, which the
clusterer drops.  Two dates of one year have the same fingerprint, so an
observation joins an event of another date whenever that was updated within 24
hours and no event of its own date ranks above it.  `clusters_by_date_iff` says
that this is exactly when dates are mixed.
-/

namespace EventAlpha

open KeyedOrder VersionLog

section FredAdapter

/-- A value of the payload as `or` and `str` see it.  A missing key is the
value `None`. -/
structure JsonValue where
  truthy : Bool
  text : String

/-- `str(value or fallback)`. -/
def JsonValue.orText (value : JsonValue) (fallback : String) : String :=
  if value.truthy then value.text else fallback

/-- A text of the payload. -/
def JsonValue.ofText (text : String) : JsonValue := ⟨text ≠ "", text⟩

/-- The parts of an observation the adapter reads. -/
structure FredRecord where
  date : JsonValue
  value : JsonValue
  realtimeStart : JsonValue
  realtimeEnd : JsonValue

/-- The provider, with its clock read at the start of the stream. -/
structure FredObservationProvider where
  seriesId : String
  observedAt : UtcDatetime

namespace FredObservationProvider

/-- The title of an observation. -/
def title (seriesId date : String) : String := "FRED " ++ seriesId ++ " observation for " ++ date

/-- The content of an observation. -/
def content (seriesId date value realtimeStart realtimeEnd : String) : String :=
  "Series " ++ seriesId ++ "; observation date " ++ date ++ "; value " ++ value ++
    "; vintage " ++ realtimeStart ++ " through " ++ realtimeEnd ++ "."

variable [CharacterTables] [Digest] [TextParsers]

/-- The fields of the envelope of an observation, or how building it raises. -/
def envelopeFields (provider : FredObservationProvider) (draw : Draw)
    (date value realtimeStart realtimeEnd : String) : Except SecError RawEnvelopeFields := do
  let day ← (TextParsers.fromisoformat (date ++ "T00:00:00+00:00")).elim
    (.error (.valueError none)) .ok
  let revisionFingerprint := String.ofList ((Digest.sha256 value).toList.take 16)
  let eventTime ← asUtc day
  return {
    id := draw.1
    traceId := draw.2
    provider := "fred"
    sourceId := "fred:" ++ provider.seriesId
    sourceType := "macro_data"
    nativeId := some (provider.seriesId ++ ":" ++ date ++ ":" ++ realtimeStart ++ ":" ++
      revisionFingerprint)
    eventTime := some eventTime
    publishedAt := none
    receivedAt := provider.observedAt
    processedAt := provider.observedAt
    title := title provider.seriesId date
    content := content provider.seriesId date value realtimeStart realtimeEnd
    url := "https://fred.stlouisfed.org/series/" ++ provider.seriesId
    language := "en"
    category := "macro_observation"
    contentHash := digest (title provider.seriesId date)
      (content provider.seriesId date value realtimeStart realtimeEnd)
    storagePolicy := .metadataAndDerivedOnly
    derivedAttributes := [("series_id", provider.seriesId), ("observation_date", date),
      ("value", value), ("realtime_start", realtimeStart), ("realtime_end", realtimeEnd)] }

/-- The envelope of an observation, or how building it raises. -/
def envelope (provider : FredObservationProvider) (draw : Draw)
    (date value realtimeStart realtimeEnd : String) : Except SecError RawEnvelope := do
  let fields ← provider.envelopeFields draw date value realtimeStart realtimeEnd
  (RawEnvelope.validate fields).elim (.error .validationError) .ok

/-- The loop of `stream_items`.  An observation without a date or a value is
skipped; an exception ends the stream after what was yielded before. -/
def streamRecords (provider : FredObservationProvider) (draws : ℕ → Draw) :
    ℕ → List FredRecord → SecStream
  | _, [] => ⟨[], none⟩
  | yielded, record :: records =>
      let date := strip (record.date.orText "")
      let value := strip (record.value.orText "")
      if date = "" ∨ value = "" ∨ value = "." then
        streamRecords provider draws yielded records
      else
        let realtimeStart := record.realtimeStart.orText "unknown-vintage"
        let realtimeEnd := record.realtimeEnd.orText realtimeStart
        match provider.envelope (draws yielded) date value realtimeStart realtimeEnd with
        | .error error => ⟨[], some error⟩
        | .ok envelope =>
            let rest := streamRecords provider draws (yielded + 1) records
            ⟨envelope :: rest.yielded, rest.error⟩

/-- `stream_items` on the observations of a payload. -/
def streamItems (provider : FredObservationProvider) (observations : List FredRecord)
    (draws : ℕ → Draw) : SecStream :=
  provider.streamRecords draws 0 observations

end FredObservationProvider

end FredAdapter

section Observations

/-- The date an envelope reports. -/
def observationDate (envelope : RawEnvelope) : Option String :=
  envelope.attribute "observation_date"

/-- The envelope of an observation of a series. -/
structure IsObservation (seriesId date : String) (envelope : RawEnvelope) : Prop where
  title_eq : envelope.title = FredObservationProvider.title seriesId date
  date_eq : observationDate envelope = some date
  category_eq : envelope.category = "macro_observation"

/-- The title of an observation names its date. -/
theorem IsObservation.title_eq_iff {seriesId date date' : String} {envelope envelope' : RawEnvelope}
    (h : IsObservation seriesId date envelope) (h' : IsObservation seriesId date' envelope') :
    envelope.title = envelope'.title ↔ observationDate envelope = observationDate envelope' := by
  rw [h.title_eq, h'.title_eq, h.date_eq, h'.date_eq, Option.some.injEq]
  constructor
  · intro htitle
    have hlist := congrArg String.toList htitle
    simp only [FredObservationProvider.title, String.toList_append] at hlist
    exact String.toList_injective (List.append_cancel_left hlist)
  · rintro rfl
    rfl

variable [CharacterTables]

/-- The title of an observation has a token that counts, whatever its date. -/
theorem FredObservationProvider.fingerprint_nonempty (seriesId date : String) :
    (titleFingerprint (FredObservationProvider.title seriesId date)).Nonempty := by
  have hword : titleTokens "observation".toList = ["observation".toList] := by
    rw [titleTokens_of_ascii (by simp)]
    decide +kernel
  have htext : (FredObservationProvider.title seriesId date).toList =
      ("FRED ".toList ++ seriesId.toList) ++ ' ' :: ("observation".toList ++
        ' ' :: ("for ".toList ++ date.toList)) := by
    simp [FredObservationProvider.title]
  refine ⟨"observation".toList, ?_⟩
  rw [titleFingerprint, htext, titleTokens_append_blank, titleTokens_append_blank, hword]
  simp

variable [Digest] [TextParsers]

theorem isObservation_of_envelope {provider : FredObservationProvider} {draw : Draw}
    {date value realtimeStart realtimeEnd : String} {envelope : RawEnvelope}
    (h : provider.envelope draw date value realtimeStart realtimeEnd = .ok envelope) :
    IsObservation provider.seriesId date envelope := by
  obtain ⟨fields, hfields, hvalidate⟩ := exists_of_bind_eq_ok h
  obtain ⟨day, -, hfields⟩ := exists_of_bind_eq_ok hfields
  obtain ⟨eventTime, -, hfields⟩ := exists_of_bind_eq_ok hfields
  cases hfields
  unfold RawEnvelope.validate at hvalidate
  split at hvalidate
  · cases hvalidate
    exact ⟨rfl, rfl, rfl⟩
  · cases hvalidate

/-- Everything a stream yields is an observation of the series. -/
theorem isObservation_of_yielded {provider : FredObservationProvider} {draws : ℕ → Draw}
    {yielded : ℕ} {records : List FredRecord} {envelope : RawEnvelope}
    (hmem : envelope ∈ (provider.streamRecords draws yielded records).yielded) :
    ∃ date, IsObservation provider.seriesId date envelope := by
  induction records generalizing yielded with
  | nil => cases hmem
  | cons record records ih =>
      rw [FredObservationProvider.streamRecords] at hmem
      simp only at hmem
      split at hmem
      · exact ih hmem
      · split at hmem
        case h_1 => cases hmem
        case h_2 first hfirst =>
          rcases List.mem_cons.mp hmem with rfl | hrest
          · exact ⟨_, isObservation_of_envelope hfirst⟩
          · exact ih hrest

/-- An envelope of a series, from any poll. -/
def OfSeries (seriesId : String) (envelope : RawEnvelope) : Prop :=
  ∃ (observedAt : UtcDatetime) (observations : List FredRecord) (draws : ℕ → Draw),
    envelope ∈ (FredObservationProvider.streamItems ⟨seriesId, observedAt⟩
      observations draws).yielded

theorem OfSeries.isObservation {seriesId : String} {envelope : RawEnvelope}
    (h : OfSeries seriesId envelope) : ∃ date, IsObservation seriesId date envelope := by
  obtain ⟨observedAt, observations, draws, hmem⟩ := h
  have hyielded : ∃ date, IsObservation
      (FredObservationProvider.mk seriesId observedAt).seriesId date envelope :=
    isObservation_of_yielded hmem
  exact hyielded

end Observations

section Dates

/-- Items of one event report one date. -/
def DatesSeparate (log : List Commit) : Prop :=
  ∀ commit ∈ log, ∀ commit' ∈ log, commit.eventId = commit'.eventId →
    observationDate commit.envelope = observationDate commit'.envelope

/-- An item received within 24 hours of the last update of an event of its date
joins an event of its date. -/
def RevisionsJoin (log : List Commit) : Prop :=
  ∀ earlier commit later, log = earlier ++ commit :: later →
    ∀ id newest, latest Commit.eventId earlier id = some newest →
      |commit.envelope.receivedAt - newest.event.lastUpdatedAt| ≤ clusterWindow →
      (∃ before ∈ commitsOf earlier id,
        observationDate before.envelope = observationDate commit.envelope) →
      ∃ before ∈ commitsOf earlier commit.eventId,
        observationDate before.envelope = observationDate commit.envelope

/-- Observations cluster by date. -/
structure ClustersByDate (log : List Commit) : Prop where
  dates_separate : DatesSeparate log
  revisions_join : RevisionsJoin log

/-- Every item went to an event under its own title. -/
def TitlesKept (log : List Commit) : Prop :=
  ∀ commit ∈ log, commit.event.canonicalTitle = commit.envelope.title

variable [CharacterTables] {log : List Commit}

/-- Where an event under another title admits the envelope, one under its own
title admits it too and ranks higher. -/
def OwnTitleFirst (log : List Commit) (envelope : RawEnvelope) : Prop :=
  ∀ id other, latest Commit.eventId log id = some other → Admits log other.event envelope →
    other.event.canonicalTitle ≠ envelope.title →
      ∃ id' own, latest Commit.eventId log id' = some own ∧ Admits log own.event envelope ∧
        own.event.canonicalTitle = envelope.title ∧
        historyRank log envelope other.event < historyRank log envelope own.event

/-- **Titles step.**  A commit keeps its title exactly when no event under
another title outranks those under its own. -/
theorem Continues.title_kept_iff {commit : Commit} (h : Continues log commit) :
    commit.event.canonicalTitle = commit.envelope.title ↔ OwnTitleFirst log commit.envelope := by
  cases h with
  | opening _ htitle hnone =>
      refine iff_of_true htitle ?_
      intro id other hother hadmits
      exact absurd hadmits (hnone id other hother)
  | @joining last hlatest htitle hadmits hmax =>
      rw [htitle]
      constructor
      · intro hkept id other hother hadmits' hforeign
        refine ⟨_, last, hlatest, hadmits, hkept, lt_of_le_of_ne (hmax id other hother hadmits') ?_⟩
        intro hrank
        have hid : other.eventId = last.eventId := eventId_eq_of_historyRank_eq hrank
        rw [(latest_mem hother).2, (latest_mem hlatest).2] at hid
        subst hid
        obtain rfl := Option.some.inj (hother.symm.trans hlatest)
        exact hforeign hkept
      · intro hfirst
        by_contra hforeign
        obtain ⟨id, own, hown, hadmits', -, hrank⟩ := hfirst _ last hlatest hadmits hforeign
        exact absurd (hmax id own hown hadmits') (not_le.mpr hrank)

/-- **Titles run.** -/
theorem Clustered.titlesKept_iff (h : Clustered log) :
    TitlesKept log ↔ ∀ earlier commit later, log = earlier ++ commit :: later →
      OwnTitleFirst earlier commit.envelope := by
  constructor
  · intro hkept earlier commit later hcut
    subst hcut
    exact h.cut.2.title_kept_iff.mp (hkept commit (by simp))
  · intro hfirst commit hmem
    obtain ⟨earlier, later, rfl⟩ := List.append_of_mem hmem
    exact h.cut.2.title_kept_iff.mpr (hfirst earlier commit later rfl)

/-- Every event goes under the title of one of its items. -/
theorem Clustered.exists_opener (h : Clustered log) {commit : Commit} (hmem : commit ∈ log) :
    ∃ opener ∈ log, opener.eventId = commit.eventId ∧
      commit.event.canonicalTitle = opener.envelope.title := by
  cases hlatest : latest Commit.eventId log commit.eventId with
  | none => exact absurd rfl (latest_eq_none_iff.mp hlatest commit hmem)
  | some last =>
      obtain ⟨first, hfirst, htitle⟩ := (h.gathered hlatest).opened
      obtain ⟨opener, hopener, rfl⟩ := List.mem_map.mp (List.mem_of_mem_head? hfirst)
      obtain ⟨hlog, hid⟩ := mem_ofKey.mp hopener
      obtain ⟨hlast, hkey⟩ := latest_mem hlatest
      have hlasting := h.grown.lastingFields_eq commit hmem last hlast hkey.symm
      exact ⟨opener, hlog, hid, (congrArg Prod.fst hlasting).trans htitle⟩

/-- Dates are separate exactly when every item goes to an event under its own
title. -/
theorem Clustered.datesSeparate_iff (h : Clustered log) {seriesId : String}
    (hseries : ∀ commit ∈ log, ∃ date, IsObservation seriesId date commit.envelope) :
    DatesSeparate log ↔ TitlesKept log := by
  constructor
  · intro hdates commit hmem
    obtain ⟨opener, hopener, hid, htitle⟩ := h.exists_opener hmem
    obtain ⟨date, hdate⟩ := hseries commit hmem
    obtain ⟨date', hdate'⟩ := hseries opener hopener
    rw [htitle]
    exact (hdate'.title_eq_iff hdate).mpr (hdates opener hopener commit hmem hid)
  · intro hkept commit hmem commit' hmem' hid
    obtain ⟨date, hdate⟩ := hseries commit hmem
    obtain ⟨date', hdate'⟩ := hseries commit' hmem'
    have hlasting := h.grown.lastingFields_eq commit hmem commit' hmem' hid
    apply (hdate.title_eq_iff hdate').mp
    rw [← hkept commit hmem, ← hkept commit' hmem']
    exact congrArg Prod.fst hlasting

/-- An observation is admitted by every event of its date within the window. -/
theorem Clustered.admits_of_date (h : Clustered log) {seriesId : String}
    (hseries : ∀ commit ∈ log, ∃ date, IsObservation seriesId date commit.envelope)
    (hkept : TitlesKept log) {envelope : RawEnvelope} {date : String}
    (henvelope : IsObservation seriesId date envelope) {newest before : Commit} {id : Uuid}
    (hnewest : latest Commit.eventId log id = some newest)
    (hnear : |envelope.receivedAt - newest.event.lastUpdatedAt| ≤ clusterWindow)
    (hbefore : before ∈ commitsOf log id)
    (hdate : observationDate before.envelope = observationDate envelope) :
    Admits log newest.event envelope := by
  obtain ⟨hmem, hid⟩ := mem_ofKey.mp hbefore
  obtain ⟨hlast, hkey⟩ := latest_mem hnewest
  obtain ⟨date', hdate'⟩ := hseries before hmem
  have htitle : newest.event.canonicalTitle = envelope.title := by
    have hlasting := h.grown.lastingFields_eq newest hlast before hmem (hkey.trans hid.symm)
    calc newest.event.canonicalTitle
        = before.event.canonicalTitle := congrArg Prod.fst hlasting
      _ = before.envelope.title := hkept before hmem
      _ = envelope.title := (hdate'.title_eq_iff henvelope).mpr hdate
  refine ⟨?_, hnear, Or.inr ?_⟩
  · have hcategory := (h.gathered hnewest).category_eq _ (List.mem_map_of_mem hbefore)
    rw [← hcategory, hdate'.category_eq, henvelope.category_eq]
  · rw [SimilarTitle, htitle, henvelope.title_eq,
      jaccard_self (FredObservationProvider.fingerprint_nonempty _ _), similarityThreshold]
    norm_num

/-- Revisions find the event of their date as long as dates are separate. -/
theorem Clustered.revisionsJoin (h : Clustered log) {seriesId : String}
    (hseries : ∀ commit ∈ log, ∃ date, IsObservation seriesId date commit.envelope)
    (hkept : TitlesKept log) : RevisionsJoin log := by
  intro earlier commit later hcut id newest hnewest hnear hex
  obtain ⟨before, hbefore, hdate⟩ := hex
  subst hcut
  obtain ⟨hclustered, hcontinues⟩ := h.cut
  have hearlier : ∀ commit' ∈ earlier, commit' ∈ earlier ++ commit :: later :=
    fun commit' hmem => List.mem_append_left _ hmem
  obtain ⟨date, hobservation⟩ := hseries commit (by simp)
  have hadmits := hclustered.admits_of_date (fun commit' hmem => hseries commit' (hearlier _ hmem))
    (fun commit' hmem => hkept commit' (hearlier _ hmem)) hobservation hnewest hnear hbefore hdate
  cases hcontinues with
  | opening _ _ hnone => exact absurd hadmits (hnone id newest hnewest)
  | @joining last hlatest htitle _ _ =>
      obtain ⟨hlast, hkey⟩ := latest_mem hlatest
      refine ⟨last, mem_ofKey.mpr ⟨hlast, hkey⟩, ?_⟩
      obtain ⟨date', hobservation'⟩ := hseries last (hearlier _ hlast)
      apply (hobservation'.title_eq_iff hobservation).mp
      rw [← hkept last (hearlier _ hlast), ← hkept commit (by simp), htitle]

variable [Digest] [TextParsers]

/-- **Observations by date.**  However observations of one series are polled and
ingested, with persistence or without, they cluster by date if and only if each
new one, when an event of another date admits it, is also admitted by an event
of its own date that ranks higher. -/
theorem clusters_by_date_iff {answers : List IngestAnswer} {service : EventService}
    (h : Reached answers service) {seriesId : String}
    (hseries : ∀ answer ∈ answers, OfSeries seriesId answer.1) :
    ClustersByDate (commitsIn answers) ↔
      ∀ earlier commit later, commitsIn answers = earlier ++ commit :: later →
        OwnTitleFirst earlier commit.envelope := by
  obtain ⟨hclustered, -⟩ := h.clustered
  have hobservations : ∀ commit ∈ commitsIn answers,
      ∃ date, IsObservation seriesId date commit.envelope := by
    intro commit hmem
    obtain ⟨created, hanswer⟩ := mem_commitsIn_iff.mp hmem
    exact (hseries _ hanswer).isObservation
  rw [← hclustered.titlesKept_iff]
  constructor
  · intro hdates
    exact (hclustered.datesSeparate_iff hobservations).mp hdates.dates_separate
  · intro hkept
    exact ⟨(hclustered.datesSeparate_iff hobservations).mpr hkept,
      hclustered.revisionsJoin hobservations hkept⟩

end Dates

section FredSample

/-- The digests of the sample observations. -/
@[reducible] def fredDigest : Digest where
  sha256 text :=
    if text = "4.21" then "627a6b00e3f3c174a2cf9ce0e2c202bd6776190b57e3ca94fc90f7ed37b03a8a"
    else if text = "4.25" then "7a78fdf5c5f9236ebca0556e7c8cb89da75b1001f97ae63c0e1d6d5aebc75a64"
    else if text = "fred dgs10 observation for 2026-08-25\nseries dgs10; " ++
        "observation date 2026-08-25; value 4.21; vintage 2026-08-26 through 2026-08-26." then
      "b6219659c8fbff8a8e4d492f4d6fd50d66d6edf65052ec0dfba23d6602ce024b"
    else if text = "fred dgs10 observation for 2026-08-26\nseries dgs10; " ++
        "observation date 2026-08-26; value 4.25; vintage 2026-08-27 through 2026-08-27." then
      "b88a287fa22f98e47ac0126fbe4fbe6347b004782f66ff3481645dea6c0de5dd"
    else ""

/-- The library's parsers on the texts of the sample observations. -/
@[reducible] def fredParsers : TextParsers where
  int _ := none
  fromisoformat text :=
    if text = "2026-08-25T00:00:00+00:00" then some ⟨1787616000000000, some 0⟩
    else if text = "2026-08-26T00:00:00+00:00" then some ⟨1787702400000000, some 0⟩
    else none
  strptime _ := none

/-- An observation of a daily series, in its first vintage. -/
def dailyRecord (date value vintage : String) : FredRecord where
  date := .ofText date
  value := .ofText value
  realtimeStart := .ofText vintage
  realtimeEnd := .ofText vintage

/-- A poll of a daily series at 15:00 on 2026-08-26, and one 23 hours later. -/
@[reducible] def dailyPolls : List RawEnvelope :=
  letI := asciiTables
  letI := fredDigest
  letI := fredParsers
  (FredObservationProvider.streamItems ⟨"DGS10", 1787756400000000⟩
    [dailyRecord "2026-08-25" "4.21" "2026-08-26"] (fun _ => (1, 0))).yielded ++
  (FredObservationProvider.streamItems ⟨"DGS10", 1787839200000000⟩
    [dailyRecord "2026-08-26" "4.25" "2026-08-27"] (fun _ => (2, 0))).yielded

/-- What an empty service answers to the two polls. -/
@[reducible] def dailyAnswers : List IngestAnswer :=
  letI := asciiTables
  EventService.empty.runAnswers (dailyPolls.zip [7, 8])

/-- Two ids are fresh in an empty service, whatever they are given to. -/
theorem everyStep_freshId_zip [CharacterTables] (envelopes : List RawEnvelope) :
    EveryStep FreshId EventService.empty (envelopes.zip [7, 8]) := by
  rcases envelopes with _ | ⟨first, _ | ⟨second, others⟩⟩
  · trivial
  · exact ⟨List.not_mem_nil, trivial⟩
  · rw [List.zip_cons_cons, List.zip_cons_cons, List.zip_nil_right]
    exact everyStep_freshId_pair first second (by decide)

theorem dailyPolls_reached :
    let _ : CharacterTables := asciiTables
    Reached dailyAnswers (EventService.empty.runInMemory (dailyPolls.zip [7, 8])) := by
  intro _
  exact Reached.inMemory _ (everyStep_freshId_zip dailyPolls)

/-- Both polls are of one series. -/
theorem dailyAnswers_ofSeries :
    let _ : CharacterTables := asciiTables
    let _ : Digest := fredDigest
    let _ : TextParsers := fredParsers
    ∀ answer ∈ dailyAnswers, OfSeries "DGS10" answer.1 := by
  intro _ _ _ answer hmem
  have hstep : answer.1 ∈ (dailyPolls.zip [(7 : Uuid), 8]).map Prod.fst := by
    rw [← EventService.runAnswers_map_fst]
    exact List.mem_map_of_mem hmem
  obtain ⟨step, hzip, hfirst⟩ := List.mem_map.mp hstep
  rw [← hfirst]
  rcases List.mem_append.mp (List.of_mem_zip hzip).1 with hpoll | hpoll
  · exact ⟨_, _, _, hpoll⟩
  · exact ⟨_, _, _, hpoll⟩

theorem clusters_by_date_iff_daily :
    let _ : CharacterTables := asciiTables
    ClustersByDate (commitsIn dailyAnswers) ↔
      ∀ earlier commit later, commitsIn dailyAnswers = earlier ++ commit :: later →
        OwnTitleFirst earlier commit.envelope := by
  intro _
  let _ : Digest := fredDigest
  let _ : TextParsers := fredParsers
  exact clusters_by_date_iff dailyPolls_reached dailyAnswers_ofSeries

theorem dailyAnswers_commits :
    (commitsIn dailyAnswers).map
      (fun commit => (commit.eventId, observationDate commit.envelope)) =
        [(7, some "2026-08-25"), (7, some "2026-08-26")] := by
  decide +kernel

/-- The two days of a daily series become mentions of one event. -/
theorem days_mixed :
    let _ : CharacterTables := asciiTables
    let _ : Digest := fredDigest
    let _ : TextParsers := fredParsers
    (∃ service, Reached dailyAnswers service) ∧
      (∀ answer ∈ dailyAnswers, OfSeries "DGS10" answer.1) ∧
      ¬ClustersByDate (commitsIn dailyAnswers) := by
  intro _ _ _
  refine ⟨⟨_, dailyPolls_reached⟩, dailyAnswers_ofSeries, ?_⟩
  intro hdates
  obtain ⟨first, rest, hcommits, hfirst, hrest⟩ := List.map_eq_cons_iff.mp dailyAnswers_commits
  obtain ⟨second, others, hothers, hsecond, -⟩ := List.map_eq_cons_iff.mp hrest
  obtain ⟨hid, hdate⟩ := Prod.mk.inj hfirst
  obtain ⟨hid', hdate'⟩ := Prod.mk.inj hsecond
  have hmem : first ∈ commitsIn dailyAnswers := by
    rw [hcommits]
    exact List.mem_cons_self
  have hmem' : second ∈ commitsIn dailyAnswers := by
    rw [hcommits, hothers]
    exact List.mem_cons_of_mem first List.mem_cons_self
  have hsame := hdates.dates_separate first hmem second hmem' (hid.trans hid'.symm)
  rw [hdate, hdate'] at hsame
  exact absurd hsame (by decide)

end FredSample

end EventAlpha
