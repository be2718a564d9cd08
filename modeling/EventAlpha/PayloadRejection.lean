import EventAlpha.SecSubmissions
import Mathlib.Data.List.TakeWhile

/-!
# Rejecting a submissions payload

A payload whose arrays differ in length is rejected before anything is yielded.
A record whose values cannot be read raises where the loop meets it, so the
filings before it have been yielded, and ingested, by then.

`rejected_whole_iff` says when a payload is either rejected as a whole or
yielded as a whole: a record the adapter cannot read must not come after one
that it can.
-/

namespace EventAlpha

section Rows

/-- The values of the arrays at an index.  Past the end of an array there is no
value. -/
def SecPayload.recordAt (payload : SecPayload) (index : ℕ) : SecRecord where
  form := payload.form[index]?.join
  accession := payload.accessionNumber[index]?.join
  filingDate := payload.filingDate[index]?.join
  primaryDocument := payload.primaryDocument[index]?.join
  acceptance := payload.acceptanceDateTime[index]?.join

/-- The records of a payload, index by index. -/
def SecPayload.rows (payload : SecPayload) : List SecRecord :=
  (List.range payload.form.length).map payload.recordAt

/-- The arrays have one length; that of the acceptance times may be missing. -/
structure SecPayload.Shaped (payload : SecPayload) : Prop where
  accessionNumber : payload.accessionNumber.length = payload.form.length
  filingDate : payload.filingDate.length = payload.form.length
  primaryDocument : payload.primaryDocument.length = payload.form.length
  acceptance : payload.acceptanceDateTime = [] ∨
    payload.acceptanceDateTime.length = payload.form.length

/-- The records of a payload, array beside array. -/
theorem records_eq {payload : SecPayload} (h : payload.Shaped) {times : List (Option String)}
    (hlength : times.length = payload.form.length)
    (htimes : ∀ index : ℕ, times[index]?.join = payload.acceptanceDateTime[index]?.join) :
    SecSubmissionsProvider.records payload times = payload.rows := by
  refine List.ext_getElem ?_ ?_
  · simp [SecSubmissionsProvider.records, SecPayload.rows, h.accessionNumber, h.filingDate,
      h.primaryDocument, hlength]
  · intro index hleft hright
    have hindex : index < payload.form.length := by
      simpa [SecPayload.rows] using hright
    have htime := htimes index
    rw [List.getElem?_eq_getElem (hlength ▸ hindex)] at htime
    simp [SecSubmissionsProvider.records, SecPayload.rows, SecPayload.recordAt,
      h.accessionNumber, h.filingDate, h.primaryDocument, hindex, ← htime]

theorem filings_eq_rows {payload : SecPayload} (h : payload.Shaped) :
    payload.filings = payload.rows := by
  have hlengths : ¬(payload.accessionNumber.length ≠ payload.form.length ∨
      payload.filingDate.length ≠ payload.form.length ∨
      payload.primaryDocument.length ≠ payload.form.length) := by
    simp [h.accessionNumber, h.filingDate, h.primaryDocument]
  unfold SecPayload.filings
  simp only [if_neg hlengths]
  by_cases hnil : payload.acceptanceDateTime = []
  · rw [if_pos hnil]
    refine records_eq h List.length_replicate (fun index => ?_)
    rw [hnil, List.getElem?_replicate]
    split <;> rfl
  · have hlength := h.acceptance.resolve_left hnil
    rw [if_neg hnil, if_neg (not_not.mpr hlength)]
    exact records_eq h hlength (fun _ => rfl)

end Rows

section Records

/-- A step with a result goes on with it. -/
theorem bind_eq_ok {α β : Type} {step : Except SecError α} {next : α → Except SecError β}
    {a : α} {b : β} (hstep : step = .ok a) (hnext : next a = .ok b) : step >>= next = .ok b := by
  rw [hstep]
  exact hnext

variable [CharacterTables] [Digest] [TextParsers]

/-- The address of a document in the archive. -/
def archiveUrl (cik : Int) (accession : String) (primaryDocument : Option String) : String :=
  "https://www.sec.gov/Archives/edgar/data/" ++ toString cik ++ "/" ++
    String.ofList (accession.toList.filter (· ≠ '-')) ++ "/" ++ formatText primaryDocument

/-- The envelope built from the values of a record. -/
structure BuiltFromRecord (provider : SecSubmissionsProvider) (record : SecRecord)
    (envelope : RawEnvelope) : Prop where
  form_eq : envelope.attribute "form" = record.form
  accession_eq : envelope.nativeId = record.accession
  filingDate_eq : envelope.attribute "filing_date" = record.filingDate
  url_eq : ∃ cik accession, TextParsers.int (zfill 10 provider.cik) = some cik ∧
    record.accession = some accession ∧
    envelope.url = archiveUrl cik accession record.primaryDocument
  publishedAt_eq : secAcceptanceTime record.acceptance = .ok envelope.publishedAt
  eventTime_eq : ∃ filingDay eventTime, TextParsers.fromisoformat
      (formatText record.filingDate ++ "T00:00:00+00:00") = some filingDay ∧
    envelope.publishedAt.elim (asUtc filingDay) .ok = .ok eventTime ∧
    envelope.eventTime = some eventTime

/-- The values of a record are there, can be parsed, and fit the contract. -/
structure SecRecord.Readable (provider : SecSubmissionsProvider) (company : String)
    (record : SecRecord) : Prop where
  accepted_of : ∃ acceptedAt, secAcceptanceTime record.acceptance = .ok acceptedAt ∧
    (SecSubmissionsProvider.content record acceptedAt).length ≤ 10000
  address : ∃ cik accession, TextParsers.int (zfill 10 provider.cik) = some cik ∧
    record.accession = some accession ∧
    (archiveUrl cik accession record.primaryDocument).length ≤ 2000
  day : ∃ filingDay, TextParsers.fromisoformat
      (formatText record.filingDate ++ "T00:00:00+00:00") = some filingDay ∧
    (secAcceptanceTime record.acceptance = .ok none →
      ∃ eventTime, asUtc filingDay = .ok eventTime)
  filingDate : record.filingDate ≠ none
  title : (SecSubmissionsProvider.title company (formatText record.form)).length ≤ 1000

/-- What the steps of building the envelope of a filing read and parse. -/
structure FilingParts where
  acceptedAt : Option UtcDatetime
  accession : String
  cik : Int
  filingDay : PyDatetime
  eventTime : UtcDatetime
  filingDate : String

/-- Each step gives its part. -/
structure FilingParts.Read (parts : FilingParts) (provider : SecSubmissionsProvider)
    (record : SecRecord) : Prop where
  acceptedAt : secAcceptanceTime record.acceptance = .ok parts.acceptedAt
  accession : record.accession = some parts.accession
  cik : TextParsers.int (zfill 10 provider.cik) = some parts.cik
  filingDay : TextParsers.fromisoformat
    (formatText record.filingDate ++ "T00:00:00+00:00") = some parts.filingDay
  eventTime : parts.acceptedAt.elim (asUtc parts.filingDay) .ok = .ok parts.eventTime
  filingDate : record.filingDate = some parts.filingDate

omit [TextParsers] in
/-- The fields made of the parts. -/
def FilingParts.fields (parts : FilingParts) (provider : SecSubmissionsProvider)
    (company form : String) (draw : Draw) (record : SecRecord) : RawEnvelopeFields where
  id := draw.1
  traceId := draw.2
  provider := "sec-edgar"
  sourceId := "sec-edgar"
  sourceType := "regulatory_filing"
  nativeId := some parts.accession
  eventTime := some parts.eventTime
  publishedAt := parts.acceptedAt
  receivedAt := provider.observedAt
  processedAt := provider.observedAt
  title := SecSubmissionsProvider.title company form
  content := SecSubmissionsProvider.content record parts.acceptedAt
  url := archiveUrl parts.cik parts.accession record.primaryDocument
  language := "en"
  category := "company_filing"
  contentHash := digest (SecSubmissionsProvider.title company form)
    (SecSubmissionsProvider.content record parts.acceptedAt)
  storagePolicy := .metadataAndDerivedOnly
  derivedAttributes := [("form", form), ("accession", parts.accession),
    ("filing_date", parts.filingDate),
    ("accepted_at", (parts.acceptedAt.map CivilTime.isoformat).getD "")]

variable {provider : SecSubmissionsProvider} {company form : String} {draw : Draw}
  {record : SecRecord}

/-- Fields are built only of parts that could be read. -/
theorem envelopeFields_eq_ok_iff {fields : RawEnvelopeFields} :
    provider.envelopeFields company form draw record = .ok fields ↔
      ∃ parts : FilingParts, parts.Read provider record ∧
        fields = parts.fields provider company form draw record := by
  constructor
  · intro hfields
    obtain ⟨acceptedAt, hacceptedAt, hfields⟩ := exists_of_bind_eq_ok hfields
    obtain ⟨accession, haccession, hfields⟩ := exists_of_bind_eq_ok hfields
    obtain ⟨cik, hcik, hfields⟩ := exists_of_bind_eq_ok hfields
    obtain ⟨filingDay, hfilingDay, hfields⟩ := exists_of_bind_eq_ok hfields
    obtain ⟨eventTime, heventTime, hfields⟩ := exists_of_bind_eq_ok hfields
    obtain ⟨filingDate, hfilingDate, hfields⟩ := exists_of_bind_eq_ok hfields
    refine ⟨⟨acceptedAt, accession, cik, filingDay, eventTime, filingDate⟩,
      ⟨hacceptedAt, eq_some_of_elim haccession, eq_some_of_elim hcik,
        eq_some_of_elim hfilingDay, heventTime, eq_some_of_elim hfilingDate⟩, ?_⟩
    cases hfields
    rfl
  · intro hex
    obtain ⟨parts, hread, rfl⟩ := hex
    refine bind_eq_ok hread.acceptedAt ?_
    refine bind_eq_ok (by rw [hread.accession]; rfl) ?_
    refine bind_eq_ok (by rw [hread.cik]; rfl) ?_
    refine bind_eq_ok (by rw [hread.filingDay]; rfl) ?_
    refine bind_eq_ok hread.eventTime ?_
    refine bind_eq_ok (by rw [hread.filingDate]; rfl) ?_
    rfl

/-- An envelope is built of parts that fit the contract. -/
theorem envelope_eq_ok_iff {envelope : RawEnvelope} :
    provider.envelope company form draw record = .ok envelope ↔
      ∃ parts : FilingParts, parts.Read provider record ∧
        envelope.toRawEnvelopeFields = parts.fields provider company form draw record := by
  constructor
  · intro h
    obtain ⟨fields, hfields, hvalidate⟩ := exists_of_bind_eq_ok h
    obtain ⟨parts, hread, rfl⟩ := envelopeFields_eq_ok_iff.mp hfields
    have hvalid := eq_some_of_elim hvalidate
    unfold RawEnvelope.validate at hvalid
    split at hvalid
    · cases hvalid
      exact ⟨parts, hread, rfl⟩
    · cases hvalid
  · intro hex
    obtain ⟨parts, hread, hfields⟩ := hex
    have hvalid : RawEnvelope.validate envelope.toRawEnvelopeFields = some envelope :=
      dif_pos envelope.accepted
    rw [hfields] at hvalid
    refine bind_eq_ok (envelopeFields_eq_ok_iff.mpr ⟨parts, hread, rfl⟩) ?_
    rw [hvalid]
    rfl

/-- The envelope of a filing is built from its record. -/
theorem builtFromRecord_of_envelope {envelope : RawEnvelope} (hform : record.form = some form)
    (h : provider.envelope company form draw record = .ok envelope) :
    BuiltFromRecord provider record envelope := by
  obtain ⟨parts, hread, hfields⟩ := envelope_eq_ok_iff.mp h
  refine ⟨?_, ?_, ?_, ⟨parts.cik, parts.accession, hread.cik, hread.accession, ?_⟩, ?_,
    ⟨parts.filingDay, parts.eventTime, hread.filingDay, ?_, ?_⟩⟩
  · rw [RawEnvelope.attribute, hfields, hform]
    rfl
  · rw [hfields, hread.accession]
    rfl
  · rw [RawEnvelope.attribute, hfields, hread.filingDate]
    rfl
  · rw [hfields]
    rfl
  · rw [hfields]
    exact hread.acceptedAt
  · rw [hfields]
    exact hread.eventTime
  · rw [hfields]
    rfl

omit [TextParsers] in
/-- The contract looks at three lengths. -/
theorem FilingParts.accepted_iff (hdigest : ∀ text, isHexDigest (Digest.sha256 text) = true)
    (parts : FilingParts) :
    (parts.fields provider company form draw record).Accepted ↔
      (SecSubmissionsProvider.title company form).length ≤ 1000 ∧
      (SecSubmissionsProvider.content record parts.acceptedAt).length ≤ 10000 ∧
      (archiveUrl parts.cik parts.accession record.primaryDocument).length ≤ 2000 := by
  have hleft : ∀ left right : String, 1 ≤ left.length → 1 ≤ (left ++ right).length := by
    intro left right h
    rw [String.length_append]
    omega
  have htitle : 1 ≤ (SecSubmissionsProvider.title company form).length := by
    refine hleft _ _ ?_
    rw [String.length_append]
    exact Nat.le_add_left_of_le (by decide)
  have hcontent : 1 ≤ (SecSubmissionsProvider.content record parts.acceptedAt).length := by
    unfold SecSubmissionsProvider.content
    iterate 8 refine hleft _ _ ?_
    decide
  have hurl : 1 ≤ (archiveUrl parts.cik parts.accession record.primaryDocument).length := by
    unfold archiveUrl
    iterate 5 refine hleft _ _ ?_
    decide
  have htype : 1 ≤ "regulatory_filing".length ∧ "regulatory_filing".length ≤ 100 := by decide
  have hlanguage : 2 ≤ "en".length ∧ "en".length ≤ 10 := by decide
  have hcategory : 1 ≤ "company_filing".length ∧ "company_filing".length ≤ 100 := by decide
  constructor
  · intro hex
    obtain ⟨-, -, ⟨-, htitleLe⟩, ⟨-, hcontentLe⟩, ⟨-, hurlLe⟩, -⟩ := hex
    exact ⟨htitleLe, hcontentLe, hurlLe⟩
  · intro hex
    obtain ⟨htitleLe, hcontentLe, hurlLe⟩ := hex
    exact ⟨htype, PyFloat.half_accepted, ⟨htitle, htitleLe⟩, ⟨hcontent, hcontentLe⟩,
      ⟨hurl, hurlLe⟩, hlanguage, hcategory, hdigest _⟩

/-- The records that can be read are those whose envelope is built. -/
theorem builds_iff_readable (hdigest : ∀ text, isHexDigest (Digest.sha256 text) = true)
    (provider : SecSubmissionsProvider) (company : String) (record : SecRecord) :
    provider.Builds company record ↔ record.Readable provider company := by
  constructor
  · intro h
    cases henvelope : provider.envelope company (formatText record.form) (0, 0) record with
    | error error =>
        rw [SecSubmissionsProvider.Builds, henvelope] at h
        cases h
    | ok envelope =>
        obtain ⟨parts, hread, hfields⟩ := envelope_eq_ok_iff.mp henvelope
        have haccepted := envelope.accepted
        rw [hfields, parts.accepted_iff hdigest] at haccepted
        obtain ⟨htitle, hcontent, hurl⟩ := haccepted
        refine ⟨⟨parts.acceptedAt, hread.acceptedAt, hcontent⟩,
          ⟨parts.cik, parts.accession, hread.cik, hread.accession, hurl⟩,
          ⟨parts.filingDay, hread.filingDay, ?_⟩, ?_, htitle⟩
        · intro hnone
          have htime := hread.eventTime
          rw [Except.ok.inj (hread.acceptedAt.symm.trans hnone)] at htime
          exact ⟨parts.eventTime, htime⟩
        · rw [hread.filingDate]
          exact Option.some_ne_none _
  · intro hex
    obtain ⟨⟨acceptedAt, hacceptedAt, hcontent⟩, ⟨cik, accession, hcik, haccession, hurl⟩,
      ⟨filingDay, hfilingDay, hday⟩, hfilingDate, htitle⟩ := hex
    obtain ⟨filingDate, hfilingDate⟩ := Option.ne_none_iff_exists'.mp hfilingDate
    have htime : ∃ eventTime, acceptedAt.elim (asUtc filingDay) Except.ok = .ok eventTime := by
      cases acceptedAt with
      | none => exact hday hacceptedAt
      | some instant => exact ⟨instant, rfl⟩
    obtain ⟨eventTime, heventTime⟩ := htime
    let parts : FilingParts := ⟨acceptedAt, accession, cik, filingDay, eventTime, filingDate⟩
    have hread : parts.Read provider record :=
      ⟨hacceptedAt, haccession, hcik, hfilingDay, heventTime, hfilingDate⟩
    have haccepted : (parts.fields provider company (formatText record.form) (0, 0)
        record).Accepted := (parts.accepted_iff hdigest).mpr ⟨htitle, hcontent, hurl⟩
    have henvelope : provider.envelope company (formatText record.form) (0, 0) record =
        .ok ⟨_, haccepted⟩ := envelope_eq_ok_iff.mpr ⟨parts, hread, rfl⟩
    rw [SecSubmissionsProvider.Builds, henvelope]
    rfl

end Records

section Rejection

variable [CharacterTables] [Digest] [TextParsers]

/-- The filings of a payload the adapter has envelopes for. -/
def SecPayload.acceptedRows (payload : SecPayload) : List SecRecord :=
  payload.rows.filter (fun record => record.Accepted)

/-- The stream raises before its first envelope. -/
def SecStream.Rejected (stream : SecStream) : Prop :=
  stream.yielded = [] ∧ stream.error ≠ none

/-- The stream yields one envelope for each of the records, in order. -/
def SecStream.Complete (stream : SecStream) (provider : SecSubmissionsProvider)
    (records : List SecRecord) : Prop :=
  stream.error = none ∧ List.Forall₂ (BuiltFromRecord provider) records stream.yielded

/-- The loop raises if it does not get to the end of every filing. -/
theorem streamRecords_error_iff {provider : SecSubmissionsProvider} {company : String}
    {draws : ℕ → Draw} (yielded : ℕ) (records : List SecRecord) :
    (provider.streamRecords company draws yielded records).error = none ↔
      ∀ record ∈ records.filter (fun record => record.Accepted),
        provider.Builds company record := by
  induction records generalizing yielded with
  | nil => simp [SecSubmissionsProvider.streamRecords]
  | cons record records ih =>
      rcases streamRecords_cons company yielded record records with
        ⟨hskipped, hstream⟩ | ⟨hkept, hraises, error, hstream⟩ |
          ⟨hkept, hbuilds, form, haccepted, envelope, hform, henvelope, hstream⟩
      · rw [hstream, List.filter_cons_of_neg (by simpa using hskipped)]
        exact ih yielded
      · rw [hstream, List.filter_cons_of_pos (by simpa using hkept), List.forall_mem_cons]
        exact iff_of_false (by simp) (fun h => hraises h.1)
      · rw [hstream, List.filter_cons_of_pos (by simpa using hkept), List.forall_mem_cons,
          iff_true_intro hbuilds, true_and]
        exact ih (yielded + 1)

/-- The stream of a payload: rejected for its lengths, or the loop over its rows. -/
theorem streamItems_eq (provider : SecSubmissionsProvider) (payload : SecPayload)
    (draws : ℕ → Draw) :
    (¬payload.Shaped ∧ (provider.streamItems payload draws).Rejected) ∨
      (payload.Shaped ∧ provider.streamItems payload draws =
        provider.streamRecords (provider.company payload) draws 0 payload.rows) := by
  by_cases hshaped : payload.Shaped
  · refine .inr ⟨hshaped, ?_⟩
    rw [← filings_eq_rows hshaped]
    have hlengths : ¬(payload.accessionNumber.length ≠ payload.form.length ∨
        payload.filingDate.length ≠ payload.form.length ∨
        payload.primaryDocument.length ≠ payload.form.length) := by
      simp [hshaped.accessionNumber, hshaped.filingDate, hshaped.primaryDocument]
    unfold SecSubmissionsProvider.streamItems SecPayload.filings
    simp only [if_neg hlengths]
    by_cases hnil : payload.acceptanceDateTime = []
    · rw [if_pos hnil, if_pos hnil]
    · have hlength := hshaped.acceptance.resolve_left hnil
      rw [if_neg hnil, if_neg hnil, if_neg (not_not.mpr hlength), if_neg (not_not.mpr hlength)]
  · refine .inl ⟨hshaped, ?_⟩
    unfold SecSubmissionsProvider.streamItems
    simp only
    split
    case isTrue => exact ⟨rfl, Option.some_ne_none _⟩
    case isFalse hlengths =>
      simp only [not_or, not_not] at hlengths
      obtain ⟨haccession, hfilingDate, hdocument⟩ := hlengths
      have hacceptance := fun h => hshaped ⟨haccession, hfilingDate, hdocument, h⟩
      rw [if_neg (fun hnil => hacceptance (.inl hnil)),
        if_pos (fun hlength => hacceptance (.inr hlength))]
      exact ⟨rfl, Option.some_ne_none _⟩

/-- **Rejection as a whole.**  A payload is rejected before its first envelope or
yielded to its last one exactly if its arrays differ in length, its first filing
cannot be read, or all of its filings can. -/
theorem rejected_whole_iff (hdigest : ∀ text, isHexDigest (Digest.sha256 text) = true)
    (provider : SecSubmissionsProvider) (payload : SecPayload) (draws : ℕ → Draw) :
    ((provider.streamItems payload draws).Rejected ∨
        (provider.streamItems payload draws).Complete provider payload.acceptedRows) ↔
      (payload.Shaped →
        (∀ record ∈ payload.acceptedRows.head?,
          record.Readable provider (provider.company payload)) →
        ∀ record ∈ payload.acceptedRows,
          record.Readable provider (provider.company payload)) := by
  rcases streamItems_eq provider payload draws with ⟨hshaped, hrejected⟩ | ⟨hshaped, hstream⟩
  · exact iff_of_true (.inl hrejected) (fun h => absurd h hshaped)
  · have herror : (provider.streamItems payload draws).error = none ↔
        ∀ record ∈ payload.acceptedRows, provider.Builds (provider.company payload) record := by
      rw [hstream]
      exact streamRecords_error_iff 0 payload.rows
    have hyielded : List.Forall₂ (BuiltFromRecord provider)
        (payload.acceptedRows.takeWhile (fun record =>
          provider.Builds (provider.company payload) record))
        (provider.streamItems payload draws).yielded := by
      rw [hstream]
      exact streamRecords_forall₂ (fun _ _ _ _ hform _ => builtFromRecord_of_envelope hform) 0
        payload.rows
    simp only [← builds_iff_readable hdigest, iff_true_intro hshaped, true_imp_iff]
    rw [SecStream.Rejected, SecStream.Complete, herror]
    cases hrows : payload.acceptedRows with
    | nil =>
        rw [hrows] at hyielded
        exact iff_of_true (.inr ⟨by simp, hyielded⟩) (by simp)
    | cons first rest =>
        rw [hrows] at hyielded
        simp only [List.head?_cons, Option.mem_some_iff, forall_eq']
        by_cases hfirst : provider.Builds (provider.company payload) first
        · rw [List.takeWhile_cons_of_pos (by simpa using hfirst)] at hyielded
          have hne : (provider.streamItems payload draws).yielded ≠ [] := by
            intro hnil
            rw [hnil] at hyielded
            cases hyielded
          rw [iff_true_intro hfirst, true_imp_iff]
          constructor
          · intro hor
            rcases hor with ⟨hnil, -⟩ | ⟨hall, -⟩
            · exact absurd hnil hne
            · exact hall
          · intro hall
            refine .inr ⟨hall, ?_⟩
            rwa [List.takeWhile_eq_self_iff.mpr
              (fun record hmem => decide_eq_true (hall record (List.mem_cons_of_mem _ hmem)))]
              at hyielded
        · rw [List.takeWhile_cons_of_neg (by simpa using hfirst)] at hyielded
          have hmem : first ∈ payload.acceptedRows := by
            rw [hrows]
            exact List.mem_cons_self
          exact iff_of_true (.inl ⟨List.forall₂_nil_left_iff.mp hyielded,
            fun hnone => hfirst (herror.mp hnone first hmem)⟩) (fun h => absurd h hfirst)

end Rejection

section SampleRejection

/-- The digests of the sample filings, and a digest of the empty text for others. -/
@[reducible] def rejectionDigest : Digest where
  sha256 text :=
    if filingDigest.sha256 text = "" then
      "e3b0c44298fc1c149afbf4c8996fb92427ae41e4649b934ca495991b7852b855"
    else filingDigest.sha256 text

theorem rejectionDigest_isHexDigest (text : String) :
    isHexDigest (rejectionDigest.sha256 text) = true := by
  have hfiling : filingDigest.sha256 text = "" ∨
      isHexDigest (filingDigest.sha256 text) = true := by
    show (if _ then _ else if _ then _ else "") = "" ∨ isHexDigest (if _ then _ else _) = true
    split
    · exact .inr (by decide +kernel)
    · split
      · exact .inr (by decide +kernel)
      · exact .inl rfl
  show isHexDigest (if filingDigest.sha256 text = "" then _ else _) = true
  split
  case isTrue => decide +kernel
  case isFalse hother => exact hfiling.resolve_left hother

/-- The sample payload with a date that is none at the second filing. -/
def tornPayload : SecPayload :=
  { samplePayload with filingDate := [some "2026-08-26", some "yesterday"] }

theorem tornPayload_stream :
    let _ : CharacterTables := asciiTables
    let _ : Digest := rejectionDigest
    let _ : TextParsers := filingParsers
    (sampleProvider.streamItems tornPayload sampleDraws).yielded.map
        (fun envelope => envelope.nativeId) = [some "0001-26-000001"] ∧
      (sampleProvider.streamItems tornPayload sampleDraws).error = some (.valueError none) := by
  decide +kernel

end SampleRejection

theorem rejected_whole_iff_samplePayload :
    let _ : CharacterTables := asciiTables
    let _ : Digest := rejectionDigest
    let _ : TextParsers := filingParsers
    ((sampleProvider.streamItems samplePayload sampleDraws).Rejected ∨
        (sampleProvider.streamItems samplePayload sampleDraws).Complete sampleProvider
          samplePayload.acceptedRows) ↔
      (samplePayload.Shaped →
        (∀ record ∈ samplePayload.acceptedRows.head?,
          record.Readable sampleProvider (sampleProvider.company samplePayload)) →
        ∀ record ∈ samplePayload.acceptedRows,
          record.Readable sampleProvider (sampleProvider.company samplePayload)) := by
  intro _ _ _
  exact rejected_whole_iff rejectionDigest_isHexDigest sampleProvider samplePayload sampleDraws

/-- A payload with a malformed date is yielded in part. -/
theorem tornPayload_yielded_in_part :
    let _ : CharacterTables := asciiTables
    let _ : Digest := rejectionDigest
    let _ : TextParsers := filingParsers
    let stream := sampleProvider.streamItems tornPayload sampleDraws
    stream.yielded.map (fun envelope => envelope.nativeId) = [some "0001-26-000001"] ∧
      stream.error = some (.valueError none) ∧
      ¬(stream.Rejected ∨ stream.Complete sampleProvider tornPayload.acceptedRows) := by
  -- No `intro`: with named instances the kernel would run the stream to compare it.
  obtain ⟨hyielded, herror⟩ := tornPayload_stream
  refine ⟨hyielded, herror, fun hor => ?_⟩
  rcases hor with ⟨hnil, -⟩ | ⟨hnone, -⟩
  · rw [hnil] at hyielded
    exact absurd hyielded (by simp)
  · rw [hnone] at herror
    exact absurd herror (by simp)

end EventAlpha
