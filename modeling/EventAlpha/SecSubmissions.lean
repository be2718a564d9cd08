import EventAlpha.CivilTime
import EventAlpha.EventStoreInvariant

/-!
# SEC filings

The adapter that turns a submissions payload of the SEC into envelopes, and
what the event clusterer makes of them.

The adapter puts the form of a filing into its title, `ACME Corp files 8-K`.
The clusterer drops tokens of at most two characters, and every accepted form
falls apart into such tokens, so all filings of a payload have the same
fingerprint.  They also share their category and their moment of receipt.  Any
two of them that are new therefore join one event, and `filings_distinct_iff`
says that different filings are kept apart only where the identity index keeps
one of them from being ingested at all.

The parsers of the standard library are the class `TextParsers`.  Nothing is
assumed of them.
-/

namespace EventAlpha

open KeyedOrder VersionLog

section Parsing

/-- A date and time as the library parses it: the wall clock in microseconds,
and the offset from UTC if the text names one. -/
structure PyDatetime where
  wall : Int
  offset : Option Int
  deriving DecidableEq, Repr

/-- The parsers of the standard library.  Text they reject is `none`. -/
class TextParsers where
  int : String → Option Int
  fromisoformat : String → Option PyDatetime
  /-- `datetime.strptime(text, "%Y%m%d%H%M%S")`. -/
  strptime : String → Option Int

/-- How `stream_items` can raise. -/
inductive SecError
  | valueError (message : Option String)
  | attributeError
  | overflowError
  | validationError
  deriving DecidableEq, Repr

/-- `astimezone(UTC)`, within the years 1 to 9999. -/
def astimezone (wall offset : Int) : Except SecError UtcDatetime :=
  if wall - offset < -62135596800000000 ∨ 253402300799999999 < wall - offset then
    .error .overflowError
  else .ok (wall - offset)

/-- `_utc`: a naive time is one of UTC. -/
def utc (value : PyDatetime) : Except SecError UtcDatetime :=
  match value.offset with
  | none => .ok value.wall
  | some offset => astimezone value.wall offset

/-- `_as_utc` of the contracts: a naive time is rejected. -/
def asUtc (value : PyDatetime) : Except SecError UtcDatetime :=
  match value.offset with
  | none => .error .validationError
  | some offset => astimezone value.wall offset

/-- A step that does not raise has a result the next step takes. -/
theorem exists_of_bind_eq_ok {α β : Type} {step : Except SecError α}
    {next : α → Except SecError β} {b : β} (h : step >>= next = .ok b) :
    ∃ a, step = .ok a ∧ next a = .ok b := by
  cases step with
  | error error => cases h
  | ok a => exact ⟨a, rfl, h⟩

/-- A value that must be there is there when no step raises. -/
theorem eq_some_of_elim {α : Type} {value : Option α} {error : SecError} {a : α}
    (h : value.elim (.error error) .ok = Except.ok a) : value = some a := by
  cases value with
  | none => cases h
  | some b =>
      cases h
      rfl

variable [CharacterTables]

/-- `str.strip()`. -/
def strip (text : String) : String :=
  String.ofList ((text.toList.dropWhile CharacterTables.isspace).reverse.dropWhile
    CharacterTables.isspace).reverse

/-- `str.casefold()`. -/
def casefold (text : String) : String :=
  String.ofList (text.toList.flatMap CharacterTables.casefold)

/-- `_digest`: the content hash of a title and a content. -/
def digest [Digest] (title content : String) : String :=
  Digest.sha256 (casefold (strip title) ++ "\n" ++ casefold (strip content))

variable [TextParsers]

/-- `_sec_acceptance_time`. -/
def secAcceptanceTime (value : Option String) : Except SecError (Option UtcDatetime) :=
  match value with
  | none => .ok none
  | some text =>
      if text = "" then .ok none
      else
        let normalized := String.ofList ((strip text).toList.flatMap
          (fun c => if c = 'Z' then "+00:00".toList else [c]))
        match TextParsers.fromisoformat normalized with
        | some parsed => (utc parsed).map some
        | none =>
            match TextParsers.strptime normalized with
            | some wall => .ok (some wall)
            | none => .error (.valueError none)

end Parsing

section Adapter

/-- The parts of a submissions payload the adapter reads.  A missing array is
empty. -/
structure SecPayload where
  name : Option String
  form : List (Option String)
  accessionNumber : List (Option String)
  filingDate : List (Option String)
  primaryDocument : List (Option String)
  acceptanceDateTime : List (Option String) := []

/-- One filing: the values of the arrays at one index. -/
structure SecRecord where
  form : Option String
  accession : Option String
  filingDate : Option String
  primaryDocument : Option String
  acceptance : Option String
  deriving DecidableEq

/-- The provider, with its clock read at the start of the stream. -/
structure SecSubmissionsProvider where
  cik : String
  observedAt : UtcDatetime

/-- `cik.zfill(10)`: zeros go behind a leading sign. -/
def zfill (width : ℕ) (text : String) : String :=
  let zeros := List.replicate (width - text.length) '0'
  match text.toList with
  | '+' :: rest => String.ofList ('+' :: zeros ++ rest)
  | '-' :: rest => String.ofList ('-' :: zeros ++ rest)
  | characters => String.ofList (zeros ++ characters)

/-- The text of a value in a format string. -/
def formatText (value : Option String) : String := value.getD "None"

/-- The forms the adapter accepts. -/
def acceptedForms : List String := ["8-K", "10-K", "10-Q", "6-K", "20-F"]

/-- What a stream yielded, and how it ended. -/
structure SecStream where
  yielded : List RawEnvelope
  error : Option SecError
  deriving DecidableEq

/-- The identifiers `uuid4` draws for one envelope: its own and its trace. -/
abbrev Draw := Uuid × Uuid

namespace SecSubmissionsProvider

/-- The name of the company, or its number. -/
def company (provider : SecSubmissionsProvider) (payload : SecPayload) : String :=
  orElseText payload.name ("CIK " ++ zfill 10 provider.cik)

/-- The title of a filing. -/
def title (company form : String) : String := company ++ " files " ++ form

/-- The content of a filing. -/
def content (record : SecRecord) (acceptedAt : Option UtcDatetime) : String :=
  "SEC filing " ++ formatText record.accession ++ "; form " ++ formatText record.form ++
    "; filing date " ++ formatText record.filingDate ++ "; accepted at " ++
    (match acceptedAt with
      | some instant => CivilTime.isoformat instant
      | none => "unavailable") ++ "."

variable [CharacterTables] [Digest] [TextParsers]

/-- The fields of the envelope of a filing, or how building it raises. -/
def envelopeFields (provider : SecSubmissionsProvider) (company form : String)
    (draw : Draw) (record : SecRecord) : Except SecError RawEnvelopeFields := do
  let acceptedAt ← secAcceptanceTime record.acceptance
  let accession ← record.accession.elim (.error .attributeError) .ok
  let cik ← (TextParsers.int (zfill 10 provider.cik)).elim (.error (.valueError none)) .ok
  let filingDay ← (TextParsers.fromisoformat
    (formatText record.filingDate ++ "T00:00:00+00:00")).elim (.error (.valueError none)) .ok
  let eventTime ← acceptedAt.elim (asUtc filingDay) .ok
  let filingDate ← record.filingDate.elim (.error .validationError) .ok
  return {
    id := draw.1
    traceId := draw.2
    provider := "sec-edgar"
    sourceId := "sec-edgar"
    sourceType := "regulatory_filing"
    nativeId := some accession
    eventTime := some eventTime
    publishedAt := acceptedAt
    receivedAt := provider.observedAt
    processedAt := provider.observedAt
    title := title company form
    content := content record acceptedAt
    url := "https://www.sec.gov/Archives/edgar/data/" ++ toString cik ++ "/" ++
      String.ofList (accession.toList.filter (· ≠ '-')) ++ "/" ++
      formatText record.primaryDocument
    language := "en"
    category := "company_filing"
    contentHash := digest (title company form) (content record acceptedAt)
    storagePolicy := .metadataAndDerivedOnly
    derivedAttributes := [("form", form), ("accession", accession),
      ("filing_date", filingDate),
      ("accepted_at", (acceptedAt.map CivilTime.isoformat).getD "")] }

/-- The envelope of a filing, or how building it raises. -/
def envelope (provider : SecSubmissionsProvider) (company form : String)
    (draw : Draw) (record : SecRecord) : Except SecError RawEnvelope := do
  let fields ← provider.envelopeFields company form draw record
  (RawEnvelope.validate fields).elim (.error .validationError) .ok

/-- The loop of `stream_items`.  A filing of another form is skipped; an
exception ends the stream after what was yielded before. -/
def streamRecords (provider : SecSubmissionsProvider) (company : String)
    (draws : ℕ → Draw) : ℕ → List SecRecord → SecStream
  | _, [] => ⟨[], none⟩
  | yielded, record :: records =>
      match record.form with
      | none => streamRecords provider company draws yielded records
      | some form =>
          if form ∈ acceptedForms then
            match provider.envelope company form (draws yielded) record with
            | .error error => ⟨[], some error⟩
            | .ok envelope =>
                let rest := streamRecords provider company draws (yielded + 1) records
                ⟨envelope :: rest.yielded, rest.error⟩
          else streamRecords provider company draws yielded records

omit [CharacterTables] [Digest] [TextParsers] in
/-- The lengths of the required arrays, as the exception prints them. -/
def lengthsText (payload : SecPayload) : String :=
  "\x7b'form': " ++ toString payload.form.length ++
    ", 'accessionNumber': " ++ toString payload.accessionNumber.length ++
    ", 'filingDate': " ++ toString payload.filingDate.length ++
    ", 'primaryDocument': " ++ toString payload.primaryDocument.length ++ "\x7d"

omit [CharacterTables] [Digest] [TextParsers] in
/-- The filings of a payload: the arrays side by side. -/
def records (payload : SecPayload) (acceptanceTimes : List (Option String)) : List SecRecord :=
  (payload.form.zip (payload.accessionNumber.zip (payload.filingDate.zip
    (payload.primaryDocument.zip acceptanceTimes)))).map
    (fun row => ⟨row.1, row.2.1, row.2.2.1, row.2.2.2.1, row.2.2.2.2⟩)

/-- `stream_items` on a payload. -/
def streamItems (provider : SecSubmissionsProvider) (payload : SecPayload)
    (draws : ℕ → Draw) : SecStream :=
  let length := payload.form.length
  if payload.accessionNumber.length ≠ length ∨ payload.filingDate.length ≠ length ∨
      payload.primaryDocument.length ≠ length then
    ⟨[], some (.valueError (some ("SEC recent filing arrays have inconsistent lengths: " ++
      lengthsText payload)))⟩
  else if payload.acceptanceDateTime = [] then
    streamRecords provider (provider.company payload) draws 0
      (records payload (List.replicate length none))
  else if payload.acceptanceDateTime.length ≠ length then
    ⟨[], some (.valueError (some
      "SEC acceptanceDateTime length does not match filing records"))⟩
  else
    streamRecords provider (provider.company payload) draws 0
      (records payload payload.acceptanceDateTime)

end SecSubmissionsProvider

end Adapter

section Filings

/-- The adapter goes on to build an envelope for a filing of this form. -/
def SecRecord.Accepted (record : SecRecord) : Prop := ∃ form ∈ record.form, form ∈ acceptedForms

instance (record : SecRecord) : Decidable record.Accepted :=
  inferInstanceAs (Decidable (∃ form ∈ record.form, form ∈ acceptedForms))

/-- Filings that differ in form, or in accession number and filing date. -/
def SecRecord.Differs (record record' : SecRecord) : Prop :=
  record.form ≠ record'.form ∨
    (record.accession ≠ record'.accession ∧ record.filingDate ≠ record'.filingDate)

/-- The filings of a payload.  A malformed one has none. -/
def SecPayload.filings (payload : SecPayload) : List SecRecord :=
  let length := payload.form.length
  if payload.accessionNumber.length ≠ length ∨ payload.filingDate.length ≠ length ∨
      payload.primaryDocument.length ≠ length then []
  else if payload.acceptanceDateTime = [] then
    SecSubmissionsProvider.records payload (List.replicate length none)
  else if payload.acceptanceDateTime.length ≠ length then []
  else SecSubmissionsProvider.records payload payload.acceptanceDateTime

namespace SecSubmissionsProvider

variable [CharacterTables] [Digest] [TextParsers]

/-- No step of building the envelope of a filing raises. -/
def Builds (provider : SecSubmissionsProvider) (company : String) (record : SecRecord) : Prop :=
  (provider.envelope company (formatText record.form) (0, 0) record).isOk

instance (provider : SecSubmissionsProvider) (company : String) (record : SecRecord) :
    Decidable (provider.Builds company record) :=
  inferInstanceAs (Decidable (_ = true))

/-- The filings the loop gets to the end of: those of an accepted form, before
the first with which it raises. -/
def completed (provider : SecSubmissionsProvider) (company : String)
    (records : List SecRecord) : List SecRecord :=
  (records.filter (fun record => record.Accepted)).takeWhile
    (fun record => provider.Builds company record)

/-- What identifies a filing of the source: the accession number, or the
content hash if that is empty. -/
def filingKey (company : String) (record : SecRecord) : String :=
  itemIdentity record.accession (digest (title company (formatText record.form))
    (content record ((secAcceptanceTime record.acceptance).toOption.getD none)))

end SecSubmissionsProvider

end Filings

section Yielded

variable [CharacterTables] [Digest] [TextParsers] {provider : SecSubmissionsProvider}
  {draws : ℕ → Draw}

/-- An attribute the adapter derived, such as the form of a filing. -/
def RawEnvelope.attribute (envelope : RawEnvelope) (name : String) : Option String :=
  envelope.derivedAttributes.lookup name

/-- The envelope of a filing.  The category and the moment of receipt are those
of every other filing of the stream. -/
structure IsFiling (provider : SecSubmissionsProvider) (company : String) (record : SecRecord)
    (envelope : RawEnvelope) : Prop where
  form_eq : envelope.attribute "form" = record.form
  accession_eq : envelope.attribute "accession" = record.accession
  filingDate_eq : envelope.attribute "filing_date" = record.filingDate
  identityKey_eq : envelope.identityKey =
    ("sec-edgar", "sec-edgar", SecSubmissionsProvider.filingKey company record)
  title_eq : ∃ form ∈ acceptedForms,
    envelope.title = SecSubmissionsProvider.title company form
  category_eq : envelope.category = "company_filing"
  receivedAt_eq : envelope.receivedAt = provider.observedAt

theorem isFiling_of_envelope {company form : String} {draw : Draw} {record : SecRecord}
    {envelope : RawEnvelope} (hrecord : record.form = some form) (hform : form ∈ acceptedForms)
    (h : provider.envelope company form draw record = .ok envelope) :
    IsFiling provider company record envelope := by
  obtain ⟨fields, hfields, hvalidate⟩ := exists_of_bind_eq_ok h
  obtain ⟨acceptedAt, hacceptedAt, hfields⟩ := exists_of_bind_eq_ok hfields
  obtain ⟨accession, haccession, hfields⟩ := exists_of_bind_eq_ok hfields
  obtain ⟨cik, -, hfields⟩ := exists_of_bind_eq_ok hfields
  obtain ⟨filingDay, -, hfields⟩ := exists_of_bind_eq_ok hfields
  obtain ⟨eventTime, -, hfields⟩ := exists_of_bind_eq_ok hfields
  obtain ⟨filingDate, hfilingDate, hfields⟩ := exists_of_bind_eq_ok hfields
  have haccession : record.accession = some accession := eq_some_of_elim haccession
  have hfilingDate : record.filingDate = some filingDate := eq_some_of_elim hfilingDate
  have hkey : SecSubmissionsProvider.filingKey company record =
      itemIdentity (some accession) (digest (SecSubmissionsProvider.title company form)
        (SecSubmissionsProvider.content record acceptedAt)) := by
    rw [SecSubmissionsProvider.filingKey, hacceptedAt, haccession, hrecord]
    rfl
  cases hfields
  unfold RawEnvelope.validate at hvalidate
  split at hvalidate
  · cases hvalidate
    refine ⟨hrecord.symm, haccession.symm, hfilingDate.symm, ?_, ⟨form, hform, rfl⟩, rfl, rfl⟩
    rw [hkey]
    rfl
  · cases hvalidate

/-- The identifiers that are drawn only mark the envelope. -/
theorem envelopeFields_draw (company form : String) (draw draw' : Draw) (record : SecRecord) :
    provider.envelopeFields company form draw record =
      (provider.envelopeFields company form draw' record).map
        (fun fields => { fields with id := draw.1, traceId := draw.2 }) := by
  unfold SecSubmissionsProvider.envelopeFields
  cases secAcceptanceTime record.acceptance with
  | error error => rfl
  | ok acceptedAt =>
    cases record.accession with
    | none => rfl
    | some accession =>
      cases TextParsers.int (zfill 10 provider.cik) with
      | none => rfl
      | some cik =>
        cases TextParsers.fromisoformat
            (formatText record.filingDate ++ "T00:00:00+00:00") with
        | none => rfl
        | some filingDay =>
          show (acceptedAt.elim (asUtc filingDay) Except.ok >>= _) =
            (acceptedAt.elim (asUtc filingDay) Except.ok >>= _).map _
          cases acceptedAt.elim (asUtc filingDay) Except.ok with
          | error error => rfl
          | ok eventTime =>
            cases record.filingDate with
            | none => rfl
            | some filingDate => rfl

/-- Whether building an envelope raises does not depend on its identifiers. -/
theorem envelope_isOk_draw (company form : String) (draw draw' : Draw) (record : SecRecord) :
    (provider.envelope company form draw record).isOk =
      (provider.envelope company form draw' record).isOk := by
  unfold SecSubmissionsProvider.envelope
  rw [envelopeFields_draw company form draw draw']
  cases provider.envelopeFields company form draw' record with
  | error error => rfl
  | ok fields =>
      by_cases haccepted : fields.Accepted
      · have haccepted' : RawEnvelopeFields.Accepted
            { fields with id := draw.1, traceId := draw.2 } := haccepted
        simp [Except.map, bind, Except.bind, RawEnvelope.validate, haccepted, haccepted']
        rfl
      · have haccepted' : ¬RawEnvelopeFields.Accepted
            { fields with id := draw.1, traceId := draw.2 } := haccepted
        simp [Except.map, bind, Except.bind, RawEnvelope.validate, haccepted, haccepted']

omit [CharacterTables] [Digest] [TextParsers] in
/-- Every element on the left of a pairing has its partner on the right. -/
theorem exists_right_of_forall₂ {α β : Type} {related : α → β → Prop} {l : List α} {l' : List β}
    (h : List.Forall₂ related l l') {a : α} (ha : a ∈ l) : ∃ b ∈ l', related a b := by
  induction h with
  | nil => cases ha
  | cons hrel _ ih =>
      rcases List.mem_cons.mp ha with rfl | ha
      · exact ⟨_, List.mem_cons_self, hrel⟩
      · obtain ⟨b, hb, hab⟩ := ih ha
        exact ⟨b, List.mem_cons_of_mem _ hb, hab⟩

omit [CharacterTables] [Digest] [TextParsers] in
/-- Every element on the right of a pairing has its partner on the left. -/
theorem exists_left_of_forall₂ {α β : Type} {related : α → β → Prop} {l : List α} {l' : List β}
    (h : List.Forall₂ related l l') {b : β} (hb : b ∈ l') : ∃ a ∈ l, related a b := by
  obtain ⟨a, ha, hab⟩ := exists_right_of_forall₂ h.flip hb
  exact ⟨a, ha, hab⟩

/-- Whether a filing builds does not depend on the identifiers of its envelope. -/
theorem builds_iff {company form : String} {record : SecRecord} (hform : record.form = some form)
    (draw : Draw) :
    provider.Builds company record ↔ (provider.envelope company form draw record).isOk := by
  rw [SecSubmissionsProvider.Builds, hform,
    envelope_isOk_draw company (formatText (some form)) (0, 0) draw]
  rfl

/-- **One filing.**  The loop skips it, raises, or yields its envelope. -/
theorem streamRecords_cons (company : String) (yielded : ℕ) (record : SecRecord)
    (records : List SecRecord) :
    (¬record.Accepted ∧ provider.streamRecords company draws yielded (record :: records) =
        provider.streamRecords company draws yielded records) ∨
      (record.Accepted ∧ ¬provider.Builds company record ∧ ∃ error,
        provider.streamRecords company draws yielded (record :: records) = ⟨[], some error⟩) ∨
      (record.Accepted ∧ provider.Builds company record ∧ ∃ form ∈ acceptedForms, ∃ envelope,
        record.form = some form ∧
        provider.envelope company form (draws yielded) record = .ok envelope ∧
        provider.streamRecords company draws yielded (record :: records) =
          ⟨envelope :: (provider.streamRecords company draws (yielded + 1) records).yielded,
            (provider.streamRecords company draws (yielded + 1) records).error⟩) := by
  cases hform : record.form with
  | none =>
      refine .inl ⟨by simp [SecRecord.Accepted, hform], ?_⟩
      rw [SecSubmissionsProvider.streamRecords, hform]
  | some form =>
      by_cases haccepted : form ∈ acceptedForms
      · have hkept : record.Accepted := ⟨form, hform, haccepted⟩
        have hbuilds : provider.Builds company record ↔ _ := builds_iff hform (draws yielded)
        cases hresult : provider.envelope company form (draws yielded) record with
        | error error =>
            refine .inr (.inl ⟨hkept, ?_, error, ?_⟩)
            · rw [hbuilds, hresult]
              exact Bool.false_ne_true
            · simp only [SecSubmissionsProvider.streamRecords, hform, if_pos haccepted, hresult]
        | ok envelope =>
            refine .inr (.inr ⟨hkept, ?_, form, haccepted, envelope, rfl, hresult, ?_⟩)
            · rw [hbuilds, hresult]
              rfl
            · simp only [SecSubmissionsProvider.streamRecords, hform, if_pos haccepted, hresult]
      · refine .inl ⟨by simpa [SecRecord.Accepted, hform] using haccepted, ?_⟩
        simp only [SecSubmissionsProvider.streamRecords, hform, if_neg haccepted]

/-- The loop yields one envelope for each filing it gets to the end of. -/
theorem streamRecords_forall₂ {company : String} {related : SecRecord → RawEnvelope → Prop}
    (hrelated : ∀ record form draw envelope, record.form = some form → form ∈ acceptedForms →
      provider.envelope company form draw record = .ok envelope → related record envelope)
    (yielded : ℕ) (records : List SecRecord) :
    List.Forall₂ related (provider.completed company records)
      (provider.streamRecords company draws yielded records).yielded := by
  induction records generalizing yielded with
  | nil => exact List.Forall₂.nil
  | cons record records ih =>
      rw [SecSubmissionsProvider.completed]
      rcases streamRecords_cons company yielded record records with
        ⟨hskipped, hstream⟩ | ⟨hkept, hraises, error, hstream⟩ |
          ⟨hkept, hbuilds, form, haccepted, envelope, hform, henvelope, hstream⟩
      · rw [hstream, List.filter_cons_of_neg (by simpa using hskipped)]
        exact ih yielded
      · rw [hstream, List.filter_cons_of_pos (by simpa using hkept),
          List.takeWhile_cons_of_neg (by simpa using hraises)]
        exact List.Forall₂.nil
      · rw [hstream, List.filter_cons_of_pos (by simpa using hkept),
          List.takeWhile_cons_of_pos (by simpa using hbuilds)]
        exact List.Forall₂.cons (hrelated record form _ envelope hform haccepted henvelope)
          (ih (yielded + 1))

/-- A stream yields one envelope for each filing it gets to the end of. -/
theorem streamItems_yielded (payload : SecPayload) :
    List.Forall₂ (IsFiling provider (provider.company payload))
      (provider.completed (provider.company payload) payload.filings)
      (provider.streamItems payload draws).yielded := by
  have hrecords : ∀ records, List.Forall₂ (IsFiling provider (provider.company payload))
      (provider.completed (provider.company payload) records)
      (provider.streamRecords (provider.company payload) draws 0 records).yielded :=
    streamRecords_forall₂ (fun _ _ _ _ => isFiling_of_envelope) 0
  unfold SecSubmissionsProvider.streamItems SecPayload.filings
  simp only
  split
  · exact List.Forall₂.nil
  · split
    · exact hrecords _
    · split
      · exact List.Forall₂.nil
      · exact hrecords _

omit [Digest] [TextParsers] in
/-- The tokens of an accepted form are all too short to count. -/
theorem titleTokens_form {form : String} (h : form ∈ acceptedForms) :
    titleTokens form.toList = [] := by
  have hforms : ∀ form ∈ acceptedForms, form.toList.all (fun c => c.toNat < 128) ∧
      @titleTokens asciiTables form.toList = [] := by
    decide +kernel
  obtain ⟨hascii, htokens⟩ := hforms form h
  rw [titleTokens_of_ascii (by simpa using hascii), htokens]

omit [Digest] [TextParsers] in
/-- The fingerprint of a filing does not depend on its form. -/
theorem titleFingerprint_title (company : String) {form : String} (h : form ∈ acceptedForms) :
    titleFingerprint (SecSubmissionsProvider.title company form) =
      (titleTokens company.toList ++ ["files".toList]).toFinset := by
  have hfiles : titleTokens "files".toList = ["files".toList] := by
    rw [titleTokens_of_ascii (by simp)]
    decide +kernel
  have htext : (SecSubmissionsProvider.title company form).toList =
      company.toList ++ ' ' :: ("files".toList ++ ' ' :: form.toList) := by
    simp [SecSubmissionsProvider.title]
  rw [titleFingerprint, htext, titleTokens_append_blank, titleTokens_append_blank, hfiles,
    titleTokens_form h, List.append_nil]

end Yielded

section Distinctness

/-- Filings that differ in form, or in accession number and filing date. -/
def DifferentFilings (envelope envelope' : RawEnvelope) : Prop :=
  envelope.attribute "form" ≠ envelope'.attribute "form" ∨
    (envelope.attribute "accession" ≠ envelope'.attribute "accession" ∧
      envelope.attribute "filing_date" ≠ envelope'.attribute "filing_date")

theorem DifferentFilings.ne {envelope envelope' : RawEnvelope}
    (h : DifferentFilings envelope envelope') : envelope ≠ envelope' := by
  intro heq
  subst heq
  rcases h with h | h
  · exact h rfl
  · exact h.1 rfl

/-- An item is a mention of an event in memory. -/
def CanonicalEvent.Mentions (event : CanonicalEvent) (envelope : RawEnvelope) : Prop :=
  envelope.id ∈ event.mentions.map EventMention.rawItemId

/-- Two items are mentions of one event in memory. -/
def SharesEvent (service : EventService) (envelope envelope' : RawEnvelope) : Prop :=
  ∃ event ∈ service.events.values, event.Mentions envelope ∧ event.Mentions envelope'

/-- The mentions of an event in memory are the items of its commits. -/
theorem Represents.mentions_iff {service : EventService} {log : List Commit}
    (h : Represents service log) (hgrown : Grown log) {event : CanonicalEvent}
    (hevent : event ∈ service.events.values) {envelope : RawEnvelope} :
    event.Mentions envelope ↔
      ∃ commit ∈ log, commit.eventId = event.eventId ∧ commit.envelope.id = envelope.id := by
  obtain ⟨last, hlast, hsame, -⟩ := h.latest_of_mem_values hevent
  have hperm := hsame.mentions_perm.trans (hgrown.latest_mentions_perm hlast)
  rw [CanonicalEvent.Mentions, (hperm.map EventMention.rawItemId).mem_iff, List.map_map,
    List.mem_map]
  constructor
  · intro hex
    obtain ⟨commit, hcommit, hid⟩ := hex
    obtain ⟨hmem, hkey⟩ := mem_ofKey.mp hcommit
    exact ⟨commit, hmem, hkey, hid⟩
  · intro hex
    obtain ⟨commit, hmem, hkey, hid⟩ := hex
    exact ⟨commit, mem_ofKey.mpr ⟨hmem, hkey⟩, hid⟩

variable [CharacterTables]

/-- However the envelopes are ingested, by a service in any reachable state, in
any order, none, some or all of them, different filings are not mentions of one
event.  The identifiers of the envelopes are not in use before. -/
def FilingsStayDistinct (yielded : List RawEnvelope) : Prop :=
  ∀ service, Reachable service →
    (∀ envelope ∈ yielded, ∀ event ∈ service.events.values, ¬event.Mentions envelope) →
    ∀ steps : List (RawEnvelope × Uuid), (steps.map Prod.fst).Subperm yielded →
      EveryStep FreshId service steps →
      ∀ envelope ∈ yielded, ∀ envelope' ∈ yielded, DifferentFilings envelope envelope' →
        ¬SharesEvent (service.runInMemory steps) envelope envelope'

/-- Where different filings share their identity key, only one of them is ever
ingested. -/
theorem FilingsStayDistinct.of_identityKey {yielded : List RawEnvelope}
    (hids : (yielded.map (fun envelope => envelope.id)).Nodup)
    (hkeys : ∀ envelope ∈ yielded, ∀ envelope' ∈ yielded,
      DifferentFilings envelope envelope' → envelope.identityKey = envelope'.identityKey) :
    FilingsStayDistinct yielded := by
  intro service hreachable hunused steps hsteps hfresh envelope hmem envelope' hmem' hdifferent
    hshares
  obtain ⟨log, hgrown, harchives⟩ := hreachable.archives
  obtain ⟨commits, hgrown', harchives', hsublist⟩ := harchives.run hgrown hfresh
  obtain ⟨event, hevent, hmentions, hmentions'⟩ := hshares
  -- an item that is mentioned was committed by the run, as it was not in use before
  have hcommitted : ∀ item ∈ yielded, event.Mentions item →
      ∃ commit ∈ log ++ commits, commit.envelope = item := by
    intro item hitem hmention
    obtain ⟨commit, hcommit, -, hid⟩ :=
      (harchives'.mentions_iff hgrown' hevent).mp hmention
    refine ⟨commit, hcommit, ?_⟩
    rcases List.mem_append.mp hcommit with hold | hnew
    · obtain ⟨before, hbefore, hbeforeId⟩ := harchives.exists_event hold
      have hused : before.Mentions item :=
        (harchives.mentions_iff hgrown hbefore).mpr ⟨commit, hold, hbeforeId.symm, hid⟩
      exact absurd hused (hunused item hitem before hbefore)
    · have hyielded : commit.envelope ∈ yielded :=
        hsteps.subset (hsublist.subset (List.mem_map_of_mem hnew))
      exact List.inj_on_of_nodup_map hids hyielded hitem hid
  obtain ⟨commit, hcommit, rfl⟩ := hcommitted envelope hmem hmentions
  obtain ⟨commit', hcommit', rfl⟩ := hcommitted envelope' hmem' hmentions'
  have hkey := hkeys _ hmem _ hmem' hdifferent
  have hsame : commit = commit' :=
    List.inj_on_of_nodup_map harchives'.keysDistinct hcommit hcommit' hkey
  exact hdifferent.ne (by rw [hsame])

/-- An envelope joins the only event in memory if that is a candidate. -/
theorem nextEvent_of_candidate {service : EventService} {event : CanonicalEvent}
    (hvalues : service.events.values = [event]) {envelope : RawEnvelope}
    {rank : EventService.Rank} (hrank : service.candidateRank envelope event = some rank)
    (newId : Uuid) :
    service.nextEvent envelope newId = (event.extend envelope, false) := by
  have hsimilar : service.similarEvent envelope = some event := by
    rw [EventService.similarEvent, hvalues, ← List.nil_append [event]]
    exact maxBy?_concat_first rfl hrank
  rw [EventService.nextEvent, hsimilar]

variable [Digest] [TextParsers]

/-- Two filings of one stream are always similar. -/
theorem similarity_of_isFiling {provider : SecSubmissionsProvider}
    {company : String} {record record' : SecRecord} {envelope envelope' : RawEnvelope}
    (h : IsFiling provider company record envelope)
    (h' : IsFiling provider company record' envelope') :
    jaccard (titleFingerprint envelope'.title) (titleFingerprint envelope.title) = 1 := by
  obtain ⟨form, hform, htitle⟩ := h.title_eq
  obtain ⟨form', hform', htitle'⟩ := h'.title_eq
  rw [htitle, htitle', titleFingerprint_title company hform,
    titleFingerprint_title company hform']
  apply jaccard_self
  exact ⟨"files".toList, List.mem_toFinset.mpr (List.mem_append_right _
    (List.mem_singleton_self _))⟩

/-- The event one filing opened is a candidate for every other one of the
stream. -/
theorem candidateRank_of_isFiling {provider : SecSubmissionsProvider}
    {company : String} {record record' : SecRecord} {envelope envelope' : RawEnvelope}
    (h : IsFiling provider company record envelope)
    (h' : IsFiling provider company record' envelope')
    (service : EventService) (newId : Uuid) :
    ∃ rank, service.candidateRank envelope' (envelope.openEvent newId) = some rank := by
  have hcategory : (envelope.openEvent newId).eventType = envelope'.category :=
    h.category_eq.trans h'.category_eq.symm
  have hdistance : |envelope'.receivedAt - (envelope.openEvent newId).lastUpdatedAt| = 0 := by
    show |envelope'.receivedAt - envelope.receivedAt| = 0
    rw [h.receivedAt_eq, h'.receivedAt_eq, sub_self, abs_zero]
  have hsimilarity : ¬jaccard (titleFingerprint envelope'.title)
      (titleFingerprint (envelope.openEvent newId).canonicalTitle) < similarityThreshold := by
    show ¬jaccard (titleFingerprint envelope'.title) (titleFingerprint envelope.title) <
      similarityThreshold
    rw [similarity_of_isFiling h h']
    decide +kernel
  have hwindow : ¬((envelope.openEvent newId).eventType ≠ envelope'.category ∨
      clusterWindow < |envelope'.receivedAt - (envelope.openEvent newId).lastUpdatedAt|) := by
    rw [hdistance]
    exact not_or.mpr ⟨not_not.mpr hcategory, by decide⟩
  unfold EventService.candidateRank
  simp only [if_neg hwindow]
  rw [if_neg (fun hand => hsimilarity hand.2)]
  exact ⟨_, rfl⟩

/-- Two filings of one stream under different identity keys join one event. -/
theorem sharesEvent_of_isFiling {provider : SecSubmissionsProvider}
    {company : String} {record record' : SecRecord} {envelope envelope' : RawEnvelope}
    (h : IsFiling provider company record envelope)
    (h' : IsFiling provider company record' envelope')
    (hkey : envelope.identityKey ≠ envelope'.identityKey) :
    SharesEvent (EventService.empty.runInMemory [(envelope, 0), (envelope', 1)])
      envelope envelope' := by
  let opened := envelope.openEvent 0
  let service := EventService.empty.remember envelope opened
  have hfirst : (EventService.empty.ingestInMemory envelope 0).service = service := by
    rw [ingestInMemory_service _ _ _ represents_empty]
    rfl
  have hrepresents : Represents service [⟨envelope, opened⟩] :=
    represents_empty.remember (CanonicalEvent.Same.refl opened) (sortedBy_singleton _ _) rfl
  have hnew : service.byIdentity.get? envelope'.identityKey = none := by
    apply hrepresents.identity_none_iff.mpr
    intro commit hcommit
    rw [List.mem_singleton.mp hcommit]
    exact hkey
  obtain ⟨rank, hrank⟩ := candidateRank_of_isFiling h h' service 0
  have hsecond : (service.ingestInMemory envelope' 1).service =
      service.remember envelope' (opened.extend envelope') := by
    rw [ingestInMemory_service _ _ _ hrepresents, if_pos hnew,
      nextEvent_of_candidate rfl hrank]
  refine ⟨opened.extend envelope', ?_, ?_, ?_⟩
  · rw [EventService.runInMemory, hfirst, EventService.runInMemory, hsecond,
      EventService.runInMemory]
    exact InsertionDict.mem_values_iff_get?.mpr ⟨_, InsertionDict.get?_set_self _ _ _⟩
  · have hmention : envelope.mention ∈ (opened.extend envelope').mentions :=
      CanonicalEvent.mem_extend_mentions.mpr (Or.inl (List.mem_singleton_self _))
    exact List.mem_map.mpr ⟨envelope.mention, hmention, rfl⟩
  · have hmention : envelope'.mention ∈ (opened.extend envelope').mentions :=
      CanonicalEvent.mem_extend_mentions.mpr (Or.inr rfl)
    exact List.mem_map.mpr ⟨envelope'.mention, hmention, rfl⟩

/-- Envelopes differ as the filings they are made of do. -/
theorem IsFiling.different_iff {provider : SecSubmissionsProvider}
    {company : String} {record record' : SecRecord} {envelope envelope' : RawEnvelope}
    (h : IsFiling provider company record envelope)
    (h' : IsFiling provider company record' envelope') :
    DifferentFilings envelope envelope' ↔ record.Differs record' := by
  rw [DifferentFilings, h.form_eq, h'.form_eq, h.accession_eq, h'.accession_eq,
    h.filingDate_eq, h'.filingDate_eq, SecRecord.Differs]

/-- The filing key decides between the identity keys of one stream. -/
theorem IsFiling.identityKey_eq_iff {provider : SecSubmissionsProvider}
    {company : String} {record record' : SecRecord} {envelope envelope' : RawEnvelope}
    (h : IsFiling provider company record envelope)
    (h' : IsFiling provider company record' envelope') :
    envelope.identityKey = envelope'.identityKey ↔
      SecSubmissionsProvider.filingKey company record =
        SecSubmissionsProvider.filingKey company record' := by
  rw [h.identityKey_eq, h'.identityKey_eq]
  simp

/-- If the filings of a stream stay distinct, different ones share their
identity key. -/
theorem FilingsStayDistinct.identityKey_eq {provider : SecSubmissionsProvider}
    {company : String} {yielded : List RawEnvelope} (hdistinct : FilingsStayDistinct yielded)
    {record record' : SecRecord} {envelope envelope' : RawEnvelope}
    (h : IsFiling provider company record envelope)
    (h' : IsFiling provider company record' envelope')
    (hmem : envelope ∈ yielded) (hmem' : envelope' ∈ yielded)
    (hdifferent : DifferentFilings envelope envelope') :
    envelope.identityKey = envelope'.identityKey := by
  by_contra hkey
  have hshares := sharesEvent_of_isFiling h h' hkey
  have hsteps : [envelope, envelope'].Subperm yielded := by
    apply List.Nodup.subperm
    · simpa using hdifferent.ne
    · intro item hitem
      rcases List.mem_pair.mp hitem with rfl | rfl
      · exact hmem
      · exact hmem'
  refine hdistinct EventService.empty Reachable.start ?_ [(envelope, 0), (envelope', 1)] hsteps
    (everyStep_freshId_pair _ _ (by decide)) envelope hmem envelope' hmem' hdifferent hshares
  intro item _ event hevent
  cases hevent

/-- **Filings stay distinct only if they are not ingested.**  For every
payload, the different filings its stream yields are never mentions of one
event if and only if any two of them have the same key, so that only the first
of them is ingested. -/
theorem filings_distinct_iff (provider : SecSubmissionsProvider) (payload : SecPayload)
    (draws : ℕ → Draw)
    (hids : ((provider.streamItems payload draws).yielded.map
      (fun envelope => envelope.id)).Nodup) :
    FilingsStayDistinct (provider.streamItems payload draws).yielded ↔
      ∀ record ∈ provider.completed (provider.company payload) payload.filings,
        ∀ record' ∈ provider.completed (provider.company payload) payload.filings,
          record.Differs record' →
            SecSubmissionsProvider.filingKey (provider.company payload) record =
              SecSubmissionsProvider.filingKey (provider.company payload) record' := by
  have hyielded : List.Forall₂ (IsFiling provider (provider.company payload))
      (provider.completed (provider.company payload) payload.filings)
      (provider.streamItems payload draws).yielded := streamItems_yielded payload
  constructor
  · intro hdistinct record hrecord record' hrecord' hdiffers
    obtain ⟨envelope, hmem, h⟩ := exists_right_of_forall₂ hyielded hrecord
    obtain ⟨envelope', hmem', h'⟩ := exists_right_of_forall₂ hyielded hrecord'
    apply (h.identityKey_eq_iff h').mp
    exact hdistinct.identityKey_eq h h' hmem hmem' ((h.different_iff h').mpr hdiffers)
  · intro hkeys
    apply FilingsStayDistinct.of_identityKey hids
    intro envelope hmem envelope' hmem' hdifferent
    obtain ⟨record, hrecord, h⟩ := exists_left_of_forall₂ hyielded hmem
    obtain ⟨record', hrecord', h'⟩ := exists_left_of_forall₂ hyielded hmem'
    apply (h.identityKey_eq_iff h').mpr
    exact hkeys record hrecord record' hrecord' ((h.different_iff h').mp hdifferent)

end Distinctness

section Sample

/-- The digests of the sample filings. -/
@[reducible] def filingDigest : Digest where
  sha256 text :=
    if text = "acme corp files 8-k\nsec filing 0001-26-000001; form 8-k; " ++
        "filing date 2026-08-26; accepted at 2026-08-26t14:30:15+00:00." then
      "ec1a35533de923f882527124deb9cad174debf079cf6076ddb9bba7d4a949638"
    else if text = "acme corp files 10-q\nsec filing 0001-26-000002; form 10-q; " ++
        "filing date 2026-08-25; accepted at 2026-08-25t10:00:00+00:00." then
      "be07c47b6ed3824ca4d5ee0ab3830470fd4297f8b64ffa390a0a754439847952"
    else ""

/-- The library's parsers on the texts of the sample filings. -/
@[reducible] def filingParsers : TextParsers where
  int text := if text = "0000000123" then some 123 else none
  fromisoformat text :=
    if text = "2026-08-26T14:30:15+00:00" then some ⟨1787754615000000, some 0⟩
    else if text = "2026-08-26T00:00:00+00:00" then some ⟨1787702400000000, some 0⟩
    else if text = "2026-08-25T10:00:00+00:00" then some ⟨1787652000000000, some 0⟩
    else if text = "2026-08-25T00:00:00+00:00" then some ⟨1787616000000000, some 0⟩
    else none
  strptime _ := none

/-- A provider that polls at 15:00 on 2026-08-26. -/
def sampleProvider : SecSubmissionsProvider where
  cik := "123"
  observedAt := 1787756400000000

/-- Two filings of one company: a current report and a quarterly one. -/
def samplePayload : SecPayload where
  name := some "ACME Corp"
  form := [some "8-K", some "10-Q"]
  accessionNumber := [some "0001-26-000001", some "0001-26-000002"]
  filingDate := [some "2026-08-26", some "2026-08-25"]
  primaryDocument := [some "acme8k.htm", some "acme10q.htm"]
  acceptanceDateTime := [some "2026-08-26T14:30:15Z", some "2026-08-25T10:00:00Z"]

/-- Identifiers that do not repeat within a sample. -/
def sampleDraws (index : ℕ) : Draw := (Fin.ofNat (2 ^ 128) index, 0)

theorem samplePayload_filings :
    let _ : CharacterTables := asciiTables
    let _ : Digest := filingDigest
    let _ : TextParsers := filingParsers
    (sampleProvider.streamItems samplePayload sampleDraws).error = none ∧
      (sampleProvider.streamItems samplePayload sampleDraws).yielded.map
        (fun envelope => (envelope.id, envelope.identityKey, envelope.attribute "form")) =
        [(0, ("sec-edgar", "sec-edgar", "0001-26-000001"), some "8-K"),
          (1, ("sec-edgar", "sec-edgar", "0001-26-000002"), some "10-Q")] := by
  decide +kernel

end Sample

/-- A current and a quarterly report in one payload. -/
theorem filings_distinct_iff_samplePayload :
    let _ : CharacterTables := asciiTables
    let _ : Digest := filingDigest
    let _ : TextParsers := filingParsers
    FilingsStayDistinct (sampleProvider.streamItems samplePayload sampleDraws).yielded ↔
      ∀ record ∈ sampleProvider.completed (sampleProvider.company samplePayload)
          samplePayload.filings,
        ∀ record' ∈ sampleProvider.completed (sampleProvider.company samplePayload)
            samplePayload.filings,
          record.Differs record' →
            SecSubmissionsProvider.filingKey (sampleProvider.company samplePayload) record =
              SecSubmissionsProvider.filingKey (sampleProvider.company samplePayload)
                record' := by
  intro _ _ _
  have hids : ((sampleProvider.streamItems samplePayload sampleDraws).yielded.map
      (Prod.fst ∘ fun envelope => (envelope.id, envelope.identityKey,
        envelope.attribute "form"))).Nodup := by
    rw [← List.map_map, samplePayload_filings.2]
    decide
  exact filings_distinct_iff sampleProvider samplePayload sampleDraws hids

/-- The two reports become mentions of one event. -/
theorem filings_merged :
    let _ : CharacterTables := asciiTables
    let _ : Digest := filingDigest
    let _ : TextParsers := filingParsers
    (sampleProvider.streamItems samplePayload sampleDraws).error = none ∧
      ¬FilingsStayDistinct (sampleProvider.streamItems samplePayload sampleDraws).yielded := by
  intro _ _ _
  obtain ⟨herror, hyielded⟩ := samplePayload_filings
  refine ⟨herror, ?_⟩
  intro hdistinct
  obtain ⟨current, rest, hlist, hcurrent, hrest⟩ := List.map_eq_cons_iff.mp hyielded
  obtain ⟨quarterly, others, hlist', hquarterly, -⟩ := List.map_eq_cons_iff.mp hrest
  obtain ⟨-, hcurrent⟩ := Prod.mk.inj hcurrent
  obtain ⟨hkey, hform⟩ := Prod.mk.inj hcurrent
  obtain ⟨-, hquarterly⟩ := Prod.mk.inj hquarterly
  obtain ⟨hkey', hform'⟩ := Prod.mk.inj hquarterly
  have hdifferent : DifferentFilings current quarterly := by
    refine Or.inl ?_
    rw [hform, hform']
    decide
  have hmem : current ∈ (sampleProvider.streamItems samplePayload sampleDraws).yielded := by
    rw [hlist]
    exact List.mem_cons_self
  have hmem' : quarterly ∈ (sampleProvider.streamItems samplePayload sampleDraws).yielded := by
    rw [hlist, hlist']
    exact List.mem_cons_of_mem current List.mem_cons_self
  obtain ⟨record, -, h⟩ := exists_left_of_forall₂ (streamItems_yielded samplePayload) hmem
  obtain ⟨record', -, h'⟩ := exists_left_of_forall₂ (streamItems_yielded samplePayload) hmem'
  have hsame := hdistinct.identityKey_eq h h' hmem hmem' hdifferent
  rw [hkey, hkey'] at hsame
  exact absurd hsame (by decide)

end EventAlpha
