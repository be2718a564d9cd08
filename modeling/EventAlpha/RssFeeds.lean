import EventAlpha.SecSubmissions

/-!
# RSS feeds

The adapter that turns the items of an official feed into envelopes.  A feed is
its parsed document: elements with a tag, the text before the first child, and
the children.

An exception at one item ends the stream, so what comes after it is lost.
`feed_never_blocks_iff` says which items do that: those whose date is converted
with an exception the adapter does not expect, and those whose texts do not fit
the contract of the envelope.

The parser of dates is the class `DateParsers`.  Nothing is assumed of it.
-/

namespace EventAlpha

section Documents

/-- An element of a document. -/
inductive XmlElement
  | node (tag : String) (text : Option String) (children : List XmlElement)

namespace XmlElement

def tag : XmlElement → String
  | node tag _ _ => tag

def text : XmlElement → Option String
  | node _ text _ => text

def children : XmlElement → List XmlElement
  | node _ _ children => children

mutual

/-- `iter()`: the element and all below it, in document order. -/
def iter : XmlElement → List XmlElement
  | node tag text children => node tag text children :: iterAll children

def iterAll : List XmlElement → List XmlElement
  | [] => []
  | child :: children => iter child ++ iterAll children

end

/-- `findall(".//item")`: the items below the root, at any depth. -/
def items (root : XmlElement) : List XmlElement :=
  (iterAll root.children).filter (fun element => element.tag = "item")

/-- `findtext(path)`: the text of the first child of that tag. -/
def findtext (element : XmlElement) (path : String) : Option String :=
  (element.children.find? (fun child => child.tag = path)).map
    (fun child => child.text.getD "")

end XmlElement

/-- What the parser of dates can raise. -/
inductive DateError
  | typeError
  | valueError
  | overflowError
  | other (name : String)
  deriving DecidableEq

/-- `parsedate_to_datetime`. -/
class DateParsers where
  parsedateToDatetime : String → Except DateError PyDatetime

/-- How the stream of a feed can raise. -/
inductive RssError
  | date (error : DateError)
  | validationError
  deriving DecidableEq

/-- What a stream yielded, and how it ended. -/
structure RssStream where
  yielded : List RawEnvelope
  error : Option RssError
  deriving DecidableEq

/-- The provider, with its clock read at the start of the stream. -/
structure OfficialRssProvider where
  feedUrl : String
  sourceId : String
  category : String
  observedAt : UtcDatetime

end Documents

section RssAdapter

namespace XmlElement

variable [CharacterTables] (item : XmlElement)

def itemTitle : String := strip (orElseText (item.findtext "title") "")

def itemLink : String := strip (orElseText (item.findtext "link") "")

/-- The description, or the title where there is none. -/
def itemContent : String := strip (orElseText (item.findtext "description") item.itemTitle)

/-- The identifier, or the link where there is none. -/
def itemNativeId : Option String :=
  let nativeId := strip (orElseText (item.findtext "guid") item.itemLink)
  if nativeId = "" then none else some nativeId

def publishedText : String := strip (orElseText (item.findtext "pubDate") "")

/-- An item the adapter has an envelope for. -/
def Reported : Prop := item.itemTitle ≠ "" ∧ item.itemLink ≠ ""

instance : Decidable item.Reported := by
  unfold Reported; infer_instance

end XmlElement

namespace OfficialRssProvider

variable [DateParsers]

/-- `_utc(parsedate_to_datetime(..))`. -/
def convertDate (publishedText : String) : Except DateError UtcDatetime :=
  match DateParsers.parsedateToDatetime publishedText with
  | .error error => .error error
  | .ok value =>
      match utc value with
      | .error _ => .error .overflowError
      | .ok instant => .ok instant

/-- The time of publication.  Two kinds of exception mean that there is none. -/
def published (publishedText : String) : Except RssError (Option UtcDatetime) :=
  if publishedText = "" then .ok none
  else
    match convertDate publishedText with
    | .ok instant => .ok (some instant)
    | .error .typeError | .error .valueError => .ok none
    | .error error => .error (.date error)

variable [CharacterTables] [Digest] (provider : OfficialRssProvider)

/-- The fields of the envelope of an item. -/
def envelopeFields (draw : Draw) (item : XmlElement) (published : Option UtcDatetime) :
    RawEnvelopeFields where
  id := draw.1
  traceId := draw.2
  provider := "official-rss"
  sourceId := provider.sourceId
  sourceType := "official_feed"
  nativeId := item.itemNativeId
  publishedAt := published
  receivedAt := provider.observedAt
  processedAt := provider.observedAt
  title := item.itemTitle
  content := item.itemContent
  url := item.itemLink
  language := "en"
  category := provider.category
  contentHash := digest item.itemTitle item.itemContent
  storagePolicy := .metadataAndDerivedOnly
  derivedAttributes := [("feed_url", provider.feedUrl),
    ("provider_publication_time", item.publishedText)]

/-- One turn of the loop: an envelope, nothing, or an exception. -/
def entry (draw : Draw) (item : XmlElement) : Except RssError (Option RawEnvelope) := do
  let published ← published item.publishedText
  if item.Reported then
    match RawEnvelope.validate (provider.envelopeFields draw item published) with
    | some envelope => return some envelope
    | none => .error .validationError
  else return none

/-- The loop of `stream_items`. -/
def streamEntries (draws : ℕ → Draw) : ℕ → List XmlElement → RssStream
  | _, [] => ⟨[], none⟩
  | yielded, item :: items =>
      match provider.entry (draws yielded) item with
      | .error error => ⟨[], some error⟩
      | .ok none => streamEntries draws yielded items
      | .ok (some envelope) =>
          let rest := streamEntries draws (yielded + 1) items
          ⟨envelope :: rest.yielded, rest.error⟩

/-- `stream_items` on the document of a feed. -/
def streamItems (root : XmlElement) (draws : ℕ → Draw) : RssStream :=
  provider.streamEntries draws 0 root.items

end OfficialRssProvider

end RssAdapter

section Blocking

variable [DateParsers] [CharacterTables]

/-- The time of publication an envelope is to have: none if it is missing or
cannot be converted. -/
def XmlElement.publishedAt (item : XmlElement) : Option UtcDatetime :=
  if item.publishedText = "" then none
  else (OfficialRssProvider.convertDate item.publishedText).toOption

/-- The date of an item is converted, or not, without an unexpected exception. -/
def XmlElement.DateFits (item : XmlElement) : Prop :=
  item.publishedText ≠ "" → ∀ error,
    OfficialRssProvider.convertDate item.publishedText = .error error →
      error = .typeError ∨ error = .valueError

/-- The texts of an item fit the contract of the envelope. -/
structure XmlElement.TextFits (item : XmlElement) : Prop where
  title_le : item.itemTitle.length ≤ 1000
  content_pos : 1 ≤ item.itemContent.length
  content_le : item.itemContent.length ≤ 10000
  link_le : item.itemLink.length ≤ 2000

/-- The envelope of an item. -/
structure IsEntry (provider : OfficialRssProvider) (item : XmlElement)
    (envelope : RawEnvelope) : Prop where
  title_eq : envelope.title = item.itemTitle
  url_eq : envelope.url = item.itemLink
  nativeId_eq : envelope.nativeId = item.itemNativeId
  publishedAt_eq : envelope.publishedAt = item.publishedAt
  sourceId_eq : envelope.sourceId = provider.sourceId
  receivedAt_eq : envelope.receivedAt = provider.observedAt

/-- An item does not end the stream. -/
def Harmless (provider : OfficialRssProvider) (item : XmlElement) : Prop :=
  item.DateFits ∧ (item.Reported → item.TextFits ∧
    1 ≤ provider.category.length ∧ provider.category.length ≤ 100)

/-- No item blocks the feed: one envelope for each item with a title and a link,
in document order, and no exception. -/
structure NeverBlocks (provider : OfficialRssProvider) (items : List XmlElement)
    (stream : RssStream) : Prop where
  error_eq : stream.error = none
  entries : List.Forall₂ (IsEntry provider) (items.filter (fun item => item.Reported))
    stream.yielded

end Blocking

section Entries

variable [DateParsers] [CharacterTables] {provider : OfficialRssProvider} {item : XmlElement}
  {draws : ℕ → Draw}

/-- A date that fits is the one the envelope is to have. -/
theorem published_of_dateFits (h : item.DateFits) :
    OfficialRssProvider.published item.publishedText = .ok item.publishedAt := by
  unfold OfficialRssProvider.published XmlElement.publishedAt
  by_cases hblank : item.publishedText = ""
  · rw [if_pos hblank, if_pos hblank]
  · rw [if_neg hblank, if_neg hblank]
    have herror := h hblank
    cases hdate : OfficialRssProvider.convertDate item.publishedText with
    | ok instant => rfl
    | error error =>
        rcases herror error hdate with rfl | rfl
        · rfl
        · rfl

/-- A date that does not fit raises. -/
theorem published_of_not_dateFits (h : ¬item.DateFits) :
    ∃ error, OfficialRssProvider.published item.publishedText = .error error := by
  unfold XmlElement.DateFits at h
  push Not at h
  obtain ⟨hblank, error, hdate, htype, hvalue⟩ := h
  refine ⟨.date error, ?_⟩
  unfold OfficialRssProvider.published
  rw [if_neg hblank, hdate]
  cases error with
  | typeError => exact absurd rfl htype
  | valueError => exact absurd rfl hvalue
  | overflowError | other name => rfl

variable [Digest]

omit [DateParsers] in
/-- The contract accepts the envelope of an item whose texts fit. -/
theorem accepted_iff (hdigest : ∀ text, isHexDigest (Digest.sha256 text) = true)
    (h : item.Reported) (draw : Draw) (published : Option UtcDatetime) :
    (provider.envelopeFields draw item published).Accepted ↔
      item.TextFits ∧ 1 ≤ provider.category.length ∧ provider.category.length ≤ 100 := by
  have htitle : 1 ≤ item.itemTitle.length := Nat.pos_of_ne_zero (mt String.length_eq_zero_iff.mp h.1)
  have hlink : 1 ≤ item.itemLink.length := Nat.pos_of_ne_zero (mt String.length_eq_zero_iff.mp h.2)
  constructor
  · intro hex
    obtain ⟨-, -, ⟨-, htitleLe⟩, ⟨hcontent, hcontentLe⟩, ⟨-, hlinkLe⟩, -, hcategory, -⟩ := hex
    exact ⟨⟨htitleLe, hcontent, hcontentLe, hlinkLe⟩, hcategory⟩
  · intro hex
    obtain ⟨⟨htitleLe, hcontent, hcontentLe, hlinkLe⟩, hcategory⟩ := hex
    have htype : 1 ≤ "official_feed".length ∧ "official_feed".length ≤ 100 := by decide
    have hlanguage : 2 ≤ "en".length ∧ "en".length ≤ 10 := by decide
    exact ⟨htype, PyFloat.half_accepted, ⟨htitle, htitleLe⟩,
      ⟨hcontent, hcontentLe⟩, ⟨hlink, hlinkLe⟩, hlanguage, hcategory, hdigest _⟩

theorem isEntry_of_accepted {draw : Draw}
    (h : (provider.envelopeFields draw item item.publishedAt).Accepted) :
    IsEntry provider item ⟨provider.envelopeFields draw item item.publishedAt, h⟩ where
  title_eq := rfl
  url_eq := rfl
  nativeId_eq := by dsimp only [OfficialRssProvider.envelopeFields]
  publishedAt_eq := by dsimp only [OfficialRssProvider.envelopeFields]
  sourceId_eq := rfl
  receivedAt_eq := rfl

/-- **One item.**  A harmless one gives its envelope if it has a title and a link,
and nothing otherwise; any other item raises. -/
theorem entry_spec (hdigest : ∀ text, isHexDigest (Digest.sha256 text) = true)
    (provider : OfficialRssProvider) (draw : Draw) (item : XmlElement) :
    (Harmless provider item ∧ ¬item.Reported ∧ provider.entry draw item = .ok none) ∨
      (Harmless provider item ∧ item.Reported ∧ ∃ envelope, IsEntry provider item envelope ∧
        provider.entry draw item = .ok (some envelope)) ∨
      (¬Harmless provider item ∧ ∃ error, provider.entry draw item = .error error) := by
  unfold OfficialRssProvider.entry
  by_cases hdate : item.DateFits
  · rw [published_of_dateFits hdate]
    by_cases hreported : item.Reported
    · have haccepted : (provider.envelopeFields draw item item.publishedAt).Accepted ↔ _ :=
        accepted_iff hdigest hreported draw item.publishedAt
      by_cases hfits : (provider.envelopeFields draw item item.publishedAt).Accepted
      · refine .inr (.inl ⟨⟨hdate, fun _ => haccepted.mp hfits⟩, hreported, _,
          isEntry_of_accepted hfits, ?_⟩)
        simp [bind, Except.bind, hreported, RawEnvelope.validate, hfits]
        rfl
      · refine .inr (.inr ⟨fun h => hfits (haccepted.mpr (h.2 hreported)), .validationError, ?_⟩)
        simp [bind, Except.bind, hreported, RawEnvelope.validate, hfits]
    · refine .inl ⟨⟨hdate, fun h => absurd h hreported⟩, hreported, ?_⟩
      simp [bind, Except.bind, hreported]
      rfl
  · obtain ⟨error, herror⟩ := published_of_not_dateFits hdate
    refine .inr (.inr ⟨fun h => hdate h.1, error, ?_⟩)
    rw [herror]
    rfl

/-- **The loop.**  It does not block exactly if every item is harmless. -/
theorem streamEntries_neverBlocks_iff (hdigest : ∀ text, isHexDigest (Digest.sha256 text) = true)
    (provider : OfficialRssProvider) (yielded : ℕ) (items : List XmlElement) :
    NeverBlocks provider items (provider.streamEntries draws yielded items) ↔
      ∀ item ∈ items, Harmless provider item := by
  induction items generalizing yielded with
  | nil => exact iff_of_true ⟨rfl, List.Forall₂.nil⟩ (by simp)
  | cons item items ih =>
      rw [List.forall_mem_cons]
      rcases entry_spec hdigest provider (draws yielded) item with
        ⟨hharmless, hreported, hentry⟩ | ⟨hharmless, hreported, envelope, hisEntry, hentry⟩ |
          ⟨hharmful, error, hentry⟩
      · have hstream : provider.streamEntries draws yielded (item :: items) =
            provider.streamEntries draws yielded items := by
          rw [OfficialRssProvider.streamEntries, hentry]
        rw [hstream, iff_true_intro hharmless, true_and, ← ih yielded]
        constructor
        · intro hex
          obtain ⟨herror, hentries⟩ := hex
          rw [List.filter_cons_of_neg (by simpa using hreported)] at hentries
          exact ⟨herror, hentries⟩
        · intro hex
          obtain ⟨herror, hentries⟩ := hex
          refine ⟨herror, ?_⟩
          rwa [List.filter_cons_of_neg (by simpa using hreported)]
      · have hstream : provider.streamEntries draws yielded (item :: items) =
            ⟨envelope :: (provider.streamEntries draws (yielded + 1) items).yielded,
              (provider.streamEntries draws (yielded + 1) items).error⟩ := by
          rw [OfficialRssProvider.streamEntries, hentry]
        rw [hstream, iff_true_intro hharmless, true_and, ← ih (yielded + 1)]
        constructor
        · intro hex
          obtain ⟨herror, hentries⟩ := hex
          rw [List.filter_cons_of_pos (by simpa using hreported), List.forall₂_cons] at hentries
          exact ⟨herror, hentries.2⟩
        · intro hex
          obtain ⟨herror, hentries⟩ := hex
          refine ⟨herror, ?_⟩
          rw [List.filter_cons_of_pos (by simpa using hreported)]
          exact List.Forall₂.cons hisEntry hentries
      · refine iff_of_false ?_ (fun h => hharmful h.1)
        intro hex
        obtain ⟨herror, -⟩ := hex
        rw [OfficialRssProvider.streamEntries, hentry] at herror
        cases herror

/-- **Bad items block a feed.**  The stream of a feed goes through exactly if the
dates of all its items are converted without an unexpected exception, and the
texts of all items with a title and a link fit the contract. -/
theorem feed_never_blocks_iff (hdigest : ∀ text, isHexDigest (Digest.sha256 text) = true)
    (provider : OfficialRssProvider) (root : XmlElement) (draws : ℕ → Draw) :
    NeverBlocks provider root.items (provider.streamItems root draws) ↔
      ∀ item ∈ root.items, Harmless provider item :=
  streamEntries_neverBlocks_iff hdigest provider 0 root.items

end Entries

section SampleFeed

/-- A digest that is right about the entries of the sample feeds. -/
@[reducible] def feedDigest : Digest where
  sha256 text :=
    if text = "policy update\nofficial text" then
      "8f1d0ed1313dfcb83f07b27d7ae9e16507c894c536fc81c1c1ce8d836e76a1bb"
    else "0e90862e6067b918619a4c73aa1203939fc99792db4d7acae623960f2f109c7b"

/-- The parser on the date of the sample feeds. -/
@[reducible] def feedDates : DateParsers where
  parsedateToDatetime text :=
    if text = "Wed, 26 Aug 2026 14:59:00 GMT" then .ok ⟨1787756340000000, some 0⟩
    else .error .valueError

/-- A provider of a regulator's feed. -/
def agencyProvider : OfficialRssProvider where
  feedUrl := "https://agency.example/feed"
  sourceId := "agency"
  category := "regulation"
  observedAt := 1787756400000000

/-- An item of the feed, with its description. -/
def agencyItem (description : String) : XmlElement :=
  .node "item" none [.node "title" (some "Policy update") [],
    .node "link" (some "https://agency.example/update") [], .node "guid" (some "a1") [],
    .node "description" (some description) [],
    .node "pubDate" (some "Wed, 26 Aug 2026 14:59:00 GMT") []]

/-- A feed with an item for each of the descriptions. -/
def agencyFeed (descriptions : List String) : XmlElement :=
  .node "rss" none [.node "channel" none (descriptions.map agencyItem)]

theorem feedDigest_isHexDigest (text : String) :
    isHexDigest (feedDigest.sha256 text) = true := by
  by_cases htext : text = "policy update\nofficial text"
  · rw [htext]
    decide +kernel
  · have hother : feedDigest.sha256 text =
        "0e90862e6067b918619a4c73aa1203939fc99792db4d7acae623960f2f109c7b" := if_neg htext
    rw [hother]
    decide +kernel

end SampleFeed

theorem feed_never_blocks_iff_agencyFeed :
    let _ : CharacterTables := asciiTables
    let _ : Digest := feedDigest
    let _ : DateParsers := feedDates
    NeverBlocks agencyProvider (agencyFeed ["Official text"]).items
        (agencyProvider.streamItems (agencyFeed ["Official text"]) sampleDraws) ↔
      ∀ item ∈ (agencyFeed ["Official text"]).items, Harmless agencyProvider item := by
  intro _ _ _
  exact feed_never_blocks_iff feedDigest_isHexDigest agencyProvider _ sampleDraws

/-- A description of one blank ends the stream before the next item. -/
theorem blank_description_blocks :
    let _ : CharacterTables := asciiTables
    let _ : Digest := feedDigest
    let _ : DateParsers := feedDates
    let stream := agencyProvider.streamItems (agencyFeed [" ", "Official text"]) sampleDraws
    stream.yielded = [] ∧ stream.error = some .validationError ∧
      ¬NeverBlocks agencyProvider (agencyFeed [" ", "Official text"]).items stream := by
  intro _ _ _ stream
  have hstream : stream = ⟨[], some .validationError⟩ := by
    decide +kernel
  have herror : stream.error = some .validationError := congrArg RssStream.error hstream
  refine ⟨congrArg RssStream.yielded hstream, herror, fun h => ?_⟩
  have hnone := h.error_eq.symm.trans herror
  cases hnone

end EventAlpha
