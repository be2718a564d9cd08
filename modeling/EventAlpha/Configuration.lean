import EventAlpha.DelimitedTexts
import EventAlpha.InstantTexts
import EventAlpha.RiskGate
import EventAlpha.SecSubmissions

/-!
# Configuration

`Settings.from_environment` reads the variables of the process and rejects what
the system must not start with; `build_news_providers` makes the event sources
from the settings.

The feeds are a small format, `source_id|category|url` entries between
semicolons.  It is read back as it was written, and nothing that is read could
not have been written so (`official_feeds_format`).  Settings that are accepted
have a source for every part of them (`accepted_settings_have_sources`), unless
the agent or the key is blank: the configuration only asks that they are not
empty, and the providers refuse them.
-/

namespace EventAlpha

section Texts

variable [CharacterTables]

/-- `text.strip()`. -/
def stripped (text : List Char) : List Char := DelimitedTexts.strip CharacterTables.isspace text

/-- `text.lower()`.  It is only compared with ASCII words, so the rule for a final
sigma plays no part. -/
def lowered (text : List Char) : List Char := text.flatMap CharacterTables.lower

/-- ASCII text is put into lower case letter by letter. -/
theorem lowered_of_ascii {text : List Char} (h : text.all (fun c => c.toNat < 128) = true) :
    lowered text = text.map Char.toLower := by
  rw [lowered, ← List.flatMap_pure_eq_map]
  refine List.flatMap_congr (fun c hc => CharacterTables.lower_ascii c ?_)
  simpa using List.all_eq_true.mp h c hc

end Texts

/-- What the configuration raises.  An error of the parsers has no message
here. -/
inductive ConfigError
  | runtime (message : String)
  | valueError (message : Option String)
  | overflowError
  deriving DecidableEq

/-- The variables of the process. -/
abbrev Environment := String → Option String

/-- `value <= 0`, which is false of what is not a number. -/
def PyFloat.notPositive : PyFloat → Bool
  | finite value => value ≤ 0
  | infinite negative => negative
  | nan => false

/-- `float`.  A text it rejects is `none`. -/
class FloatTexts where
  float : String → Option PyFloat
  float_default : float "5.0" = some (.finite 5)

/-- `OfficialRssFeedSettings`. -/
structure OfficialRssFeedSettings where
  sourceId : String
  category : String
  url : String
  deriving DecidableEq

section Feeds

variable [CharacterTables]

/-- One entry of the feeds, if it has its three parts. -/
def readFeed (entry : List Char) : Option OfficialRssFeedSettings :=
  match (DelimitedTexts.splitAtMost '|' 2 entry).map stripped with
  | [sourceId, category, url] =>
      if sourceId ≠ [] ∧ category ≠ [] ∧ url ≠ [] then
        some ⟨String.ofList sourceId, String.ofList category, String.ofList url⟩
      else none
  | _ => none

/-- What a malformed entry raises. -/
def malformedFeeds : ConfigError :=
  .runtime "EVENTALPHA_OFFICIAL_RSS_FEEDS entries must be source_id|category|url"

/-- The loop of `_official_feeds`. -/
def readFeeds : List (List Char) → Except ConfigError (List OfficialRssFeedSettings)
  | [] => .ok []
  | entry :: entries =>
      if stripped entry = [] then readFeeds entries
      else
        match readFeed entry with
        | none => .error malformedFeeds
        | some feed => (readFeeds entries).map (fun feeds => feed :: feeds)

/-- `_official_feeds`. -/
def officialFeeds (env : Environment) : Except ConfigError (List OfficialRssFeedSettings) :=
  readFeeds (((env "EVENTALPHA_OFFICIAL_RSS_FEEDS").getD "").toList.splitOn ';')

/-- `_bool`. -/
def boolSetting (env : Environment) (name : String) (default : Bool) : Bool :=
  let value := lowered (stripped ((env name).getD (if default then "True" else "False")).toList)
  ["1", "true", "yes", "on"].any (fun word => word.toList = value)

/-- `_csv`. -/
def csv (env : Environment) (name : String) : List String :=
  (DelimitedTexts.fields CharacterTables.isspace ',' ((env name).getD "").toList).map
    String.ofList

/-- `_positive_float`. -/
def positiveFloat [FloatTexts] (env : Environment) (name default : String) :
    Except ConfigError PyFloat :=
  match FloatTexts.float ((env name).getD default) with
  | none => .error (.valueError none)
  | some value =>
      if value.notPositive then .error (.runtime (name ++ " must be positive")) else .ok value

/-- `_optional_utc_datetime`. -/
def optionalUtcDatetime [TextParsers] (env : Environment) (name : String) :
    Except ConfigError (Option UtcDatetime) :=
  let value := stripped ((env name).getD "").toList
  if value = [] then .ok none
  else
    match TextParsers.fromisoformat (String.ofList value) with
    | none => .error (.valueError none)
    | some parsed =>
        match parsed.offset with
        | none => .error (.runtime (name ++ " must include a timezone"))
        | some offset =>
            if parsed.wall - offset < CivilTime.firstInstant ∨
                CivilTime.lastInstant < parsed.wall - offset then .error .overflowError
            else .ok (some (parsed.wall - offset))

end Feeds

/-- Where the events come from. -/
inductive EventSourceMode
  | replay
  | configured
  deriving DecidableEq

/-- The text of a mode. -/
def EventSourceMode.value : EventSourceMode → String
  | replay => "replay"
  | configured => "configured"

/-- The mode a text names, if it names one. -/
def EventSourceMode.ofText? (text : List Char) : Option EventSourceMode :=
  [replay, configured].find? (fun mode => mode.value.toList = text)

/-- All settings of the application; the risk gate reads `toSettings`. -/
structure ApplicationSettings extends Settings where
  environment : String
  liveTradingEnabled : Bool
  secUserAgent : Option String
  fredApiKey : Option String
  databaseUrl : Option String
  eventSourceMode : EventSourceMode
  officialRssFeeds : List OfficialRssFeedSettings
  secCiks : List String
  fredSeriesIds : List String
  replayAt : Option UtcDatetime
  marketPollSeconds : PyFloat

/-- `getenv(name) or None`. -/
def nonempty (env : Environment) (name : String) : Option String :=
  (env name).filter (fun text => text ≠ "")

/-- The checks of the configured mode, and what the first that fails says. -/
def sourceErrors (mode : EventSourceMode) (feeds : List OfficialRssFeedSettings)
    (ciks seriesIds : List String) (secUserAgent fredApiKey : Option String) : Option String :=
  if mode = .configured then
    if feeds = [] ∧ ciks = [] ∧ seriesIds = [] then
      some "Configured event mode requires at least one event source"
    else if ciks ≠ [] ∧ secUserAgent = none then
      some "SEC_USER_AGENT is required when SEC CIKs are configured"
    else if seriesIds ≠ [] ∧ fredApiKey = none then
      some "FRED_API_KEY is required when FRED series are configured"
    else none
  else none

section FromEnvironment

variable [CharacterTables] [TextParsers] [FloatTexts]

/-- `from_environment`. -/
def ApplicationSettings.fromEnvironment (env : Environment) :
    Except ConfigError ApplicationSettings :=
  if boolSetting env "EVENTALPHA_LIVE_TRADING_ENABLED" false then
    .error (.runtime "Live trading is deliberately unsupported in EventAlpha Phase 0.")
  else
    match EventSourceMode.ofText?
        (lowered (stripped ((env "EVENTALPHA_EVENT_SOURCE_MODE").getD "replay").toList)) with
    | none => .error (.runtime "EVENTALPHA_EVENT_SOURCE_MODE must be replay or configured")
    | some mode =>
        match officialFeeds env with
        | .error error => .error error
        | .ok feeds =>
            let ciks := csv env "EVENTALPHA_SEC_CIKS"
            let seriesIds := csv env "EVENTALPHA_FRED_SERIES_IDS"
            let secUserAgent := nonempty env "SEC_USER_AGENT"
            let fredApiKey := nonempty env "FRED_API_KEY"
            match sourceErrors mode feeds ciks seriesIds secUserAgent fredApiKey with
            | some message => .error (.runtime message)
            | none =>
                match optionalUtcDatetime env "EVENTALPHA_REPLAY_AT" with
                | .error error => .error error
                | .ok replayAt =>
                    match positiveFloat env "EVENTALPHA_MARKET_POLL_SECONDS" "5.0" with
                    | .error error => .error error
                    | .ok marketPollSeconds => .ok {
                        environment := (env "EVENTALPHA_ENV").getD "development"
                        demoMode := boolSetting env "EVENTALPHA_DEMO_MODE" true
                        liveTradingEnabled := false
                        killSwitch := boolSetting env "EVENTALPHA_KILL_SWITCH" false
                        secUserAgent := secUserAgent
                        fredApiKey := fredApiKey
                        databaseUrl := nonempty env "EVENTALPHA_DATABASE_URL"
                        eventSourceMode := mode
                        officialRssFeeds := feeds
                        secCiks := ciks
                        fredSeriesIds := seriesIds
                        replayAt := replayAt
                        marketPollSeconds := marketPollSeconds }

end FromEnvironment

section Sources

variable [CharacterTables]

/-- A news provider with what it is made from, the client aside. -/
inductive NewsProvider
  | replay
  | officialRss (feedUrl sourceId category : String)
  | secSubmissions (cik userAgent : String)
  | fredObservations (seriesId apiKey : String)
  deriving DecidableEq

/-- What the providers raise of a blank agent or key. -/
def blankUserAgent : ConfigError := .valueError "SEC_USER_AGENT is required by SEC access policy"

def blankApiKey : ConfigError := .valueError "FRED_API_KEY is required"

/-- A constructor that refuses a blank secret. -/
def withSecret (secret : String) (refusal : ConfigError) (provider : NewsProvider) :
    Except ConfigError NewsProvider :=
  if stripped secret.toList = [] then .error refusal else .ok provider

/-- `SecSubmissionsProvider`. -/
def newSecSubmissionsProvider (cik userAgent : String) : Except ConfigError NewsProvider :=
  withSecret userAgent blankUserAgent (.secSubmissions cik userAgent)

/-- `FredObservationProvider`. -/
def newFredObservationProvider (seriesId apiKey : String) : Except ConfigError NewsProvider :=
  withSecret apiKey blankApiKey (.fredObservations seriesId apiKey)

/-- One provider more for each key, all with one secret. -/
def extendProviders (providers : List NewsProvider) (keys : List String) (secret : Option String)
    (message : String) (provider : String → String → Except ConfigError NewsProvider) :
    Except ConfigError (List NewsProvider) :=
  if keys = [] then .ok providers
  else
    match secret with
    | none => .error (.runtime message)
    | some secret =>
        (keys.mapM (fun key => provider key secret)).map (fun extension => providers ++ extension)

/-- `build_news_providers`. -/
def buildNewsProviders (settings : ApplicationSettings) : Except ConfigError (List NewsProvider) :=
  if settings.eventSourceMode = .replay then .ok [.replay]
  else
    let providers := settings.officialRssFeeds.map (fun feed =>
      .officialRss feed.url feed.sourceId feed.category)
    match extendProviders providers settings.secCiks settings.secUserAgent
      "SEC user agent missing after configuration validation" newSecSubmissionsProvider with
    | .error error => .error error
    | .ok providers =>
        extendProviders providers settings.fredSeriesIds settings.fredApiKey
          "FRED API key missing after configuration validation" newFredObservationProvider

end Sources

section Format

/-- A text that may stand as a part of an entry. -/
structure IsPart [CharacterTables] (text : String) : Prop where
  ne_empty : text ≠ ""
  trimmed : stripped text.toList = text.toList
  no_semicolon : ';' ∉ text.toList

/-- A feed that can be written as an entry.  Its address may contain bars. -/
structure OfficialRssFeedSettings.Writable [CharacterTables] (feed : OfficialRssFeedSettings) :
    Prop where
  sourceId : IsPart feed.sourceId
  category : IsPart feed.category
  url : IsPart feed.url
  sourceId_no_bar : '|' ∉ feed.sourceId.toList
  category_no_bar : '|' ∉ feed.category.toList

/-- The entry of a feed. -/
def OfficialRssFeedSettings.entry (feed : OfficialRssFeedSettings) : List Char :=
  ['|'].intercalate [feed.sourceId.toList, feed.category.toList, feed.url.toList]

/-- The text of feeds. -/
def feedsText (feeds : List OfficialRssFeedSettings) : String :=
  String.ofList ([';'].intercalate (feeds.map OfficialRssFeedSettings.entry))

variable [CharacterTables] {feed : OfficialRssFeedSettings}

/-- An entry is three parts that are not blank, the first two without bars. -/
theorem readFeed_eq_some_iff {entry : List Char} :
    readFeed entry = some feed ↔ ∃ sourceId category url,
      entry = sourceId ++ '|' :: (category ++ '|' :: url) ∧
      '|' ∉ sourceId ∧ '|' ∉ category ∧
      (stripped sourceId ≠ [] ∧ stripped category ≠ [] ∧ stripped url ≠ []) ∧
      feed = ⟨String.ofList (stripped sourceId), String.ofList (stripped category),
        String.ofList (stripped url)⟩ := by
  constructor
  · intro h
    unfold readFeed at h
    split at h
    · rename_i first second third hparts
      obtain ⟨hne, hfeed⟩ := Option.ite_none_right_eq_some.mp h
      obtain ⟨sourceId, rest, hpieces, rfl, hrest⟩ := List.map_eq_cons_iff.mp hparts
      obtain ⟨category, rest', rfl, rfl, hrest'⟩ := List.map_eq_cons_iff.mp hrest
      obtain ⟨url, rest'', rfl, rfl, hrest''⟩ := List.map_eq_cons_iff.mp hrest'
      obtain rfl := List.map_eq_nil_iff.mp hrest''
      have hplain : ∀ piece ∈ [sourceId, category], '|' ∉ piece := by
        intro piece hpiece
        have hmem : piece ∈ (DelimitedTexts.splitAtMost '|' 2 entry).dropLast := by
          rw [hpieces]
          exact hpiece
        exact DelimitedTexts.notMem_of_mem_dropLast hmem
      have hentry := DelimitedTexts.intercalate_splitAtMost '|' 2 entry
      rw [hpieces] at hentry
      refine ⟨sourceId, category, url, ?_, hplain _ (by simp), hplain _ (by simp), hne,
        (Option.some.inj hfeed).symm⟩
      simpa using hentry.symm
    · exact nomatch h
  · intro hex
    obtain ⟨sourceId, category, url, rfl, hsource, hcategory, hne, rfl⟩ := hex
    have hsplit : DelimitedTexts.splitAtMost '|' 2 (sourceId ++ '|' :: (category ++ '|' :: url)) =
        [sourceId, category, url] := by
      have hplain : ∀ field ∈ [sourceId, category], '|' ∉ field := by
        simp [hsource, hcategory]
      have hjoin := DelimitedTexts.splitAtMost_join hplain url
      simpa using hjoin
    unfold readFeed
    rw [hsplit]
    exact if_pos hne

theorem stripped_ofList (text : List Char) :
    stripped (String.ofList (stripped text)).toList = (String.ofList (stripped text)).toList := by
  rw [String.toList_ofList]
  exact DelimitedTexts.trimmed_strip text

/-- What is read of an entry without semicolons can be written. -/
theorem writable_of_readFeed {entry : List Char} (hentry : ';' ∉ entry)
    (h : readFeed entry = some feed) : feed.Writable := by
  obtain ⟨sourceId, category, url, rfl, hsource, hcategory, hne, rfl⟩ :=
    readFeed_eq_some_iff.mp h
  have hpart : ∀ part : List Char, stripped part ≠ [] → ';' ∉ part →
      IsPart (String.ofList (stripped part)) := by
    intro part hpart hsemicolon
    refine ⟨?_, stripped_ofList part, ?_⟩
    · intro hempty
      exact hpart (by simpa using congrArg String.toList hempty)
    · rw [String.toList_ofList]
      exact fun hmem => hsemicolon (DelimitedTexts.strip_subset hmem)
  simp only [List.mem_append, List.mem_cons, not_or] at hentry
  obtain ⟨hsourceFree, -, hcategoryFree, -, hurlFree⟩ := hentry
  refine ⟨hpart _ hne.1 hsourceFree, hpart _ hne.2.1 hcategoryFree, hpart _ hne.2.2 hurlFree,
    ?_, ?_⟩
  · rw [String.toList_ofList]
    exact fun hmem => hsource (DelimitedTexts.strip_subset hmem)
  · rw [String.toList_ofList]
    exact fun hmem => hcategory (DelimitedTexts.strip_subset hmem)

/-- A feed is read back from its entry. -/
theorem readFeed_entry (h : feed.Writable) : readFeed feed.entry = some feed := by
  have hsource := h.sourceId.trimmed
  have hcategory := h.category.trimmed
  have hurl := h.url.trimmed
  refine readFeed_eq_some_iff.mpr ⟨feed.sourceId.toList, feed.category.toList, feed.url.toList,
    by simp [OfficialRssFeedSettings.entry], h.sourceId_no_bar, h.category_no_bar, ?_, ?_⟩
  · rw [hsource, hcategory, hurl]
    refine ⟨?_, ?_, ?_⟩
    · simpa using h.sourceId.ne_empty
    · simpa using h.category.ne_empty
    · simpa using h.url.ne_empty
  · rw [hsource, hcategory, hurl, String.ofList_toList, String.ofList_toList,
      String.ofList_toList]

/-- An entry has no semicolons and is not blank. -/
theorem entry_written (h : feed.Writable) : ';' ∉ feed.entry ∧ stripped feed.entry ≠ [] := by
  have hbar : CharacterTables.isspace '|' = false := by
    rw [CharacterTables.isspace_ascii '|' (by decide)]
    decide
  constructor
  · simp [OfficialRssFeedSettings.entry, h.sourceId.no_semicolon, h.category.no_semicolon,
      h.url.no_semicolon]
  · refine DelimitedTexts.strip_ne_nil (c := '|') ?_ hbar
    simp [OfficialRssFeedSettings.entry]

/-- The loop reads the entries that are not blank. -/
theorem readFeeds_eq_ok_iff {entries : List (List Char)}
    {feeds : List OfficialRssFeedSettings} :
    readFeeds entries = .ok feeds ↔ List.Forall₂ (fun entry feed => readFeed entry = some feed)
      (entries.filter (fun entry => stripped entry ≠ [])) feeds := by
  induction entries generalizing feeds with
  | nil => simp [readFeeds, eq_comm]
  | cons entry entries ih =>
      by_cases hblank : stripped entry = []
      · rw [readFeeds, if_pos hblank, ih, List.filter_cons_of_neg (by simp [hblank])]
      · rw [readFeeds, if_neg hblank, List.filter_cons_of_pos (by simp [hblank])]
        cases hfeed : readFeed entry with
        | none =>
            refine iff_of_false (by simp) ?_
            intro hall
            cases hall with
            | cons hread _ => simp [hfeed] at hread
        | some feed =>
            simp only
            constructor
            · intro h
              cases hrest : readFeeds entries with
              | error error => simp [hrest, Except.map] at h
              | ok rest =>
                  rw [hrest] at h
                  obtain rfl := Except.ok.inj h
                  exact .cons hfeed (ih.mp hrest)
            · intro hall
              cases hall with
              | cons hread hrest =>
                  obtain rfl := Option.some.inj (hfeed.symm.trans hread)
                  rw [ih.mpr hrest]
                  rfl

/-- It fails when one of them is malformed. -/
theorem readFeeds_eq_error_iff {entries : List (List Char)} {error : ConfigError} :
    readFeeds entries = .error error ↔ error = malformedFeeds ∧
      ∃ entry ∈ entries, stripped entry ≠ [] ∧ readFeed entry = none := by
  induction entries with
  | nil => simp [readFeeds]
  | cons entry entries ih =>
      by_cases hblank : stripped entry = []
      · rw [readFeeds, if_pos hblank, ih]
        simp [hblank]
      · rw [readFeeds, if_neg hblank]
        cases hfeed : readFeed entry with
        | none => simp [hblank, hfeed, eq_comm]
        | some feed =>
            have hsame : ((readFeeds entries).map (fun feeds => feed :: feeds) = .error error) ↔
                readFeeds entries = .error error := by
              cases readFeeds entries <;> simp [Except.map]
            simp only
            rw [hsame, ih]
            simp [hfeed]

/-- An entry that is cut in three by its first two bars, none of them blank. -/
def WellFormedEntry (entry : List Char) : Prop :=
  ∃ sourceId category url, entry = sourceId ++ '|' :: (category ++ '|' :: url) ∧
    '|' ∉ sourceId ∧ '|' ∉ category ∧
    stripped sourceId ≠ [] ∧ stripped category ≠ [] ∧ stripped url ≠ []

theorem readFeed_eq_none_iff {entry : List Char} :
    readFeed entry = none ↔ ¬WellFormedEntry entry := by
  rw [Option.eq_none_iff_forall_ne_some]
  constructor
  · intro hnone hwell
    obtain ⟨sourceId, category, url, hentry, hsource, hcategory, hne⟩ := hwell
    exact hnone _ (readFeed_eq_some_iff.mpr
      ⟨sourceId, category, url, hentry, hsource, hcategory, hne, rfl⟩)
  · intro hnot feed hread
    obtain ⟨sourceId, category, url, hentry, hsource, hcategory, hne, -⟩ :=
      readFeed_eq_some_iff.mp hread
    exact hnot ⟨sourceId, category, url, hentry, hsource, hcategory, hne⟩

/-- Every feed that was read has its entry. -/
theorem exists_entry {entries : List (List Char)} {feeds : List OfficialRssFeedSettings}
    (h : List.Forall₂ (fun entry feed => readFeed entry = some feed) entries feeds)
    (hfeed : feed ∈ feeds) : ∃ entry ∈ entries, readFeed entry = some feed := by
  induction h with
  | nil => simp at hfeed
  | @cons entry first entries feeds hread _ ih =>
      rcases List.mem_cons.mp hfeed with rfl | hmem
      · exact ⟨entry, List.mem_cons_self, hread⟩
      · obtain ⟨entry', hentry', hread'⟩ := ih hmem
        exact ⟨entry', List.mem_cons_of_mem entry hentry', hread'⟩

/-- The entries of the text of feeds are theirs. -/
theorem entries_of_feedsText {feeds : List OfficialRssFeedSettings}
    (hwritable : ∀ feed ∈ feeds, feed.Writable) :
    (([';'].intercalate (feeds.map OfficialRssFeedSettings.entry)).splitOn ';').filter
      (fun entry => stripped entry ≠ []) = feeds.map OfficialRssFeedSettings.entry := by
  have hall : ∀ entry ∈ feeds.map OfficialRssFeedSettings.entry,
      ';' ∉ entry ∧ stripped entry ≠ [] := by
    intro entry hentry
    obtain ⟨feed, hfeed, rfl⟩ := List.mem_map.mp hentry
    exact entry_written (hwritable feed hfeed)
  cases hentries : feeds.map OfficialRssFeedSettings.entry with
  | nil => simp [stripped, DelimitedTexts.strip]
  | cons first rest =>
      rw [hentries] at hall
      rw [List.splitOn_intercalate ';' (fun entry hentry => (hall entry hentry).1)
        (List.cons_ne_nil _ _)]
      exact List.filter_eq_self.mpr (fun entry hentry => decide_eq_true (hall entry hentry).2)

/-- Feeds that can be written are read back from their text. -/
theorem officialFeeds_feedsText {env : Environment} {feeds : List OfficialRssFeedSettings}
    (hwritable : ∀ feed ∈ feeds, feed.Writable)
    (henv : env "EVENTALPHA_OFFICIAL_RSS_FEEDS" = some (feedsText feeds)) :
    officialFeeds env = .ok feeds := by
  rw [officialFeeds, henv, Option.getD_some, feedsText, String.toList_ofList,
    readFeeds_eq_ok_iff, entries_of_feedsText hwritable, List.forall₂_map_left_iff,
    List.forall₂_same]
  exact fun feed hfeed => readFeed_entry (hwritable feed hfeed)

/-- What is read can be written. -/
theorem writable_of_officialFeeds {env : Environment} {feeds : List OfficialRssFeedSettings}
    (h : officialFeeds env = .ok feeds) : ∀ feed ∈ feeds, feed.Writable := by
  intro feed hfeed
  obtain ⟨entry, hentry, hread⟩ := exists_entry (readFeeds_eq_ok_iff.mp h) hfeed
  have hmem := List.mem_of_mem_filter hentry
  exact writable_of_readFeed (DelimitedTexts.notMem_of_mem_splitOn hmem) hread

/-- **The format of the feeds.**  Feeds that can be written are read back from
their text; whatever is read can be written; and a text is rejected for an
entry that is neither blank nor well formed. -/
theorem official_feeds_format (env : Environment) :
    (∀ feeds : List OfficialRssFeedSettings, (∀ feed ∈ feeds, feed.Writable) →
      env "EVENTALPHA_OFFICIAL_RSS_FEEDS" = some (feedsText feeds) →
      officialFeeds env = .ok feeds) ∧
    (∀ feeds, officialFeeds env = .ok feeds → ∀ feed ∈ feeds, feed.Writable) ∧
    ∀ error, officialFeeds env = .error error ↔ error = malformedFeeds ∧
      ∃ entry ∈ ((env "EVENTALPHA_OFFICIAL_RSS_FEEDS").getD "").toList.splitOn ';',
        stripped entry ≠ [] ∧ ¬WellFormedEntry entry := by
  refine ⟨fun feeds hwritable henv => officialFeeds_feedsText hwritable henv,
    fun feeds hread => writable_of_officialFeeds hread, ?_⟩
  intro error
  rw [officialFeeds, readFeeds_eq_error_iff]
  simp only [readFeed_eq_none_iff]

end Format

section Accepted

variable [CharacterTables]

/-- What is read of a list can be written in one. -/
def IsListed (text : String) : Prop :=
  text ≠ "" ∧ stripped text.toList = text.toList ∧ ',' ∉ text.toList

theorem isListed_of_mem_csv {env : Environment} {name text : String} (h : text ∈ csv env name) :
    IsListed text := by
  obtain ⟨field, hfield, rfl⟩ := List.mem_map.mp h
  obtain ⟨hne, htrimmed, hplain⟩ := DelimitedTexts.of_mem_fields hfield
  refine ⟨?_, ?_, ?_⟩
  · intro hempty
    exact hne (by simpa using congrArg String.toList hempty)
  · rw [String.toList_ofList]
    exact htrimmed
  · rwa [String.toList_ofList]

/-- A provider that has all it needs. -/
def NewsProvider.Usable : NewsProvider → Prop
  | replay => True
  | officialRss feedUrl sourceId category =>
      OfficialRssFeedSettings.Writable ⟨sourceId, category, feedUrl⟩
  | secSubmissions cik userAgent => IsListed cik ∧ stripped userAgent.toList ≠ []
  | fredObservations seriesId apiKey => IsListed seriesId ∧ stripped apiKey.toList ≠ []

/-- The providers of the configured mode. -/
def configuredProviders (feeds : List OfficialRssFeedSettings) (ciks seriesIds : List String)
    (secUserAgent fredApiKey : String) : List NewsProvider :=
  feeds.map (fun feed => .officialRss feed.url feed.sourceId feed.category) ++
    ciks.map (fun cik => .secSubmissions cik secUserAgent) ++
    seriesIds.map (fun seriesId => .fredObservations seriesId fredApiKey)

/-- Keys that need a secret, and the secret is blank. -/
def BlankSecret (keys : List String) (secret : Option String) : Prop :=
  keys ≠ [] ∧ stripped (secret.getD "").toList = []

instance (keys : List String) (secret : Option String) : Decidable (BlankSecret keys secret) :=
  inferInstanceAs (Decidable (_ ∧ _))

theorem mapM_withSecret {secret : String} (keys : List String) (refusal : ConfigError)
    (provider : String → NewsProvider) :
    keys.mapM (fun key => withSecret secret refusal (provider key)) =
      if BlankSecret keys (some secret) then .error refusal
      else .ok (keys.map provider) := by
  by_cases hblank : stripped secret.toList = []
  · cases keys with
    | nil => simp [BlankSecret, pure, Except.pure]
    | cons key keys => simp [BlankSecret, withSecret, hblank, bind, Except.bind]
  · have hall : (fun key => withSecret secret refusal (provider key)) =
        fun key => pure (provider key) := by
      funext key
      exact if_neg hblank
    rw [hall, List.mapM_pure]
    simp [BlankSecret, hblank, pure, Except.pure]

theorem extendProviders_of_secret {providers : List NewsProvider} {keys : List String}
    {secret : Option String} (hsecret : keys = [] ∨ secret ≠ none) (message : String)
    (refusal : ConfigError) (provider : String → String → NewsProvider) :
    extendProviders providers keys secret message
        (fun key secret => withSecret secret refusal (provider key secret)) =
      if BlankSecret keys secret then .error refusal
      else .ok (providers ++ keys.map (fun key => provider key (secret.getD ""))) := by
  unfold extendProviders
  by_cases hempty : keys = []
  · simp [hempty, BlankSecret]
  rw [if_neg hempty]
  cases secret with
  | none => exact absurd rfl (hsecret.resolve_left hempty)
  | some secret =>
      simp only [mapM_withSecret]
      by_cases hblank : BlankSecret keys (some secret)
      · rw [if_pos hblank, if_pos hblank]
        rfl
      · rw [if_neg hblank, if_neg hblank]
        rfl

omit [CharacterTables] in
/-- The checks of the configured mode: there is a source, and every secret that
is used. -/
theorem sourceErrors_eq_none_iff {feeds : List OfficialRssFeedSettings}
    {ciks seriesIds : List String} {secUserAgent fredApiKey : Option String} :
    sourceErrors .configured feeds ciks seriesIds secUserAgent fredApiKey = none ↔
      ¬(feeds = [] ∧ ciks = [] ∧ seriesIds = []) ∧ (ciks = [] ∨ secUserAgent ≠ none) ∧
        (seriesIds = [] ∨ fredApiKey ≠ none) := by
  unfold sourceErrors
  rw [if_pos rfl]
  by_cases hnone : feeds = [] ∧ ciks = [] ∧ seriesIds = []
  · simp [hnone]
  rw [if_neg hnone]
  by_cases hagent : ciks ≠ [] ∧ secUserAgent = none
  · rw [if_pos hagent]
    simp [hagent.1, hagent.2]
  rw [if_neg hagent]
  by_cases hkey : seriesIds ≠ [] ∧ fredApiKey = none
  · rw [if_pos hkey]
    simp [hkey.1, hkey.2]
  rw [if_neg hkey]
  refine iff_of_true rfl ⟨hnone, ?_, ?_⟩
  · rcases not_and_or.mp hagent with hempty | hsome
    · exact .inl (not_not.mp hempty)
    · exact .inr hsome
  · rcases not_and_or.mp hkey with hempty | hsome
    · exact .inl (not_not.mp hempty)
    · exact .inr hsome

/-- The checks of the configuration are those the factory relies on, except
that a secret may be blank. -/
theorem buildNewsProviders_configured {settings : ApplicationSettings}
    (hmode : settings.eventSourceMode = .configured)
    (hciks : settings.secCiks = [] ∨ settings.secUserAgent ≠ none)
    (hseriesIds : settings.fredSeriesIds = [] ∨ settings.fredApiKey ≠ none) :
    buildNewsProviders settings =
      if BlankSecret settings.secCiks settings.secUserAgent then .error blankUserAgent
      else if BlankSecret settings.fredSeriesIds settings.fredApiKey then .error blankApiKey
      else .ok (configuredProviders settings.officialRssFeeds settings.secCiks
        settings.fredSeriesIds (settings.secUserAgent.getD "") (settings.fredApiKey.getD "")) := by
  have hreplay : settings.eventSourceMode ≠ .replay := by simp [hmode]
  unfold buildNewsProviders
  rw [if_neg hreplay]
  unfold newSecSubmissionsProvider newFredObservationProvider
  simp only [extendProviders_of_secret hciks]
  by_cases hagent : BlankSecret settings.secCiks settings.secUserAgent
  · simp only [if_pos hagent]
  · simp only [if_neg hagent, extendProviders_of_secret hseriesIds]
    rfl

variable [TextParsers] [FloatTexts] {env : Environment} {settings : ApplicationSettings}

/-- What was checked of accepted settings. -/
structure Checked (env : Environment) (settings : ApplicationSettings) : Prop where
  notLive : boolSetting env "EVENTALPHA_LIVE_TRADING_ENABLED" false = false ∧
    settings.liveTradingEnabled = false
  feeds : officialFeeds env = .ok settings.officialRssFeeds
  ciks : settings.secCiks = csv env "EVENTALPHA_SEC_CIKS"
  seriesIds : settings.fredSeriesIds = csv env "EVENTALPHA_FRED_SERIES_IDS"
  secUserAgent : settings.secUserAgent = nonempty env "SEC_USER_AGENT"
  fredApiKey : settings.fredApiKey = nonempty env "FRED_API_KEY"
  sources : sourceErrors settings.eventSourceMode settings.officialRssFeeds settings.secCiks
    settings.fredSeriesIds settings.secUserAgent settings.fredApiKey = none
  poll : settings.marketPollSeconds.notPositive = false

omit [CharacterTables] [TextParsers] in
theorem notPositive_of_positiveFloat {name default : String} {value : PyFloat}
    (h : positiveFloat env name default = .ok value) : value.notPositive = false := by
  unfold positiveFloat at h
  split at h
  · exact nomatch h
  · split at h
    · exact nomatch h
    · rename_i hpositive
      rw [← Except.ok.inj h]
      exact Bool.not_eq_true _ ▸ hpositive

theorem checked_of_fromEnvironment
    (h : ApplicationSettings.fromEnvironment env = .ok settings) : Checked env settings := by
  unfold ApplicationSettings.fromEnvironment at h
  split at h
  · exact nomatch h
  rename_i hlive
  split at h
  · exact nomatch h
  split at h
  · exact nomatch h
  rename_i feeds hfeeds
  simp only at h
  split at h
  · exact nomatch h
  rename_i hsources
  split at h
  · exact nomatch h
  split at h
  · exact nomatch h
  rename_i poll hpoll
  obtain rfl := Except.ok.inj h
  exact ⟨⟨by simpa using hlive, rfl⟩, hfeeds, rfl, rfl, rfl, rfl, hsources,
    notPositive_of_positiveFloat hpoll⟩

/-- **Accepted settings** do not trade and poll after a positive time.  The
providers that are made of them have all that they need, one for each part that
is configured; and none are made when the agent or the key is used and blank,
and for no other reason. -/
theorem accepted_settings_have_sources
    (h : ApplicationSettings.fromEnvironment env = .ok settings) :
    settings.liveTradingEnabled = false ∧ settings.marketPollSeconds.notPositive = false ∧
      (∀ providers, buildNewsProviders settings = .ok providers →
        providers ≠ [] ∧ (∀ provider ∈ providers, provider.Usable) ∧
        (settings.eventSourceMode = .configured →
          providers = configuredProviders settings.officialRssFeeds settings.secCiks
            settings.fredSeriesIds (settings.secUserAgent.getD "")
            (settings.fredApiKey.getD ""))) ∧
      ∀ error, buildNewsProviders settings = .error error ↔
        settings.eventSourceMode = .configured ∧
          ((BlankSecret settings.secCiks settings.secUserAgent ∧ error = blankUserAgent) ∨
            (¬BlankSecret settings.secCiks settings.secUserAgent ∧
              BlankSecret settings.fredSeriesIds settings.fredApiKey ∧ error = blankApiKey)) := by
  have hchecked := checked_of_fromEnvironment h
  refine ⟨hchecked.notLive.2, hchecked.poll, ?_⟩
  cases hmode : settings.eventSourceMode with
  | replay =>
      have hbuilt : buildNewsProviders settings = .ok [.replay] := if_pos hmode
      rw [hbuilt]
      refine ⟨?_, by simp⟩
      intro providers hproviders
      obtain rfl := Except.ok.inj hproviders
      refine ⟨by simp, ?_, by simp⟩
      intro provider hprovider
      obtain rfl := List.mem_singleton.mp hprovider
      trivial
  | configured =>
      have hsources := hchecked.sources
      rw [hmode, sourceErrors_eq_none_iff] at hsources
      obtain ⟨hsome, hciks, hseriesIds⟩ := hsources
      rw [buildNewsProviders_configured hmode hciks hseriesIds]
      by_cases hagent : BlankSecret settings.secCiks settings.secUserAgent
      · simp [hagent, eq_comm]
      by_cases hkey : BlankSecret settings.fredSeriesIds settings.fredApiKey
      · simp [hagent, hkey, eq_comm]
      rw [if_neg hagent, if_neg hkey]
      refine ⟨?_, by simp [hagent, hkey]⟩
      intro providers hproviders
      obtain rfl := Except.ok.inj hproviders
      refine ⟨by simpa [configuredProviders, and_assoc] using hsome, ?_, fun _ => rfl⟩
      intro provider hprovider
      simp only [configuredProviders, List.mem_append, List.mem_map] at hprovider
      rcases hprovider with (⟨feed, hfeed, rfl⟩ | ⟨cik, hcik, rfl⟩) | ⟨seriesId, hseriesId, rfl⟩
      · exact writable_of_officialFeeds hchecked.feeds feed hfeed
      · refine ⟨isListed_of_mem_csv (hchecked.ciks ▸ hcik), ?_⟩
        exact fun hblank => hagent ⟨List.ne_nil_of_mem hcik, hblank⟩
      · refine ⟨isListed_of_mem_csv (hchecked.seriesIds ▸ hseriesId), ?_⟩
        exact fun hblank => hkey ⟨List.ne_nil_of_mem hseriesId, hblank⟩

end Accepted

section Sample

/-- The only number the samples read. -/
@[reducible] def defaultFloats : FloatTexts where
  float text := if text = "5.0" then some (.finite 5) else none
  float_default := if_pos rfl

/-- The feed of the samples, with a bar in its address. -/
def fedFeed : OfficialRssFeedSettings :=
  ⟨"federal-reserve", "central_bank", "https://example.invalid/fed.xml?tag=a|b"⟩

/-- One feed, two companies and two series, with blanks around the entries. -/
def fedEnvironment : Environment := fun name =>
  [("EVENTALPHA_EVENT_SOURCE_MODE", " Configured "),
    ("EVENTALPHA_OFFICIAL_RSS_FEEDS",
      "federal-reserve| central_bank |https://example.invalid/fed.xml?tag=a|b; ;"),
    ("EVENTALPHA_SEC_CIKS", "320193, 789019,"),
    ("EVENTALPHA_FRED_SERIES_IDS", "DFF,CPIAUCSL"),
    ("SEC_USER_AGENT", "EventAlpha ops@example.com"),
    ("FRED_API_KEY", "fixture-key")].lookup name

/-- The settings of `fedEnvironment`. -/
def fedSettings : ApplicationSettings where
  environment := "development"
  demoMode := true
  liveTradingEnabled := false
  killSwitch := false
  secUserAgent := some "EventAlpha ops@example.com"
  fredApiKey := some "fixture-key"
  databaseUrl := none
  eventSourceMode := .configured
  officialRssFeeds := [fedFeed]
  secCiks := ["320193", "789019"]
  fredSeriesIds := ["DFF", "CPIAUCSL"]
  replayAt := none
  marketPollSeconds := .finite 5

end Sample

/-- Five providers for one feed, two companies and two series. -/
theorem accepted_settings_have_sources_fed :
    let _ : CharacterTables := asciiTables
    let _ : TextParsers := filingParsers
    let _ : FloatTexts := defaultFloats
    ApplicationSettings.fromEnvironment fedEnvironment = .ok fedSettings ∧
      ∃ providers, buildNewsProviders fedSettings = .ok providers ∧ providers.length = 5 ∧
        ∀ provider ∈ providers, provider.Usable := by
  intro _ _ _
  have haccepted : ApplicationSettings.fromEnvironment fedEnvironment = .ok fedSettings := rfl
  obtain ⟨-, -, hproviders, -⟩ := accepted_settings_have_sources haccepted
  obtain ⟨providers, hbuilt⟩ : ∃ providers, buildNewsProviders fedSettings = .ok providers :=
    ⟨_, rfl⟩
  obtain ⟨-, husable, hconfigured⟩ := hproviders providers hbuilt
  exact ⟨haccepted, providers, hbuilt, by rw [hconfigured rfl]; rfl, husable⟩

section Configurable

variable [CharacterTables]

/-- A word of ASCII letters is only put into lower case. -/
theorem lowered_stripped_word {word : List Char}
    (h : word.all (fun c => c.toNat < 128 && !asciiTables.isspace c) = true) :
    lowered (stripped word) = word.map Char.toLower := by
  have hword : ∀ c ∈ word, c.toNat < 128 ∧ asciiTables.isspace c = false := by
    intro c hc
    simpa using List.all_eq_true.mp h c hc
  have hplain : ∀ c ∈ word, CharacterTables.isspace c = false := by
    intro c hc
    obtain ⟨hascii, hspace⟩ := hword c hc
    rw [CharacterTables.isspace_ascii c hascii, ← asciiTables.isspace_ascii c hascii]
    exact hspace
  rw [stripped, DelimitedTexts.strip_of_plain hplain]
  exact lowered_of_ascii (List.all_eq_true.mpr (fun c hc => decide_eq_true (hword c hc).1))

/-- The text of a list. -/
def csvText (texts : List String) : String :=
  String.ofList ([','].intercalate (texts.map String.toList))

/-- A list is read back from its text. -/
theorem csv_csvText {env : Environment} {name : String} {texts : List String}
    (hlisted : ∀ text ∈ texts, IsListed text) (henv : env name = some (csvText texts)) :
    csv env name = texts := by
  have hall : ∀ field ∈ texts.map String.toList, field ≠ [] ∧
      DelimitedTexts.Trimmed CharacterTables.isspace field ∧ ',' ∉ field := by
    intro field hfield
    obtain ⟨text, htext, rfl⟩ := List.mem_map.mp hfield
    obtain ⟨hne, htrimmed, hplain⟩ := hlisted text htext
    exact ⟨by simpa using hne, htrimmed, hplain⟩
  rw [csv, henv, Option.getD_some, csvText, String.toList_ofList,
    DelimitedTexts.fields_join (fun field hfield => (hall field hfield).1)
      (fun field hfield => (hall field hfield).2.1) (fun field hfield => (hall field hfield).2.2),
    List.map_map]
  exact List.map_id'' (fun text => String.ofList_toList) texts

/-- A secret that is not blank is read. -/
theorem nonempty_eq_some {env : Environment} {name secret : String} (henv : env name = some secret)
    (hblank : stripped secret.toList ≠ []) : nonempty env name = some secret := by
  have hne : secret ≠ "" := by
    intro hempty
    exact hblank (by rw [hempty]; rfl)
  rw [nonempty, henv, Option.filter_some, if_pos (by simpa using hne)]

/-- The variables that configure sources. -/
def configuredEnvironment (feeds : List OfficialRssFeedSettings) (ciks seriesIds : List String)
    (secUserAgent fredApiKey : String) : Environment := fun name =>
  [("EVENTALPHA_EVENT_SOURCE_MODE", "configured"),
    ("EVENTALPHA_OFFICIAL_RSS_FEEDS", feedsText feeds),
    ("EVENTALPHA_SEC_CIKS", csvText ciks),
    ("EVENTALPHA_FRED_SERIES_IDS", csvText seriesIds),
    ("SEC_USER_AGENT", secUserAgent),
    ("FRED_API_KEY", fredApiKey)].lookup name

variable [TextParsers] [FloatTexts]

/-- **Every list of sources can be configured.** -/
theorem sources_configurable {feeds : List OfficialRssFeedSettings} {ciks seriesIds : List String}
    {secUserAgent fredApiKey : String} (hfeeds : ∀ feed ∈ feeds, feed.Writable)
    (hciks : ∀ cik ∈ ciks, IsListed cik) (hseriesIds : ∀ seriesId ∈ seriesIds, IsListed seriesId)
    (hagent : stripped secUserAgent.toList ≠ []) (hkey : stripped fredApiKey.toList ≠ [])
    (hsome : ¬(feeds = [] ∧ ciks = [] ∧ seriesIds = [])) :
    ∃ settings, ApplicationSettings.fromEnvironment
        (configuredEnvironment feeds ciks seriesIds secUserAgent fredApiKey) = .ok settings ∧
      buildNewsProviders settings =
        .ok (configuredProviders feeds ciks seriesIds secUserAgent fredApiKey) := by
  obtain ⟨env, henv⟩ : ∃ env, env =
      configuredEnvironment feeds ciks seriesIds secUserAgent fredApiKey := ⟨_, rfl⟩
  rw [← henv]
  have hlive : boolSetting env "EVENTALPHA_LIVE_TRADING_ENABLED" false = false := by
    have hnone : env "EVENTALPHA_LIVE_TRADING_ENABLED" = none := by rw [henv]; rfl
    rw [boolSetting, hnone, Option.getD_none, if_neg (by simp),
      lowered_stripped_word rfl]
    decide
  have hmode : EventSourceMode.ofText?
      (lowered (stripped ((env "EVENTALPHA_EVENT_SOURCE_MODE").getD "replay").toList)) =
      some .configured := by
    have hgiven : env "EVENTALPHA_EVENT_SOURCE_MODE" = some "configured" := by rw [henv]; rfl
    rw [hgiven, Option.getD_some, lowered_stripped_word rfl]
    decide
  have hreadFeeds : officialFeeds env = .ok feeds :=
    officialFeeds_feedsText hfeeds (by rw [henv]; rfl)
  have hreadCiks : csv env "EVENTALPHA_SEC_CIKS" = ciks :=
    csv_csvText hciks (by rw [henv]; rfl)
  have hreadSeriesIds : csv env "EVENTALPHA_FRED_SERIES_IDS" = seriesIds :=
    csv_csvText hseriesIds (by rw [henv]; rfl)
  have hreadAgent : nonempty env "SEC_USER_AGENT" = some secUserAgent :=
    nonempty_eq_some (by rw [henv]; rfl) hagent
  have hreadKey : nonempty env "FRED_API_KEY" = some fredApiKey :=
    nonempty_eq_some (by rw [henv]; rfl) hkey
  have hsources : sourceErrors .configured feeds ciks seriesIds (some secUserAgent)
      (some fredApiKey) = none :=
    sourceErrors_eq_none_iff.mpr ⟨hsome, .inr (by simp), .inr (by simp)⟩
  have hreplayAt : optionalUtcDatetime env "EVENTALPHA_REPLAY_AT" = .ok none := by
    have hnone : env "EVENTALPHA_REPLAY_AT" = none := by rw [henv]; rfl
    rw [optionalUtcDatetime, hnone]
    rfl
  have hpoll : positiveFloat env "EVENTALPHA_MARKET_POLL_SECONDS" "5.0" =
      .ok (.finite 5) := by
    have hnone : env "EVENTALPHA_MARKET_POLL_SECONDS" = none := by rw [henv]; rfl
    rw [positiveFloat, hnone, Option.getD_none, FloatTexts.float_default]
    rfl
  have hsettings : ∃ settings, ApplicationSettings.fromEnvironment env = .ok settings ∧
      settings.eventSourceMode = .configured := by
    unfold ApplicationSettings.fromEnvironment
    rw [hlive, hmode, hreadFeeds]
    simp only [Bool.false_eq_true, if_false, hreadCiks, hreadSeriesIds, hreadAgent, hreadKey,
      hsources, hreplayAt, hpoll]
    exact ⟨_, rfl, rfl⟩
  obtain ⟨settings, haccepted, hconfigured⟩ := hsettings
  have hchecked := checked_of_fromEnvironment haccepted
  refine ⟨settings, haccepted, ?_⟩
  have hfeedsEq : settings.officialRssFeeds = feeds :=
    (Except.ok.inj (hreadFeeds.symm.trans hchecked.feeds)).symm
  rw [buildNewsProviders_configured hconfigured
      (.inr (by rw [hchecked.secUserAgent, hreadAgent]; simp))
      (.inr (by rw [hchecked.fredApiKey, hreadKey]; simp)),
    hfeedsEq, hchecked.ciks, hreadCiks, hchecked.seriesIds, hreadSeriesIds,
    hchecked.secUserAgent, hreadAgent, hchecked.fredApiKey, hreadKey,
    if_neg (fun hblank => hagent hblank.2), if_neg (fun hblank => hkey hblank.2)]
  rfl

end Configurable

/-- Another feed. -/
def pressFeed : OfficialRssFeedSettings :=
  ⟨"press-office", "government", "https://example.invalid/press.xml"⟩

/-- Two feeds, two companies and two series can be configured. -/
theorem sources_configurable_fed :
    let _ : CharacterTables := asciiTables
    let _ : TextParsers := filingParsers
    let _ : FloatTexts := defaultFloats
    ∃ settings, ApplicationSettings.fromEnvironment
        (configuredEnvironment [fedFeed, pressFeed] ["320193", "789019"] ["DFF", "CPIAUCSL"]
          "ops@example.com" "fixture-key") = .ok settings ∧
      buildNewsProviders settings =
        .ok (configuredProviders [fedFeed, pressFeed] ["320193", "789019"] ["DFF", "CPIAUCSL"]
          "ops@example.com" "fixture-key") := by
  intro _ _ _
  have hfed : fedFeed.Writable :=
    ⟨⟨by decide, rfl, by decide⟩, ⟨by decide, rfl, by decide⟩, ⟨by decide, rfl, by decide⟩,
      by decide, by decide⟩
  have hpress : pressFeed.Writable :=
    ⟨⟨by decide, rfl, by decide⟩, ⟨by decide, rfl, by decide⟩, ⟨by decide, rfl, by decide⟩,
      by decide, by decide⟩
  have hciks : IsListed "320193" ∧ IsListed "789019" :=
    ⟨⟨by decide, rfl, by decide⟩, ⟨by decide, rfl, by decide⟩⟩
  have hseriesIds : IsListed "DFF" ∧ IsListed "CPIAUCSL" :=
    ⟨⟨by decide, rfl, by decide⟩, ⟨by decide, rfl, by decide⟩⟩
  exact sources_configurable (by simpa using ⟨hfed, hpress⟩) (by simpa using hciks)
    (by simpa using hseriesIds) (by decide) (by decide) (by simp)

end EventAlpha
