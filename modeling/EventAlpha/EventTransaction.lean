import EventAlpha.EventRepository

/-!
# The transaction, column by column

`EventDb.save` refuses every text that is longer than its column.  A `VARCHAR`
column refuses less: it cuts off blanks beyond its width and stores the rest.
Here every row has its cut, and the transaction writes the rows that were cut
(`EventDb.store`).  Where nothing exceeds its column it is the transaction of
`save` (`EventDb.store_eq_save`).

A source is looked up by the text the envelope has.  One whose identifier is cut
is never found, and a second insert repeats the key of the first.
-/

namespace EventAlpha

namespace Varchar

/-- A text that a column of a width takes: it has no NUL, and only blanks exceed
the width. -/
def Takes (width : ℕ) (text : String) : Prop :=
  HasNoNul text ∧ (text.toList.drop width).all (fun char => char = ' ') = true

instance (width : ℕ) (text : String) : Decidable (Takes width text) := by
  unfold Takes; infer_instance

/-- What the column stores of a text. -/
def cut (width : ℕ) (text : String) : String := String.ofList (text.toList.take width)

variable {width : ℕ} {text : String}

theorem cut_eq_self_iff : cut width text = text ↔ text.length ≤ width := by
  rw [cut, ← String.toList_inj, String.toList_ofList, List.take_eq_self_iff,
    String.length_toList]

/-- A text that is not too long is taken if it has no NUL. -/
theorem takes_iff_of_le (h : text.length ≤ width) : Takes width text ↔ HasNoNul text := by
  have hdrop : text.toList.drop width = [] :=
    List.drop_eq_nil_of_le (by rwa [String.length_toList])
  simp [Takes, hdrop]

/-- A text that is not cut is taken where it fits. -/
theorem takes_iff_fitsColumn (h : cut width text = text) :
    Takes width text ↔ FitsColumn width text := by
  have hle := cut_eq_self_iff.mp h
  rw [takes_iff_of_le hle, FitsColumn, and_iff_right hle]

/-- What a column stores it takes again. -/
theorem Takes.cut (h : Takes width text) : Takes width (cut width text) := by
  have hle : (Varchar.cut width text).length ≤ width := by
    rw [Varchar.cut, String.length_ofList, List.length_take]
    exact min_le_left _ _
  refine (takes_iff_of_le hle).mpr ?_
  rw [HasNoNul, List.contains_eq_any_beq, List.any_eq_false, Varchar.cut, String.toList_ofList]
  have hnul := h.1
  rw [HasNoNul, List.contains_eq_any_beq, List.any_eq_false] at hnul
  exact fun char hmem => hnul char (List.mem_of_mem_take hmem)

end Varchar

open Varchar

section Rows

/-- The row of `sources` as its columns store it. -/
def SourceRow.cut (row : SourceRow) : SourceRow where
  sourceId := Varchar.cut 255 row.sourceId
  provider := Varchar.cut 100 row.provider
  sourceType := Varchar.cut 100 row.sourceType
  credibilityPrior := row.credibilityPrior
  storagePolicy := Varchar.cut 50 row.storagePolicy

/-- What the columns and checks of `sources` take. -/
def SourceRow.Taken (row : SourceRow) : Prop :=
  Takes 255 row.sourceId ∧ Takes 100 row.provider ∧ Takes 100 row.sourceType ∧
  row.credibilityPrior.between 0 1 = true ∧ Takes 50 row.storagePolicy

/-- The row of `raw_items` as its columns store it. -/
def RawItemRow.cut (row : RawItemRow) : RawItemRow :=
  { row with
    provider := Varchar.cut 100 row.provider
    sourceId := Varchar.cut 255 row.sourceId
    nativeId := row.nativeId.map (Varchar.cut 500)
    title := Varchar.cut 1000 row.title
    language := Varchar.cut 10 row.language
    category := Varchar.cut 100 row.category
    contentHash := Varchar.cut 64 row.contentHash
    storagePolicy := Varchar.cut 50 row.storagePolicy
    independenceGroup := row.independenceGroup.map (Varchar.cut 255) }

/-- What the columns of `raw_items` take. -/
def RawItemRow.Taken (row : RawItemRow) : Prop :=
  Takes 100 row.provider ∧ Takes 255 row.sourceId ∧
  (∀ nativeId ∈ row.nativeId, Takes 500 nativeId) ∧ Takes 1000 row.title ∧
  HasNoNul row.url ∧ Takes 10 row.language ∧ Takes 100 row.category ∧
  Takes 64 row.contentHash ∧ Takes 50 row.storagePolicy ∧
  (∀ group ∈ row.independenceGroup, Takes 255 group) ∧
  ∀ entry ∈ row.derivedAttributes, HasNoNul entry.1 ∧ HasNoNul entry.2

/-- The row of `events` as its columns store it. -/
def EventRow.cut (row : EventRow) : EventRow :=
  { row with
    clusteringVersion := Varchar.cut 100 row.clusteringVersion
    canonicalTitle := Varchar.cut 1000 row.canonicalTitle
    eventType := Varchar.cut 100 row.eventType
    language := Varchar.cut 10 row.language }

/-- The texts of a row of `events` are taken. -/
def EventRow.TextsTaken (row : EventRow) : Prop :=
  Takes 100 row.clusteringVersion ∧ Takes 1000 row.canonicalTitle ∧
  Takes 100 row.eventType ∧ Takes 10 row.language

/-- What the columns and checks of `events` take. -/
def EventRow.Taken (row : EventRow) : Prop :=
  (1 ≤ row.eventVersion ∧ row.eventVersion < 2 ^ 31) ∧ row.TextsTaken ∧
  (0 ≤ row.novelty ∧ row.novelty ≤ 1) ∧
  (0 ≤ row.sourceIndependence ∧ row.sourceIndependence ≤ 1)

/-- The row of `event_mentions` as its columns store it. -/
def EventMentionRow.cut (row : EventMentionRow) : EventMentionRow :=
  { row with
    sourceId := Varchar.cut 255 row.sourceId
    independenceGroup := Varchar.cut 255 row.independenceGroup }

/-- What the columns of `event_mentions` take. -/
def EventMentionRow.Taken (row : EventMentionRow) : Prop :=
  Takes 255 row.sourceId ∧ Takes 255 row.independenceGroup

instance (row : SourceRow) : Decidable row.Taken := by
  unfold SourceRow.Taken; infer_instance

instance (row : RawItemRow) : Decidable row.Taken := by
  unfold RawItemRow.Taken; infer_instance

instance (row : EventRow) : Decidable row.Taken := by
  unfold EventRow.Taken EventRow.TextsTaken; infer_instance

instance (row : EventMentionRow) : Decidable row.Taken := by
  unfold EventMentionRow.Taken; infer_instance

theorem EventRow.TextsTaken.cut {row : EventRow} (h : row.TextsTaken) : row.cut.TextsTaken := by
  obtain ⟨hclustering, htitle, htype, hlanguage⟩ := h
  exact ⟨hclustering.cut, htitle.cut, htype.cut, hlanguage.cut⟩

theorem EventMentionRow.Taken.cut {row : EventMentionRow} (h : row.Taken) : row.cut.Taken :=
  ⟨h.1.cut, h.2.cut⟩

/-! A row that is not cut is taken where it is valid. -/

theorem SourceRow.taken_iff_valid {row : SourceRow} (h : row.cut = row) :
    row.Taken ↔ row.Valid := by
  rw [Taken, Valid, takes_iff_fitsColumn (congrArg sourceId h),
    takes_iff_fitsColumn (congrArg provider h), takes_iff_fitsColumn (congrArg sourceType h),
    takes_iff_fitsColumn (congrArg storagePolicy h)]

/-- A text that a row may have is not cut with it. -/
theorem cut_eq_of_map_eq {width : ℕ} {stored : Option String}
    (h : stored.map (Varchar.cut width) = stored) :
    (∀ text ∈ stored, Takes width text) ↔ ∀ text ∈ stored, FitsColumn width text := by
  cases stored with
  | none => simp
  | some text =>
      have hcut : Varchar.cut width text = text := Option.some.inj h
      simp [takes_iff_fitsColumn hcut]

theorem RawItemRow.taken_iff_valid {row : RawItemRow} (h : row.cut = row) :
    row.Taken ↔ row.Valid := by
  rw [Taken, Valid, takes_iff_fitsColumn (congrArg provider h),
    takes_iff_fitsColumn (congrArg sourceId h), cut_eq_of_map_eq (congrArg nativeId h),
    takes_iff_fitsColumn (congrArg title h), takes_iff_fitsColumn (congrArg language h),
    takes_iff_fitsColumn (congrArg category h), takes_iff_fitsColumn (congrArg contentHash h),
    takes_iff_fitsColumn (congrArg storagePolicy h),
    cut_eq_of_map_eq (congrArg independenceGroup h)]

theorem EventRow.taken_iff_valid {row : EventRow} (h : row.cut = row) :
    row.Taken ↔ row.Valid := by
  rw [Taken, Valid, TextsTaken, takes_iff_fitsColumn (congrArg clusteringVersion h),
    takes_iff_fitsColumn (congrArg canonicalTitle h), takes_iff_fitsColumn (congrArg eventType h),
    takes_iff_fitsColumn (congrArg language h)]
  simp only [and_assoc]

theorem EventMentionRow.taken_iff_valid {row : EventMentionRow} (h : row.cut = row) :
    row.Taken ↔ row.Valid := by
  rw [Taken, Valid, takes_iff_fitsColumn (congrArg sourceId h),
    takes_iff_fitsColumn (congrArg independenceGroup h)]

end Rows

namespace EventDb

/-- The source an envelope names is known by the text it has, or its row is taken
and repeats no key. -/
def TakesSource (db : EventDb) (row : SourceRow) : Prop :=
  row.sourceId ∈ db.sources.keys ∨ (row.Taken ∧ row.cut.sourceId ∉ db.sources.keys)

instance (db : EventDb) (row : SourceRow) : Decidable (db.TakesSource row) := by
  unfold TakesSource; infer_instance

/-- The tables take every row the transaction writes. -/
def Takes (db : EventDb) (envelope : RawEnvelope) (event : CanonicalEvent)
    (current : EventMention) : Prop :=
  db.TakesSource envelope.sourceRow ∧ envelope.rawItemRow.Taken ∧
  (∀ row ∈ db.rawItems.values, ¬ row.Clashes envelope.rawItemRow.cut) ∧
  event.row.Taken ∧ (event.mentionRow current).Taken

instance (db : EventDb) (envelope : RawEnvelope) (event : CanonicalEvent)
    (current : EventMention) : Decidable (db.Takes envelope event current) := by
  unfold Takes; infer_instance

/-- The rows as they are stored. -/
def writeCut (db : EventDb) (envelope : RawEnvelope) (event : CanonicalEvent)
    (current : EventMention) : EventDb where
  sources :=
    if envelope.sourceId ∈ db.sources.keys then db.sources
    else db.sources.set envelope.sourceRow.cut.sourceId envelope.sourceRow.cut
  rawItems := db.rawItems.set envelope.id envelope.rawItemRow.cut
  events := db.events.set (event.eventId, event.eventVersion) event.row.cut
  mentions := db.mentions.set current.rawItemId (event.mentionRow current).cut

/-- `save`, on columns that cut. -/
def store (db : EventDb) (envelope : RawEnvelope) (event : CanonicalEvent) : Option EventDb :=
  match event.mentions.find? (fun mention => mention.rawItemId = envelope.id) with
  | none => none
  | some current =>
      if db.Takes envelope event current then some (db.writeCut envelope event current)
      else none

/-- `store` over a connection that may fail for reasons of its own. -/
def storeUnless (fault : Bool) (db : EventDb) (envelope : RawEnvelope)
    (event : CanonicalEvent) : Option EventDb :=
  if fault then none else db.store envelope event

/-- Where no row is cut, the transaction is that of `save`. -/
theorem store_eq_save (db : EventDb) {envelope : RawEnvelope} {event : CanonicalEvent}
    (hsource : envelope.sourceRow.cut = envelope.sourceRow)
    (hitem : envelope.rawItemRow.cut = envelope.rawItemRow)
    (hevent : event.row.cut = event.row)
    (hmention : ∀ mention ∈ event.mentions,
      (event.mentionRow mention).cut = event.mentionRow mention) :
    db.store envelope event = db.save envelope event := by
  unfold store save
  cases hfind : event.mentions.find? (fun mention => mention.rawItemId = envelope.id) with
  | none => rfl
  | some current =>
      have hcurrent := hmention current (List.mem_of_find?_eq_some hfind)
      have hsources : db.TakesSource envelope.sourceRow ↔
          envelope.sourceId ∈ db.sources.keys ∨ envelope.sourceRow.Valid := by
        rw [TakesSource, hsource, SourceRow.taken_iff_valid hsource]
        show envelope.sourceId ∈ _ ∨ (_ ∧ envelope.sourceId ∉ _) ↔ _
        tauto
      have htakes : db.Takes envelope event current ↔ db.Admits envelope event current := by
        rw [Takes, Admits, hsources, RawItemRow.taken_iff_valid hitem, hitem,
          EventRow.taken_iff_valid hevent, EventMentionRow.taken_iff_valid hcurrent]
      have hwrite : db.writeCut envelope event current = db.write envelope event current := by
        rw [writeCut, write, hsource, hitem, hevent, hcurrent]
        rfl
      simp only [htakes, hwrite]

end EventDb

end EventAlpha
