import EventAlpha.EventIndexes
import EventAlpha.EventRepository

/-!
# The tables store the history

`Stores` says that the item, event and mention tables are the images of a
history of commits, row by row and in its order.  It is kept by every save
that adds an item and a version not stored yet (`Stores.save`).

Over such tables the reads of the repository have one specification each.

* `Stores.loadState_spec` — the two statements of `load_state` may see the
  tables at different moments: events then come from the earlier history and
  mentions and items from the later one.
* `Stores.loadEventVersion_spec` — `load_event_version` may be torn in the same
  way, and returns the version as it was committed all the same, because it
  selects the mentions by version.
* `LoadedFrom.represents` — when both statements see the same tables, the
  rebuilt indexes represent the history.
-/

namespace EventAlpha

open KeyedOrder VersionLog

/-- The row of `raw_items` a commit wrote. -/
def Commit.rawItemRow (commit : Commit) : RawItemRow := commit.envelope.rawItemRow

/-- The row of `events` a commit wrote. -/
def Commit.eventRow (commit : Commit) : EventRow := commit.event.row

/-- The row of `event_mentions` a commit wrote. -/
def Commit.mentionRow (commit : Commit) : EventMentionRow :=
  commit.event.mentionRow commit.mention

/-- What the store says about the item of a commit. -/
def Commit.item (commit : Commit) : StoredItemIndex :=
  storedItem (commit.mentionRow, commit.rawItemRow)

/-- The tables are the images of a history. -/
structure Stores (db : EventDb) (log : List Commit) : Prop where
  rawItems_eq : db.rawItems.entries =
    log.map (fun commit => (commit.envelope.id, commit.rawItemRow))
  events_eq : db.events.entries =
    log.map (fun commit => ((commit.eventId, commit.version), commit.eventRow))
  mentions_eq : db.mentions.entries =
    log.map (fun commit => (commit.envelope.id, commit.mentionRow))
  versions_lt : ∀ commit ∈ log, commit.version < 2 ^ 31

theorem stores_empty : Stores EventDb.empty [] := ⟨rfl, rfl, rfl, by simp⟩

/-- A list search finds the only element that passes. -/
theorem find?_eq_some_of_unique {α : Type*} {p : α → Bool} {l : List α} {a : α}
    (hmem : a ∈ l) (ha : p a = true) (hunique : ∀ b ∈ l, p b = true → b = a) :
    l.find? p = some a := by
  cases hfind : l.find? p with
  | none => exact absurd ha (by simpa using List.find?_eq_none.mp hfind a hmem)
  | some b =>
      rw [hunique b (List.mem_of_find?_eq_some hfind) (List.find?_some hfind)]

namespace Stores

variable {db : EventDb} {log : List Commit}

/-- No two commits store an item under one identifier. -/
theorem nodup_ids (h : Stores db log) :
    (log.map (fun commit => commit.envelope.id)).Nodup := by
  have hnodup := db.rawItems.nodup_keys
  rw [h.rawItems_eq, List.map_map] at hnodup
  exact hnodup

/-- Commits that stored one identifier are one commit. -/
theorem eq_of_id_eq (h : Stores db log) {commit commit' : Commit} (hmem : commit ∈ log)
    (hmem' : commit' ∈ log) (hid : commit.envelope.id = commit'.envelope.id) :
    commit = commit' :=
  List.inj_on_of_nodup_map h.nodup_ids hmem hmem' hid

/-- **Store step.**  Saving a new item in a new version appends one commit. -/
theorem save (h : Stores db log) {db' : EventDb} {envelope : RawEnvelope}
    {event : CanonicalEvent}
    (hfind : event.mentions.find? (fun mention => mention.rawItemId = envelope.id) =
      some envelope.mention)
    (hitem : ∀ commit ∈ log, commit.envelope.id ≠ envelope.id)
    (hversion : ∀ commit ∈ log,
      ¬ (commit.eventId = event.eventId ∧ commit.version = event.eventVersion))
    (hsave : db.save envelope event = some db') :
    Stores db' (log ++ [⟨envelope, event⟩]) := by
  have hlt := EventDb.version_lt_of_save hsave
  obtain rfl := EventDb.save_eq_some hfind hsave
  constructor
  · exact InsertionDict.entries_set_image (i := ⟨envelope, event⟩) h.rawItems_eq hitem
  · refine InsertionDict.entries_set_image (i := ⟨envelope, event⟩) h.events_eq ?_
    intro commit hmem hkey
    exact hversion commit hmem (Prod.mk.inj hkey)
  · exact InsertionDict.entries_set_image (i := ⟨envelope, event⟩) h.mentions_eq hitem
  · intro commit hmem
    rcases List.mem_append.mp hmem with hold | hnew
    · exact h.versions_lt commit hold
    · obtain rfl := List.mem_singleton.mp hnew
      exact hlt

theorem mem_events_values (h : Stores db log) {row : EventRow} :
    row ∈ db.events.values ↔ ∃ commit ∈ log, commit.eventRow = row := by
  rw [InsertionDict.values, h.events_eq, List.map_map]
  simp

theorem mem_rawItems_values (h : Stores db log) {row : RawItemRow} :
    row ∈ db.rawItems.values ↔ ∃ commit ∈ log, commit.rawItemRow = row := by
  rw [InsertionDict.values, h.rawItems_eq, List.map_map]
  simp

/-- The mention table holds one row for each commit. -/
theorem mentions_values (h : Stores db log) :
    db.mentions.values = log.map Commit.mentionRow := by
  rw [InsertionDict.values, h.mentions_eq, List.map_map]
  rfl

/-- A stored version is the row of the commit that made it. -/
theorem get?_events_iff (h : Stores db log) {id : Uuid} {version : ℕ} {row : EventRow} :
    db.events.get? (id, version) = some row ↔
      ∃ commit ∈ log, commit.eventId = id ∧ commit.version = version ∧
        commit.eventRow = row := by
  rw [InsertionDict.get?_eq_some_iff, h.events_eq]
  simp [and_assoc]

/-- The stored versions are those of the commits. -/
theorem mem_events_keys (h : Stores db log) {id : Uuid} {version : ℕ} :
    (id, version) ∈ db.events.keys ↔
      ∃ commit ∈ log, commit.eventId = id ∧ commit.version = version := by
  rw [InsertionDict.keys, h.events_eq, List.map_map]
  simp

/-- The latest rows are those of the newest commits. -/
theorem mem_latestEventRows (h : Stores db log)
    (hnumbered : Numbered Commit.eventId Commit.version log) {row : EventRow} :
    row ∈ db.latestEventRows ↔
      ∃ id last, latest Commit.eventId log id = some last ∧ last.eventRow = row := by
  unfold EventDb.latestEventRows
  rw [List.mem_filter, h.mem_events_values]
  constructor
  · intro hex
    obtain ⟨⟨commit, hmem, rfl⟩, hgreatest⟩ := hex
    have hmax : ∀ commit' ∈ log, commit'.eventId = commit.eventId →
        commit'.version ≤ commit.version := by
      intro commit' hmem' hid
      exact of_decide_eq_true hgreatest commit'.eventRow
        (h.mem_events_values.mpr ⟨commit', hmem', rfl⟩) hid
    obtain ⟨hpos, hle⟩ := hnumbered.number_bounds hmem
    obtain ⟨last, hlast, hid, hcount⟩ :=
      hnumbered.exists_number (hpos.trans hle) (le_refl _)
    refine ⟨commit.eventId, commit, hnumbered.latest_eq_some_iff.mpr ⟨hmem, rfl, ?_⟩, rfl⟩
    exact le_antisymm hle (hcount ▸ hmax last hlast hid)
  · intro hex
    obtain ⟨id, last, hlatest, rfl⟩ := hex
    obtain ⟨hmem, rfl⟩ := latest_mem hlatest
    refine ⟨⟨last, hmem, rfl⟩, decide_eq_true ?_⟩
    intro row' hrow' hid
    obtain ⟨commit, hcommit, rfl⟩ := h.mem_events_values.mp hrow'
    have hid' : commit.eventId = last.eventId := hid
    have hbound := (hnumbered.number_bounds hcommit).2
    rw [hid', ← hnumbered.number_latest hlatest] at hbound
    exact hbound

/-- The join pairs every mention with the item it names. -/
theorem joinedRows_eq (h : Stores db log) :
    db.joinedRows = log.map (fun commit => (commit.mentionRow, commit.rawItemRow)) := by
  have hpair : ∀ commit ∈ log,
      db.rawItems.values.filter (fun row => commit.mentionRow.rawItemId = row.id) =
        [commit.rawItemRow] := by
    intro commit hmem
    have hnodup : db.rawItems.values.Nodup := by
      refine List.Nodup.of_map RawItemRow.id ?_
      have hids := h.nodup_ids
      rw [InsertionDict.values, h.rawItems_eq, List.map_map, List.map_map]
      exact hids
    refine List.perm_singleton.mp ((List.perm_ext_iff_of_nodup (hnodup.filter _)
      (List.nodup_singleton _)).mpr ?_)
    intro row
    rw [List.mem_filter, List.mem_singleton, h.mem_rawItems_values]
    constructor
    · intro hex
      obtain ⟨⟨commit', hmem', rfl⟩, hid⟩ := hex
      rw [h.eq_of_id_eq hmem hmem' (of_decide_eq_true hid)]
    · intro heq
      obtain rfl := heq
      exact ⟨⟨commit, hmem, rfl⟩, decide_eq_true rfl⟩
  calc db.joinedRows
      = log.flatMap (fun commit => [(commit.mentionRow, commit.rawItemRow)]) := by
        rw [EventDb.joinedRows, h.mentions_values, List.flatMap_map]
        refine List.flatMap_congr ?_
        intro commit hmem
        rw [hpair commit hmem]
        rfl
    _ = log.map (fun commit => (commit.mentionRow, commit.rawItemRow)) :=
        List.flatMap_pure_eq_map _ _

/-- A row of a latest version determines the newest commit of its event. -/
theorem latestEventRows_unique (h : Stores db log)
    (hnumbered : Numbered Commit.eventId Commit.version log) :
    ∀ row ∈ db.latestEventRows, ∀ row' ∈ db.latestEventRows,
      row.eventId = row'.eventId → row = row' := by
  intro row hrow row' hrow' hid
  obtain ⟨id, last, hlatest, rfl⟩ := (h.mem_latestEventRows hnumbered).mp hrow
  obtain ⟨id', last', hlatest', rfl⟩ := (h.mem_latestEventRows hnumbered).mp hrow'
  have hsame : last.eventId = last'.eventId := hid
  rw [(latest_mem hlatest).2, (latest_mem hlatest').2] at hsame
  subst hsame
  rw [Option.some.inj (hlatest.symm.trans hlatest')]

/-- The mentions gathered for an event are those of its commits. -/
theorem gathered_perm (h : Stores db log) {joined : List (EventMentionRow × RawItemRow)}
    (hjoined : joined.Perm db.joinedRows) (id : Uuid) :
    (((InsertionDict.gather (joined.map (fun row => (row.1.eventId, row.1.mention)))).get?
      id).getD []).Perm ((commitsOf log id).map Commit.mention) := by
  rw [h.joinedRows_eq] at hjoined
  rw [InsertionDict.getD_get?_gather]
  have hrows := ((hjoined.map (fun row => (row.1.eventId, row.1.mention))).filter
    (fun pair => pair.1 = id)).map Prod.snd
  refine hrows.trans (List.Perm.of_eq ?_)
  rw [List.map_map, List.filter_map, List.map_map]
  rfl

end Stores

/-- What a read of the two statements of `load_state` returns when the first
one sees the history `old` and the second one the history `new`. -/
structure LoadedFrom (state : PersistedEventState) (old new : List Commit) : Prop where
  events_row : ∀ event ∈ state.events, ∃ last,
    latest Commit.eventId old event.eventId = some last ∧
      event.scalars = last.event.scalars ∧ event.Ordered
  events_mentions : ∀ event ∈ state.events,
    event.mentions.Perm ((commitsOf new event.eventId).map Commit.mention)
  events_complete : ∀ id last, latest Commit.eventId old id = some last →
    ∃ event ∈ state.events, event.eventId = id
  events_unique : ∀ event ∈ state.events, ∀ event' ∈ state.events,
    event.eventId = event'.eventId → event = event'
  items_perm : state.items.Perm (new.map Commit.item)

/-- **Specification of `load_state`.**  It does not raise, and it returns the
newest versions of the tables its first statement sees with the mentions and
items of the tables its second statement sees. -/
theorem Stores.loadState_spec {eventsView itemsView : EventDb} {old new : List Commit}
    (hold : Stores eventsView old) (hgrown : Grown old) (hnew : Stores itemsView new)
    {result : Except LoadError PersistedEventState}
    (hload : eventsView.LoadsState itemsView result) :
    ∃ state, result = .ok state ∧ LoadedFrom state old new := by
  obtain ⟨eventRows, joined, hrows, hjoined, rfl⟩ := hload
  have hrow : ∀ row ∈ eventRows, ∃ last,
      latest Commit.eventId old row.eventId = some last ∧ last.eventRow = row := by
    intro row hmem
    obtain ⟨id, last, hlatest, rfl⟩ :=
      (hold.mem_latestEventRows hgrown.numbered).mp (hrows.mem_iff.mp hmem)
    have hid : last.eventRow.eventId = id := (latest_mem hlatest).2
    exact ⟨last, by rw [hid]; exact hlatest, rfl⟩
  have haccepted : ∀ row ∈ eventRows, ∀ mentions, (row.canonicalEvent mentions).Accepted := by
    intro row hmem mentions
    obtain ⟨last, hlatest, rfl⟩ := hrow row hmem
    exact hgrown.accepted last (latest_mem hlatest).1
  refine ⟨_, if_pos ?_, ?_⟩
  · intro event hmem
    obtain ⟨row, hin, rfl⟩ := List.mem_map.mp hmem
    exact haccepted row hin _
  · constructor
    · intro event hmem
      obtain ⟨row, hin, rfl⟩ := List.mem_map.mp hmem
      obtain ⟨last, hlatest, rfl⟩ := hrow row hin
      exact ⟨last, hlatest, rfl, sortedBy_sorted _ _⟩
    · intro event hmem
      obtain ⟨row, hin, rfl⟩ := List.mem_map.mp hmem
      exact (sortedBy_perm _ _).trans (hnew.gathered_perm hjoined row.eventId)
    · intro id last hlatest
      have hmem := hrows.mem_iff.mpr
        ((hold.mem_latestEventRows hgrown.numbered).mpr ⟨id, last, hlatest, rfl⟩)
      exact ⟨_, List.mem_map.mpr ⟨last.eventRow, hmem, rfl⟩, (latest_mem hlatest).2⟩
    · intro event hmem event' hmem' hid
      obtain ⟨row, hin, rfl⟩ := List.mem_map.mp hmem
      obtain ⟨row', hin', rfl⟩ := List.mem_map.mp hmem'
      rw [hold.latestEventRows_unique hgrown.numbered row (hrows.mem_iff.mp hin) row'
        (hrows.mem_iff.mp hin') hid]
    · have hitems := hjoined.map storedItem
      rw [hnew.joinedRows_eq, List.map_map] at hitems
      exact hitems

section Rebuilding

variable {state : PersistedEventState} {log : List Commit}

/-- What the loaded items map to is what the items of the commits map to. -/
theorem LoadedFrom.mem_map_items {β : Type} (h : LoadedFrom state log log)
    (f : StoredItemIndex → β) (b : β) :
    b ∈ state.items.map f ↔ ∃ commit ∈ log, f commit.item = b := by
  rw [(h.items_perm.map f).mem_iff, List.map_map, List.mem_map]
  rfl

/-- A loaded event is a view of the newest version of its event. -/
theorem LoadedFrom.view (h : LoadedFrom state log log) (hgrown : Grown log)
    {event : CanonicalEvent} (hmem : event ∈ state.events) :
    ∃ last, latest Commit.eventId log event.eventId = some last ∧
      event.Same last.event ∧ event.Ordered := by
  obtain ⟨last, hlatest, hscalars, hordered⟩ := h.events_row event hmem
  refine ⟨last, hlatest, ⟨hscalars, ?_⟩, hordered⟩
  exact (h.events_mentions event hmem).trans (hgrown.latest_mentions_perm hlatest).symm

/-- The rebuilt event index files the loaded events under their identifiers. -/
theorem LoadedFrom.get?_events_iff (h : LoadedFrom state log log) {id : Uuid}
    {event : CanonicalEvent} :
    (EventService.ofState state).events.get? id = some event ↔
      event ∈ state.events ∧ event.eventId = id := by
  rw [EventService.ofState, InsertionDict.get?_ofList_eq_some_iff]
  · rw [List.mem_map]
    constructor
    · intro hex
      obtain ⟨event', hmem, heq⟩ := hex
      obtain ⟨rfl, rfl⟩ := Prod.mk.inj heq
      exact ⟨hmem, rfl⟩
    · intro hand
      obtain ⟨hmem, rfl⟩ := hand
      exact ⟨event, hmem, rfl⟩
  · intro pair hpair pair' hpair' heq
    obtain ⟨event, hmem, rfl⟩ := List.mem_map.mp hpair
    obtain ⟨event', hmem', rfl⟩ := List.mem_map.mp hpair'
    exact h.events_unique event hmem event' hmem' heq

/-- The rebuilt version cache holds loaded events under their numbers. -/
theorem LoadedFrom.of_get?_versions (h : LoadedFrom state log log) {id : Uuid} {version : ℕ}
    {event : CanonicalEvent}
    (hget : (EventService.ofState state).versions.get? (id, version) = some event) :
    event ∈ state.events ∧ event.eventId = id ∧ event.eventVersion = version := by
  rw [EventService.ofState, InsertionDict.get?_ofList_eq_some_iff] at hget
  · obtain ⟨event', hmem, heq⟩ := List.mem_map.mp hget
    obtain ⟨hkey, rfl⟩ := Prod.mk.inj heq
    obtain ⟨hid, hversion⟩ := Prod.mk.inj hkey
    exact ⟨hmem, hid, hversion⟩
  · intro pair hpair pair' hpair' heq
    obtain ⟨event, hmem, rfl⟩ := List.mem_map.mp hpair
    obtain ⟨event', hmem', rfl⟩ := List.mem_map.mp hpair'
    exact h.events_unique event hmem event' hmem' (Prod.mk.inj heq).1

/-- **Rebuilding.**  The indexes rebuilt from an untorn read represent the
history. -/
theorem LoadedFrom.represents (h : LoadedFrom state log log) (hgrown : Grown log)
    (hkeys : KeysDistinct log) : Represents (EventService.ofState state) log where
  events_latest id event hget := by
    obtain ⟨hmem, rfl⟩ := h.get?_events_iff.mp hget
    exact h.view hgrown hmem
  events_complete id last hlatest := by
    obtain ⟨event, hmem, hid⟩ := h.events_complete id last hlatest
    exact ⟨event, h.get?_events_iff.mpr ⟨hmem, hid⟩⟩
  versions_recorded id version event hget := by
    obtain ⟨hmem, rfl, rfl⟩ := h.of_get?_versions hget
    obtain ⟨last, hlatest, hsame, hordered⟩ := h.view hgrown hmem
    obtain ⟨hlast, hid⟩ := latest_mem hlatest
    exact ⟨last, hlast, hid, hsame.eventVersion_eq.symm, hsame, hordered⟩
  identity_iff key id := by
    rw [EventService.ofState, InsertionDict.get?_ofList_eq_some_iff, h.mem_map_items]
    · simp only [Prod.mk.injEq]
      rfl
    · intro pair hpair pair' hpair' heq
      obtain ⟨commit, hcommit, rfl⟩ := (h.mem_map_items _ _).mp hpair
      obtain ⟨commit', hcommit', rfl⟩ := (h.mem_map_items _ _).mp hpair'
      rw [List.inj_on_of_nodup_map hkeys hcommit hcommit' heq]
  content_iff hash id := by
    rw [EventService.ofState, InsertionDict.mem_getD_collect, h.mem_map_items]
    simp only [Prod.mk.injEq]
    rfl
  content_none_iff hash := by
    rw [EventService.ofState, InsertionDict.get?_collect_eq_none_iff]
    constructor
    · intro hall commit hcommit
      exact hall _ ((h.mem_map_items _ _).mpr ⟨commit, hcommit, rfl⟩)
    · intro hall pair hpair
      obtain ⟨commit, hcommit, rfl⟩ := (h.mem_map_items _ _).mp hpair
      exact hall commit hcommit

end Rebuilding

/-- The mention rows up to a version are those of its commits. -/
theorem Stores.mentionRowsUpTo_eq {db : EventDb} {log : List Commit} (h : Stores db log)
    (hgrown : Grown log) (id : Uuid) (version : ℕ) :
    db.mentionRowsUpTo id version =
      ((commitsOf log id).take version).map Commit.mentionRow := by
  rw [commitsOf, ← hgrown.numbered.filter_number_le, EventDb.mentionRowsUpTo,
    h.mentions_values, List.filter_map, ofKey, List.filter_filter]
  refine congrArg _ (List.filter_congr ?_)
  intro commit _
  rw [Bool.and_comm]
  exact Bool.decide_and _ _

/-- The answers of a version read that sees a history: the version as it was
committed, nothing when there is no such version, and an error for a number that
no version can have. -/
inductive AnswersVersion (log : List Commit) (id : Uuid) (version : ℕ) :
    Except LoadError (Option CanonicalEvent) → Prop
  | committed {commit : Commit} {event : CanonicalEvent} (hmem : commit ∈ log)
      (hid : commit.eventId = id) (hversion : commit.version = version)
      (hsame : event.Same commit.event) (hordered : event.Ordered) :
      AnswersVersion log id version (.ok (some event))
  | absent (hrange : version < 2 ^ 31)
      (hnone : ∀ commit ∈ log, ¬(commit.eventId = id ∧ commit.version = version)) :
      AnswersVersion log id version (.ok none)
  | refused (hrange : 2 ^ 31 ≤ version)
      (hnone : ∀ commit ∈ log, ¬(commit.eventId = id ∧ commit.version = version)) :
      AnswersVersion log id version (.error .dataError)

/-- **Specification of `load_event_version`.**  It is enough that its second
statement sees at least the history its first one saw. -/
theorem Stores.loadEventVersion_spec {eventsView itemsView : EventDb}
    {log rest : List Commit} (hold : Stores eventsView log)
    (hnew : Stores itemsView (log ++ rest)) (hgrown : Grown (log ++ rest))
    {id : Uuid} {version : ℕ} {result : Except LoadError (Option CanonicalEvent)}
    (hload : eventsView.LoadsEventVersion itemsView id version result) :
    AnswersVersion log id version result := by
  unfold EventDb.LoadsEventVersion at hload
  split at hload
  case isFalse hrange =>
    obtain rfl := hload
    refine .refused (not_lt.mp hrange) ?_
    intro commit hmem hand
    exact hrange (hand.2 ▸ hold.versions_lt commit hmem)
  rename_i hrange
  obtain ⟨mentionRows, hrows, rfl⟩ := hload
  cases hget : eventsView.events.get? (id, version) with
  | none =>
      refine .absent hrange ?_
      intro commit hmem hand
      have hsome := hold.get?_events_iff.mpr ⟨commit, hmem, hand.1, hand.2, rfl⟩
      rw [hget] at hsome
      cases hsome
  | some row =>
      obtain ⟨commit, hmem, rfl, rfl, rfl⟩ := hold.get?_events_iff.mp hget
      have haccepted : ∀ mentions, (commit.eventRow.canonicalEvent mentions).Accepted :=
        fun _ => hgrown.accepted commit (List.mem_append_left _ hmem)
      rw [hnew.mentionRowsUpTo_eq hgrown] at hrows
      have hmentions := hrows.map EventMentionRow.mention
      rw [List.map_map] at hmentions
      have hperm := hmentions.trans
        (hgrown.mentions_perm commit (List.mem_append_left _ hmem)).symm
      unfold loadEventVersion
      simp only
      rw [if_pos (haccepted _)]
      exact AnswersVersion.committed hmem rfl rfl ⟨rfl, (sortedBy_perm _ _).trans hperm⟩
        (sortedBy_sorted _ _)

end EventAlpha
