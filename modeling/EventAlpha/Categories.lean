import EventAlpha.EventIndexes

/-!
# Categories do not interfere

One service clusters the items of all categories, over one content index and
one map of events.  An event only ever takes items of its own category, so the
events of a category are those the service would hold had it seen the items of
that category alone.

The proof runs the two services side by side.  `Confined` relates them: the
events of the category are the same, in the same order, and the content index
agrees on them.  An item of another category leaves the relation alone, and an
item of the category meets the same candidates on both sides.
-/

namespace EventAlpha

open KeyedOrder

/-- The envelopes of one category, in their order. -/
def ofCategory (category : String) (envelopes : List RawEnvelope) : List RawEnvelope :=
  envelopes.filter (fun envelope => envelope.category = category)

def InCategory (category : String) (event : CanonicalEvent) : Bool :=
  event.eventType = category

section Owners

/-- Everything in memory goes back to one of the envelopes: an event to the one
that opened it, an identity key to the one that carried it. -/
structure Owned (idOf : RawEnvelope → Uuid) (envelopes : List RawEnvelope)
    (service : EventService) : Prop where
  events : ∀ id event, service.events.get? id = some event → event.eventId = id ∧
    ∃ envelope ∈ envelopes, idOf envelope = id ∧ event.eventType = envelope.category
  versions : ∀ key event, service.versions.get? key = some event →
    ∃ envelope ∈ envelopes, idOf envelope = key.1 ∧ event.eventType = envelope.category
  contents : ∀ hash, ∀ id ∈ (service.byContentHash.get? hash).getD ∅,
    ∃ envelope ∈ envelopes, idOf envelope = id
  identities : ∀ key ∈ service.byIdentity.keys,
    ∃ envelope ∈ envelopes, envelope.identityKey = key

theorem owned_empty (idOf : RawEnvelope → Uuid) : Owned idOf [] EventService.empty where
  events id event hget := by simp [EventService.empty] at hget
  versions key event hget := by simp [EventService.empty] at hget
  contents hash id hmem := by simp [EventService.empty] at hmem
  identities key hmem := by
    simp [EventService.empty, InsertionDict.keys, InsertionDict.empty] at hmem

/-- The content index after one more item. -/
theorem mem_content_remember {service : EventService} {envelope : RawEnvelope}
    {event : CanonicalEvent} {hash : String} {id : Uuid} :
    id ∈ ((service.remember envelope event).byContentHash.get? hash).getD ∅ ↔
      (hash = envelope.contentHash ∧ id = event.eventId) ∨
        id ∈ (service.byContentHash.get? hash).getD ∅ := by
  rw [EventService.remember, InsertionDict.get?_addTo]
  by_cases hhash : hash = envelope.contentHash
  · subst hhash
    simp
  · simp [hhash]

variable [CharacterTables] {idOf : RawEnvelope → Uuid} {envelopes : List RawEnvelope}
  {envelope : RawEnvelope} {service : EventService}

/-- The event an envelope leads to is of its category, and goes back to an
envelope of that category. -/
theorem Owned.nextEvent_spec (h : Owned idOf envelopes service) (envelope : RawEnvelope) :
    (service.nextEvent envelope (idOf envelope)).1.eventType = envelope.category ∧
      ∃ owner ∈ envelopes ++ [envelope],
        idOf owner = (service.nextEvent envelope (idOf envelope)).1.eventId ∧
          owner.category = envelope.category := by
  unfold EventService.nextEvent
  split
  · exact ⟨rfl, envelope, by simp, rfl, rfl⟩
  · rename_i existing hsimilar
    obtain ⟨hmem, rank, hrank, -⟩ := maxBy?_spec hsimilar
    have htype := (Represents.candidateRank_admits hrank).1
    obtain ⟨id, hget⟩ := InsertionDict.mem_values_iff_get?.mp hmem
    obtain ⟨hid, owner, howner, hidOf, hcategory⟩ := h.events id existing hget
    refine ⟨htype, owner, List.mem_append_left _ howner, ?_, ?_⟩
    · exact hidOf.trans hid.symm
    · exact hcategory.symm.trans htype

/-- Remembering the event of an envelope adds that envelope to the owners. -/
theorem Owned.remember (h : Owned idOf envelopes service) (envelope : RawEnvelope) :
    Owned idOf (envelopes ++ [envelope])
      (service.remember envelope (service.nextEvent envelope (idOf envelope)).1) := by
  obtain ⟨htype, owner, howner, hidOf, hcategory⟩ := h.nextEvent_spec envelope
  generalize (service.nextEvent envelope (idOf envelope)).1 = event at htype hidOf
  refine ⟨?_, ?_, ?_, ?_⟩
  · intro id event' hget
    rw [EventService.remember, InsertionDict.get?_set] at hget
    split at hget
    · rename_i hid
      obtain rfl := Option.some.inj hget
      exact ⟨hid.symm, owner, howner, hidOf.trans hid.symm, htype.trans hcategory.symm⟩
    · obtain ⟨hid, owner', howner', hrest⟩ := h.events id event' hget
      exact ⟨hid, owner', List.mem_append_left _ howner', hrest⟩
  · intro key event' hget
    rw [EventService.remember, InsertionDict.get?_set] at hget
    split at hget
    · rename_i hkey
      obtain rfl := Option.some.inj hget
      exact ⟨owner, howner, by rw [hkey]; exact hidOf, htype.trans hcategory.symm⟩
    · obtain ⟨owner', howner', hrest⟩ := h.versions key event' hget
      exact ⟨owner', List.mem_append_left _ howner', hrest⟩
  · intro hash id hmem
    rcases mem_content_remember.mp hmem with ⟨-, rfl⟩ | hold
    · exact ⟨owner, howner, hidOf⟩
    · obtain ⟨owner', howner', hid⟩ := h.contents hash id hold
      exact ⟨owner', List.mem_append_left _ howner', hid⟩
  · intro key hmem
    rcases InsertionDict.mem_keys_set.mp hmem with rfl | hold
    · exact ⟨envelope, by simp, rfl⟩
    · obtain ⟨owner', howner', hkey⟩ := h.identities key hold
      exact ⟨owner', List.mem_append_left _ howner', hkey⟩

end Owners

section Runs

variable [CharacterTables]

/-- What a service without persistence holds after a sequence of envelopes, an
event opened by an envelope having the identifier that goes with it. -/
def afterEnvelopes (idOf : RawEnvelope → Uuid) (envelopes : List RawEnvelope) : EventService :=
  EventService.empty.runInMemory (envelopes.map (fun envelope => (envelope, idOf envelope)))

theorem runInMemory_append (service : EventService) (steps more : List (RawEnvelope × Uuid)) :
    service.runInMemory (steps ++ more) = (service.runInMemory steps).runInMemory more := by
  induction steps generalizing service with
  | nil => rfl
  | cons step steps ih => exact ih _

theorem afterEnvelopes_snoc (idOf : RawEnvelope → Uuid) (envelopes : List RawEnvelope)
    (envelope : RawEnvelope) :
    afterEnvelopes idOf (envelopes ++ [envelope]) =
      ((afterEnvelopes idOf envelopes).ingestInMemory envelope (idOf envelope)).service := by
  rw [afterEnvelopes, List.map_append, runInMemory_append]
  rfl

variable {idOf : RawEnvelope → Uuid} {envelopes : List RawEnvelope} {envelope : RawEnvelope}

/-- A last envelope under a key of its own is remembered. -/
theorem Owned.afterEnvelopes_snoc_eq (h : Owned idOf envelopes (afterEnvelopes idOf envelopes))
    (hkeys : ((envelopes ++ [envelope]).map (fun e => e.identityKey)).Nodup) :
    afterEnvelopes idOf (envelopes ++ [envelope]) =
      (afterEnvelopes idOf envelopes).remember envelope
        ((afterEnvelopes idOf envelopes).nextEvent envelope (idOf envelope)).1 := by
  have hnew : (afterEnvelopes idOf envelopes).byIdentity.get? envelope.identityKey = none := by
    rw [InsertionDict.get?_eq_none_iff]
    intro hmem
    obtain ⟨owner, howner, hkey⟩ := h.identities _ hmem
    rw [List.map_append, List.nodup_append] at hkeys
    exact hkeys.2.2 _ (List.mem_map_of_mem howner) _ (by simp) hkey
  rw [afterEnvelopes_snoc, EventService.ingestInMemory, ingest_unknown hnew]

/-- **Run lemma.**  What is in memory after a run goes back to its envelopes. -/
theorem owned_afterEnvelopes (hkeys : (envelopes.map (fun e => e.identityKey)).Nodup) :
    Owned idOf envelopes (afterEnvelopes idOf envelopes) := by
  induction envelopes using List.reverseRecOn with
  | nil => exact owned_empty idOf
  | append_singleton envelopes envelope ih =>
      have hbefore := ih (hkeys.sublist ((List.sublist_append_left _ _).map _))
      rw [hbefore.afterEnvelopes_snoc_eq hkeys]
      exact hbefore.remember envelope

end Runs

section Confinement

/-- Of one category, a service that saw all envelopes holds what one that saw
those of the category alone holds. -/
structure Confined (idOf : RawEnvelope → Uuid) (category : String)
    (envelopes : List RawEnvelope) (service alone : EventService) : Prop where
  events : service.events.filterValues (InCategory category) = alone.events
  versions : service.versions.filterValues (InCategory category) = alone.versions
  contents : ∀ owner ∈ envelopes, owner.category = category → ∀ hash,
    (idOf owner ∈ (service.byContentHash.get? hash).getD ∅ ↔
      idOf owner ∈ (alone.byContentHash.get? hash).getD ∅)

/-- Envelopes of different categories open events of different identifiers. -/
def IdsByCategory (idOf : RawEnvelope → Uuid) (envelopes : List RawEnvelope) : Prop :=
  ∀ envelope ∈ envelopes, ∀ envelope' ∈ envelopes,
    envelope.category ≠ envelope'.category → idOf envelope ≠ idOf envelope'

instance IdsByCategory.decidable (idOf : RawEnvelope → Uuid) (envelopes : List RawEnvelope) :
    Decidable (IdsByCategory idOf envelopes) := by
  unfold IdsByCategory; infer_instance

theorem IdsByCategory.sublist {idOf : RawEnvelope → Uuid} {envelopes envelopes' : List RawEnvelope}
    (h : IdsByCategory idOf envelopes') (hsub : envelopes.Sublist envelopes') :
    IdsByCategory idOf envelopes :=
  fun envelope hmem envelope' hmem' =>
    h envelope (hsub.subset hmem) envelope' (hsub.subset hmem')

variable [CharacterTables] {idOf : RawEnvelope → Uuid} {category : String}
  {envelopes : List RawEnvelope} {envelope : RawEnvelope} {service alone : EventService}

/-- What is filed under the identifier of an event is of its category. -/
theorem Owned.sameCategory (h : Owned idOf envelopes service)
    (hids : IdsByCategory idOf (envelopes ++ [envelope])) :
    (∀ event, service.events.get?
        (service.nextEvent envelope (idOf envelope)).1.eventId = some event →
      event.eventType = envelope.category) ∧
    (∀ version event, service.versions.get?
        ((service.nextEvent envelope (idOf envelope)).1.eventId, version) = some event →
      event.eventType = envelope.category) := by
  obtain ⟨-, owner, howner, hidOf, hcategory⟩ := h.nextEvent_spec envelope
  have hsame : ∀ other ∈ envelopes, idOf other =
      (service.nextEvent envelope (idOf envelope)).1.eventId →
      other.category = envelope.category := by
    intro other hother hid
    by_contra hne
    rw [← hcategory] at hne
    exact hids other (List.mem_append_left _ hother) owner howner hne (hid.trans hidOf.symm)
  refine ⟨?_, ?_⟩
  · intro event hget
    obtain ⟨-, other, hother, hid, htype⟩ := h.events _ event hget
    exact htype.trans (hsame other hother hid)
  · intro version event hget
    obtain ⟨other, hother, hid, htype⟩ := h.versions _ event hget
    exact htype.trans (hsame other hother hid)

/-- An item of another category leaves the events of the category alone. -/
theorem Confined.foreign (h : Confined idOf category envelopes service alone)
    (howned : Owned idOf envelopes service) (hids : IdsByCategory idOf (envelopes ++ [envelope]))
    (hother : envelope.category ≠ category) :
    Confined idOf category (envelopes ++ [envelope])
      (service.remember envelope (service.nextEvent envelope (idOf envelope)).1) alone := by
  obtain ⟨htype, owner, howner, hidOf, hcategory⟩ := howned.nextEvent_spec envelope
  obtain ⟨hevents, hversions⟩ := howned.sameCategory hids
  refine ⟨?_, ?_, ?_⟩
  · rw [← h.events]
    apply InsertionDict.filterValues_set_of_neg
    · simpa [InCategory, htype] using hother
    · intro event hget
      simpa [InCategory, hevents event hget] using hother
  · rw [← h.versions]
    apply InsertionDict.filterValues_set_of_neg
    · simpa [InCategory, htype] using hother
    · intro event hget
      simpa [InCategory, hversions _ event hget] using hother
  · intro inside hinside hsame hash
    have hne : idOf inside ≠ (service.nextEvent envelope (idOf envelope)).1.eventId := by
      rw [← hidOf]
      apply hids inside hinside owner howner
      rw [hsame, hcategory]
      exact fun heq => hother heq.symm
    rw [mem_content_remember]
    rcases List.mem_append.mp hinside with hold | hlast
    · rw [← h.contents inside hold hsame hash]
      exact or_iff_right (fun hand => hne hand.2)
    · obtain rfl := List.mem_singleton.mp hlast
      exact absurd hsame hother

/-- An item of the category meets the same candidates on both sides. -/
theorem Confined.nextEvent_eq (h : Confined idOf category envelopes service alone)
    (howned : Owned idOf envelopes service) (hsame : envelope.category = category)
    (newId : Uuid) : service.nextEvent envelope newId = alone.nextEvent envelope newId := by
  have hsimilar : service.similarEvent envelope = alone.similarEvent envelope := by
    unfold EventService.similarEvent
    rw [← h.events, InsertionDict.values_filterValues]
    rw [maxBy?_filter (p := InCategory category)]
    · apply maxBy?_congr
      intro event hmem
      by_cases htype : event.eventType = category
      · obtain ⟨id, hget⟩ := InsertionDict.mem_values_iff_get?.mp hmem
        obtain ⟨hid, owner, howner, hidOf, hcategory⟩ := howned.events id event hget
        apply Represents.candidateRank_congr_mem
        rw [hid, ← hidOf]
        exact h.contents owner howner (hcategory.symm.trans htype) _
      · simp [EventService.candidateRank, hsame, htype]
    · intro event _ hother
      have htype : event.eventType ≠ category := by simpa [InCategory] using hother
      simp [EventService.candidateRank, hsame, htype]
  unfold EventService.nextEvent
  rw [hsimilar]

omit [CharacterTables] in
theorem mem_ofCategory {envelope : RawEnvelope} :
    envelope ∈ ofCategory category envelopes ↔
      envelope ∈ envelopes ∧ envelope.category = category := by
  simp [ofCategory]

omit [CharacterTables] in
/-- The content index agrees on the identifier of a further item. -/
theorem Confined.contents_next (h : Confined idOf category envelopes service alone)
    (howned : Owned idOf envelopes service)
    (howned' : Owned idOf (ofCategory category envelopes) alone)
    (hids : IdsByCategory idOf (envelopes ++ [envelope])) (hsame : envelope.category = category)
    (hash : String) :
    idOf envelope ∈ (service.byContentHash.get? hash).getD ∅ ↔
      idOf envelope ∈ (alone.byContentHash.get? hash).getD ∅ := by
  constructor
  · intro hmem
    obtain ⟨owner, howner, hid⟩ := howned.contents hash _ hmem
    have hcategory : owner.category = category := by
      by_contra hne
      rw [← hsame] at hne
      exact hids owner (List.mem_append_left _ howner) envelope (by simp) hne hid
    rw [← hid] at hmem ⊢
    exact (h.contents owner howner hcategory hash).mp hmem
  · intro hmem
    obtain ⟨owner, howner, hid⟩ := howned'.contents hash _ hmem
    obtain ⟨howner, hcategory⟩ := mem_ofCategory.mp howner
    rw [← hid] at hmem ⊢
    exact (h.contents owner howner hcategory hash).mpr hmem

/-- An item of the category changes both sides alike. -/
theorem Confined.own (h : Confined idOf category envelopes service alone)
    (howned : Owned idOf envelopes service)
    (howned' : Owned idOf (ofCategory category envelopes) alone)
    (hids : IdsByCategory idOf (envelopes ++ [envelope])) (hsame : envelope.category = category) :
    Confined idOf category (envelopes ++ [envelope])
      (service.remember envelope (service.nextEvent envelope (idOf envelope)).1)
      (alone.remember envelope (alone.nextEvent envelope (idOf envelope)).1) := by
  obtain ⟨htype, -⟩ := howned.nextEvent_spec envelope
  obtain ⟨hevents, hversions⟩ := howned.sameCategory hids
  rw [← h.nextEvent_eq howned hsame]
  rw [hsame] at htype hevents hversions
  refine ⟨?_, ?_, ?_⟩
  · rw [EventService.remember, EventService.remember, ← h.events]
    apply InsertionDict.filterValues_set_of_pos
    · simpa [InCategory] using htype
    · intro event hget
      simpa [InCategory] using hevents event hget
  · rw [EventService.remember, EventService.remember, ← h.versions]
    apply InsertionDict.filterValues_set_of_pos
    · simpa [InCategory] using htype
    · intro event hget
      simpa [InCategory] using hversions _ event hget
  · intro inside hinside hcategory hash
    rw [mem_content_remember, mem_content_remember]
    apply or_congr_right
    rcases List.mem_append.mp hinside with hold | hlast
    · exact h.contents inside hold hcategory hash
    · obtain rfl := List.mem_singleton.mp hlast
      exact h.contents_next howned howned' hids hsame hash

omit [CharacterTables] in
theorem confined_empty (idOf : RawEnvelope → Uuid) (category : String) :
    Confined idOf category [] EventService.empty EventService.empty where
  events := rfl
  versions := rfl
  contents owner hmem := by cases hmem

/-- **Run lemma.**  Along every sequence of envelopes the events of a category
are those of its own envelopes. -/
theorem confined_afterEnvelopes (hkeys : (envelopes.map (fun e => e.identityKey)).Nodup)
    (hids : IdsByCategory idOf envelopes) :
    Confined idOf category envelopes (afterEnvelopes idOf envelopes)
      (afterEnvelopes idOf (ofCategory category envelopes)) := by
  induction envelopes using List.reverseRecOn with
  | nil => exact confined_empty idOf category
  | append_singleton envelopes envelope ih =>
      have hsub : envelopes.Sublist (envelopes ++ [envelope]) := List.sublist_append_left _ _
      have hkeys' := hkeys.sublist (hsub.map (fun e => e.identityKey))
      have hconfined := ih hkeys' (hids.sublist hsub)
      have howned : Owned idOf envelopes (afterEnvelopes idOf envelopes) :=
        owned_afterEnvelopes hkeys'
      rw [howned.afterEnvelopes_snoc_eq hkeys]
      by_cases hsame : envelope.category = category
      · have hlast : ofCategory category (envelopes ++ [envelope]) =
            ofCategory category envelopes ++ [envelope] := by
          simp [ofCategory, hsame]
        have halone : (ofCategory category envelopes ++ [envelope]).Sublist
            (envelopes ++ [envelope]) := List.filter_sublist.append (List.Sublist.refl _)
        have howned' : Owned idOf (ofCategory category envelopes)
            (afterEnvelopes idOf (ofCategory category envelopes)) :=
          owned_afterEnvelopes (hkeys'.sublist (List.filter_sublist.map _))
        rw [hlast, howned'.afterEnvelopes_snoc_eq (hkeys.sublist (halone.map _))]
        exact hconfined.own howned howned' hids hsame
      · have hlast : ofCategory category (envelopes ++ [envelope]) =
            ofCategory category envelopes := by
          simp [ofCategory, hsame]
        rw [hlast]
        exact hconfined.foreign howned hids hsame

end Confinement

section Interleavings

/-- Sequences with the same envelopes of every category, in the same order. -/
def SameByCategory (envelopes envelopes' : List RawEnvelope) : Prop :=
  ∀ category, ofCategory category envelopes = ofCategory category envelopes'

theorem SameByCategory.perm {envelopes envelopes' : List RawEnvelope}
    (h : SameByCategory envelopes envelopes') : envelopes.Perm envelopes' := by
  rw [List.perm_iff_count]
  intro envelope
  have hcount : ∀ l : List RawEnvelope,
      l.count envelope = (ofCategory envelope.category l).count envelope := by
    intro l
    rw [ofCategory, List.count_filter]
    simp
  rw [hcount, hcount envelopes', h envelope.category]

/-- Neighbours of different categories may change places. -/
theorem sameByCategory_swap {envelope envelope' : RawEnvelope}
    (h : envelope.category ≠ envelope'.category) (rest : List RawEnvelope) :
    SameByCategory (envelope' :: envelope :: rest) (envelope :: envelope' :: rest) := by
  intro category
  by_cases hfirst : envelope.category = category
  · have hsecond : ¬ envelope'.category = category := fun heq => h (hfirst.trans heq.symm)
    simp [ofCategory, hfirst, hsecond]
  · simp [ofCategory, List.filter_cons, hfirst]

/-- Dictionaries that agree category by category agree. -/
theorem get?_eq_of_filterValues {κ : Type*} [DecidableEq κ]
    {d d' : InsertionDict κ CanonicalEvent}
    (h : ∀ category, d.filterValues (InCategory category) =
      d'.filterValues (InCategory category)) (key : κ) : d.get? key = d'.get? key := by
  apply Option.ext
  intro event
  have hkey : ∀ e : InsertionDict κ CanonicalEvent, e.get? key = some event ↔
      (e.filterValues (InCategory event.eventType)).get? key = some event := by
    intro e
    rw [InsertionDict.get?_filterValues]
    simp [InCategory]
  rw [hkey, hkey d', h event.eventType]

variable [CharacterTables]

/-- For envelopes of pairwise distinct identity keys, the events of a category,
and all their versions, are those the envelopes of that category alone lead to,
in the same order.  So every interleaving of the same envelopes by category
leads to the same events and versions. -/
theorem categories_independent (idOf : RawEnvelope → Uuid) (envelopes : List RawEnvelope)
    (hkeys : (envelopes.map (fun e => e.identityKey)).Nodup)
    (hids : IdsByCategory idOf envelopes) :
    (∀ category,
      (afterEnvelopes idOf envelopes).events.filterValues (InCategory category) =
        (afterEnvelopes idOf (ofCategory category envelopes)).events ∧
      (afterEnvelopes idOf envelopes).versions.filterValues (InCategory category) =
        (afterEnvelopes idOf (ofCategory category envelopes)).versions) ∧
    ∀ envelopes', SameByCategory envelopes' envelopes →
      (∀ id, (afterEnvelopes idOf envelopes').events.get? id =
        (afterEnvelopes idOf envelopes).events.get? id) ∧
      (∀ key, (afterEnvelopes idOf envelopes').versions.get? key =
        (afterEnvelopes idOf envelopes).versions.get? key) := by
  refine ⟨?_, ?_⟩
  · intro category
    have hconfined : Confined idOf category envelopes (afterEnvelopes idOf envelopes)
        (afterEnvelopes idOf (ofCategory category envelopes)) :=
      confined_afterEnvelopes hkeys hids
    exact ⟨hconfined.events, hconfined.versions⟩
  · intro envelopes' hsame
    have hperm := hsame.perm
    have hkeys' : (envelopes'.map (fun e => e.identityKey)).Nodup :=
      (hperm.map _).nodup_iff.mpr hkeys
    have hids' : IdsByCategory idOf envelopes' := by
      intro envelope hmem envelope' hmem'
      exact hids envelope (hperm.mem_iff.mp hmem) envelope' (hperm.mem_iff.mp hmem')
    refine ⟨?_, ?_⟩
    · apply get?_eq_of_filterValues
      intro category
      rw [(confined_afterEnvelopes hkeys hids).events,
        (confined_afterEnvelopes hkeys' hids').events, hsame category]
    · apply get?_eq_of_filterValues
      intro category
      rw [(confined_afterEnvelopes hkeys hids).versions,
        (confined_afterEnvelopes hkeys' hids').versions, hsame category]

end Interleavings

section Sample

/-- An item of another category with the content of the test items. -/
def foreignItem (id : Uuid) (nativeId : Option String) (sourceId : String)
    (receivedAt processedAt : UtcDatetime) : RawEnvelope where
  toRawEnvelopeFields :=
    { (testItem id nativeId sourceId receivedAt processedAt).toRawEnvelopeFields with
      category := "regulatory" }
  accepted := by
    simp only [RawEnvelopeFields.Accepted, testItem]
    decide +kernel

/-- An item of another category between two of one category. -/
theorem categories_independent_between :
    let := asciiTables
    let first := testItem 1 (some "a") "first" 50 60
    let foreign := foreignItem 2 (some "b") "first" 51 61
    let second := testItem 3 (some "c") "second" 52 62
    (afterEnvelopes (fun e => e.id) [first, foreign, second]).events.filterValues
        (InCategory "earnings") =
      (afterEnvelopes (fun e => e.id) [first, second]).events ∧
    ∀ id, (afterEnvelopes (fun e => e.id) [foreign, first, second]).events.get? id =
      (afterEnvelopes (fun e => e.id) [first, foreign, second]).events.get? id := by
  intro tables first foreign second
  have hindependent := categories_independent (fun e => e.id) [first, foreign, second]
    (by decide +kernel) (by decide +kernel)
  refine ⟨(hindependent.1 "earnings").1, ?_⟩
  exact (hindependent.2 [foreign, first, second]
    (sameByCategory_swap (by decide) [second])).1

end Sample

end EventAlpha
