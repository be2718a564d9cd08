import EventAlpha.BoundedGaps
import EventAlpha.EventStoreInvariant
import EventAlpha.PersistentRuns
import EventAlpha.RunLog

/-!
# Clusters

Which items end up in one event.  The clusterer compares a new item with the
canonical title and the last update of an event and with the content hashes
filed for it, and with nothing else.  `Admits` is that test, stated over the
history of commits, and an event is a candidate exactly when it admits the item
(`candidateRank_eq_none_iff`).

A history in which every commit opens an event or joins one that admits it is
`Clustered`.  Every run leads to one, with or without persistence
(`Reached.clustered`), and from it follows what a cluster is
(`clusters_sound`): its items chain up in steps of at most 24 hours, although
each of them was compared with the latest one only.
-/

namespace EventAlpha

open KeyedOrder VersionLog BoundedGaps

section Admission

variable [CharacterTables]

/-- The title of an envelope is similar enough to that of an event. -/
def SimilarTitle (envelope : RawEnvelope) (event : CanonicalEvent) : Prop :=
  similarityThreshold ≤
    jaccard (titleFingerprint envelope.title) (titleFingerprint event.canonicalTitle)

/-- An event of a history admits an envelope. -/
structure Admits (log : List Commit) (event : CanonicalEvent) (envelope : RawEnvelope) :
    Prop where
  category_eq : event.eventType = envelope.category
  near : |envelope.receivedAt - event.lastUpdatedAt| ≤ clusterWindow
  evidence : (∃ commit ∈ commitsOf log event.eventId,
      commit.envelope.contentHash = envelope.contentHash) ∨ SimilarTitle envelope event

/-- Whether an event admits an envelope does not depend on the order of its
mentions. -/
theorem Admits.of_same {log : List Commit} {event event' : CanonicalEvent}
    {envelope : RawEnvelope} (h : Admits log event envelope) (hsame : event.Same event') :
    Admits log event' envelope where
  category_eq := by
    rw [← hsame.field CanonicalEvent.eventType (fun _ => rfl)]
    exact h.category_eq
  near := by
    rw [← hsame.field CanonicalEvent.lastUpdatedAt (fun _ => rfl)]
    exact h.near
  evidence := by
    unfold SimilarTitle
    rw [← hsame.eventId_eq, ← hsame.field CanonicalEvent.canonicalTitle (fun _ => rfl)]
    exact h.evidence

variable {service : EventService} {log : List Commit}

omit [CharacterTables] in
/-- The content index knows the events whose commits hold the content. -/
theorem Represents.mem_exactEventIds (h : Represents service log) {envelope : RawEnvelope}
    {id : Uuid} :
    id ∈ service.exactEventIds envelope ↔
      ∃ commit ∈ commitsOf log id, commit.envelope.contentHash = envelope.contentHash := by
  rw [EventService.exactEventIds, h.content_iff]
  constructor
  · intro hex
    obtain ⟨commit, hmem, hhash, hid⟩ := hex
    exact ⟨commit, mem_ofKey.mpr ⟨hmem, hid⟩, hhash⟩
  · intro hex
    obtain ⟨commit, hmem, hhash⟩ := hex
    obtain ⟨hlog, hid⟩ := mem_ofKey.mp hmem
    exact ⟨commit, hlog, hhash, hid⟩

/-- The rank of an event for an envelope: exact content, similarity of the
titles, closeness in time and identifier, in this order. -/
def historyRank (log : List Commit) (envelope : RawEnvelope) (event : CanonicalEvent) :
    EventService.Rank :=
  toLex (if ∃ commit ∈ commitsOf log event.eventId,
      commit.envelope.contentHash = envelope.contentHash then 1 else 0,
    toLex (jaccard (titleFingerprint envelope.title) (titleFingerprint event.canonicalTitle),
      toLex (-|envelope.receivedAt - event.lastUpdatedAt|, event.eventId)))

/-- The rank does not depend on the order of the mentions. -/
theorem historyRank_of_same {log : List Commit} {envelope : RawEnvelope}
    {event event' : CanonicalEvent} (hsame : event.Same event') :
    historyRank log envelope event = historyRank log envelope event' := by
  unfold historyRank
  rw [hsame.eventId_eq, hsame.field CanonicalEvent.canonicalTitle (fun _ => rfl),
    hsame.field CanonicalEvent.lastUpdatedAt (fun _ => rfl)]

/-- The identifier is part of the rank. -/
theorem eventId_eq_of_historyRank_eq {log : List Commit}
    {envelope : RawEnvelope} {event event' : CanonicalEvent}
    (hrank : historyRank log envelope event = historyRank log envelope event') :
    event.eventId = event'.eventId := by
  simp only [historyRank, EmbeddingLike.apply_eq_iff_eq, Prod.mk.injEq] at hrank
  exact hrank.2.2.2

/-- **Candidates.**  The service ranks the events that admit the envelope, and
ranks them by the history. -/
theorem Represents.candidateRank_eq_some_iff (h : Represents service log)
    {envelope : RawEnvelope} {event : CanonicalEvent} {rank : EventService.Rank} :
    service.candidateRank envelope event = some rank ↔
      Admits log event envelope ∧ historyRank log envelope event = rank := by
  unfold EventService.candidateRank
  simp only
  split
  case isTrue hwindow =>
    refine iff_of_false (by simp) ?_
    rintro ⟨hadmits, -⟩
    rcases hwindow with hcategory | hfar
    · exact hcategory hadmits.category_eq
    · exact absurd hadmits.near (not_le.mpr hfar)
  case isFalse hwindow =>
    obtain ⟨hcategory, hnear⟩ := not_or.mp hwindow
    split
    case isTrue hunlike =>
      refine iff_of_false (by simp) ?_
      rintro ⟨hadmits, -⟩
      rcases hadmits.evidence with hexact | htitle
      · exact hunlike.1 (h.mem_exactEventIds.mpr hexact)
      · exact absurd hunlike.2 (not_lt.mpr htitle)
    case isFalse hlike =>
      have hadmits : Admits log event envelope := by
        refine ⟨not_not.mp hcategory, not_lt.mp hnear, ?_⟩
        rw [not_and_or, not_not, not_lt, h.mem_exactEventIds] at hlike
        exact hlike
      rw [Option.some.injEq, historyRank]
      simp only [h.mem_exactEventIds]
      exact (and_iff_right hadmits).symm

theorem Represents.candidateRank_eq_none_iff (h : Represents service log)
    {envelope : RawEnvelope} {event : CanonicalEvent} :
    service.candidateRank envelope event = none ↔ ¬Admits log event envelope := by
  rw [Option.eq_none_iff_forall_ne_some]
  constructor
  · intro hnone hadmits
    exact hnone _ (h.candidateRank_eq_some_iff.mpr ⟨hadmits, rfl⟩)
  · intro hnot rank hrank
    exact hnot (h.candidateRank_eq_some_iff.mp hrank).1

/-- The call returns an event that existed before, unless it raises because the
save raised. -/
def JoinsExisting (service : EventService) (envelope : RawEnvelope) : Prop :=
  ∀ (σ : Type) (save : σ → RawEnvelope → CanonicalEvent → Option σ) (store : σ) (newId : Uuid),
    match save store envelope (service.nextEvent envelope newId).1 with
    | none => (EventService.ingest save service store envelope newId).reply =
        .error .persistence
    | some _ => ∃ existing ∈ service.events.values,
        (EventService.ingest save service store envelope newId).reply =
          .ok ⟨existing.extend envelope, false, false⟩

/-- A new item that some event in memory admits joins an event. -/
theorem Represents.joinsExisting (h : Represents service log) {envelope : RawEnvelope}
    (hnew : service.byIdentity.get? envelope.identityKey = none) {event : CanonicalEvent}
    (hevent : event ∈ service.events.values) (hadmits : Admits log event envelope) :
    JoinsExisting service envelope := by
  intro σ save store newId
  rw [ingest_unknown hnew]
  cases hsimilar : service.similarEvent envelope with
  | none =>
      rw [EventService.similarEvent, maxBy?_eq_none_iff] at hsimilar
      exact absurd hadmits (h.candidateRank_eq_none_iff.mp (hsimilar event hevent))
  | some existing =>
      have hnext : service.nextEvent envelope newId = (existing.extend envelope, false) := by
        rw [EventService.nextEvent, hsimilar]
      rw [hnext]
      cases save store envelope (existing.extend envelope) with
      | none => rfl
      | some store' => exact ⟨existing, (maxBy?_spec hsimilar).1, rfl⟩

end Admission

section Histories

variable [CharacterTables]

/-- A history as the clusterer makes it.  Every commit opens an event under an
unused identifier because no event admits its envelope, or it joins the newest
version of the event that ranks highest among those that do. -/
inductive Clustered : List Commit → Prop
  | nil : Clustered []
  | opening {log : List Commit} (h : Clustered log) (envelope : RawEnvelope) (newId : Uuid)
      (hfresh : ∀ commit ∈ log, commit.eventId ≠ newId)
      (hnone : ∀ id newest, latest Commit.eventId log id = some newest →
        ¬Admits log newest.event envelope) :
      Clustered (log ++ [⟨envelope, envelope.openEvent newId⟩])
  | joining {log : List Commit} (h : Clustered log) (envelope : RawEnvelope)
      {existing : CanonicalEvent} {last : Commit}
      (hlatest : latest Commit.eventId log existing.eventId = some last)
      (hsame : existing.Same last.event) (hadmits : Admits log existing envelope)
      (hmax : ∀ id newest, latest Commit.eventId log id = some newest →
        Admits log newest.event envelope →
          historyRank log envelope newest.event ≤ historyRank log envelope existing) :
      Clustered (log ++ [⟨envelope, existing.extend envelope⟩])

variable {service : EventService} {log : List Commit}

theorem Clustered.grown (h : Clustered log) : Grown log := by
  induction h with
  | nil => exact Grown.nil
  | opening _ envelope newId hfresh _ ih => exact Grown.opening ih envelope newId hfresh
  | joining _ envelope hlatest hsame _ _ ih => exact Grown.extending ih envelope hlatest hsame

omit [CharacterTables] in
/-- The newest version of every event has a view in memory. -/
theorem Represents.exists_view (h : Represents service log) {id : Uuid} {newest : Commit}
    (hnewest : latest Commit.eventId log id = some newest) :
    ∃ event ∈ service.events.values, event.Same newest.event := by
  obtain ⟨event, hget⟩ := h.events_complete id newest hnewest
  obtain ⟨last, hlatest, hsame, -⟩ := h.events_latest id event hget
  obtain rfl := Option.some.inj (hnewest.symm.trans hlatest)
  exact ⟨event, InsertionDict.mem_values_iff_get?.mpr ⟨id, hget⟩, hsame⟩

/-- How a commit continues a clustered history: by the opening of an event,
because no event admits its envelope, or by the next version of the event that
ranks highest among those that do. -/
inductive Continues (log : List Commit) (commit : Commit) : Prop
  | opening (hfresh : ∀ before ∈ log, before.eventId ≠ commit.eventId)
      (htitle : commit.event.canonicalTitle = commit.envelope.title)
      (hnone : ∀ id newest, latest Commit.eventId log id = some newest →
        ¬Admits log newest.event commit.envelope)
  | joining {last : Commit} (hlatest : latest Commit.eventId log commit.eventId = some last)
      (htitle : commit.event.canonicalTitle = last.event.canonicalTitle)
      (hadmits : Admits log last.event commit.envelope)
      (hmax : ∀ id newest, latest Commit.eventId log id = some newest →
        Admits log newest.event commit.envelope →
          historyRank log commit.envelope newest.event ≤
            historyRank log commit.envelope last.event)

theorem Clustered.snoc_inv {commit : Commit} (h : Clustered (log ++ [commit])) :
    Clustered log ∧ Continues log commit := by
  generalize hlog : log ++ [commit] = whole at h
  cases h with
  | nil => simp at hlog
  | opening h envelope newId hfresh hnone =>
      obtain ⟨rfl, hcommit⟩ := List.append_inj' hlog rfl
      obtain rfl := List.singleton_inj.mp hcommit
      exact ⟨h, Continues.opening hfresh rfl hnone⟩
  | joining h envelope hlatest hsame hadmits hmax =>
      obtain ⟨rfl, hcommit⟩ := List.append_inj' hlog rfl
      obtain rfl := List.singleton_inj.mp hcommit
      refine ⟨h, Continues.joining hlatest ?_ (hadmits.of_same hsame) ?_⟩
      · exact hsame.field CanonicalEvent.canonicalTitle (fun _ => rfl)
      · rw [← historyRank_of_same hsame]
        exact hmax

/-- Every commit of a clustered history continues what was before it. -/
theorem Clustered.cut {earlier later : List Commit} {commit : Commit}
    (h : Clustered (earlier ++ commit :: later)) :
    Clustered earlier ∧ Continues earlier commit := by
  induction later using List.reverseRecOn with
  | nil => exact h.snoc_inv
  | append_singleton later last ih =>
      rw [← List.cons_append, ← List.append_assoc] at h
      exact ih h.snoc_inv.1

/-- **History step.**  The commit `ingest` makes keeps the history clustered. -/
theorem Represents.clustered_next (h : Represents service log) (hclustered : Clustered log)
    (envelope : RawEnvelope) {newId : Uuid} (hfresh : ∀ commit ∈ log, commit.eventId ≠ newId) :
    Clustered (log ++ [⟨envelope, (service.nextEvent envelope newId).1⟩]) := by
  cases hsimilar : service.similarEvent envelope with
  | none =>
      rw [EventService.nextEvent, hsimilar]
      refine Clustered.opening hclustered envelope newId hfresh ?_
      intro id newest hnewest hadmits
      obtain ⟨event, hmem, hsame⟩ := h.exists_view hnewest
      rw [EventService.similarEvent, maxBy?_eq_none_iff] at hsimilar
      exact h.candidateRank_eq_none_iff.mp (hsimilar event hmem) (hadmits.of_same hsame.symm)
  | some existing =>
      rw [EventService.nextEvent, hsimilar]
      obtain ⟨hmem, rank, hrank, hgreatest⟩ := maxBy?_spec hsimilar
      obtain ⟨last, hlatest, hsame, -⟩ := h.latest_of_mem_values hmem
      obtain ⟨hadmits, rfl⟩ := h.candidateRank_eq_some_iff.mp hrank
      refine Clustered.joining hclustered envelope hlatest hsame hadmits ?_
      intro id newest hnewest hadmits'
      obtain ⟨event, hmem', hsame'⟩ := h.exists_view hnewest
      rw [← historyRank_of_same hsame']
      exact hgreatest event hmem' _
        (h.candidateRank_eq_some_iff.mpr ⟨hadmits'.of_same hsame'.symm, rfl⟩)

/-- What a cluster is, of an event version and the items that led to it, in the
order of their ingestion. -/
structure Gathered (event : CanonicalEvent) (members : List RawEnvelope) : Prop where
  opened : ∃ first ∈ members.head?, event.canonicalTitle = first.title
  category_eq : ∀ member ∈ members, member.category = event.eventType
  linked : Linked clusterWindow event.receiptTimes
  admitted : ∀ earlier member later, members = earlier ++ member :: later → earlier ≠ [] →
    SimilarTitle member event ∨ ∃ before ∈ earlier, before.contentHash = member.contentHash

theorem RawEnvelope.openEvent_gathered (envelope : RawEnvelope) (newId : Uuid) :
    Gathered (envelope.openEvent newId) [envelope] where
  opened := ⟨envelope, rfl, rfl⟩
  category_eq := by
    intro member hmem
    rw [List.mem_singleton.mp hmem]
    rfl
  linked := by
    have htimes : (envelope.openEvent newId).receiptTimes = {envelope.receivedAt} := by
      ext time
      constructor
      · rintro ⟨mention, hmem, rfl⟩
        rw [List.mem_singleton.mp hmem]
        rfl
      · rintro rfl
        exact ⟨envelope.mention, List.mem_singleton_self _, rfl⟩
    rw [htimes]
    exact linked_singleton _ _
  admitted := by
    intro earlier member later hcut hne
    rcases List.append_eq_singleton_iff.mp hcut.symm with ⟨rfl, -⟩ | ⟨-, hlater⟩
    · exact absurd rfl hne
    · exact absurd hlater (by simp)

/-- **Joining step.**  An item that a cluster admits keeps it one. -/
theorem Gathered.extend {event : CanonicalEvent} {members : List RawEnvelope}
    (h : Gathered event members) (hcoherent : event.Coherent) {envelope : RawEnvelope}
    (hcategory : event.eventType = envelope.category)
    (hnear : |envelope.receivedAt - event.lastUpdatedAt| ≤ clusterWindow)
    (hevidence : (∃ before ∈ members, before.contentHash = envelope.contentHash) ∨
      SimilarTitle envelope event) :
    Gathered (event.extend envelope) (members ++ [envelope]) where
  opened := by
    obtain ⟨first, hfirst, htitle⟩ := h.opened
    exact ⟨first, List.mem_head?_append_of_mem_head? hfirst, htitle⟩
  category_eq := by
    intro member hmem
    rcases List.mem_append.mp hmem with hold | hnew
    · exact h.category_eq member hold
    · rw [List.mem_singleton.mp hnew]
      exact hcategory.symm
  linked := by
    rw [event.receiptTimes_extend]
    exact h.linked.insert hcoherent.last_greatest hnear
  admitted := by
    refine RunLog.forall_cut_snoc.mpr ⟨h.admitted, ?_⟩
    intro _
    exact hevidence.symm

/-- The shape of a cluster does not depend on the order of the mentions. -/
theorem Gathered.of_same {event event' : CanonicalEvent} {members : List RawEnvelope}
    (h : Gathered event members) (hsame : event.Same event') : Gathered event' members where
  opened := by
    rw [← hsame.field CanonicalEvent.canonicalTitle (fun _ => rfl)]
    exact h.opened
  category_eq := by
    rw [← hsame.field CanonicalEvent.eventType (fun _ => rfl)]
    exact h.category_eq
  linked := by
    have htimes : event'.receiptTimes = event.receiptTimes := by
      ext time
      simp only [CanonicalEvent.receiptTimes, Set.mem_ofPred_eq, hsame.mentions_perm.mem_iff]
    rw [htimes]
    exact h.linked
  admitted := by
    unfold SimilarTitle
    rw [← hsame.field CanonicalEvent.canonicalTitle (fun _ => rfl)]
    exact h.admitted

/-- The items of an event, in the order of their ingestion. -/
def itemsOf (log : List Commit) (eventId : Uuid) : List RawEnvelope :=
  (commitsOf log eventId).map Commit.envelope

/-- **Cluster invariant.**  The newest version of every event of a clustered
history is the cluster of the event's items. -/
theorem Clustered.gathered (h : Clustered log) {id : Uuid} {last : Commit}
    (hlatest : latest Commit.eventId log id = some last) :
    Gathered last.event (itemsOf log id) := by
  induction h generalizing id last with
  | nil => simp [latest, ofKey] at hlatest
  | @opening log h envelope newId hfresh _ ih =>
      rw [latest_snoc] at hlatest
      rw [itemsOf, commitsOf, ofKey_snoc]
      by_cases hid : newId = id
      · subst hid
        rw [if_pos (by rfl)] at hlatest
        obtain rfl := Option.some.inj hlatest
        have hnil : ofKey Commit.eventId log newId = [] := ofKey_eq_nil_iff.mpr hfresh
        rw [if_pos (by rfl), hnil]
        exact envelope.openEvent_gathered newId
      · rw [if_neg (by exact hid)] at hlatest
        rw [if_neg (by exact hid)]
        exact ih hlatest
  | @joining log h envelope existing newest hnewest hsame hadmits _ ih =>
      rw [latest_snoc] at hlatest
      rw [itemsOf, commitsOf, ofKey_snoc]
      by_cases hid : existing.eventId = id
      · subst hid
        rw [if_pos (by rfl)] at hlatest
        obtain rfl := Option.some.inj hlatest
        rw [if_pos (by rfl), List.map_append]
        have hcoherent := h.grown.coherent newest (latest_mem hnewest).1
        have hjoins := hadmits.of_same hsame
        have hevidence : (∃ before ∈ itemsOf log existing.eventId,
            before.contentHash = envelope.contentHash) ∨ SimilarTitle envelope newest.event := by
          rcases hjoins.evidence with ⟨commit, hmem, hhash⟩ | htitle
          · rw [← hsame.eventId_eq] at hmem
            exact Or.inl ⟨commit.envelope, List.mem_map_of_mem hmem, hhash⟩
          · exact Or.inr htitle
        exact ((ih hnewest).extend hcoherent hjoins.category_eq hjoins.near hevidence).of_same
          (hsame.symm.extend envelope)
      · rw [if_neg (by exact hid)] at hlatest
        rw [if_neg (by exact hid)]
        exact ih hlatest

end Histories

section Runs

variable [CharacterTables]

/-- An ingestion and what it returned or raised. -/
abbrev IngestAnswer := RawEnvelope × Except IngestError IngestResult

/-- The commits among the answers: the ingestions that returned a new event
version. -/
def commitsIn (answers : List IngestAnswer) : List Commit :=
  answers.filterMap (fun answer =>
    match answer.2 with
    | .ok result => if result.idempotent then none else some ⟨answer.1, result.event⟩
    | .error _ => none)

/-- What a service without persistence answers to one envelope after the other. -/
def EventService.runAnswers (service : EventService) : List (RawEnvelope × Uuid) → List IngestAnswer
  | [] => []
  | (envelope, newId) :: rest =>
      (envelope, (service.ingestInMemory envelope newId).reply) ::
        runAnswers (service.ingestInMemory envelope newId).service rest

/-- The envelopes of the answers are those of the run. -/
theorem EventService.runAnswers_map_fst (service : EventService)
    (steps : List (RawEnvelope × Uuid)) :
    (service.runAnswers steps).map Prod.fst = steps.map Prod.fst := by
  induction steps generalizing service with
  | nil => rfl
  | cons step rest ih => exact congrArg (step.1 :: ·) (ih _)

/-- The ingestions of a run of a persistent service. -/
def answersOf (entries : List (Call × Reply)) : List IngestAnswer :=
  entries.filterMap (fun entry =>
    match entry with
    | (.ingest envelope _ _, .ingested reply) => some (envelope, reply)
    | _ => none)

/-- The states of a service, without persistence or with it, and the ingestions
that led to them.  Identifiers that are drawn are not in use. -/
inductive Reached : List IngestAnswer → EventService → Prop
  | inMemory (steps : List (RawEnvelope × Uuid))
      (hfresh : EveryStep FreshId EventService.empty steps) :
      Reached (EventService.empty.runAnswers steps) (EventService.empty.runInMemory steps)
  | persistent {entries : List (Call × Reply)} {system : System}
      (h : Trace System.start entries system) (hids : IdsIdentify (envelopesOf entries)) :
      Reached (answersOf entries) system.service

omit [CharacterTables] in
theorem commitsIn_append (answers answers' : List IngestAnswer) :
    commitsIn (answers ++ answers') = commitsIn answers ++ commitsIn answers' :=
  List.filterMap_append

omit [CharacterTables] in
theorem answersOf_append (entries entries' : List (Call × Reply)) :
    answersOf (entries ++ entries') = answersOf entries ++ answersOf entries' :=
  List.filterMap_append

omit [CharacterTables] in
/-- The commits are the answers that are not idempotent. -/
theorem mem_commitsIn_iff {answers : List IngestAnswer} {commit : Commit} :
    commit ∈ commitsIn answers ↔
      ∃ created, (commit.envelope, .ok ⟨commit.event, created, false⟩) ∈ answers := by
  rw [commitsIn, List.mem_filterMap]
  constructor
  · rintro ⟨⟨envelope, reply⟩, hmem, hcommit⟩
    cases reply with
    | error error => cases hcommit
    | ok result =>
        obtain ⟨event, created, idempotent⟩ := result
        cases idempotent with
        | true => cases hcommit
        | false =>
            obtain rfl := Option.some.inj hcommit
            exact ⟨created, hmem⟩
  · rintro ⟨created, hmem⟩
    exact ⟨_, hmem, rfl⟩

omit [CharacterTables] in
theorem mem_answersOf_iff {entries : List (Call × Reply)} {envelope : RawEnvelope}
    {reply : Except IngestError IngestResult} :
    (envelope, reply) ∈ answersOf entries ↔
      ∃ newId fault, (Call.ingest envelope newId fault, Reply.ingested reply) ∈ entries := by
  rw [answersOf, List.mem_filterMap]
  constructor
  · rintro ⟨entry, hmem, hanswer⟩
    split at hanswer
    · obtain ⟨rfl, rfl⟩ := Prod.mk.inj (Option.some.inj hanswer)
      exact ⟨_, _, hmem⟩
    · cases hanswer
  · rintro ⟨newId, fault, hmem⟩
    exact ⟨_, hmem, rfl⟩

/-- **Step without persistence.**  The commit of the answer, if it has one, is
the one that was archived. -/
theorem Archives.clustered_step {service : EventService} {log : List Commit}
    (h : Archives service log) (hclustered : Clustered log) (envelope : RawEnvelope)
    {newId : Uuid} (hfresh : newId ∉ service.events.keys) :
    Clustered (log ++ commitsIn [(envelope, (service.ingestInMemory envelope newId).reply)]) ∧
      Archives (service.ingestInMemory envelope newId).service
        (log ++ commitsIn [(envelope, (service.ingestInMemory envelope newId).reply)]) := by
  unfold EventService.ingestInMemory
  cases hget : service.byIdentity.get? envelope.identityKey with
  | some id =>
      obtain ⟨event, -, hanswer⟩ := h.ingest_known hget
      rw [hanswer]
      simp only [commitsIn, List.filterMap_cons, List.filterMap_nil, if_true, List.append_nil]
      exact ⟨hclustered, h⟩
  | none =>
      have hlog := h.fresh_of_notMem_keys hfresh
      rw [ingest_unknown hget]
      exact ⟨h.clustered_next hclustered envelope hlog,
        h.remember (Represents.nextEvent_ordered envelope newId) hget
          (h.nextEvent_version_new hclustered.grown envelope hlog)⟩

/-- **Run without persistence.** -/
theorem Archives.clustered_run {service : EventService} {log : List Commit}
    (h : Archives service log) (hclustered : Clustered log) {steps : List (RawEnvelope × Uuid)}
    (hfresh : EveryStep FreshId service steps) :
    Clustered (log ++ commitsIn (service.runAnswers steps)) ∧
      Archives (service.runInMemory steps) (log ++ commitsIn (service.runAnswers steps)) := by
  induction steps generalizing service log with
  | nil =>
      rw [EventService.runAnswers, commitsIn, List.filterMap_nil, List.append_nil]
      exact ⟨hclustered, h⟩
  | cons step rest ih =>
      obtain ⟨envelope, newId⟩ := step
      obtain ⟨hfirst, hrest⟩ := hfresh
      obtain ⟨hclustered', h'⟩ := h.clustered_step hclustered envelope hfirst
      have hrun := ih h' hclustered' hrest
      rw [List.append_assoc, ← commitsIn_append] at hrun
      exact hrun

/-- **Step with persistence.** -/
theorem Consistent.clustered_step {system system' : System} {log : List Commit}
    (h : Consistent system log) (hclustered : Clustered log) {call : Call} {reply : Reply}
    (hstep : Step system call reply system')
    (hids : IdsIdentify (log.map Commit.envelope ++ envelopesOf [(call, reply)])) :
    Clustered (log ++ commitsIn (answersOf [(call, reply)])) ∧
      Consistent system' (log ++ commitsIn (answersOf [(call, reply)])) := by
  cases hstep with
  | ingest envelope newId fault hfresh =>
      have hkeys : ∀ commit ∈ log, commit.envelope.id = envelope.id →
          commit.envelope.identityKey = envelope.identityKey := by
        intro commit hmem hid
        refine hids commit.envelope ?_ envelope ?_ hid
        · exact List.mem_append_left _ (List.mem_map.mpr ⟨commit, hmem, rfl⟩)
        · exact List.mem_append_right _ (by simp [envelopesOf])
      unfold System.ingest
      cases hget : system.service.byIdentity.get? envelope.identityKey with
      | some id =>
          obtain ⟨event, -, hanswer⟩ := h.represents.ingest_known hget
          rw [hanswer]
          simp only [answersOf, commitsIn, List.filterMap_cons, List.filterMap_nil, if_true,
            List.append_nil]
          exact ⟨hclustered, h⟩
      | none =>
          rw [ingest_unknown hget]
          cases hsave : EventDb.saveUnless fault system.db envelope
              (system.service.nextEvent envelope newId).1 with
          | none =>
              simp only [answersOf, commitsIn, List.filterMap_cons, List.filterMap_nil,
                List.append_nil]
              exact ⟨hclustered, h⟩
          | some db' =>
              exact ⟨h.represents.clustered_next hclustered envelope (h.fresh_of_unused hfresh),
                h.append hfresh hkeys hget hsave⟩
  | refresh state hload =>
      obtain ⟨state', heq, hconsistent⟩ := h.reload hload
      obtain rfl := Except.ok.inj heq
      exact ⟨by simpa [answersOf, commitsIn] using hclustered,
        by simpa [answersOf, commitsIn] using hconsistent⟩
  | refreshRaises error hload =>
      exact ⟨by simpa [answersOf, commitsIn] using hclustered,
        by simpa [answersOf, commitsIn] using h⟩
  | restart state hload =>
      obtain ⟨state', heq, hconsistent⟩ := h.reload hload
      obtain rfl := Except.ok.inj heq
      exact ⟨by simpa [answersOf, commitsIn] using hclustered,
        by simpa [answersOf, commitsIn] using hconsistent⟩
  | getEventVersion eventId eventVersion loaded hload =>
      exact ⟨by simpa [answersOf, commitsIn] using hclustered,
        by simpa [answersOf, commitsIn] using (h.getEventVersion hload).2⟩

omit [CharacterTables] in
/-- The envelopes of the commits were handed over. -/
theorem envelopes_commitsIn_subset (entries : List (Call × Reply)) :
    (commitsIn (answersOf entries)).map Commit.envelope ⊆ envelopesOf entries := by
  intro envelope hmem
  obtain ⟨commit, hcommit, rfl⟩ := List.mem_map.mp hmem
  obtain ⟨created, hanswer⟩ := mem_commitsIn_iff.mp hcommit
  obtain ⟨newId, fault, hentry⟩ := mem_answersOf_iff.mp hanswer
  exact List.mem_filterMap.mpr ⟨_, hentry, rfl⟩

/-- **Run with persistence.** -/
theorem Trace.clustered {entries : List (Call × Reply)} {system : System}
    (h : Trace System.start entries system) (hids : IdsIdentify (envelopesOf entries)) :
    Clustered (commitsIn (answersOf entries)) ∧
      Consistent system (commitsIn (answersOf entries)) := by
  induction h with
  | nil => exact ⟨Clustered.nil, consistent_start⟩
  | @snoc entries system system' call reply h hstep ih =>
      rw [envelopesOf_append] at hids
      obtain ⟨hclustered, hconsistent⟩ := ih (hids.mono (List.subset_append_left _ _))
      rw [answersOf_append, commitsIn_append]
      refine hconsistent.clustered_step hclustered hstep (hids.mono ?_)
      exact List.append_subset.mpr ⟨List.subset_append_of_subset_left _
        (envelopes_commitsIn_subset entries), List.subset_append_right _ _⟩

/-- The indexes of every reached state represent the clustered history of the
ingestions that led to it. -/
theorem Reached.clustered {answers : List IngestAnswer} {service : EventService}
    (h : Reached answers service) :
    Clustered (commitsIn answers) ∧ Represents service (commitsIn answers) := by
  cases h with
  | inMemory steps hfresh =>
      obtain ⟨hclustered, harchives⟩ := archives_empty.clustered_run Clustered.nil hfresh
      exact ⟨hclustered, harchives.toRepresents⟩
  | persistent h hids =>
      obtain ⟨hclustered, hconsistent⟩ := h.clustered hids
      exact ⟨hclustered, hconsistent.represents⟩

end Runs

section Guarantees

/-- A sound cluster, made of the items given in the order of their ingestion. -/
structure SoundCluster [CharacterTables] (event : CanonicalEvent) (items : List RawEnvelope) :
    Prop where
  mentions_perm : event.mentions.Perm (items.map RawEnvelope.mention)
  category_eq : ∀ item ∈ items, item.category = event.eventType
  ordered : SortedBy EventMention.receivedAt event.mentions
  chained : event.mentions.IsChain
    (fun earlier later => later.receivedAt - earlier.receivedAt ≤ clusterWindow)
  opened : ∃ first ∈ items.head?, event.canonicalTitle = first.title
  admitted : ∀ earlier item later, items = earlier ++ item :: later → earlier ≠ [] →
    SimilarTitle item event ∨ ∃ before ∈ earlier, before.contentHash = item.contentHash

/-- In order of receipt, linked mentions are neighbours within the window. -/
theorem CanonicalEvent.isChain_of_linked {event : CanonicalEvent}
    (hordered : SortedBy EventMention.receivedAt event.mentions)
    (hlinked : Linked clusterWindow event.receiptTimes) :
    event.mentions.IsChain
      (fun earlier later => later.receivedAt - earlier.receivedAt ≤ clusterWindow) := by
  have htimes : Linked clusterWindow {time | time ∈ event.mentions.map EventMention.receivedAt} := by
    have hset : {time | time ∈ event.mentions.map EventMention.receivedAt} =
        event.receiptTimes := by
      ext time
      exact List.mem_map
    rw [hset]
    exact hlinked
  have hsorted : (event.mentions.map EventMention.receivedAt).Pairwise (· ≤ ·) :=
    List.pairwise_map.mpr hordered
  exact (List.isChain_map _).mp (htimes.isChain (by decide) hsorted)

variable [CharacterTables] {answers : List IngestAnswer} {service : EventService}

/-- **Clusters are sound.**  In every reached state, every event is a sound
cluster of the items whose ingestion returned a new version of it. -/
theorem clusters_sound (h : Reached answers service) :
    ∀ event ∈ service.events.values,
      SoundCluster event (itemsOf (commitsIn answers) event.eventId) := by
  intro event hevent
  obtain ⟨hclustered, hrepresents⟩ := h.clustered
  obtain ⟨last, hlatest, hsame, hordered⟩ := hrepresents.latest_of_mem_values hevent
  have hgathered := (hclustered.gathered hlatest).of_same hsame.symm
  refine ⟨?_, hgathered.category_eq, hordered, ?_, hgathered.opened, hgathered.admitted⟩
  · rw [itemsOf, List.map_map]
    exact hsame.mentions_perm.trans (hclustered.grown.latest_mentions_perm hlatest)
  · exact CanonicalEvent.isChain_of_linked hordered hgathered.linked

omit [CharacterTables] in
theorem clusters_sound_outOfOrder :
    let _ : CharacterTables := asciiTables
    ∀ event ∈ (EventService.empty.runInMemory outOfOrderRun).events.values,
      SoundCluster event
        (itemsOf (commitsIn (EventService.empty.runAnswers outOfOrderRun)) event.eventId) := by
  intro _
  exact clusters_sound (Reached.inMemory outOfOrderRun outOfOrderRun_fresh)

/-- **Duplicates.**  A copy of an ingested item of its category, received within
24 hours of it, joins an event unless the event of the item was updated more
than 24 hours after the copy was received. -/
theorem duplicate_joins (h : Reached answers service) {envelope : RawEnvelope}
    (hnew : service.byIdentity.get? envelope.identityKey = none)
    {item : RawEnvelope} {event : CanonicalEvent} {created : Bool}
    (hitem : (item, .ok ⟨event, created, false⟩) ∈ answers)
    (hcategory : item.category = envelope.category)
    (hhash : item.contentHash = envelope.contentHash)
    (hnear : |envelope.receivedAt - item.receivedAt| ≤ clusterWindow) :
    ∃ newest, service.events.get? event.eventId = some newest ∧
      (newest.lastUpdatedAt ≤ envelope.receivedAt + clusterWindow →
        JoinsExisting service envelope) := by
  obtain ⟨hclustered, hrepresents⟩ := h.clustered
  have hcommit : (⟨item, event⟩ : Commit) ∈ commitsIn answers :=
    mem_commitsIn_iff.mpr ⟨created, hitem⟩
  obtain ⟨newest, hnewest, hid⟩ := hrepresents.exists_event hcommit
  have hid : newest.eventId = event.eventId := hid
  obtain ⟨last, hlatest, hsame, -⟩ := hrepresents.latest_of_mem_values hnewest
  have hmember : (⟨item, event⟩ : Commit) ∈ commitsOf (commitsIn answers) newest.eventId :=
    mem_ofKey.mpr ⟨hcommit, hid.symm⟩
  have hget : service.events.get? event.eventId = some newest := by
    obtain ⟨id, hget⟩ := InsertionDict.mem_values_iff_get?.mp hnewest
    rw [← hid, hrepresents.eventId_eq hget]
    exact hget
  refine ⟨newest, hget, ?_⟩
  intro hlate
  -- the event was last updated no earlier than the item was received
  have hmention : item.receivedAt ≤ newest.lastUpdatedAt := by
    have hcoherent := hclustered.grown.coherent last (latest_mem hlatest).1
    have hperm := hclustered.grown.latest_mentions_perm hlatest
    rw [hsame.field CanonicalEvent.lastUpdatedAt (fun _ => rfl)]
    refine hcoherent.last_greatest.2 ⟨item.mention, ?_, rfl⟩
    exact hperm.mem_iff.mpr (List.mem_map_of_mem hmember)
  have hgathered := hclustered.gathered hlatest
  refine hrepresents.joinsExisting hnew hnewest ⟨?_, ?_, Or.inl ⟨_, hmember, hhash⟩⟩
  · rw [hsame.field CanonicalEvent.eventType (fun _ => rfl), ← hcategory]
    exact (hgathered.category_eq item (List.mem_map_of_mem hmember)).symm
  · obtain ⟨hafter, hbefore⟩ := abs_le.mp hnear
    exact abs_le.mpr ⟨by linarith, by linarith⟩

/-- One hour. -/
def hour : Int := 60 * 60 * 1000000

/-- Two reports of one content, a day apart. -/
def dayApart : List (RawEnvelope × Uuid) :=
  [(testItem 1 (some "a") "first" hour hour, 7),
    (testItem 2 (some "b") "second" (25 * hour) (25 * hour), 8)]

/-- A third report of it. -/
def thirdReport (receivedAt : UtcDatetime) : RawEnvelope :=
  testItem 3 (some "c") "third" receivedAt (26 * hour)

omit [CharacterTables] in
theorem dayApart_reached :
    let _ : CharacterTables := asciiTables
    Reached (EventService.empty.runAnswers dayApart) (EventService.empty.runInMemory dayApart) := by
  intro _
  exact Reached.inMemory dayApart (everyStep_freshId_pair _ _ (by decide))

omit [CharacterTables] in
/-- What the first report opened. -/
theorem dayApart_first :
    let _ : CharacterTables := asciiTables
    (testItem 1 (some "a") "first" hour hour,
      .ok ⟨(testItem 1 (some "a") "first" hour hour).openEvent 7, true, false⟩) ∈
        EventService.empty.runAnswers dayApart := by
  intro _
  exact List.mem_cons_self

omit [CharacterTables] in
/-- A report received an hour after the first one. -/
theorem duplicate_joins_thirdReport :
    let _ : CharacterTables := asciiTables
    ∃ newest, (EventService.empty.runInMemory dayApart).events.get? 7 = some newest ∧
      (newest.lastUpdatedAt ≤ 2 * hour + clusterWindow →
        JoinsExisting (EventService.empty.runInMemory dayApart) (thirdReport (2 * hour))) := by
  intro _
  have hnew : (EventService.empty.runInMemory dayApart).byIdentity.get?
      (thirdReport (2 * hour)).identityKey = none := by
    decide +kernel
  exact duplicate_joins dayApart_reached hnew dayApart_first rfl rfl (by decide +kernel)

omit [CharacterTables] in
/-- A report that was received an hour before the first one and arrives after
the second one opens a second event for the content. -/
theorem duplicate_split_off :
    let _ : CharacterTables := asciiTables
    ¬ ∀ answers service, Reached answers service →
      ∀ envelope, service.byIdentity.get? envelope.identityKey = none →
        ∀ item event created, (item, .ok ⟨event, created, false⟩) ∈ answers →
          item.category = envelope.category → item.contentHash = envelope.contentHash →
          |envelope.receivedAt - item.receivedAt| ≤ clusterWindow →
            JoinsExisting service envelope := by
  intro _ hlaw
  have hjoins := hlaw _ _ dayApart_reached (thirdReport 0) (by decide +kernel) _ _ _
    dayApart_first rfl rfl (by decide +kernel)
  obtain ⟨existing, -, hreply⟩ := hjoins Unit (fun _ _ _ => some ()) () 9
  have hcreated : ((EventService.empty.runInMemory dayApart).ingestInMemory
      (thirdReport 0) 9).reply.toOption.map IngestResult.created = some true := by
    decide +kernel
  unfold EventService.ingestInMemory at hcreated
  rw [hreply] at hcreated
  exact absurd hcreated (by simp [Except.toOption])

/-- **Headlines.**  A new item under the canonical title of an event of its
category, received within 24 hours of the last update of the event, joins an
event if the title has a token that counts. -/
theorem headline_joins (h : Reached answers service) {event : CanonicalEvent}
    (hevent : event ∈ service.events.values) {envelope : RawEnvelope}
    (hnew : service.byIdentity.get? envelope.identityKey = none)
    (hcategory : envelope.category = event.eventType)
    (htitle : envelope.title = event.canonicalTitle)
    (hnear : |envelope.receivedAt - event.lastUpdatedAt| ≤ clusterWindow)
    (htokens : (titleFingerprint envelope.title).Nonempty) :
    JoinsExisting service envelope := by
  have hsimilar : SimilarTitle envelope event := by
    rw [SimilarTitle, ← htitle, jaccard_self htokens, similarityThreshold]
    norm_num
  exact h.clustered.2.joinsExisting hnew hevent ⟨hcategory.symm, hnear, Or.inr hsimilar⟩

omit [CharacterTables] in
theorem headline_joins_thirdReport :
    let _ : CharacterTables := asciiTables
    JoinsExisting (EventService.empty.runInMemory dayApart) (thirdReport (2 * hour)) := by
  intro _
  have hevent : ∃ event ∈ (EventService.empty.runInMemory dayApart).events.values,
      (thirdReport (2 * hour)).category = event.eventType ∧
      (thirdReport (2 * hour)).title = event.canonicalTitle ∧
      |(thirdReport (2 * hour)).receivedAt - event.lastUpdatedAt| ≤ clusterWindow := by
    decide +kernel
  obtain ⟨event, hmem, hcategory, htitle, hnear⟩ := hevent
  exact headline_joins dayApart_reached hmem (by decide +kernel) hcategory htitle hnear
    (by decide +kernel)

/-- The fields of two items under a headline of one short word. -/
def shortHeadlineFields (second : Bool) : RawEnvelopeFields where
  id := if second then 2 else 1
  traceId := 0
  provider := "fixture"
  sourceId := "official"
  sourceType := "test_fixture"
  nativeId := some (if second then "two" else "one")
  receivedAt := if second then hour else 0
  processedAt := hour
  title := "AI"
  content := if second then "An update." else "A report."
  url := "https://example.invalid/ai"
  language := "en"
  category := "technology"
  contentHash := String.ofList (List.replicate 64 (if second then 'b' else 'a'))
  storagePolicy := .metadataAndDerivedOnly

omit [CharacterTables] in
theorem shortHeadline_accepted (second : Bool) : (shortHeadlineFields second).Accepted := by
  cases second <;> decide +kernel

/-- Two items under a headline of one short word. -/
def shortHeadline (second : Bool) : RawEnvelope where
  toRawEnvelopeFields := shortHeadlineFields second
  accepted := shortHeadline_accepted second

omit [CharacterTables] in
/-- The headline `AI` has no token that counts, and an item under it opens an
event of its own beside the one of the same headline. -/
theorem short_headline_split_off :
    let _ : CharacterTables := asciiTables
    ¬ ∀ answers service, Reached answers service →
      ∀ event ∈ service.events.values, ∀ envelope,
        service.byIdentity.get? envelope.identityKey = none →
        envelope.category = event.eventType → envelope.title = event.canonicalTitle →
        |envelope.receivedAt - event.lastUpdatedAt| ≤ clusterWindow →
          JoinsExisting service envelope := by
  intro _ hlaw
  have hreached : Reached (EventService.empty.runAnswers [(shortHeadline false, 7)])
      (EventService.empty.runInMemory [(shortHeadline false, 7)]) :=
    Reached.inMemory _ ⟨List.not_mem_nil, trivial⟩
  have hjoins := hlaw _ _ hreached ((shortHeadline false).openEvent 7)
    (by decide +kernel) (shortHeadline true) (by decide +kernel) rfl rfl (by decide +kernel)
  obtain ⟨existing, -, hreply⟩ := hjoins Unit (fun _ _ _ => some ()) () 9
  have hcreated : ((EventService.empty.runInMemory [(shortHeadline false, 7)]).ingestInMemory
      (shortHeadline true) 9).reply.toOption.map IngestResult.created = some true := by
    decide +kernel
  unfold EventService.ingestInMemory at hcreated
  rw [hreply] at hcreated
  exact absurd hcreated (by simp [Except.toOption])

end Guarantees

end EventAlpha
