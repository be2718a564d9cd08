import EventAlpha.Clusters
import EventAlpha.SetDistance

/-!
# The diameter of a cluster

An item is compared with the canonical title of an event, never with its other
items, so two items of one event have not been compared with each other.  The
overlap of title fingerprints obeys a triangle inequality, though, and the
canonical title never changes: two items that joined by their titles are at
least seven tenths alike (`cluster_diameter`).  The bound is reached.
-/

namespace EventAlpha

open KeyedOrder VersionLog SetDistance

/-- The similarity of fingerprints is their overlap, also of empty ones. -/
theorem jaccard_eq_overlap (left right : Finset (List Char)) :
    jaccard left right = overlap left right := by
  unfold jaccard
  split
  · rfl
  · rename_i hempty
    obtain ⟨hleft, -⟩ := not_or.mp hempty
    obtain rfl := Finset.not_nonempty_iff_eq_empty.mp hleft
    rw [overlap_comm, overlap_empty]

section Diameter

variable [CharacterTables]

/-- Two titles that are similar to a third one are at least seven tenths alike. -/
theorem SimilarTitle.alike {item item' : RawEnvelope} {event : CanonicalEvent}
    (h : SimilarTitle item event) (h' : SimilarTitle item' event) :
    7 / 10 ≤ jaccard (titleFingerprint item.title) (titleFingerprint item'.title) := by
  rw [SimilarTitle, similarityThreshold, jaccard_eq_overlap] at h h'
  have htriangle := overlap_triangle (titleFingerprint item.title)
    (titleFingerprint event.canonicalTitle) (titleFingerprint item'.title)
  rw [overlap_comm (titleFingerprint event.canonicalTitle)] at htriangle
  rw [jaccard_eq_overlap]
  linarith

/-- **Diameter of a cluster.**  Two of its items that both brought new content
are at least seven tenths alike. -/
theorem Gathered.alike {event : CanonicalEvent} {members : List RawEnvelope}
    (h : Gathered event members) {earlier middle later : List RawEnvelope}
    {item item' : RawEnvelope} (hmembers : members = earlier ++ item :: (middle ++ item' :: later))
    (hnew : ∀ before ∈ earlier, before.contentHash ≠ item.contentHash)
    (hnew' : ∀ before ∈ earlier ++ item :: middle, before.contentHash ≠ item'.contentHash) :
    7 / 10 ≤ jaccard (titleFingerprint item.title) (titleFingerprint item'.title) := by
  have hsimilar' : SimilarTitle item' event := by
    have hcut : members = (earlier ++ item :: middle) ++ item' :: later := by
      rw [hmembers, List.append_assoc, List.cons_append]
    rcases h.admitted _ _ _ hcut (by simp) with htitle | ⟨before, hmem, hhash⟩
    · exact htitle
    · exact absurd hhash (hnew' before hmem)
  cases earlier with
  | nil =>
      -- the canonical title is that of the item itself
      obtain ⟨first, hfirst, htitle⟩ := h.opened
      rw [hmembers, List.nil_append, List.head?_cons, Option.mem_some_iff] at hfirst
      subst hfirst
      rw [SimilarTitle, similarityThreshold, htitle, jaccard_eq_overlap, overlap_comm] at hsimilar'
      rw [jaccard_eq_overlap]
      linarith
  | cons first rest =>
      rcases h.admitted _ _ _ hmembers (List.cons_ne_nil _ _) with htitle | ⟨before, hmem, hhash⟩
      · exact htitle.alike hsimilar'
      · exact absurd hhash (hnew before hmem)

variable {answers : List IngestAnswer} {service : EventService}

/-- In every reached state, two items of one event that both brought new
content to it are at least seven tenths alike. -/
theorem cluster_diameter (h : Reached answers service) {event : CanonicalEvent}
    (hevent : event ∈ service.events.values) {earlier middle later : List RawEnvelope}
    {item item' : RawEnvelope}
    (hitems : itemsOf (commitsIn answers) event.eventId =
      earlier ++ item :: (middle ++ item' :: later))
    (hnew : ∀ before ∈ earlier, before.contentHash ≠ item.contentHash)
    (hnew' : ∀ before ∈ earlier ++ item :: middle, before.contentHash ≠ item'.contentHash) :
    7 / 10 ≤ jaccard (titleFingerprint item.title) (titleFingerprint item'.title) := by
  obtain ⟨hclustered, hrepresents⟩ := h.clustered
  obtain ⟨last, hlatest, -, -⟩ := hrepresents.latest_of_mem_values hevent
  exact (hclustered.gathered hlatest).alike hitems hnew hnew'

end Diameter

section Sample

/-- The words that three titles share. -/
def sharedWords : String := "ddd eee fff ggg hhh iii jjj kkk lll mmm nnn ooo ppp qqq"

/-- A headline of twenty words, without its last three, and without its first
three. -/
def shortenedTitle : Fin 3 → String
  | 0 => "aaa bbb ccc " ++ sharedWords ++ " rrr sss ttt"
  | 1 => "aaa bbb ccc " ++ sharedWords
  | 2 => sharedWords ++ " rrr sss ttt"

/-- The fields of an item under such a title, with content of its own. -/
def shortenedFields (part : Fin 3) : RawEnvelopeFields where
  id := if part = 0 then 1 else if part = 1 then 2 else 3
  traceId := 0
  provider := "fixture"
  sourceId := "official"
  sourceType := "test_fixture"
  nativeId := some (String.ofList (List.replicate (part.val + 1) 'n'))
  receivedAt := hour
  processedAt := hour
  title := shortenedTitle part
  content := "A report."
  url := "https://example.invalid/acme"
  language := "en"
  category := "earnings"
  contentHash := String.ofList (List.replicate 64 (Char.ofNat ('a'.toNat + part.val)))
  storagePolicy := .metadataAndDerivedOnly

theorem shortenedFields_accepted (part : Fin 3) : (shortenedFields part).Accepted := by
  revert part
  decide +kernel

def shortenedItem (part : Fin 3) : RawEnvelope where
  toRawEnvelopeFields := shortenedFields part
  accepted := shortenedFields_accepted part

/-- The headline, then the two items without some of its words. -/
@[reducible] def shortenedSteps : List (RawEnvelope × Uuid) :=
  [(shortenedItem 0, 7), (shortenedItem 1, 8), (shortenedItem 2, 9)]

/-- Two items of one event that are no more alike than they have to be. -/
theorem cluster_diameter_headline :
    let _ : CharacterTables := asciiTables
    7 / 10 ≤ jaccard (titleFingerprint (shortenedItem 1).title)
        (titleFingerprint (shortenedItem 2).title) ∧
      jaccard (titleFingerprint (shortenedItem 1).title)
        (titleFingerprint (shortenedItem 2).title) = 7 / 10 := by
  intro _
  have hfresh : EveryStep FreshId EventService.empty shortenedSteps := by
    refine ⟨?_, ?_, ?_, trivial⟩ <;> (unfold FreshId; decide +kernel)
  have hreached : Reached (EventService.empty.runAnswers shortenedSteps)
      (EventService.empty.runInMemory shortenedSteps) :=
    Reached.inMemory _ hfresh
  have hevent : ∃ event ∈ (EventService.empty.runInMemory shortenedSteps).events.values,
      itemsOf (commitsIn (EventService.empty.runAnswers shortenedSteps)) event.eventId =
        [shortenedItem 0] ++ shortenedItem 1 :: ([] ++ shortenedItem 2 :: []) := by
    decide +kernel
  obtain ⟨event, hmem, hitems⟩ := hevent
  exact ⟨cluster_diameter hreached hmem hitems (by decide +kernel) (by decide +kernel),
    by decide +kernel⟩

end Sample

end EventAlpha
