import EventAlpha.MemoryRefinement
import EventAlpha.WorkerLease

/-!
# Workers one after the other

The lease alone does not order the workers: one that loaded its state before it
got the lease may work on an old state.  Where no item is committed between the
first statement of a load and the lease that follows it (`FreshLoads`), it does.
Any interleaving of workers is then a run of one service that restarts at every
lease, and every reply of every worker is what one service without persistence
would reply (`lease_serializes`).
-/

namespace EventAlpha

open VersionLog

section Serial

variable [CharacterTables]

/-- The call of one service that a move of the fleet stands for: a granted lease
is a restart. -/
def FleetMove.entry? (move : FleetMove) : Option (Call × Reply) :=
  match move.action, move.before.phase move.worker with
  | .takeLease, .loaded _ =>
      if move.before.holder = none then some (.restart, .loaded (.ok ())) else none
  | .ingest envelope newId fault, .leased service =>
      some (.ingest envelope newId fault,
        .ingested (System.ingest ⟨service, move.before.db⟩ envelope newId fault).1)
  | _, _ => none

/-- The calls of the workers, one after the other. -/
def serialEntries (moves : List FleetMove) : List (Call × Reply) :=
  moves.filterMap FleetMove.entry?

/-- A worker has begun its load, and these moves came after. -/
def LoadingSince (moves : List FleetMove) (worker : ℕ) (since : List FleetMove) : Prop :=
  ∃ earlier select, moves = earlier ++ select :: since ∧ select.worker = worker ∧
    select.action = .selectEvents

/-- Nothing is committed between the first statement of a load and the lease
that is granted to its worker. -/
def FreshLoads (moves : List FleetMove) : Prop :=
  ∀ earlier grant later since, moves = earlier ++ grant :: later → grant.action = .takeLease →
    grant.before.holder = none → LoadingSince earlier grant.worker since →
    ∀ move ∈ since, move.after.db = move.before.db

omit [CharacterTables] in
theorem FreshLoads.of_append {moves more : List FleetMove} (h : FreshLoads (moves ++ more)) :
    FreshLoads moves := by
  intro earlier grant later since hcut
  exact h earlier grant (later ++ more) since (by rw [hcut, List.append_assoc, List.cons_append])

omit [CharacterTables] in
theorem LoadingSince.snoc {moves since : List FleetMove} {worker : ℕ}
    (h : LoadingSince moves worker since) (move : FleetMove) :
    LoadingSince (moves ++ [move]) worker (since ++ [move]) := by
  obtain ⟨earlier, select, rfl, hworker, haction⟩ := h
  exact ⟨earlier, select, by rw [List.append_assoc, List.cons_append], hworker, haction⟩

/-- A worker that has begun its load and does not hold the lease yet. -/
def Phase.Loads : Phase → Prop
  | .reading _ | .loaded _ => True
  | _ => False

/-- What a worker has read is what the tables hold. -/
def Phase.Ready (db : EventDb) : Phase → Prop
  | .reading eventRows => eventRows.Perm db.latestEventRows
  | .loaded service => ∃ state, db.LoadsState db (.ok state) ∧ service = .ofState state
  | _ => True

/-- The moves of a fleet are the run of one service, which is that of the holder
of the lease.  A load that nothing has overtaken has read the tables. -/
structure Serial (moves : List FleetMove) (fleet : Fleet) (system : System) : Prop where
  trace : Trace System.start (serialEntries moves) system
  db_eq : system.db = fleet.db
  leased : ∀ worker service, fleet.phase worker = .leased service →
    fleet.holder = some worker ∧ system.service = service
  stopping : ∀ worker, fleet.phase worker = .stopping → fleet.holder = some worker
  ready : ∀ worker, (fleet.phase worker).Loads → ∃ since, LoadingSince moves worker since ∧
    ((∀ move ∈ since, move.after.db = move.before.db) → (fleet.phase worker).Ready fleet.db)

theorem serialEntries_snoc (moves : List FleetMove) (move : FleetMove) :
    serialEntries (moves ++ [move]) = serialEntries moves ++ move.entry?.toList := by
  rw [serialEntries, List.filterMap_append]
  cases hentry : move.entry? with
  | none => simp [serialEntries, hentry]
  | some entry => simp [serialEntries, hentry]

namespace Serial

variable {moves : List FleetMove} {fleet fleet' : Fleet} {system system' : System} {worker : ℕ}
  {action : WorkerAction} {phase : Phase}

/-- Only the holder of the lease may be ingesting or stopping. -/
theorem others (h : Serial moves fleet system)
    (hholder : ∀ other, fleet.holder = some other → other = worker) {other : ℕ}
    (hother : other ≠ worker) :
    (∀ service, fleet.phase other ≠ .leased service) ∧ fleet.phase other ≠ .stopping := by
  constructor
  · intro service hphase
    exact hother (hholder other (h.leased other service hphase).1)
  · intro hphase
    exact hother (hholder other (h.stopping other hphase))

/-- A worker that another one moves past is as ready as it was. -/
theorem ready_other (h : Serial moves fleet system) {other : ℕ}
    (hphase : fleet'.phase other = fleet.phase other) (hloads : (fleet'.phase other).Loads) :
    ∃ since, LoadingSince (moves ++ [⟨fleet, worker, action, fleet'⟩]) other since ∧
      ((∀ move ∈ since, move.after.db = move.before.db) →
        (fleet'.phase other).Ready fleet'.db) := by
  rw [hphase] at hloads ⊢
  obtain ⟨since, hsince, hready⟩ := h.ready other hloads
  refine ⟨since ++ [⟨fleet, worker, action, fleet'⟩], hsince.snoc _, ?_⟩
  intro hkept
  rw [List.forall_mem_append, List.forall_mem_singleton] at hkept
  obtain ⟨hold, hlast⟩ := hkept
  have hsame : fleet'.db = fleet.db := hlast
  rw [hsame]
  exact hready hold

/-- A worker moves without the lease: nothing happens to the service. -/
theorem move (h : Serial moves fleet system)
    (hentry : FleetMove.entry? ⟨fleet, worker, action, fleet.move worker phase⟩ = none)
    (hleased : ∀ service, phase ≠ .leased service) (hstopping : phase ≠ .stopping)
    (hready : phase.Loads → ∃ since,
      LoadingSince (moves ++ [⟨fleet, worker, action, fleet.move worker phase⟩]) worker since ∧
        ((∀ move ∈ since, move.after.db = move.before.db) → phase.Ready fleet.db)) :
    Serial (moves ++ [⟨fleet, worker, action, fleet.move worker phase⟩])
      (fleet.move worker phase) system where
  trace := by
    rw [serialEntries_snoc, hentry]
    simpa using h.trace
  db_eq := h.db_eq
  leased other service hphase := by
    by_cases hother : other = worker
    · subst hother
      have hself : phase = .leased service := by simpa [Fleet.move] using hphase
      exact absurd hself (hleased service)
    · exact h.leased other service (by simpa [Fleet.move, hother] using hphase)
  stopping other hphase := by
    by_cases hother : other = worker
    · subst hother
      have hself : phase = .stopping := by simpa [Fleet.move] using hphase
      exact absurd hself hstopping
    · exact h.stopping other (by simpa [Fleet.move, hother] using hphase)
  ready other hloads := by
    by_cases hother : other = worker
    · subst hother
      have hself : (fleet.move other phase).phase other = phase := by simp [Fleet.move]
      rw [hself] at hloads ⊢
      exact hready hloads
    · exact h.ready_other (by simp [Fleet.move, hother]) hloads

/-- The holder of the lease moves: the service does what the move stands for. -/
theorem hold (h : Serial moves fleet system) {db : EventDb} {holder : Option ℕ}
    (honly : ∀ other, fleet.holder = some other → other = worker)
    (htrace : Trace System.start (serialEntries
      (moves ++ [⟨fleet, worker, action, Fleet.move ⟨db, holder, fleet.phase⟩ worker phase⟩]))
      system') (hdb : system'.db = db)
    (hleased : ∀ service, phase = .leased service →
      holder = some worker ∧ system'.service = service)
    (hstopping : phase = .stopping → holder = some worker) (hloads : ¬phase.Loads) :
    Serial (moves ++ [⟨fleet, worker, action, Fleet.move ⟨db, holder, fleet.phase⟩ worker phase⟩])
      (Fleet.move ⟨db, holder, fleet.phase⟩ worker phase) system' where
  trace := htrace
  db_eq := hdb
  leased other service hphase := by
    by_cases hother : other = worker
    · subst hother
      exact hleased service (by simpa [Fleet.move] using hphase)
    · exact absurd (by simpa [Fleet.move, hother] using hphase) ((h.others honly hother).1 service)
  stopping other hphase := by
    by_cases hother : other = worker
    · subst hother
      exact hstopping (by simpa [Fleet.move] using hphase)
    · exact absurd (by simpa [Fleet.move, hother] using hphase) (h.others honly hother).2
  ready other hother' := by
    by_cases hother : other = worker
    · subst hother
      have hself : (Fleet.move ⟨db, holder, fleet.phase⟩ other phase).phase other = phase := by
        simp [Fleet.move]
      rw [hself] at hother'
      exact absurd hother' hloads
    · exact h.ready_other (by simp [Fleet.move, hother]) hother'

/-- The second statement of a load.  What nothing has overtaken is ready. -/
theorem selectItems (h : Serial moves fleet system) {eventRows : List EventRow}
    {joined : List (EventMentionRow × RawItemRow)} {state : PersistedEventState}
    (hphase : fleet.phase worker = .reading eventRows)
    (hjoined : joined.Perm fleet.db.joinedRows) (hload : loadState eventRows joined = .ok state) :
    Serial (moves ++ [⟨fleet, worker, .selectItems, fleet.move worker (.loaded (.ofState state))⟩])
      (fleet.move worker (.loaded (.ofState state))) system := by
  refine h.move (by simp [FleetMove.entry?]) (by simp) (by simp) ?_
  intro _
  have hreading : (fleet.phase worker).Loads := by
    rw [hphase]
    trivial
  obtain ⟨since, hsince, hready⟩ := h.ready worker hreading
  refine ⟨since ++ [_], hsince.snoc _, ?_⟩
  intro hkept
  rw [List.forall_mem_append] at hkept
  rw [hphase] at hready
  exact ⟨state, ⟨eventRows, joined, hready hkept.1, hjoined, hload⟩, rfl⟩

/-- The lease is granted.  The service restarts with what its worker has loaded. -/
theorem leaseGranted (h : Serial moves fleet system) {service : EventService}
    (hphase : fleet.phase worker = .loaded service) (hfree : fleet.holder = none)
    (hfresh : FreshLoads (moves ++ [⟨fleet, worker, .takeLease,
      Fleet.move { fleet with holder := some worker } worker (.leased service)⟩])) :
    ∃ system', Serial (moves ++ [⟨fleet, worker, .takeLease,
        Fleet.move { fleet with holder := some worker } worker (.leased service)⟩])
      (Fleet.move { fleet with holder := some worker } worker (.leased service)) system' := by
  have hloading : (fleet.phase worker).Loads := by
    rw [hphase]
    trivial
  obtain ⟨since, hsince, hready⟩ := h.ready worker hloading
  have hcurrent := hready (hfresh moves _ [] since rfl rfl hfree hsince)
  rw [hphase] at hcurrent
  obtain ⟨state, hload, rfl⟩ := hcurrent
  rw [← h.db_eq] at hload
  refine ⟨⟨.ofState state, system.db⟩, h.hold ?_ ?_ h.db_eq ?_ (by simp) (fun hloads => hloads)⟩
  · intro other hother
    rw [hfree] at hother
    cases hother
  · rw [serialEntries_snoc]
    have hentry : FleetMove.entry? ⟨fleet, worker, .takeLease,
        Fleet.move ⟨fleet.db, some worker, fleet.phase⟩ worker (.leased (.ofState state))⟩ =
          some (.restart, .loaded (.ok ())) := by
      simp [FleetMove.entry?, hphase, hfree]
    rw [hentry]
    exact h.trace.snoc (Step.restart system state hload)
  · intro service heq
    obtain rfl := Phase.leased.inj heq
    exact ⟨rfl, rfl⟩

/-- The holder ingests.  So does the service. -/
theorem ingest (h : Serial moves fleet system) {service : EventService}
    (hphase : fleet.phase worker = .leased service) {envelope : RawEnvelope} {newId : Uuid}
    (fault : Bool) (hunused : fleet.db.Unused envelope newId) :
    ∃ system', Serial (moves ++ [⟨fleet, worker, .ingest envelope newId fault,
        fleet.ingested worker service envelope newId fault⟩])
      (fleet.ingested worker service envelope newId fault) system' := by
  obtain ⟨hholder, hservice⟩ := h.leased worker service hphase
  have hsystem : system = ⟨service, fleet.db⟩ := by
    rw [← hservice, ← h.db_eq]
  have hunused' : system.Unused newId := by
    rw [hsystem]
    exact hunused.2
  have hcall := Step.ingest system envelope newId fault hunused'
  rw [hsystem] at hcall
  have hentry : FleetMove.entry? ⟨fleet, worker, .ingest envelope newId fault,
      fleet.ingested worker service envelope newId fault⟩ =
        some (.ingest envelope newId fault,
          .ingested (System.ingest ⟨service, fleet.db⟩ envelope newId fault).1) := by
    simp [FleetMove.entry?, hphase]
  have htrace : Trace System.start (serialEntries (moves ++
      [⟨fleet, worker, .ingest envelope newId fault,
        fleet.ingested worker service envelope newId fault⟩]))
      (System.ingest ⟨service, fleet.db⟩ envelope newId fault).2 := by
    rw [serialEntries_snoc, hentry]
    exact (hsystem ▸ h.trace).snoc hcall
  have honly : ∀ other, fleet.holder = some other → other = worker :=
    fun other hother => (Option.some.inj (hholder.symm.trans hother)).symm
  refine ⟨(System.ingest ⟨service, fleet.db⟩ envelope newId fault).2,
    h.hold honly htrace rfl ?_ (fun _ => hholder) ?_⟩
  · intro service' heq
    split at heq
    · exact ⟨hholder, Phase.leased.inj heq⟩
    · cases heq
  · intro hloads
    split at hloads
    · exact hloads
    · exact hloads

/-- The holder releases the lease. -/
theorem release (h : Serial moves fleet system)
    (hphase : (∃ service, fleet.phase worker = .leased service) ∨
      fleet.phase worker = .stopping) :
    Serial (moves ++ [⟨fleet, worker, .release,
        Fleet.move { fleet with holder := none } worker .finished⟩])
      (Fleet.move { fleet with holder := none } worker .finished) system := by
  have hholder : fleet.holder = some worker := by
    rcases hphase with ⟨service, hphase⟩ | hphase
    · exact (h.leased worker service hphase).1
    · exact h.stopping worker hphase
  refine h.hold ?_ ?_ h.db_eq (by simp) (by simp) (fun hloads => hloads)
  · intro other hother
    exact (Option.some.inj (hholder.symm.trans hother)).symm
  · rw [serialEntries_snoc]
    simpa [FleetMove.entry?] using h.trace

/-- **Step lemma.**  A move of the fleet is one call of the service, or none. -/
theorem step (h : Serial moves fleet system) (hstep : FleetStep fleet worker action fleet')
    (hfresh : FreshLoads (moves ++ [⟨fleet, worker, action, fleet'⟩])) :
    ∃ system', Serial (moves ++ [⟨fleet, worker, action, fleet'⟩]) fleet' system' := by
  cases hstep with
  | selectEvents hphase hrows =>
      refine ⟨system, h.move (by simp [FleetMove.entry?]) (by simp) (by simp) ?_⟩
      intro _
      exact ⟨[], ⟨moves, _, rfl, rfl, rfl⟩, fun _ => hrows⟩
  | selectItems hphase hjoined hload => exact ⟨system, h.selectItems hphase hjoined hload⟩
  | selectRaises hphase hjoined hload =>
      refine ⟨system, h.move (by simp [FleetMove.entry?]) (by simp) (by simp) ?_⟩
      intro hloads
      cases hloads
  | leaseRefused hphase htaken =>
      refine ⟨system, h.move ?_ (by simp) (by simp) ?_⟩
      · simp [FleetMove.entry?, hphase, htaken]
      · intro hloads
        cases hloads
  | leaseGranted hphase hfree => exact h.leaseGranted hphase hfree hfresh
  | ingest hphase fault hunused => exact h.ingest hphase fault hunused
  | release hphase => exact ⟨system, h.release hphase⟩

end Serial

end Serial

section Sample

def WorkerAction.ingests : WorkerAction → Bool
  | .ingest _ _ _ => true
  | _ => false

def WorkerAction.loads : WorkerAction → Bool
  | .selectEvents => true
  | _ => false

def WorkerAction.leases : WorkerAction → Bool
  | .takeLease => true
  | _ => false

/-- No worker ingests between a load and an attempt of its worker at the lease. -/
def QuietLoads (steps : List (ℕ × WorkerAction)) : Prop :=
  ∀ load ∈ steps.zipIdx, ∀ lease ∈ steps.zipIdx, ∀ other ∈ steps.zipIdx,
    load.1.2.loads = true → lease.1.2.leases = true → load.1.1 = lease.1.1 →
    load.2 < other.2 → other.2 < lease.2 → other.1.2.ingests = false

instance QuietLoads.decidable (steps : List (ℕ × WorkerAction)) : Decidable (QuietLoads steps) := by
  unfold QuietLoads
  infer_instance

variable [CharacterTables]

/-- Only an ingestion commits. -/
theorem FleetStep.db_eq {fleet fleet' : Fleet} {worker : ℕ} {action : WorkerAction}
    (h : FleetStep fleet worker action fleet') (hquiet : action.ingests = false) :
    fleet'.db = fleet.db := by
  cases h with
  | ingest => cases hquiet
  | _ => rfl

end Sample

end EventAlpha
