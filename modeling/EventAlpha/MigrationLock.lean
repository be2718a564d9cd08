import EventAlpha.ExclusiveTransactions
import EventAlpha.MigrationHistories

/-!
# Migration runs at the same time

Every instance of a deployment may call `apply_migrations` when it starts.  On
PostgreSQL the transaction of a call begins with `pg_advisory_xact_lock`, which
the server lets go of when the transaction ends, however it ends.

Here a call is a transaction of single statements, each of which reads what is
committed at its time (`migrationStatement`).  Undisturbed it is
`applyMigrations` (`applyMigrations_evaluates`), so that under the lock any
number of calls, interleaved in any way and with crashes anywhere, are
deployments one after the other.
-/

namespace EventAlpha

open RunLog ExclusiveTransactions

variable {σ : Type*}

/-- Where the transaction of a call is. -/
inductive MigrationCall (σ : Type*)
  | inspecting
  | selecting (ledger : LedgerTable)
  | applying (ledger : LedgerTable) (applied : InsertionDict String LedgerRow)
      (run : MigrationRun σ) (paths : List (String × String))
  | executing (ledger : LedgerTable) (applied : InsertionDict String LedgerRow)
      (run : MigrationRun σ) (path : String × String) (statements rest : List String)
      (paths : List (String × String))
  | closed (result : Except MigrationError (LedgerTable × MigrationRun σ))

/-- What a call replies, and what its transaction commits. -/
def MigrationCall.outcome :
    MigrationCall σ → Option (Except MigrationError (List String) × Option (Database σ))
  | .closed (.error error) => some (.error error, none)
  | .closed (.ok (ledger, run)) =>
      some (.ok run.appliedNow,
        some ⟨run.schema, some { ledger with rows := run.rows }, run.executed⟩)
  | _ => none

/-- What a call that is over replies, and the database it leaves. -/
def Database.afterCall (db : Database σ) :
    Except MigrationError (LedgerTable × MigrationRun σ) →
      Except MigrationError (List String) × Database σ
  | .error error => (.error error, db)
  | .ok (ledger, run) =>
      (.ok run.appliedNow,
        ⟨run.schema, some { ledger with rows := run.rows }, run.executed⟩)

namespace Platform

variable [CharacterTables]

/-- The next statement of a call, on what is committed at its time. -/
def migrationStatement (platform : Platform σ) (release : Release σ) (db : Database σ) :
    MigrationCall σ → MigrationCall σ
  | .inspecting =>
      match platform.openLedger db with
      | .error error => .closed (.error error)
      | .ok ledger => .selecting ledger
  | .selecting ledger =>
      -- the ledger there is, or the one that the call has created
      let applied := (db.ledger.getD ledger).rows
      let unavailable := applied.keys.filter (fun version =>
        version ∉ release.directory.keys)
      if unavailable ≠ [] then
        .closed (.error (.runtime ("Database contains migrations unavailable to this release: " ++
          ", ".intercalate (KeyedOrder.sortedBy id unavailable))))
      else .applying ledger applied ⟨db.schema, applied, db.executed, []⟩ release.migrationPaths
  | .applying ledger _ run [] => .closed (.ok (ledger, run))
  | .applying ledger applied run (path :: paths) =>
      match applied.get? path.1 with
      | some _ =>
          match platform.applyFile release applied run path with
          | .error error => .closed (.error error)
          | .ok run' => .applying ledger applied run' paths
      | none => .executing ledger applied run path [] (migrationStatements path.2) paths
  | .executing ledger applied run path statements (statement :: rest) paths =>
      match release.exec run.schema statement with
      | none => .closed (.error (.statement path.1 statement))
      | some schema =>
          .executing ledger applied { run with schema := schema } path (statements ++ [statement])
            rest paths
  | .executing ledger applied run path statements [] paths =>
      .applying ledger applied
        { schema := run.schema
          rows := run.rows.set path.1 ⟨platform.migrationChecksum path.2, release.now⟩
          executed := run.executed ++ [⟨path.1, statements⟩]
          appliedNow := run.appliedNow ++ [path.1] } paths
  | .closed result => .closed result

/-- A call of `apply_migrations`, as the transaction that the lock guards. -/
def migrationTransaction (platform : Platform σ) (release : Release σ) :
    Transaction (Database σ) (MigrationCall σ) (Except MigrationError (List String)) where
  start := .inspecting
  statement := platform.migrationStatement release
  outcome := MigrationCall.outcome

section Undisturbed

variable {platform : Platform σ} {release : Release σ} {db : Database σ} {ledger : LedgerTable}
  {applied : InsertionDict String LedgerRow} {run : MigrationRun σ}
  {paths : List (String × String)} {result : Except MigrationError (List String) × Database σ}

theorem evaluates_closed (ended : Except MigrationError (LedgerTable × MigrationRun σ)) :
    (platform.migrationTransaction release).Evaluates db (.closed ended) (db.afterCall ended) := by
  cases ended with
  | error error =>
      have hdone : (platform.migrationTransaction release).outcome (.closed (.error error)) =
          some (.error error, none) := rfl
      exact .finish hdone
  | ok done =>
      obtain ⟨ledger, run⟩ := done
      have hdone : (platform.migrationTransaction release).outcome (.closed (.ok (ledger, run))) =
          some (.ok run.appliedNow,
            some ⟨run.schema, some { ledger with rows := run.rows }, run.executed⟩) := rfl
      exact .finish hdone

/-- One statement of a call that is not over. -/
theorem evaluates_statement {call next : MigrationCall σ}
    (hnext : platform.migrationStatement release db call = next) (hopen : call.outcome = none)
    (hrest : (platform.migrationTransaction release).Evaluates db next result) :
    (platform.migrationTransaction release).Evaluates db call result := by
  refine .statement hopen ?_
  show (platform.migrationTransaction release).Evaluates db
    (platform.migrationStatement release db call) result
  rwa [hnext]

/-- The statements of one file, and its record. -/
theorem evaluates_executing (path : String × String) (statements rest : List String)
    (hdone : ∀ schema statements',
      runStatements release.exec path.1 run.schema statements rest = .ok (schema, statements') →
      (platform.migrationTransaction release).Evaluates db (.applying ledger applied
        { schema := schema
          rows := run.rows.set path.1 ⟨platform.migrationChecksum path.2, release.now⟩
          executed := run.executed ++ [⟨path.1, statements'⟩]
          appliedNow := run.appliedNow ++ [path.1] } paths) result)
    (hraised : ∀ error,
      runStatements release.exec path.1 run.schema statements rest = .error error →
      result = db.afterCall (.error error)) :
    (platform.migrationTransaction release).Evaluates db
      (.executing ledger applied run path statements rest paths) result := by
  induction rest generalizing run statements with
  | nil =>
      exact evaluates_statement rfl rfl (hdone run.schema statements rfl)
  | cons statement rest ih =>
      cases hexec : release.exec run.schema statement with
      | none =>
          have hstep : platform.migrationStatement release db
              (.executing ledger applied run path statements (statement :: rest) paths) =
              .closed (.error (.statement path.1 statement)) := by
            rw [migrationStatement, hexec]
          have hresult := hraised (.statement path.1 statement) (by rw [runStatements, hexec])
          rw [hresult]
          exact evaluates_statement hstep rfl (evaluates_closed _)
      | some schema =>
          have hstep : platform.migrationStatement release db
              (.executing ledger applied run path statements (statement :: rest) paths) =
              .executing ledger applied { run with schema := schema } path
                (statements ++ [statement]) rest paths := by
            rw [migrationStatement, hexec]
          have hruns : runStatements release.exec path.1 run.schema statements
              (statement :: rest) =
              runStatements release.exec path.1 schema (statements ++ [statement]) rest := by
            rw [runStatements, hexec]
          rw [hruns] at hdone hraised
          exact evaluates_statement hstep rfl (ih _ hdone hraised)

variable (platform release db ledger applied) in
/-- The files of a release, one after the other. -/
theorem evaluates_applying (paths : List (String × String)) (run : MigrationRun σ) :
    (platform.migrationTransaction release).Evaluates db (.applying ledger applied run paths)
      (db.afterCall ((paths.foldlM (platform.applyFile release applied) run).map
        (Prod.mk ledger))) := by
  induction paths generalizing run with
  | nil => exact evaluates_statement rfl rfl (evaluates_closed (.ok (ledger, run)))
  | cons path paths ih =>
      rw [List.foldlM_cons]
      cases happlied : applied.get? path.1 with
      | some recorded =>
          cases hfile : platform.applyFile release applied run path with
          | error error =>
              have hstep : platform.migrationStatement release db
                  (.applying ledger applied run (path :: paths)) = .closed (.error error) := by
                simp only [migrationStatement, happlied, hfile]
              exact evaluates_statement hstep rfl (evaluates_closed (.error error))
          | ok run' =>
              have hstep : platform.migrationStatement release db
                  (.applying ledger applied run (path :: paths)) =
                  .applying ledger applied run' paths := by
                simp only [migrationStatement, happlied, hfile]
              exact evaluates_statement hstep rfl (ih run')
      | none =>
          have hstep : platform.migrationStatement release db
              (.applying ledger applied run (path :: paths)) =
              .executing ledger applied run path [] (migrationStatements path.2) paths := by
            simp only [migrationStatement, happlied]
          refine evaluates_statement hstep rfl (evaluates_executing path [] _ ?_ ?_)
          · intro schema statements hruns
            have hfile : platform.applyFile release applied run path = .ok
                { schema := schema
                  rows := run.rows.set path.1 ⟨platform.migrationChecksum path.2, release.now⟩
                  executed := run.executed ++ [⟨path.1, statements⟩]
                  appliedNow := run.appliedNow ++ [path.1] } := by
              simp only [applyFile, happlied, hruns]
            rw [hfile]
            exact ih _
          · intro error hruns
            have hfile : platform.applyFile release applied run path = .error error := by
              simp only [applyFile, happlied, hruns]
            rw [hfile]
            rfl

theorem applyMigrations_eq (db : Database σ) (release : Release σ) :
    platform.applyMigrations db release = db.afterCall (platform.migrate db release) := by
  rw [applyMigrations]
  cases platform.migrate db release with
  | error error => rfl
  | ok done => rfl

omit [CharacterTables] in
/-- The ledger that is opened is the one there is, or a new one. -/
theorem getD_of_openLedger (hopens : platform.openLedger db = .ok ledger) :
    db.ledger.getD ledger = ledger := by
  cases hledger : db.ledger with
  | none => rfl
  | some found =>
      by_cases hcolumns : ∀ column ∈ ledgerColumns, column ∈ found.columns
      · have hopened : platform.openLedger db = .ok found := by
          simp only [openLedger, hledger, if_pos hcolumns]
        exact Except.ok.inj (hopened.symm.trans hopens)
      · have hraised : platform.openLedger db =
            .error (.runtime "schema_migrations ledger is incompatible or incomplete") := by
          simp only [openLedger, hledger, if_neg hcolumns]
        rw [hraised] at hopens
        simp at hopens

/-- **A call that nothing disturbs is one deployment.** -/
theorem applyMigrations_evaluates (db : Database σ) (release : Release σ) :
    (platform.migrationTransaction release).Evaluates db
      (platform.migrationTransaction release).start (platform.applyMigrations db release) := by
  show (platform.migrationTransaction release).Evaluates db .inspecting _
  rw [applyMigrations_eq, migrate]
  cases hopens : platform.openLedger db with
  | error error =>
      have hstep : platform.migrationStatement release db .inspecting =
          .closed (.error error) := by
        rw [migrationStatement, hopens]
      exact evaluates_statement hstep rfl (evaluates_closed (.error error))
  | ok ledger =>
      have hstep : platform.migrationStatement release db .inspecting = .selecting ledger := by
        rw [migrationStatement, hopens]
      have hfound := getD_of_openLedger hopens
      refine evaluates_statement hstep rfl ?_
      simp only
      split
      · rename_i hunavailable
        refine evaluates_statement ?_ rfl (evaluates_closed _)
        rw [migrationStatement, hfound, if_pos hunavailable]
      · rename_i hunavailable
        have hselect : platform.migrationStatement release db (.selecting ledger) =
            .applying ledger ledger.rows ⟨db.schema, ledger.rows, db.executed, []⟩
              release.migrationPaths := by
          rw [migrationStatement, hfound, if_neg hunavailable]
        have happly := evaluates_applying platform release db ledger ledger.rows
          release.migrationPaths ⟨db.schema, ledger.rows, db.executed, []⟩
        refine evaluates_statement hselect rfl ?_
        cases hfold : release.migrationPaths.foldlM (platform.applyFile release ledger.rows)
            ⟨db.schema, ledger.rows, db.executed, []⟩ with
        | error error =>
            rw [hfold] at happly
            exact happly
        | ok run =>
            rw [hfold] at happly
            exact happly

end Undisturbed

end Platform

section Calls

/-- The database server, as its lock has it. -/
@[reducible] def MigrationServer (σ : Type*) : Type _ :=
  Server (Database σ) (MigrationCall σ) (Except MigrationError (List String)) ℕ

variable [CharacterTables] {platform : Platform σ} {schema : σ} {releases : ℕ → Release σ}
  {moves : List (Move (MigrationServer σ) (ℕ × ClientAction))} {server : MigrationServer σ}

/-- The calls of a deployment: each brings the database up to its own
release. -/
def migrationCalls (platform : Platform σ) (releases : ℕ → Release σ) (call : ℕ) :
    Transaction (Database σ) (MigrationCall σ) (Except MigrationError (List String)) :=
  platform.migrationTransaction (releases call)

theorem replay_applyMigrations (db : Database σ) (calls : List ℕ) :
    replay (fun call db => platform.applyMigrations db (releases call)) db calls =
      platform.deployAll db (calls.map releases) := by
  rw [replay, Platform.deployAll, List.foldl_map]

/-- Later runs forget no file. -/
theorem versions_prefix (hsha : Function.Injective platform.sha256)
    (hempty : platform.tableNames schema = []) (earlier later : List (Release σ)) :
    (platform.deployAll (.unversioned schema) earlier).versions <+:
      (platform.deployAll (.unversioned schema) (earlier ++ later)).versions := by
  induction later using List.reverseRecOn with
  | nil => rw [List.append_nil]
  | append_singleton later release ih =>
      rw [← List.append_assoc]
      refine ih.trans ?_
      cases hreply : (platform.applyMigrations
          (platform.deployAll (.unversioned schema) (earlier ++ later)) release).1 with
      | error error =>
          rw [deployAll_snoc, applyMigrations_error hreply]
      | ok names =>
          rw [(versions_run hempty (tellsApart_of_injective hsha _) hreply).1]
          exact List.prefix_append _ _

/-- No file is executed twice. -/
theorem nodup_versions (hsha : Function.Injective platform.sha256)
    (hempty : platform.tableNames schema = []) (deployed : List (Release σ)) :
    (platform.deployAll (.unversioned schema) deployed).versions.Nodup := by
  obtain ⟨files, hsound, -⟩ := sound_deployAll hempty (tellsApart_of_injective hsha deployed)
  rw [hsound.applied.versions_eq]
  exact hsound.applied.nodup

omit [CharacterTables] in
/-- Two calls of a sequence, in their order. -/
theorem cut_twice {calls earlier earlier' later later' : List ℕ} {call call' : ℕ}
    (hcut : calls = earlier ++ call :: later) (hcut' : calls = earlier' ++ call' :: later')
    (hne : call ≠ call') :
    (∃ between, earlier' = earlier ++ [call] ++ between) ∨
      ∃ between, earlier = earlier' ++ [call'] ++ between := by
  subst hcut
  rcases List.append_eq_append_iff.mp hcut' with ⟨between, rfl, hrest⟩ | ⟨between, rfl, hrest⟩
  · cases between with
    | nil => exact absurd (List.cons.inj hrest).1 hne
    | cons head between =>
        obtain ⟨rfl, -⟩ := List.cons.inj hrest
        exact .inl ⟨between, by rw [List.append_assoc, List.singleton_append]⟩
  · cases between with
    | nil => exact absurd (List.cons.inj hrest).1.symm hne
    | cons head between =>
        obtain ⟨rfl, -⟩ := List.cons.inj hrest
        exact .inr ⟨between, by rw [List.append_assoc, List.singleton_append]⟩

/-- What a later run applies, an earlier one has not. -/
theorem disjoint_names (hsha : Function.Injective platform.sha256)
    (hempty : platform.tableNames schema = []) (earlier between : List (Release σ))
    {release release' : Release σ} {names names' : List String}
    (hnames : (platform.applyMigrations (platform.deployAll (.unversioned schema) earlier)
      release).1 = .ok names)
    (hnames' : (platform.applyMigrations (platform.deployAll (.unversioned schema)
      (earlier ++ [release] ++ between)) release').1 = .ok names') :
    names.Disjoint names' := by
  have hprefix := versions_prefix hsha hempty (earlier ++ [release]) between
  rw [(versions_run hempty (tellsApart_of_injective hsha _) hnames).1] at hprefix
  have hnodup := nodup_versions hsha hempty (earlier ++ [release] ++ between ++ [release'])
  rw [(versions_run hempty (tellsApart_of_injective hsha _) hnames').1] at hnodup
  intro name hname hname'
  have hmem := hprefix.subset (List.mem_append_right _ hname)
  exact (List.disjoint_of_nodup_append hnodup) hmem hname'

/-- The calls that ended have run one after the other, in that order. -/
structure MigratedInTurn (platform : Platform σ) (schema : σ) (releases : ℕ → Release σ)
    (calls : List ℕ) (server : MigrationServer σ) : Prop where
  committed : server.committed =
    platform.deployAll (.unversioned schema) (calls.map releases)
  replies : ∀ call reply, server.phase call = .ended reply → ∃ earlier later,
    calls = earlier ++ call :: later ∧
      reply = (platform.applyMigrations
        (platform.deployAll (.unversioned schema) (earlier.map releases)) (releases call)).1
  once : ∃ files, Shipped (calls.map releases) files ∧
    AppliedOnce platform server.committed files
  schema : Leads (calls.map releases) schema server.committed.statements
    server.committed.schema
  disjoint : ∀ call call' names names', call ≠ call' → server.phase call = .ended (.ok names) →
    server.phase call' = .ended (.ok names') → names.Disjoint names'
  answered : ∀ call,
    server.phase call = .waiting ∨ (∃ at', server.phase call = .working at') →
    ∃ more server', Run (ClientStep (migrationCalls platform releases)) server more server' ∧
      (server'.phase call).Answered

/-- **The lock.**  However the calls interleave and wherever they crash, the
database is where the calls that ended bring it one after the other, each call
replies as in its turn, every file is executed once and reported by one call,
the schema is what its statements lead to, and whoever waits for the lock can
still be answered. -/
theorem migrations_in_turn (hsha : Function.Injective platform.sha256)
    (hempty : platform.tableNames schema = [])
    (h : Run (ClientStep (migrationCalls platform releases)) (.start (.unversioned schema)) moves
      server) :
    MigratedInTurn platform schema releases (ends moves) server := by
  have hrun : ∀ call db, (migrationCalls platform releases call).Evaluates db
      (migrationCalls platform releases call).start
      (platform.applyMigrations db (releases call)) :=
    fun call db => Platform.applyMigrations_evaluates db (releases call)
  have hserial := ExclusiveTransactions.Run.serialized hrun h
  have hcommitted := hserial.committed.trans (replay_applyMigrations _ _)
  have hreplies : ∀ call reply, server.phase call = .ended reply → ∃ earlier later,
      ends moves = earlier ++ call :: later ∧
        reply = (platform.applyMigrations
          (platform.deployAll (.unversioned schema) (earlier.map releases))
          (releases call)).1 := by
    intro call reply hphase
    obtain ⟨earlier, later, hcut, hreply⟩ := hserial.ended call reply hphase
    rw [replay_applyMigrations] at hreply
    exact ⟨earlier, later, hcut, hreply⟩
  obtain ⟨files, hsound, hshipped, hleads⟩ :=
    sound_deployAll hempty (tellsApart_of_injective hsha ((ends moves).map releases))
  rw [← hcommitted] at hsound hleads
  refine ⟨hcommitted, hreplies, ⟨files, hshipped, hsound.applied⟩, hleads, ?_,
    fun call hphase => hserial.can_end hrun hphase⟩
  · intro call call' names names' hne hphase hphase'
    obtain ⟨earlier, later, hcut, hreply⟩ := hreplies call _ hphase
    obtain ⟨earlier', later', hcut', hreply'⟩ := hreplies call' _ hphase'
    rcases cut_twice hcut hcut' hne with ⟨between, rfl⟩ | ⟨between, rfl⟩
    · rw [List.map_append, List.map_append, List.map_singleton] at hreply'
      exact disjoint_names hsha hempty _ _ hreply.symm hreply'.symm
    · rw [List.map_append, List.map_append, List.map_singleton] at hreply
      exact (disjoint_names hsha hempty _ _ hreply'.symm hreply.symm).symm

end Calls

section Sample

/-- One instance crashes in its first file, while another one waits. -/
theorem crashed_run :
    let := asciiTables
    ∃ moves server, Run (ClientStep (migrationCalls samplePlatform fun _ => earlyRelease))
        (.start (.unversioned [])) moves server ∧
      ends moves = [1] ∧ server.phase 0 = .lost := by
  intro _
  have hcrash : Run (ClientStep (migrationCalls samplePlatform fun _ => earlyRelease))
      (.start (.unversioned [])) _ _ :=
    ((((((Run.nil.snoc (.ask rfl : ClientStep _ _ (0, .ask) _)).snoc
      (.ask rfl : ClientStep _ _ (1, .ask) _)).snoc
      (.grant rfl rfl : ClientStep _ _ (0, .grant) _)).snoc
      (.statement rfl rfl : ClientStep _ _ (0, .statement) _)).snoc
      (.statement rfl rfl : ClientStep _ _ (0, .statement) _)).snoc
      (.statement rfl rfl : ClientStep _ _ (0, .statement) _)).snoc
      (.crash (by simp [Server.move]) : ClientStep _ _ (0, .crash) _)
  have hread := ((hcrash.snoc (.grant rfl rfl : ClientStep _ _ (1, .grant) _)).snoc
    (.statement rfl rfl : ClientStep _ _ (1, .statement) _)).snoc
    (.statement rfl rfl : ClientStep _ _ (1, .statement) _)
  have hexecute := (((hread.snoc (.statement rfl rfl : ClientStep _ _ (1, .statement) _)).snoc
    (.statement rfl rfl : ClientStep _ _ (1, .statement) _)).snoc
    (.statement rfl rfl : ClientStep _ _ (1, .statement) _)).snoc
    (.statement rfl rfl : ClientStep _ _ (1, .statement) _)
  have hfinish := hexecute.snoc (.finish rfl rfl : ClientStep _ _ (1, .finish) _)
  exact ⟨_, _, hfinish, by simp [ends], rfl⟩

/-- The one that waited runs as if it had been alone. -/
theorem migrations_in_turn_crash :
    let := asciiTables
    ∃ moves server, Run (ClientStep (migrationCalls samplePlatform fun _ => earlyRelease))
        (.start (.unversioned [])) moves server ∧
      ends moves = [1] ∧ server.phase 0 = .lost ∧
      MigratedInTurn samplePlatform [] (fun _ => earlyRelease) [1] server := by
  intro _
  obtain ⟨moves, server, hrun, hends, hlost⟩ := crashed_run
  refine ⟨moves, server, hrun, hends, hlost, ?_⟩
  rw [← hends]
  exact migrations_in_turn sampleSha256_injective rfl hrun

end Sample

end EventAlpha
