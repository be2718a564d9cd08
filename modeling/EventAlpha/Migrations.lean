import EventAlpha.InsertionDict
import EventAlpha.KeyedOrder
import EventAlpha.TitleFingerprint
import EventAlpha.Contracts
import EventAlpha.DelimitedTexts
import Mathlib.Data.String.Basic

/-!
# The migration runner

`apply_migrations` brings a database up to the `*.sql` files of a release in
one transaction.  The ledger `schema_migrations` records each applied file with
the checksum of its text under `\n` line endings.

A file is its decoded text; its bytes are the UTF-8 encoding of that text.
What is outside the program are parameters: the hash, the names of the tables
of a schema, and what a statement does to a schema.  Statements act on the
schema alone, so no file touches the ledger or the transaction.

`Database.executed` is a ghost: the files whose statements ran in committed
state, each with the statements that ran.
-/

namespace EventAlpha

open KeyedOrder

/-- The line endings of `read_text`: each of the three styles is read as `\n`. -/
def universalNewlines : List Char → List Char
  | [] => []
  | '\r' :: '\n' :: rest => '\n' :: universalNewlines rest
  | c :: rest => (if c = '\r' then '\n' else c) :: universalNewlines rest

/-- `text.replace("\r\n", "\n")`. -/
def replaceCrlf : List Char → List Char
  | [] => []
  | '\r' :: '\n' :: rest => '\n' :: replaceCrlf rest
  | c :: rest => c :: replaceCrlf rest

/-- The text a checksum is taken of. -/
def canonicalText (text : String) : String :=
  String.ofList (replaceCrlf (universalNewlines text.toList))

/-- Two texts with the same lines, whatever ends them. -/
def SameLines (text text' : String) : Prop :=
  universalNewlines text.toList = universalNewlines text'.toList

instance (text text' : String) : Decidable (SameLines text text') := by
  unfold SameLines; infer_instance

theorem notMem_universalNewlines (text : List Char) : '\r' ∉ universalNewlines text := by
  fun_induction universalNewlines text with
  | case1 => simp
  | case2 rest ih => simp [ih]
  | case3 c rest hnot ih =>
      rw [List.mem_cons, not_or]
      refine ⟨?_, ih⟩
      by_cases hc : c = '\r'
      · simp [hc]
      · rw [if_neg hc]
        exact fun heq => hc heq.symm

theorem replaceCrlf_of_notMem {text : List Char} (h : '\r' ∉ text) : replaceCrlf text = text := by
  fun_induction replaceCrlf text with
  | case1 => rfl
  | case2 rest ih => simp at h
  | case3 c rest hnot ih => rw [ih (fun hmem => h (List.mem_cons_of_mem c hmem))]

theorem universalNewlines_of_notMem {text : List Char} (h : '\r' ∉ text) :
    universalNewlines text = text := by
  fun_induction universalNewlines text with
  | case1 => rfl
  | case2 rest ih => simp at h
  | case3 c rest hnot ih =>
      have hc : c ≠ '\r' := fun heq => h (heq ▸ List.mem_cons_self)
      rw [ih (fun hmem => h (List.mem_cons_of_mem c hmem)), if_neg hc]

/-- Reading keeps every character but the carriage returns. -/
theorem mem_universalNewlines {text : List Char} {c : Char} (hc : c ≠ '\r') (h : c ∈ text) :
    c ∈ universalNewlines text := by
  fun_induction universalNewlines text with
  | case1 => exact h
  | case2 rest ih =>
      rcases List.mem_cons.mp h with heq | hrest
      · exact absurd heq hc
      · rcases List.mem_cons.mp hrest with rfl | hmem
        · exact List.mem_cons_self
        · exact List.mem_cons_of_mem _ (ih hmem)
  | case3 d rest hnot ih =>
      rcases List.mem_cons.mp h with rfl | hmem
      · rw [if_neg hc]
        exact List.mem_cons_self
      · exact List.mem_cons_of_mem _ (ih hmem)

/-- What holds of the two characters of line ends holds of a text if it does of what
is read. -/
theorem forall_universalNewlines_iff {text : List Char} {p : Char → Prop} (hreturn : p '\r')
    (hnewline : p '\n') : (∀ c ∈ universalNewlines text, p c) ↔ ∀ c ∈ text, p c := by
  fun_induction universalNewlines text with
  | case1 => rfl
  | case2 rest ih => simp [hreturn, hnewline, ih]
  | case3 c rest hnot ih =>
      rw [List.forall_mem_cons, List.forall_mem_cons, ih]
      by_cases hc : c = '\r'
      · simp [hc, hreturn, hnewline]
      · rw [if_neg hc]

/-- Two texts are read one after the other unless a line ends where they meet. -/
theorem universalNewlines_append {text rest : List Char}
    (h : text.getLast? ≠ some '\r' ∨ rest.head? ≠ some '\n') :
    universalNewlines (text ++ rest) = universalNewlines text ++ universalNewlines rest := by
  fun_induction universalNewlines text with
  | case1 => rfl
  | case2 text ih =>
      have hlast : text.getLast? ≠ some '\r' ∨ rest.head? ≠ some '\n' := by
        refine h.imp_left (fun hne heq => hne ?_)
        rw [List.getLast?_cons_cons, List.getLast?_cons, heq]
        rfl
      rw [List.cons_append, List.cons_append, universalNewlines, ih hlast]
      rfl
  | case3 c text hnot ih =>
      have hlast : text.getLast? ≠ some '\r' ∨ rest.head? ≠ some '\n' := by
        refine h.imp_left (fun hne heq => hne ?_)
        rw [List.getLast?_cons, heq]
        rfl
      rw [List.cons_append, universalNewlines.eq_3 c (text ++ rest) ?_, ih hlast]
      · rfl
      · rintro more rfl hmore
        cases text with
        | nil =>
            rcases h with hne | hne
            · exact hne rfl
            · exact hne (by rw [List.nil_append] at hmore; rw [hmore]; rfl)
        | cons d text =>
            obtain ⟨rfl, -⟩ := List.cons.inj hmore
            exact hnot text rfl rfl

/-- Reading has already replaced what `replace` looks for. -/
theorem canonicalText_eq (text : String) :
    canonicalText text = String.ofList (universalNewlines text.toList) := by
  rw [canonicalText, replaceCrlf_of_notMem (notMem_universalNewlines text.toList)]

/-- A canonical text is its own. -/
theorem canonicalText_idem (text : String) :
    canonicalText (canonicalText text) = canonicalText text := by
  rw [canonicalText_eq (canonicalText text), canonicalText_eq text, String.toList_ofList,
    universalNewlines_of_notMem (notMem_universalNewlines text.toList)]

theorem canonicalText_eq_iff {text text' : String} :
    canonicalText text = canonicalText text' ↔ SameLines text text' := by
  rw [canonicalText_eq, canonicalText_eq, SameLines, String.ofList_inj]

section Statements

variable [CharacterTables]

/-- `statement.strip()`. -/
def stripStatement (text : List Char) : List Char :=
  DelimitedTexts.strip CharacterTables.isspace text

/-- `_migration_statements`: the pieces between semicolons, without blank ones
and without the words that would end the transaction of the run. -/
def migrationStatements (text : String) : List String :=
  let pieces := ((universalNewlines text.toList).splitOn ';').map stripStatement
  let statements := pieces.filter (fun piece => piece ≠ [])
  (statements.filter (fun statement =>
    statement.flatMap CharacterTables.upper ∉ ["BEGIN".toList, "COMMIT".toList])).map
      String.ofList

end Statements

/-- A row of `schema_migrations`, filed under its version. -/
structure LedgerRow where
  checksum : String
  appliedAt : UtcDatetime
  deriving DecidableEq

/-- The table `schema_migrations`. -/
structure LedgerTable where
  columns : List String
  rows : InsertionDict String LedgerRow

/-- A file whose statements ran, with those that did. -/
structure FileRun where
  version : String
  statements : List String
  deriving DecidableEq

/-- A database: its schema, its ledger if it has one, and what was executed to
get there. -/
structure Database (σ : Type*) where
  schema : σ
  ledger : Option LedgerTable
  executed : List FileRun

/-- What a run is given: the `*.sql` files of its directory, as `glob` yields
them, the time of its transaction, and what statements do meanwhile. -/
structure Release (σ : Type*) where
  directory : InsertionDict String String
  now : UtcDatetime
  exec : σ → String → Option σ

/-- `migration_paths`: the files in order of name. -/
def Release.migrationPaths {σ : Type*} (release : Release σ) : List (String × String) :=
  sortedBy Prod.fst release.directory.entries

/-- The hash and the inspector. -/
structure Platform (σ : Type*) where
  sha256 : ByteArray → String
  tableNames : σ → List String

/-- What a run raises. -/
inductive MigrationError
  | runtime (message : String)
  | statement (version statement : String)
  deriving DecidableEq

/-- `DOMAIN_TABLES`. -/
def domainTables : List String :=
  ["sources", "raw_items", "events", "event_mentions", "providers", "instruments",
    "market_bar_observations", "market_quote_observations", "provider_state"]

/-- The columns of the ledger, as the run creates and requires them. -/
def ledgerColumns : List String := ["version", "checksum", "applied_at"]

variable {σ : Type*}

/-- The rows of the ledger, none before it exists. -/
def Database.rows (db : Database σ) : InsertionDict String LedgerRow :=
  (db.ledger.map LedgerTable.rows).getD .empty

/-- The executions of one file. -/
def Database.executions (db : Database σ) (version : String) : List FileRun :=
  db.executed.filter (fun run => run.version = version)

/-- A database nothing was applied to. -/
def Database.unversioned (schema : σ) : Database σ := ⟨schema, none, []⟩

/-- What the transaction of a run has done so far. -/
structure MigrationRun (σ : Type*) where
  schema : σ
  rows : InsertionDict String LedgerRow
  executed : List FileRun
  appliedNow : List String

/-- The statements of one file, one after the other. -/
def runStatements (exec : σ → String → Option σ) (version : String) :
    σ → List String → List String → Except MigrationError (σ × List String)
  | schema, done, [] => .ok (schema, done)
  | schema, done, statement :: rest =>
      match exec schema statement with
      | none => .error (.statement version statement)
      | some schema' => runStatements exec version schema' (done ++ [statement]) rest

namespace Platform

variable (platform : Platform σ)

/-- `migration_checksum`. -/
def migrationChecksum (text : String) : String :=
  platform.sha256 (canonicalText text).toUTF8

/-- `_legacy_byte_checksum`. -/
def legacyByteChecksum (text : String) : String :=
  platform.sha256 text.toUTF8

/-- Create the ledger of an empty schema, or check the one there is. -/
def openLedger (db : Database σ) : Except MigrationError LedgerTable :=
  match db.ledger with
  | none =>
      let unversioned := (platform.tableNames db.schema).filter (fun table =>
        table ∈ domainTables)
      if unversioned ≠ [] then
        .error (.runtime ("Refusing to bless an unversioned EventAlpha schema; found: " ++
          ", ".intercalate (sortedBy id unversioned)))
      else .ok ⟨ledgerColumns, .empty⟩
  | some ledger =>
      if ∀ column ∈ ledgerColumns, column ∈ ledger.columns then .ok ledger
      else .error (.runtime "schema_migrations ledger is incompatible or incomplete")

variable [CharacterTables]

/-- One file of the release: checked against its record, or executed and
recorded. -/
def applyFile (release : Release σ) (applied : InsertionDict String LedgerRow)
    (run : MigrationRun σ) (path : String × String) : Except MigrationError (MigrationRun σ) :=
  match applied.get? path.1 with
  | some recorded =>
      if recorded.checksum ≠ platform.migrationChecksum path.2 then
        if recorded.checksum ≠ platform.legacyByteChecksum path.2 then
          .error (.runtime ("Applied migration checksum changed: " ++ path.1))
        else
          let row := { recorded with checksum := platform.migrationChecksum path.2 }
          .ok { run with rows := run.rows.set path.1 row }
      else .ok run
  | none =>
      match runStatements release.exec path.1 run.schema [] (migrationStatements path.2) with
      | .error error => .error error
      | .ok (schema, statements) => .ok
          { schema := schema
            rows := run.rows.set path.1 ⟨platform.migrationChecksum path.2, release.now⟩
            executed := run.executed ++ [⟨path.1, statements⟩]
            appliedNow := run.appliedNow ++ [path.1] }

/-- The transaction of a run. -/
def migrate (db : Database σ) (release : Release σ) :
    Except MigrationError (LedgerTable × MigrationRun σ) :=
  match platform.openLedger db with
  | .error error => .error error
  | .ok ledger =>
      let unavailable := ledger.rows.keys.filter (fun version =>
        version ∉ release.directory.keys)
      if unavailable ≠ [] then
        .error (.runtime ("Database contains migrations unavailable to this release: " ++
          ", ".intercalate (sortedBy id unavailable)))
      else
        match release.migrationPaths.foldlM (platform.applyFile release ledger.rows)
          ⟨db.schema, ledger.rows, db.executed, []⟩ with
        | .error error => .error error
        | .ok run => .ok (ledger, run)

/-- `apply_migrations`: the names it returns or what it raises, and the
database it leaves; what raises is rolled back. -/
def applyMigrations (db : Database σ) (release : Release σ) :
    Except MigrationError (List String) × Database σ :=
  match platform.migrate db release with
  | .error error => (.error error, db)
  | .ok (ledger, run) =>
      (.ok run.appliedNow, ⟨run.schema, some { ledger with rows := run.rows }, run.executed⟩)

/-- One run after the other. -/
def deployAll (db : Database σ) (releases : List (Release σ)) : Database σ :=
  releases.foldl (fun reached release => (platform.applyMigrations reached release).2) db

end Platform

end EventAlpha
