import EventAlpha.Migrations
import EventAlpha.RunLog

/-!
# Deployment histories

What a database looks like after any number of runs of the migration runner,
over directories that grow, shrink, change or fail midway.

`AppliedOnce` is the invariant: the ledger and the executed statements are
those of one list of files, each applied once, and the schema is what these
statements lead to (`Leads`).  `Sound.applyMigrations_iff` says what a run does to
such a database, and everything else is read off it.

The checksums have to tell the texts of a name apart (`ChecksumsTell`).  They do if the
hash is injective: the old checksum of the bytes then never decides, since a
ledger that only the runner wrote holds checksums of canonical texts, and bytes
with such a checksum are a canonical text (`legacyByteChecksum_eq`).  They also do
if a name always has one text.
-/

namespace EventAlpha

open KeyedOrder RunLog

variable {σ : Type*}

section Statements

/-- A sequence succeeds when both its parts do. -/
theorem bind_eq_ok_iff {ε : Type*} {α β : Type _} {first : Except ε α}
    {next : α → Except ε β} {b : β} :
    (first >>= next) = .ok b ↔ ∃ a, first = .ok a ∧ next a = .ok b := by
  cases first with
  | error error =>
      refine iff_of_false (fun h => nomatch h) ?_
      intro hex
      obtain ⟨a, ha, -⟩ := hex
      exact absurd ha (by simp)
  | ok a =>
      constructor
      · intro h
        exact ⟨a, rfl, h⟩
      · intro hex
        obtain ⟨a', ha, hb⟩ := hex
        rwa [← Except.ok.inj ha] at hb

theorem runStatements_eq_ok_iff {exec : σ → String → Option σ} {version : String}
    {schema schema' : σ} {done done' statements : List String} :
    runStatements exec version schema done statements = .ok (schema', done') ↔
      statements.foldlM exec schema = some schema' ∧ done' = done ++ statements := by
  induction statements generalizing schema done with
  | nil =>
      rw [runStatements, List.foldlM_nil, List.append_nil]
      simp [eq_comm]
  | cons statement rest ih =>
      rw [runStatements, List.foldlM_cons]
      cases hexec : exec schema statement with
      | none => simp
      | some middle =>
          simp only [Option.bind_eq_bind, Option.bind_some]
          rw [ih, List.append_assoc]
          rfl

end Statements

namespace Platform

variable {platform : Platform σ}

theorem migrationChecksum_inj (hsha : Function.Injective platform.sha256) {text text' : String} :
    platform.migrationChecksum text = platform.migrationChecksum text' ↔ SameLines text text' := by
  rw [migrationChecksum, migrationChecksum, hsha.eq_iff, ← canonicalText_eq_iff]
  exact String.toByteArray_inj

/-- Bytes with the checksum of a canonical text are that text. -/
theorem legacyByteChecksum_eq (hsha : Function.Injective platform.sha256) {text text' : String}
    (h : platform.legacyByteChecksum text = platform.migrationChecksum text') :
    platform.migrationChecksum text = platform.migrationChecksum text' := by
  have htext : text = canonicalText text' := String.toByteArray_inj.mp (hsha h)
  rw [migrationChecksum, migrationChecksum, htext, canonicalText_idem]

/-- The checksum is one of the lines. -/
theorem migrationChecksum_congr {text text' : String} (h : SameLines text text') :
    platform.migrationChecksum text = platform.migrationChecksum text' := by
  rw [migrationChecksum, migrationChecksum, canonicalText_eq_iff.mpr h]

end Platform

section Paths

/-- The files of a release that are not recorded, in order of name. -/
def Release.newFiles (release : Release σ) (rows : InsertionDict String LedgerRow) :
    List (String × String) :=
  release.migrationPaths.filter (fun path => rows.get? path.1 = none)

theorem Release.mem_migrationPaths {release : Release σ} {path : String × String} :
    path ∈ release.migrationPaths ↔ release.directory.get? path.1 = some path.2 := by
  rw [migrationPaths, mem_sortedBy, InsertionDict.get?_eq_some_iff]

theorem Release.mem_newFiles {release : Release σ} {rows : InsertionDict String LedgerRow}
    {path : String × String} :
    path ∈ release.newFiles rows ↔
      release.directory.get? path.1 = some path.2 ∧ rows.get? path.1 = none := by
  rw [newFiles, List.mem_filter, Release.mem_migrationPaths, decide_eq_true_iff]

theorem Release.nodup_migrationPaths (release : Release σ) :
    (release.migrationPaths.map Prod.fst).Nodup :=
  ((sortedBy_perm _ _).map Prod.fst).nodup_iff.mpr release.directory.nodup_keys

theorem Release.nodup_newFiles (release : Release σ) (rows : InsertionDict String LedgerRow) :
    ((release.newFiles rows).map Prod.fst).Nodup :=
  release.nodup_migrationPaths.sublist (List.filter_sublist.map Prod.fst)

/-- The new files come in order of name. -/
theorem Release.newFiles_sorted (release : Release σ) (rows : InsertionDict String LedgerRow) :
    ((release.newFiles rows).map Prod.fst).Pairwise (fun name name' => name < name') := by
  have hle : ((release.newFiles rows).map Prod.fst).Pairwise (fun name name' => name ≤ name') :=
    List.pairwise_map.mpr ((sortedBy_sorted Prod.fst release.directory.entries).sublist
      List.filter_sublist)
  exact hle.imp₂ (fun _ _ hle hne => lt_of_le_of_ne hle hne) (release.nodup_newFiles rows)

end Paths

section Files

variable [CharacterTables]

/-- What is executed of a file. -/
def fileRun (file : String × String) : FileRun := ⟨file.1, migrationStatements file.2⟩

/-- Their statements, in the order of execution. -/
def Release.newStatements (release : Release σ) (rows : InsertionDict String LedgerRow) :
    List String :=
  (release.newFiles rows).flatMap (fun file => migrationStatements file.2)

/-- Every file applied before is in the directory with the same lines. -/
def Unchanged (files : List (String × String)) (directory : InsertionDict String String) : Prop :=
  ∀ file ∈ files, ∃ text, directory.get? file.1 = some text ∧ SameLines file.2 text

/-- A text under the name of a file has its checksum, be it of the lines or of the
bytes, only if it has its lines. -/
def ChecksumsTell (platform : Platform σ) (files : List (String × String))
    (directory : InsertionDict String String) : Prop :=
  ∀ file ∈ files, ∀ text, directory.get? file.1 = some text →
    platform.migrationChecksum file.2 = platform.migrationChecksum text ∨
      platform.migrationChecksum file.2 = platform.legacyByteChecksum text →
    SameLines file.2 text

/-- Record files in the ledger. -/
def Platform.recordAll (platform : Platform σ) (now : UtcDatetime)
    (rows : InsertionDict String LedgerRow) (files : List (String × String)) :
    InsertionDict String LedgerRow :=
  files.foldl (fun rows file => rows.set file.1 ⟨platform.migrationChecksum file.2, now⟩) rows

variable {platform : Platform σ}

omit [CharacterTables] in
theorem tells_of_injective (hsha : Function.Injective platform.sha256)
    (files : List (String × String)) (directory : InsertionDict String String) :
    ChecksumsTell platform files directory := by
  intro file _ text _ hchecksum
  rcases hchecksum with hlines | hbytes
  · exact (Platform.migrationChecksum_inj hsha).mp hlines
  · have hsame := Platform.legacyByteChecksum_eq hsha hbytes.symm
    exact (Platform.migrationChecksum_inj hsha).mp hsame.symm

omit [CharacterTables] in
theorem get?_recordAll_of_notMem {now : UtcDatetime} {rows : InsertionDict String LedgerRow}
    {files : List (String × String)} {version : String}
    (h : version ∉ files.map Prod.fst) :
    (platform.recordAll now rows files).get? version = rows.get? version := by
  induction files generalizing rows with
  | nil => rfl
  | cons file rest ih =>
      rw [List.map_cons, List.mem_cons, not_or] at h
      obtain ⟨hne, hrest⟩ := h
      show (platform.recordAll now (rows.set file.1 _) rest).get? version = _
      rw [ih hrest, InsertionDict.get?_set_of_ne _ _ hne]

omit [CharacterTables] in
theorem get?_recordAll_of_mem {now : UtcDatetime} {rows : InsertionDict String LedgerRow}
    {files : List (String × String)} {file : String × String}
    (hnodup : (files.map Prod.fst).Nodup) (h : file ∈ files) :
    (platform.recordAll now rows files).get? file.1 =
      some ⟨platform.migrationChecksum file.2, now⟩ := by
  induction files generalizing rows with
  | nil => simp at h
  | cons head rest ih =>
      rw [List.map_cons, List.nodup_cons] at hnodup
      obtain ⟨hhead, hrest⟩ := hnodup
      show (platform.recordAll now (rows.set head.1 _) rest).get? file.1 = _
      rcases List.mem_cons.mp h with rfl | hmem
      · rw [get?_recordAll_of_notMem hhead, InsertionDict.get?_set_self]
      · exact ih hrest hmem

/-- A recorded file whose bytes do not decide passes exactly when its checksum is
the recorded one, and then changes nothing. -/
theorem applyFile_known {release : Release σ} {applied : InsertionDict String LedgerRow}
    {run run' : MigrationRun σ} {path : String × String} {recorded : LedgerRow}
    (happlied : applied.get? path.1 = some recorded)
    (hbytes : recorded.checksum = platform.legacyByteChecksum path.2 →
      recorded.checksum = platform.migrationChecksum path.2) :
    platform.applyFile release applied run path = .ok run' ↔
      recorded.checksum = platform.migrationChecksum path.2 ∧ run' = run := by
  unfold Platform.applyFile
  rw [happlied]
  simp only
  by_cases hsame : recorded.checksum = platform.migrationChecksum path.2
  · rw [if_neg (not_not.mpr hsame)]
    simp [hsame, eq_comm]
  · have hlegacy : recorded.checksum ≠ platform.legacyByteChecksum path.2 :=
      fun heq => hsame (hbytes heq)
    rw [if_pos hsame, if_pos hlegacy]
    simp [hsame]

/-- A new file is executed and recorded. -/
theorem applyFile_new {release : Release σ} {applied : InsertionDict String LedgerRow}
    {run run' : MigrationRun σ} {path : String × String}
    (happlied : applied.get? path.1 = none) :
    platform.applyFile release applied run path = .ok run' ↔
      (migrationStatements path.2).foldlM release.exec run.schema = some run'.schema ∧
      run'.rows = run.rows.set path.1 ⟨platform.migrationChecksum path.2, release.now⟩ ∧
      run'.executed = run.executed ++ [fileRun path] ∧
      run'.appliedNow = run.appliedNow ++ [path.1] := by
  unfold Platform.applyFile
  rw [happlied]
  simp only
  cases hrun : runStatements release.exec path.1 run.schema [] (migrationStatements path.2) with
  | error error =>
      refine iff_of_false (by simp) ?_
      intro hand
      have hok : runStatements release.exec path.1 run.schema [] (migrationStatements path.2) =
          .ok (_, _) :=
        runStatements_eq_ok_iff.mpr ⟨hand.1, rfl⟩
      rw [hrun] at hok
      exact absurd hok (by simp)
  | ok result =>
      obtain ⟨schema, statements⟩ := result
      obtain ⟨hexec, rfl⟩ := runStatements_eq_ok_iff.mp hrun
      rw [hexec, List.nil_append]
      obtain ⟨schema', rows', executed', appliedNow'⟩ := run'
      simp only [Except.ok.injEq, MigrationRun.mk.injEq, Option.some.injEq, fileRun]
      constructor
      · intro hand
        obtain ⟨hschema, hrows, hexecuted, hnames⟩ := hand
        exact ⟨hschema, hrows.symm, hexecuted.symm, hnames.symm⟩
      · intro hand
        obtain ⟨hschema, hrows, hexecuted, hnames⟩ := hand
        exact ⟨hschema, hrows.symm, hexecuted.symm, hnames.symm⟩

/-- What the loop does to a run: recorded files still have their checksum, and
those that are not recorded are executed and recorded one after the other. -/
structure AppliesFiles (platform : Platform σ) (release : Release σ)
    (applied : InsertionDict String LedgerRow) (paths : List (String × String))
    (run run' : MigrationRun σ) : Prop where
  checked : ∀ path ∈ paths, ∀ row, applied.get? path.1 = some row →
    row.checksum = platform.migrationChecksum path.2
  schema : ((paths.filter (fun path => applied.get? path.1 = none)).flatMap
    (fun file => migrationStatements file.2)).foldlM release.exec run.schema = some run'.schema
  rows : run'.rows = platform.recordAll release.now run.rows
    (paths.filter (fun path => applied.get? path.1 = none))
  executed : run'.executed = run.executed ++
    (paths.filter (fun path => applied.get? path.1 = none)).map fileRun
  appliedNow : run'.appliedNow = run.appliedNow ++
    (paths.filter (fun path => applied.get? path.1 = none)).map Prod.fst

section Loop

variable {release : Release σ} {applied : InsertionDict String LedgerRow}
  {path : String × String} {rest : List (String × String)} {run run' : MigrationRun σ}

theorem appliesFiles_nil_iff : AppliesFiles platform release applied [] run run' ↔ run' = run := by
  obtain ⟨schema, rows, executed, appliedNow⟩ := run
  obtain ⟨schema', rows', executed', appliedNow'⟩ := run'
  constructor
  · intro h
    obtain ⟨-, hschema, hrows, hexecuted, hnames⟩ := h
    simp only [List.filter_nil, List.map_nil, List.append_nil] at hrows hexecuted hnames
    have hsame : schema' = schema := (Option.some.inj hschema).symm
    rw [hsame, hrows, hexecuted, hnames]
    rfl
  · intro h
    rw [h]
    exact ⟨by simp, rfl, rfl, by simp, by simp⟩

/-- A recorded file is only checked. -/
theorem appliesFiles_known {recorded : LedgerRow}
    (happlied : applied.get? path.1 = some recorded) :
    AppliesFiles platform release applied (path :: rest) run run' ↔
      recorded.checksum = platform.migrationChecksum path.2 ∧
        AppliesFiles platform release applied rest run run' := by
  have hskip : (path :: rest).filter (fun path => applied.get? path.1 = none) =
      rest.filter (fun path => applied.get? path.1 = none) :=
    List.filter_cons_of_neg (by simp [happlied])
  constructor
  · intro h
    obtain ⟨hchecked, hschema, hrows, hexecuted, hnames⟩ := h
    rw [hskip] at hschema hrows hexecuted hnames
    obtain ⟨hfile, hrest⟩ := List.forall_mem_cons.mp hchecked
    exact ⟨hfile recorded happlied, hrest, hschema, hrows, hexecuted, hnames⟩
  · intro hand
    obtain ⟨hsame, hchecked, hschema, hrows, hexecuted, hnames⟩ := hand
    rw [← hskip] at hschema hrows hexecuted hnames
    refine ⟨List.forall_mem_cons.mpr ⟨?_, hchecked⟩, hschema, hrows, hexecuted, hnames⟩
    intro row hrow
    rwa [← Option.some.inj (happlied.symm.trans hrow)]

/-- A file that is not recorded is applied before the others. -/
theorem appliesFiles_new (happlied : applied.get? path.1 = none) :
    AppliesFiles platform release applied (path :: rest) run run' ↔
      ∃ middle, platform.applyFile release applied run path = .ok middle ∧
        AppliesFiles platform release applied rest middle run' := by
  have htake : (path :: rest).filter (fun path => applied.get? path.1 = none) =
      path :: rest.filter (fun path => applied.get? path.1 = none) :=
    List.filter_cons_of_pos (by simp [happlied])
  constructor
  · intro h
    obtain ⟨hchecked, hschema, hrows, hexecuted, hnames⟩ := h
    rw [htake] at hschema hrows hexecuted hnames
    rw [List.flatMap_cons, List.foldlM_append] at hschema
    obtain ⟨schema, hfirst, hlast⟩ := Option.bind_eq_some_iff.mp hschema
    refine ⟨⟨schema, run.rows.set path.1
      ⟨platform.migrationChecksum path.2, release.now⟩, run.executed ++ [fileRun path],
      run.appliedNow ++ [path.1]⟩, (applyFile_new happlied).mpr ⟨hfirst, rfl, rfl, rfl⟩,
      (List.forall_mem_cons.mp hchecked).2, hlast, hrows, ?_, ?_⟩
    · rw [hexecuted, List.append_assoc, List.map_cons, List.singleton_append]
    · rw [hnames, List.append_assoc, List.map_cons, List.singleton_append]
  · intro hex
    obtain ⟨middle, hfile, hchecked, hschema, hrows, hexecuted, hnames⟩ := hex
    obtain ⟨hfirst, hrows', hexecuted', hnames'⟩ := (applyFile_new happlied).mp hfile
    refine ⟨List.forall_mem_cons.mpr ⟨by simp [happlied], hchecked⟩, ?_, ?_, ?_, ?_⟩
    · rw [htake, List.flatMap_cons, List.foldlM_append, hfirst]
      exact hschema
    · rw [htake, hrows, hrows']
      rfl
    · rw [htake, hexecuted, hexecuted', List.append_assoc, List.map_cons, List.singleton_append]
    · rw [htake, hnames, hnames', List.append_assoc, List.map_cons, List.singleton_append]

/-- **The loop.**  Where the bytes do not decide, it succeeds exactly when every
recorded file still has its checksum and the statements of the new ones succeed. -/
theorem applyFiles_iff {paths : List (String × String)}
    (hbytes : ∀ path ∈ paths, ∀ row, applied.get? path.1 = some row →
      row.checksum = platform.legacyByteChecksum path.2 →
      row.checksum = platform.migrationChecksum path.2) :
    paths.foldlM (platform.applyFile release applied) run = .ok run' ↔
      AppliesFiles platform release applied paths run run' := by
  induction paths generalizing run with
  | nil =>
      rw [appliesFiles_nil_iff, List.foldlM_nil]
      exact ⟨fun h => (Except.ok.inj h).symm, fun h => congrArg Except.ok h.symm⟩
  | cons path rest ih =>
      obtain ⟨hfile, hrest⟩ := List.forall_mem_cons.mp hbytes
      rw [List.foldlM_cons, bind_eq_ok_iff]
      cases happlied : applied.get? path.1 with
      | some recorded =>
          have hknown : ∀ middle, platform.applyFile release applied run path = .ok middle ↔ _ :=
            fun middle => applyFile_known happlied (hfile recorded happlied)
          rw [appliesFiles_known happlied]
          constructor
          · intro hex
            obtain ⟨middle, hpath, hloop⟩ := hex
            obtain ⟨hsame, rfl⟩ := (hknown middle).mp hpath
            exact ⟨hsame, (ih hrest).mp hloop⟩
          · intro hand
            exact ⟨run, (hknown run).mpr ⟨hand.1, rfl⟩, (ih hrest).mpr hand.2⟩
      | none =>
          rw [appliesFiles_new happlied]
          exact exists_congr (fun middle => and_congr Iff.rfl (ih hrest))

end Loop

end Files

section Invariant

variable [CharacterTables] {platform : Platform σ}

/-- Ledger and executed statements are those of a list of files, each applied
once and in that order. -/
structure AppliedOnce (platform : Platform σ) (db : Database σ)
    (files : List (String × String)) : Prop where
  nodup : (files.map Prod.fst).Nodup
  recorded : ∀ version checksum,
    (db.rows.get? version).map LedgerRow.checksum = some checksum ↔
      ∃ text, (version, text) ∈ files ∧ platform.migrationChecksum text = checksum
  executed : db.executed = files.map fileRun

namespace AppliedOnce

variable {db : Database σ} {files : List (String × String)}

/-- A version is not recorded when no file has it. -/
theorem get?_eq_none_iff (h : AppliedOnce platform db files) {version : String} :
    db.rows.get? version = none ↔ version ∉ files.map Prod.fst := by
  constructor
  · intro hnone hmem
    obtain ⟨⟨version', text⟩, hfile, rfl⟩ := List.mem_map.mp hmem
    have hrow := (h.recorded version' _).mpr ⟨text, hfile, rfl⟩
    rw [hnone] at hrow
    exact absurd hrow (by simp)
  · intro hnot
    cases hrow : db.rows.get? version with
    | none => rfl
    | some row =>
        obtain ⟨text, hfile, -⟩ := (h.recorded version row.checksum).mp (by rw [hrow]; rfl)
        exact absurd (List.mem_map.mpr ⟨_, hfile, rfl⟩) hnot

/-- The record of a file is the checksum of its text. -/
theorem checksum_of_mem (h : AppliedOnce platform db files) {file : String × String}
    (hfile : file ∈ files) :
    ∃ row, db.rows.get? file.1 = some row ∧
      row.checksum = platform.migrationChecksum file.2 :=
  Option.map_eq_some_iff.mp ((h.recorded file.1 _).mpr ⟨file.2, hfile, rfl⟩)

theorem file_of_get? (h : AppliedOnce platform db files) {version : String} {row : LedgerRow}
    (hrow : db.rows.get? version = some row) :
    ∃ text, (version, text) ∈ files ∧ platform.migrationChecksum text = row.checksum :=
  (h.recorded version row.checksum).mp (by rw [hrow]; rfl)

/-- The bytes of a file do not decide where its text is told from the others. -/
theorem bytes_tell (h : AppliedOnce platform db files) {release : Release σ}
    (htells : ChecksumsTell platform files release.directory) :
    ∀ path ∈ release.migrationPaths, ∀ row, db.rows.get? path.1 = some row →
      row.checksum = platform.legacyByteChecksum path.2 →
      row.checksum = platform.migrationChecksum path.2 := by
  intro path hpath row hrow hbytes
  obtain ⟨text, hfile, hchecksum⟩ := h.file_of_get? hrow
  have hlines := htells _ hfile path.2 (Release.mem_migrationPaths.mp hpath)
    (Or.inr (hchecksum.trans hbytes))
  rw [← hchecksum]
  exact Platform.migrationChecksum_congr hlines

/-- A recorded file was executed exactly once, with all its statements. -/
theorem once (h : AppliedOnce platform db files) {file : String × String}
    (hfile : file ∈ files) :
    db.executions file.1 = [fileRun file] := by
  rw [Database.executions, h.executed]
  have hnodup := h.nodup
  clear h
  induction files with
  | nil => simp at hfile
  | cons head rest ih =>
      rw [List.map_cons, List.nodup_cons] at hnodup
      obtain ⟨hhead, hrest⟩ := hnodup
      rw [List.map_cons]
      rcases List.mem_cons.mp hfile with rfl | hmem
      · rw [List.filter_cons_of_pos (by simp [fileRun]), List.filter_eq_nil_iff.mpr]
        intro run hrun
        obtain ⟨other, hother, rfl⟩ := List.mem_map.mp hrun
        have hne : other.1 ≠ file.1 := fun heq => hhead (List.mem_map.mpr ⟨other, hother, heq⟩)
        exact fun heq => hne (of_decide_eq_true heq)
      · have hne : head.1 ≠ file.1 := fun heq => hhead (heq ▸ List.mem_map_of_mem hmem)
        have hskip : ¬ decide ((fileRun head).version = file.1) = true :=
          fun heq => hne (of_decide_eq_true heq)
        rw [List.filter_cons_of_neg (p := fun run : FileRun => run.version = file.1) hskip]
        exact ih hmem hrest

/-- An unrecorded file was not executed. -/
theorem never (h : AppliedOnce platform db files) {version : String}
    (hnone : db.rows.get? version = none) :
    db.executions version = [] := by
  rw [Database.executions, h.executed, List.filter_eq_nil_iff]
  intro run hrun
  obtain ⟨file, hfile, rfl⟩ := List.mem_map.mp hrun
  have hne : file.1 ≠ version := by
    intro heq
    exact h.get?_eq_none_iff.mp hnone (List.mem_map.mpr ⟨file, hfile, heq⟩)
  exact fun heq => hne (of_decide_eq_true heq)

end AppliedOnce

/-- A database that runs from an empty one have left behind. -/
structure Sound (platform : Platform σ) (db : Database σ)
    (files : List (String × String)) : Prop where
  applied : AppliedOnce platform db files
  opens : platform.openLedger db = .ok ⟨ledgerColumns, db.rows⟩

/-- The directory is unchanged when nothing is unavailable and no checksum has
changed. -/
theorem AppliedOnce.unchanged_iff {db : Database σ} {files : List (String × String)}
    (h : AppliedOnce platform db files) {release : Release σ}
    (htells : ChecksumsTell platform files release.directory) :
    Unchanged files release.directory ↔
      db.rows.keys.filter (fun version => version ∉ release.directory.keys) = [] ∧
      ∀ path ∈ release.migrationPaths, ∀ row, db.rows.get? path.1 = some row →
        row.checksum = platform.migrationChecksum path.2 := by
  constructor
  · intro hunchanged
    refine ⟨?_, ?_⟩
    · rw [List.filter_eq_nil_iff]
      intro version hversion
      obtain ⟨row, hrow⟩ := InsertionDict.mem_keys.mp hversion
      obtain ⟨text, hfile, -⟩ := h.file_of_get? (InsertionDict.get?_eq_some_iff.mpr hrow)
      obtain ⟨text', hget, -⟩ := hunchanged _ hfile
      have hmem := InsertionDict.mem_keys.mpr ⟨text', InsertionDict.get?_eq_some_iff.mp hget⟩
      simpa using hmem
    · intro path hpath row hrow
      obtain ⟨text, hfile, hchecksum⟩ := h.file_of_get? hrow
      obtain ⟨text', hget, hlines⟩ := hunchanged _ hfile
      have htext : text' = path.2 :=
        Option.some.inj (hget.symm.trans (Release.mem_migrationPaths.mp hpath))
      rw [← hchecksum, ← htext]
      exact Platform.migrationChecksum_congr hlines
  · intro hand file hfile
    obtain ⟨havailable, hchecked⟩ := hand
    obtain ⟨row, hrow, hchecksum⟩ := h.checksum_of_mem hfile
    have hkey : file.1 ∈ release.directory.keys := by
      have hversion := InsertionDict.mem_keys.mpr ⟨row, InsertionDict.get?_eq_some_iff.mp hrow⟩
      simpa using List.filter_eq_nil_iff.mp havailable file.1 hversion
    obtain ⟨text, htext⟩ := InsertionDict.mem_keys.mp hkey
    have hget := InsertionDict.get?_eq_some_iff.mpr htext
    have hsame := hchecked (file.1, text) (Release.mem_migrationPaths.mpr hget) row hrow
    exact ⟨text, hget, htells file hfile text hget (Or.inl (hchecksum.symm.trans hsame))⟩

/-- **Specification of a run.** -/
theorem Sound.applyMigrations_iff {db : Database σ} {files : List (String × String)}
    (h : Sound platform db files) {release : Release σ}
    (htells : ChecksumsTell platform files release.directory) {names : List String} {db' : Database σ} :
    platform.applyMigrations db release = (.ok names, db') ↔
      Unchanged files release.directory ∧
      (release.newStatements db.rows).foldlM release.exec db.schema = some db'.schema ∧
      names = (release.newFiles db.rows).map Prod.fst ∧
      db'.ledger = some ⟨ledgerColumns,
        platform.recordAll release.now db.rows (release.newFiles db.rows)⟩ ∧
      db'.executed = db.executed ++ (release.newFiles db.rows).map fileRun := by
  rw [h.applied.unchanged_iff htells]
  unfold Platform.applyMigrations Platform.migrate
  rw [h.opens]
  simp only
  by_cases havailable : db.rows.keys.filter
      (fun version => version ∉ release.directory.keys) = []
  · rw [if_neg (not_not.mpr havailable)]
    have hloop : ∀ run' : MigrationRun σ,
        release.migrationPaths.foldlM (platform.applyFile release db.rows)
          ⟨db.schema, db.rows, db.executed, []⟩ = .ok run' ↔ _ :=
      fun run' => applyFiles_iff (h.applied.bytes_tell htells)
    cases hrun : release.migrationPaths.foldlM (platform.applyFile release db.rows)
        ⟨db.schema, db.rows, db.executed, []⟩ with
    | error error =>
        refine iff_of_false (by simp) ?_
        intro hand
        obtain ⟨⟨-, hchecked⟩, hexec, -⟩ := hand
        have hok := (hloop ⟨db'.schema, _, _, _⟩).mpr ⟨hchecked, hexec, rfl, rfl, rfl⟩
        rw [hrun] at hok
        exact absurd hok (by simp)
    | ok run =>
        obtain ⟨hchecked, hexec, hrows, hexecuted, hnames⟩ := (hloop run).mp hrun
        obtain ⟨schema', ledger', executed'⟩ := db'
        simp only [Prod.mk.injEq, Except.ok.injEq, Database.mk.injEq]
        rw [hrows, hexecuted, hnames, List.nil_append]
        constructor
        · intro hand
          obtain ⟨rfl, rfl, rfl, rfl⟩ := hand
          exact ⟨⟨havailable, hchecked⟩, hexec, rfl, rfl, rfl⟩
        · intro hand
          obtain ⟨-, hexec', rfl, rfl, rfl⟩ := hand
          exact ⟨rfl, Option.some.inj (hexec.symm.trans hexec'), rfl, rfl⟩
  · rw [if_pos havailable]
    refine iff_of_false (by simp) ?_
    intro hand
    exact havailable hand.1.1

/-- Recording the new files leaves ledger and statements of one list. -/
theorem AppliedOnce.record {db db' : Database σ} {files : List (String × String)}
    (h : AppliedOnce platform db files) (release : Release σ)
    (hrows : db'.rows = platform.recordAll release.now db.rows (release.newFiles db.rows))
    (hexecuted : db'.executed = db.executed ++ (release.newFiles db.rows).map fileRun) :
    AppliedOnce platform db' (files ++ release.newFiles db.rows) where
  nodup := by
    rw [List.map_append]
    refine List.nodup_append.mpr ⟨h.nodup, release.nodup_newFiles db.rows, ?_⟩
    intro version hold version' hnew heq
    subst heq
    obtain ⟨file, hfile, rfl⟩ := List.mem_map.mp hnew
    exact h.get?_eq_none_iff.mp (Release.mem_newFiles.mp hfile).2 hold
  recorded version checksum := by
    rw [hrows]
    by_cases hnew : version ∈ (release.newFiles db.rows).map Prod.fst
    · obtain ⟨⟨version', text⟩, hfile, rfl⟩ := List.mem_map.mp hnew
      have hnone := (Release.mem_newFiles.mp hfile).2
      rw [get?_recordAll_of_mem (release.nodup_newFiles db.rows) hfile]
      simp only [Option.map_some, Option.some.injEq, List.mem_append]
      constructor
      · intro hchecksum
        exact ⟨text, Or.inr hfile, hchecksum⟩
      · intro hex
        obtain ⟨text', hmem, hchecksum⟩ := hex
        rcases hmem with hold | hnew'
        · exact absurd (List.mem_map.mpr ⟨_, hold, rfl⟩) (h.get?_eq_none_iff.mp hnone)
        · have htext := (Release.mem_newFiles.mp hfile).1.symm.trans
            (Release.mem_newFiles.mp hnew').1
          have htext' : text = text' := Option.some.inj htext
          rw [htext']
          exact hchecksum
    · rw [get?_recordAll_of_notMem hnew, h.recorded]
      refine exists_congr ?_
      intro text
      rw [List.mem_append]
      have hnot : (version, text) ∉ release.newFiles db.rows :=
        fun hmem => hnew (List.mem_map.mpr ⟨_, hmem, rfl⟩)
      simp [hnot]
  executed := by rw [hexecuted, h.executed, List.map_append]

omit [CharacterTables] in
/-- The files of a release are told from themselves. -/
theorem ChecksumsTell.record {files : List (String × String)} {release : Release σ}
    (h : ChecksumsTell platform files release.directory) (rows : InsertionDict String LedgerRow) :
    ChecksumsTell platform (files ++ release.newFiles rows) release.directory := by
  intro file hfile text hget hchecksum
  rcases List.mem_append.mp hfile with hold | hnew
  · exact h file hold text hget hchecksum
  · obtain rfl := Option.some.inj ((Release.mem_newFiles.mp hnew).1.symm.trans hget)
    exact rfl

/-- A run that succeeds leaves a sound database. -/
theorem Sound.applied_ok {db db' : Database σ} {files : List (String × String)}
    (h : Sound platform db files) {release : Release σ}
    (htells : ChecksumsTell platform files release.directory) {names : List String}
    (hrun : platform.applyMigrations db release = (.ok names, db')) :
    Sound platform db' (files ++ release.newFiles db.rows) := by
  obtain ⟨-, -, -, hledger, hexecuted⟩ := (h.applyMigrations_iff htells).mp hrun
  have hrows : db'.rows = platform.recordAll release.now db.rows (release.newFiles db.rows) := by
    rw [Database.rows, hledger]
    rfl
  refine ⟨h.applied.record release hrows hexecuted, ?_⟩
  rw [Platform.openLedger, hledger, hrows]
  exact if_pos (fun _ hcolumn => hcolumn)

omit [CharacterTables] in
/-- Nothing has been applied to an empty schema. -/
theorem sound_unversioned [CharacterTables] {schema : σ}
    (hempty : platform.tableNames schema = []) :
    Sound platform (.unversioned schema) [] where
  applied := ⟨List.nodup_nil, fun _ _ => by simp [Database.rows, Database.unversioned], rfl⟩
  opens := by simp [Platform.openLedger, Database.unversioned, Database.rows, hempty]

/-- A run that raises leaves the database as it was. -/
theorem applyMigrations_error {db : Database σ} {release : Release σ} {error : MigrationError}
    (h : (platform.applyMigrations db release).1 = .error error) :
    (platform.applyMigrations db release).2 = db := by
  unfold Platform.applyMigrations at h ⊢
  cases hmigrate : platform.migrate db release with
  | error error' => rfl
  | ok result =>
      rw [hmigrate] at h
      exact absurd h (by simp)

theorem deployAll_snoc (db : Database σ) (releases : List (Release σ)) (release : Release σ) :
    platform.deployAll db (releases ++ [release]) =
      (platform.applyMigrations (platform.deployAll db releases) release).2 := by
  rw [Platform.deployAll, List.foldl_append]
  rfl

/-- The files come from the directories of the runs. -/
def Shipped (releases : List (Release σ)) (files : List (String × String)) : Prop :=
  ∀ file ∈ files, ∃ release ∈ releases, release.directory.get? file.1 = some file.2

/-- The checksums tell the texts apart that one name has in a history. -/
def TellsApart (platform : Platform σ) (releases : List (Release σ)) : Prop :=
  ∀ release ∈ releases, ∀ release' ∈ releases,
    ChecksumsTell platform release.directory.entries release'.directory

omit [CharacterTables] in
theorem tellsApart_of_injective (hsha : Function.Injective platform.sha256)
    (releases : List (Release σ)) : TellsApart platform releases :=
  fun _ _ _ _ => tells_of_injective hsha _ _

omit [CharacterTables] in
theorem TellsApart.mono {releases releases' : List (Release σ)}
    (h : TellsApart platform releases') (hsubset : releases ⊆ releases') :
    TellsApart platform releases :=
  fun release hmem release' hmem' => h release (hsubset hmem) release' (hsubset hmem')

omit [CharacterTables] in
/-- The files that were shipped are told from those of a release. -/
theorem TellsApart.tells {releases : List (Release σ)} {release : Release σ}
    (h : TellsApart platform (releases ++ [release])) {files : List (String × String)}
    (hshipped : Shipped releases files) : ChecksumsTell platform files release.directory := by
  intro file hfile text hget hchecksum
  obtain ⟨release', hmem, hget'⟩ := hshipped file hfile
  exact h release' (List.mem_append_left _ hmem) release (by simp) file
    (InsertionDict.get?_eq_some_iff.mp hget') text hget hchecksum

/-- The statements, executed one after the other in runs of the releases, lead from
one schema to the other. -/
inductive Leads (releases : List (Release σ)) (first : σ) : List String → σ → Prop
  | nil : Leads releases first [] first
  | snoc {statements : List String} {schema schema' : σ} {statement : String}
      {release : Release σ} (h : Leads releases first statements schema)
      (hrelease : release ∈ releases) (hexec : release.exec schema statement = some schema') :
      Leads releases first (statements ++ [statement]) schema'

omit [CharacterTables] in
theorem Leads.mono {releases releases' : List (Release σ)} {first schema : σ}
    {statements : List String} (h : Leads releases first statements schema)
    (hsubset : releases ⊆ releases') : Leads releases' first statements schema := by
  induction h with
  | nil => exact .nil
  | snoc h hrelease hexec ih => exact .snoc ih (hsubset hrelease) hexec

omit [CharacterTables] in
/-- The statements of one run lead on. -/
theorem Leads.run {releases : List (Release σ)} {first schema schema' : σ}
    {statements more : List String} (h : Leads releases first statements schema)
    {release : Release σ} (hrelease : release ∈ releases)
    (hexec : more.foldlM release.exec schema = some schema') :
    Leads releases first (statements ++ more) schema' := by
  induction more generalizing statements schema with
  | nil =>
      obtain rfl := Option.some.inj hexec
      rwa [List.append_nil]
  | cons statement more ih =>
      rw [List.foldlM_cons] at hexec
      obtain ⟨middle, hfirst, hrest⟩ := Option.bind_eq_some_iff.mp hexec
      have hlonger := ih (h.snoc hrelease hfirst) hrest
      rwa [List.append_assoc, List.singleton_append] at hlonger

/-- The statements a database has executed, in the order of execution. -/
def Database.statements (db : Database σ) : List String :=
  db.executed.flatMap FileRun.statements

/-- **Run lemma.**  Every history of runs leaves a sound database, with the schema
its statements lead to. -/
theorem sound_deployAll {schema : σ} (hempty : platform.tableNames schema = [])
    {releases : List (Release σ)} (htells : TellsApart platform releases) :
    ∃ files, Sound platform (platform.deployAll (.unversioned schema) releases) files ∧
      Shipped releases files ∧
      Leads releases schema (platform.deployAll (.unversioned schema) releases).statements
        (platform.deployAll (.unversioned schema) releases).schema := by
  induction releases using List.reverseRecOn with
  | nil => exact ⟨[], sound_unversioned hempty, fun _ hmem => absurd hmem (by simp), .nil⟩
  | append_singleton releases release ih =>
      obtain ⟨files, hsound, hshipped, hleads⟩ := ih (htells.mono (List.subset_append_left _ _))
      have hshipped' : Shipped (releases ++ [release]) files := by
        intro file hfile
        obtain ⟨release', hmem, hget⟩ := hshipped file hfile
        exact ⟨release', List.mem_append_left _ hmem, hget⟩
      have hleads' := hleads.mono (List.subset_append_left releases [release])
      rw [deployAll_snoc]
      cases hresult : (platform.applyMigrations
          (platform.deployAll (.unversioned schema) releases) release).1 with
      | error error =>
          rw [applyMigrations_error hresult]
          exact ⟨files, hsound, hshipped', hleads'⟩
      | ok names =>
          have hrelease := htells.tells hshipped
          obtain ⟨-, hexec, -, -, hexecuted⟩ :=
            (hsound.applyMigrations_iff hrelease).mp (Prod.ext hresult rfl)
          refine ⟨_, hsound.applied_ok hrelease (Prod.ext hresult rfl), ?_, ?_⟩
          · intro file hfile
            rcases List.mem_append.mp hfile with hold | hnew
            · exact hshipped' file hold
            · exact ⟨release, List.mem_append_right _ (List.mem_singleton_self release),
                (Release.mem_newFiles.mp hnew).1⟩
          · rw [Database.statements, hexecuted, List.flatMap_append, List.flatMap_map]
            exact hleads'.run (List.mem_append_right _ (List.mem_singleton_self release)) hexec

/-- After a run, each file of the directory is applied with the same lines, and
no other one is. -/
theorem Sound.applied_iff {db db' : Database σ} {files : List (String × String)}
    (h : Sound platform db files) {release : Release σ}
    (htells : ChecksumsTell platform files release.directory) {names : List String}
    (hrun : platform.applyMigrations db release = (.ok names, db')) :
    Unchanged (files ++ release.newFiles db.rows) release.directory ∧
      ∀ version, db'.rows.get? version = none ↔ release.directory.get? version = none := by
  obtain ⟨hunchanged, -⟩ := (h.applyMigrations_iff htells).mp hrun
  have hdirectory : Unchanged (files ++ release.newFiles db.rows) release.directory := by
    intro file hfile
    rcases List.mem_append.mp hfile with hold | hnew
    · exact hunchanged file hold
    · exact ⟨file.2, (Release.mem_newFiles.mp hnew).1, rfl⟩
  refine ⟨hdirectory, ?_⟩
  intro version
  rw [(h.applied_ok htells hrun).applied.get?_eq_none_iff]
  constructor
  · intro hnot
    cases hget : release.directory.get? version with
    | none => rfl
    | some text =>
        exfalso
        apply hnot
        rw [List.map_append, List.mem_append]
        by_cases hold : db.rows.get? version = none
        · exact Or.inr (List.mem_map.mpr ⟨(version, text), Release.mem_newFiles.mpr ⟨hget, hold⟩,
            rfl⟩)
        · exact Or.inl (not_not.mp (fun hmem => hold (h.applied.get?_eq_none_iff.mpr hmem)))
  · intro hnone hmem
    obtain ⟨file, hfile, rfl⟩ := List.mem_map.mp hmem
    obtain ⟨text, hget, -⟩ := hdirectory file hfile
    rw [hnone] at hget
    exact absurd hget (by simp)

/-- **The ledger after a run** is equal to the directory. -/
theorem Sound.ledger_eq {db db' : Database σ} {files : List (String × String)}
    (h : Sound platform db files) {release : Release σ}
    (htells : ChecksumsTell platform files release.directory) {names : List String}
    (hrun : platform.applyMigrations db release = (.ok names, db')) (version : String) :
    (db'.rows.get? version).map LedgerRow.checksum =
      (release.directory.get? version).map platform.migrationChecksum := by
  obtain ⟨hdirectory, hnone⟩ := h.applied_iff htells hrun
  cases hget : release.directory.get? version with
  | none =>
      rw [(hnone version).mpr hget]
      rfl
  | some text =>
      obtain ⟨row, hrow⟩ := Option.ne_none_iff_exists'.mp
        (fun hnot => absurd ((hnone version).mp hnot) (by simp [hget]))
      obtain ⟨text', hfile, hchecksum⟩ := (h.applied_ok htells hrun).applied.file_of_get? hrow
      obtain ⟨text'', hget', hlines⟩ := hdirectory _ hfile
      obtain rfl : text = text'' := Option.some.inj (hget.symm.trans hget')
      rw [hrow, Option.map_some, Option.map_some, ← hchecksum,
        Platform.migrationChecksum_congr hlines]

/-- The same release applied again returns no name and executes nothing. -/
theorem Sound.again {db db' : Database σ} {files : List (String × String)}
    (h : Sound platform db files) {release : Release σ}
    (htells : ChecksumsTell platform files release.directory) {names : List String}
    (hrun : platform.applyMigrations db release = (.ok names, db'))
    {second : Release σ} (hsecond : second.directory = release.directory) :
    platform.applyMigrations db' second = (.ok [], db') := by
  obtain ⟨hdirectory, hnone⟩ := h.applied_iff htells hrun
  have hsound := h.applied_ok htells hrun
  have hnew : second.newFiles db'.rows = [] := by
    refine List.eq_nil_iff_forall_not_mem.mpr ?_
    intro file hfile
    obtain ⟨hget, hrow⟩ := Release.mem_newFiles.mp hfile
    rw [hsecond, (hnone file.1).mp hrow] at hget
    exact absurd hget (by simp)
  obtain ⟨-, -, -, hledger, -⟩ := (h.applyMigrations_iff htells).mp hrun
  have hrows : db'.rows = platform.recordAll release.now db.rows (release.newFiles db.rows) := by
    rw [Database.rows, hledger]
    rfl
  apply (hsound.applyMigrations_iff (hsecond ▸ htells.record db.rows)).mpr
  rw [hsecond, Release.newStatements, hnew]
  refine ⟨hdirectory, rfl, rfl, ?_, (List.append_nil _).symm⟩
  rw [hledger, hrows]
  rfl

/-- What a run of a release over a database does, when the files applied
before are `files`. -/
structure Deploys (platform : Platform σ) (db : Database σ) (files : List (String × String))
    (release : Release σ) : Prop where
  succeeds_iff : (∃ names, (platform.applyMigrations db release).1 = .ok names) ↔
    Unchanged files release.directory ∧
      (release.newStatements db.rows).foldlM release.exec db.schema ≠ none
  raises : ∀ error, (platform.applyMigrations db release).1 = .error error →
    (platform.applyMigrations db release).2 = db
  returns : ∀ names, (platform.applyMigrations db release).1 = .ok names →
    names = (release.newFiles db.rows).map Prod.fst ∧
      names.Pairwise (fun name name' => name < name')
  executes : ∀ names, (platform.applyMigrations db release).1 = .ok names →
    (platform.applyMigrations db release).2.executed =
      db.executed ++ (release.newFiles db.rows).map fileRun
  builds : ∀ names, (platform.applyMigrations db release).1 = .ok names →
    (release.newStatements db.rows).foldlM release.exec db.schema =
      some (platform.applyMigrations db release).2.schema
  ledger : ∀ names, (platform.applyMigrations db release).1 = .ok names → ∀ version,
    ((platform.applyMigrations db release).2.rows.get? version).map LedgerRow.checksum =
      (release.directory.get? version).map platform.migrationChecksum
  again : ∀ names, (platform.applyMigrations db release).1 = .ok names → ∀ second : Release σ,
    second.directory = release.directory →
    platform.applyMigrations (platform.applyMigrations db release).2 second =
      (.ok [], (platform.applyMigrations db release).2)

theorem Sound.deploys {db : Database σ} {files : List (String × String)}
    (h : Sound platform db files) {release : Release σ}
    (htells : ChecksumsTell platform files release.directory) : Deploys platform db files release where
  succeeds_iff := by
    constructor
    · intro hex
      obtain ⟨names, hnames⟩ := hex
      obtain ⟨hunchanged, hexec, -⟩ :=
        (h.applyMigrations_iff htells).mp (Prod.ext hnames rfl)
      exact ⟨hunchanged, by simp [hexec]⟩
    · intro hand
      obtain ⟨hunchanged, hexec⟩ := hand
      obtain ⟨schema, hschema⟩ := Option.ne_none_iff_exists'.mp hexec
      have hrun : platform.applyMigrations db release = (.ok _, ⟨schema, some ⟨_, _⟩, _⟩) :=
        (h.applyMigrations_iff htells).mpr ⟨hunchanged, hschema, rfl, rfl, rfl⟩
      exact ⟨_, congrArg Prod.fst hrun⟩
  raises _ herror := applyMigrations_error herror
  returns names hnames := by
    obtain ⟨-, -, rfl, -⟩ := (h.applyMigrations_iff htells).mp (Prod.ext hnames rfl)
    exact ⟨rfl, release.newFiles_sorted db.rows⟩
  executes names hnames :=
    ((h.applyMigrations_iff htells).mp (Prod.ext hnames rfl)).2.2.2.2
  builds names hnames := ((h.applyMigrations_iff htells).mp (Prod.ext hnames rfl)).2.1
  ledger names hnames := h.ledger_eq htells (Prod.ext hnames rfl)
  again names hnames _ hsecond := h.again htells (Prod.ext hnames rfl) hsecond

/-- **The migration ledger.**  After any history of runs over an empty schema,
each recorded file was executed exactly once and no other one was, the schema is
what these executions led to, and the next run, whatever its release, does what
it should. -/
theorem migration_ledger (hsha : Function.Injective platform.sha256) {schema : σ}
    (hempty : platform.tableNames schema = []) (releases : List (Release σ)) :
    let db := platform.deployAll (.unversioned schema) releases
    ∃ files, Shipped releases files ∧ AppliedOnce platform db files ∧
      (∀ file ∈ files, db.executions file.1 = [fileRun file]) ∧
      (∀ version, db.rows.get? version = none → db.executions version = []) ∧
      Leads releases schema db.statements db.schema ∧
      ∀ release, Deploys platform db files release := by
  intro db
  obtain ⟨files, hsound, hshipped, hleads⟩ :=
    sound_deployAll hempty (tellsApart_of_injective hsha releases)
  exact ⟨files, hshipped, hsound.applied, fun _ => hsound.applied.once,
    fun _ => hsound.applied.never, hleads,
    fun release => hsound.deploys (tells_of_injective hsha files release.directory)⟩

end Invariant

section Order

variable [CharacterTables] {platform : Platform σ} {schema : σ}

/-- The files a database has executed, in order of execution. -/
def Database.versions (db : Database σ) : List String := db.executed.map FileRun.version

/-- Each name always has the same text. -/
def Immutable (texts : String → String) (releases : List (Release σ)) : Prop :=
  ∀ release ∈ releases, ∀ version text, release.directory.get? version = some text →
    text = texts version

omit [CharacterTables] in
theorem Immutable.tellsApart {texts : String → String} {releases : List (Release σ)}
    (h : Immutable texts releases) : TellsApart platform releases := by
  intro release hmem release' hmem' file hfile text hget _
  have htext := h release hmem file.1 file.2 (InsertionDict.get?_eq_some_iff.mpr hfile)
  have htext' := h release' hmem' file.1 text hget
  rw [htext, htext']
  exact rfl

/-- Each run of the history succeeds. -/
def AllSucceed (platform : Platform σ) (schema : σ) (releases : List (Release σ)) : Prop :=
  ∀ earlier release later, releases = earlier ++ release :: later →
    ∃ names, (platform.applyMigrations (platform.deployAll (.unversioned schema) earlier)
      release).1 = .ok names

/-- No run of the history executes a file whose name sorts before that of one
already applied. -/
def NeverLate (platform : Platform σ) (schema : σ) (releases : List (Release σ)) : Prop :=
  ∀ earlier release later, releases = earlier ++ release :: later →
    ∀ names, (platform.applyMigrations (platform.deployAll (.unversioned schema) earlier)
      release).1 = .ok names →
    ∀ name ∈ names, ∀ version,
      (platform.deployAll (.unversioned schema) earlier).rows.get? version ≠ none →
      version < name

theorem AppliedOnce.versions_eq {db : Database σ} {files : List (String × String)}
    (h : AppliedOnce platform db files) : db.versions = files.map Prod.fst := by
  rw [Database.versions, h.executed, List.map_map]
  rfl

theorem allSucceed_nil : AllSucceed platform schema [] := by
  intro earlier release later hcut
  simp at hcut

theorem allSucceed_snoc {releases : List (Release σ)} {release : Release σ} :
    AllSucceed platform schema (releases ++ [release]) ↔
      AllSucceed platform schema releases ∧
        ∃ names, (platform.applyMigrations (platform.deployAll (.unversioned schema) releases)
          release).1 = .ok names :=
  forall_cut_snoc

/-- A successful run executes its files in order of name, after those before. -/
theorem versions_run (hempty : platform.tableNames schema = []) {releases : List (Release σ)}
    {release : Release σ} (htells : TellsApart platform (releases ++ [release]))
    {names : List String}
    (hnames : (platform.applyMigrations (platform.deployAll (.unversioned schema) releases)
      release).1 = .ok names) :
    (platform.deployAll (.unversioned schema) (releases ++ [release])).versions =
        (platform.deployAll (.unversioned schema) releases).versions ++ names ∧
      names.Pairwise (fun name name' => name < name') := by
  obtain ⟨files, hsound, hshipped, -⟩ :=
    sound_deployAll hempty (htells.mono (List.subset_append_left _ _))
  have hdeploys := hsound.deploys (htells.tells hshipped)
  obtain ⟨hreturned, hsorted⟩ := hdeploys.returns names hnames
  refine ⟨?_, hsorted⟩
  rw [deployAll_snoc, Database.versions, hdeploys.executes names hnames, List.map_append,
    List.map_map, hreturned]
  rfl

/-- The files executed are the recorded ones. -/
theorem mem_versions_iff (hempty : platform.tableNames schema = [])
    {releases : List (Release σ)} (htells : TellsApart platform releases) {version : String} :
    version ∈ (platform.deployAll (.unversioned schema) releases).versions ↔
      (platform.deployAll (.unversioned schema) releases).rows.get? version ≠ none := by
  obtain ⟨files, hsound, -⟩ := sound_deployAll hempty htells
  rw [hsound.applied.versions_eq, Ne, hsound.applied.get?_eq_none_iff, not_not]

/-- **Order of execution.**  Over the life of a database files are executed in
order of name exactly when none is late. -/
theorem versions_sorted_iff (hempty : platform.tableNames schema = [])
    {releases : List (Release σ)} (htells : TellsApart platform releases) :
    (platform.deployAll (.unversioned schema) releases).versions.Pairwise
        (fun name name' => name < name') ↔
      NeverLate platform schema releases := by
  induction releases using List.reverseRecOn with
  | nil =>
      refine iff_of_true List.Pairwise.nil ?_
      intro earlier release later hreleases
      simp at hreleases
  | append_singleton releases release ih =>
      have hearlier := htells.mono (List.subset_append_left releases [release])
      rw [NeverLate, forall_cut_snoc, ← NeverLate, ← ih hearlier]
      cases hresult : (platform.applyMigrations
          (platform.deployAll (.unversioned schema) releases) release).1 with
      | error error =>
          rw [deployAll_snoc, applyMigrations_error hresult]
          simp
      | ok names =>
          obtain ⟨hversions, hsorted⟩ := versions_run hempty htells hresult
          rw [hversions, List.pairwise_append]
          constructor
          · intro hand
            obtain ⟨hold, -, hcross⟩ := hand
            refine ⟨hold, ?_⟩
            intro names' hnames' name hname version hversion
            obtain rfl := Except.ok.inj hnames'
            exact hcross version ((mem_versions_iff hempty hearlier).mpr hversion) name hname
          · intro hand
            obtain ⟨hold, hcross⟩ := hand
            refine ⟨hold, hsorted, ?_⟩
            intro version hversion name hname
            exact hcross names rfl name hname version
              ((mem_versions_iff hempty hearlier).mp hversion)

/-- What a database has executed is what is recorded, with the one text of each
name. -/
theorem mem_executed_iff (hempty : platform.tableNames schema = []) {texts : String → String}
    {releases : List (Release σ)} (htexts : Immutable texts releases) {run : FileRun} :
    run ∈ (platform.deployAll (.unversioned schema) releases).executed ↔
      (platform.deployAll (.unversioned schema) releases).rows.get? run.version ≠ none ∧
        run.statements = migrationStatements (texts run.version) := by
  obtain ⟨files, hsound, hshipped, -⟩ := sound_deployAll hempty htexts.tellsApart
  have htext : ∀ file ∈ files, file.2 = texts file.1 := by
    intro file hfile
    obtain ⟨release, hrelease, hget⟩ := hshipped file hfile
    exact htexts release hrelease file.1 file.2 hget
  rw [hsound.applied.executed, Ne, hsound.applied.get?_eq_none_iff, not_not, List.mem_map,
    List.mem_map]
  constructor
  · intro hex
    obtain ⟨file, hfile, rfl⟩ := hex
    exact ⟨⟨file, hfile, rfl⟩, by rw [fileRun, htext file hfile]⟩
  · intro hand
    obtain ⟨⟨file, hfile, hversion⟩, hstatements⟩ := hand
    refine ⟨file, hfile, ?_⟩
    rw [fileRun, htext file hfile, hversion, ← hstatements]

/-- **Equal ledgers.**  Databases with equal ledgers have executed the same
files, each once and with the same statements.  Each run executes its files in
order of name; over the life of a database that order holds exactly when no
file is late, and two such databases have one history. -/
theorem same_ledger (hempty : platform.tableNames schema = []) {texts : String → String}
    {releases releases' : List (Release σ)} (htexts : Immutable texts releases)
    (htexts' : Immutable texts releases')
    (hledger : ∀ version,
      ((platform.deployAll (.unversioned schema) releases).rows.get? version).map
        LedgerRow.checksum =
      ((platform.deployAll (.unversioned schema) releases').rows.get? version).map
        LedgerRow.checksum) :
    let db := platform.deployAll (.unversioned schema) releases
    let db' := platform.deployAll (.unversioned schema) releases'
    db.executed.Perm db'.executed ∧ db.versions.Nodup ∧
    (∀ earlier release later, releases = earlier ++ release :: later → ∀ names,
      (platform.applyMigrations (platform.deployAll (.unversioned schema) earlier)
        release).1 = .ok names →
      (platform.deployAll (.unversioned schema) (earlier ++ [release])).versions =
        (platform.deployAll (.unversioned schema) earlier).versions ++ names ∧
      names.Pairwise (fun name name' => name < name')) ∧
    (db.versions.Pairwise (fun name name' => name < name') ↔
      NeverLate platform schema releases) ∧
    (NeverLate platform schema releases → NeverLate platform schema releases' →
      db.executed = db'.executed) := by
  intro db db'
  have hnodup : ∀ releases : List (Release σ), TellsApart platform releases →
      (platform.deployAll (.unversioned schema) releases).versions.Nodup := by
    intro releases htells
    obtain ⟨files, hsound, -⟩ := sound_deployAll hempty htells
    rw [hsound.applied.versions_eq]
    exact hsound.applied.nodup
  have hperm : db.executed.Perm db'.executed := by
    rw [List.perm_ext_iff_of_nodup (hnodup _ htexts.tellsApart).of_map
      (hnodup _ htexts'.tellsApart).of_map]
    intro run
    rw [mem_executed_iff hempty htexts, mem_executed_iff hempty htexts']
    refine and_congr_left (fun _ => not_congr ?_)
    rw [← Option.map_eq_none_iff (f := LedgerRow.checksum), hledger, Option.map_eq_none_iff]
  refine ⟨hperm, hnodup _ htexts.tellsApart, ?_, versions_sorted_iff hempty htexts.tellsApart, ?_⟩
  · intro earlier release later hcut names hnames
    refine versions_run hempty (htexts.tellsApart.mono ?_) hnames
    rw [hcut]
    exact List.append_subset.mpr ⟨List.subset_append_left _ _, by simp⟩
  · intro hnever hnever'
    have hsorted := List.pairwise_map.mp
      ((versions_sorted_iff hempty htexts.tellsApart).mpr hnever)
    have hsorted' := List.pairwise_map.mp
      ((versions_sorted_iff hempty htexts'.tellsApart).mpr hnever')
    exact hperm.eq_of_pairwise (fun run run' _ _ hlt hgt => absurd hgt (lt_asymm hlt))
      hsorted hsorted'

end Order

section Sample

def firstFile : String := "CREATE TABLE a (id TEXT);\n"

def secondFile : String := "CREATE TABLE b (id TEXT);\n"

/-- The digests of the two files; other bytes stand for themselves. -/
def sampleSha256 (bytes : ByteArray) : String :=
  if bytes.data = firstFile.toUTF8.data then
    "d0b5e4117d9d53986c92271c81b65a402143b459b3b593f7d257eb727de09143"
  else if bytes.data = secondFile.toUTF8.data then
    "f6aa07614e95fd5b1f44396fbcf3cdfbea91c525af9efcb3bcdfab6ba25a8ff4"
  else String.ofList ('=' :: bytes.data.toList.map (fun byte => Char.ofNat byte.toNat))

/-- A database that knows the two statements; a schema is its tables. -/
def sampleExec (tables : List String) (statement : String) : Option (List String) :=
  if statement = "CREATE TABLE a (id TEXT)" ∧ "a" ∉ tables then some (tables ++ ["a"])
  else if statement = "CREATE TABLE b (id TEXT)" ∧ "b" ∉ tables then some (tables ++ ["b"])
  else none

@[reducible] def samplePlatform : Platform (List String) := ⟨sampleSha256, id⟩

/-- Different bytes have different characters. -/
theorem byteChars_injective : Function.Injective
    (fun bytes : ByteArray => bytes.data.toList.map (fun byte => Char.ofNat byte.toNat)) := by
  have hvalue : ∀ byte : UInt8, (Char.ofNat byte.toNat).toNat = byte.toNat := by
    intro byte
    have hlt := byte.toNat_lt
    rw [Char.ofNat, dif_pos (Or.inl (by omega))]
    rfl
  have hbyte : Function.Injective (fun byte : UInt8 => Char.ofNat byte.toNat) := by
    intro byte byte' heq
    have hnat : (Char.ofNat byte.toNat).toNat = (Char.ofNat byte'.toNat).toNat :=
      congrArg Char.toNat heq
    rw [hvalue, hvalue] at hnat
    exact UInt8.toNat_inj.mp hnat
  intro bytes bytes' heq
  have hdata := List.map_injective_iff.mpr hbyte heq
  exact ByteArray.ext (Array.toList_inj.mp hdata)

theorem sampleSha256_injective : Function.Injective samplePlatform.sha256 := by
  have hother : ∀ (digest : String) (chars : List Char), '=' ∉ digest.toList →
      digest ≠ String.ofList ('=' :: chars) := by
    intro digest chars hdigest heq
    apply hdigest
    rw [heq, String.toList_ofList]
    exact List.mem_cons_self
  intro bytes bytes' h
  change sampleSha256 bytes = sampleSha256 bytes' at h
  unfold sampleSha256 at h
  split_ifs at h with hfirst hfirst' hsecond' hsecond hfirst' hsecond' hfirst' hsecond'
  · exact ByteArray.ext (hfirst.trans hfirst'.symm)
  · exact absurd h (by decide)
  · exact absurd h (hother _ _ (by decide))
  · exact absurd h (by decide)
  · exact ByteArray.ext (hsecond.trans hsecond'.symm)
  · exact absurd h (hother _ _ (by decide))
  · exact absurd h.symm (hother _ _ (by decide))
  · exact absurd h.symm (hother _ _ (by decide))
  · exact byteChars_injective (List.tail_eq_of_cons_eq (String.ofList_inj.mp h))

/-- The release that ships the second file only. -/
@[reducible] def lateRelease : Release (List String) :=
  ⟨.ofList [("0002_b.sql", secondFile)], 50, sampleExec⟩

/-- The release that ships the first file only. -/
@[reducible] def earlyRelease : Release (List String) :=
  ⟨.ofList [("0001_a.sql", firstFile)], 50, sampleExec⟩

@[reducible] def fullRelease : Release (List String) :=
  ⟨.ofList [("0002_b.sql", secondFile), ("0001_a.sql", firstFile)], 50, sampleExec⟩

def sampleTexts (version : String) : String :=
  if version = "0001_a.sql" then firstFile else secondFile

theorem sample_immutable {releases : List (Release (List String))}
    (h : ∀ release ∈ releases, ∀ file ∈ release.directory.entries, file.2 = sampleTexts file.1) :
    Immutable sampleTexts releases := by
  intro release hrelease version text hget
  exact h release hrelease (version, text) (InsertionDict.get?_eq_some_iff.mp hget)

/-- A file of a lower number that ships later is executed last, and the ledger
does not tell. -/
theorem same_ledger_other_order :
    let := asciiTables
    let db := samplePlatform.deployAll (.unversioned []) [lateRelease, fullRelease]
    let db' := samplePlatform.deployAll (.unversioned []) [fullRelease]
    AllSucceed samplePlatform [] [lateRelease, fullRelease] ∧
    AllSucceed samplePlatform [] [fullRelease] ∧
    Immutable sampleTexts [lateRelease, fullRelease] ∧ Immutable sampleTexts [fullRelease] ∧
    (∀ version, db.rows.get? version = db'.rows.get? version) ∧
    db.versions = ["0002_b.sql", "0001_a.sql"] ∧ db'.versions = ["0001_a.sql", "0002_b.sql"] := by
  intro _ db db'
  refine ⟨?_, ?_, sample_immutable (by decide +kernel), sample_immutable (by decide +kernel), ?_,
    by decide +kernel, by decide +kernel⟩
  · exact allSucceed_snoc.mpr ⟨allSucceed_snoc.mpr ⟨allSucceed_nil, ["0002_b.sql"],
      by decide +kernel⟩, ["0001_a.sql"], by decide +kernel⟩
  · exact allSucceed_snoc.mpr ⟨allSucceed_nil, ["0001_a.sql", "0002_b.sql"], by decide +kernel⟩
  · exact InsertionDict.get?_eq_of_perm (by decide +kernel)

/-- Shipped in order, the files leave one history, in one run or in two. -/
theorem same_ledger_in_order :
    let := asciiTables
    let db := samplePlatform.deployAll (.unversioned []) [earlyRelease, fullRelease]
    let db' := samplePlatform.deployAll (.unversioned []) [fullRelease]
    db.executed = db'.executed := by
  intro _ db db'
  have hrows : ∀ version, db.rows.get? version = db'.rows.get? version :=
    InsertionDict.get?_eq_of_perm (by decide +kernel)
  have himmutable : Immutable sampleTexts [earlyRelease, fullRelease] :=
    sample_immutable (by decide +kernel)
  have himmutable' : Immutable sampleTexts [fullRelease] := sample_immutable (by decide +kernel)
  have hempty : samplePlatform.tableNames [] = [] := rfl
  obtain ⟨-, -, -, hnever, hsame⟩ := same_ledger hempty himmutable himmutable'
    (fun version => congrArg (Option.map LedgerRow.checksum) (hrows version))
  refine hsame (hnever.mp (by decide +kernel)) ?_
  exact (versions_sorted_iff hempty himmutable'.tellsApart).mp (by decide +kernel)

/-- The history in which a late file was executed. -/
theorem migration_ledger_late :
    let := asciiTables
    let db := samplePlatform.deployAll (.unversioned []) [lateRelease, fullRelease]
    ∃ files, Shipped [lateRelease, fullRelease] files ∧ AppliedOnce samplePlatform db files ∧
      (∀ file ∈ files, db.executions file.1 = [fileRun file]) ∧
      (∀ version, db.rows.get? version = none → db.executions version = []) ∧
      Leads [lateRelease, fullRelease] [] db.statements db.schema ∧
      ∀ release, Deploys samplePlatform db files release := by
  intro
  exact migration_ledger sampleSha256_injective rfl [lateRelease, fullRelease]

end Sample

end EventAlpha
