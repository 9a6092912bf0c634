import Mathlib
import Ceasy.MigrationRuns

set_option autoImplicit false

/-!
# The history of a migrated database

A migration is a file by its name and its text, and the version of a migration is
the timestamp its name starts with. Where no two migrations share a version, a
database is at every time what the migrations recorded in it make of the one that
no run had touched.
-/
namespace Ceasy.Migrations
open StringView TransactionalStore Databases Connection

structure Migration where
  name : Bytes
  text : Bytes
deriving DecidableEq, Repr

def Migration.version (migration : Migration) : Bytes := migration.name.take 14

def migrationPath (project : Project) (name : Bytes) : Bytes :=
  project.root ++ sv "/" ++ sv "db/migrations" ++ sv "/" ++ name

def Project.file (project : Project) (name : Bytes) : MigrationFile :=
  ⟨name, name.take 14, migrationPath project name⟩

def Project.migration (project : Project) (name : Bytes) : Migration :=
  ⟨name, project.contents (migrationPath project name)⟩

def Project.names (project : Project) : List Bytes :=
  match project.listing with
  | .names names _ => names.filter (!migrationSkipped ·)
  | _ => []

def Project.migrations (project : Project) : List Migration := project.names.map project.migration

def NameOrder (left right : Migration) : Prop := left.name ≤ right.name

instance : DecidableRel NameOrder :=
  fun left right => inferInstanceAs (Decidable (left.name ≤ right.name))

instance : IsTrans Migration NameOrder where
  trans _ _ _ hab hbc := List.le_trans (α := UInt8) hab hbc

instance : Std.Total NameOrder where
  total left right := List.le_total left.name right.name

def Project.ordered (project : Project) : List Migration :=
  project.migrations.insertionSort NameOrder

theorem Project.names_nodup (project : Project) : project.names.Nodup := by
  unfold Project.names
  cases project.listing with
  | missing => exact List.nodup_nil
  | unreadable => exact List.nodup_nil
  | names names distinct => exact distinct.filter _

theorem Project.migrations_nodup (project : Project) : project.migrations.Nodup := by
  refine project.names_nodup.map ?_
  intro left right h
  exact congrArg Migration.name h

theorem Project.mem_ordered (project : Project) {migration : Migration} :
    migration ∈ project.ordered ↔ migration ∈ project.migrations :=
  List.mem_insertionSort NameOrder

theorem Project.ordered_nodup (project : Project) : project.ordered.Nodup :=
  (List.perm_insertionSort NameOrder project.migrations).nodup_iff.mpr project.migrations_nodup

theorem Project.ordered_sorted (project : Project) : project.ordered.Pairwise NameOrder :=
  List.pairwise_insertionSort NameOrder project.migrations

theorem migrationVersionValid_some {name version : Bytes}
    (h : migrationVersionValid name = some version) : version = name.take 14 := by
  unfold migrationVersionValid at h
  dsimp only at h
  split at h
  · cases h
  · split at h
    · cases h
    · split at h
      · cases h
      · cases h
        rfl

theorem projectPath_some {project : Project} {relative path : Bytes}
    (h : projectPath project relative = some path) : path = project.root ++ sv "/" ++ relative := by
  unfold projectPath at h
  dsimp only at h
  split at h
  · cases h
  · split at h
    · cases h
      rfl
    · cases h

theorem migrationCollectLoop_some {project : Project} {names : List Bytes}
    {migrations result : List MigrationFile} {capacity : ℕ}
    (h : migrationCollectLoop project names migrations capacity = some result) :
    result = migrations ++ (names.filter (!migrationSkipped ·)).map project.file := by
  induction names generalizing migrations capacity with
  | nil =>
    cases h
    simp
  | cons name rest ih =>
    unfold migrationCollectLoop at h
    split at h
    · next hskipped =>
      rw [ih h, List.filter_cons_of_neg (by simp [hskipped])]
    · next hkept =>
      rw [List.filter_cons_of_pos (by simpa using hkept)]
      split at h
      · cases h
      · split at h
        · cases h
        · next version hversion =>
          split at h
          · cases h
          · next directory hdirectory =>
            have hfile : (⟨name, version, directory ++ sv "/" ++ name⟩ : MigrationFile) =
                project.file name := by
              rw [migrationVersionValid_some hversion, projectPath_some hdirectory]
              rfl
            rw [List.map_cons, List.append_cons, ← hfile]
            split at h
            · cases h
            · split at h
              · split at h
                · exact ih h
                · cases h
              · exact ih h

theorem migrationCollect_some {project : Project} {migrations : List MigrationFile}
    (h : migrationCollect project = some migrations) :
    migrations = (project.names.map project.file).insertionSort migrationCompare := by
  unfold migrationCollect at h
  split at h
  · cases h
  · cases hlisting : project.listing with
    | missing =>
      rw [hlisting] at h
      cases h
      simp [Project.names, hlisting]
    | unreadable =>
      rw [hlisting] at h
      cases h
    | names names distinct =>
      rw [hlisting] at h
      dsimp only at h
      rw [Option.map_eq_some_iff] at h
      obtain ⟨collected, hcollected, hsorted⟩ := h
      rw [← hsorted, migrationCollectLoop_some hcollected]
      simp [Project.names, hlisting]

def Project.read (project : Project) (file : MigrationFile) : Migration :=
  ⟨file.name, project.contents file.path⟩

theorem migrationCollect_ordered {project : Project} {migrations : List MigrationFile}
    (h : migrationCollect project = some migrations) :
    migrations.map project.read = project.ordered := by
  rw [migrationCollect_some h]
  unfold Project.ordered Project.migrations
  rw [List.map_insertionSort migrationCompare NameOrder project.read]
  · rw [List.map_map]
    rfl
  · intro left _ right _
    exact Iff.rfl

theorem migrationCollect_version {project : Project} {migrations : List MigrationFile}
    (h : migrationCollect project = some migrations) {migration : MigrationFile}
    (hmem : migration ∈ migrations) : migration.version = (project.read migration).version := by
  rw [migrationCollect_some h, List.mem_insertionSort, List.mem_map] at hmem
  obtain ⟨name, _, hname⟩ := hmem
  rw [← hname]
  rfl

section
variable {ρ : Type*} {language : MigrationLanguage ρ}

def replay (language : MigrationLanguage ρ) : List Migration → Tables ρ → Option (Tables ρ)
  | [], tables => some tables
  | migration :: rest, tables =>
    (applyMigration language migration.version migration.text tables).bind (replay language rest)

theorem replay_append (first second : List Migration) (tables : Tables ρ) :
    replay language (first ++ second) tables =
      (replay language first tables).bind (replay language second) := by
  induction first generalizing tables with
  | nil => rfl
  | cons migration rest ih =>
    show (applyMigration language _ _ tables).bind (replay language (rest ++ second)) = _
    rw [funext ih, ← Option.bind_assoc]
    rfl

/-- Nothing but updates, none of them of `schema_migrations`. -/
structure Plain (language : MigrationLanguage ρ) (migration : Migration) : Prop where
  updates : ∀ statement ∈ language.statements (cText migration.text), statement.kind = .update
  keeps : ∀ tables later, effect (language.statements (cText migration.text)) tables = some later →
    later.schemaMigrations = tables.schemaMigrations

theorem record_recorded {version : Bytes} {tables later : Tables ρ}
    (h : Tables.record version tables = some later) :
    later.recorded = tables.recorded ++ [version] ∧ later.schemaMigrations.isSome := by
  unfold Tables.record at h
  split at h
  · cases h
  · next versions hversions =>
    split at h
    · cases h
    · cases h
      unfold Tables.recorded
      rw [hversions]
      exact ⟨rfl, rfl⟩

theorem applyMigration_recorded {migration : Migration} (hplain : Plain language migration)
    {tables later : Tables ρ}
    (h : applyMigration language migration.version migration.text tables = some later) :
    later.recorded = tables.recorded ++ [migration.version] ∧ later.schemaMigrations.isSome := by
  unfold applyMigration at h
  rw [Option.bind_eq_some_iff] at h
  obtain ⟨middle, hmiddle, hrecord⟩ := h
  have hrecorded := record_recorded hrecord
  have hsame : middle.recorded = tables.recorded := by
    unfold Tables.recorded
    rw [hplain.keeps tables middle hmiddle]
  rw [hsame] at hrecorded
  exact hrecorded

theorem create_of_exists {tables : Tables ρ} (h : tables.schemaMigrations.isSome) :
    tables.create = tables := by
  rw [Option.isSome_iff_exists] at h
  obtain ⟨versions, h⟩ := h
  unfold Tables.create Tables.recorded
  rw [h, Option.getD_some, ← h]

def pendingIn (tables : Tables ρ) (migrations : List Migration) : List Migration :=
  migrations.filter fun migration => migration.version ∉ tables.recorded

/-- What is applied is what was pending when the run began, as far as the run has got. -/
theorem Migrated.outcome {project : Project} {migrations applied left : List MigrationFile}
    {tables last : Tables ρ} {stopped : Option MigrationFile}
    (h : Migrated language project migrations tables stopped applied left last)
    (hplain : ∀ migration ∈ migrations, Plain language (project.read migration))
    (hversion : ∀ migration ∈ migrations,
      migration.version = (project.read migration).version)
    (hdistinct : ((migrations.map project.read).map Migration.version).Nodup)
    (hexists : tables.schemaMigrations.isSome) :
    ∃ before, migrations.map project.read = before ++ left.map project.read ∧
      replay language (pendingIn tables before) tables = some last ∧
      last.recorded = tables.recorded ++ (pendingIn tables before).map Migration.version ∧
      last.schemaMigrations.isSome ∧ left.head? = stopped := by
  induction h with
  | nil tables => exact ⟨[], rfl, rfl, (List.append_nil _).symm, hexists, rfl⟩
  | stopped migration rest tables => exact ⟨[], rfl, rfl, (List.append_nil _).symm, hexists, rfl⟩
  | @skipped migration rest applied left tables last stopped hmem _ ih =>
    rw [hversion migration (List.mem_cons_self ..)] at hmem
    have hrest := ih (fun later hlater => hplain later (List.mem_cons_of_mem _ hlater))
      (fun later hlater => hversion later (List.mem_cons_of_mem _ hlater))
      (List.nodup_cons.mp hdistinct).2 hexists
    obtain ⟨before, hbefore, hreplay, hrecorded, hlast, hleft⟩ := hrest
    have hpending : pendingIn tables (project.read migration :: before) = pendingIn tables before := by
      unfold pendingIn
      rw [List.filter_cons_of_neg (by simpa using hmem)]
    refine ⟨project.read migration :: before, ?_, ?_, ?_, hlast, hleft⟩
    · rw [List.map_cons, hbefore]
      rfl
    · rw [hpending]
      exact hreplay
    · rw [hpending]
      exact hrecorded
  | @applied migration rest applied left tables next last stopped hmem happly _ ih =>
    have hfirst := hplain migration (List.mem_cons_self ..)
    rw [hversion migration (List.mem_cons_self ..)] at hmem happly
    have hnext := applyMigration_recorded hfirst happly
    have hnodup := List.nodup_cons.mp hdistinct
    have hrest := ih (fun later hlater => hplain later (List.mem_cons_of_mem _ hlater))
      (fun later hlater => hversion later (List.mem_cons_of_mem _ hlater)) hnodup.2 hnext.2
    obtain ⟨before, hbefore, hreplay, hrecorded, hlast, hleft⟩ := hrest
    -- the version just recorded is none of those that are still to come
    have hsame : pendingIn next before = pendingIn tables before := by
      unfold pendingIn
      refine List.filter_congr fun later hlater => ?_
      have hne : later.version ≠ (project.read migration).version := by
        intro heq
        refine hnodup.1 ?_
        rw [hbefore, ← heq]
        exact List.mem_map_of_mem (List.mem_append_left _ hlater)
      rw [hnext.1]
      simp [hne]
    have hpending : pendingIn tables (project.read migration :: before) =
        project.read migration :: pendingIn tables before := by
      unfold pendingIn
      rw [List.filter_cons_of_pos (by simpa using hmem)]
    refine ⟨project.read migration :: before, ?_, ?_, ?_, hlast, hleft⟩
    · rw [List.map_cons, hbefore]
      rfl
    · rw [hpending, ← hsame]
      show (applyMigration language _ _ tables).bind _ = some last
      rw [show applyMigration language (project.read migration).version
        (project.read migration).text tables = some next from happly]
      exact hreplay
    · rw [hrecorded, hnext.1, hsame, hpending, List.append_assoc]
      rfl

structure MigrationRun where
  project : Project
  environment : Environment

def MigrationRun.perform (language : MigrationLanguage ρ) (run : MigrationRun)
    (file : Contents (Tables ρ)) : Bool × Contents (Tables ρ) :=
  let result := migrationRun (migrationSqlite language run.environment) run.project file
  (result.success, result.file)

/-- The migration that a run stopped at; there is none where it failed before the first, or after the
last. -/
def MigrationRun.stopped (language : MigrationLanguage ρ) (run : MigrationRun)
    (file : Contents (Tables ρ)) : Option Migration :=
  (migrationRun (migrationSqlite language run.environment) run.project file).stopped.map run.project.read

/-- The run has got as far as the migrations in `left`. -/
structure RunOutcome (language : MigrationLanguage ρ) (run : MigrationRun)
    (file : Contents (Tables ρ)) (before left : List Migration) : Prop where
  ordered : run.project.ordered = before ++ left
  all : (run.perform language file).1 = true →
    left = [] ∧ (run.perform language file).2.rows.schemaMigrations.isSome
  stopped : left.head? = run.stopped language file ∨
    run.stopped language file = none ∧ before = [] ∧ (run.perform language file).2 = file
  marks : (run.perform language file).2.marks = file.marks
  rows : before = [] ∧ (run.perform language file).2.rows = file.rows ∨
    replay language (pendingIn file.rows before) file.rows.create =
        some (run.perform language file).2.rows ∧
      (run.perform language file).2.rows.schemaMigrations.isSome
  recorded : (run.perform language file).2.rows.recorded =
    file.rows.recorded ++ (pendingIn file.rows before).map Migration.version

theorem version_nodup {migrations : List Migration} (h : migrations.Nodup)
    (hone : ∀ migration ∈ migrations, ∀ other ∈ migrations,
      migration.version = other.version → migration = other) :
    (migrations.map Migration.version).Nodup :=
  h.map_on fun migration hmem other hother => hone migration hmem other hother

theorem migrationRun_outcome (run : MigrationRun) (file : Contents (Tables ρ))
    (hplain : ∀ migration ∈ run.project.migrations, Plain language migration)
    (hone : ∀ migration ∈ run.project.migrations, ∀ other ∈ run.project.migrations,
      migration.version = other.version → migration = other) :
    ∃ before left, RunOutcome language run file before left := by
  have hread : ∀ migrations, migrationCollect run.project = some migrations →
      ∀ migration ∈ migrations, run.project.read migration ∈ run.project.migrations := by
    intro migrations hcollect migration hmem
    rw [← run.project.mem_ordered, ← migrationCollect_ordered hcollect]
    exact List.mem_map_of_mem hmem
  have hrun := @migrationRun_migrated _ language run.environment run.project file
    (fun migrations hcollect migration hmem =>
      (hplain _ (hread migrations hcollect migration hmem)).updates)
  rcases hrun with hfailed | ⟨migrations, applied, left, rows, hcollect, hmigrated, hrewritten, hok⟩
  · have hsame : (run.perform language file).2 = file := congrArg MigrationResult.file hfailed
    refine ⟨[], run.project.ordered, rfl, ?_, ?_, congrArg Contents.marks hsame,
      .inl ⟨rfl, congrArg Contents.rows hsame⟩, ?_⟩
    · intro htrue
      exact Bool.noConfusion ((congrArg MigrationResult.success hfailed).symm.trans htrue)
    · exact .inr ⟨congrArg (fun result => result.stopped.map run.project.read) hfailed, rfl, hsame⟩
    · show (run.perform language file).2.rows.recorded = file.rows.recorded ++ []
      rw [List.append_nil]
      exact congrArg (fun contents => contents.rows.recorded) hsame
  · have hdistinct : ((migrations.map run.project.read).map Migration.version).Nodup := by
      rw [migrationCollect_ordered hcollect]
      refine version_nodup run.project.ordered_nodup ?_
      intro migration hmem other hother
      rw [run.project.mem_ordered] at hmem hother
      exact hone migration hmem other hother
    obtain ⟨before, hbefore, hreplay, hrecorded, hexists, hleft⟩ := hmigrated.outcome
      (fun migration hmem => hplain _ (hread migrations hcollect migration hmem))
      (fun migration hmem => migrationCollect_version hcollect hmem) hdistinct rfl
    have hafter : (run.perform language file).2 = { file with rows := rows } := hrewritten
    have hrows : (run.perform language file).2.rows = rows := by rw [hafter]
    have hmarks : (run.perform language file).2.marks = file.marks := by rw [hafter]
    refine ⟨before, left.map run.project.read, ?_, ?_, .inl ?_, hmarks, .inr ?_, ?_⟩
    · rw [← migrationCollect_ordered hcollect]
      exact hbefore
    · intro htrue
      rw [hok htrue, List.head?_eq_none_iff] at hleft
      rw [hleft, hrows]
      exact ⟨rfl, hexists⟩
    · rw [List.head?_map, hleft]
      rfl
    · rw [hrows]
      exact ⟨hreplay, hexists⟩
    · rw [hrows]
      exact hrecorded

def migrationRuns (language : MigrationLanguage ρ) (runs : List MigrationRun)
    (file : Contents (Tables ρ)) : Contents (Tables ρ) :=
  runs.foldl (fun file run => (run.perform language file).2) file

theorem migrationRuns_append (runs : List MigrationRun) (last : MigrationRun)
    (file : Contents (Tables ρ)) : migrationRuns language (runs ++ [last]) file =
      (last.perform language (migrationRuns language runs file)).2 := by
  unfold migrationRuns
  rw [List.foldl_append]
  rfl

/-- No two migrations of these runs share a version, and all are plain. -/
structure Coherent (language : MigrationLanguage ρ) (runs : List MigrationRun) : Prop where
  one : ∀ run ∈ runs, ∀ migration ∈ run.project.migrations, ∀ other ∈ runs,
    ∀ rival ∈ other.project.migrations, migration.version = rival.version → migration = rival
  plain : ∀ run ∈ runs, ∀ migration ∈ run.project.migrations, Plain language migration

/-- The database is what these migrations make of the initial one; before the first of them
    the table of the versions may not be there. -/
def ResultOf (language : MigrationLanguage ρ) (initial : Contents (Tables ρ))
    (applied : List Migration) (file : Contents (Tables ρ)) : Prop :=
  applied = [] ∧ file.rows = initial.rows ∨
    replay language applied initial.rows.create = some file.rows ∧
      file.rows.schemaMigrations.isSome

structure History (language : MigrationLanguage ρ) (initial : Contents (Tables ρ))
    (runs : List MigrationRun) (applied : List Migration) (file : Contents (Tables ρ)) : Prop where
  result : ResultOf language initial applied file
  recorded : file.rows.recorded = applied.map Migration.version
  distinct : (applied.map Migration.version).Nodup
  source : ∀ migration ∈ applied, ∃ run ∈ runs, migration ∈ run.project.migrations

theorem ResultOf.step {initial file after : Contents (Tables ρ)} {applied pending : List Migration}
    (h : ResultOf language initial applied file)
    (hpending : replay language pending file.rows.create = some after.rows ∧
      after.rows.schemaMigrations.isSome) :
    ResultOf language initial (applied ++ pending) after := by
  refine .inr ⟨?_, hpending.2⟩
  rcases h with ⟨happlied, hrows⟩ | ⟨hreplay, hexists⟩
  · rw [happlied, List.nil_append, ← hrows]
    exact hpending.1
  · rw [replay_append, hreplay, Option.bind_some, ← create_of_exists hexists]
    exact hpending.1

theorem mem_pendingIn {tables : Tables ρ} {migrations : List Migration} {migration : Migration} :
    migration ∈ pendingIn tables migrations ↔
      migration ∈ migrations ∧ migration.version ∉ tables.recorded := by
  unfold pendingIn
  rw [List.mem_filter, decide_eq_true_iff]

theorem History.step {initial file : Contents (Tables ρ)} {runs : List MigrationRun}
    {applied before left : List Migration} {run : MigrationRun}
    (h : History language initial runs applied file)
    (hcoherent : Coherent language (runs ++ [run]))
    (houtcome : RunOutcome language run file before left) :
    History language initial (runs ++ [run]) (applied ++ pendingIn file.rows before)
      (run.perform language file).2 := by
  have hrun : run ∈ runs ++ [run] := List.mem_append_right _ (List.mem_singleton_self _)
  have hbefore : ∀ migration ∈ before, migration ∈ run.project.migrations := by
    intro migration hmem
    rw [← run.project.mem_ordered, houtcome.ordered]
    exact List.mem_append_left _ hmem
  refine ⟨?_, ?_, ?_, ?_⟩
  · rcases houtcome.rows with ⟨hnone, hrows⟩ | hreplay
    · rw [hnone]
      show ResultOf language initial (applied ++ []) _
      rw [List.append_nil]
      unfold ResultOf
      rw [hrows]
      exact h.result
    · exact h.result.step hreplay
  · rw [houtcome.recorded, h.recorded, List.map_append]
  · rw [List.map_append, List.nodup_append']
    refine ⟨h.distinct, ?_, ?_⟩
    · refine version_nodup ?_ ?_
      · have hordered := run.project.ordered_nodup
        rw [houtcome.ordered] at hordered
        exact (List.nodup_append'.mp hordered).1.filter _
      · intro migration hmem other hother
        exact hcoherent.one run hrun migration (hbefore _ (mem_pendingIn.mp hmem).1) run hrun other
          (hbefore _ (mem_pendingIn.mp hother).1)
    · intro version hold hnew
      rw [List.mem_map] at hnew
      obtain ⟨migration, hmem, hversion⟩ := hnew
      refine (mem_pendingIn.mp hmem).2 ?_
      rw [hversion, h.recorded]
      exact hold
  · intro migration hmem
    rw [List.mem_append] at hmem
    rcases hmem with hmem | hmem
    · obtain ⟨source, hsource, hmigration⟩ := h.source migration hmem
      exact ⟨source, List.mem_append_left _ hsource, hmigration⟩
    · exact ⟨run, hrun, hbefore _ (mem_pendingIn.mp hmem).1⟩

theorem Coherent.earlier {runs : List MigrationRun} {last : MigrationRun}
    (h : Coherent language (runs ++ [last])) : Coherent language runs :=
  ⟨fun run hrun migration hmem other hother =>
      h.one run (List.mem_append_left _ hrun) migration hmem other (List.mem_append_left _ hother),
    fun run hrun => h.plain run (List.mem_append_left _ hrun)⟩

theorem Coherent.outcome {runs : List MigrationRun} {last : MigrationRun}
    (h : Coherent language (runs ++ [last])) (file : Contents (Tables ρ)) :
    ∃ before left, RunOutcome language last file before left := by
  have hlast : last ∈ runs ++ [last] := List.mem_append_right _ (List.mem_singleton_self _)
  exact migrationRun_outcome last file (h.plain last hlast)
    (fun migration hmem other hother => h.one last hlast migration hmem last hlast other hother)

theorem migrationRuns_history {initial : Contents (Tables ρ)} (hinitial : initial.rows.recorded = [])
    (runs : List MigrationRun) (hcoherent : Coherent language runs) :
    ∃ applied, History language initial runs applied (migrationRuns language runs initial) := by
  induction runs using List.reverseRecOn with
  | nil => exact ⟨[], .inl ⟨rfl, rfl⟩, hinitial, List.nodup_nil, fun migration hmem => by cases hmem⟩
  | append_singleton runs last ih =>
    obtain ⟨applied, hhistory⟩ := ih hcoherent.earlier
    obtain ⟨before, left, houtcome⟩ := hcoherent.outcome (migrationRuns language runs initial)
    rw [migrationRuns_append]
    exact ⟨_, hhistory.step hcoherent houtcome⟩

/-- The directory only gains files, as far as it can be listed, and those in it are plain and of
different versions. -/
structure Growing (language : MigrationLanguage ρ) (runs : List MigrationRun) : Prop where
  gains : runs.Pairwise fun run later => later.project.listing ≠ .unreadable →
    ∀ migration ∈ run.project.migrations, migration ∈ later.project.migrations
  one : ∀ run ∈ runs, ∀ migration ∈ run.project.migrations, ∀ rival ∈ run.project.migrations,
    migration.version = rival.version → migration = rival
  plain : ∀ run ∈ runs, ∀ migration ∈ run.project.migrations, Plain language migration

/-- Two directories of which one contains the other agree on the migration of a version. -/
def AgreeOn (run other : MigrationRun) : Prop :=
  ∀ migration ∈ run.project.migrations, ∀ rival ∈ other.project.migrations,
    migration.version = rival.version → migration = rival

instance : Std.Symm AgreeOn where
  symm _ _ h migration hmem rival hrival hversion :=
    (h rival hrival migration hmem hversion.symm).symm

theorem Growing.coherent {runs : List MigrationRun} (h : Growing language runs) :
    Coherent language runs := by
  have hagree : runs.Pairwise AgreeOn := by
    refine h.gains.imp_of_mem ?_
    intro run later _ hlater hgains migration hmem rival hrival hversion
    have hlisted : later.project.listing ≠ .unreadable := by
      intro hunreadable
      rw [Project.migrations, Project.names, hunreadable] at hrival
      cases hrival
    exact h.one later hlater migration (hgains hlisted migration hmem) rival hrival hversion
  refine ⟨?_, h.plain⟩
  intro run hrun migration hmem other hother rival hrival hversion
  exact hagree.forall_of_forall h.one hrun hother migration hmem rival hrival hversion

end

/-- Every text is noted when it is executed, but for one that forges a record. -/
def notedStatements (sql : Bytes) : List (Statement (Tables (List Bytes))) :=
  if sql = sv "BEGIN" then [.begin]
  else if sql = sv "COMMIT" then [.commit]
  else if sql = sv "ROLLBACK" then [.rollback]
  else if sql = createSql then [.update fun tables => some tables.create]
  else if sql = sv "FORGE" then [.update (Tables.record (sv "20260101000002"))]
  else [.update fun tables => some { tables with rest := tables.rest ++ [sql] }]

def notedStatement (statement : DatabaseStatement) : Statement (Tables (List Bytes)) :=
  match statement.bound with
  | [(_, version)] =>
    if statement.sql = selectSql then .update Tables.look
    else if statement.sql = insertSql then .update (Tables.record version)
    else .update some
  | _ => .update some

def notedAnswer (statement : DatabaseStatement) (tables : Tables (List Bytes)) : List Row :=
  match statement.bound with
  | [(_, version)] => if version ∈ tables.recorded then [[some (sv "1")]] else []
  | _ => []

theorem insertSql_ne_selectSql : insertSql ≠ selectSql := by decide +kernel

def noted : MigrationLanguage (List Bytes) where
  statements := notedStatements
  statement := notedStatement
  answer := notedAnswer
  statements_begin := rfl
  statements_commit := rfl
  statements_rollback := rfl
  statements_create := by
    have hbegin : createSql ≠ sv "BEGIN" := by decide +kernel
    have hcommit : createSql ≠ sv "COMMIT" := by decide +kernel
    have hrollback : createSql ≠ sv "ROLLBACK" := by decide +kernel
    unfold notedStatements
    rw [if_neg hbegin, if_neg hcommit, if_neg hrollback, if_pos rfl]
  statement_select := by
    intro version
    unfold notedStatement
    dsimp only
    rw [if_pos rfl]
  answer_select := by
    intro version tables
    unfold notedAnswer
    by_cases h : version ∈ tables.recorded <;> simp [h]
  statement_insert := by
    intro version
    unfold notedStatement
    dsimp only
    rw [if_neg insertSql_ne_selectSql, if_pos rfl]

def granting : Environment where
  outcomes := fun _ _ => .served
  grants := fun _ => true
  errmsg := fun _ => []

/-- A project at `/p`; the text of a file is its name, unless it is to forge. -/
def notedProject (names : List Bytes) (distinct : names.Nodup) : Project where
  root := sv "/p"
  mkdir := true
  listing := .names names distinct
  contents := fun path =>
    if (sv "_forge.sql").isSuffixOf path then sv "FORGE" else path.drop 17
  reads := fun _ => true
  grows := fun _ => true
  configuredPath := none

def untouched : Contents (Tables (List Bytes)) := ⟨⟨none, []⟩, []⟩

def single : MigrationRun :=
  ⟨notedProject [sv "20260101000000_a.sql"] (List.nodup_singleton _), granting⟩

def twins : MigrationRun :=
  ⟨notedProject [sv "20260101000000_a.sql", sv "20260101000000_b.sql"] (by decide), granting⟩

def forged : MigrationRun :=
  ⟨notedProject [sv "20260101000001_forge.sql", sv "20260101000002_b.sql"] (by decide), granting⟩

/-- A second file, in runs that can read it and in runs that cannot. -/
def both : MigrationRun :=
  ⟨notedProject [sv "20260101000001_b.sql", sv "20260101000000_a.sql"] (by decide), granting⟩

def halted : MigrationRun :=
  ⟨{ both.project with reads := fun path => !(sv "_b.sql").isSuffixOf path }, granting⟩

def firstMigration : Migration := ⟨sv "20260101000000_a.sql", sv "20260101000000_a.sql"⟩

def secondMigration : Migration := ⟨sv "20260101000001_b.sql", sv "20260101000001_b.sql"⟩

theorem single_migrations : single.project.migrations = [firstMigration] := by decide +kernel

theorem both_migrations : both.project.migrations = [secondMigration, firstMigration] := by decide +kernel

theorem noted_plain {migration : Migration} (htext : cText migration.text = migration.text)
    (hword : ∀ word ∈ [sv "BEGIN", sv "COMMIT", sv "ROLLBACK", createSql, sv "FORGE"],
      migration.text ≠ word) : Plain noted migration := by
  simp only [List.forall_mem_cons] at hword
  obtain ⟨hbegin, hcommit, hrollback, hcreate, hforge, -⟩ := hword
  have hstatements : noted.statements (cText migration.text) =
      [.update fun tables => some { tables with rest := tables.rest ++ [migration.text] }] := by
    rw [htext]
    show notedStatements migration.text = _
    unfold notedStatements
    rw [if_neg hbegin, if_neg hcommit, if_neg hrollback, if_neg hcreate, if_neg hforge]
  refine ⟨?_, ?_⟩
  · intro statement hmem
    rw [hstatements, List.mem_singleton] at hmem
    rw [hmem]
    rfl
  · intro tables later heffect
    rw [hstatements] at heffect
    cases heffect
    rfl

theorem notedRuns_growing {last : MigrationRun}
    (hlast : last.project.migrations = [secondMigration, firstMigration]) :
    Growing noted [single, last] := by
  have hmem : ∀ run ∈ [single, last], ∀ migration ∈ run.project.migrations,
      migration ∈ [secondMigration, firstMigration] := by
    intro run hrun migration hmigration
    rcases List.mem_cons.mp hrun with rfl | hrun
    · rw [single_migrations] at hmigration
      exact List.mem_cons_of_mem _ hmigration
    · rw [List.mem_singleton.mp hrun, hlast] at hmigration
      exact hmigration
  refine ⟨?_, ?_, ?_⟩
  · refine List.pairwise_pair.mpr fun _ migration hmigration => ?_
    rw [hlast]
    exact hmem single List.mem_cons_self migration hmigration
  · intro run hrun migration hmigration rival hrival hversion
    have hone : ∀ migration ∈ [secondMigration, firstMigration], ∀ rival ∈ [secondMigration, firstMigration],
        migration.version = rival.version → migration = rival := by decide
    exact hone migration (hmem run hrun migration hmigration) rival (hmem run hrun rival hrival) hversion
  · intro run hrun migration hmigration
    have hplain : ∀ migration ∈ [secondMigration, firstMigration], cText migration.text = migration.text ∧
        ∀ word ∈ [sv "BEGIN", sv "COMMIT", sv "ROLLBACK", createSql, sv "FORGE"],
          migration.text ≠ word := by decide +kernel
    obtain ⟨htext, hword⟩ := hplain migration (hmem run hrun migration hmigration)
    exact noted_plain htext hword

section
variable {ρ : Type*} {language : MigrationLanguage ρ}

/-- Where every run's migrations are plain and no two share a version, a run that succeeds has
    left every migration of its directory applied exactly once, those that were pending in the
    order of their names. -/
theorem migrationRun_applies_all {initial : Contents (Tables ρ)}
    (hinitial : initial.rows.recorded = []) (runs : List MigrationRun) (last : MigrationRun)
    (hcoherent : Coherent language (runs ++ [last]))
    (htrue : (last.perform language (migrationRuns language runs initial)).1 = true) :
    ∃ earlier pending,
      ResultOf language initial earlier (migrationRuns language runs initial) ∧
      ResultOf language initial (earlier ++ pending)
        (last.perform language (migrationRuns language runs initial)).2 ∧
      pending = last.project.ordered.filter (· ∉ earlier) ∧
      pending.Pairwise NameOrder ∧
      ∀ migration ∈ last.project.migrations, (earlier ++ pending).count migration = 1 := by
  obtain ⟨earlier, hhistory⟩ := migrationRuns_history hinitial runs hcoherent.earlier
  obtain ⟨before, left, houtcome⟩ := hcoherent.outcome (migrationRuns language runs initial)
  have hlast : last ∈ runs ++ [last] := List.mem_append_right _ (List.mem_singleton_self _)
  have hnext := hhistory.step hcoherent houtcome
  have hall := (houtcome.all htrue).1
  have hordered : last.project.ordered = before := by
    rw [houtcome.ordered, hall, List.append_nil]
  -- not recorded and not applied are the same, for a version has one migration
  have hpending : pendingIn (migrationRuns language runs initial).rows before =
      last.project.ordered.filter (· ∉ earlier) := by
    rw [hordered]
    refine List.filter_congr fun migration hmem => decide_eq_decide.mpr (not_congr ?_)
    rw [hhistory.recorded, List.mem_map]
    constructor
    · intro ⟨other, hother, hversion⟩
      obtain ⟨source, hsource, hin⟩ := hhistory.source other hother
      rw [← hordered, last.project.mem_ordered] at hmem
      rw [← hcoherent.one source (List.mem_append_left _ hsource) other hin last hlast migration hmem
        hversion]
      exact hother
    · intro hold
      exact ⟨migration, hold, rfl⟩
  refine ⟨earlier, _, hhistory.result, hnext.result, hpending, ?_, ?_⟩
  · rw [hpending]
    exact last.project.ordered_sorted.sublist List.filter_sublist
  · intro migration hmem
    have hnodup : (earlier ++ pendingIn (migrationRuns language runs initial).rows before).Nodup :=
      hnext.distinct.of_map _
    refine List.count_eq_one_of_mem hnodup ?_
    rw [hpending, List.mem_append, List.mem_filter, last.project.mem_ordered, decide_eq_true_iff]
    by_cases hold : migration ∈ earlier
    · exact .inl hold
    · exact .inr ⟨hmem, hold⟩

/-- One file is applied by the first run, the other by the second. -/
theorem migrationRun_applies_all_both :
    ∃ earlier pending,
      ResultOf noted untouched earlier (migrationRuns noted [single] untouched) ∧
      ResultOf noted untouched (earlier ++ pending)
        (both.perform noted (migrationRuns noted [single] untouched)).2 ∧
      pending = both.project.ordered.filter (· ∉ earlier) ∧ pending.Pairwise NameOrder ∧
      ∀ migration ∈ both.project.migrations, (earlier ++ pending).count migration = 1 :=
  migrationRun_applies_all rfl [single] both (notedRuns_growing both_migrations).coherent
    (by decide +kernel)

/-- Two files of one version: the second is skipped, and the run reports success. -/
theorem migrationRun_skips_twin :
    (twins.perform noted untouched).1 = true ∧
      ⟨sv "20260101000000_b.sql", sv "20260101000000_b.sql"⟩ ∈ twins.project.migrations ∧
      (twins.perform noted untouched).2.rows.rest = [sv "20260101000000_a.sql"] := by
  decide +kernel

/-- Once they are all recorded, a run of the same migrations finds nothing to do. -/
theorem RunOutcome.unchanged {next : MigrationRun} {file : Contents (Tables ρ)}
    {before left : List Migration} (h : RunOutcome language next file before left)
    (hexists : file.rows.schemaMigrations.isSome)
    (hrecorded : ∀ migration ∈ next.project.migrations, migration.version ∈ file.rows.recorded) :
    (next.perform language file).2 = file := by
  have hpending : pendingIn file.rows before = [] := by
    rw [List.eq_nil_iff_forall_not_mem]
    intro migration hmem
    rw [mem_pendingIn] at hmem
    refine hmem.2 (hrecorded migration ?_)
    rw [← next.project.mem_ordered, h.ordered]
    exact List.mem_append_left _ hmem.1
  have hrows : (next.perform language file).2.rows = file.rows := by
    rcases h.rows with hrows | hrows
    · exact hrows.2
    · rw [hpending, create_of_exists hexists] at hrows
      exact (Option.some.inj hrows.1).symm
  have hmarks := h.marks
  cases hresult : (next.perform language file).2 with
  | mk rows marks =>
    rw [hresult] at hrows hmarks
    cases file
    cases hrows
    cases hmarks
    rfl

theorem History.mem_iff {initial file : Contents (Tables ρ)} {runs : List MigrationRun}
    {applied : List Migration} (h : History language initial runs applied file)
    (hcoherent : Coherent language runs) (migration : Migration) :
    migration ∈ applied ↔ (∃ run ∈ runs, migration ∈ run.project.migrations) ∧
      migration.version ∈ file.rows.recorded := by
  constructor
  · intro hmem
    refine ⟨h.source migration hmem, ?_⟩
    rw [h.recorded]
    exact List.mem_map_of_mem hmem
  · intro ⟨⟨run, hrun, hmem⟩, hversion⟩
    rw [h.recorded, List.mem_map] at hversion
    obtain ⟨other, hother, hsame⟩ := hversion
    obtain ⟨source, hsource, hin⟩ := h.source other hother
    rw [← hcoherent.one source hsource other hin run hrun migration hmem hsame]
    exact hother

theorem RunOutcome.done_recorded {run : MigrationRun} {file : Contents (Tables ρ)}
    {before left : List Migration} (h : RunOutcome language run file before left) :
    ∀ migration ∈ before, migration.version ∈ (run.perform language file).2.rows.recorded := by
  intro migration hmem
  rw [h.recorded, List.mem_append]
  by_cases hold : migration.version ∈ file.rows.recorded
  · exact .inl hold
  · exact .inr (List.mem_map_of_mem (mem_pendingIn.mpr ⟨hmem, hold⟩))

theorem RunOutcome.left_unrecorded {run : MigrationRun} {file : Contents (Tables ρ)}
    {before left : List Migration} (h : RunOutcome language run file before left)
    (hone : ∀ migration ∈ run.project.migrations, ∀ other ∈ run.project.migrations,
      migration.version = other.version → migration = other) :
    ∀ migration ∈ left, migration.version ∉ file.rows.recorded →
      migration.version ∉ (run.perform language file).2.rows.recorded := by
  intro migration hmem hnew hrecorded
  rw [h.recorded, List.mem_append, List.mem_map] at hrecorded
  rcases hrecorded with hrecorded | ⟨other, hother, hsame⟩
  · exact hnew hrecorded
  · -- the two would be one migration on both sides of the point the run has got to
    have hbefore := (mem_pendingIn.mp hother).1
    have hordered := h.ordered ▸ run.project.ordered_nodup
    have hleft : migration ∈ run.project.migrations := by
      rw [← run.project.mem_ordered, h.ordered]
      exact List.mem_append_right _ hmem
    have hdealt : other ∈ run.project.migrations := by
      rw [← run.project.mem_ordered, h.ordered]
      exact List.mem_append_left _ hbefore
    rw [hone other hdealt migration hleft hsame] at hbefore
    exact (List.nodup_append'.mp hordered).2.2 hbefore hmem

/-- At every time the database is what the recorded migrations make of the initial one, each
    applied once and completely. However a run ends, it has dealt with the files up to the one
    that it stopped at, which stays unrecorded with those after it; and a run that follows a
    success in the same directory changes nothing. -/
theorem migrationRuns_atomic {initial : Contents (Tables ρ)}
    (hinitial : initial.rows.recorded = []) (runs : List MigrationRun) (last : MigrationRun)
    (hgrowing : Growing language (runs ++ [last])) :
    let file := migrationRuns language runs initial
    let after := (last.perform language file).2
    (∃ applied, ResultOf language initial applied after ∧ applied.Nodup ∧
      after.rows.recorded = applied.map Migration.version ∧
      ∀ migration, migration ∈ applied ↔
        (∃ run ∈ runs ++ [last], migration ∈ run.project.migrations) ∧
          migration.version ∈ after.rows.recorded) ∧
    (∃ done left, last.project.ordered = done ++ left ∧
      ((last.perform language file).1 = true → left = []) ∧
      (left.head? = last.stopped language file ∨
        last.stopped language file = none ∧ done = [] ∧ after = file) ∧
      (∀ migration ∈ done, migration.version ∈ after.rows.recorded) ∧
      ∀ migration ∈ left, migration.version ∉ file.rows.recorded →
        migration.version ∉ after.rows.recorded) ∧
    ((last.perform language file).1 = true → ∀ next : MigrationRun,
      (∀ migration ∈ next.project.migrations, migration ∈ last.project.migrations) →
      (next.perform language after).2 = after) := by
  intro file after
  have hcoherent := hgrowing.coherent
  have hlast : last ∈ runs ++ [last] := List.mem_append_right _ (List.mem_singleton_self _)
  obtain ⟨earlier, hhistory⟩ := migrationRuns_history hinitial runs hcoherent.earlier
  obtain ⟨before, left, houtcome⟩ := hcoherent.outcome file
  have hnext := hhistory.step hcoherent houtcome
  refine ⟨⟨_, hnext.result, hnext.distinct.of_map _, hnext.recorded, hnext.mem_iff hcoherent⟩,
    ⟨before, left, houtcome.ordered, fun htrue => (houtcome.all htrue).1, houtcome.stopped,
      houtcome.done_recorded, houtcome.left_unrecorded (hgrowing.one last hlast)⟩, ?_⟩
  intro htrue next hsame
  obtain ⟨again, rest, hagain⟩ := @migrationRun_outcome _ language next after
    (fun migration hmem => hgrowing.plain last hlast migration (hsame migration hmem))
    (fun migration hmem other hother =>
      hgrowing.one last hlast migration (hsame migration hmem) other (hsame other hother))
  have hall := houtcome.all htrue
  refine hagain.unchanged hall.2 ?_
  intro migration hmem
  refine houtcome.done_recorded migration ?_
  have hordered := houtcome.ordered
  rw [hall.1, List.append_nil] at hordered
  rw [← hordered, last.project.mem_ordered]
  exact hsame migration hmem

/-- The second file cannot be read: the run fails at it, and it stays unrecorded. -/
theorem migrationRuns_atomic_halted :
    let file := migrationRuns noted [single] untouched
    let after := (halted.perform noted file).2
    (halted.perform noted file).1 = false ∧ ∃ done left, halted.project.ordered = done ++ left ∧
      left.head? = some secondMigration ∧
      (∀ migration ∈ done, migration.version ∈ after.rows.recorded) ∧
      ∀ migration ∈ left, migration.version ∉ file.rows.recorded →
        migration.version ∉ after.rows.recorded := by
  intro file after
  obtain ⟨-, ⟨done, left, hordered, -, hstopped, hdone, hleft⟩, -⟩ :=
    migrationRuns_atomic (rfl : untouched.rows.recorded = []) [single] halted
      (notedRuns_growing both_migrations)
  have hsecond : halted.stopped noted file = some secondMigration := by decide +kernel
  rw [hsecond] at hstopped
  have hhead := hstopped.resolve_right fun hnone => by cases hnone.1
  exact ⟨by decide +kernel, done, left, hordered, hhead, hdone, hleft⟩

def forgedMigrations : List Migration :=
  [⟨sv "20260101000001_forge.sql", sv "FORGE"⟩,
    ⟨sv "20260101000002_b.sql", sv "20260101000002_b.sql"⟩]

/-- A file whose own SQL records the version of another: that other is never applied, and no
    order of the recorded migrations gives this database. -/
theorem migrationRuns_forged :
    forged.project.migrations = forgedMigrations ∧
      (∀ migration ∈ forgedMigrations,
        migration.version ∈ (forged.perform noted untouched).2.rows.recorded) ∧
      ¬ ∃ applied, ResultOf noted untouched applied (forged.perform noted untouched).2 ∧
        applied.Nodup ∧ ∀ migration, migration ∈ applied ↔
          migration ∈ forged.project.migrations ∧
            migration.version ∈ (forged.perform noted untouched).2.rows.recorded := by
  have hmigrations : forged.project.migrations = forgedMigrations := by decide +kernel
  have hrecorded : ∀ migration ∈ forgedMigrations,
      migration.version ∈ (forged.perform noted untouched).2.rows.recorded := by decide +kernel
  refine ⟨hmigrations, hrecorded, ?_⟩
  intro ⟨applied, hresult, hnodup, hmem⟩
  have hperm : applied.Perm forgedMigrations := by
    rw [List.perm_ext_iff_of_nodup hnodup (by decide)]
    intro migration
    rw [hmem, hmigrations]
    exact ⟨fun h => h.1, fun h => ⟨h, hrecorded migration h⟩⟩
  rcases hresult with ⟨hnone, _⟩ | ⟨hreplay, _⟩
  · rw [hnone] at hperm
    exact absurd hperm.length_eq (by decide)
  · have hno : ∀ order ∈ forgedMigrations.permutations',
        replay noted order untouched.rows.create ≠
          some (forged.perform noted untouched).2.rows := by decide +kernel
    exact hno applied (List.mem_permutations'.mpr hperm) hreplay

end

end Ceasy.Migrations
