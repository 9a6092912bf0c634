import Ceasy.FileTree
import Ceasy.StringView

set_option autoImplicit false

/-!
# Writing generated files

The files of one command are written one after another, the directories above them
made on the way, and all of it is undone when something is refused.
-/
namespace Ceasy.GeneratorFiles
open StringView FileTrees

def PATH_MAX : ℕ := 4096

def pathStep (component : Bytes) : Step Bytes :=
  if component = [] then .empty
  else if component = sv "." then .dot
  else if component = sv ".." then .dotdot
  else .entry component

/-- Every path here is absolute. -/
def pathSteps (path : Bytes) : List (Step Bytes) := (path.splitOn (ch '/')).map pathStep

/-- The root is what `getcwd` gives, or a directory above it. -/
structure CeasyProject where
  root : Bytes
  absolute : root.head? = some (ch '/')
  resolved : .dotdot ∉ pathSteps root

def projectPath (project : CeasyProject) (relative : Bytes) (pathSize : ℕ) : Option Bytes :=
  if pathSize = 0 ∨ relative.head? = some (ch '/') then none
  else
    let path := project.root ++ sv "/" ++ relative
    if path.length < pathSize then some path else none

/-- Which calls are granted, by their number, and what is left in a file by a `fwrite`
or an `fclose` that fails. `unlink` and `rmdir` are always granted. -/
structure Outside where
  mkdir : ℕ → Bool
  fopen : ℕ → Bool
  fwrite : ℕ → Bool
  fclose : ℕ → Bool
  torn : ℕ → Bytes

structure Disk where
  tree : FileTree Bytes Bytes
  calls : ℕ

structure GeneratedFile where
  relative : Bytes
  /-- `none` when `data` is `NULL`. -/
  content : Option Bytes
deriving DecidableEq, Repr

structure PreparedFile where
  relative : Bytes
  content : Bytes
  path : Bytes
deriving DecidableEq, Repr

structure Run where
  disk : Disk
  created : List Bytes

inductive GeneratorError where
  | tooMany
  | pathTooLong
  | notPrepared (relative : Bytes)
  | alreadyExists (relative : Bytes)
  | noDirectory (relative : Bytes)
  | cannotWrite (relative : Bytes)
deriving DecidableEq, Repr

/-- What is printed to `stderr`. -/
def GeneratorError.text : GeneratorError → Bytes
  | .tooMany => []
  | .pathTooLong => sv "error: generated path is too long\n"
  | .notPrepared relative => sv "error: could not prepare generated file " ++ relative ++ sv "\n"
  | .alreadyExists relative => sv "error: " ++ relative ++ sv " already exists\n"
  | .noDirectory relative => sv "error: cannot create directory for " ++ relative ++ sv "\n"
  | .cannotWrite relative => sv "error: cannot write " ++ relative ++ sv "\n"

variable (outside : Outside)

def Disk.mkdir (disk : Disk) (path : Bytes) : Except Errno Unit × Disk :=
  if outside.mkdir disk.calls then
    match disk.tree.mkdir (pathSteps path) with
    | .ok tree => (.ok (), ⟨tree, disk.calls + 1⟩)
    | .error errno => (.error errno, ⟨disk.tree, disk.calls + 1⟩)
  else (.error .eio, ⟨disk.tree, disk.calls + 1⟩)

def generatedDirectory (path : Bytes) (run : Run) : Bool × Run :=
  if 64 ≤ run.created.length ∨ PATH_MAX ≤ path.length then (false, run)
  else
    match run.disk.mkdir outside path with
    | (.ok (), disk) => (true, ⟨disk, run.created ++ [path]⟩)
    | (.error errno, disk) => (errno = .eexist, ⟨disk, run.created⟩)

/-- The cursor stands after the bytes before it. -/
def generatedParentLoop : Bytes → Bytes → Run → Bool × Run
  | before, [], run => generatedDirectory outside before run
  | before, c :: rest, run =>
    if c = ch '/' then
      match generatedDirectory outside before run with
      | (false, run) => (false, run)
      | (true, run) => generatedParentLoop (before ++ [c]) rest run
    else generatedParentLoop (before ++ [c]) rest run

def generatedParentDirs (path : Bytes) (run : Run) : Bool × Run :=
  if PATH_MAX < path.length + 1 then (false, run)
  else
    match stringvRfindChar path (ch '/') with
    | none => (true, run)
    | some last =>
      let parent := path.take last
      generatedParentLoop outside (parent.take 1) (parent.drop 1) run

/-- Files go in the order they were written, directories in the opposite one. -/
def generatedCleanup (written : List PreparedFile) (run : Run) : FileTree Bytes Bytes :=
  let tree := written.foldl (fun tree file => tree.unlink (pathSteps file.path)) run.disk.tree
  run.created.reverse.foldl (fun tree path => tree.rmdir (pathSteps path)) tree

/-- `fopen`, `fwrite` and `fclose` of one file. -/
def generatedWrite (file : PreparedFile) (disk : Disk) : Bool × Disk :=
  let failed := (false, ⟨disk.tree, disk.calls + 1⟩)
  if outside.fopen disk.calls then
    match disk.tree.creat (pathSteps file.path) with
    | .error _ => failed
    | .ok place =>
      let opened := disk.tree.put place (.file [])
      let wrote := outside.fwrite (disk.calls + 1)
      let content := if wrote then file.content else outside.torn (disk.calls + 1)
      let written := opened.put place (.file content)
      if outside.fclose (disk.calls + 2) then (wrote, ⟨written, disk.calls + 3⟩)
      else
        let torn := written.put place (.file (outside.torn (disk.calls + 2)))
        (false, ⟨torn, disk.calls + 3⟩)
  else failed

def generatorPrepare (project : CeasyProject) (tree : FileTree Bytes Bytes) :
    List GeneratedFile → Except GeneratorError (List PreparedFile)
  | [] => .ok []
  | file :: files =>
    match file.content with
    | none => .error (.notPrepared file.relative)
    | some content =>
      match projectPath project file.relative PATH_MAX with
      | none => .error .pathTooLong
      | some path =>
        if tree.access (pathSteps path) then .error (.alreadyExists file.relative)
        else
          match generatorPrepare project tree files with
          | .error error => .error error
          | .ok prepared => .ok (⟨file.relative, content, path⟩ :: prepared)

def generatorWriteLoop : List PreparedFile → List PreparedFile → Run →
    Except GeneratorError Unit × FileTree Bytes Bytes
  | _, [], run => (.ok (), run.disk.tree)
  | written, file :: files, run =>
    match generatedParentDirs outside file.path run with
    | (false, run) => (.error (.noDirectory file.relative), generatedCleanup written run)
    | (true, run) =>
      match generatedWrite outside file run.disk with
      | (true, disk) => generatorWriteLoop (written ++ [file]) files ⟨disk, run.created⟩
      | (false, disk) =>
        let tree := disk.tree.unlink (pathSteps file.path)
        (.error (.cannotWrite file.relative),
          generatedCleanup written ⟨⟨tree, disk.calls⟩, run.created⟩)

def generatorWriteFiles (project : CeasyProject) (files : List GeneratedFile)
    (tree : FileTree Bytes Bytes) : Except GeneratorError Unit × FileTree Bytes Bytes :=
  if 16 < files.length then (.error .tooMany, tree)
  else if files.any (PATH_MAX ≤ ·.relative.length) then (.error .pathTooLong, tree)
  else
    match generatorPrepare project tree files with
    | .error error => (.error error, tree)
    | .ok prepared => generatorWriteLoop outside [] prepared ⟨⟨tree, 0⟩, []⟩

def Plain (path : Bytes) : Prop := .dotdot ∉ pathSteps path

instance (path : Bytes) : Decidable (Plain path) :=
  inferInstanceAs (Decidable (.dotdot ∉ pathSteps path))

def pathPlace (path : Bytes) : List Bytes := placeOf (pathSteps path)

theorem pathSteps_append (before rest : Bytes) :
    pathSteps (before ++ ch '/' :: rest) = pathSteps before ++ pathSteps rest := by
  unfold pathSteps
  rw [List.splitOn_append_cons_self, List.map_append]

theorem pathPlace_append (before rest : Bytes) :
    pathPlace (before ++ ch '/' :: rest) = pathPlace before ++ pathPlace rest := by
  unfold pathPlace placeOf
  rw [pathSteps_append, List.filterMap_append]

theorem plain_append {before rest : Bytes} :
    Plain (before ++ ch '/' :: rest) ↔ Plain before ∧ Plain rest := by
  unfold Plain
  rw [pathSteps_append, List.mem_append, not_or]

theorem projectPath_eq {project : CeasyProject} {relative path : Bytes} {pathSize : ℕ}
    (h : projectPath project relative pathSize = some path) :
    path = project.root ++ ch '/' :: relative := by
  unfold projectPath at h
  dsimp only at h
  split_ifs at h
  rw [← Option.some.inj h]
  exact List.append_assoc project.root (sv "/") relative

theorem stringvRfindChar_split {path : Bytes} {c : UInt8} {last : ℕ}
    (h : stringvRfindChar path c = some last) :
    ∃ rest, path = path.take last ++ c :: rest := by
  unfold stringvRfindChar at h
  obtain ⟨index, hindex, rfl⟩ := Option.map_eq_some_iff.mp h
  obtain ⟨after, before, hreverse, -, rfl⟩ := stringvFindChar_some.mp hindex
  have hpath : path = before.reverse ++ c :: after.reverse := by
    rw [← path.reverse_reverse, hreverse, List.reverse_append, List.reverse_cons,
      List.append_assoc]
    rfl
  have hlength : path.length - 1 - after.length = before.reverse.length := by
    have hpieces := congrArg List.length hpath
    rw [List.length_append, List.length_cons, List.length_reverse, List.length_reverse] at hpieces
    rw [List.length_reverse]
    omega
  refine ⟨after.reverse, ?_⟩
  rw [hlength]
  nth_rewrite 2 [hpath]
  rw [List.take_left]
  exact hpath

/-- The tree is the one from before with what was recorded, and the records lead to
it. -/
structure Progress (start : FileTree Bytes Bytes) (run : Run) (written : List PreparedFile) :
    Prop where
  grown : Grown start run.disk.tree (run.created.map pathPlace)
    (written.map fun file => (pathPlace file.path, file.content))
  created : ∀ path ∈ run.created, Plain path ∧
    ((pathSteps path).rdropWhile (· = .empty)).getLast? ≠ some .dot
  reached : ∀ file ∈ written, Plain file.path ∧
    run.disk.tree.walk [] (pathSteps file.path) = some (pathPlace file.path)

variable {start : FileTree Bytes Bytes} {run : Run} {written : List PreparedFile}

theorem Progress.calls (h : Progress start run written) (calls : ℕ) :
    Progress start ⟨⟨run.disk.tree, calls⟩, run.created⟩ written := ⟨h.grown, h.created, h.reached⟩

/-- Where a file is, it stays within reach of its path when the tree grows. -/
theorem Progress.grow {tree : FileTree Bytes Bytes} (h : Progress start run written)
    {file : PreparedFile} (hfile : file ∈ written)
    (htree : ∀ place, run.disk.tree.node place ≠ none → tree.node place = run.disk.tree.node place) :
    tree.walk [] (pathSteps file.path) = some (pathPlace file.path) := by
  have hreached := h.reached file hfile
  have hnode := h.grown.file _ (List.mem_map_of_mem hfile)
  refine FileTree.walk_within hreached.1 hreached.2 ?_ ?_
  · rw [htree _ (by rw [hnode]; exact Option.some_ne_none _), hnode]
    exact Option.some_ne_none _
  · intro place hdirectory _
    exact (htree place hdirectory.ne_none).trans hdirectory

theorem node_put_of_absent {tree : FileTree Bytes Bytes} {place other : List Bytes}
    {new : Node Bytes} (hne : place ≠ []) (hparent : tree.IsDirectory place.dropLast)
    (habsent : tree.node place = none) (h : tree.node other ≠ none) :
    (tree.put place new).node other = tree.node other := by
  rw [FileTree.node_put hne hparent (FileTree.not_isDirectory habsent), if_neg]
  rintro rfl
  exact h habsent

theorem generatedDirectory_progress {path : Bytes} (h : Progress start run written)
    (hplain : Plain path) : Progress start (generatedDirectory outside path run).2 written := by
  unfold generatedDirectory
  split_ifs with hrefused
  · exact h
  unfold Disk.mkdir
  split_ifs with hgranted
  · cases hmade : run.disk.tree.mkdir (pathSteps path) with
    | error errno => exact h.calls _
    | ok tree =>
      obtain ⟨made, hlast⟩ := FileTree.mkdir_made hplain hmade
      have hafter := made.after
      subst hafter
      exact
        { grown := by
            have hgrown := h.grown.mkdir made.ne_nil made.parent made.absent
            have hplaces : run.created.map pathPlace ++ [placeOf (pathSteps path)] =
                (run.created ++ [path]).map pathPlace := by
              rw [List.map_append]
              rfl
            rw [hplaces] at hgrown
            exact hgrown
          created := by
            intro other hother
            rcases List.mem_append.mp hother with hold | hnew
            · exact h.created other hold
            · rw [List.mem_singleton.mp hnew]
              exact ⟨hplain, hlast⟩
          reached := fun file hfile => ⟨(h.reached file hfile).1, h.grow hfile fun _ =>
            node_put_of_absent made.ne_nil made.parent made.absent⟩ }
  · exact h.calls _

theorem generatedParentLoop_progress {before rest : Bytes} (h : Progress start run written)
    (hplain : Plain (before ++ rest)) :
    Progress start (generatedParentLoop outside before rest run).2 written := by
  induction rest generalizing before run with
  | nil =>
    rw [List.append_nil] at hplain
    exact generatedDirectory_progress outside h hplain
  | cons c rest ih =>
    have hnext : Plain (before ++ [c] ++ rest) := by rwa [List.append_assoc]
    rw [generatedParentLoop]
    split_ifs with hslash
    · subst hslash
      have hdirectory := generatedDirectory_progress outside h
        (plain_append.mp hplain).1
      cases hmade : generatedDirectory outside before run with
      | mk made after =>
        rw [hmade] at hdirectory
        cases made with
        | false => exact hdirectory
        | true => exact ih hdirectory hnext
    · exact ih h hnext

theorem generatedParentDirs_progress {path : Bytes} (h : Progress start run written)
    (hplain : Plain path) : Progress start (generatedParentDirs outside path run).2 written := by
  unfold generatedParentDirs
  split_ifs
  · exact h
  cases hlast : stringvRfindChar path (ch '/') with
  | none => exact h
  | some last =>
    obtain ⟨rest, hpath⟩ := stringvRfindChar_split hlast
    rw [hpath] at hplain
    refine generatedParentLoop_progress outside h ?_
    rw [List.take_append_drop]
    exact (plain_append.mp hplain).1

/-- The tree from before does not reach the file, and no file written has its place. -/
structure Untouched (start : FileTree Bytes Bytes) (written : List PreparedFile)
    (file : PreparedFile) : Prop where
  plain : Plain file.path
  absent : start.access (pathSteps file.path) = false
  apart : pathPlace file.path ∉ written.map fun other => pathPlace other.path

/-- Where the path of an untouched file leads, there is no file. -/
theorem Progress.no_file (h : Progress start run written) {file : PreparedFile}
    (huntouched : Untouched start written file)
    (hwalk : run.disk.tree.walk [] (pathSteps file.path) = some (pathPlace file.path))
    (content : Bytes) : run.disk.tree.node (pathPlace file.path) ≠ some (.file content) := by
  intro hnode
  rcases h.grown.file_cases hnode with hold | hnew
  · have hstart : start.node (pathPlace file.path) ≠ none := by
      rw [hold]
      exact Option.some_ne_none _
    have hreach : start.walk [] (pathSteps file.path) = some (pathPlace file.path) := by
      refine FileTree.walk_within huntouched.plain hwalk hstart ?_
      intro place hdirectory hplace
      exact (h.grown.node_start hplace).symm.trans hdirectory
    have habsent := huntouched.absent
    unfold FileTree.access at habsent
    rw [hreach] at habsent
    dsimp only at habsent
    rw [hold] at habsent
    cases habsent
  · obtain ⟨other, hother, heq⟩ := List.mem_map.mp hnew
    have hplace : pathPlace other.path = pathPlace file.path := congrArg Prod.fst heq
    exact huntouched.apart (hplace ▸ List.mem_map_of_mem hother)

theorem Progress.unlink_untouched (h : Progress start run written) {file : PreparedFile}
    (huntouched : Untouched start written file) :
    run.disk.tree.unlink (pathSteps file.path) = run.disk.tree := by
  cases hwalk : run.disk.tree.walk [] (pathSteps file.path) with
  | none =>
    unfold FileTree.unlink
    rw [hwalk]
  | some place =>
    have hplace : place = pathPlace file.path := FileTree.walk_place huntouched.plain hwalk
    subst hplace
    rw [FileTree.unlink_walk hwalk]
    cases hnode : run.disk.tree.node (pathPlace file.path) with
    | none => exact FileTree.unlinkAt_none hnode
    | some node =>
      cases node with
      | directory => exact FileTree.unlinkAt_directory hnode
      | file content => exact absurd hnode (h.no_file huntouched hwalk content)

/-- The path leads to a place in a directory where nothing is. -/
structure Opened (tree : FileTree Bytes Bytes) (path : Bytes) : Prop where
  plain : Plain path
  walk : tree.walk [] (pathSteps path) = some (pathPlace path)
  absent : tree.node (pathPlace path) = none
  ne_nil : pathPlace path ≠ []
  parent : tree.IsDirectory (pathPlace path).dropLast

theorem Progress.opened (h : Progress start run written) {file : PreparedFile}
    (huntouched : Untouched start written file) {place : List Bytes}
    (hcreat : run.disk.tree.creat (pathSteps file.path) = .ok place) :
    place = pathPlace file.path ∧ Opened run.disk.tree file.path := by
  obtain ⟨hwalk, hplace, hdirectory, hopen⟩ := FileTree.creat_ok huntouched.plain hcreat
  subst hplace
  have habsent : run.disk.tree.node (pathPlace file.path) = none := by
    cases hnode : run.disk.tree.node (pathPlace file.path) with
    | none => rfl
    | some node =>
      cases node with
      | directory => exact absurd hnode hdirectory
      | file content => exact absurd hnode (h.no_file huntouched hwalk content)
  exact ⟨rfl, huntouched.plain, hwalk, habsent, (hopen habsent).1, (hopen habsent).2⟩

section Opened
variable {tree : FileTree Bytes Bytes} {path : Bytes}

theorem Opened.node (h : Opened tree path) (new : Node Bytes) :
    (tree.put (pathPlace path) new).node (pathPlace path) = some new := by
  rw [FileTree.node_put h.ne_nil h.parent (FileTree.not_isDirectory h.absent), if_pos rfl]

theorem Opened.kept (h : Opened tree path) (new : Node Bytes) {other : List Bytes}
    (hother : tree.node other ≠ none) :
    (tree.put (pathPlace path) new).node other = tree.node other :=
  node_put_of_absent h.ne_nil h.parent h.absent hother

theorem Opened.reach (h : Opened tree path) (content : Bytes) :
    (tree.put (pathPlace path) (.file content)).walk [] (pathSteps path) =
      some (pathPlace path) := by
  refine FileTree.walk_within h.plain h.walk ?_ ?_
  · rw [h.node]
    exact Option.some_ne_none _
  · intro other hother _
    exact (h.kept _ hother.ne_none).trans hother

theorem Opened.unlink (h : Opened tree path) (content : Bytes) :
    (tree.put (pathPlace path) (.file content)).unlink (pathSteps path) = tree := by
  rw [FileTree.unlink_walk (h.reach content)]
  exact FileTree.unlinkAt_put h.ne_nil h.parent h.absent content

end Opened

theorem Progress.write (h : Progress start run written) {file : PreparedFile}
    (hopened : Opened run.disk.tree file.path) {disk : Disk}
    (hdisk : disk.tree = run.disk.tree.put (pathPlace file.path) (.file file.content)) :
    Progress start ⟨disk, run.created⟩ (written ++ [file]) where
  grown := by
    have hgrown := h.grown.creat hopened.ne_nil hopened.parent hopened.absent file.content
    rw [List.map_append, hdisk]
    exact hgrown
  created := h.created
  reached := by
    intro other hother
    rw [hdisk]
    rcases List.mem_append.mp hother with hold | hlast
    · exact ⟨(h.reached other hold).1, h.grow hold fun _ => hopened.kept _⟩
    · rw [List.mem_singleton.mp hlast]
      exact ⟨hopened.plain, hopened.reach file.content⟩

/-- A file that was opened holds what the last call left in it. -/
theorem generatedWrite_opened {disk : Disk} {file : PreparedFile}
    (hopened : Opened disk.tree file.path) (hgranted : outside.fopen disk.calls = true)
    (hcreat : disk.tree.creat (pathSteps file.path) = .ok (pathPlace file.path)) :
    ∃ content, (generatedWrite outside file disk).2.tree =
        disk.tree.put (pathPlace file.path) (.file content) ∧
      ((generatedWrite outside file disk).1 = true → content = file.content) := by
  have hput := FileTree.put_put hopened.ne_nil hopened.parent
    (FileTree.not_isDirectory hopened.absent)
  unfold generatedWrite
  rw [if_pos hgranted, hcreat]
  dsimp only
  rw [hput]
  by_cases hclosed : outside.fclose (disk.calls + 2) = true
  · rw [if_pos hclosed]
    refine ⟨_, rfl, fun hwrote => ?_⟩
    rw [if_pos hwrote]
  · rw [if_neg hclosed, hput]
    exact ⟨_, rfl, nofun⟩

theorem generatedWrite_refused {disk : Disk} {file : PreparedFile}
    (h : outside.fopen disk.calls = true → ∃ errno, disk.tree.creat (pathSteps file.path) =
      .error errno) :
    generatedWrite outside file disk = (false, ⟨disk.tree, disk.calls + 1⟩) := by
  unfold generatedWrite
  by_cases hopened : outside.fopen disk.calls = true
  · obtain ⟨errno, hcreat⟩ := h hopened
    rw [if_pos hopened, hcreat]
  · rw [if_neg hopened]

/-- One file after its calls: written in full, or gone with its `unlink`. -/
theorem generatedWrite_cases (h : Progress start run written) {file : PreparedFile}
    (huntouched : Untouched start written file) :
    ((generatedWrite outside file run.disk).1 = true →
        Progress start ⟨(generatedWrite outside file run.disk).2, run.created⟩
          (written ++ [file])) ∧
      ((generatedWrite outside file run.disk).1 = false →
        (generatedWrite outside file run.disk).2.tree.unlink (pathSteps file.path) =
          run.disk.tree) := by
  by_cases hgranted : outside.fopen run.disk.calls = true ∧
      ∃ place, run.disk.tree.creat (pathSteps file.path) = .ok place
  · obtain ⟨hfopen, place, hcreat⟩ := hgranted
    obtain ⟨rfl, hopened⟩ := h.opened huntouched hcreat
    obtain ⟨content, htree, hcontent⟩ := generatedWrite_opened outside hopened hfopen hcreat
    constructor
    · intro hdone
      rw [hcontent hdone] at htree
      exact h.write hopened htree
    · intro _
      rw [htree]
      exact hopened.unlink content
  · have hrefused : generatedWrite outside file run.disk =
        (false, ⟨run.disk.tree, run.disk.calls + 1⟩) := by
      refine generatedWrite_refused outside fun hopened => ?_
      cases hcreat : run.disk.tree.creat (pathSteps file.path) with
      | error errno => exact ⟨errno, rfl⟩
      | ok place => exact absurd ⟨hopened, place, hcreat⟩ hgranted
    rw [hrefused]
    exact ⟨nofun, fun _ => h.unlink_untouched huntouched⟩

theorem unlinkAll {files : List PreparedFile} {tree : FileTree Bytes Bytes}
    (hgrown : Grown start tree (run.created.map pathPlace)
      (files.map fun file => (pathPlace file.path, file.content)))
    (hreached : ∀ file ∈ files, Plain file.path ∧
      tree.walk [] (pathSteps file.path) = some (pathPlace file.path)) :
    Grown start (files.foldl (fun tree file => tree.unlink (pathSteps file.path)) tree)
      (run.created.map pathPlace) [] := by
  induction files generalizing tree with
  | nil => exact hgrown
  | cons file files ih =>
    rw [List.foldl_cons]
    have hwalk := (hreached file List.mem_cons_self).2
    rw [FileTree.unlink_walk hwalk]
    have hafter := hgrown.unlink
    refine ih hafter fun other hother => ?_
    have hplain := (hreached other (List.mem_cons_of_mem file hother)).1
    refine ⟨hplain, FileTree.walk_within hplain
      (hreached other (List.mem_cons_of_mem file hother)).2 ?_ ?_⟩
    · rw [hafter.file _ (List.mem_map_of_mem hother)]
      exact Option.some_ne_none _
    · intro place hdirectory hplace
      have hfile := hgrown.file _ List.mem_cons_self
      rw [FileTree.node_unlinkAt hfile] at hplace
      unfold FileTree.IsDirectory
      rw [FileTree.node_unlinkAt hfile]
      by_cases heq : place = pathPlace file.path
      · exact absurd (if_pos heq) hplace
      · rw [if_neg heq]
        exact hdirectory

theorem rmdirAll {created : List Bytes} {tree : FileTree Bytes Bytes}
    (hgrown : Grown start tree (created.map pathPlace) [])
    (hcreated : ∀ path ∈ created, Plain path ∧
      ((pathSteps path).rdropWhile (· = .empty)).getLast? ≠ some .dot) :
    created.reverse.foldl (fun tree path => tree.rmdir (pathSteps path)) tree = start := by
  induction created using List.reverseRecOn generalizing tree with
  | nil => exact hgrown.eq_start
  | append_singleton created path ih =>
    rw [List.reverse_concat, List.foldl_cons]
    rw [List.map_append, List.map_singleton] at hgrown
    obtain ⟨hplain, hlast⟩ := hcreated path (List.mem_append_right _ List.mem_cons_self)
    have hdirectory := hgrown.directory (pathPlace path)
      (List.mem_append_right _ List.mem_cons_self)
    rw [FileTree.rmdir_directory hplain hlast hdirectory]
    exact ih hgrown.rmdir fun other hother => hcreated other (List.mem_append_left _ hother)

theorem generatedCleanup_start (h : Progress start run written) :
    generatedCleanup written run = start :=
  rmdirAll (unlinkAll h.grown h.reached) h.created

theorem generatorWriteLoop_cases {files : List PreparedFile} (h : Progress start run written)
    (hplain : ∀ file ∈ files, Plain file.path)
    (habsent : ∀ file ∈ files, start.access (pathSteps file.path) = false)
    (hdistinct : ((written ++ files).map fun file => pathPlace file.path).Nodup) :
    (∃ error, generatorWriteLoop outside written files run = (.error error, start)) ∨
      ∃ after, generatorWriteLoop outside written files run = (.ok (), after.disk.tree) ∧
        Progress start after (written ++ files) := by
  induction files generalizing run written with
  | nil =>
    rw [List.append_nil]
    exact .inr ⟨run, rfl, h⟩
  | cons file files ih =>
    rw [generatorWriteLoop]
    have hparents := generatedParentDirs_progress outside h
      (hplain file List.mem_cons_self)
    cases hmade : generatedParentDirs outside file.path run with
    | mk made after =>
      rw [hmade] at hparents
      cases made with
      | false => exact .inl ⟨_, congrArg (Prod.mk _) (generatedCleanup_start hparents)⟩
      | true =>
        have hsplit : written ++ file :: files = written ++ [file] ++ files := by
          rw [List.append_assoc]
          rfl
        have huntouched : Untouched start written file :=
          { plain := hplain file List.mem_cons_self
            absent := habsent file List.mem_cons_self
            apart := by
              intro hmem
              rw [List.map_append, List.map_cons] at hdistinct
              exact List.disjoint_left.mp (List.disjoint_of_nodup_append hdistinct) hmem
                List.mem_cons_self }
        obtain ⟨hdone, hfailed⟩ := generatedWrite_cases outside hparents huntouched
        dsimp only
        cases hwritten : generatedWrite outside file after.disk with
        | mk done disk =>
          rw [hwritten] at hdone hfailed
          cases done with
          | true =>
            rw [hsplit] at hdistinct ⊢
            exact ih (hdone rfl) (fun other hother => hplain other (List.mem_cons_of_mem _ hother))
              (fun other hother => habsent other (List.mem_cons_of_mem _ hother)) hdistinct
          | false =>
            refine .inl ⟨_, congrArg (Prod.mk _) ?_⟩
            rw [hfailed rfl]
            exact generatedCleanup_start (hparents.calls _)

structure Prepares (project : CeasyProject) (tree : FileTree Bytes Bytes) (file : GeneratedFile)
    (prepared : PreparedFile) : Prop where
  content : file.content = some prepared.content
  path : prepared.path = project.root ++ ch '/' :: file.relative
  absent : tree.access (pathSteps prepared.path) = false

theorem generatorPrepare_ok {project : CeasyProject} {tree : FileTree Bytes Bytes}
    {files : List GeneratedFile} {prepared : List PreparedFile}
    (h : generatorPrepare project tree files = .ok prepared) :
    List.Forall₂ (Prepares project tree) files prepared := by
  induction files generalizing prepared with
  | nil =>
    cases h
    exact .nil
  | cons file files ih =>
    rw [generatorPrepare] at h
    cases hcontent : file.content with
    | none =>
      rw [hcontent] at h
      cases h
    | some content =>
      rw [hcontent] at h
      dsimp only at h
      cases hpath : projectPath project file.relative PATH_MAX with
      | none =>
        rw [hpath] at h
        cases h
      | some path =>
        rw [hpath] at h
        dsimp only at h
        by_cases haccess : tree.access (pathSteps path) = true
        · rw [if_pos haccess] at h
          cases h
        · rw [if_neg haccess] at h
          cases hrest : generatorPrepare project tree files with
          | error error =>
            rw [hrest] at h
            cases h
          | ok rest =>
            rw [hrest] at h
            cases h
            exact .cons ⟨hcontent, projectPath_eq hpath, Bool.eq_false_of_not_eq_true haccess⟩
              (ih hrest)

def CeasyProject.place (project : CeasyProject) (relative : Bytes) : List Bytes :=
  pathPlace project.root ++ pathPlace relative

theorem prepares_places {project : CeasyProject} {tree : FileTree Bytes Bytes}
    {files : List GeneratedFile} {prepared : List PreparedFile}
    (h : List.Forall₂ (Prepares project tree) files prepared) :
    (prepared.map fun file => pathPlace file.path) =
      files.map fun file => project.place file.relative := by
  induction h with
  | nil => rfl
  | cons hfile _ ih =>
    rw [List.map_cons, List.map_cons, ih, hfile.path, pathPlace_append]
    rfl

theorem prepares_mem {project : CeasyProject} {tree : FileTree Bytes Bytes}
    {files : List GeneratedFile} {prepared : List PreparedFile}
    (h : List.Forall₂ (Prepares project tree) files prepared) :
    (∀ file ∈ files, ∃ next ∈ prepared, Prepares project tree file next) ∧
      ∀ next ∈ prepared, ∃ file ∈ files, Prepares project tree file next := by
  induction h with
  | nil => exact ⟨nofun, nofun⟩
  | @cons file next files prepared hfile _ ih =>
    constructor
    · intro other hother
      rcases List.mem_cons.mp hother with rfl | hrest
      · exact ⟨next, List.mem_cons_self, hfile⟩
      · obtain ⟨found, hfound, hprepares⟩ := ih.1 other hrest
        exact ⟨found, List.mem_cons_of_mem _ hfound, hprepares⟩
    · intro other hother
      rcases List.mem_cons.mp hother with rfl | hrest
      · exact ⟨file, List.mem_cons_self, hfile⟩
      · obtain ⟨found, hfound, hprepares⟩ := ih.2 other hrest
        exact ⟨found, List.mem_cons_of_mem _ hfound, hprepares⟩

theorem Progress.read (h : Progress start run written) {file : PreparedFile}
    (hfile : file ∈ written) :
    run.disk.tree.read (pathSteps file.path) = some file.content := by
  unfold FileTree.read
  rw [(h.reached file hfile).2, Option.bind_some,
    h.grown.file _ (List.mem_map_of_mem hfile)]

theorem Progress.others (h : Progress start run written) {place : List Bytes}
    (hplace : place ∉ written.map fun file => pathPlace file.path) :
    run.disk.tree.node place = start.node place ∨
      start.node place = none ∧ run.disk.tree.IsDirectory place := by
  by_cases hcreated : place ∈ run.created.map pathPlace
  · exact .inr ⟨h.grown.fresh_directory place hcreated, h.grown.directory place hcreated⟩
  · refine .inl (h.grown.kept place hcreated ?_)
    rw [List.map_map]
    exact hplace

theorem generatorWriteLoop_atomic {project : CeasyProject} {files : List GeneratedFile}
    {tree : FileTree Bytes Bytes} {prepared : List PreparedFile}
    (hprepared : List.Forall₂ (Prepares project tree) files prepared)
    (hplain : ∀ file ∈ files, Plain file.relative)
    (hdistinct : (files.map fun file => pathPlace file.relative).Nodup) :
    (∃ error, generatorWriteLoop outside [] prepared ⟨⟨tree, 0⟩, []⟩ = (.error error, tree)) ∨
      ∃ after, generatorWriteLoop outside [] prepared ⟨⟨tree, 0⟩, []⟩ = (.ok (), after.disk.tree) ∧
        Progress tree after prepared := by
  have hstart : Progress tree ⟨⟨tree, 0⟩, []⟩ [] := ⟨Grown.refl tree, nofun, nofun⟩
  have hmem := prepares_mem hprepared
  refine generatorWriteLoop_cases outside hstart ?_ ?_ ?_
  · intro next hnext
    obtain ⟨file, hfile, hprepares⟩ := hmem.2 next hnext
    rw [hprepares.path]
    exact plain_append.mpr ⟨project.resolved, hplain file hfile⟩
  · intro next hnext
    obtain ⟨file, hfile, hprepares⟩ := hmem.2 next hnext
    exact hprepares.absent
  · rw [List.nil_append, prepares_places hprepared]
    have hplaces : (files.map fun file => project.place file.relative) =
        (files.map fun file => pathPlace file.relative).map (pathPlace project.root ++ ·) := by
      rw [List.map_map]
      rfl
    rw [hplaces]
    exact hdistinct.map (List.append_right_injective _)

/-- What may be of a tree when the call comes back. -/
def AllOrNothing (project : CeasyProject) (files : List GeneratedFile)
    (tree : FileTree Bytes Bytes) : Except GeneratorError Unit × FileTree Bytes Bytes → Prop
  | (.error _, after) => after = tree
  | (.ok (), after) =>
    (∀ file ∈ files, ∃ content, file.content = some content ∧
      after.read (pathSteps (project.root ++ sv "/" ++ file.relative)) = some content) ∧
    ∀ place, place ∉ (files.map fun file => project.place file.relative) →
      after.node place = tree.node place ∨
        tree.node place = none ∧ after.IsDirectory place

theorem AllOrNothing.of_error {project : CeasyProject} {files : List GeneratedFile}
    {tree : FileTree Bytes Bytes} {result : Except GeneratorError Unit × FileTree Bytes Bytes}
    (h : AllOrNothing project files tree result) (hrefused : result.1.isOk = false) :
    result.2 = tree := by
  obtain ⟨_ | _, after⟩ := result
  · exact h
  · cases hrefused

theorem AllOrNothing.of_ok {project : CeasyProject} {files : List GeneratedFile}
    {tree : FileTree Bytes Bytes} {result : Except GeneratorError Unit × FileTree Bytes Bytes}
    (h : AllOrNothing project files tree result) (hdone : result.1.isOk = true) :
    ∀ file ∈ files, ∃ content, file.content = some content ∧
      result.2.read (pathSteps (project.root ++ sv "/" ++ file.relative)) = some content := by
  obtain ⟨_ | _, after⟩ := result
  · cases hdone
  · exact h.1

theorem generatorWriteFiles_atomic (outside : Outside) (project : CeasyProject)
    (files : List GeneratedFile) (tree : FileTree Bytes Bytes)
    (hplain : ∀ file ∈ files, Plain file.relative)
    (hdistinct : (files.map fun file => pathPlace file.relative).Nodup) :
    AllOrNothing project files tree (generatorWriteFiles outside project files tree) := by
  unfold generatorWriteFiles
  by_cases hmany : 16 < files.length
  · rw [if_pos hmany]
    rfl
  rw [if_neg hmany]
  by_cases hlong : (files.any (PATH_MAX ≤ ·.relative.length)) = true
  · rw [if_pos hlong]
    rfl
  rw [if_neg hlong]
  cases hprepare : generatorPrepare project tree files with
  | error error => rfl
  | ok prepared =>
    have hprepared := generatorPrepare_ok hprepare
    rcases generatorWriteLoop_atomic outside hprepared hplain hdistinct with
      ⟨error, hloop⟩ | ⟨after, hloop, hprogress⟩
    · dsimp only
      rw [hloop]
      rfl
    · dsimp only
      rw [hloop]
      constructor
      · intro file hfile
        obtain ⟨next, hnext, hprepares⟩ := (prepares_mem hprepared).1 file hfile
        refine ⟨next.content, hprepares.content, ?_⟩
        have hpath : project.root ++ sv "/" ++ file.relative = next.path := by
          rw [hprepares.path, List.append_assoc]
          rfl
        rw [hpath]
        exact hprogress.read hnext
      · intro place hplace
        rw [← prepares_places hprepared] at hplace
        exact hprogress.others hplace

def sampleProject : CeasyProject where
  root := sv "/p"
  absolute := rfl
  resolved := by decide

def sampleOutside : Outside where
  mkdir _ := true
  fopen _ := true
  fwrite _ := true
  fclose _ := true
  torn _ := []

theorem generatorWriteFiles_atomic_post :
    AllOrNothing sampleProject [⟨sv "src/post.h", some (sv "header")⟩,
        ⟨sv "src/post.c", some (sv "source")⟩] FileTree.bareRoot
      (generatorWriteFiles { sampleOutside with fclose := (· = 4) } sampleProject
        [⟨sv "src/post.h", some (sv "header")⟩, ⟨sv "src/post.c", some (sv "source")⟩]
        FileTree.bareRoot) :=
  generatorWriteFiles_atomic _ _ _ _ (by decide) (by decide)

def sampleTree : FileTree Bytes Bytes :=
  (FileTree.bareRoot.put [sv "p"] .directory).put [sv "p", sv "kept"] (.file (sv "old"))

def upwardFiles : List GeneratedFile := [⟨sv "new/../kept", some (sv "text")⟩]

def twiceFiles : List GeneratedFile :=
  [⟨sv "a", some (sv "first")⟩, ⟨sv "./a", some (sv "second")⟩]

/-- A file is not seen to exist past a missing directory that its path leaves again, and
goes with the failure. Of two files at one place, the first has the content of the second. -/
theorem generatorWriteFiles_escapes :
    (upwardFiles.map GeneratedFile.relative).Nodup ∧
      ¬AllOrNothing sampleProject upwardFiles sampleTree (generatorWriteFiles
        { sampleOutside with fwrite := fun _ => false } sampleProject upwardFiles sampleTree) ∧
      (twiceFiles.map GeneratedFile.relative).Nodup ∧
      ¬AllOrNothing sampleProject twiceFiles sampleTree
        (generatorWriteFiles sampleOutside sampleProject twiceFiles sampleTree) := by
  refine ⟨by decide, fun h => ?_, by decide, fun h => ?_⟩
  · have htree := h.of_error (by decide +kernel)
    have hbefore : sampleTree.node [sv "p", sv "kept"] ≠ none := by decide +kernel
    rw [← htree] at hbefore
    exact hbefore (by decide +kernel)
  · obtain ⟨content, hcontent, hread⟩ := h.of_ok (by decide +kernel) _ List.mem_cons_self
    cases hcontent
    revert hread
    decide +kernel

def migrationRelative (timestamp name : Bytes) : Bytes :=
  sv "db/migrations/" ++ (timestamp ++ sv "_" ++ name ++ sv ".sql")

def modelRelatives (fileStem plural timestamp : Bytes) : List Bytes :=
  [sv "src/models/" ++ (fileStem ++ sv ".h"), sv "src/models/" ++ (fileStem ++ sv ".c"),
    migrationRelative timestamp (sv "create_" ++ plural),
    sv "test/models/" ++ (fileStem ++ sv "_test.c")]

theorem pathSteps_name {name : Bytes} {c : UInt8} (hslash : ch '/' ∉ name)
    (hlast : name.getLast? = some c) (hc : c ≠ ch '.') : pathSteps name = [.entry name] := by
  have hentry : ∀ word, word.getLast? ≠ some c → name ≠ word := by
    rintro word hword rfl
    exact hword hlast
  have hdot : some (ch '.') ≠ some c := fun h => hc (Option.some.inj h).symm
  unfold pathSteps
  rw [List.splitOn_eq_singleton hslash, List.map_singleton, pathStep, if_neg (hentry [] nofun),
    if_neg (hentry (sv ".") hdot), if_neg (hentry (sv "..") hdot)]

theorem pathSteps_below {directory first second base ending : Bytes} {c : UInt8}
    (hdirectory : directory = first ++ sv "/" ++ second ++ sv "/")
    (hfirst : pathSteps first = [.entry first]) (hsecond : pathSteps second = [.entry second])
    (hbase : ch '/' ∉ base) (hending : ch '/' ∉ ending) (hlast : ending.getLast? = some c)
    (hc : c ≠ ch '.') :
    pathSteps (directory ++ (base ++ ending)) =
      [.entry first, .entry second, .entry (base ++ ending)] := by
  have hpath : directory ++ (base ++ ending) =
      first ++ ch '/' :: (second ++ ch '/' :: (base ++ ending)) := by
    rw [hdirectory, List.append_assoc, List.append_assoc, List.append_assoc]
    rfl
  have hslash : ch '/' ∉ base ++ ending := by
    rw [List.mem_append]
    exact not_or.mpr ⟨hbase, hending⟩
  have hname : pathSteps (base ++ ending) = [.entry (base ++ ending)] := by
    refine pathSteps_name hslash ?_ hc
    rw [List.getLast?_append, hlast]
    rfl
  rw [hpath, pathSteps_append, pathSteps_append, hfirst, hsecond, hname]
  rfl

/-- The paths of `generator_model` lead to four files. -/
theorem modelRelatives_apart {fileStem plural timestamp : Bytes} (hstem : ch '/' ∉ fileStem)
    (hplural : ch '/' ∉ plural) (htimestamp : ch '/' ∉ timestamp) :
    (∀ relative ∈ modelRelatives fileStem plural timestamp, Plain relative) ∧
      ((modelRelatives fileStem plural timestamp).map pathPlace).Nodup := by
  have hmigration : ch '/' ∉ timestamp ++ sv "_" ++ (sv "create_" ++ plural) := by
    rw [List.mem_append, List.mem_append, List.mem_append, not_or, not_or, not_or]
    exact ⟨⟨htimestamp, by decide⟩, by decide, hplural⟩
  have hheader : pathSteps (sv "src/models/" ++ (fileStem ++ sv ".h")) =
      [.entry (sv "src"), .entry (sv "models"), .entry (fileStem ++ sv ".h")] :=
    pathSteps_below (c := ch 'h') rfl (by decide) (by decide) hstem (by decide) rfl (by decide)
  have hsource : pathSteps (sv "src/models/" ++ (fileStem ++ sv ".c")) =
      [.entry (sv "src"), .entry (sv "models"), .entry (fileStem ++ sv ".c")] :=
    pathSteps_below (c := ch 'c') rfl (by decide) (by decide) hstem (by decide) rfl (by decide)
  have hsql : pathSteps (migrationRelative timestamp (sv "create_" ++ plural)) =
      [.entry (sv "db"), .entry (sv "migrations"),
        .entry (timestamp ++ sv "_" ++ (sv "create_" ++ plural) ++ sv ".sql")] :=
    pathSteps_below (c := ch 'l') rfl (by decide) (by decide) hmigration (by decide) rfl
      (by decide)
  have htest : pathSteps (sv "test/models/" ++ (fileStem ++ sv "_test.c")) =
      [.entry (sv "test"), .entry (sv "models"), .entry (fileStem ++ sv "_test.c")] :=
    pathSteps_below (c := ch 'c') rfl (by decide) (by decide) hstem (by decide) rfl (by decide)
  have hnames : fileStem ++ sv ".h" ≠ fileStem ++ sv ".c" := by
    intro h
    exact absurd (List.append_cancel_left h) (by decide)
  constructor
  · unfold modelRelatives Plain
    rw [List.forall_mem_cons, List.forall_mem_cons, List.forall_mem_cons, List.forall_mem_cons,
      hheader, hsource, hsql, htest]
    simp
  · have hdb : sv "src" ≠ sv "db" := by decide
    have htests : sv "src" ≠ sv "test" ∧ sv "db" ≠ sv "test" := by decide
    unfold modelRelatives pathPlace
    rw [List.map_cons, List.map_cons, List.map_cons, List.map_cons, hheader, hsource, hsql, htest]
    simp [placeOf, Step.name?, hnames, hdb, htests]

end Ceasy.GeneratorFiles
