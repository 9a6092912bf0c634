import Mathlib.Data.Finmap
import Mathlib.Data.List.Infix
import Mathlib.Data.List.DropRight

set_option autoImplicit false

/-!
# Trees of files

Directories and files by their places below the root, what the calls of an
operating system make of them, and a record of what was added to a tree, which
undoes it.
-/
namespace Ceasy.FileTrees

inductive Node (κ : Type*) where
  | directory
  | file (content : κ)
deriving DecidableEq, Repr

/-- Every node but the root stands in a directory. -/
structure FileTree (α κ : Type*) [DecidableEq α] where
  nodes : Finmap fun _ : List α => Node κ
  root : nodes.lookup [] = some .directory
  parents : ∀ place name, place ++ [name] ∈ nodes → nodes.lookup place = some .directory

variable {α κ : Type*} [DecidableEq α]

def Node.isDirectory : Node κ → Bool
  | .directory => true
  | .file _ => false

namespace FileTree
variable (tree : FileTree α κ)

def node (place : List α) : Option (Node κ) := tree.nodes.lookup place

def IsDirectory (place : List α) : Prop := tree.node place = some .directory

instance (place : List α) : Decidable (tree.IsDirectory place) :=
  decidable_of_iff ((tree.node place).any Node.isDirectory = true) <| by
    unfold IsDirectory
    rcases tree.node place with _ | _ | _ <;> simp [Node.isDirectory]

variable {tree} in
theorem ext_node {other : FileTree α κ} (h : ∀ place, tree.node place = other.node place) :
    tree = other := by
  have hnodes : tree.nodes = other.nodes := Finmap.ext_lookup h
  cases tree
  cases other
  cases hnodes
  rfl

theorem isDirectory_root : tree.IsDirectory [] := tree.root

variable {tree} in
theorem IsDirectory.ne_none {place : List α} (h : tree.IsDirectory place) :
    tree.node place ≠ none := by
  rw [h]
  exact Option.some_ne_none _

variable {tree} in
theorem not_isDirectory {place : List α} (h : tree.node place = none) :
    ¬tree.IsDirectory place :=
  fun hdirectory => hdirectory.ne_none h

theorem node_root : tree.node [] ≠ none := tree.isDirectory_root.ne_none

variable {tree} in
theorem parent {place : List α} {name : α} (h : tree.node (place ++ [name]) ≠ none) :
    tree.IsDirectory place :=
  tree.parents place name (by rwa [Ne, node, Finmap.lookup_eq_none, not_not] at h)

variable {tree} in
theorem above {place rest : List α} (h : tree.node (place ++ rest) ≠ none) (hrest : rest ≠ []) :
    tree.IsDirectory place := by
  induction rest using List.reverseRecOn with
  | nil => exact absurd rfl hrest
  | append_singleton rest name ih =>
    rw [← List.append_assoc] at h
    have hparent := parent h
    by_cases hnil : rest = []
    · subst hnil
      rwa [List.append_nil] at hparent
    · exact ih hparent.ne_none hnil

variable {tree} in
theorem isDirectory_dropLast {place : List α} (h : tree.node place ≠ none) :
    tree.IsDirectory place.dropLast := by
  induction place using List.reverseRecOn with
  | nil => exact tree.isDirectory_root
  | append_singleton place name _ =>
    rw [List.dropLast_concat]
    exact parent h

def bareRoot : FileTree α κ where
  nodes := Finmap.singleton [] .directory
  root := Finmap.lookup_singleton_eq
  parents := by
    intro place name hmem
    exact absurd ((Finmap.mem_singleton (place ++ [name]) [] Node.directory).mp hmem) (List.concat_ne_nil _ _)

/-- A directory or a file is put at a place, over the file that was there. -/
def put (place : List α) (new : Node κ) : FileTree α κ :=
  if h : place ≠ [] ∧ tree.IsDirectory place.dropLast ∧ ¬tree.IsDirectory place then
    { nodes := tree.nodes.insert place new
      root := by
        rw [Finmap.lookup_insert_of_ne _ h.1.symm]
        exact tree.root
      parents := by
        intro above name habove
        have hdirectory : tree.IsDirectory above := by
          rcases Finmap.mem_insert.mp habove with heq | hold
          · have hparent := h.2.1
            rwa [← heq, List.dropLast_concat] at hparent
          · exact tree.parents above name hold
        have hne : above ≠ place := by
          intro heq
          exact h.2.2 (heq ▸ hdirectory)
        rw [Finmap.lookup_insert_of_ne _ hne]
        exact hdirectory }
  else tree

def Bare (place : List α) : Prop :=
  ∀ other ∈ tree.nodes.keys, other ≠ [] → other.dropLast ≠ place

instance (place : List α) : Decidable (tree.Bare place) :=
  inferInstanceAs (Decidable (∀ other ∈ tree.nodes.keys, other ≠ [] → other.dropLast ≠ place))

variable {tree} in
theorem bare_iff {place : List α} :
    tree.Bare place ↔ ∀ name, tree.node (place ++ [name]) = none := by
  unfold Bare node
  constructor
  · intro h name
    rw [Finmap.lookup_eq_none]
    intro hmem
    exact h _ (Finmap.mem_keys.mpr hmem) (List.concat_ne_nil _ _) List.dropLast_concat
  · intro h other hmem hne heq
    have hnone := h (other.getLast hne)
    rw [← heq, List.dropLast_append_getLast, Finmap.lookup_eq_none] at hnone
    exact hnone (Finmap.mem_keys.mp hmem)

def remove (place : List α) : FileTree α κ :=
  if h : place ≠ [] ∧ tree.Bare place then
    { nodes := tree.nodes.erase place
      root := by
        rw [Finmap.lookup_erase_ne h.1.symm]
        exact tree.root
      parents := by
        intro above name habove
        have hold := (Finmap.mem_erase.mp habove).2
        have hne : above ≠ place := by
          rintro rfl
          exact Finmap.lookup_eq_none.mp (bare_iff.mp h.2 name) hold
        rw [Finmap.lookup_erase_ne hne]
        exact tree.parents above name hold }
  else tree

/-- A file goes, a directory stays. -/
def unlinkAt (place : List α) : FileTree α κ :=
  match tree.node place with
  | some (.file _) => tree.remove place
  | _ => tree

/-- A directory goes when nothing is in it. -/
def rmdirAt (place : List α) : FileTree α κ :=
  if tree.IsDirectory place then tree.remove place else tree

variable {tree}

theorem node_put {place : List α} (hne : place ≠ []) (hparent : tree.IsDirectory place.dropLast)
    (hplace : ¬tree.IsDirectory place) (new : Node κ) (other : List α) :
    (tree.put place new).node other = if other = place then some new else tree.node other := by
  unfold put
  rw [dif_pos ⟨hne, hparent, hplace⟩]
  by_cases heq : other = place
  · subst heq
    rw [if_pos rfl]
    exact Finmap.lookup_insert _
  · rw [if_neg heq]
    exact Finmap.lookup_insert_of_ne _ heq

theorem node_remove {place : List α} (hne : place ≠ []) (hbare : tree.Bare place)
    (other : List α) :
    (tree.remove place).node other = if other = place then none else tree.node other := by
  unfold remove
  rw [dif_pos ⟨hne, hbare⟩]
  by_cases heq : other = place
  · subst heq
    rw [if_pos rfl]
    exact Finmap.lookup_erase _ _
  · rw [if_neg heq]
    exact Finmap.lookup_erase_ne heq

theorem bare_of_not_directory {place : List α} (h : ¬tree.IsDirectory place) :
    tree.Bare place := by
  rw [bare_iff]
  intro name
  by_contra hname
  exact h (parent hname)

theorem node_unlinkAt {place : List α} {content : κ} (h : tree.node place = some (.file content))
    (other : List α) :
    (tree.unlinkAt place).node other = if other = place then none else tree.node other := by
  have hplace : ¬tree.IsDirectory place := by
    unfold IsDirectory
    rw [h]
    simp
  have hne : place ≠ [] := by
    rintro rfl
    exact hplace tree.isDirectory_root
  unfold unlinkAt
  rw [h]
  exact node_remove hne (bare_of_not_directory hplace) other

theorem unlinkAt_none {place : List α} (h : tree.node place = none) :
    tree.unlinkAt place = tree := by
  unfold unlinkAt
  rw [h]

theorem unlinkAt_directory {place : List α} (h : tree.IsDirectory place) :
    tree.unlinkAt place = tree := by
  unfold IsDirectory at h
  unfold unlinkAt
  rw [h]

theorem put_put {place : List α} (hne : place ≠ []) (hparent : tree.IsDirectory place.dropLast)
    (hplace : ¬tree.IsDirectory place) (first second : κ) :
    (tree.put place (.file first)).put place (.file second) = tree.put place (.file second) := by
  have hfirst := node_put hne hparent hplace (.file first)
  have hsecond := node_put hne hparent hplace (.file second)
  have habove : place.dropLast ≠ place := by
    intro heq
    exact hplace (heq ▸ hparent)
  have hparent' : (tree.put place (.file first)).IsDirectory place.dropLast := by
    unfold IsDirectory
    rw [hfirst, if_neg habove]
    exact hparent
  have hplace' : ¬(tree.put place (.file first)).IsDirectory place := by
    unfold IsDirectory
    rw [hfirst, if_pos rfl]
    simp
  apply ext_node
  intro other
  rw [node_put hne hparent' hplace', hfirst, hsecond]
  by_cases heq : other = place
  · rw [if_pos heq, if_pos heq]
  · rw [if_neg heq, if_neg heq, if_neg heq]

theorem unlinkAt_put {place : List α} (hne : place ≠ [])
    (hparent : tree.IsDirectory place.dropLast) (hnone : tree.node place = none) (content : κ) :
    (tree.put place (.file content)).unlinkAt place = tree := by
  have hplace := not_isDirectory hnone
  have hnode := node_put hne hparent hplace (.file content)
  apply ext_node
  intro other
  rw [node_unlinkAt (by rw [hnode, if_pos rfl]), hnode]
  by_cases heq : other = place
  · rw [if_pos heq, heq, hnone]
  · rw [if_neg heq, if_neg heq]

end FileTree

/-! A path is walked component by component, and every directory on the way has to be
there, also when the next component leaves it again. -/

inductive Step (α : Type*) where
  | empty
  | dot
  | dotdot
  | entry (name : α)
deriving DecidableEq, Repr

inductive Errno where
  | eexist
  | enoent
  | eisdir
  | eio
deriving DecidableEq, Repr

def Step.name? : Step α → Option α
  | .entry name => some name
  | _ => none

def Step.lead (here : List α) : Step α → List α
  | .empty => here
  | .dot => here
  | .dotdot => here.dropLast
  | .entry name => here ++ [name]

/-- The names of a path, which are its place when no `..` is in it. -/
def placeOf (steps : List (Step α)) : List α := steps.filterMap Step.name?

omit [DecidableEq α] in
theorem lead_placeOf {step : Step α} (h : step ≠ .dotdot) (here : List α)
    (steps : List (Step α)) :
    step.lead here ++ placeOf steps = here ++ placeOf (step :: steps) := by
  cases step with
  | empty => rfl
  | dot => rfl
  | dotdot => exact absurd rfl h
  | entry name => exact List.append_assoc here [name] (placeOf steps)

namespace FileTree
variable (tree : FileTree α κ)

def walk : List α → List (Step α) → Option (List α)
  | here, [] => some here
  | here, step :: steps =>
    if tree.IsDirectory here then walk (step.lead here) steps else none

/-- `access` with `F_OK`. -/
def access (steps : List (Step α)) : Bool :=
  match tree.walk [] steps with
  | none => false
  | some place => (tree.node place).isSome

/-- The name of a directory to be made may end in slashes. -/
def mkdir (steps : List (Step α)) : Except Errno (FileTree α κ) :=
  match tree.walk [] (steps.rdropWhile (· = .empty)) with
  | none => .error .enoent
  | some place =>
    if (tree.node place).isSome then .error .eexist else .ok (tree.put place .directory)

/-- `open` for writing: which file is created or emptied. -/
def creat (steps : List (Step α)) : Except Errno (List α) :=
  match tree.walk [] steps with
  | none => .error .enoent
  | some place => if tree.IsDirectory place then .error .eisdir else .ok place

def read (steps : List (Step α)) : Option κ :=
  match (tree.walk [] steps).bind tree.node with
  | some (.file content) => some content
  | _ => none

def unlink (steps : List (Step α)) : FileTree α κ :=
  match tree.walk [] steps with
  | none => tree
  | some place => tree.unlinkAt place

/-- A last component `.` is refused. -/
def rmdir (steps : List (Step α)) : FileTree α κ :=
  if (steps.rdropWhile (· = .empty)).getLast? = some .dot then tree
  else
    match tree.walk [] steps with
    | none => tree
    | some place => tree.rmdirAt place

variable {tree}

theorem walk_place {here place : List α} {steps : List (Step α)} (hplain : .dotdot ∉ steps)
    (h : tree.walk here steps = some place) : place = here ++ placeOf steps := by
  induction steps generalizing here with
  | nil =>
    exact (Option.some.inj h).symm.trans (List.append_nil here).symm
  | cons step steps ih =>
    rw [List.mem_cons, not_or] at hplain
    rw [walk] at h
    by_cases hhere : tree.IsDirectory here
    · rw [if_pos hhere] at h
      rw [ih hplain.2 h, lead_placeOf (Ne.symm hplain.1)]
    · rw [if_neg hhere] at h
      cases h

/-- Where a walk ends, there is a node, or there could be one. -/
theorem walk_open {here place : List α} {steps : List (Step α)}
    (hhere : tree.node here = none → here ≠ [] ∧ tree.IsDirectory here.dropLast)
    (h : tree.walk here steps = some place) (hnone : tree.node place = none) :
    place ≠ [] ∧ tree.IsDirectory place.dropLast := by
  induction steps generalizing here with
  | nil =>
    cases h
    exact hhere hnone
  | cons step steps ih =>
    rw [walk] at h
    by_cases hdirectory : tree.IsDirectory here
    · have hsome := hdirectory.ne_none
      rw [if_pos hdirectory] at h
      cases step with
      | empty => exact ih hhere h
      | dot => exact ih hhere h
      | dotdot =>
        exact ih (fun habsent => absurd habsent (isDirectory_dropLast hsome).ne_none) h
      | entry name =>
        refine ih (fun _ => ⟨List.concat_ne_nil _ _, ?_⟩) h
        rwa [List.dropLast_concat]
    · rw [if_neg hdirectory] at h
      cases h

/-- A walk goes the same way in a tree with the same directories above its end. -/
theorem walk_within {other : FileTree α κ} {here place : List α} {steps : List (Step α)}
    (hplain : .dotdot ∉ steps) (h : tree.walk here steps = some place)
    (hplace : other.node place ≠ none)
    (hsame : ∀ p, tree.IsDirectory p → other.node p ≠ none → other.IsDirectory p) :
    other.walk here steps = some place := by
  induction steps generalizing here with
  | nil => exact h
  | cons step steps ih =>
    have hend := walk_place hplain h
    rw [List.mem_cons, not_or] at hplain
    rw [walk] at h ⊢
    by_cases hhere : tree.IsDirectory here
    · have hother : other.IsDirectory here := by
        apply hsame here hhere
        by_cases hnil : placeOf (step :: steps) = []
        · rwa [hend, hnil, List.append_nil] at hplace
        · rw [hend] at hplace
          exact (above hplace hnil).ne_none
      rw [if_pos hhere] at h
      rw [if_pos hother]
      exact ih hplain.2 h
    · rw [if_neg hhere] at h
      cases h

theorem walk_directory {here : List α} {steps : List (Step α)} (hplain : .dotdot ∉ steps)
    (h : tree.IsDirectory (here ++ placeOf steps)) :
    tree.walk here steps = some (here ++ placeOf steps) := by
  induction steps generalizing here with
  | nil => rw [walk, placeOf, List.filterMap_nil, List.append_nil]
  | cons step steps ih =>
    have hhere : tree.IsDirectory here := by
      by_cases hnil : placeOf (step :: steps) = []
      · rwa [hnil, List.append_nil] at h
      · exact above h.ne_none hnil
    rw [List.mem_cons, not_or] at hplain
    rw [← lead_placeOf (Ne.symm hplain.1)] at h ⊢
    rw [walk, if_pos hhere]
    exact ih hplain.2 h

theorem walk_dot {here place : List α} {steps : List (Step α)}
    (h : tree.walk here (steps ++ [.dot]) = some place) : tree.IsDirectory place := by
  induction steps generalizing here with
  | nil =>
    rw [List.nil_append, walk] at h
    by_cases hhere : tree.IsDirectory here
    · rw [if_pos hhere] at h
      cases h
      exact hhere
    · rw [if_neg hhere] at h
      cases h
  | cons step steps ih =>
    rw [List.cons_append, walk] at h
    by_cases hhere : tree.IsDirectory here
    · rw [if_pos hhere] at h
      exact ih h
    · rw [if_neg hhere] at h
      cases h

theorem placeOf_rdropWhile (steps : List (Step α)) :
    placeOf (steps.rdropWhile (· = .empty)) = placeOf steps := by
  induction steps using List.reverseRecOn with
  | nil => rfl
  | append_singleton steps step ih =>
    rw [List.rdropWhile_concat]
    split_ifs with hempty
    · rw [ih, of_decide_eq_true hempty]
      unfold placeOf
      rw [List.filterMap_append]
      exact (List.append_nil _).symm
    · rfl

theorem dotdot_rdropWhile {steps : List (Step α)} (h : .dotdot ∉ steps) :
    .dotdot ∉ steps.rdropWhile (· = .empty) :=
  fun hmem => h ((List.rdropWhile_prefix _ steps).subset hmem)

/-- A directory is made where nothing was, in a directory that was there. -/
structure Made (tree after : FileTree α κ) (place : List α) : Prop where
  ne_nil : place ≠ []
  parent : tree.IsDirectory place.dropLast
  absent : tree.node place = none
  after : after = tree.put place .directory

theorem mkdir_made {after : FileTree α κ} {steps : List (Step α)} (hplain : .dotdot ∉ steps)
    (h : tree.mkdir steps = .ok after) :
    Made tree after (placeOf steps) ∧
      (steps.rdropWhile (· = .empty)).getLast? ≠ some .dot := by
  unfold mkdir at h
  cases hwalk : tree.walk [] (steps.rdropWhile (· = .empty)) with
  | none =>
    rw [hwalk] at h
    cases h
  | some place =>
    rw [hwalk] at h
    dsimp only at h
    cases hnode : tree.node place with
    | some node =>
      rw [hnode, if_pos Option.isSome_some] at h
      cases h
    | none =>
      rw [hnode, if_neg (by simp)] at h
      have hplace := walk_place (dotdot_rdropWhile hplain) hwalk
      rw [List.nil_append, placeOf_rdropWhile] at hplace
      have hopen := walk_open (fun hnone => absurd hnone tree.node_root)
        hwalk hnode
      rw [← hplace]
      refine ⟨⟨hopen.1, hopen.2, hnode, (Except.ok.inj h).symm⟩, ?_⟩
      intro hlast
      obtain ⟨front, hfront⟩ := List.getLast?_eq_some_iff.mp hlast
      rw [hfront] at hwalk
      exact (walk_dot hwalk).ne_none hnode

theorem creat_ok {place : List α} {steps : List (Step α)} (hplain : .dotdot ∉ steps)
    (h : tree.creat steps = .ok place) :
    tree.walk [] steps = some place ∧ place = placeOf steps ∧ ¬tree.IsDirectory place ∧
      (tree.node place = none → place ≠ [] ∧ tree.IsDirectory place.dropLast) := by
  unfold creat at h
  cases hwalk : tree.walk [] steps with
  | none =>
    rw [hwalk] at h
    cases h
  | some found =>
    rw [hwalk] at h
    dsimp only at h
    by_cases hdirectory : tree.IsDirectory found
    · rw [if_pos hdirectory] at h
      cases h
    · rw [if_neg hdirectory] at h
      cases Except.ok.inj h
      refine ⟨rfl, ?_, hdirectory, ?_⟩
      · exact walk_place hplain hwalk
      · exact walk_open (fun hnone => absurd hnone tree.node_root) hwalk

theorem unlink_walk {place : List α} {steps : List (Step α)}
    (h : tree.walk [] steps = some place) : tree.unlink steps = tree.unlinkAt place := by
  unfold unlink
  rw [h]

theorem rmdir_directory {steps : List (Step α)} (hplain : .dotdot ∉ steps)
    (hlast : (steps.rdropWhile (· = .empty)).getLast? ≠ some .dot)
    (h : tree.IsDirectory (placeOf steps)) :
    tree.rmdir steps = tree.rmdirAt (placeOf steps) := by
  unfold rmdir
  rw [if_neg hlast, walk_directory hplain h]
  rfl

end FileTree

/-! `Grown start tree directories files` says that `tree` is `start` with the directories
made and the files written, and with nothing else changed. A later directory stands
above no earlier one, so that they go in the opposite order. -/

structure Grown (start tree : FileTree α κ) (directories : List (List α))
    (files : List (List α × κ)) : Prop where
  fresh_directory : ∀ p ∈ directories, start.node p = none
  fresh_file : ∀ f ∈ files, start.node f.1 = none
  directory : ∀ p ∈ directories, tree.IsDirectory p
  file : ∀ f ∈ files, tree.node f.1 = some (.file f.2)
  kept : ∀ p, p ∉ directories → p ∉ files.map Prod.fst → tree.node p = start.node p
  ordered : directories.Pairwise fun earlier later => ¬later <+: earlier
  distinct : (files.map Prod.fst).Nodup

namespace Grown
variable {start tree : FileTree α κ} {directories : List (List α)} {files : List (List α × κ)}

theorem refl (tree : FileTree α κ) : Grown tree tree [] [] where
  fresh_directory := nofun
  fresh_file := nofun
  directory := nofun
  file := nofun
  kept _ _ _ := rfl
  ordered := .nil
  distinct := List.nodup_nil

theorem eq_start (h : Grown start tree [] []) : tree = start :=
  FileTree.ext_node fun p => h.kept p List.not_mem_nil List.not_mem_nil

/-- What is new is not in the tree from before, and what was there stays. -/
theorem node_start (h : Grown start tree directories files) {p : List α}
    (hp : start.node p ≠ none) : tree.node p = start.node p := by
  apply h.kept p
  · intro hmem
    exact hp (h.fresh_directory p hmem)
  · intro hmem
    obtain ⟨f, hf, rfl⟩ := List.mem_map.mp hmem
    exact hp (h.fresh_file f hf)

theorem start_none (h : Grown start tree directories files) {p : List α}
    (hp : tree.node p = none) : start.node p = none := by
  by_contra hstart
  rw [h.node_start hstart] at hp
  exact hstart hp

/-- A file of the tree was there before, or is one of those written. -/
theorem file_cases (h : Grown start tree directories files) {p : List α} {content : κ}
    (hp : tree.node p = some (.file content)) :
    start.node p = some (.file content) ∨ (p, content) ∈ files := by
  by_cases hfile : p ∈ files.map Prod.fst
  · obtain ⟨f, hf, rfl⟩ := List.mem_map.mp hfile
    have hcontent := (h.file f hf).symm.trans hp
    cases hcontent
    exact .inr hf
  · refine .inl ?_
    rw [← h.kept p ?_ hfile, hp]
    intro hdirectory
    cases hp.symm.trans (h.directory p hdirectory)

theorem mkdir (h : Grown start tree directories files) {p : List α} (hne : p ≠ [])
    (hparent : tree.IsDirectory p.dropLast) (hnone : tree.node p = none) :
    Grown start (tree.put p .directory) (directories ++ [p]) files := by
  have hplace := FileTree.not_isDirectory hnone
  have hnode := FileTree.node_put hne hparent hplace .directory
  exact
    { fresh_directory := by
        intro q hq
        rcases List.mem_append.mp hq with hold | hnew
        · exact h.fresh_directory q hold
        · rw [List.mem_singleton.mp hnew]
          exact h.start_none hnone
      fresh_file := h.fresh_file
      directory := by
        intro q hq
        unfold FileTree.IsDirectory
        rw [hnode]
        by_cases heq : q = p
        · rw [if_pos heq]
        · rw [if_neg heq]
          rcases List.mem_append.mp hq with hold | hnew
          · exact h.directory q hold
          · exact absurd (List.mem_singleton.mp hnew) heq
      file := by
        intro f hf
        have hne : f.1 ≠ p := by
          rintro rfl
          cases hnone.symm.trans (h.file f hf)
        rw [hnode, if_neg hne]
        exact h.file f hf
      kept := by
        intro q hq hfile
        rw [List.mem_append, not_or, List.mem_singleton] at hq
        rw [hnode, if_neg hq.2]
        exact h.kept q hq.1 hfile
      ordered := by
        refine List.pairwise_append.mpr ⟨h.ordered, List.pairwise_singleton _ _, ?_⟩
        intro earlier hearlier later hlater hbelow
        rw [List.mem_singleton.mp hlater] at hbelow
        obtain ⟨rest, rfl⟩ := hbelow
        by_cases hrest : rest = []
        · subst hrest
          rw [List.append_nil] at hearlier
          exact hplace (h.directory p hearlier)
        · exact hplace (FileTree.above (h.directory _ hearlier).ne_none hrest)
      distinct := h.distinct }

theorem creat (h : Grown start tree directories files) {p : List α} (hne : p ≠ [])
    (hparent : tree.IsDirectory p.dropLast) (hnone : tree.node p = none) (content : κ) :
    Grown start (tree.put p (.file content)) directories (files ++ [(p, content)]) := by
  have hplace := FileTree.not_isDirectory hnone
  have hnode := FileTree.node_put hne hparent hplace (.file content)
  have hfiles : p ∉ files.map Prod.fst := by
    intro hmem
    obtain ⟨f, hf, rfl⟩ := List.mem_map.mp hmem
    cases hnone.symm.trans (h.file f hf)
  exact
    { fresh_directory := h.fresh_directory
      fresh_file := by
        intro f hf
        rcases List.mem_append.mp hf with hold | hnew
        · exact h.fresh_file f hold
        · rw [List.mem_singleton.mp hnew]
          exact h.start_none hnone
      directory := by
        intro q hq
        have hne : q ≠ p := by
          rintro rfl
          exact hplace (h.directory q hq)
        unfold FileTree.IsDirectory
        rw [hnode, if_neg hne]
        exact h.directory q hq
      file := by
        intro f hf
        rw [hnode]
        rcases List.mem_append.mp hf with hold | hnew
        · have hne : f.1 ≠ p := by
            rintro rfl
            exact hfiles (List.mem_map_of_mem hold)
          rw [if_neg hne]
          exact h.file f hold
        · rw [List.mem_singleton.mp hnew, if_pos rfl]
      kept := by
        intro q hq hfile
        rw [List.map_append, List.mem_append, not_or, List.map_singleton,
          List.mem_singleton] at hfile
        rw [hnode, if_neg hfile.2]
        exact h.kept q hq hfile.1
      ordered := h.ordered
      distinct := by
        rw [List.map_append, List.map_singleton]
        exact h.distinct.append (List.nodup_singleton p) (List.disjoint_singleton.mpr hfiles) }

theorem unlink {f : List α × κ} (h : Grown start tree directories (f :: files)) :
    Grown start (tree.unlinkAt f.1) directories files := by
  have hfile := h.file f List.mem_cons_self
  have hnode := FileTree.node_unlinkAt hfile
  have hdistinct := List.nodup_cons.mp h.distinct
  exact
    { fresh_directory := h.fresh_directory
      fresh_file := fun g hg => h.fresh_file g (List.mem_cons_of_mem f hg)
      directory := by
        intro q hq
        have hdirectory := h.directory q hq
        have hne : q ≠ f.1 := by
          rintro rfl
          cases hfile.symm.trans hdirectory
        unfold FileTree.IsDirectory
        rw [hnode, if_neg hne]
        exact hdirectory
      file := by
        intro g hg
        have hne : g.1 ≠ f.1 := by
          intro heq
          exact hdistinct.1 (heq ▸ List.mem_map_of_mem hg)
        rw [hnode, if_neg hne]
        exact h.file g (List.mem_cons_of_mem f hg)
      kept := by
        intro q hq hother
        rw [hnode]
        by_cases heq : q = f.1
        · rw [if_pos heq, heq]
          exact (h.fresh_file f List.mem_cons_self).symm
        · rw [if_neg heq]
          refine h.kept q hq fun hmem => ?_
          rcases List.mem_cons.mp hmem with hfirst | hrest
          · exact heq hfirst
          · exact hother hrest
      ordered := h.ordered
      distinct := hdistinct.2 }

/-- With the files gone, nothing is left in the directory made last. -/
theorem bare {p : List α} (h : Grown start tree (directories ++ [p]) []) : tree.Bare p := by
  rw [FileTree.bare_iff]
  intro name
  have hlast : p ∈ directories ++ [p] := List.mem_append_right _ List.mem_cons_self
  rw [h.kept _ ?_ List.not_mem_nil]
  · by_contra hname
    have hparent : start.node p = some .directory := FileTree.parent hname
    cases (h.fresh_directory p hlast).symm.trans hparent
  · intro hmem
    rcases List.mem_append.mp hmem with hold | hnew
    · exact (List.pairwise_append.mp h.ordered).2.2 _ hold p List.mem_cons_self
        (List.prefix_append p [name])
    · have hlength := congrArg List.length (List.mem_singleton.mp hnew)
      rw [List.length_append, List.length_singleton] at hlength
      omega

theorem rmdir {p : List α} (h : Grown start tree (directories ++ [p]) []) :
    Grown start (tree.rmdirAt p) directories [] := by
  have hlast : p ∈ directories ++ [p] := List.mem_append_right _ List.mem_cons_self
  have hdirectory := h.directory p hlast
  have hfresh := h.fresh_directory p hlast
  have hne : p ≠ [] := by
    rintro rfl
    cases hfresh.symm.trans start.isDirectory_root
  have hnode := FileTree.node_remove hne h.bare
  have hordered := List.pairwise_append.mp h.ordered
  unfold FileTree.rmdirAt
  rw [if_pos hdirectory]
  exact
    { fresh_directory := fun q hq => h.fresh_directory q (List.mem_append_left _ hq)
      fresh_file := nofun
      directory := by
        intro q hq
        have hother : q ≠ p := by
          rintro rfl
          exact hordered.2.2 q hq q List.mem_cons_self List.prefix_rfl
        unfold FileTree.IsDirectory
        rw [hnode, if_neg hother]
        exact h.directory q (List.mem_append_left _ hq)
      file := nofun
      kept := by
        intro q hq hfile
        rw [hnode]
        by_cases heq : q = p
        · rw [if_pos heq, heq]
          exact hfresh.symm
        · rw [if_neg heq]
          refine h.kept q (fun hmem => ?_) hfile
          rcases List.mem_append.mp hmem with hold | hnew
          · exact hq hold
          · exact heq (List.mem_singleton.mp hnew)
      ordered := hordered.1
      distinct := List.nodup_nil }

end Grown
end Ceasy.FileTrees
