import Ceasy.GeneratorFiles
import Ceasy.PathEncoding

set_option autoImplicit false

/-!
# The root of a project

Every command but the help runs in a project. Its root is looked for from the working
directory upwards: it is the first directory that has a `cdev.conf`. What is there is a
function on paths here.
-/
namespace Ceasy.ProjectRoot
open StringView FileTrees GeneratorFiles PathEncoding

def projectHasCdev (access : Bytes → Bool) (directory : Bytes) : Bool :=
  let path := directory ++ sv "/cdev.conf"
  decide (path.length < PATH_MAX) && access path

/-- The directory that is left in the buffer, and whether it is another one. -/
def projectParent (directory : Bytes) : Bytes × Bool :=
  match stringvRfindChar directory (ch '/') with
  | none => (directory, false)
  | some separator =>
    if separator = 0 then (directory.take 1, false) else (directory.take separator, true)

theorem projectParent_shorter {directory : Bytes} (h : (projectParent directory).2 = true) :
    (projectParent directory).1.length < directory.length := by
  unfold projectParent at h ⊢
  cases hfind : stringvRfindChar directory (ch '/') with
  | none =>
    rw [hfind] at h
    cases h
  | some separator =>
    obtain ⟨rest, hsplit⟩ := stringvRfindChar_split hfind
    have hlength := congrArg List.length hsplit
    rw [List.length_append, List.length_cons] at hlength
    rw [hfind] at h
    dsimp only at h ⊢
    by_cases hzero : separator = 0
    · rw [if_pos hzero] at h
      cases h
    · rw [if_neg hzero]
      dsimp only
      omega

/-- The loop of `project_find_root`. -/
def projectSearch (access : Bytes → Bool) (directory : Bytes) : Option Bytes :=
  if projectHasCdev access directory then
    if PATH_MAX ≤ directory.length then none else some directory
  else if _h : (projectParent directory).2 = true then projectSearch access (projectParent directory).1
  else none
termination_by directory.length
decreasing_by exact projectParent_shorter _h

def projectFindRoot (access : Bytes → Bool) (getcwd : Option Bytes) : Option Bytes :=
  getcwd.bind (projectSearch access)

/-- The path of a directory, as `getcwd` gives it. -/
def directoryPath (names : List Bytes) : Bytes := if names = [] then [slash] else joined names

/-- The nearest directory upwards that has a `cdev.conf`. The root of the file system is looked at only
from there. -/
def Nearest (access : Bytes → Bool) (names : List Bytes) (root : Bytes) : Prop :=
  ∃ front, front <+: names ∧ (front = [] → names = []) ∧ root = directoryPath front ∧
    projectHasCdev access root = true ∧
    ∀ longer, longer <+: names → front.length < longer.length →
      projectHasCdev access (directoryPath longer) = false

variable {access : Bytes → Bool} {names : List Bytes} {name root : Bytes}

theorem nearest_here (h : projectHasCdev access (directoryPath names) = true) :
    Nearest access names root ↔ root = directoryPath names := by
  constructor
  · rintro ⟨front, hbegins, -, rfl, -, hlonger⟩
    by_cases hlength : front.length < names.length
    · rw [hlonger names List.prefix_rfl hlength] at h
      cases h
    · rw [hbegins.eq_of_length_le (Nat.not_lt.mp hlength)]
  · rintro rfl
    refine ⟨names, List.prefix_rfl, id, rfl, h, fun longer hlonger hlength => ?_⟩
    exact absurd hlonger.length_le (Nat.not_le.mpr hlength)

theorem nearest_top (h : projectHasCdev access (directoryPath []) = false) : ¬ Nearest access [] root := by
  rintro ⟨front, hbegins, -, rfl, hhas, -⟩
  rw [List.prefix_nil.mp hbegins, h] at hhas
  cases hhas

theorem nearest_single (h : projectHasCdev access (directoryPath [name]) = false) :
    ¬ Nearest access [name] root := by
  rintro ⟨front, hbegins, hsome, rfl, hhas, -⟩
  rcases List.prefix_concat_iff.mp (show front <+: [] ++ [name] from hbegins) with hfront | hfront
  · rw [hfront, List.nil_append, h] at hhas
    cases hhas
  · cases hsome (List.prefix_nil.mp hfront)

theorem nearest_above (hnames : names ≠ [])
    (h : projectHasCdev access (directoryPath (names ++ [name])) = false) :
    Nearest access (names ++ [name]) root ↔ Nearest access names root := by
  constructor
  · rintro ⟨front, hbegins, hsome, rfl, hhas, hlonger⟩
    rcases List.prefix_concat_iff.mp hbegins with rfl | hfront
    · rw [h] at hhas
      cases hhas
    · refine ⟨front, hfront, fun hempty => absurd (hsome hempty) (by simp), rfl, hhas, fun longer hbelow => ?_⟩
      exact hlonger longer (hbelow.trans (List.prefix_append _ _))
  · rintro ⟨front, hbegins, hsome, rfl, hhas, hlonger⟩
    refine ⟨front, hbegins.trans (List.prefix_append _ _), fun hempty => absurd (hsome hempty) hnames, rfl, hhas,
      fun longer hbelow hlength => ?_⟩
    rcases List.prefix_concat_iff.mp hbelow with rfl | hfront
    · exact h
    · exact hlonger longer hfront hlength

theorem stringvRfindChar_last {before after : Bytes} {c : UInt8} (h : c ∉ after) :
    stringvRfindChar (before ++ c :: after) c = some before.length := by
  have hfind : stringvFindChar (before ++ c :: after).reverse c = some after.length := by
    refine stringvFindChar_some.mpr ⟨after.reverse, before.reverse, ?_, ?_, List.length_reverse⟩
    · rw [List.reverse_append, List.reverse_cons, List.append_assoc, List.singleton_append]
    · rwa [List.mem_reverse]
  rw [stringvRfindChar, hfind, Option.map_some, List.length_append, List.length_cons]
  congr 1
  omega

theorem joined_concat (names : List Bytes) (name : Bytes) :
    joined (names ++ [name]) = joined names ++ slash :: name := by
  rw [joined, List.flatMap_append, List.flatMap_singleton, ← joined]

theorem directoryPath_concat (names : List Bytes) (name : Bytes) :
    directoryPath (names ++ [name]) = joined names ++ slash :: name := by
  rw [directoryPath, if_neg (by simp), joined_concat]

theorem joined_ne_nil (h : names ≠ []) : joined names ≠ [] := by
  cases names with
  | nil => exact absurd rfl h
  | cons first rest => simp [joined]

/-- Above a name in the root there is nothing more to look at. -/
theorem projectParent_concat (names : List Bytes) (h : slash ∉ name) :
    (names = [] → (projectParent (directoryPath (names ++ [name]))).2 = false) ∧
      (names ≠ [] → projectParent (directoryPath (names ++ [name])) = (directoryPath names, true)) := by
  have hfind : stringvRfindChar (directoryPath (names ++ [name])) (ch '/') = some (joined names).length := by
    rw [directoryPath_concat]
    exact stringvRfindChar_last h
  constructor
  · rintro rfl
    rw [projectParent, hfind]
    rfl
  · intro hnames
    have hlength : (joined names).length ≠ 0 := fun hzero => joined_ne_nil hnames (List.length_eq_zero_iff.mp hzero)
    rw [projectParent, hfind]
    dsimp only
    rw [if_neg hlength, directoryPath_concat, List.take_left, directoryPath, if_neg hnames]

theorem projectSearch_here (h : projectHasCdev access root = true) : projectSearch access root = some root := by
  rw [projectSearch, if_pos h, if_neg]
  rw [projectHasCdev, Bool.and_eq_true, decide_eq_true_eq, List.length_append] at h
  omega

theorem projectSearch_nearest (hnames : ∀ name ∈ names, slash ∉ name) :
    projectSearch access (directoryPath names) = some root ↔ Nearest access names root := by
  induction names using List.reverseRecOn with
  | nil =>
    cases hhas : projectHasCdev access (directoryPath []) with
    | true =>
      rw [projectSearch_here hhas, nearest_here hhas, Option.some_inj]
      exact eq_comm
    | false =>
      have hparent : (projectParent (directoryPath [])).2 = false := rfl
      rw [projectSearch, if_neg (by simp [hhas]), dif_neg (by simp [hparent])]
      exact iff_of_false (by simp) (nearest_top hhas)
  | append_singleton names name ih =>
    obtain ⟨htop, habove⟩ := projectParent_concat names
      (hnames name (List.mem_append_right _ (List.mem_singleton_self name)))
    cases hhas : projectHasCdev access (directoryPath (names ++ [name])) with
    | true =>
      rw [projectSearch_here hhas, nearest_here hhas, Option.some_inj]
      exact eq_comm
    | false =>
      rw [projectSearch, if_neg (by simp [hhas])]
      by_cases hempty : names = []
      · rw [dif_neg (by simp [htop hempty])]
        subst hempty
        exact iff_of_false (by simp) (nearest_single hhas)
      · rw [dif_pos (by rw [habove hempty]), habove hempty, nearest_above hempty hhas]
        exact ih fun other hmem => hnames other (List.mem_append_left _ hmem)

theorem directoryPath_project (hnames : ∀ name ∈ names, Name name) :
    ∃ project : CeasyProject, project.root = directoryPath names := by
  by_cases hempty : names = []
  · subst hempty
    exact ⟨⟨[slash], rfl, by decide⟩, rfl⟩
  · have hsplit : (joined names).splitOn slash = [] :: names := by
      have hall := splitOn_joined (fun name hmem => (hnames name hmem).noSlash) []
      rwa [List.nil_append] at hall
    have hresolved : Step.dotdot ∉ pathSteps (joined names) := by
      intro hmem
      obtain ⟨component, hcomponent, hstep⟩ := List.mem_map.mp hmem
      rw [show ch '/' = slash from rfl, hsplit] at hcomponent
      rcases List.mem_cons.mp hcomponent with rfl | hname
      · cases hstep
      · unfold pathStep at hstep
        split_ifs at hstep with hnone hhere habove
        exact (hnames component hname).notAbove habove
    have habsolute : (joined names).head? = some (ch '/') := by
      obtain ⟨first, rest, rfl⟩ := List.exists_cons_of_ne_nil hempty
      rfl
    exact ⟨⟨joined names, habsolute, hresolved⟩, by rw [directoryPath, if_neg hempty]⟩

/-- A command finds the nearest project above the working directory, and none where there is none. -/
theorem projectFindRoot_nearest (hnames : ∀ name ∈ names, Name name) :
    projectFindRoot access (some (directoryPath names)) = some root ↔
      ∃ project : CeasyProject, project.root = root ∧ Nearest access names root := by
  have hsearch : projectSearch access (directoryPath names) = some root ↔ Nearest access names root :=
    projectSearch_nearest fun name hmem => (hnames name hmem).noSlash
  rw [projectFindRoot, Option.bind_some, hsearch]
  constructor
  · intro hnearest
    obtain ⟨front, hbegins, -, rfl, -⟩ := id hnearest
    obtain ⟨project, hproject⟩ := directoryPath_project fun name hmem => hnames name (hbegins.subset hmem)
    exact ⟨project, hproject, hnearest⟩
  · rintro ⟨-, -, hnearest⟩
    exact hnearest

theorem projectFindRoot_nearest_source :
    projectFindRoot (fun path => path == sv "/srv/app/cdev.conf") (some (sv "/srv/app/src")) = some (sv "/srv/app") := by
  have hnames : ∀ name ∈ [sv "srv", sv "app", sv "src"], Name name := by
    intro name hmem
    simp only [List.mem_cons, List.not_mem_nil, or_false] at hmem
    rcases hmem with rfl | rfl | rfl
    · exact ⟨by decide, by decide, by decide, by decide⟩
    · exact ⟨by decide, by decide, by decide, by decide⟩
    · exact ⟨by decide, by decide, by decide, by decide⟩
  have hnearest : Nearest (fun path => path == sv "/srv/app/cdev.conf") [sv "srv", sv "app", sv "src"]
      (sv "/srv/app") := by
    refine ⟨[sv "srv", sv "app"], ⟨[sv "src"], rfl⟩, by simp, by decide +kernel, by decide +kernel,
      fun longer hbegins hlength => ?_⟩
    have hall : longer = [sv "srv", sv "app", sv "src"] := hbegins.eq_of_length_le hlength
    rw [hall]
    decide +kernel
  exact (projectFindRoot_nearest hnames).mpr ⟨⟨sv "/srv/app", by decide +kernel, by decide +kernel⟩, rfl, hnearest⟩

end Ceasy.ProjectRoot
