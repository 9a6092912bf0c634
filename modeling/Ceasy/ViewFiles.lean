import Ceasy.CompilerRuns
import Ceasy.ViewNesting
import Ceasy.ViewPath

set_option autoImplicit false

/-!
# The files under views and their logical names

A tree of files is opened by paths and scanned by the compiler, which names a file by the segments
of its path without their underscores.
-/
namespace Ceasy.ViewFiles
open StringView TemplateParse TemplateGrammar View ViewCompiler ViewPath ViewNesting

inductive Node where
  | file (source : Bytes)
  | directory (inside : Entries)

def names : Entries → List Bytes
  | .nil => []
  | .file name _ rest => name :: names rest
  | .directory name _ rest => name :: names rest

def PlainName (name : Bytes) : Prop := name ≠ [] ∧ ch '/' ∉ name

def Listing : Entries → Prop
  | .nil => True
  | .file name _ rest => PlainName name ∧ name ∉ names rest ∧ Listing rest
  | .directory name inside rest =>
    PlainName name ∧ name ∉ names rest ∧ Listing inside ∧ Listing rest

def entriesFind (wanted : Bytes) : Entries → Option Node
  | .nil => none
  | .file name source rest => if name = wanted then some (.file source) else entriesFind wanted rest
  | .directory name inside rest =>
    if name = wanted then some (.directory inside) else entriesFind wanted rest

/-- Opening a path and reading it: a directory can be opened, but not read. -/
def resolve : List Bytes → Entries → ViewFile
  | [], _ => .unread
  | segment :: path, entries =>
    match entriesFind segment entries with
    | none => .missing
    | some (.file source) => if path = [] then .source source else .missing
    | some (.directory inside) => resolve path inside

def fileAt (entries : Entries) (relative : Bytes) : ViewFile :=
  resolve (relative.splitOn (ch '/')) entries

variable {entries inside rest : Entries} {segment name source text : Bytes} {path : List Bytes}

theorem entriesFind_none : entriesFind segment entries = none ↔ segment ∉ names entries := by
  induction entries with
  | nil => exact iff_of_true rfl List.not_mem_nil
  | file name source rest ih =>
    rw [entriesFind, names, List.mem_cons, not_or, ← ih]
    split_ifs with hname
    · exact iff_of_false nofun fun h => h.1 hname.symm
    · exact (and_iff_right (Ne.symm hname)).symm
  | directory name inside rest _ ih =>
    rw [entriesFind, names, List.mem_cons, not_or, ← ih]
    split_ifs with hname
    · exact iff_of_false nofun fun h => h.1 hname.symm
    · exact (and_iff_right (Ne.symm hname)).symm

theorem resolve_other (h : segment ∉ names entries) :
    resolve (segment :: path) entries = .missing := by
  rw [resolve, entriesFind_none.mpr h]

/-- A file of a directory whose first entry is a file. -/
theorem resolve_file (h : name ∉ names rest) :
    resolve path (.file name source rest) = .source text ↔
      path = [name] ∧ text = source ∨ resolve path rest = .source text := by
  cases path with
  | nil =>
    refine iff_of_false nofun fun h => h.elim ?_ nofun
    rintro ⟨hpath, -⟩
    cases hpath
  | cons segment path =>
    by_cases hname : name = segment
    · subst hname
      rw [resolve_other h, or_iff_left nofun, resolve, entriesFind, if_pos rfl]
      dsimp only
      by_cases hpath : path = []
      · rw [if_pos hpath, hpath, and_iff_right rfl, ViewFile.source.injEq, eq_comm]
      · rw [if_neg hpath]
        exact iff_of_false nofun fun h => hpath (List.cons.inj h.1).2
    · rw [or_iff_right fun h => hname (List.cons.inj h.1).1.symm, resolve, entriesFind,
        if_neg hname, resolve]

theorem resolve_directory (h : name ∉ names rest) :
    resolve path (.directory name inside rest) = .source text ↔
      (∃ below, path = name :: below ∧ resolve below inside = .source text) ∨
        resolve path rest = .source text := by
  cases path with
  | nil =>
    refine iff_of_false nofun fun h => h.elim ?_ nofun
    rintro ⟨below, hpath, -⟩
    cases hpath
  | cons segment path =>
    by_cases hname : name = segment
    · subst hname
      rw [resolve_other h, or_iff_left nofun, resolve, entriesFind, if_pos rfl]
      dsimp only
      constructor
      · intro hsource
        exact ⟨path, rfl, hsource⟩
      · rintro ⟨below, hpath, hsource⟩
        rw [(List.cons.inj hpath).2]
        exact hsource
    · have hother : ¬ ∃ below, segment :: path = name :: below ∧
          resolve below inside = .source text := by
        rintro ⟨below, hpath, -⟩
        exact hname (List.cons.inj hpath).1.symm
      rw [or_iff_right hother, resolve, entriesFind, if_neg hname, resolve]

theorem resolve_cases (path : List Bytes) (entries : Entries) :
    resolve path entries = .missing ∨ resolve path entries = .unread ∨
      ∃ text, resolve path entries = .source text := by
  induction path generalizing entries with
  | nil => exact .inr (.inl rfl)
  | cons segment path ih =>
    rw [resolve]
    cases entriesFind segment entries with
    | none => exact .inl rfl
    | some node =>
      cases node with
      | file source =>
        dsimp only
        split_ifs
        · exact .inr (.inr ⟨source, rfl⟩)
        · exact .inl rfl
      | directory inside => exact ih inside

theorem resolve_plain (hlisting : Listing entries) (h : resolve path entries = .source text) :
    path ≠ [] ∧ ∀ segment ∈ path, PlainName segment := by
  induction entries generalizing path with
  | nil =>
    cases path with
    | nil => cases h
    | cons segment path => cases h
  | file name source rest ih =>
    obtain ⟨hname, hnew, hrest⟩ := hlisting
    rcases (resolve_file hnew).mp h with ⟨rfl, -⟩ | hlater
    · exact ⟨List.cons_ne_nil _ _, List.forall_mem_singleton.mpr hname⟩
    · exact ih hrest hlater
  | directory name inside rest ihinside ih =>
    obtain ⟨hname, hnew, hinside, hrest⟩ := hlisting
    rcases (resolve_directory hnew).mp h with ⟨below, rfl, hbelow⟩ | hlater
    · exact ⟨List.cons_ne_nil _ _, List.forall_mem_cons.mpr ⟨hname, (ihinside hinside hbelow).2⟩⟩
    · exact ih hrest hlater

/-- The last name of a path is one of an HTML file. -/
def EndsHtml (path : List Bytes) : Prop :=
  ∃ name, path.getLast? = some name ∧ stringvEndsWith name htmlSuffix = true

def Adds (root relative text : Bytes) (source : ViewSource) : Prop :=
  compilerAdd root [] relative text = some [source]

theorem Adds.some {root relative : Bytes} {added : ViewSource} (h : Adds root relative text added) :
    added.relative = relative ∧ compilerLogicalName relative PATH_MAX = some added.logical ∧
      (viewPath root relative).length < PATH_MAX ∧ (templateParse text relative).ok = true ∧
      added.program = (templateParse text relative).program := by
  obtain ⟨logical, hlogical, hlength, hok, hadded⟩ := compilerAdd_some h
  rw [List.nil_append, List.singleton_inj] at hadded
  rw [hadded]
  exact ⟨rfl, hlogical, hlength, hok, rfl⟩

/-- The sources are those of the HTML files of a directory with this path. -/
structure Lists (root relative : Bytes) (entries : Entries) (sources : List ViewSource) : Prop where
  each : ∀ path text, resolve path entries = .source text → EndsHtml path →
    ∃ source ∈ sources, Adds root (path.foldl childPath relative) text source
  only : ∀ source ∈ sources, ∃ path text, resolve path entries = .source text ∧ EndsHtml path ∧
    Adds root (path.foldl childPath relative) text source

theorem childPath_cons {directory : Bytes} (h : directory ≠ []) (name : Bytes) :
    childPath directory name = directory ++ ch '/' :: name := by
  rw [childPath, if_neg h, List.append_assoc]
  rfl

theorem childPath_nil (name : Bytes) : childPath [] name = name := rfl

theorem foldl_splitOn (relative directory : Bytes)
    (h : ∀ segment ∈ relative.splitOn (ch '/'), segment ≠ []) :
    (relative.splitOn (ch '/')).foldl childPath directory = childPath directory relative := by
  induction hn : relative.length using Nat.strong_induction_on generalizing relative directory with
  | _ n ih =>
    rcases segment_cases relative with ⟨-, -, -, hsplit⟩ | ⟨part, next, hrelative, -, -, -, hsplit⟩
    · rw [hsplit]
      rfl
    · rw [hsplit] at h ⊢
      obtain ⟨hpart, hnext⟩ := List.forall_mem_cons.mp h
      have hshorter : next.length < n := by
        rw [← hn, hrelative, List.length_append, List.length_cons]
        omega
      have hchild : childPath directory part ≠ [] := by
        unfold childPath
        split_ifs
        · exact hpart
        · exact List.append_ne_nil_of_right_ne_nil _ hpart
      rw [List.foldl_cons, ih _ hshorter next _ hnext rfl, childPath_cons hchild, hrelative]
      unfold childPath
      split_ifs
      · rfl
      · simp only [List.append_assoc, List.cons_append]

theorem splitOn_suffix (path : Bytes) {suffix : Bytes} (h : ch '/' ∉ suffix) :
    ∃ directories last, path.splitOn (ch '/') = directories ++ [last] ∧
      (path ++ suffix).splitOn (ch '/') = directories ++ [last ++ suffix] := by
  rcases last_cases path with hplain | ⟨directory, last, rfl, hlast⟩
  · refine ⟨[], path, List.splitOn_eq_singleton hplain, List.splitOn_eq_singleton ?_⟩
    rw [List.mem_append, not_or]
    exact ⟨hplain, h⟩
  · refine ⟨directory.splitOn (ch '/'), last, ?_, ?_⟩
    · rw [List.splitOn_append_cons_self, List.splitOn_eq_singleton hlast]
    · have hwhole : ch '/' ∉ last ++ suffix := by
        rw [List.mem_append, not_or]
        exact ⟨hlast, h⟩
      rw [List.append_assoc, List.cons_append, List.splitOn_append_cons_self,
        List.splitOn_eq_singleton hwhole]

theorem htmlSuffix_plain : ch '/' ∉ htmlSuffix := by decide

theorem stringvEndsWith_append (value suffix : Bytes) :
    stringvEndsWith (value ++ suffix) suffix = true := by
  rw [stringvEndsWith, if_neg (by rw [List.length_append]; omega), List.length_append,
    Nat.add_sub_cancel, List.drop_left]
  exact beq_self_eq_true suffix

def Underscored (segment : Bytes) : Prop := segment.head? = some (ch '_')

instance (segment : Bytes) : Decidable (Underscored segment) :=
  inferInstanceAs (Decidable (_ = _))

/-- One segment of the loop; what is behind it may be empty. -/
theorem compilerLogicalSegments_step {size : ℕ} {rest output : Bytes} (h : rest ≠ []) :
    compilerLogicalSegments size rest output =
      let name := compilerSegmentName (rest.takeWhile (· != ch '/'))
      if output.length ≠ 0 ∧ size ≤ output.length + 1 then none
      else if size ≤ (childPath output []).length + name.length then none
      else
        compilerLogicalSegments size (rest.dropWhile (· != ch '/')).tail
          (childPath output name) := by
  have hpadded : (if output.length ≠ 0 then output ++ [ch '/'] else output) =
      childPath output [] := by
    unfold childPath
    by_cases hempty : output = []
    · rw [if_pos hempty, hempty]
      rfl
    · rw [if_neg hempty, if_pos (fun hzero => hempty (List.length_eq_zero_iff.mp hzero)),
        List.append_nil]
  have hname (name : Bytes) : childPath output [] ++ name = childPath output name := by
    unfold childPath
    by_cases hempty : output = []
    · rw [if_pos hempty, if_pos hempty]
      rfl
    · rw [if_neg hempty, if_neg hempty, List.append_nil]
  rw [compilerLogicalSegments, if_neg h, hpadded]
  dsimp only
  split_ifs
  · rfl
  · rfl
  · split
    · next hnil =>
      rw [hnil, hname, List.tail_nil, compilerLogicalSegments, if_pos rfl]
    · next hcons => rw [hcons, hname, List.tail_cons]

/-- The loop puts a name together from the segments without their underscores. -/
theorem compilerLogicalSegments_some {size : ℕ} {rest output out : Bytes}
    (hsegments : ∀ segment ∈ rest.splitOn (ch '/'), segment ≠ [])
    (h : compilerLogicalSegments size rest output = some out) :
    out = ((rest.splitOn (ch '/')).map compilerSegmentName).foldl childPath output := by
  induction hn : rest.length using Nat.strong_induction_on generalizing rest output with
  | _ n ih =>
    have hne : rest ≠ [] := by
      rintro rfl
      exact hsegments [] (by simp) rfl
    rw [compilerLogicalSegments_step hne] at h
    dsimp only at h
    split_ifs at h
    rcases segment_cases rest with
      ⟨-, htake, hdrop, hsplit⟩ | ⟨part, next, hrest, -, htake, hdrop, hsplit⟩
    · rw [htake, hdrop, List.tail_nil, compilerLogicalSegments, if_pos rfl] at h
      rw [hsplit]
      exact (Option.some.inj h).symm
    · rw [htake, hdrop, List.tail_cons] at h
      rw [hsplit] at hsegments ⊢
      refine ih next.length ?_ (List.forall_mem_cons.mp hsegments).2 h rfl
      rw [← hn, hrest, List.length_append, List.length_cons]
      omega

theorem childPath_shorter {first second : Bytes} {k : ℕ} (h : first.length + k ≤ second.length)
    {name other : Bytes} {j : ℕ} (hname : name.length + j ≤ other.length) :
    (childPath first name).length + (k + j) ≤ (childPath second other).length := by
  by_cases hsecond : second = []
  · have hfirst : first = [] ∧ k = 0 := by
      rw [hsecond, List.length_nil] at h
      exact ⟨List.length_eq_zero_iff.mp (by omega), by omega⟩
    rw [hsecond, hfirst.1, hfirst.2, childPath_nil, childPath_nil]
    omega
  · rw [childPath_cons hsecond, List.length_append, List.length_cons]
    by_cases hfirst : first = []
    · rw [hfirst, childPath_nil]
      omega
    · rw [childPath_cons hfirst, List.length_append, List.length_cons]
      omega

theorem compilerSegmentName_plain (h : ¬ Underscored segment) :
    compilerSegmentName segment = segment := by
  rw [compilerSegmentName, if_neg]
  rw [beq_iff_eq]
  exact h

theorem compilerSegmentName_length (segment : Bytes) :
    (compilerSegmentName segment).length + (if Underscored segment then 1 else 0) ≤
      segment.length := by
  split_ifs with h
  · obtain ⟨rest, rfl⟩ := List.head?_eq_some_iff.mp h
    exact Nat.le_refl _
  · rw [compilerSegmentName_plain h]
    exact Nat.le_refl _

theorem foldl_shorter {first second : Bytes} {k : ℕ} (h : first.length + k ≤ second.length) :
    ((path.map compilerSegmentName).foldl childPath first).length +
      (k + path.countP fun segment => Underscored segment) ≤
        (path.foldl childPath second).length := by
  induction path generalizing first second k with
  | nil => simpa using h
  | cons segment path ih =>
    have hstep := ih (childPath_shorter h (compilerSegmentName_length segment))
    rw [List.map_cons, List.foldl_cons, List.foldl_cons, List.countP_cons]
    simp only [decide_eq_true_eq]
    omega

theorem map_plain (h : ∀ segment ∈ path, ¬ Underscored segment) :
    path.map compilerSegmentName = path := by
  conv_rhs => rw [← List.map_id path]
  exact List.map_congr_left fun segment hsegment => compilerSegmentName_plain (h segment hsegment)

variable {view : Bytes}

/-- A path that is valid is put together from its segments again. -/
theorem foldl_view (hvalid : viewPathValid view = true) :
    (view.splitOn (ch '/')).foldl childPath [] = view :=
  foldl_splitOn view [] fun _ hsegment =>
    viewPathSegment_ne_nil ((viewPathValid_iff view).mp hvalid _ hsegment)

/-- The file with the path of a view has this view's name if no underscore is dropped. -/
theorem plain_name (hvalid : viewPathValid view = true) :
    ((view.splitOn (ch '/')).map compilerSegmentName).foldl childPath [] = view ↔
      ∀ segment ∈ view.splitOn (ch '/'), ¬ Underscored segment := by
  constructor
  · intro hname segment hsegment hunderscored
    have hshorter := @foldl_shorter (view.splitOn (ch '/')) [] [] 0 (Nat.le_refl 0)
    have hcount : 0 < (view.splitOn (ch '/')).countP fun segment => Underscored segment :=
      List.countP_pos_iff.mpr ⟨segment, hsegment, decide_eq_true hunderscored⟩
    rw [hname, foldl_view hvalid] at hshorter
    omega
  · intro hplain
    rw [map_plain hplain, foldl_view hvalid]

theorem underscored_partialView (last : Bytes) :
    Underscored (sv "_" ++ last) ∧ compilerSegmentName (sv "_" ++ last) = last :=
  ⟨rfl, rfl⟩

/-- The file of a partial has the view's name if none is dropped from its directories. -/
theorem partial_name {directories : List Bytes} {last : Bytes} (hvalid : viewPathValid view = true)
    (hsplit : view.splitOn (ch '/') = directories ++ [last]) :
    ((directories ++ [sv "_" ++ last]).map compilerSegmentName).foldl childPath [] = view ↔
      ∀ segment ∈ directories, ¬ Underscored segment := by
  have hview := foldl_view hvalid
  rw [hsplit, List.foldl_append] at hview
  rw [List.map_append, List.map_singleton, (underscored_partialView last).2, List.foldl_append]
  constructor
  · intro hname segment hsegment hunderscored
    have hshorter := childPath_shorter (@foldl_shorter directories [] [] 0 (Nat.le_refl 0))
      (Nat.le_refl (last.length + 0))
    have hcount : 0 < directories.countP fun segment => Underscored segment :=
      List.countP_pos_iff.mpr ⟨segment, hsegment, decide_eq_true hunderscored⟩
    have hsame := congrArg List.length (hname.trans hview.symm)
    simp only [List.foldl_cons, List.foldl_nil] at hsame
    omega
  · intro hplain
    rw [map_plain hplain]
    exact hview

theorem splitOn_partialView {directories : List Bytes} {last : Bytes}
    (hsplit : view.splitOn (ch '/') = directories ++ [last]) :
    (viewPartialName view).splitOn (ch '/') = directories ++ [sv "_" ++ last] := by
  have hunderscore : ∀ {name : Bytes}, ch '/' ∉ name → ch '/' ∉ sv "_" ++ name := by
    intro name hname hmem
    rcases List.mem_append.mp hmem with hunder | hin
    · exact absurd hunder (by decide)
    · exact hname hin
  rcases last_cases view with hplain | ⟨directory, name, rfl, hname⟩
  · rw [List.splitOn_eq_singleton hplain, ← List.nil_append [view]] at hsplit
    obtain ⟨rfl, hlast⟩ := List.append_inj' hsplit rfl
    rw [viewPartialName_plain hplain, List.splitOn_eq_singleton (hunderscore hplain),
      List.singleton_inj.mp hlast, List.nil_append]
  · rw [List.splitOn_append_cons_self, List.splitOn_eq_singleton hname] at hsplit
    obtain ⟨rfl, hlast⟩ := List.append_inj' hsplit rfl
    rw [viewPartialName_nested directory name hname, List.splitOn_append_cons_self,
      List.splitOn_eq_singleton (hunderscore hname), List.singleton_inj.mp hlast]

/-- The compiler makes this segment of the name of a file or a directory. -/
def Becomes (name segment : Bytes) : Prop :=
  name = segment ∧ ¬ Underscored name ∨ name = ch '_' :: segment

/-- The path is the other one up to underscores before its segments, directories in front of it
that are called `_`, and a file in it that is called `.html`. -/
def Variant (path view : Bytes) : Prop :=
  ∃ outer inner, (path.splitOn (ch '/') = outer ++ inner ∨
      path.splitOn (ch '/') = outer ++ inner ++ [[]]) ∧
    (∀ name ∈ outer, name = sv "_") ∧ List.Forall₂ Becomes inner (view.splitOn (ch '/'))

end Ceasy.ViewFiles
