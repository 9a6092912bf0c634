import Ceasy.Asset
import Ceasy.ResponseText
import Ceasy.ViewFiles

set_option autoImplicit false

/-!
# Public files and embedded assets

A program serves the files of its public directory, and where there is no such directory
the assets that were compiled from it. Over one tree of files both serve the same.
-/
namespace Ceasy.Assets
open StringView View Sessions Responses PathEncoding
open ViewCompiler (childPath)
open ViewFiles (Listing PlainName)
open CompilerRuns (AssetSource assetContentType assetLeaf assetTooLong assetScan assetSourceCompare
  assetDuplicate readable scanEntries ASSET_COMPILER_MAX_BYTES)
open DirectoryScan (Sorting)

def publicDirectory (root : Bytes) : Bytes := root ++ sv "/public"

/-- The tree under `public` at the end of an absolute path. -/
def publicFile (root : Bytes) (entries : ViewCompiler.Entries) (filename : Bytes) : ViewFile :=
  if (publicDirectory root).isPrefixOf filename then
    ViewFiles.resolve ((filename.drop (publicDirectory root).length).tail.splitOn slash) entries
  else .missing

/-- The working directory has these public files. A directory can be opened, but not read. -/
def publicHost (root : Bytes) (entries : ViewCompiler.Entries) : AssetHost where
  arenaAlloc _ := true
  getcwd := some root
  realpath path :=
    if path = publicDirectory root then .found path
    else
      match publicFile root entries path with
      | .missing => .absent
      | _ => .found path
  fopen path :=
    match publicFile root entries path with
    | .missing => .absent
    | .source text => .found (some text)
    | _ => .found none

def bareHost (root : Bytes) : AssetHost where
  arenaAlloc _ := true
  getcwd := some root
  realpath _ := .absent
  fopen _ := .absent

def assetBundle (sources : List AssetSource) : List EmbeddedAsset :=
  sources.map fun source => ⟨source.url, some source.contentType, .of source.data⟩

variable {root relative path text : Bytes} {entries : ViewCompiler.Entries} {segments : List Bytes}
  {sources : List AssetSource}

/-- The file at a path has been taken in as this source. -/
structure TakenIn (root relative text : Bytes) (source : AssetSource) : Prop where
  source : source = ⟨sv "/" ++ relative, assetContentType (sv "/" ++ relative), text⟩
  short : (root ++ sv "/public/" ++ relative).length < PATH_MAX
  small : text.length ≤ ASSET_COMPILER_MAX_BYTES

/-- The sources are those of the files of a directory with this path. -/
structure ListsAssets (root relative : Bytes) (entries : ViewCompiler.Entries)
    (sources : List AssetSource) : Prop where
  each : ∀ path text, ViewFiles.resolve path entries = .source text →
    ∃ source ∈ sources, TakenIn root (path.foldl childPath relative) text source
  only : ∀ source ∈ sources, ∃ path text, ViewFiles.resolve path entries = .source text ∧
    TakenIn root (path.foldl childPath relative) text source

theorem assetLeaf_takenIn {child name text : Bytes} {after : List AssetSource}
    (hlong : ¬ assetTooLong root child = true)
    (h : assetLeaf child name (.regular (some text)) sources = some after) :
    ∃ source, after = sources ++ [source] ∧ TakenIn root child text source := by
  rw [assetTooLong, Bool.or_eq_true, not_or, decide_eq_true_eq, decide_eq_true_eq, not_le,
    not_le] at hlong
  unfold assetLeaf at h
  dsimp only at h
  split_ifs at h with hurl
  · have hone : (sv "/").length = 1 := by decide
    rw [List.length_append, hone] at hurl
    omega
  · rw [Option.map_eq_some_iff] at h
    obtain ⟨data, hdata, rfl⟩ := h
    obtain ⟨htext, hsmall⟩ := Option.filter_eq_some_iff.mp hdata
    cases htext
    exact ⟨_, rfl, rfl, hlong.2, of_decide_eq_true hsmall⟩

theorem scanEntries_lists {after : List AssetSource} (hlisting : Listing entries)
    (h : scanEntries (assetTooLong root) assetLeaf (readable entries) relative sources = some after) :
    ∃ added, after = sources ++ added ∧ ListsAssets root relative entries added := by
  induction entries generalizing relative sources after with
  | nil =>
    obtain rfl := Option.some.inj h
    refine ⟨[], (List.append_nil _).symm, ?_, ?_⟩
    · intro path text hpath
      cases path with
      | nil => cases hpath
      | cons segment path => cases hpath
    · intro source hsource
      cases hsource
  | file name source rest ih =>
    obtain ⟨hname, hnew, hrest⟩ := hlisting
    rw [readable, scanEntries] at h
    split_ifs at h with hlong
    cases hleaf : assetLeaf (childPath relative name) name (.regular (some source)) sources with
    | none =>
      rw [hleaf] at h
      cases h
    | some next =>
      rw [hleaf] at h
      obtain ⟨first, rfl, hfirst⟩ := assetLeaf_takenIn hlong hleaf
      obtain ⟨added, rfl, hadded⟩ := ih hrest h
      refine ⟨first :: added, List.append_assoc _ _ _, ?_, ?_⟩
      · intro path text hpath
        rcases (ViewFiles.resolve_file hnew).mp hpath with ⟨rfl, rfl⟩ | hlater
        · exact ⟨first, List.mem_cons_self, hfirst⟩
        · obtain ⟨found, hfound, htaken⟩ := hadded.each path text hlater
          exact ⟨found, List.mem_cons_of_mem _ hfound, htaken⟩
      · intro other hother
        rcases List.mem_cons.mp hother with rfl | hlater
        · exact ⟨[name], source, (ViewFiles.resolve_file hnew).mpr (.inl ⟨rfl, rfl⟩), hfirst⟩
        · obtain ⟨path, text, hpath, htaken⟩ := hadded.only other hlater
          exact ⟨path, text, (ViewFiles.resolve_file hnew).mpr (.inr hpath), htaken⟩
  | directory name inside rest ihinside ih =>
    obtain ⟨hname, hnew, hinside, hrest⟩ := hlisting
    rw [readable, scanEntries] at h
    split_ifs at h with hlong
    cases hscan : scanEntries (assetTooLong root) assetLeaf (readable inside) (childPath relative name)
        sources with
    | none =>
      rw [hscan] at h
      cases h
    | some next =>
      rw [hscan] at h
      obtain ⟨below, rfl, hbelow⟩ := ihinside hinside hscan
      obtain ⟨added, rfl, hadded⟩ := ih hrest h
      refine ⟨below ++ added, List.append_assoc _ _ _, ?_, ?_⟩
      · intro path text hpath
        rcases (ViewFiles.resolve_directory hnew).mp hpath with ⟨under, rfl, hunder⟩ | hlater
        · obtain ⟨found, hfound, htaken⟩ := hbelow.each under text hunder
          exact ⟨found, List.mem_append_left _ hfound, htaken⟩
        · obtain ⟨found, hfound, htaken⟩ := hadded.each path text hlater
          exact ⟨found, List.mem_append_right _ hfound, htaken⟩
      · intro other hother
        rcases List.mem_append.mp hother with hunder | hlater
        · obtain ⟨path, text, hpath, htaken⟩ := hbelow.only other hunder
          exact ⟨name :: path, text, (ViewFiles.resolve_directory hnew).mpr (.inl ⟨path, rfl, hpath⟩),
            htaken⟩
        · obtain ⟨path, text, hpath, htaken⟩ := hadded.only other hlater
          exact ⟨path, text, (ViewFiles.resolve_directory hnew).mpr (.inr hpath), htaken⟩

/-- A path put together from names has a slash in front of each. -/
theorem foldl_joined (hsome : segments ≠ []) (hplain : ∀ segment ∈ segments, PlainName segment) :
    sv "/" ++ segments.foldl childPath [] = joined segments := by
  have hrest : ∀ (segments : List Bytes) (directory : Bytes), directory ≠ [] →
      segments.foldl childPath directory = directory ++ joined segments := by
    intro segments
    induction segments with
    | nil =>
      intro directory _
      exact (List.append_nil _).symm
    | cons segment segments ih =>
      intro directory hdirectory
      rw [List.foldl_cons, ViewFiles.childPath_cons hdirectory, ih _ (by simp), joined, joined,
        List.flatMap_cons, List.append_assoc]
      rfl
  obtain ⟨first, rest, rfl⟩ := List.exists_cons_of_ne_nil hsome
  rw [List.foldl_cons, ViewFiles.childPath_nil, hrest rest first (hplain first List.mem_cons_self).1,
    joined, joined, List.flatMap_cons]
  rfl

theorem splitOn_tail (h : AssetSegments path segments) : path.tail.splitOn slash = segments := by
  obtain ⟨first, rest, rfl⟩ := List.exists_cons_of_ne_nil h.some
  have hslash := fun segment hsegment => (h.segments segment hsegment).toName.noSlash
  have hsplit := splitOn_joined hslash []
  have hpath : [] ++ joined (first :: rest) = [] ++ slash :: path.tail := by
    rw [h.joined, joined, List.flatMap_cons, List.cons_append, List.tail_cons]
  rw [hpath, List.splitOn_append_cons_self] at hsplit
  exact (List.cons.inj hsplit).2

theorem publicFile_segments (h : AssetSegments path segments) :
    publicFile root entries (publicDirectory root ++ path) = ViewFiles.resolve segments entries := by
  have hbegins : (publicDirectory root).isPrefixOf (publicDirectory root ++ path) = true :=
    List.isPrefixOf_iff_prefix.mpr (List.prefix_append _ _)
  rw [publicFile, if_pos hbegins, List.drop_left, splitOn_tail h]

theorem assetPathWithinRoot_below (h : AssetSegments path segments) :
    assetPathWithinRoot root (root ++ path) = true := by
  obtain ⟨first, rest, rfl⟩ := List.exists_cons_of_ne_nil h.some
  have hbegins : root.isPrefixOf (root ++ path) = true :=
    List.isPrefixOf_iff_prefix.mpr (List.prefix_append _ _)
  have hslash : (root ++ path)[root.length]? = some (ch '/') := by
    rw [List.getElem?_append_right (Nat.le_refl _), Nat.sub_self, h.joined, joined,
      List.flatMap_cons]
    rfl
  rw [assetPathWithinRoot, hbegins, hslash, beq_self_eq_true, Bool.or_true, Bool.and_self]

theorem assetLoad_public (hroot : (publicDirectory root).length < PATH_MAX)
    (h : AssetSegments path segments) :
    assetLoadFilesystemNormalized (publicHost root entries) path =
      if PATH_MAX ≤ (publicDirectory root ++ path).length then .error
      else
        match ViewFiles.resolve segments entries with
        | .missing => .missing
        | .source text =>
          if CEASY_MAX_ASSET_BYTES < text.length then .error
          else .found ⟨assetContentType path, text⟩
        | _ => .error := by
  have hlong : path ≠ [] := List.length_pos_iff.mp (Nat.lt_of_lt_of_le Nat.zero_lt_two h.two_le)
  have hother : publicDirectory root ++ path ≠ publicDirectory root := by
    intro hsame
    exact hlong (List.append_right_eq_self.mp hsame)
  have hrealpath : (publicHost root entries).realpath (publicDirectory root) =
      .found (publicDirectory root) := if_pos rfl
  have hbelow : (publicHost root entries).realpath (publicDirectory root ++ path) =
      match ViewFiles.resolve segments entries with
      | .missing => .absent
      | _ => .found (publicDirectory root ++ path) := by
    rw [publicHost]
    dsimp only
    rw [if_neg hother, publicFile_segments h]
  have hopen : (publicHost root entries).fopen (publicDirectory root ++ path) =
      match ViewFiles.resolve segments entries with
      | .missing => .absent
      | .source text => .found (some text)
      | _ => .found none := by
    rw [publicHost]
    dsimp only
    rw [publicFile_segments h]
  rw [assetLoadFilesystemNormalized, if_neg (Nat.not_lt.mpr h.two_le)]
  have hcwd : (publicHost root entries).getcwd = some root := rfl
  rw [hcwd]
  dsimp only
  rw [← publicDirectory, if_neg (Nat.not_le.mpr hroot), hrealpath]
  dsimp only
  rw [assetLoadFile]
  split_ifs with hshort
  · rfl
  rw [hbelow]
  rcases ViewFiles.resolve_cases segments entries with hfile | hfile | ⟨text, hfile⟩
  · rw [hfile]
  · rw [hfile] at hopen ⊢
    dsimp only
    rw [assetPathWithinRoot_below h, hopen]
    rfl
  · rw [hfile] at hopen ⊢
    dsimp only
    rw [assetPathWithinRoot_below h, hopen]
    have halloc : (publicHost root entries).arenaAlloc text.length = true := rfl
    rw [Bool.not_true, if_neg Bool.false_ne_true]
    dsimp only
    rw [halloc, Bool.not_true, Bool.and_false, if_neg Bool.false_ne_true]

theorem assetLoad_bare (hroot : (publicDirectory root).length < PATH_MAX)
    (h : AssetSegments path segments) :
    assetLoadFilesystemNormalized (bareHost root) path = .missing := by
  rw [assetLoadFilesystemNormalized, if_neg (Nat.not_lt.mpr h.two_le)]
  exact if_neg (Nat.not_le.mpr hroot)

theorem assetBundleFind_bundle (hdistinct : (sources.map AssetSource.url).Nodup)
    {source : AssetSource} (hsource : source ∈ sources) :
    assetBundleFind (assetBundle sources) source.url =
      some ⟨source.url, some source.contentType, .of source.data⟩ := by
  have hfind : assetBundleFind (assetBundle sources) source.url ≠ none := by
    unfold assetBundleFind
    rw [Ne, List.find?_eq_none]
    intro hnone
    exact hnone _ (List.mem_map_of_mem hsource) (beq_self_eq_true source.url)
  obtain ⟨asset, hasset⟩ := Option.ne_none_iff_exists'.mp hfind
  unfold assetBundleFind at hasset
  obtain ⟨other, hother, rfl⟩ := List.mem_map.mp (List.mem_of_find?_eq_some hasset)
  have hequal := List.find?_some hasset
  have hurl : other.url = source.url := eq_of_beq hequal
  rw [assetBundleFind, hasset, List.inj_on_of_nodup_map hdistinct hother hsource hurl]

theorem assetBundleFind_none (h : ∀ source ∈ sources, source.url ≠ path) :
    assetBundleFind (assetBundle sources) path = none := by
  rw [assetBundleFind, List.find?_eq_none]
  intro asset hasset hurl
  obtain ⟨source, hsource, rfl⟩ := List.mem_map.mp hasset
  exact h source hsource (eq_of_beq hurl)

theorem joined_injective {first second : List Bytes} (hfirst : ∀ segment ∈ first, slash ∉ segment)
    (hsecond : ∀ segment ∈ second, slash ∉ segment) (h : joined first = joined second) :
    first = second := by
  have hleft := splitOn_joined hfirst []
  rw [h, splitOn_joined hsecond []] at hleft
  exact (List.append_cancel_left hleft).symm

theorem assetBundle_holds (hlisting : Listing entries) (hlists : ListsAssets root [] entries sources)
    (hdistinct : (sources.map AssetSource.url).Nodup) (h : AssetSegments path segments) :
    (∃ text, ViewFiles.resolve segments entries = .source text ∧
      (publicDirectory root ++ path).length < PATH_MAX ∧ text.length ≤ ASSET_COMPILER_MAX_BYTES ∧
        assetBundleFind (assetBundle sources) path =
          some ⟨path, some (assetContentType path), .of text⟩) ∨
      (∀ text, ViewFiles.resolve segments entries ≠ .source text) ∧
        assetBundleFind (assetBundle sources) path = none := by
  have hnames {names : List Bytes} {text : Bytes} {source : AssetSource}
      (hfile : ViewFiles.resolve names entries = .source text)
      (hin : TakenIn root (names.foldl childPath []) text source) :
      sv "/" ++ names.foldl childPath [] = joined names := by
    obtain ⟨hsome, hplain⟩ := ViewFiles.resolve_plain hlisting hfile
    exact foldl_joined hsome hplain
  by_cases hfile : ∃ text, ViewFiles.resolve segments entries = .source text
  · left
    obtain ⟨text, hfile⟩ := hfile
    obtain ⟨source, hsource, hin⟩ := hlists.each segments text hfile
    have hpath := hnames hfile hin
    rw [← h.joined] at hpath
    have hfind := assetBundleFind_bundle hdistinct hsource
    have hshort := hin.short
    rw [hin.source, hpath] at hfind
    refine ⟨text, hfile, ?_, hin.small, hfind⟩
    rw [publicDirectory, ← hpath, ← List.append_assoc, List.append_assoc root]
    exact hshort
  · right
    rw [not_exists] at hfile
    refine ⟨hfile, assetBundleFind_none fun source hsource hurl => ?_⟩
    obtain ⟨names, text, hnamed, hin⟩ := hlists.only source hsource
    have hpath := hnames hnamed hin
    rw [hin.source] at hurl
    have hsame : joined names = joined segments := by
      rw [← hpath, ← h.joined]
      exact hurl
    have hplain := (ViewFiles.resolve_plain hlisting hnamed).2
    have hsegments : names = segments := joined_injective
      (fun segment hsegment => (hplain segment hsegment).2)
      (fun segment hsegment => (h.segments segment hsegment).toName.noSlash) hsame
    exact hfile text (hsegments ▸ hnamed)

/-- Every request for an asset is answered from the files as it is from what was compiled of them. -/
theorem assetServe_embedded {W : Type*} (environment : Environment) (peer : Peer W)
    (connection : Connection W) (requestPath : Bytes) (qsort : Sorting assetSourceCompare)
    (hlisting : Listing entries)
    (hscan : assetScan root (.opened (readable entries)) = some sources)
    (hunique : assetDuplicate (qsort.sort sources) = false) :
    assetServe environment peer (publicHost root entries) (assetBundle (qsort.sort sources))
        connection requestPath =
      assetServe environment peer (bareHost root) (assetBundle (qsort.sort sources)) connection
        requestPath := by
  unfold assetScan at hscan
  split_ifs at hscan with hroot
  rw [not_le] at hroot
  obtain ⟨added, hadded, hlists⟩ := scanEntries_lists hlisting hscan
  rw [List.nil_append] at hadded
  subst hadded
  have hperm := qsort.perm sources
  have hsorted : ListsAssets root [] entries (qsort.sort sources) := by
    refine ⟨fun path text hfile => ?_, fun source hsource => ?_⟩
    · obtain ⟨source, hsource, hin⟩ := hlists.each path text hfile
      exact ⟨source, hperm.mem_iff.mpr hsource, hin⟩
    · exact hlists.only source (hperm.mem_iff.mp hsource)
  have hdistinct : ((qsort.sort sources).map AssetSource.url).Nodup := by
    rw [CompilerRuns.assetDuplicate_repeats] at hunique
    exact (DirectoryScan.repeats_iff (fun _ _ hle => hle) (qsort.sorted sources)).mp hunique
  have hpublic : assetNormalizePath (some (publicHost root entries).arenaAlloc) requestPath =
      assetNormalizePath (some (bareHost root).arenaAlloc) requestPath := rfl
  rw [assetServe, assetServe, hpublic]
  cases hnormal : assetNormalizePath (some (bareHost root).arenaAlloc) requestPath with
  | none => rfl
  | some normalized =>
    obtain ⟨-, -, code, segments, -, -, hsegments⟩ := (assetNormalizePath_some _ _ _).mp hnormal
    dsimp only
    rw [assetLoad_bare hroot hsegments, assetLoad_public hroot hsegments]
    dsimp only
    rcases assetBundle_holds hlisting hsorted hdistinct hsegments with
      ⟨text, hfile, hshort, hsmall, hfind⟩ | ⟨hfile, hfind⟩
    · have hlarge : ¬ CEASY_MAX_ASSET_BYTES < text.length := Nat.not_lt.mpr hsmall
      rw [hfile, hfind, if_neg (Nat.not_le.mpr hshort)]
      dsimp only
      rw [if_neg hlarge]
    · rw [hfind]
      split_ifs with hlong
      · rfl
      · rcases ViewFiles.resolve_cases segments entries with hnone | hnone | ⟨text, hsome⟩
        · rw [hnone]
        · rw [hnone]
        · exact absurd hsome (hfile text)

def styledEntries : ViewCompiler.Entries :=
  .directory (sv "css") (.file (sv "site.css") (sv "p\x7b\x7d") .nil) (.file (sv "a.txt") [] .nil)

def styledSources : List AssetSource :=
  [⟨sv "/css/site.css", sv "text/css; charset=utf-8", sv "p\x7b\x7d"⟩,
    ⟨sv "/a.txt", sv "text/plain; charset=utf-8", []⟩]

theorem styledEntries_listing : Listing styledEntries := by
  simp only [styledEntries, Listing, PlainName]
  decide

theorem assetServe_embedded_styled :
    assetServe sinkEnvironment sinkPeer (publicHost (sv "/srv") styledEntries)
        (assetBundle ((Sorting.insertion assetSourceCompare).sort styledSources)) sinkConnection
        (sv "/css/site.css") =
      assetServe sinkEnvironment sinkPeer (bareHost (sv "/srv"))
        (assetBundle ((Sorting.insertion assetSourceCompare).sort styledSources)) sinkConnection
        (sv "/css/site.css") := by
  have hscan : assetScan (sv "/srv") (.opened (readable styledEntries)) = some styledSources := by
    decide +kernel
  have hunique :
      assetDuplicate ((Sorting.insertion assetSourceCompare).sort styledSources) = false := by
    decide +kernel
  exact assetServe_embedded sinkEnvironment sinkPeer sinkConnection (sv "/css/site.css")
    (Sorting.insertion assetSourceCompare) styledEntries_listing hscan hunique

end Ceasy.Assets
