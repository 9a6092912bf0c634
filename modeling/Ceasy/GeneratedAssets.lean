import Ceasy.AssetServing
import Ceasy.GeneratedBundle

set_option autoImplicit false

/-!
# What the generated assets declare

The file that the asset compiler writes is read as C, from its bytes to the bundle that
`ceasy_asset_bundle` returns. Paths, types and data alike are arrays of bytes, so there is
nothing to escape.
-/
namespace Ceasy.GeneratedAssets
open StringView CLiteral CData GeneratedBundle Transducer
open Assets (EmbeddedAsset assetBundle)
open CompilerRuns (AssetSource hexDigit assetByte assetAppendByteArray assetAppendView assetPathName assetTypeName
  assetDataName assetArrays assetEntry)

def byteOf (value : Initializer) : Option UInt8 :=
  value.number.bind fun n => if n < 256 then some (UInt8.ofNat n) else none

def byteType : List Token := words [sv "static", sv "const", sv "unsigned", sv "char"]

def bytesOf (file : List External) (name : Bytes) : Option Bytes :=
  (arrayElements file byteType name).bind fun elements => elements.mapM byteOf

/-- `(const char *)`. -/
def charPointer : List Token :=
  [.mark (ch '('), .word (sv "const"), .word (sv "char"), .mark (ch '*'), .mark (ch ')')]

def castBytes (file : List External) : Initializer → Option Bytes
  | .scalar [first, second, third, fourth, fifth, .word name] =>
    if [first, second, third, fourth, fifth] = charPointer then bytesOf file name else none
  | _ => none

def embeddedAssetOf (file : List External) (value : Initializer) : Option EmbeddedAsset := do
  let path ← (value.member (sv "path")).bind (stringViewOf (castBytes file))
  let contentType ← (value.member (sv "content_type")).bind (stringViewOf (castBytes file))
  let name ← (value.member (sv "data")).bind Initializer.name
  let array ← bytesOf file name
  let length ← (value.member (sv "length")).bind Initializer.number
  let data ← firstElements length array
  some ⟨path, some contentType, .of data⟩

def assetNames : BundleNames where
  type := sv "AssetBundle"
  items := sv "assets"
  count := sv "asset_count"
  table := sv "ceasy_assets"
  function := sv "ceasy_asset_bundle"

def assetBundleOf (file : List External) : Option (List EmbeddedAsset) := do
  let (assets, count) ← bundleOf file assetNames
  let elements ← arrayOf file (tableType (sv "EmbeddedAsset")) assets count
  elements.mapM (embeddedAssetOf file)

def hexWord (byte : UInt8) : Bytes := sv "0x" ++ [hexDigit (byte / 16), hexDigit (byte % 16)]

theorem hexWord_bytes : ∀ n < 256, ((hexWord (UInt8.ofNat n)).all isWord &&
    numberOf (hexWord (UInt8.ofNat n)) == some n) = true := by
  decide +kernel

theorem hexWord_word (byte : UInt8) : ∀ c ∈ hexWord byte, isWord c = true := by
  have hword := hexWord_bytes byte.toNat (UInt8.toNat_lt byte)
  rw [UInt8.ofNat_toNat, Bool.and_eq_true] at hword
  exact List.all_eq_true.mp hword.1

theorem hexWord_number (byte : UInt8) : numberOf (hexWord byte) = some byte.toNat := by
  have hword := hexWord_bytes byte.toNat (UInt8.toNat_lt byte)
  rw [UInt8.ofNat_toNat, Bool.and_eq_true] at hword
  exact eq_of_beq hword.2

def byteTokens (byte : UInt8) : List Token := [.word (hexWord byte)]

def byteInit (byte : UInt8) : Initializer := .scalar [.word (hexWord byte)]

theorem byte_read (byte : UInt8) : byteOf (byteInit byte) = some byte := by
  rw [byteOf, byteInit, Initializer.number, hexWord_number, Option.bind_some, if_pos (UInt8.toNat_lt byte),
    UInt8.ofNat_toNat]

/-- Between two bytes, where a line may have ended. -/
def Between (mode : Mode) : Prop := mode = .fresh ∨ mode = .plain

theorem byte_reads {mode : Mode} (hmode : Between mode) (item : UInt8 × ℕ) :
    ∃ last, Between last ∧ Reads lexStep (mode, []) (assetByte item) (byteTokens item.1 ++ [.mark (ch ',')])
      (last, []) := by
  have hfront : Reads lexStep (mode, []) (sv "    0x") [] (.plain, sv "0x") := by
    rcases hmode with rfl | rfl
    · decide
    · decide
  have hdigits : Reads lexStep (.plain, sv "0x") [hexDigit (item.1 / 16), hexDigit (item.1 % 16)] []
      (.plain, hexWord item.1) :=
    reads_word (fun c hc => hexWord_word item.1 c (List.mem_append_right _ hc)) (sv "0x")
  have hsome : hexWord item.1 ≠ [] := by simp [hexWord, sv]
  unfold assetByte
  by_cases hline : item.2 % 12 = 11
  · have hend : Reads lexStep (.plain, []) (sv ",\n") [.mark (ch ',')] (.fresh, []) := by decide
    rw [if_pos hline]
    exact ⟨.fresh, .inl rfl, (hfront.append hdigits).append (reads_behind hend (by decide) hsome)⟩
  · have hend : Reads lexStep (.plain, []) (sv ",") [.mark (ch ',')] (.plain, []) := by decide
    rw [if_neg hline]
    exact ⟨.plain, .inr rfl, (hfront.append hdigits).append (reads_behind hend (by decide) hsome)⟩

theorem bytes_reads {mode : Mode} (hmode : Between mode) (items : List (UInt8 × ℕ)) :
    ∃ last, Between last ∧ Reads lexStep (mode, []) (items.flatMap assetByte)
      (items.flatMap fun item => byteTokens item.1 ++ [.mark (ch ',')]) (last, []) := by
  induction items generalizing mode with
  | nil => exact ⟨mode, hmode, .nil lexStep _⟩
  | cons item items ih =>
    obtain ⟨middle, hmiddle, hitem⟩ := byte_reads hmode item
    obtain ⟨last, hlast, hrest⟩ := ih hmiddle
    exact ⟨last, hlast, hitem.append hrest⟩

/-- The elements of the array for some data; an array of C cannot be empty. -/
def stored (data : Bytes) : Bytes := if data.length = 0 then [0] else data

theorem firstElements_stored (data : Bytes) : firstElements data.length (stored data) = some data := by
  unfold stored
  by_cases hempty : data.length = 0
  · rw [if_pos hempty, List.length_eq_zero_iff.mp hempty]
    rfl
  · rw [if_neg hempty, firstElements_all]

theorem stored_reads (data : Bytes) :
    ∃ last, Between last ∧ Reads lexStep (.fresh, [])
      ((if data.length = 0 then sv "    0x00,\n" else []) ++ data.zipIdx.flatMap assetByte)
      ((stored data).flatMap fun byte => byteTokens byte ++ [.mark (ch ',')]) (last, []) := by
  unfold stored
  by_cases hempty : data.length = 0
  · rw [if_pos hempty, if_pos hempty, List.length_eq_zero_iff.mp hempty]
    exact ⟨.fresh, .inl rfl, by decide⟩
  · obtain ⟨last, hlast, hreads⟩ := bytes_reads (.inl rfl : Between .fresh) data.zipIdx
    have hfirst : (data.zipIdx.flatMap fun item => byteTokens item.1 ++ [Token.mark (ch ',')]) =
        (data.zipIdx.map Prod.fst).flatMap fun byte => byteTokens byte ++ [.mark (ch ',')] :=
      (List.flatMap_map Prod.fst (fun byte => byteTokens byte ++ [Token.mark (ch ',')]) data.zipIdx).symm
    rw [hfirst, List.zipIdx_map_fst] at hreads
    rw [if_neg hempty, if_neg hempty, List.nil_append]
    exact ⟨last, hlast, hreads⟩

def byteArrayTokens (entry : Bytes × Bytes) : List Token :=
  arrayTokens (arrayHead byteType entry.1 []) byteTokens (stored entry.2)

def byteArrayExternal (entry : Bytes × Bytes) : External :=
  arrayExternal (arrayHead byteType entry.1 []) byteInit (stored entry.2)

theorem byteArray_reads {entry : Bytes × Bytes} (hname : ∀ c ∈ entry.1, isWord c = true) (hsome : entry.1 ≠ []) :
    Reads lexStep (.fresh, []) (assetAppendByteArray entry.1 entry.2) (byteArrayTokens entry) (.fresh, []) := by
  obtain ⟨last, hlast, hitems⟩ := stored_reads entry.2
  have hfront : Reads lexStep (.fresh, []) (sv "static const unsigned char ") byteType (.plain, []) := by
    decide
  have hclose : Reads lexStep (last, []) (sv "\x7d;\n\n") [.mark (ch '}'), .mark (ch ';')] (.fresh, []) := by
    rcases hlast with rfl | rfl
    · exact arrayClose_reads
    · decide
  have hhead := (hfront.append (reads_word hname [])).append (reads_behind arrayOpen_reads (by decide) hsome)
  have hall : Reads lexStep (.fresh, []) _ (byteArrayTokens entry) (.fresh, []) := array_reads hhead hitems hclose
  simp only [List.append_assoc] at hall
  simp only [assetAppendByteArray, List.append_assoc]
  exact hall

theorem byteArray_parses (entry : Bytes × Bytes) :
    Reads readStep (.head []) (byteArrayTokens entry) [byteArrayExternal entry] (.head []) :=
  array_parses rfl fun _ _ => denotes_word _

/-- What is written of an asset, under the names of the arrays. -/
def assetTexts (item : AssetSource × ℕ) : List (Bytes × Bytes) :=
  [(assetPathName item.2, item.1.url), (assetTypeName item.2, item.1.contentType),
    (assetDataName item.2, item.1.data)]

variable {sources : List AssetSource}

def texts (sources : List AssetSource) : List (Bytes × Bytes) := sources.zipIdx.flatMap assetTexts

theorem texts_name {entry : Bytes × Bytes} (h : entry ∈ texts sources) :
    (∀ c ∈ entry.1, isWord c = true) ∧ entry.1 ≠ [] := by
  obtain ⟨item, -, hmem⟩ := List.mem_flatMap.mp h
  simp only [assetTexts, List.mem_cons, List.not_mem_nil, or_false] at hmem
  rcases hmem with rfl | rfl | rfl
  · exact numbered_word (List.all_eq_true.mp (by decide)) item.2
  · exact numbered_word (List.all_eq_true.mp (by decide)) item.2
  · exact numbered_word (List.all_eq_true.mp (by decide)) item.2

theorem arrays_text (sources : List AssetSource) :
    sources.zipIdx.flatMap assetArrays =
      (texts sources).flatMap fun entry => assetAppendByteArray entry.1 entry.2 := by
  rw [texts, List.flatMap_assoc]
  congr 1
  funext item
  simp [assetArrays, assetTexts]

theorem arrays_reads (sources : List AssetSource) :
    Reads lexStep (.fresh, []) (sources.zipIdx.flatMap assetArrays) ((texts sources).flatMap byteArrayTokens)
      (.fresh, []) := by
  rw [arrays_text]
  exact .flatMap fun entry hentry => byteArray_reads (texts_name hentry).1 (texts_name hentry).2

theorem arrays_parses (sources : List AssetSource) :
    Reads readStep (.head []) ((texts sources).flatMap byteArrayTokens) ((texts sources).map byteArrayExternal)
      (.head []) := by
  rw [List.map_eq_flatMap]
  exact .flatMap fun entry _ => byteArray_parses entry

def castMembers (name : Bytes) (length : ℕ) : Members :=
  [(sv "data", charPointer ++ [.word name], .scalar (charPointer ++ [.word name])),
    (sv "length", [.word (decimal length)], .scalar [.word (decimal length)])]

theorem cast_denotes (name : Bytes) (length : ℕ) :
    Denotes (structTokens (castMembers name length)) (structInit (castMembers name length)) := by
  refine denotes_struct fun member hmem => ?_
  simp only [castMembers, List.mem_cons, List.not_mem_nil, or_false] at hmem
  rcases hmem with rfl | rfl
  · intro head frames
    cases frames with
    | nil => rfl
    | cons frame outer => rfl
  · exact denotes_word _

theorem cast_reads (field : Bytes) {name : Bytes} (hfield : ∀ c ∈ field, isWord c = true) (hnonempty : field ≠ [])
    (hname : ∀ c ∈ name, isWord c = true) (hsome : name ≠ []) (length : ℕ) :
    Reads lexStep (.plain, []) (assetAppendView field name length)
      (.mark (ch '.') :: .word field :: .mark (ch '=') :: (structTokens (castMembers name length) ++ [.mark (ch ',')]))
      (.plain, []) := by
  have hdot : Reads lexStep (.plain, []) (sv ".") [.mark (ch '.')] (.plain, []) := by decide
  have hopen : Reads lexStep (.plain, []) (sv " = \x7b.data = (const char *)")
      ([.mark (ch '='), .mark (ch '{'), .mark (ch '.'), .word (sv "data"), .mark (ch '=')] ++ charPointer)
      (.plain, []) := by decide
  have hend : Reads lexStep (.plain, []) (sv "\x7d, ") [.mark (ch '}'), .mark (ch ',')] (.plain, []) := by
    decide
  have hfirst := (hdot.append (reads_word hfield [])).append (reads_behind hopen (by decide) hnonempty)
  have hlast := ((reads_word hname []).append (reads_behind length_reads (by decide) hsome)).append
    ((decimal_reads length []).append (reads_behind hend (by decide) (decimal_ne_nil length)))
  have hall := hfirst.append hlast
  simp only [List.append_assoc, List.cons_append, List.nil_append] at hall
  simp only [assetAppendView, structTokens, memberTokens, castMembers, List.append_assoc, List.cons_append,
    List.nil_append]
  exact hall

def assetMembers (item : AssetSource × ℕ) : Members :=
  [(sv "path", structTokens (castMembers (assetPathName item.2) item.1.url.length),
      structInit (castMembers (assetPathName item.2) item.1.url.length)),
    (sv "content_type", structTokens (castMembers (assetTypeName item.2) item.1.contentType.length),
      structInit (castMembers (assetTypeName item.2) item.1.contentType.length)),
    (sv "data", [.word (assetDataName item.2)], .scalar [.word (assetDataName item.2)]),
    (sv "length", [.word (decimal item.1.data.length)], .scalar [.word (decimal item.1.data.length)])]

theorem asset_denotes (item : AssetSource × ℕ) :
    Denotes (structTokens (assetMembers item)) (structInit (assetMembers item)) := by
  refine denotes_struct fun member hmem => ?_
  simp only [assetMembers, List.mem_cons, List.not_mem_nil, or_false] at hmem
  rcases hmem with rfl | rfl | rfl | rfl
  · exact cast_denotes _ _
  · exact cast_denotes _ _
  · exact denotes_word _
  · exact denotes_word _

theorem asset_reads (item : AssetSource × ℕ) :
    Reads lexStep (.fresh, []) (assetEntry item) (structTokens (assetMembers item) ++ [.mark (ch ',')])
      (.fresh, []) := by
  have hpathName : (∀ c ∈ assetPathName item.2, isWord c = true) ∧ assetPathName item.2 ≠ [] :=
    numbered_word (List.all_eq_true.mp (by decide)) item.2
  have htypeName : (∀ c ∈ assetTypeName item.2, isWord c = true) ∧ assetTypeName item.2 ≠ [] :=
    numbered_word (List.all_eq_true.mp (by decide)) item.2
  have hdataName : (∀ c ∈ assetDataName item.2, isWord c = true) ∧ assetDataName item.2 ≠ [] :=
    numbered_word (List.all_eq_true.mp (by decide)) item.2
  have hopen : Reads lexStep (.fresh, []) (sv "    \x7b") [.mark (ch '{')] (.plain, []) := by decide
  have hpath := cast_reads (sv "path") (List.all_eq_true.mp (by decide)) (by decide) hpathName.1 hpathName.2
    item.1.url.length
  have htype := cast_reads (sv "content_type") (List.all_eq_true.mp (by decide)) (by decide) htypeName.1
    htypeName.2 item.1.contentType.length
  have hdata : Reads lexStep (.plain, []) (sv ".data = ") [.mark (ch '.'), .word (sv "data"), .mark (ch '=')]
      (.plain, []) := by decide
  have hnamed := (reads_word hdataName.1 []).append (reads_behind length_reads (by decide) hdataName.2)
  have hlast := (hdata.append hnamed).append
    ((decimal_reads item.1.data.length []).append (reads_behind entryEnd_reads (by decide) (decimal_ne_nil _)))
  have hall := ((hopen.append hpath).append htype).append hlast
  simp only [List.append_assoc, List.cons_append, List.nil_append] at hall
  rw [structTokens]
  simp only [assetEntry, memberTokens, assetMembers, List.append_assoc, List.cons_append, List.nil_append]
  exact hall

def assetsTokens (sources : List AssetSource) : List Token :=
  tableTokens (sv "EmbeddedAsset") (sv "ceasy_assets") assetMembers sources.zipIdx

def assetsExternal (sources : List AssetSource) : External :=
  tableExternal (sv "EmbeddedAsset") (sv "ceasy_assets") assetMembers sources.zipIdx

def assetFile (sources : List AssetSource) : List External :=
  (texts sources).map byteArrayExternal ++ [assetsExternal sources] ++ bundleExternals assetNames sources.length

theorem assets_reads (sources : List AssetSource) :
    Reads lexStep (.fresh, [])
      ((if sources.length = 0 then sv "static const EmbeddedAsset ceasy_assets[1] = \x7b\x7b0\x7d\x7d;\n\n"
          else sv "static const EmbeddedAsset ceasy_assets[] = \x7b\n") ++
        sources.zipIdx.flatMap assetEntry ++ (if 0 < sources.length then sv "\x7d;\n\n" else []))
      (assetsTokens sources) (.fresh, []) := by
  have hmissing : Reads lexStep (.fresh, [])
      (sv "static const EmbeddedAsset ceasy_assets[1] = \x7b\x7b0\x7d\x7d;\n\n")
      (tableTokens (sv "EmbeddedAsset") (sv "ceasy_assets") assetMembers []) (.fresh, []) := by decide
  have hopen : Reads lexStep (.fresh, []) (sv "static const EmbeddedAsset ceasy_assets[] = \x7b\n")
      (arrayHead (tableType (sv "EmbeddedAsset")) (sv "ceasy_assets") [] ++ [.mark (ch '='), .mark (ch '{')])
      (.fresh, []) := by decide
  have htable := table_reads sources.zipIdx hmissing hopen fun item _ => asset_reads item
  rw [List.length_zipIdx] at htable
  exact htable

theorem assetNames_reads (count : ℕ) :
    Reads lexStep (.fresh, [])
      (sv "static const AssetBundle ceasy_bundle = \x7b.assets = ceasy_assets, .asset_count = " ++ decimal count ++
        (sv "\x7d;\n\nconst AssetBundle *ceasy_asset_bundle(void) \x7b\n" ++ sv "    return &ceasy_bundle;\n\x7d\n"))
      (bundleTokens assetNames count) (.fresh, []) :=
  bundle_reads assetNames count (by decide) (by decide +kernel) (by decide)

theorem byteArray_steady {entry : Bytes × Bytes} (hname : ∀ c ∈ entry.1, isWord c = true) :
    Steady (assetAppendByteArray entry.1 entry.2) := by
  have hbyte : ∀ item : UInt8 × ℕ, Steady (assetByte item) := fun item => by
    have hfront : Steady (sv "    ") := by decide
    have hcomma : Steady [ch ','] := by decide
    have hline : Steady (if item.2 % 12 = 11 then sv "\n" else []) := by
      split_ifs
      · decide
      · decide
    have hall := ((hfront.append (word_steady (hexWord_word item.1))).append hcomma).append hline
    exact hall
  have hfront : Steady (sv "static const unsigned char ") := by decide
  have hempty : Steady (if entry.2.length = 0 then sv "    0x00,\n" else []) := by
    split_ifs
    · decide
    · decide
  exact ((((hfront.append (word_steady hname)).append arrayOpen_steady).append hempty).append
    (.flatMap fun item _ => hbyte item)).append arrayClose_steady

theorem cast_steady {field name : Bytes} (hfield : ∀ c ∈ field, isWord c = true)
    (hname : ∀ c ∈ name, isWord c = true) (length : ℕ) : Steady (assetAppendView field name length) := by
  have hdot : Steady (sv ".") := by decide
  have hopen : Steady (sv " = \x7b.data = (const char *)") := by decide
  have hend : Steady (sv "\x7d, ") := by decide
  exact (((((hdot.append (word_steady hfield)).append hopen).append (word_steady hname)).append length_steady).append
    (decimal_steady length)).append hend

theorem asset_steady (item : AssetSource × ℕ) : Steady (assetEntry item) := by
  have hname : ∀ {front : Bytes}, (front.all isWord) = true → ∀ c ∈ front ++ decimal item.2, isWord c = true :=
    fun hfront => (numbered_word (List.all_eq_true.mp hfront) item.2).1
  have hopen : Steady (sv "    \x7b") := by decide
  have hdata : Steady (sv ".data = ") := by decide
  exact ((((((hopen.append (cast_steady (List.all_eq_true.mp (by decide)) (hname (by decide)) _)).append
    (cast_steady (List.all_eq_true.mp (by decide)) (hname (by decide)) _)).append hdata).append
    (word_steady (hname (by decide)))).append length_steady).append (decimal_steady _)).append entryEnd_steady

theorem assets_steady (sources : List AssetSource) :
    Steady ((if sources.length = 0 then sv "static const EmbeddedAsset ceasy_assets[1] = \x7b\x7b0\x7d\x7d;\n\n"
        else sv "static const EmbeddedAsset ceasy_assets[] = \x7b\n") ++
      sources.zipIdx.flatMap assetEntry ++ (if 0 < sources.length then sv "\x7d;\n\n" else [])) := by
  have hmissing : Steady (sv "static const EmbeddedAsset ceasy_assets[1] = \x7b\x7b0\x7d\x7d;\n\n") := by decide
  have hopen : Steady (sv "static const EmbeddedAsset ceasy_assets[] = \x7b\n") := by decide
  have htable := table_steady hmissing hopen fun item (_ : item ∈ sources.zipIdx) => asset_steady item
  rw [List.length_zipIdx] at htable
  exact htable

theorem assetNames_steady (count : ℕ) :
    Steady (sv "static const AssetBundle ceasy_bundle = \x7b.assets = ceasy_assets, .asset_count = " ++
      decimal count ++ (sv "\x7d;\n\nconst AssetBundle *ceasy_asset_bundle(void) \x7b\n" ++
        sv "    return &ceasy_bundle;\n\x7d\n")) := by
  have hopen : Steady (sv "static const AssetBundle ceasy_bundle = \x7b.assets = ceasy_assets, .asset_count = ") := by
    decide
  have hclose : Steady (sv "\x7d;\n\nconst AssetBundle *ceasy_asset_bundle(void) \x7b\n" ++
      sv "    return &ceasy_bundle;\n\x7d\n") := by decide
  exact (hopen.append (decimal_steady count)).append hclose

def assetHeader : Bytes :=
  sv "/*\n * Generated by Ceasy.\n *\n * Source:\n *   public/**\n *\n" ++
    sv " * Do not edit this file manually.\n */\n\n#include <ceasy/asset/asset.h>\n\n"

theorem generate_parts (sources : List AssetSource) :
    CompilerRuns.assetGenerate sources =
      assetHeader ++ sources.zipIdx.flatMap assetArrays ++
        ((if sources.length = 0 then sv "static const EmbeddedAsset ceasy_assets[1] = \x7b\x7b0\x7d\x7d;\n\n"
            else sv "static const EmbeddedAsset ceasy_assets[] = \x7b\n") ++
          sources.zipIdx.flatMap assetEntry ++ (if 0 < sources.length then sv "\x7d;\n\n" else [])) ++
        (sv "static const AssetBundle ceasy_bundle = \x7b.assets = ceasy_assets, .asset_count = " ++
          decimal sources.length ++ (sv "\x7d;\n\nconst AssetBundle *ceasy_asset_bundle(void) \x7b\n" ++
            sv "    return &ceasy_bundle;\n\x7d\n")) := by
  simp only [CompilerRuns.assetGenerate, assetHeader, List.append_assoc]

theorem generate_externals (sources : List AssetSource) :
    externals (CompilerRuns.assetGenerate sources) = assetFile sources := by
  have hheader : Reads lexStep (.fresh, []) assetHeader [] (.fresh, []) := by decide +kernel
  have hsteady : Steady assetHeader := by decide +kernel
  have harrays : Steady (sources.zipIdx.flatMap assetArrays) := by
    rw [arrays_text]
    exact .flatMap fun entry hentry => byteArray_steady (texts_name hentry).1
  rw [generate_parts]
  have htokens := tokens_of_reads
    (((hsteady.append harrays).append (assets_steady sources)).append (assetNames_steady sources.length))
    (((hheader.append (arrays_reads sources)).append (assets_reads sources)).append
      (assetNames_reads sources.length))
  rw [ended, if_pos rfl, List.append_nil, List.nil_append] at htokens
  exact externals_of_reads htokens
    (((arrays_parses sources).append (table_parses _ _ fun item _ => asset_denotes item)).append
      (bundle_parses assetNames sources.length))

theorem byteArrays (sources : List AssetSource) : Arrays ((texts sources).map byteArrayExternal) := by
  intro declared hmem
  obtain ⟨entry, -, rfl⟩ := List.mem_map.mp hmem
  exact ⟨_, _, _, _, rfl⟩

theorem assetFile_bundle : bundleOf (assetFile sources) assetNames = some (sv "ceasy_assets", sources.length) :=
  bundleOf_found assetNames sources.length ((byteArrays sources).append (arrays_table _ _ _ _)) (by decide)

theorem assetFile_assets :
    arrayOf (assetFile sources) (tableType (sv "EmbeddedAsset")) (sv "ceasy_assets") sources.length =
      some (sources.zipIdx.map fun item => structInit (assetMembers item)) := by
  have hnone : ((texts sources).map byteArrayExternal).findSome?
      (arrayValue (tableType (sv "EmbeddedAsset")) (sv "ceasy_assets")) = none := by
    rw [List.findSome?_eq_none_iff]
    intro declared hdeclared
    obtain ⟨entry, -, rfl⟩ := List.mem_map.mp hdeclared
    rfl
  have htable := arrayOf_table assetMembers sources.zipIdx (bundleExternals assetNames sources.length) hnone
  rwa [List.length_zipIdx] at htable

/-- Two arrays of one name are of one asset, and of the same of its texts. -/
theorem texts_same {entry other : Bytes × Bytes} (hentry : entry ∈ texts sources) (hother : other ∈ texts sources)
    (h : entry.1 = other.1) : entry = other := by
  obtain ⟨item, hitem, hmem⟩ := List.mem_flatMap.mp hentry
  obtain ⟨item', hitem', hmem'⟩ := List.mem_flatMap.mp hother
  have hsame : item.2 = item'.2 → item = item' := fun hindex => zipIdx_index hitem hitem' hindex
  have happart : ∀ {front front' : Bytes} {index index' : ℕ}, front.length = front'.length → front ≠ front' →
      front ++ decimal index ≠ front' ++ decimal index' :=
    fun hlength hne heq => hne (numbered_inj _ _ hlength heq).1
  simp only [assetTexts, List.mem_cons, List.not_mem_nil, or_false] at hmem hmem'
  -- The names differ in the four letters before the index, or in the index.
  rcases hmem with rfl | rfl | rfl
  · rcases hmem' with rfl | rfl | rfl
    · rw [hsame (numbered_inj (sv "ceasy_asset_path_") _ rfl h).2]
    · exact absurd h (happart (by decide) (by decide +kernel))
    · exact absurd h (happart (by decide) (by decide +kernel))
  · rcases hmem' with rfl | rfl | rfl
    · exact absurd h (happart (by decide) (by decide +kernel))
    · rw [hsame (numbered_inj (sv "ceasy_asset_type_") _ rfl h).2]
    · exact absurd h (happart (by decide) (by decide +kernel))
  · rcases hmem' with rfl | rfl | rfl
    · exact absurd h (happart (by decide) (by decide +kernel))
    · exact absurd h (happart (by decide) (by decide +kernel))
    · rw [hsame (numbered_inj (sv "ceasy_asset_data_") _ rfl h).2]

theorem bytes_read {entry : Bytes × Bytes} (hentry : entry ∈ texts sources) :
    bytesOf (assetFile sources) entry.1 = some (stored entry.2) := by
  have hfound : ((texts sources).map byteArrayExternal).findSome? (arrayValue byteType entry.1) =
      some (.list ((stored entry.2).map fun byte => (none, byteInit byte))) := by
    refine findSome_mem (List.mem_map_of_mem hentry) (arrayValue_head _ _ _ _) fun declared hdeclared value hvalue => ?_
    obtain ⟨other, hother, rfl⟩ := List.mem_map.mp hdeclared
    obtain ⟨hname, rfl⟩ := arrayValue_name hvalue
    rw [texts_same hentry hother hname]
  have hall : ((stored entry.2).map byteInit).mapM byteOf = some ((stored entry.2).map id) :=
    Sql.mapM_map fun byte _ => byte_read byte
  rw [List.map_id] at hall
  have helements : arrayElements (assetFile sources) byteType entry.1 = some ((stored entry.2).map byteInit) := by
    refine arrayElements_found ?_
    rw [assetFile, List.findSome?_append, List.findSome?_append, hfound]
    rfl
  rw [bytesOf, helements, Option.bind_some, hall]

theorem castBytes_array (file : List External) (name : Bytes) :
    castBytes file (.scalar (charPointer ++ [.word name])) = bytesOf file name := by
  simp only [charPointer, List.cons_append, List.nil_append, castBytes, if_true]

theorem cast_read {entry : Bytes × Bytes} (hentry : entry ∈ texts sources) :
    stringViewOf (castBytes (assetFile sources)) (structInit (castMembers entry.1 entry.2.length)) = some entry.2 := by
  have hdata : ((structInit (castMembers entry.1 entry.2.length)).member (sv "data")).bind
      (castBytes (assetFile sources)) = some (stored entry.2) :=
    (castBytes_array _ _).trans (bytes_read hentry)
  have hlength : ((structInit (castMembers entry.1 entry.2.length)).member (sv "length")).bind Initializer.number =
      some entry.2.length := decimal_number entry.2.length
  rw [stringViewOf, hdata, hlength]
  exact firstElements_stored entry.2

theorem asset_read {item : AssetSource × ℕ} (hitem : item ∈ sources.zipIdx) :
    embeddedAssetOf (assetFile sources) (structInit (assetMembers item)) =
      some ⟨item.1.url, some item.1.contentType, .of item.1.data⟩ := by
  have hmem : ∀ entry ∈ assetTexts item, entry ∈ texts sources := fun entry hentry =>
    List.mem_flatMap.mpr ⟨item, hitem, hentry⟩
  have hpath : ((structInit (assetMembers item)).member (sv "path")).bind
      (stringViewOf (castBytes (assetFile sources))) = some item.1.url :=
    cast_read (hmem (assetPathName item.2, item.1.url) (by simp [assetTexts]))
  have htype : ((structInit (assetMembers item)).member (sv "content_type")).bind
      (stringViewOf (castBytes (assetFile sources))) = some item.1.contentType :=
    cast_read (hmem (assetTypeName item.2, item.1.contentType) (by simp [assetTexts]))
  have hname : ((structInit (assetMembers item)).member (sv "data")).bind Initializer.name =
      some (assetDataName item.2) := rfl
  have hdata : bytesOf (assetFile sources) (assetDataName item.2) = some (stored item.1.data) :=
    bytes_read (hmem (assetDataName item.2, item.1.data) (by simp [assetTexts]))
  have hlength : ((structInit (assetMembers item)).member (sv "length")).bind Initializer.number =
      some item.1.data.length := decimal_number _
  simp only [embeddedAssetOf, hpath, htype, hname, hdata, hlength, firstElements_stored, Option.bind_eq_bind,
    Option.bind_some]

/-- The file that is generated for some assets, read as C, is the bundle of these assets: each with
its path, its type and its bytes, whatever they are. -/
theorem generated_assets_declare (sources : List AssetSource) :
    assetBundleOf (externals (CompilerRuns.assetGenerate sources)) = some (assetBundle sources) := by
  have hassets : (sources.zipIdx.map fun item => structInit (assetMembers item)).mapM
      (embeddedAssetOf (assetFile sources)) =
        some (sources.zipIdx.map fun item => ⟨item.1.url, some item.1.contentType, .of item.1.data⟩) :=
    Sql.mapM_map fun item hitem => asset_read hitem
  have hmap : (sources.zipIdx.map fun item => (⟨item.1.url, some item.1.contentType, .of item.1.data⟩ :
      EmbeddedAsset)) = assetBundle sources := by
    have hfirst := congrArg (List.map fun source : AssetSource =>
      (⟨source.url, some source.contentType, .of source.data⟩ : EmbeddedAsset)) (List.zipIdx_map_fst 0 sources)
    rwa [List.map_map] at hfirst
  rw [generate_externals, assetBundleOf, assetFile_bundle, Option.bind_eq_bind, Option.bind_some]
  dsimp only
  rw [assetFile_assets, Option.bind_eq_bind, Option.bind_some, hassets, hmap]

end Ceasy.GeneratedAssets
