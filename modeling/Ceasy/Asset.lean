import Ceasy.AssetPath
import Ceasy.CompilerRuns
import Ceasy.Response

set_option autoImplicit false

/-!
# Serving assets

An asset is looked for in the public directory of the working directory, and then among those that
the program was built with.
-/
namespace Ceasy.Assets
open StringView View Sessions Responses
open CompilerRuns (assetContentType)

variable {W : Type*}

def CEASY_MAX_ASSET_BYTES : ℕ := 32 * 1024 * 1024

/-- What a call of the system finds: `absent` is ENOENT or ENOTDIR. -/
inductive Located (α : Type) where
  | found (value : α)
  | absent
  | refused

/-- The arena and the calls of the system by which assets are found. -/
structure AssetHost where
  arenaAlloc : ℕ → Bool
  getcwd : Option Bytes
  realpath : Bytes → Located Bytes
  /-- A file is opened and read; `none` when its size or its bytes cannot be had. -/
  fopen : Bytes → Located (Option Bytes)

structure AssetData where
  contentType : Bytes
  data : Bytes
deriving DecidableEq, Repr

inductive AssetLoadResult where
  | missing
  | found (asset : AssetData)
  | error
deriving DecidableEq, Repr

/-- `stringv` fields of a bundle may be NULL. -/
structure EmbeddedAsset where
  path : Bytes
  contentType : Option Bytes
  body : Body

def assetPathWithinRoot (root path : Bytes) : Bool :=
  root.isPrefixOf path && (path.length == root.length || path[root.length]? == some (ch '/'))

/-- The end of `asset_load_filesystem_normalized`, from the file's name on. -/
def assetLoadFile (host : AssetHost) (publicRealpath path : Bytes) : AssetLoadResult :=
  let filename := publicRealpath ++ path
  if PATH_MAX ≤ filename.length then .error
  else
    match host.realpath filename with
    | .absent => .missing
    | .refused => .error
    | .found filenameRealpath =>
      if !assetPathWithinRoot publicRealpath filenameRealpath then .error
      else
        match host.fopen filenameRealpath with
        | .absent => .missing
        | .refused => .error
        | .found none => .error
        | .found (some data) =>
          if CEASY_MAX_ASSET_BYTES < data.length then .error
          else if decide (0 < data.length) && !host.arenaAlloc data.length then .error
          else .found ⟨assetContentType path, data⟩

def assetLoadFilesystemNormalized (host : AssetHost) (path : Bytes) : AssetLoadResult :=
  if path.length < 2 then .error
  else
    match host.getcwd with
    | none => .error
    | some cwd =>
      let publicDirectory := cwd ++ sv "/public"
      if PATH_MAX ≤ publicDirectory.length then .error
      else
        match host.realpath publicDirectory with
        | .absent => .missing
        | .refused => .error
        | .found publicRealpath => assetLoadFile host publicRealpath path

def assetBundleFind (bundle : List EmbeddedAsset) (path : Bytes) : Option EmbeddedAsset :=
  bundle.find? fun asset => stringvEqual asset.path path

def assetServe (environment : Environment) (peer : Peer W) (host : AssetHost)
    (bundle : List EmbeddedAsset) (connection : Connection W) (requestPath : Bytes) :
    Bool × Connection W :=
  match assetNormalizePath (some host.arenaAlloc) requestPath with
  | none => (false, connection)
  | some normalized =>
    match assetLoadFilesystemNormalized host normalized with
    | .found filesystem =>
      contextSendBytes environment peer connection (some (sv "200 OK")) (some filesystem.contentType)
        (.of filesystem.data)
    | .error => (false, connection)
    | .missing =>
      match assetBundleFind bundle normalized with
      | none => (false, connection)
      | some embedded =>
        contextSendBytes environment peer connection (some (sv "200 OK")) embedded.contentType
          embedded.body

end Ceasy.Assets
