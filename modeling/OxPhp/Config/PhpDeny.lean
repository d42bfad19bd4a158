import OxPhp.Lib.UnixPath
import OxPhp.Lib.Percent
import OxPhp.Config.IgnoreRules

/-!
# The PHP execution deny-list

`config/php_deny.rs`: the routing mode a configuration selects, the answer to a
denied request, and the `PHP_DENY_PATHS` globs.  The environment variables and
the file system are parameters; a compiled glob is an arbitrary predicate.
-/

namespace OxPhp.Config

open ByteStr

inductive RoutingModeKind where
  | traditional
  | framework
  | spa
  | worker
  deriving DecidableEq

/-- Worker mode when enabled, else by the entry file's extension. A file name
that is not UTF-8 counts as none. -/
def RoutingModeKind.resolve (entryFile : Option Bytes) (workerModeEnabled : Bool) :
    RoutingModeKind :=
  if workerModeEnabled then .worker
  else
    let ext := entryFile.bind fun p =>
      match UnixPath.fileName p with
      | some name => if isUtf8 name then UnixPath.extension p else none
      | none => none
    match ext with
    | none => .traditional
    | some ext => if eqIgnoreAsciiCase ext (str "php") then .framework else .spa

inductive DenyFallback where
  | status (code : Nat)
  | script (path uri : Bytes)
  deriving DecidableEq

def DenyFallback.isScript : DenyFallback → Bool
  | .status _ => false
  | .script _ _ => true

inductive DenySource where
  | phpDenyPaths
  | denyFile
  deriving DecidableEq

structure DeniedMeta where
  path : Bytes
  pattern : Bytes
  fallbackScriptUri : Bytes
  source : DenySource
  deriving DecidableEq

inductive DenyConfigError where
  | empty
  | statusOutOfRange (code : Nat)
  | neitherStatusNorPath (raw : Bytes)
  | scriptUnreadable (path : Bytes)
  | rootUnreadable (root : Bytes)
  | escapesRoot (canonical : Bytes)
  | selfDenied (rel pattern : Bytes)
  | invalidGlob (message : Bytes)
  deriving DecidableEq

/-- The deny-list with its fallback. The globs stand in source order, each with
the pattern it was compiled from. -/
structure PhpDeny where
  patterns : List (Bytes × GlobSet)
  fallback : DenyFallback

def firstMatch (patterns : List (Bytes × GlobSet)) (path : Bytes) : Option Bytes :=
  (patterns.find? fun p => p.2 path).map Prod.fst

def PhpDeny.matchesPath (deny : PhpDeny) (sanitized : Bytes) : Option Bytes :=
  firstMatch deny.patterns sanitized

def rejectSelfDenied (fallback : DenyFallback) (patterns : List (Bytes × GlobSet)) :
    Except DenyConfigError Unit :=
  match fallback with
  | .status _ => .ok ()
  | .script _ uri =>
    let rel := uri.dropWhile (· == slash)
    match firstMatch patterns rel with
    | some pattern => .error (.selfDenied rel pattern)
    | none => .ok ()

/-- The deny settings as the environment gives them: the compiled globs of
`PHP_DENY_PATHS` (none when it is unset or blank) and `PHP_DENY_FALLBACK`,
parsed against the document root. -/
structure DenyEnv where
  phpDenyPaths : Except DenyConfigError (List (Bytes × GlobSet))
  denyFallback : Except DenyConfigError DenyFallback

/-- `PHP_DENY_PATHS` applies only in the modes that map a URI to a file. -/
def PhpDeny.fromEnv (env : DenyEnv) (mode : RoutingModeKind) :
    Except DenyConfigError (Option PhpDeny) :=
  match mode with
  | .framework => .ok none
  | .worker => .ok none
  | .traditional | .spa => do
    let patterns ← env.phpDenyPaths
    if patterns.isEmpty then return none
    let fallback ← env.denyFallback
    rejectSelfDenied fallback patterns
    return some { patterns, fallback }

theorem PhpDeny.fromEnv_some {env : DenyEnv} {mode : RoutingModeKind} {deny : PhpDeny}
    (h : PhpDeny.fromEnv env mode = .ok (some deny)) : mode = .traditional ∨ mode = .spa := by
  cases mode with
  | traditional => exact .inl rfl
  | spa => exact .inr rfl
  | framework => cases h
  | worker => cases h

end OxPhp.Config
