import OxPhp.Routing.Modes

/-!
# The routing configuration

`RouteConfig` of `server/routing/mod.rs` and how the server builds it.  What
construction guarantees stands in the structure.
-/

namespace OxPhp.Routing

open ByteStr UnixPath OxPhp.Config

/-! ## Modes as the server builds them -/

/-- The mode maps a URI to a file; the others send it to one script. -/
def Mode.isDirect : Mode → Bool
  | .traditional _ => true
  | .spa _ => true
  | .framework _ => false
  | .worker => false

structure EntryName (name ext : Bytes) : Prop where
  file : ∃ entryFile, fileName entryFile = some name ∧ extension entryFile = some ext

def Mode.BuiltFor (documentRoot : Bytes) : Mode → Prop
  | .traditional r => r = .new documentRoot
  | .framework r => ∃ name ext, EntryName name ext ∧ eqIgnoreAsciiCase ext (str "php") = true ∧
      r = .new documentRoot name
  | .spa r => ∃ name ext, EntryName name ext ∧ eqIgnoreAsciiCase ext (str "php") = false ∧
      r = .new documentRoot name
  | .worker => True

variable {name ext documentRoot : Bytes} {entryFile : Option Bytes} {workerModeEnabled : Bool}
  {mode : Mode} {file : DenyFile}

theorem EntryName.plain (h : EntryName name ext) : Plain [name] := by
  obtain ⟨path, hn, -⟩ := h.file
  obtain ⟨hseg, hna, -⟩ := fileName_eq_some hn
  exact .singleton hna (slash_not_mem_of_mem_segments hseg)

theorem EntryName.ext_php (h : EntryName name ext)
    (hphp : namesAScript name = true) : eqIgnoreAsciiCase ext (str "php") = true := by
  obtain ⟨path, hn, hext⟩ := h.file
  obtain ⟨name', stem, hn', hsplit⟩ := extension_eq_some hext
  cases hn.symm.trans hn'
  obtain ⟨before, ending, rfl, he⟩ := endsWithIgnoreAsciiCase_iff.mp hphp
  obtain ⟨x, y, z, rfl, hx, hy, hz⟩ := eqIgnoreAsciiCase_dotPhp_iff.mp he
  have hl : [x, y, z].map toAsciiLower = [112, 104, 112] := by simp [hx, hy, hz]
  have hdot : dot ∉ [x, y, z] := by
    intro hmem
    have hmem' : dot ∈ [x, y, z].map toAsciiLower :=
      List.mem_map.mpr ⟨dot, hmem, (toAsciiLower_eq_dot_iff dot).mpr rfl⟩
    rw [hl] at hmem'
    exact absurd hmem' (by decide)
  rw [rsplitOnce_append hdot] at hsplit
  cases hsplit
  rw [eqIgnoreAsciiCase, hl]
  decide

theorem EntryName.names_script (h : EntryName name ext)
    (hext : eqIgnoreAsciiCase ext (str "php") = true) : namesAScript name = true := by
  obtain ⟨path, hn, he⟩ := h.file
  obtain ⟨name', stem, hn', hsplit⟩ := extension_eq_some he
  cases hn.symm.trans hn'
  obtain ⟨rfl, -⟩ := rsplitOnce_eq_some hsplit
  refine endsWithIgnoreAsciiCase_iff.mpr ⟨stem, dot :: ext, rfl, ?_⟩
  have hl : ext.map toAsciiLower = (str "php").map toAsciiLower := beq_iff_eq.mp hext
  rw [eqIgnoreAsciiCase, List.map_cons, hl]
  decide

/-- Select the router. A front controller or a page always has a name. -/
def Mode.build (documentRoot : Bytes) (entryFile : Option Bytes) (workerModeEnabled : Bool) :
    Option Mode :=
  match RoutingModeKind.resolve entryFile workerModeEnabled with
  | .worker => some .worker
  | .traditional => some (.traditional (.new documentRoot))
  | .framework => (entryFile.bind fileName).map fun name => .framework (.new documentRoot name)
  | .spa => (entryFile.bind fileName).map fun name => .spa (.new documentRoot name)

theorem RoutingModeKind.resolve_ext
    {kind : RoutingModeKind} (h : RoutingModeKind.resolve entryFile workerModeEnabled = kind)
    (hkind : kind = .framework ∨ kind = .spa) :
    ∃ path name ext, entryFile = some path ∧ fileName path = some name ∧ extension path = some ext ∧
      (kind = .framework ↔ eqIgnoreAsciiCase ext (str "php") = true) := by
  unfold RoutingModeKind.resolve at h
  split at h
  · rcases hkind with rfl | rfl <;> cases h
  · simp only at h
    split at h
    · rcases hkind with rfl | rfl <;> cases h
    · next ext hext =>
      obtain ⟨path, rfl, hp⟩ := Option.bind_eq_some_iff.mp hext
      split at hp
      · next name hn =>
        rw [Option.ite_none_right_eq_some] at hp
        refine ⟨path, name, ext, rfl, hn, hp.2, ?_⟩
        rw [← h]
        split <;> simp [*]
      · cases hp

theorem Mode.build_builtFor (h : Mode.build documentRoot entryFile workerModeEnabled = some mode) :
    mode.BuiltFor documentRoot := by
  unfold Mode.build at h
  split at h
  · cases h
    trivial
  · cases h
    rfl
  · next hkind =>
    obtain ⟨path, name, ext, rfl, hn, hext, hphp⟩ := RoutingModeKind.resolve_ext hkind (.inl rfl)
    simp only [Option.bind_some, hn, Option.map_some, Option.some.injEq] at h
    subst h
    exact ⟨name, ext, ⟨path, hn, hext⟩, hphp.mp rfl, rfl⟩
  · next hkind =>
    obtain ⟨path, name, ext, rfl, hn, hext, hphp⟩ := RoutingModeKind.resolve_ext hkind (.inr rfl)
    simp only [Option.bind_some, hn, Option.map_some, Option.some.injEq] at h
    subst h
    exact ⟨name, ext, ⟨path, hn, hext⟩, by simpa using hphp, rfl⟩

theorem Mode.build_isDirect
    (h : Mode.build documentRoot entryFile workerModeEnabled = some mode) : mode.isDirect = true ↔
      RoutingModeKind.resolve entryFile workerModeEnabled = .traditional ∨
        RoutingModeKind.resolve entryFile workerModeEnabled = .spa := by
  unfold Mode.build at h
  split at h
  · next hkind =>
    cases h
    simp [hkind, isDirect]
  · next hkind =>
    cases h
    simp [hkind, isDirect]
  · next hkind =>
    obtain ⟨name, -, rfl⟩ := Option.map_eq_some_iff.mp h
    simp [hkind, isDirect]
  · next hkind =>
    obtain ⟨name, -, rfl⟩ := Option.map_eq_some_iff.mp h
    simp [hkind, isDirect]

/-! ## Configuration -/

/-- Where files may be served or executed from: the canonical document root and
the allowed symlink targets. -/
structure PathPolicy where
  canonicalRoot : Bytes
  symlinkAllow : List Bytes

def PathPolicy.allows (policy : PathPolicy) (canonicalPath : Bytes) : Bool :=
  startsWith canonicalPath policy.canonicalRoot ||
    policy.symlinkAllow.any fun e => samePath canonicalPath e || startsWith canonicalPath e

structure RouteConfig where
  documentRoot : Bytes
  policy : PathPolicy
  mode : Mode
  workerRoute : Option RouteResult
  phpDeny : Option PhpDeny
  denyFile : Option DenyFile
  denyFileFallback : Option DenyFallback
  entryRoute : Option RouteResult
  built : mode.BuiltFor documentRoot
  worker_execute : ∀ r, workerRoute = some r → ∃ path, r = .execute path none none
  php_deny_direct : phpDeny.isSome = true → mode.isDirect = true
  deny_rules_only : mode.isDirect = true → ∀ file, denyFile = some file →
    ∀ path isDir pathInfo rule, file.check path isDir pathInfo = some rule → rule.action = .deny
  has_fallback : ∀ file, denyFile = some file → file.hasDenyRules = true →
    denyFileFallback.isSome = true

/-- The parts of the configuration routing is built from. A `.oxphpdeny` is
loaded only from a document root, for the mode the rest selects. -/
structure ServerConfig where
  documentRoot : Bytes
  entryOnly : Bool
  entryFile : Option Bytes
  workerModeEnabled : Bool
  denyFile : Option DenyFile
  loaded : ∀ file, denyFile = some file →
    DenyFile.parse file.rules (RoutingModeKind.resolve entryFile workerModeEnabled) = .ok file
  loaded_from_root : denyFile.isSome = true → entryOnly = false

/-- What startup reads besides: the canonical root, the deny settings and the
allowed symlink targets. -/
structure StartupEnv where
  canonicalRoot : Option Bytes
  deny : DenyEnv
  symlinkAllow : Except Bytes (List Bytes)

inductive StartupError where
  | rootNotCanonical (root : Bytes)
  | entryNameMissing
  | entryFileMissing
  | invalidPhpDeny (e : DenyConfigError)
  | invalidDenyFallback (e : DenyConfigError)
  | scriptFallbackInWorkerMode
  | invalidSymlinkAllow (message : Bytes)

/-- A file that can exclude nothing routes as no file does. -/
def effectiveDenyFile (config : ServerConfig) : Option DenyFile :=
  config.denyFile.filter (·.excludesAnything)

/-- The answer to a `.oxphpdeny` denial, when there is a rule to give it for:
what `PHP_DENY_PATHS` already parsed, else `PHP_DENY_FALLBACK`. -/
def denyFileFallbackFor (env : DenyEnv) (phpDeny : Option PhpDeny) (denyFile : Option DenyFile) :
    Except StartupError (Option DenyFallback) :=
  match denyFile with
  | none => .ok none
  | some file =>
    if file.hasDenyRules then
      match phpDeny with
      | some deny => .ok (some deny.fallback)
      | none =>
        match env.denyFallback with
        | .ok fallback => .ok (some fallback)
        | .error e => .error (.invalidDenyFallback e)
    else .ok none

theorem denyFileFallbackFor_isSome {env : DenyEnv} {phpDeny : Option PhpDeny}
    {fallback : Option DenyFallback}
    (h : denyFileFallbackFor env phpDeny (some file) = .ok fallback)
    (hd : file.hasDenyRules = true) : fallback.isSome = true := by
  simp only [denyFileFallbackFor, hd, if_true] at h
  split at h
  · cases h
    rfl
  · split at h
    · cases h
      rfl
    · cases h

theorem effectiveDenyFile_action {config : ServerConfig}
    (hkind : RoutingModeKind.resolve config.entryFile config.workerModeEnabled = .traditional ∨
      RoutingModeKind.resolve config.entryFile config.workerModeEnabled = .spa)
    (hfile : effectiveDenyFile config = some file) {path : Bytes} {isDir pathInfo : Bool}
    {rule : Rule DenyAction}
    (hc : file.check path isDir pathInfo = some rule) : rule.action = .deny :=
  DenyFile.check_action_of_parse (config.loaded file (Option.filter_eq_some_iff.mp hfile).1) hkind
    hc

namespace RouteConfig

/-- `DOCUMENT_ROOT` switched off: every request takes the entry's route, and
the deny and symlink settings are dropped. -/
def entryOnly (documentRoot canonicalRoot : Bytes) (mode : Mode)
    (built : mode.BuiltFor documentRoot) (entry : Bytes) : RouteConfig where
  documentRoot := documentRoot
  policy := { canonicalRoot, symlinkAllow := [] }
  mode := mode
  workerRoute := none
  phpDeny := none
  denyFile := none
  denyFileFallback := none
  entryRoute := some <|
    if (extension entry).any (eqIgnoreAsciiCase · (str "php")) then .execute entry none none
    else .serve entry
  built := built
  worker_execute := by simp
  php_deny_direct := by simp
  deny_rules_only := by simp
  has_fallback := by simp

/-- Build the routing configuration, or say why the server must not start. -/
def new (config : ServerConfig) (env : StartupEnv) : Except StartupError RouteConfig :=
  let kind := RoutingModeKind.resolve config.entryFile config.workerModeEnabled
  match env.canonicalRoot with
  | none => .error (.rootNotCanonical config.documentRoot)
  | some canonicalRoot =>
    match hmode : Mode.build config.documentRoot config.entryFile config.workerModeEnabled with
    | none => .error .entryNameMissing
    | some mode =>
      if config.entryOnly then
        match config.entryFile with
        | none => .error .entryFileMissing
        | some entry =>
          .ok (entryOnly config.documentRoot canonicalRoot mode (Mode.build_builtFor hmode) entry)
      else
        match hdeny : PhpDeny.fromEnv env.deny kind with
        | .error e => .error (.invalidPhpDeny e)
        | .ok phpDeny =>
          match hfallback : denyFileFallbackFor env.deny phpDeny (effectiveDenyFile config) with
          | .error e => .error e
          | .ok fallback =>
            -- a worker thread runs nothing but the worker entry
            if kind = .worker && fallback.any DenyFallback.isScript then
              .error .scriptFallbackInWorkerMode
            else
              match env.symlinkAllow with
              | .error message => .error (.invalidSymlinkAllow message)
              | .ok symlinkAllow => .ok {
                  documentRoot := config.documentRoot
                  policy := { canonicalRoot, symlinkAllow }
                  mode := mode
                  workerRoute := none
                  phpDeny := phpDeny
                  denyFile := effectiveDenyFile config
                  denyFileFallback := fallback
                  entryRoute := none
                  built := Mode.build_builtFor hmode
                  worker_execute := by simp
                  php_deny_direct := by
                    intro hsome
                    obtain ⟨deny, rfl⟩ := Option.isSome_iff_exists.mp hsome
                    exact (Mode.build_isDirect hmode).mpr (PhpDeny.fromEnv_some hdeny)
                  deny_rules_only := by
                    intro hdirect file hfile path isDir pathInfo rule hcheck
                    exact effectiveDenyFile_action ((Mode.build_isDirect hmode).mp hdirect) hfile
                      hcheck
                  has_fallback := by
                    intro file hfile hrules
                    rw [hfile] at hfallback
                    exact denyFileFallbackFor_isSome hfallback hrules }

def plainTraditional (documentRoot : Bytes) : RouteConfig where
  documentRoot := documentRoot
  policy := { canonicalRoot := documentRoot, symlinkAllow := [] }
  mode := .traditional (.new documentRoot)
  workerRoute := none
  phpDeny := none
  denyFile := none
  denyFileFallback := none
  entryRoute := none
  built := rfl
  worker_execute := by simp
  php_deny_direct := by simp
  deny_rules_only := by simp
  has_fallback := by simp

def setWorkerRoute (config : RouteConfig) (path : Bytes) : RouteConfig :=
  { config with
    workerRoute := some (.execute path none none)
    worker_execute := by
      rintro r ⟨⟩
      exact ⟨path, rfl⟩ }

/-- The configuration a server routes with: in worker mode the entry file is
the worker's script. -/
def forServer (config : ServerConfig) (env : StartupEnv) : Except StartupError RouteConfig :=
  match new config env with
  | .error e => .error e
  | .ok routes =>
    match config.workerModeEnabled, config.entryFile with
    | true, some entry => .ok (routes.setWorkerRoute entry)
    | _, _ => .ok routes

variable {server : ServerConfig} {env : StartupEnv} {config : RouteConfig}

theorem new_denyFile (h : new server env = .ok config) (hr : server.entryOnly = false) :
    config.entryRoute = none ∧ config.denyFile = effectiveDenyFile server := by
  unfold new at h
  simp only [hr, Bool.false_eq_true, if_false] at h
  split at h
  · cases h
  · split at h
    · cases h
    · split at h
      · cases h
      · split at h
        · cases h
        · split at h
          · cases h
          · split at h
            · cases h
            · cases h
              exact ⟨rfl, rfl⟩

theorem forServer_denyFile (h : forServer server env = .ok config) (hr : server.entryOnly = false) :
    config.entryRoute = none ∧ config.denyFile = effectiveDenyFile server := by
  unfold forServer at h
  split at h
  · cases h
  · next routes hnew =>
    have hro := new_denyFile hnew hr
    split at h <;> cases h <;> exact hro

end RouteConfig

end OxPhp.Routing
