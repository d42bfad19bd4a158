import OxPhp.Routing.History

/-!
# What a denial promises

A file that `.oxphpdeny` denies is neither served nor run under another
spelling of its path, and the answer to a denied request depends on the
configuration and the path alone: not on what the disk holds, and not on what
earlier requests left in the route cache.
-/

namespace OxPhp.Routing

open ByteStr UnixPath OxPhp.Config

/-! ## Denied files stay closed -/

namespace RouteConfig

section Closed

variable {config : RouteConfig} {fs : FileSystem} {decoded s : Bytes}

/-- The files a request path names: itself, and in Traditional mode the script
that the PATH_INFO split may take it for. -/
def Names (config : RouteConfig) (sanitized s : Bytes) : Prop :=
  s = sanitized ∨ ∃ r fs rest, config.mode = .traditional r ∧
    PathInfoSplit fs config.documentRoot sanitized s rest

theorem Names.check_le {sanitized : Bytes} (h : config.Names sanitized s) (file : DenyFile)
    (isDir : Bool) : Strictness.ofVerdict (file.check s false config.mode.splitsPathInfo) ≤
      .ofVerdict (file.check sanitized isDir config.mode.splitsPathInfo) := by
  have hs : file.readings sanitized false config.mode.splitsPathInfo ⊆
      file.readings sanitized isDir config.mode.splitsPathInfo := by
    cases isDir with
    | false => exact List.Subset.refl _
    | true => exact DenyFile.readings_file_subset_dir
  rcases h with rfl | ⟨r, fs, rest, hmode, hsplit⟩
  · exact DenyFile.check_mono hs
  · rcases hsplit.boundary with hr | hr
    · -- nothing is left for PATH_INFO: the script is the whole path
      obtain rfl : s = sanitized := by rw [hsplit.append, hr, List.append_nil]
      exact DenyFile.check_mono hs
    · obtain ⟨tail, rfl⟩ := List.head?_eq_some_iff.mp hr
      have hmem : s ∈ ancestors sanitized := mem_ancestors_iff.mpr ⟨tail, hsplit.append⟩
      rw [hmode, Mode.splitsPathInfo]
      exact DenyFile.check_mono (DenyFile.readings_script_subset hmem hsplit.names_script)

theorem Reached.check_ne_deny {toEntry : Bool} (h : Reached config decoded toEntry)
    {file : DenyFile} (hfile : config.denyFile = some file) :
    Strictness.ofVerdict (file.check (sanitizePath decoded) (endsWithByte slash decoded)
      config.mode.splitsPathInfo) ≠ .deny := by
  rcases denyFileScreen_ok hfile h.not_denied with ⟨hc, -⟩ | ⟨rule, hc, ha, -⟩
  · simp [hc, Strictness.ofVerdict]
  · simp [hc, ha, Strictness.ofVerdict, Strictness.ofAction]

theorem resolveDecoded_not_denied {file : DenyFile} (hfile : config.denyFile = some file)
    (hn : config.Names (sanitizePath decoded) s) {route : RouteResult}
    (hr : (config.resolveDecoded fs decoded).1 = route) (hm : route ≠ .notFound)
    (hc : shouldCache route = true) :
    Strictness.ofVerdict (file.check s false config.mode.splitsPathInfo) ≠ .deny := by
  obtain ⟨toEntry, hre, -⟩ := dispatched_of_resolveDecoded hr hm hc
  intro hd
  have hle := hn.check_le file (endsWithByte slash decoded)
  rw [hd, Strictness.deny_le_iff] at hle
  exact hre.check_ne_deny hfile hle

end Closed

end RouteConfig

theorem decodeUtf8_of_admitted {uri decoded : Bytes} (h : admitted uri = some decoded) :
    decodeUtf8 uri = some decoded := by
  unfold admitted dotScreen at h
  split at h
  · cases h
  · next preDecoded hs =>
    split at hs
    · split at hs
      · cases hs
      · next decoded' hd =>
        split at hs
        · cases hs
        · cases hs
          rw [hd]
          exact h
    · cases hs
      exact h

/-- **A denied file stays closed.** Whatever rules the server loaded and
whatever the history, a file that a request is answered with, under the
request's own path or as the script split off it, is not denied as a file. -/
theorem routed_file_not_denied (server : ServerConfig) (env : StartupEnv) (config : RouteConfig)
    (hserver : RouteConfig.forServer server env = .ok config) (file : DenyFile)
    (hfile : server.denyFile = some file) (history : List Request) (fs : FileSystem)
    (uri decoded s : Bytes) (hdecode : decodeUtf8 uri = some decoded)
    (hnames : config.Names (sanitizePath decoded) s)
    (hroute : (config.resolveRequest fs (config.cacheAfter history) uri).1 =
        .serve (join config.documentRoot s) ∨
      ∃ pathInfo, (config.resolveRequest fs (config.cacheAfter history) uri).1 =
        .execute (join config.documentRoot s) pathInfo none) :
    Strictness.ofVerdict (file.check s false config.mode.splitsPathInfo) ≠ .deny := by
  obtain ⟨hr, he⟩ :=
    RouteConfig.forServer_denyFile hserver (server.loaded_from_root (by rw [hfile]; rfl))
  by_cases hex : file.excludesAnything = true
  · have hl : config.denyFile = some file := by
      rw [he, effectiveDenyFile, hfile, Option.filter_some, if_pos hex]
    generalize ha : (config.resolveRequest fs (config.cacheAfter history) uri).1 = route
      at hroute
    have hm : route ≠ .notFound := by
      rintro rfl
      rcases hroute with h | ⟨pathInfo, h⟩ <;> cases h
    have hc : shouldCache route = true := by
      rcases hroute with rfl | ⟨pathInfo, rfl⟩ <;> rfl
    rcases RouteConfig.answer_computed hr history fs uri with hnot | ⟨fs', decoded', hadm, heq⟩
    · exact absurd (ha.symm.trans hnot) hm
    · cases hdecode.symm.trans (decodeUtf8_of_admitted hadm)
      exact RouteConfig.resolveDecoded_not_denied hl hnames (heq.trans ha) hm hc
  · rw [DenyFile.check_of_not_excludesAnything (by simpa using hex)]
    decide

def nameRule (original : Bytes) (negated dirOnly : Bool) (name : GlobSet) : Rule DenyAction where
  line := 1
  original := original
  glob := original
  action := .deny
  negated := negated
  dirOnly := dirOnly
  matcher := name
  folded := none
  nameOnly := true

def denyServer (entryFile : Option Bytes) (rules : List (Rule DenyAction))
    (hrules : DenyFile.parse ⟨rules⟩ (RoutingModeKind.resolve entryFile false) = .ok ⟨⟨rules⟩⟩) :
    ServerConfig where
  documentRoot := str "/srv"
  entryOnly := false
  entryFile := entryFile
  workerModeEnabled := false
  denyFile := some ⟨⟨rules⟩⟩
  loaded := by
    rintro file ⟨⟩
    exact hrules
  loaded_from_root := fun _ => rfl

def denyEnv : StartupEnv where
  canonicalRoot := some (str "/srv")
  deny := { phpDenyPaths := .ok [], denyFallback := .ok (.status 404) }
  symlinkAllow := .ok []

def secretRules : List (Rule DenyAction) :=
  [nameRule (str "secret.php") false false (· == str "secret.php")]

/-- Deny `*.php`, and take it back for directories. -/
def scriptRules : List (Rule DenyAction) :=
  [nameRule (str "*.php") false false (endsWithIgnoreAsciiCase (str ".php")),
    nameRule (str "!*.php/") true true (endsWithIgnoreAsciiCase (str ".php"))]

theorem routed_file_not_denied_app_php :
    Strictness.ofVerdict ((⟨⟨secretRules⟩⟩ : DenyFile).check (str "app.php") false true) ≠ .deny :=
  routed_file_not_denied (denyServer none secretRules rfl) denyEnv _ rfl _ rfl []
    (.ofLists [str "/srv/app.php"] []) (str "/app.php/x") (str "/app.php/x") (str "app.php")
    (by decide)
    (.inr ⟨.new (str "/srv"), .ofLists [str "/srv/app.php"] [], str "/x", rfl,
      ⟨by decide, by decide, by decide, by decide⟩⟩)
    (.inr ⟨some (str "/x"), by decide⟩)

/-- The front controller runs with PATH_INFO where the request for it alone is
denied: Framework mode judges `index.php` only as a directory there. -/
theorem runs_denied_entry :
    ∃ config, RouteConfig.forServer (denyServer (some (str "/srv/index.php")) scriptRules rfl)
        denyEnv = .ok config ∧ sanitizePath (str "/index.php/x") = str "index.php" ++ str "/x" ∧
      (config.resolveRequest (.ofLists [str "/srv/index.php"] []) (Lru.empty routeCacheCapacity)
          (str "/index.php/x")).1 =
        .execute (join config.documentRoot (str "index.php")) (some (str "/x")) none ∧
      Strictness.ofVerdict ((⟨⟨scriptRules⟩⟩ : DenyFile).check (str "index.php") false
        config.mode.splitsPathInfo) = .deny :=
  ⟨_, rfl, by decide, by decide, by decide⟩

/-! ## Denials reveal nothing -/

def RouteResult.IsDenial : RouteResult → Prop
  | .denied _ _ => True
  | .execute _ _ (some _) => True
  | _ => False

theorem shouldCache_iff {route : RouteResult} : shouldCache route = true ↔ ¬route.IsDenial := by
  unfold shouldCache RouteResult.IsDenial
  split <;> simp

namespace RouteConfig

section Blind

variable {config : RouteConfig} {uri decoded : Bytes} {answer : RouteResult}

def DeniedByFile (config : RouteConfig) (decoded : Bytes) : Prop :=
  ∃ file, config.denyFile = some file ∧
    Strictness.ofVerdict (file.check (sanitizePath decoded) (endsWithByte slash decoded)
      config.mode.splitsPathInfo) = .deny

/-- `PHP_DENY_PATHS` denies the path with a status: a `.php` path outside
`.well-known/`. -/
def DeniedByPaths (config : RouteConfig) (decoded : Bytes) : Prop :=
  hasPhpComponent (sanitizePath decoded) = true ∧
    startsWithWellKnown (sanitizePath decoded) = false ∧
    ∃ deny code, config.phpDeny = some deny ∧ deny.fallback = .status code ∧
      (deny.matchesPath (sanitizePath decoded)).isSome = true

/-- Resolving the path gives the same answer under every file system, and the
answer stays out of the cache. -/
def Settled (config : RouteConfig) (decoded : Bytes) (answer : RouteResult) : Prop :=
  ∀ fs, config.resolveDecoded fs decoded = (answer, false)

theorem settled_of_screen
    (h : config.denyFileScreen (sanitizePath decoded) (endsWithByte slash decoded) =
      .error answer) : config.Settled decoded answer := by
  intro fs
  simp only [resolveDecoded, h]

theorem DeniedByFile.settled (h : config.DeniedByFile decoded) :
    ∃ answer, config.Settled decoded answer := by
  obtain ⟨file, hfile, hd⟩ := h
  cases hs : config.denyFileScreen (sanitizePath decoded) (endsWithByte slash decoded) with
  | error answer => exact ⟨answer, settled_of_screen hs⟩
  | ok toEntry =>
    rcases denyFileScreen_ok hfile hs with ⟨hc, -⟩ | ⟨rule, hc, ha, -⟩
    · simp [hc, Strictness.ofVerdict] at hd
    · simp [hc, ha, Strictness.ofVerdict, Strictness.ofAction] at hd

theorem DeniedByPaths.settled (h : config.DeniedByPaths decoded) :
    ∃ answer, config.Settled decoded answer := by
  obtain ⟨hphp, hw, deny, code, hd, hs, hm⟩ := h
  obtain ⟨pattern, hp⟩ := Option.isSome_iff_exists.mp hm
  cases hsc : config.denyFileScreen (sanitizePath decoded) (endsWithByte slash decoded) with
  | error answer => exact ⟨answer, settled_of_screen hsc⟩
  | ok toEntry =>
    have hr : Reached config decoded toEntry := ⟨hsc, by rw [hw, Bool.and_false]⟩
    have hdirect := config.php_deny_direct (by rw [hd]; rfl)
    obtain rfl := hr.toEntry_eq_false hdirect
    refine ⟨.denied code .phpDenyPaths, fun fs => ?_⟩
    -- dispatch denies before it probes the disk, and no later screen looks at a status
    have hdi : config.dispatch fs (sanitizePath decoded) true false =
        .denied code .phpDenyPaths := by
      simp [dispatch, classifyUriWithPhp, denyCheck, hd, hp, hs, deniedRoute]
    rw [resolveDecoded_of_reached hr, hphp, hdi]
    rfl

theorem resolveDecoded_cached {fs : FileSystem} {route : RouteResult}
    (h : config.resolveDecoded fs decoded = (route, true)) : shouldCache route = true := by
  unfold resolveDecoded at h
  simp only at h
  split at h
  · cases h
  · split at h
    · cases h
      rfl
    · obtain ⟨rfl, hc⟩ := Prod.mk.inj h
      exact hc

theorem answer_of_not_admitted (hr : config.entryRoute = none) (history : List Request)
    (fs : FileSystem) (hadm : admitted uri = none) :
    (config.resolveRequest fs (config.cacheAfter history) uri).1 = .notFound := by
  rcases answer_computed hr history fs uri with hm | ⟨fs', decoded, hs, -⟩
  · exact hm
  · rw [hadm] at hs
    cases hs

/-- **A settled answer** is the answer after every history: it never entered the
cache, so the request is resolved anew. -/
theorem answer_of_settled (hr : config.entryRoute = none) (history : List Request)
    (fs : FileSystem) (hadm : admitted uri = some decoded) (hs : config.Settled decoded answer) :
    (config.resolveRequest fs (config.cacheAfter history) uri).1 = answer := by
  have hp : (config.cacheAfter history).peek uri = none := by
    refine Option.eq_none_iff_forall_not_mem.mpr fun route hp => ?_
    obtain ⟨fs', decoded', hadm', hro⟩ := (computed_cacheAfter hr history).peek hp
    cases hadm.symm.trans hadm'
    rw [hs fs'] at hro
    cases hro
  rcases resolveRequest_cases hr fs (config.cacheAfter history) uri with
    ⟨hn, -⟩ | ⟨route, hso, -⟩ | ⟨decoded', hadm', -, heq⟩
  · rw [hn hp] at hadm
    cases hadm
  · rw [hp] at hso
    cases hso
  · cases hadm.symm.trans hadm'
    rw [heq, hs fs]

theorem cacheAfter_of_entryRoute {route : RouteResult} (he : config.entryRoute = some route)
    (history : List Request) : config.cacheAfter history = Lru.empty routeCacheCapacity := by
  unfold cacheAfter
  induction history with
  | nil => rfl
  | cons req history ih =>
    rw [List.foldl_cons, resolveRequest, he]
    exact ih

theorem cacheAfter_no_denial (config : RouteConfig) (history : List Request) :
    (config.cacheAfter history).All fun _ route => ¬route.IsDenial := by
  cases hr : config.entryRoute with
  | some route =>
    rw [cacheAfter_of_entryRoute hr]
    exact Lru.all_empty _ _
  | none =>
    intro uri route hmem
    obtain ⟨fs, decoded, -, hro⟩ := computed_cacheAfter hr history uri route hmem
    exact shouldCache_iff.mp (resolveDecoded_cached hro)

end Blind

end RouteConfig

/-- **Denials are blind.** No denial enters the route cache, and the answer to a
denied path is the same after any two histories and under any two file
systems. -/
theorem denied_answer_blind (config : RouteConfig) :
    (∀ history, (config.cacheAfter history).All fun _ route => ¬route.IsDenial) ∧
      ∀ (history₁ history₂ : List Request) (fs₁ fs₂ : FileSystem) (uri decoded : Bytes),
        decodeUtf8 uri = some decoded → config.DeniedByFile decoded ∨ config.DeniedByPaths decoded →
        (config.resolveRequest fs₁ (config.cacheAfter history₁) uri).1 =
          (config.resolveRequest fs₂ (config.cacheAfter history₂) uri).1 := by
  refine ⟨config.cacheAfter_no_denial, ?_⟩
  intro history₁ history₂ fs₁ fs₂ uri decoded hd hdenied
  cases hr : config.entryRoute with
  | some route => simp only [RouteConfig.resolveRequest, hr]
  | none =>
    cases hadm : admitted uri with
    | none =>
      rw [RouteConfig.answer_of_not_admitted hr history₁ fs₁ hadm,
        RouteConfig.answer_of_not_admitted hr history₂ fs₂ hadm]
    | some decoded' =>
      cases hd.symm.trans (decodeUtf8_of_admitted hadm)
      obtain ⟨answer, hs⟩ : ∃ answer, config.Settled decoded answer :=
        hdenied.elim RouteConfig.DeniedByFile.settled RouteConfig.DeniedByPaths.settled
      rw [RouteConfig.answer_of_settled hr history₁ fs₁ hadm hs,
        RouteConfig.answer_of_settled hr history₂ fs₂ hadm hs]

/-- Scripts under `admin/` are denied with 403. -/
def adminDenied : RouteConfig :=
  { RouteConfig.plainTraditional (str "/srv") with
    phpDeny := some { patterns := [(str "admin/**", fun path => (str "admin/").isPrefixOf path)],
                      fallback := .status 403 }
    php_deny_direct := fun _ => rfl }

theorem denied_answer_blind_admin :
    (adminDenied.resolveRequest (.ofLists [] []) (adminDenied.cacheAfter [])
        (str "/admin/login.php")).1 =
      (adminDenied.resolveRequest (.ofLists [str "/srv/admin/login.php"] [])
        (adminDenied.cacheAfter [⟨.ofLists [str "/srv/admin/login.php"] [],
          str "/admin/login.php"⟩]) (str "/admin/login.php")).1 :=
  (denied_answer_blind adminDenied).2 _ _ _ _ _ (str "/admin/login.php") (by decide)
    (.inr ⟨by decide, by decide, _, 403, rfl, rfl, by decide⟩)

end OxPhp.Routing
