import OxPhp.Lib.Lru
import OxPhp.Routing.RouteConfig

/-!
# Resolving a request

`RouteConfig::resolve_request` of `server/routing/mod.rs`, step by step:
dot-path screen, route cache, decode, sanitize, `.oxphpdeny`, `.well-known`
block, classification, mode dispatch, `PHP_DENY_PATHS` on the resolved script,
symlink validation, cache.
-/

namespace OxPhp.Routing

open ByteStr UnixPath OxPhp.Config

abbrev RouteCache := Lru Bytes RouteResult

def routeCacheCapacity : Nat := 10000

/-- The route for a denied request: the fallback's status, or its script run in
place of the one requested. -/
def deniedRoute (fallback : DenyFallback) (source : DenySource) (uri pattern : Bytes) :
    RouteResult :=
  match fallback with
  | .status code => .denied code source
  | .script path scriptUri =>
    .execute path none (some { path := uri, pattern, fallbackScriptUri := scriptUri, source })

def shouldCache : RouteResult → Bool
  | .denied _ _ => false
  | .execute _ _ (some _) => false
  | _ => true

/-- The dot-path screen: `none` refuses the request, otherwise the decoded path
when the screen had to decode it. -/
def dotScreen (uriPath : Bytes) : Option (Option Bytes) :=
  if hasDotSegmentMarkers uriPath then
    match decodeUtf8 uriPath with
    | none => none
    | some decoded => if containsBlockedDotSegment decoded then none else some (some decoded)
  else some none

namespace RouteConfig

/-- `PHP_DENY_PATHS` on a candidate path. `originalUri` is the sanitized request
path. -/
def denyCheck (config : RouteConfig) (candidate originalUri : Bytes) : Option RouteResult :=
  match config.phpDeny with
  | none => none
  | some deny =>
    match deny.matchesPath candidate with
    | none => none
    | some pattern => some (deniedRoute deny.fallback .phpDenyPaths originalUri pattern)

/-- `.oxphpdeny` on a sanitized path: the answer, or whether the request goes to
the entry script. -/
def denyFileScreen (config : RouteConfig) (sanitized : Bytes) (isDir : Bool) :
    Except RouteResult Bool :=
  match config.denyFile with
  | none => .ok false
  | some file =>
    if file.tooCostly sanitized then .error .notFound
    else
      match file.check sanitized isDir config.mode.splitsPathInfo with
      | none => .ok false
      | some rule =>
        if rule.action = .entry then .ok true
        else
          match config.denyFileFallback with
          | some fallback => .error (deniedRoute fallback .denyFile sanitized rule.original)
          -- a file with deny rules is loaded with a fallback
          | none => .error .notFound

def dispatch (config : RouteConfig) (fs : FileSystem) (sanitized : Bytes) (hasPhp toEntry : Bool) :
    RouteResult :=
  let ctx : ResolveCtx :=
    { documentRoot := config.documentRoot, fs, workerRoute := config.workerRoute }
  if toEntry then config.mode.resolveStaticMiss sanitized ctx
  else
    match classifyUriWithPhp sanitized hasPhp with
    | .noExtension => config.mode.resolveNoExtension sanitized ctx
    | .php =>
      match config.denyCheck sanitized sanitized with
      | some denied => denied
      | none => config.mode.resolvePhp sanitized ctx
    | .otherExtension =>
      let candidate := join config.documentRoot sanitized
      if fs.isFile candidate then .serve candidate
      else config.mode.resolveStaticMiss sanitized ctx

/-- `PHP_DENY_PATHS` on the script a router resolved to, relative to the root. -/
def denyScreen (config : RouteConfig) (sanitized : Bytes) (result : RouteResult) : RouteResult :=
  match result with
  | .execute path _ none =>
    match stripPrefix path config.documentRoot with
    | some rel => (config.denyCheck rel sanitized).getD result
    | none => result
  | _ => result

/-- A resolved path stays within the canonical root or an allowed target; one
that does not resolve is left to the server to miss. -/
def validatePath (config : RouteConfig) (fs : FileSystem) (path : Bytes) : Bool :=
  match fs.canonicalize path with
  | some canonical => config.policy.allows canonical
  | none => true

def isWorkerPath (config : RouteConfig) (path : Bytes) : Bool :=
  match config.workerRoute with
  | some (.execute worker _ _) => samePath worker path
  | _ => false

def symlinkScreen (config : RouteConfig) (fs : FileSystem) (result : RouteResult) : RouteResult :=
  match result.resolved with
  | some path =>
    if !config.isWorkerPath path && !config.validatePath fs path then .notFound else result
  | none => result

/-- The steps after decoding: the route, and whether it enters the cache. -/
def resolveDecoded (config : RouteConfig) (fs : FileSystem) (decoded : Bytes) :
    RouteResult × Bool :=
  let sanitized := sanitizePath decoded
  match config.denyFileScreen sanitized (endsWithByte slash decoded) with
  | .error route => (route, false)
  | .ok toEntry =>
    let hasPhp := hasPhpComponent sanitized
    if hasPhp && startsWithWellKnown sanitized then (.notFound, true)
    else
      let result := config.symlinkScreen fs
        (config.denyScreen sanitized (config.dispatch fs sanitized hasPhp toEntry))
      (result, shouldCache result)

def resolveRequest (config : RouteConfig) (fs : FileSystem) (cache : RouteCache)
    (uriPath : Bytes) : RouteResult × RouteCache :=
  match config.entryRoute with
  | some route => (route, cache)
  | none =>
    match dotScreen uriPath with
    | none => (.notFound, cache)
    | some preDecoded =>
      match cache.peek uriPath with
      | some result => (result, cache)
      | none =>
        match preDecoded.or (decodeUtf8 uriPath) with
        | none => (.notFound, cache)
        | some decoded =>
          let (result, toCache) := config.resolveDecoded fs decoded
          (result, if toCache then cache.put uriPath result else cache)

end RouteConfig

/-- A route that answers a denied request with one of the configured
fallbacks. -/
def Denial (config : RouteConfig) (route : RouteResult) : Prop :=
  ∃ fallback source uri pattern,
    (config.phpDeny.map PhpDeny.fallback = some fallback ∨
      config.denyFileFallback = some fallback) ∧
    route = deniedRoute fallback source uri pattern

theorem Denial.shouldCache {config : RouteConfig} {route : RouteResult} (h : Denial config route) :
    shouldCache route = false := by
  obtain ⟨fallback, source, uri, pattern, -, rfl⟩ := h
  cases fallback <;> rfl

/-! ## What dispatch can answer -/

section Dispatch

variable (config : RouteConfig) (fs : FileSystem) (sanitized : Bytes)

/-- Every way a router answers a sanitized path, with what it found. -/
inductive Dispatched : RouteResult → Prop
  | notFound : Dispatched .notFound
  | denied {route : RouteResult} (hdenied : Denial config route) : Dispatched route
  | worker {path : Bytes} (hmode : config.mode = .worker)
      (hworker : config.workerRoute = some (.execute path none none)) :
      Dispatched (.execute path none none)
  | namedScript (hdirect : config.mode.isDirect = true) (hphp : hasPhpComponent sanitized = true)
      (hfile : fs.isFile (join config.documentRoot sanitized) = true) :
      Dispatched (.execute (join config.documentRoot sanitized) none none)
  | split {r : TraditionalRouter} {script rest : Bytes} (hmode : config.mode = .traditional r)
      (hphp : hasPhpComponent sanitized = true)
      (hsplit : PathInfoSplit fs config.documentRoot sanitized script rest) :
      Dispatched (.execute (join config.documentRoot script)
        (if rest.isEmpty then none else some rest) none)
  | indexPhp {r : TraditionalRouter} (hmode : config.mode = .traditional r)
      (hkind : classifyUriWithPhp sanitized (hasPhpComponent sanitized) = .noExtension)
      (hne : sanitized ≠ [])
      (hfile : fs.isFile (join config.documentRoot sanitized) = false)
      (hdir : fs.isDir (join config.documentRoot sanitized) = true)
      (hindex : fs.isFile (join (join config.documentRoot sanitized) (str "index.php")) = true) :
      Dispatched (.execute (join (join config.documentRoot sanitized) (str "index.php")) none none)
  | indexHtml {r : TraditionalRouter} (hmode : config.mode = .traditional r)
      (hphp : hasPhpComponent sanitized = false) (hne : sanitized ≠ []) :
      Dispatched (.serve (join (join config.documentRoot sanitized) (str "index.html")))
  | rootPhp {r : TraditionalRouter} (hmode : config.mode = .traditional r) :
      Dispatched (.execute (join config.documentRoot (str "index.php")) none none)
  | rootHtml {r : TraditionalRouter} (hmode : config.mode = .traditional r) :
      Dispatched (.serve (join config.documentRoot (str "index.html")))
  | static (hphp : hasPhpComponent sanitized = false) (hne : sanitized ≠ []) :
      Dispatched (.serve (join config.documentRoot sanitized))
  | frontController {r : FrameworkRouter} {pathInfo : Option Bytes}
      (hmode : config.mode = .framework r) : Dispatched (.execute r.indexFilePath pathInfo none)
  | page {r : SpaRouter} (hmode : config.mode = .spa r) : Dispatched (.serve r.indexFilePath)

end Dispatch

namespace RouteConfig

variable {config : RouteConfig} {fs : FileSystem} {sanitized decoded : Bytes} {route : RouteResult}
  {toEntry isDir : Bool}

theorem denyCheck_eq_some {candidate originalUri : Bytes}
    (h : config.denyCheck candidate originalUri = some route) : Denial config route := by
  unfold denyCheck at h
  split at h
  · cases h
  · next deny hd =>
    split at h
    · cases h
    · next pattern _ =>
      cases h
      exact ⟨deny.fallback, _, _, pattern, .inl (by rw [hd]; rfl), rfl⟩

theorem dispatched_rootFallback {r : TraditionalRouter} (hmode : config.mode = .traditional r) :
    Dispatched config fs sanitized (r.rootFallback fs) := by
  have hb := config.built
  rw [hmode, Mode.BuiltFor] at hb
  subst hb
  unfold TraditionalRouter.rootFallback
  split
  · exact .rootPhp hmode
  · split
    · exact .rootHtml hmode
    · exact .notFound

theorem dispatched_rewrite {r : FrameworkRouter} (hmode : config.mode = .framework r) :
    Dispatched config fs sanitized (r.rewrite fs sanitized) := by
  unfold FrameworkRouter.rewrite
  split
  · exact .notFound
  · exact .frontController hmode

theorem dispatched_worker (hmode : config.mode = .worker) :
    Dispatched config fs sanitized (config.workerRoute.getD .notFound) := by
  cases hworker : config.workerRoute with
  | none => exact .notFound
  | some route =>
    obtain ⟨path, rfl⟩ := config.worker_execute route hworker
    exact .worker hmode hworker

theorem dispatched_staticMiss :
    Dispatched config fs sanitized (config.mode.resolveStaticMiss sanitized
      { documentRoot := config.documentRoot, fs, workerRoute := config.workerRoute }) := by
  unfold Mode.resolveStaticMiss
  split
  · next r hmode => exact dispatched_rootFallback hmode
  · next r hmode => exact dispatched_rewrite hmode
  · exact .notFound
  · next hmode => exact dispatched_worker hmode

theorem dispatched_noExtension
    (hkind : classifyUriWithPhp sanitized (hasPhpComponent sanitized) = .noExtension) :
    Dispatched config fs sanitized (config.mode.resolveNoExtension sanitized
      { documentRoot := config.documentRoot, fs, workerRoute := config.workerRoute }) := by
  have hphp : hasPhpComponent sanitized = false := by
    cases hphp : hasPhpComponent sanitized with
    | false => rfl
    | true => simp [classifyUriWithPhp, hphp] at hkind
  unfold Mode.resolveNoExtension
  split
  · next r hmode =>
    unfold TraditionalRouter.resolveNoExtension
    split
    · exact dispatched_rootFallback hmode
    · next he =>
      have hne : sanitized ≠ [] := by simpa using he
      simp only
      split
      · exact .static hphp hne
      · next hfile =>
        split
        · next hdir =>
          split
          · next hindex => exact .indexPhp hmode hkind hne (by simpa using hfile) hdir hindex
          · split
            · exact .indexHtml hmode hphp hne
            · exact dispatched_rootFallback hmode
        · exact dispatched_rootFallback hmode
  · next r hmode => exact dispatched_rewrite hmode
  · next r hmode =>
    unfold SpaRouter.resolveNoExtension
    split
    · exact .page hmode
    · exact .notFound
  · next hmode => exact dispatched_worker hmode

theorem dispatched_php (hphp : hasPhpComponent sanitized = true) :
    Dispatched config fs sanitized (config.mode.resolvePhp sanitized
      { documentRoot := config.documentRoot, fs, workerRoute := config.workerRoute }) := by
  unfold Mode.resolvePhp
  split
  · next r hmode =>
    unfold TraditionalRouter.resolvePhp
    simp only
    split
    · next hfile => exact .namedScript (by rw [hmode]; rfl) hphp hfile
    · cases hsplit : TraditionalRouter.trySplitPathInfo fs config.documentRoot sanitized with
      | none => exact dispatched_rootFallback hmode
      | some route =>
        obtain ⟨script, rest, hf, rfl⟩ := trySplitPathInfo_eq_some hsplit
        exact .split hmode hphp hf.toPathInfoSplit
  · next r hmode => exact dispatched_rewrite hmode
  · next r hmode =>
    unfold SpaRouter.resolvePhp
    simp only
    split
    · next hfile => exact .namedScript (by rw [hmode]; rfl) hphp hfile
    · exact .notFound
  · next hmode => exact dispatched_worker hmode

/-- **Inversion of dispatch**: the answer is one of `Dispatched`. -/
theorem dispatched_dispatch (config : RouteConfig) (fs : FileSystem) (sanitized : Bytes)
    (toEntry : Bool) : Dispatched config fs sanitized
      (config.dispatch fs sanitized (hasPhpComponent sanitized) toEntry) := by
  unfold dispatch
  simp only
  split
  · exact dispatched_staticMiss
  · split
    · next hkind => exact dispatched_noExtension hkind
    · next hkind =>
      have hphp : hasPhpComponent sanitized = true := classifyUriWithPhp_eq_php.mp hkind
      split
      · next denied hd => exact .denied (denyCheck_eq_some hd)
      · exact dispatched_php hphp
    · next hkind =>
      obtain ⟨hphp, hne⟩ := classifyUriWithPhp_eq_otherExtension hkind
      split
      · exact .static hphp hne
      · exact dispatched_staticMiss

/-! ## The screens after dispatch -/

theorem denyScreen_cases (result : RouteResult) : config.denyScreen sanitized result = result ∨
      Denial config (config.denyScreen sanitized result) := by
  unfold denyScreen
  split
  · split
    · next rel _ =>
      cases hd : config.denyCheck rel sanitized with
      | none => exact .inl rfl
      | some route => exact .inr (denyCheck_eq_some hd)
    · exact .inl rfl
  · exact .inl rfl

theorem symlinkScreen_cases (result : RouteResult) :
    config.symlinkScreen fs result = result ∨ config.symlinkScreen fs result = .notFound := by
  unfold symlinkScreen
  split
  · split
    · exact .inr rfl
    · exact .inl rfl
  · exact .inl rfl

structure Reached (config : RouteConfig) (decoded : Bytes) (toEntry : Bool) : Prop where
  not_denied : config.denyFileScreen (sanitizePath decoded) (endsWithByte slash decoded) =
    .ok toEntry
  not_wellKnown : (hasPhpComponent (sanitizePath decoded) &&
    startsWithWellKnown (sanitizePath decoded)) = false

theorem resolveDecoded_of_reached (h : Reached config decoded toEntry) :
    config.resolveDecoded fs decoded =
      (let result := config.symlinkScreen fs (config.denyScreen (sanitizePath decoded)
        (config.dispatch fs (sanitizePath decoded) (hasPhpComponent (sanitizePath decoded))
          toEntry))
      (result, shouldCache result)) := by
  simp [resolveDecoded, h.not_denied, h.not_wellKnown]

theorem denyFileScreen_ok {file : DenyFile} (hfile : config.denyFile = some file)
    (h : config.denyFileScreen sanitized isDir = .ok toEntry) :
    (file.check sanitized isDir config.mode.splitsPathInfo = none ∧ toEntry = false) ∨
      ∃ rule, file.check sanitized isDir config.mode.splitsPathInfo = some rule ∧
        rule.action = .entry ∧ toEntry = true := by
  unfold denyFileScreen at h
  simp only [hfile] at h
  split at h
  · cases h
  · split at h
    · next hc =>
      cases h
      exact .inl ⟨hc, rfl⟩
    · next rule hc =>
      split at h
      · next ha =>
        cases h
        exact .inr ⟨rule, hc, ha, rfl⟩
      · split at h <;> cases h

theorem Reached.toEntry_eq_false
    (h : Reached config decoded toEntry) (hdirect : config.mode.isDirect = true) :
    toEntry = false := by
  cases hfile : config.denyFile with
  | none =>
    have hs := h.not_denied
    simp only [denyFileScreen, hfile] at hs
    cases hs
    rfl
  | some file =>
    rcases denyFileScreen_ok hfile h.not_denied with ⟨-, he⟩ | ⟨rule, hc, ha, -⟩
    · exact he
    · rw [config.deny_rules_only hdirect file hfile _ _ _ rule hc] at ha
      cases ha

theorem denyFileScreen_error {answer : RouteResult}
    (h : config.denyFileScreen sanitized isDir = .error answer) :
    answer = .notFound ∨ Denial config answer := by
  unfold denyFileScreen at h
  split at h
  · cases h
  · split at h
    · cases h
      exact .inl rfl
    · split at h
      · cases h
      · split at h
        · cases h
        · split at h
          · next fallback hf =>
            cases h
            exact .inr ⟨fallback, _, _, _, .inr hf, rfl⟩
          · cases h
            exact .inl rfl

/-- **Inversion of the pipeline**: a miss, a denial, or what dispatch answered
past every screen. -/
theorem resolveDecoded_cases (config : RouteConfig) (fs : FileSystem) (decoded : Bytes) :
    (config.resolveDecoded fs decoded).1 = .notFound ∨
      Denial config (config.resolveDecoded fs decoded).1 ∨
      ∃ toEntry, Reached config decoded toEntry ∧
        (config.resolveDecoded fs decoded).1 = config.dispatch fs (sanitizePath decoded)
          (hasPhpComponent (sanitizePath decoded)) toEntry := by
  unfold resolveDecoded
  simp only
  split
  · next answer hs => exact (denyFileScreen_error hs).imp_right .inl
  · next toEntry hs =>
    split
    · exact .inl rfl
    · next hw =>
      have hr : Reached config decoded toEntry := ⟨hs, Bool.eq_false_iff.mpr hw⟩
      simp only
      generalize ha : config.dispatch fs (sanitizePath decoded) _ toEntry = answer
      rcases symlinkScreen_cases (config.denyScreen (sanitizePath decoded) answer) with hsym | hsym
      · rw [hsym]
        rcases denyScreen_cases answer with hk | hd
        · exact .inr (.inr ⟨toEntry, hr, hk.trans ha.symm⟩)
        · exact .inr (.inl hd)
      · exact .inl hsym

theorem dispatched_of_resolveDecoded
    (h : (config.resolveDecoded fs decoded).1 = route) (hm : route ≠ .notFound)
    (hc : shouldCache route = true) : ∃ toEntry, Reached config decoded toEntry ∧
      Dispatched config fs (sanitizePath decoded) route := by
  subst h
  rcases resolveDecoded_cases config fs decoded with hnot | hd | ⟨toEntry, hr, heq⟩
  · exact absurd hnot hm
  · rw [hd.shouldCache] at hc
    cases hc
  · exact ⟨toEntry, hr, heq ▸ dispatched_dispatch ..⟩

end RouteConfig

end OxPhp.Routing
