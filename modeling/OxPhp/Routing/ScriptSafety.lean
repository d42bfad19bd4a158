import OxPhp.Routing.PathSafety

/-!
# Which scripts a route can execute

What runs ends in `.php`, and nothing under `.well-known/` runs, each up to one
branch: the exact-file test of the direct-mapping modes does not ask where in the
path the `.php` segment stood, and the directory index of the traditional router
is looked up after the `.well-known` block.
-/

namespace OxPhp.Routing

open ByteStr UnixPath OxPhp.Config

namespace RouteConfig

section Steps

variable {config : RouteConfig} {fs : FileSystem} {decoded : Bytes} {segs : List Bytes}

theorem sanitizePath_ne_nil_of_php (hphp : hasPhpComponent (sanitizePath decoded) = true) :
    sanitizePath decoded ≠ [] := by
  intro hnil
  rw [hnil] at hphp
  cases hphp

/-- The route of a `.php` path whose exact file exists, in a direct-mapping
mode. -/
theorem resolveDecoded_named {uri : Bytes} (hadm : admitted uri = some decoded)
    (hr : Reached config decoded false) (hdirect : config.mode.isDirect = true)
    (hphp : hasPhpComponent (sanitizePath decoded) = true)
    (hfile : fs.isFile (join config.documentRoot (sanitizePath decoded)) = true)
    (hd : config.denyCheck (sanitizePath decoded) (sanitizePath decoded) = none) :
    (config.resolveDecoded fs decoded).1 = config.symlinkScreen fs
      (.execute (join config.documentRoot (sanitizePath decoded)) none none) := by
  have hdi : config.dispatch fs (sanitizePath decoded) true false =
      .execute (join config.documentRoot (sanitizePath decoded)) none none := by
    simp only [dispatch, classifyUriWithPhp, hd, Bool.false_eq_true, if_false, if_true]
    cases hmode : config.mode with
    | traditional r => simp [Mode.resolvePhp, TraditionalRouter.resolvePhp, hfile]
    | spa r => simp [Mode.resolvePhp, SpaRouter.resolvePhp, hfile]
    | framework r | worker => simp [hmode, Mode.isDirect] at hdirect
  have hs := stripPrefix_sanitized config.documentRoot hadm (sanitizePath_ne_nil_of_php hphp)
  rw [resolveDecoded_of_reached hr]
  simp only [hphp, hdi, denyScreen, hs, hd, Option.getD_none]

theorem symlinkScreen_execute (path : Bytes) : config.symlinkScreen fs (.execute path none none) =
      if config.isWorkerPath path || config.validatePath fs path then .execute path none none
      else .notFound := by
  unfold symlinkScreen
  simp only [RouteResult.resolved]
  cases config.isWorkerPath path <;> cases config.validatePath fs path <;> rfl

end Steps

/-! ## Scripts end in `.php` -/

/-- A script the route runs, the worker's and a fallback apart, has a name that
ends in `.php`. -/
def RunsPhpFile (config : RouteConfig) (route : RouteResult) : Prop :=
  ∀ path pathInfo, route = .execute path pathInfo none →
    config.isWorkerPath path = true ∨ ∃ name, fileName path = some name ∧ namesAScript name = true

/-- The exact file of a path that goes on after its `.php` segment exists and no
screen stops it. -/
structure MisnamedScript (config : RouteConfig) (fs : FileSystem) (decoded : Bytes) : Prop where
  reached : Reached config decoded false
  direct : config.mode.isDirect = true
  php : hasPhpComponent (sanitizePath decoded) = true
  not_script : namesAScript (sanitizePath decoded) = false
  file : fs.isFile (join config.documentRoot (sanitizePath decoded)) = true
  not_denied : config.denyCheck (sanitizePath decoded) (sanitizePath decoded) = none
  not_worker : config.isWorkerPath (join config.documentRoot (sanitizePath decoded)) = false
  valid : config.validatePath fs (join config.documentRoot (sanitizePath decoded)) = true

section Php

variable {config : RouteConfig} {fs : FileSystem} {decoded uri : Bytes} {segs : List Bytes}

theorem runsPhpFile_notFound : config.RunsPhpFile .notFound := by
  rintro path pathInfo ⟨⟩

theorem runsPhpFile_of_denial {route : RouteResult} (h : Denial config route) :
    config.RunsPhpFile route := by
  rintro path pathInfo rfl
  have hc := h.shouldCache
  cases hc

theorem fileName_indexPhp (base : Bytes) {segs : List Bytes} (h : Plain segs) :
    fileName (join base (joinSegments (segs ++ [str "index.php"]))) = some (str "index.php") :=
  fileName_join base (h.append plain_indexPhp) (by decide)

theorem fileName_screened (base : Bytes) {rel : List Bytes} (hs : Screened rel)
    (hne : joinSegments rel ≠ []) : ∃ name, fileName (join base (joinSegments rel)) = some name ∧
      (namesAScript (joinSegments rel) = true ↔ namesAScript name = true) := by
  obtain ⟨init, last, rfl, hp, hpa⟩ := hs.exists_last hne
  exact ⟨last, fileName_join base hp hpa, namesAScript_iff_last hp.segments_join⟩

theorem runsPhpFile_of_name {path name : Bytes} {pathInfo : Option Bytes}
    (hn : fileName path = some name) (hs : namesAScript name = true) :
    config.RunsPhpFile (.execute path pathInfo none) := by
  rintro path' pathInfo' ⟨⟩
  exact .inr ⟨name, hn, hs⟩

theorem runsPhpFile_of_dispatched {route : RouteResult} (hs : Screened segs)
    (h : Dispatched config fs (joinSegments segs) route) : config.RunsPhpFile route ∨
      config.mode.isDirect = true ∧ hasPhpComponent (joinSegments segs) = true ∧
        namesAScript (joinSegments segs) = false ∧
        fs.isFile (join config.documentRoot (joinSegments segs)) = true := by
  have hindex : namesAScript (str "index.php") = true := by decide
  cases h with
  | denied hdenied => exact .inl (runsPhpFile_of_denial hdenied)
  | worker hmode hworker =>
    refine .inl ?_
    rintro path pathInfo ⟨⟩
    exact .inl (by simp [isWorkerPath, hworker, samePath])
  | namedScript hdirect hphp hfile =>
    by_cases hsc : namesAScript (joinSegments segs) = true
    · obtain ⟨name, hn, hiff⟩ := fileName_screened config.documentRoot hs (by
        intro hnil
        rw [hnil] at hphp
        cases hphp)
      exact .inl (runsPhpFile_of_name hn (hiff.mp hsc))
    · exact .inr ⟨hdirect, hphp, by simpa using hsc, hfile⟩
  | split hmode hphp hsplit =>
    obtain ⟨front, -, hne, hf, rfl, -⟩ := hsplit.segments hs
    obtain ⟨name, hn, hiff⟩ := fileName_screened config.documentRoot hf (by
      intro hnil
      rw [hnil] at hsplit
      exact absurd hsplit.names_script (by decide))
    exact .inl (runsPhpFile_of_name hn (hiff.mp hsplit.names_script))
  | indexPhp hmode hkind hne hfile hdir hidx =>
    have hp := hs.plain (hs.segments_join hne).1
    rw [join_join _ hp plain_indexPhp]
    exact .inl (runsPhpFile_of_name (fileName_indexPhp _ hp) hindex)
  | rootPhp hmode =>
    exact .inl (runsPhpFile_of_name (fileName_join_name _ plain_indexPhp (by decide)) hindex)
  | frontController hmode =>
    have hb := config.built
    rw [hmode] at hb
    obtain ⟨name, ext, he, hext, rfl⟩ := hb
    obtain ⟨path, hfile, -⟩ := he.file
    have hn := fileName_join_name config.documentRoot he.plain (fileName_eq_some hfile).2.2
    exact .inl (runsPhpFile_of_name hn (he.names_script hext))
  | _ =>
    refine .inl ?_
    rintro path pathInfo ⟨⟩

theorem MisnamedScript.not_runsPhpFile (hadm : admitted uri = some decoded)
    (h : config.MisnamedScript fs decoded) :
    ¬config.RunsPhpFile (config.resolveDecoded fs decoded).1 := by
  intro hr
  have hro := resolveDecoded_named hadm h.reached h.direct h.php h.file h.not_denied
  rw [symlinkScreen_execute, h.not_worker, h.valid, Bool.false_or, if_pos rfl] at hro
  have hne : joinSegments (keptSegments decoded) ≠ [] :=
    sanitizePath_eq decoded ▸ sanitizePath_ne_nil_of_php h.php
  obtain ⟨name, hn, hiff⟩ :=
    fileName_screened config.documentRoot (screened_of_admitted hadm) hne
  rw [← sanitizePath_eq] at hn hiff
  rcases hr _ _ hro with hworker | ⟨name', hn', hs⟩
  · rw [h.not_worker] at hworker
    cases hworker
  · cases hn.symm.trans hn'
    have hnot := h.not_script
    rw [hiff.mpr hs] at hnot
    cases hnot

theorem runsPhpFile_of_named (hadm : admitted uri = some decoded)
    (hr : Reached config decoded false) (hdirect : config.mode.isDirect = true)
    (hphp : hasPhpComponent (sanitizePath decoded) = true)
    (hs : namesAScript (sanitizePath decoded) = false)
    (hfile : fs.isFile (join config.documentRoot (sanitizePath decoded)) = true)
    (hd : config.denyCheck (sanitizePath decoded) (sanitizePath decoded) = none)
    (hmis : ¬config.MisnamedScript fs decoded) :
    config.RunsPhpFile (config.resolveDecoded fs decoded).1 := by
  rw [resolveDecoded_named hadm hr hdirect hphp hfile hd, symlinkScreen_execute]
  split
  · next hp =>
    rintro path pathInfo ⟨⟩
    by_contra hbad
    have hworker := Bool.eq_false_iff.mpr fun h => hbad (.inl h)
    rw [hworker, Bool.false_or] at hp
    exact hmis ⟨hr, hdirect, hphp, hs, hfile, hd, hworker, hp⟩
  · exact runsPhpFile_notFound

theorem runsPhpFile_iff (hadm : admitted uri = some decoded) :
    config.RunsPhpFile (config.resolveDecoded fs decoded).1 ↔
      ¬config.MisnamedScript fs decoded := by
  constructor
  · intro hr hmis
    exact hmis.not_runsPhpFile hadm hr
  · intro hmis
    rcases resolveDecoded_cases config fs decoded with hnot | hd | ⟨toEntry, hre, heq⟩
    · rw [hnot]
      exact runsPhpFile_notFound
    · exact runsPhpFile_of_denial hd
    · have hdi := dispatched_dispatch config fs (sanitizePath decoded) toEntry
      rw [← heq, sanitizePath_eq] at hdi
      rcases runsPhpFile_of_dispatched (screened_of_admitted hadm) hdi with
        hr | ⟨hdirect, hphp, hs, hfile⟩
      · exact hr
      · rw [← sanitizePath_eq] at hphp hs hfile
        cases hre.toEntry_eq_false hdirect
        cases hde : config.denyCheck (sanitizePath decoded) (sanitizePath decoded) with
        | none => exact runsPhpFile_of_named hadm hre hdirect hphp hs hfile hde hmis
        | some denied =>
          have hro : (config.resolveDecoded fs decoded).1 = denied := by
            simpa [dispatch, classifyUriWithPhp, hphp, hde] using heq
          rw [hro]
          exact runsPhpFile_of_denial (denyCheck_eq_some hde)

end Php

end RouteConfig

/-- **Scripts that run are `.php` files, up to one branch.** Every answer of a
run keeps the guarantee exactly when the run resolves no request for the exact
file of a path that goes on after its `.php` segment. -/
theorem runs_php_files_iff (config : RouteConfig) (hroot : config.entryRoute = none)
    (reqs : List Request) : (∀ served ∈ config.trace (Lru.empty routeCacheCapacity) reqs,
        config.RunsPhpFile served.route) ↔
      ∀ served ∈ config.trace (Lru.empty routeCacheCapacity) reqs,
        ¬served.Resolves config.MisnamedScript :=
  RouteConfig.trace_forall_iff hroot RouteConfig.runsPhpFile_notFound
    (fun _ _ _ hadm => RouteConfig.runsPhpFile_iff hadm) reqs (Lru.all_empty _ _)

theorem runs_php_files_app_php : (RouteConfig.plainTraditional (str "/srv")).RunsPhpFile
      ((RouteConfig.plainTraditional (str "/srv")).resolveRequest
        (.ofLists [str "/srv/app.php"] []) (Lru.empty routeCacheCapacity) (str "/app.php")).1 := by
  refine (runs_php_files_iff (.plainTraditional (str "/srv")) rfl
    [⟨.ofLists [str "/srv/app.php"] [], str "/app.php"⟩]).mpr ?_ _ List.mem_cons_self
  intro served hs
  rw [List.mem_singleton.mp hs]
  rintro ⟨-, decoded, hadm, hmis⟩
  cases (show admitted (str "/app.php") = some (str "/app.php") by decide).symm.trans hadm
  exact absurd hmis.not_script (by decide)

/-- A text file below a directory named like a script runs as PHP. -/
theorem runs_text_file : ¬(RouteConfig.plainTraditional (str "/srv")).RunsPhpFile
      ((RouteConfig.plainTraditional (str "/srv")).resolveRequest
        (.ofLists [str "/srv/foo.php/bar.txt"] [str "/srv/foo.php"])
        (Lru.empty routeCacheCapacity) (str "/foo.php/bar.txt")).1 := by
  intro hr
  rcases hr (str "/srv/foo.php/bar.txt") none (by decide) with hworker | ⟨name, hn, hs⟩
  · cases hworker
  · cases (show fileName (str "/srv/foo.php/bar.txt") = some (str "bar.txt") by decide).symm.trans
      hn
    exact absurd hs (by decide)

/-! ## Nothing under `.well-known/` runs -/

namespace RouteConfig

/-- A script the route runs, a fallback apart, does not lie under the document
root's `.well-known/`. -/
def NoWellKnownScript (config : RouteConfig) (route : RouteResult) : Prop :=
  ∀ path pathInfo rel, route = .execute path pathInfo none →
    stripPrefix path config.documentRoot = some rel → startsWithWellKnown rel = false

/-- The directory index of a directory under `.well-known/`: `index.php` exists
there and no screen stops it. -/
structure WellKnownIndex (config : RouteConfig) (fs : FileSystem) (decoded : Bytes) : Prop where
  reached : Reached config decoded false
  traditional : ∃ r, config.mode = .traditional r
  wellKnown : startsWithWellKnown (sanitizePath decoded) = true
  no_extension : classifyUriWithPhp (sanitizePath decoded)
    (hasPhpComponent (sanitizePath decoded)) = .noExtension
  not_file : fs.isFile (join config.documentRoot (sanitizePath decoded)) = false
  dir : fs.isDir (join config.documentRoot (sanitizePath decoded)) = true
  index : fs.isFile (join (join config.documentRoot (sanitizePath decoded))
    (str "index.php")) = true
  not_denied : config.denyCheck (sanitizePath decoded ++ slash :: str "index.php")
    (sanitizePath decoded) = none
  allowed : (config.isWorkerPath (join (join config.documentRoot (sanitizePath decoded))
      (str "index.php")) ||
    config.validatePath fs (join (join config.documentRoot (sanitizePath decoded))
      (str "index.php"))) = true

/-- The operator put the worker's script under `.well-known/`, and the request
goes to it. -/
structure WellKnownWorker (config : RouteConfig) (fs : FileSystem) (decoded : Bytes) : Prop where
  mode : config.mode = .worker
  dispatched : ∃ toEntry, Reached config decoded toEntry ∧
    (toEntry = true ∨ classifyUriWithPhp (sanitizePath decoded)
        (hasPhpComponent (sanitizePath decoded)) ≠ .otherExtension ∨
      fs.isFile (join config.documentRoot (sanitizePath decoded)) = false)
  worker : ∃ path rel, config.workerRoute = some (.execute path none none) ∧
    stripPrefix path config.documentRoot = some rel ∧ startsWithWellKnown rel = true

section WellKnown

variable {config : RouteConfig} {fs : FileSystem} {decoded uri : Bytes} {segs : List Bytes}

theorem noWellKnownScript_notFound : config.NoWellKnownScript .notFound := by
  rintro path pathInfo rel ⟨⟩

theorem noWellKnownScript_of_denial {route : RouteResult} (h : Denial config route) :
    config.NoWellKnownScript route := by
  rintro path pathInfo rel rfl
  have hc := h.shouldCache
  cases hc

theorem noWellKnownScript_of_segments {rel : List Bytes} {pathInfo : Option Bytes}
    (hp : Plain rel) (hrel : ∀ next rest, rel ≠ wellKnown :: next :: rest) :
    config.NoWellKnownScript
      (.execute (join config.documentRoot (joinSegments rel)) pathInfo none) := by
  rintro path pathInfo' rel' ⟨⟩ hs
  rw [stripPrefix_join _ hp] at hs
  cases hs
  by_contra hw
  obtain ⟨next, rest, hse⟩ := startsWithWellKnown_iff.mp (by simpa using hw)
  rw [hp.segments_join] at hse
  exact hrel next rest hse

theorem not_wellKnown_of_reached {toEntry : Bool} (hr : Reached config decoded toEntry)
    (hphp : hasPhpComponent (sanitizePath decoded) = true) (next : Bytes) (rest : List Bytes) :
    segments (sanitizePath decoded) ≠ wellKnown :: next :: rest := by
  intro hs
  have hb := hr.not_wellKnown
  rw [hphp, startsWithWellKnown_iff.mpr ⟨next, rest, hs⟩] at hb
  cases hb

theorem ne_wellKnown_of_screened (hs : Screened segs) : segs ≠ [wellKnown] := by
  rintro rfl
  rcases hs.dot_safe with hc | ⟨next, rest, heq, -⟩
  · exact absurd (hc wellKnown (by simp)) (by decide)
  · cases heq

theorem noWellKnownScript_of_dispatched {route : RouteResult} {toEntry : Bool}
    (hadm : admitted uri = some decoded) (hr : Reached config decoded toEntry)
    (h : Dispatched config fs (sanitizePath decoded) route) : config.NoWellKnownScript route ∨
      ((∃ r, config.mode = .traditional r) ∧
        startsWithWellKnown (sanitizePath decoded) = true ∧
        classifyUriWithPhp (sanitizePath decoded) (hasPhpComponent (sanitizePath decoded)) =
          .noExtension ∧
        fs.isFile (join config.documentRoot (sanitizePath decoded)) = false ∧
        fs.isDir (join config.documentRoot (sanitizePath decoded)) = true ∧
        fs.isFile (join (join config.documentRoot (sanitizePath decoded))
          (str "index.php")) = true) ∨ config.mode = .worker := by
  have hs := screened_of_admitted hadm
  cases h with
  | denied hdenied => exact .inl (noWellKnownScript_of_denial hdenied)
  | worker hmode hworker => exact .inr (.inr hmode)
  | namedScript hdirect hphp hfile =>
    have hp := plain_of_admitted hadm (sanitizePath_ne_nil_of_php hphp)
    have hse := not_wellKnown_of_reached hr hphp
    rw [sanitizePath_eq, hp.segments_join] at hse
    rw [sanitizePath_eq]
    exact .inl (noWellKnownScript_of_segments hp hse)
  | split hmode hphp hsplit =>
    have hp := plain_of_admitted hadm (sanitizePath_ne_nil_of_php hphp)
    have hse := not_wellKnown_of_reached hr hphp
    rw [sanitizePath_eq] at hsplit hse
    rw [hp.segments_join] at hse
    obtain ⟨front, back, hne, hf, rfl, hcat⟩ := hsplit.segments hs
    refine .inl (noWellKnownScript_of_segments (hf.plain hne) fun next rest hw => ?_)
    exact hse next (rest ++ back) (by rw [hcat, hw]; rfl)
  | indexPhp hmode hkind hne hfile hdir hindex =>
    by_cases hw : startsWithWellKnown (sanitizePath decoded) = true
    · exact .inr (.inl ⟨⟨_, hmode⟩, hw, hkind, hfile, hdir, hindex⟩)
    · have hp := plain_of_admitted hadm hne
      rw [startsWithWellKnown_iff, sanitizePath_eq, hp.segments_join] at hw
      rw [sanitizePath_eq, join_join _ hp plain_indexPhp]
      refine .inl (noWellKnownScript_of_segments (hp.append plain_indexPhp) ?_)
      intro next rest hse
      match hk : keptSegments decoded, hse with
      | [], hse => cases hse
      | [first], hse =>
        rw [(List.cons.inj hse).1] at hk
        exact ne_wellKnown_of_screened hs hk
      | first :: second :: others, hse =>
        rw [(List.cons.inj hse).1] at hk
        exact hw ⟨second, others, hk⟩
  | rootPhp hmode =>
    have hro := @noWellKnownScript_of_segments config _ none plain_indexPhp (by simp)
    rw [joinSegments_singleton] at hro
    exact .inl hro
  | @frontController r pathInfo hmode =>
    have hb := config.built
    rw [hmode] at hb
    obtain ⟨name, ext, he, -, rfl⟩ := hb
    have hro := @noWellKnownScript_of_segments config _ pathInfo he.plain (by simp)
    rw [joinSegments_singleton] at hro
    exact .inl hro
  | _ =>
    refine .inl ?_
    rintro path pathInfo rel ⟨⟩

theorem stripPrefix_index (hadm : admitted uri = some decoded) (hne : sanitizePath decoded ≠ []) :
    stripPrefix (join (join config.documentRoot (sanitizePath decoded)) (str "index.php"))
      config.documentRoot = some (sanitizePath decoded ++ slash :: str "index.php") := by
  have hp := plain_of_admitted hadm hne
  rw [sanitizePath_eq, join_join _ hp plain_indexPhp,
    stripPrefix_join _ (hp.append plain_indexPhp),
    joinSegments_append hp.ne_nil (by simp), joinSegments_singleton]

theorem ne_nil_of_wellKnown {s : Bytes} (hw : startsWithWellKnown s = true) : s ≠ [] := by
  rintro rfl
  cases hw

section Index

variable {r : TraditionalRouter} (hadm : admitted uri = some decoded)
  (hr : Reached config decoded false) (hmode : config.mode = .traditional r)
  (hkind : classifyUriWithPhp (sanitizePath decoded)
    (hasPhpComponent (sanitizePath decoded)) = .noExtension)
  (hfile : fs.isFile (join config.documentRoot (sanitizePath decoded)) = false)
  (hdir : fs.isDir (join config.documentRoot (sanitizePath decoded)) = true)
  (hindex : fs.isFile (join (join config.documentRoot (sanitizePath decoded))
    (str "index.php")) = true)

include hadm hr hmode hkind hfile hdir hindex

theorem resolveDecoded_index (hne : sanitizePath decoded ≠ []) :
    (config.resolveDecoded fs decoded).1 = config.symlinkScreen fs
      ((config.denyCheck (sanitizePath decoded ++ slash :: str "index.php")
          (sanitizePath decoded)).getD
        (.execute (join (join config.documentRoot (sanitizePath decoded)) (str "index.php"))
          none none)) := by
  have hd : config.dispatch fs (sanitizePath decoded)
      (hasPhpComponent (sanitizePath decoded)) false =
        .execute (join (join config.documentRoot (sanitizePath decoded)) (str "index.php"))
          none none := by
    simp [dispatch, hkind, hmode, Mode.resolveNoExtension, TraditionalRouter.resolveNoExtension,
      hne, hfile, hdir, hindex]
  rw [resolveDecoded_of_reached hr]
  simp only [hd, denyScreen, stripPrefix_index hadm hne]

theorem noWellKnownScript_of_index (hw : startsWithWellKnown (sanitizePath decoded) = true)
    (hg : ¬config.WellKnownIndex fs decoded) :
    config.NoWellKnownScript (config.resolveDecoded fs decoded).1 := by
  have hne := ne_nil_of_wellKnown hw
  rw [resolveDecoded_index hadm hr hmode hkind hfile hdir hindex hne]
  cases hd : config.denyCheck (sanitizePath decoded ++ slash :: str "index.php")
      (sanitizePath decoded) with
  | some denied =>
    rw [Option.getD_some]
    rcases symlinkScreen_cases denied with hsym | hsym
    · rw [hsym]
      exact noWellKnownScript_of_denial (denyCheck_eq_some hd)
    · rw [hsym]
      exact noWellKnownScript_notFound
  | none =>
    rw [Option.getD_none, symlinkScreen_execute]
    split
    · next ha =>
      exact absurd ⟨hr, ⟨r, hmode⟩, hw, hkind, hfile, hdir, hindex, hd, ha⟩ hg
    · exact noWellKnownScript_notFound

end Index

theorem denyCheck_worker (hmode : config.mode = .worker) (candidate originalUri : Bytes) :
    config.denyCheck candidate originalUri = none := by
  have hn : config.phpDeny = none := by
    by_contra hs
    have hdirect := config.php_deny_direct (Option.isSome_iff_ne_none.mpr hs)
    rw [hmode] at hdirect
    cases hdirect
  simp [denyCheck, hn]

theorem dispatch_worker (hmode : config.mode = .worker) (sanitized : Bytes) (toEntry : Bool) :
    config.dispatch fs sanitized (hasPhpComponent sanitized) toEntry = if toEntry = true ∨
          classifyUriWithPhp sanitized (hasPhpComponent sanitized) ≠ .otherExtension ∨
          fs.isFile (join config.documentRoot sanitized) = false
      then config.workerRoute.getD .notFound else .serve (join config.documentRoot sanitized) := by
  cases toEntry with
  | true => simp [dispatch, hmode, Mode.resolveStaticMiss, WorkerRouter.dispatch]
  | false =>
    cases hkind : classifyUriWithPhp sanitized (hasPhpComponent sanitized) with
    | noExtension => simp [dispatch, hkind, hmode, Mode.resolveNoExtension, WorkerRouter.dispatch]
    | php =>
      simp [dispatch, hkind, hmode, Mode.resolvePhp, WorkerRouter.dispatch, denyCheck_worker]
    | otherExtension =>
      cases hfile : fs.isFile (join config.documentRoot sanitized) <;>
        simp [dispatch, hkind, hmode, hfile, Mode.resolveStaticMiss, WorkerRouter.dispatch]

theorem resolveDecoded_worker (hmode : config.mode = .worker) {toEntry : Bool}
    (hr : Reached config decoded toEntry) :
    (config.resolveDecoded fs decoded).1 = config.symlinkScreen fs
      (config.dispatch fs (sanitizePath decoded) (hasPhpComponent (sanitizePath decoded))
        toEntry) := by
  rw [resolveDecoded_of_reached hr]
  simp only
  congr 1
  unfold denyScreen
  split
  · split
    · rw [denyCheck_worker hmode]
      rfl
    · rfl
  · rfl

theorem WellKnownIndex.not_noWellKnownScript (hadm : admitted uri = some decoded)
    (h : config.WellKnownIndex fs decoded) :
    ¬config.NoWellKnownScript (config.resolveDecoded fs decoded).1 := by
  intro hno
  obtain ⟨r, hmode⟩ := h.traditional
  have hne := ne_nil_of_wellKnown h.wellKnown
  have hr := resolveDecoded_index hadm h.reached hmode h.no_extension h.not_file h.dir
    h.index hne
  rw [h.not_denied, Option.getD_none, symlinkScreen_execute, if_pos h.allowed] at hr
  have hrel := hno _ _ _ hr (stripPrefix_index hadm hne)
  obtain ⟨t, ht⟩ := List.isPrefixOf_iff_prefix.mp h.wellKnown
  have hw : startsWithWellKnown (sanitizePath decoded ++ slash :: str "index.php") = true := by
    refine List.isPrefixOf_iff_prefix.mpr ⟨t ++ slash :: str "index.php", ?_⟩
    rw [← List.append_assoc, ht]
  rw [hw] at hrel
  cases hrel

theorem WellKnownWorker.not_noWellKnownScript (h : config.WellKnownWorker fs decoded) :
    ¬config.NoWellKnownScript (config.resolveDecoded fs decoded).1 := by
  intro hno
  obtain ⟨toEntry, hr, hc⟩ := h.dispatched
  obtain ⟨path, rel, hworker, hs, hw⟩ := h.worker
  have hro := @resolveDecoded_worker config fs decoded h.mode toEntry hr
  rw [dispatch_worker h.mode, if_pos hc, hworker, Option.getD_some, symlinkScreen_execute,
    if_pos (by simp [isWorkerPath, hworker, samePath])] at hro
  rw [hno _ _ _ hro hs] at hw
  cases hw

theorem noWellKnownScript_of_worker {toEntry : Bool} (hr : Reached config decoded toEntry)
    (hmode : config.mode = .worker)
    (heq : (config.resolveDecoded fs decoded).1 = config.dispatch fs (sanitizePath decoded)
      (hasPhpComponent (sanitizePath decoded)) toEntry) (hg : ¬config.WellKnownWorker fs decoded) :
    config.NoWellKnownScript (config.resolveDecoded fs decoded).1 := by
  rintro path pathInfo rel hro hs
  by_contra hw
  rw [dispatch_worker hmode, hro] at heq
  split at heq
  · next hc =>
    cases hworker : config.workerRoute with
    | none =>
      rw [hworker] at heq
      cases heq
    | some route =>
      obtain ⟨path', rfl⟩ := config.worker_execute route hworker
      rw [hworker] at heq
      cases heq
      exact hg ⟨hmode, ⟨toEntry, hr, hc⟩, path, rel, hworker, hs,
        by simpa using hw⟩
  · cases heq

theorem noWellKnownScript_iff (hadm : admitted uri = some decoded) :
    config.NoWellKnownScript (config.resolveDecoded fs decoded).1 ↔
      ¬(config.WellKnownIndex fs decoded ∨ config.WellKnownWorker fs decoded) := by
  constructor
  · rintro hno (hindex | hworker)
    · exact hindex.not_noWellKnownScript hadm hno
    · exact hworker.not_noWellKnownScript hno
  · intro hg
    obtain ⟨hn, hnoW⟩ := not_or.mp hg
    rcases resolveDecoded_cases config fs decoded with hnot | hd | ⟨toEntry, hr, heq⟩
    · rw [hnot]
      exact noWellKnownScript_notFound
    · exact noWellKnownScript_of_denial hd
    · have hdi := dispatched_dispatch config fs (sanitizePath decoded) toEntry
      rw [← heq] at hdi
      obtain hno | ⟨⟨r, hmode⟩, hw, hkind, hfile, hdir, hindex⟩ | hmode :=
        noWellKnownScript_of_dispatched hadm hr hdi
      · exact hno
      · cases hr.toEntry_eq_false (by rw [hmode]; rfl)
        exact noWellKnownScript_of_index hadm hr hmode hkind hfile hdir hindex hw hn
      · exact noWellKnownScript_of_worker hr hmode heq hnoW

end WellKnown

end RouteConfig

/-- **Nothing under `.well-known/` runs, up to two cases.** Every answer of a
run keeps the guarantee exactly when the run resolves no request for a
directory under `.well-known/` with an `index.php` to run, and none that goes to
a worker script the operator put there. -/
theorem no_wellKnown_script_iff (config : RouteConfig) (hroot : config.entryRoute = none)
    (reqs : List Request) : (∀ served ∈ config.trace (Lru.empty routeCacheCapacity) reqs,
        config.NoWellKnownScript served.route) ↔
      ∀ served ∈ config.trace (Lru.empty routeCacheCapacity) reqs,
        ¬served.Resolves fun fs decoded =>
          config.WellKnownIndex fs decoded ∨ config.WellKnownWorker fs decoded :=
  RouteConfig.trace_forall_iff hroot RouteConfig.noWellKnownScript_notFound
    (fun _ _ _ hadm => RouteConfig.noWellKnownScript_iff hadm) reqs (Lru.all_empty _ _)

theorem no_wellKnown_script_acme : (RouteConfig.plainTraditional (str "/srv")).NoWellKnownScript
      ((RouteConfig.plainTraditional (str "/srv")).resolveRequest
        (.ofLists [str "/srv/.well-known/acme/token"] []) (Lru.empty routeCacheCapacity)
        (str "/.well-known/acme/token")).1 := by
  refine (no_wellKnown_script_iff (.plainTraditional (str "/srv")) rfl
    [⟨.ofLists [str "/srv/.well-known/acme/token"] [], str "/.well-known/acme/token"⟩]).mpr ?_ _
    List.mem_cons_self
  intro served hs
  rw [List.mem_singleton.mp hs]
  rintro ⟨-, decoded, hadm, hindex | hworker⟩
  · cases (show admitted (str "/.well-known/acme/token") =
      some (str "/.well-known/acme/token") by decide).symm.trans hadm
    exact absurd hindex.not_file (by decide)
  · cases hworker.mode

/-- The index of a directory under `.well-known/` runs. -/
theorem runs_wellKnown_index : ¬(RouteConfig.plainTraditional (str "/srv")).NoWellKnownScript
      ((RouteConfig.plainTraditional (str "/srv")).resolveRequest
        (.ofLists [str "/srv/.well-known/foo/index.php"] [str "/srv/.well-known/foo"])
        (Lru.empty routeCacheCapacity) (str "/.well-known/foo")).1 := by
  intro hno
  exact absurd (hno (str "/srv/.well-known/foo/index.php") none
    (str ".well-known/foo/index.php") (by decide) (by decide)) (by decide)

end OxPhp.Routing
