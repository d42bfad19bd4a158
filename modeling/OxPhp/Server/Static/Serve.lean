import OxPhp.Lib.Interleave
import OxPhp.Lib.Runs
import OxPhp.Server.Static.Respond

/-!
# Serving static files

`serve` in `server/response/static_file.rs`, one atomic step at a time: each hold
of the cache's lock, each system call on the file and the attempt to take a permit
is one.
-/

namespace OxPhp.Server.Static

open ByteStr Interleave

/-- `MAX_OFF_DISK_COMPRESSIONS`. -/
def maxOffDiskCompressions : Nat := 16

/-! ## Files -/

/-- What a file holds at one time. -/
structure Version where
  bytes : Bytes
  modified : SystemTime
  deriving DecidableEq

/-- The entity tag of a version. -/
def Version.etag (v : Version) : Bytes := generateEtag v.bytes.length v.modified

/-- A file over time.  A path names an inode or none; a write puts a new inode in
its place, or writes over the one there is. -/
structure File where
  inode : Option Nat
  next : Nat
  content : Nat → Version
  versions : List Version
  named : ∀ n, inode = some n → n < next
  recorded : ∀ n < next, content n ∈ versions

namespace File

/-- A path that names nothing. -/
def missing : File where
  inode := none
  next := 0
  content := fun _ => ⟨[], 0⟩
  versions := []
  named := fun _ h => nomatch h
  recorded := fun _ h => absurd h (Nat.not_lt_zero _)

variable (f : File)

/-- What the path names now. -/
def current : Option Version := f.inode.map f.content

/-- A new file takes the path. -/
def replace (v : Version) : File where
  inode := some f.next
  next := f.next + 1
  content := Function.update f.content f.next v
  versions := v :: f.versions
  named := by
    rintro n ⟨⟩
    exact Nat.lt_succ_self _
  recorded := by
    intro n hn
    by_cases h : n = f.next
    · rw [h, Function.update_self]
      exact List.mem_cons_self
    · rw [Function.update_of_ne h]
      exact List.mem_cons_of_mem v (f.recorded n (by omega))

/-- A write in place. -/
def writeAt (n : Nat) (v : Version) : File :=
  { f with
    content := Function.update f.content n v
    versions := v :: f.versions
    recorded := by
      intro m hm
      by_cases h : m = n
      · rw [h, Function.update_self]
        exact List.mem_cons_self
      · rw [Function.update_of_ne h]
        exact List.mem_cons_of_mem v (f.recorded m hm) }

/-- A write to whatever the path names. -/
def overwrite (v : Version) : File :=
  match f.inode with
  | none => f.replace v
  | some n => f.writeAt n v

/-- The path is removed; open files keep their inode. -/
def unlink : File := { f with inode := none, named := fun _ h => nomatch h }

end File

/-! ## Requests in progress -/

/-- The files, the content cache, the free permits and the builds in progress. -/
structure Shared where
  disk : Bytes → File
  content : ContentCache
  permits : Nat
  jobs : List ArtifactWanted

/-- Where a request stands, with what it has read. -/
inductive Pc where
  -- `FileCache::lookup`
  | lookup
  | claim
  | stat (modified : SystemTime)
  | confirm
  | evict (modified : SystemTime)
  -- the file
  | openStatic
  | metadata (inode : Nat)
  | tryAcquire (inode size : Nat) (modified : SystemTime)
  | readToEnd (inode size : Nat) (modified : SystemTime) (contents : Bytes) (permit : Bool)
  | insert (size : Nat) (modified : SystemTime) (contents : Bytes) (permit : Bool)
  deriving DecidableEq

/-- A response, what is still to be streamed of it, and the permit it carries. -/
structure Answer where
  response : Response
  rest : Option Reading
  permit : Bool
  deriving DecidableEq

/-- What a step finds outside: the clocks, the verdict on where the opened file
lives, how much one read returns, and whether a build may be started. -/
structure Tick where
  now : Nat
  time : SystemTime
  allowed : Bool
  chunk : Nat
  scheduled : Bool

/-- `schedule_artifact`; the jobs in progress hold the claims. -/
def Shared.schedule (s : Shared) (t : Tick) (wanted : Option ArtifactWanted) : Shared :=
  match wanted with
  | none => s
  | some w =>
    if t.scheduled && s.jobs.all fun job => (job.key, job.coding) ≠ (w.key, w.coding) then
      { s with jobs := w :: s.jobs }
    else s

/-- A permit is dropped, if there was one. -/
def Shared.release (s : Shared) (permit : Bool) : Shared :=
  if permit then { s with permits := s.permits + 1 } else s

namespace Host

variable (host : Host)

/-- The answer from the cache. -/
def hit (request : Request) (t : Tick) (s : Shared) (e : ContentEntry) :
    Next Pc Answer × Shared :=
  let out := host.respondCached request e t.time
  (.ret ⟨host.finish request out.1, none, false⟩, s.schedule t out.2)

/-- A response without a body to stream. -/
def answer (request : Request) (response : Response) : Next Pc Answer :=
  .ret ⟨host.finish request response, none, false⟩

/-- One step of `serve`; none if a read returns nothing this time. -/
def act (request : Request) (t : Tick) (s : Shared) : Pc → Option (Next Pc Answer × Shared)
  | .lookup =>
    match s.content.peek request.path with
    | none => some (.go .openStatic, s)
    | some e =>
      if e.stale host.revalidateTtl t.now then some (.go .claim, s)
      else some (host.hit request t s e)
  | .claim =>
    match s.content.peek request.path with
    | none => some (.go .openStatic, s)
    | some e =>
      if e.stale host.revalidateTtl t.now then
        let touch := fun e : ContentEntry => { e with lastChecked := t.now }
        some (.go (.stat e.modified), { s with content := s.content.promote request.path touch })
      else
        some (host.hit request t { s with content := s.content.promote request.path id } e)
  | .stat modified =>
    let diskMtime := (s.disk request.path).current.map Version.modified
    some (.go (if diskMtime = some modified then .confirm else .evict modified), s)
  | .confirm =>
    match s.content.peek request.path with
    | none => some (.go .openStatic, s)
    | some e => some (host.hit request t s e)
  | .evict modified =>
    if (s.content.peek request.path).any fun e => e.modified = modified then
      some (.go .openStatic, { s with content := s.content.pop request.path })
    else some (.go .openStatic, s)
  | .openStatic =>
    match (s.disk request.path).inode with
    | none => some (host.answer request notFound, s)
    | some inode => some (.go (.metadata inode), s)
  | .metadata inode =>
    let v := (s.disk request.path).content inode
    if !t.allowed then some (host.answer request notFound, s)
    else
      match host.respondNotModified request v.bytes.length v.modified with
      | some response => some (host.answer request response, s)
      | none => some (.go (.tryAcquire inode v.bytes.length v.modified), s)
  | .tryAcquire inode size modified =>
    if host.wantsOffDisk request size && 0 < s.permits then
      some (.go (.readToEnd inode size modified [] true), { s with permits := s.permits - 1 })
    else if size ≤ maxCacheFileSize then
      some (.go (.readToEnd inode size modified [] false), s)
    else
      let out := host.respondStreamed request inode size modified t.time
      some (.ret ⟨host.finish request out.1, out.2, false⟩, s)
  | .readToEnd inode size modified contents permit =>
    let bytes := ((s.disk request.path).content inode).bytes
    if contents.length = size || bytes.length ≤ contents.length then
      some (.go (.insert size modified contents permit), s)
    else if t.chunk = 0 then none
    else
      let piece := (bytes.drop contents.length).take (min t.chunk (size - contents.length))
      some (.go (.readToEnd inode size modified (contents ++ piece) permit), s)
  | .insert size modified contents permit =>
    if contents.length ≠ size then
      -- the permit ends with this return, before the answer is sent
      some (.ret ⟨host.finish request (host.respondTruncated request contents), none, false⟩,
        s.release permit)
    else
      let e := host.contentEntry request contents modified t.now
      some (.ret ⟨host.finish request (host.respondEntry request e t.time), none, permit⟩,
        { s with content := s.content.insert e })

end Host

/-! ## Runs -/

/-- A request that may come, runs or has its answer. -/
inductive Op where
  | unborn
  | running (request : Request) (pc : Pc)
  | answered (request : Request) (answer : Answer)
  deriving DecidableEq

/-- What a step makes of a request. -/
def Op.after (request : Request) : Next Pc Answer → Op
  | .go pc => running request pc
  | .ret answer => answered request answer

/-- The server with its requests. -/
structure System where
  shared : Shared
  ops : Nat → Op

/-- An empty cache, and all permits free. -/
def start (disk : Bytes → File) : System where
  shared := { disk, content := .empty, permits := maxOffDiskCompressions, jobs := [] }
  ops := fun _ => .unborn

/-- What may happen: requests and their steps, failures, reads and drops of bodies, builds, writes.
-/
inductive Move where
  | request (i : Nat) (request : Request)
  | step (i : Nat) (t : Tick)
  | fail (i : Nat)
  | read (i : Nat) (chunk : Nat)
  | drop (i : Nat)
  | build (wanted : ArtifactWanted)
  | write (path : Bytes) (v : Version) (inPlace : Bool)
  | unlink (path : Bytes)

namespace System

variable (s : System)

/-- One request moves on. -/
def setOp (i : Nat) (op : Op) : System := { s with ops := Function.update s.ops i op }

/-- One file changes. -/
def setFile (path : Bytes) (f : File) : System :=
  { s with shared := { s.shared with disk := Function.update s.shared.disk path f } }

end System

/-- Whether a system call may fail here, and the permit held then. -/
def Pc.failing : Pc → Option Bool
  | .openStatic | .metadata _ => some false
  | .readToEnd _ _ _ _ permit => some permit
  | _ => none

namespace Host

variable (host : Host)

/-- The cache when a build is done. -/
def built (s : Shared) (w : ArtifactWanted) : ContentCache :=
  match host.compress w.coding (artifactLevel w.coding) w.bytes with
  | some artifact => s.content.insertArtifact w.key w.coding w.modified artifact
  | none => s.content.rejectArtifact w.key w.coding w.modified

/-- One more read of a streamed body. -/
def readOn (f : File) (answer : Answer) (r : Reading) (chunk : Nat) : Answer :=
  let piece := ((f.content r.inode).bytes.drop r.pos).take (min chunk r.remaining)
  if piece = [] then { answer with rest := none }
  else
    { answer with
      response := { answer.response with body := .stream (answer.response.body.bytes ++ piece) }
      rest := some ⟨r.inode, r.pos + piece.length, r.remaining - piece.length⟩ }

/-- One move. -/
def step : Move → System → Option System
  | .request i request, s =>
    match s.ops i with
    | .unborn => some (s.setOp i (.running request .lookup))
    | _ => none
  | .step i t, s =>
    match s.ops i with
    | .running request pc => (host.act request t s.shared pc).map fun out =>
        System.setOp { s with shared := out.2 } i (.after request out.1)
    | _ => none
  | .fail i, s =>
    match s.ops i with
    | .running request pc => pc.failing.map fun permit =>
        System.setOp { s with shared := s.shared.release permit } i
          (.after request (host.answer request internalServerError))
    | _ => none
  | .read i chunk, s =>
    match s.ops i with
    | .answered request answer =>
      if chunk = 0 then none
      else answer.rest.map fun r =>
        s.setOp i (.answered request (readOn (s.shared.disk request.path) answer r chunk))
    | _ => none
  | .drop i, s =>
    match s.ops i with
    | .answered request answer =>
      some (System.setOp { s with shared := s.shared.release answer.permit } i
        (.answered request { answer with rest := none, permit := false }))
    | _ => none
  | .build w, s =>
    if w ∈ s.shared.jobs then
      let content := host.built s.shared w
      some { s with shared := { s.shared with content, jobs := s.shared.jobs.erase w } }
    else none
  | .write path v inPlace, s =>
    let f := s.shared.disk path
    some (s.setFile path (if inPlace then f.overwrite v else f.replace v))
  | .unlink path, s => some (s.setFile path (s.shared.disk path).unlink)

end Host

/-- A request that is served in `n` steps, one like the other outside. -/
def served (i : Nat) (request : Request) (t : Tick) (n : Nat) : List Move :=
  .request i request :: .replicate n (.step i t)

variable {request : Request} {t : Tick} {host : Host} {pc : Pc} {next : Next Pc Answer}

section Steps

variable {s s' : Shared}

theorem mem_served {i n : Nat} {m : Move}
    (h : m ∈ served i request t n) : m = .request i request ∨ m = .step i t :=
  (List.mem_cons.mp h).imp_right List.eq_of_mem_replicate

/-! ## What a step does -/

/-- The request has no file open. -/
def Pc.searching : Pc → Bool
  | .lookup | .claim | .stat _ | .confirm | .evict _ | .openStatic => true
  | _ => false

/-- What an atomic step of a request does. -/
inductive Acts (host : Host) (request : Request) (t : Tick) (s : Shared) :
    Pc → Next Pc Answer → Shared → Prop
  | searches {pc pc' : Pc} {content : ContentCache} (here : pc.searching = true)
      (there : pc'.searching = true) (within : content.Within s.content) :
      Acts host request t s pc (.go pc') { s with content }
  | hits {pc : Pc} {content : ContentCache} {e : ContentEntry} (here : pc.searching = true)
      (within : content.Within s.content) (mem : e ∈ s.content.entries)
      (key : e.key = request.path) :
      Acts host request t s pc
        (.ret ⟨host.finish request (host.respondCached request e t.time).1, none, false⟩)
        (Shared.schedule { s with content } t (host.respondCached request e t.time).2)
  | missing : Acts host request t s .openStatic (host.answer request notFound) s
  | opens {inode : Nat} (named : (s.disk request.path).inode = some inode) :
      Acts host request t s .openStatic (.go (.metadata inode)) s
  | refused {inode : Nat} :
      Acts host request t s (.metadata inode) (host.answer request notFound) s
  | notModified {inode : Nat} {v : Version} {response : Response}
      (responds : host.respondNotModified request v.bytes.length v.modified = some response) :
      Acts host request t s (.metadata inode) (host.answer request response) s
  | measures {inode : Nat} {v : Version} (reads : (s.disk request.path).content inode = v) :
      Acts host request t s (.metadata inode)
        (.go (.tryAcquire inode v.bytes.length v.modified)) s
  | acquires {inode size : Nat} {modified : SystemTime}
      (wants : host.wantsOffDisk request size = true) (free : 0 < s.permits) :
      Acts host request t s (.tryAcquire inode size modified)
        (.go (.readToEnd inode size modified [] true)) { s with permits := s.permits - 1 }
  | buffers {inode size : Nat} {modified : SystemTime} (small : size ≤ maxCacheFileSize) :
      Acts host request t s (.tryAcquire inode size modified)
        (.go (.readToEnd inode size modified [] false)) s
  | streams {inode size : Nat} {modified : SystemTime} (large : maxCacheFileSize < size)
      (busy : host.wantsOffDisk request size = true → s.permits = 0) :
      Acts host request t s (.tryAcquire inode size modified)
        (.ret ⟨host.finish request (host.respondStreamed request inode size modified t.time).1,
          (host.respondStreamed request inode size modified t.time).2, false⟩) s
  | reads {inode size : Nat} {modified : SystemTime} {contents bytes : Bytes} {permit : Bool}
      (file : ((s.disk request.path).content inode).bytes = bytes) :
      Acts host request t s (.readToEnd inode size modified contents permit)
        (.go (.readToEnd inode size modified
          (contents ++ (bytes.drop contents.length).take (min t.chunk (size - contents.length)))
          permit)) s
  | hasRead {inode size : Nat} {modified : SystemTime} {contents : Bytes} {permit : Bool} :
      Acts host request t s (.readToEnd inode size modified contents permit)
        (.go (.insert size modified contents permit)) s
  | truncated {size : Nat} {modified : SystemTime} {contents : Bytes} {permit : Bool} :
      Acts host request t s (.insert size modified contents permit)
        (.ret ⟨host.finish request (host.respondTruncated request contents), none, false⟩)
        (s.release permit)
  | inserts {modified : SystemTime} {contents : Bytes} {permit : Bool} {e : ContentEntry}
      (entry : e = host.contentEntry request contents modified t.now) :
      Acts host request t s (.insert contents.length modified contents permit)
        (.ret ⟨host.finish request (host.respondEntry request e t.time), none, permit⟩)
        { s with content := s.content.insert e }

/-! One lemma for each step that looks at more than one thing. -/

theorem acts_of_lookup (h : host.act request t s .lookup = some (next, s')) :
    Acts host request t s .lookup next s' := by
  simp only [Host.act] at h
  split at h
  · cases h
    exact .searches rfl rfl (.refl _)
  · next e hp =>
    obtain ⟨hmem, hkey⟩ := ContentCache.mem_of_peek hp
    split at h <;> cases h
    · exact .searches rfl rfl (.refl _)
    · exact .hits rfl (.refl _) hmem hkey

theorem acts_of_claim (h : host.act request t s .claim = some (next, s')) :
    Acts host request t s .claim next s' := by
  simp only [Host.act] at h
  split at h
  · cases h
    exact .searches rfl rfl (.refl _)
  · next e hp =>
    obtain ⟨hmem, hkey⟩ := ContentCache.mem_of_peek hp
    split at h <;> cases h
    · refine .searches rfl rfl (s.content.within_promote _ fun e => ?_)
      exact ⟨rfl, rfl, rfl, rfl, rfl, rfl⟩
    · exact .hits rfl (s.content.within_promote _ .refl) hmem hkey

theorem acts_of_metadata {inode : Nat}
    (h : host.act request t s (.metadata inode) = some (next, s')) :
    Acts host request t s (.metadata inode) next s' := by
  simp only [Host.act] at h
  split at h
  · cases h
    exact .refused
  · split at h <;> cases h
    · next response hr => exact .notModified hr
    · exact .measures rfl

theorem acts_of_tryAcquire {inode size : Nat} {modified : SystemTime}
    (h : host.act request t s (.tryAcquire inode size modified) = some (next, s')) :
    Acts host request t s (.tryAcquire inode size modified) next s' := by
  simp only [Host.act] at h
  split at h
  · next hw =>
    obtain ⟨hw, hf⟩ := Bool.and_eq_true_iff.mp hw
    cases h
    exact .acquires hw (of_decide_eq_true hf)
  · next hb =>
    split at h <;> cases h
    · next hs => exact .buffers hs
    · next hl =>
      refine .streams (by omega) fun hw => ?_
      simpa [hw] using hb

/-- **What an atomic step can do.** -/
theorem acts_of_act (h : host.act request t s pc = some (next, s')) :
    Acts host request t s pc next s' := by
  cases pc with
  | lookup => exact acts_of_lookup h
  | claim => exact acts_of_claim h
  | stat modified =>
    cases h
    refine .searches rfl ?_ (.refl _)
    split <;> rfl
  | confirm =>
    simp only [Host.act] at h
    split at h <;> cases h
    · exact .searches rfl rfl (.refl _)
    · next e hp =>
      obtain ⟨hmem, hkey⟩ := ContentCache.mem_of_peek hp
      exact .hits rfl (.refl _) hmem hkey
  | evict modified =>
    simp only [Host.act] at h
    split at h <;> cases h
    · exact .searches rfl rfl (s.content.within_pop _)
    · exact .searches rfl rfl (.refl _)
  | openStatic =>
    simp only [Host.act] at h
    split at h <;> cases h
    · exact .missing
    · next inode hin => exact .opens hin
  | metadata inode => exact acts_of_metadata h
  | tryAcquire inode size modified => exact acts_of_tryAcquire h
  | readToEnd inode size modified contents permit =>
    simp only [Host.act] at h
    split at h
    · cases h
      exact .hasRead
    · obtain ⟨-, h⟩ := Option.ite_none_left_eq_some.mp h
      cases h
      exact .reads rfl
  | insert size modified contents permit =>
    simp only [Host.act] at h
    split at h <;> cases h
    · exact .truncated
    · next hlength =>
      obtain rfl := not_not.mp hlength
      exact .inserts rfl

@[simp]
theorem disk_schedule (s : Shared) (t : Tick) (wanted : Option ArtifactWanted) :
    (s.schedule t wanted).disk = s.disk := by
  unfold Shared.schedule
  split
  · rfl
  · split <;> rfl

@[simp]
theorem content_schedule (s : Shared) (t : Tick) (wanted : Option ArtifactWanted) :
    (s.schedule t wanted).content = s.content := by
  unfold Shared.schedule
  split
  · rfl
  · split <;> rfl

@[simp]
theorem disk_release (s : Shared) (permit : Bool) : (s.release permit).disk = s.disk := by
  cases permit <;> rfl

@[simp]
theorem content_release (s : Shared) (permit : Bool) : (s.release permit).content = s.content := by
  cases permit <;> rfl

/-- No request changes a file. -/
theorem Acts.disk (h : Acts host request t s pc next s') : s'.disk = s.disk := by
  cases h with
  | hits => rw [disk_schedule]
  | truncated => rw [disk_release]
  | _ => rfl

theorem within_built (host : Host) (s : Shared) (w : ArtifactWanted) :
    (host.built s w).Within s.content := by
  unfold Host.built
  split
  · exact s.content.within_insertArtifact _ _ _ _
  · exact s.content.within_rejectArtifact _ _ _

/-! ## What holds of a path -/

/-- What holds of a path: of its file, of its entries in the cache, and of every
request as far as it is for the path. -/
structure Tracks (p : Bytes) (F : File → Prop) (E : File → ContentEntry → Prop)
    (K : File → Op → Prop) (s : System) : Prop where
  file : F (s.shared.disk p)
  entries : ∀ e ∈ s.shared.content.entries, e.key = p → E (s.shared.disk p) e
  ops : ∀ i, K (s.shared.disk p) (s.ops i)

/-- What makes it an invariant, apart from the steps of `serve` and the writes. -/
structure Rules (host : Host) (p : Bytes) (E : File → ContentEntry → Prop)
    (K : File → Op → Prop) : Prop where
  like : ∀ {f e₀ e}, E f e₀ → e.Like e₀ → E f e
  inserts : ∀ {f request contents modified permit now}, request.path = p →
    K f (.running request (.insert contents.length modified contents permit)) →
      E f (host.contentEntry request contents modified now)
  begins : ∀ {f request}, K f (.running request .lookup)
  fails : ∀ {f request}, K f (.after request (host.answer request internalServerError))
  reads : ∀ {f f' request answer r chunk}, (request.path = p → f' = f) → answer.rest = some r →
    K f (.answered request answer) → K f (.answered request (Host.readOn f' answer r chunk))
  drops : ∀ {f request answer}, K f (.answered request answer) →
    K f (.answered request { answer with rest := none, permit := false })

/-- The file that a move puts in place. -/
def Move.writes (s : System) : Move → Option (Bytes × File)
  | .write path v inPlace =>
    let f := s.shared.disk path
    some (path, if inPlace then f.overwrite v else f.replace v)
  | .unlink path => some (path, (s.shared.disk path).unlink)
  | _ => none

end Steps

namespace Tracks

variable {p : Bytes} {F : File → Prop} {E : File → ContentEntry → Prop} {K : File → Op → Prop}
  {s s' : System} {shared : Shared} (h : Tracks p F E K s)

include h

theorem setOp (i : Nat) {op : Op} (hop : K (s.shared.disk p) op) :
    Tracks p F E K (s.setOp i op) := by
  refine ⟨h.file, h.entries, fun j => ?_⟩
  by_cases hij : j = i
  · subst hij
    simpa [System.setOp] using hop
  · simpa [System.setOp, hij] using h.ops j

theorem setShared (hd : shared.disk = s.shared.disk)
    (he : ∀ e ∈ shared.content.entries, e.key = p → E (s.shared.disk p) e) :
    Tracks p F E K { s with shared } := by
  obtain ⟨hf, -, ho⟩ := h
  rw [← hd] at hf he ho
  exact ⟨hf, he, ho⟩

theorem setFile {path : Bytes} {f : File} (hf : path = p →
      F f ∧ (∀ e, E (s.shared.disk p) e → E f e) ∧ ∀ i, K f (s.ops i)) :
    Tracks p F E K (s.setFile path f) := by
  by_cases hp : path = p
  · subst hp
    obtain ⟨hf, he, ho⟩ := hf rfl
    have hd : (s.setFile path f).shared.disk path = f := Function.update_self ..
    refine ⟨?_, fun e hmem hkey => ?_, fun i => ?_⟩ <;> rw [hd]
    · exact hf
    · exact he e (h.entries e hmem hkey)
    · exact ho i
  · have hd : (s.setFile path f).shared.disk p = s.shared.disk p :=
      Function.update_of_ne (Ne.symm hp) _ _
    exact ⟨hd ▸ h.file, fun e hmem hkey => hd ▸ h.entries e hmem hkey, fun i => hd ▸ h.ops i⟩

theorem release (permit : Bool) : Tracks p F E K { s with shared := s.shared.release permit } := by
  refine h.setShared (disk_release _ _) ?_
  rw [content_release]
  exact h.entries

variable (rules : Rules host p E K)

include rules

theorem within {content : ContentCache} (hw : content.Within s.shared.content) :
    ∀ e ∈ content.entries, e.key = p → E (s.shared.disk p) e := by
  intro e he hkey
  obtain ⟨e₀, he₀, hl⟩ := hw e he
  exact rules.like (h.entries e₀ he₀ (hl.key.symm.trans hkey)) hl

/-- The cache stays right at every step of `serve`. -/
theorem entries_acts (hacts : Acts host request t s.shared pc next shared)
    (hpc : K (s.shared.disk p) (.running request pc)) :
    ∀ e ∈ shared.content.entries, e.key = p → E (s.shared.disk p) e := by
  cases hacts with
  | searches here there hw => exact h.within rules hw
  | hits here hw mem key =>
    rw [content_schedule]
    exact h.within rules hw
  | truncated =>
    rw [content_release]
    exact h.entries
  | inserts entry =>
    intro e he hkey
    rcases ContentCache.of_mem_insert he with hold | ⟨rfl, -⟩
    · exact h.entries e hold hkey
    · subst entry
      exact rules.inserts hkey hpc
  | _ => exact h.entries

/-- **Every move keeps what holds of a path**, if the steps of `serve` and the
writes to the path do. -/
theorem step {m : Move}
    (hserve : ∀ i t request pc next shared, m = .step i t → s.ops i = .running request pc →
      Acts host request t s.shared pc next shared → K (s.shared.disk p) (.after request next))
    (hwrite : ∀ f, m.writes s = some (p, f) →
      F f ∧ (∀ e, E (s.shared.disk p) e → E f e) ∧ ∀ i, K f (s.ops i))
    (hst : host.step m s = some s') : Tracks p F E K s' := by
  cases m with
  | request i request =>
    simp only [Host.step] at hst
    split at hst <;> cases hst
    exact h.setOp i rules.begins
  | step i t =>
    simp only [Host.step] at hst
    split at hst
    · next request pc hop =>
      obtain ⟨⟨next, shared⟩, hact, rfl⟩ := Option.map_eq_some_iff.mp hst
      have hacts := acts_of_act hact
      refine (h.setShared hacts.disk (h.entries_acts rules hacts (hop ▸ h.ops i))).setOp i ?_
      simpa only [hacts.disk] using hserve i t request pc next shared rfl hop hacts
    · cases hst
  | fail i =>
    simp only [Host.step] at hst
    split at hst
    · obtain ⟨permit, -, rfl⟩ := Option.map_eq_some_iff.mp hst
      exact (h.release permit).setOp i rules.fails
    · cases hst
  | read i chunk =>
    simp only [Host.step] at hst
    split at hst
    · next request answer hop =>
      obtain ⟨-, hst⟩ := Option.ite_none_left_eq_some.mp hst
      obtain ⟨r, hr, rfl⟩ := Option.map_eq_some_iff.mp hst
      exact h.setOp i (rules.reads (fun hp => by rw [hp]) hr (hop ▸ h.ops i))
    · cases hst
  | drop i =>
    simp only [Host.step] at hst
    split at hst
    · next request answer hop =>
      cases hst
      refine (h.release answer.permit).setOp i ?_
      simpa only [disk_release] using rules.drops (hop ▸ h.ops i)
    · cases hst
  | build w =>
    obtain ⟨-, hst⟩ := Option.ite_none_right_eq_some.mp hst
    cases hst
    exact h.setShared rfl (h.within rules (within_built host s.shared w))
  | write path v inPlace | unlink path =>
    cases hst
    exact h.setFile fun hp => hwrite _ (by subst hp; rfl)

end Tracks

end OxPhp.Server.Static
