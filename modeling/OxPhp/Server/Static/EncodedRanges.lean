import OxPhp.Server.Static.Serve

/-!
# Encoded responses and ranges

The buffered paths of static serving decide by type and size, which are the
file's, so that they never encode and send a part; the streaming path decides by
the permits that are free at the moment.
-/

namespace OxPhp.Server.Static

open ByteStr Interleave

/-- The file is encoded for the client, where it is buffered. -/
def Host.encodes (host : Host) (request : Request) (size : Nat) : Bool :=
  (host.coding request).isSome && host.variesByEncoding request size

/-- Encoded answers and parts exclude each other: which of them a request may get is decided. -/
structure Unmixed (encodes : Bool) (response : Response) : Prop where
  encoded : response.contentEncoding.isSome = true → encodes = true
  sliced : response.status = 206 → encodes = false

/-! ## Responses -/

section Responses

variable {host : Host} {request : Request} {size : Nat} {mimeType : Bytes}

/-- An encoded answer is one that was to be encoded. -/
theorem encodes_of_encoded {contentType : Bytes} (hc : (host.coding request).isSome = true)
    (htype : isCompressible contentType = true) (hmime : contentType = host.mimeGuess request.path)
    (hw : inWindow size = true) : host.encodes request size = true := by
  have hany := Acceptable.any_of_artifact hc
  subst hmime
  simp [Host.encodes, Host.variesByEncoding, wouldCompress, hc, hany, htype, hw]

theorem wantsOffDisk_of_encodes (hl : maxCacheFileSize < size)
    (h : host.encodes request size = true) : host.wantsOffDisk request size = true := by
  obtain ⟨hc, hv⟩ := Bool.and_eq_true_iff.mp h
  simp [Host.wantsOffDisk, hl, hc, hv]

variable {encodes : Bool} {response : Response} {modified : SystemTime}

/-- Short answers are not encoded. -/
theorem Unmixed.short {bytes : Bytes}
    (hs : response.status ≠ 206) (hc : response.contentEncoding = none)
    (hb : response.body = .full bytes) (hby : inWindow bytes.length = false) :
    Unmixed encodes (host.finish request response) := by
  refine ⟨fun h => ?_, fun h => absurd (status_finish.symm.trans h) hs⟩
  rcases encoded_finish h with h | ⟨-, -, -, body, hb', hw⟩
  · rw [hc] at h
    cases h
  · cases hb.symm.trans hb'
    rw [hby] at hw
    cases hw

theorem Unmixed.notFound : Unmixed encodes (host.finish request notFound) :=
  .short (by decide) rfl rfl (by decide)

theorem Unmixed.internalServerError : Unmixed encodes (host.finish request internalServerError) :=
  .short (by decide) rfl rfl (by decide)

theorem Unmixed.build304 {etag lastModified cacheControl : Bytes} :
    Unmixed encodes (host.finish request (build304 etag lastModified cacheControl)) := by
  refine .short ?_ rfl rfl (by decide)
  simp [Static.build304]

theorem Unmixed.notModified (h : host.respondNotModified request size modified = some response) :
    Unmixed encodes (host.finish request response) := by
  obtain ⟨-, h⟩ := Option.ite_none_right_eq_some.mp h
  cases h
  exact .build304

theorem allowRanges_eq (hmime : mimeType = host.mimeGuess request.path) :
    host.allowRanges request mimeType size = !host.encodes request size := by
  rw [hmime]
  rfl

section Entry

variable {e : ContentEntry} {now : SystemTime} (hmime : e.mimeType = host.mimeGuess request.path)

include hmime

theorem encodes_of_206 (h : (host.respondEntry request e now).status = 206) :
    host.encodes request e.bytes.length = false := by
  obtain ⟨ha, -⟩ := respondBytes_206 h
  rw [allowRanges_eq hmime] at ha
  exact (Bool.not_eq_true' _).mp ha

variable (htype : e.headers.contentType = e.mimeType)

include htype

theorem Unmixed.entry : Unmixed (host.encodes request e.bytes.length)
      (host.finish request (host.respondEntry request e now)) := by
  refine ⟨fun h => ?_, fun h => encodes_of_206 hmime (status_finish.symm.trans h)⟩
  obtain ⟨hc, hco, hw⟩ := encoded_respondBytes h
  exact encodes_of_encoded hc hco (htype.trans hmime) hw

/-- An answer from the cache is unmixed. -/
theorem Unmixed.cached : Unmixed (host.encodes request e.bytes.length)
      (host.finish request (host.respondCached request e now).1) := by
  unfold Host.respondCached
  dsimp only
  split
  · exact .build304
  split
  · exact .entry hmime htype
  next coding hc =>
  split
  · -- the artifact stands in for a full response, as ranges are off
    obtain ⟨-, hoff⟩ := Option.filter_eq_some_iff.mp hc
    rw [allowRanges_eq hmime, Bool.not_not] at hoff
    refine ⟨fun _ => hoff, fun h => ?_⟩
    rw [status_finish, status_markEncoded] at h
    exact encodes_of_206 hmime h
  · exact .entry hmime htype
  · exact .entry hmime htype

end Entry

/-- So is the whole of a file that has become shorter. -/
theorem Unmixed.truncated {contents : Bytes} (hle : contents.length ≤ size)
    (hsize : size ≤ maxCacheFileSize ∨ host.wantsOffDisk request size = true) :
    Unmixed (host.encodes request size)
      (host.finish request (host.respondTruncated request contents)) := by
  refine ⟨fun h => ?_, fun h => ?_⟩
  · rcases hsize with hs | hw
    · rcases encoded_finish h with h | ⟨hc, -, htype, body, hb, hwi⟩
      · cases h
      · cases hb
        refine encodes_of_encoded hc htype rfl ?_
        rw [inWindow_iff] at hwi ⊢
        unfold maxCacheFileSize at hs
        unfold maxCompressSize
        omega
    · simp only [Host.wantsOffDisk, Bool.and_eq_true] at hw
      simp [Host.encodes, hw.1.2, hw.2]
  · rw [status_finish] at h
    cases h

/-- A streamed answer is unmixed where no part is sent of a file to be encoded. -/
theorem Unmixed.streamed {inode : Nat} {now : SystemTime}
    (hp : ∀ start stop, planRange host.dates request.method request.headers size
      (generateEtag size modified) modified now = .part start stop →
        host.encodes request size = false) : Unmixed (host.encodes request size)
      (host.finish request (host.respondStreamed request inode size modified now).1) := by
  unfold Host.respondStreamed
  dsimp only
  split
  · exact .short (by simp [build416, plainText]) rfl rfl (by decide)
  · refine ⟨fun h => ?_, fun h => ?_⟩
    · rcases encoded_finish h with h | ⟨-, -, -, body, hb, -⟩
      · simp at h
      · simp at hb
    · simp at h
  · next start stop hpa =>
    refine ⟨fun h => ?_, fun _ => hp start stop hpa⟩
    rw [finish_of_206 rfl] at h
    simp at h

end Responses

/-! ## A file that is not written to -/

/-- A write to the file. -/
def Move.touches (p : Bytes) : Move → Bool
  | .write path _ _ => path = p
  | .unlink path => path = p
  | _ => false

/-- A part is to be sent. -/
def RangePlan.isPart : RangePlan → Bool
  | part _ _ => true
  | _ => false

/-- A request for the file that compression would read whole finds no permit free,
and is to be sent a part of it. -/
def Host.streamsPart (host : Host) (p : Bytes) (m : Move) (s : System) : Bool :=
  match m with
  | .step i t =>
    match s.ops i with
    | .running request (.tryAcquire _ size modified) =>
      request.path = p && host.wantsOffDisk request size && s.shared.permits = 0 &&
        (planRange host.dates request.method request.headers size (generateEtag size modified)
          modified t.time).isPart
    | _ => false
  | _ => false

/-- The size of what the path names. -/
def File.size (f : File) : Option Nat := f.current.map fun v => v.bytes.length

section Invariant

variable (host : Host) (p : Bytes) (f : File)

/-- The entry is of the type and the size of the file. -/
structure Holds (e : ContentEntry) : Prop where
  mimeType : e.mimeType = host.mimeGuess p
  contentType : e.headers.contentType = e.mimeType
  size : f.size = some e.bytes.length

/-- What a request for the file has found out about it. -/
def Pc.Measured (request : Request) : Pc → Prop
  | .metadata inode => f.inode = some inode
  | .tryAcquire _ size _ => f.size = some size
  | .readToEnd _ size _ contents _ | .insert size _ contents _ =>
    f.size = some size ∧ contents.length ≤ size ∧
      (size ≤ maxCacheFileSize ∨ host.wantsOffDisk request size = true)
  | _ => True

/-- What a request has found out is true of the file, and its answer is unmixed. -/
def Op.Agrees : Op → Prop
  | .unborn => True
  | .running request pc => request.path = p → pc.Measured host f request
  | .answered request answer =>
    request.path = p → Unmixed (f.size.any (host.encodes request)) answer.response

/-- The invariant: cached entries are of the file's type and size, and no request
for the file mixes the two kinds of answers. -/
abbrev Inv (s : System) : Prop :=
  Tracks p (fun _ => True) (Holds host p) (Op.Agrees host p) s

end Invariant

section Steps

variable {host : Host} {p : Bytes} {f : File} {s s' : System}

theorem Holds.like {e e₀ : ContentEntry} (h : Holds host p f e₀) (hl : e.Like e₀) :
    Holds host p f e where
  mimeType := hl.mimeType.trans h.mimeType
  contentType := by rw [hl.headers, hl.mimeType, h.contentType]
  size := by rw [hl.bytes, h.size]

theorem Pc.measured_of_searching {request : Request} {pc : Pc} (h : pc.searching = true) :
    pc.Measured host f request := by
  cases pc with
  | lookup | claim | stat _ | confirm | evict _ | openStatic => trivial
  | metadata _ | tryAcquire _ _ _ | readToEnd _ _ _ _ _ | insert _ _ _ _ => cases h

/-- Every step of `serve` decides by the type and the size of the file. -/
theorem Inv.agrees_acts {request : Request} {t : Tick} {pc : Pc} {next : Next Pc Answer}
    {shared : Shared} (h : Inv host p s) (hacts : Acts host request t s.shared pc next shared)
    (hpc : request.path = p → pc.Measured host (s.shared.disk p) request)
    (hp : ∀ inode size modified, pc = .tryAcquire inode size modified → request.path = p →
      host.wantsOffDisk request size = true → s.shared.permits = 0 →
        (planRange host.dates request.method request.headers size (generateEtag size modified)
          modified t.time).isPart = false) :
    (Op.after request next).Agrees host p (s.shared.disk p) := by
  cases hacts with
  | searches here there hw => exact fun _ => Pc.measured_of_searching there
  | hits here hw mem key =>
    intro hpa
    have hh := h.entries _ mem (key.trans hpa)
    rw [hh.size]
    exact .cached (hpa ▸ hh.mimeType) hh.contentType
  | missing | refused => exact fun _ => .notFound
  | opens named =>
    intro hpa
    rw [hpa] at named
    exact named
  | notModified responds => exact fun _ => .notModified responds
  | measures reads =>
    intro hpa
    have hin : (s.shared.disk p).inode = some _ := hpc hpa
    rw [hpa] at reads
    simp [Pc.Measured, File.size, File.current, hin, reads]
  | acquires wants free => exact fun hpa => ⟨hpc hpa, Nat.zero_le _, .inr wants⟩
  | buffers small => exact fun hpa => ⟨hpc hpa, Nat.zero_le _, .inl small⟩
  | streams large busy =>
    intro hpa
    have hsize : (s.shared.disk p).size = some _ := hpc hpa
    rw [hsize]
    refine .streamed fun start stop hpl => ?_
    by_contra he
    rw [Bool.not_eq_false] at he
    have hwa := wantsOffDisk_of_encodes large he
    have hn := hp _ _ _ rfl hpa hwa (busy hwa)
    rw [hpl] at hn
    cases hn
  | reads file =>
    intro hpa
    obtain ⟨hsize, hle, hwhy⟩ := hpc hpa
    refine ⟨hsize, ?_, hwhy⟩
    simp only [List.length_append, List.length_take]
    omega
  | hasRead => exact hpc
  | truncated =>
    intro hpa
    obtain ⟨hsize, hle, hwhy⟩ := hpc hpa
    rw [hsize]
    exact .truncated hle hwhy
  | @inserts modified contents permit e entry =>
    intro hpa
    obtain ⟨hsize, -, -⟩ := hpc hpa
    have hu : Unmixed (host.encodes request e.bytes.length)
        (host.finish request (host.respondEntry request e t.time)) :=
      .entry (by rw [entry]; rfl) (by rw [entry]; rfl)
    have hb : e.bytes = contents := by rw [entry]; rfl
    rw [hb] at hu
    rw [hsize]
    exact hu

theorem Unmixed.readOn {encodes : Bool} {answer : Answer} {r : Reading} {chunk : Nat}
    (h : Unmixed encodes answer.response) :
    Unmixed encodes (Host.readOn f answer r chunk).response := by
  unfold Host.readOn
  dsimp only
  split
  · exact h
  · exact ⟨h.encoded, h.sliced⟩

theorem inv_start (disk : Bytes → File) : Inv host p (start disk) where
  file := trivial
  entries := fun _ he => absurd he List.not_mem_nil
  ops := fun _ => trivial

theorem inv_rules (host : Host) (p : Bytes) : Rules host p (Holds host p) (Op.Agrees host p) where
  like := Holds.like
  inserts := fun hp h => ⟨hp ▸ rfl, rfl, (h hp).1⟩
  begins := fun _ => trivial
  fails := fun _ => .internalServerError
  reads := fun _ _ h hp => (h hp).readOn
  drops := id

/-- **Every such move keeps the answers unmixed.** -/
theorem Inv.step {m : Move} (h : Inv host p s) (hf : m.touches p = false)
    (hp : host.streamsPart p m s = false) (hs : host.step m s = some s') : Inv host p s' := by
  refine Tracks.step h (inv_rules host p) ?_ ?_ hs
  · intro i t request pc next shared hm hop hacts
    have hpc : (Op.running request pc).Agrees host p (s.shared.disk p) := hop ▸ h.ops i
    refine h.agrees_acts hacts hpc fun inode size modified hpc hpa hw hn => ?_
    simpa [Host.streamsPart, hm, hop, hpc, hpa, hw, hn] using hp
  · intro f hw
    cases m with
    | write path v inPlace | unlink path =>
      cases hw
      simp [Move.touches] at hf
    | _ => cases hw

end Steps

/-- **Encoded responses and ranges.**  In every run that leaves a file as it is and streams no
part of it to a client whose request found no permit free to compress it: a client that was sent
an encoded 200 for the file is never sent an identity 206 for it, whatever else the two requests
ask for. -/
theorem encoded_never_sliced (host : Host) (disk : Bytes → File) (p : Bytes) (moves : List Move)
    (s : System) (hfixed : ∀ m ∈ moves, m.touches p = false)
    (hpermit : Runs.Along host.step (fun m s => host.streamsPart p m s = false) moves (start disk))
    (hrun : Runs.run host.step moves (start disk) = some s) : ∀ i j request request' answer answer',
      s.ops i = .answered request answer → s.ops j = .answered request' answer' →
      request.path = p → request'.path = p →
      request.headers.acceptEncoding = request'.headers.acceptEncoding →
      answer.response.status = 200 → answer.response.contentEncoding.isSome = true →
        ¬(answer'.response.status = 206 ∧ answer'.response.contentEncoding = none) := by
  have hinv : Inv host p s := by
    refine Runs.run_invariant_along ?_ (inv_start disk) (hpermit.and_forall hfixed) hrun
    exact fun m s s' h hok hs => h.step hok.1 hok.2 hs
  rintro i j request request' answer answer' hi hj hp hp' ha - he ⟨hsl, -⟩
  have hu : (Op.answered request answer).Agrees host p (s.shared.disk p) := hi ▸ hinv.ops i
  have hu' : (Op.answered request' answer').Agrees host p (s.shared.disk p) := hj ▸ hinv.ops j
  have hsa : host.encodes request = host.encodes request' := by
    funext size
    simp only [Host.encodes, Host.coding, Host.variesByEncoding, ha, hp, hp']
  have hen := (hu hp).encoded he
  rw [hsa, (hu' hp').sliced hsl] at hen
  cases hen

/-! ## A site with one kind of file -/

/-- Every path holds the same style sheet, and every encoder shortens it. -/
def css : Host where
  dates := { parse := fun _ => none, format := fun _ => [] }
  mimeGuess := fun _ => str "text/css"
  compress := fun _ _ _ => some (str "encoded")
  levels := { brotli := 5, gzip := 6, zstd := 6 }
  cacheControl := none
  revalidateTtl := none

/-- A site of one version under every path. -/
def sheets (v : Version) (_ : Bytes) : File := File.missing.replace v

/-- A client that accepts brotli asks for the sheet. -/
def sheet (range : List Bytes) : Request where
  path := str "/app.css"
  method := .get
  headers :=
    { range
      ifRange := none
      ifNoneMatch := none
      ifModifiedSince := none
      acceptEncoding := [str "br"] }

def unhindered (size : Nat) : Tick where
  now := 0
  time := 0
  allowed := true
  chunk := size
  scheduled := false

def answeredBoth (s : System) : Bool :=
  match s.ops 0, s.ops 1 with
  | .answered request answer, .answered request' _ =>
    request = sheet [] && request' = sheet [str "bytes=0-9"] && answer.response.status = 200 &&
      answer.response.contentEncoding.isSome
  | _, _ => false

/-- A small sheet is read, cached and encoded; the range of the second request is
not honoured. -/
def smallSheet : List Move :=
  served 0 (sheet []) (unhindered 300) 7 ++
    served 1 (sheet [str "bytes=0-9"]) (unhindered 300) 1

theorem encoded_never_sliced_smallSheet :
    ∃ s answer answer', Runs.run css.step smallSheet (start (sheets ⟨.replicate 300 120, 0⟩)) =
        some s ∧ s.ops 0 = .answered (sheet []) answer ∧
      s.ops 1 = .answered (sheet [str "bytes=0-9"]) answer' ∧
      answer.response.contentEncoding.isSome = true ∧
      ¬(answer'.response.status = 206 ∧ answer'.response.contentEncoding = none) := by
  have hany : (Runs.run css.step smallSheet (start (sheets ⟨.replicate 300 120, 0⟩))).any
      answeredBoth = true := by decide +kernel
  obtain ⟨s, hrun, hb⟩ := (Option.any_eq_true _ _).mp hany
  unfold answeredBoth at hb
  split at hb
  · next request answer request' answer' hi hj =>
    simp only [Bool.and_eq_true, decide_eq_true_eq] at hb
    obtain ⟨⟨⟨rfl, rfl⟩, hs⟩, he⟩ := hb
    refine ⟨s, answer, answer', hrun, hi, hj, he, ?_⟩
    exact encoded_never_sliced css _ (str "/app.css") smallSheet s (by decide)
      (by decide +kernel) hrun 0 1 _ _ answer answer' hi hj rfl rfl rfl hs he
  · cases hb

/-! ## No permit free -/

section NoPermit

variable {v : Version}

/-- The whole sheet, encoded. -/
def encodedSheet (v : Version) : Answer where
  response := css.finish (sheet [])
    (css.respondEntry (sheet []) (css.contentEntry (sheet []) v.bytes v.modified 0) 0)
  rest := none
  permit := true

/-- Its first ten bytes, as they are. -/
def streamedSheet (v : Version) : Answer :=
  let request := sheet [str "bytes=0-9"]
  let out := css.respondStreamed request 0 v.bytes.length v.modified 0
  { response := css.finish request out.1, rest := out.2, permit := false }

def idle (v : Version) (permits : Nat) : Shared :=
  { disk := sheets v, content := .empty, permits, jobs := [] }

/-- The first `k` requests have been answered with the whole sheet. -/
def answeredOps (v : Version) (k i : Nat) : Op :=
  if i < k then .answered (sheet []) (encodedSheet v) else .unborn

/-- The first `k` requests hold their permits. -/
def downloading (v : Version) (k : Nat) : System where
  shared := idle v (maxOffDiskCompressions - k)
  ops := answeredOps v k

theorem downloading_zero : downloading v 0 = start (sheets v) := by
  have hops : answeredOps v 0 = fun _ => .unborn := funext fun i => by simp [answeredOps]
  simp [downloading, start, idle, hops]

section Run

variable {host : Host} {ops : Nat → Op} {i : Nat} {t : Tick} {request : Request} {pc pc' : Pc}
  {answer : Answer} {shared shared' : Shared} {moves : List Move}

theorem run_request (h : ops i = .unborn) :
    Runs.run host.step (.request i request :: moves) ⟨shared, ops⟩ =
      Runs.run host.step moves (System.setOp ⟨shared, ops⟩ i (.running request .lookup)) := by
  simp [Runs.run, Host.step, h]

theorem run_go (h : host.act request t shared pc = some (.go pc', shared')) :
    Runs.run host.step (.step i t :: moves) (System.setOp ⟨shared, ops⟩ i (.running request pc)) =
      Runs.run host.step moves (System.setOp ⟨shared', ops⟩ i (.running request pc')) := by
  simp [Runs.run, Host.step, System.setOp, h, Op.after]

theorem run_ret (h : host.act request t shared pc = some (.ret answer, shared')) :
    Runs.run host.step [.step i t] (System.setOp ⟨shared, ops⟩ i (.running request pc)) =
      some (System.setOp ⟨shared', ops⟩ i (.answered request answer)) := by
  simp [Runs.run, Host.step, System.setOp, h, Op.after]

end Run

theorem wantsOffDisk_sheet {range : List Bytes} :
    css.wantsOffDisk (sheet range) (maxCacheFileSize + 1) = true := by
  have hc : (css.coding (sheet [])).isSome = true := by decide +kernel
  have hv : css.variesByEncoding (sheet []) (maxCacheFileSize + 1) = true := by
    decide +kernel
  simp only [Host.wantsOffDisk, Nat.lt_succ_self, decide_true, Bool.true_and, Bool.and_eq_true]
  exact ⟨hc, hv⟩

section Acts

variable {t : Tick} {range : List Bytes} {n : Nat} {permit : Bool}

theorem act_lookup :
    css.act (sheet range) t (idle v n) .lookup = some (.go .openStatic, idle v n) := rfl

theorem act_openStatic :
    css.act (sheet range) t (idle v n) .openStatic = some (.go (.metadata 0), idle v n) := rfl

theorem content_sheets (path : Bytes) : (sheets v path).content 0 = v := by
  simp [sheets, File.replace, File.missing]

theorem act_metadata (ha : t.allowed = true) : css.act (sheet range) t (idle v n) (.metadata 0) =
      some (.go (.tryAcquire 0 v.bytes.length v.modified), idle v n) := by
  simp [Host.act, idle, content_sheets, ha, Host.respondNotModified, Host.tries304, css]

variable (hsize : v.bytes.length = maxCacheFileSize + 1)

include hsize

theorem act_tryAcquire :
    css.act (sheet range) t (idle v (n + 1)) (.tryAcquire 0 v.bytes.length v.modified) =
      some (.go (.readToEnd 0 v.bytes.length v.modified [] true), idle v n) := by
  simp [Host.act, hsize, wantsOffDisk_sheet, idle]

theorem act_readToEnd (hc : t.chunk = v.bytes.length) :
    css.act (sheet range) t (idle v n) (.readToEnd 0 v.bytes.length v.modified [] permit) =
      some (.go (.readToEnd 0 v.bytes.length v.modified v.bytes permit), idle v n) := by
  have hpos : v.bytes.length ≠ 0 := by omega
  have hnil : v.bytes ≠ [] := by
    intro hnil
    simp [hnil] at hpos
  simp [Host.act, idle, content_sheets, hc, hnil, hpos.symm]

omit hsize in
theorem act_hasRead :
    css.act (sheet range) t (idle v n) (.readToEnd 0 v.bytes.length v.modified v.bytes permit) =
      some (.go (.insert v.bytes.length v.modified v.bytes permit), idle v n) := by
  simp [Host.act]

theorem act_insert :
    css.act (sheet range) t (idle v n) (.insert v.bytes.length v.modified v.bytes permit) =
      some (.ret ⟨css.finish (sheet range) (css.respondEntry (sheet range)
        (css.contentEntry (sheet range) v.bytes v.modified t.now) t.time), none, permit⟩,
        idle v n) := by
  have hl : maxCacheFileSize < v.bytes.length := by omega
  simp only [Host.act, ne_eq, not_true_eq_false, if_false, ContentCache.insert,
    Host.contentEntry, hl, if_true]

/-- One more download takes one more permit. -/
theorem run_download {k : Nat} (hk : k < maxOffDiskCompressions) :
    Runs.run css.step (served k (sheet []) (unhindered v.bytes.length) 7) (downloading v k) =
      some (downloading v (k + 1)) := by
  obtain ⟨n, hn⟩ := Nat.exists_eq_add_one.mpr (Nat.sub_pos_of_lt hk)
  have hn' : maxOffDiskCompressions - (k + 1) = n := by omega
  have hu : answeredOps v k k = .unborn := by simp [answeredOps]
  simp only [downloading, served, hn, hn', List.replicate_succ, List.replicate_zero]
  rw [run_request hu, run_go act_lookup, run_go act_openStatic, run_go (act_metadata rfl),
    run_go (act_tryAcquire hsize), run_go (act_readToEnd hsize rfl), run_go act_hasRead,
    run_ret (act_insert hsize)]
  refine congrArg (fun ops => some (⟨idle v n, ops⟩ : System)) (funext fun i => ?_)
  by_cases hi : i = k
  · subst hi
    simp [answeredOps, encodedSheet, unhindered]
  · have hlt : i < k + 1 ↔ i < k := by omega
    simp [answeredOps, hi, hlt]

/-- Sixteen downloads take all permits. -/
theorem run_downloads (k : Nat) (hk : k ≤ maxOffDiskCompressions) : Runs.run css.step
      ((List.range k).flatMap fun i => served i (sheet []) (unhindered v.bytes.length) 7)
      (downloading v 0) = some (downloading v k) := by
  induction k with
  | zero => rfl
  | succ k ih =>
    rw [List.range_succ, List.flatMap_append, List.flatMap_singleton, Runs.run_append,
      ih (by omega), Option.bind_some, run_download hsize (by omega)]

theorem act_tryAcquire_busy (ht : t.time = 0) :
    css.act (sheet [str "bytes=0-9"]) t (idle v 0) (.tryAcquire 0 v.bytes.length v.modified) =
      some (.ret (streamedSheet v), idle v 0) := by
  have hl : ¬v.bytes.length ≤ maxCacheFileSize := by omega
  simp [Host.act, idle, hl, ht, streamedSheet]

/-- The next request streams its part. -/
theorem run_part :
    Runs.run css.step (served 16 (sheet [str "bytes=0-9"]) (unhindered v.bytes.length) 4)
        (downloading v 16) = some (System.setOp (downloading v 16) 16
        (.answered (sheet [str "bytes=0-9"]) (streamedSheet v))) := by
  have hu : answeredOps v 16 16 = .unborn := by simp [answeredOps]
  simp only [downloading, served, List.replicate_succ, List.replicate_zero]
  rw [run_request hu, run_go act_lookup, run_go act_openStatic, run_go (act_metadata rfl)]
  exact run_ret (act_tryAcquire_busy hsize rfl)

theorem encodedSheet_encoded : (encodedSheet v).response.status = 200 ∧
      (encodedSheet v).response.contentEncoding.isSome = true := by
  have hr : css.allowRanges (sheet []) (str "text/css") (maxCacheFileSize + 1) = false := by
    decide +kernel
  have ha : (Acceptable.fromHeaders (sheet []).headers.acceptEncoding
      css.levels).perRequest = some .br := by decide +kernel
  have htype : isCompressible (str "text/css") = true := by decide +kernel
  have hw : inWindow (maxCacheFileSize + 1) = true := by decide
  have he : css.respondEntry (sheet []) (css.contentEntry (sheet []) v.bytes v.modified 0) 0 =
      css.respondPlan v.bytes (css.contentHeaders (sheet []) v.bytes.length v.modified)
        (str "text/css") false .full := by
    simp only [Host.respondEntry, Host.contentEntry, Host.respondBytes, hsize]
    rw [show css.mimeGuess (sheet []).path = str "text/css" from rfl, hr]
    rfl
  constructor
  · simp only [encodedSheet, status_finish, he]
    rfl
  · simp only [encodedSheet, he, Host.finish, ha, contentEncoding_markVariesByEncoding]
    simp [maybeCompress, Host.respondPlan, Host.contentHeaders, ContentHeaders.new, addCacheHeaders,
      css, htype, hsize, hw, markEncoded]

theorem streamedSheet_sliced : (streamedSheet v).response.status = 206 ∧
      (streamedSheet v).response.contentEncoding = none := by
  have ht : toStr (str "bytes=0-9") = some (str "bytes=0-9") := by decide
  have hr : parseRange (str "bytes=0-9") (maxCacheFileSize + 1) = some (.part 0 9) := by
    decide +kernel
  have hp : ∀ etag, planRange css.dates (sheet [str "bytes=0-9"]).method
      (sheet [str "bytes=0-9"]).headers (maxCacheFileSize + 1) etag v.modified 0 = .part 0 9 := by
    intro etag
    simp [planRange, sheet, ht, ifRangeMatches, hr]
  simp only [streamedSheet, Host.respondStreamed, hsize, hp]
  rw [finish_of_206 rfl]
  exact ⟨rfl, rfl⟩

end Acts

end NoPermit

def largeSheet : Version where
  bytes := .replicate (maxCacheFileSize + 1) 120
  modified := 0

/-- Sixteen downloads hold the permits; the seventeenth request asks for a range. -/
def noPermitLeft : List Move :=
  ((List.range 16).flatMap fun i =>
      served i (sheet []) (unhindered largeSheet.bytes.length) 7) ++
    served 16 (sheet [str "bytes=0-9"]) (unhindered largeSheet.bytes.length) 4

theorem touches_served {p : Bytes} {i n : Nat} {request : Request} {t : Tick} :
    ∀ m ∈ served i request t n, m.touches p = false := by
  intro m hm
  rcases mem_served hm with rfl | rfl <;> rfl

/-- A client that has been sent the encoded sheet is sent an identity part of it,
the file being what it was, when other downloads hold the permits. -/
theorem noPermitLeft_sliced : (∀ m ∈ noPermitLeft, m.touches (str "/app.css") = false) ∧
      ∃ s answer answer', Runs.run css.step noPermitLeft (start (sheets largeSheet)) = some s ∧
        s.ops 0 = .answered (sheet []) answer ∧
        s.ops 16 = .answered (sheet [str "bytes=0-9"]) answer' ∧
        answer.response.status = 200 ∧ answer.response.contentEncoding.isSome = true ∧
        answer'.response.status = 206 ∧ answer'.response.contentEncoding = none := by
  have hsize : largeSheet.bytes.length = maxCacheFileSize + 1 := List.length_replicate
  refine ⟨?_, ?_⟩
  · intro m hm
    rcases List.mem_append.mp hm with hm | hm
    · obtain ⟨i, -, hm⟩ := List.mem_flatMap.mp hm
      exact touches_served m hm
    · exact touches_served m hm
  · have hrun : Runs.run css.step noPermitLeft (start (sheets largeSheet)) =
        some (System.setOp (downloading largeSheet 16) 16
          (.answered (sheet [str "bytes=0-9"]) (streamedSheet largeSheet))) := by
      rw [← downloading_zero, noPermitLeft, Runs.run_append,
        run_downloads hsize 16 (Nat.le_refl 16), Option.bind_some, run_part hsize]
    refine ⟨_, encodedSheet largeSheet, streamedSheet largeSheet, hrun, ?_, ?_, ?_⟩
    · simp [System.setOp, downloading, answeredOps]
    · simp [System.setOp]
    obtain ⟨hs, he⟩ := encodedSheet_encoded hsize
    exact ⟨hs, he, streamedSheet_sliced hsize⟩

end OxPhp.Server.Static
