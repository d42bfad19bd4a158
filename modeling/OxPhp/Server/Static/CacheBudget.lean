import OxPhp.Server.Static.Respond

/-!
# The budget of the content cache

Every way the content cache changes, as a sequence of holds of its lock, and
what each of them takes off the running total.
-/

namespace OxPhp.Server.Static

open ByteStr

/-- What a lookup asked to be built is built later, if at all. -/
structure Caching where
  content : ContentCache
  wanted : List ArtifactWanted

/-- One hold of the lock.  A `claim` moves the entry to the front and may reopen
its window; an `evict` is for the modification that was found gone from disk. -/
inductive CacheOp where
  | insert (e : ContentEntry)
  | lookup (key : Bytes) (coding : Option Coding)
  | claim (key : Bytes) (now : Nat)
  | evict (key : Bytes) (modified : SystemTime)
  | build (w : ArtifactWanted)

/-- The bytes of an insert are those of its key and modification time. -/
def CacheOp.Reads (bytesOf : Bytes → SystemTime → Bytes) : CacheOp → Prop
  | .insert e => e.bytes = bytesOf e.key e.modified
  | _ => True

/-- Each time an eviction takes from the total: the total and what is taken. -/
def takenWhileFull (needed : Nat) : List ContentEntry → Nat → List (Nat × Nat)
  | [], _ => []
  | e :: rest, total =>
    if maxCacheTotalBytes < total + needed then
      (total, e.footprint) :: takenWhileFull needed rest (total - e.footprint)
    else []

namespace ContentCache

variable (c : ContentCache)

/-- What making room takes. -/
def takenForRoom (needed : Nat) : List (Nat × Nat) :=
  takenWhileFull needed c.entries.reverse c.totalBytes

/-- What a removal takes. -/
def takenByPop (key : Bytes) : List (Nat × Nat) :=
  ((c.peek key).map fun e => (c.totalBytes, e.footprint)).toList

end ContentCache

namespace Caching

variable (compress : Coding → Bytes → Option Bytes)

/-- An empty cache, and nothing to be built. -/
def empty : Caching := ⟨.empty, []⟩

/-- One hold of the lock. -/
def step (s : Caching) : CacheOp → Caching
  | .insert e => { s with content := s.content.insert { e with artifacts := fun _ => .absent } }
  | .lookup key coding =>
    match s.content.peek key with
    | none => s
    | some e =>
      let absent := coding.filter fun coding => e.artifacts coding = .absent
      { s with wanted := (absent.map (⟨key, ·, e.bytes, e.modified⟩)).toList ++ s.wanted }
  | .claim key now =>
    { s with content := s.content.promote key fun e => { e with lastChecked := now } }
  | .evict key modified =>
    if (s.content.peek key).any (·.modified = modified) then
      { s with content := s.content.pop key }
    else s
  | .build w =>
    if s.wanted.contains w then
      match compress w.coding w.bytes with
      | some artifact =>
        { s with content := s.content.insertArtifact w.key w.coding w.modified artifact }
      | none => { s with content := s.content.rejectArtifact w.key w.coding w.modified }
    else s

/-- The cache after some operations. -/
def run (ops : List CacheOp) : Caching := ops.foldl (step compress) empty

/-- What an operation takes off the total, and from how much. -/
def taken (s : Caching) : CacheOp → List (Nat × Nat)
  | .insert e =>
    if maxCacheFileSize < e.bytes.length then []
    else s.content.takenForRoom e.bytes.length ++
      (s.content.makeRoom e.bytes.length).takenByPop e.key
  | .evict key modified =>
    if (s.content.peek key).any (·.modified = modified) then s.content.takenByPop key else []
  | .build w =>
    if s.wanted.contains w && (s.content.peek w.key).any (·.lacksArtifact w.coding w.modified) then
      match compress w.coding w.bytes with
      | some artifact => (s.content.promote w.key id).takenForRoom artifact.length
      | none => []
    else []
  | .lookup _ _ | .claim _ _ => []

end Caching

/-! ## The total -/

/-- What a list of entries takes up. -/
def footprints (l : List ContentEntry) : Nat := (l.map ContentEntry.footprint).sum

theorem footprints_append (l l' : List ContentEntry) :
    footprints (l ++ l') = footprints l + footprints l' := by
  rw [footprints, List.map_append, List.sum_append]
  rfl

theorem footprints_cons (e : ContentEntry) (l : List ContentEntry) :
    footprints (e :: l) = e.footprint + footprints l := by
  rw [footprints, List.map_cons, List.sum_cons]
  rfl

theorem footprints_reverse (l : List ContentEntry) : footprints l.reverse = footprints l := by
  rw [footprints, List.map_reverse, List.sum_reverse]
  rfl

/-- An artifact adds its length. -/
theorem ContentEntry.footprint_ready {e : ContentEntry} {coding : Coding}
    (h : e.artifacts coding = .absent) (artifact : Bytes) :
    (e.setArtifact coding (.ready artifact)).footprint = e.footprint + artifact.length := by
  cases coding <;> simp [footprint, setArtifact, Coding.all, Function.update, h] <;> omega

theorem ContentEntry.footprint_rejected {e : ContentEntry} {coding : Coding}
    (h : e.artifacts coding = .absent) :
    (e.setArtifact coding .rejected).footprint = e.footprint := by
  cases coding <;> simp [footprint, setArtifact, Coding.all, Function.update, h]

/-- Evictions keep the total right, and stop when there is room or nothing left. -/
theorem popWhileFull_total (needed : Nat) (l : List ContentEntry) :
    (popWhileFull needed l (footprints l)).2 = footprints (popWhileFull needed l (footprints l)).1 ∧
    ((popWhileFull needed l (footprints l)).1 = [] ∨
      (popWhileFull needed l (footprints l)).2 + needed ≤ maxCacheTotalBytes) ∧
    (popWhileFull needed l (footprints l)).2 ≤ footprints l ∧
    ∀ p ∈ takenWhileFull needed l (footprints l), p.2 ≤ p.1 := by
  induction l with
  | nil => simp [popWhileFull, takenWhileFull, footprints]
  | cons e l ih =>
    have hl : footprints (e :: l) - e.footprint = footprints l := by
      rw [footprints_cons]
      omega
    unfold popWhileFull takenWhileFull
    split
    · rw [hl]
      obtain ⟨ht, hr, hle, hta⟩ := ih
      refine ⟨ht, hr, ?_, List.forall_mem_cons.mpr ⟨?_, hta⟩⟩
      · omega
      · dsimp only
        rw [footprints_cons]
        omega
    · next hf => exact ⟨rfl, .inr (by omega), le_rfl, by simp⟩

namespace ContentCache

/-- The total is what the entries take up, and within the budget. -/
structure Accounted (c : ContentCache) : Prop where
  nodup : (c.entries.map ContentEntry.key).Nodup
  total : c.totalBytes = footprints c.entries
  le : c.totalBytes ≤ maxCacheTotalBytes

theorem accounted_empty : empty.Accounted := ⟨List.nodup_nil, rfl, Nat.zero_le _⟩

namespace Accounted

variable {c : ContentCache} {key : Bytes} {e : ContentEntry}

/-- The total is an entry and the others. -/
theorem erase (h : c.Accounted) (he : c.peek key = some e) :
    c.totalBytes = e.footprint + footprints (Keyed.erase ContentEntry.key c.entries key) ∧
      ((e :: Keyed.erase ContentEntry.key c.entries key).map ContentEntry.key).Nodup := by
  obtain ⟨before, after, hs⟩ := Keyed.exists_split h.nodup he
  have hn := h.nodup
  rw [hs.eq, List.map_append, List.map_cons] at hn
  rw [hs.erase_eq, h.total, hs.eq, footprints_append, footprints_cons, footprints_append]
  refine ⟨by omega, ?_⟩
  rw [List.map_cons, List.map_append]
  exact List.nodup_middle.mp hn

/-- Room is made by evicting, down to the empty cache. -/
theorem makeRoom (h : c.Accounted) (needed : Nat) : (c.makeRoom needed).Accounted ∧
    ((c.makeRoom needed).entries = [] ∨
      (c.makeRoom needed).totalBytes + needed ≤ maxCacheTotalBytes) ∧
    ∀ p ∈ c.takenForRoom needed, p.2 ≤ p.1 := by
  have hp := popWhileFull_total needed c.entries.reverse
  rw [footprints_reverse, ← h.total] at hp
  obtain ⟨ht, hr, hle, hta⟩ := hp
  refine ⟨⟨h.nodup.sublist ((c.makeRoom_sublist needed).map _), ?_, hle.trans h.le⟩, ?_, hta⟩
  · exact ht.trans (footprints_reverse _).symm
  · exact hr.imp_left List.reverse_eq_nil_iff.mpr

/-- A removal takes off what the entry takes up. -/
theorem pop (h : c.Accounted) (key : Bytes) :
    (c.pop key).Accounted ∧ (c.pop key).totalBytes ≤ c.totalBytes ∧
      (∀ e ∈ (c.pop key).entries, e.key ≠ key) ∧ ∀ p ∈ c.takenByPop key, p.2 ≤ p.1 := by
  unfold ContentCache.pop takenByPop
  cases hp : c.peek key with
  | none =>
    refine ⟨h, le_rfl, fun e he heq => ?_, by simp⟩
    exact of_decide_eq_false (by simpa using List.find?_eq_none.mp hp e he) heq
  | some e =>
    obtain ⟨ht, hn⟩ := h.erase hp
    have hle := h.le
    refine ⟨⟨(List.nodup_cons.mp hn).2, ?_, ?_⟩, Nat.sub_le .., ?_, ?_⟩
    · dsimp only
      omega
    · dsimp only
      omega
    · exact fun e he => of_decide_eq_true (List.mem_filter.mp he).2
    · simp [ht]

/-- Moving an entry to the front changes no total. -/
theorem promote (h : c.Accounted) {f : ContentEntry → ContentEntry} (hk : ∀ e, (f e).key = e.key)
    (hf : ∀ e, c.peek key = some e → (f e).footprint = e.footprint) :
    (c.promote key f).Accounted := by
  unfold ContentCache.promote
  cases hp : c.peek key with
  | none => exact h
  | some e =>
    obtain ⟨ht, hn⟩ := h.erase hp
    refine ⟨?_, ?_, h.le⟩
    · rw [List.map_cons, hk]
      exact hn
    · rw [footprints_cons, hf e hp]
      exact ht

/-- A file within the limit fits once room is made. -/
theorem insert (h : c.Accounted) (e : ContentEntry) (ha : ∀ coding, e.artifacts coding = .absent) :
    (c.insert e).Accounted := by
  unfold ContentCache.insert
  split
  · exact h
  · next hs =>
    obtain ⟨hr, hf, -⟩ := h.makeRoom e.bytes.length
    obtain ⟨hpop, hle, hne, -⟩ := hr.pop e.key
    have hfo : e.footprint = e.bytes.length := by
      simp [ContentEntry.footprint, Coding.all, ha]
    refine ⟨?_, ?_, ?_⟩
    · refine List.nodup_cons.mpr ⟨fun hm => ?_, hpop.nodup⟩
      obtain ⟨e', he', hk⟩ := List.mem_map.mp hm
      exact hne e' he' hk
    · rw [footprints_cons, ← hpop.total, hfo, Nat.add_comm]
    · rcases hf with hnil | hf
      · have ht := hr.total
        rw [hnil] at ht
        simp only [footprints, List.map_nil, List.sum_nil, maxCacheFileSize, maxCacheTotalBytes]
          at ht hs ⊢
        omega
      · dsimp only
        omega

/-- Making room behind the entry leaves it as it was, if at all. -/
theorem of_peek_room (h : c.Accounted) {P : ContentEntry → Bool} {n : Nat}
    (hany : (c.peek key).any P = true) (he : ((c.promote key id).makeRoom n).peek key = some e) :
    e ∈ c.entries ∧ e.key = key ∧ P e = true := by
  obtain ⟨e₀, hp, hP⟩ := (Option.any_eq_true _ _).mp hany
  obtain ⟨hm, hk⟩ := mem_of_peek he
  obtain ⟨hm₀, hk₀⟩ := mem_of_peek hp
  have hmem : e ∈ c.entries := by
    have hpr := ((c.promote key id).makeRoom_sublist n).subset hm
    rw [ContentCache.promote, hp] at hpr
    rcases List.mem_cons.mp hpr with rfl | hpr
    · exact hm₀
    · exact List.mem_of_mem_filter hpr
  obtain rfl := List.inj_on_of_nodup_map h.nodup hmem hm₀ (hk.trans hk₀.symm)
  exact ⟨hmem, hk, hP⟩

/-- An artifact is counted only if its entry survived making room for it. -/
theorem insertArtifact (h : c.Accounted) (key : Bytes) (coding : Coding) (modified : SystemTime)
    (artifact : Bytes) : (c.insertArtifact key coding modified artifact).Accounted := by
  have hp : (c.promote key id).Accounted := h.promote (fun _ => rfl) fun _ _ => rfl
  unfold ContentCache.insertArtifact
  dsimp only
  split
  · next hany =>
    obtain ⟨hr, hf, -⟩ := hp.makeRoom artifact.length
    split
    · exact hr
    · next e he =>
      obtain ⟨-, -, hl⟩ := h.of_peek_room hany he
      have ha := of_decide_eq_true (Bool.and_eq_true_iff.mp hl).2
      obtain ⟨ht, hn⟩ := hr.erase he
      rw [ContentCache.promote, he]
      refine ⟨hn, ?_, ?_⟩
      · rw [footprints_cons, ContentEntry.footprint_ready ha]
        dsimp only
        omega
      · refine hf.resolve_left fun hnil => ?_
        rw [peek, hnil] at he
        cases he
  · exact hp

end Accounted

theorem of_mem_promote {c : ContentCache} {key : Bytes} {f : ContentEntry → ContentEntry}
    {e : ContentEntry} (h : e ∈ (c.promote key f).entries) :
    e ∈ c.entries ∨ ∃ e₀ ∈ c.entries, e₀.key = key ∧ e = f e₀ := by
  unfold promote at h
  split at h
  · exact .inl h
  · next e₀ hp =>
    obtain ⟨hm, hk⟩ := mem_of_peek hp
    rcases List.mem_cons.mp h with rfl | h
    · exact .inr ⟨e₀, hm, hk, rfl⟩
    · exact .inl (List.mem_of_mem_filter h)

theorem Accounted.of_mem_insertArtifact {c : ContentCache} {key artifact : Bytes} {coding : Coding}
    {modified : SystemTime} {e : ContentEntry} (h : c.Accounted)
    (he : e ∈ (c.insertArtifact key coding modified artifact).entries) :
    e ∈ c.entries ∨ ∃ e₀ ∈ c.entries, e₀.key = key ∧ e₀.modified = modified ∧
      e = e₀.setArtifact coding (.ready artifact) := by
  have hpr {e : ContentEntry} (he : e ∈ (c.promote key id).entries) : e ∈ c.entries := by
    rcases of_mem_promote he with he | ⟨e₀, he, -, rfl⟩
    · exact he
    · exact he
  unfold ContentCache.insertArtifact at he
  dsimp only at he
  split at he
  · next hany =>
    have hr := ((c.promote key id).makeRoom_sublist artifact.length).subset
    split at he
    · exact .inl (hpr (hr he))
    · next e₁ hp =>
      obtain ⟨hm, hk, hl⟩ := h.of_peek_room hany hp
      rw [ContentCache.promote, hp] at he
      rcases List.mem_cons.mp he with rfl | he
      · exact .inr ⟨e₁, hm, hk, of_decide_eq_true (Bool.and_eq_true_iff.mp hl).1, rfl⟩
      · exact .inl (hpr (hr (List.mem_of_mem_filter he)))
  · exact .inl (hpr he)

end ContentCache

namespace Caching

open ContentCache

variable {compress : Coding → Bytes → Option Bytes} {s : Caching}

/-- Every operation keeps the total right, and takes no more than there is. -/
theorem accounted_step (h : s.content.Accounted) (op : CacheOp) :
    (s.step compress op).content.Accounted ∧ ∀ p ∈ s.taken compress op, p.2 ≤ p.1 := by
  cases op with
  | insert e =>
    refine ⟨h.insert _ fun _ => rfl, ?_⟩
    dsimp only [taken]
    split
    · simp
    · obtain ⟨hr, -, ht⟩ := h.makeRoom e.bytes.length
      exact List.forall_mem_append.mpr ⟨ht, (hr.pop e.key).2.2.2⟩
  | lookup key coding =>
    refine ⟨?_, by simp [taken]⟩
    dsimp only [step]
    split <;> exact h
  | claim key now => exact ⟨h.promote (fun _ => rfl) fun _ _ => rfl, by simp [taken]⟩
  | evict key modified =>
    dsimp only [step, taken]
    obtain ⟨hpop, -, -, ht⟩ := h.pop key
    split
    · exact ⟨hpop, ht⟩
    · exact ⟨h, by simp⟩
  | build w =>
    constructor
    · dsimp only [step]
      split
      · split
        · exact h.insertArtifact ..
        · refine h.promote (fun e => ?_) fun e _ => ?_
          · split <;> rfl
          · split
            · next hl =>
              exact e.footprint_rejected (of_decide_eq_true (Bool.and_eq_true_iff.mp hl).2)
            · rfl
      · exact h
    · dsimp only [taken]
      split
      · split
        · exact ((h.promote (fun _ => rfl) fun _ _ => rfl).makeRoom _).2.2
        · simp
      · simp

/-! What `taken` lists is what a step takes. -/

/-- The amounts are taken one after the other, each from what the one before left. -/
def Drawn : Nat → List (Nat × Nat) → Nat → Prop
  | total, [], left => total = left
  | total, p :: rest, left => p.1 = total ∧ Drawn (total - p.2) rest left

theorem Drawn.append {total mid left : Nat} {l l' : List (Nat × Nat)} (h : Drawn total l mid)
    (h' : Drawn mid l' left) : Drawn total (l ++ l') left := by
  induction l generalizing total with
  | nil => exact (show total = mid from h) ▸ h'
  | cons p l ih => exact ⟨h.1, ih h.2⟩

theorem drawn_whileFull (needed : Nat) (l : List ContentEntry) (total : Nat) :
    Drawn total (takenWhileFull needed l total) (popWhileFull needed l total).2 := by
  induction l generalizing total with
  | nil => rfl
  | cons e l ih =>
    unfold takenWhileFull popWhileFull
    split
    · exact ⟨rfl, ih _⟩
    · rfl

theorem drawn_makeRoom (c : ContentCache) (needed : Nat) :
    Drawn c.totalBytes (c.takenForRoom needed) (c.makeRoom needed).totalBytes :=
  drawn_whileFull ..

theorem drawn_pop (c : ContentCache) (key : Bytes) :
    Drawn c.totalBytes (c.takenByPop key) (c.pop key).totalBytes := by
  unfold takenByPop ContentCache.pop
  split
  · next hp =>
    rw [hp]
    rfl
  · next e hp =>
    rw [hp]
    exact ⟨rfl, rfl⟩

theorem totalBytes_promote (c : ContentCache) (key : Bytes) (f : ContentEntry → ContentEntry) :
    (c.promote key f).totalBytes = c.totalBytes := by
  unfold ContentCache.promote
  split <;> rfl

/-- What an operation puts on the total. -/
def put (compress : Coding → Bytes → Option Bytes) (s : Caching) : CacheOp → Nat
  | .insert e => if maxCacheFileSize < e.bytes.length then 0 else e.bytes.length
  | .build w =>
    if s.wanted.contains w && (s.content.peek w.key).any (·.lacksArtifact w.coding w.modified) then
      match compress w.coding w.bytes with
      | some artifact =>
        if (((s.content.promote w.key id).makeRoom artifact.length).peek w.key).isSome then
          artifact.length
        else 0
      | none => 0
    else 0
  | _ => 0

/-- **The total moves by what is taken and what is put.** -/
theorem total_step (s : Caching) (op : CacheOp) : ∃ left,
    Drawn s.content.totalBytes (s.taken compress op) left ∧
      (s.step compress op).content.totalBytes = left + s.put compress op := by
  cases op with
  | insert e =>
    dsimp only [step, taken, put, ContentCache.insert]
    split
    · exact ⟨_, rfl, rfl⟩
    · exact ⟨_, (drawn_makeRoom _ _).append (drawn_pop _ _), rfl⟩
  | lookup key coding =>
    refine ⟨_, rfl, ?_⟩
    dsimp only [step, put]
    split <;> rfl
  | claim key now => exact ⟨_, rfl, totalBytes_promote ..⟩
  | evict key modified =>
    dsimp only [step, taken, put]
    split
    · exact ⟨_, drawn_pop _ _, rfl⟩
    · exact ⟨_, rfl, rfl⟩
  | build w =>
    cases hw : s.wanted.contains w <;> cases hc : compress w.coding w.bytes <;>
      cases ha : (s.content.peek w.key).any (·.lacksArtifact w.coding w.modified) <;>
      simp only [step, taken, put, hw, hc, ha, Bool.false_and, Bool.true_and, Bool.false_eq_true,
        if_true, if_false, rejectArtifact, insertArtifact, totalBytes_promote]
    case true.some.true artifact =>
      have hd := drawn_makeRoom (s.content.promote w.key id) artifact.length
      rw [totalBytes_promote] at hd
      refine ⟨_, hd, ?_⟩
      split
      · next hn => rw [hn]; rfl
      · next e he => rw [he]; rfl
    all_goals exact ⟨_, rfl, rfl⟩

/-- The entry's bytes go by key and modification time, and its artifacts with
them. -/
structure Paired (compress : Coding → Bytes → Option Bytes) (bytesOf : Bytes → SystemTime → Bytes)
    (e : ContentEntry) : Prop where
  bytes : e.bytes = bytesOf e.key e.modified
  ready : ∀ coding artifact, e.artifacts coding = .ready artifact →
    compress coding e.bytes = some artifact

/-- Every entry is paired, and so is what is to be built. -/
structure AllPaired (compress : Coding → Bytes → Option Bytes)
    (bytesOf : Bytes → SystemTime → Bytes) (s : Caching) : Prop where
  accounted : s.content.Accounted
  entries : ∀ e ∈ s.content.entries, Paired compress bytesOf e
  wanted : ∀ w ∈ s.wanted, w.bytes = bytesOf w.key w.modified

variable {bytesOf : Bytes → SystemTime → Bytes}

theorem Paired.setArtifact {e : ContentEntry} (h : Paired compress bytesOf e) {coding : Coding}
    {state : ArtifactState}
    (hs : ∀ artifact, state = .ready artifact → compress coding e.bytes = some artifact) :
    Paired compress bytesOf (e.setArtifact coding state) := by
  refine ⟨h.bytes, fun coding' artifact hr => ?_⟩
  by_cases heq : coding' = coding
  · rw [heq] at hr ⊢
    exact hs artifact ((Function.update_self ..).symm.trans hr)
  · exact h.ready coding' artifact ((Function.update_of_ne heq ..).symm.trans hr)

/-- Every operation keeps bytes and artifacts together. -/
theorem AllPaired.step (h : AllPaired compress bytesOf s) {op : CacheOp} (hop : op.Reads bytesOf) :
    AllPaired compress bytesOf (s.step compress op) := by
  have ha : (s.step compress op).content.Accounted := (accounted_step h.accounted op).1
  cases op with
  | insert e =>
    refine ⟨ha, fun e' he' => ?_, h.wanted⟩
    rcases of_mem_insert he' with he' | ⟨rfl, -⟩
    · exact h.entries e' he'
    · exact ⟨hop, fun _ _ hr => by cases hr⟩
  | lookup key coding =>
    dsimp only [Caching.step] at ha ⊢
    split at ha
    · exact h
    · next e hp =>
      obtain ⟨hm, rfl⟩ := mem_of_peek hp
      refine ⟨ha, h.entries, List.forall_mem_append.mpr ⟨fun w hw => ?_, h.wanted⟩⟩
      obtain ⟨coding, -, rfl⟩ := Option.map_eq_some_iff.mp (Option.mem_toList.mp hw)
      exact (h.entries e hm).bytes
  | claim key now =>
    refine ⟨ha, fun e' he' => ?_, h.wanted⟩
    rcases of_mem_promote he' with he' | ⟨e, he, -, rfl⟩
    · exact h.entries e' he'
    · exact ⟨(h.entries e he).bytes, (h.entries e he).ready⟩
  | evict key modified =>
    dsimp only [Caching.step] at ha ⊢
    split
    · next hany =>
      rw [if_pos hany] at ha
      exact ⟨ha, fun e he => h.entries e (mem_of_pop he), h.wanted⟩
    · exact h
  | build w =>
    dsimp only [Caching.step] at ha ⊢
    split
    · next hw =>
      have hb := h.wanted w (List.contains_iff_mem.mp hw)
      rw [if_pos hw] at ha
      split at ha
      · next artifact hc =>
        refine ⟨ha, fun e' he' => ?_, h.wanted⟩
        rcases h.accounted.of_mem_insertArtifact he' with he' | ⟨e, he, hk, hmod, rfl⟩
        · exact h.entries e' he'
        · refine (h.entries e he).setArtifact fun a heq => ?_
          cases heq
          rw [(h.entries e he).bytes, hk, hmod, ← hb]
          exact hc
      · refine ⟨ha, fun e' he' => ?_, h.wanted⟩
        rcases of_mem_promote he' with he' | ⟨e, he, -, rfl⟩
        · exact h.entries e' he'
        · split
          · exact (h.entries e he).setArtifact fun a heq => by cases heq
          · exact h.entries e he
    · exact h

theorem accounted_run (ops : List CacheOp) : (run compress ops).content.Accounted :=
  List.foldlRecOn (motive := fun s : Caching => s.content.Accounted) ops _ accounted_empty
    fun _ h op _ => (accounted_step h op).1

theorem allPaired_run {ops : List CacheOp} (hops : ∀ op ∈ ops, op.Reads bytesOf) :
    AllPaired compress bytesOf (run compress ops) := by
  refine List.foldlRecOn ops _ ?_ fun s h op hop => h.step (hops op hop)
  exact ⟨accounted_empty, by simp [empty, ContentCache.empty], by simp [empty]⟩

/-- **The cache keeps its books.** After any operations the total is what the
live entries take up and within the budget, no operation takes more off it than
there is, and where key and modification time tell the bytes, a ready artifact is
compressed from the bytes it stands with. -/
theorem cache_keeps_books (compress : Coding → Bytes → Option Bytes) (ops : List CacheOp) :
    (run compress ops).content.totalBytes = footprints (run compress ops).content.entries ∧
    (run compress ops).content.totalBytes ≤ maxCacheTotalBytes ∧
    (∀ op, ∀ p ∈ (run compress ops).taken compress op, p.2 ≤ p.1) ∧
    ∀ bytesOf : Bytes → SystemTime → Bytes, (∀ op ∈ ops, op.Reads bytesOf) →
      ∀ e ∈ (run compress ops).content.entries, ∀ coding artifact,
        e.artifacts coding = .ready artifact → compress coding e.bytes = some artifact := by
  have ha : (run compress ops).content.Accounted := accounted_run ops
  refine ⟨ha.total, ha.le, fun op => (accounted_step ha op).2, fun bytesOf hops e he => ?_⟩
  exact ((allPaired_run hops).entries e he).ready

/-- A file that is inserted, looked up and compressed to its first byte. -/
def firstByteBuilt : List CacheOp :=
  [.insert ⟨str "/a", str "aa", [], 0, [], .new [] 2 [] [], 0, fun _ => .absent⟩,
    .lookup (str "/a") (some .gzip), .build ⟨str "/a", .gzip, str "aa", 0⟩]

theorem cache_keeps_books_firstByte :
    ((run (fun _ b => some (b.take 1)) firstByteBuilt).content.entries.map fun e =>
      e.artifacts .gzip) = [.ready (str "a")] ∧
    ∀ e ∈ (run (fun _ b => some (b.take 1)) firstByteBuilt).content.entries, ∀ coding artifact,
      e.artifacts coding = .ready artifact → some (e.bytes.take 1) = some artifact :=
  ⟨by decide, (cache_keeps_books (fun _ b => some (b.take 1)) firstByteBuilt).2.2.2
    (fun _ _ => str "aa") (by simp [firstByteBuilt, CacheOp.Reads])⟩

end Caching

end OxPhp.Server.Static
