import OxPhp.Lib.ByteStr

/-!
# Unix paths

Lexical paths: joining, components, prefixes and file names, without looking
at a file system.  Two spellings of one path (`a//b`, `a/./b`) have the same
components, and the prefix tests compare components.
-/

namespace UnixPath

open ByteStr

inductive Component where
  | rootDir
  | curDir
  | parentDir
  | normal (name : Bytes)
  deriving DecidableEq

def isAbsolute (path : Bytes) : Bool := startsWithByte slash path

/-- `base` extended by `rel`; an absolute `rel` replaces it. -/
def join (base rel : Bytes) : Bytes :=
  if isAbsolute rel then rel
  else if base = [] ∨ endsWithByte slash base then base ++ rel
  else base ++ slash :: rel

/-- A component that a path keeps: empty ones and `.` name nothing. -/
def namesSomething (seg : Bytes) : Bool := seg != [] && seg != [dot]

def ofSegment (seg : Bytes) : Component :=
  if seg = [dot, dot] then .parentDir else .normal seg

def bodyComponents (path : Bytes) : List Component :=
  ((segments path).filter namesSomething).map ofSegment

def components (path : Bytes) : List Component :=
  if isAbsolute path then .rootDir :: bodyComponents path
  else if (segments path).head? = some [dot] then .curDir :: bodyComponents path
  else bodyComponents path

def Component.text : Component → Bytes
  | .rootDir => []
  | .curDir => [dot]
  | .parentDir => [dot, dot]
  | .normal name => name

def ofComponents : List Component → Bytes
  | [.rootDir] => [slash]
  | cs => joinSegments (cs.map Component.text)

/-- `path` relative to `base`, when `base` is an ancestor or the path itself. -/
def stripPrefix (path base : Bytes) : Option Bytes :=
  ((components path).dropPrefix? (components base)).map ofComponents

def startsWith (path base : Bytes) : Bool := (components base).isPrefixOf (components path)

def samePath (path other : Bytes) : Bool := components path == components other

def fileName (path : Bytes) : Option Bytes :=
  match (components path).getLast? with
  | some (.normal name) => some name
  | _ => none

/-- What follows the last `.` of the file name; a leading `.` starts no
extension. -/
def extension (path : Bytes) : Option Bytes :=
  match fileName path with
  | none => none
  | some name =>
    match rsplitOnce dot name with
    | some ([], _) => none
    | some (_, ext) => some ext
    | none => none

/-! ## Joining a relative path -/

/-- A list of components that spells itself: nothing to drop, no separator
inside. -/
structure Plain (segs : List Bytes) : Prop where
  ne_nil : segs ≠ []
  named : ∀ seg ∈ segs, namesSomething seg = true
  slash_free : ∀ seg ∈ segs, slash ∉ seg

namespace Plain

variable {segs : List Bytes}

theorem segments_join (h : Plain segs) : segments (joinSegments segs) = segs :=
  segments_joinSegments h.slash_free h.ne_nil

theorem append {others : List Bytes} (h : Plain segs) (ho : Plain others) :
    Plain (segs ++ others) where
  ne_nil := by simp [h.ne_nil]
  named seg hseg := (List.mem_append.mp hseg).elim (h.named seg) (ho.named seg)
  slash_free seg hseg := (List.mem_append.mp hseg).elim (h.slash_free seg) (ho.slash_free seg)

theorem singleton {seg : Bytes} (hn : namesSomething seg = true) (hs : slash ∉ seg) :
    Plain [seg] where
  ne_nil := by simp
  named := by simpa using hn
  slash_free := by simpa using hs

theorem bodyComponents_join (h : Plain segs) :
    bodyComponents (joinSegments segs) = segs.map ofSegment := by
  rw [bodyComponents, h.segments_join, List.filter_eq_self.mpr h.named]

theorem head_ne (h : Plain segs) : (segments (joinSegments segs)).head? ≠ some [dot] := by
  rw [h.segments_join]
  intro hh
  have hmem : [dot] ∈ segs := List.mem_of_mem_head? hh
  exact absurd (h.named _ hmem) (by decide)

theorem isAbsolute_join (h : Plain segs) : isAbsolute (joinSegments segs) = false := by
  obtain ⟨seg, rest, rfl⟩ := List.exists_cons_of_ne_nil h.ne_nil
  have hn := h.named seg (by simp)
  have hs := h.slash_free seg (by simp)
  cases seg with
  | nil => exact absurd hn (by decide)
  | cons b seg =>
    have hb : b ≠ slash := fun hb => hs (by simp [hb])
    cases rest with
    | nil => simpa [isAbsolute, startsWithByte, joinSegments] using hb
    | cons next rest =>
      rw [joinSegments_cons_cons]
      simpa [isAbsolute, startsWithByte] using hb

end Plain

theorem text_ofSegment (seg : Bytes) : (ofSegment seg).text = seg := by
  unfold ofSegment
  split
  · next hseg => rw [hseg]; rfl
  · rfl

theorem ofSegment_ne_rootDir (seg : Bytes) : ofSegment seg ≠ .rootDir := by
  unfold ofSegment
  split <;> simp

theorem ofComponents_map_ofSegment (segs : List Bytes) :
    ofComponents (segs.map ofSegment) = joinSegments segs := by
  have hmap : (segs.map ofSegment).map Component.text = segs := by
    rw [List.map_map]
    exact (List.map_congr_left fun seg _ => text_ofSegment seg).trans (List.map_id segs)
  unfold ofComponents
  split
  · next hr =>
    cases segs with
    | nil => cases hr
    | cons seg segs => exact absurd (List.cons.inj hr).1 (ofSegment_ne_rootDir seg)
  · rw [hmap]

theorem bodyComponents_nil : bodyComponents [] = [] := by decide

theorem bodyComponents_append_slash (base rel : Bytes) :
    bodyComponents (base ++ slash :: rel) = bodyComponents base ++ bodyComponents rel := by
  simp [bodyComponents, segments_append_slash]

theorem components_append_slash {base : Bytes} (hne : base ≠ []) (rel : Bytes) :
    components (base ++ slash :: rel) = components base ++ bodyComponents rel := by
  have habs : isAbsolute (base ++ slash :: rel) = isAbsolute base := by
    obtain ⟨b, base, rfl⟩ := List.exists_cons_of_ne_nil hne
    rfl
  have hh : (segments (base ++ slash :: rel)).head? = (segments base).head? := by
    rw [segments_append_slash, List.head?_append_of_ne_nil _ (segments_ne_nil base)]
  unfold components
  rw [habs, hh, bodyComponents_append_slash]
  split
  · rfl
  · split <;> rfl

variable {segs : List Bytes} {path name rel : Bytes}

/-- **Joining appends components**, whichever way the base is spelled. -/
theorem components_join (base : Bytes) (h : Plain segs) :
    components (join base (joinSegments segs)) = components base ++ segs.map ofSegment := by
  rw [← h.bodyComponents_join]
  have hrel : components (joinSegments segs) = bodyComponents (joinSegments segs) := by
    rw [components, h.isAbsolute_join, if_neg (by simp), if_neg h.head_ne]
  unfold join
  rw [h.isAbsolute_join, if_neg (by simp)]
  split
  · next hbase =>
    rcases hbase with rfl | hend
    · have hnil : components [] = [] := by decide
      rw [hnil, List.nil_append, List.nil_append, hrel]
    · -- the base ends in a separator, which names no component of its own
      obtain ⟨stem, rfl⟩ : ∃ stem, base = stem ++ [slash] :=
        List.getLast?_eq_some_iff.mp (beq_iff_eq.mp hend)
      rw [List.append_assoc, List.singleton_append]
      by_cases hs : stem = []
      · subst hs
        have hr : components [slash] = [.rootDir] := by decide
        rw [List.nil_append, List.nil_append, hr]
        have hb := bodyComponents_append_slash [] (joinSegments segs)
        rw [List.nil_append, bodyComponents_nil, List.nil_append] at hb
        simp [components, isAbsolute, startsWithByte, hb]
      · rw [components_append_slash hs, components_append_slash hs]
        rw [bodyComponents_nil, List.append_nil]
  · next hbase =>
    exact components_append_slash (fun hnil => hbase (.inl hnil)) _

theorem stripPrefix_join (base : Bytes) (h : Plain segs) :
    stripPrefix (join base (joinSegments segs)) base = some (joinSegments segs) := by
  rw [stripPrefix, components_join base h]
  have hd : (components base ++ segs.map ofSegment).dropPrefix? (components base) =
      some (segs.map ofSegment) := by
    simp [List.dropPrefix?_eq_some_iff]
  rw [hd, Option.map_some, ofComponents_map_ofSegment]

/-! ## Names -/

theorem fileName_eq_some (h : fileName path = some name) :
    name ∈ segments path ∧ namesSomething name = true ∧ name ≠ [dot, dot] := by
  unfold fileName at h
  split at h
  · next last hlast =>
    cases h
    have hmem : Component.normal name ∈ components path := List.mem_of_getLast? hlast
    have hb : Component.normal name ∈ bodyComponents path := by
      unfold components at hmem
      split at hmem
      · simpa using hmem
      · split at hmem
        · simpa using hmem
        · exact hmem
    obtain ⟨seg, hseg, heq⟩ := List.mem_map.mp hb
    unfold ofSegment at heq
    split at heq
    · cases heq
    · next hne =>
      cases heq
      exact ⟨List.mem_of_mem_filter hseg, List.of_mem_filter hseg, hne⟩
  · cases h

theorem fileName_join (base : Bytes) {init : List Bytes} {last : Bytes}
    (h : Plain (init ++ [last])) (hp : last ≠ [dot, dot]) :
    fileName (join base (joinSegments (init ++ [last]))) = some last := by
  have hlast : ofSegment last = .normal last := by rw [ofSegment, if_neg hp]
  unfold fileName
  rw [components_join base h, List.map_append, ← List.append_assoc, List.map_singleton,
    List.getLast?_concat, hlast]

theorem fileName_join_name (base : Bytes) (h : Plain [name])
    (hp : name ≠ [dot, dot]) : fileName (join base name) = some name := by
  have hn := @fileName_join base [] name h hp
  rwa [List.nil_append, joinSegments_singleton] at hn

theorem extension_eq_some {ext : Bytes} (h : extension path = some ext) :
    ∃ name stem, fileName path = some name ∧ rsplitOnce dot name = some (stem, ext) := by
  unfold extension at h
  split at h
  · cases h
  · next name hn =>
    split at h
    · cases h
    · next stem ext' _ hsplit =>
      cases h
      exact ⟨name, stem, hn, hsplit⟩
    · cases h

/-! ## Joining twice -/

theorem Plain.getLast_ne (h : Plain segs) : endsWithByte slash (joinSegments segs) = false := by
  obtain ⟨init, last, rfl⟩ := List.eq_nil_or_concat segs |>.resolve_left h.ne_nil
  have hn := h.named last (by simp)
  have hs := h.slash_free last (by simp)
  have hne : last ≠ [] := by
    rintro rfl
    cases hn
  have hj : ∃ before, joinSegments (init ++ [last]) = before ++ last := by
    by_cases hin : init = []
    · exact ⟨[], by simp [hin, joinSegments]⟩
    · exact ⟨joinSegments init ++ [slash], by
        rw [joinSegments_append hin (by simp)]
        simp [joinSegments]⟩
  obtain ⟨before, hb⟩ := hj
  rw [List.concat_eq_append, hb, endsWithByte, List.getLast?_append_of_ne_nil _ hne,
    beq_eq_false_iff_ne]
  intro hlast
  exact hs (List.mem_of_getLast? hlast)

theorem join_ne_nil (base : Bytes) (hne : rel ≠ []) : join base rel ≠ [] := by
  unfold join
  split
  · exact hne
  · split <;> simp [hne]

theorem endsWithByte_join (base : Bytes) (hne : rel ≠ []) (b : UInt8) :
    endsWithByte b (join base rel) = endsWithByte b rel := by
  unfold join
  split
  · rfl
  · split
    · simp [endsWithByte, List.getLast?_append_of_ne_nil _ hne]
    · simp [endsWithByte, List.getLast?_append_of_ne_nil _ (List.cons_ne_nil _ _),
        List.getLast?_cons_of_ne_nil hne]

theorem join_of_relative (base : Bytes) (h : isAbsolute rel = false) : join base rel =
      (if base = [] ∨ endsWithByte slash base then base else base ++ [slash]) ++ rel := by
  unfold join
  rw [h, if_neg (by simp)]
  split <;> simp

theorem join_join (base : Bytes) (h : Plain segs) (hn : Plain [name]) :
    join (join base (joinSegments segs)) name = join base (joinSegments (segs ++ [name])) := by
  have hrel : joinSegments segs ≠ [] := by
    intro hnil
    have hs := h.segments_join
    rw [hnil] at hs
    have hmem : [] ∈ segs := by rw [← hs]; simp [segments]
    exact absurd (h.named [] hmem) (by decide)
  have hj : joinSegments (segs ++ [name]) = joinSegments segs ++ slash :: name := by
    rw [joinSegments_append h.ne_nil (by simp)]
    simp [joinSegments]
  have habs : isAbsolute name = false := by simpa [joinSegments] using hn.isAbsolute_join
  have habs' : isAbsolute (joinSegments segs ++ slash :: name) = false := by
    rw [← hj]
    exact (h.append hn).isAbsolute_join
  have hend : endsWithByte slash (join base (joinSegments segs)) = false := by
    rw [endsWithByte_join base hrel, h.getLast_ne]
  rw [join_of_relative _ habs, if_neg (by simp [join_ne_nil base hrel, hend]), hj,
    join_of_relative base h.isAbsolute_join, join_of_relative base habs']
  simp

end UnixPath
