import Mathlib.Data.List.Infix
import OxPhp.Lib.Trim
import OxPhp.Server.Message

/-!
# Plugin cookies

`plugin/cookies.rs`: the field lines of the `Cookie` header are joined into one, each
plugin is shown the cookies whose names start with `__oxp_`, its own name and `_`, and
every cookie that starts with `__oxp_` is taken out before PHP sees the header.
-/

namespace OxPhp.Plugin

open ByteStr

/-! ## Field values -/

def isFieldByte (b : UInt8) : Bool := (32 ≤ b && b != 127) || b == 9

structure HeaderValue where
  bytes : Bytes
  valid : bytes.all isFieldByte = true

namespace HeaderValue

def fromBytes (s : Bytes) : Option HeaderValue :=
  if h : s.all isFieldByte = true then some ⟨s, h⟩ else none

def toStr (v : HeaderValue) : Option Bytes := Server.toStr v.bytes

end HeaderValue

abbrev semicolon : UInt8 := 59
abbrev equals : UInt8 := 61

/-! ## The functions

The `Cookie` field lines of a request are the list of their values. -/

def joinCookieFieldLines : List HeaderValue → List HeaderValue
  | first :: second :: rest =>
    let joined := (second :: rest).foldl (fun joined line => joined ++ str "; " ++ line.bytes)
      first.bytes
    (HeaderValue.fromBytes joined).toList
  | lines => lines

def cookiePrefix (name : Bytes) : Bytes := str "__oxp_" ++ name ++ str "_"

/-- One pair of the header, as the plugin with this prefix reads it. -/
def readPair (start pair : Bytes) : Option (Bytes × Bytes) := do
  let (name, value) ← splitOnce equals (trim pair)
  let stripped ← start.isPrefixOf? (trim name)
  return (stripped, trim value)

def extractPluginCookies (lines : List HeaderValue) (start : Bytes) : List (Bytes × Bytes) :=
  match lines.head?.bind HeaderValue.toStr with
  | some cookies => (cookies.splitOn semicolon).filterMap (readPair start)
  | none => []

def reserved : Bytes := str "__oxp_"

def trimStart (s : Bytes) : Bytes := s.dropWhile isAsciiWhitespace

def isReserved (pair : Bytes) : Bool := reserved.isPrefixOf (trimStart pair)

def replaceCookie (lines : List HeaderValue) (text : Bytes) : List HeaderValue :=
  match HeaderValue.fromBytes text with
  | some value => [value]
  | none => lines

def stripPluginCookies (lines : List HeaderValue) : List HeaderValue :=
  match lines.head?.bind HeaderValue.toStr with
  | none => lines
  | some cookies =>
    if cookies.tails.any reserved.isPrefixOf then
      let filtered := (cookies.splitOn semicolon).filter fun pair => !isReserved pair
      if filtered = [] then []
      else replaceCookie lines ((str "; ").intercalate (filtered.map trim))
    else lines

/-- The value PHP is handed for a header that may have several lines. -/
def headerFieldValue : List HeaderValue → Option Bytes
  | [] => none
  | first :: lines => do
    let value ← first.toStr
    lines.foldlM (fun value line => do
      let s ← line.toStr
      return value ++ str ", " ++ s) value

/-- The string of the `read_cookies` callback. -/
def cookieString (lines : List HeaderValue) : Option Bytes := lines.head?.bind HeaderValue.toStr

/-- The lines that go to the executor. -/
def forwarded (lines : List HeaderValue) : List HeaderValue :=
  stripPluginCookies (joinCookieFieldLines lines)

/-! ## Cookies of a text -/

def pairs (s : Bytes) : List Bytes := s.splitOn semicolon

/-- The name of a pair without the blanks around it; all of it if it has no `=`. -/
def cookieName (pair : Bytes) : Bytes :=
  match splitOnce equals (trim pair) with
  | some (name, _) => trim name
  | none => trim pair

theorem cookieName_cases (pair : Bytes) : (equals ∉ trim pair ∧ cookieName pair = trim pair) ∨
      ∃ name value, trim pair = name ++ equals :: value ∧ equals ∉ name ∧
        cookieName pair = trim name := by
  unfold cookieName
  rcases splitOnce_cases equals (trim pair) with ⟨hn, hsplit⟩ | ⟨name, value, heq, hna, hsplit⟩
  · exact .inl ⟨hn, by rw [hsplit]⟩
  · exact .inr ⟨name, value, heq, hna, by rw [hsplit]⟩

variable {pair name s : Bytes} {texts : List Bytes} {lines : List HeaderValue}

theorem prefix_cookieName_iff {word : Bytes} (hbl : ∀ b ∈ word, isAsciiWhitespace b = false)
    (he : equals ∉ word) : word <+: cookieName pair ↔ word <+: trimStart pair := by
  rw [trimStart, prefix_dropWhile_iff hbl]
  change _ ↔ word <+: trim pair
  rcases cookieName_cases pair with ⟨-, hn⟩ | ⟨name, value, heq, -, hn⟩
  · rw [hn]
  · have hh : ∀ b ∈ name.head?, isAsciiWhitespace b = false := by
      intro b hb
      refine (trimmed_trimMatches isAsciiWhitespace pair).head b ?_
      change b ∈ (trim pair).head?
      rw [heq, List.head?_append, Option.mem_def.mp hb]
      rfl
    have hs : ∀ b ∈ (equals :: value).head?, b ∉ word := by
      intro b hb
      cases hb
      exact he
    rw [hn, heq, prefix_append_iff hs, trim, ← prefix_dropWhile_iff hbl,
      dropWhile_of_head hh]

theorem reserved_prefix_iff : reserved <+: cookieName pair ↔ isReserved pair = true := by
  rw [prefix_cookieName_iff (by decide +kernel) (by decide +kernel), isReserved,
    List.isPrefixOf_iff_prefix]

theorem readPair_isSome_iff {start : Bytes} :
    (readPair start pair).isSome = true ↔ equals ∈ trim pair ∧ start <+: cookieName pair := by
  unfold readPair cookieName
  rcases splitOnce_cases equals (trim pair) with ⟨hn, hsplit⟩ | ⟨name, value, heq, -, hsplit⟩
  · simp [hsplit, hn]
  · have hmem : equals ∈ trim pair := by
      rw [heq]
      exact List.mem_append_right _ List.mem_cons_self
    simp only [hsplit, hmem, true_and, ← List.isPrefixOf_iff_prefix,
      ← List.isSome_isPrefixOf?_eq_isPrefixOf]
    cases hs : start.isPrefixOf? (trim name) with
    | none | some stripped => simp [hs]

theorem isReserved_of_readPair
    (h : (readPair (cookiePrefix name) pair).isSome = true) : isReserved pair = true := by
  rw [← reserved_prefix_iff]
  have hs : reserved <+: cookiePrefix name := by
    rw [cookiePrefix, List.append_assoc]
    exact List.prefix_append _ _
  exact hs.trans (readPair_isSome_iff.mp h).2

/-! ## Joining -/

theorem isFieldByte_joint : ∀ b ∈ str "; ", isFieldByte b = true := by decide +kernel

theorem isVisible_joint : ∀ b ∈ str "; ", ((32 ≤ b && b < 127) || b == 9) = true := by
  decide +kernel

theorem isFieldByte_intercalate (h : ∀ text ∈ texts, ∀ b ∈ text, isFieldByte b = true) :
    ((str "; ").intercalate texts).all isFieldByte = true := by
  refine List.all_eq_true.mpr fun b hb => ?_
  rcases mem_of_mem_intercalate hb with hb | ⟨text, ht, hb⟩
  · exact isFieldByte_joint b hb
  · exact h text ht b hb

theorem replaceCookie_eq {text : Bytes}
    (h : text.all isFieldByte = true) : replaceCookie lines text = [⟨text, h⟩] := by
  rw [replaceCookie, HeaderValue.fromBytes, dif_pos h]

theorem joinCookieFieldLines_eq (h : lines ≠ []) : ∃ value, joinCookieFieldLines lines = [value] ∧
      value.bytes = (str "; ").intercalate (lines.map HeaderValue.bytes) := by
  cases lines with
  | nil => exact absurd rfl h
  | cons first lines =>
    cases lines with
    | nil => exact ⟨first, rfl, by simp⟩
    | cons second rest =>
      have hv : ((str "; ").intercalate ((first :: second :: rest).map HeaderValue.bytes)).all
          isFieldByte = true := by
        refine isFieldByte_intercalate fun text ht b hb => ?_
        obtain ⟨line, -, rfl⟩ := List.mem_map.mp ht
        exact List.all_eq_true.mp line.valid b hb
      have hj : (second :: rest).foldl
          (fun joined line => joined ++ str "; " ++ line.bytes) first.bytes =
          (str "; ").intercalate ((first :: second :: rest).map HeaderValue.bytes) := by
        rw [List.map_cons, ← foldl_intercalate, List.foldl_map]
      refine ⟨⟨_, hv⟩, ?_, rfl⟩
      rw [joinCookieFieldLines, hj, HeaderValue.fromBytes, dif_pos hv]
      rfl

theorem pairs_cons_space (s : Bytes) : (pairs (32 :: s)).map trim = (pairs s).map trim := by
  rw [pairs, pairs, List.splitOn_cons_eq_if_modifyHead, if_neg (by decide)]
  cases s.splitOn semicolon with
  | nil => rfl
  | cons first others =>
    have hfirst : trim (32 :: first) = trim first := trimMatches_cons (by decide) first
    rw [List.modifyHead_cons, List.map_cons, List.map_cons, hfirst]

theorem pairs_intercalate (h : texts ≠ []) : (pairs ((str "; ").intercalate texts)).map trim =
      texts.flatMap fun text => (pairs text).map trim := by
  induction texts with
  | nil => exact absurd rfl h
  | cons text texts ih =>
    cases texts with
    | nil => simp
    | cons next texts =>
      have hj : (str "; ").intercalate (text :: next :: texts) =
          text ++ semicolon :: (32 :: (str "; ").intercalate (next :: texts)) := by
        rw [List.intercalate_cons_cons, List.append_assoc]
        rfl
      rw [hj, pairs, List.splitOn_append_cons_self, List.map_append, List.flatMap_cons]
      change _ ++ (pairs _).map trim = _
      rw [pairs_cons_space, ih (List.cons_ne_nil _ _)]
      rfl

/-! ## Stripping -/

section Text

variable {value : HeaderValue}

theorem toStr_eq_some : value.toStr = some s ↔ value.bytes = s ∧
    ∀ b ∈ s, ((32 ≤ b && b < 127) || b == 9) = true := by
  unfold HeaderValue.toStr Server.toStr
  split
  · next hall =>
    constructor
    · rintro ⟨⟩
      exact ⟨rfl, List.all_eq_true.mp hall⟩
    · rintro ⟨rfl, -⟩
      rfl
  · next hall =>
    constructor
    · intro h
      cases h
    · rintro ⟨rfl, hv⟩
      exact absurd (List.all_eq_true.mpr hv) hall

theorem contains_of_isReserved {pair : Bytes} (hp : pair ∈ pairs s)
    (h : isReserved pair = true) : s.tails.any reserved.isPrefixOf = true := by
  have hs : reserved <:+: trimStart pair := (List.isPrefixOf_iff_prefix.mp h).isInfix
  have hr : trimStart pair <:+: pair := (List.dropWhile_suffix _).isInfix
  have hw : reserved <:+: s := (hs.trans hr).trans (infix_of_mem_splitOn hp)
  obtain ⟨before, after, rfl⟩ := hw
  refine List.any_eq_true.mpr ⟨reserved ++ after, ?_, ?_⟩
  · rw [List.mem_tails, List.append_assoc]
    exact List.suffix_append _ _
  · exact List.isPrefixOf_iff_prefix.mpr (List.prefix_append _ _)

def cookies : Option Bytes → List Bytes
  | some s => (pairs s).map trim
  | none => []

theorem headerFieldValue_singleton (value : HeaderValue) :
    headerFieldValue [value] = value.toStr := by
  rw [headerFieldValue]
  cases value.toStr with
  | none => rfl
  | some s => rfl

def kept (s : Bytes) : List Bytes := ((pairs s).filter fun pair => !isReserved pair).map trim

theorem exists_pair_of_mem_kept {text : Bytes} (h : text ∈ kept s) :
    ∃ pair ∈ pairs s, isReserved pair = false ∧ text = trim pair := by
  obtain ⟨pair, hp, rfl⟩ := List.mem_map.mp h
  obtain ⟨hmem, hr⟩ := List.mem_filter.mp hp
  exact ⟨pair, hmem, by simpa using hr, rfl⟩

theorem mem_of_mem_kept {text : Bytes} {b : UInt8} (h : text ∈ kept s) (hb : b ∈ text) : b ∈ s := by
  obtain ⟨pair, hp, -, rfl⟩ := exists_pair_of_mem_kept h
  exact (infix_of_mem_splitOn hp).subset (mem_of_mem_trimMatches hb)

theorem pairs_kept (h : kept s ≠ []) :
    (pairs ((str "; ").intercalate (kept s))).map trim = kept s := by
  have hs : ∀ text ∈ kept s, (pairs text).map trim = [text] := by
    intro text ht
    obtain ⟨pair, hp, -, rfl⟩ := exists_pair_of_mem_kept ht
    have hno : semicolon ∉ trim pair := fun hmem =>
      not_mem_of_mem_splitOn hp (mem_of_mem_trimMatches hmem)
    rw [pairs, List.splitOn_eq_singleton hno, List.map_singleton]
    exact congrArg (fun x => [x]) (trimmed_trimMatches _ pair).trimMatches
  rw [pairs_intercalate h, List.flatMap_congr hs]
  simp

theorem cookies_strip (h : value.toStr = some s) :
    cookies (headerFieldValue (stripPluginCookies [value])) = kept s := by
  obtain ⟨rfl, hv⟩ := toStr_eq_some.mp h
  have ht : [value].head?.bind HeaderValue.toStr = some value.bytes := h
  rw [stripPluginCookies, ht]
  dsimp only
  split
  · split
    · next hn =>
      rw [kept, pairs, hn]
      rfl
    · next hs =>
      have hk : kept value.bytes ≠ [] := by
        intro hn
        exact hs (List.map_eq_nil_iff.mp hn)
      have hva : ((str "; ").intercalate (kept value.bytes)).all isFieldByte = true :=
        isFieldByte_intercalate fun text ht b hb =>
          List.all_eq_true.mp value.valid b (mem_of_mem_kept ht hb)
      have hstr : HeaderValue.toStr ⟨_, hva⟩ =
          some ((str "; ").intercalate (kept value.bytes)) := by
        refine toStr_eq_some.mpr ⟨rfl, fun b hb => ?_⟩
        rcases mem_of_mem_intercalate hb with hb | ⟨text, ht, hb⟩
        · exact isVisible_joint b hb
        · exact hv b (mem_of_mem_kept ht hb)
      change cookies (headerFieldValue (replaceCookie [value]
        ((str "; ").intercalate (kept value.bytes)))) = _
      rw [replaceCookie_eq hva, headerFieldValue_singleton, hstr]
      exact pairs_kept hk
  · next hc =>
    have hall : ∀ pair ∈ pairs value.bytes, (!isReserved pair) = true := by
      intro pair hp
      cases hr : isReserved pair with
      | false => rfl
      | true => exact absurd (contains_of_isReserved hp hr) hc
    rw [headerFieldValue_singleton, h, kept, List.filter_eq_self.mpr hall]
    rfl

end Text

/-! ## What PHP receives -/

def readable (line : HeaderValue) : Bool := line.toStr.isSome

theorem readable_iff {line : HeaderValue} : readable line = true ↔
    ∀ b ∈ line.bytes, ((32 ≤ b && b < 127) || b == 9) = true := by
  rw [readable, Option.isSome_iff_exists]
  constructor
  · rintro ⟨s, hs⟩
    obtain ⟨rfl, hv⟩ := toStr_eq_some.mp hs
    exact hv
  · intro hv
    exact ⟨line.bytes, toStr_eq_some.mpr ⟨rfl, hv⟩⟩

theorem toStr_joined {value : HeaderValue}
    (h : value.bytes = (str "; ").intercalate (lines.map HeaderValue.bytes)) :
    readable value = lines.all readable := by
  rw [Bool.eq_iff_iff, readable_iff, List.all_eq_true, h]
  constructor
  · intro hv line hl
    rw [readable_iff]
    intro b hb
    have hw := infix_intercalate (str "; ") (List.mem_map_of_mem (f := HeaderValue.bytes) hl)
    exact hv b (hw.subset hb)
  · intro hli b hb
    rcases mem_of_mem_intercalate hb with hb | ⟨text, ht, hb⟩
    · exact isVisible_joint b hb
    · obtain ⟨line, hl, rfl⟩ := List.mem_map.mp ht
      exact readable_iff.mp (hli line hl) b hb

theorem forwarded_eq (h : lines ≠ []) :
    ∃ value, value.bytes = (str "; ").intercalate (lines.map HeaderValue.bytes) ∧
      forwarded lines = stripPluginCookies [value] := by
  obtain ⟨value, hj, hb⟩ := joinCookieFieldLines_eq h
  exact ⟨value, hb, by rw [forwarded, hj]⟩

theorem length_strip_le (value : HeaderValue) : (stripPluginCookies [value]).length ≤ 1 := by
  unfold stripPluginCookies replaceCookie
  split
  · exact Nat.le_refl 1
  · split
    · dsimp only
      split
      · exact Nat.zero_le 1
      · split <;> exact Nat.le_refl 1
    · exact Nat.le_refl 1

theorem cookieString_eq (h : lines.length ≤ 1) : cookieString lines = headerFieldValue lines := by
  cases lines with
  | nil => rfl
  | cons value rest =>
    have hr : rest = [] := List.length_eq_zero_iff.mp (Nat.le_zero.mp (Nat.le_of_succ_le_succ h))
    rw [hr, headerFieldValue_singleton]
    rfl

theorem cookieString_forwarded (lines : List HeaderValue) :
    cookieString (forwarded lines) = headerFieldValue (forwarded lines) := by
  cases lines with
  | nil => rfl
  | cons first lines =>
    obtain ⟨value, -, hf⟩ := forwarded_eq (List.cons_ne_nil first lines)
    rw [hf]
    exact cookieString_eq (length_strip_le value)

theorem isReserved_eq (pair : Bytes) : isReserved pair = reserved.isPrefixOf (trim pair) := by
  rw [Bool.eq_iff_iff, isReserved, List.isPrefixOf_iff_prefix, List.isPrefixOf_iff_prefix,
    trimStart]
  exact prefix_dropWhile_iff (by decide +kernel)

theorem kept_eq (s : Bytes) :
    kept s = ((pairs s).map trim).filter fun text => !reserved.isPrefixOf text := by
  rw [kept, List.filter_map]
  congr 1
  refine List.filter_congr fun pair _ => ?_
  rw [isReserved_eq]
  rfl

theorem cookies_forwarded (h : lines.all readable = true) :
    cookies (headerFieldValue (forwarded lines)) =
      ((lines.flatMap fun line => pairs line.bytes).map trim).filter fun text =>
        !reserved.isPrefixOf text := by
  cases lines with
  | nil => rfl
  | cons first lines =>
    obtain ⟨value, hb, hf⟩ := forwarded_eq (List.cons_ne_nil first lines)
    have hr : readable value = true := (toStr_joined hb).trans h
    have hstr : value.toStr = some value.bytes :=
      toStr_eq_some.mpr ⟨rfl, readable_iff.mp hr⟩
    rw [hf, cookies_strip hstr, kept_eq, hb, pairs_intercalate (by simp),
      List.map_flatMap, List.flatMap_map]

theorem unreadable_forwarded (h : lines.all readable = false) :
    headerFieldValue (forwarded lines) = none := by
  cases lines with
  | nil => cases h
  | cons first lines =>
    obtain ⟨value, hb, hf⟩ := forwarded_eq (List.cons_ne_nil first lines)
    have hr : readable value = false := (toStr_joined hb).trans h
    have hstr : value.toStr = none := by simpa [readable] using hr
    have ht : [value].head?.bind HeaderValue.toStr = none := hstr
    rw [hf, stripPluginCookies, ht]
    exact (headerFieldValue_singleton value).trans hstr

theorem not_isReserved_of_forwarded
    (h : headerFieldValue (forwarded lines) = some s) (hp : pair ∈ pairs s) :
    isReserved pair = false := by
  have hr : lines.all readable = true := by
    cases hall : lines.all readable with
    | true => rfl
    | false =>
      rw [unreadable_forwarded hall] at h
      cases h
  have hmem : trim pair ∈ cookies (headerFieldValue (forwarded lines)) := by
    rw [h]
    exact List.mem_map_of_mem hp
  rw [cookies_forwarded hr] at hmem
  rw [isReserved_eq]
  simpa using (List.mem_filter.mp hmem).2

/-- **PHP does not see the cookies of plugins.** Of the field lines of a request PHP
receives nothing if one of them is not text; otherwise it receives the cookies of all of
them, in order, but the ones whose names start with `__oxp_`.  What any plugin reads is
among those. -/
theorem forwarded_hides_plugin_cookies (lines : List HeaderValue) :
    (lines.all readable = false → headerFieldValue (forwarded lines) = none) ∧
    (lines.all readable = true → cookies (headerFieldValue (forwarded lines)) =
      ((lines.flatMap fun line => pairs line.bytes).filter fun pair =>
        !reserved.isPrefixOf (cookieName pair)).map trim) ∧
    (∀ s, headerFieldValue (forwarded lines) = some s →
      ∀ pair ∈ pairs s, ¬reserved <+: cookieName pair) ∧
    (∀ name s pair, cookieString (joinCookieFieldLines lines) = some s → pair ∈ pairs s →
      (readPair (cookiePrefix name) pair).isSome = true → reserved <+: cookieName pair) ∧
    (∀ name, extractPluginCookies (forwarded lines) (cookiePrefix name) = []) ∧
    cookieString (forwarded lines) = headerFieldValue (forwarded lines) := by
  refine ⟨unreadable_forwarded, fun hr => ?_, fun s hs pair hp hn => ?_,
    fun name s pair _ _ hread => reserved_prefix_iff.mpr (isReserved_of_readPair hread), ?_,
    cookieString_forwarded lines⟩
  · rw [cookies_forwarded hr, List.filter_map]
    congr 1
    refine List.filter_congr fun pair _ => ?_
    change (!reserved.isPrefixOf (trim pair)) = _
    rw [← isReserved_eq]
    congr 1
    rw [Bool.eq_iff_iff, List.isPrefixOf_iff_prefix, reserved_prefix_iff]
  · rw [reserved_prefix_iff, not_isReserved_of_forwarded hs hp] at hn
    cases hn
  · intro name
    unfold extractPluginCookies
    split
    · next s hs =>
      have hs' : headerFieldValue (forwarded lines) = some s :=
        (cookieString_forwarded lines).symm.trans hs
      refine List.filterMap_eq_nil_iff.mpr fun pair hp => ?_
      by_contra hread
      have hre := isReserved_of_readPair (Option.isSome_iff_ne_none.mpr hread)
      rw [not_isReserved_of_forwarded hs' hp] at hre
      cases hre
    · rfl

def twoLines : List HeaderValue :=
  [⟨str "a=1; __oxp_x_y=2", by decide⟩, ⟨str "b=3", by decide⟩]

theorem forwarded_hides_plugin_cookies_twoLines : twoLines.all readable = true ∧
    cookies (headerFieldValue (forwarded twoLines)) = [str "a=1", str "b=3"] :=
  ⟨by decide, ((forwarded_hides_plugin_cookies twoLines).2.1 (by decide)).trans (by decide)⟩

/-! ## Namespaces -/

/-- The pairs of the header that the plugin with this name is shown. -/
def visible (name : Bytes) (lines : List HeaderValue) : List Bytes :=
  match cookieString lines with
  | some s => (pairs s).filter fun pair => (readPair (cookiePrefix name) pair).isSome
  | none => []

theorem mem_visible :
    pair ∈ visible name lines ↔ ∃ s, cookieString lines = some s ∧ pair ∈ pairs s ∧
      equals ∈ trim pair ∧ cookiePrefix name <+: cookieName pair := by
  unfold visible
  cases cookieString lines with
  | none => simp
  | some s => simp [List.mem_filter, readPair_isSome_iff]

def isNameByte (b : UInt8) : Bool :=
  ((32 ≤ b && b < 127) || b == 9) && b != semicolon && b != equals

/-- The second name goes on where the first one and `_` end, and a cookie can spell it. -/
def Extends (name longer : Bytes) : Prop :=
  name ++ str "_" <+: longer ++ str "_" ∧ longer.all isNameByte = true

theorem cookiePrefix_prefix_iff {longer : Bytes} :
    cookiePrefix name <+: cookiePrefix longer ↔ name ++ str "_" <+: longer ++ str "_" := by
  rw [cookiePrefix, cookiePrefix, List.append_assoc, List.append_assoc,
    List.prefix_append_right_inj]

theorem mem_cookieName {b : UInt8} (h : b ∈ cookieName pair)
    (hp : equals ∈ trim pair) : b ∈ pair ∧ b ≠ equals := by
  rcases cookieName_cases pair with ⟨hn, -⟩ | ⟨name, value, heq, hna, hc⟩
  · exact absurd hp hn
  · rw [hc] at h
    have hb : b ∈ name := mem_of_mem_trimMatches h
    refine ⟨mem_of_mem_trimMatches (p := isAsciiWhitespace) ?_, fun heq => hna (heq ▸ hb)⟩
    change b ∈ trim pair
    rw [heq]
    exact List.mem_append_left _ hb

theorem isVisible_of_cookieString
    (h : cookieString lines = some s) : ∀ b ∈ s, ((32 ≤ b && b < 127) || b == 9) = true := by
  obtain ⟨value, -, hv⟩ := Option.bind_eq_some_iff.mp h
  exact (toStr_eq_some.mp hv).2

theorem isNameByte_of_visible (h : pair ∈ visible name lines) : name.all isNameByte = true := by
  obtain ⟨s, hs, hp, he, hst⟩ := mem_visible.mp h
  refine List.all_eq_true.mpr fun b hb => ?_
  have hin : b ∈ cookiePrefix name := by
    rw [cookiePrefix]
    exact List.mem_append_left _ (List.mem_append_right _ hb)
  obtain ⟨hmem, hne⟩ := mem_cookieName (hst.subset hin) he
  have hv := isVisible_of_cookieString hs b ((infix_of_mem_splitOn hp).subset hmem)
  have hse : b ≠ semicolon := fun heq => not_mem_of_mem_splitOn hp (heq ▸ hmem)
  simp only [isNameByte, hv, Bool.true_and, Bool.and_eq_true, bne_iff_ne]
  exact ⟨hse, hne⟩

section Spelt

variable {longer : Bytes}

def bareCookie (name : Bytes) : Bytes := cookiePrefix name ++ [equals]

theorem trimmed_cookiePrefix (name : Bytes) : Trimmed isAsciiWhitespace (cookiePrefix name) := by
  constructor
  · rintro b ⟨⟩
    decide
  · intro b hb
    have hlast : (cookiePrefix name).getLast? = some 95 := by
      rw [cookiePrefix, List.getLast?_append]
      rfl
    rw [hlast] at hb
    cases hb
    decide

theorem trimmed_bareCookie (name : Bytes) : Trimmed isAsciiWhitespace (bareCookie name) := by
  constructor
  · rintro b ⟨⟩
    decide
  · intro b hb
    rw [bareCookie, List.getLast?_concat] at hb
    cases hb
    decide

theorem isNameByte_cookiePrefix (h : name.all isNameByte = true) :
    ∀ b ∈ cookiePrefix name, isNameByte b = true := by
  have hs : ∀ b ∈ str "__oxp_", isNameByte b = true := by decide +kernel
  have hend : ∀ b ∈ str "_", isNameByte b = true := by decide +kernel
  intro b hb
  rw [cookiePrefix, List.mem_append, List.mem_append] at hb
  rcases hb with (hb | hb) | hb
  · exact hs b hb
  · exact List.all_eq_true.mp h b hb
  · exact hend b hb

theorem isNameByte_spec {b : UInt8} (h : isNameByte b = true) :
    ((32 ≤ b && b < 127) || b == 9) = true ∧ b ≠ semicolon ∧ b ≠ equals := by
  simpa [isNameByte, and_assoc] using h

theorem cookieName_bareCookie (h : equals ∉ cookiePrefix name) :
    cookieName (bareCookie name) = cookiePrefix name := by
  have ht : trim (bareCookie name) = cookiePrefix name ++ [equals] :=
    (trimmed_bareCookie name).trimMatches
  rw [cookieName, ht, splitOnce_append h []]
  exact (trimmed_cookiePrefix name).trimMatches

theorem isFieldByte_of_isVisible {b : UInt8} (h : ((32 ≤ b && b < 127) || b == 9) = true) :
    isFieldByte b = true := by
  have hall : ∀ b : UInt8, ((32 ≤ b && b < 127) || b == 9) = true → isFieldByte b = true :=
    forall_byte (by decide +kernel)
  exact hall b h

theorem bareCookie_visible (h : longer.all isNameByte = true) :
    ∃ lines, ∀ name, cookiePrefix name <+: cookiePrefix longer →
      bareCookie longer ∈ visible name (joinCookieFieldLines lines) := by
  have hn := isNameByte_cookiePrefix h
  have he : equals ∉ cookiePrefix longer :=
    fun hmem => (isNameByte_spec (hn _ hmem)).2.2 rfl
  have hv : ∀ b ∈ bareCookie longer, ((32 ≤ b && b < 127) || b == 9) = true := by
    intro b hb
    rcases List.mem_append.mp hb with hb | hb
    · exact (isNameByte_spec (hn b hb)).1
    · cases List.mem_singleton.mp hb
      decide
  have hs : semicolon ∉ bareCookie longer := by
    intro hmem
    rcases List.mem_append.mp hmem with hmem | hmem
    · exact (isNameByte_spec (hn _ hmem)).2.1 rfl
    · cases List.mem_singleton.mp hmem
  have hva : (bareCookie longer).all isFieldByte = true :=
    List.all_eq_true.mpr fun b hb => isFieldByte_of_isVisible (hv b hb)
  have hstr : cookieString [⟨bareCookie longer, hva⟩] = some (bareCookie longer) :=
    toStr_eq_some.mpr ⟨rfl, hv⟩
  refine ⟨[⟨bareCookie longer, hva⟩], fun name hin => ?_⟩
  refine mem_visible.mpr ⟨bareCookie longer, hstr, ?_, ?_, ?_⟩
  · rw [pairs, List.splitOn_eq_singleton hs]
    exact List.mem_cons_self
  · have ht : trim (bareCookie longer) = bareCookie longer :=
      (trimmed_bareCookie longer).trimMatches
    rw [ht]
    exact List.mem_append_right _ List.mem_cons_self
  · rw [cookieName_bareCookie he]
    exact hin

end Spelt

/-- **When namespaces are disjoint.** No request has a cookie that both plugins are shown,
exactly if neither name extends the other, with `_` behind both, by something that the
name of a cookie can spell. -/
theorem visible_disjoint_iff (name other : Bytes) :
    (∀ lines pair, pair ∈ visible name (joinCookieFieldLines lines) →
      pair ∉ visible other (joinCookieFieldLines lines)) ↔
      ¬Extends name other ∧ ¬Extends other name := by
  constructor
  · intro hd
    constructor
    · rintro ⟨hin, hs⟩
      obtain ⟨lines, hl⟩ := bareCookie_visible hs
      exact hd lines _ (hl name (cookiePrefix_prefix_iff.mpr hin))
        (hl other (List.prefix_refl _))
    · rintro ⟨hin, hs⟩
      obtain ⟨lines, hl⟩ := bareCookie_visible hs
      exact hd lines _ (hl name (List.prefix_refl _))
        (hl other (cookiePrefix_prefix_iff.mpr hin))
  · rintro ⟨hn, ho⟩ lines pair hv hv'
    obtain ⟨-, -, -, -, hst⟩ := mem_visible.mp hv
    obtain ⟨-, -, -, -, hs'⟩ := mem_visible.mp hv'
    -- both prefixes start the name of the cookie
    rcases List.prefix_or_prefix_of_prefix hst hs' with hin | hin
    · exact hn ⟨cookiePrefix_prefix_iff.mp hin, isNameByte_of_visible hv'⟩
    · exact ho ⟨cookiePrefix_prefix_iff.mp hin, isNameByte_of_visible hv⟩

/-- A cookie of the plugin `a_b` is shown to the plugin `a` as well. -/
theorem visible_to_both : str "a" ≠ str "a_b" ∧
      extractPluginCookies [⟨str "__oxp_a_b_x=1", by decide⟩] (cookiePrefix (str "a_b")) =
        [(str "x", str "1")] ∧
      extractPluginCookies [⟨str "__oxp_a_b_x=1", by decide⟩] (cookiePrefix (str "a")) =
        [(str "b_x", str "1")] ∧
      ∃ lines pair, pair ∈ visible (str "a") (joinCookieFieldLines lines) ∧
        pair ∈ visible (str "a_b") (joinCookieFieldLines lines) :=
  ⟨by decide, by decide, by decide, [⟨str "__oxp_a_b_x=1", by decide⟩], str "__oxp_a_b_x=1",
    by decide, by decide⟩

end OxPhp.Plugin
