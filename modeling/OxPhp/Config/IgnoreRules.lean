import OxPhp.Lib.ByteStr

/-!
# Gitignore-style rule lists

The matching half of `config/ignore_rules.rs`: the rules of one file in source
order, the last matching rule of a path, and the walk over a path's ancestors
that asks which rule excludes each of them.  A compiled glob is an arbitrary
predicate on texts.
-/

namespace OxPhp.Config

open ByteStr

/-! ## Letters read as ASCII -/

/-- The characters of a UTF-8 text, each as the bytes that encode it: a lead
byte takes the continuation bytes after it. -/
def chars : Bytes → List Bytes
  | [] => []
  | b :: rest =>
    match chars rest with
    | [] => [[b]]
    | c :: cs =>
      if c.head?.any (fun x => 0x80 ≤ x && x ≤ 0xBF) then (b :: c) :: cs else [b] :: c :: cs

/-- The ASCII a case-insensitive filesystem reads a character as, for the
letters outside ASCII that it reads so. -/
def asciiForm (c : Bytes) : Option Bytes :=
  if c = str "\u017f" then some (str "s")
  else if c = str "\u00df" ∨ c = str "\u1e9e" then some (str "ss")
  else if c = str "\u037e" then some (str ";")
  else if c = str "\u1fef" then some (str "\x60")
  else if c = str "\u212a" then some (str "k")
  else if c = str "\ufb00" then some (str "ff")
  else if c = str "\ufb01" then some (str "fi")
  else if c = str "\ufb02" then some (str "fl")
  else if c = str "\ufb03" then some (str "ffi")
  else if c = str "\ufb04" then some (str "ffl")
  else if c = str "\ufb05" ∨ c = str "\ufb06" then some (str "st")
  else none

/-- A text with every letter `asciiForm` knows replaced, or `none` when it has
no such letter. -/
def fold (s : Bytes) : Option Bytes :=
  if (chars s).any (fun c => (asciiForm c).isSome) then
    some ((chars s).flatMap fun c => (asciiForm c).getD c)
  else none

example : fold (str "stra\u00dfe") = some (str "strasse") := by decide

/-! ## Rules -/

abbrev GlobSet := Bytes → Bool

structure Rule (A : Type) where
  line : Nat
  original : Bytes
  glob : Bytes
  action : A
  negated : Bool
  dirOnly : Bool
  matcher : GlobSet
  folded : Option GlobSet
  nameOnly : Bool

structure RuleSet (A : Type) where
  rules : List (Rule A)

/-- A path as rules meet it: whole, and its last segment alone. -/
structure Target where
  path : Bytes
  name : Bytes

def Target.new (path : Bytes) : Target where
  path := path
  name := match rsplitOnce slash path with
    | some (_, name) => name
    | none => path

namespace Rule

variable {A : Type}

/-- The rule's glob against a target, or against its last segment alone. -/
def meets (rule : Rule A) (set : GlobSet) (target : Target) : Bool :=
  set (if rule.nameOnly then target.name else target.path)

/-- Whether the rule matches `path` or, an excluding rule, `folded`. -/
def matchesTarget (rule : Rule A) (path : Target) (folded : Option Target) : Bool :=
  if rule.meets rule.matcher path then true
  else if rule.negated || (rule.folded.isNone && folded.isNone) then false
  else rule.meets (rule.folded.getD rule.matcher) (folded.getD path)

end Rule

/-- The text before each `/` of a path, top-down. -/
def ancestors : Bytes → List Bytes
  | [] => []
  | b :: rest =>
    let below := (ancestors rest).map (b :: ·)
    if b = slash then [] :: below else below

namespace RuleSet

variable {A : Type}

/-- The last rule matching `path`, directory-only rules skipped for a path that
is not a directory. -/
def lastMatch (set : RuleSet A) (path : Target) (folded : Option Target) (isDir : Bool) :
    Option (Rule A) :=
  (set.rules.reverse.filter fun rule => isDir || !rule.dirOnly).find?
    fun rule => rule.matchesTarget path folded

def excludedBy (set : RuleSet A) (path : Bytes) (isDir : Bool) : Option (Rule A) :=
  (set.lastMatch (Target.new path) ((fold path).map Target.new) isDir).filter (!·.negated)

/-- The rules that exclude the ancestors of `path`, top-down: each ancestor is
judged as a directory and then, when `asFile` holds for it, as a file. -/
def ancestorRules (set : RuleSet A) (path : Bytes) (asFile : Bytes → Bool) : List (Rule A) :=
  (ancestors path).flatMap fun ancestor =>
    (set.excludedBy ancestor true).toList ++
      if asFile ancestor then (set.excludedBy ancestor false).toList else []

/-- Run `f` over the rules that exclude the ancestors of `path` until it
breaks, which is an error here. -/
def excludedAncestors {B S : Type} (set : RuleSet A) (path : Bytes) (asFile : Bytes → Bool)
    (f : S → Rule A → Except B S) (init : S) : Except B S :=
  if set.rules.isEmpty then .ok init
  else (set.ancestorRules path asFile).foldlM f init

/-- The rule that excludes `path` itself, its ancestors aside. -/
def matchedLast (set : RuleSet A) (path : Bytes) (isDir : Bool) : Option (Rule A) :=
  if path.isEmpty || set.rules.isEmpty then none else set.excludedBy path isDir

end RuleSet

/-! ## Ancestors -/

theorem ancestors_append (s t : Bytes) :
    ancestors (s ++ t) = ancestors s ++ (ancestors t).map (s ++ ·) := by
  induction s with
  | nil => simp [ancestors]
  | cons b s ih =>
    simp only [List.cons_append, ancestors, ih, List.map_append, List.map_map]
    split <;> simp [Function.comp_def]

theorem ancestors_append_slash (s t : Bytes) : ancestors (s ++ slash :: t) =
      ancestors s ++ s :: (ancestors t).map (fun a => s ++ slash :: a) := by
  rw [ancestors_append]
  simp [ancestors, Function.comp_def]

theorem mem_ancestors_iff {a path : Bytes} :
    a ∈ ancestors path ↔ ∃ rest, path = a ++ slash :: rest := by
  constructor
  · intro h
    induction path generalizing a with
    | nil => cases h
    | cons b path ih =>
      have hbe : a ∈ (ancestors path).map (b :: ·) → ∃ rest, b :: path = a ++ slash :: rest := by
        intro hmem
        obtain ⟨a', ha', rfl⟩ := List.mem_map.mp hmem
        obtain ⟨rest, hr⟩ := ih ha'
        exact ⟨rest, by simp [hr]⟩
      simp only [ancestors] at h
      split at h
      · next hb =>
        rcases List.mem_cons.mp h with rfl | h
        · exact ⟨path, by simp [hb]⟩
        · exact hbe h
      · exact hbe h
  · rintro ⟨rest, rfl⟩
    rw [ancestors_append_slash]
    simp

namespace RuleSet

variable {A : Type} {set : RuleSet A} {path : Bytes} {isDir : Bool} {rule : Rule A}

theorem excludedBy_mem
    (h : set.excludedBy path isDir = some rule) : rule ∈ set.rules ∧ rule.negated = false := by
  simp only [excludedBy, Option.filter_eq_some_iff, Bool.not_eq_true'] at h
  have hmem := List.mem_of_find?_eq_some h.1
  exact ⟨List.mem_reverse.mp (List.mem_of_mem_filter hmem), h.2⟩

theorem matchedLast_eq_some (h : set.matchedLast path isDir = some rule) :
    path ≠ [] ∧ set.rules ≠ [] ∧ set.excludedBy path isDir = some rule := by
  unfold matchedLast at h
  split at h
  · cases h
  · next hne =>
    simp only [Bool.or_eq_true, List.isEmpty_iff, not_or] at hne
    exact ⟨hne.1, hne.2, h⟩

theorem mem_ancestorRules {asFile : Bytes → Bool} :
    rule ∈ set.ancestorRules path asFile ↔ ∃ a ∈ ancestors path, set.excludedBy a true = some rule ∨
        asFile a = true ∧ set.excludedBy a false = some rule := by
  simp only [ancestorRules, List.mem_flatMap, List.mem_append, Option.mem_toList]
  refine exists_congr fun a => and_congr_right fun _ => or_congr Iff.rfl ?_
  split <;> simp [*]

theorem ancestorRules_of_isEmpty (h : set.rules = []) (path : Bytes)
    (asFile : Bytes → Bool) : set.ancestorRules path asFile = [] := by
  refine List.eq_nil_iff_forall_not_mem.mpr fun rule hr => ?_
  obtain ⟨a, -, hex | ⟨-, hex⟩⟩ := mem_ancestorRules.mp hr <;>
    simpa [h] using (excludedBy_mem hex).1

theorem excludedAncestors_eq {B S : Type} (set : RuleSet A) (path : Bytes)
    (asFile : Bytes → Bool) (f : S → Rule A → Except B S) (init : S) :
    set.excludedAncestors path asFile f init = (set.ancestorRules path asFile).foldlM f init := by
  unfold excludedAncestors
  split
  · next he =>
    rw [ancestorRules_of_isEmpty (List.isEmpty_iff.mp he)]
    rfl
  · rfl

end RuleSet

end OxPhp.Config
