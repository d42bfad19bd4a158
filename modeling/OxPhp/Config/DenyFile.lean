import OxPhp.Config.PhpDeny

/-!
# The `.oxphpdeny` verdict

`config/deny_file.rs`: `check` judges a request path under several readings and
the stricter answer wins.  `readings` lists the rules the readings give; every
ordering fact about verdicts follows from an inclusion of readings.
-/

namespace OxPhp.Config

open ByteStr

/-- What a matched rule does with the request. -/
inductive DenyAction where
  | deny
  | entry
  deriving DecidableEq

structure DenyFile where
  rules : RuleSet DenyAction

def maxDepth : Nat := 64

def maxMatchCost : Nat := maxDepth * 2048

/-- A `>` rule in a mode with no entry script, by its line. -/
structure EntryRuleError where
  line : Nat
  original : Bytes
  deriving DecidableEq

def namesAScript (path : Bytes) : Bool := endsWithIgnoreAsciiCase (str ".php") path

namespace DenyFile

def parse (rules : RuleSet DenyAction) (mode : RoutingModeKind) :
    Except EntryRuleError DenyFile :=
  if mode = .traditional ∨ mode = .spa then
    match rules.rules.find? fun r => r.action = .entry with
    | some rule => .error { line := rule.line, original := rule.original }
    | none => .ok { rules }
  else .ok { rules }

/-- A deny on an ancestor ends the walk; the first `>` is kept. -/
def judgeAncestor (entry : Option (Rule DenyAction)) (rule : Rule DenyAction) :
    Except (Rule DenyAction) (Option (Rule DenyAction)) :=
  if rule.action = .deny then .error rule else .ok (entry.or (some rule))

/-- Below a `>` directory a deny still wins; failing one, the `>` decides. -/
def judgePath (entry asDir asFile : Option (Rule DenyAction)) : Option (Rule DenyAction) :=
  let deny := fun (r : Rule DenyAction) => decide (r.action = .deny)
  ((((asDir.filter deny).or (asFile.filter deny)).or entry).or asDir).or asFile

/-- The rule that applies to `path`, if any. `isDir`: the request URI ended
with `/`. `pathInfo`: routing may run a `.php` segment of `path` as the
script. -/
def check (file : DenyFile) (path : Bytes) (isDir pathInfo : Bool) :
    Option (Rule DenyAction) :=
  let script := fun ancestor => pathInfo && namesAScript ancestor
  match file.rules.excludedAncestors path script judgeAncestor none with
  | .error denied => some denied
  | .ok entry =>
    let asFile := file.rules.matchedLast path false
    let asDir := if isDir then file.rules.matchedLast path true else none
    judgePath entry asDir asFile

def tooCostly (_file : DenyFile) (path : Bytes) : Bool :=
  let slashes := path.count slash
  slashes ≥ maxDepth || (slashes + 1) * path.length > maxMatchCost

def excludesAnything (file : DenyFile) : Bool := file.rules.rules.any fun r => !r.negated

def hasDenyRules (file : DenyFile) : Bool :=
  file.rules.rules.any fun r => !r.negated && r.action = .deny

end DenyFile

/-! ## Strictness -/

/-- How strict a verdict is: a deny over a `>`, a `>` over none. -/
inductive Strictness where
  | none
  | entry
  | deny
  deriving DecidableEq

namespace Strictness

def rank : Strictness → Nat
  | none => 0
  | entry => 1
  | deny => 2

theorem rank_injective : Function.Injective rank := by
  intro a b h
  cases a <;> cases b <;> first | rfl | cases h

instance : LinearOrder Strictness := LinearOrder.lift' rank rank_injective

theorem none_le (s : Strictness) : none ≤ s := Nat.zero_le (rank s)

theorem le_deny (s : Strictness) : s ≤ deny := by cases s <;> decide

theorem deny_le_iff {s : Strictness} : deny ≤ s ↔ s = deny := by cases s <;> decide

def ofAction : DenyAction → Strictness
  | .deny => deny
  | .entry => entry

def ofVerdict (verdict : Option (Rule DenyAction)) : Strictness :=
  match verdict with
  | some rule => ofAction rule.action
  | Option.none => none

theorem entry_le_ofAction (action : DenyAction) : entry ≤ ofAction action := by
  cases action <;> decide

end Strictness

/-! ## The readings of a request -/

namespace DenyFile

variable {file : DenyFile} {path : Bytes} {isDir pathInfo : Bool}

/-- The rules that the readings of a request give. -/
def readings (file : DenyFile) (path : Bytes) (isDir pathInfo : Bool) : List (Rule DenyAction) :=
  file.rules.ancestorRules path (fun a => pathInfo && namesAScript a) ++
    ((file.rules.matchedLast path false).toList ++
      if isDir then (file.rules.matchedLast path true).toList else [])

variable {l : List (Rule DenyAction)} {entry asDir asFile : Option (Rule DenyAction)}
  {rule : Rule DenyAction}

theorem walk_error {denied : Rule DenyAction} (h : l.foldlM judgeAncestor entry = .error denied) :
    denied ∈ l ∧ denied.action = .deny := by
  induction l generalizing entry with
  | nil => cases h
  | cons rule l ih =>
    rw [List.foldlM_cons, judgeAncestor] at h
    split at h
    · next ha =>
      cases h
      exact ⟨List.mem_cons_self, ha⟩
    · exact (ih h).imp_left (List.mem_cons_of_mem _)

theorem walk_ok {found : Option (Rule DenyAction)} (h : l.foldlM judgeAncestor entry = .ok found) :
    (∀ rule ∈ l, rule.action = .entry) ∧ found = entry.or l.head? := by
  induction l generalizing entry with
  | nil =>
    cases h
    simp
  | cons rule l ih =>
    rw [List.foldlM_cons, judgeAncestor] at h
    split at h
    · cases h
    · next ha =>
      have he : rule.action = .entry := by
        cases hact : rule.action with
        | deny => exact absurd hact ha
        | entry => rfl
      obtain ⟨hall, hf⟩ := ih h
      refine ⟨List.forall_mem_cons.mpr ⟨he, hall⟩, ?_⟩
      rw [hf]
      cases entry <;> simp

theorem judgePath_eq_some (h : judgePath entry asDir asFile = some rule) :
    entry = some rule ∨ asDir = some rule ∨ asFile = some rule := by
  simp only [judgePath, Option.or_eq_some_iff, Option.filter_eq_some_iff] at h
  tauto

theorem le_judgePath (he : ∀ r, entry = some r → r.action = .entry)
    (h : entry = some rule ∨ asDir = some rule ∨ asFile = some rule) :
    Strictness.ofAction rule.action ≤ .ofVerdict (judgePath entry asDir asFile) := by
  cases ha : rule.action with
  | entry =>
    obtain ⟨r, hr⟩ : ∃ r, judgePath entry asDir asFile = some r := by
      refine Option.ne_none_iff_exists'.mp fun hn => ?_
      simp only [judgePath, Option.or_eq_none_iff] at hn
      rcases h with h | h | h <;> simp [h] at hn
    rw [hr]
    exact Strictness.entry_le_ofAction r.action
  | deny =>
    -- a deny cannot be the kept `>`, so one of the two filters lets it through
    obtain ⟨r, hr, hd⟩ : ∃ r, judgePath entry asDir asFile = some r ∧ r.action = .deny := by
      rcases h with h | h | h
      · exact absurd (he rule h) (by simp [ha])
      · exact ⟨rule, by simp [judgePath, h, ha, Option.filter_some], ha⟩
      · cases asDir with
        | none => exact ⟨rule, by simp [judgePath, h, ha, Option.filter_some], ha⟩
        | some r =>
          by_cases hr : r.action = .deny
          · exact ⟨r, by simp [judgePath, hr, Option.filter_some], hr⟩
          · exact ⟨rule, by simp [judgePath, h, ha, hr, Option.filter_some], ha⟩
    rw [hr, Strictness.ofVerdict, hd]

theorem mem_readings : rule ∈ file.readings path isDir pathInfo ↔
      rule ∈ file.rules.ancestorRules path (fun a => pathInfo && namesAScript a) ∨
        file.rules.matchedLast path false = some rule ∨
          isDir = true ∧ file.rules.matchedLast path true = some rule := by
  simp only [readings, List.mem_append, Option.mem_toList]
  refine or_congr Iff.rfl (or_congr Iff.rfl ?_)
  cases isDir <;> simp

theorem check_mem (h : file.check path isDir pathInfo = some rule) :
    rule ∈ file.readings path isDir pathInfo := by
  simp only [check, RuleSet.excludedAncestors_eq] at h
  rw [mem_readings]
  split at h
  · next denied hw =>
    cases h
    exact .inl (walk_error hw).1
  · next entry hw =>
    rcases judgePath_eq_some h with hr | hr | hr
    · rw [(walk_ok hw).2] at hr
      exact .inl (List.mem_of_mem_head? hr)
    · exact .inr (.inr (by simpa using hr))
    · exact .inr (.inl hr)

theorem le_check (h : rule ∈ file.readings path isDir pathInfo) :
    Strictness.ofAction rule.action ≤ .ofVerdict (file.check path isDir pathInfo) := by
  simp only [check, RuleSet.excludedAncestors_eq]
  rw [mem_readings] at h
  split
  · next denied hw =>
    rw [Strictness.ofVerdict, (walk_error hw).2]
    exact Strictness.le_deny _
  · next entry hw =>
    obtain ⟨hall, hfirst⟩ := walk_ok hw
    have he : ∀ r, entry = some r → r.action = .entry := by
      intro r hr
      rw [hfirst] at hr
      exact hall r (List.mem_of_mem_head? hr)
    rcases h with h | h | ⟨hdir, h⟩
    · -- every ancestor's rule is a `>`, and the first of them was kept
      rw [hall rule h]
      obtain ⟨r, hr⟩ : ∃ r, entry = some r := by
        rw [hfirst]
        exact Option.isSome_iff_exists.mp (by simp [List.isSome_head?, List.ne_nil_of_mem h])
      refine le_trans ?_ (le_judgePath he (.inl hr))
      rw [he r hr]
    · exact le_judgePath he (.inr (.inr h))
    · exact le_judgePath he (.inr (.inl (by simp [hdir, h])))

/-- **Verdicts are ordered by their readings**: a request with more readings is
judged at least as strictly. -/
theorem check_mono {path' : Bytes} {isDir' pathInfo' : Bool}
    (h : file.readings path' isDir' pathInfo' ⊆ file.readings path isDir pathInfo) :
    Strictness.ofVerdict (file.check path' isDir' pathInfo') ≤
      .ofVerdict (file.check path isDir pathInfo) := by
  cases hc : file.check path' isDir' pathInfo' with
  | none => exact Strictness.none_le _
  | some rule => exact le_check (h (check_mem hc))

/-! ## Inclusions of readings -/

theorem excludedBy_ancestor_mem_readings {a : Bytes}
    (ha : a ∈ ancestors path) (h : file.rules.excludedBy a true = some rule) :
    rule ∈ file.readings path isDir pathInfo :=
  mem_readings.mpr (.inl (RuleSet.mem_ancestorRules.mpr ⟨a, ha, .inl h⟩))

theorem readings_file_subset_dir :
    file.readings path false pathInfo ⊆ file.readings path true pathInfo := by
  intro rule h
  rw [mem_readings] at h ⊢
  rcases h with h | h | ⟨hdir, -⟩
  · exact .inl h
  · exact .inr (.inl h)
  · cases hdir

theorem readings_subset_pathInfo :
    file.readings path isDir false ⊆ file.readings path isDir true := by
  intro rule h
  rw [mem_readings, RuleSet.mem_ancestorRules] at h
  rcases h with ⟨a, ha, h | ⟨hs, -⟩⟩ | h
  · exact excludedBy_ancestor_mem_readings ha h
  · simp at hs
  · exact mem_readings.mpr (.inr h)

theorem readings_script_subset {script : Bytes} {b : Bool} (ha : script ∈ ancestors path)
    (hs : namesAScript script = true) :
    file.readings script b true ⊆ file.readings path isDir true := by
  intro rule h
  obtain ⟨rest, rfl⟩ := mem_ancestors_iff.mp ha
  rw [mem_readings, RuleSet.mem_ancestorRules] at h
  rcases h with ⟨a, hmem, h⟩ | h | ⟨-, h⟩
  · have hmem' : a ∈ ancestors (script ++ slash :: rest) := by
      rw [ancestors_append_slash]
      exact List.mem_append_left _ hmem
    exact mem_readings.mpr (.inl (RuleSet.mem_ancestorRules.mpr ⟨a, hmem', h⟩))
  · have hex := (RuleSet.matchedLast_eq_some h).2.2
    exact mem_readings.mpr (.inl (RuleSet.mem_ancestorRules.mpr
      ⟨script, ha, .inr ⟨by simpa using hs, hex⟩⟩))
  · exact excludedBy_ancestor_mem_readings ha (RuleSet.matchedLast_eq_some h).2.2

/-- **The verdict order.** A verdict is at least as strict as that of every
ancestor judged as a directory, whatever rules follow; judging a request as a
directory, or with its `.php` segments as scripts, is never more lenient; and
with scripts judged it is as strict as the request for each of them. -/
theorem check_strictness (file : DenyFile) (path : Bytes) (isDir pathInfo : Bool) :
    (∀ a ∈ ancestors path, Strictness.ofVerdict (file.rules.excludedBy a true) ≤
        .ofVerdict (file.check path isDir pathInfo)) ∧
      Strictness.ofVerdict (file.check path false pathInfo) ≤
        .ofVerdict (file.check path true pathInfo) ∧
      Strictness.ofVerdict (file.check path isDir false) ≤ .ofVerdict (file.check path isDir true) ∧
      ∀ script ∈ ancestors path, namesAScript script = true → ∀ b,
        Strictness.ofVerdict (file.check script b true) ≤
          .ofVerdict (file.check path isDir true) := by
  refine ⟨?_, check_mono readings_file_subset_dir, check_mono readings_subset_pathInfo, ?_⟩
  · intro a ha
    cases h : file.rules.excludedBy a true with
    | none => exact Strictness.none_le _
    | some rule => exact le_check (excludedBy_ancestor_mem_readings ha h)
  · intro script ha hs b
    exact check_mono (readings_script_subset ha hs)

/-! ## What the verdict rule is -/

theorem check_mem_rules (h : file.check path isDir pathInfo = some rule) :
    rule ∈ file.rules.rules ∧ rule.negated = false := by
  have hr := mem_readings.mp (check_mem h)
  rw [RuleSet.mem_ancestorRules] at hr
  rcases hr with ⟨a, -, hex | ⟨-, hex⟩⟩ | hex | ⟨-, hex⟩
  · exact RuleSet.excludedBy_mem hex
  · exact RuleSet.excludedBy_mem hex
  · exact RuleSet.excludedBy_mem (RuleSet.matchedLast_eq_some hex).2.2
  · exact RuleSet.excludedBy_mem (RuleSet.matchedLast_eq_some hex).2.2

theorem check_of_not_excludesAnything (h : file.excludesAnything = false) :
    file.check path isDir pathInfo = none := by
  refine Option.eq_none_iff_forall_not_mem.mpr fun rule hr => ?_
  obtain ⟨hmem, hneg⟩ := check_mem_rules hr
  simp only [excludesAnything, List.any_eq_false, Bool.not_eq_true', Bool.not_eq_false] at h
  rw [h rule hmem] at hneg
  cases hneg

theorem check_action_of_parse {rules : RuleSet DenyAction} {mode : RoutingModeKind}
    (hp : parse rules mode = .ok file) (hmode : mode = .traditional ∨ mode = .spa)
    (h : file.check path isDir pathInfo = some rule) : rule.action = .deny := by
  rw [parse, if_pos hmode] at hp
  split at hp
  · cases hp
  · next hf =>
    cases hp
    have hall := List.find?_eq_none.mp hf rule (check_mem_rules h).1
    cases ha : rule.action with
    | deny => rfl
    | entry => simp [ha] at hall

end DenyFile

end OxPhp.Config
