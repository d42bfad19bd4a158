import OxPhp.Lib.Digraph
import OxPhp.Shared.Value

/-!
# The cycle check

`plugins/ox_shared/cycle.rs`: a breadth-first walk from the entry to be stored,
looking for the container it is stored into, within a bound on the depth and a
bound on the edges walked.
-/

namespace OxPhp.Shared

open ByteStr Relation Digraph

/-- Why a value is not stored. -/
inductive CycleError where
  | cycleFound (path : List SharedId)
  | depthExceeded
  | edgeLimitExceeded
  deriving DecidableEq

/-- The state of the walk: nodes to expand with their depth, nodes seen, and
the node each was seen from. -/
structure Walk where
  queue : List (SharedId × Nat)
  visited : List SharedId
  parent : List (SharedId × SharedId)
  edgesWalked : Nat

/-- The loop over the children of a node. -/
def Walk.expand (maxEdges : Nat) (id : SharedId) (depth : Nat) (walk : Walk) :
    List SharedRef → Except CycleError Walk
  | [] => .ok walk
  | child :: rest =>
    if walk.edgesWalked + 1 > maxEdges then .error .edgeLimitExceeded
    else if child.id ∈ walk.visited then
      expand maxEdges id depth { walk with edgesWalked := walk.edgesWalked + 1 } rest
    else
      expand maxEdges id depth
        { queue := walk.queue ++ [(child.id, depth + 1)]
          visited := child.id :: walk.visited
          parent := (child.id, id) :: walk.parent
          edgesWalked := walk.edgesWalked + 1 } rest

/-- The chain of parents from `cur` up to `start`; no chain is longer than the
table. -/
def climb (parent : List (SharedId × SharedId)) (start : SharedId) :
    Nat → SharedId → List SharedId
  | 0, _ => []
  | fuel + 1, cur =>
    match parent.lookup cur with
    | none => []
    | some p => p :: if p = start then [] else climb parent start fuel p

/-- The way found, from the entry to the container. -/
def reconstructPath (parent : List (SharedId × SharedId)) (target start : SharedId) :
    List SharedId :=
  if target = start then [target] else (target :: climb parent start parent.length target).reverse

/-- An expansion pays with an edge for every node it queues. -/
theorem Walk.expand_budget {maxEdges : Nat} {id : SharedId} {depth : Nat}
    {children : List SharedRef} {walk walk' : Walk}
    (h : walk.expand maxEdges id depth children = .ok walk') :
    walk'.queue.length + (maxEdges - walk'.edgesWalked) ≤
      walk.queue.length + (maxEdges - walk.edgesWalked) := by
  induction children generalizing walk with
  | nil =>
    cases h
    exact Nat.le_refl _
  | cons child rest ih =>
    unfold expand at h
    split at h
    · cases h
    · split at h
      · have hle := ih h
        simp only at hle
        omega
      · have hle := ih h
        simp only [List.length_append, List.length_singleton] at hle
        omega

section

variable (children : SharedId → List SharedRef) (start target : SharedId)
  (maxDepth maxEdges : Nat)

/-- Expand queued nodes until the container turns up, a bound is hit or the
queue is empty. -/
def Walk.run (walk : Walk) : Except CycleError Unit :=
  match _hqueue : walk.queue with
  | [] => .ok ()
  | (id, depth) :: queue =>
    if id = target then .error (.cycleFound (reconstructPath walk.parent target start))
    else if depth ≥ maxDepth then .error .depthExceeded
    else
      match _hexpand : Walk.expand maxEdges id depth { walk with queue } (children id) with
      | .error e => .error e
      | .ok walk' => run walk'
termination_by walk.queue.length + (maxEdges - walk.edgesWalked)
decreasing_by
  have hbudget := Walk.expand_budget _hexpand
  simp only [_hqueue, List.length_cons] at hbudget ⊢
  omega

/-- Whether storing `start` into `target` would close a cycle. -/
def wouldCreateCycle : Except CycleError Unit :=
  Walk.run children start target maxDepth maxEdges
    { queue := [(start, 0)], visited := [start], parent := [], edgesWalked := 0 }

end

/-- `#1 → #4 → #1`. -/
def formatCyclePath (path : List SharedId) : Bytes :=
  (str " → ").intercalate (path.map fun id => str "#" ++ str (toString id))

/-- The edges a walker is shown. -/
def Leads (children : SharedId → List SharedRef) (a b : SharedId) : Prop :=
  ∃ child ∈ children a, child.id = b

/-- What an expansion that is not cut short does: it queues the nodes it sees for
the first time, one level down. -/
theorem Walk.expand_eq {maxEdges : Nat} {id : SharedId} {depth : Nat} {children : List SharedRef}
    {walk walk' : Walk} (h : walk.expand maxEdges id depth children = .ok walk') :
    ∃ fresh : List SharedId, walk'.queue = walk.queue ++ fresh.map (·, depth + 1) ∧
      walk'.visited = fresh.reverse ++ walk.visited ∧
      walk'.parent = (fresh.map (·, id)).reverse ++ walk.parent ∧
      (∀ x ∈ fresh, x ∉ walk.visited ∧ ∃ child ∈ children, child.id = x) ∧
      (∀ child ∈ children, child.id ∈ walk'.visited) ∧ fresh.Nodup := by
  induction children generalizing walk with
  | nil =>
    cases h
    exact ⟨[], by simp⟩
  | cons child rest ih =>
    unfold Walk.expand at h
    split at h
    · cases h
    split at h
    · next hs =>
      obtain ⟨fresh, hq, hv, hp, hf, hse, hn⟩ := ih h
      refine ⟨fresh, hq, hv, hp, fun x hx => ?_, fun c hc => ?_, hn⟩
      · obtain ⟨hnew, c, hc, hid⟩ := hf x hx
        exact ⟨hnew, c, List.mem_cons_of_mem _ hc, hid⟩
      · rcases List.mem_cons.mp hc with rfl | hc
        · rw [hv]
          exact List.mem_append_right _ hs
        · exact hse c hc
    · next hs =>
      obtain ⟨fresh, hq, hv, hp, hf, hse, hn⟩ := ih h
      refine ⟨child.id :: fresh, by simp [hq], by simp [hv], by simp [hp],
        fun x hx => ?_, fun c hc => ?_, List.nodup_cons.mpr ⟨fun hx => ?_, hn⟩⟩
      · rcases List.mem_cons.mp hx with rfl | hx
        · exact ⟨hs, child, List.mem_cons_self, rfl⟩
        · obtain ⟨hnew, c, hc, hid⟩ := hf x hx
          exact ⟨fun hold => hnew (List.mem_cons_of_mem _ hold), c, List.mem_cons_of_mem _ hc, hid⟩
      · rcases List.mem_cons.mp hc with rfl | hc
        · simp [hv]
        · exact hse c hc
      · exact (hf _ hx).1 List.mem_cons_self

/-- It walks every edge, and one that is cut short had more edges than were left. -/
theorem Walk.expand_edges {maxEdges : Nat} {id : SharedId} {depth : Nat}
    {children : List SharedRef} {walk : Walk} :
    match walk.expand maxEdges id depth children with
    | .ok walk' => walk'.edgesWalked = walk.edgesWalked + children.length
    | .error e => e = .edgeLimitExceeded ∧ maxEdges < walk.edgesWalked + children.length := by
  induction children generalizing walk with
  | nil => rfl
  | cons child rest ih =>
    unfold Walk.expand
    by_cases hfull : walk.edgesWalked + 1 > maxEdges
    · rw [if_pos hfull]
      exact ⟨rfl, by simp only [List.length_cons]; omega⟩
    · rw [if_neg hfull, List.length_cons, Nat.add_comm rest.length, ← Nat.add_assoc]
      by_cases hs : child.id ∈ walk.visited
      · rw [if_pos hs]
        exact ih
      · rw [if_neg hs]
        exact ih

section Run

variable {children : SharedId → List SharedRef} {start target : SharedId}
  {maxDepth maxEdges : Nat} {walk walk' : Walk} {id : SharedId} {depth : Nat}
  {queue : List (SharedId × Nat)}

theorem Walk.run_eq : walk.run children start target maxDepth maxEdges = match walk.queue with
      | [] => .ok ()
      | (id, depth) :: queue =>
        if id = target then .error (.cycleFound (reconstructPath walk.parent target start))
        else if depth ≥ maxDepth then .error .depthExceeded else
          match Walk.expand maxEdges id depth { walk with queue } (children id) with
          | .error e => .error e
          | .ok walk' => walk'.run children start target maxDepth maxEdges := by
  fun_cases Walk.run children start target maxDepth maxEdges walk with
  | case1 hq => rw [hq]
  | case2 depth queue hq => simp only [hq, if_true]
  | case3 id depth queue hq hne hd => simp only [hq, if_neg hne, if_pos hd]
  | case4 id depth queue hq hne hd e he | case5 id depth queue hq hne hd walk' he =>
    simp only [hq, if_neg hne, if_neg hd, he]

theorem Walk.run_found (hq : walk.queue = (target, depth) :: queue) :
    walk.run children start target maxDepth maxEdges =
      .error (.cycleFound (reconstructPath walk.parent target start)) := by
  rw [run_eq, hq]
  exact if_pos rfl

theorem Walk.run_expand (hq : walk.queue = (id, depth) :: queue) (hne : id ≠ target)
    (hd : depth < maxDepth)
    (he : Walk.expand maxEdges id depth { walk with queue } (children id) = .ok walk') :
    walk.run children start target maxDepth maxEdges =
      walk'.run children start target maxDepth maxEdges := by
  rw [run_eq]
  simp only [hq, if_neg hne, if_neg (Nat.not_le.mpr hd), he]

/-- The walk only looks at nodes it reaches. -/
theorem Walk.run_congr {children' : SharedId → List SharedRef} {area : SharedId → Prop}
    (ha : ∀ x, area x → x ≠ target → children' x = children x)
    (hc : ∀ x y, area x → x ≠ target → Leads children x y → area y)
    (hqu : ∀ q ∈ walk.queue, area q.1) : walk.run children' start target maxDepth maxEdges =
      walk.run children start target maxDepth maxEdges := by
  fun_induction Walk.run children start target maxDepth maxEdges walk with
  | case1 walk hnil => rw [run_eq, hnil]
  | case2 walk depth queue hco => exact run_found hco
  | case3 walk id depth queue hco hne hd =>
    rw [run_eq]
    simp only [hco, if_neg hne, if_pos hd]
  | case4 walk id depth queue hco hne hd e he =>
    rw [run_eq]
    have hid := ha id (hqu (id, depth) (by simp [hco])) hne
    simp only [hco, if_neg hne, if_neg hd, hid, he]
  | case5 walk id depth queue hco hne hd walk' he ih =>
    have hid : area id := hqu (id, depth) (by simp [hco])
    rw [run_expand hco hne (Nat.not_le.mp hd) (by rw [ha id hid hne, he])]
    refine ih fun q hq => ?_
    obtain ⟨fresh, hq', -, -, hf, -, -⟩ := expand_eq he
    rw [hq'] at hq
    rcases List.mem_append.mp hq with hq | hq
    · exact hqu q (by simp_all)
    · obtain ⟨x, hx, rfl⟩ := List.mem_map.mp hq
      obtain ⟨-, child, hch, rfl⟩ := hf x hx
      exact hc id _ hid hne ⟨child, hch, rfl⟩

end Run

/-! ## Levels -/

namespace Walk

variable (children : SharedId → List SharedRef) (start target : SharedId)

/-- The levels of the nodes seen: the queue is in order, nothing seen is more than
one level below what is queued, a parent is one level up, and a node that is off
the queue is not the container and has its children seen. -/
structure Levels (level : SharedId → Nat) (walk : Walk) : Prop where
  seen_start : start ∈ walk.visited
  level_start : level start = 0
  queued : ∀ q ∈ walk.queue, q.1 ∈ walk.visited ∧ level q.1 = q.2
  ordered : walk.queue.Pairwise fun p q => p.2 ≤ q.2
  near : ∀ x ∈ walk.visited, ∀ q ∈ walk.queue, level x ≤ q.2 + 1
  parents : ∀ x ∈ walk.visited, x = start ∨ ∃ p ∈ walk.visited,
    walk.parent.lookup x = some p ∧ Leads children p x ∧ level x = level p + 1
  short : ∀ x ∈ walk.visited, level x ≤ walk.parent.length
  finished : ∀ x ∈ walk.visited, x ∈ walk.queue.map Prod.fst ∨
    (x ≠ target ∧ ∀ y, Leads children x y → y ∈ walk.visited ∧ level y ≤ level x + 1)

variable {children start target} {level : SharedId → Nat} {walk walk' : Walk} {id : SharedId}
  {depth maxDepth maxEdges : Nat} {queue : List (SharedId × Nat)}

theorem lookup_fresh {fresh : List SharedId} {x : SharedId} {parent : List (SharedId × SharedId)} :
    ((fresh.map (·, id)).reverse ++ parent).lookup x =
      if x ∈ fresh then some id else parent.lookup x := by
  induction fresh generalizing parent with
  | nil => simp
  | cons y fresh ih =>
    rw [List.map_cons, List.reverse_cons, List.append_assoc, List.singleton_append, ih]
    by_cases hx : x ∈ fresh
    · simp [hx]
    · by_cases hy : x = y
      · simp [hy]
      · have hne : (x == y) = false := by simpa using hy
        simp [hx, hy, List.lookup_cons, hne]

/-- **An expansion keeps the levels.** -/
theorem Levels.step (h : walk.Levels children start target level)
    (hqu : walk.queue = (id, depth) :: queue) (hne : id ≠ target)
    (he : Walk.expand maxEdges id depth { walk with queue } (children id) = .ok walk') :
    ∃ level', walk'.Levels children start target level' := by
  obtain ⟨fresh, hq', hv', hp', hf, hs, -⟩ := expand_eq he
  dsimp only at hq' hv' hp' hf
  have hh := h.queued (id, depth) (by simp [hqu])
  have hn : ∀ x ∈ walk.visited, level x ≤ depth + 1 :=
    fun x hx => h.near x hx (id, depth) (by simp [hqu])
  have hold : ∀ x ∈ walk.visited, x ∉ fresh := fun x hx hmem => (hf x hmem).1 hx
  have hmem : ∀ x, x ∈ walk'.visited ↔ x ∈ fresh ∨ x ∈ walk.visited := by
    intro x
    simp [hv']
  obtain ⟨hfr, hr⟩ := List.pairwise_cons.mp (hqu ▸ h.ordered)
  -- the fresh nodes are one level below the node they were seen from
  refine ⟨fun x => if x ∈ fresh then depth + 1 else level x, ?_, ?_, ?_, ?_, ?_, ?_, ?_, ?_⟩
  · exact (hmem start).mpr (.inr h.seen_start)
  · rw [if_neg (hold start h.seen_start)]
    exact h.level_start
  · intro q hq
    rw [hq'] at hq
    rcases List.mem_append.mp hq with hq | hq
    · obtain ⟨hse, hl⟩ := h.queued q (by simp [hqu, hq])
      exact ⟨(hmem _).mpr (.inr hse), by rw [if_neg (hold _ hse), hl]⟩
    · obtain ⟨x, hx, rfl⟩ := List.mem_map.mp hq
      exact ⟨(hmem _).mpr (.inl hx), if_pos hx⟩
  · rw [hq', List.pairwise_append]
    refine ⟨hr, ?_, fun p hp q hq => ?_⟩
    · rw [List.pairwise_map]
      exact List.pairwise_of_forall fun _ _ => Nat.le_refl _
    · obtain ⟨x, -, rfl⟩ := List.mem_map.mp hq
      obtain ⟨hse, hl⟩ := h.queued p (by simp [hqu, hp])
      exact hl ▸ hn p.1 hse
  · intro x hx q hq
    have hd : depth ≤ q.2 := by
      rw [hq'] at hq
      rcases List.mem_append.mp hq with hq | hq
      · exact hfr q hq
      · obtain ⟨y, -, rfl⟩ := List.mem_map.mp hq
        exact Nat.le_succ _
    have hl : (if x ∈ fresh then depth + 1 else level x) ≤ depth + 1 := by
      split
      · exact Nat.le_refl _
      · next hnot => exact hn x (((hmem x).mp hx).resolve_left hnot)
    omega
  · intro x hx
    rw [hp', lookup_fresh]
    rcases (hmem x).mp hx with hnew | hse
    · obtain ⟨-, child, hc, hid⟩ := hf x hnew
      refine .inr ⟨id, (hmem id).mpr (.inr hh.1), by rw [if_pos hnew], ⟨child, hc, hid⟩, ?_⟩
      rw [if_pos hnew, if_neg (hold id hh.1), hh.2]
    · rw [if_neg (hold x hse), if_neg (hold x hse)]
      refine (h.parents x hse).imp_right ?_
      rintro ⟨p, hp, hlo, hle, hl⟩
      exact ⟨p, (hmem p).mpr (.inr hp), hlo, hle, by rw [if_neg (hold p hp), hl]⟩
  · intro x hx
    rw [hp', List.length_append, List.length_reverse, List.length_map]
    rcases (hmem x).mp hx with hnew | hse
    · have hd := h.short id hh.1
      have hlength := List.length_pos_of_mem hnew
      rw [if_pos hnew]
      rw [hh.2] at hd
      omega
    · have hsh := h.short x hse
      rw [if_neg (hold x hse)]
      omega
  · intro x hx
    rw [hq', List.map_append]
    rcases (hmem x).mp hx with hnew | hse
    · left
      refine List.mem_append_right _ (List.mem_map.mpr ⟨(x, depth + 1), ?_, rfl⟩)
      exact List.mem_map_of_mem hnew
    rcases h.finished x hse with hqueued | ⟨hx, hcl⟩
    · rw [hqu, List.map_cons] at hqueued
      rcases List.mem_cons.mp hqueued with rfl | hqueued
      · -- the node just expanded
        refine .inr ⟨hne, fun y hy => ?_⟩
        obtain ⟨child, hc, rfl⟩ := hy
        have hs' := hs child hc
        refine ⟨hs', ?_⟩
        rw [if_neg (hold x hse), hh.2]
        split
        · exact Nat.le_refl _
        · next hnot =>
          exact hn _ (((hmem _).mp hs').resolve_left hnot)
      · exact .inl (List.mem_append_left _ hqueued)
    · refine .inr ⟨hx, fun y hy => ?_⟩
      obtain ⟨hseenY, hl⟩ := hcl y hy
      refine ⟨(hmem y).mpr (.inr hseenY), ?_⟩
      rw [if_neg (hold y hseenY), if_neg (hold x hse)]
      exact hl

theorem levels_start : Levels children start target (fun _ => 0)
    { queue := [(start, 0)], visited := [start], parent := [], edgesWalked := 0 } := by
  refine ⟨List.mem_cons_self, rfl, ?_, List.pairwise_singleton _ _, ?_, ?_, ?_, ?_⟩
  · simp
  · simp
  · intro x hx
    exact .inl (List.mem_singleton.mp hx)
  · simp
  · simp

/-! ## Ways to the container -/

/-- A way to a node that is not finished passes a queued one. -/
theorem Levels.exists_queued (h : walk.Levels children start target level) {x : SharedId}
    {path : List SharedId} (hx : x ∈ walk.visited → x ∈ walk.queue.map Prod.fst)
    (hp : IsPath (Leads children) start x path) : ∃ q ∈ walk.queue, q.2 + 1 ≤ path.length := by
  have hc : ∀ x y, x ∈ walk.visited → x ∉ walk.queue.map Prod.fst → Leads children x y →
      y ∈ walk.visited ∧ level y ≤ level x + 1 :=
    fun x y hx ho hxy => ((h.finished x hx).resolve_left ho).2 y hxy
  obtain ⟨x, -, hx, hle⟩ := hp.exists_unfinished h.seen_start hx hc
  obtain ⟨q, hq, rfl⟩ := List.mem_map.mp hx
  rw [h.level_start, (h.queued q hq).2] at hle
  exact ⟨q, hq, by omega⟩

/-- The container is not off the queue. -/
theorem Levels.target_queued (h : walk.Levels children start target level)
    (hs : target ∈ walk.visited) : target ∈ walk.queue.map Prod.fst :=
  (h.finished target hs).resolve_right fun hd => hd.1 rfl

/-- A way to a node that is not finished is at least as long as the queue is deep. -/
theorem Levels.depth_lt_length (h : walk.Levels children start target level)
    (hqu : walk.queue = (id, depth) :: queue) {x : SharedId} {path : List SharedId}
    (hx : x ∈ walk.visited → x ∈ walk.queue.map Prod.fst)
    (hp : IsPath (Leads children) start x path) : depth + 1 ≤ path.length := by
  obtain ⟨q, hq, hle⟩ := h.exists_queued hx hp
  have hfirst : depth ≤ q.2 := by
    rw [hqu] at hq
    rcases List.mem_cons.mp hq with rfl | hq
    · exact Nat.le_refl _
    · exact (List.pairwise_cons.mp (hqu ▸ h.ordered)).1 q hq
  omega

/-- The chain of parents is a way from the entry, one node a level. -/
theorem Levels.climb (h : walk.Levels children start target level) {fuel : Nat} {x : SharedId}
    (hx : x ∈ walk.visited) (hne : x ≠ start) (hf : level x ≤ fuel) :
    IsPath (Leads children) start x (x :: Shared.climb walk.parent start fuel x).reverse ∧
      (x :: Shared.climb walk.parent start fuel x).length = level x + 1 := by
  induction fuel generalizing x with
  | zero =>
    obtain ⟨p, -, -, -, hl⟩ := (h.parents x hx).resolve_left hne
    omega
  | succ fuel ih =>
    obtain ⟨p, hp, hlo, hle, hl⟩ := (h.parents x hx).resolve_left hne
    rw [Shared.climb, hlo]
    dsimp only
    by_cases hs : p = start
    · subst hs
      rw [if_pos rfl, hl, h.level_start]
      exact ⟨(isPath_singleton p).concat hle, rfl⟩
    · obtain ⟨hpa, hlength⟩ := ih hp hs (by omega)
      rw [if_neg hs]
      refine ⟨?_, ?_⟩
      · rw [List.reverse_cons]
        exact hpa.concat hle
      · rw [List.length_cons, hlength, hl]

theorem Levels.reconstructPath (h : walk.Levels children start target level) {x : SharedId}
    (hx : x ∈ walk.visited) :
    IsPath (Leads children) start x (reconstructPath walk.parent x start) ∧
      (Shared.reconstructPath walk.parent x start).length = level x + 1 := by
  unfold Shared.reconstructPath
  split
  · next heq =>
    subst heq
    rw [h.level_start]
    exact ⟨isPath_singleton x, rfl⟩
  · next hne =>
    rw [List.length_reverse]
    exact h.climb hx hne (h.short x hx)

/-- The parents of the first node of the queue are a shortest way to it. -/
theorem Levels.isShortest (h : walk.Levels children start target level)
    (hq : walk.queue = (id, depth) :: queue) :
    IsShortest (Leads children) start id (Shared.reconstructPath walk.parent id start) ∧
      (Shared.reconstructPath walk.parent id start).length = depth + 1 := by
  obtain ⟨hs, hl⟩ := h.queued (id, depth) (by simp [hq])
  obtain ⟨hp, hlength⟩ := h.reconstructPath hs
  rw [hl] at hlength
  refine ⟨⟨hp, fun other ho => ?_⟩, hlength⟩
  rw [hlength]
  exact h.depth_lt_length hq (fun _ => by simp [hq]) ho

/-! ## Edges -/

variable (children start) in
/-- Nodes are expanded once: `expanded` are those off the queue, and the edges
walked are theirs. -/
structure Counted (expanded : List SharedId) (walk : Walk) : Prop where
  once : (expanded ++ walk.queue.map Prod.fst).Nodup
  seen : ∀ x ∈ expanded ++ walk.queue.map Prod.fst, x ∈ walk.visited
  reached : ∀ x ∈ walk.visited, ReflTransGen (Leads children) start x
  edges : walk.edgesWalked = (expanded.map fun x => (children x).length).sum

/-- An expansion walks the edges of its node. -/
theorem Counted.step {expanded : List SharedId} (h : walk.Counted children start expanded)
    (hqu : walk.queue = (id, depth) :: queue)
    (he : Walk.expand maxEdges id depth { walk with queue } (children id) = .ok walk') :
    walk'.Counted children start (expanded ++ [id]) := by
  obtain ⟨fresh, hq', hv', -, hf, -, hn⟩ := expand_eq he
  have hedges := @expand_edges maxEdges id depth (children id) { walk with queue }
  rw [he] at hedges
  have hlist : expanded ++ [id] ++ walk'.queue.map Prod.fst =
      expanded ++ walk.queue.map Prod.fst ++ fresh := by
    simp [hq', hqu, Function.comp_def]
  have hid : id ∈ walk.visited := h.seen id (by simp [hqu])
  refine ⟨?_, ?_, ?_, ?_⟩
  · rw [hlist]
    refine List.nodup_append.mpr ⟨h.once, hn, ?_⟩
    rintro x hx y hy rfl
    exact (hf x hy).1 (h.seen x hx)
  · intro x hx
    rw [hlist] at hx
    rw [hv', List.mem_append, List.mem_reverse]
    exact (List.mem_append.mp hx).symm.imp_right (h.seen x)
  · intro x hx
    rw [hv', List.mem_append, List.mem_reverse] at hx
    rcases hx with hx | hx
    · exact (h.reached id hid).tail (hf x hx).2
    · exact h.reached x hx
  · rw [hedges, h.edges, List.map_append, List.sum_append]
    rfl

theorem counted_start : Counted children start []
    { queue := [(start, 0)], visited := [start], parent := [], edgesWalked := 0 } := by
  refine ⟨by simp, fun x hx => hx, ?_, rfl⟩
  intro x hx
  rw [List.mem_singleton.mp hx]

/-- What an answer says about the graph. -/
def Answers (children : SharedId → List SharedRef) (start target : SharedId)
    (maxDepth maxEdges : Nat) : Except CycleError Unit → Prop
  | .ok () => ¬ReflTransGen (Leads children) start target
  | .error (.cycleFound path) => IsShortest (Leads children) start target path
  -- no way with fewer edges than the bound, and a node that far away
  | .error .depthExceeded =>
    (∀ path, IsPath (Leads children) start target path → maxDepth + 1 ≤ path.length) ∧
      ∃ x path, x ≠ target ∧ IsShortest (Leads children) start x path ∧ maxDepth + 1 ≤ path.length
  -- more edges than the bound, from nodes that can be reached
  | .error .edgeLimitExceeded => ∃ nodes : List SharedId, nodes.Nodup ∧
      (∀ x ∈ nodes, ReflTransGen (Leads children) start x) ∧
      maxEdges < (nodes.map fun x => (children x).length).sum

/-- Every answer of the walk is right. -/
theorem Levels.answers {expanded : List SharedId} (h : walk.Levels children start target level)
    (hc : walk.Counted children start expanded) :
    Answers children start target maxDepth maxEdges
      (walk.run children start target maxDepth maxEdges) := by
  fun_induction Walk.run children start target maxDepth maxEdges walk
    generalizing level expanded with
  | case1 walk hqu =>
    intro hr
    obtain ⟨path, hp⟩ := exists_path hr
    obtain ⟨q, hq, -⟩ := h.exists_queued h.target_queued hp
    rw [hqu] at hq
    cases hq
  | case2 walk depth queue hqu => exact (h.isShortest hqu).1
  | case3 walk id depth queue hqu hne hd =>
    obtain ⟨hs, hlength⟩ := h.isShortest hqu
    refine ⟨fun path hp => ?_, id, _, hne, hs, by omega⟩
    have hle := h.depth_lt_length hqu h.target_queued hp
    omega
  | case4 walk id depth queue hqu hne hd e he =>
    have hedges := @expand_edges maxEdges id depth (children id) { walk with queue }
    rw [he] at hedges
    obtain ⟨rfl, hlt⟩ := hedges
    have hsub : (expanded ++ [id]).Sublist (expanded ++ walk.queue.map Prod.fst) := by
      simp [hqu]
    refine ⟨expanded ++ [id], hc.once.sublist hsub, fun x hx => ?_, ?_⟩
    · exact hc.reached x (hc.seen x (hsub.subset hx))
    · rw [List.map_append, List.sum_append, ← hc.edges]
      exact hlt
  | case5 walk id depth queue hqu hne hd walk' he ih =>
    obtain ⟨level', h'⟩ := h.step hqu hne he
    exact ih h' (hc.step hqu he)

end Walk

theorem answers_wouldCreateCycle {children : SharedId → List SharedRef}
    {start target : SharedId} {maxDepth maxEdges : Nat} :
    Walk.Answers children start target maxDepth maxEdges
      (wouldCreateCycle children start target maxDepth maxEdges) :=
  Walk.levels_start.answers Walk.counted_start

/-- **Soundness of the check**: an `ok` answer means the container cannot be
reached from the entry. -/
theorem wouldCreateCycle_ok {children : SharedId → List SharedRef} {start target : SharedId}
    {maxDepth maxEdges : Nat}
    (h : wouldCreateCycle children start target maxDepth maxEdges = .ok ()) :
    ¬ReflTransGen (Leads children) start target := by
  have ha := @answers_wouldCreateCycle children start target maxDepth maxEdges
  rwa [h] at ha

/-- **The walker is a shortest-path search**: it ends on every graph and under every
bounds; `ok` means that the container cannot be reached, a reported cycle is a
shortest way from the entry to the container, and a container that can be reached
is reported or left undecided by a bound.  A bound is only reported if the graph
exceeds it: a node, not the container, that is as far from the entry as the depth
bound, with no way to the container below the bound; more edges than the edge
bound, from nodes that can be reached. -/
theorem wouldCreateCycle_correct (children : SharedId → List SharedRef)
    (start target : SharedId) (maxDepth maxEdges : Nat) :
    (wouldCreateCycle children start target maxDepth maxEdges = .ok () →
      ¬ReflTransGen (Leads children) start target) ∧
    (∀ path, wouldCreateCycle children start target maxDepth maxEdges =
        .error (.cycleFound path) →
      IsShortest (Leads children) start target path) ∧ (ReflTransGen (Leads children) start target →
      (∃ path, wouldCreateCycle children start target maxDepth maxEdges =
        .error (.cycleFound path)) ∨
      wouldCreateCycle children start target maxDepth maxEdges = .error .depthExceeded ∨
      wouldCreateCycle children start target maxDepth maxEdges = .error .edgeLimitExceeded) ∧
    (wouldCreateCycle children start target maxDepth maxEdges = .error .depthExceeded →
      (∀ path, IsPath (Leads children) start target path → maxDepth + 1 ≤ path.length) ∧
      ∃ x path, x ≠ target ∧ IsShortest (Leads children) start x path ∧
        maxDepth + 1 ≤ path.length) ∧
    (wouldCreateCycle children start target maxDepth maxEdges = .error .edgeLimitExceeded →
      ∃ nodes : List SharedId, nodes.Nodup ∧
        (∀ x ∈ nodes, ReflTransGen (Leads children) start x) ∧
        maxEdges < (nodes.map fun x => (children x).length).sum) := by
  have ha := @answers_wouldCreateCycle children start target maxDepth maxEdges
  refine ⟨wouldCreateCycle_ok, fun path hf => ?_, fun hr => ?_, fun hf => ?_, fun hf => ?_⟩
  · rw [hf] at ha
    exact ha
  · cases han : wouldCreateCycle children start target maxDepth maxEdges with
    | ok answer => exact absurd hr (wouldCreateCycle_ok han)
    | error e =>
      cases e with
      | cycleFound path => exact .inl ⟨path, rfl⟩
      | depthExceeded => exact .inr (.inl rfl)
      | edgeLimitExceeded => exact .inr (.inr rfl)
  · rw [hf] at ha
    exact ha
  · rw [hf] at ha
    exact ha

/-- Two ways of the same length, and one of the nodes leads back. -/
def diamond : SharedId → List SharedRef
  | 1 => [⟨2, .map⟩, ⟨3, .map⟩]
  | 2 => [⟨1, .map⟩, ⟨4, .map⟩]
  | 3 => [⟨4, .map⟩]
  | _ => []

theorem wouldCreateCycle_correct_diamond :
    wouldCreateCycle diamond 1 4 16 10000 = .error (.cycleFound [1, 2, 4]) ∧
      IsShortest (Leads diamond) 1 4 [1, 2, 4] := by
  have hf : wouldCreateCycle diamond 1 4 16 10000 = .error (.cycleFound [1, 2, 4]) := by
    rw [wouldCreateCycle, Walk.run_expand rfl (by decide) (by decide) rfl,
      Walk.run_expand rfl (by decide) (by decide) rfl,
      Walk.run_expand rfl (by decide) (by decide) rfl, Walk.run_found rfl]
    rfl
  exact ⟨hf, (wouldCreateCycle_correct diamond 1 4 16 10000).2.1 _ hf⟩

end OxPhp.Shared
