import CrateScope.Proofs.Course
import Mathlib.Logic.Relation

/-!
# What a crate depends on

The crates that are collected for a crate are exactly those that it reaches by dependencies, through
any number of others.  Since the collection is refused when it comes back to where it started, no
crate that can be built depends on itself.  So the maps that a build is given are closed: whatever
another crate needs that one depends on, one has too.

## Main definitions

* `CrateGraph.DependsOn` — a crate lists another one as a dependency.
* `CrateGraph.Nameable` — the roots of the crates that a crate can name.

## Main results

* `CrateGraph.mem_transitiveDependencies` — what is collected for a crate is what it reaches.
* `get?_dependencyMaps` — the maps that a build is given.
* `exists_dependency_of_directNames` — the crates whose names a build is given.
-/

namespace CrateScope

open Relation

namespace CrateGraph

variable {g : CrateGraph} {id : CrateId}

/-- The crate `a` lists `b` among its dependencies. -/
def DependsOn (g : CrateGraph) (a b : CrateId) : Prop :=
  ∃ direct, g.dependencies a = .ok direct ∧ b ∈ direct

/-- A module is the root of the crate `id` itself or of a direct dependency. -/
def Nameable (g : CrateGraph) (id : CrateId) (root : ModuleId) : Prop :=
  root = id.root ∨ ∃ d, g.DependsOn id d ∧ root = d.root

theorem Nameable.index_eq {root : ModuleId} (h : g.Nameable id root) :
    root.index = .root := by
  rcases h with rfl | ⟨d, -, rfl⟩
  · rfl
  · rfl

theorem mem_dependencies {a b : CrateId} {direct : List CrateId}
    (h : g.dependencies a = .ok direct) : b ∈ direct ↔ g.DependsOn a b := by
  refine ⟨fun hb => ⟨direct, h, hb⟩, ?_⟩
  rintro ⟨direct', h', hb⟩
  rwa [Except.ok.inj (h.symm.trans h')]

/-- A name that is known is that of a crate of the graph. -/
theorem mem_ids_of_idOf? {name : String} {b : CrateId} (h : g.idOf? name = some b) :
    b ∈ g.ids := by
  unfold idOf? at h
  rw [Option.map_eq_some_iff] at h
  obtain ⟨i, hi, rfl⟩ := h
  have hlt := (List.findIdx?_eq_some_iff_findIdx_eq.1 hi).1
  exact List.mem_map_of_mem (List.mem_range.2 hlt)

/-- What a crate depends on is a crate of the graph. -/
theorem DependsOn.mem_ids {a b : CrateId} (h : g.DependsOn a b) : b ∈ g.ids := by
  obtain ⟨direct, hdirect, hb⟩ := h
  unfold dependencies at hdirect
  split at hdirect
  · cases hdirect
    cases hb
  · -- Each of them comes from a name that was found.
    obtain ⟨name, -, hname⟩ := exists_of_mem_mapM hdirect b hb
    split at hname
    · next hid =>
      cases hname
      exact mem_ids_of_idOf? hid
    · cases hname

/-! ### The traversal -/

section Reach

variable {start : CrateId} {fresh found stack reached : List CrateId}

/-- The traversal adds nothing but what can be reached from the crates on the stack. -/
theorem reachable_of_reach (h : g.reach start fresh found stack = .ok reached) :
    ∀ d ∈ reached, d ∈ found ∨ ∃ s ∈ stack, ReflTransGen g.DependsOn s d := by
  induction fresh, found, stack using reach.induct start with
  | case1 fresh found =>
    rw [reach] at h
    cases h
    exact fun d hd => Or.inl hd
  | case2 fresh found rest =>
    rw [reach, if_pos rfl] at h
    cases h
  | case3 fresh found crate rest hne hfresh ih =>
    rw [reach, if_neg hne, dif_pos hfresh] at h
    obtain ⟨direct, hdirect, h⟩ := ok_of_bind h
    intro d hd
    rcases ih direct h d hd with hd | ⟨s, hs, hreach⟩
    · rcases List.mem_cons.1 hd with rfl | hd
      · exact Or.inr ⟨d, List.mem_cons_self, .refl⟩
      · exact Or.inl hd
    · rcases List.mem_append.1 hs with hs | hs
      · have hdepends := (mem_dependencies hdirect).1 (List.mem_reverse.1 hs)
        exact Or.inr ⟨crate, List.mem_cons_self, .head hdepends hreach⟩
      · exact Or.inr ⟨s, List.mem_cons_of_mem _ hs, hreach⟩
  | case4 fresh found crate rest hne hfresh ih =>
    rw [reach, if_neg hne, dif_neg hfresh] at h
    intro d hd
    rcases ih h d hd with hd | ⟨s, hs, hreach⟩
    · exact Or.inl hd
    · exact Or.inr ⟨s, List.mem_cons_of_mem _ hs, hreach⟩

/-- The traversal never takes up the crate that it started from. -/
theorem not_mem_of_reach (h : g.reach start fresh found stack = .ok reached)
    (hfound : start ∉ found) : start ∉ reached := by
  induction fresh, found, stack using reach.induct start with
  | case1 fresh found =>
    rw [reach] at h
    cases h
    exact hfound
  | case2 fresh found rest =>
    rw [reach, if_pos rfl] at h
    cases h
  | case3 fresh found crate rest hne hfresh ih =>
    rw [reach, if_neg hne, dif_pos hfresh] at h
    obtain ⟨direct, -, h⟩ := ok_of_bind h
    refine ih direct h fun hmem => ?_
    rcases List.mem_cons.1 hmem with heq | hmem
    · exact hne heq.symm
    · exact hfound hmem
  | case4 fresh found crate rest hne hfresh ih =>
    rw [reach, if_neg hne, dif_neg hfresh] at h
    exact ih h hfound

/-- No crate is taken up twice. -/
theorem nodup_of_reach (h : g.reach start fresh found stack = .ok reached) (hfresh : fresh.Nodup)
    (hfound : found.Nodup) (hapart : ∀ x ∈ found, x ∉ fresh) : reached.Nodup := by
  induction fresh, found, stack using reach.induct start with
  | case1 fresh found =>
    rw [reach] at h
    cases h
    exact hfound
  | case2 fresh found rest =>
    rw [reach, if_pos rfl] at h
    cases h
  | case3 fresh found crate rest hne hmem ih =>
    rw [reach, if_neg hne, dif_pos hmem] at h
    obtain ⟨direct, -, h⟩ := ok_of_bind h
    refine ih direct h (hfresh.erase crate)
      (List.nodup_cons.2 ⟨fun hold => hapart crate hold hmem, hfound⟩) fun x hx => ?_
    rcases List.mem_cons.1 hx with rfl | hx
    · exact hfresh.not_mem_erase
    · exact fun hxfresh => hapart x hx (List.mem_of_mem_erase hxfresh)
  | case4 fresh found crate rest hne hmem ih =>
    rw [reach, if_neg hne, dif_neg hmem] at h
    exact ih h hfresh hfound hapart

/-- What the crates that were taken up depend on was taken up as well, or is on the stack. -/
def Handled (g : CrateGraph) (found stack : List CrateId) : Prop :=
  ∀ x ∈ found, ∀ y, g.DependsOn x y → y ∈ found ∨ y ∈ stack

/-- A crate that is taken up leaves what it depends on upon the stack. -/
theorem Handled.takeUp {crate : CrateId} {rest direct : List CrateId}
    (h : g.Handled found (crate :: rest)) (hdirect : g.dependencies crate = .ok direct) :
    g.Handled (crate :: found) (direct.reverse ++ rest) := by
  intro x hx y hxy
  rcases List.mem_cons.1 hx with rfl | hx
  · have hy := (mem_dependencies hdirect).2 hxy
    exact Or.inr (List.mem_append_left _ (List.mem_reverse.2 hy))
  · rcases h x hx y hxy with hy | hy
    · exact Or.inl (List.mem_cons_of_mem _ hy)
    · rcases List.mem_cons.1 hy with rfl | hy
      · exact Or.inl List.mem_cons_self
      · exact Or.inr (List.mem_append_right _ hy)

/-- What was taken up before can leave the stack without anything being lost. -/
theorem Handled.drop {crate : CrateId} {rest : List CrateId}
    (h : g.Handled found (crate :: rest)) (hcrate : crate ∈ found) : g.Handled found rest := by
  intro x hx y hxy
  rcases h x hx y hxy with hy | hy
  · exact Or.inl hy
  · rcases List.mem_cons.1 hy with rfl | hy
    · exact Or.inl hcrate
    · exact Or.inr hy

/-- The traversal takes up everything on the stack, and in the end it has whatever the crates that
it has taken up depend on. -/
theorem closed_of_reach (h : g.reach start fresh found stack = .ok reached)
    (hcover : ∀ x ∈ g.ids, x ∈ fresh ∨ x ∈ found) (hstack : ∀ x ∈ stack, x ∈ g.ids)
    (hhandled : g.Handled found stack) :
    (∀ x ∈ found, x ∈ reached) ∧ (∀ x ∈ stack, x ∈ reached) ∧
      ∀ x ∈ reached, ∀ y, g.DependsOn x y → y ∈ reached := by
  induction fresh, found, stack using reach.induct start with
  | case1 fresh found =>
    rw [reach] at h
    cases h
    refine ⟨fun x hx => hx, fun x hx => absurd hx List.not_mem_nil, fun x hx y hxy => ?_⟩
    exact (hhandled x hx y hxy).resolve_right List.not_mem_nil
  | case2 fresh found rest =>
    rw [reach, if_pos rfl] at h
    cases h
  | case3 fresh found crate rest hne hfresh ih =>
    rw [reach, if_neg hne, dif_pos hfresh] at h
    obtain ⟨direct, hdirect, h⟩ := ok_of_bind h
    have hcover' : ∀ x ∈ g.ids, x ∈ fresh.erase crate ∨ x ∈ crate :: found := by
      intro x hx
      by_cases heq : x = crate
      · exact Or.inr (heq ▸ List.mem_cons_self)
      · exact (hcover x hx).imp (List.mem_erase_of_ne heq).2 (List.mem_cons_of_mem _)
    have hnext : ∀ x ∈ direct.reverse ++ rest, x ∈ g.ids := by
      intro x hx
      rcases List.mem_append.1 hx with hx | hx
      · exact ((mem_dependencies hdirect).1 (List.mem_reverse.1 hx)).mem_ids
      · exact hstack x (List.mem_cons_of_mem _ hx)
    obtain ⟨hfound', hstack', hclosed⟩ := ih direct h hcover' hnext (hhandled.takeUp hdirect)
    refine ⟨fun x hx => hfound' x (List.mem_cons_of_mem _ hx), fun x hx => ?_, hclosed⟩
    rcases List.mem_cons.1 hx with rfl | hx
    · exact hfound' x List.mem_cons_self
    · exact hstack' x (List.mem_append_right _ hx)
  | case4 fresh found crate rest hne hfresh ih =>
    rw [reach, if_neg hne, dif_neg hfresh] at h
    have hcrate : crate ∈ found :=
      (hcover crate (hstack crate List.mem_cons_self)).resolve_left hfresh
    obtain ⟨hfound', hstack', hclosed⟩ := ih h hcover
      (fun x hx => hstack x (List.mem_cons_of_mem _ hx)) (hhandled.drop hcrate)
    refine ⟨hfound', fun x hx => ?_, hclosed⟩
    rcases List.mem_cons.1 hx with rfl | hx
    · exact hfound' x hcrate
    · exact hstack' x hx

end Reach

/-! ### What is collected for a crate -/

variable {all : List CrateId}

/-- The answer is what the traversal has taken up, in the order of the crates. -/
theorem reach_of_transitiveDependencies (h : g.transitiveDependencies id = .ok all) :
    ∃ direct found, g.dependencies id = .ok direct ∧
      g.reach id g.ids [] direct.reverse = .ok found ∧ all = sorted found := by
  obtain ⟨direct, hdirect, h⟩ := ok_of_bind h
  obtain ⟨found, hfound, h⟩ := ok_of_bind h
  cases h
  exact ⟨direct, found, hdirect, hfound, rfl⟩

theorem mem_sorted {crates : List CrateId} {a : CrateId} : a ∈ sorted crates ↔ a ∈ crates :=
  List.mem_mergeSort

/-- Without repetitions, the numbers go up from one crate to the next. -/
theorem pairwise_sorted {crates : List CrateId} (h : crates.Nodup) :
    (sorted crates).Pairwise fun a b => a.index < b.index := by
  have hle : (sorted crates).Pairwise fun a b => decide (a.index ≤ b.index) = true :=
    List.pairwise_mergeSort (fun a b c hab hbc => by simp at *; omega) (fun a b => by simp; omega) _
  have hne : (sorted crates).Nodup := (List.mergeSort_perm _ _).nodup_iff.2 h
  refine (hle.and hne).imp fun {a b} hab => ?_
  have hindex : a.index ≠ b.index := fun heq => hab.2 (congrArg CrateId.mk heq)
  have := of_decide_eq_true hab.1
  omega

theorem nodup_ids (g : CrateGraph) : g.ids.Nodup :=
  List.nodup_range.map fun _ _ h => CrateId.mk.inj h

/-- What is collected for a crate goes up from one crate to the next. -/
theorem pairwise_transitiveDependencies (h : g.transitiveDependencies id = .ok all) :
    all.Pairwise fun a b => a.index < b.index := by
  obtain ⟨direct, found, -, hfound, rfl⟩ := reach_of_transitiveDependencies h
  exact pairwise_sorted (nodup_of_reach hfound g.nodup_ids List.nodup_nil
    fun x hx => absurd hx List.not_mem_nil)

theorem nodup_transitiveDependencies (h : g.transitiveDependencies id = .ok all) : all.Nodup :=
  (pairwise_transitiveDependencies h).imp fun hlt heq => Nat.ne_of_lt hlt (congrArg _ heq)

/-- **What is collected for a crate is what it reaches**, through any number of others. -/
theorem mem_transitiveDependencies (h : g.transitiveDependencies id = .ok all) {d : CrateId} :
    d ∈ all ↔ TransGen g.DependsOn id d := by
  obtain ⟨direct, reached, hdirect, hreach, rfl⟩ := reach_of_transitiveDependencies h
  rw [mem_sorted]
  constructor
  · intro hd
    rcases reachable_of_reach hreach d hd with hd | ⟨s, hs, hsd⟩
    · cases hd
    · exact .head' ((mem_dependencies hdirect).1 (List.mem_reverse.1 hs)) hsd
  · intro hd
    obtain ⟨-, hstack, hclosed⟩ := closed_of_reach hreach (fun x hx => Or.inl hx)
      (fun x hx => ((mem_dependencies hdirect).1 (List.mem_reverse.1 hx)).mem_ids)
      (fun x hx => absurd hx List.not_mem_nil)
    -- Along a row of dependencies one stays among what was taken up, since that is closed.
    induction hd with
    | single hd => exact hstack _ (List.mem_reverse.2 ((mem_dependencies hdirect).2 hd))
    | tail _ hbd ih => exact hclosed _ ih _ hbd

/-- A crate for which this can be collected does not depend on itself, directly or through
others. -/
theorem not_transGen_self (h : g.transitiveDependencies id = .ok all) :
    ¬ TransGen g.DependsOn id id := by
  intro hself
  have hmem := (mem_transitiveDependencies h).2 hself
  obtain ⟨direct, reached, -, hreach, rfl⟩ := reach_of_transitiveDependencies h
  exact not_mem_of_reach hreach List.not_mem_nil (mem_sorted.1 hmem)

end CrateGraph

/-! ### The maps that a build is given -/

variable {g : CrateGraph} {id : CrateId} {name : String} {finished : CrateId → Option CrateMap}

/-- A loop that puts the finished map of each crate into a listing needs all of them, and puts
nothing else there. -/
theorem get?_of_foldlM_insert {ε : Type}
    {step : Listing CrateId CrateMap → CrateId → Except ε (Listing CrateId CrateMap)}
    (hstep : ∀ known d known', step known d = .ok known' →
      ∃ map, finished d = some map ∧ known' = known.insert d map)
    {crates : List CrateId} {known maps : Listing CrateId CrateMap}
    (h : crates.foldlM step known = .ok maps) :
    (∀ d ∈ crates, (finished d).isSome) ∧
      ∀ d, maps.get? d = if d ∈ crates then finished d else known.get? d := by
  induction crates generalizing known with
  | nil =>
    cases h
    exact ⟨fun d hd => absurd hd List.not_mem_nil, fun d => by simp⟩
  | cons e crates ih =>
    rw [List.foldlM_cons] at h
    obtain ⟨known', hknown', h⟩ := ok_of_bind h
    obtain ⟨map, hmap, rfl⟩ := hstep known e known' hknown'
    obtain ⟨hsome, hget⟩ := ih h
    refine ⟨fun d hd => ?_, fun d => ?_⟩
    · rcases List.mem_cons.1 hd with rfl | hd
      · rw [hmap]
        rfl
      · exact hsome d hd
    · rw [hget, Listing.get?_insert]
      by_cases hd : d = e
      · rw [hd, hmap]
        simp
      · simp [hd]

/-- A build is given the finished maps of everything that its crate depends on, and these must all
be there. -/
theorem get?_dependencyMaps {maps : Listing CrateId CrateMap}
    (h : dependencyMaps g id name finished = .ok maps) :
    ∃ all, g.transitiveDependencies id = .ok all ∧ (∀ d ∈ all, (finished d).isSome) ∧
      ∀ d, maps.get? d = if d ∈ all then finished d else none := by
  obtain ⟨all, hall, h⟩ := ok_of_bind h
  refine ⟨all, ok_of_mapError hall, get?_of_foldlM_insert (fun known d known' hknown => ?_) h⟩
  split at hknown
  · next map hmap =>
    cases hknown
    exact ⟨map, hmap, rfl⟩
  · cases hknown

/-- A loop that gives a name to the roots of some crates gives none to anything else. -/
theorem exists_of_foldl_root {step : Listing Name ModuleId → CrateId → Listing Name ModuleId}
    (hstep : ∀ names d name root, (step names d).get? name = some root →
      names.get? name = some root ∨ root = d.root)
    {crates : List CrateId} {names : Listing Name ModuleId} {name : Name} {root : ModuleId}
    (h : (crates.foldl step names).get? name = some root) :
    names.get? name = some root ∨ ∃ d ∈ crates, root = d.root := by
  induction crates generalizing names with
  | nil => exact Or.inl h
  | cons e crates ih =>
    rcases ih h with h | ⟨d, hd, hroot⟩
    · exact (hstep names e name root h).imp_right fun hroot => ⟨e, List.mem_cons_self, hroot⟩
    · exact Or.inr ⟨d, List.mem_cons_of_mem _ hd, hroot⟩

/-- The names that a build is given are those of direct dependencies. -/
theorem exists_dependency_of_directNames {names : Listing Name ModuleId}
    (h : directNames g id = .ok names) {name : Name} {root : ModuleId}
    (hroot : names.get? name = some root) : ∃ d, g.DependsOn id d ∧ root = d.root := by
  obtain ⟨direct, hdirect, h⟩ := ok_of_bind h
  cases h
  refine (exists_of_foldl_root (fun names d name root hget => ?_) hroot).elim (fun hnone => ?_)
    fun ⟨d, hd, hroot⟩ => ⟨d, (CrateGraph.mem_dependencies (ok_of_mapError hdirect)).1 hd, hroot⟩
  · -- What is not in the graph gets no name.
    split at hget
    · rw [Listing.get?_insert] at hget
      split at hget
      · cases hget
        exact Or.inr rfl
      · exact Or.inl hget
    · exact Or.inl hget
  · cases hnone

end CrateScope
