import CrateScope.Proofs.BuildOrder

/-!
# Building everything

The crates of a graph are built in an order in which each comes after all that it depends on.  So
whenever one of them has its turn, the maps that it needs are there, and nothing is left that could
make its build fail but the stop signal and the limit for globs.  Where there is no such order
nothing is built at all; and a crate from which a cycle can be reached is never built, in whatever
order one asks for crates, since whatever it reaches would have been built before it.

## Main definitions

* `BuildError.Interrupts` — the errors that stop a build for which everything was there.

## Main results

* `buildView_interrupted` — a build that is given all maps that it needs can only be interrupted.
* `Workspace.isSome_view?_buildEach` — of which crates there are maps after some were built in turn.
* `Workspace.Run.build_interrupted` — in its turn, a crate can be built unless it is interrupted.
* `Workspace.Run.view?_eq_none` — what reaches a cycle is never built.
* `Workspace.buildAll_is_complete` — all this together.
-/

namespace CrateScope

open Relation

/-- A build was stopped, or handed names on too often. -/
def BuildError.Interrupts (e : BuildError) : Prop :=
  e = .cancelled ∨ ∃ crate module limit, e = .globRecursionLimit crate module limit

namespace BuildError

theorem not_interrupts_graph {e : GraphError} : ¬ (graph e).Interrupts := by
  rintro (h | ⟨_, _, _, h⟩) <;> cases h

theorem not_interrupts_dependencyNotBuilt {crate dependency : String} :
    ¬ (dependencyNotBuilt crate dependency).Interrupts := by
  rintro (h | ⟨_, _, _, h⟩) <;> cases h

theorem not_interrupts_unknownCrate {id : CrateId} : ¬ (unknownCrate id).Interrupts := by
  rintro (h | ⟨_, _, _, h⟩) <;> cases h

end BuildError

/-! ### Collections that fail -/

namespace Collection

variable {limit : Nat} {c : Collection} {i : Import} {meaning : Meaning} {failure : Failure}

/-- An update fails only by going too deep. -/
theorem update_error {depth : Nat} {m : LocalId} {news : List (Name × Meaning)} {origin : Origin}
    (h : update limit depth c m news origin = .error failure) : failure.error.Interrupts := by
  induction depth generalizing c m news origin with
  | zero =>
    cases h
    exact Or.inr ⟨_, _, _, rfl⟩
  | succ depth ih =>
    rw [update] at h
    simp only at h
    split at h
    · cases h
    · obtain ⟨c₁, edge, -, h⟩ := error_of_foldlM h
      unfold handOn at h
      simp only at h
      split at h
      · cases h
      · exact ih h

theorem bindName_error (h : c.bindName limit i meaning = .error failure) :
    failure.error.Interrupts := by
  unfold bindName at h
  split at h
  · cases h
  · exact update_error h

theorem openGlob_error (h : c.openGlob limit i meaning = .error failure) :
    failure.error.Interrupts := by
  unfold openGlob at h
  split at h
  · cases h
  · split at h
    · cases h
    · rcases error_of_bind h with h | ⟨_, -, h⟩
      · exact update_error h
      · cases h

theorem settleOne_error {status : ImportStatus}
    (h : c.settleOne limit i status meaning = .error failure) : failure.error.Interrupts := by
  rcases error_of_bind h with h | ⟨_, -, h⟩
  · unfold carryOut at h
    split at h
    · exact openGlob_error h
    · exact bindName_error h
    · exact bindName_error h
  · cases h

theorem pass_error {waiting : List Import} (h : pass limit c waiting = .error failure) :
    failure.error.Interrupts := by
  induction waiting generalizing c with
  | nil => cases h
  | cons i rest ih =>
    rw [pass] at h
    simp only at h
    split at h
    · rcases error_of_bind h with h | ⟨_, -, h⟩
      · exact ih h
      · cases h
    · rcases error_of_bind h with h | ⟨_, -, h⟩
      · exact settleOne_error h
      · exact ih h

/-- Passes over imports fail only by being interrupted, before a pass or in it. -/
theorem settle_interrupted {isCancelled : Nat → Bool} {number : Nat} {waiting : List Import}
    (h : settle limit isCancelled number waiting c = .error failure) :
    failure.error.Interrupts := by
  induction hn : waiting.length using Nat.strongRecOn generalizing waiting number c with
  | ind n ih =>
    rw [settle] at h
    split at h
    · cases h
      exact Or.inl rfl
    · split at h
      · next hpass =>
        cases h
        exact pass_error hpass
      · next d left _ =>
        simp only at h
        split at h
        · next hlt => exact ih left.length (hn ▸ hlt) h rfl
        · cases h

end Collection

/-! ### Builds that are given all maps that they need -/

section Builds

variable {g : CrateGraph} {id : CrateId} {finished : CrateId → Option CrateMap}
  {settings : Settings} {isCancelled : Nat → Bool} {failure : Failure} {all : List CrateId}

/-- Where it is known what a crate reaches, its build does not come to its imports only if a map is
missing. -/
theorem exists_missing_of_openBuild {crate : CrateSource}
    (hall : g.transitiveDependencies id = .ok all)
    (h : openBuild g id crate finished settings = .error failure) :
    ∃ d ∈ all, finished d = none := by
  rcases error_of_bind h with h | ⟨maps, -, h⟩
  · obtain ⟨e, hmaps, -⟩ := error_of_mapError h
    rcases error_of_bind hmaps with h | ⟨all', hall', h⟩
    · obtain ⟨e', hreach, -⟩ := error_of_mapError h
      rw [hall] at hreach
      cases hreach
    · cases hall.symm.trans (ok_of_mapError hall')
      obtain ⟨maps, d, hd, h⟩ := error_of_foldlM h
      split at h
      · cases h
      · next hnone => exact ⟨d, hd, hnone⟩
  · -- The names of the direct dependencies were looked up before, with success.
    obtain ⟨direct, hdirect, -⟩ := ok_of_bind hall
    rcases error_of_bind h with h | ⟨names, -, h⟩
    · obtain ⟨e, hnames, -⟩ := error_of_mapError h
      rcases error_of_bind hnames with h | ⟨direct', -, h⟩
      · obtain ⟨e', hlookup, -⟩ := error_of_mapError h
        rw [hdirect] at hlookup
        cases hlookup
      · cases h
    · cases h

/-- A build of a known crate that is given all maps that it needs can only be interrupted. -/
theorem buildView_interrupted (hcrate : (g.crate? id).isSome)
    (hall : g.transitiveDependencies id = .ok all) (hsome : ∀ d ∈ all, (finished d).isSome)
    (h : buildView g id finished settings isCancelled = .error failure) :
    failure.error.Interrupts := by
  unfold buildView at h
  split at h
  · next hnone =>
    rw [hnone] at hcrate
    cases hcrate
  · split at h
    · cases h
      exact Or.inl rfl
    · rcases error_of_bind h with h | ⟨_, -, h⟩
      · obtain ⟨d, hd, hnone⟩ := exists_missing_of_openBuild hall h
        have hfinished := hsome d hd
        rw [hnone] at hfinished
        cases hfinished
      · rcases error_of_bind h with h | ⟨_, -, h⟩
        · rcases error_of_bind h with h | ⟨_, -, h⟩
          · exact Collection.settle_interrupted h
          · cases h
        · cases h

end Builds

namespace Workspace

variable {graph : CrateGraph} {settings : Settings} {w : Workspace} {id d : CrateId}

/-! ### Which crates are built -/

/-- A build adds the view of its crate at most. -/
theorem eq_of_view?_build {isCancelled : Nat → Bool} {crate : CrateId}
    (h : ((w.build isCancelled crate).workspace.view? d).isSome) :
    (w.view? d).isSome ∨ d = crate := by
  unfold build at h
  split at h
  · exact Or.inl h
  · split at h
    · unfold view? at h
      rw [Listing.get?_insert] at h
      split at h
      · next heq => exact Or.inr heq
      · exact Or.inl h
    · exact Or.inl h

/-- Builds in turn that all succeed leave the views of their crates beside those that were there
before, and no others. -/
theorem isSome_view?_buildEach {isCancelled : CrateId → Nat → Bool} {crates : List CrateId}
    (h : (w.buildEach isCancelled crates).result = .ok ()) :
    ((w.buildEach isCancelled crates).workspace.view? d).isSome ↔
      (w.view? d).isSome ∨ d ∈ crates := by
  induction crates generalizing w with
  | nil => simp [buildEach]
  | cons crate crates ih =>
    cases hfirst : (w.build (isCancelled crate) crate).result with
    | error e =>
      simp only [buildEach, hfirst] at h
      cases h
    | ok view =>
      simp only [buildEach, hfirst] at h ⊢
      rw [ih h, List.mem_cons]
      have hcrate := view?_build_of_ok hfirst
      constructor
      · rintro (hview | hd)
        · exact (eq_of_view?_build hview).imp_right Or.inl
        · exact Or.inr (Or.inr hd)
      · rintro (hview | rfl | hd)
        · obtain ⟨view', hview'⟩ := Option.isSome_iff_exists.1 hview
          rw [view?_build _ _ hview']
          exact Or.inl rfl
        · rw [hcrate]
          exact Or.inl rfl
        · exact Or.inr hd

/-- Where the crates cannot be put in order, nothing is built. -/
theorem buildAll_of_error {isCancelled : CrateId → Nat → Bool} {e : GraphError}
    (h : w.graph.topologicalOrder = .error e) :
    w.buildAll isCancelled = { workspace := w, log := #[], result := .error (.graph e) } := by
  unfold buildAll
  rw [h]

namespace Run

/-- When a crate has its turn in the order of building, its build can only be interrupted. -/
theorem build_interrupted (h : Run graph settings w) {before after : List CrateId}
    (horder : graph.topologicalOrder = .ok (before ++ id :: after))
    (hbefore : ∀ d ∈ before, (w.view? d).isSome) {isCancelled : Nat → Bool} {e : BuildError}
    (he : (w.build isCancelled id).result = .error e) : e.Interrupts := by
  obtain ⟨hgraph, -⟩ := h.given
  have hknown := CrateGraph.known_of_topologicalOrder horder
  have hid : id ∈ graph.ids :=
    ((CrateGraph.prolongs_of_topologicalOrder horder).1.added id
      (List.mem_append_right _ List.mem_cons_self)).resolve_left List.not_mem_nil
  obtain ⟨crate, hcrate⟩ := CrateGraph.exists_crate?_of_mem_ids hid
  obtain ⟨all, hall⟩ := CrateGraph.transitiveDependencies_isOk_iff.2
    ⟨fun x _ => hknown x, CrateGraph.acyclic_of_topologicalOrder horder id⟩
  have hsome : ∀ d ∈ all, (w.map? d).isSome := by
    intro d hd
    rw [isSome_map?]
    refine hbefore d ?_
    exact (CrateGraph.respects_of_topologicalOrder horder).mem_of_transGen rfl
      ((CrateGraph.mem_transitiveDependencies hall).1 hd)
  unfold Workspace.build at he
  split at he
  · cases he
  · split at he
    · cases he
    · next hfailure =>
      cases he
      rw [hgraph] at hfailure
      exact buildView_interrupted (by rw [hcrate]; rfl) hall hsome hfailure

/-- With a crate it is known what it reaches. -/
theorem transitiveDependencies_isOk (h : Run graph settings w) (hview : (w.view? id).isSome) :
    ∃ all, graph.transitiveDependencies id = .ok all := by
  obtain ⟨view, hview⟩ := Option.isSome_iff_exists.1 hview
  obtain ⟨earlier, isCancelled, built, -, hbuilt, -⟩ := h.built id view hview
  obtain ⟨crate, start, imports, past, outcome, -, hopen, -, -⟩ := course_of_buildView hbuilt
  obtain ⟨maps, names, prelude, log, hmaps, -⟩ := openBuild_ok hopen
  obtain ⟨all, hall, -⟩ := get?_dependencyMaps hmaps
  exact ⟨all, hall⟩

/-- A crate from which a cycle can be reached is never built. -/
theorem view?_eq_none (h : Run graph settings w) {a : CrateId}
    (hreach : ReflTransGen graph.Lists id a) (hcycle : TransGen graph.Lists a a) :
    w.view? id = none := by
  by_contra hne
  obtain ⟨view, hview⟩ := Option.ne_none_iff_exists'.1 hne
  obtain ⟨all, hall⟩ := h.transitiveDependencies_isOk (Option.isSome_iff_exists.2 ⟨view, hview⟩)
  obtain ⟨hreached, -⟩ := CrateGraph.reached_of_transitiveDependencies hall hreach
  -- Then the crate on the cycle was built as well, and its own search came to an end.
  have ha : (w.view? a).isSome := by
    rcases reflTransGen_iff_eq_or_transGen.1 hreached with rfl | htrans
    · rw [hview]
      rfl
    · exact h.isSome_view? hview htrans
  obtain ⟨hknown, hself⟩ :=
    CrateGraph.transitiveDependencies_isOk_iff.1 (h.transitiveDependencies_isOk ha)
  exact hself hcycle

/-- When the building of all crates fails, either they cannot be put in order and nothing was built,
or one build was interrupted.  Then the crates before that one have views, and no others that had
none before. -/
theorem buildAll_error_cases (h : Run graph settings w) {isCancelled : CrateId → Nat → Bool}
    {e : BuildError} (he : (w.buildAll isCancelled).result = .error e) :
    (∃ e', graph.topologicalOrder = .error e' ∧ e = .graph e' ∧
        (w.buildAll isCancelled).workspace = w) ∨
      e.Interrupts ∧ ∃ built failing rest,
        graph.topologicalOrder = .ok (built ++ failing :: rest) ∧
        (w.buildAll isCancelled).workspace.view? failing = none ∧
        ∀ d, ((w.buildAll isCancelled).workspace.view? d).isSome ↔
          (w.view? d).isSome ∨ d ∈ built := by
  obtain ⟨hgraph, -⟩ := h.given
  rw [← hgraph]
  rcases buildAll_error he with ⟨⟨e', horder⟩, hsame⟩ |
    ⟨built, failing, rest, horder, hbuilt, hfail, heq⟩
  · rw [buildAll_of_error horder] at he
    cases he
    exact Or.inl ⟨e', horder, rfl, hsame⟩
  · refine Or.inr ⟨?_, built, failing, rest, horder, ?_, fun d => ?_⟩
    · rw [hgraph] at horder
      refine (h.buildEach isCancelled built).build_interrupted horder (fun d hd => ?_) hfail
      exact (isSome_view?_buildEach hbuilt).2 (Or.inr hd)
    · rw [heq]
      exact (build_error hfail).2
    · rw [heq]
      exact isSome_view?_buildEach hbuilt

/-- When all builds succeed, every crate of the graph has a view. -/
theorem isSome_view?_buildAll (h : Run graph settings w) {isCancelled : CrateId → Nat → Bool}
    (hok : (w.buildAll isCancelled).result = .ok ()) (hd : (graph.crate? d).isSome) :
    ((w.buildAll isCancelled).workspace.view? d).isSome := by
  obtain ⟨hgraph, -⟩ := h.given
  unfold Workspace.buildAll at hok ⊢
  split at hok
  · cases hok
  · next order horder =>
    rw [hgraph] at horder
    obtain ⟨crate, hcrate⟩ := Option.isSome_iff_exists.1 hd
    obtain ⟨-, hall⟩ := CrateGraph.prolongs_of_topologicalOrder horder
    exact (isSome_view?_buildEach hok).2 (Or.inr (hall d (CrateGraph.mem_ids_of_crate? hcrate)))

end Run

/-- **All crates are built, or there is a reason.**  In every workspace that can come about,
whatever was asked of it before and whatever the stop signal answers:

* Building all crates never fails for want of the map of a dependency, nor for want of a crate.
* It fails with an error of the graph exactly when a crate lists an unknown name or lies on a cycle,
  and then nothing is built.
* Where it succeeds, every crate of the graph has a view.
* Where it is stopped, or hands names on too often, the crates that have a view are those that had
  one before and those at the head of the order of building, up to the one that failed; the views
  that were there before are as they were.
* A crate from which a cycle can be reached is never built. -/
theorem buildAll_is_complete (h : Run graph settings w) :
    (∀ isCancelled, let after := w.buildAll isCancelled
      (∀ crate dependency, after.result ≠ .error (.dependencyNotBuilt crate dependency)) ∧
      (∀ crate, after.result ≠ .error (.unknownCrate crate)) ∧
      ((∃ e, after.result = .error (.graph e)) ↔
        (∃ a, graph.ListsUnknown a) ∨ ∃ a, TransGen graph.Lists a a) ∧
      (∀ e, after.result = .error (.graph e) → after.workspace = w) ∧
      (after.result = .ok () →
        ∀ d, (graph.crate? d).isSome → (after.workspace.view? d).isSome) ∧
      (∀ e, e.Interrupts → after.result = .error e →
        ∃ built failing rest, graph.topologicalOrder = .ok (built ++ failing :: rest) ∧
          after.workspace.view? failing = none ∧
          ∀ d, (after.workspace.view? d).isSome ↔ (w.view? d).isSome ∨ d ∈ built) ∧
      ∀ d view, w.view? d = some view → after.workspace.view? d = some view) ∧
    ∀ d a, ReflTransGen graph.Lists d a → TransGen graph.Lists a a → w.view? d = none := by
  refine ⟨fun isCancelled => ⟨?notBuilt, ?unknown, ⟨?reason, ?refused⟩, ?unchanged, ?all,
    ?interrupted, fun d view => view?_buildAll isCancelled⟩, fun d a => h.view?_eq_none⟩
  case notBuilt =>
    intro crate dependency he
    rcases h.buildAll_error_cases he with ⟨e', -, heq, -⟩ | ⟨hinterrupts, -⟩
    · cases heq
    · exact BuildError.not_interrupts_dependencyNotBuilt hinterrupts
  case unknown =>
    intro crate he
    rcases h.buildAll_error_cases he with ⟨e', -, heq, -⟩ | ⟨hinterrupts, -⟩
    · cases heq
    · exact BuildError.not_interrupts_unknownCrate hinterrupts
  case reason =>
    rintro ⟨e, he⟩
    rcases h.buildAll_error_cases he with ⟨e', horder, -⟩ | ⟨hinterrupts, -⟩
    · exact graph.topologicalOrder_isError_iff.1 ⟨e', horder⟩
    · exact absurd hinterrupts BuildError.not_interrupts_graph
  case refused =>
    intro hwrong
    obtain ⟨e, horder⟩ := graph.topologicalOrder_isError_iff.2 hwrong
    obtain ⟨hgraph, -⟩ := h.given
    rw [← hgraph] at horder
    exact ⟨e, by rw [buildAll_of_error horder]⟩
  case unchanged =>
    intro e he
    rcases h.buildAll_error_cases he with ⟨e', -, -, hsame⟩ | ⟨hinterrupts, -⟩
    · exact hsame
    · exact absurd hinterrupts BuildError.not_interrupts_graph
  case all => exact fun hok d => h.isSome_view?_buildAll hok
  case interrupted =>
    intro e hinterrupts he
    rcases h.buildAll_error_cases he with ⟨e', -, rfl, -⟩ | ⟨-, hprefix⟩
    · exact absurd hinterrupts BuildError.not_interrupts_graph
    · exact hprefix

/-- A stop signal that lets only the first crate through. -/
def onlyFirst (crate : CrateId) (_ : Nat) : Bool := crate.index ≠ 0

/-- The lender is built and the borrower is stopped in its turn.  In the graph with a cycle nothing
is built, and the crate outside the cycle, which reaches it, cannot be built at all. -/
theorem buildAll_is_complete_stopped :
    (∃ w after, Run lendingGraph {} w ∧ after = w.buildAll onlyFirst ∧
      after.result = .error .cancelled ∧ (after.workspace.view? ⟨0⟩).isSome ∧
      ∃ built failing rest, lendingGraph.topologicalOrder = .ok (built ++ failing :: rest) ∧
        after.workspace.view? failing = none ∧
        ∀ d, (after.workspace.view? d).isSome ↔ (w.view? d).isSome ∨ d ∈ built) ∧
    (∃ w, Run CrateGraph.knottedGraph {} w ∧
      ∃ e, (w.buildAll fun _ _ => false).result = .error (.graph e)) ∧
    ∀ w, Run CrateGraph.knottedGraph {} w → w.view? ⟨0⟩ = none := by
  have hcycle : TransGen CrateGraph.knottedGraph.Lists ⟨1⟩ ⟨1⟩ :=
    .tail (.single (show CrateGraph.knottedGraph.Lists ⟨1⟩ ⟨2⟩ by decide)) (by decide)
  refine ⟨⟨_, _, .fresh, rfl, ?stopped, by cbv, ?head⟩, ⟨_, .fresh, ?refused⟩, fun w hw => ?never⟩
  case stopped => cbv
  case head =>
    obtain ⟨-, -, -, -, -, hprefix, -⟩ := (buildAll_is_complete .fresh).1 onlyFirst
    exact hprefix .cancelled (Or.inl rfl) (by cbv)
  case refused =>
    obtain ⟨-, -, hrefused, -⟩ := (buildAll_is_complete .fresh).1 fun _ _ => false
    exact hrefused.2 (Or.inr ⟨⟨1⟩, hcycle⟩)
  case never => exact (buildAll_is_complete hw).2 ⟨0⟩ ⟨1⟩ (.single (by decide)) hcycle

end Workspace

end CrateScope
