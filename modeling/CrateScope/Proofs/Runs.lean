import CrateScope.Proofs.Opening
import CrateScope.Workspace

/-!
# What can have happened to a workspace

A workspace begins without maps and is then asked for one crate or for all of them, as often as one
likes.  Builds can fail or be stopped at any time, and be asked for again.  Whatever was asked, each
map that is there comes from one build that succeeded, with the maps of an earlier moment.

## Main definitions

* `Workspace.Run` — the workspaces that can come about.

## Main results

* `Workspace.Run.invariant` — what every build of one crate keeps holds in every run.
* `Workspace.Run.built` — each finished view comes from a build that succeeded.
* `Workspace.Run.view_invariant` — what every build leaves, given it of the views before, holds of
  all finished views.
-/

namespace CrateScope

namespace Workspace

variable {graph : CrateGraph} {settings : Settings} {w : Workspace} {id : CrateId} {view : View}

/-- The workspaces that can come about from a graph and some settings.  What the stop signal answers
is open. -/
inductive Run (graph : CrateGraph) (settings : Settings) : Workspace → Prop
  | fresh : Run graph settings { graph, settings }
  | build {w : Workspace} (h : Run graph settings w) (isCancelled : Nat → Bool) (crate : CrateId) :
      Run graph settings (w.build isCancelled crate).workspace
  | buildAll {w : Workspace} (h : Run graph settings w) (isCancelled : CrateId → Nat → Bool) :
      Run graph settings (w.buildAll isCancelled).workspace

/-- A build replaces no finished view. -/
theorem view?_build (isCancelled : Nat → Bool) (crate : CrateId) (h : w.view? id = some view) :
    (w.build isCancelled crate).workspace.view? id = some view := by
  unfold build
  split
  · exact h
  · next hnone =>
    split
    · have hne : id ≠ crate := by
        rintro rfl
        rw [hnone] at h
        cases h
      exact (Listing.get?_insert_of_ne _ _ hne).trans h
    · exact h

theorem map?_build (isCancelled : Nat → Bool) (crate : CrateId) {d : CrateId} {map : CrateMap}
    (h : w.map? d = some map) : (w.build isCancelled crate).workspace.map? d = some map := by
  obtain ⟨view, hview, hmap⟩ := Option.map_eq_some_iff.1 h
  exact Option.map_eq_some_iff.2 ⟨view, view?_build isCancelled crate hview, hmap⟩

/-- A finished view was there before, or it is the one that was built. -/
theorem view?_build_cases {isCancelled : Nat → Bool} {crate : CrateId}
    (h : (w.build isCancelled crate).workspace.view? id = some view) :
    w.view? id = some view ∨
      ∃ built, buildView w.graph id w.map? w.settings isCancelled = .ok built ∧
        view = built.view := by
  unfold build at h
  split at h
  · exact Or.inl h
  · split at h
    · next built hbuilt =>
      unfold view? at h
      rw [Listing.get?_insert] at h
      split at h
      · next hid =>
        cases h
        rw [hid]
        exact Or.inr ⟨built, hbuilt, rfl⟩
      · exact Or.inl h
    · exact Or.inl h

/-- Builds in turn keep what one build keeps. -/
theorem buildEach_keeps {P : Workspace → Prop}
    (hbuild : ∀ w isCancelled crate, P w → P (w.build isCancelled crate).workspace)
    (isCancelled : CrateId → Nat → Bool) (crates : List CrateId) (h : P w) :
    P (buildEach isCancelled w crates).workspace := by
  induction crates generalizing w with
  | nil => exact h
  | cons crate crates ih =>
    have hfirst := hbuild w (isCancelled crate) crate h
    rw [buildEach]
    dsimp only
    split
    · exact hfirst
    · exact ih hfirst

namespace Run

/-- What every build of one crate keeps holds in every run. -/
theorem invariant {P : Workspace → Prop} (hfresh : P { graph, settings })
    (hbuild : ∀ w, Run graph settings w → ∀ isCancelled crate, P w →
      P (w.build isCancelled crate).workspace)
    (h : Run graph settings w) : P w := by
  induction h with
  | fresh => exact hfresh
  | build h isCancelled crate ih => exact hbuild _ h isCancelled crate ih
  | @buildAll w h isCancelled ih =>
    unfold Workspace.buildAll
    split
    · exact ih
    · next order _ =>
      -- The workspaces between the builds are those of a run as well.
      have hboth : Run graph settings w ∧ P w := ⟨h, ih⟩
      exact (buildEach_keeps (P := fun w => Run graph settings w ∧ P w)
        (fun w isCancelled crate hw => ⟨hw.1.build isCancelled crate,
          hbuild w hw.1 isCancelled crate hw.2⟩) isCancelled order hboth).2

/-- The graph and the settings of a workspace stay as they are. -/
theorem given (h : Run graph settings w) : w.graph = graph ∧ w.settings = settings := by
  refine h.invariant (P := fun w => w.graph = graph ∧ w.settings = settings) ⟨rfl, rfl⟩ ?_
  intro w _ isCancelled crate hw
  unfold Workspace.build
  split
  · exact hw
  · split
    · exact hw
    · exact hw

/-- Each finished view comes from a build that succeeded, in an earlier workspace of the run. -/
theorem built (h : Run graph settings w) : ∀ id view, w.view? id = some view →
    ∃ earlier isCancelled built, Run graph settings earlier ∧
      buildView graph id earlier.map? settings isCancelled = .ok built ∧ view = built.view := by
  refine h.invariant (P := fun w => ∀ id view, w.view? id = some view →
    ∃ earlier isCancelled built, Run graph settings earlier ∧
      buildView graph id earlier.map? settings isCancelled = .ok built ∧ view = built.view) ?_ ?_
  · intro id view hview
    cases hview
  · intro w hw isCancelled crate ih id view hview
    rcases view?_build_cases hview with hview | ⟨built, hbuilt, rfl⟩
    · exact ih id view hview
    · obtain ⟨hgraph, hsettings⟩ := hw.given
      rw [hgraph, hsettings] at hbuilt
      exact ⟨w, isCancelled, built, hw, hbuilt, rfl⟩

/-- What every build leaves, given it of the views that were there before, holds of all finished
views. -/
theorem view_invariant {P : CrateId → View → Prop}
    (hbuild : ∀ w, Run graph settings w → (∀ d view, w.view? d = some view → P d view) →
      ∀ id crate start imports past c, graph.crate? id = some crate →
      openBuild graph id crate w.map? settings = .ok (start, imports) →
      Collection.Course settings.globLimit imports start past none c → P id c.view)
    (h : Run graph settings w) : ∀ id view, w.view? id = some view → P id view := by
  refine h.invariant (P := fun w => ∀ id view, w.view? id = some view → P id view) ?_ ?_
  · intro id view hview
    cases hview
  · intro w hw isCancelled crate ih id view hview
    rcases view?_build_cases hview with hview | ⟨built, hbuilt, rfl⟩
    · exact ih id view hview
    · obtain ⟨hgraph, hsettings⟩ := hw.given
      rw [hgraph, hsettings] at hbuilt
      obtain ⟨crate, start, imports, past, outcome, hcrate, hopen, hcourse, rfl⟩ :=
        course_of_buildView hbuilt
      rw [view_closeBuild]
      exact hbuild w hw ih id crate start imports past _ hcrate hopen hcourse

end Run

end Workspace

end CrateScope
