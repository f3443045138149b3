import CrateScope.Proofs.GlobDepth
import CrateScope.Proofs.Heredity

/-!
# The history of a workspace leaves no trace

Which crates were asked for first, which builds were stopped and which failed does not show in the
finished maps.  A build reads of the maps that it is given only those of the crates that its crate
reaches, and where it succeeds its answer is one and the same under every stop signal.  So by
induction over a run each finished view is the one that a workspace holds in which only the crates
that are needed were built, each after those it depends on.

## Main definitions

* `CrateGraph.Respects` — an order in which each crate comes after those it depends on.
* `Workspace.fromScratch` — building some crates in a workspace without maps, never stopped.

## Main results

* `buildView_congr` — a build reads only the maps of the crates that its crate reaches.
* `buildView_never` — what a build comes to it comes to if it is never asked to stop.
* `Workspace.Run.agree` — finished views of one crate are equal, whatever the runs they come from.
* `Workspace.maps_ignore_history` — all this together, with what a call that fails leaves.
-/

namespace CrateScope

open Relation

/-! ### What a build reads -/

section Builds

variable {g : CrateGraph} {id : CrateId} {finished finished' : CrateId → Option CrateMap}
  {settings : Settings} {isCancelled : Nat → Bool}

theorem dependencyMaps_congr (name : String)
    (h : ∀ d, TransGen g.DependsOn id d → finished d = finished' d) :
    dependencyMaps g id name finished = dependencyMaps g id name finished' := by
  unfold dependencyMaps
  cases hall : g.transitiveDependencies id with
  | error e => rfl
  | ok all =>
    have hread : ∀ d ∈ all, finished d = finished' d := fun d hd =>
      h d ((CrateGraph.mem_transitiveDependencies hall).1 hd)
    change all.foldlM _ _ = all.foldlM _ _
    -- Each round of the loop reads the map of the crate that it comes to, and of no other.
    clear hall
    generalize (∅ : Listing CrateId CrateMap) = known
    induction all generalizing known with
    | nil => rfl
    | cons d all ih =>
      rw [List.foldlM_cons, List.foldlM_cons, hread d List.mem_cons_self]
      refine bind_congr fun known' => ?_
      exact ih (fun e he => hread e (List.mem_cons_of_mem _ he)) known'

theorem openBuild_congr (crate : CrateSource)
    (h : ∀ d, TransGen g.DependsOn id d → finished d = finished' d) :
    openBuild g id crate finished settings = openBuild g id crate finished' settings := by
  unfold openBuild
  rw [dependencyMaps_congr crate.name h]

/-- A build reads only the maps of the crates that its crate reaches. -/
theorem buildView_congr (h : ∀ d, TransGen g.DependsOn id d → finished d = finished' d) :
    buildView g id finished settings isCancelled
      = buildView g id finished' settings isCancelled := by
  unfold buildView
  simp only [openBuild_congr _ h]

/-- What a collection of imports comes to it comes to if it is never asked to stop. -/
theorem Collection.settle_never {limit number : Nat} {waiting : List Import} {c : Collection}
    {o : Outcome} (h : settle limit isCancelled number waiting c = .ok o) :
    settle limit (fun _ => false) number waiting c = .ok o := by
  induction hn : waiting.length using Nat.strongRecOn generalizing waiting number c with
  | ind n ih =>
    rw [settle] at h ⊢
    split at h
    · cases h
    · rw [if_neg Bool.false_ne_true]
      cases hp : pass limit c waiting with
      | error e =>
        rw [hp] at h
        cases h
      | ok r =>
        obtain ⟨d, left⟩ := r
        rw [hp] at h
        simp only at h ⊢
        split at h
        · next hlt =>
          rw [if_pos hlt]
          exact ih left.length (hn ▸ hlt) h rfl
        · next hge =>
          rw [if_neg hge]
          exact h

theorem Collection.run_never {limit : Nat} {imports : List Import} {c : Collection} {o : Outcome}
    (h : run limit isCancelled imports c = .ok o) :
    run limit (fun _ => false) imports c = .ok o := by
  obtain ⟨settled, hsettle, h⟩ := ok_of_bind h
  unfold run
  rw [settle_never hsettle]
  exact h

/-- What a build comes to it comes to if it is never asked to stop. -/
theorem buildView_never {built : Built}
    (h : buildView g id finished settings isCancelled = .ok built) :
    buildView g id finished settings (fun _ => false) = .ok built := by
  unfold buildView at h ⊢
  split at h
  · cases h
  · split at h
    · cases h
    · rw [if_neg Bool.false_ne_true]
      refine bind_mono (fun _ hopen => hopen) (fun opened h => ?_) h
      exact bind_mono (fun _ => Collection.run_never) (fun _ h => h) h

/-- A build that succeeds was given the maps of all crates that its crate reaches. -/
theorem isSome_of_buildView {built : Built}
    (h : buildView g id finished settings isCancelled = .ok built) {d : CrateId}
    (hd : TransGen g.DependsOn id d) : (finished d).isSome := by
  obtain ⟨crate, start, imports, past, outcome, -, hopen, -, -⟩ := course_of_buildView h
  obtain ⟨maps, names, prelude, log, hmaps, -⟩ := openBuild_ok hopen
  obtain ⟨all, hall, hsome, -⟩ := get?_dependencyMaps hmaps
  exact hsome d ((CrateGraph.mem_transitiveDependencies hall).2 hd)

end Builds

/-! ### Orders of building -/

namespace CrateGraph

variable {g : CrateGraph} {order before after : List CrateId}

/-- Each crate of the order comes after those that it depends on. -/
def Respects (g : CrateGraph) (order : List CrateId) : Prop :=
  ∀ before d after, order = before ++ d :: after → ∀ e, g.DependsOn d e → e ∈ before

/-- Then it comes after everything that it reaches. -/
theorem Respects.mem_of_transGen (h : g.Respects order) {d e : CrateId}
    (horder : order = before ++ d :: after) (he : TransGen g.DependsOn d e) : e ∈ before := by
  induction he with
  | single he => exact h before d after horder _ he
  | @tail b e _ hbe ih =>
    obtain ⟨earlier, later, rfl⟩ := List.append_of_mem ih
    refine List.mem_append_left _ (h earlier b (later ++ d :: after) ?_ e hbe)
    rw [horder, List.append_assoc, List.cons_append]

theorem Respects.nil : g.Respects [] := by
  intro before d after h
  cases before <;> cases h

/-- A crate can follow once everything that it depends on is there. -/
theorem Respects.concat {id : CrateId} (h : g.Respects order)
    (hid : ∀ e, g.DependsOn id e → e ∈ order) : g.Respects (order ++ [id]) := by
  intro before d after horder e he
  rcases List.eq_nil_or_concat' after with rfl | ⟨after', last, rfl⟩
  · obtain ⟨rfl, hd⟩ := List.append_inj_left' horder rfl, List.append_inj_right' horder rfl
    cases hd
    exact hid e he
  · rw [← List.cons_append, ← List.append_assoc] at horder
    exact h before d after' (List.append_inj_left' horder rfl) e he

/-- What is left of an order is one if nothing is left out that something left depends on. -/
theorem Respects.filter (h : g.Respects order) {p : CrateId → Bool}
    (hp : ∀ d e, p d = true → g.DependsOn d e → p e = true) : g.Respects (order.filter p) := by
  intro before d after horder e he
  obtain ⟨before', rest, rfl, rfl, hrest⟩ := List.filter_eq_append_iff.1 horder
  obtain ⟨skipped, after', rfl, hskipped, hd, -⟩ := List.filter_eq_cons_iff.1 hrest
  have hpe := hp d e hd he
  have hmem := h (before' ++ skipped) d after' (List.append_assoc ..).symm e he
  rcases List.mem_append.1 hmem with hmem | hmem
  · exact List.mem_filter.2 ⟨hmem, hpe⟩
  · exact absurd hpe (hskipped e hmem)

end CrateGraph

/-! ### Finished views -/

namespace Workspace

variable {graph : CrateGraph} {settings : Settings} {w w' : Workspace} {id : CrateId}
  {view view' : View}

theorem isSome_map? : (w.map? id).isSome = (w.view? id).isSome := Option.isSome_map

/-- Builds in turn replace no finished view. -/
theorem view?_buildEach (isCancelled : CrateId → Nat → Bool) (crates : List CrateId)
    (h : w.view? id = some view) :
    (w.buildEach isCancelled crates).workspace.view? id = some view :=
  buildEach_keeps (P := fun w => w.view? id = some view)
    (fun _ isCancelled crate => view?_build isCancelled crate) isCancelled crates h

theorem view?_buildAll (isCancelled : CrateId → Nat → Bool) (h : w.view? id = some view) :
    (w.buildAll isCancelled).workspace.view? id = some view := by
  unfold buildAll
  split
  · exact h
  · exact view?_buildEach isCancelled _ h

/-- A build that fails changes nothing, and there was no view of its crate. -/
theorem build_error {isCancelled : Nat → Bool} {e : BuildError}
    (h : (w.build isCancelled id).result = .error e) :
    (w.build isCancelled id).workspace = w ∧ w.view? id = none := by
  unfold build at h ⊢
  split at h
  · cases h
  · next hnone =>
    split at h
    · cases h
    · simp only [hnone, and_self]

/-- A build that succeeds leaves the view that it answers. -/
theorem view?_build_of_ok {isCancelled : Nat → Bool}
    (h : (w.build isCancelled id).result = .ok view) :
    (w.build isCancelled id).workspace.view? id = some view := by
  unfold build at h ⊢
  split at h
  · next hsome =>
    cases h
    simp only [hsome]
  · next hnone =>
    split at h
    · next built hbuilt =>
      cases h
      exact Listing.get?_insert_self _ _ _
    · cases h

/-- Builds in turn that fail were stopped by one of them.  Those before it succeeded, and it changed
nothing. -/
theorem buildEach_error {isCancelled : CrateId → Nat → Bool} {crates : List CrateId}
    {e : BuildError} (h : (w.buildEach isCancelled crates).result = .error e) :
    ∃ before failing after, crates = before ++ failing :: after ∧
      (w.buildEach isCancelled before).result = .ok () ∧
      ((w.buildEach isCancelled before).workspace.build (isCancelled failing) failing).result
        = .error e ∧
      (w.buildEach isCancelled crates).workspace
        = (w.buildEach isCancelled before).workspace := by
  induction crates generalizing w with
  | nil => cases h
  | cons crate crates ih =>
    cases hfirst : (w.build (isCancelled crate) crate).result with
    | error e' =>
      simp only [buildEach, hfirst] at h ⊢
      cases h
      exact ⟨[], crate, crates, rfl, rfl, hfirst, (build_error hfirst).1⟩
    | ok view =>
      simp only [buildEach, hfirst] at h ⊢
      obtain ⟨before, failing, after, rfl, hbefore, hfailing, heq⟩ := ih h
      refine ⟨crate :: before, failing, after, rfl, ?_⟩
      simp only [buildEach, hfirst]
      exact ⟨hbefore, hfailing, heq⟩

/-- What is there after some crates were built in turn in a workspace without maps, where no build
is asked to stop. -/
def fromScratch (graph : CrateGraph) (settings : Settings) (order : List CrateId) : Outcome Unit :=
  buildEach (fun _ _ => false) { graph, settings } order

namespace Run

theorem buildEach (h : Run graph settings w) (isCancelled : CrateId → Nat → Bool)
    (crates : List CrateId) : Run graph settings (w.buildEach isCancelled crates).workspace :=
  buildEach_keeps (fun _ isCancelled crate hw => hw.build isCancelled crate) isCancelled crates h

/-- With a crate everything that it reaches is finished. -/
theorem isSome_view? (h : Run graph settings w) (hview : w.view? id = some view) {d : CrateId}
    (hd : TransGen graph.DependsOn id d) : (w.view? d).isSome := by
  obtain ⟨hcrate, -⟩ := h.orderly hview
  rw [← isSome_map?]
  exact (h.linked hview).built d (hcrate ▸ hd)

/-- **Finished views of one crate are equal**, whatever the runs they come from. -/
theorem agree (h : Run graph settings w) (h' : Run graph settings w')
    (hview : w.view? id = some view) (hview' : w'.view? id = some view') : view = view' := by
  -- The induction is on the first run.  The second one is open, since the view there was built
  -- from the views of an earlier workspace.
  refine h.invariant (P := fun w => ∀ w', Run graph settings w' → ∀ id view view',
    w.view? id = some view → w'.view? id = some view' → view = view') ?_ ?_ w' h' id view view'
    hview hview'
  · intro w' _ id view view' hview
    cases hview
  · intro w hw isCancelled crate ih w' hw' id view view' hview hview'
    have hsettings := hw.given
    rcases view?_build_cases hview with hview | ⟨built, hbuilt, rfl⟩
    · exact ih w' hw' id view view' hview hview'
    · obtain ⟨earlier, isCancelled', built', hearlier, hbuilt', rfl⟩ := hw'.built id view' hview'
      rw [hsettings.1, hsettings.2] at hbuilt
      -- Both builds were given the maps of the crates that are reached, and these are equal.
      have hread : ∀ d, TransGen graph.DependsOn id d → w.map? d = earlier.map? d := by
        intro d hd
        obtain ⟨v, hv⟩ := Option.isSome_iff_exists.1 (isSome_of_buildView hbuilt hd)
        obtain ⟨v', hv'⟩ := Option.isSome_iff_exists.1 (isSome_of_buildView hbuilt' hd)
        obtain ⟨sub, hsub, rfl⟩ := Option.map_eq_some_iff.1 hv
        obtain ⟨sub', hsub', rfl⟩ := Option.map_eq_some_iff.1 hv'
        rw [hv, hv', ih earlier hearlier d sub sub' hsub hsub']
      rw [buildView_congr hread] at hbuilt
      rw [buildView_unique (Nat.le_refl settings.globLimit) hbuilt hbuilt']

/-- A crate that is finished in one run can be built in any other once everything is there that it
reaches, and comes to the same view. -/
theorem build_again (h : Run graph settings w) (h' : Run graph settings w')
    (hview : w.view? id = some view)
    (hdeps : ∀ d, TransGen graph.DependsOn id d → (w'.view? d).isSome) :
    (w'.build (fun _ => false) id).result = .ok view := by
  obtain ⟨hgraph, hsettings⟩ := h'.given
  unfold Workspace.build
  split
  · next view' hview' =>
    rw [h.agree h' hview hview']
  · obtain ⟨earlier, isCancelled, built, hearlier, hbuilt, rfl⟩ := h.built id view hview
    have hread : ∀ d, TransGen graph.DependsOn id d → earlier.map? d = w'.map? d := by
      intro d hd
      have hsome := isSome_of_buildView hbuilt hd
      rw [isSome_map?] at hsome
      obtain ⟨sub, hsub⟩ := Option.isSome_iff_exists.1 hsome
      obtain ⟨sub', hsub'⟩ := Option.isSome_iff_exists.1 (hdeps d hd)
      unfold map?
      rw [hsub, hsub', hearlier.agree h' hsub hsub']
    rw [buildView_congr hread] at hbuilt
    rw [hgraph, hsettings, buildView_never hbuilt]

/-- Crates that are finished in one run can be built in turn in any other, in an order that their
dependencies allow, and come to the same views. -/
theorem buildEach_again (h : Run graph settings w) {done order : List CrateId}
    (hrespects : graph.Respects (done ++ order)) (horder : ∀ d ∈ order, (w.view? d).isSome)
    (h' : Run graph settings w') (hdone : ∀ d ∈ done, (w'.view? d).isSome) :
    (w'.buildEach (fun _ _ => false) order).result = .ok () ∧
      ∀ d ∈ order, (w'.buildEach (fun _ _ => false) order).workspace.view? d = w.view? d := by
  induction order generalizing done w' with
  | nil => exact ⟨rfl, fun d hd => absurd hd List.not_mem_nil⟩
  | cons crate order ih =>
    obtain ⟨view, hview⟩ := Option.isSome_iff_exists.1 (horder crate List.mem_cons_self)
    have hbuilt := h.build_again h' hview fun d hd =>
      hdone d (hrespects.mem_of_transGen rfl hd)
    have hcrate := view?_build_of_ok hbuilt
    have hnext : ∀ d ∈ done ++ [crate],
        ((w'.build (fun _ => false) crate).workspace.view? d).isSome := by
      intro d hd
      rcases List.mem_append.1 hd with hd | hd
      · obtain ⟨sub, hsub⟩ := Option.isSome_iff_exists.1 (hdone d hd)
        rw [view?_build _ _ hsub]
        rfl
      · rw [List.mem_singleton.1 hd, hcrate]
        rfl
    rw [List.append_cons] at hrespects
    obtain ⟨hresult, hviews⟩ := ih hrespects (fun d hd => horder d (List.mem_cons_of_mem _ hd))
      (h'.build _ crate) hnext
    simp only [Workspace.buildEach, hbuilt]
    refine ⟨hresult, fun d hd => ?_⟩
    rcases List.mem_cons.1 hd with rfl | hd
    · rw [hview]
      exact view?_buildEach _ _ hcrate
    · exact hviews d hd

/-- The finished crates are in an order that their dependencies allow. -/
theorem respects_keys (h : Run graph settings w) : graph.Respects w.views.keys := by
  refine h.invariant (P := fun w => graph.Respects w.views.keys) CrateGraph.Respects.nil ?_
  intro w hw isCancelled crate ih
  unfold Workspace.build
  split
  · exact ih
  · split
    · next built hbuilt =>
      rw [Listing.keys_insert]
      split
      · exact ih
      · refine ih.concat fun e he => ?_
        rw [hw.given.1] at hbuilt
        have hsome := isSome_of_buildView hbuilt (.single he)
        rw [isSome_map?] at hsome
        exact w.views.mem_keys_iff.2 hsome
    · exact ih

/-- What a finished crate reaches can be put into an order of building. -/
theorem exists_order (h : Run graph settings w) (hview : w.view? id = some view)
    {deps : List CrateId} (hdeps : graph.transitiveDependencies id = .ok deps) :
    ∃ order : List CrateId, order.Perm deps ∧ graph.Respects order := by
  refine ⟨w.views.keys.filter (deps.contains ·), ?_, h.respects_keys.filter fun d e hd he => ?_⟩
  · refine (List.perm_ext_iff_of_nodup (w.views.nodup.filter _)
      (CrateGraph.nodup_transitiveDependencies hdeps)).2 fun d => ?_
    rw [List.mem_filter, List.contains_iff_mem, and_iff_right_iff_imp]
    intro hd
    have hsome := h.isSome_view? hview ((CrateGraph.mem_transitiveDependencies hdeps).1 hd)
    exact w.views.mem_keys_iff.2 hsome
  · rw [List.contains_iff_mem, CrateGraph.mem_transitiveDependencies hdeps] at hd ⊢
    exact hd.tail he

/-- A finished view is the one that comes about from scratch, in every order that the dependencies
allow. -/
theorem view?_fromScratch (h : Run graph settings w) (hview : w.view? id = some view)
    {deps order : List CrateId} (hdeps : graph.transitiveDependencies id = .ok deps)
    (hperm : order.Perm deps) (hrespects : graph.Respects order) :
    (fromScratch graph settings (order ++ [id])).result = .ok () ∧
      (fromScratch graph settings (order ++ [id])).workspace.view? id = some view := by
  have hmem : ∀ d, d ∈ order ↔ TransGen graph.DependsOn id d := fun d =>
    hperm.mem_iff.trans (CrateGraph.mem_transitiveDependencies hdeps)
  have hrespects' : graph.Respects ([] ++ (order ++ [id])) :=
    hrespects.concat fun e he => (hmem e).2 (.single he)
  have hfinished : ∀ d ∈ order ++ [id], (w.view? d).isSome := by
    intro d hd
    rcases List.mem_append.1 hd with hd | hd
    · exact h.isSome_view? hview ((hmem d).1 hd)
    · rw [List.mem_singleton.1 hd, hview]
      rfl
  obtain ⟨hresult, hviews⟩ := h.buildEach_again hrespects' hfinished .fresh
    fun d hd => absurd hd List.not_mem_nil
  refine ⟨hresult, ?_⟩
  rw [← hview]
  exact hviews id (List.mem_append_right _ List.mem_cons_self)

end Run

/-- When the building of all crates fails, either there is no order to build them in and nothing was
built, or one build failed.  Those before it succeeded, and it changed nothing. -/
theorem buildAll_error {isCancelled : CrateId → Nat → Bool} {e : BuildError}
    (h : (w.buildAll isCancelled).result = .error e) :
    ((∃ e', w.graph.topologicalOrder = .error e') ∧ (w.buildAll isCancelled).workspace = w) ∨
      ∃ before failing after, w.graph.topologicalOrder = .ok (before ++ failing :: after) ∧
        (w.buildEach isCancelled before).result = .ok () ∧
        ((w.buildEach isCancelled before).workspace.build (isCancelled failing) failing).result
          = .error e ∧
        (w.buildAll isCancelled).workspace = (w.buildEach isCancelled before).workspace := by
  unfold buildAll at h ⊢
  split at h
  · next e' he' =>
    simp only [he']
    exact Or.inl ⟨⟨e', rfl⟩, trivial⟩
  · next order horder =>
    obtain ⟨before, failing, after, rfl, hbefore, hfailing, heq⟩ := buildEach_error h
    simp only [horder]
    exact Or.inr ⟨before, failing, after, rfl, hbefore, hfailing, heq⟩

/-- **The history of a workspace leaves no trace.**  Take any run of a workspace, with builds that
fail or are stopped anywhere in between.

* A view that is stored for a crate is the one that comes about from scratch when what the crate
  reaches is built and then the crate, in every order that the dependencies allow; there is such an
  order, and no other run stores another view.  No later call replaces it.
* A call that fails leaves no view of the crate that failed.  What was stored before that one build
  is stored afterwards, and nothing else.
* A build depends on the maps that it is given only at the crates that its crate reaches. -/
theorem maps_ignore_history (h : Run graph settings w) :
    (∀ id view, w.view? id = some view →
      (∃ deps order, graph.transitiveDependencies id = .ok deps ∧ order.Perm deps ∧
        graph.Respects order) ∧
      (∀ deps order, graph.transitiveDependencies id = .ok deps → order.Perm deps →
        graph.Respects order →
        (fromScratch graph settings (order ++ [id])).result = .ok () ∧
        (fromScratch graph settings (order ++ [id])).workspace.view? id = some view) ∧
      (∀ w' view', Run graph settings w' → w'.view? id = some view' → view' = view) ∧
      (∀ isCancelled crate, (w.build isCancelled crate).workspace.view? id = some view) ∧
      ∀ isCancelled, (w.buildAll isCancelled).workspace.view? id = some view) ∧
    (∀ isCancelled crate e, (w.build isCancelled crate).result = .error e →
      (w.build isCancelled crate).workspace = w ∧ w.view? crate = none) ∧
    (∀ isCancelled e, (w.buildAll isCancelled).result = .error e →
      ((∃ e', graph.topologicalOrder = .error e') ∧ (w.buildAll isCancelled).workspace = w) ∨
      ∃ before failing after, graph.topologicalOrder = .ok (before ++ failing :: after) ∧
        (w.buildEach isCancelled before).result = .ok () ∧
        ((w.buildEach isCancelled before).workspace.build (isCancelled failing) failing).result
          = .error e ∧
        (w.buildAll isCancelled).workspace = (w.buildEach isCancelled before).workspace ∧
        (w.buildAll isCancelled).workspace.view? failing = none) ∧
    ∀ id finished finished' isCancelled,
      (∀ d, TransGen graph.DependsOn id d → finished d = finished' d) →
      buildView graph id finished settings isCancelled
        = buildView graph id finished' settings isCancelled := by
  obtain ⟨hgraph, -⟩ := h.given
  refine ⟨fun id view hview => ⟨?order, ?scratch, ?agree, ?build, ?buildAll⟩, ?failedBuild,
    ?failedAll, fun id finished finished' isCancelled => buildView_congr⟩
  case order =>
    obtain ⟨earlier, isCancelled, built, -, hbuilt, -⟩ := h.built id view hview
    obtain ⟨crate, start, imports, past, outcome, -, hopen, -⟩ := course_of_buildView hbuilt
    obtain ⟨maps, names, prelude, log, hmaps, -⟩ := openBuild_ok hopen
    obtain ⟨deps, hdeps, -⟩ := get?_dependencyMaps hmaps
    obtain ⟨order, hperm, hrespects⟩ := h.exists_order hview hdeps
    exact ⟨deps, order, hdeps, hperm, hrespects⟩
  case scratch =>
    intro deps order hdeps hperm hrespects
    exact h.view?_fromScratch hview hdeps hperm hrespects
  case agree => exact fun w' view' h' hview' => h'.agree h hview' hview
  case build => exact fun isCancelled crate => view?_build isCancelled crate hview
  case buildAll => exact fun isCancelled => view?_buildAll isCancelled hview
  case failedBuild => exact fun isCancelled crate e => build_error
  case failedAll =>
    intro isCancelled e he
    rcases buildAll_error he with ⟨horder, heq⟩ | ⟨before, failing, after, horder, hok, hfail, heq⟩
    · exact Or.inl ⟨hgraph ▸ horder, heq⟩
    · refine Or.inr ⟨before, failing, after, hgraph ▸ horder, hok, hfail, heq, ?_⟩
      rw [heq]
      exact (build_error hfail).2

/-- The borrower was asked for too early, and the lender was stopped once, before all was built.
The view of the borrower is what it is when the lender is built and then the borrower.  A crate that
is not there cannot be built, and asking for it changes nothing. -/
theorem maps_ignore_history_lending : ∃ w view,
    Run lendingGraph {} w ∧ w.view? ⟨1⟩ = some view ∧
    (fromScratch lendingGraph {} [⟨0⟩, ⟨1⟩]).workspace.view? ⟨1⟩ = some view ∧
    (w.build (fun _ => false) ⟨2⟩).result = .error (.unknownCrate ⟨2⟩) ∧
    (w.build (fun _ => false) ⟨2⟩).workspace = w := by
  let fresh : Workspace := { graph := lendingGraph }
  have hearly : (fresh.build (fun _ => false) ⟨1⟩).workspace = fresh :=
    (@build_error _ _ _ (.dependencyNotBuilt "borrower" "lender") (by cbv)).1
  have hstopped : (fresh.build (fun _ => true) ⟨0⟩).workspace = fresh :=
    (@build_error _ _ _ .cancelled (by cbv)).1
  have hfresh : Run lendingGraph {} fresh := .fresh
  have hrun := ((hfresh.build (fun _ => false) ⟨1⟩).build (fun _ => true) ⟨0⟩).buildAll
    (fun _ _ => false)
  rw [hearly, hstopped] at hrun
  have hsome : ((fresh.buildAll (fun _ _ => false)).workspace.view? ⟨1⟩).isSome = true := by cbv
  have hunknown : ((fresh.buildAll (fun _ _ => false)).workspace.build (fun _ => false) ⟨2⟩).result
      = .error (.unknownCrate ⟨2⟩) := by cbv
  obtain ⟨view, hview⟩ := Option.isSome_iff_exists.1 hsome
  have hrespects : lendingGraph.Respects [⟨0⟩] := by
    refine CrateGraph.Respects.nil.concat fun e he => ?_
    obtain ⟨direct, hdirect, he⟩ := he
    cases hdirect
    exact he
  obtain ⟨hstored, hfailing, -⟩ := maps_ignore_history hrun
  obtain ⟨-, hscratch, -⟩ := hstored ⟨1⟩ view hview
  exact ⟨_, view, hrun, hview, (hscratch [⟨0⟩] [⟨0⟩] (by cbv) (.refl _) hrespects).2, hunknown,
    (hfailing _ _ _ hunknown).1⟩

end Workspace

end CrateScope
