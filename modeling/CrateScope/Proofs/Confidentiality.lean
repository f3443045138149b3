import CrateScope.Proofs.Discretion

/-!
# Private parts of a dependency are unobservable

What a crate has for itself does not show in the crates that depend on it.  If a finished map of a
dependency is exchanged for another one that shows others the same, then a build gives the same map,
with the same record and the same log, or the same error.  So the private modules and names of a
crate can change freely without any crate that depends on it noticing.

This is said of crates without a prelude.  The prelude module is found by its path, also where no
other crate may name it.

## Main definitions

* `CrateMap.Finished` — a map that some workspace came to.
* `CrateMap.KeepsFace` — a map shows others what another one shows.
* `Built.product` — what a build comes to, apart from the maps that it was given.

## Main results

* `buildView_exchange` — a build after an exchange.
* `private_parts_unobservable` — with another map of a dependency that keeps its face a build comes
  to the same.
-/

namespace CrateScope

/-! ### Finished maps -/

section Finished

variable {graph : CrateGraph} {settings : Settings} {w : Workspace} {id d : CrateId}
  {view sub : View}

/-- What a finished view binds to a module or enum of a finished crate is in the map of that
crate. -/
theorem Workspace.Run.isSome_descend? (h : Run graph settings w) (hview : w.view? id = some view)
    (hsub : w.view? d = some sub) {slot : Slot} {b : Binding}
    (hb : view.own.binding? slot = some b) (hkind : b.isModuleOrEnum = true)
    (hcrate : b.path.crate = d) : (sub.own.tree.descend? .root b.path.segments).isSome := by
  have hrefers := (h.intact_of_view? hview).refers slot.space b (Or.inl ⟨_, _, hb⟩)
  obtain ⟨m, -, hlocate, -⟩ := hrefers.module hkind
  obtain ⟨-, map, hmap, hindex⟩ := View.locate?_eq_some_iff.1 hlocate
  rw [hcrate] at hmap
  -- The map that the view shows of the crate is the finished one.
  have hown : map = sub.own := by
    by_cases hd : d = view.crate
    · rw [hd, View.mapOf?_own] at hmap
      rw [hd, (h.orderly hview).1] at hsub
      cases hmap
      cases hview.symm.trans hsub
      rfl
    · rw [View.mapOf?_of_ne hd] at hmap
      have hfinished := (((h.linked hview).shown d map).1 hmap).2
      unfold map? at hfinished
      rw [hsub] at hfinished
      exact (Option.some.inj hfinished).symm
  rw [← hown, hindex]
  rfl

/-- A finished map of the crate `id`: some workspace came to it. -/
def CrateMap.Finished (id : CrateId) (map : CrateMap) : Prop :=
  ∃ graph settings w view, Workspace.Run graph settings w ∧ w.view? id = some view ∧ view.own = map

namespace CrateMap.Finished

variable {map : CrateMap} (h : map.Finished id)

include h

theorem orderly : map.crate = id ∧ map.Orderly := by
  obtain ⟨graph, settings, w, view, hrun, hview, rfl⟩ := h
  obtain ⟨hcrate, horderly⟩ := hrun.orderly hview
  exact ⟨hcrate, horderly.own⟩

theorem pathOf_root : map.tree.pathOf .root = ⟨id, []⟩ := by
  obtain ⟨hcrate, horderly⟩ := h.orderly
  rw [horderly.regular.root, show map.tree.crate = id from hcrate]

/-- What is restricted is restricted to modules of the crate. -/
theorem restricted {slot : Slot} {b : Binding} (hb : map.binding? slot = some b) {scope : ModuleId}
    (hscope : b.visibility = .within scope) : scope.crate = id := by
  obtain ⟨graph, settings, w, view, hrun, hview, rfl⟩ := h
  obtain ⟨hcrate, horderly⟩ := hrun.orderly hview
  rcases Visibility.isVisibleFrom_iff.1 (horderly.guarded.bindings slot b hb) with heq | ⟨a, -, heq⟩
  · cases hscope.symm.trans heq
  · cases hscope.symm.trans heq
    exact hcrate

/-- What is bound to a module or enum of the crate is in the map. -/
theorem isSome_descend? {slot : Slot} {b : Binding} (hb : map.binding? slot = some b)
    (hkind : b.isModuleOrEnum = true) (hcrate : b.path.crate = id) :
    (map.tree.descend? .root b.path.segments).isSome := by
  obtain ⟨graph, settings, w, view, hrun, hview, rfl⟩ := h
  exact hrun.isSome_descend? hview hview hb hkind hcrate

end CrateMap.Finished

end Finished

/-! ### Maps with the same face -/

/-- To other crates every module of the map `old` looks in the map `new` as it does in `old`: there
is a module at the same path, which has the same public names in the same order.  What else there is
in `new` is left open. -/
def CrateMap.KeepsFace (new old : CrateMap) : Prop :=
  ∀ path m, old.tree.descend? .root path = some m →
    ∃ m', new.tree.descend? .root path = some m' ∧ new.publicFace m' = old.publicFace m

section Exchanges

variable {d : CrateId} {old new : CrateMap}

/-- Whether the face is kept can be found out module by module. -/
theorem CrateMap.keepsFace_of_all (hregular : old.tree.Regular)
    (hall : old.tree.ids.all fun m =>
      ((new.tree.descend? .root (old.tree.pathOf m).segments).map new.publicFace)
        == some (old.publicFace m)) : new.KeepsFace old := by
  intro path m hm
  obtain ⟨hlt, hpath⟩ := hregular.pathOf_descend? hm
  have hmem : m ∈ old.tree.ids := List.mem_map.2 ⟨m.index, List.mem_range.2 hlt, rfl⟩
  have hface := List.all_eq_true.1 hall m hmem
  rw [beq_iff_eq, hpath] at hface
  exact Option.map_eq_some_iff.1 hface

/-- The number in the map `new` of the module that has a number in the map `old`.  A number without
a module is moved out of the way. -/
def CrateMap.numberIn (new old : CrateMap) (m : LocalId) : LocalId :=
  if m.index < old.tree.size then
    (new.tree.descend? .root (old.tree.pathOf m).segments).getD .root
  else ⟨new.tree.size + m.index⟩

theorem CrateMap.KeepsFace.descend?_pathOf (h : new.KeepsFace old) (hold : old.tree.Regular)
    {m : LocalId} (hm : m.index < old.tree.size) :
    new.tree.descend? .root (old.tree.pathOf m).segments = some (new.numberIn old m) := by
  obtain ⟨m', hm', -⟩ := h _ m (hold.descend?_pathOf m hm)
  unfold numberIn
  rw [if_pos hm, hm', Option.getD_some]

theorem CrateMap.KeepsFace.injective_numberIn (h : new.KeepsFace old) (hold : old.tree.Regular)
    (hnew : new.tree.Regular) : Function.Injective (new.numberIn old) := by
  have hinside : ∀ {m : LocalId}, m.index < old.tree.size →
      (new.numberIn old m).index < new.tree.size ∧
        new.tree.pathOf (new.numberIn old m) = ⟨new.tree.crate, (old.tree.pathOf m).segments⟩ :=
    fun hm => hnew.pathOf_descend? (h.descend?_pathOf hold hm)
  have houtside : ∀ {m : LocalId}, ¬ m.index < old.tree.size →
      (new.numberIn old m).index = new.tree.size + m.index := by
    intro m hm
    unfold numberIn
    rw [if_neg hm]
  intro m m' heq
  by_cases hm : m.index < old.tree.size <;> by_cases hm' : m'.index < old.tree.size
  · -- Both are where their common path leads to.
    have hpath : (old.tree.pathOf m).segments = (old.tree.pathOf m').segments := by
      have hsame := congrArg new.tree.pathOf heq
      rw [(hinside hm).2, (hinside hm').2] at hsame
      exact (ItemPath.mk.inj hsame).2
    have hfound := hold.descend?_pathOf m hm
    rw [hpath, hold.descend?_pathOf m' hm'] at hfound
    exact (Option.some.inj hfound).symm
  · have := (hinside hm).1
    have := houtside hm'
    rw [heq] at *
    omega
  · have := (hinside hm').1
    have := houtside hm
    rw [← heq] at *
    omega
  · have hnumber := houtside hm
    rw [heq, houtside hm'] at hnumber
    exact congrArg LocalId.mk (Nat.add_left_cancel hnumber).symm

/-- A finished map can be exchanged for another one of the crate that keeps its face. -/
def Exchange.ofFinished (hold : old.Finished d) (hnew : new.Finished d)
    (hname : new.name = old.name) (hface : new.KeepsFace old) : Exchange where
  crate := d
  old := old
  new := new
  renumber := new.numberIn old
  injective := hface.injective_numberIn hold.orderly.2.regular hnew.orderly.2.regular
  name := hname
  root := by
    rintro map (rfl | rfl)
    · exact hold.pathOf_root
    · exact hnew.pathOf_root
  restricted := by
    rintro map (rfl | rfl) slot b hb scope hscope
    · exact hold.restricted hb hscope
    · exact hnew.restricted hb hscope
  found path m hm := by
    obtain ⟨hlt, hpath⟩ := hold.orderly.2.regular.pathOf_descend? hm
    have hfound := hface.descend?_pathOf hold.orderly.2.regular hlt
    rwa [hpath] at hfound
  face path m hm := by
    obtain ⟨hlt, hpath⟩ := hold.orderly.2.regular.pathOf_descend? hm
    have hfound := hface.descend?_pathOf hold.orderly.2.regular hlt
    rw [hpath] at hfound
    obtain ⟨m', hm', hsame⟩ := hface path m hm
    rwa [Option.some.inj (hfound.symm.trans hm')]

end Exchanges

/-! ### Builds -/

section Build

variable {g : CrateGraph} {id d : CrateId} {finished finished' : CrateId → Option CrateMap}
  {settings : Settings} {isCancelled : Nat → Bool}

/-- A build does not read any map of its own crate. -/
theorem buildView_of_ne (h : ∀ e, e ≠ id → finished' e = finished e) :
    buildView g id finished' settings isCancelled
      = buildView g id finished settings isCancelled := by
  cases hall : g.transitiveDependencies id with
  | ok all =>
    refine buildView_congr fun e he => h e ?_
    rintro rfl
    exact CrateGraph.not_transGen_self hall he
  | error e =>
    -- It does not come to reading any map.
    have hmaps : ∀ name,
        dependencyMaps g id name finished' = dependencyMaps g id name finished := by
      intro name
      unfold dependencyMaps
      rw [hall]
      rfl
    unfold buildView openBuild
    simp only [hmaps]

section Opening

variable {crate : CrateSource} {start : Collection} {imports : List Import}
  (hopen : openBuild g id crate finished settings = .ok (start, imports))

include hopen

/-- A view is solid from the beginning, if all maps that it can show are finished ones. -/
theorem solid_of_openBuild (hfinished : ∀ e map, finished e = some map → map.Finished e) :
    start.view.Solid := by
  have hopened := opened_of_openBuild hopen
  intro e map hmap
  by_cases he : e = start.view.crate
  · rw [he, View.mapOf?_own] at hmap
    cases hmap
    exact ⟨he.symm, hopened.regular, hopened.sized⟩
  · rw [View.mapOf?_of_ne he, (linked_of_openBuild hopen).shown] at hmap
    exact (hfinished e map hmap.2).orderly

theorem prelude_eq_none_of_openBuild (hprelude : settings.prelude = none) :
    start.map.prelude = none := by
  obtain ⟨maps, -, hopen⟩ := ok_of_bind hopen
  obtain ⟨names, -, hopen⟩ := ok_of_bind hopen
  obtain ⟨-, hlater⟩ := Outline.sound_ofBody id crate.name (crate.edition.getD settings.edition)
    names crate.root
  unfold prepare at hopen
  rw [hprelude] at hopen
  cases hopen
  exact hlater.prelude

variable {x : Exchange} (hother : id ≠ x.crate) (hprelude : settings.prelude = none)
  (hold : finished x.crate = some x.old)

include hother hprelude hold

theorem suits_of_openBuild : x.Suits start.view where
  other := by
    rw [show start.view.crate = id from (opened_of_openBuild hopen).crate]
    exact hother
  shown map hmap := by
    rw [(linked_of_openBuild hopen).shown, hold] at hmap
    exact (Option.some.inj hmap.2).symm
  prelude := prelude_eq_none_of_openBuild hopen hprelude

/-- Nothing shows when the imports of a crate begin to be carried out. -/
theorem blind_of_openBuild (hfinished : ∀ e map, finished e = some map → map.Finished e)
    (hknown : ∀ e map slot b, finished e = some map → map.binding? slot = some b → x.Knows b) :
    x.Blind g start.view ∧ Collection.Rooted (g.Nameable start.view.crate) start := by
  have hopened := opened_of_openBuild hopen
  have hlinked := linked_of_openBuild hopen
  have hsuits := suits_of_openBuild hopen hother hprelude hold
  obtain ⟨hdirect, hnames⟩ := externPrelude_of_openBuild hopen
  rw [← show start.view.crate = id from hopened.crate] at hnames
  have hlocated : ∀ root, g.Nameable start.view.crate root →
      start.view.locate? (start.view.moduleBinding root).path = some root :=
    fun root hroot => (solid_of_openBuild hopen hfinished).locate?_moduleBinding
      (hlinked.has_root hroot)
  -- What is of the crate itself is of no other one.
  have hnative : ∀ b : Binding, b.path.crate = start.view.crate → x.Knows b :=
    fun b hb _ hof => absurd (hb.symm.trans hof) hsuits.other
  refine ⟨⟨hsuits, ⟨⟨trivial, fun _ _ _ _ => trivial, ?_, ?_, hlocated, ?_, ?_⟩, ?_, ?_, ?_⟩⟩, ?_⟩
  · intro a _
    refine hnative _ ?_
    rw [View.moduleBinding_of_mapOf? (View.mapOf?_own start.view)]
    exact hopened.regular.crate_pathOf a
  · intro root hroot _ hof
    have hfound := hlocated root hroot
    rw [hsuits.descend?_of_locate? hfound ((crate_of_locate? hfound).trans hof)]
    rfl
  · intro m hm name ns b hb viewer _
    obtain ⟨map, hmap, hbound⟩ := View.exists_map_of_meaning hm hb
    exact hknown m.crate map ⟨m.index, name, ns⟩ b ((hlinked.shown _ _).1 hmap).2 hbound
  · intro p hp
    cases hsuits.prelude.symm.trans hp
  · intro slot b hb
    refine hnative b ?_
    rw [(hopened.fits slot b hb).path]
    exact hopened.regular.crate_pathOf slot.module
  · intro name b hb
    cases (hopened.macroPrelude_get? name).symm.trans hb
  · exact fun name root hroot => Or.inr (hnames name root hroot)
  · rw [← hdirect] at hnames
    exact ⟨Or.inl rfl, fun name root hroot => Or.inr (hnames name root hroot)⟩

end Opening

variable {x : Exchange} (hother : id ≠ x.crate) (hprelude : settings.prelude = none)
  (hold : finished x.crate = some x.old) (hnew : finished' x.crate = some x.new)
  (hothers : ∀ e, e ≠ x.crate → finished' e = finished e)
  (hfinished : ∀ e map, finished e = some map → map.Finished e)
  (hknown : ∀ e map slot b, finished e = some map → map.binding? slot = some b → x.Knows b)

include hother hprelude hold hnew hothers hfinished hknown

/-- **A build gives the same view after an exchange**, but for the map that is exchanged. -/
theorem buildView_exchange :
    buildView g id finished' settings isCancelled
      = (buildView g id finished settings isCancelled).map x.built := by
  have hmaps : ∀ e, finished' e = (finished e).map (x.map e) := by
    intro e
    by_cases he : e = x.crate
    · rw [he, hnew, hold, Option.map_some, Exchange.map_old]
    · rw [hothers e he]
      cases finished e with
      | none => rfl
      | some map => rw [Option.map_some, Exchange.map_of_ne he]
  unfold buildView
  cases g.crate? id with
  | none => rfl
  | some crate =>
    dsimp only
    split
    · rfl
    · refine bind_hom (fun r : Collection × List Import => (x.state r.1, r.2))
        (openBuild_exchange crate hprelude hmaps) ?_
      rintro ⟨start, imports⟩ hopen
      obtain ⟨hblind, hrooted⟩ := blind_of_openBuild hopen hother hprelude hold hfinished hknown
      refine bind_hom x.outcome ?_ fun outcome _ => ?_
      · exact Collection.run_exchange (opened_of_openBuild hopen) hblind hrooted
      · exact congrArg Except.ok (closeBuild_exchange crate outcome)

end Build

/-- What a build comes to, apart from the maps that it was given: the map of its crate, the imports
that were carried out, those that were not, and what was told. -/
def Built.product (built : Built) :
    CrateMap × List SettledImport × List Import × Log :=
  (built.view.own, built.settled, built.unresolved, built.log)

/-- **Private parts of a dependency are unobservable.**  Let the map `old` of the crate `d` be
exchanged for another finished map, of the same name, that keeps its face, where all other maps stay
and lead to no modules of `d` but those in `old`.  Then every build without a prelude ends with the
same error, or comes to the same. -/
theorem private_parts_unobservable {g : CrateGraph} {id d : CrateId}
    {finished finished' : CrateId → Option CrateMap} {settings : Settings} {old new : CrateMap}
    (hprelude : settings.prelude = none)
    (hfinished : ∀ e map, finished e = some map → map.Finished e) (hfinished' : new.Finished d)
    (hold : finished d = some old) (hnew : finished' d = some new)
    (hothers : ∀ e, e ≠ d → finished' e = finished e)
    (hname : new.name = old.name) (hface : new.KeepsFace old)
    (hrefers : ∀ e map slot b, e ≠ d → finished e = some map → map.binding? slot = some b →
      b.isModuleOrEnum = true → b.path.crate = d →
      (old.tree.descend? .root b.path.segments).isSome)
    (isCancelled : Nat → Bool) :
    (buildView g id finished' settings isCancelled).map Built.product
      = (buildView g id finished settings isCancelled).map Built.product := by
  by_cases hid : id = d
  · rw [buildView_of_ne fun e he => hothers e (hid ▸ he)]
  · have hfinishedOld := hfinished d old hold
    let x := Exchange.ofFinished hfinishedOld hfinished' hname hface
    have hknown : ∀ e map slot b, finished e = some map → map.binding? slot = some b →
        x.Knows b := by
      intro e map slot b hmap hb hkind hof
      by_cases he : e = d
      · rw [he, hold] at hmap
        cases hmap
        exact hfinishedOld.isSome_descend? hb hkind hof
      · exact hrefers e map slot b he hmap hb hkind hof
    rw [buildView_exchange (x := x) hid hprelude hold hnew hothers hfinished hknown]
    cases buildView g id finished settings isCancelled <;> rfl

/-! ### Three small crates -/

/-- The lender with other things for itself: a private module that comes before the public one, and
in this one a private struct instead of the private function. -/
def discreetLender : CrateSource where
  name := "lender"
  root :=
    { items := [
        { name := some "vault", kind := .module
            { items := [{ name := some "key", visibility := .pub, kind := .function }] } },
        { name := some "m", visibility := .pub, kind := .module
            { items := [
                { name := some "T", kind := .struct .unit },
                { name := some "S", visibility := .pub, kind := .struct .unit },
                { name := some "make", kind := .macroRules true }] } }] }

/-- A crate that hands the module of the lender on. -/
def agent : CrateSource where
  name := "agent"
  dependencies := ["lender"]
  root := { uses := [{ path := "lender::m", visibility := .pub }] }

/-- A crate that takes what it can from the module that the agent hands on, and the macros of the
lender. -/
def client : CrateSource where
  name := "client"
  dependencies := ["agent", "lender"]
  root :=
    { uses := [{ path := "agent::m::*", visibility := .pub }]
      externCrates := [{ name := some "lender", macroUse := true }] }

/-- The graph of the lender, its agent and their client. -/
def agencyGraph : CrateGraph := ⟨[lender, agent, client], by decide⟩

/-- The graph that has only the other lender. -/
def discreetGraph : CrateGraph := ⟨[discreetLender], List.nodup_singleton _⟩

/-- The client gets the struct of the lender through its agent.  It gets the same, and is told the
same, if the map of the lender is exchanged for that of the other lender, in which the public module
has another number. -/
theorem private_parts_unobservable_lending : ∃ w old new built built',
    Workspace.Run agencyGraph {} w ∧ w.map? ⟨0⟩ = some old ∧ new.Finished ⟨0⟩ ∧
    new.KeepsFace old ∧ old.tree.size = 2 ∧ new.tree.size = 3 ∧
    buildView agencyGraph ⟨2⟩ w.map? {} (fun _ => false) = .ok built ∧
    buildView agencyGraph ⟨2⟩ (fun e => if e = ⟨0⟩ then some new else w.map? e) {}
      (fun _ => false) = .ok built' ∧
    (built.view.own.binding? ⟨.root, "S", .types⟩).map Binding.path
      = some ⟨⟨0⟩, ["m", "S"]⟩ ∧
    built'.product = built.product := by
  have hfaces : ((Workspace.buildEach (fun _ _ => false) { graph := agencyGraph }
        [⟨0⟩, ⟨1⟩]).workspace.view? ⟨0⟩).bind (fun view =>
      ((Workspace.build { graph := discreetGraph } (fun _ => false) ⟨0⟩).workspace.view? ⟨0⟩).map
        fun view' => (view.own.tree.size, view'.own.tree.size, view'.own.name == view.own.name,
          view.own.tree.ids.all fun m => ((view'.own.tree.descend? .root
            (view.own.tree.pathOf m).segments).map view'.own.publicFace)
              == some (view.own.publicFace m)))
      = some (2, 3, true, true) := by cbv
  have hbuilds : (buildView agencyGraph ⟨2⟩ (Workspace.buildEach (fun _ _ => false)
        { graph := agencyGraph } [⟨0⟩, ⟨1⟩]).workspace.map? {} (fun _ => false)).map
      (fun built => (built.view.own.binding? ⟨.root, "S", .types⟩).map Binding.path)
      = .ok (some ⟨⟨0⟩, ["m", "S"]⟩) := by cbv
  generalize hw : (Workspace.buildEach (fun _ _ => false) { graph := agencyGraph }
    [⟨0⟩, ⟨1⟩]).workspace = w at hfaces hbuilds
  generalize hw' : (Workspace.build { graph := discreetGraph } (fun _ => false) ⟨0⟩).workspace = w'
    at hfaces
  have hrun : Workspace.Run agencyGraph {} w := by
    rw [← hw]
    exact Workspace.Run.fresh.buildEach _ _
  have hrun' : Workspace.Run discreetGraph {} w' := by
    rw [← hw']
    exact Workspace.Run.fresh.build _ _
  obtain ⟨view, hview, hfaces⟩ := Option.bind_eq_some_iff.1 hfaces
  obtain ⟨view', hview', hfaces⟩ := Option.map_eq_some_iff.1 hfaces
  simp only [Prod.mk.injEq, beq_iff_eq] at hfaces
  obtain ⟨hsize, hsize', hname, hall⟩ := hfaces
  obtain ⟨built, hbuilt, hbound⟩ := ok_of_map hbuilds
  have hface : view'.own.KeepsFace view.own :=
    CrateMap.keepsFace_of_all (hrun.orderly hview).2.own.regular hall
  have hfinished : ∀ e map, w.map? e = some map → map.Finished e := by
    intro e map hmap
    obtain ⟨sub, hsub, rfl⟩ := Option.map_eq_some_iff.1 hmap
    exact ⟨_, _, w, sub, hrun, hsub, rfl⟩
  have hnew : view'.own.Finished ⟨0⟩ := ⟨_, _, w', view', hrun', hview', rfl⟩
  have hold : w.map? ⟨0⟩ = some view.own := congrArg (Option.map View.own) hview
  have hrefers : ∀ e map slot b, e ≠ ⟨0⟩ → w.map? e = some map → map.binding? slot = some b →
      b.isModuleOrEnum = true → b.path.crate = ⟨0⟩ →
      (view.own.tree.descend? .root b.path.segments).isSome := by
    intro e map slot b _ hmap hb hkind hcrate
    obtain ⟨sub, hsub, rfl⟩ := Option.map_eq_some_iff.1 hmap
    exact hrun.isSome_descend? hsub hview hb hkind hcrate
  have hprelude : ({} : Settings).prelude = none := rfl
  have hsame : (buildView agencyGraph ⟨2⟩ (fun e => if e = ⟨0⟩ then some view'.own else w.map? e)
        {} (fun _ => false)).map Built.product
      = (buildView agencyGraph ⟨2⟩ w.map? {} (fun _ => false)).map Built.product :=
    private_parts_unobservable hprelude hfinished hnew hold (if_pos rfl) (fun e he => if_neg he)
      hname hface hrefers _
  rw [hbuilt] at hsame
  obtain ⟨built', hbuilt', hproduct⟩ := ok_of_map hsame
  exact ⟨w, view.own, view'.own, built, built', hrun, hold, hnew, hface, hsize, hsize', hbuilt,
    hbuilt', hbound, hproduct⟩

end CrateScope
