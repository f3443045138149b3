import CrateScope.Proofs.Change
import CrateScope.Proofs.Dependencies
import CrateScope.Proofs.Layout

/-!
# The state before any import

A build begins with an outline, a prelude and the finished maps of the dependencies.  What is
certain of the state in which the imports begin to be carried out is gathered here, whatever crate
it is of.

## Main definitions

* `Collection.Opened` — what holds before any import.

## Main results

* `openBuild_ok` — what a build opens with.
* `opened_of_openBuild` — of that state all this holds.
* `externPrelude_of_openBuild`, `prelude_of_openBuild` — which crates can be named then, and where
  the prelude is.
* `course_of_buildView` — a finished view is where a course from there leads.
* `openBuild_error` — what can go wrong before that.
-/

namespace CrateScope

variable {g : CrateGraph} {id : CrateId} {finished : CrateId → Option CrateMap}

/-- No name of a direct dependency stands for the crate itself. -/
theorem directNames_ne {all : List CrateId} (h : g.transitiveDependencies id = .ok all)
    {names : Listing Name ModuleId} (hn : directNames g id = .ok names) {name : Name}
    {root : ModuleId} (hroot : names.get? name = some root) : root.crate ≠ id := by
  obtain ⟨d, hd, rfl⟩ := exists_dependency_of_directNames hn hroot
  rintro rfl
  exact CrateGraph.not_transGen_self h (.single hd)

/-! ### The state before any import -/

namespace Collection

/-- The state of the crate `id` before any import: only declarations are bound, and nothing is
marked, connected or carried out. -/
structure Opened (id : CrateId) (imports : List Import) (c : Collection) : Prop where
  crate : c.tree.crate = id
  sized : c.map.scopes.size = c.tree.size
  rooted : c.tree.Rooted
  bindings : ∀ slot b, c.map.binding? slot = some b →
    b.visibility.isVisibleFrom c.tree slot.module = true
  regular : c.tree.Regular
  fits : ∀ slot b, c.map.binding? slot = some b → b.Fits c.tree slot
  kinds : ∀ i ∈ imports, c.tree.kind? i.module = some .module
  imports : ∀ i ∈ imports, i.module.index < c.tree.size ∧
    i.visibility.isVisibleFrom c.tree i.module = true
  macroPrelude : c.map.macroPrelude = ∅
  prelude : ∀ p, c.map.prelude = some p → p.crate ≠ id
  globSources : c.globSources = ∅
  globEdges : c.globEdges = ∅
  settled : c.settled = []

theorem Opened.macroPrelude_get? {imports : List Import} {c : Collection} (h : Opened id imports c)
    (name : Name) : c.map.macroPrelude.get? name = none := by
  rw [h.macroPrelude]
  rfl

theorem Opened.coherent {imports : List Import} {c : Collection} (h : Opened id imports c) :
    Coherent imports c where
  bound slot source hs := by
    rw [h.globSources] at hs
    cases hs
  source_bound name ns a b hab := by
    unfold ReadsFrom at hab
    rw [h.globSources] at hab
    cases hab
  acyclic name ns a haa := by
    obtain ⟨b, -, hb⟩ := Relation.TransGen.tail'_iff.1 haa
    unfold ReadsFrom at hb
    rw [h.globSources] at hb
    cases hb
  sized := h.sized
  inside i hi := (h.imports i hi).1
  edges s e he := by
    unfold edgesFrom at he
    rw [h.globEdges] at he
    cases he

end Collection

/-- The prelude is a module of a crate that can be named. -/
theorem locate?_findPrelude {view : View} {text : String} {prelude : ModuleId}
    (h : (findPrelude view text).1 = some prelude) :
    ∃ name root rest, view.own.externPrelude.get? name = some root ∧
      view.locate? ⟨root.crate, rest⟩ = some prelude := by
  unfold findPrelude at h
  split at h
  · cases h
  · split at h
    · cases h
    · split at h
      · cases h
      · next first rest _ =>
        split at h
        · cases h
        · next root hroot =>
          split at h
          · next m hm =>
            cases h
            exact ⟨first, root, rest, hroot, hm⟩
          · cases h

/-- What is found at a path is of the crate of the path. -/
theorem crate_of_locate? {view : View} {path : ItemPath} {m : ModuleId}
    (h : view.locate? path = some m) : m.crate = path.crate := by
  simp only [View.locate?, Option.bind_eq_bind, Option.bind_eq_some_iff] at h
  obtain ⟨map, -, index, -, h⟩ := h
  cases h
  rfl

/-- The outline that a crate has in a build, given the names of its direct dependencies. -/
def CrateSource.outline (crate : CrateSource) (id : CrateId) (settings : Settings)
    (names : Listing Name ModuleId) : Outline :=
  Outline.ofBody (.initial id crate.name (crate.edition.getD settings.edition) names) crate.root

/-- What is prepared is the outline of the crate with the maps of its dependencies, and perhaps with
a prelude, which is a module of a crate that can be named. -/
theorem prepare_eq (crate : CrateSource) (id : CrateId) (names : Listing Name ModuleId)
    (maps : Listing CrateId CrateMap) (settings : Settings) :
    ∃ prelude log, prepare crate id (crate.edition.getD settings.edition) names maps settings
        = ({ (Collection.ofOutline (crate.outline id settings names) maps).withMap
              { (crate.outline id settings names).map with prelude } with log },
            (crate.outline id settings names).imports) ∧
      ∀ p, prelude = some p → ∃ name root rest, names.get? name = some root ∧
        (View.mk (crate.outline id settings names).map maps).locate? ⟨root.crate, rest⟩
          = some p := by
  obtain ⟨-, hlater⟩ := Outline.sound_ofBody id crate.name
    (crate.edition.getD settings.edition) names crate.root
  change Outline.Later _ (crate.outline id settings names) at hlater
  unfold prepare
  cases settings.prelude with
  | none =>
    have hprelude : (crate.outline id settings names).map.prelude = none := hlater.prelude
    refine ⟨none, (crate.outline id settings names).log, ?_, fun p hp => by cases hp⟩
    rw [← hprelude]
    rfl
  | some text =>
    refine ⟨_, _, rfl, fun p hp => ?_⟩
    obtain ⟨name, root, rest, hroot, hlocate⟩ := locate?_findPrelude hp
    refine ⟨name, root, rest, ?_, hlocate⟩
    rw [← hroot]
    exact congrArg (fun l : Listing Name ModuleId => l.get? name) hlater.externPrelude.symm

/-- A build opens with what was prepared from the finished maps of everything that the crate depends
on, and the names of its direct dependencies. -/
theorem openBuild_ok {crate : CrateSource} {settings : Settings} {c : Collection}
    {imports : List Import} (h : openBuild g id crate finished settings = .ok (c, imports)) :
    ∃ maps names prelude log, dependencyMaps g id crate.name finished = .ok maps ∧
      directNames g id = .ok names ∧
      imports = (crate.outline id settings names).imports ∧
      c = { (Collection.ofOutline (crate.outline id settings names) maps).withMap
            { (crate.outline id settings names).map with prelude } with log } ∧
      ∀ p, prelude = some p → ∃ name root rest, names.get? name = some root ∧
        (View.mk (crate.outline id settings names).map maps).locate? ⟨root.crate, rest⟩
          = some p := by
  obtain ⟨maps, hmaps, h⟩ := ok_of_bind h
  obtain ⟨names, hnames, h⟩ := ok_of_bind h
  obtain ⟨prelude, log, hprepare, hprelude⟩ := prepare_eq crate id names maps settings
  rw [hprepare] at h
  cases h
  exact ⟨maps, names, prelude, _, ok_of_mapError hmaps, ok_of_mapError hnames, rfl, rfl, hprelude⟩

/-- A build opens with a state in which only declarations are bound. -/
theorem opened_of_openBuild {crate : CrateSource} {settings : Settings} {c : Collection}
    {imports : List Import} (h : openBuild g id crate finished settings = .ok (c, imports)) :
    c.Opened id imports := by
  obtain ⟨maps, names, prelude, log, hmaps, hnames, rfl, rfl, hprelude⟩ := openBuild_ok h
  obtain ⟨all, hall, -⟩ := ok_of_bind hmaps
  obtain ⟨hsound, hlater⟩ := Outline.sound_ofBody id crate.name
    (crate.edition.getD settings.edition) names crate.root
  have horderly := Outline.orderly_ofBody id crate.name (crate.edition.getD settings.edition) names
    crate.root
  refine ⟨hlater.tree.crate, hsound.sized, hsound.rooted, hsound.bindings, horderly.tree,
    horderly.fits, horderly.imports, hsound.imports, hlater.macroPrelude, fun p hp => ?_, rfl, rfl,
    rfl⟩
  -- Only direct dependencies can be named at first, and the crate is not one of its own.
  obtain ⟨name, root, rest, hroot, hlocate⟩ := hprelude p hp
  rw [crate_of_locate? hlocate]
  exact directNames_ne (ok_of_mapError hall) hnames hroot

/-- At first the crates that can be named are the direct dependencies, and these are what
`extern crate` can name. -/
theorem externPrelude_of_openBuild {crate : CrateSource} {settings : Settings} {c : Collection}
    {imports : List Import} (h : openBuild g id crate finished settings = .ok (c, imports)) :
    c.directCrates = c.map.externPrelude ∧ ∀ name root, c.map.externPrelude.get? name = some root →
      ∃ d, g.DependsOn id d ∧ root = d.root := by
  obtain ⟨maps, names, prelude, log, -, hnames, rfl, rfl, -⟩ := openBuild_ok h
  obtain ⟨-, hlater⟩ := Outline.sound_ofBody id crate.name
    (crate.edition.getD settings.edition) names crate.root
  refine ⟨rfl, fun name root hroot => ?_⟩
  have hname : (crate.outline id settings names).map.externPrelude.get? name = some root := hroot
  rw [show (crate.outline id settings names).map.externPrelude = names from hlater.externPrelude]
    at hname
  exact exists_dependency_of_directNames hnames hname

/-- The prelude of a crate is found at a path. -/
theorem prelude_of_openBuild {crate : CrateSource} {settings : Settings} {c : Collection}
    {imports : List Import} (h : openBuild g id crate finished settings = .ok (c, imports)) :
    ∀ p, c.map.prelude = some p → ∃ path, c.view.locate? path = some p := by
  obtain ⟨maps, names, prelude, log, -, -, rfl, rfl, hprelude⟩ := openBuild_ok h
  intro p hp
  obtain ⟨name, root, rest, -, hlocate⟩ := hprelude p hp
  -- Where modules are found does not depend on the prelude.
  exact ⟨⟨root.crate, rest⟩, (View.locate?_congr (by rfl) (by rfl) _).trans hlocate⟩

/-! ### The finished view -/

theorem view_closeBuild (crate : CrateSource) (outcome : Collection.Outcome) :
    (closeBuild crate outcome).view = outcome.collection.view := by
  unfold closeBuild
  simp only
  split <;> rfl

theorem settled_closeBuild (crate : CrateSource) (outcome : Collection.Outcome) :
    (closeBuild crate outcome).settled = outcome.collection.settled := by
  unfold closeBuild
  simp only
  split <;> rfl

/-- A finished view is that of a state to which a course leads from the opening of the build. -/
theorem course_of_buildView {settings : Settings} {isCancelled : Nat → Bool} {built : Built}
    (h : buildView g id finished settings isCancelled = .ok built) :
    ∃ crate start imports past outcome, g.crate? id = some crate ∧
      openBuild g id crate finished settings = .ok (start, imports) ∧
      Collection.Course settings.globLimit imports start past none outcome.collection ∧
      built = closeBuild crate outcome := by
  unfold buildView at h
  split at h
  · cases h
  · next crate hcrate =>
    split at h
    · cases h
    · obtain ⟨⟨start, imports⟩, hopen, h⟩ := ok_of_bind h
      obtain ⟨outcome, hrun, h⟩ := ok_of_bind h
      cases h
      obtain ⟨past, hcourse⟩ := Collection.Course.of_run (fun i hi => hi) hrun
      exact ⟨crate, start, imports, past, outcome, hcrate, hopen, hcourse, rfl⟩

/-! ### What can go wrong -/

/-- A build that does not come to its imports was asked for with a graph that is not in order, or
before its dependencies were built. -/
theorem openBuild_error {crate : CrateSource} {settings : Settings} {failure : Failure}
    (h : openBuild g id crate finished settings = .error failure) :
    (∃ e, failure.error = .graph e) ∨
      ∃ dependency, failure.error = .dependencyNotBuilt crate.name dependency := by
  rcases error_of_bind h with h | ⟨maps, -, h⟩
  · obtain ⟨e, hmaps, rfl⟩ := error_of_mapError h
    rcases error_of_bind hmaps with h | ⟨all, -, h⟩
    · obtain ⟨e, -, rfl⟩ := error_of_mapError h
      exact Or.inl ⟨e, rfl⟩
    · obtain ⟨maps, dependency, -, h⟩ := error_of_foldlM h
      split at h
      · cases h
      · cases h
        exact Or.inr ⟨_, rfl⟩
  · rcases error_of_bind h with h | ⟨names, -, h⟩
    · obtain ⟨e, hnames, rfl⟩ := error_of_mapError h
      rcases error_of_bind hnames with h | ⟨direct, -, h⟩
      · obtain ⟨e, -, rfl⟩ := error_of_mapError h
        exact Or.inl ⟨e, rfl⟩
      · cases h
    · cases h

/-! ### A small crate -/

/-- A crate with two modules that read all names from each other. -/
def mirrors : CrateSource where
  name := "mirrors"
  root :=
    { items := [
        { name := some "a", kind := .module
            { items := [{ name := some "S", visibility := .pub, kind := .struct .unit }]
              uses := [{ path := "crate::b::*", visibility := .pub }] } },
        { name := some "b", kind := .module
            { uses := [{ path := "crate::a::*", visibility := .pub }] } }]
      uses := [{ path := "b::S" }] }

/-- The graph that has only this crate. -/
def mirrorsGraph : CrateGraph := ⟨[mirrors], List.nodup_singleton _⟩

end CrateScope
