import CrateScope.Proofs.Linkage

/-!
# Another map for a dependency

A build can be given another finished map of a crate that it reaches.  Here the other map shows to
other crates what the first one shows: it has the same public names in every module of the first,
and it may have more modules and more names that are restricted.

What a collection does without a look into other crates it does with either map.  The states that it
passes through correspond to each other: the other map stands in the place of the first one, and
where a mark of a glob names a module of it by its number, the module has another number.

## Main definitions

* `CrateMap.publicFace` — the names of a module that other crates may name.
* `Exchange` — a map in place of another one, with the same face.
* `Exchange.view`, `Exchange.state` — a view and a collection after the exchange.

## Main results

* `Exchange.mergeAll`, `Exchange.update` — names come to a module and are handed on as before.
* `Exchange.openBuild_eq` — a build opens as before.
-/

namespace CrateScope

/-! ### Tables with other values -/

namespace Listing

universe u v

variable {κ : Type u} {α β : Type v}

/-- The listing in which something else is held under each key. -/
def mapWith (f : κ → α → β) (l : Listing κ α) : Listing κ β :=
  ⟨l.entries.map fun e => (e.1, f e.1 e.2), by
    simpa [List.map_map, Function.comp_def] using l.nodup⟩

theorem size_mapWith (f : κ → α → β) (l : Listing κ α) : (l.mapWith f).size = l.size :=
  List.length_map _

variable [DecidableEq κ] (f : κ → α → β) (l : Listing κ α)

theorem get?_mapWith (k : κ) : (l.mapWith f).get? k = (l.get? k).map (f k) := by
  obtain ⟨entries, hnodup⟩ := l
  change (entries.map fun e => (e.1, f e.1 e.2)).lookup k = (entries.lookup k).map (f k)
  clear hnodup
  induction entries with
  | nil => rfl
  | cons e entries ih =>
    rw [List.map_cons, lookup_cons_eq, lookup_cons_eq, ih]
    split
    · next hk => rw [hk, Option.map_some]
    · rfl

theorem mapWith_insert (k : κ) (a : α) :
    (l.insert k a).mapWith f = (l.mapWith f).insert k (f k a) := by
  obtain ⟨entries, hnodup⟩ := l
  refine ext ?_
  change (put k a entries).map (fun e => (e.1, f e.1 e.2))
    = put k (f k a) (entries.map fun e => (e.1, f e.1 e.2))
  clear hnodup
  induction entries with
  | nil => rfl
  | cons e entries ih =>
    rw [put, List.map_cons, put]
    split
    · rfl
    · rw [List.map_cons, ih]

theorem mapWith_erase (k : κ) : (l.erase k).mapWith f = (l.mapWith f).erase k := by
  refine ext ?_
  change (l.entries.filter _).map _ = (l.entries.map _).filter _
  rw [List.filter_map]
  rfl

end Listing

/-- The marks with other modules as sources. -/
def GlobSources.map (f : ModuleId → ModuleId) (sources : GlobSources) : GlobSources :=
  ⟨sources.byModule.mapWith fun _ marks => marks.mapWith fun _ source => f source⟩

namespace GlobSources

variable (f : ModuleId → ModuleId) (sources : GlobSources)

theorem inModule_map (m : LocalId) :
    (sources.map f).inModule m = (sources.inModule m).mapWith fun _ source => f source := by
  unfold inModule map
  rw [Listing.get?_mapWith]
  cases sources.byModule.get? m <;> rfl

theorem get?_map (slot : Slot) : (sources.map f).get? slot = (sources.get? slot).map f := by
  unfold get?
  rw [inModule_map, Listing.get?_mapWith]

theorem map_setModule (m : LocalId) (marks : Listing (Name × Namespace) ModuleId) :
    (sources.setModule m marks).map f
      = (sources.map f).setModule m (marks.mapWith fun _ source => f source) := by
  unfold map setModule
  rw [Listing.mapWith_insert]

theorem map_insert (slot : Slot) (source : ModuleId) :
    (sources.insert slot source).map f = (sources.map f).insert slot (f source) := by
  unfold insert
  rw [map_setModule, inModule_map, Listing.mapWith_insert]

theorem map_erase (slot : Slot) : (sources.erase slot).map f = (sources.map f).erase slot := by
  unfold erase
  rw [map_setModule, inModule_map, Listing.mapWith_erase]

end GlobSources

/-! ### Computations side by side -/

section Computations

variable {ε α β γ δ : Type} (φ : β → γ)

/-- What follows a computation gives the same result after a change of its input, if it does so on
each input that it can get. -/
theorem bind_hom {ψ : α → δ} {r : Except ε β} {r' : Except ε γ} {f : β → Except ε α}
    {f' : γ → Except ε δ} (hr : r' = r.map φ)
    (hf : ∀ b, r = .ok b → f' (φ b) = (f b).map ψ) : r' >>= f' = (r >>= f).map ψ := by
  subst hr
  cases r with
  | error e => rfl
  | ok b => exact hf b rfl

/-- A loop gives the same result after a change of its states, if every round does so in the states
that the loop comes to. -/
theorem foldlM_hom {P : β → Prop} {f : β → α → Except ε β} {f' : γ → α → Except ε γ}
    (hround : ∀ b a, P b → f' (φ b) a = (f b a).map φ)
    (hkeeps : ∀ b a b', P b → f b a = .ok b' → P b') (as : List α) {b : β} (hb : P b) :
    as.foldlM f' (φ b) = (as.foldlM f b).map φ := by
  induction as generalizing b with
  | nil => rfl
  | cons a as ih =>
    rw [List.foldlM_cons, List.foldlM_cons]
    exact bind_hom φ (hround b a hb) fun b' hb' => ih (hkeeps b a b' hb hb')

end Computations

/-! ### Two maps with one face -/

/-- The names of a module that other crates may name, each with what they may name of its
meaning. -/
def CrateMap.publicFace (map : CrateMap) (m : LocalId) : List (Name × Meaning) :=
  ((map.scope m).entries.map fun (name, meaning) => (name, meaning.publicPart)).filter
    fun entry => !entry.2.isEmpty

/-- A map of a crate in place of another one.  To other crates every module of the old map looks the
same in the new one, where it has another number. -/
structure Exchange where
  crate : CrateId
  old : CrateMap
  new : CrateMap
  /-- The number in the new map of a module of the old one.  Numbers without a module count as well,
  so that no two modules are ever confused. -/
  renumber : LocalId → LocalId
  injective : Function.Injective renumber
  name : new.name = old.name
  /-- Both maps are of the crate. -/
  root : ∀ map, map = old ∨ map = new → map.tree.pathOf .root = ⟨crate, []⟩
  /-- What is restricted in them is restricted to modules of the crate. -/
  restricted : ∀ map, map = old ∨ map = new → ∀ slot b, map.binding? slot = some b →
    ∀ scope, b.visibility = .within scope → scope.crate = crate
  found : ∀ path m, old.tree.descend? .root path = some m →
    new.tree.descend? .root path = some (renumber m)
  face : ∀ path m, old.tree.descend? .root path = some m →
    new.publicFace (renumber m) = old.publicFace m

namespace Exchange

variable (x : Exchange)

/-- The new map for the old one.  Every other map stays. -/
def map (e : CrateId) (map : CrateMap) : CrateMap :=
  if e = x.crate ∧ map = x.old then x.new else map

/-- The number of a module after the exchange. -/
def module (m : ModuleId) : ModuleId :=
  if m.crate = x.crate then ⟨m.crate, x.renumber m.index⟩ else m

/-- A view with the new map among the dependencies. -/
def view (view : View) : View :=
  { view with dependencies := view.dependencies.mapWith x.map }

/-- Where a binding comes from after the exchange. -/
def origin : Origin → Origin
  | .named => .named
  | .glob source => .glob (x.module source)

/-- The state of a collection after the exchange. -/
def state (c : Collection) : Collection :=
  { c with view := x.view c.view, globSources := c.globSources.map x.module }

@[simp] theorem own_view (view : View) : (x.view view).own = view.own := rfl

@[simp] theorem tree_view (view : View) : (x.view view).tree = view.tree := rfl

@[simp] theorem crate_view (view : View) : (x.view view).crate = view.crate := rfl

@[simp] theorem view_state (c : Collection) : (x.state c).view = x.view c.view := rfl

@[simp] theorem map_state (c : Collection) : (x.state c).map = c.map := rfl

@[simp] theorem tree_state (c : Collection) : (x.state c).tree = c.tree := rfl

theorem renumber_root : x.renumber .root = .root :=
  (Option.some.inj (x.found [] .root rfl)).symm

theorem module_of_ne {m : ModuleId} (h : m.crate ≠ x.crate) : x.module m = m := if_neg h

theorem crate_module (m : ModuleId) : (x.module m).crate = m.crate := by
  unfold module
  split <;> rfl

/-- A module that is numbered as the root stays that. -/
theorem module_root {m : ModuleId} (h : m.index = .root) : x.module m = m := by
  unfold module
  split
  · rw [h, x.renumber_root, ← h]
  · rfl

theorem module_injective : Function.Injective x.module := by
  intro m m' h
  have hcrate : m.crate = m'.crate := by rw [← x.crate_module m, h, x.crate_module]
  unfold module at h
  rw [hcrate] at h
  split at h
  · obtain ⟨e, k⟩ := m
    obtain ⟨e', k'⟩ := m'
    cases hcrate
    have hindex : k = k' := x.injective (ModuleId.mk.inj h).2
    rw [hindex]
  · exact h

theorem name_map (e : CrateId) (map : CrateMap) : (x.map e map).name = map.name := by
  unfold Exchange.map
  split
  · next h => rw [h.2, x.name]
  · rfl

variable {x}

theorem mapOf?_view {view : View} (e : CrateId) : (x.view view).mapOf? e
    = if e = view.crate then some view.own else (view.dependencies.get? e).map (x.map e) := by
  unfold View.mapOf?
  rw [show (x.view view).dependencies = view.dependencies.mapWith x.map from rfl,
    Listing.get?_mapWith]
  rfl

/-- Messages show a path as before. -/
theorem displayPath_view (view : View) (path : ItemPath) :
    (x.view view).displayPath path = view.displayPath path := by
  unfold View.displayPath
  rw [crate_view]
  split
  · rfl
  · next hne =>
    rw [mapOf?_view, if_neg hne, View.mapOf?_of_ne hne, Option.map_map]
    congr 3
    funext map
    exact x.name_map _ map

end Exchange

namespace Collection

open Exchange

variable {x : Exchange} {c : Collection}

/-! ### One binding -/

theorem judgeBinding_exchange (existing : Option Binding) (source : Option ModuleId)
    (origin : Origin) (new : Binding) :
    judgeBinding existing (source.map x.module) (x.origin origin) new
      = judgeBinding existing source origin new := by
  cases existing with
  | none => rfl
  | some old =>
    cases source with
    | none => cases origin <;> rfl
    | some current =>
      cases origin with
      | named => rfl
      | glob incoming =>
        simp only [Option.map_some, Exchange.origin, judgeBinding, x.module_injective.eq_iff]

theorem markAfter_exchange (sources : GlobSources) (slot : Slot) (origin : Origin)
    (verdict : Verdict) :
    markAfter (sources.map x.module) slot (x.origin origin) verdict
      = (markAfter sources slot origin verdict).map x.module := by
  cases origin with
  | named => exact (GlobSources.map_erase _ _ _).symm
  | glob source =>
    unfold Exchange.origin markAfter
    dsimp only
    split
    · exact (GlobSources.map_insert _ _ _ _).symm
    · rfl

theorem map_tell (c : Collection) (level : Level) (text : String) :
    (c.tell level text).map = c.map :=
  rfl

theorem reportClash_exchange (slot : Slot) (existing new : Binding) :
    (x.state c).reportClash slot existing new = x.state (c.reportClash slot existing new) := by
  unfold reportClash
  rw [view_state, displayPath_view, displayPath_view, map_state]
  dsimp only
  rw [map_tell, map_tell, map_state]
  split <;> rfl

theorem place_exchange (slot : Slot) (new : Binding) (origin : Origin) :
    (x.state c).place slot new (x.origin origin)
      = (c.place slot new origin).map x.state id := by
  unfold place
  rw [show (x.state c).globSources = c.globSources.map x.module from rfl, GlobSources.get?_map,
    map_state]
  dsimp only
  rw [judgeBinding_exchange, markAfter_exchange]
  generalize judgeBinding _ _ origin new = verdict
  cases verdict with
  | replace => rfl
  | keep => rfl
  | clash =>
    cases c.map.binding? slot with
    | none => rfl
    | some old =>
      let marked := { c with globSources := markAfter c.globSources slot origin .clash }
      exact congrArg (·, false) (reportClash_exchange (x := x) (c := marked) slot old new)

/-! ### Many bindings -/

theorem merge_exchange (m : LocalId) (name : Name) (meaning : Meaning) (origin : Origin) :
    (x.state c).merge m name meaning (x.origin origin)
      = (c.merge m name meaning origin).map x.state id := by
  unfold merge
  change List.foldl _ (Prod.map x.state id (c, ∅)) _ = _
  refine List.foldl_hom (Prod.map x.state id) ?_
  rintro ⟨c, changed⟩ ⟨space, new⟩
  simp only [Prod.map, place_exchange, id]

theorem mergeAll_exchange (m : LocalId) (news : List (Name × Meaning)) (origin : Origin) :
    (x.state c).mergeAll m news (x.origin origin)
      = (c.mergeAll m news origin).map x.state id := by
  unfold mergeAll
  change List.foldl _ (Prod.map x.state id (c, [])) _ = _
  refine List.foldl_hom (Prod.map x.state id) ?_
  rintro ⟨c, changed⟩ ⟨name, meaning⟩
  simp only [Prod.map, merge_exchange, id]

/-! ### Handing names on -/

/-- If the receiver of what is handed on does as before, then so does handing on. -/
theorem handOn_exchange {receiver : Collection → LocalId → List (Name × Meaning) → Origin →
      Except Failure Collection}
    (hreceiver : ∀ d m news origin, d.tree.crate ≠ x.crate →
      receiver (x.state d) m news (x.origin origin) = (receiver d m news origin).map x.state)
    (hown : c.tree.crate ≠ x.crate) (m : LocalId) (changed : List (Name × Meaning))
    (edge : GlobEdge) :
    handOn receiver m changed (x.state c) edge
      = (handOn receiver m changed c edge).map x.state := by
  -- The glob reads from a module of the own crate, which keeps its number.
  have hsource : x.origin (.glob (c.tree.global m)) = .glob (c.tree.global m) :=
    congrArg Origin.glob (x.module_of_ne (m := c.tree.global m) hown)
  unfold handOn
  dsimp only
  rw [tree_state]
  generalize offered c.tree edge.importer edge.visibility changed = names
  split
  · rfl
  · rw [← hreceiver (c.tellHandedOn m edge names) _ _ _ hown, hsource]
    rfl

theorem update_exchange (limit depth : Nat) (hown : c.tree.crate ≠ x.crate) (m : LocalId)
    (news : List (Name × Meaning)) (origin : Origin) :
    update limit depth (x.state c) m news (x.origin origin)
      = (update limit depth c m news origin).map x.state := by
  induction depth generalizing c m news origin with
  | zero => rfl
  | succ depth ih =>
    have hmerged : Frame c (c.mergeAll m news origin).1 :=
      mergeAll_keeps (fun d name ns b hd => hd.trans (d.frame_place _ b origin)) news (Frame.refl c)
    rw [update, update, mergeAll_exchange]
    dsimp only [Prod.map, id]
    split
    · rfl
    · refine foldlM_hom x.state (P := fun d => d.tree = c.tree) ?_ ?_ _ hmerged.tree
      · intro d edge hd
        rw [← hd] at hown
        exact handOn_exchange (fun _ m news origin hown => ih hown m news origin) hown m _ edge
      · intro d edge d' hd h
        unfold handOn at h
        dsimp only at h
        split at h
        · cases h
          exact hd
        · exact (frame_update h).tree.trans hd

/-- Binding the name of an import does not look into other crates. -/
theorem bindName_exchange (limit : Nat) (hown : c.tree.crate ≠ x.crate) (i : Import)
    (meaning : Meaning) :
    (x.state c).bindName limit i meaning = (c.bindName limit i meaning).map x.state := by
  unfold bindName
  cases i.name with
  | none => rfl
  | some name => exact update_exchange limit (limit + 1) (c := c.tellBinding i name) hown _ _ .named

end Collection

/-! ### Before the imports -/

section Build

variable {x : Exchange} {g : CrateGraph} {id : CrateId} {settings : Settings}
  {finished finished' : CrateId → Option CrateMap}

/-- The maps of the dependencies are collected as before. -/
theorem dependencyMaps_exchange (name : String)
    (h : ∀ e, finished' e = (finished e).map (x.map e)) :
    dependencyMaps g id name finished'
      = (dependencyMaps g id name finished).map (Listing.mapWith x.map) := by
  unfold dependencyMaps
  refine bind_hom (fun all => all) (by cases g.transitiveDependencies id <;> rfl) fun all _ => ?_
  refine foldlM_hom (Listing.mapWith x.map) (P := fun _ => True) (b := ∅) ?_
    (fun _ _ _ _ _ => trivial) all trivial
  intro known e _
  rw [h]
  cases finished e with
  | none => rfl
  | some map => exact congrArg Except.ok (Listing.mapWith_insert _ _ _ _).symm

/-- **A build without a prelude opens as before.** -/
theorem openBuild_exchange (crate : CrateSource) (hprelude : settings.prelude = none)
    (h : ∀ e, finished' e = (finished e).map (x.map e)) :
    openBuild g id crate finished' settings
      = (openBuild g id crate finished settings).map fun r => (x.state r.1, r.2) := by
  unfold openBuild
  refine bind_hom (Listing.mapWith x.map) ?_ fun maps _ => ?_
  · rw [dependencyMaps_exchange crate.name h]
    cases dependencyMaps g id crate.name finished <;> rfl
  · dsimp only
    rw [Listing.size_mapWith]
    refine bind_hom (fun names => names) (by cases directNames g id <;> rfl) fun names _ => ?_
    unfold prepare
    rw [hprelude]
    rfl

end Build

end CrateScope
