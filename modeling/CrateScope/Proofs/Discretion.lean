import CrateScope.Proofs.Exchange
import CrateScope.Proofs.History
import CrateScope.Proofs.References

/-!
# Looking into an exchanged map

All that a collection reads in the finished map of another crate are public names, and modules at
paths that some binding has told it.  A map with the same face answers both in the same way, so that
every import means what it meant, and does what it did.

For this the map must have the modules to which known bindings lead.  That is a property which all
bindings inherit; together with the absence of a prelude it is kept in every course.

## Main definitions

* `Exchange.Knows` — the module that a binding leads to, if it is of the crate, is in the old map.
* `Exchange.Suits`, `Exchange.Blind` — a view in which nothing shows which of the two maps it has.

## Main results

* `Exchange.Blind.resolve` — paths mean the same.
* `Collection.carryOut_exchange` — imports do the same.
* `Collection.run_exchange` — a collection comes to the same.
-/

namespace CrateScope

/-! ### What a face tells -/

theorem Meaning.isEmpty_handedOn (t : ModuleTree) (visibility : Visibility) (m : Meaning) :
    (m.handedOn t visibility).isEmpty = m.isEmpty := by
  simp only [isEmpty, get_handedOn, Option.isNone_map]

namespace CrateMap

/-- In a table of meanings the public part under a name is known from the public parts that are not
empty. -/
theorem publicPart_lookup {entries : List (Name × Meaning)} (hnodup : (entries.map Prod.fst).Nodup)
    (name : Name) :
    ((entries.lookup name).getD ∅).publicPart
      = (((entries.map fun e => (e.1, e.2.publicPart)).filter fun e => !e.2.isEmpty).lookup
          name).getD ∅ := by
  induction entries with
  | nil => rfl
  | cons e entries ih =>
    obtain ⟨name', meaning⟩ := e
    rw [List.map_cons, List.nodup_cons] at hnodup
    rw [Listing.lookup_cons_eq, List.map_cons, List.filter_cons]
    by_cases hname : name = name'
    · subst hname
      rw [if_pos rfl, Option.getD_some]
      split
      · rw [Listing.lookup_cons_eq, if_pos rfl, Option.getD_some]
      · next hempty =>
        -- The name is not in the rest of the table, so that it has no other public part.
        have hnone : entries.lookup name = none :=
          Collection.lookup_eq_none_of_not_mem hnodup.1
        rw [← ih hnodup.2, hnone]
        exact Meaning.isEmpty_iff.1 (by simpa using hempty)
    · rw [if_neg hname, ih hnodup.2]
      split
      · rw [Listing.lookup_cons_eq, if_neg hname]
      · rfl

theorem publicPart_meaning (map : CrateMap) (m : LocalId) (name : Name) :
    (map.meaning m name).publicPart = ((map.publicFace m).lookup name).getD ∅ :=
  publicPart_lookup (map.scope m).nodup name

/-- The public macros of a module are known from its face. -/
theorem macros_publicFace (map : CrateMap) (m : LocalId) :
    ((map.scope m).entries.filterMap fun (name, meaning) =>
        (meaning.publicPart.macros).map (name, ·))
      = (map.publicFace m).filterMap fun (name, meaning) => meaning.macros.map (name, ·) := by
  unfold publicFace
  rw [List.filterMap_filter, List.filterMap_map]
  refine congrArg (fun f => List.filterMap f _) (funext fun e => ?_)
  dsimp only [Function.comp]
  split
  · rfl
  · next hempty =>
    have hnothing : e.2.publicPart = ∅ := Meaning.isEmpty_iff.1 (by simpa using hempty)
    rw [hnothing]
    rfl

/-- So is what a glob hands on of it. -/
theorem handedOn_publicFace (map : CrateMap) (m : LocalId) (t : ModuleTree)
    (visibility : Visibility) :
    (((map.scope m).entries.map fun (name, meaning) =>
        (name, meaning.publicPart.handedOn t visibility)).filter fun entry => !entry.2.isEmpty)
      = ((map.publicFace m).map fun (name, meaning) =>
          (name, meaning.handedOn t visibility)).filter fun entry => !entry.2.isEmpty := by
  have hparts : ((map.scope m).entries.map fun (name, meaning) =>
        (name, meaning.publicPart.handedOn t visibility))
      = ((map.scope m).entries.map fun (name, meaning) => (name, meaning.publicPart)).map
          fun (name, meaning) => (name, meaning.handedOn t visibility) := by
    rw [List.map_map]
    rfl
  unfold publicFace
  rw [hparts]
  generalize (map.scope m).entries.map _ = parts
  rw [List.filter_map, List.filter_map, List.filter_filter]
  refine congrArg _ (List.filter_congr fun e _ => ?_)
  simp only [Function.comp, Meaning.isEmpty_handedOn, Bool.and_self]

end CrateMap

/-! ### Looking into other crates -/

namespace Exchange

variable {x : Exchange} {view : View} {m : LocalId}

/-- The view of another crate, which has no prelude and shows the old map if it shows the crate. -/
structure Suits (x : Exchange) (view : View) : Prop where
  other : view.crate ≠ x.crate
  shown : ∀ map, view.dependencies.get? x.crate = some map → map = x.old
  prelude : view.own.prelude = none

/-- If a binding is of a module or enum of the crate, then the old map has it. -/
def Knows (x : Exchange) (b : Binding) : Prop :=
  b.isModuleOrEnum = true → b.path.crate = x.crate →
    (x.old.tree.descend? .root b.path.segments).isSome

theorem map_of_ne {e : CrateId} (h : e ≠ x.crate) (map : CrateMap) : x.map e map = map :=
  if_neg fun h' => h h'.1

theorem map_old : x.map x.crate x.old = x.new := if_pos ⟨rfl, rfl⟩

/-- Another crate may name of either map what is public, and nothing else. -/
theorem visible_eq_publicPart {map : CrateMap} (hmap : map = x.old ∨ map = x.new) {t : ModuleTree}
    (ht : t.crate ≠ x.crate) (m : LocalId) (name : Name) (viewer : LocalId) :
    (map.meaning m name).visible t viewer = (map.meaning m name).publicPart := by
  refine Meaning.ext fun ns => ?_
  rw [Meaning.visible, Meaning.publicPart, Meaning.get_filterVisibility,
    Meaning.get_filterVisibility]
  cases hb : (map.meaning m name).get ns with
  | none => rfl
  | some b =>
    have hsame : b.visibility.isVisibleFrom t viewer = b.visibility.isPublic := by
      cases hvisibility : b.visibility with
      | everywhere => rfl
      | within scope =>
        have hscope := x.restricted map hmap ⟨m, name, ns⟩ b hb scope hvisibility
        have hne : scope.crate ≠ t.crate := hscope ▸ Ne.symm ht
        simp [Visibility.isVisibleFrom, Visibility.isPublic, hne]
    rw [Option.filter_some, Option.filter_some, hsame]

namespace Suits

variable (h : x.Suits view)

include h

theorem mapOf?_eq (e : CrateId) :
    (x.view view).mapOf? e = (view.mapOf? e).map (x.map e) := by
  rw [mapOf?_view]
  split
  · next hown =>
    rw [hown, View.mapOf?_own, Option.map_some, map_of_ne h.other]
  · next hne => rw [View.mapOf?_of_ne hne]

/-- Of the crate itself the view shows the old map, and after the exchange the new one. -/
theorem cases_of_crate : view.mapOf? x.crate = none ∧ (x.view view).mapOf? x.crate = none ∨
    view.mapOf? x.crate = some x.old ∧ (x.view view).mapOf? x.crate = some x.new := by
  rw [h.mapOf?_eq]
  cases hmap : view.mapOf? x.crate with
  | none => exact Or.inl ⟨rfl, rfl⟩
  | some map =>
    rw [View.mapOf?_of_ne (Ne.symm h.other)] at hmap
    rw [h.shown map hmap, Option.map_some, map_old]
    exact Or.inr ⟨rfl, rfl⟩

theorem mapOf?_of_ne {e : CrateId} (he : e ≠ x.crate) :
    (x.view view).mapOf? e = view.mapOf? e := by
  rw [h.mapOf?_eq]
  cases view.mapOf? e with
  | none => rfl
  | some map => rw [Option.map_some, map_of_ne he]

/-- What is known is found at its path under its new number. -/
theorem locate? {path : ItemPath}
    (hknown : path.crate = x.crate → (x.old.tree.descend? .root path.segments).isSome) :
    (x.view view).locate? path = (view.locate? path).map x.module := by
  by_cases hcrate : path.crate = x.crate
  · obtain ⟨index, hindex⟩ := Option.isSome_iff_exists.1 (hknown hcrate)
    simp only [View.locate?, hcrate, Option.bind_eq_bind, Option.pure_def]
    rcases h.cases_of_crate with ⟨hold, hnew⟩ | ⟨hold, hnew⟩
    · rw [hold, hnew]
      rfl
    · rw [hold, hnew, Option.bind_some, Option.bind_some, hindex, x.found _ _ hindex]
      exact congrArg some (if_pos rfl).symm
  · have hsame : (x.view view).locate? path = view.locate? path := by
      simp only [View.locate?, h.mapOf?_of_ne hcrate]
    rw [hsame]
    cases hlocate : view.locate? path with
    | none => rfl
    | some found =>
      rw [Option.map_some, x.module_of_ne (by rwa [crate_of_locate? hlocate])]

/-- A root is known by the same binding. -/
theorem moduleBinding {root : ModuleId} (hroot : root.index = .root) :
    (x.view view).moduleBinding root = view.moduleBinding root := by
  unfold View.moduleBinding
  by_cases hcrate : root.crate = x.crate
  · rw [hcrate, hroot]
    rcases h.cases_of_crate with ⟨hold, hnew⟩ | ⟨hold, hnew⟩
    · rw [hold, hnew]
    · rw [hold, hnew]
      unfold CrateMap.moduleBinding
      dsimp only
      rw [x.root _ (Or.inl rfl), x.root _ (Or.inr rfl)]
  · rw [h.mapOf?_of_ne hcrate]

/-- So is every module of the crate of the view. -/
theorem moduleBinding_global (a : LocalId) :
    (x.view view).moduleBinding (view.tree.global a) = view.moduleBinding (view.tree.global a) := by
  unfold View.moduleBinding
  rw [h.mapOf?_of_ne (e := (view.tree.global a).crate) h.other]

section Found

variable {path : ItemPath} {found : ModuleId} (hfound : view.locate? path = some found)

include hfound

/-- If anything is found in the crate, then the view shows the old map, and after the exchange the
new one. -/
theorem maps_of_locate? (hcrate : found.crate = x.crate) :
    view.mapOf? found.crate = some x.old ∧ (x.view view).mapOf? found.crate = some x.new := by
  obtain ⟨hpath, map, hmap, -⟩ := View.locate?_eq_some_iff.1 hfound
  rw [← hpath, hcrate] at hmap
  rw [hcrate]
  rcases h.cases_of_crate with ⟨hnone, -⟩ | hsome
  · cases hnone.symm.trans hmap
  · exact hsome

/-- It is found in the old map at the same path. -/
theorem descend?_of_locate? (hcrate : found.crate = x.crate) :
    x.old.tree.descend? .root path.segments = some found.index := by
  obtain ⟨hpath, map, hmap, hindex⟩ := View.locate?_eq_some_iff.1 hfound
  rw [← hpath, (h.maps_of_locate? hfound hcrate).1] at hmap
  cases hmap
  exact hindex

/-- There it shows others what it shows under its new number. -/
theorem face_of_locate? (hcrate : found.crate = x.crate) :
    x.new.publicFace (x.module found).index = x.old.publicFace found.index := by
  rw [show x.module found = ⟨found.crate, x.renumber found.index⟩ from if_pos hcrate]
  exact x.face _ _ (h.descend?_of_locate? hfound hcrate)

/-- In a module that is found at a path one may name the same as before. -/
theorem visible (name : Name) (viewer : LocalId) :
    ((x.view view).meaning (x.module found) name).visible view.tree viewer
      = (view.meaning found name).visible view.tree viewer := by
  unfold View.meaning
  rw [x.crate_module]
  by_cases hcrate : found.crate = x.crate
  · obtain ⟨hold, hnew⟩ := h.maps_of_locate? hfound hcrate
    rw [hold, hnew]
    dsimp only
    -- All that is not public is hidden, in both maps.
    rw [visible_eq_publicPart (t := view.tree) (Or.inl rfl) h.other,
      visible_eq_publicPart (t := view.tree) (Or.inr rfl) h.other, CrateMap.publicPart_meaning,
      CrateMap.publicPart_meaning, h.face_of_locate? hfound hcrate]
  · rw [h.mapOf?_of_ne hcrate, x.module_of_ne hcrate]

end Found

/-! ### Paths -/

variable (hroots : ∀ name root, view.own.externPrelude.get? name = some root → root.index = .root)

include hroots

theorem externMeaning (name : Name) :
    (x.view view).externMeaning name = view.externMeaning name := by
  unfold View.externMeaning
  rw [own_view]
  cases hroot : view.own.externPrelude.get? name with
  | none => rfl
  | some root =>
    dsimp only
    rw [h.moduleBinding (hroots name root hroot)]

/-- Paths start as before. -/
theorem start (m : LocalId) (path : Path) (use : PathUse) :
    (x.view view).start m path use = view.start m path use := by
  have hown : (x.view view).ownModule = view.ownModule :=
    funext fun a => congrArg (Meaning.only .types) (h.moduleBinding_global a)
  have hextern : (x.view view).externMeaning = view.externMeaning :=
    funext (h.externMeaning hroots)
  have hprelude : (x.view view).preludeMeaning = view.preludeMeaning := by
    funext name
    unfold View.preludeMeaning
    rw [own_view, h.prelude]
  unfold View.start View.meaningInScope View.meaningFromRoot
  rw [hown, hextern, hprelude, own_view, tree_view,
    show (x.view view).macroMeaning = view.macroMeaning from rfl]
  split
  · rfl
  · rfl
  · split
    · split
      · rfl
      · next first rest _ =>
        cases hroot : view.own.externPrelude.get? first with
        | none => rfl
        | some root =>
          dsimp only
          rw [h.moduleBinding (hroots first root hroot)]
    · rfl
  · rfl
  · rfl

end Suits

/-- A view in which nothing shows which of the two maps it has: what lookups come to is known, and
the crates that can be named are those that the crate depends on. -/
structure Blind (x : Exchange) (g : CrateGraph) (view : View) : Prop extends x.Suits view where
  bears : view.Bears (fun _ => x.Knows) (fun _ => True) (g.Nameable view.crate)

namespace Blind

variable {g : CrateGraph} (h : x.Blind g view)

include h

theorem externPrelude_root (name : Name) (root : ModuleId)
    (hroot : view.own.externPrelude.get? name = some root) : root.index = .root :=
  (h.bears.crates name root hroot).index_eq

/-- Going on inside of what is known comes to the same. -/
theorem follow {leavesCrate : Bool} {meaning : Meaning} {names : List Name}
    (hknown : ∀ ns b, meaning.get ns = some b → x.Knows b) :
    (x.view view).follow m leavesCrate meaning names = view.follow m leavesCrate meaning names := by
  induction names generalizing meaning leavesCrate with
  | nil => rfl
  | cons name names ih =>
    rw [View.follow, View.follow]
    cases htypes : meaning.types with
    | none => rfl
    | some host =>
      dsimp only
      split
      · next hkind =>
        rw [h.locate? (hknown .types host htypes hkind)]
        cases hinside : view.locate? host.path with
        | none => rfl
        | some inside =>
          rw [Option.map_some]
          dsimp only
          rw [x.crate_module, tree_view, crate_view, h.visible hinside]
          split
          · rfl
          · refine ih fun ns b hb => ?_
            rw [Meaning.visible, Meaning.get_filterVisibility, Option.filter_eq_some_iff] at hb
            exact h.bears.meaning hb.1 hb.2
      · rfl

/-- **Paths mean the same.** -/
theorem resolve (m : LocalId) (path : Path) (use : PathUse) :
    (x.view view).resolve m path use = view.resolve m path use := by
  unfold View.resolve
  rw [h.start h.externPrelude_root]
  cases hs : view.start m path use with
  | error miss => rfl
  | ok r => exact h.follow fun ns b hb => h.bears.start trivial (View.start_of_start hs hb)

theorem resolveLog (m : LocalId) (path : Path) (use : PathUse) :
    (x.view view).resolveLog m path use = view.resolveLog m path use := by
  unfold View.resolveLog
  rw [h.start h.externPrelude_root]

end Blind

end Exchange

/-- The outcome of a collection after the exchange. -/
def Exchange.outcome (x : Exchange) (o : Collection.Outcome) : Collection.Outcome :=
  { o with collection := x.state o.collection }

/-! ### Imports -/

namespace Collection

open Exchange

variable {x : Exchange} {g : CrateGraph} {c : Collection}

theorem status_exchange (h : x.Blind g c.view) (hrooted : Rooted (g.Nameable c.view.crate) c)
    (i : Import) : (x.state c).status i = c.status i := by
  unfold status
  rw [view_state, show (x.state c).externRoot? = c.externRoot? from rfl, h.resolve]
  split
  · cases hroot : c.externRoot? i.path with
    | none => rfl
    | some root =>
      dsimp only
      rw [h.moduleBinding (hrooted.of_externRoot? hroot).index_eq]
  · rfl

theorem statusLog_exchange (h : x.Blind g c.view) (i : Import) :
    (x.state c).statusLog i = c.statusLog i := by
  unfold statusLog
  rw [view_state, h.resolveLog]

/-- The root of a crate has the same public macros. -/
theorem publicMacros_exchange {view : View} (h : x.Suits view) {root : ModuleId}
    (hroot : root.index = .root) : publicMacros (x.view view) root = publicMacros view root := by
  unfold publicMacros
  by_cases hcrate : root.crate = x.crate
  · rw [hcrate, hroot]
    rcases h.cases_of_crate with ⟨hold, hnew⟩ | ⟨hold, hnew⟩
    · rw [hold, hnew]
    · rw [hold, hnew]
      dsimp only
      have hface := x.face [] .root rfl
      rw [x.renumber_root] at hface
      rw [CrateMap.macros_publicFace, CrateMap.macros_publicFace, hface]
  · rw [h.mapOf?_of_ne hcrate]

/-- Making a crate known everywhere makes the same names known. -/
theorem openCrate_exchange (h : x.Blind g c.view) {root : ModuleId}
    (hroot : g.Nameable c.view.crate root) (name : Option Name) (macroUse : Bool) :
    (x.state c).openCrate name (.only .types (c.view.moduleBinding root)) macroUse
      = x.state (c.openCrate name (.only .types (c.view.moduleBinding root)) macroUse) := by
  have hlocate := h.bears.located root hroot
  have hlocate' : (x.view c.view).locate? (c.view.moduleBinding root).path = some root := by
    rw [h.locate? (h.bears.crate root hroot (View.isModuleOrEnum_moduleBinding _ _)), hlocate,
      Option.map_some, x.module_root hroot.index_eq]
  unfold openCrate
  rw [view_state, show (Meaning.only .types (c.view.moduleBinding root)).types
      = some (c.view.moduleBinding root) from rfl, Option.bind_some, Option.bind_some, hlocate,
    hlocate']
  dsimp only
  rw [publicMacros_exchange h.toSuits hroot.index_eq]
  rfl

/-- A glob brings in the same names. -/
theorem globNames_exchange (h : x.Suits c.view) {path : ItemPath} {source : ModuleId}
    (hsource : c.view.locate? path = some source) (i : Import) :
    (x.state c).globNames i (x.module source) = c.globNames i source := by
  unfold globNames
  rw [x.crate_module, view_state]
  by_cases hcrate : source.crate = x.crate
  · obtain ⟨hold, hnew⟩ := h.maps_of_locate? hsource hcrate
    have hforeign : source.crate ≠ c.view.crate := hcrate ▸ Ne.symm h.other
    rw [hold, hnew]
    dsimp only
    rw [if_neg hforeign, if_neg (show source.crate ≠ (x.view c.view).crate from hforeign),
      CrateMap.handedOn_publicFace, CrateMap.handedOn_publicFace,
      h.face_of_locate? hsource hcrate]
    rfl
  · rw [h.mapOf?_of_ne hcrate, x.module_of_ne hcrate]
    rfl

theorem linkGlob_exchange (hown : c.view.crate ≠ x.crate) (i : Import) (source : ModuleId) :
    (x.state c).linkGlob i (x.module source) = x.state (c.linkGlob i source) := by
  unfold linkGlob
  rw [x.crate_module, view_state, crate_view]
  split
  · next hsource =>
    rw [x.module_of_ne (hsource ▸ hown)]
    unfold addEdge
    rw [show (x.state c).edgesFrom = c.edgesFrom from rfl]
    split <;> rfl
  · rfl

theorem openGlob_exchange (limit : Nat) (h : x.Suits c.view) (i : Import) {meaning : Meaning}
    (hknown : ∀ ns b, meaning.get ns = some b → x.Knows b) :
    (x.state c).openGlob limit i meaning = (c.openGlob limit i meaning).map x.state := by
  unfold openGlob
  cases htarget : meaning.types.filter Binding.isModuleOrEnum with
  | none => rfl
  | some target =>
    obtain ⟨htypes, hkind⟩ := Option.filter_eq_some_iff.1 htarget
    dsimp only
    rw [view_state, h.locate? (hknown .types target htypes hkind)]
    cases hsource : c.view.locate? target.path with
    | none => rfl
    | some source =>
      rw [Option.map_some]
      dsimp only
      rw [globNames_exchange h hsource]
      refine bind_hom x.state ?_ fun d hd => ?_
      · exact update_exchange limit (limit + 1) (c := c.tellGlob i _) h.other _ _ (.glob source)
      · have hcrate : d.view.crate = c.view.crate :=
          congrArg ModuleTree.crate (frame_update hd).tree
        exact congrArg Except.ok (linkGlob_exchange (hcrate ▸ h.other) i source)

/-- **Carrying an import out does the same.** -/
theorem carryOut_exchange (limit : Nat) (h : x.Blind g c.view) {i : Import} {meaning : Meaning}
    (hmeaning : Inherits (fun _ => x.Knows) (g.Nameable c.view.crate) c.view i meaning) :
    (x.state c).carryOut limit i meaning = (c.carryOut limit i meaning).map x.state := by
  unfold carryOut
  cases hk : i.kind with
  | glob => exact openGlob_exchange limit h.toSuits i hmeaning.bindings
  | named => exact bindName_exchange limit h.other i meaning
  | externCrate macroUse =>
    dsimp only
    split
    · obtain ⟨root, hroot, rfl⟩ := hmeaning.root macroUse hk
      rw [openCrate_exchange h hroot]
      refine bindName_exchange limit ?_ i _
      rw [(Alike.openCrate c _ _ _).tree]
      exact h.other
    · exact bindName_exchange limit h.other i meaning

/-! ### Courses -/

section Course

variable {id : CrateId} {imports : List Import} {start : Collection} {limit : Nat}
  {past : List Collection} (hopened : Opened id imports start)
  (hblind : x.Blind g start.view) (hrooted : Rooted (g.Nameable start.view.crate) start)

include hopened hblind hrooted

/-- Nothing shows in any state between two imports, if nothing does before the first. -/
theorem Course.blind (h : Course limit imports start past none c) :
    x.Blind g c.view ∧ Rooted (g.Nameable c.view.crate) c := by
  have hkeeps := (h.keeps hopened.coherent).1
  have hcrate : c.view.crate = start.view.crate := congrArg ModuleTree.crate hkeeps.tree
  have hbears := h.bears hopened.coherent hblind.bears (fun _ _ _ hknown => hknown)
    (fun _ _ => trivial) hrooted
  rw [← hcrate] at hbears hrooted
  refine ⟨⟨⟨?_, ?_, ?_⟩, hbears⟩, hrooted.of_keeps hkeeps⟩
  · rw [hcrate]
    exact hblind.other
  · rw [hkeeps.dependencies]
    exact hblind.shown
  · rw [show c.view.own.prelude = _ from hkeeps.prelude]
    exact hblind.prelude

/-- A pass does the same, and leaves the same imports. -/
theorem pass_exchange {waiting : List Import} (h : Course limit imports start past none c)
    (hw : ∀ i ∈ waiting, i ∈ imports) :
    pass limit (x.state c) waiting
      = (pass limit c waiting).map fun r => (x.state r.1, r.2) := by
  induction waiting generalizing c past with
  | nil => rfl
  | cons i rest ih =>
    have hrest : ∀ j ∈ rest, j ∈ imports := fun j hj => hw j (List.mem_cons_of_mem i hj)
    have hi : i ∈ imports := hw i List.mem_cons_self
    have htold := h.told (c.log ++ c.statusLog i)
    obtain ⟨hc, hcrooted⟩ := h.blind hopened hblind hrooted
    rw [pass, pass]
    dsimp only
    rw [status_exchange hc hcrooted, statusLog_exchange hc]
    cases hm : (c.status i).meaning? with
    | none =>
      exact bind_hom (fun r : Collection × List Import => (x.state r.1, r.2)) (ih htold hrest)
        fun r _ => rfl
    | some meaning =>
      have hmeaning := inherits_status hc.bears hcrooted trivial hm
      refine bind_hom x.state ?_ fun d hd => ih (htold.settled hi hm hd) hrest
      exact bind_hom x.state
        (carryOut_exchange (c := { c with log := c.log ++ c.statusLog i }) limit hc hmeaning)
        fun d _ => rfl

/-- So do the passes together. -/
theorem settle_exchange {isCancelled : Nat → Bool} {number : Nat} {waiting : List Import}
    (h : Course limit imports start past none c) (hw : ∀ i ∈ waiting, i ∈ imports) :
    settle limit isCancelled number waiting (x.state c)
      = (settle limit isCancelled number waiting c).map x.outcome := by
  induction hn : waiting.length using Nat.strongRecOn generalizing waiting number c past with
  | ind n ih =>
    rw [settle, settle, pass_exchange hopened hblind hrooted h hw]
    split
    · rfl
    · cases hp : pass limit c waiting with
      | error failure => rfl
      | ok r =>
        obtain ⟨d, left⟩ := r
        obtain ⟨⟨past', hd⟩, hleft⟩ := h.of_pass hw hp
        have htold := hd.told (d.tell .debug ("`" ++ d.map.name ++ "` pass " ++ toString number ++
          ": resolved " ++ toString (waiting.length - left.length) ++ " of " ++
          toString waiting.length ++ " pending import(s)")).log
        dsimp only [Except.map]
        split
        · next hlt => exact ih left.length (hn ▸ hlt) htold (fun i hi => hw i (hleft i hi)) rfl
        · rfl

/-- **A collection comes to the same.** -/
theorem run_exchange {isCancelled : Nat → Bool} :
    run limit isCancelled imports (x.state start)
      = (run limit isCancelled imports start).map x.outcome := by
  refine bind_hom x.outcome (settle_exchange hopened hblind hrooted .start fun i hi => hi) ?_
  intro outcome _
  have hgivenUp : outcome.unresolved.foldl giveUp (x.state outcome.collection)
      = x.state (outcome.unresolved.foldl giveUp outcome.collection) :=
    List.foldl_hom x.state fun _ _ => rfl
  exact congrArg (fun c => Except.ok { x.outcome outcome with collection := c }) hgivenUp

end Course

end Collection

/-- A finished build after the exchange. -/
def Exchange.built (x : Exchange) (built : Built) : Built :=
  { built with view := x.view built.view }

theorem closeBuild_exchange {x : Exchange} (crate : CrateSource) (outcome : Collection.Outcome) :
    closeBuild crate (x.outcome outcome) = x.built (closeBuild crate outcome) := by
  unfold closeBuild
  dsimp only
  -- The same problems are counted on both sides.
  split
  · next hnone =>
    split
    · rfl
    · next hsome => exact absurd hnone hsome
  · next hsome =>
    split
    · next hnone => exact absurd hnone hsome
    · rfl

end CrateScope
