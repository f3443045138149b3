import CrateScope.Proofs.Lookup
import CrateScope.Proofs.Runs
import Mathlib

/-!
# Privacy

No module ever comes to a binding that it may not name.  The two halves of this need each other:
what a path means may be named because everything that is bound may be named where it is bound, and
an import binds only what its path means, at most as widely as it may itself be named.

## Main definitions

* `View.Private` — the law, for what is bound and for what lookups find.

## Main results

* `Collection.Change.guarded` — no change while an import is carried out breaks the law.
* `Collection.Course.guarded` — the law in every state of every course.
* `lookups_respect_privacy` — the law in every run of a workspace.
-/

namespace CrateScope

/-- Privacy of a view.  What is bound in a module is public or restricted to that module or one
around it, and what a path means there may be named there; in particular no binding that another
crate restricts is ever found. -/
structure View.Private (view : View) : Prop where
  stored : ∀ m name ns b, view.own.binding? ⟨m, name, ns⟩ = some b →
    b.visibility = .everywhere ∨
      ∃ a ∈ view.tree.ancestors m, b.visibility = .within (view.tree.global a)
  found : ∀ m, m.index < view.tree.size → ∀ path use ns b,
    (view.resolve m path use).meaning.get ns = some b →
    b.visibility.isVisibleFrom view.tree m = true
  native : ∀ m, m.index < view.tree.size → ∀ path use ns b,
    (view.resolve m path use).meaning.get ns = some b →
    ∀ scope, b.visibility = .within scope → scope.crate = view.crate

namespace View.Guarded

variable {view view' : View}

theorem congr (h : view.Guarded) (htree : view'.tree = view.tree)
    (hbinding : ∀ slot, view'.own.binding? slot = view.own.binding? slot)
    (hmacros : view'.own.macroPrelude = view.own.macroPrelude)
    (hprelude : view'.own.prelude = view.own.prelude) : view'.Guarded where
  rooted := by rw [htree]; exact h.rooted
  bindings slot b hb := by
    rw [hbinding] at hb
    rw [htree]
    exact h.bindings slot b hb
  macros name b hb := by
    rw [hmacros] at hb
    exact h.macros name b hb
  prelude p hp := by
    rw [hprelude] at hp
    have hcrate : view'.crate = view.crate := congrArg ModuleTree.crate htree
    rw [hcrate]
    exact h.prelude p hp

/-- A view in which everything that paths can start from respects privacy is private. -/
theorem isPrivate (h : view.Guarded) : view.Private where
  stored m name ns b hb := Visibility.isVisibleFrom_iff.1 (h.bindings ⟨m, name, ns⟩ b hb)
  found m hm path use ns b hb := h.resolve hm path use ns b hb
  native m hm path use ns b hb scope hscope := by
    have hvisible := h.resolve hm path use ns b hb
    rw [hscope, Visibility.isVisibleFrom_iff] at hvisible
    rcases hvisible with heq | ⟨a, -, heq⟩
    · cases heq
    · cases heq
      rfl

end View.Guarded

/-- Of two visibilities with which a module may name something, neither is lost to it when the one
is handed on with the other. -/
theorem Visibility.isVisibleFrom_narrower {t : ModuleTree} {m : LocalId} {a b : Visibility}
    (ha : a.isVisibleFrom t m = true) (hb : b.isVisibleFrom t m = true) :
    (a.narrower t b).isVisibleFrom t m = true := by
  unfold narrower
  split
  · exact hb
  · exact ha

namespace Collection

variable {imports : List Import} {c c' : Collection}

/-! ### What is bound -/

/-- A binding that the module of its slot may name can come to that slot. -/
theorem guarded_place (h : c.view.Guarded) {slot : Slot}
    (hm : slot.module.index < c.map.scopes.size) {b : Binding}
    (hb : b.visibility.isVisibleFrom c.tree slot.module = true) (origin : Origin) :
    (c.place slot b origin).1.view.Guarded := by
  have hframe := c.frame_place slot b origin
  have htree : (c.place slot b origin).1.view.tree = c.view.tree := hframe.tree
  refine ⟨?_, ?_, ?_, ?_⟩
  · rw [htree]
    exact h.rooted
  · intro t b' hb'
    have hplace := c.binding?_place hm b origin t
    change (c.place slot b origin).1.map.binding? t = some b' at hb'
    rw [hplace] at hb'
    rw [htree]
    split at hb'
    · next ht =>
      -- This is the slot, and it took the binding.
      cases hb'
      rw [ht.1]
      exact hb
    · exact h.bindings t b' hb'
  · intro name b' hb'
    rw [show (c.place slot b origin).1.view.own.macroPrelude = _ from hframe.macroPrelude] at hb'
    exact h.macros name b' hb'
  · intro p hp
    rw [show (c.place slot b origin).1.view.own.prelude = _ from hframe.prelude] at hp
    have hcrate : (c.place slot b origin).1.view.crate = c.view.crate :=
      congrArg ModuleTree.crate htree
    rw [hcrate]
    exact h.prelude p hp

theorem guarded_alike (h : c.view.Guarded) (halike : Alike c c')
    (hmacros : c'.map.macroPrelude = c.map.macroPrelude)
    (hprelude : c'.map.prelude = c.map.prelude) : c'.view.Guarded :=
  h.congr halike.tree halike.binding? hmacros hprelude

/-! ### Macros that are known everywhere -/

/-- The macros that a crate opens to others are bound in its root, and public. -/
theorem mem_publicMacros {view : View} {root : ModuleId} {name : Name} {b : Binding}
    (h : (name, b) ∈ publicMacros view root) :
    (view.meaning root name).get .macros = some b ∧ b.visibility.isPublic = true := by
  unfold publicMacros at h
  split at h
  · cases h
  · next map hmap =>
    obtain ⟨⟨name', meaning⟩, hentry, hp⟩ := List.mem_filterMap.1 h
    obtain ⟨b', hb, heq⟩ := Option.map_eq_some_iff.1 hp
    cases heq
    have hpublic : meaning.publicPart.get .macros = some b := hb
    unfold Meaning.publicPart at hpublic
    rw [Meaning.get_filterVisibility, Option.filter_eq_some_iff] at hpublic
    refine ⟨?_, hpublic.2⟩
    unfold View.meaning
    rw [hmap]
    change (Scope.meaning (map.scope root.index) name).get .macros = some b
    unfold Scope.meaning
    rw [(Listing.get?_eq_some_iff _).2 hentry]
    exact hpublic.1

/-- What is known after things are put under keys that are still free was known before, or it is one
of these. -/
theorem get?_foldl_insertNew_cases {κ α : Type} [DecidableEq κ] {entries : List (κ × α)}
    {known : Listing κ α} {k : κ} {a : α}
    (h : (entries.foldl (fun known (e : κ × α) => known.insertNew e.1 e.2) known).get? k
      = some a) : known.get? k = some a ∨ (k, a) ∈ entries := by
  induction entries generalizing known with
  | nil => exact Or.inl h
  | cons e entries ih =>
    rcases ih h with h | h
    · change (known.insertNew e.1 e.2).get? k = some a at h
      unfold Listing.insertNew at h
      split at h
      · exact Or.inl h
      · rw [Listing.get?_insert] at h
        split at h
        · next hk =>
          cases h
          rw [hk]
          exact Or.inr List.mem_cons_self
        · exact Or.inl h
    · exact Or.inr (List.mem_cons_of_mem e h)

/-- A macro that is known everywhere after a crate was opened was known before, or it is a public
macro of that crate. -/
theorem macroPrelude_openCrate {opened : Option Name} {meaning : Meaning} {macroUse : Bool}
    {name : Name} {b : Binding}
    (h : (c.openCrate opened meaning macroUse).map.macroPrelude.get? name = some b) :
    c.map.macroPrelude.get? name = some b ∨
      ∃ root, (c.view.meaning root name).get .macros = some b ∧
        b.visibility.isPublic = true := by
  unfold openCrate at h
  split at h
  · exact Or.inl h
  · next root _ =>
    rcases get?_foldl_insertNew_cases h with h | h
    · exact Or.inl h
    · split at h
      · exact Or.inr ⟨root, mem_publicMacros h⟩
      · cases h

theorem guarded_openCrate (h : c.view.Guarded) (name : Option Name) (meaning : Meaning)
    (macroUse : Bool) : (c.openCrate name meaning macroUse).view.Guarded := by
  have halike := Alike.openCrate c name meaning macroUse
  refine ⟨?_, ?_, fun known b hb => ?_, ?_⟩
  · rw [show (c.openCrate name meaning macroUse).view.tree = c.view.tree from halike.tree]
    exact h.rooted
  · rw [show (c.openCrate name meaning macroUse).view.tree = c.view.tree from halike.tree]
    intro slot b hb
    exact h.bindings slot b ((halike.binding? slot).symm.trans hb)
  · rcases macroPrelude_openCrate hb with hb | ⟨root, -, hpublic⟩
    · exact h.macros known b hb
    · exact Visibility.isPublic_iff.1 hpublic
  · unfold openCrate
    split <;> exact h.prelude

/-! ### Imports -/

/-- An import whose path can be resolved is an `extern crate`, which names the root of a crate, or
it means what its path means. -/
theorem meaning_status {i : Import} {meaning : Meaning}
    (hm : (c.status i).meaning? = some meaning) :
    (∃ macroUse root, i.kind = .externCrate macroUse ∧ c.externRoot? i.path = some root ∧
        meaning = .only .types (c.view.moduleBinding root)) ∨
      ((∀ macroUse, i.kind ≠ .externCrate macroUse) ∧
        meaning = (c.view.resolve i.module i.path .inImport).meaning) := by
  unfold status at hm
  split at hm
  · next macroUse hk =>
    split at hm
    · next root hroot =>
      cases hm
      exact Or.inl ⟨macroUse, root, hk, hroot, rfl⟩
    · cases hm
  · next hk =>
    dsimp only at hm
    split at hm
    · cases hm
    · split at hm
      · cases hm
        exact Or.inr ⟨hk, rfl⟩
      · cases hm
        exact Or.inr ⟨hk, rfl⟩

/-- What the path of an import means may be named where the import stands. -/
theorem nameableFrom_status (h : c.view.Guarded) {i : Import} (hi : i.module.index < c.tree.size)
    {meaning : Meaning} (hm : (c.status i).meaning? = some meaning) :
    meaning.NameableFrom c.tree i.module := by
  rcases meaning_status hm with ⟨macroUse, root, -, -, rfl⟩ | ⟨-, rfl⟩
  · exact Meaning.nameableFrom_only (c.view.visibility_moduleBinding _) _
  · exact h.resolve hi i.path .inImport

/-- No change while an import is carried out brings a module what it may not name. -/
theorem Change.guarded {i : Import} (hi : i ∈ imports)
    (hvisible : ∀ j ∈ imports, j.visibility.isVisibleFrom c.tree j.module = true)
    {meaning : Meaning} (hm : meaning.NameableFrom c.tree i.module) (hc : Coherent imports c)
    (h : Change imports i meaning c c') (hg : c.view.Guarded) : c'.view.Guarded := by
  cases h with
  | copied h =>
    cases h with
    | told log => exact guarded_alike hg (Alike.told c log) rfl rfl
    | copied hj hk hcopies =>
      exact guarded_place hg (hc.mem_scopes hj)
        (Visibility.isVisibleFrom_narrower hcopies.visible (hvisible _ hj)) _
  | bound hk hn hb =>
    exact guarded_place hg (hc.mem_scopes hi)
      (Visibility.isVisibleFrom_narrower (hm _ _ hb) (hvisible i hi)) _
  | opened hk => exact guarded_openCrate hg _ _ _
  | linked hk source =>
    refine guarded_alike hg (Alike.addEdge c _ _) ?_ ?_
    · unfold addEdge
      split <;> rfl
    · unfold addEdge
      split <;> rfl

theorem Opened.guarded {id : CrateId} (h : Opened id imports c) : c.view.Guarded where
  rooted := h.rooted
  bindings := h.bindings
  macros name b hb := by
    cases (h.macroPrelude_get? name).symm.trans hb
  prelude p hp := by
    rw [show c.view.crate = id from h.crate]
    exact h.prelude p hp

/-- In every state of a course everything that paths can start from respects privacy, and the module
of an import that is in hand may name what its path means. -/
theorem Course.guarded {id : CrateId} {limit : Nat} {start : Collection} {past : List Collection}
    {hand : Option SettledImport} (hopened : Opened id imports start)
    (h : Course limit imports start past hand c) : c.view.Guarded ∧ c.tree = start.tree := by
  have hall := h.invariant
    (P := fun hand c => c.view.Guarded ∧ c.tree = start.tree ∧
      ∀ x meaning, hand = some x → x.status.meaning? = some meaning →
        meaning.NameableFrom c.tree x.declaration.module)
    hopened.coherent ?_ ?_ ?_ ?_ ?_ ?_
  · exact ⟨hall.2.1, hall.2.2.1⟩
  · exact ⟨hopened.guarded, rfl, fun x meaning hx => by cases hx⟩
  · intro c log hP
    exact ⟨guarded_alike hP.1 (Alike.told c log) rfl rfl, hP.2.1, fun x meaning hx => by cases hx⟩
  · intro c i hi meaning hm hP
    refine ⟨hP.1, hP.2.1, fun x meaning' hx hm' => ?_⟩
    cases hx
    refine nameableFrom_status hP.1 ?_ hm'
    change i.module.index < c.tree.size
    rw [hP.2.1]
    exact (hopened.imports i hi).1
  · -- The tree stays, and with it who may name what.
    intro x hx meaning hm c c' hc hchange hP
    obtain ⟨hg, htree, hnameable⟩ := hP
    have htree' : c'.tree = c.tree := (hchange.later hx hc).tree
    refine ⟨hchange.guarded hx ?_ (hnameable x meaning rfl hm) hc hg, htree'.trans htree, ?_⟩
    · intro j hj
      rw [htree]
      exact (hopened.imports j hj).2
    · rw [htree']
      exact hnameable
  · intro c x hP
    exact ⟨guarded_alike hP.1 (Alike.settled c _) rfl rfl, hP.2.1, fun x meaning hx => by cases hx⟩
  · intro c i hP
    exact ⟨guarded_alike hP.1 (Alike.giveUp c i) rfl rfl, hP.2.1, fun x meaning hx => by cases hx⟩

end Collection

/-- **Lookups respect privacy.**  In every run of a workspace each finished view is private, and so
is each state in which a build of any crate can be; and whatever import is tried in such a state,
its module may name what its path means. -/
theorem lookups_respect_privacy {graph : CrateGraph} {settings : Settings} {w : Workspace}
    (h : Workspace.Run graph settings w) :
    (∀ id view, w.view? id = some view → view.Private) ∧
    ∀ id crate start imports limit past hand c,
      openBuild graph id crate w.map? settings = .ok (start, imports) →
      Collection.Course limit imports start past hand c →
      c.view.Private ∧ ∀ i ∈ imports, ∀ meaning, (c.status i).meaning? = some meaning →
        ∀ ns b, meaning.get ns = some b → b.visibility.isVisibleFrom c.tree i.module = true := by
  constructor
  · intro id view hview
    obtain ⟨earlier, isCancelled, built, -, hbuild, rfl⟩ := h.built id view hview
    obtain ⟨crate, start, imports, past, outcome, -, hopen, hcourse, rfl⟩ :=
      course_of_buildView hbuild
    rw [view_closeBuild]
    exact (hcourse.guarded (opened_of_openBuild hopen)).1.isPrivate
  · intro id crate start imports limit past hand c hopen hcourse
    have hopened := opened_of_openBuild hopen
    obtain ⟨hguarded, htree⟩ := hcourse.guarded hopened
    refine ⟨hguarded.isPrivate, fun i hi meaning hm => ?_⟩
    refine Collection.nameableFrom_status hguarded ?_ hm
    rw [htree]
    exact (hopened.imports i hi).1

/-- The private import in the root of the small crate is bound there, and restricted to the root, in
the finished view and at the end of the build that made it. -/
theorem lookups_respect_privacy_mirrors : ∃ w view start imports past c,
    Workspace.Run mirrorsGraph {} w ∧ w.view? ⟨0⟩ = some view ∧
    (view.own.binding? ⟨.root, "S", .types⟩).map Binding.visibility
      = some (.within ⟨⟨0⟩, .root⟩) ∧
    openBuild mirrorsGraph ⟨0⟩ mirrors w.map? {} = .ok (start, imports) ∧
    Collection.Course 3 imports start past none c ∧
    (c.map.binding? ⟨.root, "S", .types⟩).map Binding.visibility
      = some (.within ⟨⟨0⟩, .root⟩) ∧
    view.Private ∧ c.view.Private := by
  have hbound : ((Workspace.build { graph := mirrorsGraph } (fun _ => false) ⟨0⟩).workspace.view?
      ⟨0⟩).bind (fun view => (view.own.binding? ⟨.root, "S", .types⟩).map Binding.visibility)
      = some (.within ⟨⟨0⟩, .root⟩) := by cbv
  obtain ⟨view, hview, hroot⟩ := Option.bind_eq_some_iff.1 hbound
  generalize hw : (Workspace.build { graph := mirrorsGraph } (fun _ => false) ⟨0⟩).workspace = w
    at hview
  have hrun : Workspace.Run mirrorsGraph {} w := by
    rw [← hw]
    exact .build .fresh _ _
  have hcollected : (openBuild mirrorsGraph ⟨0⟩ mirrors w.map? {} >>= fun r =>
      (Collection.run 3 (fun _ => false) r.2 r.1)).map (fun outcome =>
        (outcome.collection.map.binding? ⟨.root, "S", .types⟩).map Binding.visibility)
      = .ok (some (.within ⟨⟨0⟩, .root⟩)) := by cbv
  obtain ⟨outcome, hcollect, hend⟩ := ok_of_map hcollected
  obtain ⟨⟨start, imports⟩, hopen, hcollect⟩ := ok_of_bind hcollect
  obtain ⟨past, hcourse⟩ := Collection.Course.of_run (fun i hi => hi) hcollect
  have hprivate := lookups_respect_privacy hrun
  exact ⟨w, view, start, imports, past, outcome.collection, hrun, hview, hroot, hopen, hcourse,
    hend, hprivate.1 ⟨0⟩ view hview, (hprivate.2 _ _ _ _ _ _ _ _ hopen hcourse).1⟩

end CrateScope
