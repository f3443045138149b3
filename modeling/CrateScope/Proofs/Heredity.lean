import CrateScope.Proofs.Linkage
import CrateScope.Proofs.Readings

/-!
# What bindings inherit

No import makes a binding out of nothing.  Whatever it binds it found, and it hands it on with
another visibility at most.  So a property of bindings that handing on does not harm holds of all
that is ever bound, if it holds of what imports can find to begin with: of the declarations, of the
modules from which paths start, and of what other crates have to offer.

## Main definitions

* `View.Ground` — a property holds of all that no import of the crate can change.
* `View.Bears` — a property holds of all that lookups can come to.
* `View.Stores` — what a view binds.
* `Collection.Hands` — a property holds of all that an import hands on in a state.

## Main results

* `View.Bears.finds` — what a lookup finds has a property that the view bears.
* `Collection.Course.bears` — a view bears in every state what it bears before any import.
* `Workspace.Run.bears` — what a view bears in the build of a crate.
-/

namespace CrateScope

variable {P : Namespace → Binding → Prop} {Q : LocalId → Prop} {R : ModuleId → Prop}

namespace View

variable {view view' : View} {m : LocalId}

/-- The property `P` holds of what no import can change.  The modules from which paths are looked up
are those in `Q`, and the crates that can be named are those with a root in `R`; each of these is
found at its path.  Of other crates only what may be named here counts. -/
structure Ground (P : Namespace → Binding → Prop) (Q : LocalId → Prop) (R : ModuleId → Prop)
    (view : View) : Prop where
  root : Q .root
  outer : ∀ m a, Q m → a ∈ view.tree.ancestors m → Q a
  own : ∀ a, Q a → P .types (view.moduleBinding (view.tree.global a))
  crate : ∀ root, R root → P .types (view.moduleBinding root)
  located : ∀ root, R root → view.locate? (view.moduleBinding root).path = some root
  foreign : ∀ m : ModuleId, m.crate ≠ view.crate → ∀ name ns b,
    (view.meaning m name).get ns = some b →
    ∀ viewer, b.visibility.isVisibleFrom view.tree viewer = true → P ns b
  prelude : ∀ p, view.own.prelude = some p → p.crate ≠ view.crate

/-- The property `P` holds of all that is bound or known everywhere, and only crates with a root in
`R` can be named. -/
structure Bears (P : Namespace → Binding → Prop) (Q : LocalId → Prop) (R : ModuleId → Prop)
    (view : View) : Prop extends Ground P Q R view where
  bindings : ∀ slot b, view.own.binding? slot = some b → P slot.space b
  macros : ∀ name b, view.own.macroPrelude.get? name = some b → P .macros b
  crates : ∀ name root, view.own.externPrelude.get? name = some root → R root

theorem Ground.congr (h : view.Ground P Q R) (hground : view.SameGround view') :
    view'.Ground P Q R where
  root := h.root
  outer m a hm ha := by
    rw [hground.tree] at ha
    exact h.outer m a hm ha
  own a ha := by
    rw [hground.tree, hground.moduleBinding]
    exact h.own a ha
  crate root hroot := by
    rw [hground.moduleBinding]
    exact h.crate root hroot
  located root hroot := by
    rw [hground.moduleBinding, locate?_congr hground.tree hground.dependencies]
    exact h.located root hroot
  foreign m hm name ns b hb viewer hvisible := by
    rw [hground.crate] at hm
    rw [hground.meaning_foreign hm] at hb
    rw [hground.tree] at hvisible
    exact h.foreign m hm name ns b hb viewer hvisible
  prelude p hp := by
    rw [hground.prelude] at hp
    rw [hground.crate]
    exact h.prelude p hp

namespace Bears

theorem congr (h : view.Bears P Q R) (hground : view.SameGround view')
    (hbindings : ∀ slot b, view'.own.binding? slot = some b → P slot.space b)
    (hmacros : ∀ name b, view'.own.macroPrelude.get? name = some b → P .macros b)
    (hcrates : ∀ name root, view'.own.externPrelude.get? name = some root → R root) :
    view'.Bears P Q R :=
  ⟨h.toGround.congr hground, hbindings, hmacros, hcrates⟩

/-- What may be named inside of a module has the property, whatever crate the module is of. -/
theorem meaning (h : view.Bears P Q R) {inside : ModuleId} {name : Name} {ns : Namespace}
    {b : Binding} (hb : (view.meaning inside name).get ns = some b)
    (hvisible : b.visibility.isVisibleFrom view.tree m = true) : P ns b := by
  by_cases hown : inside.crate = view.crate
  · rw [get_meaning_own hown] at hb
    exact h.bindings _ b hb
  · exact h.foreign inside hown name ns b hb m hvisible

theorem start (h : view.Bears P Q R) (hm : Q m) {ns : Namespace} {b : Binding}
    (hs : view.Start m ns b) : P ns b := by
  cases hs with
  | named houter hb => exact h.bindings _ b hb
  | enclosing houter =>
    refine h.own _ ?_
    rcases houter with rfl | houter
    · exact h.root
    · exact h.outer m _ hm houter
  | crate hroot => exact h.crate _ (h.crates _ _ hroot)
  | ofPrelude hp hb hpublic =>
    have hvisible := Visibility.isVisibleFrom_of_isPublic (t := view.tree) (m := m)
      (hpublic (h.prelude _ hp))
    exact h.meaning hb hvisible
  | known hb => exact h.macros _ b hb

/-- What lookups come to has a property that the view bears. -/
theorem finds (h : view.Bears P Q R) (hm : Q m) {ns : Namespace} {b : Binding}
    (hb : view.Finds m ns b) : P ns b := by
  cases hb with
  | start hs => exact h.start hm hs
  | inside hhost hkind hinside hb hvisible => exact h.meaning hb hvisible

end Bears

/-- What a view binds in a namespace: in a slot of the crate, or as a macro that is known
everywhere. -/
def Stores (view : View) (ns : Namespace) (b : Binding) : Prop :=
  (∃ m name, view.own.binding? ⟨m, name, ns⟩ = some b) ∨
    (ns = .macros ∧ ∃ name, view.own.macroPrelude.get? name = some b)

theorem Bears.stores (h : view.Bears P Q R) {ns : Namespace} {b : Binding} (hb : view.Stores ns b) :
    P ns b := by
  rcases hb with ⟨m, name, hb⟩ | ⟨rfl, name, hb⟩
  · exact h.bindings ⟨m, name, ns⟩ b hb
  · exact h.macros name b hb

end View

namespace Collection

variable {imports : List Import} {start c c' : Collection}

/-! ### The crates that can be named -/

/-- A crate that can be named after a crate was opened could be named before, or it is the one that
was opened. -/
theorem externPrelude_openCrate {opened : Option Name} {meaning : Meaning} {macroUse : Bool}
    {name : Name} {root : ModuleId}
    (h : (c.openCrate opened meaning macroUse).map.externPrelude.get? name = some root) :
    c.map.externPrelude.get? name = some root ∨
      ∃ b, meaning.types = some b ∧ c.view.locate? b.path = some root := by
  unfold openCrate at h
  split at h
  · exact Or.inl h
  · next root' hroot =>
    cases opened with
    | none => exact Or.inl h
    | some opened =>
      change (c.map.externPrelude.insert opened root').get? name = some root at h
      rw [Listing.get?_insert] at h
      split at h
      · cases h
        exact Or.inr (Option.bind_eq_some_iff.1 hroot)
      · exact Or.inl h

/-! ### What an import in hand means -/

/-- All that an import means has the property `P`, and if it is an `extern crate` it means a crate
with a root in `R`. -/
structure Inherits (P : Namespace → Binding → Prop) (R : ModuleId → Prop) (view : View) (i : Import)
    (meaning : Meaning) : Prop where
  bindings : ∀ ns b, meaning.get ns = some b → P ns b
  root : ∀ macroUse, i.kind = .externCrate macroUse →
    ∃ root, R root ∧ meaning = .only .types (view.moduleBinding root)

/-- All that an import with a name hands on has the property `P`, and if it is an `extern crate` it
means a crate with a root in `R`. -/
structure Hands (P : Namespace → Binding → Prop) (R : ModuleId → Prop) (view : View) (i : Import)
    (meaning : Meaning) : Prop where
  bindings : i.kind ≠ .glob → ∀ ns b, meaning.get ns = some b →
    P ns (b.handedOn view.tree i.visibility)
  root : ∀ macroUse, i.kind = .externCrate macroUse →
    ∃ root, R root ∧ meaning = .only .types (view.moduleBinding root)

theorem Inherits.hands {view : View} {i : Import} {meaning : Meaning}
    (h : Inherits P R view i meaning)
    (hhanded : ∀ ns b visibility, P ns b → P ns (b.handedOn view.tree visibility)) :
    Hands P R view i meaning where
  bindings _ ns b hb := hhanded ns b i.visibility (h.bindings ns b hb)
  root := h.root

theorem Hands.congr {view view' : View} {i : Import} {meaning : Meaning}
    (h : Hands P R view i meaning) (hground : view.SameGround view') :
    Hands P R view' i meaning where
  bindings hk ns b hb := by
    rw [hground.tree]
    exact h.bindings hk ns b hb
  root macroUse hk := by
    obtain ⟨root, hroot, hmeaning⟩ := h.root macroUse hk
    exact ⟨root, hroot, by rw [hground.moduleBinding]; exact hmeaning⟩

/-- The roots that `extern crate` can name are among those in `R`. -/
structure Rooted (R : ModuleId → Prop) (c : Collection) : Prop where
  own : R (c.tree.global .root)
  direct : ∀ name root, c.directCrates.get? name = some root → R root

theorem Rooted.of_keeps (h : Rooted R c) (hkeeps : Keeps imports c c') : Rooted R c' where
  own := by rw [hkeeps.tree]; exact h.own
  direct := by rw [hkeeps.directCrates]; exact h.direct

theorem Rooted.of_externRoot? (h : Rooted R c) {path : Path} {root : ModuleId}
    (hroot : c.externRoot? path = some root) : R root := by
  unfold externRoot? at hroot
  obtain ⟨name, -, hroot⟩ := Option.bind_eq_some_iff.1 hroot
  split at hroot
  · cases hroot
    exact h.own
  · exact h.direct name root hroot

theorem inherits_status (h : c.view.Bears P Q R) (hrooted : Rooted R c) {i : Import}
    (hi : Q i.module) {meaning : Meaning} (hm : (c.status i).meaning? = some meaning) :
    Inherits P R c.view i meaning := by
  rcases meaning_status hm with ⟨macroUse, root, hk, hroot, rfl⟩ | ⟨hk, rfl⟩
  · have hR : R root := hrooted.of_externRoot? hroot
    refine ⟨fun ns b hb => ?_, fun _ _ => ⟨root, hR, rfl⟩⟩
    obtain ⟨rfl, rfl⟩ := Meaning.get_only_eq_some_iff.1 hb
    exact h.crate root hR
  · exact ⟨fun ns b hb => h.finds hi (View.finds_resolve hb),
      fun macroUse hext => absurd hext (hk macroUse)⟩

/-! ### What every change keeps -/

/-- A binding that has the property can come to a slot. -/
theorem bears_place (h : c.view.Bears P Q R) {slot : Slot}
    (hr : slot.module.index < c.map.scopes.size) {b : Binding} (hb : P slot.space b)
    (origin : Origin) : (c.place slot b origin).1.view.Bears P Q R := by
  have hframe := c.frame_place slot b origin
  have hkeeps : Keeps [] c (c.place slot b origin).1 := .place hr b origin
  refine h.congr (hkeeps.sameGround h.prelude) ?_ ?_ ?_
  · intro t b' hb'
    change (c.place slot b origin).1.map.binding? t = some b' at hb'
    rw [c.binding?_place hr] at hb'
    split at hb'
    · next ht =>
      cases hb'
      rw [ht.1]
      exact hb
    · exact h.bindings t b' hb'
  · intro name b' hb'
    rw [show (c.place slot b origin).1.view.own.macroPrelude = _ from hframe.macroPrelude] at hb'
    exact h.macros name b' hb'
  · intro name root hroot
    change (c.place slot b origin).1.map.externPrelude.get? name = some root at hroot
    rw [hframe.externPrelude] at hroot
    exact h.crates name root hroot

/-- If what an import hands on has the property and handing on does it no harm, then no change while
the import is carried out brings in anything without it. -/
theorem Change.bears {i : Import} (hi : i ∈ imports)
    (hhanded : ∀ ns b visibility, P ns b → P ns (b.handedOn c.tree visibility))
    {meaning : Meaning} (hm : Hands P R c.view i meaning) (hc : Coherent imports c)
    (h : Change imports i meaning c c') (hb : c.view.Bears P Q R) : c'.view.Bears P Q R := by
  have hground := (h.keeps hi hc).sameGround hb.prelude
  cases h with
  | copied h =>
    cases h with
    | told log => exact hb.congr hground hb.bindings hb.macros hb.crates
    | @copied j hj hk _ _ _ _ hcopies =>
      have hcopied := hhanded _ _ j.visibility (hb.meaning hcopies.held hcopies.visible)
      exact bears_place hb (hc.mem_scopes hj) hcopied _
  | bound hk hn hget =>
    exact bears_place hb (hc.mem_scopes hi) (hm.bindings hk _ _ hget) _
  | opened hk =>
    refine hb.congr hground ?_ ?_ ?_
    · intro slot b hbound
      exact hb.bindings slot b (((Alike.openCrate c _ _ _).binding? slot).symm.trans hbound)
    · intro name b hknown
      -- A macro that is new is a public name of the root of the crate that is opened.
      rcases macroPrelude_openCrate hknown with hknown | ⟨root, hget, hpublic⟩
      · exact hb.macros name b hknown
      · exact hb.meaning (m := .root) hget (Visibility.isVisibleFrom_of_isPublic hpublic)
    · intro name root hroot
      rcases externPrelude_openCrate hroot with hroot | ⟨b, htypes, hlocated⟩
      · exact hb.crates name root hroot
      · -- The path that is located is that of the root that the import means.
        obtain ⟨root', hR, rfl⟩ := hm.root _ hk
        obtain ⟨-, rfl⟩ := Meaning.get_only_eq_some_iff.1
          (show (Meaning.only .types _).get .types = some b from htypes)
        rw [hb.located root' hR] at hlocated
        cases hlocated
        exact hR
  | linked hk source path hlocated =>
    have halike := Alike.addEdge c source { importer := i.module, visibility := i.visibility }
    revert halike hground
    unfold addEdge
    split
    · exact fun _ _ => hb
    · exact fun hground _ => hb.congr hground hb.bindings hb.macros hb.crates

/-- In every state of a course the view bears a property that it bears before any import and that
handing on does not harm, if what an import hands on has the property whenever the view bears it. -/
theorem Course.bears_of_hands {limit : Nat} {past : List Collection} {hand : Option SettledImport}
    (hcoherent : Coherent imports start) (hbears : start.view.Bears P Q R)
    (hhanded : ∀ ns b visibility, P ns b → P ns (b.handedOn start.tree visibility))
    (hrooted : Rooted R start)
    (htaken : ∀ c i, i ∈ imports → c.tree = start.tree → c.view.Bears P Q R → Rooted R c →
      ∀ meaning, (c.status i).meaning? = some meaning → Hands P R c.view i meaning)
    (h : Course limit imports start past hand c) : c.view.Bears P Q R := by
  have hall := h.invariant
    (P := fun hand c => c.view.Bears P Q R ∧ c.tree = start.tree ∧ Rooted R c ∧
      ∀ x meaning, hand = some x → x.status.meaning? = some meaning →
        Hands P R c.view x.declaration meaning)
    hcoherent ?_ ?_ ?_ ?_ ?_ ?_
  · exact hall.2.1
  · exact ⟨hbears, rfl, hrooted, fun x meaning hx => by cases hx⟩
  · rintro c log ⟨hb, htree, hroots, -⟩
    exact ⟨hb, htree, ⟨hroots.own, hroots.direct⟩, fun x meaning hx => by cases hx⟩
  · rintro c i hi meaning hm ⟨hb, htree, hroots, -⟩
    refine ⟨hb, htree, hroots, fun x meaning' hx hm' => ?_⟩
    cases hx
    exact htaken c i hi htree hb hroots meaning' hm'
  · -- The tree stays, and with it what handing on does.
    rintro x hx meaning hm c c' hc hchange ⟨hb, htree, hroots, hhands⟩
    have hkeeps := hchange.keeps hx hc
    refine ⟨hchange.bears hx ?_ (hhands x meaning rfl hm) hc hb, hkeeps.tree.trans htree,
      hroots.of_keeps hkeeps, fun y meaning' hy hm' => ?_⟩
    · rw [htree]
      exact hhanded
    · exact (hhands y meaning' hy hm').congr (hkeeps.sameGround hb.prelude)
  · rintro c x ⟨hb, htree, hroots, -⟩
    exact ⟨hb, htree, ⟨hroots.own, hroots.direct⟩, fun y meaning hy => by cases hy⟩
  · rintro c i ⟨hb, htree, hroots, -⟩
    have hkeeps : Keeps imports c (c.giveUp i) :=
      .of_alike (Alike.giveUp c i) rfl rfl rfl (fun _ _ h => h) fun _ _ => rfl
    exact ⟨hb.congr (hkeeps.sameGround hb.prelude) hb.bindings hb.macros hb.crates, htree,
      ⟨hroots.own, hroots.direct⟩, fun y meaning hy => by cases hy⟩

/-- **What bindings inherit.**  In every state of a course the view bears a property that it bears
before any import and that handing on does not harm. -/
theorem Course.bears {limit : Nat} {past : List Collection} {hand : Option SettledImport}
    (hcoherent : Coherent imports start) (hbears : start.view.Bears P Q R)
    (hhanded : ∀ ns b visibility, P ns b → P ns (b.handedOn start.tree visibility))
    (himports : ∀ i ∈ imports, Q i.module) (hrooted : Rooted R start)
    (h : Course limit imports start past hand c) : c.view.Bears P Q R := by
  refine h.bears_of_hands hcoherent hbears hhanded hrooted ?_
  intro c i hi htree hb hroots meaning hm
  refine (inherits_status hb hroots (himports i hi) hm).hands ?_
  rw [show c.view.tree = start.tree from htree]
  exact hhanded

end Collection

/-! ### In the build of a crate -/

section Build

variable {graph : CrateGraph} {settings : Settings} {w : Workspace} {id : CrateId}
  {crate : CrateSource} {start c : Collection} {imports : List Import} {limit : Nat}
  {past : List Collection} {hand : Option SettledImport}

/-- A view is solid when the imports of its crate begin to be carried out. -/
theorem Workspace.Run.solid_opening (h : Run graph settings w)
    (hopen : openBuild graph id crate w.map? settings = .ok (start, imports)) :
    start.view.Solid := by
  have hopened := opened_of_openBuild hopen
  exact h.solid (linked_of_openBuild hopen) ⟨hopened.regular, hopened.sized⟩

/-- Before any import a view bears a property that holds of the declarations, of the modules from
which paths start, and of what the finished views of other crates bind for everyone. -/
theorem Workspace.Run.bears_opening (h : Run graph settings w)
    (hopen : openBuild graph id crate w.map? settings = .ok (start, imports))
    (hroot : Q .root) (houter : ∀ m a, Q m → a ∈ start.tree.ancestors m → Q a)
    (hmodule : ∀ a, Q a → P .types (start.view.moduleBinding (start.tree.global a)))
    (hcrate : ∀ root, graph.Nameable id root → P .types (start.view.moduleBinding root))
    (hdeclared : ∀ slot b, start.map.binding? slot = some b → P slot.space b)
    (hforeign : ∀ d sub slot b, d ≠ id → w.view? d = some sub → start.view.Shows sub →
      sub.own.binding? slot = some b → b.visibility = .everywhere → P slot.space b) :
    start.view.Bears P Q (graph.Nameable id) ∧ Collection.Rooted (graph.Nameable id) start := by
  have hopened := opened_of_openBuild hopen
  have hlinked := linked_of_openBuild hopen
  have hid : start.view.crate = id := hopened.crate
  obtain ⟨hdirect, hnames⟩ := externPrelude_of_openBuild hopen
  refine ⟨⟨⟨hroot, houter, hmodule, hcrate, ?_, ?_, ?_⟩, hdeclared, ?_, ?_⟩, ?_, ?_⟩
  · intro root hnameable
    refine (h.solid_opening hopen).locate?_moduleBinding (hlinked.has_root ?_)
    rwa [hid]
  · intro m hm name ns b hb viewer hvisible
    obtain ⟨sub, hsub, hshows, hbound⟩ := h.exists_view_of_meaning hlinked hm hb
    obtain ⟨hcrate, horderly⟩ := h.orderly hsub
    rw [hid] at hm
    refine hforeign m.crate sub ⟨m.index, name, ns⟩ b hm hsub hshows hbound ?_
    -- What the other crate restricts is restricted to a module there, and not visible here.
    rcases Visibility.isVisibleFrom_iff.1 hvisible with heq | ⟨a, -, heq⟩
    · exact heq
    · rcases Visibility.isVisibleFrom_iff.1 (horderly.guarded.bindings _ b hbound) with
        heq' | ⟨a', -, heq'⟩
      · exact heq'
      · have hscope : start.view.tree.global a = sub.tree.global a' :=
          Visibility.within.inj (heq.symm.trans heq')
        have hsame : start.view.crate = sub.crate := congrArg ModuleId.crate hscope
        exact absurd ((hid.symm.trans hsame).trans hcrate).symm hm
  · intro p hp
    rw [hid]
    exact hopened.prelude p hp
  · intro name b hb
    cases (hopened.macroPrelude_get? name).symm.trans hb
  · intro name root hroot
    exact Or.inr (hnames name root hroot)
  · rw [← hid]
    exact Or.inl rfl
  · intro name root hroot
    rw [hdirect] at hroot
    exact Or.inr (hnames name root hroot)

/-- **What bindings inherit in the build of a crate.**  A property that handing on does not harm
holds of all that lookups can come to in any state of the build, if it holds of the declarations,
of the modules from which paths start, and of what the finished views of other crates bind for
everyone. -/
theorem Workspace.Run.bears (h : Run graph settings w)
    (hopen : openBuild graph id crate w.map? settings = .ok (start, imports))
    (hroot : Q .root) (houter : ∀ m a, Q m → a ∈ start.tree.ancestors m → Q a)
    (himports : ∀ i ∈ imports, Q i.module)
    (hmodule : ∀ a, Q a → P .types (start.view.moduleBinding (start.tree.global a)))
    (hcrate : ∀ root, graph.Nameable id root → P .types (start.view.moduleBinding root))
    (hdeclared : ∀ slot b, start.map.binding? slot = some b → P slot.space b)
    (hforeign : ∀ d sub slot b, d ≠ id → w.view? d = some sub → start.view.Shows sub →
      sub.own.binding? slot = some b → b.visibility = .everywhere → P slot.space b)
    (hhanded : ∀ ns b visibility, P ns b → P ns (b.handedOn start.tree visibility))
    (hcourse : Collection.Course limit imports start past hand c) :
    c.view.Bears P Q (graph.Nameable id) := by
  obtain ⟨hbears, hrooted⟩ :=
    h.bears_opening hopen hroot houter hmodule hcrate hdeclared hforeign
  exact hcourse.bears (opened_of_openBuild hopen).coherent hbears hhanded himports hrooted

end Build

/-! ### Two small crates -/

/-- A crate with a struct and a private function in a public module, and a macro for all. -/
def lender : CrateSource where
  name := "lender"
  root :=
    { items := [
        { name := some "m", visibility := .pub, kind := .module
            { items := [
                { name := some "S", visibility := .pub, kind := .struct .unit },
                { name := some "f", kind := .function },
                { name := some "make", kind := .macroRules true }] } }] }

/-- A crate that takes all this over as far as it can, restricts it, and hands it on from module to
module. -/
def borrower : CrateSource where
  name := "borrower"
  dependencies := ["lender"]
  root :=
    { items := [
        { name := some "n", visibility := .pub, kind := .module
            { uses := [{ path := "super::*", visibility := .pub }] } }]
      uses := [{ path := "lender::m::*", visibility := .pubCrate }]
      externCrates := [{ name := some "lender", alias? := some "l", macroUse := true }] }

/-- The graph that has only these two crates. -/
def lendingGraph : CrateGraph := ⟨[lender, borrower], by decide⟩

end CrateScope
