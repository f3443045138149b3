import CrateScope.Proofs.Precedence
import CrateScope.Proofs.Reordering

/-!
# Whether the order of uses matters

Without globs each slot that is bound keeps its binding, so that two collections of the same imports
can disagree in one way only.  An import that gave a slot something in one of them was carried out
in the other one too, or would be: there its path was looked up in another state, and a slot or a
macro that was still free in one of the states may have been taken in the other.

So if both collections report no clash and bind a slot to different items, then an import of that
name read, in one of them, a place for which the end of the other one has another answer.  That can
happen, since an import is carried out as soon as its path means anything at all: then `use p as q`
binds less before `use v as p` than after it.

## Main definitions

* `Collection.Agreed` — a slot has the item that an import gave it, or a clash was reported.
* `Collection.opens?` — the name and the root of the crate that an `extern crate` at the root opens.
* `Collection.Ended` — the end of a collection without globs and clashes.
* `Collection.Misread` — an import of a slot read a place to which another state gives another
  answer.

## Main results

* `View.SameGround.reads_agree` — two lookups that agree where both read agree wherever one does.
* `Collection.externPrelude_of_settle` — the crates that can be named in the end are known from the
  `extern crate` declarations in their order.
* `order_of_uses_matters_only_to_misreadings` — two collections whose crates differ in the order of
  `use` declarations bind each slot to the same item, unless it was misread.
-/

namespace CrateScope

/-! ### Two lookups side by side -/

namespace View.SameGround

variable {view view' : View} (h : view.SameGround view')

include h

theorem symm : view'.SameGround view where
  tree := h.tree.symm
  edition := h.edition.symm
  prelude := h.prelude.symm
  dependencies := h.dependencies.symm
  foreign p hp := by
    rw [h.crate]
    exact h.foreign p (h.prelude ▸ hp)

theorem trans {view'' : View} (h' : view'.SameGround view'') : view.SameGround view'' where
  tree := h'.tree.trans h.tree
  edition := h'.edition.trans h.edition
  prelude := h'.prelude.trans h.prelude
  dependencies := h'.dependencies.trans h.dependencies
  foreign := h.foreign

/-- Of a name the slot is always read, and what it has decides about the rest. -/
theorem nameReads_eq {m : LocalId} {name : Name} {space : Namespace} (isWholePath : Bool)
    (hslot : (Reading.slot ⟨m, name, space⟩).Agrees view view') :
    view'.nameReads m name space isWholePath = view.nameReads m name space isWholePath := by
  have hbinding : view'.own.binding? ⟨m, name, space⟩ = view.own.binding? ⟨m, name, space⟩ := hslot
  unfold nameReads
  rw [hbinding, h.preludeMeaning]

variable {m : LocalId} {path : Path} {use : PathUse} {ns : Namespace}

theorem startReads_agree
    (hboth : ∀ r ∈ view.startReads m path use ns, r ∈ view'.startReads m path use ns →
      r.Agrees view view') :
    ∀ r ∈ view.startReads m path use ns, r.Agrees view view' := by
  have heq : view'.startReads m path use ns = view.startReads m path use ns := by
    unfold startReads at hboth ⊢
    rw [h.edition] at hboth ⊢
    cases hanchor : path.anchor with
    | crate | super => rfl
    | absolute => cases path.segments <;> rfl
    | plain =>
      cases hsegments : path.segments with
      | nil => rfl
      | cons first rest =>
        simp only [hanchor, hsegments] at hboth ⊢
        split
        · next hroot =>
          rw [if_pos hroot, if_pos hroot] at hboth
          exact h.nameReads_eq _ (hboth _ List.mem_cons_self List.mem_cons_self)
        · next hroot =>
          rw [if_neg hroot, if_neg hroot] at hboth
          exact h.nameReads_eq _ (hboth _ List.mem_cons_self List.mem_cons_self)
  rw [heq] at hboth
  exact fun r hr => hboth r hr hr

theorem followReads_agree {viewer : LocalId} {b : Binding} {names : List Name}
    (hboth : ∀ r ∈ view.followReads viewer ns b names, r ∈ view'.followReads viewer ns b names →
      r.Agrees view view') :
    ∀ r ∈ view.followReads viewer ns b names, r.Agrees view view' := by
  induction names generalizing b with
  | nil => exact fun r hr => absurd hr List.not_mem_nil
  | cons name names ih =>
    rw [followReads, followReads, View.locate?_congr h.tree h.dependencies, h.crate, h.tree]
      at hboth
    rw [followReads]
    split
    · next hhost =>
      rw [if_pos hhost, if_pos hhost] at hboth
      cases hlocate : view.locate? b.path with
      | none => exact fun r hr => absurd hr List.not_mem_nil
      | some inside =>
        simp only [hlocate] at hboth ⊢
        -- The slot is read in both, so that both go on with the same binding.
        have hslot : inside.crate = view.crate →
            (Reading.slot ⟨inside.index, name, spaceBefore ns names⟩).Agrees view view' :=
          fun hown => hboth _ (by simp [hown]) (by simp [hown])
        have hinner : ((view'.meaning inside name).visible view.tree viewer).get
              (spaceBefore ns names)
            = ((view.meaning inside name).visible view.tree viewer).get (spaceBefore ns names) := by
          by_cases hown : inside.crate = view.crate
          · have hbinding : view'.own.binding? ⟨inside.index, name, spaceBefore ns names⟩
                = view.own.binding? ⟨inside.index, name, spaceBefore ns names⟩ := hslot hown
            unfold Meaning.visible
            rw [Meaning.get_filterVisibility, Meaning.get_filterVisibility,
              get_meaning_own (hown.trans h.crate.symm), get_meaning_own hown, hbinding]
          · rw [h.meaning_foreign hown]
        intro r hr
        rcases List.mem_append.1 hr with hr | hr
        · split at hr
          · next hown =>
            rw [List.mem_singleton.1 hr]
            exact hslot hown
          · cases hr
        · rw [hinner] at hboth
          cases hb : ((view.meaning inside name).visible view.tree viewer).get
              (spaceBefore ns names) with
          | none =>
            rw [hb] at hr
            cases hr
          | some next =>
            rw [hb] at hr hboth
            exact ih (fun r hr hr' => hboth r (List.mem_append_right _ hr)
              (List.mem_append_right _ hr')) r hr
    · exact fun r hr => absurd hr List.not_mem_nil

/-- Two lookups of a path that agree in each place that both of them read agree in every place that
one of them reads. -/
theorem reads_agree
    (hboth : ∀ r ∈ view.reads m path use ns, r ∈ view'.reads m path use ns → r.Agrees view view') :
    ∀ r ∈ view.reads m path use ns, r.Agrees view view' := by
  have hstart := h.startReads_agree fun r hr hr' =>
    hboth r (List.mem_append_left _ hr) (List.mem_append_left _ hr')
  intro r hr
  rcases List.mem_append.1 hr with hr | hr
  · exact hstart r hr
  · unfold reads at hboth
    rw [h.startIn_congr hstart] at hboth
    cases hfound : view.startIn m path use ns with
    | none =>
      rw [hfound] at hr
      cases hr
    | some found =>
      rw [hfound] at hr hboth
      exact h.followReads_agree (fun r hr hr' => hboth r (List.mem_append_right _ hr)
        (List.mem_append_right _ hr')) r hr

end View.SameGround

namespace Collection

variable {limit : Nat} {id : CrateId} {imports : List Import} {start c c' : Collection}
  {past : List Collection}

/-- The same of two lookups of an import. -/
theorem reads_agree (hground : c.view.SameGround c'.view) {i : Import} {ns : Namespace}
    (hboth : ∀ r ∈ c.reads i ns, r ∈ c'.reads i ns → r.Agrees c.view c'.view) :
    ∀ r ∈ c.reads i ns, r.Agrees c.view c'.view := by
  unfold reads at hboth ⊢
  cases hk : i.kind with
  | externCrate macroUse => exact fun r hr => absurd hr List.not_mem_nil
  | named | glob =>
    simp only [hk] at hboth
    exact hground.reads_agree hboth

/-! ### What an import gave to a slot -/

/-- A slot has the item at a path for good, or a clash was reported. -/
def Agreed (c : Collection) (slot : Slot) (path : ItemPath) : Prop :=
  (∃ b, c.Firm slot b ∧ b.path = path) ∨ ∃ d ∈ c.map.diagnostics, d.isClash = true

variable {slot : Slot} {path : ItemPath}

theorem Agreed.mono (h : Agreed c slot path) (hkeeps : Keeps imports c c')
    (hclashed : Clashed c c') : Agreed c' slot path := by
  obtain ⟨clashes, hdiagnostics, -⟩ := hclashed
  rcases h with ⟨b, hb, hpath⟩ | ⟨d, hd, hclash⟩
  · exact Or.inl ⟨b, hkeeps.firm slot b hb, hpath⟩
  · refine Or.inr ⟨d, ?_, hclash⟩
    rw [hdiagnostics]
    exact List.mem_append_left _ hd

theorem Change.agreed {i : Import} (hi : i ∈ imports) {meaning : Meaning} (hc : Coherent imports c)
    (h : Change imports i meaning c c') (ha : Agreed c slot path) : Agreed c' slot path :=
  ha.mono (h.keeps hi hc) h.clashed

/-- A binding that comes to a slot from a named import stays there, or the slot has the same item
already, or a clash is reported. -/
theorem agreed_place (hr : slot.module.index < c.map.scopes.size) (new : Binding) :
    Agreed (c.place slot new .named).1 slot new.path := by
  have hbinding := c.binding?_place hr new .named slot
  have hmark := c.source?_place slot new .named slot
  by_cases htakes : c.Takes slot .named
  · rw [if_pos ⟨rfl, htakes⟩] at hbinding hmark
    exact Or.inl ⟨new, ⟨hbinding, hmark⟩, rfl⟩
  · rw [if_neg fun h => htakes h.2] at hbinding hmark
    -- The slot holds a binding that no glob brought.
    obtain ⟨old, hold⟩ : ∃ old, c.map.binding? slot = some old :=
      Option.ne_none_iff_exists'.1 fun hnone => htakes (Or.inl hnone)
    have hfree : c.globSources.get? slot = none := by
      by_contra hmarked
      exact htakes (Or.inr (Option.isSome_iff_ne_none.2 hmarked))
    by_cases hsame : old.path = new.path
    · exact Or.inl ⟨old, ⟨hbinding.trans hold, hmark.trans hfree⟩, hsame⟩
    · right
      have hverdict : judgeBinding (some old) none .named new = .clash := by
        simp [judgeBinding, Binding.sameItem, hsame]
      unfold place
      simp only [hold, hfree, hverdict]
      unfold reportClash
      simp only
      split
      · next hreported => exact ⟨_, hreported, rfl⟩
      · exact ⟨_, List.mem_append_right _ (List.mem_singleton_self _), rfl⟩

variable (imports) in
theorem keeps_placeAll (origin : Origin) {ps : List (Slot × Binding)}
    (hr : ∀ p ∈ ps, p.1.module.index < c.map.scopes.size) :
    Keeps imports c (placeAll origin c ps) ∧ Clashed c (placeAll origin c ps) := by
  induction ps generalizing c with
  | nil => exact ⟨.refl c, .of_eq rfl⟩
  | cons p ps ih =>
    obtain ⟨hkeeps, hclashed⟩ := ih (c := (c.place p.1 p.2 origin).1) fun q hq => by
      rw [(c.frame_place _ _ _).size]
      exact hr q (List.mem_cons_of_mem p hq)
    exact ⟨(Keeps.place (hr p List.mem_cons_self) _ _).trans hkeeps,
      (clashed_place _ _ _ _).trans hclashed⟩

theorem agreed_placeAll {ps : List (Slot × Binding)}
    (hr : ∀ p ∈ ps, p.1.module.index < c.map.scopes.size) {b : Binding} (hb : (slot, b) ∈ ps) :
    Agreed (placeAll .named c ps) slot b.path := by
  obtain ⟨before, after, rfl⟩ := List.append_of_mem hb
  have hsize := (c.frame_placeAll .named before).size
  have hplaced : Agreed ((placeAll .named c before).place slot b .named).1 slot b.path :=
    agreed_place (by rw [hsize]; exact hr _ hb) b
  have hrest : ∀ p ∈ after, p.1.module.index
      < ((placeAll .named c before).place slot b .named).1.map.scopes.size := by
    intro p hp
    rw [(frame_place _ _ _ _).size, hsize]
    exact hr p (by simp [hp])
  obtain ⟨hkeeps, hclashed⟩ := keeps_placeAll [] .named hrest
  unfold placeAll at hkeeps hclashed hplaced ⊢
  rw [List.foldl_append, List.foldl_cons]
  exact hplaced.mono hkeeps hclashed

/-- What the path of an import means comes to the slots of the name that it binds. -/
theorem agreed_bindName {i : Import} (hc : Coherent imports c) (hi : i ∈ imports)
    {meaning : Meaning} {name : Name} (hn : i.name = some name) {ns : Namespace} {b : Binding}
    (hb : meaning.get ns = some b) (h : c.bindName limit i meaning = .ok c') :
    Agreed c' ⟨i.module, name, ns⟩ b.path := by
  have hm := mem_scopes_tellBinding hc hi name
  have hnaming : Agreed (c.naming i name meaning).1 ⟨i.module, name, ns⟩ b.path := by
    unfold naming
    rw [(c.tellBinding i name).mergeAll_eq hm (nodup_named name _)]
    have hbrings : Brings i.module [(name, meaning.handedOn c.tree i.visibility)]
        ⟨i.module, name, ns⟩ (b.handedOn c.tree i.visibility) :=
      brings_named.2 ⟨rfl, b, hb, rfl⟩
    refine agreed_placeAll (b := b.handedOn c.tree i.visibility) (fun p hp => ?_)
      (mem_placements.2 hbrings)
    rw [(mem_placements.1 hp).1]
    exact hm
  rw [bindName_eq limit hn] at h
  split at h
  · cases h
    exact hnaming
  · obtain ⟨d, hwalk, hend⟩ := handOn_naming_walk hc hi name meaning limit
    obtain rfl := hend c' h
    refine (hwalk.invariant (P := fun a => Coherent imports a ∧ Agreed a _ _) ?_
      ⟨coherent_naming hc hi name meaning, hnaming⟩).2.2
    intro a a' haa' ha
    have hchange : Change imports i meaning a a' :=
      .copied (haa'.mono fun x hx => absurd hx List.not_mem_nil)
    exact ⟨haa'.coherent ha.1, hchange.agreed hi ha.1 ha.2⟩

/-- What an import that is carried out has for a slot comes to that slot. -/
theorem agreed_carryOut {x : SettledImport} (hc : Coherent imports c) (hx : x.declaration ∈ imports)
    {meaning : Meaning} (hm : x.status.meaning? = some meaning) {b : Binding}
    (hgives : x.gives c.tree slot = some b) (h : c.carryOut limit x.declaration meaning = .ok c') :
    Agreed c' slot b.path := by
  obtain ⟨hk, hmodule, hname, meaning', b₀, hm', hb₀, rfl⟩ :=
    SettledImport.gives_eq_some_iff.1 hgives
  obtain rfl := Option.some.inj (hm.symm.trans hm')
  have hslot : slot = ⟨x.declaration.module, slot.name, slot.space⟩ := by rw [hmodule]
  rw [hslot]
  change Agreed c' _ b₀.path
  obtain ⟨d, hcd, -, hbound⟩ := bindName_of_carryOut hc hx hk h
  exact agreed_bindName hcd hx hname hb₀ hbound

/-- Between two imports each slot has the item that any of the recorded imports has for it, or a
clash was reported. -/
theorem Course.agreed (hcoherent : Coherent imports start) (hsettled : start.settled = [])
    (h : Course limit imports start past none c) :
    ∀ x ∈ c.settled, ∀ slot b, x.gives c.tree slot = some b → Agreed c slot b.path := by
  refine h.invariant_between (P := fun c => ∀ x ∈ c.settled, ∀ slot b,
    x.gives c.tree slot = some b → Agreed c slot b.path) hcoherent ?_ ?_ ?_ ?_ rfl
  · intro x hx
    rw [hsettled] at hx
    cases hx
  · exact fun c log hall => hall
  · intro c i hc hi meaning hm d hd hall x hx slot b hb
    have hlater := (carryOut_keeps hc hi hd).2
    change Agreed d slot b.path
    change x.gives d.tree slot = some b at hb
    rw [hlater.tree] at hb
    rcases List.mem_append.1 hx with hx | hx
    · rw [hlater.settled] at hx
      obtain ⟨d', hwalk, hend⟩ := carryOut_walk limit meaning hc hi
      obtain rfl := hend d hd
      exact (hwalk.invariant (P := fun a => Coherent imports a ∧ Agreed a slot b.path)
        (fun a a' haa' ha => ⟨haa'.coherent hi ha.1, haa'.agreed hi ha.1 ha.2⟩)
        ⟨hc, hall x hx slot b hb⟩).2.2
    · obtain rfl := List.mem_singleton.1 hx
      exact agreed_carryOut hc hi hm hb hd
  · intro c i hall x hx slot b hb
    rcases hall x hx slot b hb with ⟨b', hfirm, hpath⟩ | ⟨d, hd, hclash⟩
    · exact Or.inl ⟨b', hfirm, hpath⟩
    · exact Or.inr ⟨d, List.mem_append_left _ hd, hclash⟩

/-! ### Without globs -/

/-- Without globs no slot is ever marked. -/
theorem Course.unmarked {hand : Option SettledImport} (hopened : Opened id imports start)
    (hglob : ∀ i ∈ imports, i.kind ≠ .glob) (h : Course limit imports start past hand c) :
    ∀ a ∈ past ++ [c], ∀ slot, a.globSources.get? slot = none := by
  obtain ⟨states, hstates, hwalk⟩ := h.walk hopened.coherent
  have hstart : ∀ slot, start.globSources.get? slot = none := by
    intro slot
    rw [hopened.globSources]
    rfl
  have hall := (hwalk.invariant (P := fun a => ∀ slot, a.globSources.get? slot = none) ?_ hstart).1
  · rw [← hstates]
    intro a ha
    rcases List.mem_cons.1 ha with rfl | ha
    · exact hstart
    · exact hall a ha
  · intro a b hmove ha slot
    cases hmove with
    | told | recorded | givenUp => exact ha slot
    | changed hi h =>
      cases h with
      | copied h =>
        cases h with
        | told => exact ha slot
        | copied hi hk => exact absurd hk (hglob _ hi)
      | bound =>
        rw [source?_place]
        split
        · rfl
        · exact ha slot
      | opened => exact (Alike.openCrate a _ _ _).source? slot ▸ ha slot
      | linked hk => exact absurd hk (hglob _ hi)

/-- Without globs no slot that is bound ever changes. -/
theorem Course.fixed (hopened : Opened id imports start) (hglob : ∀ i ∈ imports, i.kind ≠ .glob)
    (h : Course limit imports start past none c) {earlier : Collection} (hearlier : earlier ∈ past)
    {slot : Slot} {b : Binding} (hb : earlier.map.binding? slot = some b) :
    c.map.binding? slot = some b := by
  have hunmarked := h.unmarked hopened hglob earlier (List.mem_append_left _ hearlier) slot
  exact (((h.keeps hopened.coherent).2 earlier hearlier).firm slot b ⟨hb, hunmarked⟩).1

/-! ### The crates that can be named -/

/-- The name and the root of the crate that an import opens, if it is an `extern crate` at the root
that can be carried out and has a name. -/
def opens? (c : Collection) (i : Import) : Option (Name × ModuleId) :=
  match i.kind with
  | .externCrate _ =>
    if i.module = .root then do
      let meaning ← (c.status i).meaning?
      let b ← meaning.types
      let root ← c.view.locate? b.path
      let name ← i.name
      return (name, root)
    else none
  | _ => none

/-- Some crates get names, the last of which counts. -/
def nameAll (names : Listing Name ModuleId) (opened : List (Name × ModuleId)) :
    Listing Name ModuleId :=
  opened.foldl (fun names e => names.insert e.1 e.2) names

/-- Which crate an `extern crate` opens is known from the beginning. -/
theorem opens?_congr (hground : c.view.SameGround c'.view)
    (hdirect : c'.directCrates = c.directCrates) (i : Import) : c'.opens? i = c.opens? i := by
  have htree : c'.tree = c.tree := hground.tree
  unfold opens? status externRoot?
  cases i.kind with
  | named | glob => rfl
  | externCrate macroUse =>
    simp only [hdirect, htree, hground.moduleBinding,
      View.locate?_congr hground.tree hground.dependencies]

/-- Carrying an import out names the crate that it opens. -/
theorem externPrelude_carryOut {i : Import} {meaning : Meaning} (hk : i.kind ≠ .glob)
    (hm : (c.status i).meaning? = some meaning)
    (h : c.carryOut limit i meaning = .ok c') :
    c'.map.externPrelude = nameAll c.map.externPrelude (c.opens? i).toList := by
  unfold carryOut at h
  unfold opens?
  cases hkind : i.kind with
  | glob => exact absurd hkind hk
  | named =>
    simp only [hkind] at h
    exact (frame_bindName h).externPrelude
  | externCrate macroUse =>
    simp only [hkind] at h ⊢
    split at h
    · next hroot =>
      rw [(frame_bindName h).externPrelude, if_pos hroot, hm]
      unfold openCrate
      cases htypes : meaning.types with
      | none => simp [htypes, nameAll]
      | some b =>
        cases hlocate : c.view.locate? b.path with
        | none => simp [htypes, hlocate, nameAll]
        | some root =>
          cases hn : i.name with
          | none => simp [hlocate, nameAll, map, withMap]
          | some name => simp [htypes, hlocate, nameAll, map, withMap]
    · next hroot =>
      rw [if_neg hroot]
      exact (frame_bindName h).externPrelude

theorem opens?_of_unresolved {i : Import} (h : (c.status i).meaning? = none) :
    c.opens? i = none := by
  unfold opens?
  rw [h]
  split
  · split <;> rfl
  · rfl

theorem keeps_carryOut {i : Import} {meaning : Meaning} (hc : Coherent imports c) (hi : i ∈ imports)
    (h : c.carryOut limit i meaning = .ok c') : Keeps imports c c' := by
  obtain ⟨d, hwalk, hend⟩ := carryOut_walk limit meaning hc hi
  obtain rfl := hend c' h
  exact (hwalk.invariant (P := fun a => Coherent imports a ∧ Keeps imports c a)
    (fun a b hab ha => ⟨hab.coherent hi ha.1, ha.2.trans (hab.keeps hi ha.1)⟩)
    ⟨hc, .refl c⟩).2.2

theorem Opened.ground (hopened : Opened id imports start) (hkeeps : Keeps imports start c) :
    start.view.SameGround c.view := by
  refine hkeeps.sameGround fun p hp => ?_
  have hcrate : start.view.crate = id := hopened.crate
  rw [hcrate]
  exact hopened.prelude p hp

section Passes

variable (hopened : Opened id imports start) (hglob : ∀ i ∈ imports, i.kind ≠ .glob)
  {waiting left : List Import}

include hopened hglob

/-- A pass names the crates of all imports that open one, in the order in which these waited. -/
theorem externPrelude_pass (hc : Coherent imports c) (hkeeps : Keeps imports start c)
    (hw : ∀ i ∈ waiting, i ∈ imports) (h : pass limit c waiting = .ok (c', left)) :
    Keeps imports start c' ∧
      c'.map.externPrelude = nameAll c.map.externPrelude (waiting.filterMap start.opens?) ∧
      left.filterMap start.opens? = [] := by
  induction waiting generalizing c left with
  | nil =>
    cases h
    exact ⟨hkeeps, rfl, rfl⟩
  | cons i rest ih =>
    have hi := hw i List.mem_cons_self
    have hrest : ∀ j ∈ rest, j ∈ imports := fun j hj => hw j (List.mem_cons_of_mem i hj)
    have hopens : c.opens? i = start.opens? i :=
      opens?_congr (hopened.ground hkeeps) hkeeps.directCrates i
    have htold := hc.told (c.log ++ c.statusLog i)
    have hkeeps' := hkeeps.trans ((Move.told (c.log ++ c.statusLog i)).keeps hc)
    rw [pass] at h
    simp only at h
    split at h
    · next hnone =>
      obtain ⟨⟨d, left'⟩, hr, h⟩ := ok_of_bind h
      cases h
      obtain ⟨hkept, hnames, hleft⟩ := ih htold hkeeps' hrest hr
      have hclosed : start.opens? i = none := hopens ▸ opens?_of_unresolved hnone
      rw [List.filterMap_cons_none hclosed, List.filterMap_cons_none hclosed]
      exact ⟨hkept, hnames, hleft⟩
    · next meaning hsome =>
      obtain ⟨d, hs, h⟩ := ok_of_bind h
      obtain ⟨e, hcarried, hs⟩ := ok_of_bind hs
      cases hs
      have htell : (({ c with log := c.log ++ c.statusLog i } : Collection).status i).meaning?
          = some meaning := hsome
      have hnamed := externPrelude_carryOut (hglob i hi) htell hcarried
      have hcoherent := (carryOut_keeps htold hi hcarried).1
      have hrecorded : Move imports e { e with settled := e.settled ++ [⟨i, c.status i⟩] } :=
        .recorded _
      have hkept := (hkeeps'.trans (keeps_carryOut htold hi hcarried)).trans
        (hrecorded.keeps hcoherent)
      obtain ⟨hkept', hnames, hleft⟩ := ih (hrecorded.coherent hcoherent) hkept hrest h
      refine ⟨hkept', ?_, hleft⟩
      change e.map.externPrelude = nameAll c.map.externPrelude (c.opens? i).toList at hnamed
      change _ = nameAll e.map.externPrelude _ at hnames
      rw [hnames, hnamed, hopens]
      cases hi' : start.opens? i with
      | none => rw [List.filterMap_cons_none hi']; rfl
      | some opened => rw [List.filterMap_cons_some hi']; rfl

/-- In the end the crates are named that the imports open, in the order of the imports. -/
theorem externPrelude_settle {isCancelled : Nat → Bool} {number : Nat} {outcome : Outcome}
    (hc : Coherent imports c) (hkeeps : Keeps imports start c) (hw : ∀ i ∈ waiting, i ∈ imports)
    (h : settle limit isCancelled number waiting c = .ok outcome) :
    outcome.collection.map.externPrelude
      = nameAll c.map.externPrelude (waiting.filterMap start.opens?) := by
  induction hn : waiting.length using Nat.strongRecOn generalizing waiting number c with
  | ind n ih =>
    rw [settle] at h
    split at h
    · cases h
    · split at h
      · cases h
      · next d left hp =>
        obtain ⟨haccounts, hcoherent⟩ := accounts_pass hc hw hp
        obtain ⟨hkept, hnames, hleft⟩ := externPrelude_pass hopened hglob hc hkeeps hw hp
        simp only at h
        split at h
        · next hlt =>
          -- What is left over opens nothing.
          have hrest := ih left.length (hn ▸ hlt) (hcoherent.told _)
            (hkept.trans ((Move.told _).keeps hcoherent))
            (fun i hi => hw i (haccounts.order.subset hi)) h rfl
          rw [hrest, hleft]
          exact hnames
        · cases h
          exact hnames

end Passes

theorem frame_giveUp (unresolved : List Import) (c : Collection) :
    Frame c (unresolved.foldl giveUp c) := by
  induction unresolved generalizing c with
  | nil => exact .refl c
  | cons i unresolved ih =>
    have hfirst : Frame c (c.giveUp i) := ⟨rfl, rfl, rfl, rfl, rfl, rfl, rfl, rfl, rfl⟩
    exact hfirst.trans (ih _)

/-! ### Two ends -/

/-- The end of a collection without globs, in which no clash was reported.  An import that means
something was carried out. -/
structure Ended (id : CrateId) (limit : Nat) (imports : List Import) (start : Collection)
    (past : List Collection) (c : Collection) : Prop where
  opened : Opened id imports start
  course : Course limit imports start past none c
  globless : ∀ i ∈ imports, i.kind ≠ .glob
  clashless : ∀ d ∈ c.map.diagnostics, d.isClash = false
  accounted : ∀ i ∈ imports, c.status i = .unresolved ∨ ∃ x ∈ c.settled, x.declaration = i
  crates : c.map.externPrelude
    = nameAll start.map.externPrelude (imports.filterMap start.opens?)

/-- An import of a slot was carried out in the course to `c` when some place that it read gave
another answer than it gives in `other`. -/
def Misread (past : List Collection) (c other : Collection) (slot : Slot) : Prop :=
  ∃ x ∈ c.settled, x.declaration.module = slot.module ∧ x.declaration.name = some slot.name ∧
    ∃ earlier ∈ past, earlier.settled ++ [x] <+: c.settled ∧
      x.status = earlier.status x.declaration ∧
      ∃ r ∈ earlier.reads x.declaration slot.space, ¬ r.Agrees earlier.view other.view

theorem ended_of_run {isCancelled : Nat → Bool} {outcome : Outcome}
    (hopened : Opened id imports start) (hglob : ∀ i ∈ imports, i.kind ≠ .glob)
    (hrun : run limit isCancelled imports start = .ok outcome)
    (hclash : ∀ d ∈ outcome.collection.map.diagnostics, d.isClash = false) :
    ∃ past, Ended id limit imports start past outcome.collection := by
  obtain ⟨past, hcourse⟩ := Course.of_run (fun i hi => hi) hrun
  refine ⟨past, hopened, hcourse, hglob, hclash, ?accounted, ?crates⟩
  all_goals
    obtain ⟨ended, hsettle, hrun⟩ := ok_of_bind hrun
    cases hrun
  case accounted =>
    obtain ⟨⟨⟨done, hdone, hperm⟩, -, -⟩, -, hunresolved⟩ :=
      accounts_settle hopened.coherent (fun i hi => hi) hsettle
    obtain ⟨-, hrecords, -, hstatus⟩ := foldl_giveUp ended.unresolved ended.collection
    intro i hi
    simp only [hstatus, hrecords]
    rcases List.mem_append.1 (hperm.mem_iff.2 hi) with hi | hi
    · obtain ⟨x, hx, rfl⟩ := List.mem_map.1 hi
      rw [hdone]
      exact Or.inr ⟨x, List.mem_append_right _ hx, rfl⟩
    · exact Or.inl (hunresolved i hi)
  case crates =>
    rw [(frame_giveUp _ _).externPrelude]
    exact externPrelude_settle hopened hglob hopened.coherent (.refl start) (fun i hi => hi) hsettle

namespace Ended

variable {limit' : Nat} {imports' : List Import} {start' : Collection} {past' : List Collection}
  {slot : Slot}

/-- A slot has its declaration, or else what the first import that has something for it has. -/
theorem binding?_eq (h : Ended id limit imports start past c) (slot : Slot) :
    c.map.binding? slot
      = (start.map.binding? slot).or (c.settled.findSome? (·.gives c.tree slot)) := by
  have hruled := h.course.ruled h.opened slot
  have hfree := h.course.unmarked h.opened h.globless c (by simp) slot
  unfold Ruled at hruled
  change _ = owner? start.map c.settled c.tree slot
  cases howner : owner? start.map c.settled c.tree slot with
  | some b =>
    rw [howner] at hruled
    exact hruled.1
  | none =>
    rw [howner, hfree] at hruled
    simpa using hruled

variable (h : Ended id limit imports start past c) (h' : Ended id limit' imports' start' past' c')
  (hground : start.view.SameGround start'.view)

include h h'

/-- Two earlier states, one of each course, agree in a place if each of them agrees there with the
end of the other course. -/
theorem agrees_of_ends (hcrates : c'.map.externPrelude = c.map.externPrelude) {e e' : Collection}
    (he : e ∈ past) (he' : e' ∈ past') {r : Reading} (hr : r.Agrees e.view c'.view)
    (hr' : r.Agrees e'.view c.view) : r.Agrees e.view e'.view := by
  -- Whatever a place has in a state it has to the end.
  have key : ∀ {α : Type} {a a' b b' : Option α}, b' = a → b = a' → (∀ x, a = some x → b = some x) →
      (∀ x, a' = some x → b' = some x) → a' = a := by
    rintro α a a' b b' rfl rfl hlast hlast'
    cases hb : b' with
    | some x => exact hlast x hb
    | none =>
      cases hb' : b with
      | none => rfl
      | some x => rw [hlast' x hb'] at hb; cases hb
  cases r with
  | slot s =>
    exact key hr hr' (fun b hb => h.course.fixed h.opened h.globless he hb)
      fun b hb => h'.course.fixed h'.opened h'.globless he' hb
  | crateName name =>
    have hname : c'.map.externPrelude.get? name = e.map.externPrelude.get? name := hr
    have hname' : c.map.externPrelude.get? name = e'.map.externPrelude.get? name := hr'
    rw [hcrates, hname'] at hname
    exact hname
  | macroName name =>
    exact key hr hr'
      (fun b hb => ((h.course.keeps h.opened.coherent).2 e he).macros name b hb)
      fun b hb => ((h'.course.keeps h'.opened.coherent).2 e' he').macros name b hb

omit h' in
/-- All states of a course stand on the same ground. -/
theorem ground_of_past {e : Collection} (he : e ∈ past ++ [c]) :
    start.view.SameGround e.view ∧ e.directCrates = start.directCrates ∧ e.tree = start.tree := by
  obtain ⟨hlast, hpast⟩ := h.course.keeps h.opened.coherent
  have hground := h.opened.ground hlast
  rcases List.mem_append.1 he with he | he
  · have hkeeps := hpast e he
    have htree : e.tree = start.tree := hkeeps.tree.symm.trans hlast.tree
    refine ⟨⟨htree, hkeeps.edition.symm.trans hlast.edition,
      hkeeps.prelude.symm.trans hlast.prelude,
      hkeeps.dependencies.symm.trans hlast.dependencies, hground.foreign⟩,
      hkeeps.directCrates.symm.trans hlast.directCrates, htree⟩
  · rw [List.mem_singleton.1 he]
    exact ⟨hground, hlast.directCrates, hlast.tree⟩

omit h' in
/-- The state in which an import was carried out.  Unless the import misread, all that it read there
is what `c'` has. -/
theorem carried {x : SettledImport} (hx : x ∈ c.settled)
    (hmodule : x.declaration.module = slot.module)
    (hname : x.declaration.name = some slot.name) (hread : ¬ Misread past c c' slot) :
    x.declaration ∈ imports ∧ ∃ e ∈ past, x.status = e.status x.declaration ∧
      ∀ r ∈ e.reads x.declaration slot.space, r.Agrees e.view c'.view := by
  rcases h.course.settled_after_past h.opened.coherent x hx with
    hstart | ⟨hi, e, he, hstatus, hbefore⟩
  · rw [h.opened.settled] at hstart
    cases hstart
  · refine ⟨hi, e, he, hstatus, fun r hr => ?_⟩
    by_contra hdisagrees
    exact hread ⟨x, hx, hmodule, hname, e, he, hbefore, hstatus, r, hr, hdisagrees⟩

include hground in
/-- What an import has for a slot in one end, it has given to the slot in the other end as well. -/
theorem given (hdirect : start'.directCrates = start.directCrates)
    (himports : ∀ i ∈ imports, i ∈ imports')
    (hcrates : c'.map.externPrelude = c.map.externPrelude) {x : SettledImport} (hx : x ∈ c.settled)
    {b : Binding} (hb : x.gives c.tree slot = some b) (hread : ¬ Misread past c c' slot)
    (hread' : ¬ Misread past' c' c slot) :
    ∃ b', c'.map.binding? slot = some b' ∧ b'.path = b.path := by
  unfold SettledImport.gives at hb
  split at hb
  next hclaims =>
    obtain ⟨hk, hmodule, hname⟩ := hclaims
    rw [Option.map_eq_some_iff] at hb
    obtain ⟨b₀, hb₀, rfl⟩ := hb
    obtain ⟨hi, e, he, hstatus, hagree⟩ := h.carried hx hmodule hname hread
    obtain ⟨hearly, hearlyDirect, -⟩ := h.ground_of_past (List.mem_append_left _ he)
    obtain ⟨hlate, -, htree⟩ := h.ground_of_past (e := c) (by simp)
    obtain ⟨hlate', hlateDirect', htree'⟩ := h'.ground_of_past (e := c') (by simp)
    -- Looked up in the other end it means the same, so that it was carried out there too.
    have hmeans : (c'.status x.declaration).meaning?.bind (·.get slot.space) = some b₀ := by
      rw [get_status_congr (hearly.symm.trans (hground.trans hlate'))
        (hlateDirect'.trans (hdirect.trans hearlyDirect.symm)) hagree, ← hstatus]
      exact hb₀
    rcases h'.accounted x.declaration (himports _ hi) with hunresolved | ⟨y, hy, hdeclaration⟩
    · rw [hunresolved] at hmeans
      cases hmeans
    · rw [← hdeclaration] at hmodule hname
      obtain ⟨-, e', he', hstatus', hagree'⟩ := h'.carried hy hmodule hname hread'
      obtain ⟨hearly', hearlyDirect', -⟩ := h'.ground_of_past (List.mem_append_left _ he')
      -- In both states it read the same, and so it meant the same.
      have hsides := hearly.symm.trans (hground.trans hearly')
      have hreads : ∀ r ∈ e.reads x.declaration slot.space, r.Agrees e.view e'.view :=
        reads_agree hsides fun r hr hr' =>
          h.agrees_of_ends h' hcrates he he' (hagree r hr) (hagree' r (hdeclaration ▸ hr'))
      have hsame := get_status_congr hsides
        (hearlyDirect'.trans (hdirect.trans hearlyDirect.symm)) hreads
      have hgives : y.gives c'.tree slot = some (b₀.handedOn c'.tree y.declaration.visibility) := by
        unfold SettledImport.gives
        rw [if_pos ⟨hdeclaration ▸ hk, hmodule, hname⟩, hstatus', hdeclaration, hsame, ← hstatus,
          hb₀]
        rfl
      rcases h'.course.agreed h'.opened.coherent h'.opened.settled y hy slot _ hgives with
        ⟨b', hfirm, hpath⟩ | ⟨d, hd, hclash⟩
      · exact ⟨b', hfirm.1, hpath⟩
      · rw [h'.clashless d hd] at hclash
        cases hclash
  next => cases hb

include hground in
/-- A slot that is bound to different items in both ends was misread in one of the courses. -/
theorem paths_agree (hdirect : start'.directCrates = start.directCrates)
    (hdeclared : start'.map.binding? slot = start.map.binding? slot)
    (himports : imports.Perm imports') (hcrates : c'.map.externPrelude = c.map.externPrelude) :
    (c'.map.binding? slot).map Binding.path = (c.map.binding? slot).map Binding.path ∨
      Misread past c c' slot ∨ Misread past' c' c slot := by
  by_cases hread : Misread past c c' slot
  · exact Or.inr (Or.inl hread)
  by_cases hread' : Misread past' c' c slot
  · exact Or.inr (Or.inr hread')
  left
  have hbinding := h.binding?_eq slot
  have hbinding' := h'.binding?_eq slot
  rw [hdeclared] at hbinding'
  cases hstart : start.map.binding? slot with
  | some b => rw [hbinding, hbinding', hstart, Option.some_or, Option.some_or]
  | none =>
    rw [hstart, Option.none_or] at hbinding hbinding'
    cases hgives : c.settled.findSome? (·.gives c.tree slot) with
    | some b =>
      obtain ⟨x, hx, hb⟩ := List.exists_of_findSome?_eq_some hgives
      obtain ⟨b', hb', hpath⟩ := h.given h' hground hdirect (fun i hi => himports.mem_iff.1 hi)
        hcrates hx hb hread hread'
      rw [hbinding, hgives, hb', Option.map_some, Option.map_some, hpath]
    | none =>
      cases hgives' : c'.settled.findSome? (·.gives c'.tree slot) with
      | none => rw [hbinding, hbinding', hgives, hgives']
      | some b' =>
        obtain ⟨x, hx, hb'⟩ := List.exists_of_findSome?_eq_some hgives'
        obtain ⟨b, hb, -⟩ := h'.given h hground.symm hdirect.symm
          (fun i hi => himports.mem_iff.2 hi) hcrates.symm hx hb' hread' hread
        rw [hbinding, hgives] at hb
        cases hb

end Ended

end Collection

/-- **The order of `use` declarations.**  A crate without globs is built twice, the second time with
the `use` declarations of each module in another order, and no clash is reported.  Then both maps
have the same modules, and each slot has the same item in both or in none, unless an import of that
very name was carried out, in one of the builds, when some place that it read gave another answer
than in the finished map of the other build. -/
theorem order_of_uses_matters_only_to_misreadings {g g' : CrateGraph} {id : CrateId}
    {crate crate' : CrateSource} {finished : CrateId → Option CrateMap} {settings : Settings}
    {start start' : Collection} {imports imports' : List Import}
    (hgraph : g.Reordered g') (hcrate : crate.Reordered crate')
    (hopen : openBuild g id crate finished settings = .ok (start, imports))
    (hopen' : openBuild g' id crate' finished settings = .ok (start', imports'))
    (hglob : ∀ visited ∈ crate.root.traversed [], ∀ leaf ∈ visited.2.uses,
      (Outline.globForm leaf).2 = false)
    {limit limit' : Nat} {isCancelled isCancelled' : Nat → Bool}
    {outcome outcome' : Collection.Outcome}
    (hrun : Collection.run limit isCancelled imports start = .ok outcome)
    (hrun' : Collection.run limit' isCancelled' imports' start' = .ok outcome')
    (hclash : ∀ d ∈ outcome.collection.map.diagnostics, d.isClash = false)
    (hclash' : ∀ d ∈ outcome'.collection.map.diagnostics, d.isClash = false) :
    outcome'.collection.tree = outcome.collection.tree ∧
    ∃ past past', Collection.Course limit imports start past none outcome.collection ∧
      Collection.Course limit' imports' start' past' none outcome'.collection ∧
      ∀ slot, (outcome'.collection.map.binding? slot).map Binding.path
          = (outcome.collection.map.binding? slot).map Binding.path ∨
        Collection.Misread past outcome.collection outcome'.collection slot ∨
        Collection.Misread past' outcome'.collection outcome.collection slot := by
  have hopened := opened_of_openBuild hopen
  have hopened' := opened_of_openBuild hopen'
  obtain ⟨⟨diagnostics, hview⟩, hdirect⟩ := view_openBuild_reordered hgraph hcrate hopen hopen'
  obtain ⟨himports, hfilter⟩ := imports_openBuild_reordered hgraph hcrate hopen hopen'
  have hkinds := kind_ne_glob_of_openBuild hopen hglob
  obtain ⟨past, hended⟩ := Collection.ended_of_run hopened hkinds hrun hclash
  obtain ⟨past', hended'⟩ := Collection.ended_of_run hopened'
    (fun i hi => hkinds i (himports.mem_iff.2 hi)) hrun' hclash'
  have hground : start.view.SameGround start'.view := by
    rw [hview]
    refine ⟨rfl, rfl, rfl, rfl, (hopened.ground (.refl start)).foreign⟩
  have hmap : start'.map = { start.map with diagnostics } := congrArg View.own hview
  -- Each `extern crate` has its place among the others, so that the same crates are named.
  have hcrates : outcome'.collection.map.externPrelude = outcome.collection.map.externPrelude := by
    have hopens : start'.opens? = start.opens? :=
      funext fun i => Collection.opens?_congr hground hdirect i
    have hother : ∀ i : Import, i.kind = .glob ∨ i.kind = .named → start.opens? i = none := by
      intro i hi
      unfold Collection.opens?
      rcases hi with hi | hi <;> rw [hi]
    rw [hended.crates, hended'.crates, hopens, hfilter start.opens? hother, hmap]
  obtain ⟨-, -, htree⟩ := hended.ground_of_past (e := outcome.collection) (by simp)
  obtain ⟨-, -, htree'⟩ := hended'.ground_of_past (e := outcome'.collection) (by simp)
  refine ⟨htree'.trans (hground.tree.trans htree.symm), past, past', hended.course, hended'.course,
    fun slot => ?_⟩
  refine hended.paths_agree hended' hground hdirect ?_ himports hcrates
  rw [hmap]
  rfl

/-! ### A crate in two orders -/

/-- An import of `p`, which is a type, by the name `q`. -/
def pAsQ : UseLeaf := { path := "p", alias? := some "q" }

/-- An import of `v`, which is a value, by the name `p`. -/
def vAsP : UseLeaf := { path := "v", alias? := some "p" }

/-- A crate with a type `p` and a value `v`, and with some imports. -/
def namesakes (uses : List UseLeaf) : CrateSource where
  name := "namesakes"
  root :=
    { items := [
        { name := some "p", kind := .struct .record },
        { name := some "v", kind := .function }]
      uses }

/-- The graph that has only this crate. -/
def namesakesGraph (uses : List UseLeaf) : CrateGraph := ⟨[namesakes uses], List.nodup_singleton _⟩

theorem namesakes_reordered {uses uses' : List UseLeaf} (h : uses.Perm uses') :
    (namesakes uses).Reordered (namesakes uses') where
  name := rfl
  edition := rfl
  root := .intro (.cons (.leaf fun _ => ItemKind.noConfusion)
    (.cons (.leaf fun _ => ItemKind.noConfusion) .nil)) h
  dependencies := rfl

theorem namesakesGraph_reordered {uses uses' : List UseLeaf} (h : uses.Perm uses') :
    (namesakesGraph uses).Reordered (namesakesGraph uses') :=
  .cons (namesakes_reordered h) .nil

/-- With one order of its imports the crate has no value `q`, with the other it has one; and neither
build reports anything. -/
theorem values_namesakes :
    (openBuild (namesakesGraph [pAsQ, vAsP]) ⟨0⟩ (namesakes [pAsQ, vAsP]) (fun _ => none) {} >>=
      fun r => (Collection.run 3 (fun _ => false) r.2 r.1)).map (fun outcome =>
        (outcome.collection.map.diagnostics,
          (outcome.collection.map.binding? ⟨.root, "q", .values⟩).map Binding.path))
      = .ok ([], none) ∧
    (openBuild (namesakesGraph [vAsP, pAsQ]) ⟨0⟩ (namesakes [vAsP, pAsQ]) (fun _ => none) {} >>=
      fun r => (Collection.run 3 (fun _ => false) r.2 r.1)).map (fun outcome =>
        (outcome.collection.map.diagnostics,
          (outcome.collection.map.binding? ⟨.root, "q", .values⟩).map Binding.path))
      = .ok ([], some ⟨⟨0⟩, ["v"]⟩) :=
  ⟨by cbv, by cbv⟩

/-- In a crate without globs that can be built in both orders without a clash, the order of the
imports can decide what a name is bound to. -/
theorem order_of_uses_can_matter : ¬ ∀ {g g' : CrateGraph} {id : CrateId}
    {crate crate' : CrateSource} {finished : CrateId → Option CrateMap} {settings : Settings}
    {start start' : Collection} {imports imports' : List Import}, g.Reordered g' →
    crate.Reordered crate' → openBuild g id crate finished settings = .ok (start, imports) →
    openBuild g' id crate' finished settings = .ok (start', imports') →
    (∀ visited ∈ crate.root.traversed [], ∀ leaf ∈ visited.2.uses,
      (Outline.globForm leaf).2 = false) →
    ∀ {limit : Nat} {isCancelled : Nat → Bool} {outcome outcome' : Collection.Outcome},
    Collection.run limit isCancelled imports start = .ok outcome →
    Collection.run limit isCancelled imports' start' = .ok outcome' →
    (∀ d ∈ outcome.collection.map.diagnostics, d.isClash = false) →
    (∀ d ∈ outcome'.collection.map.diagnostics, d.isClash = false) →
    ∀ slot, (outcome'.collection.map.binding? slot).map Binding.path
      = (outcome.collection.map.binding? slot).map Binding.path := by
  intro hall
  obtain ⟨hearly, hlate⟩ := values_namesakes
  obtain ⟨outcome, hcollect, hearly⟩ := ok_of_map hearly
  obtain ⟨⟨start, imports⟩, hopen, hrun⟩ := ok_of_bind hcollect
  obtain ⟨outcome', hcollect', hlate⟩ := ok_of_map hlate
  obtain ⟨⟨start', imports'⟩, hopen', hrun'⟩ := ok_of_bind hcollect'
  obtain ⟨hreports, hnone⟩ := Prod.mk.inj hearly
  obtain ⟨hreports', hsome⟩ := Prod.mk.inj hlate
  have hswap : [pAsQ, vAsP].Perm [vAsP, pAsQ] := .swap _ _ _
  have hsame := hall (namesakesGraph_reordered hswap) (namesakes_reordered hswap) hopen hopen'
    (by decide) hrun hrun' (by simp [hreports]) (by simp [hreports']) ⟨.root, "q", .values⟩
  rw [hnone, hsome] at hsame
  cases hsame

/-- In these two builds every slot has the same item but those of which an import misread: `q` as a
value was misread. -/
theorem order_of_uses_matters_only_to_misreadings_namesakes :
    ∃ start imports outcome start' imports' outcome' past past',
      openBuild (namesakesGraph [pAsQ, vAsP]) ⟨0⟩ (namesakes [pAsQ, vAsP]) (fun _ => none) {}
        = .ok (start, imports) ∧
      openBuild (namesakesGraph [vAsP, pAsQ]) ⟨0⟩ (namesakes [vAsP, pAsQ]) (fun _ => none) {}
        = .ok (start', imports') ∧
      Collection.run 3 (fun _ => false) imports start = .ok outcome ∧
      Collection.run 3 (fun _ => false) imports' start' = .ok outcome' ∧
      outcome'.collection.tree = outcome.collection.tree ∧
      Collection.Course 3 imports start past none outcome.collection ∧
      Collection.Course 3 imports' start' past' none outcome'.collection ∧
      (∀ slot, (outcome'.collection.map.binding? slot).map Binding.path
          = (outcome.collection.map.binding? slot).map Binding.path ∨
        Collection.Misread past outcome.collection outcome'.collection slot ∨
        Collection.Misread past' outcome'.collection outcome.collection slot) ∧
      (Collection.Misread past outcome.collection outcome'.collection ⟨.root, "q", .values⟩ ∨
        Collection.Misread past' outcome'.collection outcome.collection ⟨.root, "q", .values⟩) := by
  obtain ⟨hearly, hlate⟩ := values_namesakes
  obtain ⟨outcome, hcollect, hearly⟩ := ok_of_map hearly
  obtain ⟨⟨start, imports⟩, hopen, hrun⟩ := ok_of_bind hcollect
  obtain ⟨outcome', hcollect', hlate⟩ := ok_of_map hlate
  obtain ⟨⟨start', imports'⟩, hopen', hrun'⟩ := ok_of_bind hcollect'
  obtain ⟨hreports, hnone⟩ := Prod.mk.inj hearly
  obtain ⟨hreports', hsome⟩ := Prod.mk.inj hlate
  have hswap : [pAsQ, vAsP].Perm [vAsP, pAsQ] := .swap _ _ _
  obtain ⟨htree, past, past', hcourse, hcourse', hall⟩ :=
    order_of_uses_matters_only_to_misreadings (namesakesGraph_reordered hswap)
      (namesakes_reordered hswap) hopen hopen' (by decide) hrun hrun' (by simp [hreports])
      (by simp [hreports'])
  refine ⟨start, imports, outcome, start', imports', outcome', past, past', hopen, hopen', hrun,
    hrun', htree, hcourse, hcourse', hall, (hall ⟨.root, "q", .values⟩).resolve_left ?_⟩
  rw [hnone, hsome]
  exact Option.some_ne_none _

end CrateScope
