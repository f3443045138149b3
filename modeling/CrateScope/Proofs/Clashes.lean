import CrateScope.Proofs.Accounting
import CrateScope.Proofs.Precedence

/-!
# Clashes of imports

A named import that comes to a slot which a declaration or another named import holds is rejected,
and when it is of another item the user is told.  That is told at the moment at which it happens,
and of the binding that the slot has at that moment.  But such a slot is firm: it has the same
binding at the end.  So from the finished map and the record of the imports alone it can be read off
what was told.

Where a glob holds the slot, or a glob brings the binding, nothing is ever told.

## Main definitions

* `View.Clash` — an import has another item for a slot than the map.
* `Collection.Told` — what was told of clashes is right, and nothing was told twice.
* `Collection.TellsAll` — every clash was told.

## Main results

* `Collection.diagnostics_place` — what a single binding lets be told.
* `Collection.Change.diagnostics` — the same for one change while an import is carried out.
* `Collection.mem_diagnostics_carryOut` — an import that is rejected is told of.
* `Collection.Course.told_clashes`, `Collection.Course.tellsAll` — these hold in a course.
* `clashes_are_told_exactly` — the clashes of a finished view, all of them and each once.
-/

namespace CrateScope

/-- The diagnostics of a map that tell of clashes. -/
def CrateMap.clashes (map : CrateMap) : List Diagnostic :=
  map.diagnostics.filter Diagnostic.isClash

namespace View

/-! ### What a clash is, and how it is told -/

/-- The import `x` has `rejected` for a slot in which the map holds another item, `existing`. -/
structure Clash (view : View) (x : SettledImport) (slot : Slot) (existing rejected : Binding) :
    Prop where
  gives : x.gives view.tree slot = some rejected
  bound : view.own.binding? slot = some existing
  differs : existing.path ≠ rejected.path

/-- What is told about a slot that keeps one item where an import has another. -/
def clashReport (view : View) (slot : Slot) (existing rejected : ItemPath) : Diagnostic :=
  .ambiguousImport (view.own.displayModule slot.module) slot.name slot.space
    (view.displayPath existing) (view.displayPath rejected)

variable {view view' : View}

/-- How paths are shown depends on the crate and on its dependencies. -/
theorem displayPath_congr (htree : view'.tree = view.tree)
    (hdeps : view'.dependencies = view.dependencies) (path : ItemPath) :
    view'.displayPath path = view.displayPath path := by
  have hcrate : view'.crate = view.crate := congrArg ModuleTree.crate htree
  unfold displayPath mapOf?
  rw [hcrate, hdeps]
  split
  · rfl
  · rfl

theorem clashReport_congr (htree : view'.tree = view.tree)
    (hdeps : view'.dependencies = view.dependencies) (slot : Slot)
    (existing rejected : ItemPath) :
    view'.clashReport slot existing rejected = view.clashReport slot existing rejected := by
  have hmodule : view'.own.displayModule slot.module = view.own.displayModule slot.module :=
    congrArg (fun t : ModuleTree => (t.pathOf slot.module).textFrom "crate") htree
  unfold clashReport
  rw [hmodule, displayPath_congr htree hdeps, displayPath_congr htree hdeps]

/-- A module is shown by its path. -/
theorem displayModule_eq (h : view.tree.Regular) (m : LocalId) :
    view.own.displayModule m = view.displayPath (view.tree.pathOf m) := by
  have hcrate : (view.tree.pathOf m).crate = view.crate := h.crate_pathOf m
  unfold displayPath
  rw [if_pos hcrate]
  rfl

end View

namespace Collection

variable {limit : Nat} {imports : List Import} {c c' : Collection} {slot : Slot}
  {old new : Binding}

/-! ### One binding -/

/-- A clash is one with a firm slot, and never with what a glob brings. -/
theorem judgeBinding_eq_clash_iff (c : Collection) (slot : Slot) (new : Binding)
    (origin : Origin) :
    judgeBinding (c.map.binding? slot) (c.globSources.get? slot) origin new = .clash ↔
      origin = .named ∧ ∃ old, c.Firm slot old ∧ old.path ≠ new.path := by
  unfold judgeBinding Firm Binding.sameItem
  cases c.map.binding? slot <;> cases c.globSources.get? slot <;> cases origin <;>
    simp [ite_eq_iff]

/-- What a firm slot rejects is told, once. -/
theorem diagnostics_place_of_firm (hfirm : c.Firm slot old) (hdiffers : old.path ≠ new.path) :
    (c.place slot new .named).1.map.diagnostics =
      if c.view.clashReport slot old.path new.path ∈ c.map.diagnostics then c.map.diagnostics
      else c.map.diagnostics ++ [c.view.clashReport slot old.path new.path] := by
  have hverdict := (c.judgeBinding_eq_clash_iff slot new .named).2 ⟨rfl, old, hfirm, hdiffers⟩
  unfold place
  simp only
  split
  · next hreplace =>
    rw [hverdict] at hreplace
    cases hreplace
  · next old' _ hold =>
    obtain rfl := Option.some.inj (hold.symm.trans hfirm.1)
    exact apply_ite (fun d : Collection => d.map.diagnostics) _ _ _
  · next hne => exact absurd hfirm.1 (hne old hverdict)

theorem mem_diagnostics_place (hfirm : c.Firm slot old) (hdiffers : old.path ≠ new.path) :
    c.view.clashReport slot old.path new.path ∈ (c.place slot new .named).1.map.diagnostics := by
  rw [diagnostics_place_of_firm hfirm hdiffers]
  split
  · next htold => exact htold
  · exact List.mem_append_right _ (List.mem_singleton_self _)

/-- A binding lets something be told only if it is rejected by a firm slot, and if the same was not
told before. -/
theorem diagnostics_place (c : Collection) (slot : Slot) (new : Binding) (origin : Origin) :
    (c.place slot new origin).1.map.diagnostics = c.map.diagnostics ∨
      origin = .named ∧ ∃ old, c.Firm slot old ∧ old.path ≠ new.path ∧
        c.view.clashReport slot old.path new.path ∉ c.map.diagnostics ∧
        (c.place slot new origin).1.map.diagnostics
          = c.map.diagnostics ++ [c.view.clashReport slot old.path new.path] := by
  by_cases hclash : origin = .named ∧ ∃ old, c.Firm slot old ∧ old.path ≠ new.path
  · obtain ⟨rfl, old, hfirm, hdiffers⟩ := hclash
    rw [diagnostics_place_of_firm hfirm hdiffers]
    split
    · exact Or.inl rfl
    · next hnew => exact Or.inr ⟨rfl, old, hfirm, hdiffers, hnew, rfl⟩
  · rw [← c.judgeBinding_eq_clash_iff] at hclash
    left
    unfold place
    simp only
    split
    · rfl
    · next hverdict _ => exact absurd hverdict hclash
    · rfl

/-! ### What is told while an import is carried out -/

theorem GlobStep.diagnostics {passed : List LocalId} (h : GlobStep imports passed c c') :
    c'.map.diagnostics = c.map.diagnostics := by
  cases h with
  | told log => rfl
  | copied =>
    refine (diagnostics_place _ _ _ _).resolve_right ?_
    rintro ⟨horigin, -⟩
    cases horigin

/-- A change lets at most one clash be told, one of the import in hand with a firm slot. -/
theorem Change.diagnostics {x : SettledImport} {meaning : Meaning}
    (hm : x.status.meaning? = some meaning) (h : Change imports x.declaration meaning c c') :
    c'.map.diagnostics = c.map.diagnostics ∨
      ∃ slot existing rejected, c.Firm slot existing ∧ c.view.Clash x slot existing rejected ∧
        c.view.clashReport slot existing.path rejected.path ∉ c.map.diagnostics ∧
        c'.map.diagnostics
          = c.map.diagnostics ++ [c.view.clashReport slot existing.path rejected.path] := by
  cases h with
  | copied h => exact Or.inl h.diagnostics
  | @bound hk name hn ns b hb =>
    refine (diagnostics_place _ _ _ _).imp_right ?_
    rintro ⟨-, old, hfirm, hdiffers, hnew, heq⟩
    have hgives : x.gives c.tree ⟨x.declaration.module, name, ns⟩
        = some (b.handedOn c.tree x.declaration.visibility) :=
      SettledImport.gives_eq_some_iff.2 ⟨hk, rfl, hn, meaning, b, hm, hb, rfl⟩
    exact ⟨_, old, _, hfirm, ⟨hgives, hfirm.1, hdiffers⟩, hnew, heq⟩
  | opened =>
    left
    unfold openCrate
    split <;> rfl
  | linked =>
    left
    unfold addEdge
    split <;> rfl

/-- Carrying a glob out lets nothing be told, however far its names are handed on. -/
theorem diagnostics_carryOut_glob {i : Import} {meaning : Meaning} (hc : Coherent imports c)
    (hi : i ∈ imports) (hk : i.kind = .glob) (h : c.carryOut limit i meaning = .ok c') :
    c'.map.diagnostics = c.map.diagnostics := by
  obtain ⟨d, hwalk, hend⟩ := carryOut_walk limit meaning hc hi
  obtain rfl := hend c' h
  refine (hwalk.invariant (P := fun a => a.map.diagnostics = c.map.diagnostics) ?_ rfl).2
  intro a b hab ha
  rw [← ha]
  cases hab with
  | copied h => exact h.diagnostics
  | bound hne => exact absurd hk hne
  | opened hk' =>
    rw [hk] at hk'
    cases hk'
  | linked =>
    unfold addEdge
    split <;> rfl

/-- Of some bindings that come to their slots one after the other, each that a firm slot rejects is
told of. -/
theorem mem_diagnostics_placeAll {ps : List (Slot × Binding)} (hfirm : c.Firm slot old)
    (hdiffers : old.path ≠ new.path) (hmem : (slot, new) ∈ ps)
    (hinside : ∀ p ∈ ps, p.1.module.index < c.map.scopes.size) :
    c.view.clashReport slot old.path new.path ∈ (placeAll .named c ps).map.diagnostics := by
  induction ps generalizing c with
  | nil => cases hmem
  | cons p ps ih =>
    let next := (c.place p.1 p.2 .named).1
    have hframe : Frame c next := c.frame_place p.1 p.2 .named
    have hkeeps : Keeps [] c next := .place (hinside p List.mem_cons_self) p.2 .named
    change _ ∈ (placeAll .named next ps).map.diagnostics
    rcases List.mem_cons.1 hmem with rfl | hmem
    · -- Once it is told, the bindings after it do not take it back.
      obtain ⟨clashes, heq, -⟩ := clashed_placeAll next ps .named
      rw [heq]
      exact List.mem_append_left _ (mem_diagnostics_place hfirm hdiffers)
    · rw [← View.clashReport_congr hframe.tree hframe.dependencies]
      refine ih (hkeeps.firm slot old hfirm) hmem fun q hq => ?_
      rw [hframe.size]
      exact hinside q (List.mem_cons_of_mem p hq)

/-- A name that is rejected by a firm slot is told of, whatever is handed on afterwards. -/
theorem mem_diagnostics_bindName {i : Import} (hi : i ∈ imports) {meaning : Meaning}
    (hc : Coherent imports c) (hname : i.name = some slot.name) (hmodule : i.module = slot.module)
    {b : Binding} (hb : meaning.get slot.space = some b) (hfirm : c.Firm slot old)
    (hdiffers : old.path ≠ b.path) (h : c.bindName limit i meaning = .ok c') :
    c.view.clashReport slot old.path b.path ∈ c'.map.diagnostics := by
  have hsize := mem_scopes_tellBinding hc hi slot.name
  have hbrings : Brings i.module [(slot.name, meaning.handedOn c.tree i.visibility)] slot
      (b.handedOn c.tree i.visibility) :=
    brings_named.2 ⟨by rw [hmodule], b, hb, rfl⟩
  have hnaming : c.view.clashReport slot old.path (b.handedOn c.tree i.visibility).path
      ∈ (c.naming i slot.name meaning).1.map.diagnostics := by
    unfold naming
    rw [mergeAll_eq _ hsize (nodup_named slot.name _)]
    have hinside : ∀ p ∈ placements i.module
        [(slot.name, meaning.handedOn c.tree i.visibility)], p.1.module.index
          < (c.tellBinding i slot.name).map.scopes.size := by
      intro p hp
      rw [(mem_placements.1 hp).1]
      exact hsize
    exact mem_diagnostics_placeAll (c := c.tellBinding i slot.name) hfirm hdiffers
      (mem_placements.2 hbrings) hinside
  rw [bindName_eq limit hname] at h
  split at h
  · cases h
    exact hnaming
  · obtain ⟨d, hwalk, hend⟩ := handOn_naming_walk hc hi slot.name meaning limit
    obtain rfl := hend c' h
    rw [(hwalk.invariant
      (P := fun a => a.map.diagnostics = (c.naming i slot.name meaning).1.map.diagnostics)
      (fun _ _ hab ha => hab.diagnostics.trans ha) rfl).2]
    exact hnaming

/-- An import that is rejected by a firm slot is told of. -/
theorem mem_diagnostics_carryOut {x : SettledImport} (hx : x.declaration ∈ imports)
    {meaning : Meaning} (hm : x.status.meaning? = some meaning) (hc : Coherent imports c)
    (hgives : x.gives c.tree slot = some new) (hfirm : c.Firm slot old)
    (hdiffers : old.path ≠ new.path) (h : c.carryOut limit x.declaration meaning = .ok c') :
    c.view.clashReport slot old.path new.path ∈ c'.map.diagnostics := by
  obtain ⟨hk, hmodule, hname, meaning', b, hm', hb, rfl⟩ :=
    SettledImport.gives_eq_some_iff.1 hgives
  obtain rfl := Option.some.inj (hm.symm.trans hm')
  obtain ⟨d, hcd, halike, hbound⟩ := bindName_of_carryOut hc hx hk h
  rw [← View.clashReport_congr halike.tree halike.dependencies]
  exact mem_diagnostics_bindName (b := b) hx hcd hname hmodule hb (halike.firm slot old hfirm)
    hdiffers hbound

/-! ### What is told is right, and is told once -/

/-- A diagnostic tells of a clash of one of the imports `recorded` with a firm slot. -/
def Explains (c : Collection) (recorded : List SettledImport) (d : Diagnostic) : Prop :=
  ∃ x ∈ recorded, ∃ slot existing rejected, c.Firm slot existing ∧
    c.view.Clash x slot existing rejected ∧
    d = c.view.clashReport slot existing.path rejected.path

/-- What was told of clashes is right, and nothing was told twice. -/
structure Told (c : Collection) (recorded : List SettledImport) : Prop where
  right : ∀ d ∈ c.map.clashes, c.Explains recorded d
  once : c.map.clashes.Nodup

section Keep

variable (htree : c'.tree = c.tree) (hdeps : c'.view.dependencies = c.view.dependencies)
  (hfirm : ∀ slot b, c.Firm slot b → c'.Firm slot b) {recorded recorded' : List SettledImport}
  (hsub : ∀ x ∈ recorded, x ∈ recorded')

include htree hdeps hfirm hsub

/-- What tells of a clash goes on telling of it, since firm slots stay as they are. -/
theorem Explains.keep {d : Diagnostic} (h : c.Explains recorded d) :
    c'.Explains recorded' d := by
  obtain ⟨x, hx, slot, existing, rejected, hheld, hclash, rfl⟩ := h
  have hheld' := hfirm slot existing hheld
  refine ⟨x, hsub x hx, slot, existing, rejected, hheld', ⟨?_, hheld'.1, hclash.differs⟩, ?_⟩
  · have hgives := hclash.gives
    change x.gives c.tree slot = _ at hgives
    rwa [← htree] at hgives
  · exact (View.clashReport_congr htree hdeps _ _ _).symm

theorem Told.keep (h : c.Told recorded) (hclashes : c'.map.clashes = c.map.clashes) :
    c'.Told recorded' where
  right d hd := (h.right d (hclashes ▸ hd)).keep htree hdeps hfirm hsub
  once := by
    rw [hclashes]
    exact h.once

end Keep

/-- One change leaves everything that was told right. -/
theorem Change.told_clashes {x : SettledImport} (hx : x.declaration ∈ imports) {meaning : Meaning}
    (hm : x.status.meaning? = some meaning) (hc : Coherent imports c)
    (h : Change imports x.declaration meaning c c') {recorded : List SettledImport}
    (hrecorded : x ∈ recorded) (htold : c.Told recorded) : c'.Told recorded := by
  have hkeeps := h.keeps hx hc
  rcases h.diagnostics hm with heq | ⟨slot, existing, rejected, hfirm, hclash, hnew, heq⟩
  · exact htold.keep hkeeps.tree hkeeps.dependencies hkeeps.firm (fun _ hy => hy)
      (congrArg (List.filter Diagnostic.isClash) heq)
  · have hclashes : c'.map.clashes
        = c.map.clashes ++ [c.view.clashReport slot existing.path rejected.path] := by
      unfold CrateMap.clashes
      rw [heq, List.filter_append]
      rfl
    refine ⟨fun d hd => ?_, ?_⟩
    · rw [hclashes] at hd
      have hexplains : c.Explains recorded d := by
        rcases List.mem_append.1 hd with hd | hd
        · exact htold.right d hd
        · rw [List.mem_singleton.1 hd]
          exact ⟨x, hrecorded, slot, existing, rejected, hfirm, hclash, rfl⟩
      exact hexplains.keep hkeeps.tree hkeeps.dependencies hkeeps.firm fun _ hy => hy
    · rw [hclashes, ← List.concat_eq_append]
      exact htold.once.concat fun hmem => hnew (List.mem_filter.1 hmem).1

/-- Every clash of an import that was carried out was told. -/
def TellsAll (c : Collection) : Prop :=
  ∀ x ∈ c.settled, ∀ slot existing rejected, c.view.Clash x slot existing rejected →
    c.view.clashReport slot existing.path rejected.path ∈ c.map.diagnostics

/-- An import that is given up is no clash. -/
theorem clashes_giveUp (c : Collection) (i : Import) :
    (c.giveUp i).map.clashes = c.map.clashes := by
  change (c.map.diagnostics ++ [Diagnostic.unresolvedImport _ _]).filter Diagnostic.isClash = _
  rw [List.filter_append]
  exact List.append_nil _

namespace Course

variable {start : Collection} {past : List Collection} {hand : Option SettledImport}

/-- In every state of a course, what was told of clashes is right. -/
theorem told_clashes {id : CrateId} (hopened : Opened id imports start)
    (hnone : start.map.clashes = []) (h : Course limit imports start past hand c) :
    c.Told (c.settled ++ hand.toList) := by
  have hkeep : ∀ {c c' : Collection} {recorded recorded' : List SettledImport}, Alike c c' →
      (∀ x ∈ recorded, x ∈ recorded') → c'.map.clashes = c.map.clashes → c.Told recorded →
      c'.Told recorded' :=
    fun halike hsub hclashes htold =>
      htold.keep halike.tree halike.dependencies halike.firm hsub hclashes
  refine (h.invariant (P := fun hand c => c.Told (c.settled ++ hand.toList)) hopened.coherent
    ⟨?right, ?once⟩ ?logged ?taken ?changed ?recorded ?givenUp).2
  case right => simp [hnone]
  case once => simp [hnone]
  case logged => exact fun c log => hkeep (Alike.told c log) (fun _ hx => hx) rfl
  case taken =>
    intro c i _ meaning _
    exact hkeep (Alike.of_eq rfl) (fun x hx => List.mem_append_left _ (by simpa using hx)) rfl
  case changed =>
    intro x hx meaning hm c c' hc hchange htold
    rw [(hchange.later hx hc).settled]
    exact hchange.told_clashes hx hm hc (by simp) htold
  case recorded => exact fun c x => hkeep (Alike.settled c _) (by simp) rfl
  case givenUp =>
    exact fun c i => hkeep (Alike.giveUp c i) (fun _ hx => hx) (clashes_giveUp c i)

/-- Once an import was recorded that has something for a slot, the slot is firm: it holds what was
declared there, or what an import has for it that was recorded. -/
theorem firm_of_gives {id : CrateId} (hopened : Opened id imports start)
    (h : Course limit imports start past none c) {x : SettledImport} (hx : x ∈ c.settled)
    (hgives : x.gives c.tree slot = some new) :
    ∃ b, c.Firm slot b ∧ (start.map.binding? slot = some b ∨
      ∃ y ∈ c.settled, y.gives c.tree slot = some b) := by
  have hruled := h.ruled hopened slot
  cases hdeclared : start.map.binding? slot with
  | some b =>
    rw [owner?, hdeclared, Option.some_or] at hruled
    exact ⟨b, hruled, Or.inl rfl⟩
  | none =>
    have hsome : (c.settled.findSome? (·.gives c.tree slot)).isSome := by
      rw [List.findSome?_isSome_iff]
      exact ⟨x, hx, by rw [hgives]; rfl⟩
    obtain ⟨b, hb⟩ := Option.isSome_iff_exists.1 hsome
    rw [owner?, hdeclared, Option.none_or, hb] at hruled
    exact ⟨b, hruled, Or.inr (List.exists_of_findSome?_eq_some hb)⟩

/-- An import that can be carried out takes a course further. -/
theorem carried (h : Course limit imports start past none c) {i : Import} (hi : i ∈ imports)
    {meaning : Meaning} (hm : (c.status i).meaning? = some meaning)
    (hcarried : c.carryOut limit i meaning = .ok c') :
    Course limit imports start (past ++ c :: c.carryOutStates limit i meaning) none
      { c' with settled := c'.settled ++ [⟨i, c.status i⟩] } := by
  refine h.settled hi hm ?_
  rw [settleOne, hcarried]
  rfl

/-- With an import all of its clashes are told, and those that were told stay told. -/
theorem tellsAll_settled {id : CrateId} (hopened : Opened id imports start)
    (h : Course limit imports start past none c) (hall : c.TellsAll) {i : Import}
    (hi : i ∈ imports) {meaning : Meaning} (hm : (c.status i).meaning? = some meaning)
    (hcarried : c.carryOut limit i meaning = .ok c') :
    TellsAll { c' with settled := c'.settled ++ [⟨i, c.status i⟩] } := by
  intro x hx slot existing rejected hclash
  obtain ⟨hgives, hbound, hdiffers⟩ := hclash
  have hc := h.coherent hopened.coherent
  obtain ⟨-, hlater⟩ := carryOut_keeps hc hi hcarried
  have hnext := h.carried hi hm hcarried
  have hkeeps := (hnext.keeps hopened.coherent).2 c (by simp)
  have htree : c'.tree = c.tree := hkeeps.tree
  change x.gives c'.tree slot = some rejected at hgives
  rw [htree] at hgives
  rw [View.clashReport_congr hkeeps.tree hkeeps.dependencies]
  change _ ∈ c'.map.diagnostics
  rcases List.mem_append.1 hx with hx | hx
  · -- The slot was firm before, and has the same binding now.
    rw [hlater.settled] at hx
    obtain ⟨b, hfirm, -⟩ := h.firm_of_gives hopened hx hgives
    obtain rfl := Option.some.inj ((hkeeps.firm slot b hfirm).1.symm.trans hbound)
    obtain ⟨clashes, heq, -⟩ := clashed_carryOut hc hi hcarried
    rw [heq]
    exact List.mem_append_left _ (hall x hx slot b rejected ⟨hgives, hfirm.1, hdiffers⟩)
  · rw [List.mem_singleton.1 hx] at hgives
    have hruled := h.ruled hopened slot
    cases howner : owner? start.map c.settled c.tree slot with
    | some b =>
      rw [howner] at hruled
      have hfirm : c.Firm slot b := hruled
      obtain rfl := Option.some.inj ((hkeeps.firm slot b hfirm).1.symm.trans hbound)
      exact mem_diagnostics_carryOut (x := ⟨i, c.status i⟩) hi hm hc hgives hfirm hdiffers hcarried
    | none =>
      -- The import took the slot, so that what it has is what the slot holds.
      have hruled' := hnext.ruled hopened slot
      change Ruled (owner? start.map (c'.settled ++ [⟨i, c.status i⟩]) c'.tree slot) _ slot
        at hruled'
      rw [hlater.settled, htree, owner?_append, howner, hgives, Option.none_or] at hruled'
      obtain rfl := Option.some.inj (hruled'.1.symm.trans hbound)
      exact absurd rfl hdiffers

/-- Between two imports, every clash of an import that was carried out was told. -/
theorem tellsAll {id : CrateId} (hopened : Opened id imports start)
    (h : Course limit imports start past none c) : c.TellsAll := by
  refine (h.invariant_between
    (P := fun c => (∃ past, Course limit imports start past none c) ∧ c.TellsAll)
    hopened.coherent ⟨⟨[], .start⟩, ?start⟩ ?logged ?carriedOut ?givenUp rfl).2
  case start =>
    unfold TellsAll
    rw [hopened.settled]
    exact fun x hx => absurd hx List.not_mem_nil
  case logged => exact fun c log ⟨⟨past, hcourse⟩, hall⟩ => ⟨⟨_, hcourse.told log⟩, hall⟩
  case carriedOut =>
    rintro c i - hi meaning hm d hd ⟨⟨past, hcourse⟩, hall⟩
    exact ⟨⟨_, hcourse.carried hi hm hd⟩, hcourse.tellsAll_settled hopened hall hi hm hd⟩
  case givenUp =>
    rintro c i ⟨⟨past, hcourse⟩, hall⟩
    refine ⟨⟨_, hcourse.givenUp i⟩, fun x hx slot existing rejected hclash => ?_⟩
    have htold := hall x hx slot existing rejected ⟨hclash.gives, hclash.bound, hclash.differs⟩
    have halike := Alike.giveUp c i
    rw [View.clashReport_congr halike.tree halike.dependencies]
    exact List.mem_append_left _ htold

end Course

end Collection

/-! ### The clashes of a finished view -/

section Builds

variable {g : CrateGraph} {id : CrateId} {finished : CrateId → Option CrateMap}
  {settings : Settings}

/-- No directive is reported as a clash when it is read. -/
theorem Fate.isClash_of_report? {map : CrateMap} {m : LocalId} {fate : Fate} {d : Diagnostic}
    (h : fate.report? map m = some d) : d.isClash = false := by
  cases fate with
  | malformed what =>
    cases h
    rfl
  | queued | skipped => cases h

/-- Before any import no clash is told. -/
theorem clashes_openBuild {crate : CrateSource} {start : Collection} {imports : List Import}
    (hopen : openBuild g id crate finished settings = .ok (start, imports)) :
    start.map.clashes = [] := by
  obtain ⟨-, -, hreports⟩ := takes_openBuild hopen
  refine List.filter_eq_nil_iff.2 fun d hd hclash => ?_
  have hreport : d ∈ start.map.diagnostics.filter Diagnostic.isImportReport := by
    refine List.mem_filter.2 ⟨hd, ?_⟩
    cases d <;> first | rfl | cases hclash
  rw [hreports] at hreport
  obtain ⟨⟨m, directive⟩, -, hfate⟩ := List.mem_filterMap.1 hreport
  rw [Fate.isClash_of_report? hfate] at hclash
  cases hclash

/-- **The clashes that are told are exactly those that there are.**  Take any build that succeeds.

* The clashes among its diagnostics are those of the imports that were carried out: of each that has
  another item for a slot than the finished map, shown by the paths of the module and of both items.
* None of them is told twice.
* What holds the slot then was declared, or comes from a named import or an `extern crate` as well.
  In no state of the build does carrying a glob out let anything be told, and neither does a single
  binding that a glob brings, or one that comes to a slot that a glob holds. -/
theorem clashes_are_told_exactly {isCancelled : Nat → Bool} {built : Built}
    (h : buildView g id finished settings isCancelled = .ok built) :
    (∀ d, d ∈ built.view.own.clashes ↔
      ∃ x ∈ built.settled, ∃ slot existing rejected,
        built.view.Clash x slot existing rejected ∧
        d = .ambiguousImport (built.view.displayPath (built.view.tree.pathOf slot.module))
          slot.name slot.space (built.view.displayPath existing.path)
          (built.view.displayPath rejected.path)) ∧
    built.view.own.clashes.Nodup ∧
    ∃ crate start imports, g.crate? id = some crate ∧
      openBuild g id crate finished settings = .ok (start, imports) ∧
      (∀ x ∈ built.settled, ∀ slot existing rejected,
        built.view.Clash x slot existing rejected →
        x.declaration.kind ≠ .glob ∧ (start.map.binding? slot = some existing ∨
          ∃ y ∈ built.settled, y.declaration.kind ≠ .glob ∧
            y.gives built.view.tree slot = some existing)) ∧
      ∀ past hand c, Collection.Course settings.globLimit imports start past hand c →
        (∀ i ∈ imports, i.kind = .glob → ∀ limit meaning c',
          c.carryOut limit i meaning = .ok c' → c'.map.diagnostics = c.map.diagnostics) ∧
        ∀ slot new origin,
          ((∃ source, origin = .glob source) ∨ (c.globSources.get? slot).isSome) →
          (c.place slot new origin).1.map.diagnostics = c.map.diagnostics := by
  obtain ⟨crate, start, imports, past, outcome, hcrate, hopen, hcourse, rfl⟩ :=
    course_of_buildView h
  have hopened := opened_of_openBuild hopen
  have htold := hcourse.told_clashes hopened (clashes_openBuild hopen)
  have hall := hcourse.tellsAll hopened
  have hregular : outcome.collection.view.tree.Regular := by
    have htree : outcome.collection.view.tree = start.tree :=
      (hcourse.keeps hopened.coherent).1.tree
    rw [htree]
    exact hopened.regular
  rw [view_closeBuild, settled_closeBuild]
  refine ⟨fun d => ⟨?right, ?complete⟩, htold.once, crate, start, imports, hcrate, hopen,
    fun x hx slot existing rejected hclash => ?firm, fun past hand c hc => ⟨?glob, ?place⟩⟩
  case right =>
    intro hd
    obtain ⟨x, hx, slot, existing, rejected, -, hclash, rfl⟩ := htold.right d hd
    refine ⟨x, by simpa using hx, slot, existing, rejected, hclash, ?_⟩
    rw [View.clashReport, View.displayModule_eq hregular]
  case complete =>
    rintro ⟨x, hx, slot, existing, rejected, hclash, rfl⟩
    rw [← View.displayModule_eq hregular]
    exact List.mem_filter.2 ⟨hall x hx slot existing rejected hclash, rfl⟩
  case firm =>
    obtain ⟨hgives, hbound, -⟩ := hclash
    obtain ⟨b, hfirm, hfrom⟩ := hcourse.firm_of_gives hopened hx hgives
    obtain rfl := Option.some.inj (hfirm.1.symm.trans hbound)
    exact ⟨(SettledImport.gives_eq_some_iff.1 hgives).1, hfrom.imp_right fun ⟨y, hy, hgives'⟩ =>
      ⟨y, hy, (SettledImport.gives_eq_some_iff.1 hgives').1, hgives'⟩⟩
  case glob =>
    intro i hi hk limit meaning c' hcarried
    exact Collection.diagnostics_carryOut_glob (hc.coherent hopened.coherent) hi hk hcarried
  case place =>
    intro slot new origin hglob
    refine (c.diagnostics_place slot new origin).resolve_right ?_
    rintro ⟨rfl, old, hfirm, -⟩
    rcases hglob with ⟨source, horigin⟩ | hmark
    · cases horigin
    · rw [hfirm.2] at hmark
      cases hmark

end Builds

/-! ### A small crate -/

/-- A crate whose root names two functions `f` and reads a third one by a glob. -/
def rivals : CrateSource where
  name := "rivals"
  root :=
    { items := [
        { name := some "a", kind := .module
            { items := [{ name := some "f", visibility := .pub, kind := .function }] } },
        { name := some "b", kind := .module
            { items := [{ name := some "f", visibility := .pub, kind := .function }] } },
        { name := some "c", kind := .module
            { items := [{ name := some "f", visibility := .pub, kind := .function }] } }]
      uses := [{ path := "c::*" }, { path := "a::f" }, { path := "b::f" }, { path := "b::f" }] }

/-- The graph that has only this crate. -/
def rivalsGraph : CrateGraph := ⟨[rivals], List.nodup_singleton _⟩

/-- The first function that is named takes the name over from the glob, which is not told.  The
second one clashes with it, which is told once although it is named twice. -/
theorem clashes_are_told_exactly_rivals : ∃ built,
    buildView rivalsGraph ⟨0⟩ (fun _ => none) {} (fun _ => false) = .ok built ∧
    built.view.own.clashes
      = [.ambiguousImport "crate" "f" .values "crate::a::f" "crate::b::f"] ∧
    built.view.own.clashes.Nodup ∧
    ∃ x ∈ built.settled, ∃ slot existing rejected,
      built.view.Clash x slot existing rejected ∧ slot.name = "f" ∧
        built.view.displayPath existing.path = "crate::a::f" := by
  have hcollected : (buildView rivalsGraph ⟨0⟩ (fun _ => none) {} (fun _ => false)).map
      (fun built => built.view.own.clashes)
      = .ok [.ambiguousImport "crate" "f" .values "crate::a::f" "crate::b::f"] := by cbv
  obtain ⟨built, hbuilt, hclashes⟩ := ok_of_map hcollected
  obtain ⟨hexact, honce, -⟩ := clashes_are_told_exactly hbuilt
  have htold : .ambiguousImport "crate" "f" .values "crate::a::f" "crate::b::f"
      ∈ built.view.own.clashes := by
    rw [hclashes]
    exact List.mem_singleton_self _
  obtain ⟨x, hx, slot, existing, rejected, hclash, heq⟩ := (hexact _).1 htold
  injection heq with _ hname _ hexisting _
  exact ⟨built, hbuilt, hclashes, honce, x, hx, slot, existing, rejected, hclash, hname.symm,
    hexisting.symm⟩

end CrateScope
