import CrateScope.Proofs.Opening
import CrateScope.Proofs.Permanence
import Mathlib

/-!
# Who wins a slot

A declaration keeps its slot for good.  A slot without one belongs to the first import of the name
that was carried out and has something for it, and only a slot that neither claims is left to the
globs.  The owner of a slot is known from the outline and from the record of imports alone, and the
marks beside the map never disagree with it: a slot with an owner carries none, and of the others
exactly the bound ones are marked.

## Main definitions

* `SettledImport.gives` — what an import has for a slot.
* `Precedence` — the law for one slot.
* `Collection.Ruled` — the same with the owner's binding given, and no mark on declared slots.

## Main results

* `Collection.Course.ruled` — the law between two imports.
* `Collection.Course.bound_of_past` — no slot is ever unbound.
* `bindings_follow_precedence` — the law in every state of every course.
-/

namespace CrateScope

/-- What an import that was carried out has for a slot: the binding of its path in the namespace of
the slot, with the visibility of the import at most.  Globs have nothing of their own. -/
def SettledImport.gives (t : ModuleTree) (slot : Slot) (x : SettledImport) : Option Binding :=
  if x.declaration.kind ≠ .glob ∧ x.declaration.module = slot.module ∧
      x.declaration.name = some slot.name then
    (x.status.meaning?.bind fun meaning => meaning.get slot.space).map
      (Binding.handedOn t x.declaration.visibility)
  else none

/-- What an import has for a slot is what its path means there. -/
theorem SettledImport.gives_eq_some_iff {t : ModuleTree} {slot : Slot} {x : SettledImport}
    {given : Binding} : x.gives t slot = some given ↔
      x.declaration.kind ≠ .glob ∧ x.declaration.module = slot.module ∧
        x.declaration.name = some slot.name ∧
        ∃ meaning b, x.status.meaning? = some meaning ∧ meaning.get slot.space = some b ∧
          given = b.handedOn t x.declaration.visibility := by
  unfold gives
  constructor
  · intro h
    split at h
    · next hclaims =>
      obtain ⟨b, hb, rfl⟩ := Option.map_eq_some_iff.1 h
      obtain ⟨meaning, hm, hb⟩ := Option.bind_eq_some_iff.1 hb
      exact ⟨hclaims.1, hclaims.2.1, hclaims.2.2, meaning, b, hm, hb, rfl⟩
    · cases h
  · rintro ⟨hk, hmodule, hname, meaning, b, hm, hb, rfl⟩
    rw [if_pos ⟨hk, hmodule, hname⟩, hm, Option.bind_some, hb]
    rfl

/-- The law for one slot, given the map of the outline and the imports that count. -/
structure Precedence (outline : CrateMap) (recorded : List SettledImport) (c : Collection)
    (slot : Slot) : Prop where
  /-- A declaration stays, with its visibility. -/
  declared : ∀ b, outline.binding? slot = some b → c.map.binding? slot = some b
  /-- Otherwise the first import that has something for the slot gives it its binding. -/
  imported : outline.binding? slot = none →
    ∀ b, recorded.findSome? (·.gives c.tree slot) = some b →
      c.map.binding? slot = some b ∧ c.globSources.get? slot = none
  /-- Otherwise the slot is bound by a glob or not at all. -/
  globbed : outline.binding? slot = none → recorded.findSome? (·.gives c.tree slot) = none →
    ((c.map.binding? slot).isSome ↔ (c.globSources.get? slot).isSome)

namespace Collection

variable {imports : List Import} {c c' : Collection} {owner : Option Binding} {slot : Slot}

/-! ### Slots with and without an owner -/

/-- A slot with an owner holds the owner's binding without a mark; one without an owner is marked if
it is bound at all. -/
def Ruled (owner : Option Binding) (c : Collection) (slot : Slot) : Prop :=
  match owner with
  | some b => c.map.binding? slot = some b ∧ c.globSources.get? slot = none
  | none => (c.map.binding? slot).isSome ↔ (c.globSources.get? slot).isSome

theorem Ruled.congr (h : Ruled owner c slot) (hb : c'.map.binding? slot = c.map.binding? slot)
    (hs : c'.globSources.get? slot = c.globSources.get? slot) : Ruled owner c' slot := by
  unfold Ruled at h ⊢
  rw [hb, hs]
  exact h

theorem Ruled.alike (h : Ruled owner c slot) (halike : Alike c c') : Ruled owner c' slot :=
  h.congr (halike.binding? slot) (halike.source? slot)

/-- A slot that has an owner takes nothing. -/
theorem Ruled.not_takes {b : Binding} (h : Ruled (some b) c slot) (origin : Origin) :
    ¬ c.Takes slot origin := by
  obtain ⟨hb, hs⟩ := h
  rintro (hnone | hmark)
  · rw [hb] at hnone
    cases hnone
  · cases origin with
    | named => rw [hs] at hmark; cases hmark
    | glob source => rw [hs] at hmark; cases hmark

/-- A slot that has no owner takes what a named import brings. -/
theorem Ruled.takes_named (h : Ruled none c slot) : c.Takes slot .named := by
  cases hb : c.map.binding? slot with
  | none => exact Or.inl hb
  | some b =>
    refine Or.inr (h.1 ?_)
    rw [hb]
    rfl

/-- A named import gives a slot without an owner one, and does not take one away. -/
theorem Ruled.take_named (given : Option Binding) (h : Ruled owner c slot)
    (hb : c'.map.binding? slot
      = if given.isSome ∧ c.Takes slot .named then given else c.map.binding? slot)
    (hs : c'.globSources.get? slot
      = if given.isSome ∧ c.Takes slot .named then none else c.globSources.get? slot) :
    Ruled (owner.or given) c' slot := by
  cases owner with
  | some b =>
    have hnot := h.not_takes .named
    rw [if_neg fun htakes => hnot htakes.2] at hb hs
    exact h.congr hb hs
  | none =>
    cases given with
    | none => exact h.congr (by simpa using hb) (by simpa using hs)
    | some b =>
      have htakes := h.takes_named
      rw [if_pos ⟨rfl, htakes⟩] at hb hs
      exact ⟨hb, hs⟩

/-- What a glob copies leaves the owner of a slot as it is. -/
theorem GlobStep.ruled {passed : List LocalId} (hc : Coherent imports c)
    (h : GlobStep imports passed c c') (hr : Ruled owner c slot) : Ruled owner c' slot := by
  cases h with
  | told log => exact hr.alike (Alike.told c log)
  | @copied i hi hk source name ns b h =>
    have hmem : (⟨i.module, name, ns⟩ : Slot).module.index < c.map.scopes.size := hc.mem_scopes hi
    have hbinding := c.binding?_place hmem (b.handedOn c.tree i.visibility) (.glob source) slot
    have hmark := c.source?_place ⟨i.module, name, ns⟩ (b.handedOn c.tree i.visibility)
      (.glob source) slot
    by_cases htakes : slot = ⟨i.module, name, ns⟩ ∧ c.Takes ⟨i.module, name, ns⟩ (.glob source)
    · obtain ⟨rfl, htakes⟩ := htakes
      rw [if_pos ⟨rfl, htakes⟩] at hbinding hmark
      cases owner with
      | some b₀ => exact absurd htakes (hr.not_takes _)
      | none =>
        unfold Ruled
        rw [hbinding, hmark]
        exact ⟨fun _ => rfl, fun _ => rfl⟩
    · rw [if_neg htakes] at hbinding hmark
      exact hr.congr hbinding hmark

/-- What one change does to the owner of a slot. -/
theorem Change.ruled {x : SettledImport} (hx : x.declaration ∈ imports) {meaning : Meaning}
    (hm : x.status.meaning? = some meaning) (hc : Coherent imports c)
    (h : Change imports x.declaration meaning c c')
    (hr : Ruled owner c slot ∨ Ruled (owner.or (x.gives c.tree slot)) c slot) :
    Ruled owner c' slot ∨ Ruled (owner.or (x.gives c.tree slot)) c' slot := by
  cases h with
  | copied h => exact hr.imp (h.ruled hc) (h.ruled hc)
  | @bound hk name hn ns b hb =>
    have hmem : (⟨x.declaration.module, name, ns⟩ : Slot).module.index < c.map.scopes.size :=
      hc.mem_scopes hx
    have hbinding := c.binding?_place hmem (b.handedOn c.tree x.declaration.visibility) .named slot
    have hmark := c.source?_place ⟨x.declaration.module, name, ns⟩
      (b.handedOn c.tree x.declaration.visibility) .named slot
    by_cases hslot : slot = ⟨x.declaration.module, name, ns⟩
    · subst hslot
      have hgives : x.gives c.tree ⟨x.declaration.module, name, ns⟩
          = some (b.handedOn c.tree x.declaration.visibility) :=
        SettledImport.gives_eq_some_iff.2 ⟨hk, rfl, hn, meaning, b, hm, hb, rfl⟩
      rw [hgives] at hr ⊢
      have htake : ∀ owner, Ruled owner c ⟨x.declaration.module, name, ns⟩ →
          Ruled (owner.or (some (b.handedOn c.tree x.declaration.visibility)))
            (c.place ⟨x.declaration.module, name, ns⟩
              (b.handedOn c.tree x.declaration.visibility) .named).1
            ⟨x.declaration.module, name, ns⟩ := by
        intro owner hr
        refine hr.take_named _ ?_ ?_
        · simpa using hbinding
        · simpa [Origin.source?] using hmark
      right
      rcases hr with hr | hr
      · exact htake owner hr
      · -- The import has the slot already, and what it has comes to it once more.
        have hagain := htake _ hr
        rwa [Option.or_assoc, Option.some_or] at hagain
    · rw [if_neg fun h => hslot h.1] at hbinding hmark
      exact hr.imp (fun h => h.congr hbinding hmark) fun h => h.congr hbinding hmark
  | opened hk =>
    have halike := Alike.openCrate c x.declaration.name meaning
    exact hr.imp (fun h => h.alike (halike _)) fun h => h.alike (halike _)
  | linked hk source =>
    have halike := Alike.addEdge c source
      { importer := x.declaration.module, visibility := x.declaration.visibility }
    exact hr.imp (fun h => h.alike halike) fun h => h.alike halike

/-! ### Imports -/

/-- An import that has something for a slot binds it, unless the slot has an owner. -/
theorem bindName_ruled {limit : Nat} {x : SettledImport} (hx : x.declaration ∈ imports)
    {meaning : Meaning} (hc : Coherent imports c) {b : Binding}
    (hname : x.declaration.name = some slot.name) (hmodule : x.declaration.module = slot.module)
    (hb : meaning.get slot.space = some b) (hr : Ruled owner c slot)
    (h : c.bindName limit x.declaration meaning = .ok c') :
    Ruled (owner.or (some (b.handedOn c.tree x.declaration.visibility))) c' slot := by
  have hm := mem_scopes_tellBinding hc hx slot.name
  have hnd := nodup_named slot.name (meaning.handedOn c.tree x.declaration.visibility)
  have hbrings : Brings x.declaration.module
      [(slot.name, meaning.handedOn c.tree x.declaration.visibility)] slot
      (b.handedOn c.tree x.declaration.visibility) :=
    brings_named.2 ⟨by rw [hmodule], b, hb, rfl⟩
  have htold : Ruled owner (c.tellBinding x.declaration slot.name) slot :=
    hr.alike (Alike.told c _)
  have hmerged := htold.take_named (some (b.handedOn c.tree x.declaration.visibility))
    ((binding?_mergeAll hm hnd .named hbrings).trans (by simp))
    ((source?_mergeAll hm hnd .named hbrings).trans (by simp [Origin.source?]))
  rw [bindName_eq limit hname] at h
  split at h
  · cases h
    exact hmerged
  · obtain ⟨d, hwalk, hend⟩ := handOn_naming_walk hc hx slot.name meaning limit
    obtain rfl := hend c' h
    exact (hwalk.invariant (P := fun a => Coherent imports a ∧ Ruled _ a slot)
      (fun a b hab ha => ⟨hab.coherent ha.1, hab.ruled ha.1 ha.2⟩)
      ⟨coherent_naming hc hx slot.name meaning, hmerged⟩).2.2

/-- Carrying an import out gives the slots that have no owner what the import has for them. -/
theorem carryOut_ruled {limit : Nat} {x : SettledImport} (hx : x.declaration ∈ imports)
    {meaning : Meaning} (hm : x.status.meaning? = some meaning) (hc : Coherent imports c)
    (hr : Ruled owner c slot) (h : c.carryOut limit x.declaration meaning = .ok c') :
    Ruled (owner.or (x.gives c.tree slot)) c' slot := by
  cases hgives : x.gives c.tree slot with
  | none =>
    obtain ⟨d, hwalk, hend⟩ := carryOut_walk limit meaning hc hx
    obtain rfl := hend c' h
    -- Where the import has nothing, no change gives the slot an owner.
    have hkeep : ∀ a b, (Coherent imports a ∧ a.tree = c.tree ∧ Ruled owner a slot) →
        Change imports x.declaration meaning a b →
        Coherent imports b ∧ b.tree = c.tree ∧ Ruled owner b slot := by
      rintro a b ⟨ha, htree, hra⟩ hab
      refine ⟨hab.coherent hx ha, (hab.later hx ha).tree.trans htree, ?_⟩
      have hrb := hab.ruled hx hm ha (Or.inl hra)
      rw [htree, hgives, Option.or_none, or_self] at hrb
      exact hrb
    have hend := (hwalk.invariant (fun a b hab ha => hkeep a b ha hab) ⟨hc, rfl, hr⟩).2
    rw [Option.or_none]
    exact hend.2.2
  | some given =>
    obtain ⟨hk, hmodule, hname, meaning', b, hm', hb, rfl⟩ :=
      SettledImport.gives_eq_some_iff.1 hgives
    obtain rfl := Option.some.inj (hm.symm.trans hm')
    obtain ⟨d, hcd, halike, hbound⟩ := bindName_of_carryOut hc hx hk h
    have hnamed := bindName_ruled hx hcd hname hmodule hb (hr.alike halike) hbound
    rwa [halike.tree] at hnamed

/-! ### Courses -/

/-- The owner of a slot, given the map of the outline and the imports that count. -/
def owner? (outline : CrateMap) (recorded : List SettledImport) (t : ModuleTree) (slot : Slot) :
    Option Binding :=
  (outline.binding? slot).or (recorded.findSome? (·.gives t slot))

/-- One more import gives a slot an owner if it has none. -/
theorem owner?_append (outline : CrateMap) (recorded : List SettledImport) (t : ModuleTree)
    (slot : Slot) (x : SettledImport) :
    owner? outline (recorded ++ [x]) t slot
      = (owner? outline recorded t slot).or (x.gives t slot) := by
  unfold owner?
  rw [List.findSome?_append, Option.or_assoc]
  simp

theorem precedence_of_ruled {outline : CrateMap} {recorded : List SettledImport}
    (h : Ruled (owner? outline recorded c.tree slot) c slot) :
    Precedence outline recorded c slot where
  declared b hb := by
    rw [owner?, hb, Option.some_or] at h
    exact h.1
  imported hnone b hb := by
    rw [owner?, hnone, Option.none_or, hb] at h
    exact h
  globbed hnone hnone' := by
    rw [owner?, hnone, Option.none_or, hnone'] at h
    exact h

namespace Course

variable {limit : Nat} {start : Collection} {past : List Collection} {hand : Option SettledImport}

/-- Between two imports every slot is ruled by the outline and the imports that were recorded. -/
theorem ruled {id : CrateId} (hopened : Opened id imports start)
    (h : Course limit imports start past none c) (slot : Slot) :
    Ruled (owner? start.map c.settled c.tree slot) c slot := by
  refine h.invariant_between (P := fun c => Ruled (owner? start.map c.settled c.tree slot) c slot)
    hopened.coherent ?_ ?_ ?_ ?_ rfl
  · rw [owner?, hopened.settled, List.findSome?_nil, Option.or_none]
    unfold Ruled
    split
    · next b hb => exact ⟨hb, by rw [hopened.globSources]; rfl⟩
    · next hb => simp [hb, hopened.globSources]
  · exact fun c log hr => hr.alike (Alike.told c log)
  · intro c i hc hi meaning hm d hd hr
    have hlater := (carryOut_keeps hc hi hd).2
    have hruled := carryOut_ruled (x := ⟨i, c.status i⟩) hi hm hc hr hd
    rw [← owner?_append] at hruled
    change Ruled (owner? start.map (d.settled ++ [⟨i, c.status i⟩]) d.tree slot) _ slot
    rw [hlater.settled, hlater.tree]
    exact hruled.alike (Alike.settled d _)
  · exact fun c i hr => hr.alike (Alike.giveUp c i)

/-- While an import is in hand every slot is ruled as before it or as after it. -/
theorem ruled_within {id : CrateId} (hopened : Opened id imports start) {x : SettledImport}
    (h : Course limit imports start past (some x) c) (slot : Slot) :
    Ruled (owner? start.map c.settled c.tree slot) c slot ∨
      Ruled (owner? start.map (c.settled ++ [x]) c.tree slot) c slot := by
  generalize hhand : some x = hand at h
  cases h with
  | start => cases hhand
  | told => cases hhand
  | settled => cases hhand
  | givenUp => cases hhand
  | @within past c₀ h i hi meaning hm before now after hs =>
    cases hhand
    have hc := h.coherent hopened.coherent
    obtain ⟨d, hwalk, -⟩ := carryOut_walk limit meaning hc hi
    -- Each change leaves the slot as the record has it, with the import in hand or without.
    have hkeep : ∀ a b, Change imports i meaning a b →
        (Coherent imports a ∧ Later c₀ a ∧
          (Ruled (owner? start.map c₀.settled c₀.tree slot) a slot ∨
            Ruled (owner? start.map (c₀.settled ++ [⟨i, c₀.status i⟩]) c₀.tree slot) a slot)) →
        Coherent imports b ∧ Later c₀ b ∧
          (Ruled (owner? start.map c₀.settled c₀.tree slot) b slot ∨
            Ruled (owner? start.map (c₀.settled ++ [⟨i, c₀.status i⟩]) c₀.tree slot) b slot) := by
      rintro a b hab ⟨ha, hlater, hra⟩
      refine ⟨hab.coherent hi ha, hlater.trans (hab.later hi ha), ?_⟩
      rw [owner?_append, ← hlater.tree] at hra ⊢
      exact hab.ruled (x := ⟨i, c₀.status i⟩) hi hm ha hra
    obtain ⟨-, hlater, hr⟩ := (hwalk.invariant hkeep
      ⟨hc, Later.refl c₀, Or.inl (h.ruled hopened slot)⟩).1 c (by rw [hs]; simp)
    rw [hlater.settled, hlater.tree]
    exact hr

/-- No slot that was ever bound becomes unbound. -/
theorem bound_of_past (hcoherent : Coherent imports start)
    (h : Course limit imports start past hand c) : ∀ c' ∈ past, ∀ t,
      (c'.map.binding? t).isSome → (c.map.binding? t).isSome := by
  intro earlier hearlier t
  exact ((h.keeps hcoherent).2 earlier hearlier).bound t

end Course

end Collection

/-- **Precedence.**  In every state of every course a slot obeys the law of precedence: between two
imports with the imports that were recorded, and while one is in hand with or without that one.
What was bound in an earlier state is still bound. -/
theorem bindings_follow_precedence {g : CrateGraph} {id : CrateId} {crate : CrateSource}
    {finished : CrateId → Option CrateMap} {settings : Settings} {start : Collection}
    {imports : List Import}
    (hopen : openBuild g id crate finished settings = .ok (start, imports))
    {limit : Nat} {past : List Collection} {hand : Option SettledImport} {c : Collection}
    (h : Collection.Course limit imports start past hand c) :
    (hand = none → ∀ slot, Precedence start.map c.settled c slot) ∧
    (∀ x, hand = some x → ∀ slot, Precedence start.map c.settled c slot ∨
      Precedence start.map (c.settled ++ [x]) c slot) ∧
    ∀ c' ∈ past, ∀ slot, (c'.map.binding? slot).isSome → (c.map.binding? slot).isSome := by
  have hstart := opened_of_openBuild hopen
  refine ⟨?_, ?_, h.bound_of_past hstart.coherent⟩
  · rintro rfl slot
    exact Collection.precedence_of_ruled (h.ruled hstart slot)
  · rintro x rfl slot
    exact (h.ruled_within hstart slot).imp Collection.precedence_of_ruled
      Collection.precedence_of_ruled

/-- A glob has filled a slot of the small crate, and a named import another. -/
theorem bindings_follow_precedence_mirrors : ∃ start imports past c,
    openBuild mirrorsGraph ⟨0⟩ mirrors (fun _ => none) {} = .ok (start, imports) ∧
    Collection.Course 3 imports start past none c ∧
    (c.globSources.get? ⟨⟨2⟩, "S", .types⟩).isSome ∧
    (c.map.binding? ⟨.root, "S", .types⟩).isSome ∧
    ∀ slot, Precedence start.map c.settled c slot := by
  have hrun : (openBuild mirrorsGraph ⟨0⟩ mirrors (fun _ => none) {} >>= fun r =>
      (Collection.run 3 (fun _ => false) r.2 r.1)).map (fun outcome =>
        ((outcome.collection.globSources.get? ⟨⟨2⟩, "S", .types⟩).isSome,
          (outcome.collection.map.binding? ⟨.root, "S", .types⟩).isSome)) = .ok (true, true) := by
    cbv
  obtain ⟨outcome, hcollect, hbound⟩ := ok_of_map hrun
  obtain ⟨⟨start, imports⟩, hopen, hcollect⟩ := ok_of_bind hcollect
  obtain ⟨hglob, hnamed⟩ := Prod.mk.inj hbound
  obtain ⟨past, hcourse⟩ := Collection.Course.of_run (fun i hi => hi) hcollect
  exact ⟨start, imports, past, outcome.collection, hopen, hcourse, hglob, hnamed,
    (bindings_follow_precedence hopen hcourse).1 rfl⟩

end CrateScope
