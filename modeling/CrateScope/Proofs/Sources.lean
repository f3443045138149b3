import CrateScope.Proofs.Precedence

/-!
# How long a mark stands

A mark says from which module a glob filled a slot.  Once it is set it names the same module for as
long as it is there.  It goes when an import that names the slot takes it over, and it never comes
back: a slot that is bound without a mark stays without one.

So the marks of one state are those of any earlier one, without some that were removed and with
others on slots that were free then.  Each removal is on record: of the imports that were carried
out since, or are being carried out, one has something for the slot, while none had as long as the
mark stood.

## Main definitions

* `Collection.Fades` — what becomes of the marks from one state to a later one.

## Main results

* `Collection.Provenance.nodup_of_isChain` — following marks leads to new modules only.
* `Collection.Course.fades` — the marks of an earlier state are still there or gone for good.
* `Collection.Course.exists_gives_of_unmarked` — a slot that lost its mark was taken over.
* `glob_sources_are_well_founded` — what marks refer to, where they lead and how long they stand, in
  every state of every course.
-/

namespace CrateScope

namespace Collection

open Relation

variable {imports : List Import} {c c' : Collection}

/-- Whoever follows the marks of a name comes to new modules only. -/
theorem Provenance.nodup_of_isChain (h : Provenance c) {name : Name} {ns : Namespace}
    {modules : List LocalId} (hchain : modules.IsChain (c.ReadsFrom name ns)) :
    modules.Nodup := by
  have htrans : modules.IsChain (TransGen (c.ReadsFrom name ns)) :=
    hchain.imp fun _ _ hab => .single hab
  rw [List.isChain_iff_pairwise] at htrans
  refine htrans.imp ?_
  rintro a b hab rfl
  exact h.acyclic name ns a hab

/-! ### Marks from state to state -/

/-- From one state to a later one bound slots stay bound, and keep the marks that they have or lose
them.  Imports that were recorded stay on record. -/
structure Fades (c c' : Collection) : Prop where
  recorded : c.settled <+: c'.settled
  bound : ∀ slot, (c.map.binding? slot).isSome → (c'.map.binding? slot).isSome
  mark : ∀ slot, (c.map.binding? slot).isSome →
    c'.globSources.get? slot = c.globSources.get? slot ∨ c'.globSources.get? slot = none

namespace Fades

theorem refl (c : Collection) : Fades c c :=
  ⟨List.prefix_rfl, fun _ h => h, fun _ _ => Or.inl rfl⟩

theorem trans {c'' : Collection} (h : Fades c c') (h' : Fades c' c'') : Fades c c'' where
  recorded := h.recorded.trans h'.recorded
  bound slot hb := h'.bound slot (h.bound slot hb)
  mark slot hb := by
    rcases h'.mark slot (h.bound slot hb) with hmark | hmark
    · rw [hmark]
      exact h.mark slot hb
    · exact Or.inr hmark

theorem of_alike (h : Alike c c') (hrecorded : c.settled <+: c'.settled) : Fades c c' where
  recorded := hrecorded
  bound slot hb := by rwa [h.binding?]
  mark slot _ := Or.inl (h.source? slot)

/-- A named import leaves no mark on the slot that it takes. -/
theorem place_named {slot : Slot} (hr : slot.module.index < c.map.scopes.size) (new : Binding) :
    Fades c (c.place slot new .named).1 := by
  refine ⟨?_, fun t => isSome_place hr new .named, fun t _ => ?_⟩
  · rewrite [(c.frame_place slot new .named).settled]
    exact List.prefix_rfl
  · rw [c.source?_place]
    split
    · exact Or.inr rfl
    · exact Or.inl rfl

end Fades

theorem Change.fades {i : Import} (hi : i ∈ imports) {meaning : Meaning} (hc : Coherent imports c)
    (h : Change imports i meaning c c') : Fades c c' := by
  have hlater := h.later hi hc
  have hrecorded : c.settled <+: c'.settled := by
    rewrite [hlater.settled]
    exact List.prefix_rfl
  cases h with
  | copied h =>
    have hgrows := h.grows hc
    exact ⟨hrecorded, hgrows.bound, fun slot hb => Or.inl (hgrows.mark slot hb)⟩
  | bound hk hn hb => exact .place_named (hc.mem_scopes hi) _
  | opened hk hroot => exact .of_alike (Alike.openCrate c _ _ _) hrecorded
  | linked hk source path hlocated => exact .of_alike (Alike.addEdge c _ _) hrecorded

theorem Move.fades (hc : Coherent imports c) (h : Move imports c c') : Fades c c' := by
  cases h with
  | told log => exact .of_alike (Alike.told c log) List.prefix_rfl
  | changed hi h => exact h.fades hi hc
  | recorded x => exact .of_alike (Alike.settled c _) (List.prefix_append _ _)
  | givenUp i => exact .of_alike (Alike.giveUp c i) List.prefix_rfl

/-! ### Marks and owners -/

theorem Ruled.eq_none_of_marked {owner : Option Binding} {slot : Slot} {source : ModuleId}
    (h : Ruled owner c slot) (hmark : c.globSources.get? slot = some source) : owner = none := by
  cases owner with
  | none => rfl
  | some b =>
    have hnone := h.2
    rw [hmark] at hnone
    cases hnone

theorem Ruled.isSome_of_unmarked {owner : Option Binding} {slot : Slot} (h : Ruled owner c slot)
    (hbound : (c.map.binding? slot).isSome) (hmark : c.globSources.get? slot = none) :
    owner.isSome := by
  cases owner with
  | some b => rfl
  | none =>
    have hsome := h.1 hbound
    rw [hmark] at hsome
    cases hsome

namespace Course

variable {limit : Nat} {start : Collection} {past : List Collection} {hand : Option SettledImport}

/-- Each earlier state of a course is one to which a course leads. -/
theorem of_mem_past (h : Course limit imports start past hand c) {earlier : Collection}
    (hearlier : earlier ∈ past) :
    ∃ past' hand', Course limit imports start past' hand' earlier := by
  induction h with
  | start => cases hearlier
  | told h log ih =>
    rcases List.mem_append.1 hearlier with hearlier | hearlier
    · exact ih hearlier
    · obtain rfl := List.mem_singleton.1 hearlier
      exact ⟨_, _, h⟩
  | within h hi hm hs ih =>
    rcases List.mem_append.1 hearlier with hearlier | hearlier
    · exact ih hearlier
    · rcases List.mem_cons.1 hearlier with rfl | hearlier
      · exact ⟨_, _, h⟩
      · -- The import that is in hand came through this state before.
        obtain ⟨before, after, rfl⟩ := List.append_of_mem hearlier
        rw [List.append_assoc] at hs
        exact ⟨_, _, h.within hi hm hs⟩
  | settled h hi hm hok ih =>
    rcases List.mem_append.1 hearlier with hearlier | hearlier
    · exact ih hearlier
    · rcases List.mem_cons.1 hearlier with rfl | hearlier
      · exact ⟨_, _, h⟩
      · obtain ⟨before, after, hs⟩ := List.append_of_mem hearlier
        exact ⟨_, _, h.within hi hm hs⟩
  | givenUp h i ih =>
    rcases List.mem_append.1 hearlier with hearlier | hearlier
    · exact ih hearlier
    · obtain rfl := List.mem_singleton.1 hearlier
      exact ⟨_, _, h⟩

/-- The marks of an earlier state are those of a later one, or they are gone. -/
theorem fades (hcoherent : Coherent imports start) (h : Course limit imports start past hand c) :
    ∀ earlier ∈ past, Fades earlier c :=
  (h.related Fades.refl (fun _ _ _ hab hbd => hab.trans hbd) (fun _ _ ha hab => hab.fades ha)
    hcoherent).2

variable {id : CrateId} (hopened : Opened id imports start)
  (h : Course limit imports start past hand c)

include hopened h

/-- Every slot is ruled by the imports that were recorded, with the one in hand or without it. -/
theorem ruled_by_hand (slot : Slot) : Ruled (owner? start.map c.settled c.tree slot) c slot ∨
    Ruled (owner? start.map (c.settled ++ hand.toList) c.tree slot) c slot := by
  cases hand with
  | none => exact Or.inl (h.ruled hopened slot)
  | some x => exact h.ruled_within hopened slot

/-- As long as a slot is marked, neither a declaration nor an import has anything for it. -/
theorem gives_eq_none_of_marked {slot : Slot} {source : ModuleId}
    (hmark : c.globSources.get? slot = some source) :
    start.map.binding? slot = none ∧ ∀ x ∈ c.settled, x.gives c.tree slot = none := by
  have howner : owner? start.map c.settled c.tree slot = none := by
    rcases h.ruled_by_hand hopened slot with hruled | hruled
    · exact hruled.eq_none_of_marked hmark
    · have hnone := hruled.eq_none_of_marked hmark
      unfold owner? at hnone ⊢
      rw [List.findSome?_append, Option.or_eq_none_iff, Option.or_eq_none_iff] at hnone
      rw [hnone.1, hnone.2.1]
      rfl
  unfold owner? at howner
  rw [Option.or_eq_none_iff, List.findSome?_eq_none_iff] at howner
  exact howner

/-- A slot that is bound without a mark, and not by a declaration, is bound by an import that was
recorded or is in hand. -/
theorem exists_gives_of_unmarked {slot : Slot} (hbound : (c.map.binding? slot).isSome)
    (hmark : c.globSources.get? slot = none) (hnone : start.map.binding? slot = none) :
    ∃ x ∈ c.settled ++ hand.toList, (x.gives c.tree slot).isSome := by
  have howner : (owner? start.map (c.settled ++ hand.toList) c.tree slot).isSome := by
    rcases h.ruled_by_hand hopened slot with hruled | hruled
    · have hsome := hruled.isSome_of_unmarked hbound hmark
      unfold owner? at hsome ⊢
      rw [hnone, Option.none_or] at hsome ⊢
      rw [List.findSome?_append, Option.isSome_or, hsome]
      rfl
    · exact hruled.isSome_of_unmarked hbound hmark
  unfold owner? at howner
  rw [hnone, Option.none_or, List.findSome?_isSome_iff] at howner
  exact howner

/-- A mark stands until an import takes its slot over. -/
theorem mark_of_past {earlier : Collection} (hearlier : earlier ∈ past) {slot : Slot}
    {source : ModuleId} (hmark : earlier.globSources.get? slot = some source) :
    (c.globSources.get? slot = some source ∧ ∀ x ∈ c.settled, x.gives c.tree slot = none) ∨
      (c.globSources.get? slot = none ∧
        ∃ x ∈ c.settled.drop earlier.settled.length ++ hand.toList,
          (x.gives c.tree slot).isSome) := by
  obtain ⟨past', hand', h'⟩ := h.of_mem_past hearlier
  have hfades := h.fades hopened.coherent earlier hearlier
  have hbound := (h'.coherent hopened.coherent).bound slot source hmark
  have htree : c.tree = earlier.tree := ((h.keeps hopened.coherent).2 earlier hearlier).tree
  obtain ⟨hnone, hgives⟩ := h'.gives_eq_none_of_marked hopened hmark
  rcases hfades.mark slot hbound with hsame | hgone
  · rw [hmark] at hsame
    exact Or.inl ⟨hsame, (h.gives_eq_none_of_marked hopened hsame).2⟩
  · refine Or.inr ⟨hgone, ?_⟩
    have hbound' := hfades.bound slot hbound
    obtain ⟨x, hx, hsome⟩ := h.exists_gives_of_unmarked hopened hbound' hgone hnone
    obtain ⟨since, hsince⟩ := hfades.recorded
    rw [← hsince, List.append_assoc] at hx
    rcases List.mem_append.1 hx with hx | hx
    · -- Those that were on record when the slot was marked have nothing for it.
      rw [htree, hgives x hx] at hsome
      cases hsome
    · refine ⟨x, ?_, hsome⟩
      rw [← hsince, List.drop_left]
      exact hx

end Course

end Collection

/-- **The sources of globs are well-founded.**  In every state of every course a mark that refers to
a module of the crate refers to a slot that is bound, and following the marks of a name never comes
to a module twice.  A mark of an earlier state is still there, with the same source, and no import
that was carried out has anything for its slot; or it was removed, and one that was carried out
since, or is being carried out, has.  A slot that was bound without a mark has none. -/
theorem glob_sources_are_well_founded {g : CrateGraph} {id : CrateId} {crate : CrateSource}
    {finished : CrateId → Option CrateMap} {settings : Settings} {start : Collection}
    {imports : List Import}
    (hopen : openBuild g id crate finished settings = .ok (start, imports))
    {limit : Nat} {past : List Collection} {hand : Option SettledImport} {c : Collection}
    (h : Collection.Course limit imports start past hand c) :
    (∀ name ns m s, c.globSources.get? ⟨m, name, ns⟩ = some (c.tree.global s) →
      (c.map.binding? ⟨s, name, ns⟩).isSome) ∧
    (∀ name ns (modules : List LocalId), modules.IsChain (c.ReadsFrom name ns) → modules.Nodup) ∧
    (∀ earlier ∈ past, ∀ slot source, earlier.globSources.get? slot = some source →
      (c.globSources.get? slot = some source ∧ ∀ x ∈ c.settled, x.gives c.tree slot = none) ∨
      (c.globSources.get? slot = none ∧
        ∃ x ∈ c.settled.drop earlier.settled.length ++ hand.toList,
          (x.gives c.tree slot).isSome)) ∧
    ∀ earlier ∈ past, ∀ slot, (earlier.map.binding? slot).isSome →
      earlier.globSources.get? slot = none → c.globSources.get? slot = none := by
  have hopened := opened_of_openBuild hopen
  have hcoherent := h.coherent hopened.coherent
  refine ⟨fun name ns m s => hcoherent.source_bound name ns m s,
    fun name ns modules => hcoherent.nodup_of_isChain,
    fun earlier hearlier slot source => h.mark_of_past hopened hearlier, ?_⟩
  intro earlier hearlier slot hbound hmark
  rcases (h.fades hopened.coherent earlier hearlier).mark slot hbound with hsame | hnone
  · rw [hsame]
    exact hmark
  · exact hnone

/-- A crate in which a name comes to `m` along two globs, and also by an import that names it. -/
def overtaken : CrateSource where
  name := "overtaken"
  root :=
    { items := [
        { name := some "a", kind := .module
            { items := [{ name := some "S", visibility := .pub, kind := .struct .record }] } },
        { name := some "b", kind := .module
            { uses := [{ path := "crate::a::*", visibility := .pub }] } },
        { name := some "m", kind := .module
            { uses := [{ path := "crate::b::*" }, { path := "crate::d::S" }] } },
        { name := some "d", kind := .module
            { items := [{ name := some "S", visibility := .pub, kind := .struct .record }] } }] }

/-- The graph that has only this crate. -/
def overtakenGraph : CrateGraph := ⟨[overtaken], List.nodup_singleton _⟩

/-- The marks lead from `m` over `b` to `a`, and then the import takes the slot in `m` over. -/
theorem glob_sources_are_well_founded_overtaken : ∃ start imports past earlier c,
    openBuild overtakenGraph ⟨0⟩ overtaken (fun _ => none) {} = .ok (start, imports) ∧
    Collection.Course 3 imports start past none c ∧ earlier ∈ past ∧
    earlier.ReadsFrom "S" .types ⟨3⟩ ⟨2⟩ ∧ earlier.ReadsFrom "S" .types ⟨2⟩ ⟨1⟩ ∧
    c.globSources.get? ⟨⟨3⟩, "S", .types⟩ = none ∧
    ∃ x ∈ c.settled.drop earlier.settled.length,
      (x.gives c.tree ⟨⟨3⟩, "S", .types⟩).isSome := by
  have hrun : (do
      let opened ← (openBuild overtakenGraph ⟨0⟩ overtaken (fun _ => none) {}).toOption
      let first ← opened.2[0]?
      let second ← opened.2[1]?
      let named ← opened.2[2]?
      let meaning₁ ← (opened.1.status first).meaning?
      let c₁ ← (opened.1.settleOne 3 first (opened.1.status first) meaning₁).toOption
      let meaning₂ ← (c₁.status second).meaning?
      let c₂ ← (c₁.settleOne 3 second (c₁.status second) meaning₂).toOption
      let meaning₃ ← (c₂.status named).meaning?
      let c₃ ← (c₂.settleOne 3 named (c₂.status named) meaning₃).toOption
      return (decide (c₂.globSources.get? ⟨⟨3⟩, "S", .types⟩ = some (c₂.tree.global ⟨2⟩)),
        decide (c₂.globSources.get? ⟨⟨2⟩, "S", .types⟩ = some (c₂.tree.global ⟨1⟩)),
        c₃.globSources.get? ⟨⟨3⟩, "S", .types⟩)) = some (true, true, none) := by
    cbv
  simp only [Option.bind_eq_bind, Option.bind_eq_some_iff] at hrun
  obtain ⟨⟨start, imports⟩, hopen, first, hfirst, second, hsecond, named, hnamed, meaning₁, hm₁, c₁,
    hc₁, meaning₂, hm₂, c₂, hc₂, meaning₃, hm₃, c₃, hc₃, hmarks⟩ := hrun
  obtain ⟨hmark, hmarks⟩ := Prod.mk.inj (Option.some.inj hmarks)
  obtain ⟨hmark', hgone⟩ := Prod.mk.inj hmarks
  have hmark := of_decide_eq_true hmark
  have hmark' := of_decide_eq_true hmark'
  have hopen := ok_of_toOption hopen
  have hcourse := ((Collection.Course.start.settled (List.mem_of_getElem? hfirst) hm₁
    (ok_of_toOption hc₁)).settled (List.mem_of_getElem? hsecond) hm₂ (ok_of_toOption hc₂)).settled
      (List.mem_of_getElem? hnamed) hm₃ (ok_of_toOption hc₃)
  have hpast : c₂ ∈ [] ++ start :: start.carryOutStates 3 first meaning₁ ++
      c₁ :: c₁.carryOutStates 3 second meaning₂ ++ c₂ :: c₂.carryOutStates 3 named meaning₃ := by
    simp
  obtain ⟨-, -, hstands, -⟩ := glob_sources_are_well_founded hopen hcourse
  refine ⟨start, imports, _, c₂, c₃, hopen, hcourse, hpast, hmark, hmark', hgone, ?_⟩
  rcases hstands c₂ hpast _ _ hmark with ⟨hstill, -⟩ | ⟨-, x, hx, hgives⟩
  · rw [hgone] at hstill
    cases hstill
  · exact ⟨x, by simpa using hx, hgives⟩

end CrateScope
