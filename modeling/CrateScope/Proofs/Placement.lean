import CrateScope.Collection
import Mathlib.Data.List.Nodup

/-!
# What a binding does to a slot

Everything that the collection of imports writes to the scopes of a crate, it writes by
`Collection.place`.  This file says once what that does to the bindings and to the marks; afterwards
neither the verdicts nor the records have to be looked at again.

A binding is *taken* by a slot when the slot has none, when a named import takes a slot over from a
glob, and when a glob brings news to a slot of its own.  A slot that takes a binding holds it and is
marked with the glob it came from, if any; a slot that does not take it keeps both its binding and
its mark.

## Main definitions

* `Collection.Takes` — whether a slot takes what comes to it.
* `Collection.placements`, `Collection.placeAll` — some meanings, binding by binding.
* `Collection.fresh` — the part of a meaning that changes a name.

## Main results

* `Collection.binding?_place`, `Collection.source?_place` — one binding.
* `Collection.binding?_mergeAll`, `Collection.source?_mergeAll` — meanings of distinct names.
* `Collection.brings_mergeAll_snd` — what is reported as changed.
-/

namespace CrateScope

namespace CrateMap

/-! ### Binding a slot -/

@[simp] theorem size_scopes_bind (map : CrateMap) (slot : Slot) (b : Binding) :
    (map.bind slot b).scopes.size = map.scopes.size := by
  simp [bind]

theorem scope_bind (map : CrateMap) {slot : Slot} (h : slot.module.index < map.scopes.size)
    (b : Binding) (m : LocalId) :
    (map.bind slot b).scope m
      = if m = slot.module then
          (map.scope slot.module).insert slot.name
            ((map.meaning slot.module slot.name).set slot.space (some b))
        else map.scope m := by
  unfold scope bind meaning
  simp only [Array.getD_eq_getD_getElem?, Array.getElem?_modify]
  by_cases hm : m = slot.module
  · subst hm
    simp [h, scope]
  · have hne : slot.module.index ≠ m.index := by
      intro e
      apply hm
      cases m
      cases hs : slot.module
      rw [hs] at e
      exact congrArg LocalId.mk e.symm
    simp [hm, hne]

theorem binding?_bind (map : CrateMap) {slot : Slot} (h : slot.module.index < map.scopes.size)
    (b : Binding) (t : Slot) :
    (map.bind slot b).binding? t = if t = slot then some b else map.binding? t := by
  obtain ⟨m, name, space⟩ := t
  obtain ⟨m', name', space'⟩ := slot
  unfold binding? meaning Scope.meaning
  rw [scope_bind map h]
  by_cases hm : m = m'
  · subst hm
    rw [if_pos rfl, Listing.get?_insert]
    by_cases hn : name = name'
    · subst hn
      simp [meaning, Scope.meaning]
    · simp [hn]
  · simp [hm]

/-- What is bound is bound in a module that is in the map. -/
theorem lt_size_of_binding? {map : CrateMap} {slot : Slot} {b : Binding}
    (h : map.binding? slot = some b) : slot.module.index < map.scopes.size := by
  by_contra hle
  have hnone : map.binding? slot = none := by
    simp [binding?, meaning, scope, Scope.meaning, Array.getD_eq_getD_getElem?,
      Array.getElem?_eq_none (Nat.le_of_not_lt hle)]
  rw [hnone] at h
  cases h

end CrateMap

/-- The module that a slot is marked with after it took a binding. -/
def Origin.source? : Origin → Option ModuleId
  | .named => none
  | .glob source => some source

namespace Collection

variable (c : Collection)

/-! ### One binding -/

/-- Whether a slot takes what comes to it from an origin. -/
def Takes (slot : Slot) (origin : Origin) : Prop :=
  c.map.binding? slot = none ∨
    match origin with
    | .named => (c.globSources.get? slot).isSome
    | .glob source => c.globSources.get? slot = some source

instance (slot : Slot) : (origin : Origin) → Decidable (c.Takes slot origin)
  | .named => inferInstanceAs (Decidable (_ ∨ (_ : Bool) = true))
  | .glob _ => inferInstanceAs (Decidable (_ ∨ _ = _))

theorem judgeBinding_eq_replace_iff (slot : Slot) (new : Binding) (origin : Origin) :
    judgeBinding (c.map.binding? slot) (c.globSources.get? slot) origin new = .replace
      ↔ c.Takes slot origin ∧ c.map.binding? slot ≠ some new := by
  unfold Takes judgeBinding
  cases c.map.binding? slot with
  | none => simp
  | some old =>
    cases c.globSources.get? slot <;> cases origin <;> simp
    split <;> simp

/-- What placing a binding leaves alone, and the two things it changes. -/
theorem place_fst (slot : Slot) (new : Binding) (origin : Origin) :
    ∃ diagnostics log, (c.place slot new origin).1 =
      let verdict := judgeBinding (c.map.binding? slot) (c.globSources.get? slot) origin new
      let map := if verdict = .replace then c.map.bind slot new else c.map
      { c with
        view := { c.view with own := { map with diagnostics } }
        globSources := markAfter c.globSources slot origin verdict
        log } := by
  unfold place
  simp only
  split
  · next h => exact ⟨c.map.diagnostics, c.log, by rw [h]; rfl⟩
  · next h _ =>
    rw [h]
    unfold reportClash
    simp only
    split
    · exact ⟨c.map.diagnostics, _, rfl⟩
    · exact ⟨_, _, rfl⟩
  · next h _ =>
    refine ⟨c.map.diagnostics, c.log, ?_⟩
    rw [if_neg h]
    rfl

/-- All that no binding changes is the same in two states: placing a binding writes to the scopes,
the marks, the diagnostics and the log only. -/
structure Frame (c c' : Collection) : Prop where
  tree : c'.tree = c.tree
  size : c'.map.scopes.size = c.map.scopes.size
  dependencies : c'.view.dependencies = c.view.dependencies
  externPrelude : c'.map.externPrelude = c.map.externPrelude
  macroPrelude : c'.map.macroPrelude = c.map.macroPrelude
  prelude : c'.map.prelude = c.map.prelude
  globEdges : c'.globEdges = c.globEdges
  directCrates : c'.directCrates = c.directCrates
  settled : c'.settled = c.settled

theorem Frame.refl : Frame c c := ⟨rfl, rfl, rfl, rfl, rfl, rfl, rfl, rfl, rfl⟩

theorem Frame.told (log : Log) : Frame c { c with log } :=
  ⟨rfl, rfl, rfl, rfl, rfl, rfl, rfl, rfl, rfl⟩

variable {c} in
theorem Frame.trans {c' c'' : Collection} (h : Frame c c') (h' : Frame c' c'') : Frame c c'' where
  tree := h'.tree.trans h.tree
  size := h'.size.trans h.size
  dependencies := h'.dependencies.trans h.dependencies
  externPrelude := h'.externPrelude.trans h.externPrelude
  macroPrelude := h'.macroPrelude.trans h.macroPrelude
  prelude := h'.prelude.trans h.prelude
  globEdges := h'.globEdges.trans h.globEdges
  directCrates := h'.directCrates.trans h.directCrates
  settled := h'.settled.trans h.settled

theorem frame_place (slot : Slot) (new : Binding) (origin : Origin) :
    Frame c (c.place slot new origin).1 := by
  obtain ⟨_, _, h⟩ := c.place_fst slot new origin
  rw [h]
  dsimp only
  split <;> exact ⟨rfl, by simp [map], rfl, rfl, rfl, rfl, rfl, rfl, rfl⟩

/-- A slot that takes a binding holds it; every other slot holds what it held. -/
theorem binding?_place {slot : Slot} (h : slot.module.index < c.map.scopes.size) (new : Binding)
    (origin : Origin) (t : Slot) :
    (c.place slot new origin).1.map.binding? t
      = if t = slot ∧ c.Takes slot origin then some new else c.map.binding? t := by
  obtain ⟨diagnostics, log, hp⟩ := c.place_fst slot new origin
  rw [hp]
  change (if _ then c.map.bind slot new else c.map).binding? t = _
  rw [apply_ite (fun map : CrateMap => map.binding? t), CrateMap.binding?_bind c.map h]
  simp only [judgeBinding_eq_replace_iff]
  by_cases ht : t = slot
  · subst ht
    by_cases htakes : c.Takes t origin
    · by_cases hb : c.map.binding? t = some new <;> simp [htakes, hb]
    · simp [htakes]
  · simp [ht]

/-- A slot that takes a binding is marked with its source; every other slot keeps its mark. -/
theorem source?_place (slot : Slot) (new : Binding) (origin : Origin) (t : Slot) :
    (c.place slot new origin).1.globSources.get? t
      = if t = slot ∧ c.Takes slot origin then origin.source? else c.globSources.get? t := by
  obtain ⟨diagnostics, log, hp⟩ := c.place_fst slot new origin
  rw [hp]
  simp only
  by_cases ht : t = slot
  · subst ht
    cases origin with
    | named =>
      simp only [markAfter, GlobSources.get?_erase, Origin.source?, true_and, if_true]
      by_cases htakes : c.Takes t .named
      · rw [if_pos htakes]
      · have hs : ¬ (c.globSources.get? t).isSome := fun hs => htakes (Or.inr hs)
        rw [if_neg htakes]
        exact (Option.not_isSome_iff_eq_none.1 hs).symm
    | glob source =>
      simp only [markAfter, judgeBinding_eq_replace_iff, Origin.source?]
      unfold Takes
      by_cases hb : c.map.binding? t = some new
      · by_cases hs : c.globSources.get? t = some source <;> simp [hb, hs]
      · split <;> simp_all
  · cases origin with
    | named => simp [markAfter, ht]
    | glob source =>
      simp only [markAfter]
      split <;> simp [ht]

/-- A slot is reported as changed when it takes a binding that it does not hold already. -/
theorem place_snd (slot : Slot) (new : Binding) (origin : Origin) :
    (c.place slot new origin).2
      = decide (c.Takes slot origin ∧ c.map.binding? slot ≠ some new) := by
  rw [Bool.eq_iff_iff, decide_eq_true_iff, ← judgeBinding_eq_replace_iff]
  unfold place
  simp only
  split <;> simp_all

/-! ### Many bindings -/

/-- The bindings of some meanings, each with the slot of the module `m` that it comes to. -/
def placements (m : LocalId) (news : List (Name × Meaning)) : List (Slot × Binding) :=
  news.flatMap fun entry => entry.2.toList.map fun b => (⟨m, entry.1, b.1⟩, b.2)

/-- Some bindings come to their slots, one after the other. -/
def placeAll (origin : Origin) (c : Collection) (bindings : List (Slot × Binding)) : Collection :=
  bindings.foldl (fun c p => (c.place p.1 p.2 origin).1) c

/-- Some meanings bring a binding to a slot of the module `m`. -/
def Brings (m : LocalId) (news : List (Name × Meaning)) (slot : Slot) (b : Binding) : Prop :=
  slot.module = m ∧ ∃ meaning, (slot.name, meaning) ∈ news ∧ meaning.get slot.space = some b

theorem mem_toList {meaning : Meaning} {space : Namespace} {b : Binding} :
    (space, b) ∈ meaning.toList ↔ meaning.get space = some b := by
  simp [Meaning.toList]

theorem mem_placements {m : LocalId} {news : List (Name × Meaning)} {slot : Slot} {b : Binding} :
    (slot, b) ∈ placements m news ↔ Brings m news slot b := by
  obtain ⟨m', name, space⟩ := slot
  simp only [placements, List.mem_flatMap, List.mem_map, Prod.exists, Prod.mk.injEq, Slot.mk.injEq,
    mem_toList, Brings]
  constructor
  · rintro ⟨_, meaning, hmem, _, _, hget, ⟨rfl, rfl, rfl⟩, rfl⟩
    exact ⟨rfl, meaning, hmem, hget⟩
  · rintro ⟨rfl, meaning, hmem, hget⟩
    exact ⟨name, meaning, hmem, space, b, hget, ⟨rfl, rfl, rfl⟩, rfl⟩

theorem nodup_map_fst_toList (meaning : Meaning) : (meaning.toList.map Prod.fst).Nodup := by
  have h : (meaning.toList.map Prod.fst).Sublist Namespace.all := by
    have : meaning.toList.map Prod.fst
        = Namespace.all.filter fun ns => (meaning.get ns).isSome := by
      simp only [Meaning.toList, List.map_filterMap, Option.map_map]
      rw [← List.filterMap_eq_filter]
      congr 1
      funext ns
      cases h : meaning.get ns <;> simp [Option.guard, h]
    rw [this]
    exact List.filter_sublist
  exact h.nodup (by decide)

theorem nodup_named (name : Name) (meaning : Meaning) : ([(name, meaning)].map Prod.fst).Nodup :=
  List.nodup_singleton name

theorem nodup_map_fst_placements (m : LocalId) {news : List (Name × Meaning)}
    (h : (news.map Prod.fst).Nodup) : ((placements m news).map Prod.fst).Nodup := by
  induction news with
  | nil => simp [placements]
  | cons entry news ih =>
    rw [List.map_cons, List.nodup_cons] at h
    have htail := ih h.2
    rw [show placements m (entry :: news)
      = entry.2.toList.map (fun b => (⟨m, entry.1, b.1⟩, b.2)) ++ placements m news from rfl,
      List.map_append]
    refine List.nodup_append.2 ⟨?_, htail, ?_⟩
    · rw [List.map_map, show (Prod.fst ∘ fun b : Namespace × Binding => ((⟨m, entry.1, b.1⟩ : Slot),
        b.2)) = (fun ns => ⟨m, entry.1, ns⟩) ∘ Prod.fst from rfl, ← List.map_map]
      exact (nodup_map_fst_toList entry.2).map fun _ _ e => (Slot.mk.inj e).2.2
    · intro slot hslot slot' hslot' e
      subst e
      simp only [List.mem_map, Prod.exists, exists_and_right, exists_eq_right] at hslot hslot'
      obtain ⟨b', hb'⟩ := hslot'
      obtain ⟨-, meaning, hmem, -⟩ := mem_placements.1 hb'
      obtain ⟨_, space, b, -, hs⟩ := hslot
      have hname : slot.name = entry.1 := by
        rw [← (Prod.mk.inj hs).1]
      exact h.1 (hname ▸ List.mem_map_of_mem hmem)

variable {c} in
/-- Whether a slot takes a binding depends on what it holds and its mark. -/
theorem takes_congr {c' : Collection} {t : Slot} (hb : c'.map.binding? t = c.map.binding? t)
    (hs : c'.globSources.get? t = c.globSources.get? t) (origin : Origin) :
    c'.Takes t origin ↔ c.Takes t origin := by
  unfold Takes
  rw [hb, hs]

theorem frame_placeAll (origin : Origin) (ps : List (Slot × Binding)) :
    Frame c (placeAll origin c ps) := by
  induction ps generalizing c with
  | nil => exact Frame.refl c
  | cons p ps ih => exact (c.frame_place p.1 p.2 origin).trans (ih _)

theorem lookup_eq_none_of_not_mem {κ α : Type*} [DecidableEq κ] {es : List (κ × α)} {k : κ}
    (h : k ∉ es.map Prod.fst) : es.lookup k = none := by
  rw [List.lookup_eq_none_iff]
  intro p hp
  have hne : k ≠ p.1 := by
    rintro rfl
    exact h (List.mem_map_of_mem hp)
  simpa using hne

/-- Bindings for distinct slots come independently of each other. -/
theorem lookups_placeAll (origin : Origin) {ps : List (Slot × Binding)}
    (hnd : (ps.map Prod.fst).Nodup)
    (hr : ∀ p ∈ ps, p.1.module.index < c.map.scopes.size) (t : Slot) :
    (placeAll origin c ps).map.binding? t
        = (if (ps.lookup t).isSome ∧ c.Takes t origin then ps.lookup t else c.map.binding? t) ∧
      (placeAll origin c ps).globSources.get? t
        = if (ps.lookup t).isSome ∧ c.Takes t origin then origin.source?
          else c.globSources.get? t := by
  induction ps generalizing c with
  | nil => simp [placeAll]
  | cons p ps ih =>
    obtain ⟨slot, b⟩ := p
    obtain ⟨hnotin, hnd⟩ : slot ∉ ps.map Prod.fst ∧ (ps.map Prod.fst).Nodup := by
      rwa [List.map_cons, List.nodup_cons] at hnd
    have hslot : slot.module.index < c.map.scopes.size := hr _ List.mem_cons_self
    have hb := c.binding?_place hslot b origin t
    have hs := c.source?_place slot b origin t
    have hframe := c.frame_place slot b origin
    have hrest : ∀ p ∈ ps, p.1.module.index < (c.place slot b origin).1.map.scopes.size := by
      intro p hp
      rw [hframe.size]
      exact hr p (List.mem_cons_of_mem _ hp)
    obtain ⟨ihb, ihs⟩ := ih (c.place slot b origin).1 hnd hrest
    change (placeAll origin (c.place slot b origin).1 ps).map.binding? t = _ ∧
      (placeAll origin (c.place slot b origin).1 ps).globSources.get? t = _
    rw [ihb, ihs, Listing.lookup_cons_eq]
    by_cases ht : t = slot
    · subst ht
      -- Nothing else comes to this slot later.
      rw [lookup_eq_none_of_not_mem hnotin, hb, hs]
      simp
    · rw [if_neg (fun h => ht h.1)] at hb hs
      simp only [if_neg ht, hb, hs, takes_congr hb hs, and_self]

/-- What comes to one name leaves the slots of the other names as they are. -/
theorem lookups_placeAll_of_ne {m : LocalId} (hm : m.index < c.map.scopes.size)
    {name other : Name} (hne : other ≠ name) (meaning : Meaning) (origin : Origin)
    (ns : Namespace) :
    (placeAll origin c (placements m [(name, meaning)])).map.binding? ⟨m, other, ns⟩
        = c.map.binding? ⟨m, other, ns⟩ ∧
      (placeAll origin c (placements m [(name, meaning)])).globSources.get? ⟨m, other, ns⟩
        = c.globSources.get? ⟨m, other, ns⟩ := by
  have hr : ∀ p ∈ placements m [(name, meaning)], p.1.module.index < c.map.scopes.size := by
    intro p hp
    rw [(mem_placements.1 hp).1]
    exact hm
  have hlookup : (placements m [(name, meaning)]).lookup ⟨m, other, ns⟩ = none := by
    apply lookup_eq_none_of_not_mem
    intro hmem
    obtain ⟨p, hp, heq⟩ := List.mem_map.1 hmem
    obtain ⟨-, _, hmem, -⟩ := mem_placements.1 hp
    have hname : p.1.name = name := (Prod.mk.inj (List.mem_singleton.1 hmem)).1
    rw [heq] at hname
    exact hne hname
  obtain ⟨hb, hs⟩ := c.lookups_placeAll origin
    (nodup_map_fst_placements m (nodup_named name meaning)) hr ⟨m, other, ns⟩
  rw [hb, hs, hlookup]
  simp

/-- The part of a meaning that changes a name of the module `m`. -/
def fresh (m : LocalId) (origin : Origin) (name : Name) (meaning : Meaning) : Meaning :=
  .ofFn fun ns => (meaning.get ns).filter fun b =>
    c.Takes ⟨m, name, ns⟩ origin ∧ c.map.binding? ⟨m, name, ns⟩ ≠ some b

/-- The bindings of one name come to its slots one after the other, and those that change a slot are
collected. -/
theorem merge_aux (m : LocalId) (name : Name) (origin : Origin) {bs : List (Namespace × Binding)}
    (hnd : (bs.map Prod.fst).Nodup) (hm : m.index < c.map.scopes.size) (changed : Meaning) :
    let r := bs.foldl (fun (c, changed) (space, new) =>
      let (c, isNew) := c.place ⟨m, name, space⟩ new origin
      (c, if isNew then changed.set space (some new) else changed)) (c, changed)
    r.1 = placeAll origin c (bs.map fun b => (⟨m, name, b.1⟩, b.2)) ∧
      ∀ ns, r.2.get ns = ((bs.lookup ns).filter fun b =>
        c.Takes ⟨m, name, ns⟩ origin ∧ c.map.binding? ⟨m, name, ns⟩ ≠ some b).or
          (changed.get ns) := by
  induction bs generalizing c changed with
  | nil => exact ⟨rfl, fun ns => by simp⟩
  | cons p bs ih =>
    obtain ⟨space, b⟩ := p
    obtain ⟨hnotin, hnd⟩ : space ∉ bs.map Prod.fst ∧ (bs.map Prod.fst).Nodup := by
      rwa [List.map_cons, List.nodup_cons] at hnd
    have hm' : m.index < (c.place ⟨m, name, space⟩ b origin).1.map.scopes.size := by
      rwa [(c.frame_place _ b origin).size]
    obtain ⟨ih1, ih2⟩ := ih (c.place ⟨m, name, space⟩ b origin).1 hnd hm'
      (if (c.place ⟨m, name, space⟩ b origin).2 then changed.set space (some b) else changed)
    refine ⟨ih1, fun ns => (ih2 ns).trans ?_⟩
    rw [Listing.lookup_cons_eq]
    by_cases hns : ns = space
    · subst hns
      rw [lookup_eq_none_of_not_mem hnotin, if_pos rfl, place_snd]
      by_cases hnew : c.Takes ⟨m, name, ns⟩ origin ∧ c.map.binding? ⟨m, name, ns⟩ ≠ some b <;>
        simp [Option.filter, hnew]
    · -- The other namespaces are judged later as if nothing had come before.
      have hslot : (⟨m, name, ns⟩ : Slot) ≠ ⟨m, name, space⟩ := fun e => hns (Slot.mk.inj e).2.2
      have hb : (c.place ⟨m, name, space⟩ b origin).1.map.binding? ⟨m, name, ns⟩
          = c.map.binding? ⟨m, name, ns⟩ := by
        rw [c.binding?_place hm, if_neg fun h => hslot h.1]
      have hs : (c.place ⟨m, name, space⟩ b origin).1.globSources.get? ⟨m, name, ns⟩
          = c.globSources.get? ⟨m, name, ns⟩ := by
        rw [c.source?_place, if_neg fun h => hslot h.1]
      simp only [if_neg hns, hb, takes_congr hb hs]
      congr 1
      split <;> simp [hns]

theorem lookup_toList (meaning : Meaning) (ns : Namespace) :
    meaning.toList.lookup ns = meaning.get ns := by
  cases h : meaning.get ns with
  | some b => rwa [Listing.lookup_eq_some_iff (nodup_map_fst_toList meaning), mem_toList]
  | none =>
    cases hl : meaning.toList.lookup ns with
    | none => rfl
    | some b =>
      rw [Listing.lookup_eq_some_iff (nodup_map_fst_toList meaning), mem_toList, h] at hl
      cases hl

theorem merge_eq {m : LocalId} (hm : m.index < c.map.scopes.size) (name : Name) (meaning : Meaning)
    (origin : Origin) :
    c.merge m name meaning origin
      = (placeAll origin c (placements m [(name, meaning)]), c.fresh m origin name meaning) := by
  obtain ⟨h1, h2⟩ := c.merge_aux m name origin (nodup_map_fst_toList meaning) hm ∅
  refine Prod.ext ?_ (Meaning.ext fun ns => ?_)
  · exact h1.trans (by simp [placements])
  · refine (h2 ns).trans ?_
    rw [lookup_toList]
    simp [fresh]

/-- Meanings come to distinct names binding by binding, and each name that changes is reported once,
with the part of its meaning that is new. -/
theorem mergeAll_eq {m : LocalId} (hm : m.index < c.map.scopes.size)
    {news : List (Name × Meaning)} (hnd : (news.map Prod.fst).Nodup) (origin : Origin) :
    c.mergeAll m news origin
      = (placeAll origin c (placements m news),
        (news.map fun e => (e.1, c.fresh m origin e.1 e.2)).filter fun e => !e.2.isEmpty) := by
  obtain ⟨step, hstep, hfold⟩ : ∃ step : Collection × List (Name × Meaning) → Name × Meaning →
        Collection × List (Name × Meaning),
      (∀ c' changed name meaning, step (c', changed) (name, meaning)
        = ((c'.merge m name meaning origin).1,
          if (c'.merge m name meaning origin).2.isEmpty then changed
          else changed ++ [(name, (c'.merge m name meaning origin).2)])) ∧
      c.mergeAll m news origin = news.foldl step (c, []) :=
    ⟨_, fun _ _ _ _ => rfl, rfl⟩
  rw [hfold]
  clear hfold
  -- Along the fold the state changes, but not in the names that are still to come.
  have key : ∀ (c' : Collection) (changed : List (Name × Meaning)), Frame c c' →
      (∀ e ∈ news, ∀ ns, c'.map.binding? ⟨m, e.1, ns⟩ = c.map.binding? ⟨m, e.1, ns⟩ ∧
        c'.globSources.get? ⟨m, e.1, ns⟩ = c.globSources.get? ⟨m, e.1, ns⟩) →
      news.foldl step (c', changed)
        = (placeAll origin c' (placements m news),
          changed ++ (news.map fun e => (e.1, c.fresh m origin e.1 e.2)).filter
            fun e => !e.2.isEmpty) := by
    induction news with
    | nil => intro c' changed _ _; simp [placements, placeAll]
    | cons e news ih =>
      intro c' changed hframe hsame
      obtain ⟨name, meaning⟩ := e
      obtain ⟨hnotin, hnd⟩ : name ∉ news.map Prod.fst ∧ (news.map Prod.fst).Nodup := by
        rwa [List.map_cons, List.nodup_cons] at hnd
      have hm' : m.index < c'.map.scopes.size := by rwa [hframe.size]
      have hfresh : c'.fresh m origin name meaning = c.fresh m origin name meaning := by
        refine Meaning.ext fun ns => ?_
        obtain ⟨hb, hs⟩ := hsame _ List.mem_cons_self ns
        simp only [fresh, Meaning.get_ofFn, hb, takes_congr hb hs]
      rw [List.foldl_cons, hstep]
      simp only [c'.merge_eq hm', hfresh]
      rw [ih hnd _ _ (hframe.trans (c'.frame_placeAll origin _)) ?_]
      · refine Prod.ext ?_ ?_
        · simp [placeAll, placements]
        · simp only [List.map_cons, List.filter_cons]
          split <;> simp_all
      · intro e he ns
        have hne : e.1 ≠ name := by
          rintro rfl
          exact hnotin (List.mem_map_of_mem he)
        obtain ⟨hb, hs⟩ := c'.lookups_placeAll_of_ne hm' hne meaning origin ns
        obtain ⟨hb', hs'⟩ := hsame _ (List.mem_cons_of_mem _ he) ns
        exact ⟨hb.trans hb', hs.trans hs'⟩
  simpa using key c [] (Frame.refl c) fun _ _ _ => ⟨rfl, rfl⟩

section MergeAll

variable {c} {m : LocalId} (hm : m.index < c.map.scopes.size) {news : List (Name × Meaning)}
  (hnd : (news.map Prod.fst).Nodup) (origin : Origin)

include hm hnd

theorem frame_mergeAll : Frame c (c.mergeAll m news origin).1 := by
  rw [c.mergeAll_eq hm hnd]
  exact c.frame_placeAll origin _

theorem lookups_mergeAll (t : Slot) :
    (c.mergeAll m news origin).1.map.binding? t
        = (if ((placements m news).lookup t).isSome ∧ c.Takes t origin
            then (placements m news).lookup t else c.map.binding? t) ∧
      (c.mergeAll m news origin).1.globSources.get? t
        = if ((placements m news).lookup t).isSome ∧ c.Takes t origin then origin.source?
          else c.globSources.get? t := by
  rw [c.mergeAll_eq hm hnd]
  refine c.lookups_placeAll origin (nodup_map_fst_placements m hnd) (fun p hp => ?_) t
  rw [(mem_placements.1 hp).1]
  exact hm

/-- What a slot holds after a binding was brought to it. -/
theorem binding?_mergeAll {t : Slot} {b : Binding} (hb : Brings m news t b) :
    (c.mergeAll m news origin).1.map.binding? t
      = if c.Takes t origin then some b else c.map.binding? t := by
  have hl := (Listing.lookup_eq_some_iff (nodup_map_fst_placements m hnd)).2 (mem_placements.2 hb)
  rw [(lookups_mergeAll hm hnd origin t).1, hl]
  simp

/-- The mark of a slot after a binding was brought to it. -/
theorem source?_mergeAll {t : Slot} {b : Binding} (hb : Brings m news t b) :
    (c.mergeAll m news origin).1.globSources.get? t
      = if c.Takes t origin then origin.source? else c.globSources.get? t := by
  have hl := (Listing.lookup_eq_some_iff (nodup_map_fst_placements m hnd)).2 (mem_placements.2 hb)
  rw [(lookups_mergeAll hm hnd origin t).2, hl]
  simp

/-- A slot to which nothing is brought stays as it is. -/
theorem mergeAll_of_not_brings {t : Slot} (ht : ∀ b, ¬ Brings m news t b) :
    (c.mergeAll m news origin).1.map.binding? t = c.map.binding? t ∧
      (c.mergeAll m news origin).1.globSources.get? t = c.globSources.get? t := by
  have hl : (placements m news).lookup t = none := by
    cases h : (placements m news).lookup t with
    | none => rfl
    | some b =>
      rw [Listing.lookup_eq_some_iff (nodup_map_fst_placements m hnd), mem_placements] at h
      exact absurd h (ht b)
  rw [(lookups_mergeAll hm hnd origin t).1, (lookups_mergeAll hm hnd origin t).2, hl]
  simp

/-- The names that are reported as changed bring what slots took and did not hold before. -/
theorem brings_mergeAll_snd {t : Slot} {b : Binding} :
    Brings m (c.mergeAll m news origin).2 t b
      ↔ Brings m news t b ∧ c.Takes t origin ∧ c.map.binding? t ≠ some b := by
  obtain ⟨m', name, ns⟩ := t
  rw [c.mergeAll_eq hm hnd]
  simp only [Brings, List.mem_filter, List.mem_map, Prod.exists, Prod.mk.injEq]
  constructor
  · rintro ⟨rfl, delta, ⟨⟨_, meaning, hmem, rfl, rfl⟩, -⟩, hget⟩
    simp only [fresh, Meaning.get_ofFn, Option.filter_eq_some_iff, decide_eq_true_eq] at hget
    exact ⟨⟨rfl, meaning, hmem, hget.1⟩, hget.2⟩
  · rintro ⟨⟨rfl, meaning, hmem, hget⟩, hnew⟩
    have hfresh : (c.fresh m' origin name meaning).get ns = some b := by
      simp only [fresh, Meaning.get_ofFn, Option.filter_eq_some_iff, decide_eq_true_eq]
      exact ⟨hget, hnew⟩
    refine ⟨rfl, _, ⟨⟨name, meaning, hmem, rfl, rfl⟩, ?_⟩, hfresh⟩
    rw [Bool.not_eq_true', Bool.eq_false_iff, ne_eq, Meaning.isEmpty_iff]
    intro hempty
    rw [hempty, Meaning.get_empty] at hfresh
    cases hfresh

/-- A slot that is not among those reported as changed holds what it held. -/
theorem binding?_mergeAll_of_not_changed {t : Slot}
    (ht : ∀ b, ¬ Brings m (c.mergeAll m news origin).2 t b) :
    (c.mergeAll m news origin).1.map.binding? t = c.map.binding? t := by
  by_cases hnews : ∃ b, Brings m news t b
  · obtain ⟨b, hb⟩ := hnews
    rw [binding?_mergeAll hm hnd origin hb]
    split
    · next htakes =>
      by_contra hne
      exact ht b ((brings_mergeAll_snd hm hnd origin).2 ⟨hb, htakes, Ne.symm hne⟩)
    · rfl
  · exact (mergeAll_of_not_brings hm hnd origin fun b hb => hnews ⟨b, hb⟩).1

theorem nodup_mergeAll_snd : ((c.mergeAll m news origin).2.map Prod.fst).Nodup := by
  rw [c.mergeAll_eq hm hnd]
  refine (List.filter_sublist.map Prod.fst).nodup ?_
  rwa [List.map_map]

/-- If anything is reported as changed, some slot is. -/
theorem exists_brings_of_mergeAll_snd (h : (c.mergeAll m news origin).2.isEmpty = false) :
    ∃ t b, Brings m (c.mergeAll m news origin).2 t b := by
  obtain ⟨⟨name, delta⟩, hmem⟩ := List.exists_mem_of_ne_nil _ (List.isEmpty_eq_false_iff.1 h)
  have hne : delta.isEmpty = false := by
    rw [c.mergeAll_eq hm hnd, List.mem_filter] at hmem
    simpa using hmem.2
  have : ∃ ns b, delta.get ns = some b := by
    by_contra hnone
    push Not at hnone
    have : delta = ∅ := Meaning.ext fun ns => by
      rw [Meaning.get_empty]
      exact Option.eq_none_iff_forall_ne_some.2 (hnone ns)
    rw [this] at hne
    cases hne
  obtain ⟨ns, b, hget⟩ := this
  exact ⟨⟨m, name, ns⟩, b, rfl, delta, hmem, hget⟩

end MergeAll

end Collection

end CrateScope
