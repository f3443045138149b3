import CrateScope.Proofs.Course
import CrateScope.Proofs.Provenance

/-!
# Names on their way along the globs

A change that is handed on from module to module is a row of small steps: a glob import of the crate
copies one binding, as its source has it at that moment, into the module in which it stands.  Such a
step never touches a module through which the name came: that module has the name, and would have it
from a module that itself has it from there.

So while a change is handed on, the modules that it passed stay as they are.  Everything that is
said about a nest of updates rests on this: it cannot be deeper than the crate has modules, and what
is handed on is never out of date.

## Main definitions

* `Collection.Coherent` — the marks lead nowhere in circles, and the globs are those of the crate.
* `Collection.Copies` — what a glob import may copy, and the modules through which that came.
* `Collection.GlobStep` — one step of the handing on.
* `Collection.Spares` — some modules stay as they are.
* `Collection.Incoming`, `Collection.Forwarding` — names that come to a module, and names that are
  being handed on from it.

## Main results

* `Collection.GlobStep.spares` — a step spares the modules through which the name came.
* `Collection.update_walk` — the states of an update are joined by such steps.
-/

namespace CrateScope

/-- Where a module is found depends on the tree and on the dependencies only. -/
theorem View.locate?_congr {view view' : View} (htree : view'.tree = view.tree)
    (hdependencies : view'.dependencies = view.dependencies) (path : ItemPath) :
    view'.locate? path = view.locate? path := by
  have hcrate : view'.crate = view.crate := congrArg ModuleTree.crate htree
  unfold locate? mapOf?
  rw [hcrate, hdependencies]
  split
  · exact congrArg (fun t : ModuleTree => do
      let m ← t.descend? .root path.segments
      return (⟨path.crate, m⟩ : ModuleId)) htree
  · rfl

namespace Collection

open Relation

variable {imports : List Import} {passed : List LocalId} {c c' : Collection}

/-! ### Coherent states -/

/-- The marks of a state lead nowhere in circles, its imports and globs stand in modules that it
has, and each glob is that of an import. -/
structure Coherent (imports : List Import) (c : Collection) : Prop extends Provenance c where
  sized : c.map.scopes.size = c.tree.size
  inside : ∀ i ∈ imports, i.module.index < c.tree.size
  edges : ∀ s e, e ∈ c.edgesFrom s →
    ∃ i ∈ imports, i.kind = .glob ∧ e = { importer := i.module, visibility := i.visibility }

theorem edgesFrom_frame (h : Frame c c') (s : LocalId) : c'.edgesFrom s = c.edgesFrom s := by
  unfold edgesFrom
  rw [h.globEdges]

theorem Coherent.of_frame (h : Coherent imports c) (hf : Frame c c') (hp : Provenance c') :
    Coherent imports c' where
  toProvenance := hp
  sized := by rw [hf.size, hf.tree, h.sized]
  inside i hi := by rw [hf.tree]; exact h.inside i hi
  edges s e he := h.edges s e (edgesFrom_frame hf s ▸ he)

theorem Coherent.mem_scopes (h : Coherent imports c) {i : Import} (hi : i ∈ imports) :
    i.module.index < c.map.scopes.size := by
  rw [h.sized]
  exact h.inside i hi

/-! ### What names mean in other modules -/

theorem crate_global (c : Collection) (s : LocalId) : (c.tree.global s).crate = c.view.crate := rfl

/-- The meaning of a name in a module of the own crate is read from the map. -/
theorem get_meaning_global (c : Collection) (s : LocalId) (name : Name) (ns : Namespace) :
    (c.view.meaning (c.tree.global s) name).get ns = c.map.binding? ⟨s, name, ns⟩ := by
  unfold View.meaning View.mapOf?
  rw [if_pos (crate_global c s)]
  rfl

/-- The meaning of a name in a module of another crate does not change. -/
theorem meaning_frame_of_foreign (h : Frame c c') {source : ModuleId}
    (hs : source.crate ≠ c.view.crate) (name : Name) :
    c'.view.meaning source name = c.view.meaning source name := by
  have hcrate : c'.view.crate = c.view.crate := congrArg ModuleTree.crate h.tree
  unfold View.meaning View.mapOf?
  rw [if_neg hs, if_neg (hcrate ▸ hs), h.dependencies]

/-- A module of the own crate is known by its number there. -/
theorem eq_global_of_crate_eq {source : ModuleId} (h : source.crate = c.view.crate) :
    source = c.tree.global source.index := by
  cases source
  cases h
  rfl

/-! ### Copying along a glob -/

/-- The glob import `i` may copy what a name of `source` is bound to: the binding is there now, the
module of `i` may name it, and if the source is of another crate everyone may.  What is copied came
through all the modules in `passed`. -/
structure Copies (passed : List LocalId) (c : Collection) (i : Import) (source : ModuleId)
    (name : Name) (ns : Namespace) (b : Binding) : Prop where
  held : (c.view.meaning source name).get ns = some b
  visible : b.visibility.isVisibleFrom c.tree i.module = true
  isPublic : source.crate ≠ c.view.crate → b.visibility.isPublic = true
  reaches : ∀ x ∈ passed, ∃ s, source = c.tree.global s ∧
    ReflTransGen (c.ReadsFrom name ns) s x

/-- One step while names are handed on: something is told, or a glob import copies a binding. -/
inductive GlobStep (imports : List Import) (passed : List LocalId) (c : Collection) :
    Collection → Prop
  | told (log : Log) : GlobStep imports passed c { c with log }
  | copied {i : Import} (hi : i ∈ imports) (hk : i.kind = .glob) {source : ModuleId} {name : Name}
      {ns : Namespace} {b : Binding} (h : Copies passed c i source name ns b) :
      GlobStep imports passed c
        (c.place ⟨i.module, name, ns⟩ (b.handedOn c.tree i.visibility) (.glob source)).1

theorem GlobStep.mono {passed' : List LocalId} (hsub : ∀ x ∈ passed, x ∈ passed')
    (h : GlobStep imports passed' c c') : GlobStep imports passed c c' := by
  cases h with
  | told log => exact .told log
  | copied hi hk h =>
    exact .copied hi hk ⟨h.held, h.visible, h.isPublic, fun x hx => h.reaches x (hsub x hx)⟩

/-- What a glob of the own crate copies is bound where it reads from. -/
theorem Copies.isSome {i : Import} {s : LocalId} {name : Name} {ns : Namespace} {b : Binding}
    (h : Copies passed c i (c.tree.global s) name ns b) :
    c.map.binding? ⟨s, name, ns⟩ = some b := by
  rw [← get_meaning_global]
  exact h.held

/-- A module through which a name came does not take it. -/
theorem Copies.not_takes (hc : Provenance c) {i : Import} {source : ModuleId} {name : Name}
    {ns : Namespace} {b : Binding} (h : Copies passed c i source name ns b)
    (hi : i.module ∈ passed) : ¬ c.Takes ⟨i.module, name, ns⟩ (.glob source) := by
  obtain ⟨s, rfl, hreach⟩ := h.reaches i.module hi
  -- The module is the source itself, or the name came from it to the source.
  have hbound : (c.map.binding? ⟨i.module, name, ns⟩).isSome := by
    rcases ReflTransGen.cases_tail hreach with heq | ⟨x, -, hx⟩
    · rw [heq, h.isSome]
      rfl
    · exact hc.source_bound name ns x i.module hx
  rintro (hnone | hmark)
  · rw [hnone] at hbound
    cases hbound
  · exact hc.acyclic name ns i.module (TransGen.head' hmark hreach)

/-- The modules in `passed` are the same in two states. -/
def Spares (passed : List LocalId) (c c' : Collection) : Prop :=
  ∀ t : Slot, t.module ∈ passed →
    c'.map.binding? t = c.map.binding? t ∧ c'.globSources.get? t = c.globSources.get? t

theorem Spares.refl (passed : List LocalId) (c : Collection) : Spares passed c c :=
  fun _ _ => ⟨rfl, rfl⟩

theorem Spares.trans {c'' : Collection} (h : Spares passed c c') (h' : Spares passed c' c'') :
    Spares passed c c'' :=
  fun t ht => ⟨(h' t ht).1.trans (h t ht).1, (h' t ht).2.trans (h t ht).2⟩

theorem GlobStep.spares (hc : Coherent imports c) (h : GlobStep imports passed c c') :
    Spares passed c c' := by
  cases h with
  | told log => exact Spares.refl passed c
  | @copied i hi hk source name ns b h =>
    intro t ht
    have hnot : ¬ (t = ⟨i.module, name, ns⟩ ∧ c.Takes ⟨i.module, name, ns⟩ (.glob source)) := by
      rintro ⟨rfl, htakes⟩
      exact h.not_takes hc.toProvenance ht htakes
    rw [c.binding?_place (hc.mem_scopes hi), c.source?_place, if_neg hnot, if_neg hnot]
    exact ⟨rfl, rfl⟩

theorem GlobStep.grows (hc : Coherent imports c) (h : GlobStep imports passed c c') :
    Grows c c' := by
  cases h with
  | told log =>
    exact ⟨Frame.told c log, fun _ h => h, fun _ _ => rfl, fun _ _ _ => rfl⟩
  | copied hi hk h => exact grows_place (hc.mem_scopes hi) _ _

theorem GlobStep.coherent (hc : Coherent imports c) (h : GlobStep imports passed c c') :
    Coherent imports c' := by
  refine hc.of_frame (h.grows hc).frame ?_
  cases h with
  | told log => exact ⟨hc.bound, hc.source_bound, hc.acyclic⟩
  | copied hi hk h =>
    refine hc.toProvenance.place _ (fun s hs => ?_) (hc.mem_scopes hi)
    cases hs
    rw [h.isSome]
    rfl

theorem Coherent.told (hc : Coherent imports c) (log : Log) : Coherent imports { c with log } :=
  (GlobStep.told log : GlobStep imports [] c _).coherent hc

/-- What a walk of such steps keeps. -/
theorem walk_keeps {states : List Collection} {d : Collection} (hc : Coherent imports c)
    (h : Walk (GlobStep imports passed) c states d) :
    Coherent imports d ∧ Grows c d ∧ Spares passed c d := by
  refine (h.invariant (P := fun d => Coherent imports d ∧ Grows c d ∧ Spares passed c d)
    ?_ ⟨hc, Grows.refl c, Spares.refl passed c⟩).2
  rintro a b hab ⟨ha, hgrows, hspares⟩
  exact ⟨hab.coherent ha, hgrows.trans (hab.grows ha), hspares.trans (hab.spares ha)⟩

theorem reaches_grows (hp : Provenance c) (hg : Grows c c') {name : Name} {ns : Namespace}
    {a b : LocalId} (h : ReflTransGen (c.ReadsFrom name ns) a b) :
    ReflTransGen (c'.ReadsFrom name ns) a b := by
  refine ReflTransGen.mono ?_ _ _ h
  intro x y hxy
  exact hxy.grows hg hp

/-- What may be copied from a module that stays as it is may still be copied afterwards. -/
theorem Copies.keep (hp : Provenance c) (hg : Grows c c') (hs : Spares passed c c') {i : Import}
    {source : ModuleId} {name : Name} {ns : Namespace} {b : Binding}
    (hself : ∀ s, source = c.tree.global s → s ∈ passed)
    (h : Copies passed c i source name ns b) : Copies passed c' i source name ns b := by
  have hcrate : c'.view.crate = c.view.crate := congrArg ModuleTree.crate hg.frame.tree
  refine ⟨?_, ?_, ?_, ?_⟩
  · -- A source of the own crate is spared, and one of another crate is finished.
    by_cases hown : source.crate = c.view.crate
    · obtain ⟨s, rfl⟩ : ∃ s, source = c.tree.global s := ⟨_, eq_global_of_crate_eq hown⟩
      rw [← hg.frame.tree, get_meaning_global, (hs ⟨s, name, ns⟩ (hself s rfl)).1]
      exact h.isSome
    · rw [meaning_frame_of_foreign hg.frame hown]
      exact h.held
  · rw [hg.frame.tree]
    exact h.visible
  · rw [hcrate]
    exact h.isPublic
  · intro x hx
    obtain ⟨s, hsource, hreach⟩ := h.reaches x hx
    exact ⟨s, by rw [hg.frame.tree]; exact hsource, reaches_grows hp hg hreach⟩

/-! ### Names that come in, and names that are handed on -/

/-- Some names of `source` come to the module of the glob import `i`, each as the import may copy
it. -/
structure Incoming (passed : List LocalId) (c : Collection) (i : Import) (source : ModuleId)
    (news : List (Name × Meaning)) : Prop where
  nodup : (news.map Prod.fst).Nodup
  copies : ∀ t b, Brings i.module news t b →
    ∃ b₀, Copies passed c i source t.name t.space b₀ ∧ b = b₀.handedOn c.tree i.visibility

/-- Some names of the module `m` changed and are being handed on: the module still holds what it
hands on, and that came to it through all the modules in `passed`. -/
structure Forwarding (passed : List LocalId) (c : Collection) (m : LocalId)
    (changed : List (Name × Meaning)) : Prop where
  nodup : (changed.map Prod.fst).Nodup
  held : ∀ t b, Brings m changed t b → c.map.binding? t = some b
  reaches : ∀ t b, Brings m changed t b → ∀ x ∈ passed,
    ReflTransGen (c.ReadsFrom t.name t.space) m x
  mem : m ∈ passed

theorem Forwarding.keep {m : LocalId} {changed : List (Name × Meaning)}
    (hf : Forwarding passed c m changed) (hp : Provenance c) (hg : Grows c c')
    (hs : Spares passed c c') : Forwarding passed c' m changed where
  nodup := hf.nodup
  held t b hb := by
    rw [(hs t (hb.1 ▸ hf.mem)).1]
    exact hf.held t b hb
  reaches t b hb x hx := reaches_grows hp hg (hf.reaches t b hb x hx)
  mem := hf.mem

theorem nodup_offered (t : ModuleTree) (viewer : LocalId) (visibility : Visibility)
    {names : List (Name × Meaning)} (h : (names.map Prod.fst).Nodup) :
    ((offered t viewer visibility names).map Prod.fst).Nodup := by
  refine (List.filter_sublist.map Prod.fst).nodup ?_
  rwa [List.map_map]

/-- A name with a binding survives where the names without one are left out. -/
theorem mem_filter_isEmpty {names : List (Name × Meaning)} {name : Name} {meaning : Meaning}
    {ns : Namespace} {b : Binding} (hget : meaning.get ns = some b) :
    (name, meaning) ∈ names.filter (fun entry => !entry.2.isEmpty) ↔ (name, meaning) ∈ names := by
  have hne : meaning.isEmpty = false := by
    rw [Bool.eq_false_iff, ne_eq, Meaning.isEmpty_iff]
    rintro rfl
    rw [Meaning.get_empty] at hget
    cases hget
  simp [List.mem_filter, hne]

/-- Where only the bindings that pass a test are handed on, with a visibility at most, these are the
ones that arrive. -/
theorem brings_handedOn {t : ModuleTree} {m : LocalId} {test : Visibility → Bool}
    {visibility : Visibility} {names : List (Name × Meaning)} {slot : Slot} {b : Binding} :
    Brings m ((names.map fun entry =>
        (entry.1, (entry.2.filterVisibility test).handedOn t visibility)).filter
          fun entry => !entry.2.isEmpty) slot b
      ↔ ∃ b₀, Brings m names slot b₀ ∧ test b₀.visibility = true ∧
        b = b₀.handedOn t visibility := by
  have hget : ∀ meaning : Meaning, ((meaning.filterVisibility test).handedOn t visibility).get
      slot.space = some b ↔ ∃ b₀, meaning.get slot.space = some b₀ ∧ test b₀.visibility = true ∧
        b = b₀.handedOn t visibility := by
    intro meaning
    simp only [Meaning.get_handedOn, Meaning.get_filterVisibility, Option.map_eq_some_iff,
      Option.filter_eq_some_iff, and_assoc, eq_comm (b := b)]
  constructor
  · rintro ⟨hm, meaning, hmem, hb⟩
    rw [mem_filter_isEmpty hb, List.mem_map] at hmem
    obtain ⟨⟨name, meaning₀⟩, hmem, he⟩ := hmem
    cases he
    obtain ⟨b₀, hget₀, htest, rfl⟩ := (hget meaning₀).1 hb
    exact ⟨b₀, ⟨hm, meaning₀, hmem, hget₀⟩, htest, rfl⟩
  · rintro ⟨b₀, ⟨hm, meaning, hmem, hget₀⟩, htest, hb⟩
    have hb' := (hget meaning).2 ⟨b₀, hget₀, htest, hb⟩
    refine ⟨hm, _, ?_, hb'⟩
    rw [mem_filter_isEmpty hb']
    exact List.mem_map_of_mem (f := fun entry : Name × Meaning =>
      (entry.1, (entry.2.filterVisibility test).handedOn t visibility)) hmem

/-- A glob offers those bindings that it may name, with its own visibility at most. -/
theorem brings_offered {t : ModuleTree} {viewer m : LocalId} {visibility : Visibility}
    {names : List (Name × Meaning)} {slot : Slot} {b : Binding} :
    Brings m (offered t viewer visibility names) slot b
      ↔ ∃ b₀, Brings m names slot b₀ ∧ b₀.visibility.isVisibleFrom t viewer = true ∧
        b = b₀.handedOn t visibility :=
  brings_handedOn

/-- What is brought to one module of some names is brought to any other. -/
theorem Brings.at {m m' : LocalId} {news : List (Name × Meaning)} {slot : Slot} {b : Binding}
    (h : Brings m news slot b) : Brings m' news ⟨m', slot.name, slot.space⟩ b :=
  ⟨rfl, h.2⟩

/-- What is being handed on from a module comes in where a glob reads from it. -/
theorem Forwarding.incoming {m : LocalId} {changed : List (Name × Meaning)}
    (hf : Forwarding passed c m changed) (i : Import) :
    Incoming passed c i (c.tree.global m) (offered c.tree i.module i.visibility changed) where
  nodup := nodup_offered _ _ _ hf.nodup
  copies t b hb := by
    obtain ⟨b₀, hb₀, hvisible, rfl⟩ := brings_offered.1 hb
    have hbring : Brings m changed ⟨m, t.name, t.space⟩ b₀ := hb₀.at
    refine ⟨b₀, ⟨?_, hvisible, fun hforeign => absurd rfl hforeign, fun x hx => ⟨m, rfl, ?_⟩⟩, rfl⟩
    · rw [get_meaning_global]
      exact hf.held _ b₀ hbring
    · exact hf.reaches _ b₀ hbring x hx

/-- The same after the handing on was told. -/
theorem Forwarding.incoming_told {m : LocalId} {changed : List (Name × Meaning)}
    (hf : Forwarding passed c m changed) (hc : Coherent imports c) (i : Import) :
    let names := offered c.tree i.module i.visibility changed
    let told := c.tellHandedOn m { importer := i.module, visibility := i.visibility } names
    GlobStep imports passed c told ∧ Coherent imports told ∧
      Incoming passed told i (c.tree.global m) names := by
  intro names told
  have hstep : GlobStep imports passed c told := .told told.log
  exact ⟨hstep, hstep.coherent hc,
    (hf.keep hc.toProvenance (hstep.grows hc) (hstep.spares hc)).incoming i⟩

theorem Forwarding.mono {passed' : List LocalId} {m : LocalId} {changed : List (Name × Meaning)}
    (hf : Forwarding passed' c m changed) (hsub : ∀ x ∈ passed, x ∈ passed') (hmem : m ∈ passed) :
    Forwarding passed c m changed :=
  ⟨hf.nodup, hf.held, fun t b hb x hx => hf.reaches t b hb x (hsub x hx), hmem⟩

theorem coherent_placeAll_named {ps : List (Slot × Binding)} (hc : Coherent imports c)
    (hps : ∀ p ∈ ps, p.1.module.index < c.map.scopes.size) :
    Coherent imports (placeAll .named c ps) := by
  induction ps generalizing c with
  | nil => exact hc
  | cons p ps ih =>
    have hp := hps p List.mem_cons_self
    have hframe := c.frame_place p.1 p.2 .named
    refine ih (hc.of_frame hframe (hc.toProvenance.place p.2 (fun s hs => ?_) hp)) fun q hq => ?_
    · cases hs
    · rw [hframe.size]
      exact hps q (List.mem_cons_of_mem p hq)

/-- Names that a named import brings leave the state coherent. -/
theorem coherent_mergeAll_named (hc : Coherent imports c) {m : LocalId}
    (hm : m.index < c.map.scopes.size) {news : List (Name × Meaning)}
    (hnd : (news.map Prod.fst).Nodup) : Coherent imports (c.mergeAll m news .named).1 := by
  rw [c.mergeAll_eq hm hnd]
  refine coherent_placeAll_named hc fun p hp => ?_
  rw [(mem_placements.1 hp).1]
  exact hm

/-- What named imports brought to a module is handed on from there. -/
theorem forwarding_named {m : LocalId} (hm : m.index < c.map.scopes.size)
    {news : List (Name × Meaning)} (hnd : (news.map Prod.fst).Nodup) :
    Forwarding [m] (c.mergeAll m news .named).1 m (c.mergeAll m news .named).2 where
  nodup := nodup_mergeAll_snd hm hnd _
  held t b hb := by
    obtain ⟨hnews, htakes, -⟩ := (brings_mergeAll_snd hm hnd _).1 hb
    rw [binding?_mergeAll hm hnd _ hnews, if_pos htakes]
  reaches t b hb x hx := by
    rw [List.mem_singleton.1 hx]
  mem := List.mem_singleton_self m

/-! ### The walk of an update -/

section Incoming

variable {i : Import} (hc : Coherent imports c) (hi : i ∈ imports) (hk : i.kind = .glob)
  {source : ModuleId} (hself : ∀ s, source = c.tree.global s → s ∈ passed)

include hc hi hk hself

theorem placeStates_walk {ps : List (Slot × Binding)}
    (hps : ∀ p ∈ ps, p.1.module = i.module ∧
      ∃ b₀, Copies passed c i source p.1.name p.1.space b₀ ∧
        p.2 = b₀.handedOn c.tree i.visibility) :
    Walk (GlobStep imports passed) c (placeStates (.glob source) c ps)
      (placeAll (.glob source) c ps) := by
  induction ps generalizing c with
  | nil => exact .nil c
  | cons p ps ih =>
    obtain ⟨⟨m, name, ns⟩, b⟩ := p
    obtain ⟨rfl, b₀, hcopies, rfl⟩ := hps _ List.mem_cons_self
    have hstep := GlobStep.copied hi hk hcopies
    have hgrows := hstep.grows hc
    refine .cons hstep (ih (hstep.coherent hc) ?_ fun p hp => ?_)
    · intro s hs
      rw [hgrows.frame.tree] at hs
      exact hself s hs
    · obtain ⟨hm, b₁, hcopies₁, hb₁⟩ := hps p (List.mem_cons_of_mem _ hp)
      refine ⟨hm, b₁, hcopies₁.keep hc.toProvenance hgrows (hstep.spares hc) hself, ?_⟩
      rw [hgrows.frame.tree]
      exact hb₁

variable {news : List (Name × Meaning)} (hin : Incoming passed c i source news)

include hin

theorem mergeAll_walk :
    Walk (GlobStep imports passed) c (placeStates (.glob source) c (placements i.module news))
      (c.mergeAll i.module news (.glob source)).1 := by
  rw [c.mergeAll_eq (hc.mem_scopes hi) hin.nodup]
  refine placeStates_walk hc hi hk hself fun p hp => ?_
  have hb := mem_placements.1 hp
  exact ⟨hb.1, hin.copies p.1 p.2 hb⟩

/-- What came in through a glob is handed on, by way of one more module. -/
theorem forwarding_glob :
    Forwarding (i.module :: passed) (c.mergeAll i.module news (.glob source)).1 i.module
      (c.mergeAll i.module news (.glob source)).2 where
  nodup := nodup_mergeAll_snd (hc.mem_scopes hi) hin.nodup _
  held t b hb := by
    obtain ⟨hnews, htakes, -⟩ := (brings_mergeAll_snd (hc.mem_scopes hi) hin.nodup _).1 hb
    rw [binding?_mergeAll (hc.mem_scopes hi) hin.nodup _ hnews, if_pos htakes]
  reaches t b hb x hx := by
    obtain ⟨hnews, htakes, -⟩ := (brings_mergeAll_snd (hc.mem_scopes hi) hin.nodup _).1 hb
    rcases List.mem_cons.1 hx with rfl | hx
    · exact .refl
    · obtain ⟨b₀, hcopies, -⟩ := hin.copies t b hnews
      obtain ⟨s, rfl, hreach⟩ := hcopies.reaches x hx
      have hgrows := (walk_keeps hc (mergeAll_walk hc hi hk hself hin)).2.1
      -- The slot took the binding, so that it is now marked with the source.
      refine ReflTransGen.head ?_ (reaches_grows hc.toProvenance hgrows hreach)
      have hmark := source?_mergeAll (hc.mem_scopes hi) hin.nodup (.glob (c.tree.global s)) hnews
      rw [if_pos htakes] at hmark
      obtain ⟨m, name, ns⟩ := t
      obtain rfl : m = i.module := hb.1
      unfold ReadsFrom
      rw [hgrows.frame.tree]
      exact hmark
  mem := List.mem_cons_self

end Incoming

/-- A loop walks if each of its steps does, as long as the steps keep what that needs. -/
theorem loop_walk {α : Type} {R : Collection → Collection → Prop} {P : Collection → Prop}
    {step : Collection → α → Except Failure Collection}
    {states : Collection → α → List Collection} {as : List α}
    (hstep : ∀ c, ∀ a ∈ as, P c →
      ∃ d, P d ∧ Walk R c (states c a) d ∧ ∀ c', step c a = .ok c' → c' = d)
    (hc : P c) :
    ∃ d, P d ∧ Walk R c (loopStates step states c as) d ∧
      ∀ c', as.foldlM step c = .ok c' → c' = d := by
  induction as generalizing c with
  | nil =>
    refine ⟨c, hc, .nil c, fun c' h => ?_⟩
    cases h
    rfl
  | cons a as ih =>
    obtain ⟨d, hd, hwalk, hend⟩ := hstep c a List.mem_cons_self hc
    rw [loopStates, List.foldlM_cons]
    cases hs : step c a with
    | error e =>
      refine ⟨d, hd, hwalk.append (.nil d), fun c' h => ?_⟩
      cases h
    | ok c₁ =>
      obtain rfl := hend c₁ hs
      obtain ⟨d', hd', hwalk', hend'⟩ :=
        ih (fun c a ha => hstep c a (List.mem_cons_of_mem _ ha)) hd
      exact ⟨d', hd', hwalk.append hwalk', hend'⟩

/-- The loop over the globs that read from a module walks if the receiver does. -/
theorem handOn_walk {m : LocalId} {changed : List (Name × Meaning)}
    (receiver : Collection → LocalId → List (Name × Meaning) → Origin → Except Failure Collection)
    (states : Collection → LocalId → List (Name × Meaning) → Origin → List Collection)
    (hreceiver : ∀ c i news, Coherent imports c → i ∈ imports → i.kind = .glob →
      Incoming passed c i (c.tree.global m) news →
      Traces (GlobStep imports passed) c (states c i.module news (.glob (c.tree.global m)))
        (receiver c i.module news (.glob (c.tree.global m))))
    (hc : Coherent imports c) (hf : Forwarding passed c m changed) :
    Traces (GlobStep imports passed) c
      (loopStates (handOn receiver m changed) (handOnStates states m changed) c (c.edgesFrom m))
      ((c.edgesFrom m).foldlM (handOn receiver m changed) c) := by
  have hstep : ∀ c₁, ∀ e ∈ c.edgesFrom m, Coherent imports c₁ ∧ Forwarding passed c₁ m changed →
      ∃ d, (Coherent imports d ∧ Forwarding passed d m changed) ∧
        Walk (GlobStep imports passed) c₁ (handOnStates states m changed c₁ e) d ∧
        ∀ c', handOn receiver m changed c₁ e = .ok c' → c' = d := by
    rintro c₁ e he ⟨hc₁, hf₁⟩
    obtain ⟨i, hi, hk, rfl⟩ := hc.edges m e he
    unfold handOn handOnStates
    simp only
    split
    · exact ⟨c₁, ⟨hc₁, hf₁⟩, .nil c₁, fun c' h => by cases h; rfl⟩
    · -- The round spares `m`, so that what changed there can be handed on in the next one.
      obtain ⟨htold, hct, hin⟩ := hf₁.incoming_told hc₁ i
      obtain ⟨d, hwalk, hend⟩ := hreceiver _ i _ hct hi hk hin
      obtain ⟨hcd, hgrows, hspares⟩ := walk_keeps hc₁ (.cons htold hwalk)
      exact ⟨d, ⟨hcd, hf₁.keep hc₁.toProvenance hgrows hspares⟩, .cons htold hwalk, hend⟩
  obtain ⟨d, -, hd⟩ := loop_walk hstep ⟨hc, hf⟩
  exact ⟨d, hd⟩

/-- What the loop over the globs that read from a module keeps. -/
theorem handOn_keeps {limit depth : Nat} {m : LocalId} {changed : List (Name × Meaning)}
    (hupdate : ∀ c i news, Coherent imports c → i ∈ imports → i.kind = .glob →
      Incoming passed c i (c.tree.global m) news →
      Traces (GlobStep imports passed) c
        (updateStates limit depth c i.module news (.glob (c.tree.global m)))
        (update limit depth c i.module news (.glob (c.tree.global m))))
    (hc : Coherent imports c) (hf : Forwarding passed c m changed)
    (h : (c.edgesFrom m).foldlM (handOn (update limit depth) m changed) c = .ok c') :
    Coherent imports c' ∧ Grows c c' ∧ Spares passed c c' := by
  obtain ⟨d, hwalk, hend⟩ := handOn_walk _ _ hupdate hc hf
  obtain rfl := hend c' h
  exact walk_keeps hc hwalk

/-- The states of an update that a glob set off are joined by steps that spare all modules through
which the names came. -/
theorem update_walk (limit depth : Nat) {i : Import} {source : ModuleId}
    {news : List (Name × Meaning)} (hc : Coherent imports c) (hi : i ∈ imports)
    (hk : i.kind = .glob) (hself : ∀ s, source = c.tree.global s → s ∈ passed)
    (hin : Incoming passed c i source news) :
    Traces (GlobStep imports passed) c (updateStates limit depth c i.module news (.glob source))
      (update limit depth c i.module news (.glob source)) := by
  -- On the levels that are left; each level adds the module that it enters to those passed.
  induction depth generalizing c passed i source news with
  | zero => exact ⟨c, .nil c, fun c' h => by cases h⟩
  | succ depth ih =>
    have hmerge := mergeAll_walk hc hi hk hself hin
    rw [updateStates, update]
    simp only
    split
    · exact ⟨_, hmerge.append (.nil _), fun c' h => by cases h; rfl⟩
    · have hf := forwarding_glob hc hi hk hself hin
      obtain ⟨d, hloop, hend⟩ := handOn_walk (update limit depth) (updateStates limit depth)
        (fun c i' news hc hi' hk' hin => ih hc hi' hk'
          (fun s hs => mem_cons_of_global c.tree passed hs) hin) (walk_keeps hc hmerge).1 hf
      have hloop' := hloop.mono fun a b hab => hab.mono fun x hx => List.mem_cons_of_mem i.module hx
      exact ⟨d, hmerge.append hloop', hend⟩

/-- What an update that a glob set off keeps. -/
theorem update_keeps {limit depth : Nat} {i : Import} {source : ModuleId}
    {news : List (Name × Meaning)} (hc : Coherent imports c) (hi : i ∈ imports)
    (hk : i.kind = .glob) (hself : ∀ s, source = c.tree.global s → s ∈ passed)
    (hin : Incoming passed c i source news)
    (h : update limit depth c i.module news (.glob source) = .ok c') :
    Coherent imports c' ∧ Grows c c' ∧ Spares passed c c' := by
  obtain ⟨d, hwalk, hend⟩ := update_walk limit depth hc hi hk hself hin
  obtain rfl := hend c' h
  exact walk_keeps hc hwalk

end Collection

end CrateScope
