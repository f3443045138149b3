import CrateScope.Proofs.Placement
import Mathlib.Logic.Relation

/-!
# Where the names of globs come from

A slot that is bound by a glob is marked with the module that the glob reads from.  Followed from
module to module, for one name in one namespace, the marks never come back to where they started:
a slot is marked when it is still without a binding, and at that time nothing is marked with its
module.  Globs themselves may well read from each other in circles; what flows along them does not.

## Main definitions

* `Collection.ReadsFrom` — the marks within a crate, as a relation on modules.
* `Collection.Provenance` — the invariant: marked slots and their sources are bound, and no name
  comes from itself.
* `Collection.Grows` — what is certain to stay when only globs bring bindings.
-/

namespace CrateScope

namespace Collection

open Relation

variable {c c' : Collection}

/-! ### Marks as a relation -/

/-- The module `a` has a name through a glob that reads from the module `b` of the same crate. -/
def ReadsFrom (c : Collection) (name : Name) (ns : Namespace) (a b : LocalId) : Prop :=
  c.globSources.get? ⟨a, name, ns⟩ = some (c.tree.global b)

/-- Marked slots are bound, the slots that their marks refer to are bound, and following the marks
never leads back. -/
structure Provenance (c : Collection) : Prop where
  bound : ∀ slot source, c.globSources.get? slot = some source → (c.map.binding? slot).isSome
  source_bound : ∀ name ns a b, c.ReadsFrom name ns a b → (c.map.binding? ⟨b, name, ns⟩).isSome
  acyclic : ∀ name ns a, ¬ TransGen (c.ReadsFrom name ns) a a

theorem global_injective (t : ModuleTree) {a b : LocalId} (h : t.global a = t.global b) : a = b :=
  congrArg ModuleId.index h

/-- A module is the only one of its tree with its number. -/
theorem mem_cons_of_global (t : ModuleTree) (passed : List LocalId) {m s : LocalId}
    (h : t.global m = t.global s) : s ∈ m :: passed := by
  have heq : m = s := global_injective t h
  rw [heq]
  exact List.mem_cons_self

/-- Taking one slot as the start of a new step does not close a circle if no step leads there. -/
theorem acyclic_of_no_step_to {α : Type*} {r r' : α → α → Prop} {m : α}
    (hsub : ∀ a b, a ≠ m → r' a b → r a b) (hto : ∀ a, ¬ r' a m) (h : ∀ a, ¬ TransGen r a a)
    (a : α) : ¬ TransGen r' a a := by
  have ne_of_step : ∀ {a b}, TransGen r' a b → b ≠ m := by
    intro a b hab
    obtain ⟨x, -, hx⟩ := TransGen.tail'_iff.1 hab
    rintro rfl
    exact hto x hx
  have lower : ∀ {a b}, TransGen r' a b → a ≠ m → TransGen r a b := by
    intro a b hab ha
    induction hab with
    | single hb => exact .single (hsub _ _ ha hb)
    | tail hab' hb ih => exact ih.tail (hsub _ _ (ne_of_step hab') hb)
  intro haa
  exact h a (lower haa (ne_of_step haa))

/-- What is bound stays bound when a binding comes to a slot. -/
theorem isSome_place {slot : Slot} (hr : slot.module.index < c.map.scopes.size) (new : Binding)
    (origin : Origin) {t : Slot} (ht : (c.map.binding? t).isSome) :
    ((c.place slot new origin).1.map.binding? t).isSome := by
  rw [c.binding?_place hr]
  split
  · rfl
  · exact ht

/-- A step along the marks is one that was there, or it starts at the slot that took a binding. -/
theorem readsFrom_place {slot : Slot} {new : Binding} {origin : Origin} {name : Name}
    {ns : Namespace} {a b : LocalId} (h : (c.place slot new origin).1.ReadsFrom name ns a b) :
    c.ReadsFrom name ns a b ∨
      (⟨a, name, ns⟩ = slot ∧ c.Takes slot origin ∧ origin = .glob (c.tree.global b)) := by
  unfold ReadsFrom at h ⊢
  rw [(c.frame_place slot new origin).tree, c.source?_place] at h
  split at h
  · next htakes =>
    cases origin with
    | named => cases h
    | glob source => exact Or.inr ⟨htakes.1, htakes.2, congrArg Origin.glob (Option.some.inj h)⟩
  · exact Or.inl h

section Place

variable (h : Provenance c) {slot : Slot} (new : Binding) {origin : Origin}
  (hsource : ∀ s, origin = .glob (c.tree.global s) →
    (c.map.binding? ⟨s, slot.name, slot.space⟩).isSome)

include h hsource

theorem acyclic_place (name : Name) (ns : Namespace) (a : LocalId) :
    ¬ TransGen ((c.place slot new origin).1.ReadsFrom name ns) a a := by
  by_cases hslot : ∃ m, (⟨m, name, ns⟩ : Slot) = slot ∧ c.map.binding? slot = none
  · -- The slot was without a binding: nothing reads from its module, before and after.
    obtain ⟨m, rfl, hnone⟩ := hslot
    have hsub : ∀ a b, a ≠ m → (c.place ⟨m, name, ns⟩ new origin).1.ReadsFrom name ns a b →
        c.ReadsFrom name ns a b := by
      intro a b ha hab
      rcases readsFrom_place hab with hold | ⟨hslot, -, -⟩
      · exact hold
      · exact absurd (Slot.mk.inj hslot).1 ha
    have hto : ∀ a, ¬ (c.place ⟨m, name, ns⟩ new origin).1.ReadsFrom name ns a m := by
      intro a ham
      have hsome : (c.map.binding? ⟨m, name, ns⟩).isSome := by
        rcases readsFrom_place ham with hold | ⟨-, -, horigin⟩
        · exact h.source_bound name ns a m hold
        · exact hsource m horigin
      rw [hnone] at hsome
      cases hsome
    exact acyclic_of_no_step_to hsub hto (h.acyclic name ns) a
  · -- Otherwise a slot that takes news from its own glob has the same mark as before.
    intro haa
    refine h.acyclic name ns a (TransGen.mono ?_ _ _ haa)
    intro x y hxy
    rcases readsFrom_place hxy with hold | ⟨rfl, htakes, rfl⟩
    · exact hold
    · rcases htakes with hnone | hmark
      · exact absurd ⟨x, rfl, hnone⟩ hslot
      · exact hmark

theorem Provenance.place (hr : slot.module.index < c.map.scopes.size) :
    Provenance (c.place slot new origin).1 := by
  refine ⟨?_, ?_, acyclic_place h new hsource⟩
  · intro t source ht
    rw [c.source?_place] at ht
    rw [c.binding?_place hr]
    split at ht
    · next htakes =>
      rw [if_pos htakes]
      rfl
    · next htakes =>
      rw [if_neg htakes]
      exact h.bound t source ht
  · intro name ns a b hab
    apply isSome_place hr
    rcases readsFrom_place hab with hold | ⟨rfl, -, horigin⟩
    · exact h.source_bound name ns a b hold
    · exact hsource b horigin

end Place

/-! ### What stays while globs bring bindings -/

/-- Bound slots stay bound and keep their marks, and those without a mark keep their bindings. -/
structure Grows (c c' : Collection) : Prop where
  frame : Frame c c'
  bound : ∀ slot, (c.map.binding? slot).isSome → (c'.map.binding? slot).isSome
  mark : ∀ slot, (c.map.binding? slot).isSome → c'.globSources.get? slot = c.globSources.get? slot
  fixed : ∀ slot, (c.map.binding? slot).isSome → c.globSources.get? slot = none →
    c'.map.binding? slot = c.map.binding? slot

theorem Grows.refl (c : Collection) : Grows c c :=
  ⟨Frame.refl c, fun _ h => h, fun _ _ => rfl, fun _ _ _ => rfl⟩

theorem Grows.trans {c'' : Collection} (h : Grows c c') (h' : Grows c' c'') : Grows c c'' where
  frame := h.frame.trans h'.frame
  bound slot hb := h'.bound slot (h.bound slot hb)
  mark slot hb := (h'.mark slot (h.bound slot hb)).trans (h.mark slot hb)
  fixed slot hb hs := by
    have hs' : c'.globSources.get? slot = none := (h.mark slot hb).trans hs
    exact (h'.fixed slot (h.bound slot hb) hs').trans (h.fixed slot hb hs)

theorem grows_place {slot : Slot} (hr : slot.module.index < c.map.scopes.size) (new : Binding)
    (source : ModuleId) : Grows c (c.place slot new (.glob source)).1 := by
  refine ⟨c.frame_place _ _ _, fun t ht => isSome_place hr _ _ ht, ?_, ?_⟩
  · intro t ht
    rw [c.source?_place]
    split
    · next h =>
      obtain ⟨rfl, hnone | hmark⟩ := h
      · rw [hnone] at ht
        cases ht
      · exact hmark.symm
    · rfl
  · intro t ht hs
    rw [c.binding?_place hr]
    split
    · next h =>
      obtain ⟨rfl, hnone | hmark⟩ := h
      · rw [hnone] at ht
        cases ht
      · rw [hs] at hmark
        cases hmark
    · rfl

/-- Marks stay, and with them the ways that names came. -/
theorem ReadsFrom.grows (h : Grows c c') (hp : Provenance c) {name : Name} {ns : Namespace}
    {a b : LocalId} (hab : c.ReadsFrom name ns a b) : c'.ReadsFrom name ns a b := by
  unfold ReadsFrom at hab ⊢
  rw [h.mark _ (hp.bound _ _ hab), h.frame.tree]
  exact hab

end Collection

end CrateScope
