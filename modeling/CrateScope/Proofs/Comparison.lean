import CrateScope.Proofs.Exposure

/-!
# The order of visibilities

Whoever hands a binding on compares two visibilities.  They are restricted to modules of a tree, and
the modules around one module lie on one way to the root.  So all visibilities that let one and the
same module name something are comparable, and of any two of them the narrower one lets exactly
those name it whom both let.  Visibilities without a common observer need not be comparable, and
then `Visibility.narrower` keeps its first argument.

All of this holds in every module tree, because a parent has a smaller number than its children.

## Main definitions

* `Visibility.observers` — the modules of a tree that may name a binding.

## Main results

* `ModuleTree.mem_ancestors_total` — the modules around one module are linearly ordered.
* `Visibility.comparable` — so are the visibilities that have an observer in common.
* `visibility_order_and_meet` — the order is that of the sets of observers, and `narrower` is its
  meet.
-/

namespace CrateScope

/-! ### The way to the root -/

namespace ModuleTree

variable {t : ModuleTree} {a b m : LocalId}

/-- Two modules that both enclose a third one lie inside one another. -/
theorem mem_ancestors_total (ha : a ∈ t.ancestors m) (hb : b ∈ t.ancestors m) :
    a ∈ t.ancestors b ∨ b ∈ t.ancestors a := by
  induction m using ancestors.induct (t := t) with
  | case1 m hp =>
    rw [ancestors_of_parent?_none hp, List.mem_singleton] at ha hb
    rw [ha, hb]
    exact Or.inl (t.mem_ancestors_self m)
  | case2 m p hp ih =>
    have hway := ancestors_of_parent? hp
    rw [hway, List.mem_cons] at ha hb
    rcases ha with rfl | ha
    · exact Or.inr (by rw [hway]; exact List.mem_cons.2 hb)
    · rcases hb with rfl | hb
      · exact Or.inl (by rw [hway]; exact List.mem_cons_of_mem b ha)
      · exact ih ha hb

/-- Two modules that lie inside one another are the same. -/
theorem ancestors_antisymm (hab : a ∈ t.ancestors b) (hba : b ∈ t.ancestors a) : a = b :=
  congrArg LocalId.mk (Nat.le_antisymm (le_of_mem_ancestors hab) (le_of_mem_ancestors hba))

end ModuleTree

namespace Visibility

variable {t : ModuleTree} {a b d : Visibility} {m x : LocalId}

/-! ### A strict order -/

theorem isWiderThan_irrefl : a.isWiderThan t a = false := by
  cases a <;> simp [isWiderThan]

theorem isWiderThan_trans (hab : a.isWiderThan t b = true) (hbd : b.isWiderThan t d = true) :
    a.isWiderThan t d = true := by
  have hcovers : a.Covers t d := Covers.trans (Or.inr hab) (Or.inr hbd)
  refine hcovers.resolve_left ?_
  rintro rfl
  -- Otherwise two different modules would enclose one another.
  cases a with
  | everywhere => cases b <;> cases hbd
  | within wide =>
    cases b with
    | everywhere => cases hab
    | within narrow =>
      obtain ⟨hne, hcrate, -, hin⟩ := isWiderThan_within_iff.1 hab
      obtain ⟨-, -, -, hin'⟩ := isWiderThan_within_iff.1 hbd
      exact hne (congr (congrArg ModuleId.mk hcrate) (ModuleTree.ancestors_antisymm hin hin'))

theorem isWiderThan_asymm (h : a.isWiderThan t b = true) : b.isWiderThan t a = false := by
  by_contra hback
  have hself := isWiderThan_trans h (Bool.eq_true_of_not_eq_false hback)
  rw [isWiderThan_irrefl] at hself
  cases hself

theorem not_isWiderThan_of_covers (h : a.Covers t b) : b.isWiderThan t a = false := by
  rcases h with rfl | h
  · exact isWiderThan_irrefl
  · exact isWiderThan_asymm h

/-! ### Observers -/

/-- The modules of the tree that may name a binding of this visibility. -/
def observers (t : ModuleTree) (v : Visibility) : Set LocalId :=
  {m | m.index < t.size ∧ v.isVisibleFrom t m = true}

theorem mem_observers_within {scope : LocalId} : m ∈ (within (t.global scope)).observers t ↔
    m.index < t.size ∧ scope ∈ t.ancestors m := by
  refine and_congr_right fun _ => ?_
  simp only [isVisibleFrom, ModuleTree.global, beq_self_eq_true, Bool.true_and,
    ModuleTree.encloses_iff]

/-- The wider visibility lets everyone name what the narrower one lets them name. -/
theorem Covers.isVisibleFrom (h : a.Covers t b) (hb : b.isVisibleFrom t x = true) :
    a.isVisibleFrom t x = true := by
  rcases h with rfl | h
  · exact hb
  · rcases isVisibleFrom_iff.1 hb with rfl | ⟨narrow, hnarrow, rfl⟩
    · cases a <;> cases h
    · cases a with
      | everywhere => rfl
      | within wide =>
        obtain ⟨-, -, hcrate, hin⟩ := isWiderThan_within_iff.1 h
        exact isVisibleFrom_iff.2 (Or.inr ⟨wide.index, ModuleTree.ancestors_trans hin hnarrow,
          congrArg (fun crate => within ⟨crate, wide.index⟩) hcrate⟩)

/-- A restriction is wider than another one just in case it has all its observers and more. -/
theorem isWiderThan_within_iff_ssubset {wide narrow : LocalId} (hwide : wide.index < t.size)
    (hnarrow : narrow.index < t.size) :
    (within (t.global wide)).isWiderThan t (within (t.global narrow)) = true ↔
      (within (t.global narrow)).observers t ⊂ (within (t.global wide)).observers t := by
  constructor
  · intro h
    obtain ⟨hne, -, -, hin⟩ := isWiderThan_within_iff.1 h
    refine Set.ssubset_iff_exists.2 ⟨fun m hm => ⟨hm.1, Covers.isVisibleFrom (Or.inr h) hm.2⟩,
      wide, mem_observers_within.2 ⟨hwide, t.mem_ancestors_self wide⟩, fun hm => hne ?_⟩
    -- The wider module does not see what is restricted to a module inside it.
    have hout := (mem_observers_within.1 hm).2
    exact congrArg t.global (ModuleTree.ancestors_antisymm hin hout)
  · intro h
    have hin := h.subset (mem_observers_within.2 ⟨hnarrow, t.mem_ancestors_self narrow⟩)
    refine isWiderThan_within_iff.2 ⟨fun heq => ?_, rfl, rfl, (mem_observers_within.1 hin).2⟩
    rw [heq] at h
    exact h.ne rfl

/-! ### Visibilities with a common observer -/

/-- Two visibilities that let one module name something are comparable. -/
theorem comparable (ha : a.isVisibleFrom t m = true) (hb : b.isVisibleFrom t m = true)
    (hne : a ≠ b) : a.isWiderThan t b = true ∨ b.isWiderThan t a = true := by
  rcases isVisibleFrom_iff.1 ha with rfl | ⟨scope, hscope, rfl⟩
  · exact Or.inl (everywhere_covers.resolve_left hne)
  · rcases isVisibleFrom_iff.1 hb with rfl | ⟨scope', hscope', rfl⟩
    · exact Or.inr rfl
    · have hne' : t.global scope ≠ t.global scope' := fun heq => hne (congrArg within heq)
      rcases ModuleTree.mem_ancestors_total hscope hscope' with hin | hin
      · exact Or.inl (isWiderThan_within_iff.2 ⟨hne', rfl, rfl, hin⟩)
      · exact Or.inr (isWiderThan_within_iff.2 ⟨hne'.symm, rfl, rfl, hin⟩)

/-- What is not wider than a visibility with the same observer is covered by it. -/
theorem covers_of_not_isWiderThan (ha : a.isVisibleFrom t m = true)
    (hb : b.isVisibleFrom t m = true) (h : a.isWiderThan t b = false) : b.Covers t a := by
  by_cases heq : b = a
  · exact Or.inl heq
  · rcases comparable hb ha heq with hwider | hwider
    · exact Or.inr hwider
    · rw [h] at hwider
      cases hwider

theorem narrower_of_isWiderThan (h : a.isWiderThan t b = true) : a.narrower t b = b :=
  if_pos h

theorem narrower_of_covers (h : b.Covers t a) : a.narrower t b = a := by
  rw [narrower, not_isWiderThan_of_covers h]
  rfl

theorem isVisibleFrom_narrower_iff (ha : a.isVisibleFrom t m = true)
    (hb : b.isVisibleFrom t m = true) : (a.narrower t b).isVisibleFrom t x = true ↔
      a.isVisibleFrom t x = true ∧ b.isVisibleFrom t x = true := by
  cases h : a.isWiderThan t b with
  | true =>
    rw [narrower_of_isWiderThan h]
    exact ⟨fun hx => ⟨Covers.isVisibleFrom (Or.inr h) hx, hx⟩, And.right⟩
  | false =>
    have hcovers := covers_of_not_isWiderThan ha hb h
    rw [narrower_of_covers hcovers]
    exact ⟨fun hx => ⟨hx, hcovers.isVisibleFrom hx⟩, And.left⟩

theorem narrower_comm (ha : a.isVisibleFrom t m = true) (hb : b.isVisibleFrom t m = true) :
    a.narrower t b = b.narrower t a := by
  cases h : a.isWiderThan t b with
  | true => rw [narrower_of_isWiderThan h, narrower_of_covers (Or.inr h)]
  | false =>
    rw [narrower_of_covers (covers_of_not_isWiderThan ha hb h)]
    rcases covers_of_not_isWiderThan ha hb h with rfl | hwider
    · exact (narrower_of_covers (Or.inl rfl)).symm
    · exact (narrower_of_isWiderThan hwider).symm

theorem narrower_assoc (ha : a.isVisibleFrom t m = true) (hb : b.isVisibleFrom t m = true)
    (hd : d.isVisibleFrom t m = true) :
    (a.narrower t b).narrower t d = a.narrower t (b.narrower t d) := by
  cases hab : a.isWiderThan t b with
  | true =>
    -- What `b` and `d` leave is inside `b`, so that `a` is wider than that as well.
    have hcovers : a.Covers t (b.narrower t d) := Covers.trans (Or.inr hab) covers_narrower
    have hwider : a.isWiderThan t (b.narrower t d) = true := by
      refine hcovers.resolve_left fun heq => ?_
      have hback : b.Covers t a := heq ▸ covers_narrower
      rw [not_isWiderThan_of_covers hback] at hab
      cases hab
    rw [narrower_of_isWiderThan hab, narrower_of_isWiderThan hwider]
  | false =>
    have hba := covers_of_not_isWiderThan ha hb hab
    rw [narrower_of_covers hba]
    cases hbd : b.isWiderThan t d with
    | true => rw [narrower_of_isWiderThan hbd]
    | false =>
      have hdb := covers_of_not_isWiderThan hb hd hbd
      rw [narrower_of_covers hdb, narrower_of_covers hba, narrower_of_covers (hdb.trans hba)]

end Visibility

/-- **The order of visibilities and its meet.**  In every module tree `isWiderThan` is a strict
partial order.  Between two restrictions it is the proper inclusion of the sets of those who may
name.  Of two visibilities that have an observer in common one is the wider one or they are the
same, the narrower one does not depend on which comes first, and it lets precisely those modules
name a binding that both let; of three of them the narrowest does not depend on which two are
compared first. -/
theorem visibility_order_and_meet (t : ModuleTree) :
    (∀ a : Visibility, a.isWiderThan t a = false) ∧
    (∀ a b : Visibility, a.isWiderThan t b = true → b.isWiderThan t a = false) ∧
    (∀ a b d : Visibility, a.isWiderThan t b = true → b.isWiderThan t d = true →
      a.isWiderThan t d = true) ∧
    (∀ wide narrow : LocalId, wide.index < t.size → narrow.index < t.size →
      ((Visibility.within (t.global wide)).isWiderThan t (.within (t.global narrow)) = true ↔
        (Visibility.within (t.global narrow)).observers t ⊂
          (Visibility.within (t.global wide)).observers t)) ∧
    ∀ (m : LocalId) (a b : Visibility), a.isVisibleFrom t m = true → b.isVisibleFrom t m = true →
      (a ≠ b → a.isWiderThan t b = true ∨ b.isWiderThan t a = true) ∧
      a.narrower t b = b.narrower t a ∧
      (∀ x, (a.narrower t b).isVisibleFrom t x = true ↔
        a.isVisibleFrom t x = true ∧ b.isVisibleFrom t x = true) ∧
      ∀ d : Visibility, d.isVisibleFrom t m = true →
        (a.narrower t b).narrower t d = a.narrower t (b.narrower t d) :=
  ⟨fun _ => Visibility.isWiderThan_irrefl, fun _ _ => Visibility.isWiderThan_asymm,
    fun _ _ _ => Visibility.isWiderThan_trans,
    fun _ _ => Visibility.isWiderThan_within_iff_ssubset,
    fun _ _ _ ha hb => ⟨Visibility.comparable ha hb, Visibility.narrower_comm ha hb,
      fun _ => Visibility.isVisibleFrom_narrower_iff ha hb,
      fun _ => Visibility.narrower_assoc ha hb⟩⟩

/-- Between the root of the small crate and one of its modules the order of the arguments does not
matter.  It does between the two modules, which have no observer in common. -/
theorem visibility_order_and_meet_mirrors : ∃ t, (mirrors.outline ⟨0⟩ {} ∅).map.tree = t ∧
    (Visibility.within (t.global ⟨1⟩)).observers t ⊂
      (Visibility.within (t.global .root)).observers t ∧
    (Visibility.within (t.global ⟨1⟩)).narrower t (.within (t.global .root))
      = .within (t.global ⟨1⟩) ∧
    (Visibility.within (t.global ⟨1⟩)).narrower t (.within (t.global ⟨2⟩))
      = .within (t.global ⟨1⟩) ∧
    (Visibility.within (t.global ⟨2⟩)).narrower t (.within (t.global ⟨1⟩))
      = .within (t.global ⟨2⟩) := by
  obtain ⟨t, ht⟩ : ∃ t, (mirrors.outline ⟨0⟩ {} ∅).map.tree = t := ⟨_, rfl⟩
  have hsize : t.size = 3 := by rw [← ht]; cbv
  have hwider : (Visibility.within (t.global .root)).isWiderThan t (.within (t.global ⟨1⟩))
      = true := by rw [← ht]; cbv
  have hroot : (Visibility.within (t.global .root)).isVisibleFrom t ⟨1⟩ = true := by
    rw [← ht]; cbv
  have hinside : (Visibility.within (t.global ⟨1⟩)).isVisibleFrom t ⟨1⟩ = true := by
    rw [← ht]; cbv
  obtain ⟨-, -, -, hobservers, hmeet⟩ := visibility_order_and_meet t
  refine ⟨t, ht, (hobservers .root ⟨1⟩ ?_ ?_).1 hwider, ?_, ?_, ?_⟩
  · rw [hsize]
    decide
  · rw [hsize]
    decide
  · rw [(hmeet ⟨1⟩ _ _ hinside hroot).2.1]
    exact if_pos hwider
  · rw [← ht]; cbv
  · rw [← ht]; cbv

end CrateScope
