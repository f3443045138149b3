import CrateScope.Proofs.Reachability

/-!
# The order of building

An order is made by visiting the crates one after the other, and before a crate is added, those that
it lists are visited.  A visit sets the mark of its crate twice, when it begins and when it ends,
and what it adds to the order are crates that were fresh, each after everything it depends on.  The
crates in progress are exactly those of which the visits are open right now; each of them reaches
the crate that is visited next, so that coming to one of them again closes a cycle.

## Main definitions

* `CrateGraph.Marks`, `CrateGraph.MarksAll` — a visit as a change of marks and order.
* `CrateGraph.Comes` — where a visit begins, and which visits are open then.
* `CrateGraph.Prolongs` — what a visit makes of an order.
* `CrateGraph.Blames` — an error tells what is wrong with the graph.

## Main results

* `CrateGraph.marks_visit` — a visit goes by the marks of all crates and sets that of its own.
* `CrateGraph.marksAll_topologicalOrder` — so the order is made by the marks.
* `CrateGraph.Comes.mark_eq_inProgress_iff` — in progress are the crates with an open visit.
* `CrateGraph.visit_prolongs` — a visit that succeeds prolongs the order up to its crate.
* `CrateGraph.visit_error` — a visit that fails is right about the reason.
* `CrateGraph.topologicalOrder_is_sound_and_complete` — when there is an order, and what it is.
-/

namespace CrateScope

open Relation

namespace CrateGraph

variable {g : CrateGraph} {id : CrateId} {fresh done done' order stack : List CrateId}

/-! ### One visit -/

theorem visit_of_done (h : mark fresh done id = .done) : g.visit fresh done id = .ok done := by
  rw [visit]
  split <;> simp_all

theorem visit_of_inProgress (h : mark fresh done id = .inProgress) :
    g.visit fresh done id = .error (.dependencyCycle (g.nameOf id)) := by
  rw [visit]
  split <;> simp_all

theorem visit_of_unvisited (h : mark fresh done id = .unvisited) :
    g.visit fresh done id = (do
      let direct ← g.dependencies id
      let done ← direct.foldlM (g.visit (fresh.erase id)) done
      return done ++ [id]) := by
  rw [visit]
  split
  · next h' => rw [h] at h'; cases h'
  · next h' => rw [h] at h'; cases h'
  · rfl

/-! ### Marks -/

/-- A visit that begins sets the mark of its crate, and no other one. -/
theorem mark_begin (hnd : fresh.Nodup) (h : mark fresh done id = .unvisited) :
    mark (fresh.erase id) done = Function.update (mark fresh done) id .inProgress := by
  obtain ⟨hdone, -⟩ := mark_eq_unvisited_iff.1 h
  funext x
  by_cases hx : x = id
  · rw [hx, Function.update_self]
    exact mark_eq_inProgress_iff.2 ⟨hdone, hnd.not_mem_erase⟩
  · rw [Function.update_of_ne hx]
    unfold mark
    simp only [List.mem_erase_of_ne hx]

/-- A visit that ends does so as well. -/
theorem mark_end (fresh done : List CrateId) (id : CrateId) :
    mark fresh (done ++ [id]) = Function.update (mark (fresh.erase id) done) id .done := by
  funext x
  by_cases hx : x = id
  · rw [hx, Function.update_self]
    exact mark_eq_done_iff.2 (List.mem_append_right _ List.mem_cons_self)
  · rw [Function.update_of_ne hx]
    unfold mark
    simp [hx, List.mem_erase_of_ne hx]

mutual

/-- A visit of a crate, told by the marks of all crates and the order: what they are before, and
either what they are afterwards or the error. -/
inductive Marks (g : CrateGraph) : (CrateId → Mark) → List CrateId → CrateId →
    Except GraphError ((CrateId → Mark) × List CrateId) → Prop
  | done {marks : CrateId → Mark} {order : List CrateId} {id : CrateId} (h : marks id = .done) :
      Marks g marks order id (.ok (marks, order))
  | again {marks : CrateId → Mark} {order : List CrateId} {id : CrateId}
      (h : marks id = .inProgress) :
      Marks g marks order id (.error (.dependencyCycle (g.nameOf id)))
  | unknown {marks : CrateId → Mark} {order : List CrateId} {id : CrateId} {e : GraphError}
      (h : marks id = .unvisited) (hdirect : g.dependencies id = .error e) :
      Marks g marks order id (.error e)
  | failed {marks : CrateId → Mark} {order direct : List CrateId} {id : CrateId} {e : GraphError}
      (h : marks id = .unvisited) (hdirect : g.dependencies id = .ok direct)
      (hall : MarksAll g (Function.update marks id .inProgress) order direct (.error e)) :
      Marks g marks order id (.error e)
  | visited {marks marks' : CrateId → Mark} {order order' direct : List CrateId} {id : CrateId}
      (h : marks id = .unvisited) (hdirect : g.dependencies id = .ok direct)
      (hall : MarksAll g (Function.update marks id .inProgress) order direct
        (.ok (marks', order'))) :
      Marks g marks order id (.ok (Function.update marks' id .done, order' ++ [id]))

/-- The same of visits in turn. -/
inductive MarksAll (g : CrateGraph) : (CrateId → Mark) → List CrateId → List CrateId →
    Except GraphError ((CrateId → Mark) × List CrateId) → Prop
  | nil (marks : CrateId → Mark) (order : List CrateId) :
      MarksAll g marks order [] (.ok (marks, order))
  | failed {marks : CrateId → Mark} {order crates : List CrateId} {id : CrateId} {e : GraphError}
      (h : Marks g marks order id (.error e)) : MarksAll g marks order (id :: crates) (.error e)
  | cons {marks marks' : CrateId → Mark} {order order' crates : List CrateId} {id : CrateId}
      {outcome : Except GraphError ((CrateId → Mark) × List CrateId)}
      (h : Marks g marks order id (.ok (marks', order')))
      (hall : MarksAll g marks' order' crates outcome) :
      MarksAll g marks order (id :: crates) outcome

end

/-- Visits in turn set the marks that each of them sets. -/
theorem marksAll_foldlM
    (hvisit : ∀ done id, g.Marks (mark fresh done) done id
      ((g.visit fresh done id).map fun order => (mark fresh order, order)))
    (crates done : List CrateId) : g.MarksAll (mark fresh done) done crates
      ((crates.foldlM (g.visit fresh) done).map fun order => (mark fresh order, order)) := by
  induction crates generalizing done with
  | nil => exact .nil _ _
  | cons crate crates ih =>
    have hfirst := hvisit done crate
    rw [List.foldlM_cons]
    cases h : g.visit fresh done crate with
    | error e =>
      rw [h] at hfirst
      exact .failed hfirst
    | ok next =>
      rw [h] at hfirst
      exact .cons hfirst (ih next)

/-- A visit goes by the marks alone: what the lists of fresh and done crates say is what the marks
are from its beginning to its end. -/
theorem marks_visit (hnd : fresh.Nodup) (done : List CrateId) (id : CrateId) :
    g.Marks (mark fresh done) done id
      ((g.visit fresh done id).map fun order => (mark fresh order, order)) := by
  induction fresh, done, id using visit.induct with
  | case1 fresh done id hmark =>
    rw [visit_of_done hmark]
    exact .done hmark
  | case2 fresh done id hmark =>
    rw [visit_of_inProgress hmark]
    exact .again hmark
  | case3 fresh done id hmark ih =>
    rw [visit_of_unvisited hmark]
    cases hdirect : g.dependencies id with
    | error e => exact .unknown hmark hdirect
    | ok direct =>
      have hall := marksAll_foldlM (fun done d => ih done d (hnd.erase id)) direct done
      rw [mark_begin hnd hmark] at hall
      change g.Marks _ done id ((direct.foldlM (g.visit (fresh.erase id)) done >>= _).map _)
      cases hothers : direct.foldlM (g.visit (fresh.erase id)) done with
      | error e =>
        rw [hothers] at hall
        exact .failed hmark hdirect hall
      | ok done' =>
        rw [hothers] at hall
        change g.Marks _ done id (.ok (mark fresh (done' ++ [id]), done' ++ [id]))
        rw [mark_end]
        exact .visited hmark hdirect hall

/-- The order of all crates is made by the marks, and at first no crate has been visited. -/
theorem marksAll_topologicalOrder (g : CrateGraph) :
    (∀ x ∈ g.ids, mark g.ids [] x = .unvisited) ∧
      g.MarksAll (mark g.ids []) [] g.ids
        (g.topologicalOrder.map fun order => (mark g.ids order, order)) :=
  ⟨fun _ hx => mark_eq_unvisited_iff.2 ⟨List.not_mem_nil, hx⟩,
    marksAll_foldlM (marks_visit g.nodup_ids) g.ids []⟩

/-! ### Visits that succeed -/

/-- The order `done'` goes on from `done` with some crates that were fresh.  If the crates of `done`
were different, known and in order, so are those of `done'`. -/
structure Prolongs (g : CrateGraph) (fresh done done' : List CrateId) : Prop where
  before : ∀ x ∈ done, x ∈ done'
  added : ∀ x ∈ done', x ∈ done ∨ x ∈ fresh
  nodup : done.Nodup → done'.Nodup
  known : (∀ x ∈ done, ¬ g.ListsUnknown x) → ∀ x ∈ done', ¬ g.ListsUnknown x
  respects : g.Respects done → g.Respects done'

namespace Prolongs

theorem refl (g : CrateGraph) (fresh done : List CrateId) : g.Prolongs fresh done done :=
  ⟨fun _ h => h, fun _ h => Or.inl h, fun h => h, fun h => h, fun h => h⟩

theorem trans {done'' : List CrateId} (h : g.Prolongs fresh done done')
    (h' : g.Prolongs fresh done' done'') : g.Prolongs fresh done done'' where
  before x hx := h'.before x (h.before x hx)
  added x hx := (h'.added x hx).elim (h.added x) Or.inr
  nodup hnd := h'.nodup (h.nodup hnd)
  known hknown := h'.known (h.known hknown)
  respects hrespects := h'.respects (h.respects hrespects)

/-- A crate whose dependencies are all there can be added. -/
theorem concat {direct : List CrateId} (h : g.Prolongs (fresh.erase id) done done')
    (hnd : fresh.Nodup) (hdone : id ∉ done) (hfresh : id ∈ fresh)
    (hdirect : g.dependencies id = .ok direct) (hall : ∀ d ∈ direct, d ∈ done') :
    g.Prolongs fresh done (done' ++ [id]) where
  before x hx := List.mem_append_left _ (h.before x hx)
  added x hx := by
    rcases List.mem_append.1 hx with hx | hx
    · exact (h.added x hx).imp_right List.mem_of_mem_erase
    · rw [List.mem_singleton.1 hx]
      exact Or.inr hfresh
  nodup hdone' := by
    have hid : id ∉ done' := fun hmem =>
      (h.added id hmem).elim hdone hnd.not_mem_erase
    rw [← List.concat_eq_append]
    exact (h.nodup hdone').concat hid
  known hknown x hx := by
    rcases List.mem_append.1 hx with hx | hx
    · exact h.known hknown x hx
    · rw [List.mem_singleton.1 hx]
      exact not_listsUnknown_iff.2 ⟨direct, hdirect⟩
  respects hrespects := (h.respects hrespects).concat fun e he =>
    hall e ((CrateGraph.mem_dependencies hdirect).2 he)

end Prolongs

/-- Visits in turn prolong the order if each of them does. -/
theorem foldlM_prolongs {crates : List CrateId}
    (hvisit : ∀ done id done', g.visit fresh done id = .ok done' →
      g.Prolongs fresh done done' ∧ id ∈ done')
    (h : crates.foldlM (g.visit fresh) done = .ok done') :
    g.Prolongs fresh done done' ∧ ∀ x ∈ crates, x ∈ done' := by
  induction crates generalizing done with
  | nil =>
    cases h
    exact ⟨.refl g fresh _, fun x hx => absurd hx List.not_mem_nil⟩
  | cons crate crates ih =>
    rw [List.foldlM_cons] at h
    obtain ⟨next, hnext, h⟩ := ok_of_bind h
    obtain ⟨hfirst, hcrate⟩ := hvisit done crate next hnext
    obtain ⟨hothers, hall⟩ := ih h
    refine ⟨hfirst.trans hothers, fun x hx => ?_⟩
    rcases List.mem_cons.1 hx with rfl | hx
    · exact hothers.before x hcrate
    · exact hall x hx

/-- A visit that succeeds prolongs the order, at least up to the crate that is visited. -/
theorem visit_prolongs (hnd : fresh.Nodup) (h : g.visit fresh done id = .ok done') :
    g.Prolongs fresh done done' ∧ id ∈ done' := by
  induction fresh, done, id using visit.induct generalizing done' with
  | case1 fresh done id hmark =>
    rw [visit_of_done hmark] at h
    cases h
    exact ⟨.refl g fresh done, mark_eq_done_iff.1 hmark⟩
  | case2 fresh done id hmark =>
    rw [visit_of_inProgress hmark] at h
    cases h
  | case3 fresh done id hmark ih =>
    obtain ⟨hdone, hfresh⟩ := mark_eq_unvisited_iff.1 hmark
    rw [visit_of_unvisited hmark] at h
    obtain ⟨direct, hdirect, h⟩ := ok_of_bind h
    obtain ⟨done₁, hothers, h⟩ := ok_of_bind h
    cases h
    obtain ⟨hprolongs, hall⟩ := foldlM_prolongs
      (fun done d done' h => ih done d (hnd.erase id) h) hothers
    exact ⟨hprolongs.concat hnd hdone hfresh hdirect hall,
      List.mem_append_right _ List.mem_cons_self⟩

/-! ### Open visits -/

/-- With these crates fresh and done the visit of `id` begins, while the visits of the crates in
`stack` are open, the last one first. -/
inductive Comes (g : CrateGraph) :
    List CrateId → List CrateId → List CrateId → CrateId → Prop
  | outermost {before after done : List CrateId} {id : CrateId}
      (hids : g.ids = before ++ id :: after)
      (hbefore : before.foldlM (g.visit g.ids) [] = .ok done) : Comes g [] g.ids done id
  | inner {stack fresh done done' before after : List CrateId} {id d : CrateId}
      (h : Comes g stack fresh done id) (hmark : mark fresh done id = .unvisited)
      (hdirect : g.dependencies id = .ok (before ++ d :: after))
      (hbefore : before.foldlM (g.visit (fresh.erase id)) done = .ok done') :
      Comes g (id :: stack) (fresh.erase id) done' d

/-- Where the visit of `id` begins, the crates with an open visit are different, not fresh and not
done, and each of them reaches `id`. -/
structure Descent (g : CrateGraph) (stack fresh done : List CrateId) (id : CrateId) : Prop where
  known : id ∈ g.ids
  nodup : fresh.Nodup
  nodup_stack : stack.Nodup
  mem_fresh : ∀ x, x ∈ fresh ↔ x ∈ g.ids ∧ x ∉ stack
  inside : ∀ x ∈ stack, x ∈ g.ids
  apart : ∀ x ∈ stack, x ∉ done
  reaches : ∀ x ∈ stack, TransGen g.Lists x id

theorem Comes.descent (h : g.Comes stack fresh done id) : g.Descent stack fresh done id := by
  induction h with
  | @outermost before after done id hids hbefore =>
    exact ⟨by rw [hids]; exact List.mem_append_right _ List.mem_cons_self, g.nodup_ids,
      List.nodup_nil, fun x => by simp, fun x hx => absurd hx List.not_mem_nil,
      fun x hx => absurd hx List.not_mem_nil, fun x hx => absurd hx List.not_mem_nil⟩
  | @inner stack fresh done done' before after id d h hmark hdirect hbefore ih =>
    obtain ⟨hdone, hmem⟩ := mark_eq_unvisited_iff.1 hmark
    have hlists : g.Lists id d :=
      (mem_dependencies_iff hdirect).1 (List.mem_append_right _ List.mem_cons_self)
    have hnew : id ∉ stack := ((ih.mem_fresh id).1 hmem).2
    have hadded :=
      (foldlM_prolongs (fun _ _ _ => visit_prolongs (ih.nodup.erase id)) hbefore).1.added
    refine ⟨hlists.mem_ids, ih.nodup.erase id, List.nodup_cons.2 ⟨hnew, ih.nodup_stack⟩,
      fun x => ?_, fun x hx => ?_, fun x hx hx' => ?_, fun x hx => ?_⟩
    · rw [ih.nodup.mem_erase_iff, ih.mem_fresh, List.mem_cons, not_or]
      tauto
    · rcases List.mem_cons.1 hx with rfl | hx
      · exact ih.known
      · exact ih.inside x hx
    · -- The visits before that of `d` add only crates without an open visit.
      rcases hadded x hx' with hold | hfresh <;> rcases List.mem_cons.1 hx with rfl | hx
      · exact hdone hold
      · exact ih.apart x hx hold
      · exact ih.nodup.not_mem_erase hfresh
      · exact ((ih.mem_fresh x).1 (List.mem_of_mem_erase hfresh)).2 hx
    · rcases List.mem_cons.1 hx with rfl | hx
      · exact .single hlists
      · exact (ih.reaches x hx).tail hlists

/-- **In progress are exactly the crates with an open visit.** -/
theorem Comes.mark_eq_inProgress_iff (h : g.Comes stack fresh done id) {x : CrateId}
    (hx : x ∈ g.ids) : mark fresh done x = .inProgress ↔ x ∈ stack := by
  have hdescent := h.descent
  rw [CrateGraph.mark_eq_inProgress_iff, hdescent.mem_fresh, not_and, not_not]
  exact ⟨fun hmark => hmark.2 hx, fun hmem => ⟨hdescent.apart x hmem, fun _ => hmem⟩⟩

/-! ### Visits that fail -/

/-- An error tells what is wrong with the graph: a crate that lies on a cycle, or a name that a
crate lists and none has. -/
def Blames (g : CrateGraph) (e : GraphError) : Prop :=
  (∃ a x, g.crate? a = some x ∧ e = .dependencyCycle x.name ∧ TransGen g.Lists a a) ∨
    ∃ a x name, g.crate? a = some x ∧ e = .unknownDependency x.name name ∧
      name ∈ x.dependencies ∧ name ∉ g.crates.map CrateSource.name

theorem nameOf_eq {a : CrateId} {x : CrateSource} (h : g.crate? a = some x) :
    g.nameOf a = x.name := by
  unfold nameOf
  rw [h]
  rfl

/-- A visit fails for a reason: a crate in progress has an open visit and so reaches itself. -/
theorem visit_error {e : GraphError} (hcomes : g.Comes stack fresh done id)
    (h : g.visit fresh done id = .error e) : g.Blames e := by
  induction fresh, done, id using visit.induct generalizing stack with
  | case1 fresh done id hmark =>
    rw [visit_of_done hmark] at h
    cases h
  | case2 fresh done id hmark =>
    rw [visit_of_inProgress hmark] at h
    cases h
    have hdescent := hcomes.descent
    have hopen := (hcomes.mark_eq_inProgress_iff hdescent.known).1 hmark
    obtain ⟨x, hx⟩ := exists_crate?_of_mem_ids hdescent.known
    exact Or.inl ⟨id, x, hx, by rw [nameOf_eq hx], hdescent.reaches id hopen⟩
  | case3 fresh done id hmark ih =>
    rw [visit_of_unvisited hmark] at h
    rcases error_of_bind h with h | ⟨direct, hdirect, h⟩
    · obtain ⟨x, name, hx, hname, hunknown, rfl⟩ := dependencies_error h
      exact Or.inr ⟨id, x, name, hx, rfl, hname, hunknown⟩
    · rcases error_of_bind h with h | ⟨done₁, -, h⟩
      · obtain ⟨before, d, after, done₁, rfl, hbefore, h⟩ := split_of_foldlM_error h
        exact ih done₁ d (hcomes.inner hmark hdirect hbefore) h
      · cases h

/-! ### The order of all crates -/

/-- An order has every crate once and after what it depends on, and all names in the graph are
known. -/
theorem prolongs_of_topologicalOrder (h : g.topologicalOrder = .ok order) :
    g.Prolongs g.ids [] order ∧ ∀ x ∈ g.ids, x ∈ order :=
  foldlM_prolongs (fun _ _ _ => visit_prolongs g.nodup_ids) h

/-- Where there is no order, something is wrong with the graph. -/
theorem topologicalOrder_error {e : GraphError} (h : g.topologicalOrder = .error e) :
    g.Blames e := by
  obtain ⟨before, id, after, done, hids, hbefore, h⟩ := split_of_foldlM_error h
  exact visit_error (.outermost hids hbefore) h

theorem ListsUnknown.mem_ids {a : CrateId} (h : g.ListsUnknown a) : a ∈ g.ids := by
  obtain ⟨x, hx, -⟩ := h
  exact mem_ids_of_crate? hx

/-- With an order all names are known. -/
theorem known_of_topologicalOrder (h : g.topologicalOrder = .ok order) (a : CrateId) :
    ¬ g.ListsUnknown a := by
  obtain ⟨hprolongs, hall⟩ := prolongs_of_topologicalOrder h
  intro hunknown
  exact hprolongs.known (fun x hx => absurd hx List.not_mem_nil) a (hall a hunknown.mem_ids)
    hunknown

theorem respects_of_topologicalOrder (h : g.topologicalOrder = .ok order) :
    g.Respects order :=
  (prolongs_of_topologicalOrder h).1.respects .nil

/-- Where all names are known, dependencies can be looked up everywhere. -/
theorem lists_iff_dependsOn (hknown : ∀ a, ¬ g.ListsUnknown a) {a b : CrateId} :
    g.Lists a b ↔ g.DependsOn a b := by
  refine ⟨fun hlists => ?_, DependsOn.lists⟩
  obtain ⟨direct, hdirect⟩ := not_listsUnknown_iff.1 (hknown a)
  exact hlists.dependsOn hdirect

/-- With an order there is no cycle. -/
theorem acyclic_of_topologicalOrder (h : g.topologicalOrder = .ok order) (a : CrateId) :
    ¬ TransGen g.Lists a a := by
  intro hcycle
  obtain ⟨hprolongs, hall⟩ := prolongs_of_topologicalOrder h
  have hdepends : TransGen g.DependsOn a a := by
    refine TransGen.mono (fun _ _ => ?_) _ _ hcycle
    exact (lists_iff_dependsOn (known_of_topologicalOrder h)).1
  obtain ⟨b, -, hba⟩ := TransGen.tail'_iff.1 hcycle
  obtain ⟨before, after, rfl⟩ := List.append_of_mem (hall a hba.mem_ids)
  -- The crate would have to come before itself.
  have hbefore := (respects_of_topologicalOrder h).mem_of_transGen rfl hdepends
  have hnd := List.nodup_append.1 (hprolongs.nodup List.nodup_nil)
  exact hnd.2.2 a hbefore a List.mem_cons_self rfl

/-- There is an order exactly when all names are known and there is no cycle. -/
theorem topologicalOrder_isOk_iff (g : CrateGraph) : (∃ order, g.topologicalOrder = .ok order) ↔
    (∀ a, ¬ g.ListsUnknown a) ∧ ∀ a, ¬ TransGen g.Lists a a := by
  constructor
  · rintro ⟨order, h⟩
    exact ⟨known_of_topologicalOrder h, acyclic_of_topologicalOrder h⟩
  · rintro ⟨hknown, hacyclic⟩
    cases h : g.topologicalOrder with
    | ok order => exact ⟨order, rfl⟩
    | error e =>
      rcases topologicalOrder_error h with ⟨a, x, -, -, hcycle⟩ | ⟨a, x, name, hx, -, hname, hnone⟩
      · exact absurd hcycle (hacyclic a)
      · exact absurd ⟨x, hx, name, hname, hnone⟩ (hknown a)

/-- There is none exactly when something is wrong with the graph. -/
theorem topologicalOrder_isError_iff (g : CrateGraph) : (∃ e, g.topologicalOrder = .error e) ↔
    (∃ a, g.ListsUnknown a) ∨ ∃ a, TransGen g.Lists a a := by
  have hok := g.topologicalOrder_isOk_iff
  rw [← not_exists, ← not_exists, ← not_or] at hok
  rw [← not_iff_not, ← hok]
  cases g.topologicalOrder <;> simp

/-- **The order of building is sound and complete.**

* There is an order exactly when all names that are listed are known and no crate lies on a cycle,
  not even with itself.
* The order has every crate exactly once, after everything that it lists.
* An error tells of a crate that lies on a cycle, or of a name that a crate lists and none has. -/
theorem topologicalOrder_is_sound_and_complete (g : CrateGraph) :
    ((∃ order, g.topologicalOrder = .ok order) ↔
      (∀ a, ¬ g.ListsUnknown a) ∧ ∀ a, ¬ TransGen g.Lists a a) ∧
    (∀ order, g.topologicalOrder = .ok order →
      order.Nodup ∧ (∀ a, a ∈ order ↔ (g.crate? a).isSome) ∧
      ∀ before a after, order = before ++ a :: after → ∀ b, g.Lists a b → b ∈ before) ∧
    (∀ name, g.topologicalOrder = .error (.dependencyCycle name) →
      ∃ a x, g.crate? a = some x ∧ x.name = name ∧ TransGen g.Lists a a) ∧
    (∀ crate dependency, g.topologicalOrder = .error (.unknownDependency crate dependency) →
      ∃ a x, g.crate? a = some x ∧ x.name = crate ∧ dependency ∈ x.dependencies ∧
        dependency ∉ g.crates.map CrateSource.name) ∧
    ∀ e, g.topologicalOrder = .error e →
      (∃ name, e = .dependencyCycle name) ∨
        ∃ crate dependency, e = .unknownDependency crate dependency := by
  refine ⟨g.topologicalOrder_isOk_iff, fun order h => ⟨?nodup, fun a => ?all, ?after⟩, ?cycle,
    ?unknown, ?errors⟩
  case nodup => exact (prolongs_of_topologicalOrder h).1.nodup List.nodup_nil
  case all =>
    obtain ⟨hprolongs, hall⟩ := prolongs_of_topologicalOrder h
    constructor
    · intro ha
      obtain ⟨x, hx⟩ := exists_crate?_of_mem_ids
        ((hprolongs.added a ha).resolve_left List.not_mem_nil)
      rw [hx]
      rfl
    · intro ha
      obtain ⟨x, hx⟩ := Option.isSome_iff_exists.1 ha
      exact hall a (mem_ids_of_crate? hx)
  case after =>
    intro before a after horder b hab
    have hdepends := (lists_iff_dependsOn (known_of_topologicalOrder h)).1 hab
    exact respects_of_topologicalOrder h before a after horder b hdepends
  case cycle =>
    intro name h
    rcases topologicalOrder_error h with ⟨a, x, hx, he, hcycle⟩ | ⟨a, x, dependency, -, he, -⟩
    · cases he
      exact ⟨a, x, hx, rfl, hcycle⟩
    · cases he
  case unknown =>
    intro crate dependency h
    rcases topologicalOrder_error h with ⟨a, x, -, he, -⟩ | ⟨a, x, name, hx, he, hname, hnone⟩
    · cases he
    · cases he
      exact ⟨a, x, hx, rfl, hname, hnone⟩
  case errors =>
    intro e h
    rcases topologicalOrder_error h with ⟨a, x, -, rfl, -⟩ | ⟨a, x, name, -, rfl, -⟩
    · exact Or.inl ⟨x.name, rfl⟩
    · exact Or.inr ⟨x.name, name, rfl⟩

/-! ### A graph with two ways to one crate -/

/-- A graph in which two dependencies of a crate depend on a third one. -/
def forkedGraph : CrateGraph where
  crates :=
    [{ name := "app", dependencies := ["serde", "log"] },
      { name := "serde", dependencies := ["core"] },
      { name := "log", dependencies := ["core"] },
      { name := "core" }]
  nodup_names := by decide

/-- This graph has an order, with what all the others need at its head.  The graph with a cycle has
none, and the error names a crate on the cycle. -/
theorem topologicalOrder_is_sound_and_complete_forked :
    forkedGraph.topologicalOrder = .ok [⟨3⟩, ⟨1⟩, ⟨2⟩, ⟨0⟩] ∧
    (∀ a, ¬ TransGen forkedGraph.Lists a a) ∧
    (∀ b, forkedGraph.Lists ⟨0⟩ b → b ∈ [⟨3⟩, ⟨1⟩, ⟨2⟩]) ∧
    knottedGraph.topologicalOrder = .error (.dependencyCycle "here") ∧
    ∃ a x, knottedGraph.crate? a = some x ∧ x.name = "here" ∧
      TransGen knottedGraph.Lists a a := by
  have hok : forkedGraph.topologicalOrder = .ok [⟨3⟩, ⟨1⟩, ⟨2⟩, ⟨0⟩] := by cbv
  have hcycle : knottedGraph.topologicalOrder = .error (.dependencyCycle "here") := by cbv
  obtain ⟨hiff, hexact, -⟩ := topologicalOrder_is_sound_and_complete forkedGraph
  obtain ⟨-, -, hnamed, -⟩ := topologicalOrder_is_sound_and_complete knottedGraph
  exact ⟨hok, (hiff.1 ⟨_, hok⟩).2, (hexact _ hok).2.2 [⟨3⟩, ⟨1⟩, ⟨2⟩] ⟨0⟩ [] rfl, hcycle,
    hnamed "here" hcycle⟩

end CrateGraph

end CrateScope
