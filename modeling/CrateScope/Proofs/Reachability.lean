import CrateScope.Proofs.History
import Mathlib.Algebra.BigOperators.Group.List.Lemmas

/-!
# What the search for dependencies finds

A crate lists names, and the search for everything that it reaches turns them into crates one at a
time.  Here the relation between crates is read off the declarations alone, without the functions
that look dependencies up, and the search is compared with it.

The search is a loop over a stack.  In each turn the crate on top is taken up, and what it lists is
put on the stack; or it was found before, and is dropped.  What is left to do goes down by one in
every turn, although the stack can grow: it is what lies on the stack together with what the crates
that were not taken up still list.  So no search makes more turns than the graph lists dependencies.

## Main definitions

* `CrateGraph.Lists`, `CrateGraph.ListsUnknown` — what the declaration of a crate says.
* `CrateGraph.Search`, `CrateGraph.Turn`, `CrateGraph.Ends` — the loop, one turn of it, and where it
  ends with which answer.
* `CrateGraph.Search.toDo` — what is left to do.

## Main results

* `CrateGraph.mem_dependencies_iff` — what a crate lists is what is looked up for it.
* `CrateGraph.toDo_turn` — each turn leaves less to do, by one.
* `CrateGraph.walk_reach` — the search is the loop.
* `CrateGraph.transitiveDependencies_are_exact` — when there is an answer, what it is, and after how
  many turns.
-/

namespace CrateScope

open Relation

/-! ### Rows of computations that can fail -/

section Rows

variable {ε α β : Type} {f : α → Except ε β} {as : List α} {bs : List β}

/-- Each element of a row has its part in what comes out. -/
theorem exists_mem_of_mapM (h : as.mapM f = .ok bs) : ∀ a ∈ as, ∃ b ∈ bs, f a = .ok b := by
  induction as generalizing bs with
  | nil => exact fun a ha => absurd ha List.not_mem_nil
  | cons a as ih =>
    rw [List.mapM_cons] at h
    obtain ⟨first, hfirst, h⟩ := ok_of_bind h
    obtain ⟨others, hothers, h⟩ := ok_of_bind h
    cases h
    intro a' ha'
    rcases List.mem_cons.1 ha' with rfl | ha'
    · exact ⟨first, List.mem_cons_self, hfirst⟩
    · obtain ⟨b, hb, hf⟩ := ih hothers a' ha'
      exact ⟨b, List.mem_cons_of_mem first hb, hf⟩

theorem length_of_mapM (h : as.mapM f = .ok bs) : bs.length = as.length := by
  induction as generalizing bs with
  | nil =>
    cases h
    rfl
  | cons a as ih =>
    rw [List.mapM_cons] at h
    obtain ⟨first, -, h⟩ := ok_of_bind h
    obtain ⟨others, hothers, h⟩ := ok_of_bind h
    cases h
    rw [List.length_cons, List.length_cons, ih hothers]

/-- A row that fails fails at one of its elements. -/
theorem error_of_mapM {e : ε} (h : as.mapM f = .error e) : ∃ a ∈ as, f a = .error e := by
  induction as with
  | nil => cases h
  | cons a as ih =>
    rw [List.mapM_cons] at h
    rcases error_of_bind h with h | ⟨first, -, h⟩
    · exact ⟨a, List.mem_cons_self, h⟩
    · rcases error_of_bind h with h | ⟨others, -, h⟩
      · obtain ⟨a', ha', hf⟩ := ih h
        exact ⟨a', List.mem_cons_of_mem a ha', hf⟩
      · cases h

end Rows

namespace CrateGraph

variable {g : CrateGraph} {id a b : CrateId} {direct : List CrateId}

/-! ### What declarations say -/

/-- The declaration of the crate `a` lists the name of the crate `b`, whatever else it lists. -/
def Lists (g : CrateGraph) (a b : CrateId) : Prop :=
  ∃ x y, g.crate? a = some x ∧ g.crate? b = some y ∧ y.name ∈ x.dependencies

/-- The declaration of the crate `a` lists a name that no crate of the graph has. -/
def ListsUnknown (g : CrateGraph) (a : CrateId) : Prop :=
  ∃ x, g.crate? a = some x ∧ ∃ name ∈ x.dependencies, name ∉ g.crates.map CrateSource.name

instance (g : CrateGraph) (a b : CrateId) : Decidable (g.Lists a b) :=
  decidable_of_iff (((g.crate? a).any fun x =>
    (g.crate? b).any fun y => decide (y.name ∈ x.dependencies)) = true)
    (by simp [Lists, Option.any_eq_true])

instance (g : CrateGraph) (a : CrateId) : Decidable (g.ListsUnknown a) :=
  decidable_of_iff (((g.crate? a).any fun x =>
    x.dependencies.any fun name => decide (name ∉ g.crates.map CrateSource.name)) = true)
    (by simp [ListsUnknown, Option.any_eq_true])

/-- A name stands for the crate that has it. -/
theorem idOf?_eq_some_iff {name : String} :
    g.idOf? name = some b ↔ ∃ y, g.crate? b = some y ∧ y.name = name := by
  unfold idOf? crate?
  constructor
  · intro h
    obtain ⟨i, hi, rfl⟩ := Option.map_eq_some_iff.1 h
    obtain ⟨hlt, hname, -⟩ := List.findIdx?_eq_some_iff_getElem.1 hi
    exact ⟨g.crates[i], List.getElem?_eq_getElem hlt, eq_of_beq hname⟩
  · rintro ⟨y, hy, rfl⟩
    obtain ⟨hlt, rfl⟩ := List.getElem?_eq_some_iff.1 hy
    refine Option.map_eq_some_iff.2 ⟨b.index, List.findIdx?_eq_some_iff_getElem.2
      ⟨hlt, beq_self_eq_true _, fun j hj hname => ?_⟩, rfl⟩
    -- No crate before it has its name.
    have hlt' : b.index < (g.crates.map CrateSource.name).length := by simpa using hlt
    have hj' := Nat.lt_trans hj hlt'
    have hsame : (g.crates.map CrateSource.name)[j] = (g.crates.map CrateSource.name)[b.index] := by
      simpa using hname
    have heq := g.nodup_names.getElem_inj_iff.1 hsame
    omega

theorem idOf?_eq_none_iff {name : String} :
    g.idOf? name = none ↔ name ∉ g.crates.map CrateSource.name := by
  unfold idOf?
  rw [Option.map_eq_none_iff, List.findIdx?_eq_none_iff]
  simp

theorem mem_ids_of_crate? {x : CrateSource} (h : g.crate? a = some x) : a ∈ g.ids := by
  obtain ⟨hlt, -⟩ := List.getElem?_eq_some_iff.1 h
  exact List.mem_map_of_mem (List.mem_range.2 hlt)

theorem exists_crate?_of_mem_ids (h : a ∈ g.ids) : ∃ x, g.crate? a = some x := by
  obtain ⟨i, hi, rfl⟩ := List.mem_map.1 h
  exact ⟨_, List.getElem?_eq_getElem (List.mem_range.1 hi)⟩

theorem Lists.mem_ids (h : g.Lists a b) : b ∈ g.ids := by
  obtain ⟨x, y, -, hy, -⟩ := h
  exact mem_ids_of_crate? hy

/-- Where all names are known, the crates that are looked up are those that the declaration
lists. -/
theorem mem_dependencies_iff (h : g.dependencies a = .ok direct) : b ∈ direct ↔ g.Lists a b := by
  unfold dependencies at h
  split at h
  · next hnone =>
    cases h
    refine ⟨fun hb => absurd hb List.not_mem_nil, ?_⟩
    rintro ⟨x, y, hx, -⟩
    rw [hnone] at hx
    cases hx
  · next x hx =>
    constructor
    · intro hb
      obtain ⟨name, hname, hfound⟩ := exists_of_mem_mapM h b hb
      split at hfound
      · next hid =>
        cases hfound
        obtain ⟨y, hy, rfl⟩ := idOf?_eq_some_iff.1 hid
        exact ⟨x, y, hx, hy, hname⟩
      · cases hfound
    · rintro ⟨x', y, hx', hy, hname⟩
      obtain rfl := Option.some.inj (hx.symm.trans hx')
      obtain ⟨b', hb', hfound⟩ := exists_mem_of_mapM h y.name hname
      rw [idOf?_eq_some_iff.2 ⟨y, hy, rfl⟩] at hfound
      cases hfound
      exact hb'

/-- Looking the dependencies of a crate up fails at a name that it lists and no crate has. -/
theorem dependencies_error {e : GraphError} (h : g.dependencies a = .error e) :
    ∃ x name, g.crate? a = some x ∧ name ∈ x.dependencies ∧
      name ∉ g.crates.map CrateSource.name ∧ e = .unknownDependency x.name name := by
  unfold dependencies at h
  split at h
  · cases h
  · next x hx =>
    obtain ⟨name, hname, herror⟩ := error_of_mapM h
    split at herror
    · cases herror
    · next hnone =>
      cases herror
      exact ⟨x, name, hx, hname, idOf?_eq_none_iff.1 hnone, rfl⟩

/-- The dependencies of a crate can be looked up unless it lists an unknown name. -/
theorem not_listsUnknown_iff : ¬ g.ListsUnknown a ↔ ∃ direct, g.dependencies a = .ok direct := by
  constructor
  · intro hknown
    cases h : g.dependencies a with
    | ok direct => exact ⟨direct, rfl⟩
    | error e =>
      obtain ⟨x, name, hx, hname, hunknown, -⟩ := dependencies_error h
      exact absurd ⟨x, hx, name, hname, hunknown⟩ hknown
  · rintro ⟨direct, h⟩ ⟨x, hx, name, hname, hunknown⟩
    simp only [dependencies, hx] at h
    obtain ⟨b, -, hfound⟩ := exists_mem_of_mapM h name hname
    rw [idOf?_eq_none_iff.2 hunknown] at hfound
    cases hfound

theorem DependsOn.lists (h : g.DependsOn a b) : g.Lists a b := by
  obtain ⟨direct, hdirect, hb⟩ := h
  exact (mem_dependencies_iff hdirect).1 hb

theorem Lists.dependsOn (h : g.Lists a b) (hdirect : g.dependencies a = .ok direct) :
    g.DependsOn a b :=
  ⟨direct, hdirect, (mem_dependencies_iff hdirect).2 h⟩

/-! ### The loop -/

/-- Where the search stands: what was found, and what is still to be looked at, the next first. -/
structure Search where
  found : List CrateId
  stack : List CrateId

/-- One turn of the search for what `start` reaches. -/
inductive Turn (g : CrateGraph) (start : CrateId) : Search → Search → Prop
  /-- A crate is taken up, and what it depends on is put on the stack. -/
  | takeUp {found rest : List CrateId} {crate : CrateId} {direct : List CrateId}
      (hne : crate ≠ start) (hnew : crate ∉ found) (hdirect : g.dependencies crate = .ok direct) :
      Turn g start ⟨found, crate :: rest⟩ ⟨crate :: found, direct.reverse ++ rest⟩
  /-- A crate was found before. -/
  | drop {found rest : List CrateId} {crate : CrateId} (hne : crate ≠ start)
      (hold : crate ∈ found) : Turn g start ⟨found, crate :: rest⟩ ⟨found, rest⟩

/-- The search cannot go on, and has an answer. -/
inductive Ends (g : CrateGraph) (start : CrateId) :
    Search → Except GraphError (List CrateId) → Prop
  /-- Everything was looked at. -/
  | exhausted (found : List CrateId) : Ends g start ⟨found, []⟩ (.ok found)
  /-- The search came back to where it began. -/
  | returned (found rest : List CrateId) :
      Ends g start ⟨found, start :: rest⟩ (.error (.dependencyCycle (g.nameOf start)))
  /-- A crate lists an unknown name. -/
  | refused {found rest : List CrateId} {crate : CrateId} {e : GraphError} (hne : crate ≠ start)
      (hnew : crate ∉ found) (hdirect : g.dependencies crate = .error e) :
      Ends g start ⟨found, crate :: rest⟩ (.error e)

/-! ### How long the loop can run -/

/-- How many dependencies the declaration of a crate lists. -/
def listed (g : CrateGraph) (a : CrateId) : Nat :=
  ((g.crate? a).map fun x => x.dependencies.length).getD 0

/-- How many dependencies are listed in the whole graph. -/
def entryCount (g : CrateGraph) : Nat := (g.crates.map fun x => x.dependencies.length).sum

/-- The crates that the search can still take up. -/
def Search.untaken (g : CrateGraph) (start : CrateId) (s : Search) : List CrateId :=
  g.ids.filter fun x => x ≠ start ∧ x ∉ s.found

/-- What is left to do: what lies on the stack, and what can still come to lie there. -/
def Search.toDo (g : CrateGraph) (start : CrateId) (s : Search) : Nat :=
  s.stack.length + ((s.untaken g start).map g.listed).sum

theorem length_dependencies (h : g.dependencies a = .ok direct) : direct.length = g.listed a := by
  unfold dependencies at h
  unfold listed
  split at h
  · next hnone =>
    cases h
    rw [hnone]
    rfl
  · next x hx =>
    rw [length_of_mapM h, hx]
    rfl

/-- What a crate of the graph lists is part of what all of them list; any other lists nothing. -/
theorem listed_add_sum_erase {crates : List CrateId} (h : a ∈ g.ids → a ∈ crates) :
    g.listed a + ((crates.erase a).map g.listed).sum = (crates.map g.listed).sum := by
  by_cases hmem : a ∈ crates
  · exact List.sum_map_erase g.listed hmem
  · have hnone : g.crate? a = none := by
      cases hx : g.crate? a with
      | none => rfl
      | some x => exact absurd (h (mem_ids_of_crate? hx)) hmem
    rw [List.erase_of_not_mem hmem, listed, hnone]
    exact Nat.zero_add _

/-- A crate that is taken up leaves those that can still be. -/
theorem untaken_takeUp (start : CrateId) (found stack stack' : List CrateId) :
    (⟨a :: found, stack'⟩ : Search).untaken g start
      = ((⟨found, stack⟩ : Search).untaken g start).erase a := by
  unfold Search.untaken
  rw [(g.nodup_ids.filter _).erase_eq_filter, List.filter_filter]
  refine List.filter_congr fun x _ => ?_
  by_cases hx : x = a <;> simp [hx]

/-- Each turn leaves less to do, by one. -/
theorem toDo_turn {start : CrateId} {s s' : Search} (h : g.Turn start s s') :
    s.toDo g start = s'.toDo g start + 1 := by
  cases h with
  | @takeUp found rest crate direct hne hnew hdirect =>
    have hmem : crate ∈ g.ids → crate ∈ (⟨found, crate :: rest⟩ : Search).untaken g start :=
      fun hmem => List.mem_filter.2 ⟨hmem, by simpa using ⟨hne, hnew⟩⟩
    have hsum := listed_add_sum_erase hmem
    unfold Search.toDo
    rw [untaken_takeUp start found (crate :: rest), List.length_cons, List.length_append,
      List.length_reverse, length_dependencies hdirect]
    omega
  | @drop found rest crate hne hold =>
    change (crate :: rest).length + _ = rest.length + _ + 1
    rw [List.length_cons, Nat.add_right_comm]
    rfl

/-- A run of the loop leaves less to do by the number of its turns. -/
theorem toDo_walk {start : CrateId} {s s' : Search} {states : List Search}
    (h : Walk (g.Turn start) s states s') :
    s.toDo g start = s'.toDo g start + states.length := by
  induction h with
  | nil => rfl
  | cons hturn _ ih =>
    rw [toDo_turn hturn, ih, List.length_cons, Nat.add_assoc]

theorem sum_listed_ids (g : CrateGraph) : (g.ids.map g.listed).sum = g.entryCount := by
  unfold entryCount ids
  congr 1
  refine List.ext_getElem (by simp [size]) fun i hi hi' => ?_
  have hlt : i < g.crates.length := by simpa using hi'
  simp [listed, crate?, List.getElem?_eq_getElem hlt]

/-- At first there is as much to do as dependencies are listed in the graph. -/
theorem toDo_begin (h : g.dependencies id = .ok direct) :
    (⟨[], direct.reverse⟩ : Search).toDo g id = g.entryCount := by
  have huntaken : (⟨[], direct.reverse⟩ : Search).untaken g id = g.ids.erase id := by
    unfold Search.untaken
    rw [g.nodup_ids.erase_eq_filter]
    refine List.filter_congr fun x _ => ?_
    by_cases hx : x = id <;> simp [hx]
  unfold Search.toDo
  rw [huntaken, List.length_reverse, length_dependencies h, ← sum_listed_ids]
  exact listed_add_sum_erase fun hmem => hmem

/-! ### The search is the loop -/

/-- The list of the crates that are not taken up yet says nothing else than the list of those that
are. -/
structure Tracks (g : CrateGraph) (fresh : List CrateId) (s : Search) : Prop where
  nodup : fresh.Nodup
  split : ∀ x ∈ g.ids, x ∈ fresh ↔ x ∉ s.found
  stack : ∀ x ∈ s.stack, x ∈ g.ids

/-- The search makes turns as long as it can, and answers what the loop comes to. -/
theorem walk_reach (start : CrateId) {fresh found stack : List CrateId}
    (h : g.Tracks fresh ⟨found, stack⟩) :
    ∃ states last, Walk (g.Turn start) ⟨found, stack⟩ states last ∧
      g.Ends start last (g.reach start fresh found stack) := by
  induction fresh, found, stack using reach.induct start with
  | case1 fresh found =>
    rw [reach]
    exact ⟨[], _, .nil _, .exhausted found⟩
  | case2 fresh found rest =>
    rw [reach, if_pos rfl]
    exact ⟨[], _, .nil _, .returned found rest⟩
  | case3 fresh found crate rest hne hfresh ih =>
    rw [reach, if_neg hne, dif_pos hfresh]
    have hnew := (h.split crate (h.stack crate List.mem_cons_self)).1 hfresh
    cases hdirect : g.dependencies crate with
    | error e => exact ⟨[], _, .nil _, .refused hne hnew hdirect⟩
    | ok direct =>
      have htracks : g.Tracks (fresh.erase crate) ⟨crate :: found, direct.reverse ++ rest⟩ := by
        refine ⟨h.nodup.erase crate, fun x hx => ?_, fun x hx => ?_⟩
        · rw [h.nodup.mem_erase_iff, h.split x hx, List.mem_cons, not_or]
        · rcases List.mem_append.1 hx with hx | hx
          · exact ((mem_dependencies_iff hdirect).1 (List.mem_reverse.1 hx)).mem_ids
          · exact h.stack x (List.mem_cons_of_mem _ hx)
      obtain ⟨states, last, hwalk, hends⟩ := ih direct htracks
      exact ⟨_, last, .cons (.takeUp hne hnew hdirect) hwalk, hends⟩
  | case4 fresh found crate rest hne hfresh ih =>
    rw [reach, if_neg hne, dif_neg hfresh]
    have hold : crate ∈ found := by
      by_contra hnew
      exact hfresh ((h.split crate (h.stack crate List.mem_cons_self)).2 hnew)
    obtain ⟨states, last, hwalk, hends⟩ :=
      ih ⟨h.nodup, h.split, fun x hx => h.stack x (List.mem_cons_of_mem _ hx)⟩
    exact ⟨_, last, .cons (.drop hne hold) hwalk, hends⟩

/-- What is collected for a crate is the answer of the loop, in the order of the crates. -/
theorem walk_transitiveDependencies (h : g.dependencies id = .ok direct) :
    ∃ states last answer, Walk (g.Turn id) ⟨[], direct.reverse⟩ states last ∧
      g.Ends id last answer ∧
      g.transitiveDependencies id = answer.map sorted := by
  have htracks : g.Tracks g.ids ⟨[], direct.reverse⟩ :=
    ⟨g.nodup_ids, fun x hx => by simpa using hx, fun x hx =>
      ((mem_dependencies_iff h).1 (List.mem_reverse.1 hx)).mem_ids⟩
  obtain ⟨states, last, hwalk, hends⟩ := walk_reach id htracks
  refine ⟨states, last, _, hwalk, hends, ?_⟩
  unfold transitiveDependencies
  rw [h]
  change (g.reach id g.ids [] direct.reverse >>= _) = _
  cases g.reach id g.ids [] direct.reverse <;> rfl

/-! ### What the loop comes to -/

/-- What holds in the search at all times: it comes only to crates that are reached, and takes up
only crates whose dependencies are known. -/
structure Search.Sound (g : CrateGraph) (start : CrateId) (s : Search) : Prop where
  stack : ∀ x ∈ s.stack, TransGen g.Lists start x
  known : ∀ x ∈ s.found, ¬ g.ListsUnknown x

theorem Turn.sound {start : CrateId} {s s' : Search} (h : g.Turn start s s')
    (hs : s.Sound g start) : s'.Sound g start := by
  cases h with
  | @takeUp found rest crate direct hne hnew hdirect =>
    refine ⟨fun x hx => ?_, fun x hx => ?_⟩
    · rcases List.mem_append.1 hx with hx | hx
      · have hlists := (mem_dependencies_iff hdirect).1 (List.mem_reverse.1 hx)
        exact (hs.stack crate List.mem_cons_self).tail hlists
      · exact hs.stack x (List.mem_cons_of_mem _ hx)
    · rcases List.mem_cons.1 hx with rfl | hx
      · exact not_listsUnknown_iff.2 ⟨direct, hdirect⟩
      · exact hs.known x hx
  | drop hne hold => exact ⟨fun x hx => hs.stack x (List.mem_cons_of_mem _ hx), hs.known⟩

/-- A search begins with what its crate lists, and stays sound. -/
theorem sound_walk (h : g.dependencies id = .ok direct) {states : List Search} {s : Search}
    (hwalk : Walk (g.Turn id) ⟨[], direct.reverse⟩ states s) : s.Sound g id := by
  refine (hwalk.invariant (P := Search.Sound g id) (fun _ _ hturn hs => hturn.sound hs) ?_).2
  exact ⟨fun x hx => .single ((mem_dependencies_iff h).1 (List.mem_reverse.1 hx)),
    fun x hx => absurd hx List.not_mem_nil⟩

/-- What a crate reaches is refused because it reaches itself, or because a crate that it reaches
lists an unknown name. -/
theorem transitiveDependencies_error {e : GraphError}
    (h : g.transitiveDependencies id = .error e) :
    TransGen g.Lists id id ∨ ∃ x, ReflTransGen g.Lists id x ∧ g.ListsUnknown x := by
  cases hdirect : g.dependencies id with
  | error e' =>
    obtain ⟨x, name, hx, hname, hunknown, -⟩ := dependencies_error hdirect
    exact Or.inr ⟨id, .refl, x, hx, name, hname, hunknown⟩
  | ok direct =>
    obtain ⟨states, last, answer, hwalk, hends, heq⟩ := walk_transitiveDependencies hdirect
    have hsound := sound_walk hdirect hwalk
    cases hends with
    | exhausted found =>
      rw [heq] at h
      cases h
    | returned found rest => exact Or.inl (hsound.stack id List.mem_cons_self)
    | @refused found rest crate e' hne hnew hrefused =>
      obtain ⟨x, name, hx, hname, hunknown, -⟩ := dependencies_error hrefused
      exact Or.inr ⟨crate, (hsound.stack crate List.mem_cons_self).to_reflTransGen, x, hx, name,
        hname, hunknown⟩

/-- Where there is an answer, the crate and everything that was found list known names only. -/
theorem known_of_transitiveDependencies {all : List CrateId}
    (h : g.transitiveDependencies id = .ok all) :
    ¬ g.ListsUnknown id ∧ ∀ x ∈ all, ¬ g.ListsUnknown x := by
  obtain ⟨direct, hdirect, -⟩ := ok_of_bind h
  refine ⟨not_listsUnknown_iff.2 ⟨direct, hdirect⟩, fun x hx => ?_⟩
  obtain ⟨states, last, answer, hwalk, hends, heq⟩ := walk_transitiveDependencies hdirect
  have hsound := sound_walk hdirect hwalk
  rw [heq] at h
  cases hends with
  | exhausted found =>
    cases h
    exact hsound.known x (mem_sorted.1 hx)
  | returned found rest => cases h
  | refused => cases h

/-- Where there is an answer, every crate that is reached lists known names only, and is reached by
dependencies that can be looked up. -/
theorem reached_of_transitiveDependencies {all : List CrateId}
    (h : g.transitiveDependencies id = .ok all) {x : CrateId} (hx : ReflTransGen g.Lists id x) :
    ReflTransGen g.DependsOn id x ∧ ¬ g.ListsUnknown x := by
  obtain ⟨hid, hall⟩ := known_of_transitiveDependencies h
  induction hx with
  | refl => exact ⟨.refl, hid⟩
  | @tail b c _ hbc ih =>
    obtain ⟨hb, hknown⟩ := ih
    obtain ⟨direct, hdirect⟩ := not_listsUnknown_iff.1 hknown
    have hc : TransGen g.DependsOn id c := .tail' hb (hbc.dependsOn hdirect)
    exact ⟨hc.to_reflTransGen, hall c ((mem_transitiveDependencies h).2 hc)⟩

/-- Where there is an answer, it makes no difference how dependencies are looked up. -/
theorem transGen_lists_iff {all : List CrateId} (h : g.transitiveDependencies id = .ok all)
    {x : CrateId} : TransGen g.Lists id x ↔ TransGen g.DependsOn id x := by
  constructor
  · intro hx
    obtain ⟨b, hb, hbx⟩ := TransGen.tail'_iff.1 hx
    obtain ⟨hreached, hknown⟩ := reached_of_transitiveDependencies h hb
    obtain ⟨direct, hdirect⟩ := not_listsUnknown_iff.1 hknown
    exact .tail' hreached (hbx.dependsOn hdirect)
  · exact TransGen.mono (fun _ _ => DependsOn.lists) _ _

/-- What a crate reaches is found exactly when all the names are known that are listed on the way,
and the crate does not reach itself. -/
theorem transitiveDependencies_isOk_iff : (∃ all, g.transitiveDependencies id = .ok all) ↔
    (∀ x, ReflTransGen g.Lists id x → ¬ g.ListsUnknown x) ∧ ¬ TransGen g.Lists id id := by
  constructor
  · rintro ⟨all, h⟩
    refine ⟨fun x hx => (reached_of_transitiveDependencies h hx).2, fun hself => ?_⟩
    exact not_transGen_self h ((transGen_lists_iff h).1 hself)
  · rintro ⟨hknown, hself⟩
    cases h : g.transitiveDependencies id with
    | ok all => exact ⟨all, rfl⟩
    | error e =>
      rcases transitiveDependencies_error h with hcycle | ⟨x, hx, hunknown⟩
      · exact absurd hcycle hself
      · exact absurd hunknown (hknown x hx)

/-- **What a crate reaches is found exactly.**

* There is an answer exactly when no crate that is reached, the crate itself included, lists an
  unknown name, and the crate does not reach itself by one or more dependencies.
* The answer is in the order of the crates, without repetition, and has exactly the crates that are
  reached, without the crate itself.  Cycles that do not lead through it do no harm.
* The answer is that of a loop over a stack, which comes to its end in every graph: no run of it has
  more turns than dependencies are listed in the graph. -/
theorem transitiveDependencies_are_exact (g : CrateGraph) (id : CrateId) :
    ((∃ all, g.transitiveDependencies id = .ok all) ↔
      (∀ x, ReflTransGen g.Lists id x → ¬ g.ListsUnknown x) ∧ ¬ TransGen g.Lists id id) ∧
    (∀ all, g.transitiveDependencies id = .ok all →
      all.Pairwise (fun a b => a.index < b.index) ∧
      ∀ d, d ∈ all ↔ TransGen g.Lists id d ∧ d ≠ id) ∧
    ∀ direct, g.dependencies id = .ok direct →
      (∃ states last answer, Walk (g.Turn id) ⟨[], direct.reverse⟩ states last ∧
        g.Ends id last answer ∧
        g.transitiveDependencies id = answer.map sorted) ∧
      ∀ states s, Walk (g.Turn id) ⟨[], direct.reverse⟩ states s →
        states.length ≤ g.entryCount := by
  refine ⟨transitiveDependencies_isOk_iff,
    fun all h => ⟨pairwise_transitiveDependencies h, fun d => ?found⟩,
    fun direct hdirect => ⟨walk_transitiveDependencies hdirect, fun states s hwalk => ?turns⟩⟩
  case found =>
    rw [mem_transitiveDependencies h, transGen_lists_iff h]
    refine ⟨fun hd => ⟨hd, ?_⟩, And.left⟩
    rintro rfl
    exact not_transGen_self h hd
  case turns =>
    have htoDo := toDo_walk hwalk
    rw [toDo_begin hdirect] at htoDo
    omega

/-! ### A graph with a cycle -/

/-- A graph with a crate that reaches a cycle, the two crates on it, and a crate that lists an
unknown name. -/
def knottedGraph : CrateGraph where
  crates :=
    [{ name := "outside", dependencies := ["here", "there", "here"] },
      { name := "here", dependencies := ["there"] },
      { name := "there", dependencies := ["here"] },
      { name := "lost", dependencies := ["nowhere"] }]
  nodup_names := by decide

/-- The first crate reaches both crates on the cycle and has an answer.  A crate on the cycle has
none, and neither has the one that lists an unknown name. -/
theorem transitiveDependencies_are_exact_knotted :
    knottedGraph.transitiveDependencies ⟨0⟩ = .ok [⟨1⟩, ⟨2⟩] ∧
    (∀ d, d ∈ [⟨1⟩, ⟨2⟩] ↔ TransGen knottedGraph.Lists ⟨0⟩ d ∧ d ≠ ⟨0⟩) ∧
    TransGen knottedGraph.Lists ⟨1⟩ ⟨1⟩ ∧
    (¬ ∃ all, knottedGraph.transitiveDependencies ⟨1⟩ = .ok all) ∧
    (¬ ∃ all, knottedGraph.transitiveDependencies ⟨3⟩ = .ok all) := by
  have hok : knottedGraph.transitiveDependencies ⟨0⟩ = .ok [⟨1⟩, ⟨2⟩] := by cbv
  have hcycle : TransGen knottedGraph.Lists ⟨1⟩ ⟨1⟩ :=
    .tail (.single (show knottedGraph.Lists ⟨1⟩ ⟨2⟩ by decide)) (by decide)
  have hlost : knottedGraph.ListsUnknown ⟨3⟩ := by decide
  obtain ⟨-, hexact, -⟩ := transitiveDependencies_are_exact knottedGraph ⟨0⟩
  obtain ⟨hcycles, -⟩ := transitiveDependencies_are_exact knottedGraph ⟨1⟩
  obtain ⟨hunknown, -⟩ := transitiveDependencies_are_exact knottedGraph ⟨3⟩
  exact ⟨hok, (hexact _ hok).2, hcycle, fun h => (hcycles.1 h).2 hcycle,
    fun h => (hunknown.1 h).1 ⟨3⟩ .refl hlost⟩

end CrateGraph

end CrateScope
