import CrateScope.Build
import CrateScope.Proofs.Placement

/-!
# The states of a collection

A collection does its work in big steps: an import is carried out as a whole, with everything that
is handed on because of it.  What is to hold at all times, and not only between two imports, is
stated over the states that these steps pass through.  They are listed here beside the functions
that pass through them, in their order, one state after each write.

## Main definitions

* `Walk` — a list of states, each of which comes from the one before it.
* `Collection.Traces` — a computation that goes along such a list.
* `Collection.updateStates`, `Collection.carryOutStates` — the states inside of an update and of
  the carrying out of an import.
* `Collection.Course` — all that can have happened to a collection up to some state: its imports
  are carried out in any order, each when its path can be resolved.

## Main results

* `Collection.Course.of_run` — a collection that is run to its end takes such a course.
-/

namespace CrateScope

/-! ### Computations that can fail -/

theorem ok_of_bind {ε α β : Type} {x : Except ε α} {f : α → Except ε β} {b : β}
    (h : x >>= f = .ok b) : ∃ a, x = .ok a ∧ f a = .ok b := by
  cases x with
  | error e => cases h
  | ok a => exact ⟨a, rfl, h⟩

theorem ok_of_map {ε α β : Type} {x : Except ε α} {f : α → β} {b : β} (h : x.map f = .ok b) :
    ∃ a, x = .ok a ∧ f a = b := by
  cases x with
  | error e => cases h
  | ok a => exact ⟨a, rfl, Except.ok.inj h⟩

theorem ok_of_toOption {ε α : Type} {x : Except ε α} {a : α} (h : x.toOption = some a) :
    x = .ok a := by
  cases x with
  | error e => cases h
  | ok a' => exact congrArg Except.ok (Option.some.inj h)

theorem ok_of_mapError {ε ε' α : Type} {f : ε → ε'} {x : Except ε α} {a : α}
    (h : x.mapError f = .ok a) : x = .ok a := by
  cases x with
  | error e => cases h
  | ok a' => cases h; rfl

theorem error_of_mapError {ε ε' α : Type} {f : ε → ε'} {x : Except ε α} {e : ε'}
    (h : x.mapError f = .error e) : ∃ e₀, x = .error e₀ ∧ e = f e₀ := by
  cases x with
  | error e₀ => cases h; exact ⟨e₀, rfl, rfl⟩
  | ok a => cases h

theorem error_of_bind {ε α β : Type} {x : Except ε α} {f : α → Except ε β} {e : ε}
    (h : x >>= f = .error e) : x = .error e ∨ ∃ a, x = .ok a ∧ f a = .error e := by
  cases x with
  | error e' =>
    cases h
    exact Or.inl rfl
  | ok a => exact Or.inr ⟨a, rfl, h⟩

/-- A loop that fails goes well up to the round that fails. -/
theorem split_of_foldlM_error {ε α β : Type} {f : β → α → Except ε β} {as : List α} {b : β} {e : ε}
    (h : as.foldlM f b = .error e) : ∃ before a after b', as = before ++ a :: after ∧
      before.foldlM f b = .ok b' ∧ f b' a = .error e := by
  induction as generalizing b with
  | nil => cases h
  | cons a as ih =>
    rw [List.foldlM_cons] at h
    rcases error_of_bind h with h | ⟨b₁, hfirst, h⟩
    · exact ⟨[], a, as, b, rfl, rfl, h⟩
    · obtain ⟨before, a', after, b', rfl, hbefore, h'⟩ := ih h
      refine ⟨a :: before, a', after, b', rfl, ?_, h'⟩
      rw [List.foldlM_cons, hfirst]
      exact hbefore

/-- A loop that fails fails in one of its rounds. -/
theorem error_of_foldlM {ε α β : Type} {f : β → α → Except ε β} {as : List α} {b : β} {e : ε}
    (h : as.foldlM f b = .error e) : ∃ b', ∃ a ∈ as, f b' a = .error e := by
  obtain ⟨before, a, after, b', rfl, -, h⟩ := split_of_foldlM_error h
  exact ⟨b', a, List.mem_append_right _ List.mem_cons_self, h⟩

/-- A loop keeps what each of its rounds keeps. -/
theorem foldlM_keeps {ε α β : Type} {P : β → Prop} {f : β → α → Except ε β} {as : List α}
    (hstep : ∀ a ∈ as, ∀ b b', P b → f b a = .ok b' → P b') {b b' : β} (hb : P b)
    (h : as.foldlM f b = .ok b') : P b' := by
  induction as generalizing b with
  | nil => cases h; exact hb
  | cons a as ih =>
    rw [List.foldlM_cons] at h
    obtain ⟨b₁, h₁, h⟩ := ok_of_bind h
    exact ih (fun a ha => hstep a (List.mem_cons_of_mem _ ha))
      (hstep a List.mem_cons_self b b₁ hb h₁) h

theorem bind_mono {ε α β : Type} {x x' : Except ε α} {f f' : α → Except ε β} {b : β}
    (hx : ∀ a, x = .ok a → x' = .ok a) (hf : ∀ a, f a = .ok b → f' a = .ok b)
    (h : x >>= f = .ok b) : x' >>= f' = .ok b := by
  obtain ⟨a, ha, hb⟩ := ok_of_bind h
  rw [hx a ha]
  exact hf a hb

theorem foldlM_mono {ε α β : Type} {f f' : β → α → Except ε β} {as : List α}
    (hf : ∀ b, ∀ a ∈ as, ∀ b', f b a = .ok b' → f' b a = .ok b') {b d : β}
    (h : as.foldlM f b = .ok d) : as.foldlM f' b = .ok d := by
  induction as generalizing b with
  | nil => exact h
  | cons a as ih =>
    rw [List.foldlM_cons] at h ⊢
    exact bind_mono (hf b a List.mem_cons_self)
      (fun b' => ih fun b a ha => hf b a (List.mem_cons_of_mem _ ha)) h

/-- What comes out of a row of computations comes from one of them. -/
theorem exists_of_mem_mapM {ε α β : Type} {f : α → Except ε β} {as : List α} {bs : List β}
    (h : as.mapM f = .ok bs) : ∀ b ∈ bs, ∃ a ∈ as, f a = .ok b := by
  induction as generalizing bs with
  | nil =>
    cases h
    exact fun b hb => absurd hb List.not_mem_nil
  | cons a as ih =>
    rw [List.mapM_cons] at h
    obtain ⟨first, hfirst, h⟩ := ok_of_bind h
    obtain ⟨others, hothers, h⟩ := ok_of_bind h
    cases h
    intro b hb
    rcases List.mem_cons.1 hb with rfl | hb
    · exact ⟨a, List.mem_cons_self, hfirst⟩
    · obtain ⟨a', ha', hf⟩ := ih hothers b hb
      exact ⟨a', List.mem_cons_of_mem a ha', hf⟩

/-! ### Walks -/

/-- A list of states through which a relation leads from one state to another; the last state of
the list is the other one. -/
inductive Walk {α : Type*} (r : α → α → Prop) : α → List α → α → Prop
  | nil (a : α) : Walk r a [] a
  | cons {a b d : α} {states : List α} (h : r a b) (rest : Walk r b states d) :
      Walk r a (b :: states) d

namespace Walk

variable {α : Type*} {r r' : α → α → Prop} {a b d : α} {states states' : List α}

theorem append (h : Walk r a states b) (h' : Walk r b states' d) :
    Walk r a (states ++ states') d := by
  induction h with
  | nil => exact h'
  | cons hab _ ih => exact .cons hab (ih h')

theorem mono (hr : ∀ a b, r a b → r' a b) (h : Walk r a states d) : Walk r' a states d := by
  induction h with
  | nil a => exact .nil a
  | cons hab _ ih => exact .cons (hr _ _ hab) ih

/-- A walk leads to each of its states. -/
theorem upTo {after : List α} (h : Walk r a (states ++ b :: after) d) :
    Walk r a (states ++ [b]) b := by
  induction states generalizing a with
  | nil =>
    cases h with
    | cons hab _ => exact .cons hab (.nil b)
  | cons x states ih =>
    cases h with
    | cons hax rest => exact .cons hax (ih rest)

/-- What every step keeps holds in every state and in the last one. -/
theorem invariant {P : α → Prop} (hr : ∀ a b, r a b → P a → P b) (h : Walk r a states d)
    (ha : P a) : (∀ x ∈ states, P x) ∧ P d := by
  induction h with
  | nil a => exact ⟨fun x hx => absurd hx List.not_mem_nil, ha⟩
  | cons hab _ ih =>
    have hb := hr _ _ hab ha
    obtain ⟨hstates, hd⟩ := ih hb
    refine ⟨fun x hx => ?_, hd⟩
    rcases List.mem_cons.1 hx with rfl | hx
    · exact hb
    · exact hstates x hx

/-- What every step keeps may be used of each step. -/
theorem with_invariant {P : α → Prop} (hr : ∀ a b, r a b → P a → P b) (h : Walk r a states d)
    (ha : P a) : Walk (fun a b => P a ∧ r a b) a states d := by
  induction h with
  | nil a => exact .nil a
  | cons hab _ ih => exact .cons ⟨ha, hab⟩ (ih (hr _ _ hab ha))

/-- What every step keeps that may look back at all earlier states holds at the end. -/
theorem history {P : List α → α → Prop} (hr : ∀ seen a b, r a b → P seen a → P (seen ++ [a]) b)
    (h : Walk r a states d) {seen : List α} (ha : P seen a) :
    ∃ seen', seen' ++ [d] = seen ++ a :: states ∧ P seen' d := by
  induction h generalizing seen with
  | nil a => exact ⟨seen, rfl, ha⟩
  | cons hab _ ih =>
    obtain ⟨seen', heq, hd⟩ := ih (hr seen _ _ hab ha)
    exact ⟨seen', by rw [heq, List.append_assoc, List.singleton_append], hd⟩

/-- Each state is related to all that come after it, if the relation of the steps to a state passes
on from step to step. -/
theorem pairwise {R : α → α → Prop} (hrefl : ∀ a, R a a)
    (hr : ∀ a b d, r a b → R d a → R d b) (h : Walk r a states d) :
    (a :: states).Pairwise R ∧ ∀ x ∈ a :: states, R x d := by
  induction h with
  | nil a => exact ⟨List.pairwise_singleton R a, by simpa using hrefl a⟩
  | @cons a b d states hab rest ih =>
    have hstart := rest.invariant (P := R a) (fun x y hxy hax => hr x y a hxy hax)
      (hr a b a hab (hrefl a))
    refine ⟨List.pairwise_cons.2 ⟨fun x hx => ?_, ih.1⟩, fun x hx => ?_⟩
    · rcases List.mem_cons.1 hx with rfl | hx
      · exact hr _ _ a hab (hrefl a)
      · exact hstart.1 x hx
    · rcases List.mem_cons.1 hx with rfl | hx
      · exact hstart.2
      · exact ih.2 x hx

end Walk

namespace Collection

/-- A computation that begins in the state `c` goes through some states by steps of a relation, and
unless it fails it ends in the last of them. -/
abbrev Traces (r : Collection → Collection → Prop) (c : Collection) (states : List Collection)
    (result : Except Failure Collection) : Prop :=
  ∃ d, Walk r c states d ∧ ∀ c', result = .ok c' → c' = d

/-! ### What every binding leaves alone -/

/-- Names that come to a module leave what every single binding leaves. -/
theorem mergeAll_keeps {P : Collection → Prop} {c : Collection} {m : LocalId} {origin : Origin}
    (hplace : ∀ c name ns b, P c → P (c.place ⟨m, name, ns⟩ b origin).1)
    (news : List (Name × Meaning)) (hc : P c) : P (c.mergeAll m news origin).1 := by
  have hmerge : ∀ c name meaning, P c → P (c.merge m name meaning origin).1 := by
    intro c name meaning hc
    unfold merge
    refine List.foldlRecOn (motive := fun r : Collection × Meaning => P r.1) _ _ hc ?_
    exact fun r hr b _ => hplace r.1 name b.1 b.2 hr
  unfold mergeAll
  refine List.foldlRecOn (motive := fun r : Collection × List (Name × Meaning) => P r.1) _ _ hc ?_
  exact fun r hr e _ => hmerge r.1 e.1 e.2 hr

/-- So does handing them on. -/
theorem frame_update {limit depth : Nat} {c c' : Collection} {m : LocalId}
    {news : List (Name × Meaning)} {origin : Origin}
    (h : update limit depth c m news origin = .ok c') : Frame c c' := by
  induction depth generalizing c c' m news origin with
  | zero => cases h
  | succ depth ih =>
    have hmerged : Frame c (c.mergeAll m news origin).1 :=
      mergeAll_keeps (fun d _ _ b hd => hd.trans (d.frame_place _ b origin)) news (Frame.refl c)
    rw [update] at h
    simp only at h
    split at h
    · cases h
      exact hmerged
    · refine foldlM_keeps (P := Frame c) ?_ hmerged h
      intro e _ d d' hd hround
      unfold handOn at hround
      simp only at hround
      split at hround
      · cases hround
        exact hd
      · exact (hd.trans (Frame.told d _)).trans (ih hround)

theorem frame_bindName {limit : Nat} {c c' : Collection} {i : Import} {meaning : Meaning}
    (h : c.bindName limit i meaning = .ok c') : Frame c c' := by
  unfold bindName at h
  split at h
  · cases h
    exact Frame.refl c
  · exact (Frame.told c _).trans (frame_update h)

/-! ### The states inside of an update -/

/-- The states after each of some bindings that come to their slots. -/
def placeStates (origin : Origin) : Collection → List (Slot × Binding) → List Collection
  | _, [] => []
  | c, p :: ps => (c.place p.1 p.2 origin).1 :: placeStates origin (c.place p.1 p.2 origin).1 ps

/-- The states of a loop, up to the first of its steps that fails. -/
def loopStates {α : Type} (step : Collection → α → Except Failure Collection)
    (states : Collection → α → List Collection) : Collection → List α → List Collection
  | _, [] => []
  | c, a :: rest =>
    states c a ++
      match step c a with
      | .ok c' => loopStates step states c' rest
      | .error _ => []

/-- The states while names of the module `m` are handed on along one glob. -/
def handOnStates (receiver : Collection → LocalId → List (Name × Meaning) → Origin →
    List Collection) (m : LocalId) (changed : List (Name × Meaning)) (c : Collection)
    (edge : GlobEdge) : List Collection :=
  let names := offered c.tree edge.importer edge.visibility changed
  if names.isEmpty then []
  else
    c.tellHandedOn m edge names ::
      receiver (c.tellHandedOn m edge names) edge.importer names (.glob (c.tree.global m))

/-- The states while meanings come to a module and are handed on from there. -/
def updateStates (limit : Nat) : (depth : Nat) → Collection → LocalId → List (Name × Meaning) →
    Origin → List Collection
  | 0, _, _, _, _ => []
  | depth + 1, c, m, news, origin =>
    placeStates origin c (placements m news) ++
      let (c, changed) := c.mergeAll m news origin
      if changed.isEmpty then []
      else
        loopStates (handOn (update limit depth) m changed)
          (handOnStates (updateStates limit depth) m changed) c (c.edgesFrom m)

/-! ### The states while an import is carried out -/

/-- The state that an operation leads to, if it does not fail. -/
def endState : Except Failure Collection → List Collection
  | .ok c => [c]
  | .error _ => []

/-- The states while the name of an import is bound. -/
def nameStates (c : Collection) (limit : Nat) (i : Import) (meaning : Meaning) : List Collection :=
  match i.name with
  | none => []
  | some name =>
    c.tellBinding i name ::
      updateStates limit (limit + 1) (c.tellBinding i name) i.module
        [(name, meaning.handedOn c.tree i.visibility)] .named

/-- The states while the names of a glob are brought in. -/
def globStates (c : Collection) (limit : Nat) (i : Import) (meaning : Meaning) : List Collection :=
  (match (meaning.types.filter Binding.isModuleOrEnum).bind fun b => c.view.locate? b.path with
    | none => []
    | some source =>
      let names := c.globNames i source
      c.tellGlob i names ::
        updateStates limit (limit + 1) (c.tellGlob i names) i.module names (.glob source)) ++
    endState (c.openGlob limit i meaning)

/-- The states while an import is carried out. -/
def carryOutStates (c : Collection) (limit : Nat) (i : Import) (meaning : Meaning) :
    List Collection :=
  match i.kind with
  | .glob => c.globStates limit i meaning
  | .named => c.nameStates limit i meaning
  | .externCrate macroUse =>
    if i.module = .root then
      c.openCrate i.name meaning macroUse ::
        (c.openCrate i.name meaning macroUse).nameStates limit i meaning
    else c.nameStates limit i meaning

/-! ### Courses -/

/-- What can have happened to a collection that began with `start`.  The list holds all earlier
states, the oldest first.  Between two imports none is in hand; while one is carried out it is in
hand, with the status that its path had when it was taken up.  The order of the imports is open, and
so is how often they are tried. -/
inductive Course (limit : Nat) (imports : List Import) (start : Collection) :
    List Collection → Option SettledImport → Collection → Prop
  | start : Course limit imports start [] none start
  | told {past : List Collection} {c : Collection} (h : Course limit imports start past none c)
      (log : Log) : Course limit imports start (past ++ [c]) none { c with log }
  | within {past : List Collection} {c : Collection} (h : Course limit imports start past none c)
      {i : Import} (hi : i ∈ imports) {meaning : Meaning}
      (hm : (c.status i).meaning? = some meaning) {before : List Collection} {now : Collection}
      {after : List Collection}
      (hs : c.carryOutStates limit i meaning = before ++ now :: after) :
      Course limit imports start (past ++ c :: before) (some ⟨i, c.status i⟩) now
  | settled {past : List Collection} {c : Collection} (h : Course limit imports start past none c)
      {i : Import} (hi : i ∈ imports) {meaning : Meaning}
      (hm : (c.status i).meaning? = some meaning) {c' : Collection}
      (hok : c.settleOne limit i (c.status i) meaning = .ok c') :
      Course limit imports start (past ++ c :: c.carryOutStates limit i meaning) none c'
  | givenUp {past : List Collection} {c : Collection} (h : Course limit imports start past none c)
      (i : Import) : Course limit imports start (past ++ [c]) none (c.giveUp i)

namespace Course

variable {limit : Nat} {imports : List Import} {start c : Collection} {past : List Collection}

theorem of_pass {waiting left : List Import} {c' : Collection}
    (h : Course limit imports start past none c) (hw : ∀ i ∈ waiting, i ∈ imports)
    (hp : pass limit c waiting = .ok (c', left)) :
    (∃ past', Course limit imports start past' none c') ∧ ∀ i ∈ left, i ∈ waiting := by
  induction waiting generalizing c past left with
  | nil =>
    rw [pass] at hp
    cases hp
    exact ⟨⟨past, h⟩, fun i hi => hi⟩
  | cons i rest ih =>
    have hrest : ∀ j ∈ rest, j ∈ imports := fun j hj => hw j (List.mem_cons_of_mem i hj)
    -- That an import is tried is told first, whatever comes of it.
    have htold := h.told (c.log ++ c.statusLog i)
    rw [pass] at hp
    simp only at hp
    split at hp
    · next hnone =>
      obtain ⟨⟨d, left'⟩, hr, hp⟩ := ok_of_bind hp
      cases hp
      obtain ⟨hcourse, hleft⟩ := ih htold hrest hr
      refine ⟨hcourse, fun j hj => ?_⟩
      rcases List.mem_cons.1 hj with rfl | hj
      · exact List.mem_cons_self
      · exact List.mem_cons_of_mem i (hleft j hj)
    · next meaning hsome =>
      obtain ⟨d, hs, hp⟩ := ok_of_bind hp
      obtain ⟨hcourse, hleft⟩ := ih (htold.settled (hw i List.mem_cons_self) hsome hs) hrest hp
      exact ⟨hcourse, fun j hj => List.mem_cons_of_mem i (hleft j hj)⟩

theorem of_settle {isCancelled : Nat → Bool} {number : Nat} {waiting : List Import}
    {outcome : Outcome} (h : Course limit imports start past none c)
    (hw : ∀ i ∈ waiting, i ∈ imports)
    (hs : settle limit isCancelled number waiting c = .ok outcome) :
    ∃ past', Course limit imports start past' none outcome.collection := by
  induction hn : waiting.length using Nat.strongRecOn generalizing waiting number c past with
  | ind n ih =>
    rw [settle] at hs
    split at hs
    · cases hs
    · split at hs
      · cases hs
      · next d left hp =>
        obtain ⟨⟨past', hd⟩, hleft⟩ := h.of_pass hw hp
        have htold := hd.told (d.tell .debug ("`" ++ d.map.name ++ "` pass " ++ toString number ++
          ": resolved " ++ toString (waiting.length - left.length) ++ " of " ++
          toString waiting.length ++ " pending import(s)")).log
        simp only at hs
        split at hs
        · next hlt => exact ih left.length (hn ▸ hlt) htold (fun i hi => hw i (hleft i hi)) hs rfl
        · cases hs
          exact ⟨_, htold⟩

/-- A collection that is run to its end, over any of the imports and in any order, takes a course to
the state that it ends in. -/
theorem of_run {isCancelled : Nat → Bool} {waiting : List Import} {outcome : Outcome}
    (hw : ∀ i ∈ waiting, i ∈ imports) (hr : run limit isCancelled waiting start = .ok outcome) :
    ∃ past', Course limit imports start past' none outcome.collection := by
  obtain ⟨o, hs, hr⟩ := ok_of_bind hr
  cases hr
  obtain ⟨past', hc⟩ := of_settle Course.start hw hs
  have key : ∀ (left : List Import) (c : Collection) (past : List Collection),
      Course limit imports start past none c →
      ∃ past', Course limit imports start past' none (left.foldl giveUp c) := by
    intro left
    induction left with
    | nil => intro c past h; exact ⟨past, h⟩
    | cons i left ih => intro c past h; exact ih _ _ (h.givenUp i)
  exact key o.unresolved o.collection past' hc

end Course

end Collection

end CrateScope
