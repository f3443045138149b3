import CrateScope.Proofs.Change

/-!
# What is never taken back

Taken together the states of a course are a row of small moves.  So whatever no move takes back is
there in every later state: the modules, the maps of the dependencies, the slots that are bound, and
the bindings of those slots that no glob holds.

Two things do change in a slot that is bound.  One that a glob filled can be taken over by a named
import, and it can get news from the module that the glob reads from.

## Main definitions

* `Collection.Move` — one small move of a collection.
* `Collection.Firm` — a slot is bound, and not through a glob.
* `Collection.Keeps` — all that no move takes back.

## Main results

* `Collection.Course.walk` — a course is a walk of moves.
* `Collection.Course.keeps` — each state of a course keeps what all earlier states had.
* `Collection.Course.settled_after_past` — the record of an import says what its path meant in an
  earlier state.
-/

namespace CrateScope

/-- An `extern crate` at the root that makes a crate known everywhere by a name. -/
def Import.OpensCrate (i : Import) (name : Name) : Prop :=
  i.module = .root ∧ i.name = some name ∧ ∃ macroUse, i.kind = .externCrate macroUse

namespace Collection

variable {imports : List Import} {c c' : Collection}

/-! ### Moves -/

/-- One small move of a collection: something is told, something changes while an import is carried
out, an import is recorded, or one is given up. -/
inductive Move (imports : List Import) (c : Collection) : Collection → Prop
  | told (log : Log) : Move imports c { c with log }
  | changed {i : Import} (hi : i ∈ imports) {meaning : Meaning} {c' : Collection}
      (h : Change imports i meaning c c') : Move imports c c'
  | recorded (x : SettledImport) : Move imports c { c with settled := c.settled ++ [x] }
  | givenUp (i : Import) : Move imports c (c.giveUp i)

theorem Move.coherent (hc : Coherent imports c) (h : Move imports c c') : Coherent imports c' := by
  cases h with
  | told log => exact hc.told log
  | changed hi h => exact h.coherent hi hc
  | recorded x => exact (Alike.settled c _).coherent hc hc.edges
  | givenUp i => exact (Alike.giveUp c i).coherent hc hc.edges

namespace Course

variable {limit : Nat} {start : Collection} {past : List Collection} {hand : Option SettledImport}

/-- The states of a course, in their order, are joined by moves. -/
theorem walk (hcoherent : Coherent imports start) (h : Course limit imports start past hand c) :
    ∃ states, start :: states = past ++ [c] ∧ Walk (Move imports) start states c := by
  induction h with
  | start => exact ⟨[], rfl, .nil start⟩
  | @told past c h log ih =>
    obtain ⟨states, hstates, hwalk⟩ := ih
    refine ⟨states ++ [{ c with log }], ?_, hwalk.append (.cons (.told log) (.nil _))⟩
    rw [← List.cons_append, hstates]
  | @within past c h i hi meaning hm before now after hs ih =>
    obtain ⟨states, hstates, hwalk⟩ := ih
    obtain ⟨d, hchanges, -⟩ := carryOut_walk limit meaning (h.coherent hcoherent) hi
    rw [hs] at hchanges
    refine ⟨states ++ (before ++ [now]), ?_,
      hwalk.append (hchanges.upTo.mono fun a b hab => .changed hi hab)⟩
    rw [← List.cons_append, hstates]
    simp
  | @settled past c h i hi meaning hm c' hok ih =>
    obtain ⟨states, hstates, hwalk⟩ := ih
    obtain ⟨d, hchanges, hend⟩ := carryOut_walk limit meaning (h.coherent hcoherent) hi
    obtain ⟨d', hd, hok⟩ := ok_of_bind hok
    cases hok
    obtain rfl := hend d' hd
    refine ⟨states ++ (c.carryOutStates limit i meaning ++ [_]), ?_, hwalk.append
      ((hchanges.mono fun a b hab => .changed hi hab).append (.cons (.recorded _) (.nil _)))⟩
    rw [← List.cons_append, hstates]
    simp
  | @givenUp past c h i ih =>
    obtain ⟨states, hstates, hwalk⟩ := ih
    refine ⟨states ++ [c.giveUp i], ?_, hwalk.append (.cons (.givenUp i) (.nil _))⟩
    rw [← List.cons_append, hstates]

/-- What relates two states whenever a move leads from one to the other relates all earlier states
to the last one. -/
theorem related {R : Collection → Collection → Prop} (hrefl : ∀ a, R a a)
    (htrans : ∀ a b d, R a b → R b d → R a d)
    (hmove : ∀ a b, Coherent imports a → Move imports a b → R a b)
    (hcoherent : Coherent imports start) (h : Course limit imports start past hand c) :
    R start c ∧ ∀ earlier ∈ past, R earlier c := by
  obtain ⟨states, hstates, hwalk⟩ := h.walk hcoherent
  have hwalk' := hwalk.with_invariant (P := Coherent imports) (fun _ _ hab ha => hab.coherent ha)
    hcoherent
  obtain ⟨-, hlast⟩ := hwalk'.pairwise (R := R) hrefl
    fun a b d hab hda => htrans d a b hda (hmove a b hab.1 hab.2)
  refine ⟨hlast start List.mem_cons_self, fun earlier hearlier => hlast earlier ?_⟩
  rw [hstates]
  exact List.mem_append_left [c] hearlier

end Course

/-! ### What moves keep -/

/-- A slot holds a binding that did not come through a glob. -/
def Firm (c : Collection) (slot : Slot) (b : Binding) : Prop :=
  c.map.binding? slot = some b ∧ c.globSources.get? slot = none

theorem Firm.not_takes {slot : Slot} {b : Binding} (h : c.Firm slot b) (origin : Origin) :
    ¬ c.Takes slot origin := by
  rintro (hnone | hmark)
  · rw [h.1] at hnone
    cases hnone
  · cases origin with
    | named =>
      rw [h.2] at hmark
      cases hmark
    | glob source =>
      rw [h.2] at hmark
      cases hmark

theorem Alike.firm (h : Alike c c') (slot : Slot) (b : Binding) (hb : c.Firm slot b) :
    c'.Firm slot b :=
  ⟨(h.binding? slot).trans hb.1, (h.source? slot).trans hb.2⟩

/-- What one state has of another that came before it: the same modules, dependencies and preludes,
every slot that was bound, every binding that no glob brought, and every macro and crate name that
is known everywhere, apart from the crate names that an `extern crate` can still change. -/
structure Keeps (imports : List Import) (c c' : Collection) : Prop where
  tree : c'.tree = c.tree
  edition : c'.map.edition = c.map.edition
  prelude : c'.map.prelude = c.map.prelude
  dependencies : c'.view.dependencies = c.view.dependencies
  directCrates : c'.directCrates = c.directCrates
  bound : ∀ slot, (c.map.binding? slot).isSome → (c'.map.binding? slot).isSome
  firm : ∀ slot b, c.Firm slot b → c'.Firm slot b
  macros : ∀ name b, c.map.macroPrelude.get? name = some b → c'.map.macroPrelude.get? name = some b
  crates : ∀ name, (∀ i ∈ imports, ¬ i.OpensCrate name) →
    c'.map.externPrelude.get? name = c.map.externPrelude.get? name

namespace Keeps

theorem refl (c : Collection) : Keeps imports c c :=
  ⟨rfl, rfl, rfl, rfl, rfl, fun _ h => h, fun _ _ h => h, fun _ _ h => h, fun _ _ => rfl⟩

theorem trans {c'' : Collection} (h : Keeps imports c c') (h' : Keeps imports c' c'') :
    Keeps imports c c'' where
  tree := h'.tree.trans h.tree
  edition := h'.edition.trans h.edition
  prelude := h'.prelude.trans h.prelude
  dependencies := h'.dependencies.trans h.dependencies
  directCrates := h'.directCrates.trans h.directCrates
  bound slot hb := h'.bound slot (h.bound slot hb)
  firm slot b hb := h'.firm slot b (h.firm slot b hb)
  macros name b hb := h'.macros name b (h.macros name b hb)
  crates name hname := (h'.crates name hname).trans (h.crates name hname)

/-- A view keeps what another one has if they have the same bindings and the same preludes. -/
theorem of_alike (h : Alike c c') (hedition : c'.map.edition = c.map.edition)
    (hprelude : c'.map.prelude = c.map.prelude) (hdirect : c'.directCrates = c.directCrates)
    (hmacros : ∀ name b, c.map.macroPrelude.get? name = some b →
      c'.map.macroPrelude.get? name = some b)
    (hcrates : ∀ name, (∀ i ∈ imports, ¬ i.OpensCrate name) →
      c'.map.externPrelude.get? name = c.map.externPrelude.get? name) : Keeps imports c c' where
  tree := h.tree
  edition := hedition
  prelude := hprelude
  dependencies := h.dependencies
  directCrates := hdirect
  bound slot hb := by rwa [h.binding?]
  firm := h.firm
  macros := hmacros
  crates := hcrates

theorem edition_place (c : Collection) (slot : Slot) (new : Binding) (origin : Origin) :
    (c.place slot new origin).1.map.edition = c.map.edition := by
  obtain ⟨_, _, h⟩ := c.place_fst slot new origin
  rw [h]
  dsimp only [map]
  split <;> rfl

theorem place {slot : Slot} (hr : slot.module.index < c.map.scopes.size) (new : Binding)
    (origin : Origin) : Keeps imports c (c.place slot new origin).1 := by
  have hframe := c.frame_place slot new origin
  refine ⟨hframe.tree, edition_place c slot new origin, hframe.prelude, hframe.dependencies,
    hframe.directCrates, fun t => isSome_place hr new origin, ?_, ?_, ?_⟩
  · intro t b hb
    have hnot : ¬ (t = slot ∧ c.Takes slot origin) := by
      rintro ⟨rfl, htakes⟩
      exact hb.not_takes origin htakes
    unfold Firm
    rw [c.binding?_place hr, c.source?_place, if_neg hnot, if_neg hnot]
    exact hb
  · intro name b hb
    rw [hframe.macroPrelude]
    exact hb
  · intro name _
    rw [hframe.externPrelude]

end Keeps

/-- A listing loses nothing when things are put under keys that are still free. -/
theorem get?_foldl_insertNew {κ α : Type} [DecidableEq κ] {entries : List (κ × α)}
    {known : Listing κ α} {k : κ} {a : α} (h : known.get? k = some a) :
    (entries.foldl (fun known (e : κ × α) => known.insertNew e.1 e.2) known).get? k = some a := by
  induction entries generalizing known with
  | nil => exact h
  | cons e entries ih =>
    refine ih ?_
    change (known.insertNew e.1 e.2).get? k = some a
    unfold Listing.insertNew
    split
    · exact h
    · next hfree =>
      have hne : k ≠ e.1 := by
        rintro rfl
        apply hfree
        unfold Listing.contains
        rw [h]
        rfl
      rw [Listing.get?_insert_of_ne known e.2 hne]
      exact h

/-- An `extern crate` at the root can change its own name among those of the crates, and no macro
that is known everywhere. -/
theorem keeps_openCrate {i : Import} (hi : i ∈ imports) {macroUse : Bool}
    (hk : i.kind = .externCrate macroUse) (hroot : i.module = .root) (meaning : Meaning) :
    Keeps imports c (c.openCrate i.name meaning macroUse) := by
  have halike := Alike.openCrate c i.name meaning macroUse
  revert halike
  unfold openCrate
  split
  · exact fun _ => Keeps.refl c
  · next root _ =>
    intro halike
    refine Keeps.of_alike halike rfl rfl rfl ?_ ?_
    · intro name b hb
      exact get?_foldl_insertNew hb
    · intro name hname
      cases hn : i.name with
      | none => rfl
      | some opened =>
        have hne : name ≠ opened := by
          rintro rfl
          exact hname i hi ⟨hroot, hn, macroUse, hk⟩
        exact Listing.get?_insert_of_ne _ root hne

theorem Change.keeps {i : Import} (hi : i ∈ imports) {meaning : Meaning} (hc : Coherent imports c)
    (h : Change imports i meaning c c') : Keeps imports c c' := by
  cases h with
  | copied h =>
    cases h with
    | told log =>
      exact .of_alike (Alike.told c log) rfl rfl rfl (fun _ _ h => h) fun _ _ => rfl
    | copied hi' hk h => exact .place (hc.mem_scopes hi') _ _
  | bound hk hn hb => exact .place (hc.mem_scopes hi) _ _
  | opened hk hroot => exact keeps_openCrate hi hk hroot meaning
  | linked hk source path hlocated =>
    have halike := Alike.addEdge c source { importer := i.module, visibility := i.visibility }
    revert halike
    unfold addEdge
    split
    · exact fun _ => Keeps.refl c
    · exact fun halike => .of_alike halike rfl rfl rfl (fun _ _ h => h) fun _ _ => rfl

theorem Move.keeps (hc : Coherent imports c) (h : Move imports c c') : Keeps imports c c' := by
  cases h with
  | told log => exact .of_alike (Alike.told c log) rfl rfl rfl (fun _ _ h => h) fun _ _ => rfl
  | changed hi h => exact h.keeps hi hc
  | recorded x => exact .of_alike (Alike.settled c _) rfl rfl rfl (fun _ _ h => h) fun _ _ => rfl
  | givenUp i => exact .of_alike (Alike.giveUp c i) rfl rfl rfl (fun _ _ h => h) fun _ _ => rfl

namespace Course

variable {limit : Nat} {start : Collection} {past : List Collection} {hand : Option SettledImport}

/-- Each state of a course keeps what all earlier states had. -/
theorem keeps (hcoherent : Coherent imports start) (h : Course limit imports start past hand c) :
    Keeps imports start c ∧ ∀ earlier ∈ past, Keeps imports earlier c :=
  h.related Keeps.refl (fun _ _ _ hab hbd => hab.trans hbd) (fun _ _ ha hab => hab.keeps ha)
    hcoherent

/-- The record of an import has the status that the import had in an earlier state, in which those
that stand before it had been recorded. -/
theorem settled_after_past (hcoherent : Coherent imports start)
    (h : Course limit imports start past hand c) : ∀ x ∈ c.settled, x ∈ start.settled ∨
      (x.declaration ∈ imports ∧ ∃ earlier ∈ past, x.status = earlier.status x.declaration ∧
        earlier.settled ++ [x] <+: c.settled) := by
  have grow : ∀ {past past' : List Collection} {c c' : Collection} {x : SettledImport},
      (∀ a ∈ past, a ∈ past') → c.settled <+: c'.settled →
      (x ∈ start.settled ∨
        (x.declaration ∈ imports ∧ ∃ earlier ∈ past, x.status = earlier.status x.declaration ∧
          earlier.settled ++ [x] <+: c.settled)) →
      x ∈ start.settled ∨
        (x.declaration ∈ imports ∧ ∃ earlier ∈ past', x.status = earlier.status x.declaration ∧
          earlier.settled ++ [x] <+: c'.settled) :=
    fun hsub hlonger hx => hx.imp_right fun ⟨hi, earlier, hearlier, hstatus, hbefore⟩ =>
      ⟨hi, earlier, hsub earlier hearlier, hstatus, hbefore.trans hlonger⟩
  induction h with
  | start => exact fun x hx => Or.inl hx
  | told h log ih =>
    exact fun x hx => grow (fun a ha => List.mem_append_left _ ha) List.prefix_rfl (ih x hx)
  | @within past c h i hi meaning hm before now after hs ih =>
    intro x hx
    obtain ⟨hpairs, -⟩ := carryOut_later limit meaning (h.coherent hcoherent) hi
    have hlater := (List.pairwise_cons.1 hpairs).1 now (by rw [hs]; simp)
    rw [hlater.settled] at hx
    refine grow (fun a ha => List.mem_append_left _ ha) ?_ (ih x hx)
    rewrite [hlater.settled]
    exact List.prefix_rfl
  | @settled past c h i hi meaning hm c' hok ih =>
    intro x hx
    obtain ⟨d, hd, hok⟩ := ok_of_bind hok
    cases hok
    have hlater := (carryOut_keeps (h.coherent hcoherent) hi hd).2
    rcases List.mem_append.1 hx with hx | hx
    · rw [hlater.settled] at hx
      refine grow (fun a ha => List.mem_append_left _ ha) ?_ (ih x hx)
      rw [← hlater.settled]
      exact List.prefix_append _ _
    · -- This is the import that was carried out last, with its status before that.
      rw [List.mem_singleton.1 hx]
      exact Or.inr ⟨hi, c, by simp, rfl, by rewrite [hlater.settled]; exact List.prefix_rfl⟩
  | givenUp h i ih =>
    exact fun x hx => grow (fun a ha => List.mem_append_left _ ha) List.prefix_rfl (ih x hx)

end Course

end Collection

end CrateScope
