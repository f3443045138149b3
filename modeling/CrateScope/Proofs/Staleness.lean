import CrateScope.Proofs.Delivery
import CrateScope.Proofs.Permanence

/-!
# What globs leave behind

A glob only ever brings names.  When its source gives a name up, or rather holds another item under
it that the importing module may not name, nothing is handed on, and the module keeps what it had.
So a name that came through a glob need not be one that the source has still to offer.

What is certain is that the source is connected to the module, that it still has the name, that
whatever it has and the module may name is what the module has, and that the module never has
anything that the source did not once offer it.

## Main definitions

* `Collection.Linked`, `Collection.WiredBut` — the globs behind the marks.
* `Collection.Offered` — what is marked was offered by the source in an earlier state.

## Main results

* `Collection.Course.wired` — between two imports there is a glob behind every mark.
* `Collection.Course.offered` — no slot holds through a glob what was never offered.
* `glob_names_were_offered` — all of this when a crate is finished.
-/

namespace CrateScope

namespace Collection

variable {imports : List Import} {c c' : Collection} {allowed : LocalId → ModuleId → Prop}

/-! ### The globs behind the marks -/

/-- Some glob in the module `m` reads from a source, unless that is of another crate. -/
def Linked (c : Collection) (m : LocalId) (source : ModuleId) : Prop :=
  ∀ s, source = c.tree.global s → ∃ e ∈ c.edgesFrom s, e.importer = m

/-- There is a glob behind every mark, with some exceptions. -/
def WiredBut (allowed : LocalId → ModuleId → Prop) (c : Collection) : Prop :=
  ∀ slot source, c.globSources.get? slot = some source →
    c.Linked slot.module source ∨ allowed slot.module source

theorem Linked.mono (htree : c'.tree = c.tree)
    (hedges : ∀ s e, e ∈ c.edgesFrom s → e ∈ c'.edgesFrom s) {m : LocalId} {source : ModuleId}
    (h : c.Linked m source) : c'.Linked m source := by
  intro s hs
  rw [htree] at hs
  obtain ⟨e, he, hm⟩ := h s hs
  exact ⟨e, hedges s e he, hm⟩

theorem Linked.frame (hf : Frame c c') {m : LocalId} {source : ModuleId} (h : c.Linked m source) :
    c'.Linked m source :=
  h.mono hf.tree fun s e he => by rwa [edgesFrom_frame hf]

/-- The marks stay and the globs only grow. -/
theorem WiredBut.alike (h : WiredBut allowed c) (halike : Alike c c')
    (hedges : ∀ s e, e ∈ c.edgesFrom s → e ∈ c'.edgesFrom s) : WiredBut allowed c' := by
  intro slot source hmark
  rw [halike.source?] at hmark
  exact (h slot source hmark).imp_left (·.mono halike.tree hedges)

theorem WiredBut.told (h : WiredBut allowed c) (log : Log) : WiredBut allowed { c with log } :=
  h.alike (Alike.told c log) fun _ _ he => he

/-- A binding that comes through a glob leaves a glob behind every mark, if there is one behind its
own. -/
theorem WiredBut.place (h : WiredBut allowed c) {slot : Slot} {origin : Origin}
    (horigin : ∀ source, origin = .glob source →
      c.Linked slot.module source ∨ allowed slot.module source) (new : Binding) :
    WiredBut allowed (c.place slot new origin).1 := by
  have hframe := c.frame_place slot new origin
  intro t source hmark
  rw [c.source?_place] at hmark
  split at hmark
  · next htakes =>
    obtain ⟨rfl, -⟩ := htakes
    cases origin with
    | named => cases hmark
    | glob source' =>
      cases hmark
      exact (horigin source rfl).imp_left (·.frame hframe)
  · exact (h t source hmark).imp_left (·.frame hframe)

/-- An update hands on along globs that are there, and leaves them as they are. -/
theorem update_wired {limit depth : Nat} {m : LocalId} {news : List (Name × Meaning)}
    {origin : Origin} (hw : WiredBut allowed c)
    (horigin : ∀ source, origin = .glob source → c.Linked m source ∨ allowed m source)
    (h : update limit depth c m news origin = .ok c') : Frame c c' ∧ WiredBut allowed c' := by
  induction depth generalizing c c' m news origin with
  | zero => cases h
  | succ depth ih =>
    have hmerged : Frame c (c.mergeAll m news origin).1 ∧
        WiredBut allowed (c.mergeAll m news origin).1 := by
      refine mergeAll_keeps (P := fun d => Frame c d ∧ WiredBut allowed d) ?_ news
        ⟨Frame.refl c, hw⟩
      rintro d name ns b ⟨hframe, hwd⟩
      refine ⟨hframe.trans (d.frame_place _ b origin), hwd.place (fun source hs => ?_) b⟩
      exact (horigin source hs).imp_left (·.frame hframe)
    rw [update] at h
    simp only at h
    split at h
    · cases h
      exact hmerged
    · refine foldlM_keeps (P := fun d => Frame c d ∧ WiredBut allowed d) ?_ hmerged h
      rintro e he d d' ⟨hframe, hwd⟩ hround
      unfold handOn at hround
      simp only at hround
      split at hround
      · cases hround
        exact ⟨hframe, hwd⟩
      · -- The glob of this round is one that reads from `m`.
        have hlinked : d.Linked e.importer (d.tree.global m) := by
          intro s hs
          refine ⟨e, ?_, rfl⟩
          rw [← global_injective _ hs]
          rwa [edgesFrom_frame hmerged.1, ← edgesFrom_frame hframe] at he
        obtain ⟨hframe', hwd'⟩ := ih (hwd.told _)
          (fun source hs => Or.inl (Origin.glob.inj hs ▸ hlinked)) hround
        exact ⟨(hframe.trans (Frame.told d _)).trans hframe', hwd'⟩

/-- Binding the name of an import leaves no mark without a glob. -/
theorem bindName_wired {limit : Nat} {i : Import} {meaning : Meaning} (hw : WiredBut allowed c)
    (h : c.bindName limit i meaning = .ok c') : WiredBut allowed c' := by
  unfold bindName at h
  split at h
  · cases h
    exact hw
  · next name _ =>
    have htold : WiredBut allowed (c.tellBinding i name) := hw.told _
    exact (update_wired htold (fun source hs => by cases hs) h).2

/-- A glob that was carried out leaves no mark without a glob, since it becomes a standing
connection itself. -/
theorem openGlob_wired {limit : Nat} {i : Import} {meaning : Meaning} (hw : WiredBut allowed c)
    (h : c.openGlob limit i meaning = .ok c') : WiredBut allowed c' := by
  unfold openGlob at h
  split at h
  · cases h
    exact hw.told _
  · split at h
    · cases h
      exact hw
    · next source _ =>
      obtain ⟨d, hr, h⟩ := ok_of_bind h
      cases h
      -- Until the connection is made, the marks of this glob are exceptions.
      have hbut : WiredBut (fun m s => (m = i.module ∧ s = source) ∨ allowed m s)
          (c.tellGlob i (c.globNames i source)) := fun slot s hmark =>
        (hw.told _ slot s hmark).imp_right Or.inr
      obtain ⟨-, hd⟩ := update_wired hbut
        (fun s hs => Or.inr (Or.inl ⟨rfl, (Origin.glob.inj hs).symm⟩)) hr
      unfold linkGlob
      split
      · next hown =>
        have halike := Alike.addEdge d source.index
          { importer := i.module, visibility := i.visibility }
        have hedges : ∀ s e, e ∈ d.edgesFrom s → e ∈ (d.addEdge source.index
            { importer := i.module, visibility := i.visibility }).edgesFrom s :=
          fun s e he => mem_edgesFrom_addEdge.2 (Or.inl he)
        intro slot s hmark
        rw [halike.source?] at hmark
        rcases hd slot s hmark with hlinked | (⟨hm, rfl⟩ | hallowed)
        · exact Or.inl (hlinked.mono halike.tree hedges)
        · refine Or.inl fun s' hs' => ⟨_, mem_edgesFrom_addEdge.2 (Or.inr ⟨?_, rfl⟩), hm.symm⟩
          rw [hs']
          rfl
        · exact Or.inr hallowed
      · next hforeign =>
        intro slot s hmark
        rcases hd slot s hmark with hlinked | (⟨-, rfl⟩ | hallowed)
        · exact Or.inl hlinked
        · refine Or.inl fun s' hs' => ?_
          rw [hs'] at hforeign
          exact absurd rfl hforeign
        · exact Or.inr hallowed

theorem carryOut_wired {limit : Nat} {i : Import} {meaning : Meaning} (hw : WiredBut allowed c)
    (h : c.carryOut limit i meaning = .ok c') : WiredBut allowed c' := by
  unfold carryOut at h
  split at h
  · exact openGlob_wired hw h
  · exact bindName_wired hw h
  · next macroUse _ =>
    split at h
    · have halike := Alike.openCrate c i.name meaning macroUse
      exact bindName_wired (hw.alike halike fun s e he => by rwa [edgesFrom_openCrate]) h
    · exact bindName_wired hw h

/-- Between two imports there is a glob behind every mark. -/
theorem Course.wired {limit : Nat} {start : Collection} {past : List Collection}
    (hcoherent : Coherent imports start) (hstart : WiredBut (fun _ _ => False) start)
    (h : Course limit imports start past none c) : WiredBut (fun _ _ => False) c := by
  refine h.invariant_between hcoherent hstart ?_ ?_ ?_ rfl
  · exact fun c log hw => hw.told log
  · intro c i hc hi meaning hm d hd hw
    exact (carryOut_wired hw hd).alike (Alike.settled d _) fun _ _ he => he
  · exact fun c i hw => hw.alike (Alike.giveUp c i) fun _ _ he => he

/-! ### What was offered -/

/-- What the slots of a state have through globs of the crate the globs offered in one of some
earlier states: there the source had the same item, and the module of the slot could name it. -/
def Offered (seen : List Collection) (c : Collection) : Prop :=
  ∀ m name ns s, c.globSources.get? ⟨m, name, ns⟩ = some (c.tree.global s) →
    ∀ b, c.map.binding? ⟨m, name, ns⟩ = some b → ∃ earlier ∈ seen, ∃ b₀,
      earlier.map.binding? ⟨s, name, ns⟩ = some b₀ ∧
      b₀.visibility.isVisibleFrom earlier.tree m = true ∧ b₀.path = b.path

theorem Offered.mono {seen seen' : List Collection} (h : Offered seen c)
    (hsub : ∀ a ∈ seen, a ∈ seen') : Offered seen' c := by
  intro m name ns s hmark b hb
  obtain ⟨earlier, hearlier, hoffer⟩ := h m name ns s hmark b hb
  exact ⟨earlier, hsub earlier hearlier, hoffer⟩

theorem Offered.alike {seen : List Collection} (h : Offered seen c) (halike : Alike c c') :
    Offered seen c' := by
  intro m name ns s hmark b hb
  rw [halike.source?, halike.tree] at hmark
  rw [halike.binding?] at hb
  exact h m name ns s hmark b hb

theorem Offered.place {seen : List Collection} (h : Offered seen c) {slot : Slot}
    (hr : slot.module.index < c.map.scopes.size) (new : Binding) (origin : Origin)
    (hnew : ∀ s, origin = .glob (c.tree.global s) → ∃ b₀,
      c.map.binding? ⟨s, slot.name, slot.space⟩ = some b₀ ∧
      b₀.visibility.isVisibleFrom c.tree slot.module = true ∧ b₀.path = new.path) :
    Offered (seen ++ [c]) (c.place slot new origin).1 := by
  intro m name ns s hmark b hb
  rw [c.source?_place, (c.frame_place slot new origin).tree] at hmark
  rw [c.binding?_place hr] at hb
  split at hb
  · next htakes =>
    rw [if_pos htakes] at hmark
    obtain ⟨rfl, -⟩ := htakes
    cases hb
    cases origin with
    | named => cases hmark
    | glob source =>
      -- What comes now is offered now.
      obtain ⟨b₀, hb₀⟩ := hnew s (congrArg Origin.glob (Option.some.inj hmark))
      exact ⟨c, List.mem_append_right _ (List.mem_singleton_self c), b₀, hb₀⟩
  · next htakes =>
    rw [if_neg htakes] at hmark
    obtain ⟨earlier, hearlier, hoffer⟩ := h m name ns s hmark b hb
    exact ⟨earlier, List.mem_append_left _ hearlier, hoffer⟩

theorem Move.offered {seen : List Collection} (hc : Coherent imports c) (h : Move imports c c')
    (ho : Offered seen c) : Offered (seen ++ [c]) c' := by
  have hmono : Offered (seen ++ [c]) c := ho.mono fun a ha => List.mem_append_left _ ha
  cases h with
  | told log => exact hmono.alike (Alike.told c log)
  | recorded x => exact hmono.alike (Alike.settled c _)
  | givenUp i => exact hmono.alike (Alike.giveUp c i)
  | changed hi h =>
    cases h with
    | copied h =>
      cases h with
      | told log => exact hmono.alike (Alike.told c log)
      | copied hi' hk hcopies =>
        refine ho.place (hc.mem_scopes hi') _ _ fun s hs => ?_
        cases hs
        exact ⟨_, hcopies.isSome, hcopies.visible, rfl⟩
    | bound hk hn hb => exact ho.place (hc.mem_scopes hi) _ _ fun s hs => by cases hs
    | opened hk hroot => exact hmono.alike (Alike.openCrate c _ _ _)
    | linked hk source path hlocated => exact hmono.alike (Alike.addEdge c _ _)

/-- No slot holds through a glob what the source did not offer in an earlier state. -/
theorem Course.offered {limit : Nat} {start : Collection} {past : List Collection}
    {hand : Option SettledImport} (hcoherent : Coherent imports start) (hstart : Offered [] start)
    (h : Course limit imports start past hand c) : Offered past c := by
  obtain ⟨states, hstates, hwalk⟩ := h.walk hcoherent
  have hwalk' := hwalk.with_invariant (P := Coherent imports) (fun _ _ hab ha => hab.coherent ha)
    hcoherent
  obtain ⟨seen, hseen, hoffered⟩ := hwalk'.history (P := Offered)
    (fun seen a b hab ha => hab.2.offered hab.1 ha) hstart
  rw [List.nil_append, hstates] at hseen
  rwa [← List.append_cancel_right hseen]

end Collection

/-- **What globs leave behind.**  When the imports of a crate have been collected, in whatever
order, a slot that is marked as coming from a glob of a module of the crate is bound, and so is that
module's slot for the name.  Both hold the same item if the one module may name what the other has;
and in any case the other one had the item that the slot holds in an earlier state, and offered
it. -/
theorem glob_names_were_offered {g : CrateGraph} {id : CrateId} {crate : CrateSource}
    {finished : CrateId → Option CrateMap} {settings : Settings} {start : Collection}
    {imports : List Import}
    (hopen : openBuild g id crate finished settings = .ok (start, imports))
    {order : List Import} (horder : ∀ i ∈ order, i ∈ imports) {limit : Nat}
    {isCancelled : Nat → Bool} {outcome : Collection.Outcome}
    (hrun : Collection.run limit isCancelled order start = .ok outcome) :
    let c := outcome.collection
    ∃ past, Collection.Course limit imports start past none c ∧
      ∀ m name ns s, c.globSources.get? ⟨m, name, ns⟩ = some (c.tree.global s) →
        ∃ b offered, c.map.binding? ⟨m, name, ns⟩ = some b ∧
          c.map.binding? ⟨s, name, ns⟩ = some offered ∧
          (offered.visibility.isVisibleFrom c.tree m = true → offered.path = b.path) ∧
          ∃ earlier ∈ past, ∃ b₀, earlier.map.binding? ⟨s, name, ns⟩ = some b₀ ∧
            b₀.visibility.isVisibleFrom earlier.tree m = true ∧ b₀.path = b.path := by
  have hstart := opened_of_openBuild hopen
  obtain ⟨past, hcourse⟩ := Collection.Course.of_run horder hrun
  intro c
  refine ⟨past, hcourse, fun m name ns s hmark => ?_⟩
  have hc := hcourse.coherent hstart.coherent
  obtain ⟨b, hb⟩ := Option.isSome_iff_exists.1 (hc.bound _ _ hmark)
  obtain ⟨offered, hoffered⟩ := Option.isSome_iff_exists.1 (hc.source_bound name ns m s hmark)
  refine ⟨b, offered, hb, hoffered, fun hv => ?_, ?_⟩
  · -- There is a glob from the one module to the other, and it has delivered.
    have hwired := hcourse.wired hstart.coherent fun slot source hmark => by
      rw [hstart.globSources] at hmark
      cases hmark
    rcases hwired _ _ hmark with hlinked | hfalse
    · obtain ⟨e, he, rfl⟩ := hlinked s rfl
      have hdelivered := hcourse.delivered hstart.coherent hstart.delivered
      rcases hdelivered.carried s e he name ns with hfalse | hcarried
      · exact hfalse.elim
      · obtain ⟨b', hb', hpath⟩ := hcarried offered hoffered hv
        rw [Option.some.inj (hb.symm.trans hb')]
        exact (hpath hmark).symm
    · exact hfalse.elim
  · refine hcourse.offered hstart.coherent ?_ m name ns s hmark b hb
    intro m name ns s hmark
    rw [hstart.globSources] at hmark
    cases hmark

/-! ### A crate with a name that is left behind -/

/-- A crate in which `m` gets `f` from `s`, which has it through a glob of its own at that moment.
Afterwards `s` is given another `f` by name, for itself alone. -/
def leavingBehind : CrateSource where
  name := "leaving-behind"
  root :=
    { items := [
        { name := some "g", kind := .module
            { items := [{ name := some "f", visibility := .pub, kind := .function }] } },
        { name := some "h", kind := .module
            { items := [{ name := some "f", visibility := .pub, kind := .function }] } },
        { name := some "s", kind := .module
            { uses := [{ path := "crate::g::*", visibility := .pub },
                { path := "crate::z::f" }] } },
        { name := some "m", kind := .module { uses := [{ path := "crate::s::*" }] } },
        { name := some "z", kind := .module
            { uses := [{ path := "crate::h::f", visibility := .pub }] } }] }

/-- The graph that has only this crate. -/
def leavingBehindGraph : CrateGraph := ⟨[leavingBehind], List.nodup_singleton _⟩

/-- What the two modules have under the name in the end, and the mark of the one that imports. -/
theorem slots_leavingBehind :
    (openBuild leavingBehindGraph ⟨0⟩ leavingBehind (fun _ => none) {} >>= fun r =>
      (Collection.run 5 (fun _ => false) r.2 r.1)).map (fun outcome =>
        (outcome.collection.globSources.get? ⟨⟨4⟩, "f", .values⟩,
          outcome.collection.map.binding? ⟨⟨4⟩, "f", .values⟩,
          outcome.collection.map.binding? ⟨⟨3⟩, "f", .values⟩,
          outcome.collection.tree.global ⟨3⟩,
          Visibility.isVisibleFrom outcome.collection.tree ⟨4⟩ (.within ⟨⟨0⟩, ⟨3⟩⟩))) =
    .ok (some ⟨⟨0⟩, ⟨3⟩⟩, some ⟨⟨⟨0⟩, ["g", "f"]⟩, .within ⟨⟨0⟩, ⟨4⟩⟩, false⟩,
      some ⟨⟨⟨0⟩, ["h", "f"]⟩, .within ⟨⟨0⟩, ⟨3⟩⟩, false⟩, ⟨⟨0⟩, ⟨3⟩⟩, false) := by
  cbv

/-- A module can keep through a glob what the glob's source does not offer any more. -/
theorem glob_names_can_go_stale : ∃ start imports outcome,
    openBuild leavingBehindGraph ⟨0⟩ leavingBehind (fun _ => none) {} = .ok (start, imports) ∧
    Collection.run 5 (fun _ => false) imports start = .ok outcome ∧
    ∃ m name ns s b offered,
      outcome.collection.globSources.get? ⟨m, name, ns⟩ = some (outcome.collection.tree.global s) ∧
      outcome.collection.map.binding? ⟨m, name, ns⟩ = some b ∧
      outcome.collection.map.binding? ⟨s, name, ns⟩ = some offered ∧
      offered.path ≠ b.path ∧
      offered.visibility.isVisibleFrom outcome.collection.tree m = false := by
  obtain ⟨outcome, hcollect, hslots⟩ := ok_of_map slots_leavingBehind
  obtain ⟨⟨start, imports⟩, hopen, hrun⟩ := ok_of_bind hcollect
  simp only [Prod.mk.injEq] at hslots
  obtain ⟨hmark, hb, hoffered, hglobal, hhidden⟩ := hslots
  refine ⟨start, imports, outcome, hopen, hrun, ⟨4⟩, "f", .values, ⟨3⟩, _, _, ?_, hb, hoffered,
    by decide, hhidden⟩
  rw [hmark, hglobal]

/-- What the module `m` of this crate keeps, `s` offered it once. -/
theorem glob_names_were_offered_leavingBehind : ∃ start imports outcome past,
    openBuild leavingBehindGraph ⟨0⟩ leavingBehind (fun _ => none) {} = .ok (start, imports) ∧
    Collection.run 5 (fun _ => false) imports start = .ok outcome ∧
    Collection.Course 5 imports start past none outcome.collection ∧
    outcome.collection.globSources.get? ⟨⟨4⟩, "f", .values⟩
      = some (outcome.collection.tree.global ⟨3⟩) ∧
    ∃ earlier ∈ past, ∃ b₀, earlier.map.binding? ⟨⟨3⟩, "f", .values⟩ = some b₀ ∧
      b₀.visibility.isVisibleFrom earlier.tree ⟨4⟩ = true ∧ b₀.path = ⟨⟨0⟩, ["g", "f"]⟩ := by
  obtain ⟨outcome, hcollect, hslots⟩ := ok_of_map slots_leavingBehind
  obtain ⟨⟨start, imports⟩, hopen, hrun⟩ := ok_of_bind hcollect
  simp only [Prod.mk.injEq] at hslots
  obtain ⟨hmark, hb, -, hglobal, -⟩ := hslots
  rw [← hglobal] at hmark
  obtain ⟨past, hcourse, hall⟩ := glob_names_were_offered hopen (fun i hi => hi) hrun
  obtain ⟨b, offered, hb', -, -, hearlier⟩ := hall ⟨4⟩ "f" .values ⟨3⟩ hmark
  rw [hb] at hb'
  cases hb'
  exact ⟨start, imports, outcome, past, hopen, hrun, hcourse, hmark, hearlier⟩

end CrateScope
