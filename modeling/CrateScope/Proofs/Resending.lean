import CrateScope.Proofs.Delivery

/-!
# Handing everything on once more

When the imports of a crate have been collected, every glob has done its work: what its source has
and it may name, the module in which it stands has as well.  So it should change nothing if the glob
handed all of it on once more.

That is so unless the same two modules are joined by another glob with a different visibility.  News
from the module that a slot is marked with replace what the slot has, whichever of the globs they
come by; so of two such globs the slot has what came by the one, and the other would replace it.
Handing everything on once more by a glob changes nothing if, and only if, all slots that are marked
with its source have what this very glob hands on.

## Main definitions

* `Collection.resend` — a glob hands on all that its source has.
* `Collection.Reflects` — what is marked with the source is what the glob hands on.

## Main results

* `Collection.resend_changes_nothing_iff` — when a glob that hands everything on changes nothing.
* `standing_globs_are_reflected` — what holds of the globs of a crate when it is finished.
* `resending_can_change` — two globs between the same modules.
-/

namespace CrateScope

namespace Collection

variable {imports : List Import} {c : Collection} {s : LocalId} {e : GlobEdge}

/-- Hands all that the module `s` has on along a glob that reads from it, as if it had just come
there. -/
def resend (c : Collection) (limit : Nat) (s : LocalId) (e : GlobEdge) :
    Except Failure Collection :=
  handOn (fun c => c.receive limit) s (c.map.scope s).entries c e

/-- Whatever the module `s` has and the glob may name, the module in which the glob stands has as
the glob hands it on, where that is marked with `s`. -/
def Reflects (c : Collection) (s : LocalId) (e : GlobEdge) : Prop :=
  ∀ name ns b, c.map.binding? ⟨s, name, ns⟩ = some b →
    b.visibility.isVisibleFrom c.tree e.importer = true →
    c.globSources.get? ⟨e.importer, name, ns⟩ = some (c.tree.global s) →
    c.map.binding? ⟨e.importer, name, ns⟩ = some (b.handedOn c.tree e.visibility)

/-! ### What is handed on -/

/-- What a glob hands on is what it brought in at first, if it was an import of the crate. -/
theorem offered_eq_globNames (c : Collection) (s : LocalId) (i : Import) :
    offered c.tree i.module i.visibility (c.map.scope s).entries
      = c.globNames i (c.tree.global s) := by
  unfold globNames View.mapOf?
  rw [if_pos (crate_global c s)]
  exact (if_pos (crate_global c s)).symm

/-- What the module `s` has and the glob may name is what comes to the module of the glob. -/
theorem brings_resent {i : Import} {t : Slot} {b : Binding} :
    Brings i.module (c.globNames i (c.tree.global s)) t b ↔ t.module = i.module ∧
      ∃ b₀, c.map.binding? ⟨s, t.name, t.space⟩ = some b₀ ∧
        b₀.visibility.isVisibleFrom c.tree i.module = true ∧ b = b₀.handedOn c.tree i.visibility := by
  simp only [brings_globNames, get_meaning_global, if_pos (crate_global c s)]

/-! ### Changing nothing -/

section Resend

variable {i : Import} (hc : Coherent imports c) (hi : i ∈ imports)

include hc hi

/-- A glob that hands on what is there already changes nothing. -/
theorem resend_of_reflects (hbound : ∀ name ns b, c.map.binding? ⟨s, name, ns⟩ = some b →
      b.visibility.isVisibleFrom c.tree i.module = true →
      (c.map.binding? ⟨i.module, name, ns⟩).isSome)
    (h : c.Reflects s { importer := i.module, visibility := i.visibility }) (limit : Nat) :
    ∃ c', c.resend limit s { importer := i.module, visibility := i.visibility } = .ok c' ∧
      ∀ t, c'.map.binding? t = c.map.binding? t := by
  unfold resend handOn
  simp only [offered_eq_globNames]
  split
  · exact ⟨c, rfl, fun _ => rfl⟩
  · let told := c.tellHandedOn s { importer := i.module, visibility := i.visibility }
      (c.globNames i (c.tree.global s))
    have hm : i.module.index < told.map.scopes.size := hc.mem_scopes hi
    have hnd := nodup_globNames c i (c.tree.global s)
    -- Whatever comes to a slot that takes it, the slot has already.
    have hsame : ∀ t b, Brings i.module (c.globNames i (c.tree.global s)) t b →
        told.Takes t (.glob (c.tree.global s)) → told.map.binding? t = some b := by
      rintro ⟨m, name, ns⟩ b hb htakes
      obtain ⟨rfl, b₀, hb₀, hv, rfl⟩ := brings_resent.1 hb
      rcases htakes with hnone | hmark
      · have hsome := hbound name ns b₀ hb₀ hv
        rw [show c.map.binding? ⟨i.module, name, ns⟩ = none from hnone] at hsome
        cases hsome
      · exact h name ns b₀ hb₀ hv hmark
    have hunchanged : ∀ t b, ¬ Brings i.module (told.mergeAll i.module
        (c.globNames i (c.tree.global s)) (.glob (c.tree.global s))).2 t b := by
      intro t b hb
      obtain ⟨hnews, htakes, hne⟩ := (brings_mergeAll_snd hm hnd _).1 hb
      exact hne (hsame t b hnews htakes)
    refine ⟨(told.mergeAll i.module (c.globNames i (c.tree.global s))
      (.glob (c.tree.global s))).1, ?_, fun t =>
        binding?_mergeAll_of_not_changed hm hnd _ fun b => hunchanged t b⟩
    rw [receive, update]
    refine if_pos ?_
    by_contra hchanged
    obtain ⟨t, b, hb⟩ := exists_brings_of_mergeAll_snd hm hnd (.glob (c.tree.global s))
      (Bool.eq_false_iff.2 hchanged)
    exact hunchanged t b hb

/-- A glob that changes nothing hands on what is there already. -/
theorem reflects_of_resend (hk : i.kind = .glob) {limit : Nat} {c' : Collection}
    (h : c.resend limit s { importer := i.module, visibility := i.visibility } = .ok c')
    (hsame : ∀ t, c'.map.binding? t = c.map.binding? t) :
    c.Reflects s { importer := i.module, visibility := i.visibility } := by
  intro name ns b hb hv hmark
  have hbrings : Brings i.module (c.globNames i (c.tree.global s)) ⟨i.module, name, ns⟩
      (b.handedOn c.tree i.visibility) := brings_resent.2 ⟨rfl, b, hb, hv, rfl⟩
  unfold resend handOn at h
  simp only [offered_eq_globNames] at h
  split at h
  · next hempty =>
    obtain ⟨-, meaning, hmem, -⟩ := hbrings
    rw [List.isEmpty_iff.1 hempty] at hmem
    cases hmem
  · let told := c.tellHandedOn s { importer := i.module, visibility := i.visibility }
      (c.globNames i (c.tree.global s))
    have hct : Coherent imports told := hc.told _
    have hin := incoming_globNames told i (c.tree.global s)
    have hself : ∀ k, c.tree.global s = told.tree.global k → k ∈ c.sourcePath (c.tree.global s) :=
      fun k hk => mem_sourcePath hk
    -- What was handed on has arrived, and no slot that is bound has lost its mark.
    have hgrants : Grants (fun _ _ => True) told := fun _ _ _ => trivial
    have hsupplied : SuppliedBut (fun _ _ => True) (fun _ _ _ _ => True) told :=
      fun _ _ _ _ _ => Or.inl trivial
    obtain ⟨-, harrived⟩ := update_delivers hct hi hk hself hin limit (limit + 1) hgrants
      (fun _ _ => trivial) hsupplied h
    obtain ⟨-, hgrows, -⟩ := update_keeps hct hi hk hself hin h
    obtain ⟨b', hb', hsource⟩ := harrived ⟨i.module, name, ns⟩ _ hbrings
    rw [hsame] at hb'
    rw [hb', hsource ((hgrows.mark _ (hc.bound _ _ hmark)).trans hmark)]

end Resend

/-- Handing everything on once more by a standing glob changes nothing exactly if all that is marked
with its source is what it hands on. -/
theorem resend_changes_nothing_iff (hc : Coherent imports c) (hd : Delivered c)
    (he : e ∈ c.edgesFrom s) (limit : Nat) :
    (∃ c', c.resend limit s e = .ok c' ∧ ∀ t, c'.map.binding? t = c.map.binding? t)
      ↔ c.Reflects s e := by
  obtain ⟨i, hi, hk, rfl⟩ := hc.edges s e he
  constructor
  · rintro ⟨c', h, hsame⟩
    exact reflects_of_resend hc hi hk h hsame
  · refine fun h => resend_of_reflects hc hi (fun name ns b hb hv => ?_) h limit
    obtain ⟨b', hb', -⟩ := (hd.supplied s _ he name ns).resolve_left id b hb hv
    rw [hb']
    rfl

/-- A glob whose module is not joined to its source by another one with a different visibility hands
on what is there. -/
theorem Delivered.reflects (hd : Delivered c) (he : e ∈ c.edgesFrom s)
    (honly : ∀ e' ∈ c.edgesFrom s, e'.importer = e.importer → e'.visibility = e.visibility) :
    c.Reflects s e := by
  intro name ns b hb hv hmark
  obtain ⟨b', hb', hsource⟩ := (hd.supplied s e he name ns).resolve_left id b hb hv
  obtain ⟨e', he', him, rfl⟩ := hsource hmark
  rw [hb', honly e' he' him]

end Collection

/-- **The standing globs of a finished crate are reflected.**  When the imports of a crate have been
collected, in whatever order, take any glob that reads from a module `s`.  What `s` has and the glob
may name, the module of the glob has too; and where that is marked with `s`, it is what one of the
globs between the two modules hands on of what `s` has.  If the glob hands all of it on once more,
however deep that may go, no slot of any module changes exactly if each of these slots has what this
very glob hands on; and that is so if no other glob between the two modules has a different
visibility. -/
theorem standing_globs_are_reflected {g : CrateGraph} {id : CrateId} {crate : CrateSource}
    {finished : CrateId → Option CrateMap} {settings : Settings} {start : Collection}
    {imports : List Import}
    (hopen : openBuild g id crate finished settings = .ok (start, imports))
    {order : List Import} (horder : ∀ i ∈ order, i ∈ imports) {limit : Nat}
    {isCancelled : Nat → Bool} {outcome : Collection.Outcome}
    (hrun : Collection.run limit isCancelled order start = .ok outcome) :
    let c := outcome.collection
    ∀ s e, e ∈ c.edgesFrom s →
      (∀ name ns b, c.map.binding? ⟨s, name, ns⟩ = some b →
        b.visibility.isVisibleFrom c.tree e.importer = true →
        ∃ b', c.map.binding? ⟨e.importer, name, ns⟩ = some b' ∧
          (c.globSources.get? ⟨e.importer, name, ns⟩ = some (c.tree.global s) →
            ∃ e' ∈ c.edgesFrom s, e'.importer = e.importer ∧
              b' = b.handedOn c.tree e'.visibility)) ∧
      (∀ limit', (∃ c', c.resend limit' s e = .ok c' ∧
          ∀ t, c'.map.binding? t = c.map.binding? t) ↔ c.Reflects s e) ∧
      ((∀ e' ∈ c.edgesFrom s, e'.importer = e.importer → e'.visibility = e.visibility) →
        c.Reflects s e) := by
  have hstart := opened_of_openBuild hopen
  obtain ⟨past, hcourse⟩ := Collection.Course.of_run horder hrun
  have hc := hcourse.coherent hstart.coherent
  have hdelivered := hcourse.delivered hstart.coherent hstart.delivered
  intro c s e he
  exact ⟨fun name ns => (hdelivered.supplied s e he name ns).resolve_left fun hfalse => hfalse,
    fun limit' => Collection.resend_changes_nothing_iff hc hdelivered he limit',
    hdelivered.reflects he⟩

/-- Each of two modules that read from each other has what the other one would hand on. -/
theorem standing_globs_are_reflected_mirrors : ∃ outcome : Collection.Outcome,
    outcome.collection.edgesFrom ⟨1⟩ = [⟨⟨2⟩, .everywhere⟩] ∧
    (outcome.collection.map.binding? ⟨⟨1⟩, "S", .types⟩).isSome ∧
    ∀ limit, ∃ c', outcome.collection.resend limit ⟨1⟩ ⟨⟨2⟩, .everywhere⟩ = .ok c' ∧
      ∀ t, c'.map.binding? t = outcome.collection.map.binding? t := by
  have hrun : (openBuild mirrorsGraph ⟨0⟩ mirrors (fun _ => none) {} >>= fun r =>
      (Collection.run 3 (fun _ => false) r.2 r.1)).map (fun outcome =>
        (outcome.collection.edgesFrom ⟨1⟩,
          (outcome.collection.map.binding? ⟨⟨1⟩, "S", .types⟩).isSome))
      = .ok ([⟨⟨2⟩, .everywhere⟩], true) := by cbv
  obtain ⟨outcome, hcollect, hstate⟩ := ok_of_map hrun
  obtain ⟨⟨start, imports⟩, hopen, hcollect⟩ := ok_of_bind hcollect
  obtain ⟨hedges, hbound⟩ := Prod.mk.inj hstate
  obtain ⟨-, hiff, honly⟩ := standing_globs_are_reflected hopen (fun i hi => hi) hcollect ⟨1⟩
    ⟨⟨2⟩, .everywhere⟩ (by rw [hedges]; exact List.mem_singleton_self _)
  refine ⟨outcome, hedges, hbound, fun limit => (hiff limit).2 (honly fun e' he' _ => ?_)⟩
  rw [hedges, List.mem_singleton] at he'
  rw [he']

/-! ### A crate with two globs between the same modules -/

/-- A crate in which `m` reads all names from `s` twice, for everyone and for itself. -/
def doubled : CrateSource where
  name := "doubled"
  root :=
    { items := [
        { name := some "s", kind := .module
            { items := [{ name := some "f", visibility := .pub, kind := .function }] } },
        { name := some "m", kind := .module
            { uses := [{ path := "crate::s::*", visibility := .pub }, { path := "crate::s::*" }] } }] }

/-- The graph that has only this crate. -/
def doubledGraph : CrateGraph := ⟨[doubled], List.nodup_singleton _⟩

/-- The first of the two globs would replace what came by the second. -/
theorem resending_can_change : ∃ start imports outcome resent,
    openBuild doubledGraph ⟨0⟩ doubled (fun _ => none) {} = .ok (start, imports) ∧
    Collection.run 5 (fun _ => false) imports start = .ok outcome ∧
    ∃ s e, e ∈ outcome.collection.edgesFrom s ∧ outcome.collection.resend 5 s e = .ok resent ∧
      ∃ t, resent.map.binding? t ≠ outcome.collection.map.binding? t := by
  have hrun : (openBuild doubledGraph ⟨0⟩ doubled (fun _ => none) {} >>= fun r =>
      (Collection.run 5 (fun _ => false) r.2 r.1) >>= fun outcome =>
        (outcome.collection.resend 5 ⟨1⟩ ⟨⟨2⟩, .everywhere⟩).map fun resent => (r, outcome, resent)).map
      (fun (_, outcome, resent) => (outcome.collection.edgesFrom ⟨1⟩,
        (outcome.collection.map.binding? ⟨⟨2⟩, "f", .values⟩).map Binding.visibility,
        (resent.map.binding? ⟨⟨2⟩, "f", .values⟩).map Binding.visibility))
      = .ok ([⟨⟨2⟩, .everywhere⟩, ⟨⟨2⟩, .within ⟨⟨0⟩, ⟨2⟩⟩⟩], some (.within ⟨⟨0⟩, ⟨2⟩⟩),
        some .everywhere) := by cbv
  obtain ⟨⟨⟨start, imports⟩, outcome, resent⟩, hall, hstate⟩ := ok_of_map hrun
  obtain ⟨⟨start', imports'⟩, hopen, hall⟩ := ok_of_bind hall
  obtain ⟨outcome', hcollect, hall⟩ := ok_of_bind hall
  obtain ⟨resent', hresend, heq⟩ := ok_of_map hall
  cases heq
  simp only [Prod.mk.injEq] at hstate
  obtain ⟨hedges, hbefore, hafter⟩ := hstate
  refine ⟨start, imports, outcome, resent, hopen, hcollect, ⟨1⟩, ⟨⟨2⟩, .everywhere⟩, ?_, hresend,
    ⟨⟨2⟩, "f", .values⟩, fun hsame => ?_⟩
  · rw [hedges]
    exact List.mem_cons_self
  · rw [hsame, hbefore] at hafter
    cases hafter

end CrateScope
