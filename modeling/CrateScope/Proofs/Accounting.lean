import CrateScope.Proofs.Readings
import CrateScope.Proofs.Traversal

/-!
# Every import is accounted for

An import that waits is carried out in some pass and then recorded, or it waits for the next pass.
A pass that carries none out is the last, and leaves the state as it found it.  So whatever is still
waiting then had no meaning in the very state in which the collection ends; and since every other
pass carries at least one import out, there are at most as many passes as imports, and one more.

## Main definitions

* `Collection.Clashed` — between two states nothing but clashes of imports is reported.
* `Collection.Accounts` — what some imports came to between two states.

## Main results

* `Collection.accounts_pass`, `Collection.accounts_settle` — a pass, and all passes, lose no import
  and carry none out twice.
* `every_import_is_accounted_for` — this together with what the walk over the item tree makes of
  each `use` and each `extern crate`.
-/

namespace CrateScope

/-- Whether a diagnostic tells of an import that would bind a name to another item. -/
def Diagnostic.isClash : Diagnostic → Bool
  | ambiguousImport .. => true
  | _ => false

namespace View

/-- The view with other diagnostics. -/
def withDiagnostics (view : View) (diagnostics : List Diagnostic) : View :=
  { view with own := { view.own with diagnostics } }

variable (view : View) (diagnostics : List Diagnostic)

theorem locate?_withDiagnostics (path : ItemPath) :
    (view.withDiagnostics diagnostics).locate? path = view.locate? path :=
  @locate?_congr view (view.withDiagnostics diagnostics) rfl rfl path

/-- Nothing is bound to something else because of a diagnostic. -/
theorem sameNames_withDiagnostics : view.SameNames (view.withDiagnostics diagnostics) :=
  ⟨rfl, rfl, rfl, rfl, rfl, rfl⟩

end View

namespace Collection

variable {limit : Nat} {imports waiting left : List Import} {c c' : Collection}

/-! ### What is reported on the way -/

/-- From `c` to `c'` nothing is reported but clashes. -/
def Clashed (c c' : Collection) : Prop :=
  ∃ clashes, c'.map.diagnostics = c.map.diagnostics ++ clashes ∧
    ∀ d ∈ clashes, d.isClash = true

theorem Clashed.of_eq (h : c'.map.diagnostics = c.map.diagnostics) : Clashed c c' :=
  ⟨[], by rw [h, List.append_nil], fun d hd => absurd hd List.not_mem_nil⟩

theorem Clashed.trans {c'' : Collection} (h : Clashed c c') (h' : Clashed c' c'') :
    Clashed c c'' := by
  obtain ⟨clashes, heq, hall⟩ := h
  obtain ⟨clashes', heq', hall'⟩ := h'
  refine ⟨clashes ++ clashes', by rw [heq', heq, List.append_assoc], fun d hd => ?_⟩
  exact (List.mem_append.1 hd).elim (hall d) (hall' d)

theorem clashed_place (c : Collection) (slot : Slot) (b : Binding) (origin : Origin) :
    Clashed c (c.place slot b origin).1 := by
  unfold place
  simp only
  split
  · exact .of_eq rfl
  · -- A clash is reported once.
    unfold reportClash
    simp only
    split
    · exact .of_eq rfl
    · refine ⟨[_], rfl, fun d hd => ?_⟩
      rw [List.mem_singleton.1 hd]
      rfl
  · exact .of_eq rfl

theorem clashed_placeAll (c : Collection) (ps : List (Slot × Binding)) (origin : Origin) :
    Clashed c (placeAll origin c ps) := by
  induction ps generalizing c with
  | nil => exact .of_eq rfl
  | cons p ps ih => exact (clashed_place c p.1 p.2 origin).trans (ih _)

theorem Change.clashed {i : Import} {meaning : Meaning} (h : Change imports i meaning c c') :
    Clashed c c' := by
  cases h with
  | copied h =>
    cases h with
    | told => exact .of_eq rfl
    | copied => exact clashed_place _ _ _ _
  | bound => exact clashed_place _ _ _ _
  | opened =>
    refine .of_eq ?_
    unfold openCrate
    split <;> rfl
  | linked =>
    refine .of_eq ?_
    unfold addEdge
    split <;> rfl

theorem clashed_carryOut {i : Import} {meaning : Meaning} (hc : Coherent imports c)
    (hi : i ∈ imports) (h : c.carryOut limit i meaning = .ok c') : Clashed c c' := by
  obtain ⟨d, hwalk, hend⟩ := carryOut_walk limit meaning hc hi
  obtain rfl := hend c' h
  have hwalk' := hwalk.with_invariant (P := Coherent imports) (fun _ _ hab => hab.coherent hi) hc
  exact (hwalk'.invariant (P := Clashed c) (fun _ _ hab ha => ha.trans hab.2.clashed)
    (.of_eq rfl)).2

/-! ### What becomes of the imports -/

/-- From `c` to `c'` some of the imports that waited were carried out, each of them once, and the
others are left over in their order. -/
structure Accounts (c : Collection) (waiting : List Import) (c' : Collection)
    (left : List Import) : Prop where
  settled : ∃ done, c'.settled = c.settled ++ done ∧
    (done.map SettledImport.declaration ++ left).Perm waiting
  order : left.Sublist waiting
  clashed : Clashed c c'

theorem Accounts.trans {c'' : Collection} {left' : List Import} (h : Accounts c waiting c' left)
    (h' : Accounts c' left c'' left') : Accounts c waiting c'' left' where
  settled := by
    obtain ⟨done, hsettled, hperm⟩ := h.settled
    obtain ⟨done', hsettled', hperm'⟩ := h'.settled
    refine ⟨done ++ done', by rw [hsettled', hsettled, List.append_assoc], ?_⟩
    rw [List.map_append, List.append_assoc]
    exact (hperm'.append_left _).trans hperm
  order := h'.order.trans h.order
  clashed := h.clashed.trans h'.clashed

/-- A pass loses no import and carries none out twice. -/
theorem accounts_pass (hc : Coherent imports c) (hw : ∀ i ∈ waiting, i ∈ imports)
    (h : pass limit c waiting = .ok (c', left)) :
    Accounts c waiting c' left ∧ Coherent imports c' := by
  induction waiting generalizing c left with
  | nil =>
    cases h
    exact ⟨⟨⟨[], (List.append_nil _).symm, .refl _⟩, .refl _, .of_eq rfl⟩, hc⟩
  | cons i rest ih =>
    have hi := hw i List.mem_cons_self
    have hrest : ∀ j ∈ rest, j ∈ imports := fun j hj => hw j (List.mem_cons_of_mem i hj)
    have htold := hc.told (c.log ++ c.statusLog i)
    rw [pass] at h
    simp only at h
    split at h
    · -- The import waits for the next pass.
      obtain ⟨⟨d, left'⟩, hr, h⟩ := ok_of_bind h
      cases h
      obtain ⟨⟨⟨done, hsettled, hperm⟩, horder, hclashed⟩, hcoherent⟩ := ih htold hrest hr
      refine ⟨⟨⟨done, hsettled, ?_⟩, horder.cons_cons i, hclashed⟩, hcoherent⟩
      exact List.perm_middle.trans (hperm.cons i)
    · next meaning hsome =>
      obtain ⟨d, hs, h⟩ := ok_of_bind h
      obtain ⟨e, hcarried, hs⟩ := ok_of_bind hs
      cases hs
      obtain ⟨hcoherent, hlater⟩ := carryOut_keeps htold hi hcarried
      obtain ⟨⟨⟨done, hsettled, hperm⟩, horder, hclashed⟩, hcoherent'⟩ :=
        ih ((Alike.settled e (e.settled ++ [⟨i, c.status i⟩])).coherent hcoherent hcoherent.edges)
          hrest h
      refine ⟨⟨⟨⟨i, c.status i⟩ :: done, ?_, hperm.cons i⟩, horder.cons i, ?_⟩, hcoherent'⟩
      · rw [hsettled, hlater.settled, List.append_assoc]
        rfl
      · exact (clashed_carryOut htold hi hcarried).trans hclashed

theorem eq_unresolved_of_meaning? {status : ImportStatus} (h : status.meaning? = none) :
    status = .unresolved := by
  cases status with
  | unresolved => rfl
  | indeterminate | resolved => cases h

theorem length_left_le (h : pass limit c waiting = .ok (c', left)) :
    left.length ≤ waiting.length := by
  induction waiting generalizing c left with
  | nil =>
    cases h
    exact Nat.le_refl _
  | cons i rest ih =>
    rw [pass] at h
    simp only at h
    split at h
    · obtain ⟨⟨d, left'⟩, hr, h⟩ := ok_of_bind h
      cases h
      exact Nat.succ_le_succ (ih hr)
    · obtain ⟨d, -, h⟩ := ok_of_bind h
      exact Nat.le_succ_of_le (ih h)

/-- A pass in which no import is carried out changes nothing, and none of them names anything. -/
theorem pass_idle (h : pass limit c waiting = .ok (c', left))
    (hidle : waiting.length ≤ left.length) :
    (∃ log, c' = { c with log }) ∧ ∀ i ∈ waiting, c.status i = .unresolved := by
  induction waiting generalizing c left with
  | nil =>
    cases h
    exact ⟨⟨_, rfl⟩, fun i hi => absurd hi List.not_mem_nil⟩
  | cons i rest ih =>
    rw [pass] at h
    simp only at h
    split at h
    · next hnone =>
      obtain ⟨⟨d, left'⟩, hr, h⟩ := ok_of_bind h
      cases h
      obtain ⟨⟨log, rfl⟩, hrest⟩ := ih hr (Nat.le_of_succ_le_succ hidle)
      refine ⟨⟨log, rfl⟩, fun j hj => ?_⟩
      rcases List.mem_cons.1 hj with rfl | hj
      · exact eq_unresolved_of_meaning? hnone
      · exact hrest j hj
    · -- Fewer would be left over than have waited.
      obtain ⟨d, -, h⟩ := ok_of_bind h
      have hshort := length_left_le h
      rw [List.length_cons] at hidle
      omega

/-- All passes together lose no import and carry none out twice.  There are no more of them than
imports that are carried out, and one; and what is left over names nothing in the end. -/
theorem accounts_settle {isCancelled : Nat → Bool} {number : Nat} {outcome : Outcome}
    (hc : Coherent imports c) (hw : ∀ i ∈ waiting, i ∈ imports)
    (h : settle limit isCancelled number waiting c = .ok outcome) :
    Accounts c waiting outcome.collection outcome.unresolved ∧
      outcome.passes + outcome.unresolved.length ≤ number + waiting.length ∧
      ∀ i ∈ outcome.unresolved, outcome.collection.status i = .unresolved := by
  induction hn : waiting.length using Nat.strongRecOn generalizing waiting number c with
  | ind n ih =>
    rw [settle] at h
    split at h
    · cases h
    · split at h
      · cases h
      · next d left hp =>
        obtain ⟨haccounts, hcoherent⟩ := accounts_pass hc hw hp
        simp only at h
        split at h
        · next hlt =>
          have hleft : ∀ i ∈ left, i ∈ imports := fun i hi => hw i (haccounts.order.subset hi)
          obtain ⟨haccounts', hpasses, hunresolved⟩ :=
            ih left.length (hn ▸ hlt) (hcoherent.told _) hleft h rfl
          exact ⟨haccounts.trans ⟨haccounts'.settled, haccounts'.order, haccounts'.clashed⟩,
            by omega, hunresolved⟩
        · next hge =>
          cases h
          have hlength := haccounts.order.length_le
          obtain ⟨⟨log, rfl⟩, hunresolved⟩ := pass_idle hp (Nat.le_of_not_lt hge)
          exact ⟨⟨haccounts.settled, haccounts.order, haccounts.clashed⟩,
            by simp only; omega, fun i hi => hunresolved i (haccounts.order.subset hi)⟩

/-! ### What is left over -/

theorem status_giveUp (c : Collection) (i j : Import) : (c.giveUp i).status j = c.status j := by
  have hview : (c.giveUp i).view = c.view.withDiagnostics (c.giveUp i).map.diagnostics := rfl
  have hroot : (c.giveUp i).externRoot? j.path = c.externRoot? j.path := rfl
  have hsame := c.view.sameNames_withDiagnostics (c.giveUp i).map.diagnostics
  unfold status
  rw [hroot, hview, hsame.resolve fun _ => rfl]
  simp only [hsame.moduleBinding]

/-- Recording the imports that are left over adds a diagnostic for each of them, and changes the
meaning of no import. -/
theorem foldl_giveUp (unresolved : List Import) (c : Collection) :
    (unresolved.foldl giveUp c).map.diagnostics = c.map.diagnostics ++ unresolved.map (fun i =>
        .unresolvedImport (c.map.displayModule i.module) i.pathText) ∧
      (unresolved.foldl giveUp c).settled = c.settled ∧
      (unresolved.foldl giveUp c).map.tree = c.map.tree ∧
      ∀ i, (unresolved.foldl giveUp c).status i = c.status i := by
  induction unresolved generalizing c with
  | nil => exact ⟨(List.append_nil _).symm, rfl, rfl, fun _ => rfl⟩
  | cons i unresolved ih =>
    obtain ⟨hdiagnostics, hsettled, htree, hstatus⟩ := ih (c.giveUp i)
    refine ⟨?_, hsettled, htree, fun j => (hstatus j).trans (status_giveUp c i j)⟩
    rw [List.foldl_cons, hdiagnostics, List.map_cons, List.append_cons]
    rfl

end Collection

/-! ### All imports of a crate -/

/-- What becomes of a directive does not depend on the prelude. -/
theorem Directive.fate_prelude (map : CrateMap) (prelude : Option ModuleId) (m : LocalId)
    (directive : Directive) : directive.fate { map with prelude } m = directive.fate map m := by
  have hjudged : ∀ mark name,
      CrateMap.judged { map with prelude } m mark name = map.judged m mark name :=
    Outline.judge_snd_congr { map } { map := { map with prelude } } rfl rfl fun _ => rfl
  cases directive with
  | use leaf => simp only [fate, UseLeaf.fate, hjudged]
  | externCrate declaration => simp only [fate, ExternCrate.fate, hjudged]

/-- The state in which imports begin to be carried out has the queue and reports of its outline. -/
theorem takes_openBuild {g : CrateGraph} {id : CrateId} {crate : CrateSource}
    {finished : CrateId → Option CrateMap} {settings : Settings} {start : Collection}
    {imports : List Import}
    (hopen : openBuild g id crate finished settings = .ok (start, imports)) :
    (∀ visited ∈ crate.root.traversed [], start.tree.descend? .root visited.1
      = some (start.map.moduleAt visited.1)) ∧
    imports = (start.map.directives (crate.root.traversed [])).filterMap (fun (m, directive) =>
      (directive.fate start.map m).import?) ∧
    start.map.diagnostics.filter Diagnostic.isImportReport
      = (start.map.directives (crate.root.traversed [])).filterMap (fun (m, directive) =>
        (directive.fate start.map m).report? start.map m) := by
  obtain ⟨maps, names, prelude, log, -, -, rfl, rfl, -⟩ := openBuild_ok hopen
  obtain ⟨himports, hreports, hfound⟩ := Outline.takes_ofBody id crate.name
    (crate.edition.getD settings.edition) names crate.root
    (o := crate.outline id settings names) rfl
  generalize crate.outline id settings names = o at himports hreports hfound ⊢
  refine ⟨hfound, himports.trans ?_, hreports.trans ?_⟩
  · refine List.filterMap_congr fun entry _ => ?_
    exact congrArg Fate.import? (entry.2.fate_prelude o.map prelude entry.1).symm
  · refine List.filterMap_congr fun entry _ => ?_
    exact congrArg (Fate.report? o.map entry.1) (entry.2.fate_prelude o.map prelude entry.1).symm

/-- **Every import is accounted for.**  Every `use` leaf and every `extern crate` of every body that
the walk visits is queued as one import, or reported in one diagnostic as incomplete, or passed
over, which only happens to a well-formed leaf that is no glob and would bind `_`.

When the imports are collected without error, there were at most as many passes as imports, and one.
Each import was carried out and recorded once or is left over, and those that are left over are in
their old order.  The diagnostics about imports are then those of the incomplete ones, some about
clashes, and one for each import that is left over, in that order; and looked up again in the end,
each of these still names nothing. -/
theorem every_import_is_accounted_for {g : CrateGraph} {id : CrateId} {crate : CrateSource}
    {finished : CrateId → Option CrateMap} {settings : Settings} {start : Collection}
    {imports : List Import}
    (hopen : openBuild g id crate finished settings = .ok (start, imports)) :
    (∀ visited ∈ crate.root.traversed [], start.tree.descend? .root visited.1
      = some (start.map.moduleAt visited.1)) ∧
    imports = (start.map.directives (crate.root.traversed [])).filterMap (fun (m, directive) =>
      (directive.fate start.map m).import?) ∧
    start.map.diagnostics.filter Diagnostic.isImportReport
      = (start.map.directives (crate.root.traversed [])).filterMap (fun (m, directive) =>
        (directive.fate start.map m).report? start.map m) ∧
    (∀ m (directive : Directive), directive.fate start.map m = .skipped ↔ ∃ leaf text path,
      directive = .use leaf ∧ Outline.globForm leaf = (text, false) ∧
      Path.parse? text = some path ∧ leaf.alias?.or path.last? = some underscore) ∧
    ∀ limit isCancelled outcome, Collection.run limit isCancelled imports start = .ok outcome →
      outcome.passes ≤ imports.length + 1 ∧
      (outcome.collection.settled.map SettledImport.declaration ++ outcome.unresolved).Perm
        imports ∧
      outcome.unresolved.Sublist imports ∧
      (∃ clashes, (∀ d ∈ clashes, d.isClash = true) ∧
        outcome.collection.map.diagnostics.filter Diagnostic.isImportReport
          = start.map.diagnostics.filter Diagnostic.isImportReport ++ clashes ++
            outcome.unresolved.map (fun i => .unresolvedImport
              (outcome.collection.map.displayModule i.module) i.pathText)) ∧
      ∀ i ∈ outcome.unresolved, outcome.collection.status i = .unresolved := by
  have hopened := opened_of_openBuild hopen
  obtain ⟨hfound, himports, hreports⟩ := takes_openBuild hopen
  refine ⟨hfound, himports, hreports, fun m directive => Directive.fate_eq_skipped_iff, ?_⟩
  intro limit isCancelled outcome hrun
  obtain ⟨settled, hsettle, hrun⟩ := ok_of_bind hrun
  cases hrun
  obtain ⟨⟨⟨done, hdone, hperm⟩, horder, clashes, hdiagnostics, hclashes⟩, hpasses, hunresolved⟩ :=
    Collection.accounts_settle hopened.coherent (fun i hi => hi) hsettle
  obtain ⟨hgiven, hrecords, htree, hstatus⟩ :=
    Collection.foldl_giveUp settled.unresolved settled.collection
  rw [hopened.settled, List.nil_append] at hdone
  refine ⟨?passes, ?perm, horder, ⟨clashes, hclashes, ?reports⟩, fun i hi => ?again⟩
  case passes =>
    simp only
    omega
  case perm =>
    simp only
    rw [hrecords, hdone]
    exact hperm
  case reports =>
    have hall : ∀ ds : List Diagnostic, (∀ d ∈ ds, d.isImportReport = true) →
        ds.filter Diagnostic.isImportReport = ds := fun _ => List.filter_eq_self.2
    simp only [CrateMap.displayModule]
    rw [htree, hgiven, hdiagnostics, List.filter_append, List.filter_append, hall clashes,
      hall (settled.unresolved.map _)]
    · rfl
    · intro d hd
      obtain ⟨i, -, rfl⟩ := List.mem_map.1 hd
      rfl
    · intro d hd
      have hclash := hclashes d hd
      cases d <;> first | rfl | cases hclash
  case again =>
    simp only
    rw [hstatus]
    exact hunresolved i hi

/-! ### A small crate -/

/-- A crate with a leaf that is queued and names something, one that names nothing, one that is
passed over, one that is no path, and an `extern crate` without a name.  The second module of one
name is left out with the import in it. -/
def ledger : CrateSource where
  name := "ledger"
  root :=
    { items := [
        { name := some "m", kind := .module
            { items := [{ name := some "f", visibility := .pub, kind := .function }] } },
        { name := some "m", kind := .module { uses := [{ path := "m::f" }] } }]
      uses := [{ path := "nowhere::f" }, { path := "m::f" },
        { path := "m::f", alias? := some "_" }, { path := "m::" }]
      externCrates := [{}] }

/-- The graph that has only this crate. -/
def ledgerGraph : CrateGraph := ⟨[ledger], List.nodup_singleton _⟩

/-- Of the five directives of this crate two are queued, two reported and one passed over.  There
are two passes; one import is left over, and still names nothing in the end. -/
theorem every_import_is_accounted_for_ledger : ∃ start imports outcome i,
    openBuild ledgerGraph ⟨0⟩ ledger (fun _ => none) {} = .ok (start, imports) ∧
    Collection.run 3 (fun _ => false) imports start = .ok outcome ∧
    (start.map.directives (ledger.root.traversed [])).length = 5 ∧
    (start.map.diagnostics.filter Diagnostic.isImportReport).length = 2 ∧
    imports.length = 2 ∧ outcome.passes = 2 ∧ outcome.passes ≤ imports.length + 1 ∧
    outcome.collection.settled.length = 1 ∧ outcome.unresolved = [i] ∧
    (outcome.collection.settled.map SettledImport.declaration ++ [i]).Perm imports ∧
    outcome.collection.status i = .unresolved := by
  have hcollected : (openBuild ledgerGraph ⟨0⟩ ledger (fun _ => none) {} >>= fun r =>
      (Collection.run 3 (fun _ => false) r.2 r.1).map (fun outcome => (r, outcome))).map
      (fun (r, outcome) => ((r.1.map.directives (ledger.root.traversed [])).length,
        (r.1.map.diagnostics.filter Diagnostic.isImportReport).length, r.2.length,
        outcome.passes, outcome.collection.settled.length, outcome.unresolved.length))
      = .ok (5, 2, 2, 2, 1, 1) := by cbv
  obtain ⟨⟨⟨start, imports⟩, outcome⟩, hcollect, hcounts⟩ := ok_of_map hcollected
  obtain ⟨⟨start', imports'⟩, hopen, hcollect⟩ := ok_of_bind hcollect
  obtain ⟨outcome', hrun, heq⟩ := ok_of_map hcollect
  cases heq
  simp only [Prod.mk.injEq] at hcounts
  obtain ⟨hdirectives, hreports, himports, hpasses, hsettled, hunresolved⟩ := hcounts
  obtain ⟨i, hi⟩ := List.length_eq_one_iff.1 hunresolved
  obtain ⟨-, -, -, -, hall⟩ := every_import_is_accounted_for hopen
  obtain ⟨hbound, hperm, -, -, hagain⟩ := hall 3 (fun _ => false) outcome hrun
  rw [hi] at hperm hagain
  exact ⟨start, imports, outcome, i, hopen, hrun, hdirectives, hreports, himports, hpasses, hbound,
    hsettled, hi, hperm, hagain i (List.mem_singleton_self i)⟩

end CrateScope
