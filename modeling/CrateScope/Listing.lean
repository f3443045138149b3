/-!
# Associations in order of first insertion

The names of a module, the children of a module and the preludes are all tables from which the
order of insertion can be read back.  Inserting under a key that is present keeps its place.

## Main definitions

* `Listing κ α` — a list of pairs in which no key occurs twice.
* `Listing.get?`, `Listing.insert`, `Listing.insertNew`, `Listing.erase`.

The statements about `get?`, `keys` and `entries` after each operation follow its definition.
-/

namespace CrateScope

universe u v

/-- An association whose keys are distinct, kept in the order in which they first came in. -/
structure Listing (κ : Type u) (α : Type v) where
  /-- The pairs, oldest key first. -/
  entries : List (κ × α)
  /-- No key occurs twice. -/
  nodup : (entries.map Prod.fst).Nodup

namespace Listing

variable {κ : Type u} {α : Type v} {β : Type v}

/-- Two listings with the same pairs in the same order are equal. -/
@[ext] theorem ext {l m : Listing κ α} (h : l.entries = m.entries) : l = m := by
  cases l; cases m; cases h; rfl

instance [DecidableEq κ] [DecidableEq α] : DecidableEq (Listing κ α) := fun l m =>
  if h : l.entries = m.entries then isTrue (ext h) else isFalse fun e => h (congrArg entries e)

/-- The listing without a pair. -/
def empty : Listing κ α := ⟨[], List.nodup_nil⟩

instance : EmptyCollection (Listing κ α) := ⟨empty⟩

instance : Inhabited (Listing κ α) := ⟨empty⟩

/-- The keys, oldest first. -/
def keys (l : Listing κ α) : List κ := l.entries.map Prod.fst

/-- The number of pairs. -/
def size (l : Listing κ α) : Nat := l.entries.length

variable [DecidableEq κ]

/-- What is held under a key. -/
def get? (l : Listing κ α) (k : κ) : Option α := l.entries.lookup k

/-- Whether a key is present. -/
def contains (l : Listing κ α) (k : κ) : Bool := (l.get? k).isSome

@[simp] theorem get?_empty (k : κ) : (∅ : Listing κ α).get? k = none := rfl

/-- Looking up a key compares it with the first pair, then looks in the others. -/
theorem lookup_cons_eq (j k : κ) (b : α) (es : List (κ × α)) :
    ((k, b) :: es).lookup j = if j = k then some b else es.lookup j := by
  rw [List.lookup_cons]
  by_cases h : j = k
  · simp [h]
  · simp [h, beq_eq_false_iff_ne.2 h]

/-! ### Insertion -/

/-- The pairs after `a` is put under `k`: in the place of the old pair, or at the end. -/
def put (k : κ) (a : α) : List (κ × α) → List (κ × α)
  | [] => [(k, a)]
  | (k', b) :: rest => if k' = k then (k, a) :: rest else (k', b) :: put k a rest

theorem map_fst_put (k : κ) (a : α) (es : List (κ × α)) :
    (put k a es).map Prod.fst
      = if k ∈ es.map Prod.fst then es.map Prod.fst else es.map Prod.fst ++ [k] := by
  induction es with
  | nil => simp [put]
  | cons e es ih =>
    obtain ⟨k', b⟩ := e
    by_cases h : k' = k
    · simp [put, h]
    · rw [put, if_neg h, List.map_cons, ih]
      have h' : ¬ k = k' := fun e => h e.symm
      by_cases hk : k ∈ es.map Prod.fst <;> simp [h', hk]

theorem nodup_map_fst_put {es : List (κ × α)} (h : (es.map Prod.fst).Nodup) (k : κ) (a : α) :
    ((put k a es).map Prod.fst).Nodup := by
  rw [map_fst_put]
  split
  · exact h
  · next hk =>
    exact List.nodup_append.2 ⟨h, by simp, fun x hx y hy e => hk (by simp_all)⟩

theorem lookup_put (k : κ) (a : α) (es : List (κ × α)) (j : κ) :
    (put k a es).lookup j = if j = k then some a else es.lookup j := by
  induction es with
  | nil => rw [put, lookup_cons_eq]
  | cons e es ih =>
    obtain ⟨k', b⟩ := e
    by_cases h : k' = k
    · subst h
      rw [put, if_pos rfl, lookup_cons_eq, lookup_cons_eq]
      by_cases hj : j = k' <;> simp [hj]
    · rw [put, if_neg h, lookup_cons_eq, lookup_cons_eq, ih]
      by_cases hj : j = k'
      · subst hj; simp [h]
      · simp [hj]

/-- Puts `a` under `k`.  A key that is present keeps its place. -/
def insert (l : Listing κ α) (k : κ) (a : α) : Listing κ α :=
  ⟨put k a l.entries, nodup_map_fst_put l.nodup k a⟩

/-- Puts `a` under `k` unless something is there already. -/
def insertNew (l : Listing κ α) (k : κ) (a : α) : Listing κ α :=
  if l.contains k then l else l.insert k a

@[simp] theorem get?_insert (l : Listing κ α) (k : κ) (a : α) (j : κ) :
    (l.insert k a).get? j = if j = k then some a else l.get? j :=
  lookup_put k a l.entries j

theorem get?_insert_self (l : Listing κ α) (k : κ) (a : α) : (l.insert k a).get? k = some a := by
  simp

theorem get?_insert_of_ne (l : Listing κ α) {k j : κ} (a : α) (h : j ≠ k) :
    (l.insert k a).get? j = l.get? j := by simp [h]

theorem keys_insert (l : Listing κ α) (k : κ) (a : α) :
    (l.insert k a).keys = if k ∈ l.keys then l.keys else l.keys ++ [k] :=
  map_fst_put k a l.entries

/-! ### Removal -/

/-- The listing without the pair under `k`. -/
def erase (l : Listing κ α) (k : κ) : Listing κ α :=
  ⟨l.entries.filter fun e => e.1 ≠ k, (List.filter_sublist.map Prod.fst).nodup l.nodup⟩

theorem lookup_filter_ne (k : κ) (es : List (κ × α)) (j : κ) :
    (es.filter fun e => e.1 ≠ k).lookup j = if j = k then none else es.lookup j := by
  induction es with
  | nil => simp
  | cons e es ih =>
    obtain ⟨k', b⟩ := e
    rw [List.filter_cons, lookup_cons_eq]
    by_cases h : k' = k
    · subst h
      rw [if_neg (by simp), ih]
      by_cases hj : j = k' <;> simp [hj]
    · rw [if_pos (by simp [h]), lookup_cons_eq, ih]
      by_cases hj : j = k'
      · subst hj; simp [h]
      · simp [hj]

@[simp] theorem get?_erase (l : Listing κ α) (k j : κ) :
    (l.erase k).get? j = if j = k then none else l.get? j :=
  lookup_filter_ne k l.entries j

/-! ### Membership -/

theorem lookup_eq_some_iff {es : List (κ × α)} (h : (es.map Prod.fst).Nodup) {k : κ} {a : α} :
    es.lookup k = some a ↔ (k, a) ∈ es := by
  induction es with
  | nil => simp
  | cons e es ih =>
    obtain ⟨k', b⟩ := e
    rw [List.map_cons, List.nodup_cons] at h
    rw [lookup_cons_eq, List.mem_cons, Prod.mk.injEq]
    by_cases hk : k = k'
    · subst hk
      rw [if_pos rfl, Option.some.injEq]
      refine ⟨fun e => Or.inl ⟨rfl, e.symm⟩, ?_⟩
      rintro (⟨-, rfl⟩ | hm)
      · rfl
      · exact absurd (List.mem_map_of_mem hm) h.1
    · rw [if_neg hk, ih h.2]
      simp [hk]

/-- A listing holds `a` under `k` exactly when the pair is among its entries. -/
theorem get?_eq_some_iff (l : Listing κ α) {k : κ} {a : α} :
    l.get? k = some a ↔ (k, a) ∈ l.entries :=
  lookup_eq_some_iff l.nodup

/-- A key is present exactly when something is held under it. -/
theorem mem_keys_iff (l : Listing κ α) {k : κ} : k ∈ l.keys ↔ (l.get? k).isSome := by
  rw [Option.isSome_iff_exists]
  simp only [get?_eq_some_iff, keys, List.mem_map, Prod.exists, exists_and_right, exists_eq_right]

end Listing

end CrateScope
