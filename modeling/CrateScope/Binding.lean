import CrateScope.ItemTree
import CrateScope.Visibility

/-!
# What a name means

One name can mean a type, a value and a macro at once, and each of them independently of the
others.

## Main definitions

* `Namespace`, `Binding` — a namespace, and what a name is bound to in one.
* `Meaning` — what a name is bound to in each of the three.
* `Meaning.visible`, `Meaning.handedOn`, `Meaning.orElse` — a meaning seen from a module, a meaning
  re-exported by an import, and a meaning completed by another one.
* `Scope`, `Slot` — the names of a module, and one namespace of one name of one module.
-/

namespace CrateScope

/-- The three spaces in which names are bound. -/
inductive Namespace where
  | types
  | values
  | macros
  deriving DecidableEq, Repr

namespace Namespace

/-- All namespaces, in the order in which they are always gone through. -/
def all : List Namespace := [types, values, macros]

/-- The letter that stands for a namespace where space is short. -/
def letter : Namespace → String
  | types => "t"
  | values => "v"
  | macros => "m"

/-- The word for a namespace. -/
def word : Namespace → String
  | types => "types"
  | values => "values"
  | macros => "macros"

@[simp] theorem mem_all (ns : Namespace) : ns ∈ all := by cases ns <;> decide

end Namespace

/-- Whether a set has a namespace. -/
def NamespaceSet.has (set : NamespaceSet) : Namespace → Bool
  | .types => set.types
  | .values => set.values
  | .macros => set.macros

/-- What a name is bound to in one namespace.  The path identifies the item; the visibility belongs
to this binding of it, and other bindings of the same item can have other visibilities. -/
structure Binding where
  path : ItemPath
  visibility : Visibility
  /-- Only modules and enums have names inside them. -/
  isModuleOrEnum : Bool
  deriving DecidableEq, Repr

namespace Binding

/-- Whether two bindings are of the same item. -/
def sameItem (a b : Binding) : Bool := a.path == b.path

/-- The binding that hands this one on with a given visibility. -/
def handedOn (t : ModuleTree) (visibility : Visibility) (b : Binding) : Binding :=
  { b with visibility := b.visibility.narrower t visibility }

end Binding

/-- What a name is bound to in each namespace. -/
structure Meaning where
  types : Option Binding := none
  values : Option Binding := none
  macros : Option Binding := none
  deriving DecidableEq, Repr

namespace Meaning

instance : EmptyCollection Meaning := ⟨{}⟩

instance : Inhabited Meaning := ⟨∅⟩

/-- The binding in a namespace. -/
def get (m : Meaning) : Namespace → Option Binding
  | .types => m.types
  | .values => m.values
  | .macros => m.macros

/-- The meaning with the given bindings. -/
def ofFn (f : Namespace → Option Binding) : Meaning := ⟨f .types, f .values, f .macros⟩

@[simp] theorem get_ofFn (f : Namespace → Option Binding) (ns : Namespace) :
    (ofFn f).get ns = f ns := by cases ns <;> rfl

@[simp] theorem get_empty (ns : Namespace) : (∅ : Meaning).get ns = none := by cases ns <;> rfl

/-- A meaning is known by its bindings. -/
@[ext] theorem ext {m n : Meaning} (h : ∀ ns, m.get ns = n.get ns) : m = n := by
  cases m; cases n
  have ht := h .types
  have hv := h .values
  have hm := h .macros
  simp_all [get]

/-- The meaning with another binding in one namespace. -/
def set (m : Meaning) (ns : Namespace) (b : Option Binding) : Meaning :=
  ofFn fun ns' => if ns' = ns then b else m.get ns'

@[simp] theorem get_set (m : Meaning) (ns : Namespace) (b : Option Binding) (ns' : Namespace) :
    (m.set ns b).get ns' = if ns' = ns then b else m.get ns' := by simp [set]

/-- The meaning that is bound in one namespace only. -/
def only (ns : Namespace) (b : Binding) : Meaning := (∅ : Meaning).set ns (some b)

/-- The same binding in every namespace of a set. -/
def ofShape (b : Binding) (shape : NamespaceSet) : Meaning :=
  ofFn fun ns => if shape.has ns then some b else none

@[simp] theorem get_ofShape (b : Binding) (shape : NamespaceSet) (ns : Namespace) :
    (ofShape b shape).get ns = if shape.has ns then some b else none := by simp [ofShape]

/-- Whether nothing is bound. -/
def isEmpty (m : Meaning) : Bool := Namespace.all.all fun ns => (m.get ns).isNone

/-- Whether all three namespaces are bound. -/
def isFull (m : Meaning) : Bool := Namespace.all.all fun ns => (m.get ns).isSome

/-- The bindings with their namespaces, in the fixed order. -/
def toList (m : Meaning) : List (Namespace × Binding) :=
  Namespace.all.filterMap fun ns => (m.get ns).map (ns, ·)

/-- The bindings whose visibility passes a test. -/
def filterVisibility (test : Visibility → Bool) (m : Meaning) : Meaning :=
  ofFn fun ns => (m.get ns).filter fun b => test b.visibility

/-- The bindings that the module `viewer` of the tree may name. -/
def visible (t : ModuleTree) (viewer : LocalId) (m : Meaning) : Meaning :=
  m.filterVisibility (Visibility.isVisibleFrom t viewer)

/-- The bindings that every crate may name. -/
def publicPart (m : Meaning) : Meaning := m.filterVisibility Visibility.isPublic

/-- The bindings as an import with the given visibility hands them on. -/
def handedOn (t : ModuleTree) (visibility : Visibility) (m : Meaning) : Meaning :=
  ofFn fun ns => (m.get ns).map (Binding.handedOn t visibility)

/-- The bindings of `m`, and those of `n` where `m` has none. -/
def orElse (m n : Meaning) : Meaning := ofFn fun ns => (m.get ns).or (n.get ns)

@[simp] theorem get_filterVisibility (test : Visibility → Bool) (m : Meaning) (ns : Namespace) :
    (m.filterVisibility test).get ns = (m.get ns).filter fun b => test b.visibility := by
  simp [filterVisibility]

@[simp] theorem get_handedOn (t : ModuleTree) (visibility : Visibility) (m : Meaning)
    (ns : Namespace) :
    (m.handedOn t visibility).get ns = (m.get ns).map (Binding.handedOn t visibility) := by
  simp [handedOn]

@[simp] theorem get_orElse (m n : Meaning) (ns : Namespace) :
    (m.orElse n).get ns = (m.get ns).or (n.get ns) := by simp [orElse]

theorem isEmpty_iff {m : Meaning} : m.isEmpty = true ↔ m = ∅ := by
  simp only [isEmpty, List.all_eq_true, Option.isNone_iff_eq_none]
  exact ⟨fun h => ext fun ns => by rw [h ns (Namespace.mem_all ns), get_empty],
    fun h ns _ => by rw [h, get_empty]⟩

end Meaning

/-- The names of a module, declared or imported, in the order in which they were first bound. -/
abbrev Scope := Listing Name Meaning

/-- What a scope binds a name to; nothing where it does not have the name. -/
def Scope.meaning (scope : Scope) (name : Name) : Meaning := (scope.get? name).getD ∅

/-- One namespace of one name of one module. -/
structure Slot where
  module : LocalId
  name : Name
  space : Namespace
  deriving DecidableEq, Repr

end CrateScope
