import Mathlib.Tactic.Common

/-!
# A heap of objects at fresh addresses

`Heap α`: the live objects by address. `alloc` places an object at `next`, an address never given
out before, so an address whose object has been freed stays dead: a weak pointer to it never
comes back to life.
-/

/-- The live objects by address; no address from `next` on has been given out. -/
@[ext]
structure Heap (α : Type*) where
  next : Nat
  get : Nat → Option α
  fresh : ∀ i, next ≤ i → get i = none

namespace Heap

variable {α : Type*}

def empty : Heap α := ⟨0, fun _ => none, fun _ _ => rfl⟩

/-- The heap with the object `a` at the address `h.next`. -/
def alloc (h : Heap α) (a : α) : Heap α where
  next := h.next + 1
  get i := if i = h.next then some a else h.get i
  fresh i hi := by rw [if_neg (by omega)]; exact h.fresh i (by omega)

/-- The heap with the object at `i`, if there is one, overwritten by `a`. -/
def set (h : Heap α) (i : Nat) (a : α) : Heap α where
  next := h.next
  get j := if j = i then (h.get i).map fun _ => a else h.get j
  fresh j hj := by
    split
    · rename_i e; subst e; simp [h.fresh _ hj]
    · exact h.fresh j hj

/-- The heap without the object at `i`. -/
def free (h : Heap α) (i : Nat) : Heap α where
  next := h.next
  get j := if j = i then none else h.get j
  fresh j hj := by split <;> simp [h.fresh j hj]

/-- The heap without the object that the pointer `p`, if it is not null, points to. -/
def freeOpt (h : Heap α) (p : Option Nat) : Heap α := p.elim h h.free

/-- The addresses of the live objects. -/
def keys (h : Heap α) : List Nat := (List.range h.next).filter fun i => (h.get i).isSome

/-- The heap without any object. -/
def clear (h : Heap α) : Heap α := ⟨h.next, fun _ => none, fun _ _ => rfl⟩

section
variable (h : Heap α)

@[simp] theorem get_empty (i : Nat) : (empty : Heap α).get i = none := rfl
@[simp] theorem next_alloc (a : α) : (h.alloc a).next = h.next + 1 := rfl
@[simp] theorem next_set (i : Nat) (a : α) : (h.set i a).next = h.next := rfl
@[simp] theorem next_free (i : Nat) : (h.free i).next = h.next := rfl
@[simp] theorem get_clear (i : Nat) : h.clear.get i = none := rfl

theorem get_alloc (a : α) (i : Nat) :
    (h.alloc a).get i = if i = h.next then some a else h.get i := rfl

theorem get_set (i j : Nat) (a : α) :
    (h.set i a).get j = if j = i then (h.get i).map fun _ => a else h.get j := rfl

theorem get_free (i j : Nat) : (h.free i).get j = if j = i then none else h.get j := rfl

@[simp] theorem get_next : h.get h.next = none := h.fresh _ (Nat.le_refl _)
@[simp] theorem get_alloc_next (a : α) : (h.alloc a).get h.next = some a := by simp [get_alloc]
@[simp] theorem get_free_self (i : Nat) : (h.free i).get i = none := by simp [get_free]

@[simp] theorem freeOpt_none : h.freeOpt none = h := rfl
@[simp] theorem freeOpt_some (i : Nat) : h.freeOpt (some i) = h.free i := rfl

@[simp] theorem next_freeOpt (p : Option Nat) : (h.freeOpt p).next = h.next := by
  cases p <;> rfl

theorem get_freeOpt (p : Option Nat) (j : Nat) :
    (h.freeOpt p).get j = if p = some j then none else h.get j := by
  cases p with
  | none => simp
  | some i =>
    rw [freeOpt_some, get_free]
    by_cases e : j = i
    · simp [e]
    · simp [e, Ne.symm e]

theorem free_comm (i j : Nat) : (h.free i).free j = (h.free j).free i := by
  refine Heap.ext rfl (funext fun k => ?_)
  simp only [get_free]
  split <;> split <;> rfl

@[simp] theorem free_set (i : Nat) (a : α) : (h.set i a).free i = h.free i := by
  refine Heap.ext rfl (funext fun k => ?_)
  simp only [get_free, get_set]
  split <;> rfl

@[simp] theorem set_set (i : Nat) (a b : α) : (h.set i a).set i b = h.set i b := by
  refine Heap.ext rfl (funext fun k => ?_)
  simp only [get_set, ↓reduceIte, Option.map_map, Function.comp_def]
  split <;> rfl

theorem set_comm {i j : Nat} (a b : α) (hne : i ≠ j) :
    (h.set i a).set j b = (h.set j b).set i a := by
  refine Heap.ext rfl (funext fun k => ?_)
  simp only [get_set, if_neg hne, if_neg hne.symm]
  by_cases hk : k = j
  · subst hk; simp [hne.symm]
  · simp [hk]

end

theorem lt_next {h : Heap α} {i : Nat} {a : α} (hi : h.get i = some a) : i < h.next := by
  by_contra hc
  rw [h.fresh i (by omega)] at hi
  cases hi

theorem mem_keys {h : Heap α} {i : Nat} : i ∈ h.keys ↔ (h.get i).isSome = true := by
  rw [keys, List.mem_filter, List.mem_range, and_iff_right_iff_imp]
  intro hi
  obtain ⟨a, ha⟩ := Option.isSome_iff_exists.1 hi
  exact lt_next ha

theorem nodup_keys (h : Heap α) : h.keys.Nodup := List.nodup_range.filter _

/-- A list that has every live object's address once has as many as there are live objects. -/
theorem keys_perm {h : Heap α} {l : List Nat} (hn : l.Nodup)
    (hl : ∀ i, i ∈ l ↔ (h.get i).isSome = true) : h.keys.Perm l :=
  (List.perm_ext_iff_of_nodup h.nodup_keys hn).2 fun i => mem_keys.trans (hl i).symm

theorem get_set_self {h : Heap α} {i : Nat} {a : α} (hi : h.get i = some a) (b : α) :
    (h.set i b).get i = some b := by simp [get_set, hi]

theorem get_set_of {h : Heap α} {i : Nat} {a : α} (hi : h.get i = some a) (b : α) (j : Nat) :
    (h.set i b).get j = if j = i then some b else h.get j := by simp [get_set, hi]

/-- Overwriting an object by itself changes nothing. -/
theorem set_get {h : Heap α} {i : Nat} {a : α} (hi : h.get i = some a) : h.set i a = h := by
  refine Heap.ext rfl (funext fun j => ?_)
  rw [get_set]
  split
  · rename_i e; rw [e, hi]; rfl
  · rfl

/-- Freeing at a dead address changes nothing. -/
theorem free_of_none {h : Heap α} {i : Nat} (hi : h.get i = none) : h.free i = h := by
  refine Heap.ext rfl (funext fun j => ?_)
  rw [get_free]
  split
  · rename_i e; rw [e, hi]
  · rfl

theorem get_set_ne {h : Heap α} {i j : Nat} (hne : j ≠ i) (b : α) :
    (h.set i b).get j = h.get j := by simp [get_set, hne]

theorem get_alloc_of {h : Heap α} {i : Nat} {a : α} (hi : h.get i = some a) (b : α) :
    (h.alloc b).get i = some a := by
  rw [get_alloc, if_neg (Nat.ne_of_lt (lt_next hi)), hi]

theorem get_alloc_ne {h : Heap α} {i : Nat} (hi : i ≠ h.next) (b : α) :
    (h.alloc b).get i = h.get i := by rw [get_alloc, if_neg hi]

/-- An object overwritten at once. -/
theorem set_alloc (h : Heap α) (a b : α) : (h.alloc a).set h.next b = h.alloc b := by
  refine Heap.ext rfl (funext fun j => ?_)
  simp only [get_set, get_alloc, ↓reduceIte, Option.map_some]
  split <;> rfl

/-- An object placed and freed again leaves only its address used up. -/
theorem get_alloc_free (h : Heap α) (a : α) (i : Nat) :
    ((h.alloc a).free h.next).get i = h.get i := by
  rw [get_free, get_alloc]
  split
  · rename_i e; rw [e, get_next]
  · rfl

/-- Freeing at every address of a list. -/
theorem get_foldl_free (l : List Nat) : ∀ (h : Heap α) (i : Nat),
    (l.foldl free h).get i = if i ∈ l then none else h.get i := by
  induction l with
  | nil => simp
  | cons a l ih =>
    intro h i
    simp only [List.foldl_cons, ih, get_free, List.mem_cons]
    by_cases hl : i ∈ l
    · simp [hl]
    · simp [hl]

@[simp] theorem next_foldl_free (l : List Nat) : ∀ h : Heap α, (l.foldl free h).next = h.next := by
  induction l with
  | nil => simp
  | cons a l ih => intro h; rw [List.foldl_cons, ih, next_free]

theorem clear_foldl_free (l : List Nat) (h : Heap α) : (l.foldl free h).clear = h.clear :=
  Heap.ext (next_foldl_free l h) rfl

/-- Freeing at the addresses of all objects leaves none. -/
theorem foldl_free_eq_clear {h : Heap α} {l : List Nat} (hl : ∀ i, (h.get i).isSome → i ∈ l) :
    l.foldl free h = h.clear := by
  refine Heap.ext (next_foldl_free l h) (funext fun i => ?_)
  rw [get_foldl_free, get_clear]
  split
  · rfl
  · rename_i hi
    simpa using fun hs => hi (hl i hs)

end Heap
