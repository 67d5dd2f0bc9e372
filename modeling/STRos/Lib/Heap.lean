import Mathlib.Data.List.Perm.Subperm
import Mathlib.Data.List.Nodup
import Mathlib.Logic.Function.Basic

/-! # Cells at addresses

A heap holds a cell at each address that is allocated, and from some address on none is.
A pointer is an address or NULL. The chain of a pointer is what it leads to, one node
after another up to NULL.
-/

namespace Memory

variable {α : Type}

structure Heap (α : Type) where
  cell : Nat → Option α
  top : Nat
  unused : ∀ p, top ≤ p → cell p = none

abbrev Ptr := Option Nat

namespace Heap

def empty : Heap α := ⟨fun _ => none, 0, fun _ _ => rfl⟩

theorem lt_top (h : Heap α) {p : Nat} {c : α} (hp : h.cell p = some c) : p < h.top := by
  by_contra hle
  rw [h.unused p (Nat.le_of_not_lt hle)] at hp
  cases hp

def put (h : Heap α) (p : Nat) (c : α) : Heap α where
  cell := Function.update h.cell p (some c)
  top := max h.top (p + 1)
  unused q hq := by
    rw [Function.update_of_ne (by omega)]
    exact h.unused q (by omega)

def erase (h : Heap α) (p : Nat) : Heap α where
  cell := Function.update h.cell p none
  top := h.top
  unused q hq := by
    by_cases hqp : q = p
    · rw [hqp, Function.update_self]
    · rw [Function.update_of_ne hqp]
      exact h.unused q hq

@[simp] theorem put_self (h : Heap α) (p : Nat) (c : α) : (h.put p c).cell p = some c :=
  Function.update_self _ _ _

theorem put_of_ne (h : Heap α) {p q : Nat} (hne : q ≠ p) (c : α) :
    (h.put p c).cell q = h.cell q :=
  Function.update_of_ne hne _ _

@[simp] theorem erase_self (h : Heap α) (p : Nat) : (h.erase p).cell p = none :=
  Function.update_self _ _ _

theorem erase_of_ne (h : Heap α) {p q : Nat} (hne : q ≠ p) : (h.erase p).cell q = h.cell q :=
  Function.update_of_ne hne _ _

@[simp] theorem erase_top (h : Heap α) (p : Nat) : (h.erase p).top = h.top := rfl

end Heap

/-- How the addresses of new cells are chosen: any one that is not in use. -/
structure Allocator (α : Type) where
  address : Heap α → Nat
  free : ∀ h : Heap α, h.cell (address h) = none

namespace Allocator

/-- Addresses that were freed are not given out again. -/
def fresh : Allocator α := ⟨Heap.top, fun h => h.unused h.top (Nat.le_refl _)⟩

def alloc (malloc : Allocator α) (h : Heap α) (c : α) : Heap α × Nat :=
  (h.put (malloc.address h) c, malloc.address h)

theorem alloc_frame (malloc : Allocator α) (h : Heap α) (c : α) {p : Nat} {d : α}
    (hp : h.cell p = some d) : (malloc.alloc h c).1.cell p = h.cell p := by
  apply Heap.put_of_ne
  rintro rfl
  rw [malloc.free h] at hp
  cases hp

end Allocator

/-! ## Chains -/

structure Node (α : Type) where
  value : α
  next : Ptr

/-- The addresses and values of the nodes a pointer leads to. -/
inductive Chain (h : Heap (Node α)) : Ptr → List (Nat × α) → Prop
  | null : Chain h none []
  | node {p : Nat} {value : α} {next : Ptr} {rest : List (Nat × α)}
      (hp : h.cell p = some ⟨value, next⟩) (hrest : Chain h next rest) :
      Chain h (some p) ((p, value) :: rest)

namespace Chain

variable {h h' : Heap (Node α)} {l : Ptr} {xs : List (Nat × α)}

@[simp] theorem nil_iff : Chain h l [] ↔ l = none := by
  constructor
  · intro hl
    cases hl
    rfl
  · rintro rfl
    exact null

theorem cons_iff {p : Nat} {value : α} {rest : List (Nat × α)} :
    Chain h l ((p, value) :: rest) ↔
      l = some p ∧ ∃ next, h.cell p = some ⟨value, next⟩ ∧ Chain h next rest := by
  constructor
  · intro hl
    cases hl with
    | node hp hrest => exact ⟨rfl, _, hp, hrest⟩
  · rintro ⟨rfl, next, hp, hrest⟩
    exact node hp hrest

theorem unique {ys : List (Nat × α)} (hx : Chain h l xs) (hy : Chain h l ys) : xs = ys := by
  induction hx generalizing ys with
  | null =>
      cases hy
      rfl
  | node hp hrest ih =>
      cases hy with
      | node hp' hrest' =>
          rw [hp] at hp'
          cases hp'
          rw [ih hrest']

theorem allocated (hl : Chain h l xs) : ∀ x ∈ xs, ∃ next, h.cell x.1 = some ⟨x.2, next⟩ := by
  induction hl with
  | null => simp
  | node hp hrest ih =>
      intro x hx
      cases List.mem_cons.mp hx with
      | inl hfirst =>
          rw [hfirst]
          exact ⟨_, hp⟩
      | inr hmem => exact ih x hmem

/-- From a node on the chain goes on as it does for a pointer to it. -/
theorem of_append {before after : List (Nat × α)} {p : Nat} {value : α}
    (hl : Chain h l (before ++ (p, value) :: after)) :
    Chain h (some p) ((p, value) :: after) := by
  induction before generalizing l with
  | nil =>
      obtain ⟨rfl, -⟩ := cons_iff.mp hl
      exact hl
  | cons x before ih =>
      obtain ⟨-, next, -, hrest⟩ := cons_iff.mp hl
      exact ih hrest

theorem nodup (hl : Chain h l xs) : (xs.map Prod.fst).Nodup := by
  induction hl with
  | null => simp
  | @node p value next rest hp hrest ih =>
      rw [List.map_cons, List.nodup_cons]
      constructor
      · intro hmem
        obtain ⟨⟨q, w⟩, hx, rfl⟩ := List.mem_map.mp hmem
        obtain ⟨before, after, rfl⟩ := List.append_of_mem hx
        have hagain := (hrest.of_append).unique (node hp hrest)
        have hlen := congrArg List.length hagain
        simp only [List.length_cons, List.length_append] at hlen
        omega
      · exact ih

/-- No chain has more nodes than there are addresses. -/
theorem length_le_top (hl : Chain h l xs) : xs.length ≤ h.top := by
  have hsub : xs.map Prod.fst ⊆ List.range h.top := by
    intro p hp
    obtain ⟨x, hx, rfl⟩ := List.mem_map.mp hp
    obtain ⟨next, hcell⟩ := hl.allocated x hx
    exact List.mem_range.mpr (h.lt_top hcell)
  have hle := (hl.nodup.subperm hsub).length_le
  rwa [List.length_map, List.length_range] at hle

/-- A heap with the same nodes has the same chain. -/
theorem frame (hl : Chain h l xs) (heq : ∀ x ∈ xs, h'.cell x.1 = h.cell x.1) :
    Chain h' l xs := by
  induction hl with
  | null => exact null
  | node hp hrest ih =>
      have hfirst := heq _ List.mem_cons_self
      exact node (hfirst.trans hp) (ih fun x hx => heq x (List.mem_cons_of_mem _ hx))

theorem alloc (hl : Chain h l xs) (malloc : Allocator (Node α)) (c : Node α) :
    Chain (malloc.alloc h c).1 l xs := by
  apply hl.frame
  intro x hx
  obtain ⟨next, hcell⟩ := hl.allocated x hx
  exact malloc.alloc_frame h c hcell

/-- One node of a chain gets another value and is made to lead to another chain. -/
theorem rewrite {before after ys : List (Nat × α)} {p : Nat} {value value' : α} {q : Ptr}
    (hl : Chain h l (before ++ (p, value) :: after)) (hq : Chain h q ys)
    (hp : p ∉ ys.map Prod.fst) :
    Chain (h.put p ⟨value', q⟩) l (before ++ (p, value') :: ys) := by
  induction before generalizing l with
  | nil =>
      obtain ⟨rfl, -⟩ := cons_iff.mp hl
      apply node (h.put_self p _)
      apply hq.frame
      intro y hy
      apply Heap.put_of_ne
      intro heq
      exact hp (heq ▸ List.mem_map_of_mem hy)
  | cons x before ih =>
      have hnodup := hl.nodup
      rw [List.cons_append, List.map_cons, List.nodup_cons] at hnodup
      have hne : x.1 ≠ p := by
        intro heq
        apply hnodup.1
        rw [heq]
        simp
      obtain ⟨rfl, next, hcell, hrest⟩ := cons_iff.mp hl
      exact node ((h.put_of_ne hne _).trans hcell) (ih hrest)

/-- The pointer of one node of a chain is made to lead to another chain. -/
theorem relink {before after ys : List (Nat × α)} {p : Nat} {value : α} {q : Ptr}
    (hl : Chain h l (before ++ (p, value) :: after)) (hq : Chain h q ys)
    (hp : p ∉ ys.map Prod.fst) :
    Chain (h.put p ⟨value, q⟩) l (before ++ (p, value) :: ys) :=
  hl.rewrite hq hp

end Chain

end Memory
