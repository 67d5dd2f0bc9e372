import STRos.Lists.Ownership

/-! # Programs over lists

A program calls `list.c` on the pointers in its variables. As long as it does not use a list
after it gave it to another one, nor overwrites one it holds, it goes through, its readers see
what the functions on items make, and no cell stays behind but the NIL cells of fresh lists.
-/

namespace STRos.Cells

open CString Memory

section Programs

variable {Var : Type}

inductive ListCall (Var : Type)
  | init (x : Var)
  | split (x : Var) (str delim : Bytes)
  | put (x : Var) (p : Put)
  | putArray (x y : Var)
  | free (x : Var)

structure Store (Var : Type) where
  heap : CellHeap
  var : Var → Ptr

def Store.start : Store Var := ⟨Heap.empty, fun _ => none⟩

abbrev Lists (Var : Type) := Var → Option RList

/-! ## The invariant -/

/-- The variables hold their lists in cells of their own, apart from the spare ones that a
call was given. -/
structure Sim (h : CellHeap) (var : Var → Ptr) (s : Lists Var) (owned : Var → List Nat)
    (spare : List Nat) : Prop where
  owns : ∀ x items, s x = some items → Owns h (var x) items (owned x) ∧ Sound items
  dead : ∀ x, s x = none → owned x = []
  nodup : ∀ x, (owned x).Nodup
  apart : ∀ x y p, p ∈ owned x → p ∈ owned y → x = y
  spare_apart : ∀ x, ∀ p ∈ owned x, p ∉ spare
  left : ∀ p c, h.cell p = some c → (∃ x, p ∈ owned x) ∨ p ∈ spare ∨ c = ⟨.nil, none⟩

theorem Sim.vacant {h : CellHeap} {var : Var → Ptr} {s : Lists Var} {owned : Var → List Nat}
    {spare : List Nat} (hsim : Sim h var s owned spare) {x : Var} (hx : (s x).getD [] = []) :
    owned x = [] := by
  cases hs : s x with
  | none => exact hsim.dead x hs
  | some items =>
      rw [hs] at hx
      obtain rfl : items = [] := hx
      exact (hsim.owns x [] hs).1.of_nil

section Given

variable {h h' : CellHeap} {var : Var → Ptr} {s : Lists Var} {owned : Var → List Nat}
  {spare after : List Nat}

theorem Sim.allocated (hsim : Sim h var s owned spare) (x : Var) :
    ∀ p ∈ owned x, ∃ c, h.cell p = some c := by
  intro p hp
  cases hx : s x with
  | none =>
      rw [hsim.dead x hx] at hp
      cases hp
  | some items => exact (hsim.owns x items hx).1.allocated p hp

/-- A call that is given the spare cells leaves those of the variables alone. -/
theorem Sim.same (hsim : Sim h var s owned spare) (htakes : Takes h h' spare after) (x : Var) :
    ∀ p ∈ owned x, h'.cell p = h.cell p := by
  intro p hp
  obtain ⟨c, hc⟩ := hsim.allocated x p hp
  rw [hc]
  exact htakes.frame p c hc (hsim.spare_apart x p hp)

theorem Sim.not_after (hsim : Sim h var s owned spare) (htakes : Takes h h' spare after)
    (x : Var) : ∀ p ∈ owned x, p ∉ after := by
  intro p hp hafter
  obtain ⟨c, hc⟩ := hsim.allocated x p hp
  cases htakes.fresh p hafter with
  | inl hspare => exact hsim.spare_apart x p hp hspare
  | inr hnone =>
      rw [hc] at hnone
      cases hnone

end Given

def Holding (σ : Store Var) (s : Lists Var) : Prop := ∃ owned, Sim σ.heap σ.var s owned []

theorem Holding.start : Holding Store.start fun _ : Var => none := by
  refine ⟨fun _ => [], ?_, fun _ _ => rfl, fun _ => List.nodup_nil, ?_, ?_, ?_⟩
  · intro x items hx
    cases hx
  · intro x y p hp
    cases hp
  · intro x p hp
    cases hp
  · intro p c hp
    cases hp

/-! ## Calls -/

variable [DecidableEq Var]

def Store.assign (σ : Store Var) (x : Var) (h : CellHeap) (l : Ptr) : Store Var :=
  ⟨h, Function.update σ.var x l⟩

def ListCall.run (malloc : Allocator Cell) (σ : Store Var) : ListCall Var → C (Store Var)
  | .init x => .ok (σ.assign x (listInit malloc σ.heap).1 (listInit malloc σ.heap).2)
  | .split x str delim => do
      let (h, l) ← Cells.split malloc σ.heap (some str) (some delim)
      return σ.assign x h l
  | .put x p => do
      let (h, l) ← p.call malloc σ.heap (σ.var x)
      return σ.assign x h l
  | .putArray x y => do
      let (h, l) ← listPutArray malloc σ.heap (σ.var x) (σ.var y)
      return σ.assign x h l
  | .free x => do
      let (h, l) ← listFree σ.heap (σ.var x)
      return σ.assign x h l

def runListCalls (malloc : Allocator Cell) (σ : Store Var) : List (ListCall Var) → C (Store Var)
  | [] => .ok σ
  | call :: calls => do
      let σ ← call.run malloc σ
      runListCalls malloc σ calls

def Lists.set (s : Lists Var) (x : Var) (items : RList) : Lists Var :=
  Function.update s x (some items)

def Lists.drop (s : Lists Var) (x : Var) : Lists Var := Function.update s x none

theorem Lists.drop_set (s : Lists Var) (x : Var) (items : RList) :
    (s.drop x).set x items = s.set x items :=
  Function.update_idem _ _ _

theorem Lists.drop_comm (s : Lists Var) (x y : Var) : (s.drop x).drop y = (s.drop y).drop x := by
  by_cases hne : x = y
  · rw [hne]
  · exact Function.update_comm hne none none s

inductive OnItems (s : Lists Var) : ListCall Var → Lists Var → Prop
  | init {x : Var} (hx : (s x).getD [] = []) : OnItems s (.init x) (s.set x STRos.listInit)
  | split {x : Var} {str delim : Bytes} (hx : (s x).getD [] = []) :
      OnItems s (.split x str delim) (s.set x (STRos.split str delim))
  | put {x : Var} {p : Put} {items : RList} {it : Item} (hx : s x = some items)
      (hp : p.value.plain = some it) : OnItems s (.put x p) (s.set x (STRos.listPut items it))
  | putArray {x y : Var} {items inner : RList} (hne : x ≠ y) (hx : s x = some items)
      (hy : s y = some inner) :
      OnItems s (.putArray x y) ((s.drop y).set x (STRos.listPutArray items inner))
  | free {x : Var} {items : RList} (hx : s x = some items) : OnItems s (.free x) (s.set x [])

inductive RunsOnItems : Lists Var → List (ListCall Var) → Lists Var → Prop
  | nil {s : Lists Var} : RunsOnItems s [] s
  | cons {s t u : Lists Var} {call : ListCall Var} {calls : List (ListCall Var)}
      (hcall : OnItems s call t) (hrest : RunsOnItems t calls u) :
      RunsOnItems s (call :: calls) u

/-! ## What a call does to the invariant -/

namespace Sim

variable {h h' : CellHeap} {var : Var → Ptr} {s : Lists Var} {owned : Var → List Nat}
  {spare : List Nat}

theorem mem_update {x y : Var} {cells : List Nat} {p : Nat} :
    p ∈ Function.update owned x cells y ↔ (y = x ∧ p ∈ cells) ∨ (y ≠ x ∧ p ∈ owned y) := by
  by_cases hy : y = x
  · subst hy
    simp
  · simp [hy]

theorem take (hsim : Sim h var s owned spare) (x : Var) :
    Sim h var (s.drop x) (Function.update owned x []) (spare ++ owned x) where
  owns y items hy := by
    unfold Lists.drop at hy
    by_cases heq : y = x
    · rw [heq, Function.update_self] at hy
      cases hy
    · rw [Function.update_of_ne heq] at hy ⊢
      exact hsim.owns y items hy
  dead y hy := by
    unfold Lists.drop at hy
    by_cases heq : y = x
    · rw [heq, Function.update_self]
    · rw [Function.update_of_ne heq] at hy ⊢
      exact hsim.dead y hy
  nodup y := by
    by_cases heq : y = x
    · rw [heq, Function.update_self]
      exact List.nodup_nil
    · rw [Function.update_of_ne heq]
      exact hsim.nodup y
  apart y z p hy hz := by
    rw [mem_update] at hy hz
    rcases hy with ⟨-, hy⟩ | ⟨-, hy⟩
    · cases hy
    · rcases hz with ⟨-, hz⟩ | ⟨-, hz⟩
      · cases hz
      · exact hsim.apart y z p hy hz
  spare_apart y p hy := by
    rw [mem_update] at hy
    rcases hy with ⟨-, hy⟩ | ⟨hne, hy⟩
    · cases hy
    · rw [List.mem_append, not_or]
      exact ⟨hsim.spare_apart y p hy, fun hx => hne (hsim.apart y x p hy hx)⟩
  left p c hp := by
    rcases hsim.left p c hp with ⟨y, hy⟩ | hspare | hnil
    · by_cases heq : y = x
      · rw [heq] at hy
        exact Or.inr (Or.inl (List.mem_append_right _ hy))
      · exact Or.inl ⟨y, mem_update.mpr (Or.inr ⟨heq, hy⟩)⟩
    · exact Or.inr (Or.inl (List.mem_append_left _ hspare))
    · exact Or.inr (Or.inr hnil)

/-- A call makes a list of the spare cells, and a variable without cells gets it. -/
theorem give (hsim : Sim h var s owned spare) {x : Var} (hx : owned x = []) {l : Ptr}
    {items : RList} {after : List Nat} (htakes : Takes h h' spare after)
    (ho : Owns h' l items after) (hsound : Sound items) :
    Sim h' (Function.update var x l) (s.set x items) (Function.update owned x after) [] := by
  constructor
  · intro y items' hy
    unfold Lists.set at hy
    by_cases heq : y = x
    · rw [heq, Function.update_self] at hy
      cases hy
      rw [heq, Function.update_self, Function.update_self]
      exact ⟨ho, hsound⟩
    · rw [Function.update_of_ne heq] at hy ⊢
      rw [Function.update_of_ne heq]
      obtain ⟨howns, hsound'⟩ := hsim.owns y items' hy
      exact ⟨howns.frame (hsim.same htakes y), hsound'⟩
  · intro y hy
    unfold Lists.set at hy
    by_cases heq : y = x
    · rw [heq, Function.update_self] at hy
      cases hy
    · rw [Function.update_of_ne heq] at hy ⊢
      exact hsim.dead y hy
  · intro y
    by_cases heq : y = x
    · rw [heq, Function.update_self]
      exact htakes.nodup
    · rw [Function.update_of_ne heq]
      exact hsim.nodup y
  · intro y z p hy hz
    rw [mem_update] at hy hz
    rcases hy with ⟨rfl, hy⟩ | ⟨-, hy⟩
    · rcases hz with ⟨rfl, -⟩ | ⟨-, hz⟩
      · rfl
      · exact absurd hy (hsim.not_after htakes z p hz)
    · rcases hz with ⟨rfl, hz⟩ | ⟨-, hz⟩
      · exact absurd hz (hsim.not_after htakes y p hy)
      · exact hsim.apart y z p hy hz
  · intro y p _ hp
    cases hp
  · intro p c hp
    rcases htakes.left p c hp with hafter | hnil | ⟨hspare, hcell⟩
    · exact Or.inl ⟨x, mem_update.mpr (Or.inl ⟨rfl, hafter⟩)⟩
    · exact Or.inr (Or.inr hnil)
    · rcases hsim.left p c hcell with ⟨y, hy⟩ | hspare' | hnil
      · refine Or.inl ⟨y, mem_update.mpr (Or.inr ⟨?_, hy⟩)⟩
        rintro rfl
        rw [hx] at hy
        cases hy
      · exact absurd hspare' hspare
      · exact Or.inr (Or.inr hnil)

end Sim

/-! ## One call and all calls -/

section Runs

variable {s s' : Lists Var} (malloc : Allocator Cell)

theorem Holding.call {σ : Store Var} (hσ : Holding σ s) {call : ListCall Var}
    (hcall : OnItems s call s') : ∃ σ', call.run malloc σ = .ok σ' ∧ Holding σ' s' := by
  obtain ⟨owned, hsim⟩ := hσ
  cases hcall with
  | @init x hx =>
      obtain ⟨ho, htakes⟩ := Owns.init malloc σ.heap
      exact ⟨_, rfl, _, hsim.give (hsim.vacant hx) htakes ho fun _ => Or.inr rfl⟩
  | @split x str delim hx =>
      obtain ⟨h', l, after, hsplit, ho, hsound, htakes⟩ := split_owns malloc σ.heap str delim
      refine ⟨σ.assign x h' l, ?_, _, hsim.give (hsim.vacant hx) htakes ho hsound⟩
      rw [ListCall.run, hsplit]
      rfl
  | @put x p items it hx hp =>
      obtain ⟨ho, hsound⟩ := hsim.owns x items hx
      have hv : Stands σ.heap p.value it [] := .plain hp
      obtain ⟨h', l, after, hput, ho', htakes⟩ :=
        ho.put malloc hsound hv (by rw [List.append_nil]; exact hsim.nodup x)
      rw [List.append_nil] at htakes
      have hsound' := Sound.put (hv.isNil.symm.trans p.value_isNil) items
      have hgiven := (hsim.take x).give (Function.update_self x [] owned) htakes ho' hsound'
      rw [Lists.drop_set] at hgiven
      refine ⟨σ.assign x h' l, ?_, _, hgiven⟩
      rw [ListCall.run, p.call_eq, hput]
      rfl
  | @putArray x y items inner hne hx hy =>
      obtain ⟨ho, hsound⟩ := hsim.owns x items hx
      have hv : Stands σ.heap (.array (σ.var y)) (.array inner) (owned y) :=
        .array (hsim.owns y inner hy).1
      have hnodup : (owned x ++ owned y).Nodup := by
        refine List.nodup_append.mpr ⟨hsim.nodup x, hsim.nodup y, ?_⟩
        rintro p hp q hq rfl
        exact hne (hsim.apart x y p hp hq)
      obtain ⟨h', l, after, hput, ho', htakes⟩ := ho.put malloc hsound hv hnodup
      have htaken : Sim σ.heap σ.var ((s.drop x).drop y)
          (Function.update (Function.update owned x []) y []) (owned x ++ owned y) := by
        have hboth := (hsim.take x).take y
        rw [List.nil_append, Function.update_of_ne hne.symm] at hboth
        exact hboth
      have hnone : Function.update (Function.update owned x []) y [] x = [] := by
        rw [Function.update_of_ne hne, Function.update_self]
      have hgiven := htaken.give hnone htakes ho' (Sound.put rfl items)
      rw [Lists.drop_comm, Lists.drop_set] at hgiven
      refine ⟨σ.assign x h' l, ?_, _, hgiven⟩
      rw [ListCall.run, listPutArray, hput]
      rfl
  | @free x items hx =>
      obtain ⟨h', hfree, herased⟩ := (hsim.owns x items hx).1.listFree (hsim.nodup x)
      have hgiven := (hsim.take x).give (Function.update_self x [] owned) herased.takes
        (l := none) .null fun _ => Or.inl rfl
      rw [Lists.drop_set] at hgiven
      refine ⟨σ.assign x h' none, ?_, _, hgiven⟩
      rw [ListCall.run, hfree]
      rfl

theorem Holding.calls {σ : Store Var} (hσ : Holding σ s) {calls : List (ListCall Var)}
    (hcalls : RunsOnItems s calls s') :
    ∃ σ', runListCalls malloc σ calls = .ok σ' ∧ Holding σ' s' := by
  induction hcalls generalizing σ with
  | nil => exact ⟨σ, rfl, hσ⟩
  | cons hcall hrest ih =>
      obtain ⟨σ₁, hrun₁, hσ₁⟩ := hσ.call malloc hcall
      obtain ⟨σ', hrun', hσ'⟩ := ih hσ₁
      refine ⟨σ', ?_, hσ'⟩
      rw [runListCalls, hrun₁]
      exact hrun'

/-- `list.c` does what the functions on items do: a program over its lists goes through, the
readers of every list see its items, and when the program holds no list any more there is
nothing on the heap but NIL cells. -/
theorem listCalls_refine {calls : List (ListCall Var)}
    (hcalls : RunsOnItems (fun _ => none) calls s') :
    ∃ σ', runListCalls malloc Store.start calls = .ok σ' ∧
      (∀ x items, s' x = some items → Reads σ'.heap (σ'.var x) items) ∧
      ((∀ x, (s' x).getD [] = []) → ∀ p c, σ'.heap.cell p = some c → c = ⟨.nil, none⟩) := by
  obtain ⟨σ', hrun, owned, hsim⟩ := Holding.start.calls malloc hcalls
  refine ⟨σ', hrun, ?_, ?_⟩
  · intro x items hx
    exact (hsim.owns x items hx).1.reads
  · intro hvacant p c hp
    rcases hsim.left p c hp with ⟨x, hx⟩ | hspare | hnil
    · rw [hsim.vacant (hvacant x)] at hx
      cases hx
    · cases hspare
    · exact hnil

def nestedCalls : List (ListCall Bool) :=
  [.init true, .split false (str "1,2") (str ","), .putArray true false, .free true]

end Runs

theorem listCalls_refine_nested :
    ∃ σ', runListCalls Allocator.fresh Store.start nestedCalls = .ok σ' ∧
      ∀ p c, σ'.heap.cell p = some c → c = ⟨.nil, none⟩ := by
  have hcalls : ∃ s', RunsOnItems (fun _ : Bool => none) nestedCalls s' ∧
      ∀ x, (s' x).getD [] = [] := by
    refine ⟨_, .cons (.init rfl) (.cons (.split rfl) (.cons (.putArray (by decide) rfl rfl)
      (.cons (.free rfl) .nil))), ?_⟩
    intro x
    cases x <;> rfl
  obtain ⟨s', hcalls, hvacant⟩ := hcalls
  obtain ⟨σ', hrun, -, hleft⟩ := listCalls_refine Allocator.fresh hcalls
  exact ⟨σ', hrun, hleft hvacant⟩

end Programs

end STRos.Cells
