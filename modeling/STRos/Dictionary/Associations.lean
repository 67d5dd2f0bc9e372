import STRos.Dictionary.Places

/-! # The associations stand for the dictionary

The slots of a dictionary lead to chains of their own, which hold the bindings in their
order. Each call changes the chain of its key only, and never moves an association: the
pointer that a lookup gave stays good until its key is removed.
-/

namespace STRos.Associations

open CString Memory FiniteMap

variable {α : Type}

/-! ## The dictionary that is stood for -/

/-- The slots lead to chains of their own with the bindings of the dictionary. -/
structure Lays (d : Table α) (dic : Dictionary α) (cells : Nat → List (Nat × (Bytes × α))) :
    Prop where
  chain : ∀ i, Chain d.heap (d.slot i) (cells i)
  contents : ∀ i, dic.chain i = (cells i).map (·.2)
  apart : ∀ i j p, p ∈ (cells i).map (·.1) → p ∈ (cells j).map (·.1) → i = j

def Outside (cells : Nat → List (Nat × (Bytes × α))) (p : Nat) : Prop :=
  ∀ i, p ∉ (cells i).map (·.1)

/-- What a call leaves: the cells outside, and where the associations of the keys are, but for
those that are removed. -/
structure Leaves (d d' : Table α) (cells cells' : Nat → List (Nat × (Bytes × α)))
    (removed : Bytes → Prop) : Prop where
  outside : ∀ p c, d.heap.cell p = some c → Outside cells p →
    d'.heap.cell p = some c ∧ Outside cells' p
  places : ∀ key p, ¬ removed key → place key (cells (hash key dHashSize)) = some p →
    place key (cells' (hash key dHashSize)) = some p

section Calls

variable {d : Table α} {dic : Dictionary α} {cells : Nat → List (Nat × (Bytes × α))}

theorem Lays.allocated (hl : Lays d dic cells) {i p : Nat} (hp : p ∈ (cells i).map (·.1)) :
    ∃ c, d.heap.cell p = some c := by
  obtain ⟨x, hx, rfl⟩ := List.mem_map.mp hp
  obtain ⟨next, hcell⟩ := (hl.chain i).allocated x hx
  exact ⟨_, hcell⟩

/-- The chain of one slot is replaced; what is new in it was not in use. -/
theorem Lays.update (hl : Lays d dic cells) {i : Nat} {h' : AssocHeap α} {l' : Ptr}
    {xs' : List (Nat × (Bytes × α))} (hchain : Chain h' l' xs')
    (hframe : ∀ p c, d.heap.cell p = some c → p ∉ (cells i).map (·.1) → h'.cell p = some c)
    (hnew : ∀ p ∈ xs'.map (·.1), p ∈ (cells i).map (·.1) ∨ d.heap.cell p = none) :
    Lays ⟨h', Function.update d.slot i l'⟩ ⟨Function.update dic.chain i (xs'.map (·.2))⟩
      (Function.update cells i xs') := by
  have hother : ∀ j, j ≠ i → ∀ p ∈ (cells j).map (·.1), p ∉ xs'.map (·.1) := by
    intro j hj p hp hp'
    rcases hnew p hp' with hi | hnone
    · exact hj (hl.apart j i p hp hi)
    · obtain ⟨c, hc⟩ := hl.allocated hp
      rw [hnone] at hc
      cases hc
  refine ⟨fun j => ?_, fun j => ?_, fun j k p hj hk => ?_⟩
  · by_cases hj : j = i
    · subst hj
      simpa using hchain
    · simp only [Function.update_of_ne hj]
      refine (hl.chain j).frame fun x hx => ?_
      obtain ⟨next, hcell⟩ := (hl.chain j).allocated x hx
      have hmem : x.1 ∈ (cells j).map (·.1) := List.mem_map_of_mem hx
      rw [hcell]
      exact hframe _ _ hcell fun hi => hj (hl.apart j i _ hmem hi)
  · by_cases hj : j = i
    · subst hj
      simp
    · simp only [Function.update_of_ne hj]
      exact hl.contents j
  · by_cases hji : j = i
    · by_cases hki : k = i
      · rw [hji, hki]
      · rw [hji, Function.update_self] at hj
        rw [Function.update_of_ne hki] at hk
        exact absurd hj (hother k hki p hk)
    · by_cases hki : k = i
      · rw [hki, Function.update_self] at hk
        rw [Function.update_of_ne hji] at hj
        exact absurd hk (hother j hji p hj)
      · rw [Function.update_of_ne hji] at hj
        rw [Function.update_of_ne hki] at hk
        exact hl.apart j k p hj hk

/-- What replacing the chain of one slot leaves. -/
theorem Leaves.update {i : Nat} {h' : AssocHeap α} {l' : Ptr} {xs' : List (Nat × (Bytes × α))}
    {removed : Bytes → Prop}
    (hframe : ∀ p c, d.heap.cell p = some c → p ∉ (cells i).map (·.1) → h'.cell p = some c)
    (hnew : ∀ p ∈ xs'.map (·.1), p ∈ (cells i).map (·.1) ∨ d.heap.cell p = none)
    (hplaces : ∀ key p, ¬ removed key → place key (cells i) = some p → place key xs' = some p) :
    Leaves d ⟨h', Function.update d.slot i l'⟩ cells (Function.update cells i xs') removed := by
  refine ⟨fun p c hp hout => ⟨hframe p c hp (hout i), fun j => ?_⟩, fun key p hkept hplace => ?_⟩
  · by_cases hj : j = i
    · subst hj
      rw [Function.update_self]
      intro hmem
      rcases hnew p hmem with hi | hnone
      · exact hout j hi
      · rw [hnone] at hp
        cases hp
    · rw [Function.update_of_ne hj]
      exact hout j
  · by_cases hj : hash key dHashSize = i
    · subst hj
      rw [Function.update_self]
      exact hplaces key p hkept hplace
    · rw [Function.update_of_ne hj]
      exact hplace

theorem Leaves.trans {d₁ d₂ d₃ : Table α} {cells₁ cells₂ cells₃ : Nat → List (Nat × (Bytes × α))}
    {removed : Bytes → Prop} (h : Leaves d₁ d₂ cells₁ cells₂ removed)
    (h' : Leaves d₂ d₃ cells₂ cells₃ removed) : Leaves d₁ d₃ cells₁ cells₃ removed := by
  refine ⟨fun p c hp hout => ?_, fun key p hkept hplace => ?_⟩
  · obtain ⟨hp', hout'⟩ := h.outside p c hp hout
    exact h'.outside p c hp' hout'
  · exact h'.places key p hkept (h.places key p hkept hplace)

theorem slotAt_hash (d : Table α) (key : Bytes) :
    slotAt d (hash key dHashSize) = .ok (d.slot (hash key dHashSize)) := by
  have hlt := hash_lt_dHashSize key
  have hle : dHashSize ≤ hashSize := by decide
  rw [slotAt, if_pos (by omega)]

theorem Lays.dlookup (hl : Lays d dic cells) (key : Bytes) :
    dlookup d key = .ok (place key (cells (hash key dHashSize))) := by
  have hchain := hl.chain (hash key dHashSize)
  rw [Associations.dlookup, slotAt_hash]
  exact lookupLoop_chain hchain hchain.length_le_top

/-- The association of a key is found exactly when the dictionary has the key. -/
theorem Lays.isSome_iff (hl : Lays d dic cells) (key : Bytes) :
    (STRos.dvalue dic key).isSome ↔ ∃ p, place key (cells (hash key dHashSize)) = some p := by
  rw [dvalue_eq_lookup, hl.contents, Option.isSome_iff_ne_none, Ne, lookup_eq_none_iff,
    ← place_eq_none, ← Ne, ← Option.isSome_iff_ne_none, Option.isSome_iff_exists]

/-! ## The calls -/

theorem Lays.alloc (malloc : Allocator (Assoc α)) (hl : Lays d dic cells) {key : Bytes} (old : α)
    (hnone : place key (cells (hash key dHashSize)) = none) :
    Lays ⟨(malloc.alloc d.heap ⟨(key, old), d.slot (hash key dHashSize)⟩).1,
        Function.update d.slot (hash key dHashSize) (some (malloc.address d.heap))⟩
      ⟨Function.update dic.chain (hash key dHashSize)
        ((key, old) :: dic.chain (hash key dHashSize))⟩
      (Function.update cells (hash key dHashSize)
        ((malloc.address d.heap, (key, old)) :: cells (hash key dHashSize))) ∧
    Leaves d ⟨(malloc.alloc d.heap ⟨(key, old), d.slot (hash key dHashSize)⟩).1,
        Function.update d.slot (hash key dHashSize) (some (malloc.address d.heap))⟩ cells
      (Function.update cells (hash key dHashSize)
        ((malloc.address d.heap, (key, old)) :: cells (hash key dHashSize))) fun _ => False := by
  have hchain := hl.chain (hash key dHashSize)
  have hnew : Chain (malloc.alloc d.heap ⟨(key, old), d.slot (hash key dHashSize)⟩).1
      (some (malloc.address d.heap))
      ((malloc.address d.heap, (key, old)) :: cells (hash key dHashSize)) :=
    .node (Heap.put_self _ _ _) (hchain.alloc malloc _)
  have hframe : ∀ p c, d.heap.cell p = some c → p ∉ (cells (hash key dHashSize)).map (·.1) →
      (malloc.alloc d.heap ⟨(key, old), d.slot (hash key dHashSize)⟩).1.cell p = some c := by
    intro p c hp _
    rw [malloc.alloc_frame d.heap _ hp, hp]
  have hplaces : ∀ p ∈ ((malloc.address d.heap, (key, old)) ::
      cells (hash key dHashSize)).map (·.1),
      p ∈ (cells (hash key dHashSize)).map (·.1) ∨ d.heap.cell p = none := by
    intro p hp
    rw [List.map_cons, List.mem_cons] at hp
    cases hp with
    | inl hfirst =>
        rw [hfirst]
        exact Or.inr (malloc.free d.heap)
    | inr hrest => exact Or.inl hrest
  constructor
  · have hlays := hl.update hnew hframe hplaces
    rw [List.map_cons, ← hl.contents] at hlays
    exact hlays
  · refine Leaves.update hframe hplaces fun key' p _ hp => ?_
    have hne : key ≠ key' := by
      rintro rfl
      rw [hnone] at hp
      cases hp
    rw [place_cons, if_neg hne]
    exact hp

theorem Lays.revalue (hl : Lays d dic cells) {key : Bytes} {p : Nat} (value : α)
    (hplace : place key (cells (hash key dHashSize)) = some p) :
    ∃ old next cells', d.heap.cell p = some ⟨(key, old), next⟩ ∧
      Lays { d with heap := d.heap.put p ⟨(key, value), next⟩ }
        ⟨Function.update dic.chain (hash key dHashSize)
          (setFirst key value (dic.chain (hash key dHashSize)))⟩ cells' ∧
      Leaves d { d with heap := d.heap.put p ⟨(key, value), next⟩ } cells cells'
        (fun _ => False) ∧
      place key (cells' (hash key dHashSize)) = some p := by
  have hchain := hl.chain (hash key dHashSize)
  obtain ⟨before, old, after, hcells, hbefore⟩ := place_split hplace
  rw [hcells] at hchain
  obtain ⟨-, next, hp, hrest⟩ := Chain.cons_iff.mp hchain.of_append
  have hafter : p ∉ after.map (·.1) := by
    have hnodup := hchain.of_append.nodup
    rw [List.map_cons, List.nodup_cons] at hnodup
    exact hnodup.1
  have hnew : Chain (d.heap.put p ⟨(key, value), next⟩) (d.slot (hash key dHashSize))
      (before ++ (p, (key, value)) :: after) := hchain.rewrite hrest hafter
  have hframe : ∀ q c, d.heap.cell q = some c → q ∉ (cells (hash key dHashSize)).map (·.1) →
      (d.heap.put p ⟨(key, value), next⟩).cell q = some c := by
    intro q c hq hout
    refine (Heap.put_of_ne _ ?_ _).trans hq
    rintro rfl
    exact hout (by simp [hcells])
  have hplaces : ∀ q ∈ (before ++ (p, (key, value)) :: after).map (·.1),
      q ∈ (cells (hash key dHashSize)).map (·.1) ∨ d.heap.cell q = none := by
    intro q hq
    left
    rw [hcells]
    simpa using hq
  have hslot : Function.update d.slot (hash key dHashSize) (d.slot (hash key dHashSize)) = d.slot :=
    Function.update_eq_self _ _
  have hvalues : setFirst key value (dic.chain (hash key dHashSize)) =
      (before ++ (p, (key, value)) :: after).map (·.2) := by
    rw [hl.contents, hcells, List.map_append, List.map_cons, List.map_append, List.map_cons]
    exact setFirst_split old value hbefore
  refine ⟨old, next, Function.update cells (hash key dHashSize)
    (before ++ (p, (key, value)) :: after), hp, ?_, ?_, ?_⟩
  · have hlays := hl.update hnew hframe hplaces
    rw [hslot, ← hvalues] at hlays
    exact hlays
  · have hkept : ∀ key' q, ¬ False → place key' (cells (hash key dHashSize)) = some q →
        place key' (before ++ (p, (key, value)) :: after) = some q := by
      intro key' q _ hq
      rw [place_revalue before after p key key' old value, ← hcells]
      exact hq
    have hleaves : Leaves d ⟨d.heap.put p ⟨(key, value), next⟩, Function.update d.slot
        (hash key dHashSize) (d.slot (hash key dHashSize))⟩ cells _ fun _ => False :=
      Leaves.update hframe hplaces hkept
    rw [hslot] at hleaves
    exact hleaves
  · rw [Function.update_self, place_revalue before after p key key old value, ← hcells, hplace]

variable (malloc : Allocator (Assoc α)) (old : α)

theorem Lays.dput (hl : Lays d dic cells) (key : Bytes) (value : α) :
    ∃ d' p cells', dput malloc old d key value = .ok (d', p) ∧
      Lays d' (STRos.dput dic key value) cells' ∧ Leaves d d' cells cells' (fun _ => False) ∧
      place key (cells' (hash key dHashSize)) = some p := by
  have hsome := hl.isSome_iff key
  rw [Associations.dput, putElWithKey, hl.dlookup key]
  simp only [bind, Except.bind]
  cases hplace : place key (cells (hash key dHashSize)) with
  | none =>
      have hnone : ¬ (STRos.dlookup dic key).isSome := by
        intro hdic
        obtain ⟨p, hp⟩ := hsome.mp hdic
        rw [hplace] at hp
        cases hp
      obtain ⟨hlays, hleaves⟩ := hl.alloc malloc old hplace
      have hfirst : place key (Function.update cells (hash key dHashSize)
          ((malloc.address d.heap, (key, old)) :: cells (hash key dHashSize))
          (hash key dHashSize)) = some (malloc.address d.heap) := by
        rw [Function.update_self, place_cons, if_pos rfl]
      obtain ⟨v, next, cells', hp, hlays', hleaves', hplace'⟩ := hlays.revalue value hfirst
      refine ⟨_, _, cells', ?_, ?_, hleaves.trans hleaves', hplace'⟩
      · simp only [slotAt_hash, pure, Except.pure]
        rw [show (malloc.alloc d.heap ⟨(key, old), d.slot (hash key dHashSize)⟩).2 =
          malloc.address d.heap from rfl, deref_of_cell hp]
      · rw [STRos.dput, if_neg hnone]
        simp only [Function.update_self, Function.update_idem, setFirst, if_true] at hlays'
        exact hlays'
  | some p =>
      have hbound : (STRos.dlookup dic key).isSome := hsome.mpr ⟨p, hplace⟩
      obtain ⟨v, next, cells', hp, hlays', hleaves', hplace'⟩ := hl.revalue value hplace
      refine ⟨_, p, cells', ?_, ?_, hleaves', hplace'⟩
      · simp only [pure, Except.pure]
        rw [deref_of_cell hp]
      · rw [STRos.dput, if_pos hbound]
        exact hlays'

theorem dremove_chain (hl : Lays d dic cells) (key : Bytes) :
    ∃ h' l', dremove d key = .ok (⟨h', Function.update d.slot (hash key dHashSize) l'⟩,
        if key ∈ keys ((cells (hash key dHashSize)).map (·.2)) then 1 else 0) ∧
      Chain h' l' ((cells (hash key dHashSize)).eraseP fun x => x.2.1 = key) ∧
      (∀ p, p ∉ (cells (hash key dHashSize)).map (·.1) → h'.cell p = d.heap.cell p) ∧
      ∀ p, place key (cells (hash key dHashSize)) = some p → h'.cell p = d.heap.cell p := by
  have hchain := hl.chain (hash key dHashSize)
  have hslot : Function.update d.slot (hash key dHashSize) (d.slot (hash key dHashSize)) = d.slot :=
    Function.update_eq_self _ _
  have hrun := slotAt_hash d key
  generalize cells (hash key dHashSize) = xs at hchain
  rw [Associations.dremove, hrun]
  cases xs with
  | nil =>
      rw [Chain.nil_iff] at hchain
      refine ⟨d.heap, d.slot (hash key dHashSize), ?_, ?_, fun _ _ => rfl, fun _ _ => rfl⟩
      · rw [hslot, hchain]
        rfl
      · rw [hchain]
        exact .null
  | cons x xs =>
      obtain ⟨p, np⟩ := x
      have hlen := hchain.length_le_top
      obtain ⟨hp, next, hcell, hrest⟩ := Chain.cons_iff.mp hchain
      rw [hp] at hchain
      rw [hp]
      simp only [bind, Except.bind, deref_of_cell hcell, List.map_cons, keys_cons, List.mem_cons]
      by_cases hkey : key = np.1
      · refine ⟨d.heap, next, ?_, ?_, fun _ _ => rfl, fun _ _ => rfl⟩
        · rw [if_pos hkey, if_pos (Or.inl hkey)]
          rfl
        · rw [List.eraseP_cons_of_pos (by simp [hkey])]
          exact hrest
      · obtain ⟨h', hloop, hchain', hframe, hremoved⟩ := removeLoop_chain hchain hlen
        refine ⟨h', some p, ?_, ?_, ?_, ?_⟩
        · rw [if_neg hkey, hloop, ← hp, hslot]
          simp [hkey]
          rfl
        · rw [List.eraseP_cons_of_neg (by simp [Ne.symm hkey])]
          exact hchain'
        · intro q hq
          exact hframe q (by simpa using hq)
        · intro q hq
          rw [place_cons, if_neg (Ne.symm hkey)] at hq
          exact hremoved q hq

/-- What `dremove` does is what it does to the dictionary that is stood for. The association
that is removed stays as it is, but no slot leads to it any more. -/
theorem Lays.dremove (hl : Lays d dic cells) (key : Bytes) :
    ∃ d' cells', dremove d key = .ok (d', (STRos.dremove dic key).1) ∧
      Lays d' (STRos.dremove dic key).2 cells' ∧ Leaves d d' cells cells' (· = key) ∧
      ∀ p c, place key (cells (hash key dHashSize)) = some p → d.heap.cell p = some c →
        d'.heap.cell p = some c ∧ Outside cells' p := by
  obtain ⟨h', l', hrun, hchain, hframe, hremoved⟩ := dremove_chain hl key
  have hvalues : (dic.chain (hash key dHashSize)).eraseP (fun np => np.1 = key) =
      ((cells (hash key dHashSize)).eraseP fun x => x.2.1 = key).map (·.2) := by
    rw [hl.contents, List.eraseP_map]
    rfl
  have hcell : ∀ p c, d.heap.cell p = some c → p ∉ (cells (hash key dHashSize)).map (·.1) →
      h'.cell p = some c := by
    intro p c hp hout
    rw [hframe p hout, hp]
  have hplaces : ∀ p ∈ ((cells (hash key dHashSize)).eraseP fun x => x.2.1 = key).map (·.1),
      p ∈ (cells (hash key dHashSize)).map (·.1) ∨ d.heap.cell p = none := by
    intro p hp
    exact Or.inl ((List.eraseP_sublist.map _).subset hp)
  have hkept : ∀ key' p, ¬ key' = key → place key' (cells (hash key dHashSize)) = some p →
      place key' ((cells (hash key dHashSize)).eraseP fun x => x.2.1 = key) = some p := by
    intro key' p hne hp
    rw [place_eraseP_ne hne, hp]
  refine ⟨⟨h', Function.update d.slot (hash key dHashSize) l'⟩, _, ?_, ?_,
    Leaves.update hcell hplaces hkept, ?_⟩
  · rw [hrun, dremove_eraseP, hl.contents]
  · rw [dremove_eraseP, hvalues]
    exact hl.update hchain hcell hplaces
  · intro p c hp hpc
    refine ⟨(hremoved p hp).trans hpc, fun i hmem => ?_⟩
    by_cases hi : i = hash key dHashSize
    · rw [hi, Function.update_self] at hmem
      exact not_mem_eraseP (hl.chain _).nodup hp hmem
    · rw [Function.update_of_ne hi] at hmem
      exact hi (hl.apart i _ p hmem (mem_of_place hp))

theorem Lays.cell_of_place (hl : Lays d dic cells) {key : Bytes} {p : Nat}
    (hplace : place key (cells (hash key dHashSize)) = some p) :
    ∃ value next, d.heap.cell p = some ⟨(key, value), next⟩ := by
  have hchain := hl.chain (hash key dHashSize)
  obtain ⟨before, value, after, hcells, -⟩ := place_split hplace
  obtain ⟨next, hcell⟩ := hchain.allocated (p, (key, value)) (by simp [hcells])
  exact ⟨value, next, hcell⟩

theorem Lays.dvalue (hl : Lays d dic cells) (key : Bytes) :
    dvalue d key = .ok (STRos.dvalue dic key) := by
  have hchain := hl.chain (hash key dHashSize)
  rw [Associations.dvalue, hl.dlookup key, dvalue_eq_lookup, hl.contents]
  simp only [bind, Except.bind]
  cases hplace : place key (cells (hash key dHashSize)) with
  | none =>
      rw [lookup_eq_none_iff.mpr (place_eq_none.mp hplace)]
      rfl
  | some p =>
      obtain ⟨before, value, after, hcells, hbefore⟩ := place_split hplace
      obtain ⟨next, hcell⟩ := hchain.allocated (p, (key, value)) (by simp [hcells])
      have hlookup : lookup ((cells (hash key dHashSize)).map (·.2)) key = some value := by
        rw [hcells, List.map_append, List.map_cons]
        exact lookup_split hbefore
      rw [hlookup]
      simp only [deref_of_cell hcell]
      rfl

theorem Lays.forEachAssoc (hl : Lays d dic cells) :
    forEachAssoc d = .ok (((List.range hashSize).flatMap cells).map (·.1)) := by
  have hslots : ∀ is : List Nat, (∀ i ∈ is, i < hashSize) →
      (is.mapM fun i => do
        let np ← slotAt d i
        forEachLoop d.heap d.heap.top np) = .ok (is.map fun i => (cells i).map (·.1)) := by
    intro is his
    induction is with
    | nil => rfl
    | cons i is ih =>
        have hchain := hl.chain i
        rw [List.mapM_cons, ih fun j hj => his j (List.mem_cons_of_mem _ hj), slotAt,
          if_pos (his i List.mem_cons_self)]
        simp only [bind, Except.bind]
        rw [forEachLoop_chain hchain hchain.length_le_top]
        rfl
  rw [Associations.forEachAssoc, hslots _ fun i hi => List.mem_range.mp hi]
  simp only [bind, Except.bind, pure, Except.pure, List.map_flatMap]
  rw [List.flatMap_def]

end Calls

/-! ## All calls -/

section Runs

variable (malloc : Allocator (Assoc α)) (old : α)

def call (d : Table α) : Update Bytes α → C (Table α)
  | .put key value => do
      let (d, _) ← dput malloc old d key value
      return d
  | .remove key => do
      let (d, _) ← dremove d key
      return d

def runCalls : Table α → List (Update Bytes α) → C (Table α)
  | d, [] => .ok d
  | d, u :: us => do
      let d ← call malloc old d u
      runCalls d us

variable {d : Table α} {dic : Dictionary α} {cells : Nat → List (Nat × (Bytes × α))}

theorem Leaves.mono {d d' : Table α} {cells cells' : Nat → List (Nat × (Bytes × α))}
    {removed removed' : Bytes → Prop} (h : Leaves d d' cells cells' removed)
    (hmore : ∀ key, removed key → removed' key) : Leaves d d' cells cells' removed' :=
  ⟨h.outside, fun key p hkept hp => h.places key p (fun hr => hkept (hmore key hr)) hp⟩

theorem Lays.call (hl : Lays d dic cells) (u : Update Bytes α) :
    ∃ d' cells', call malloc old d u = .ok d' ∧ Lays d' (dictCall dic u) cells' ∧
      Leaves d d' cells cells' (fun key => u = .remove key) := by
  cases u with
  | put key value =>
      obtain ⟨d', p, cells', hrun, hlays, hleaves, -⟩ := hl.dput malloc old key value
      refine ⟨d', cells', ?_, hlays, hleaves.mono fun key' hno => hno.elim⟩
      rw [Associations.call, hrun]
      rfl
  | remove key =>
      obtain ⟨d', cells', hrun, hlays, hleaves, -⟩ := hl.dremove key
      refine ⟨d', cells', ?_, hlays, hleaves.mono fun key' heq => by rw [heq]⟩
      rw [Associations.call, hrun]
      rfl

theorem Lays.calls (hl : Lays d dic cells) (us : List (Update Bytes α)) :
    ∃ d' cells', runCalls malloc old d us = .ok d' ∧ Lays d' (us.foldl dictCall dic) cells' ∧
      Leaves d d' cells cells' (fun key => .remove key ∈ us) := by
  induction us generalizing d dic cells with
  | nil => exact ⟨d, cells, rfl, hl, fun p c hp hout => ⟨hp, hout⟩, fun key p _ hp => hp⟩
  | cons u us ih =>
      obtain ⟨d₁, cells₁, hrun₁, hlays₁, hleaves₁⟩ := hl.call malloc old u
      obtain ⟨d', cells', hrun', hlays', hleaves'⟩ := ih hlays₁
      refine ⟨d', cells', ?_, hlays', ?_⟩
      · rw [runCalls, hrun₁]
        exact hrun'
      · exact (hleaves₁.mono fun key heq => by simp [heq]).trans
          (hleaves'.mono fun key hmem => List.mem_cons_of_mem _ hmem)

theorem Lays.dict (h : AssocHeap α) : Lays (dict h) STRos.dict fun _ => [] :=
  ⟨fun _ => .null, fun _ => rfl, fun _ _ _ hp => by cases hp⟩

/-- The associations that an enumeration comes to hold what the dictionary lists. -/
theorem Lays.forEachAssoc_values (hl : Lays d dic cells) :
    (((List.range hashSize).flatMap cells).map (·.1)).map
        (fun p => (d.heap.cell p).map (·.value)) =
      (STRos.forEachAssoc dic).map some := by
  rw [STRos.forEachAssoc, List.map_map, List.map_flatMap, List.map_flatMap]
  apply List.flatMap_congr
  intro i _
  rw [hl.contents, List.map_map]
  apply List.map_congr_left
  intro x hx
  obtain ⟨next, hcell⟩ := (hl.chain i).allocated x hx
  simp [hcell]

/-- Whatever else is on the heap, any calls do on it what their updates do to a map, they
leave the cells that there were as they are, and an enumeration comes to one association for
each binding. -/
theorem runCalls_map (h : AssocHeap α) (us : List (Update Bytes α)) :
    ∃ d, runCalls malloc old (dict h) us = .ok d ∧
      (∀ key, dvalue d key = .ok (us.foldl Update.apply (fun _ => none) key)) ∧
      (∀ key, ∃ d', dremove d key =
        .ok (d', if (us.foldl Update.apply (fun _ => none) key).isSome then 1 else 0)) ∧
      (∀ key value, ∃ d' p, dput malloc old d key value = .ok (d', p) ∧
        dlookup d' key = .ok (some p)) ∧
      (∃ ps bindings, forEachAssoc d = .ok ps ∧
        ps.map (fun p => (d.heap.cell p).map (·.value)) = bindings.map some ∧
        (keys bindings).Nodup ∧ ∀ key value, (key, value) ∈ bindings ↔
          us.foldl Update.apply (fun _ => none) key = some value) ∧
      ∀ p c, h.cell p = some c → d.heap.cell p = some c := by
  obtain ⟨d, cells, hrun, hlays, hleaves⟩ := (Lays.dict h).calls malloc old us
  have hwf := dictCalls_wellFormed us
  have hmap : ∀ key, STRos.dvalue (dictCalls us) key = us.foldl Update.apply (fun _ => none) key :=
    fun key => congrFun (dvalue_dictCalls us) key
  refine ⟨d, hrun, fun key => ?_, fun key => ?_, fun key value => ?_, ?_, fun p c hp => ?_⟩
  · rw [hlays.dvalue key, ← hmap]
    rfl
  · obtain ⟨d', -, hremove, -⟩ := hlays.dremove key
    refine ⟨d', ?_⟩
    rw [hremove, dremove_fst, ← hmap]
    rfl
  · obtain ⟨d', p, cells', hput, hlays', -, hplace⟩ := hlays.dput malloc old key value
    exact ⟨d', p, hput, by rw [hlays'.dlookup key, hplace]⟩
  · refine ⟨_, STRos.forEachAssoc (dictCalls us), hlays.forEachAssoc, hlays.forEachAssoc_values,
      keys_forEachAssoc_nodup hwf, fun key value => ?_⟩
    rw [mem_forEachAssoc hwf, hmap]
  · exact (hleaves.outside p c hp fun i hi => by cases hi).1

theorem Lays.calls_place (hl : Lays d dic cells) {key : Bytes} {p : Nat}
    (hplace : place key (cells (hash key dHashSize)) = some p) (us : List (Update Bytes α)) :
    ∃ d' cells', runCalls malloc old d us = .ok d' ∧ Lays d' (us.foldl dictCall dic) cells' ∧
      (∃ value next, d'.heap.cell p = some ⟨(key, value), next⟩) ∧
      (.remove key ∉ us → place key (cells' (hash key dHashSize)) = some p) ∧
      (.remove key ∈ us → Outside cells' p) := by
  induction us generalizing d dic cells with
  | nil =>
      exact ⟨d, cells, rfl, hl, hl.cell_of_place hplace, fun _ => hplace, fun hno => by cases hno⟩
  | cons u us ih =>
      by_cases hu : u = .remove key
      · obtain ⟨value, next, hcell⟩ := hl.cell_of_place hplace
        obtain ⟨d₁, cells₁, hrun₁, hlays₁, -, hremoved⟩ := hl.dremove key
        obtain ⟨hcell₁, hout₁⟩ := hremoved p _ hplace hcell
        obtain ⟨d', cells', hrun', hlays', hleaves'⟩ := hlays₁.calls malloc old us
        obtain ⟨hcell', hout'⟩ := hleaves'.outside p _ hcell₁ hout₁
        refine ⟨d', cells', ?_, ?_, ⟨value, next, hcell'⟩, fun hno => ?_, fun _ => hout'⟩
        · rw [runCalls, hu, Associations.call, hrun₁]
          exact hrun'
        · rw [hu]
          exact hlays'
        · exact absurd (by simp [hu]) hno
      · obtain ⟨d₁, cells₁, hrun₁, hlays₁, hleaves₁⟩ := hl.call malloc old u
        obtain ⟨d', cells', hrun', hlays', hcell, hkept, hremoved⟩ :=
          ih hlays₁ (hleaves₁.places key p hu hplace)
        refine ⟨d', cells', ?_, hlays', hcell, fun hno => ?_, fun hmem => ?_⟩
        · rw [runCalls, hrun₁]
          exact hrun'
        · exact hkept fun hmem => hno (List.mem_cons_of_mem _ hmem)
        · exact hremoved ((List.mem_cons.mp hmem).resolve_left (Ne.symm hu))

/-- The pointer to an association stays the one of its key until the key is removed. Then it
can still be followed to an association with the key, but no lookup gives it again. -/
theorem runCalls_place (h : AssocHeap α) (us us' : List (Update Bytes α)) {d : Table α}
    {key : Bytes} {p : Nat} (hd : runCalls malloc old (dict h) us = .ok d)
    (hp : dlookup d key = .ok (some p)) :
    ∃ d', runCalls malloc old d us' = .ok d' ∧
      (∃ value next, d'.heap.cell p = some ⟨(key, value), next⟩) ∧
      (.remove key ∉ us' → dlookup d' key = .ok (some p)) ∧
      (.remove key ∈ us' → ∀ key', dlookup d' key' ≠ .ok (some p)) := by
  obtain ⟨d₁, cells, hrun, hlays, -⟩ := (Lays.dict h).calls malloc old us
  rw [hd] at hrun
  cases hrun
  rw [hlays.dlookup key] at hp
  obtain ⟨d', cells', hrun', hlays', hcell, hkept, hremoved⟩ :=
    hlays.calls_place malloc old (Except.ok.inj hp) us'
  refine ⟨d', hrun', hcell, fun hno => ?_, fun hmem key' hp' => ?_⟩
  · rw [hlays'.dlookup key, hkept hno]
  · rw [hlays'.dlookup key'] at hp'
    exact hremoved hmem _ (mem_of_place (Except.ok.inj hp'))

theorem runCalls_place_removed :
    ∃ d p d', runCalls Allocator.fresh 0 (dict Heap.empty) [.put (str "a") 1] = .ok d ∧
      dlookup d (str "a") = .ok (some p) ∧
      runCalls Allocator.fresh 0 d [.put (str "b") 2, .remove (str "a")] = .ok d' ∧
      (∃ value next, d'.heap.cell p = some ⟨(str "a", value), next⟩) ∧
      ∀ key', dlookup d' key' ≠ .ok (some p) := by
  have hd : ∃ d, runCalls Allocator.fresh 0 (dict Heap.empty) [.put (str "a") 1] = .ok d ∧
      dlookup d (str "a") = .ok (some 0) := ⟨_, rfl, rfl⟩
  obtain ⟨d, hrun, hp⟩ := hd
  obtain ⟨d', hrun', hcell, -, hremoved⟩ := runCalls_place Allocator.fresh 0 Heap.empty
    [.put (str "a") 1] [.put (str "b") 2, .remove (str "a")] hrun hp
  exact ⟨d, 0, d', hrun, hp, hrun', hcell, hremoved (by simp)⟩

end Runs

end STRos.Associations
