import STRos.Model.Utils

/-! # dictionary.c: chains of associations under a hash

A dictionary is an array of chains. Keys are hashed to `DHASHSIZE` places, so
two keys may share a chain; a new key goes to the front of its chain.
-/

namespace STRos

open CString

structure Dictionary (α : Type) where
  chain : Nat → List (Bytes × α)

variable {α : Type}

def dict : Dictionary α := ⟨fun _ => []⟩

/-- The value of the association `dlookup` finds. -/
def dlookup (dic : Dictionary α) (key : Bytes) : Option α :=
  ((dic.chain (hash key dHashSize)).find? (fun np => np.1 = key)).map (·.2)

/-- The chain after the value of its first association with the key was set. -/
def setFirst (key : Bytes) (value : α) : List (Bytes × α) → List (Bytes × α)
  | [] => []
  | np :: chain => if np.1 = key then (key, value) :: chain else np :: setFirst key value chain

def dput (dic : Dictionary α) (key : Bytes) (value : α) : Dictionary α :=
  let hashval := hash key dHashSize
  let chain := dic.chain hashval
  ⟨Function.update dic.chain hashval
    (if (dlookup dic key).isSome then setFirst key value chain else (key, value) :: chain)⟩

def dvalue (dic : Dictionary α) (key : Bytes) : Option α := dlookup dic key

/-- The loop of `dremove`: the cell in front of the first one with the key skips
it. The first cell of the chain is only ever a predecessor. -/
def unlinkNext (key : Bytes) : List (Bytes × α) → Option (List (Bytes × α))
  | np :: next :: chain =>
      if next.1 = key then some (np :: chain)
      else (unlinkNext key (next :: chain)).map (np :: ·)
  | _ => none

/-- The result and the dictionary afterwards. -/
def dremove (dic : Dictionary α) (key : Bytes) : Int32 × Dictionary α :=
  let hashval := hash key dHashSize
  match dic.chain hashval with
  | [] => (0, dic)
  | np :: chain =>
      if np.1 = key then (1, ⟨Function.update dic.chain hashval chain⟩)
      else
        match unlinkNext key (np :: chain) with
        | some chain => (1, ⟨Function.update dic.chain hashval chain⟩)
        | none => (0, dic)

/-- What `for_each_assoc` visits: the chains of all `HASHSIZE` slots, one after
the other. -/
def forEachAssoc (dic : Dictionary α) : List (Bytes × α) :=
  (List.range hashSize).flatMap dic.chain

/-! ## What a lookup sees -/

theorem find?_setFirst (key : Bytes) (value : α) {chain : List (Bytes × α)}
    (h : (chain.find? (fun np => np.1 = key)).isSome) :
    (setFirst key value chain).find? (fun np => np.1 = key) = some (key, value) := by
  induction chain with
  | nil => simp at h
  | cons np chain ih =>
      by_cases hnp : np.1 = key
      · simp [setFirst, hnp]
      · simp only [List.find?_cons, hnp, decide_false] at h
        simpa [setFirst, hnp] using ih h

theorem find?_setFirst_ne {key key' : Bytes} (value : α) (hne : key' ≠ key)
    (chain : List (Bytes × α)) :
    (setFirst key value chain).find? (fun np => np.1 = key') =
      chain.find? (fun np => np.1 = key') := by
  induction chain with
  | nil => rfl
  | cons np chain ih =>
      by_cases hnp : np.1 = key
      · simp [setFirst, hnp, hne.symm]
      · simp only [setFirst, hnp, if_false, List.find?_cons, ih]

@[simp] theorem dvalue_dict (key : Bytes) : dvalue (dict : Dictionary α) key = none := rfl

@[simp] theorem dvalue_dput_self (dic : Dictionary α) (key : Bytes) (value : α) :
    dvalue (dput dic key value) key = some value := by
  simp only [dvalue, dlookup, dput, Function.update_self]
  by_cases h : ((dic.chain (hash key dHashSize)).find? (fun np => np.1 = key)).isSome
  · simp [h, find?_setFirst key value h]
  · simp [h]

theorem dvalue_dput_ne (dic : Dictionary α) {key key' : Bytes} (value : α) (hne : key' ≠ key) :
    dvalue (dput dic key value) key' = dvalue dic key' := by
  simp only [dvalue, dlookup.eq_1 _ key', dput]
  by_cases hchain : hash key' dHashSize = hash key dHashSize
  · rw [hchain, Function.update_self]
    cases dlookup dic key with
    | none => simp [hne.symm]
    | some _ => simp [find?_setFirst_ne value hne]
  · rw [Function.update_of_ne hchain]

end STRos
