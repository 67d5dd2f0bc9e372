import STRos.Lib.FiniteMap
import STRos.Model.Dictionary

/-! # The dictionary as a finite map

Every operation keeps the chains of a dictionary well formed, and on
well-formed chains it does what the map says: a put binds its key, a removal
unbinds it, and the enumeration lists the bindings.
-/

namespace STRos

open CString FiniteMap

variable {α : Type}

/-- Every key is in the chain of its own hash, and no key is there twice. -/
structure Dictionary.WellFormed (dic : Dictionary α) : Prop where
  home : ∀ i, ∀ np ∈ dic.chain i, hash np.1 dHashSize = i
  distinct : ∀ i, (keys (dic.chain i)).Nodup

theorem dvalue_eq_lookup (dic : Dictionary α) (key : Bytes) :
    dvalue dic key = lookup (dic.chain (hash key dHashSize)) key := rfl

theorem hash_lt_dHashSize (key : Bytes) : hash key dHashSize < dHashSize :=
  Nat.mod_lt _ (by decide)

theorem dict_wellFormed : (dict : Dictionary α).WellFormed :=
  ⟨fun _ _ hnp => absurd hnp List.not_mem_nil, fun _ => List.nodup_nil⟩

/-- Replacing one chain by a good one for its place keeps the dictionary well formed. -/
theorem Dictionary.WellFormed.update {dic : Dictionary α} (h : dic.WellFormed) {i : Nat}
    {chain : List (Bytes × α)} (hhome : ∀ np ∈ chain, hash np.1 dHashSize = i)
    (hdistinct : (keys chain).Nodup) :
    (⟨Function.update dic.chain i chain⟩ : Dictionary α).WellFormed := by
  refine ⟨fun j => ?_, fun j => ?_⟩
  · by_cases hj : j = i
    · subst hj
      simpa using hhome
    · simpa [hj] using h.home j
  · by_cases hj : j = i
    · subst hj
      simpa using hdistinct
    · simpa [hj] using h.distinct j

/-! ## dput -/

theorem keys_setFirst (key : Bytes) (value : α) (chain : List (Bytes × α)) :
    keys (setFirst key value chain) = keys chain := by
  induction chain with
  | nil => rfl
  | cons np chain ih =>
      by_cases hnp : np.1 = key
      · simp [setFirst, hnp]
      · simp [setFirst, hnp, ih]

theorem dput_wellFormed {dic : Dictionary α} (h : dic.WellFormed) (key : Bytes) (value : α) :
    (dput dic key value).WellFormed := by
  have hhome := h.home (hash key dHashSize)
  have hdistinct := h.distinct (hash key dHashSize)
  refine h.update ?_ ?_
  · intro np hnp
    split at hnp
    · have hmem : np.1 ∈ keys (dic.chain (hash key dHashSize)) := by
        rw [← keys_setFirst key value]
        exact mem_keys_of_mem hnp
      obtain ⟨np', hnp', heq⟩ := List.mem_map.mp hmem
      rw [← heq]
      exact hhome np' hnp'
    · rcases List.mem_cons.mp hnp with rfl | hnp
      · rfl
      · exact hhome np hnp
  · split
    · rw [keys_setFirst]
      exact hdistinct
    · rename_i hnone
      have hnew : lookup (dic.chain (hash key dHashSize)) key = none :=
        Option.not_isSome_iff_eq_none.mp hnone
      rw [keys_cons]
      exact List.nodup_cons.mpr ⟨lookup_eq_none_iff.mp hnew, hdistinct⟩

/-! ## dremove -/

/-- Unlinking behind a head with another key drops the first cell with the key. -/
theorem unlinkNext_cons {np : Bytes × α} {key : Bytes} (hnp : np.1 ≠ key)
    (chain : List (Bytes × α)) :
    unlinkNext key (np :: chain) =
      if key ∈ keys chain then some (np :: chain.eraseP fun np => np.1 = key) else none := by
  induction chain generalizing np with
  | nil => rfl
  | cons next chain ih =>
      by_cases hnext : next.1 = key
      · simp [unlinkNext, hnext]
      · rw [unlinkNext, if_neg hnext, ih hnext]
        by_cases hmem : key ∈ keys chain
        · simp [hmem, hnext]
        · simp [hmem, Ne.symm hnext]

/-- What `dremove` does to the chain of the key, and when it says so. -/
theorem dremove_eq (dic : Dictionary α) (key : Bytes) :
    dremove dic key =
      if (dvalue dic key).isSome then
        (1, ⟨Function.update dic.chain (hash key dHashSize)
          ((dic.chain (hash key dHashSize)).eraseP fun np => np.1 = key)⟩)
      else (0, dic) := by
  have hbound : (dvalue dic key).isSome ↔ key ∈ keys (dic.chain (hash key dHashSize)) := by
    rw [Option.isSome_iff_ne_none, dvalue_eq_lookup, Ne, lookup_eq_none_iff, not_not]
  simp only [dremove]
  cases hchain : dic.chain (hash key dHashSize) with
  | nil =>
      rw [hchain] at hbound
      simp [hbound]
  | cons np chain =>
      rw [hchain, keys_cons, List.mem_cons] at hbound
      by_cases hnp : np.1 = key
      · simp [hbound, hnp]
      · simp only [hnp, if_false, unlinkNext_cons hnp, hbound, Ne.symm hnp, false_or]
        by_cases hmem : key ∈ keys chain
        · simp [hmem, hnp]
        · simp [hmem]

theorem dremove_wellFormed {dic : Dictionary α} (h : dic.WellFormed) (key : Bytes) :
    (dremove dic key).2.WellFormed := by
  rw [dremove_eq]
  split
  · refine h.update ?_ (keys_nodup_eraseP (h.distinct _) _)
    intro np hnp
    exact h.home _ np (List.mem_of_mem_eraseP hnp)
  · exact h

theorem dvalue_dremove_self {dic : Dictionary α} (h : dic.WellFormed) (key : Bytes) :
    dvalue (dremove dic key).2 key = none := by
  rw [dremove_eq]
  split
  · simp only [dvalue_eq_lookup, Function.update_self]
    exact lookup_eraseP_self (h.distinct _) key
  · rename_i hnone
    simpa using hnone

theorem dvalue_dremove_ne (dic : Dictionary α) {key key' : Bytes} (hne : key' ≠ key) :
    dvalue (dremove dic key).2 key' = dvalue dic key' := by
  rw [dremove_eq]
  split
  · simp only [dvalue_eq_lookup]
    by_cases hchain : hash key' dHashSize = hash key dHashSize
    · rw [hchain, Function.update_self]
      exact lookup_eraseP_ne _ hne
    · rw [Function.update_of_ne hchain]
  · rfl

/-! ## for_each_assoc -/

theorem mem_forEachAssoc {dic : Dictionary α} (h : dic.WellFormed) {key : Bytes} {value : α} :
    (key, value) ∈ forEachAssoc dic ↔ dvalue dic key = some value := by
  have hlookup : lookup (dic.chain (hash key dHashSize)) key = some value ↔
      (key, value) ∈ dic.chain (hash key dHashSize) :=
    lookup_eq_some_iff (h.distinct (hash key dHashSize))
  rw [forEachAssoc, List.mem_flatMap]
  constructor
  · rintro ⟨i, -, hi⟩
    have hhome := h.home i _ hi
    exact hlookup.mpr (hhome ▸ hi)
  · intro hvalue
    refine ⟨hash key dHashSize, ?_, hlookup.mp hvalue⟩
    have hlt := hash_lt_dHashSize key
    have hle : dHashSize ≤ hashSize := by decide
    exact List.mem_range.mpr (by omega)

/-- No key is visited twice: neither in its own chain nor in two. -/
theorem keys_forEachAssoc_nodup {dic : Dictionary α} (h : dic.WellFormed) :
    (keys (forEachAssoc dic)).Nodup := by
  have hkeys : keys (forEachAssoc dic) =
      (List.range hashSize).flatMap fun i => keys (dic.chain i) := by
    simp only [keys, forEachAssoc, List.map_flatMap]
  rw [hkeys, List.nodup_flatMap]
  refine ⟨fun i _ => h.distinct i, ?_⟩
  refine (List.nodup_range).imp ?_
  intro i j hij key hi hj
  obtain ⟨np, hnp, rfl⟩ := List.mem_map.mp hi
  obtain ⟨np', hnp', heq⟩ := List.mem_map.mp hj
  apply hij
  rw [← h.home i np hnp, ← h.home j np' hnp', heq]

/-! ## Whole sequences of calls -/

/-- The dictionary after a call, whatever it returns. -/
def dictCall (dic : Dictionary α) : Update Bytes α → Dictionary α
  | .put key value => dput dic key value
  | .remove key => (dremove dic key).2

def dictCalls (calls : List (Update Bytes α)) : Dictionary α := calls.foldl dictCall dict

theorem dictCall_wellFormed {dic : Dictionary α} (h : dic.WellFormed) (call : Update Bytes α) :
    (dictCall dic call).WellFormed := by
  cases call with
  | put key value => exact dput_wellFormed h key value
  | remove key => exact dremove_wellFormed h key

/-- One call does to the lookups what its update does to the map. -/
theorem dvalue_dictCall {dic : Dictionary α} (h : dic.WellFormed) (call : Update Bytes α) :
    dvalue (dictCall dic call) = call.apply (dvalue dic) := by
  funext key
  by_cases hkey : key = call.key
  · subst hkey
    rw [Update.apply, Function.update_self]
    cases call with
    | put key value => exact dvalue_dput_self dic key value
    | remove key => exact dvalue_dremove_self h key
  · rw [Update.apply, Function.update_of_ne hkey]
    cases call with
    | put key' value => exact dvalue_dput_ne dic value hkey
    | remove key' => exact dvalue_dremove_ne dic hkey

theorem foldl_dictCall (calls : List (Update Bytes α)) {dic : Dictionary α} (h : dic.WellFormed) :
    (calls.foldl dictCall dic).WellFormed ∧
      dvalue (calls.foldl dictCall dic) = calls.foldl Update.apply (dvalue dic) := by
  induction calls generalizing dic with
  | nil => exact ⟨h, rfl⟩
  | cons call calls ih =>
      have hstep := ih (dictCall_wellFormed h call)
      rw [dvalue_dictCall h call] at hstep
      exact hstep

theorem dictCalls_wellFormed (calls : List (Update Bytes α)) : (dictCalls calls).WellFormed :=
  (foldl_dictCall calls dict_wellFormed).1

theorem dvalue_dictCalls (calls : List (Update Bytes α)) :
    dvalue (dictCalls calls) = calls.foldl Update.apply (fun _ => none) :=
  (foldl_dictCall calls dict_wellFormed).2

/-- After any calls a lookup gives the last put that no removal followed, `dremove`
reports exactly the keys it finds and keeps the other bindings, and the
enumeration visits each binding once and nothing else. -/
theorem dictCalls_refines_map (calls : List (Update Bytes α)) :
    (∀ key value, dvalue (dictCalls calls) key = some value ↔
      ∃ before after, calls = before ++ .put key value :: after ∧ ∀ c ∈ after, c.key ≠ key) ∧
    (∀ key,
      (dremove (dictCalls calls) key).1 =
          (if (dvalue (dictCalls calls) key).isSome then 1 else 0) ∧
        dvalue (dremove (dictCalls calls) key).2 key = none ∧
        ∀ key', key' ≠ key →
          dvalue (dremove (dictCalls calls) key).2 key' = dvalue (dictCalls calls) key') ∧
    (keys (forEachAssoc (dictCalls calls))).Nodup ∧
    ∀ key value, (key, value) ∈ forEachAssoc (dictCalls calls) ↔
      dvalue (dictCalls calls) key = some value := by
  have hwf := dictCalls_wellFormed calls
  refine ⟨?_, ?_, keys_forEachAssoc_nodup hwf, fun key value => mem_forEachAssoc hwf⟩
  · intro key value
    rw [dvalue_dictCalls]
    exact foldl_apply_eq_some_iff calls
  · intro key
    refine ⟨?_, dvalue_dremove_self hwf key, fun key' hne => dvalue_dremove_ne _ hne⟩
    rw [dremove_eq]
    split <;> rfl

end STRos
