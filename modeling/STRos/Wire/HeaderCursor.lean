import STRos.Wire.HeaderWriter

/-! # The field loop of the header reader

The loop is followed on a header cut at the cursor: what it has passed, and
what is left of the body and of the buffer behind the body. A field is read as
at most one `key=value` pair, so one turn changes at most one of the three
pointers.
-/

namespace STRos

open CString

abbrev eqSign : Byte := 61

theorem str_eq : str "=" = [eqSign] := by decide

/-! ## One field -/

theorem wordlike_of_specialItem {t s : Bytes} (h : specialItem t = .string s) : Wordlike t := by
  unfold specialItem at h
  split at h
  · cases h
  · split at h
    · cases h
    · exact ⟨by simpa using ‹¬ matchInt t = true›, by simpa using ‹¬ matchFloat t = true›⟩

theorem listSize_split (t delim : Bytes) : listSize (split t delim) = (tokens delim t).length := by
  rw [listSize_eq, contents_of_proper (split_proper t delim), split_eq, List.length_map]

variable {spare : Bool} {st st' : HeaderFields}

theorem valueS_specialItem {t s : Bytes} (h : valueS (some (specialItem t)) = .ok s) :
    specialItem t = .string t ∧ s = t := by
  unfold specialItem at h ⊢
  split at h
  · cases h
  · split at h
    · cases h
    · rw [if_neg ‹_›, if_neg ‹_›]
      exact ⟨rfl, (Except.ok.inj h).symm⟩

theorem takenS_string (spare : Bool) (s : Bytes) : takenS spare (.string s) = some (.string s) :=
  rfl

theorem valueS_takenS {t s : Bytes} (h : valueS (takenS spare (specialItem t)) = .ok s) :
    Wordlike t ∧ s = t := by
  unfold specialItem at h
  split at h
  · simp only [takenS] at h
    split at h
    · cases h
    · cases h
  · split at h
    · simp only [takenS] at h
      split at h
      · cases h
      · cases h
    · rw [takenS_string] at h
      exact ⟨⟨by simpa using ‹¬ matchInt t = true›, by simpa using ‹¬ matchFloat t = true›⟩,
        (Except.ok.inj h).symm⟩

theorem split_of_tokens {t k v : Bytes} (h : tokens [eqSign] t = [k, v]) :
    split t (str "=") = [specialItem k, specialItem v] := by
  rw [split_eq, str_eq, h]
  rfl

theorem listSize_pair (k v : Bytes) : listSize [specialItem k, specialItem v] = 2 := by
  simp [listSize, specialItem_isNil k]

theorem listAt_pair_key (k v : Bytes) :
    listAt [specialItem k, specialItem v] 0 = some (specialItem k) := by
  simp [listAt, listSize_pair]

theorem listAt_pair_value (k v : Bytes) :
    listAt [specialItem k, specialItem v] 1 = some (specialItem v) := by
  simp [listAt, listSize_pair]

def HeaderFields.put (st : HeaderFields) (key : Bytes) (val : Option Item) : HeaderFields :=
  if key = str "topic" then { st with topic := val }
  else if key = str "md5sum" then { st with md5sum := val }
  else if key = str "type" then { st with msgtype := val }
  else st

theorem noteField_skip {t : Bytes} (h : (tokens [eqSign] t).length ≠ 2) :
    noteField spare (split t (str "=")) st = .ok st := by
  simp [noteField, listSize_split, str_eq, h]

theorem noteField_word {t k v : Bytes} (ht : tokens [eqSign] t = [k, v]) (hk : Wordlike k) :
    noteField spare (split t (str "=")) st = .ok (st.put k (takenS spare (specialItem v))) := by
  rw [split_of_tokens ht]
  simp only [noteField, listSize_pair, listAt_pair_key, listAt_pair_value, ne_eq,
    not_true_eq_false, if_false, Option.bind_some]
  simp only [specialItem_of_wordlike hk, valueS, bind, Except.bind, pure, Except.pure,
    HeaderFields.put]
  split
  · rfl
  · split
    · rfl
    · split
      · rfl
      · rfl

/-- What a field can do: nothing, or set the pointer of its key. -/
theorem noteField_cases {t : Bytes} (h : noteField spare (split t (str "=")) st = .ok st') :
    ((tokens [eqSign] t).length ≠ 2 ∧ st' = st) ∨ ∃ k v, tokens [eqSign] t = [k, v] ∧
      Wordlike k ∧ st' = st.put k (takenS spare (specialItem v)) := by
  by_cases hlen : (tokens [eqSign] t).length = 2
  · obtain ⟨k, v, hkv⟩ := List.length_eq_two.mp hlen
    have hk : Wordlike k := by
      rw [split_of_tokens hkv] at h
      simp only [noteField, listSize_pair, listAt_pair_key, ne_eq, not_true_eq_false,
        if_false] at h
      obtain ⟨key, hkey, -⟩ := bind_eq_ok.mp h
      exact wordlike_of_specialItem (valueS_specialItem hkey).1
    rw [noteField_word hkv hk] at h
    cases h
    exact Or.inr ⟨k, v, hkv, hk, rfl⟩
  · rw [noteField_skip hlen] at h
    cases h
    exact Or.inl ⟨hlen, rfl⟩

theorem noteField_other {k v : Bytes} {t : Bytes} (ht : tokens [eqSign] t = [k, v])
    (hk : Wordlike k) (hne : k ≠ str "topic") (hne' : k ≠ str "md5sum") (hne'' : k ≠ str "type") :
    noteField spare (split t (str "=")) st = .ok st := by
  rw [noteField_word ht hk, HeaderFields.put, if_neg hne, if_neg hne', if_neg hne'']

theorem noteField_pair {k v : Bytes} (hk : Wordlike k) (hv : Wordlike v) (hkne : k ≠ [])
    (hvne : v ≠ []) (hkeq : eqSign ∉ k) (hveq : eqSign ∉ v) :
    noteField spare (split (k ++ eqSign :: v) (str "=")) st =
      .ok (st.put k (some (.string v))) := by
  have htok : tokens [eqSign] (k ++ eqSign :: v) = [k, v] := by
    rw [tokens_append_cons (fun b hb => by simp; rintro rfl; exact hkeq hb) hkne (by simp),
      tokens_of_delimFree (fun b hb => by simp; rintro rfl; exact hveq hb) hvne]
  rw [noteField_word htok hk, specialItem_of_wordlike hv, takenS_string]

/-- A pair read from a field inside a text: the key ends right before a
separator of the text, and the value lies between it and the field's end. -/
theorem pair_at {text x t z k v : Bytes} (htext : x ++ t ++ z = text)
    (h : tokens [eqSign] t = [k, v]) :
    ∃ p r, p ++ k ++ eqSign :: (r ++ z) = text ∧ v <:+: r ∧ v ≠ [] ∧ eqSign ∉ k ∧ k <:+: t := by
  obtain ⟨-, hk, i, ⟨-, hts⟩ | ⟨r, rfl, hts⟩⟩ := tokens_eq_cons h
  · cases hts
  · have hv := tokens_eq_cons hts.symm
    refine ⟨x ++ List.replicate i eqSign, r, ?_, tokens_singleton_infix hts.symm, hv.1, hk, ?_⟩
    · simpa using htext
    · exact ⟨List.replicate i eqSign, eqSign :: r, by simp⟩

/-- The separator behind a key is the first one of the text or a later one. -/
theorem key_cases {p k y a b : Bytes} (hk : eqSign ∉ k) (ha : eqSign ∉ a)
    (h : p ++ k ++ eqSign :: y = a ++ eqSign :: b) :
    (k <:+ a ∧ y = b) ∨ ∃ p', p' ++ k ++ eqSign :: y = b := by
  rcases cut_cases ha h with ⟨rfl, rfl⟩ | ⟨x', hx, rfl⟩
  · exact Or.inl ⟨List.suffix_append p k, rfl⟩
  · refine Or.inr ?_
    -- The key holds no separator, so it ends behind the one after `a`.
    rcases List.append_eq_append_iff.mp hx with ⟨as, -, has⟩ | ⟨bs, -, hbs⟩
    · exact absurd (has ▸ (by simp : eqSign ∈ as ++ eqSign :: x')) hk
    · cases bs with
      | nil =>
          simp only [List.nil_append] at hbs
          exact absurd (hbs ▸ (by simp : eqSign ∈ eqSign :: x')) hk
      | cons c bs =>
          simp only [List.cons_append, List.cons.injEq] at hbs
          exact ⟨bs, by rw [← hbs.2]⟩

theorem key_suffix {p k y a b : Bytes} (hk : eqSign ∉ k) (ha : eqSign ∉ a) (hb : eqSign ∉ b)
    (h : p ++ k ++ eqSign :: y = a ++ eqSign :: b) : k <:+ a ∧ y = b := by
  rcases key_cases hk ha h with hkey | ⟨p', rfl⟩
  · exact hkey
  · exact absurd (by simp) hb

/-! ## One turn of the loop -/

section Loop

variable {spare : Nat → Bool} {hsize : Int} {pre rest : Bytes} {c : Byte} {st : HeaderFields}

theorem verifyFields_end {header : Bytes} {ptr : Nat} (h : hsize ≤ ptr) :
    verifyFields spare header hsize ptr st = .ok st := by
  rw [verifyFields]
  simp [show ¬ (ptr : Int) < hsize by omega]

theorem verifyFields_complete {header : Bytes} {ptr : Nat} (h : st.complete = true) :
    verifyFields spare header hsize ptr st = .ok st := by
  rw [verifyFields]
  simp [h]

theorem verifyFields_at (hst : st.complete = false) (hp : (pre.length : Int) < hsize) :
    verifyFields spare (pre ++ c :: rest) hsize pre.length st =
      match memcpyFrom (pre ++ c :: rest) (pre.length + 4) (schar c) with
      | .error e => .error e
      | .ok field =>
          match noteField (spare pre.length) (split (cstr field) (str "=")) st with
          | .error e => .error e
          | .ok st' => verifyFields spare (pre ++ c :: rest) hsize
            (pre.length + 4 + (schar c).toNat) st'
    := by
  have hat : (pre ++ c :: rest)[pre.length]? = some c := by simp
  cases hfield : memcpyFrom (pre ++ c :: rest) (pre.length + 4) (schar c) with
  | error e =>
      rw [verifyFields]
      simp only [hst, hp, and_self, if_true, hat, hfield]
  | ok field =>
      rw [verifyFields]
      cases hnote : noteField (spare pre.length) (split (cstr field) (str "=")) st with
      | error e => simp only [hst, hp, and_self, if_true, hat, hfield, hnote]
      | ok st' => simp only [hst, hp, and_self, if_true, hat, hfield, hnote]

/-- A turn that returns has read a field inside the buffer, and went on behind it. -/
theorem verifyFields_turn {r : HeaderFields} (hst : st.complete = false)
    (hp : (pre.length : Int) < hsize)
    (h : verifyFields spare (pre ++ c :: rest) hsize pre.length st = .ok r) :
    ∃ n : Nat, schar c = n ∧ (n = 0 ∨ n + 3 ≤ rest.length) ∧
      ∃ st', noteField (spare pre.length) (split (cstr ((rest.drop 3).take n)) (str "=")) st =
          .ok st' ∧
        verifyFields spare (pre ++ c :: rest) hsize (pre.length + 4 + n) st' = .ok r := by
  rw [verifyFields_at hst hp] at h
  cases hm : memcpyFrom (pre ++ c :: rest) (pre.length + 4) (schar c) with
  | error e => simp [hm] at h
  | ok field =>
      obtain ⟨n, hn, hlen, rfl⟩ := memcpyFrom_eq_ok hm
      simp only [List.length_append, List.length_cons] at hlen
      have hdrop : (pre ++ c :: rest).drop (pre.length + 4) = rest.drop 3 := by
        rw [List.drop_append, List.drop_of_length_le (by omega)]
        simp
      rw [hdrop] at hm
      simp only [hm] at h
      simp only [hn, Int.toNat_natCast] at h
      refine ⟨n, hn, by omega, ?_⟩
      cases hnote : noteField (spare pre.length) (split (cstr ((rest.drop 3).take n))
          (str "=")) st with
      | error e => simp [hnote] at h
      | ok st' => exact ⟨st', rfl, by simpa [hnote] using h⟩

theorem verifyFields_step {n : Nat} {st' : HeaderFields} (hst : st.complete = false)
    (hp : (pre.length : Int) < hsize) (hn : schar c = n) (hlen : n = 0 ∨ n + 3 ≤ rest.length)
    (hnote : noteField (spare pre.length) (split (cstr ((rest.drop 3).take n)) (str "=")) st =
        .ok st') :
    verifyFields spare (pre ++ c :: rest) hsize pre.length st =
      verifyFields spare (pre ++ c :: rest) hsize (pre.length + 4 + n) st' := by
  have hdrop : (pre ++ c :: rest).drop (pre.length + 4) = rest.drop 3 := by
    rw [List.drop_append, List.drop_of_length_le (by omega)]
    simp
  have hm : memcpyFrom (pre ++ c :: rest) (pre.length + 4) n = .ok ((rest.drop 3).take n) := by
    rw [memcpyFrom_ok (by simp; omega), hdrop]
  rw [verifyFields_at hst hp, hn]
  simp only [hm, hnote, Int.toNat_natCast]

/-- The text of a field is behind its size and the three bytes that are skipped. -/
theorem field_text (skip text rest : Bytes) (hskip : skip.length = 3) :
    ((skip ++ (text ++ rest)).drop 3).take text.length = text := by
  rw [List.drop_left' hskip, List.take_left]

theorem verifyFields_field {t : Bytes} {st' : HeaderFields} (hst : st.complete = false)
    (hp : (pre.length : Int) < hsize) (ht : t.length < 128) (hfree : NulFree t)
    (hnote : noteField (spare pre.length) (split t (str "=")) st = .ok st') :
    verifyFields spare (pre ++ (lenPrefixed t ++ rest)) hsize pre.length st =
      verifyFields spare ((pre ++ lenPrefixed t) ++ rest) hsize
        (pre ++ lenPrefixed t).length st' := by
  have hshape : lenPrefixed t ++ rest = UInt8.ofNat t.length :: ([0, 0, 0] ++ (t ++ rest)) := by
    simp [lenPrefixed, le32_of_lt (show t.length < 256 by omega)]
  have hnote' : noteField (spare pre.length)
      (split (cstr ((([0, 0, 0] ++ (t ++ rest)).drop 3).take t.length)) (str "=")) st =
        .ok st' := by
    rw [field_text [0, 0, 0] t rest rfl, cstr_of_nulFree hfree]
    exact hnote
  rw [hshape, verifyFields_step hst hp (schar_ofNat ht) (Or.inr (by simp)) hnote', ← hshape]
  simp [lenPrefixed_length, Nat.add_assoc]

end Loop

end STRos
