import STRos.Lib.Runs
import STRos.Lists.Sequence
import STRos.Rpc.Trees

/-! # The tokens of split

The loop of `split` puts one item for each maximal part of the text without delimiters. The
NIL cell it starts from is left behind by the first of them, and is what a text without
tokens is recognised by.
-/

namespace STRos.Cells

open CString Memory Runs

/-! ## The loop -/

def isDelim (delim : Bytes) (c : Byte) : Bool := decide (c ∈ delim)

theorem isDelim_iff {delim : Bytes} {c : Byte} : isDelim delim c = true ↔ c ∈ delim :=
  decide_eq_true_iff

theorem isDelim_false {delim : Bytes} {c : Byte} : isDelim delim c = false ↔ c ∉ delim :=
  decide_eq_false_iff_not

theorem strsepSet_free {delim w : Bytes} (hw : ∀ c ∈ w, c ∉ delim) :
    strsepSet delim w = (w, none) := by
  have hall : w.takeWhile (· ∉ delim) = w :=
    List.takeWhile_eq_self_iff.mpr fun c hc => decide_eq_true (hw c hc)
  rw [strsepSet, hall, List.drop_length]

theorem strsepSet_split {delim w : Bytes} (hw : ∀ c ∈ w, c ∉ delim) {d : Byte} (hd : d ∈ delim)
    (r : Bytes) : strsepSet delim (w ++ d :: r) = (w, some r) := by
  have hfirst : (w ++ d :: r).takeWhile (· ∉ delim) = w := by
    rw [List.takeWhile_append_of_pos fun c hc => decide_eq_true (hw c hc),
      List.takeWhile_cons_of_neg (by simpa using hd), List.append_nil]
  rw [strsepSet, hfirst, List.drop_left]

/-- The loop puts the tokens, one after another. -/
theorem splitLoop_eq (malloc : Allocator Cell) (delim s : Bytes) (h : CellHeap) (l : Ptr) :
    splitLoop malloc delim h l (some s) =
      runPuts malloc h l ((tokens delim s).map Put.special) := by
  induction s using split_induction (isDelim delim) generalizing h l with
  | free w hw =>
      have hfree : ∀ c ∈ w, c ∉ delim := fun c hc => isDelim_false.mp (hw c hc)
      rw [splitLoop, strsepSet_free hfree]
      by_cases hne : w = []
      · subst hne
        rw [if_neg (by simp), splitLoop, tokens_nil]
        rfl
      · rw [if_pos (List.length_pos_iff.mpr hne), tokens_of_delimFree hfree hne]
        simp only [List.map_singleton, runPuts]
        cases hput : listPutSpecial malloc h l w with
        | error e => simp only [Put.call, hput, bind, Except.bind]
        | ok r => simp only [Put.call, hput, bind, Except.bind, splitLoop]
  | split w d r hw hd ih =>
      have hfree : ∀ c ∈ w, c ∉ delim := fun c hc => isDelim_false.mp (hw c hc)
      have hdelim : d ∈ delim := isDelim_iff.mp hd
      rw [splitLoop, strsepSet_split hfree hdelim]
      by_cases hne : w = []
      · subst hne
        rw [if_neg (by simp), ih, List.nil_append, tokens_cons_delim hdelim]
      · rw [if_pos (List.length_pos_iff.mpr hne), tokens_append_cons hfree hne hdelim]
        simp only [List.map_cons, runPuts]
        cases hput : listPutSpecial malloc h l w with
        | error e => simp only [Put.call, hput, bind, Except.bind]
        | ok r => simp only [Put.call, hput, bind, Except.bind, ih]

/-- The tokens are the maximal parts without delimiters. -/
theorem map_runs_tokens (delim s : Bytes) :
    (runs (isDelim delim) s).map Prod.snd = tokens delim s := by
  rw [map_runs, tokens, pieces]
  congr 1
  funext t
  cases t with
  | nil => rfl
  | cons c t => simp

/-! ## The kinds of tokens -/

/-- `[-+]?[0-9]+` -/
def IntForm (t : Bytes) : Prop := ∃ n, DecimalText t n

/-- `[-+]?[0-9]*[.][0-9]+` -/
def FloatForm (t : Bytes) : Prop :=
  ∃ sign whole frac : Bytes, t = sign ++ whole ++ 46 :: frac ∧
    (sign = [] ∨ sign = [43] ∨ sign = [45]) ∧ whole.all isDigit = true ∧ frac ≠ [] ∧
    frac.all isDigit = true

theorem afterSign_of_digit {b : Byte} {t : Bytes} (hb : b ≠ 43 ∧ b ≠ 45) :
    afterSign (b :: t) = b :: t := by
  unfold afterSign
  split
  · rename_i heq
    exact absurd (List.cons.inj heq).1 hb.1
  · rename_i heq
    exact absurd (List.cons.inj heq).1 hb.2
  · rfl

/-- A text is a sign or nothing, and what `afterSign` leaves. -/
theorem sign_append_afterSign (t : Bytes) :
    ∃ sign, (sign = [] ∨ sign = [43] ∨ sign = [45]) ∧ t = sign ++ afterSign t := by
  unfold afterSign
  split
  · exact ⟨[43], by simp, rfl⟩
  · exact ⟨[45], by simp, rfl⟩
  · exact ⟨[], by simp, rfl⟩

theorem digit_not_sign {b : Byte} (hb : isDigit b = true) : b ≠ 43 ∧ b ≠ 45 := by
  constructor
  · rintro rfl
    exact absurd hb (by decide)
  · rintro rfl
    exact absurd hb (by decide)

theorem matchInt_iff (t : Bytes) : matchInt t = true ↔ IntForm t := by
  have hmatch : matchInt t = true ↔ afterSign t ≠ [] ∧ (afterSign t).all isDigit = true := by
    simp [matchInt]
  rw [hmatch]
  constructor
  · rintro ⟨hne, hdigits⟩
    obtain ⟨sign, hsign, ht⟩ := sign_append_afterSign t
    rw [IntForm, ht]
    rcases hsign with rfl | rfl | rfl
    · exact ⟨_, .plain hne hdigits⟩
    · exact ⟨_, .plus hne hdigits⟩
    · exact ⟨_, .minus hne hdigits⟩
  · rintro ⟨n, hn⟩
    cases hn with
    | plain ne digits =>
        cases t with
        | nil => exact absurd rfl ne
        | cons b t =>
            have hb : isDigit b = true := List.all_eq_true.mp digits b List.mem_cons_self
            rw [afterSign_of_digit (digit_not_sign hb)]
            exact ⟨ne, digits⟩
    | plus ne digits => exact ⟨ne, digits⟩
    | minus ne digits => exact ⟨ne, digits⟩

theorem dropWhile_digits {whole : Bytes} (h : whole.all isDigit = true) (frac : Bytes) :
    (whole ++ 46 :: frac).dropWhile isDigit = 46 :: frac := by
  rw [List.dropWhile_append_of_pos fun b hb => List.all_eq_true.mp h b hb]
  rfl

theorem afterSign_point {whole : Bytes} (h : whole.all isDigit = true) (frac : Bytes) :
    afterSign (whole ++ 46 :: frac) = whole ++ 46 :: frac := by
  cases whole with
  | nil => rfl
  | cons b whole =>
      have hb : isDigit b = true := List.all_eq_true.mp h b List.mem_cons_self
      exact afterSign_of_digit (digit_not_sign hb)

theorem matchFloat_iff (t : Bytes) : matchFloat t = true ↔ FloatForm t := by
  constructor
  · intro hmatch
    obtain ⟨sign, hsign, ht⟩ := sign_append_afterSign t
    have hsplit := List.takeWhile_append_dropWhile (p := isDigit) (l := afterSign t)
    have hwhole : ((afterSign t).takeWhile isDigit).all isDigit = true := List.all_takeWhile
    unfold matchFloat at hmatch
    split at hmatch
    · rename_i frac hfrac
      rw [hfrac] at hsplit
      simp only [ne_eq, Bool.and_eq_true, decide_eq_true_eq] at hmatch
      refine ⟨sign, _, frac, ?_, hsign, hwhole, hmatch.1, hmatch.2⟩
      rw [List.append_assoc, hsplit]
      exact ht
    · cases hmatch
  · rintro ⟨sign, whole, frac, rfl, hsign, hwhole, hne, hfrac⟩
    have hafter : afterSign (sign ++ whole ++ 46 :: frac) = whole ++ 46 :: frac := by
      rcases hsign with rfl | rfl | rfl
      · exact afterSign_point hwhole frac
      · rfl
      · rfl
    rw [matchFloat, hafter, dropWhile_digits hwhole]
    simp [hne, hfrac]

theorem not_intForm_of_floatForm {t : Bytes} (h : FloatForm t) : ¬ IntForm t := by
  intro hint
  rw [← matchInt_iff] at hint
  rw [← matchFloat_iff] at h
  have hdigits : (afterSign t).all isDigit = true := by
    simp only [matchInt, Bool.and_eq_true] at hint
    exact hint.2
  have hnone : (afterSign t).dropWhile isDigit = [] :=
    List.dropWhile_eq_nil_iff.mpr fun b hb => List.all_eq_true.mp hdigits b hb
  rw [matchFloat, hnone] at h
  cases h

/-- The value of the cell for a token. -/
structure TokenValue (t : Bytes) (value : CellValue) : Prop where
  int : IntForm t → ∃ i, value = .int i ∧
    ∀ n, DecimalText t n → -2147483648 ≤ n ∧ n < 2147483648 → i.toInt = n
  double : FloatForm t → value = .double (atof t)
  string : ¬ IntForm t → ¬ FloatForm t → value = .string t

theorem tokenValue_specialValue (t : Bytes) : TokenValue t (specialValue t) where
  int h := by
    rw [specialValue, if_pos ((matchInt_iff t).mpr h)]
    exact ⟨atoi t, rfl, fun n hn hrange => atoi_decimalText hn hrange⟩
  double h := by
    have hint : ¬ matchInt t = true := fun hmatch =>
      not_intForm_of_floatForm h ((matchInt_iff t).mp hmatch)
    rw [specialValue, if_neg hint, if_pos ((matchFloat_iff t).mpr h)]
  string hint hfloat := by
    rw [specialValue, if_neg (mt (matchInt_iff t).mp hint),
      if_neg (mt (matchFloat_iff t).mp hfloat)]

/-! ## The result -/

theorem tokens_eq_nil_iff {delim s : Bytes} : tokens delim s = [] ↔ ∀ c ∈ s, c ∈ delim := by
  induction s using split_induction (isDelim delim) with
  | free w hw =>
      have hfree : ∀ c ∈ w, c ∉ delim := fun c hc => isDelim_false.mp (hw c hc)
      cases w with
      | nil => simp
      | cons c w =>
          rw [tokens_of_delimFree hfree (List.cons_ne_nil c w)]
          constructor
          · intro h
            cases h
          · intro h
            exact absurd (h c List.mem_cons_self) (hfree c List.mem_cons_self)
  | split w d r hw hd ih =>
      have hfree : ∀ c ∈ w, c ∉ delim := fun c hc => isDelim_false.mp (hw c hc)
      have hdelim : d ∈ delim := isDelim_iff.mp hd
      cases w with
      | nil =>
          rw [List.nil_append, tokens_cons_delim hdelim, ih, List.forall_mem_cons]
          exact ⟨fun h => ⟨hdelim, h⟩, fun h => h.2⟩
      | cons c w =>
          rw [tokens_append_cons hfree (List.cons_ne_nil c w) hdelim]
          constructor
          · intro h
            cases h
          · intro h
            exact absurd (h c List.mem_cons_self) (hfree c List.mem_cons_self)

/-- `split` is a fresh list with the tokens, or NULL when there is none. -/
theorem split_chain (malloc : Allocator Cell) (h : CellHeap) (s delim : Bytes) :
    ∃ h' l xs, split malloc h (some s) (some delim) = .ok (h', l) ∧ Chain h' l xs ∧
      xs.map Prod.snd = (tokens delim s).map specialValue := by
  have hloop := splitLoop_eq malloc delim s (listInit malloc h).1 (listInit malloc h).2
  cases htokens : tokens delim s with
  | nil =>
      rw [htokens] at hloop
      have hcell : (listInit malloc h).1.cell (malloc.address h) = some ⟨.nil, none⟩ :=
        Heap.put_self _ _ _
      refine ⟨(listInit malloc h).1, none, [], ?_, .null, rfl⟩
      simp only [split]
      rw [hloop]
      simp only [List.map_nil, runPuts, bind, Except.bind, listInit, listItem,
        Allocator.alloc] at hcell ⊢
      rw [deref_of_cell hcell]
      rfl
  | cons t ts =>
      have hfresh : Built malloc (listInit malloc h).1 (listInit malloc h).2 [] := .init h
      obtain ⟨h', l, hrun, hbuilt⟩ := hfresh.runPuts ((tokens delim s).map Put.special)
      obtain ⟨xs, hchain, hvalues⟩ := hbuilt.holds
      have hmap : (([] : List Put) ++ (tokens delim s).map Put.special).map Put.value =
          (tokens delim s).map specialValue := by
        rw [List.nil_append, List.map_map]
        rfl
      rw [hmap, htokens] at hvalues
      have hne : emptyChain xs = false := by
        rw [Bool.eq_false_iff]
        intro hempty
        rw [kept, hempty, if_pos rfl] at hvalues
        cases hvalues
      rw [kept, hne, if_neg Bool.false_ne_true] at hvalues
      refine ⟨h', l, xs, ?_, hchain, hvalues⟩
      cases hchain with
      | null => cases hne
      | node hp hrest =>
          simp only [split]
          rw [hloop, hrun]
          simp only [bind, Except.bind, deref_of_cell hp]
          rw [if_neg (by rw [show CellValue.isNil _ = false from hne]; decide)]
          rfl

/-- `split` gives the maximal parts of a text without delimiters, each as the item its form
says, and NULL for a text that has none. -/
theorem split_tokenises (malloc : Allocator Cell) (h : CellHeap) (s delim : Bytes) :
    ∃ h' l, split malloc h (some s) (some delim) = .ok (h', l) ∧
      (l = none ↔ ∀ c ∈ s, c ∈ delim) ∧
      ∃ (found : List (Nat × Bytes)) (xs : List (Nat × CellValue)),
        found.Pairwise (fun p q => p.1 < q.1) ∧
        (∀ k t, (k, t) ∈ found ↔ MaximalRun (isDelim delim) s k t) ∧
        Chain h' l xs ∧ List.Forall₂ (fun r x => TokenValue r.2 x.2) found xs := by
  obtain ⟨h', l, xs, hsplit, hchain, hvalues⟩ := split_chain malloc h s delim
  rw [← map_runs_tokens] at hvalues
  refine ⟨h', l, hsplit, ?_, runs (isDelim delim) s, xs, runs_sorted s, fun k t => mem_runs,
    hchain, ?_⟩
  · rw [← tokens_eq_nil_iff, ← map_runs_tokens]
    constructor
    · rintro rfl
      cases hchain
      exact List.map_eq_nil_iff.mp hvalues.symm
    · intro hnone
      rw [hnone, List.map_nil, List.map_eq_nil_iff] at hvalues
      rw [hvalues] at hchain
      exact Chain.nil_iff.mp hchain
  · rw [List.map_map] at hvalues
    rw [← List.forall₂_eq_eq_eq, List.forall₂_map_left_iff, List.forall₂_map_right_iff] at hvalues
    apply List.Forall₂.flip
    apply hvalues.imp
    intro x r hx
    rw [flip, hx]
    exact tokenValue_specialValue r.2

end STRos.Cells
