import STRos.Lib.Runs
import STRos.Utils.Trim

/-! # Which extensions ext finds

The loop ends at the first token that is empty. Where it is the last one the token in front
of it is returned, and where it is not, `free` gets a pointer into the middle of the block.
-/

namespace STRos

open CString Runs

/-! ## The loop -/

def isDot (c : Byte) : Bool := decide (c ∈ [(46 : Byte)])

theorem isDot_iff {c : Byte} : isDot c = true ↔ c = 46 := by
  simp [isDot]

theorem isDot_false {c : Byte} : isDot c = false ↔ c ≠ 46 := by
  simp [isDot]

theorem strsepAt_free {w : Bytes} (hw : ∀ c ∈ w, isDot c = false) (place : Nat) :
    strsepAt place w = (w, none) := by
  have hdot : 46 ∉ w := fun hmem => isDot_false.mp (hw 46 hmem) rfl
  rw [strsepAt, strsep_none hdot]
  rfl

theorem strsepAt_split {w : Bytes} (hw : ∀ c ∈ w, isDot c = false) (place : Nat) (r : Bytes) :
    strsepAt place (w ++ 46 :: r) = (w, some (place + w.length + 1, r)) := by
  have hdot : 46 ∉ w := fun hmem => isDot_false.mp (hw 46 hmem) rfl
  rw [strsepAt, strsep_cons hdot]
  rfl

theorem dotFree {w : Bytes} (hw : ∀ c ∈ w, isDot c = false) : ∀ c ∈ w, c ∉ [(46 : Byte)] := by
  intro c hc
  exact of_decide_eq_false (hw c hc)

def dotPieces (s : Bytes) : List Bytes := s.splitOnP isDot

theorem dotPieces_free {w : Bytes} (hw : ∀ c ∈ w, isDot c = false) : dotPieces w = [w] :=
  List.splitOnP_eq_singleton hw

theorem dotPieces_split {w : Bytes} (hw : ∀ c ∈ w, isDot c = false) (r : Bytes) :
    dotPieces (w ++ 46 :: r) = w :: dotPieces r :=
  List.splitOnP_append_cons_of_forall_mem hw 46 rfl r

theorem dotPieces_ne_nil (s : Bytes) : dotPieces s ≠ [] := List.splitOnP_ne_nil isDot s

def GapFree (s : Bytes) : Prop := ∀ t ∈ (dotPieces s).dropLast, t ≠ []

def lastToken (ltoken s : Bytes) : Bytes := (tokens [46] s).getLast?.getD ltoken

theorem gapFree_free {w : Bytes} (hw : ∀ c ∈ w, isDot c = false) : GapFree w := by
  intro t ht
  rw [dotPieces_free hw] at ht
  cases ht

theorem gapFree_split {w : Bytes} (hw : ∀ c ∈ w, isDot c = false) (r : Bytes) :
    GapFree (w ++ 46 :: r) ↔ w ≠ [] ∧ GapFree r := by
  unfold GapFree
  rw [dotPieces_split hw, List.dropLast_cons_of_ne_nil (dotPieces_ne_nil r),
    List.forall_mem_cons]

theorem lastToken_free {w : Bytes} (hw : ∀ c ∈ w, isDot c = false) (ltoken : Bytes) :
    lastToken ltoken w = if w = [] then ltoken else w := by
  unfold lastToken
  by_cases hne : w = []
  · rw [if_pos hne, hne, tokens_nil]
    rfl
  · rw [if_neg hne, tokens_of_delimFree (dotFree hw) hne]
    rfl

theorem lastToken_split {w : Bytes} (hw : ∀ c ∈ w, isDot c = false) (hne : w ≠ [])
    (ltoken r : Bytes) : lastToken ltoken (w ++ 46 :: r) = lastToken w r := by
  unfold lastToken
  rw [tokens_append_cons (dotFree hw) hne (by simp), List.getLast?_cons]
  rfl

/-- Without an empty token in the middle the loop ends with the last one; otherwise it stops
behind the dot that follows the empty one. -/
theorem extLoop_cases (s ltoken : Bytes) (place : Nat) :
    (GapFree s → extLoop ltoken (some (place, s)) = (lastToken ltoken s, none)) ∧
      (¬ GapFree s →
        ∃ token q, extLoop ltoken (some (place, s)) = (token, some q) ∧ place < q) := by
  induction s using split_induction isDot generalizing ltoken place with
  | free w hw =>
      constructor
      · intro _
        rw [extLoop, strsepAt_free hw, lastToken_free hw]
        by_cases hne : w = []
        · rw [if_pos hne, hne, if_neg (by simp)]
          rfl
        · rw [if_neg hne, if_pos (List.length_pos_iff.mpr hne), extLoop]
      · intro hgap
        exact absurd (gapFree_free hw) hgap
  | split w d r hw hd ih =>
      obtain rfl := isDot_iff.mp hd
      rw [extLoop, strsepAt_split hw, gapFree_split hw]
      by_cases hne : w = []
      · constructor
        · intro hgap
          exact absurd hne hgap.1
        · intro _
          rw [hne, if_neg (by simp)]
          exact ⟨ltoken, place + 0 + 1, rfl, by omega⟩
      · obtain ⟨hfit, hgap⟩ := ih w (place + w.length + 1)
        rw [if_pos (List.length_pos_iff.mpr hne), lastToken_split hw hne]
        constructor
        · intro h
          exact hfit h.2
        · intro h
          obtain ⟨token, q, hloop, hq⟩ := hgap fun hr => h ⟨hne, hr⟩
          exact ⟨token, q, hloop, by omega⟩

/-! ## What is right -/

/-- The text behind the last dot of a name, none where there is no dot. -/
def extension (file : Bytes) : Bytes :=
  if 46 ∈ file then (file.reverse.takeWhile (· ≠ 46)).reverse else []

/-- A call returns the extension, and frees NULL or the start of its block at most. -/
def ExtRight (file : Bytes) : Prop :=
  ∃ call, ext (some file) = .ok call ∧ call.result = some (extension file) ∧
    ∀ p ∈ call.freed, p = none ∨ p = some 0

/-- The copy that the loop goes through has no empty token but perhaps the last one, and its
last token that is not empty is the extension of the name. -/
def CopyFits (file : Bytes) : Prop :=
  ∃ str_cpy, extCopy file = .ok str_cpy ∧ GapFree str_cpy ∧
    lastToken [] str_cpy = extension file

theorem extRight_iff_copyFits (file : Bytes) : ExtRight file ↔ 46 ∉ file ∨ CopyFits file := by
  by_cases hdot : 46 ∈ file
  · constructor
    · rintro ⟨call, hret, hresult, hfreed⟩
      rw [ext, if_neg (not_not_intro hdot)] at hret
      obtain ⟨str_cpy, hcopy, hret⟩ := bind_eq_ok.mp hret
      obtain ⟨hfit, hgap⟩ := extLoop_cases str_cpy [] 0
      refine Or.inr ⟨str_cpy, hcopy, ?_⟩
      by_cases hgaps : GapFree str_cpy
      · rw [hfit hgaps] at hret
        cases hret
        exact ⟨hgaps, Option.some.inj hresult⟩
      · obtain ⟨token, q, hloop, hq⟩ := hgap hgaps
        rw [hloop] at hret
        cases hret
        rcases hfreed (some q) List.mem_cons_self with hnone | hstart
        · cases hnone
        · cases hstart
          exact absurd hq (lt_irrefl _)
    · intro h
      obtain ⟨str_cpy, hcopy, hgaps, hlast⟩ := h.resolve_left (not_not_intro hdot)
      refine ⟨⟨some (lastToken [] str_cpy), [none]⟩, ?_, congrArg some hlast, by simp⟩
      rw [ext, if_neg (not_not_intro hdot), hcopy]
      simp only [bind, Except.bind, (extLoop_cases str_cpy [] 0).1 hgaps]
      rfl
  · refine iff_of_true ⟨⟨some [], []⟩, ?_, ?_, by simp⟩ (Or.inl hdot)
    · rw [ext, if_pos hdot]
    · rw [extension, if_neg hdot]

/-! ## Names of a length that fits into an int -/

def afterLast (s : Bytes) : Bytes := (s.reverse.takeWhile (· ≠ 46)).reverse

theorem takeWhile_free {w : Bytes} (hw : 46 ∉ w) (t : Bytes) :
    (w ++ 46 :: t).takeWhile (· ≠ 46) = w := by
  rw [List.takeWhile_append_of_pos]
  · simp
  · intro b hb
    exact decide_eq_true fun heq : b = 46 => hw (heq ▸ hb)

theorem afterLast_free {w : Bytes} (hw : 46 ∉ w) : afterLast w = w := by
  have hall : w.reverse.takeWhile (· ≠ 46) = w.reverse := by
    rw [List.takeWhile_eq_self_iff]
    intro b hb
    exact decide_eq_true fun heq : b = 46 => hw (heq ▸ List.mem_reverse.mp hb)
  rw [afterLast, hall, List.reverse_reverse]

theorem afterLast_behind (before : Bytes) {t : Bytes} (ht : 46 ∉ t) :
    afterLast (before ++ 46 :: t) = t := by
  have hshape : (before ++ 46 :: t).reverse = t.reverse ++ 46 :: before.reverse := by simp
  rw [afterLast, hshape, takeWhile_free (by rwa [List.mem_reverse]), List.reverse_reverse]

theorem exists_lastDot {s : Bytes} (h : 46 ∈ s) : ∃ before t, s = before ++ 46 :: t ∧ 46 ∉ t := by
  obtain ⟨first, more, heq, hfirst⟩ := List.eq_append_cons_of_mem (List.mem_reverse.mpr h)
  refine ⟨more.reverse, first.reverse, ?_, by rwa [List.mem_reverse]⟩
  rw [← List.reverse_reverse s, heq]
  simp

theorem afterLast_split (w r : Bytes) : afterLast (w ++ 46 :: r) = afterLast r := by
  by_cases hr : 46 ∈ r
  · obtain ⟨before, t, rfl, ht⟩ := exists_lastDot hr
    rw [afterLast_behind before ht, ← List.cons_append, ← List.append_assoc,
      afterLast_behind _ ht]
  · rw [afterLast_behind w hr, afterLast_free hr]

/-- A name that neither ends with a dot nor has two adjacent dots behind its leading ones. -/
def PlainDots (file : Bytes) : Prop :=
  file.getLast? ≠ some 46 ∧ ¬ [46, 46] <:+: file.dropWhile (· = 46)

instance (file : Bytes) : Decidable (PlainDots file) := inferInstanceAs (Decidable (_ ∧ _))

theorem head_of_split {w r : Bytes} (h : (w ++ 46 :: r).head? ≠ some 46) : w ≠ [] := by
  rintro rfl
  exact h rfl

theorem last_of_split {w r : Bytes} (h : (w ++ 46 :: r).getLast? ≠ some 46) :
    r ≠ [] ∧ r.getLast? ≠ some 46 := by
  have hlast : (w ++ 46 :: r).getLast? = (46 :: r).getLast? := by
    rw [List.getLast?_append, List.getLast?_cons]
    rfl
  rw [hlast] at h
  cases r with
  | nil => exact absurd rfl h
  | cons b r => exact ⟨List.cons_ne_nil b r, h⟩

theorem adjacent_split {w : Bytes} (hw : 46 ∉ w) (r : Bytes) :
    [46, 46] <:+: w ++ 46 :: r ↔ r.head? = some 46 ∨ [46, 46] <:+: r := by
  constructor
  · rintro ⟨before, after, heq⟩
    rw [List.append_assoc] at heq
    rcases cut_cases hw heq with ⟨-, rfl⟩ | ⟨rest, -, rfl⟩
    · exact Or.inl rfl
    · exact Or.inr ⟨rest, after, by simp⟩
  · intro h
    cases h with
    | inl hhead =>
        cases r with
        | nil => cases hhead
        | cons b r =>
            obtain rfl : b = 46 := Option.some.inj hhead
            exact ⟨w, r, by simp⟩
    | inr hinfix =>
        have hbehind : r <:+ w ++ 46 :: r := (List.suffix_cons 46 r).trans (List.suffix_append w _)
        exact hinfix.trans hbehind.isInfix

/-- Without a dot at its start a text has an empty token in the middle where two dots are
adjacent. -/
theorem gapFree_iff {s : Bytes} (hhead : s.head? ≠ some 46) :
    GapFree s ↔ ¬ [46, 46] <:+: s := by
  induction s using split_induction isDot with
  | free w hw =>
      refine iff_of_true (gapFree_free hw) ?_
      intro hinfix
      have hmem : 46 ∈ w := hinfix.subset (by simp)
      exact isDot_false.mp (hw 46 hmem) rfl
  | split w d r hw hd ih =>
      obtain rfl := isDot_iff.mp hd
      have hdot : 46 ∉ w := fun hmem => isDot_false.mp (hw 46 hmem) rfl
      rw [gapFree_split hw, adjacent_split hdot, not_or]
      by_cases hr : r.head? = some 46
      · have hgap : ¬ GapFree r := by
          cases r with
          | nil => cases hr
          | cons b r =>
              obtain rfl : b = 46 := Option.some.inj hr
              intro hgap
              exact ((gapFree_split (w := []) (by simp) r).mp hgap).1 rfl
        exact iff_of_false (fun h => hgap h.2) (fun h => h.1 hr)
      · rw [ih hr]
        exact and_congr_left fun _ => iff_of_true (head_of_split hhead) hr

theorem lastToken_ne_nil_of {ltoken : Bytes} (h : ltoken ≠ []) (s : Bytes) :
    lastToken ltoken s ≠ [] := by
  unfold lastToken
  cases hlast : (tokens [46] s).getLast? with
  | none => exact h
  | some t =>
      have hmem := List.mem_of_getLast? hlast
      simp only [tokens, List.mem_filter, decide_eq_true_eq] at hmem
      exact hmem.2

theorem lastToken_ne_nil {s : Bytes} (hne : s ≠ []) (hhead : s.head? ≠ some 46) :
    lastToken [] s ≠ [] := by
  cases free_or_split isDot s with
  | inl hfree =>
      rw [lastToken_free hfree, if_neg hne]
      exact hne
  | inr hsplit =>
      obtain ⟨w, d, r, rfl, hw, hd⟩ := hsplit
      obtain rfl := isDot_iff.mp hd
      rw [lastToken_split hw (head_of_split hhead)]
      exact lastToken_ne_nil_of (head_of_split hhead) r

/-- The last token of a text that does not end with a dot is what is behind its last dot. -/
theorem lastToken_eq {s : Bytes} (hne : s ≠ []) (hlast : s.getLast? ≠ some 46) (ltoken : Bytes) :
    lastToken ltoken s = afterLast s := by
  induction s using split_induction isDot generalizing ltoken with
  | free w hw =>
      have hdot : 46 ∉ w := fun hmem => isDot_false.mp (hw 46 hmem) rfl
      rw [lastToken_free hw, if_neg hne, afterLast_free hdot]
  | split w d r hw hd ih =>
      obtain rfl := isDot_iff.mp hd
      obtain ⟨hr, hrlast⟩ := last_of_split hlast
      rw [afterLast_split]
      by_cases hw' : w = []
      · subst hw'
        rw [← ih hr hrlast ltoken, lastToken, List.nil_append, tokens_cons_delim (by simp)]
        rfl
      · rw [lastToken_split hw hw', ih hr hrlast w]

/-- A name that ends with a dot has no extension. -/
theorem extension_of_last {file : Bytes} (h : file.getLast? = some 46) : extension file = [] := by
  obtain ⟨before, rfl⟩ := List.getLast?_eq_some_iff.mp h
  rw [extension, if_pos (by simp)]
  exact afterLast_behind before (by simp)

/-- The leading dots are no part of the extension. -/
theorem extension_leading {file t : Bytes} {j : Nat} (hfile : file = List.replicate j 46 ++ t)
    (hdot : 46 ∈ file) : extension file = afterLast t := by
  rw [extension, if_pos hdot, ← afterLast, hfile]
  cases j with
  | zero => rfl
  | succ j =>
      rw [List.replicate_succ', List.append_assoc, List.singleton_append, afterLast_split]

/-- With the leading dots the copy loses those at its end as well. -/
theorem extCopy_eq {file : Bytes} (hfile : NulFree file) (hlen : file.length < 2147483648) :
    extCopy file = if file.head? = some 46 then trim file 46 else .ok file := by
  rw [extCopy, ← trimBlock_eq_trim hfile (by decide) hlen]
  cases trimBlock (file ++ [0]) 46 <;> rfl

/-- What the loop gets of a name that is not all dots: a text that does not start with one,
and without the leading dots the name itself when it does not end with one. -/
theorem extCopy_of_split {file : Bytes} (hfile : NulFree file) (hlen : file.length < 2147483648)
    {j : Nat} {d : Byte} {rest : Bytes} (hsplit : file = List.replicate j 46 ++ d :: rest)
    (hd : d ≠ 46) :
    ∃ str_cpy, extCopy file = .ok str_cpy ∧ str_cpy ≠ [] ∧ str_cpy.head? ≠ some 46 ∧
      (file.getLast? ≠ some 46 → str_cpy = d :: rest) := by
  have hhead : (d :: rest).head? ≠ some 46 := fun heq => hd (Option.some.inj heq)
  cases j with
  | zero =>
      rw [List.replicate_zero, List.nil_append] at hsplit
      refine ⟨file, ?_, ?_, ?_, fun _ => hsplit⟩
      · rw [extCopy_eq hfile hlen, if_neg (by rwa [hsplit])]
      · rw [hsplit]
        exact List.cons_ne_nil d rest
      · rwa [hsplit]
  | succ j =>
      have hfirst : file.head? = some 46 := by rw [hsplit, List.replicate_succ]; rfl
      obtain ⟨i, w, k, hwhole, hw⟩ := exists_around (c := 46) (s := file)
        ⟨d, by rw [hsplit]; simp, hd⟩
      have hstrip : strip 46 file = w := by rw [hwhole, strip_around hw]
      obtain ⟨e, more, hw', he⟩ := hw.head
      have hne : strip 46 file ≠ [] := by
        rw [hstrip, hw']
        exact List.cons_ne_nil e more
      refine ⟨w, ?_, hstrip ▸ hne, ?_, ?_⟩
      · rw [extCopy_eq hfile hlen, if_pos hfirst, trim_ok_iff]
        exact ⟨hne, hstrip⟩
      · rw [hw']
        exact fun heq => he (Option.some.inj heq)
      · intro hlast
        obtain ⟨front, b, hend⟩ : ∃ front b, d :: rest = front ++ [b] := by
          cases List.eq_nil_or_concat (d :: rest) with
          | inl hnil => cases hnil
          | inr hconcat =>
              obtain ⟨front, b, hconcat⟩ := hconcat
              exact ⟨front, b, by rw [hconcat, List.concat_eq_append]⟩
        have hbare : Bare 46 (d :: rest) := by
          refine ⟨⟨d, rest, rfl, hd⟩, front, b, hend, ?_⟩
          rintro rfl
          apply hlast
          rw [hsplit, hend, ← List.append_assoc, List.getLast?_concat]
        have hsame := strip_around hbare (j + 1) 0
        rw [List.replicate_zero, List.append_nil, ← hsplit, hstrip] at hsame
        exact hsame

theorem copyFits_iff {file : Bytes} (hfile : NulFree file) (hdot : 46 ∈ file)
    (hlen : file.length < 2147483648) : CopyFits file ↔ PlainDots file := by
  obtain ⟨j, t, hsplit, ht⟩ := exists_leading 46 file
  have hdrop : file.dropWhile (· = 46) = t := by
    rw [hsplit, dropWhile_replicate]
    rcases ht with rfl | ⟨d, rest, rfl, hd⟩
    · rfl
    · rw [List.dropWhile_cons_of_neg (by simpa using hd)]
  rcases ht with rfl | ⟨d, rest, rfl, hd⟩
  · -- Nothing but dots.
    rw [List.append_nil] at hsplit
    have hall : ∀ b ∈ file, b = 46 := fun b hb => List.eq_of_mem_replicate (hsplit ▸ hb)
    refine iff_of_false ?_ ?_
    · rintro ⟨str_cpy, hcopy, -⟩
      rw [extCopy, trimBlock_outside hfile fun n _ b hb => hall b (List.mem_of_mem_take hb)]
        at hcopy
      cases hfile' : file with
      | nil =>
          rw [hfile'] at hdot
          cases hdot
      | cons b more =>
          obtain rfl : b = 46 := hall b (by rw [hfile']; exact List.mem_cons_self)
          rw [hfile'] at hcopy
          cases hcopy
    · intro hplain
      apply hplain.1
      cases j with
      | zero =>
          rw [hsplit] at hdot
          cases hdot
      | succ j => rw [hsplit, List.replicate_succ', List.getLast?_concat]
  · obtain ⟨str_cpy, hcopy, hne, hhead, hsame⟩ := extCopy_of_split hfile hlen hsplit hd
    by_cases hlast : file.getLast? = some 46
    · refine iff_of_false ?_ fun hplain => hplain.1 hlast
      rintro ⟨str_cpy', hcopy', -, htoken⟩
      rw [hcopy] at hcopy'
      cases hcopy'
      rw [extension_of_last hlast] at htoken
      exact lastToken_ne_nil hne hhead htoken
    · obtain rfl := hsame hlast
      have hend : (d :: rest).getLast? ≠ some 46 := by
        intro heq
        apply hlast
        rw [hsplit, List.getLast?_append, heq]
        rfl
      have htoken : lastToken [] (d :: rest) = extension file := by
        rw [lastToken_eq hne hend, extension_leading hsplit hdot]
      unfold CopyFits PlainDots
      rw [hdrop, ← gapFree_iff hhead]
      constructor
      · rintro ⟨str_cpy', hcopy', hgap, -⟩
        rw [hcopy] at hcopy'
        cases hcopy'
        exact ⟨hlast, hgap⟩
      · rintro ⟨-, hgap⟩
        exact ⟨_, hcopy, hgap, htoken⟩

/-- `ext` is right exactly for the names whose copy fits: of fewer than 2^31 characters these
are those without a dot, and those that do not end with one and have no two adjacent ones
behind the leading dots. -/
theorem extRight_iff {file : Bytes} (hfile : NulFree file) :
    (ExtRight file ↔ 46 ∉ file ∨ CopyFits file) ∧
      (file.length < 2147483648 → (ExtRight file ↔ 46 ∉ file ∨ PlainDots file)) := by
  constructor
  · exact extRight_iff_copyFits file
  · intro hlen
    rw [extRight_iff_copyFits]
    by_cases hdot : 46 ∈ file
    · rw [copyFits_iff hfile hdot hlen]
    · exact iff_of_true (Or.inl hdot) (Or.inl hdot)

theorem extRight_hidden :
    (ExtRight (str ".config.tar.gz") ↔
        46 ∉ str ".config.tar.gz" ∨ CopyFits (str ".config.tar.gz")) ∧
      ExtRight (str ".config.tar.gz") := by
  have hplain : PlainDots (str ".config.tar.gz") := by decide
  exact ⟨(extRight_iff (by decide)).1,
    ((extRight_iff (by decide)).2 (by decide)).mpr (Or.inr hplain)⟩

/-- A dot at the end. -/
theorem extRight_broken : ¬ ∀ file, NulFree file → ExtRight file := by
  intro h
  have hdot : 46 ∈ str "a.b." := by decide
  have hright := (extRight_iff_copyFits (str "a.b.")).mp (h (str "a.b.") (by decide))
  have hfits := hright.resolve_left (not_not_intro hdot)
  have hplain := (copyFits_iff (by decide) hdot (by decide)).mp hfits
  exact absurd hplain (by decide)

end STRos
