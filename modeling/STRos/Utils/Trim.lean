import STRos.Model.Strings
import STRos.Rpc.HeaderDecoding

/-! # Where trim stays inside of its string

The loop from the end has no bound: it goes on in front of the string when it meets nothing
but the delimiter. A length that does not fit into an `int` makes it start in the middle.
-/

namespace STRos

open CString

/-! ## A text and the delimiters around it -/

section Around

variable {c : Byte}

/-- A text that neither starts nor ends with the delimiter. -/
structure Bare (c : Byte) (w : Bytes) : Prop where
  head : ∃ d rest, w = d :: rest ∧ d ≠ c
  last : ∃ front d, w = front ++ [d] ∧ d ≠ c

theorem dropWhile_replicate (c : Byte) (j : Nat) (t : Bytes) :
    (List.replicate j c ++ t).dropWhile (· = c) = t.dropWhile (· = c) := by
  induction j with
  | zero => rfl
  | succ j ih =>
      rw [List.replicate_succ, List.cons_append, List.dropWhile_cons_of_pos (by simp), ih]

theorem strip_around {w : Bytes} (hw : Bare c w) (j k : Nat) :
    strip c (List.replicate j c ++ (w ++ List.replicate k c)) = w := by
  obtain ⟨d, rest, hhead, hd⟩ := hw.head
  obtain ⟨front, e, hlast, he⟩ := hw.last
  have hfront : (w ++ List.replicate k c).dropWhile (· = c) = w ++ List.replicate k c := by
    rw [hhead, List.cons_append, List.dropWhile_cons_of_neg (by simpa using hd)]
  have hback : w.reverse.dropWhile (· = c) = w.reverse := by
    rw [hlast, List.reverse_append, List.reverse_singleton, List.singleton_append,
      List.dropWhile_cons_of_neg (by simpa using he)]
  rw [strip, dropWhile_replicate, hfront, List.reverse_append, List.reverse_replicate,
    dropWhile_replicate, hback, List.reverse_reverse]

theorem exists_leading (c : Byte) (s : Bytes) :
    ∃ j t, s = List.replicate j c ++ t ∧ (t = [] ∨ ∃ d rest, t = d :: rest ∧ d ≠ c) := by
  induction s with
  | nil => exact ⟨0, [], rfl, Or.inl rfl⟩
  | cons b s ih =>
      by_cases hb : b = c
      · obtain ⟨j, t, rfl, ht⟩ := ih
        exact ⟨j + 1, t, by rw [hb, List.replicate_succ, List.cons_append], ht⟩
      · exact ⟨0, b :: s, rfl, Or.inr ⟨b, s, rfl, hb⟩⟩

theorem exists_around {s : Bytes} (h : ∃ b ∈ s, b ≠ c) :
    ∃ j w k, s = List.replicate j c ++ (w ++ List.replicate k c) ∧ Bare c w := by
  obtain ⟨j, t, rfl, ht⟩ := exists_leading c s
  obtain ⟨d, rest, hhead, hd⟩ : ∃ d rest, t = d :: rest ∧ d ≠ c := by
    apply ht.resolve_left
    rintro rfl
    obtain ⟨b, hb, hbc⟩ := h
    rw [List.append_nil] at hb
    exact hbc (List.eq_of_mem_replicate hb)
  obtain ⟨k, r, hrev, hr⟩ := exists_leading c t.reverse
  have hsplit : t = r.reverse ++ List.replicate k c := by
    rw [← List.reverse_reverse t, hrev, List.reverse_append, List.reverse_replicate]
  obtain ⟨e, front, hlast, he⟩ : ∃ e front, r = e :: front ∧ e ≠ c := by
    apply hr.resolve_left
    rintro rfl
    rw [List.reverse_nil, List.nil_append, hhead] at hsplit
    exact hd (List.eq_of_mem_replicate (hsplit ▸ List.mem_cons_self))
  refine ⟨j, r.reverse, k, by rw [hsplit], ?_, ?_⟩
  · cases hfront : r.reverse with
    | nil =>
        rw [List.reverse_eq_nil_iff.mp hfront] at hlast
        cases hlast
    | cons b more =>
        rw [hhead, hfront, List.cons_append] at hsplit
        obtain ⟨rfl, -⟩ := List.cons.inj hsplit
        exact ⟨d, more, rfl, hd⟩
  · exact ⟨front.reverse, e, by rw [hlast, List.reverse_cons], he⟩

end Around

/-! ## The two loops -/

theorem trimBack_stop {c : Byte} (front : Bytes) {d : Byte} (hd : d ≠ c) (tail : Bytes) :
    trimBack c (front ++ d :: tail) (front.length + 1 : Nat) =
      .ok (front ++ d :: tail, ((front.length + 1 : Nat) : Int)) := by
  have hpos : ¬ ((front.length + 1 : Nat) : Int) ≤ 0 := by omega
  have hlast : (((front.length + 1 : Nat) : Int) - 1).toNat = front.length := by omega
  rw [trimBack, if_neg hpos, hlast, List.getElem?_append_right (Nat.le_refl _), Nat.sub_self]
  simp only [List.getElem?_cons_zero, inBounds, bind, Except.bind]
  rw [if_neg hd]
  rfl

theorem trimBack_step {c : Byte} (front tail : Bytes) :
    trimBack c (front ++ c :: tail) (front.length + 1 : Nat) =
      trimBack c (front ++ 0 :: tail) (front.length : Nat) := by
  have hpos : ¬ ((front.length + 1 : Nat) : Int) ≤ 0 := by omega
  have hlast : (((front.length + 1 : Nat) : Int) - 1).toNat = front.length := by omega
  have hnext : ((front.length + 1 : Nat) : Int) - 1 = (front.length : Nat) := by omega
  rw [trimBack, if_neg hpos, hlast, List.getElem?_append_right (Nat.le_refl _), Nat.sub_self]
  simp only [List.getElem?_cons_zero, inBounds, bind, Except.bind]
  rw [if_pos trivial, Block.store_append_cons]
  simp only
  rw [hnext]

theorem trimBack_replicate {c : Byte} (front tail : Bytes) (k : Nat) :
    trimBack c (front ++ (List.replicate k c ++ tail)) (front.length + k : Nat) =
      trimBack c (front ++ (List.replicate k 0 ++ tail)) (front.length : Nat) := by
  induction k generalizing tail with
  | zero => rfl
  | succ k ih =>
      have hshape : ∀ d : Byte, front ++ (List.replicate (k + 1) d ++ tail) =
          front ++ List.replicate k d ++ d :: tail := by
        intro d
        rw [List.replicate_succ', List.append_assoc, List.singleton_append, List.append_assoc]
      have hlen : front.length + (k + 1) = (front ++ List.replicate k c).length + 1 := by
        rw [List.length_append, List.length_replicate]
        omega
      rw [hshape c, hlen, trimBack_step, List.append_assoc, List.length_append,
        List.length_replicate, ih, List.replicate_succ', List.append_assoc,
        List.singleton_append]

/-- Nothing but delimiters: the loop reads in front of the string. -/
theorem trimBack_all (c : Byte) (k : Nat) (tail : Bytes) :
    trimBack c (List.replicate k c ++ tail) (k : Nat) = .error .outOfBounds := by
  have hloop := trimBack_replicate (c := c) [] tail k
  rw [List.nil_append, List.nil_append, List.length_nil, Nat.zero_add] at hloop
  rw [hloop, trimBack, if_pos (by omega)]

theorem trimFront_eq {c : Byte} (hc : c ≠ 0) (front : Bytes) (j : Nat) {d : Byte} (hd : d ≠ c)
    (tail : Bytes) (l : Int) :
    trimFront c (front ++ (List.replicate j c ++ d :: tail)) front.length l =
      .ok (front.length + j, l - j) := by
  induction j generalizing front l with
  | zero =>
      rw [List.replicate_zero, List.nil_append, trimFront, dif_pos (by simp)]
      simp [hd]
  | succ j ih =>
      rw [List.replicate_succ, List.cons_append, trimFront, dif_pos (by simp)]
      have hrest := ih (front ++ [c]) (l - 1)
      rw [List.append_assoc, List.singleton_append, List.length_append, List.length_singleton]
        at hrest
      simp only [List.getElem_append_right (Nat.le_refl _), Nat.sub_self, List.getElem_cons_zero]
      rw [if_pos ⟨hc, trivial⟩, hrest]
      congr 2
      · omega
      · omega

/-! ## The call -/

/-- The text between the delimiters is moved to the start, with what stands behind it: the
NUL the first loop has written, or what it did not look at. -/
theorem trimBlock_around {c : Byte} (hc : c ≠ 0) {w : Bytes} (hw : Bare c w) (j k : Nat)
    {tail rest : Bytes} {x : Byte} (htail : List.replicate k 0 ++ tail = x :: rest)
    (hlen : strlenInt (cstr (List.replicate j c ++ (w ++ (List.replicate k c ++ tail)))) =
      (j + w.length + k : Nat)) :
    trimBlock (List.replicate j c ++ (w ++ (List.replicate k c ++ tail))) c =
      .ok (w ++ x :: (List.replicate j c ++ (w ++ x :: rest)).drop (w.length + 1)) := by
  obtain ⟨d, more, hhead, hd⟩ := hw.head
  obtain ⟨front, e, hlast, he⟩ := hw.last
  have hback : trimBack c (List.replicate j c ++ (w ++ (List.replicate k c ++ tail)))
      (j + w.length + k : Nat) =
        .ok (List.replicate j c ++ (w ++ x :: rest), ((j + w.length : Nat) : Int)) := by
    have hloop := trimBack_replicate (c := c) (List.replicate j c ++ w) tail k
    have hstop := trimBack_stop (List.replicate j c ++ front) he (x :: rest)
    have hcount : (List.replicate j c ++ front).length + 1 = j + w.length := by
      rw [hlast, List.length_append, List.length_append, List.length_replicate,
        List.length_singleton]
      omega
    have hshape : List.replicate j c ++ front ++ e :: x :: rest =
        List.replicate j c ++ (w ++ x :: rest) := by
      rw [hlast, List.append_assoc, List.append_assoc, List.singleton_append]
    rw [hcount, hshape] at hstop
    rw [List.length_append, List.length_replicate, htail, List.append_assoc, List.append_assoc,
      hstop] at hloop
    exact hloop
  have hfront : trimFront c (List.replicate j c ++ (w ++ x :: rest)) 0
      ((j + w.length : Nat) : Int) = .ok (j, ((w.length : Nat) : Int)) := by
    have hloop := trimFront_eq hc [] j hd (more ++ x :: rest) ((j + w.length : Nat) : Int)
    have hcount : ((j + w.length : Nat) : Int) - j = ((w.length : Nat) : Int) := by omega
    rw [List.nil_append, List.length_nil, Nat.zero_add, hcount, ← List.cons_append,
      ← hhead] at hloop
    exact hloop
  have hmove := Block.moveToStart_append (List.replicate j c) (w ++ [x]) rest
  have hcount : (((w.length : Nat) : Int) + 1).toNat = (w ++ [x]).length := by
    rw [List.length_append, List.length_singleton]
    omega
  have hnonneg : ¬ (((w.length : Nat) : Int) + 1 < 0) := by omega
  rw [List.length_replicate, List.append_assoc, List.singleton_append, List.append_assoc,
    List.singleton_append] at hmove
  rw [trimBlock, hlen, hback]
  simp only [bind, Except.bind]
  rw [hfront]
  simp only
  rw [if_neg hnonneg, hcount, hmove, inBounds]
  simp

/-- What `trim` should leave, within the block of its string. -/
def TrimsExactly (s : Bytes) (c : Byte) : Prop :=
  ∃ block, trimBlock (s ++ [0]) c = .ok block ∧ cstr block = strip c s

/-- Among the characters that the length in an `int` counts there is one that is not the
delimiter. When it counts too few, they have to be trimmed like the whole string, or there
is nothing to trim. -/
def Trimmable (s : Bytes) (c : Byte) : Prop :=
  ∃ n : Nat, strlenInt s = n ∧ (∃ b ∈ s.take n, b ≠ c) ∧
    if n = s.length ∨ (s.take n).getLast? = some c then strip c (s.take n) = strip c s
    else strip c s = s

theorem strlenInt_le (s : Bytes) : strlenInt s ≤ s.length := by
  unfold strlenInt sint32
  split
  · omega
  · omega

theorem strlenInt_of_lt {s : Bytes} (h : s.length < 2147483648) : strlenInt s = s.length := by
  unfold strlenInt sint32
  rw [if_pos (by omega)]
  omega

theorem cstr_terminated {s : Bytes} (hs : NulFree s) : cstr (s ++ [0]) = s := by
  rw [cstr_append hs, cstr_zero_cons, List.append_nil]

theorem Bare.getLast {c : Byte} {w : Bytes} (hw : Bare c w) (front : Bytes) :
    (front ++ w).getLast? ≠ some c := by
  obtain ⟨more, e, rfl, he⟩ := hw.last
  rw [← List.append_assoc, List.getLast?_concat]
  intro heq
  exact he (Option.some.inj heq)

/-- A count that ends in the string behind a character that is kept: the rest of the string
is not looked at, and moves with what is kept in front of it. -/
theorem trimBlock_short {s : Bytes} (hs : NulFree s) {c : Byte} (hc : c ≠ 0) {w more : Bytes}
    (hw : Bare c w) {j : Nat} {x : Byte} (hwhole : s = List.replicate j c ++ (w ++ x :: more))
    (hn : strlenInt s = (j + w.length : Nat)) :
    ∃ block, trimBlock (s ++ [0]) c = .ok block ∧ cstr block = w ++ x :: s.drop (w.length + 1) := by
  have htail : List.replicate 0 (0 : Byte) ++ (x :: more ++ [0]) = x :: (more ++ [0]) := rfl
  have hshape : s ++ [0] = List.replicate j c ++ (w ++ (List.replicate 0 c ++
      (x :: more ++ [0]))) := by
    rw [hwhole]
    simp only [List.replicate_zero, List.nil_append, List.append_assoc]
  have hlen : strlenInt (cstr (List.replicate j c ++ (w ++ (List.replicate 0 c ++
      (x :: more ++ [0]))))) = (j + w.length + 0 : Nat) := by
    rw [← hshape, cstr_terminated hs, hn, Nat.add_zero]
  have hcall := trimBlock_around hc hw j 0 htail hlen
  have hsame : List.replicate j c ++ (w ++ x :: (more ++ [0])) = s ++ [0] := by
    rw [hwhole]
    simp only [List.append_assoc, List.cons_append]
  have hfull : w.length + 1 ≤ s.length := by
    rw [hwhole]
    simp only [List.length_append, List.length_cons, List.length_replicate]
    omega
  rw [hsame, List.drop_append_of_le_length hfull, ← hshape] at hcall
  refine ⟨_, hcall, ?_⟩
  have hfree : NulFree (w ++ x :: s.drop (w.length + 1)) := by
    have hparts := hs
    rw [hwhole, nulFree_append, nulFree_append, nulFree_cons] at hparts
    rw [nulFree_append, nulFree_cons]
    exact ⟨hparts.2.1, hparts.2.2.1, hs.drop _⟩
  rw [← List.cons_append, ← List.append_assoc, cstr_terminated hfree]

/-- What a call leaves of a string that has another character than the delimiter. -/
theorem trimBlock_result {s : Bytes} (hs : NulFree s) {c : Byte} (hc : c ≠ 0) {n : Nat}
    (hn : strlenInt s = n) (hother : ∃ b ∈ s.take n, b ≠ c) :
    ∃ block, trimBlock (s ++ [0]) c = .ok block ∧
      ((n = s.length ∨ (s.take n).getLast? = some c) ∧ cstr block = strip c (s.take n) ∨
        ¬ (n = s.length ∨ (s.take n).getLast? = some c) ∧
          (cstr block).length = s.length ∧ (s.head? ≠ some c → cstr block = s)) := by
  obtain ⟨j, w, k, htake, hw⟩ := exists_around hother
  have hstrip : strip c (s.take n) = w := by rw [htake, strip_around hw]
  have hle : n ≤ s.length := by
    have hle := strlenInt_le s
    omega
  have hcount : n = j + w.length + k := by
    have hlen := congrArg List.length htake
    rw [List.length_take, List.length_append, List.length_append, List.length_replicate,
      List.length_replicate] at hlen
    omega
  have hwhole : s = List.replicate j c ++ (w ++ (List.replicate k c ++ s.drop n)) := by
    nth_rewrite 1 [← List.take_append_drop n s]
    rw [htake]
    simp only [List.append_assoc]
  have hshape : s ++ [0] = List.replicate j c ++ (w ++ (List.replicate k c ++
      (s.drop n ++ [0]))) := by
    nth_rewrite 1 [hwhole]
    simp only [List.append_assoc]
  have hlen : strlenInt (cstr (List.replicate j c ++ (w ++ (List.replicate k c ++
      (s.drop n ++ [0]))))) = (j + w.length + k : Nat) := by
    rw [← hshape, cstr_terminated hs, hn, hcount]
  have hread : ∀ rest, cstr (w ++ 0 :: rest) = strip c (s.take n) := by
    intro rest
    have hparts := hs
    rw [hwhole, nulFree_append, nulFree_append] at hparts
    rw [hstrip, cstr_append hparts.2.1, cstr_zero_cons, List.append_nil]
  cases k with
  | succ k =>
      rw [hshape]
      refine ⟨_, trimBlock_around hc hw j (k + 1) rfl hlen, Or.inl ⟨Or.inr ?_, hread _⟩⟩
      rw [htake, List.replicate_succ', ← List.append_assoc, ← List.append_assoc,
        List.getLast?_concat]
  | zero =>
      cases hdrop : s.drop n with
      | nil =>
          rw [hdrop] at hlen hshape
          rw [hshape]
          refine ⟨_, trimBlock_around hc hw j 0 rfl hlen, Or.inl ⟨Or.inl ?_, hread _⟩⟩
          have hge := List.drop_eq_nil_iff.mp hdrop
          omega
      | cons x more =>
          rw [hdrop, List.replicate_zero, List.nil_append] at hwhole
          obtain ⟨block, hcall, hblock⟩ := trimBlock_short hs hc hw hwhole (by rw [hn, hcount]; rfl)
          have hfull := congrArg List.length hwhole
          simp only [List.length_append, List.length_cons, List.length_replicate] at hfull
          refine ⟨block, hcall, Or.inr ⟨?_, ?_, ?_⟩⟩
          · rintro (heq | hlast)
            · omega
            · rw [htake, List.replicate_zero, List.append_nil] at hlast
              exact hw.getLast _ hlast
          · rw [hblock, List.length_append, List.length_cons, List.length_drop]
            omega
          · intro hhead
            cases j with
            | zero =>
                rw [List.replicate_zero, List.nil_append] at hwhole
                rw [hblock, hwhole]
                simp
            | succ j =>
                rw [hwhole] at hhead
                exact absurd rfl hhead

theorem strip_length_le (c : Byte) (s : Bytes) :
    (strip c s).length ≤ (s.dropWhile (· = c)).length := by
  rw [strip, List.length_reverse]
  exact (List.dropWhile_suffix _).length_le.trans List.length_reverse.le

theorem strip_length_lt {s : Bytes} {c : Byte} (h : s.head? = some c) :
    (strip c s).length < s.length := by
  cases s with
  | nil => cases h
  | cons b s =>
      obtain rfl : b = c := Option.some.inj h
      have hle := strip_length_le b (b :: s)
      rw [List.dropWhile_cons_of_pos (by simp)] at hle
      exact Nat.lt_succ_of_le (hle.trans (List.dropWhile_suffix _).length_le)

theorem strip_eq_of_length {s : Bytes} {c : Byte} (h : (strip c s).length = s.length) :
    strip c s = s := by
  have hfront : s.dropWhile (· = c) <:+ s := List.dropWhile_suffix _
  have hsame := hfront.eq_of_length (hfront.length_le.antisymm (h ▸ strip_length_le c s))
  have hback : s.reverse.dropWhile (· = c) <:+ s.reverse := List.dropWhile_suffix _
  rw [strip, hsame, List.length_reverse] at h
  rw [strip, hsame, hback.eq_of_length (h.trans List.length_reverse.symm), List.reverse_reverse]

/-- A string that is counted as empty, or as nothing but delimiters: the loop from the end
reads in front of it. -/
theorem trimBlock_outside {s : Bytes} (hs : NulFree s) {c : Byte}
    (h : ∀ n : Nat, strlenInt s = n → ∀ b ∈ s.take n, b = c) :
    trimBlock (s ++ [0]) c = .error .outOfBounds := by
  have hback : trimBack c (s ++ [0]) (strlenInt s) = .error .outOfBounds := by
    by_cases hpos : strlenInt s ≤ 0
    · rw [trimBack, if_pos hpos]
    · have hle := strlenInt_le s
      have hn : strlenInt s = (strlenInt s).toNat := by omega
      have htake : s.take (strlenInt s).toNat = List.replicate (strlenInt s).toNat c := by
        rw [List.eq_replicate_iff]
        exact ⟨by rw [List.length_take]; omega, h _ hn⟩
      have hall := trimBack_all c (strlenInt s).toNat (s.drop (strlenInt s).toNat ++ [0])
      rw [← List.append_assoc, ← htake, List.take_append_drop, ← hn] at hall
      exact hall
  rw [trimBlock, cstr_terminated hs, hback]
  rfl

/-- `trim` leaves its string as it should, and its block alone, exactly for the strings it
can trim: below 2^31 characters these are the strings that are not all delimiters. -/
theorem trimsExactly_iff {s : Bytes} (hs : NulFree s) {c : Byte} (hc : c ≠ 0) :
    (TrimsExactly s c ↔ Trimmable s c) ∧
      (s.length < 2147483648 → (Trimmable s c ↔ ∃ b ∈ s, b ≠ c)) := by
  constructor
  · constructor
    · rintro ⟨block, hcall, hblock⟩
      by_cases hother : ∃ n : Nat, strlenInt s = n ∧ ∃ b ∈ s.take n, b ≠ c
      · obtain ⟨n, hn, hother⟩ := hother
        obtain ⟨block', hcall', hresult⟩ := trimBlock_result hs hc hn hother
        rw [hcall] at hcall'
        cases hcall'
        refine ⟨n, hn, hother, ?_⟩
        rcases hresult with ⟨hwhole, hread⟩ | ⟨hpart, hlen, -⟩
        · rw [if_pos hwhole, ← hread, hblock]
        · rw [if_neg hpart]
          rw [hblock] at hlen
          exact strip_eq_of_length hlen
      · have hnone : ∀ n : Nat, strlenInt s = n → ∀ b ∈ s.take n, b = c := by
          intro n hn b hb
          by_contra hne
          exact hother ⟨n, hn, b, hb, hne⟩
        rw [trimBlock_outside hs hnone] at hcall
        cases hcall
    · rintro ⟨n, hn, hother, hfits⟩
      obtain ⟨block, hcall, hresult⟩ := trimBlock_result hs hc hn hother
      refine ⟨block, hcall, ?_⟩
      rcases hresult with ⟨hwhole, hread⟩ | ⟨hpart, -, hread⟩
      · rw [if_pos hwhole] at hfits
        rw [hread, hfits]
      · rw [if_neg hpart] at hfits
        have hhead : s.head? ≠ some c := by
          intro hhead
          have hlt := strip_length_lt hhead
          rw [hfits] at hlt
          exact lt_irrefl _ hlt
        rw [hread hhead, hfits]
  · intro hlen
    have hn := strlenInt_of_lt hlen
    constructor
    · rintro ⟨n, -, ⟨b, hb, hne⟩, -⟩
      exact ⟨b, List.mem_of_mem_take hb, hne⟩
    · intro hother
      refine ⟨s.length, hn, ?_, ?_⟩
      · rwa [List.take_length]
      · rw [if_pos (Or.inl rfl), List.take_length]

theorem trimsExactly_spaces :
    (TrimsExactly (str "  Content-Type ") 32 ↔ Trimmable (str "  Content-Type ") 32) ∧
      ((str "  Content-Type ").length < 2147483648 →
        (Trimmable (str "  Content-Type ") 32 ↔ ∃ b ∈ str "  Content-Type ", b ≠ 32)) ∧
      ∃ b ∈ str "  Content-Type ", b ≠ 32 :=
  ⟨(trimsExactly_iff (by decide) (by decide)).1, (trimsExactly_iff (by decide) (by decide)).2,
    ch 'C', by decide, by decide⟩

/-- The empty string, and one of two spaces. -/
theorem trimsExactly_broken :
    ¬ ∀ (s : Bytes) (c : Byte), NulFree s → c ≠ 0 → TrimsExactly s c := by
  intro h
  obtain ⟨block, hcall, -⟩ := h (str "  ") 32 (by decide) (by decide)
  have hspaces : ∀ n : Nat, strlenInt (str "  ") = n → ∀ b ∈ (str "  ").take n, b = 32 := by
    intro n _ b hb
    have hmem : b ∈ List.replicate 2 32 := List.mem_of_mem_take hb
    exact List.eq_of_mem_replicate hmem
  rw [trimBlock_outside (by decide) hspaces] at hcall
  cases hcall

/-- Below 2^31 characters this is the `trim` that header decoding is modelled with. -/
theorem trimBlock_eq_trim {s : Bytes} (hs : NulFree s) {c : Byte} (hc : c ≠ 0)
    (hlen : s.length < 2147483648) : (trimBlock (s ++ [0]) c).map cstr = trim s c := by
  have hn := strlenInt_of_lt hlen
  rw [trim_eq]
  by_cases hother : ∃ b ∈ s, b ≠ c
  · have hne : strip c s ≠ [] := by
      rw [ne_eq, strip_eq_nil_iff, List.all_eq_true]
      intro hall
      obtain ⟨b, hb, hbc⟩ := hother
      exact hbc (of_decide_eq_true (hall b hb))
    obtain ⟨block, hcall, hresult⟩ := trimBlock_result hs hc hn (by rwa [List.take_length])
    rw [List.take_length] at hresult
    rcases hresult with ⟨-, hread⟩ | ⟨hpart, -⟩
    · rw [if_neg hne, hcall, ← hread]
      rfl
    · exact absurd (Or.inl rfl) hpart
  · have hall : ∀ b ∈ s, b = c := by
      intro b hb
      by_contra hbc
      exact hother ⟨b, hb, hbc⟩
    have hnil : strip c s = [] := by
      rw [strip_eq_nil_iff, List.all_eq_true]
      exact fun b hb => decide_eq_true (hall b hb)
    rw [if_pos hnil, trimBlock_outside hs fun n _ b hb => hall b (List.mem_of_mem_take hb)]
    rfl

end STRos
