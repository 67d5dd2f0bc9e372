import Mathlib.Data.List.TakeWhile
import Mathlib.Data.List.Infix

/-! # Byte strings as C code sees them

A `char *` is modelled by the list of its bytes. The terminating NUL is not
part of the list, so a C string is a list without the byte `0`, and `cstr` is
what a C function sees of a longer block. Plain `char` is signed, `int` is a
little-endian 32-bit word, and `strsep` cuts a string at a set of delimiters.
-/

namespace CString

abbrev Byte := UInt8
abbrev Bytes := List UInt8

def ch (c : Char) : Byte := UInt8.ofNat c.toNat

/-- A string literal, without its terminator. -/
def str (s : String) : Bytes := s.toList.map ch

/-- The value of a plain (signed) `char` after promotion to `int`. -/
def schar (b : Byte) : Int := if b.toNat < 128 then b.toNat else b.toNat - 256

theorem schar_of_lt {b : Byte} (h : b.toNat < 128) : schar b = b.toNat := by
  simp [schar, h]

theorem schar_ofNat {n : Nat} (h : n < 128) : schar (UInt8.ofNat n) = n := by
  have hv : (UInt8.ofNat n).toNat = n := UInt8.toNat_ofNat_of_lt' (Nat.lt_trans h (by decide))
  rw [schar_of_lt (by omega), hv]

theorem schar_lt (b : Byte) : schar b < 128 := by
  have hb := b.toNat_lt
  unfold schar
  split <;> omega

/-! ## Terminated strings -/

/-- What string functions see of a block: everything before the first NUL. -/
def cstr (block : Bytes) : Bytes := block.takeWhile (· ≠ 0)

/-- The list is a C string: it holds no terminator. -/
def NulFree (s : Bytes) : Prop := (0 : Byte) ∉ s

instance (s : Bytes) : Decidable (NulFree s) := inferInstanceAs (Decidable (_ ∉ _))

theorem NulFree.nil : NulFree [] := by simp [NulFree]

theorem nulFree_cons {b : Byte} {s : Bytes} : NulFree (b :: s) ↔ b ≠ 0 ∧ NulFree s := by
  simp [NulFree, eq_comm]

theorem nulFree_append {s t : Bytes} : NulFree (s ++ t) ↔ NulFree s ∧ NulFree t := by
  simp [NulFree]

theorem nulFree_replicate (n : Nat) {b : Byte} (hb : b ≠ 0) : NulFree (List.replicate n b) :=
  fun h => hb (List.eq_of_mem_replicate h).symm

theorem NulFree.take {s : Bytes} (h : NulFree s) (n : Nat) : NulFree (s.take n) :=
  fun hm => h (List.mem_of_mem_take hm)

theorem NulFree.drop {s : Bytes} (h : NulFree s) (n : Nat) : NulFree (s.drop n) :=
  fun hm => h (List.mem_of_mem_drop hm)

theorem cstr_nulFree (block : Bytes) : NulFree (cstr block) := by
  intro h
  simpa using List.mem_takeWhile_imp h

theorem cstr_append {s : Bytes} (h : NulFree s) (t : Bytes) : cstr (s ++ t) = s ++ cstr t := by
  induction s with
  | nil => rfl
  | cons b s ih =>
      obtain ⟨hb, hs⟩ := nulFree_cons.mp h
      have := ih hs
      simp_all [cstr]

@[simp] theorem cstr_nil : cstr [] = [] := rfl

@[simp] theorem cstr_zero_cons (t : Bytes) : cstr (0 :: t) = [] := rfl

theorem cstr_of_nulFree {s : Bytes} (h : NulFree s) : cstr s = s := by
  simpa using cstr_append h []

theorem cstr_length_le (block : Bytes) : (cstr block).length ≤ block.length :=
  (List.takeWhile_prefix _).length_le

/-- Of a shorter block no more is seen. -/
theorem cstr_take_le (block : Bytes) (n : Nat) : cstr (block.take n) <+: cstr block := by
  induction block generalizing n with
  | nil => simp
  | cons b block ih =>
      cases n with
      | zero => simp
      | succ n =>
          by_cases hb : b = 0
          · simp [hb]
          · simpa [cstr, hb] using ih n

theorem cstr_zero_le (s t : Bytes) : cstr (s ++ 0 :: t) <+: s := by
  induction s with
  | nil => simp
  | cons b s ih =>
      by_cases hb : b = 0
      · simp [hb]
      · simpa [cstr, hb] using ih

/-! ## Little-endian 32-bit words -/

/-- The four bytes an `int` occupies in memory on a little-endian machine. -/
def le32 (n : Nat) : Bytes :=
  [UInt8.ofNat n, UInt8.ofNat (n / 256), UInt8.ofNat (n / 65536), UInt8.ofNat (n / 16777216)]

/-- The unsigned value of four bytes in memory. -/
def readLe32 : Bytes → Nat
  | b₀ :: b₁ :: b₂ :: b₃ :: _ =>
      b₀.toNat + 256 * b₁.toNat + 65536 * b₂.toNat + 16777216 * b₃.toNat
  | _ => 0

/-- The value of a 32-bit pattern read as a signed `int`. -/
def sint32 (n : Nat) : Int := if n < 2147483648 then n else n - 4294967296

@[simp] theorem le32_length (n : Nat) : (le32 n).length = 4 := rfl

@[simp] theorem le32_append_drop (n : Nat) (t : Bytes) : (le32 n ++ t).drop 4 = t := rfl

theorem readLe32_append (n : Nat) (h : n < 4294967296) (t : Bytes) :
    readLe32 (le32 n ++ t) = n := by
  simp only [le32, List.cons_append, readLe32, UInt8.toNat_ofNat']
  omega

theorem readLe32_le32 {n : Nat} (h : n < 4294967296) : readLe32 (le32 n) = n := by
  simpa using readLe32_append n h []

theorem sint32_of_lt {n : Nat} (h : n < 2147483648) : sint32 n = n := by
  simp [sint32, h]

theorem le32_of_lt {n : Nat} (h : n < 256) : le32 n = [UInt8.ofNat n, 0, 0, 0] := by
  have h₁ : n / 256 = 0 := by omega
  have h₂ : n / 65536 = 0 := by omega
  have h₃ : n / 16777216 = 0 := by omega
  simp [le32, h₁, h₂, h₃]

theorem le32_of_lt_two {n : Nat} (h : n < 65536) :
    le32 n = [UInt8.ofNat n, UInt8.ofNat (n / 256), 0, 0] := by
  have h₂ : n / 65536 = 0 := by omega
  have h₃ : n / 16777216 = 0 := by omega
  simp [le32, h₂, h₃]

/-! ## Cutting at delimiters -/

/-- The pieces the loop `while ((token = strsep (&s, delim)))` runs through. -/
def pieces (delim s : Bytes) : List Bytes := s.splitOnP (· ∈ delim)

def tokens (delim s : Bytes) : List Bytes := (pieces delim s).filter (· ≠ [])

theorem tokens_of_delimFree {delim s : Bytes} (h : ∀ b ∈ s, b ∉ delim) (hs : s ≠ []) :
    tokens delim s = [s] := by
  have hp : s.splitOnP (fun b => decide (b ∈ delim)) = [s] :=
    List.splitOnP_eq_singleton fun b hb => by simpa using h b hb
  simp [tokens, pieces, hp, hs]

@[simp] theorem tokens_nil (delim : Bytes) : tokens delim [] = [] := by
  simp [tokens, pieces, List.splitOnP_nil]

theorem tokens_cons_delim {delim : Bytes} {d : Byte} (hd : d ∈ delim) (t : Bytes) :
    tokens delim (d :: t) = tokens delim t := by
  have hp : (d :: t).splitOnP (fun b => decide (b ∈ delim)) =
      [] :: t.splitOnP (fun b => decide (b ∈ delim)) := by
    have hsep : (fun b => decide (b ∈ delim)) d = true := by simpa using hd
    simpa using List.splitOnP_append_cons (p := fun b => decide (b ∈ delim)) [] t hsep
  simp [tokens, pieces, hp]

theorem tokens_append_cons {delim s : Bytes} {d : Byte} (h : ∀ b ∈ s, b ∉ delim) (hs : s ≠ [])
    (hd : d ∈ delim) (t : Bytes) :
    tokens delim (s ++ d :: t) = s :: tokens delim t := by
  have hp : (s ++ d :: t).splitOnP (fun b => decide (b ∈ delim)) =
      s :: t.splitOnP (fun b => decide (b ∈ delim)) :=
    List.splitOnP_append_cons_of_forall_mem (fun b hb => by simpa using h b hb) d
      (by simpa using hd) t
  simp [tokens, pieces, hp, hs]

/-- The first token and what the cut leaves after it, one delimiter at a time. -/
theorem tokens_eq_cons {d : Byte} {t k : Bytes} {ts : List Bytes} (h : tokens [d] t = k :: ts) :
    k ≠ [] ∧ d ∉ k ∧ ∃ i, (t = List.replicate i d ++ k ∧ ts = []) ∨
      ∃ r, t = List.replicate i d ++ (k ++ d :: r) ∧ ts = tokens [d] r := by
  induction t with
  | nil => simp at h
  | cons b t ih =>
      by_cases hb : b = d
      · subst hb
        rw [tokens_cons_delim (by simp)] at h
        obtain ⟨hk, hd, i, hi⟩ := ih h
        refine ⟨hk, hd, i + 1, ?_⟩
        rcases hi with ⟨rfl, hts⟩ | ⟨r, rfl, hts⟩
        · exact Or.inl ⟨by simp [List.replicate_succ], hts⟩
        · exact Or.inr ⟨r, by simp [List.replicate_succ], hts⟩
      · -- The text starts with a piece: everything up to the first delimiter.
        have hsplit := List.takeWhile_append_dropWhile (p := fun c => decide (c ≠ d)) (l := b :: t)
        have hfree : ∀ c ∈ (b :: t).takeWhile (fun c => decide (c ≠ d)), c ∉ [d] := by
          intro c hc
          simpa using List.mem_takeWhile_imp hc
        have hne : (b :: t).takeWhile (fun c => decide (c ≠ d)) ≠ [] := by simp [hb]
        have hdfree : d ∉ (b :: t).takeWhile (fun c => decide (c ≠ d)) := fun hm =>
          hfree d hm (by simp)
        cases hrest : (b :: t).dropWhile (fun c => decide (c ≠ d)) with
        | nil =>
            rw [hrest, List.append_nil] at hsplit
            rw [← hsplit, tokens_of_delimFree hfree hne] at h
            cases h
            exact ⟨hne, hdfree, 0, Or.inl ⟨by simpa using hsplit.symm, rfl⟩⟩
        | cons c r =>
            have hcd : c = d := by
              have := List.head_dropWhile_not (fun c => decide (c ≠ d)) (l := b :: t)
                (by rw [hrest]; simp)
              simp only [hrest, List.head_cons] at this
              simpa using this
            subst hcd
            rw [hrest] at hsplit
            rw [← hsplit, tokens_append_cons hfree hne (by simp)] at h
            cases h
            exact ⟨hne, hdfree, 0, Or.inr ⟨r, by simpa using hsplit.symm, rfl⟩⟩

theorem tokens_singleton_infix {d : Byte} {t k : Bytes} (h : tokens [d] t = [k]) : k <:+: t := by
  obtain ⟨-, -, i, ⟨rfl, -⟩ | ⟨r, rfl, -⟩⟩ := tokens_eq_cons h
  · exact (List.suffix_append _ _).isInfix
  · exact ⟨List.replicate i d, d :: r, by simp⟩

/-- Two texts around the same delimiter: the cut is either this one or in what
follows it. -/
theorem cut_cases {d : Byte} {a b x y : Bytes} (ha : d ∉ a) (h : x ++ d :: y = a ++ d :: b) :
    (x = a ∧ y = b) ∨ ∃ x', x = a ++ d :: x' ∧ x' ++ d :: y = b := by
  rcases List.append_eq_append_iff.mp h with ⟨as, rfl, hy⟩ | ⟨bs, rfl, hb⟩
  · cases as with
    | nil => simp_all
    | cons c as =>
        simp only [List.cons_append, List.cons.injEq] at hy
        exact absurd (by simp [← hy.1]) ha
  · cases bs with
    | nil => simp_all
    | cons c bs =>
        simp only [List.cons_append, List.cons.injEq] at hb
        exact Or.inr ⟨bs, by simp [← hb.1], hb.2.symm⟩

end CString
