import STRos.Lib.CString

/-! # Decimal numbers in C strings

`decimal` is `printf`'s `%d`, `atoi` reads such a text back. As in the GNU C
library, `atoi` is `(int) strtol (s, NULL, 10)`: the value saturates at the
bounds of a 64-bit `long` and is then cut to 32 bits.
-/

namespace CString

def isSpace (b : Byte) : Bool := b = 32 || (9 ≤ b.toNat && b.toNat ≤ 13)

def isDigit (b : Byte) : Bool := 48 ≤ b.toNat && b.toNat ≤ 57

/-- The number spelled by the leading digits of a text. -/
def leadingNat (s : Bytes) : Nat :=
  (s.takeWhile isDigit).foldl (fun n b => 10 * n + (b.toNat - 48)) 0

/-- The exact value `strtol` works with, before it saturates. -/
def leadingInt (s : Bytes) : Int :=
  match s.dropWhile isSpace with
  | 45 :: t => -(leadingNat t : Int)
  | 43 :: t => leadingNat t
  | t => leadingNat t

def strtol (s : Bytes) : Int :=
  max (-9223372036854775808) (min 9223372036854775807 (leadingInt s))

def atoi (s : Bytes) : Int32 := Int32.ofInt (strtol s)

/-- `%d` of a number that is not negative, and `%zu`. -/
def decimalNat (n : Nat) : Bytes := (Nat.toDigits 10 n).map ch

def decimal : Int → Bytes
  | .ofNat n => decimalNat n
  | .negSucc n => 45 :: decimalNat (n + 1)

/-! ## Printed digits -/

theorem decimalNat_isDigit {n : Nat} {b : Byte} (hb : b ∈ decimalNat n) : isDigit b = true := by
  obtain ⟨c, hc, rfl⟩ := List.mem_map.mp hb
  have hd := Nat.isDigit_of_mem_toDigits (by omega) (by omega) hc
  have hlt : c.toNat < 58 := by
    simp only [Char.isDigit, Bool.and_eq_true, decide_eq_true_eq] at hd
    exact Nat.lt_succ_of_le (UInt32.le_iff_toNat_le.mp hd.2)
  have hge : 48 ≤ c.toNat := by
    simp only [Char.isDigit, Bool.and_eq_true, decide_eq_true_eq] at hd
    exact UInt32.le_iff_toNat_le.mp hd.1
  simp only [isDigit, ch, UInt8.toNat_ofNat', Bool.and_eq_true, decide_eq_true_eq]
  omega

theorem decimalNat_ne_nil (n : Nat) : decimalNat n ≠ [] := by
  simp [decimalNat, Nat.toDigits_ne_nil]

theorem decimalNat_foldl (n : Nat) :
    (decimalNat n).foldl (fun n b => 10 * n + (b.toNat - 48)) 0 = n := by
  have h : ∀ (cs : List Char) (a : Nat), (∀ c ∈ cs, c.toNat < 256) →
      (cs.map ch).foldl (fun n b => 10 * n + (b.toNat - 48)) a = Nat.ofDigitChars 10 cs a := by
    intro cs
    induction cs with
    | nil => intro a _; simp
    | cons c cs ih =>
        intro a hc
        have hc₀ : c.toNat < 256 := hc c (by simp)
        have hv : (ch c).toNat = c.toNat := by
          simp only [ch, UInt8.toNat_ofNat']
          omega
        simp only [List.map_cons, List.foldl_cons, Nat.ofDigitChars_cons, hv]
        exact ih _ fun c' hc' => hc c' (by simp [hc'])
  rw [decimalNat, h _ _ ?_, Nat.ofDigitChars_ten_toDigits]
  intro c hc
  have hd := Nat.isDigit_of_mem_toDigits (by omega) (by omega) hc
  simp only [Char.isDigit, Bool.and_eq_true, decide_eq_true_eq] at hd
  have := UInt32.le_iff_toNat_le.mp hd.2
  exact Nat.lt_of_le_of_lt this (by decide)

theorem leadingNat_decimalNat (n : Nat) {t : Bytes} (ht : ∀ b ∈ t.head?, isDigit b = false) :
    leadingNat (decimalNat n ++ t) = n := by
  have hall : ∀ b ∈ decimalNat n, isDigit b = true := fun b hb => decimalNat_isDigit hb
  have hstop : t.takeWhile isDigit = [] := by
    cases t with
    | nil => rfl
    | cons b t => simp [ht b (by simp)]
  rw [leadingNat, List.takeWhile_append_of_pos hall, hstop, List.append_nil, decimalNat_foldl]

theorem leadingInt_decimal (i : Int) {t : Bytes} (ht : ∀ b ∈ t.head?, isDigit b = false) :
    leadingInt (decimal i ++ t) = i := by
  cases i with
  | ofNat n =>
      obtain ⟨b, s, hs⟩ := List.exists_cons_of_ne_nil (decimalNat_ne_nil n)
      have hb : isDigit b = true := decimalNat_isDigit (n := n) (by simp [hs])
      simp only [isDigit, Bool.and_eq_true, decide_eq_true_eq] at hb
      have hns : isSpace b = false := by
        simp only [isSpace, Bool.or_eq_false_iff, decide_eq_false_iff_not, Bool.and_eq_false_iff]
        refine ⟨?_, Or.inr (by omega)⟩
        rintro rfl
        simp at hb
      have h45 : b ≠ 45 := by rintro rfl; simp at hb
      have h43 : b ≠ 43 := by rintro rfl; simp at hb
      have hval := leadingNat_decimalNat n ht
      simp only [decimal, hs, List.cons_append] at hval ⊢
      unfold leadingInt
      rw [List.dropWhile_cons_of_neg (by simp [hns])]
      split <;> simp_all
  | negSucc n =>
      have hval := leadingNat_decimalNat (n + 1) ht
      have hsp : isSpace 45 = false := by decide
      unfold leadingInt
      rw [decimal, List.cons_append, List.dropWhile_cons_of_neg (by simp [hsp])]
      simp only [hval]
      omega

theorem atoi_decimal_append (i : Int32) {t : Bytes} (ht : ∀ b ∈ t.head?, isDigit b = false) :
    atoi (decimal i.toInt ++ t) = i := by
  have h₁ := i.minValue_le_toInt
  have h₂ := i.toInt_lt
  have hmin : Int32.minValue.toInt = -2147483648 := by decide
  have hclamp : strtol (decimal i.toInt ++ t) = i.toInt := by
    rw [strtol, leadingInt_decimal _ ht]
    omega
  rw [atoi, hclamp, Int32.ofInt_toInt]

theorem atoi_decimal (i : Int32) : atoi (decimal i.toInt) = i := by
  simpa using atoi_decimal_append i (t := []) (by simp)

example : atoi (str " -42xyz") = -42 := by decide

end CString
