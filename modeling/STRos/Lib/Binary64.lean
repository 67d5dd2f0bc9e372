import Mathlib.Algebra.Ring.Nat
import STRos.Lib.Decimal

/-! # Double precision numbers

A `double` is its IEEE 754 bit pattern. Reading and printing are exact: a
decimal is rounded to the nearest pattern, ties to even, and `%lf` prints the
exact binary value rounded to six decimals, ties to even.
-/

namespace CString

structure Binary64 where
  bits : UInt64
  deriving DecidableEq, Repr

/-- The quotient rounded to the nearest natural number, ties to even. -/
def divRound (num den : Nat) : Nat :=
  let q := num / den
  let twice := 2 * (num % den)
  if twice < den then q else if den < twice then q + 1 else q + q % 2

namespace Binary64

/-- `num / den * 2 ^ (-e)`, as `quot` makes it a natural number. -/
def scaled (quot : Nat → Nat → Nat) (num den : Nat) (e : Int) : Nat :=
  if 0 ≤ e then quot num (den * 2 ^ e.toNat) else quot (num * 2 ^ (-e).toNat) den

/-- The pattern nearest to `num / den`, negated if `neg`. -/
def ofRatio (neg : Bool) (num den : Nat) : Binary64 :=
  let sign : Nat := if neg then 2 ^ 63 else 0
  let k : Int := (Nat.log2 num : Int) - Nat.log2 den
  -- The unit in the last place is that of the number, and only then the number is rounded.
  let e₀ : Int := max (-1074) (k - 52)
  let e : Int := if scaled (· / ·) num den e₀ < 2 ^ 52 then max (-1074) (e₀ - 1) else e₀
  let m := scaled divRound num den e
  let (m, e) := if m = 2 ^ 53 then (2 ^ 52, e + 1) else (m, e)
  if 971 < e then ⟨UInt64.ofNat (sign + 2047 * 2 ^ 52)⟩
  else if m < 2 ^ 52 then ⟨UInt64.ofNat (sign + m)⟩
  else ⟨UInt64.ofNat (sign + (e + 1075).toNat * 2 ^ 52 + (m - 2 ^ 52))⟩

def print (d : Binary64) : Bytes :=
  let n := d.bits.toNat
  let sign : Bytes := if 2 ^ 63 ≤ n then [45] else []
  let biased := n / 2 ^ 52 % 2048
  let fraction := n % 2 ^ 52
  if biased = 2047 then sign ++ (if fraction = 0 then str "inf" else str "nan")
  else
    let m := if biased = 0 then fraction else 2 ^ 52 + fraction
    let e : Int := (max 1 biased : Nat) - 1075
    let micros := if 0 ≤ e then m * 2 ^ e.toNat * 1000000
      else divRound (m * 1000000) (2 ^ (-e).toNat)
    let frac := decimalNat (micros % 1000000)
    sign ++ decimalNat (micros / 1000000) ++ [46] ++ List.replicate (6 - frac.length) 48 ++ frac

end Binary64

/-- `atof` of an optional sign, digits, a point and digits, the only form its
callers pass. -/
def atof (s : Bytes) : Binary64 :=
  let neg := s.head? = some 45
  let t := if s.head? = some 45 ∨ s.head? = some 43 then s.tail else s
  let whole := t.takeWhile isDigit
  let frac := ((t.drop whole.length).drop 1).takeWhile isDigit
  Binary64.ofRatio neg (leadingNat (whole ++ frac)) (10 ^ frac.length)

example : atof (str "0.1") = ⟨0x3FB999999999999A⟩ := by decide +kernel

example : atof (str "0.9999999999999999") = ⟨0x3FEFFFFFFFFFFFFF⟩ := by decide +kernel

example : (atof (str "-34.567")).print = str "-34.567000" := by decide +kernel

end CString
