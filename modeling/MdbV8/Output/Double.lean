import MdbV8.Output.OutBuf

/-!
# Floating-point numbers

The `double` of C, as far as the module uses it: it is read from eight bytes or converted from a
small integer, compared with its conversion to a `long long`, and printed. A finite `double` is its
exact value, an integer times a power of two.
-/

namespace MdbV8

/-- A `double`. The value of a finite one is `num * 2 ^ exp`. -/
inductive CDouble where
  | finite (num exp : ℤ)
  | inf (neg : Bool)
  | nan
  deriving DecidableEq, Repr

namespace CDouble

/-- The `double` that is stored in eight bytes, given as the integer with these bytes. -/
def ofBits (w : ℕ) : CDouble :=
  let frac : ℤ := (w % 2 ^ 52 : ℕ)
  let exp : ℕ := w / 2 ^ 52 % 2 ^ 11
  let neg : Bool := w / 2 ^ 63 % 2 == 1
  if exp = 2047 then if frac = 0 then .inf neg else .nan
  else
    -- without the implicit bit for the smallest exponent
    let num := if exp = 0 then frac else 2 ^ 52 + frac
    .finite (if neg then -num else num) ((if exp = 0 then 1 else (exp : ℤ)) - 1075)

/-- The conversion of an unsigned integer below `2 ^ 53`, which is exact. -/
def ofNat (n : ℕ) : CDouble := .finite n 0

/-- The conversion to a `long long`. Where the value has none, the result is the smallest
`long long`, as it is on the processors that the module runs on. -/
def toLongLong : CDouble → ℤ
  | .finite num exp =>
    let v := if 0 ≤ exp then num * 2 ^ exp.toNat else num.tdiv (2 ^ (-exp).toNat)
    if -2 ^ 63 ≤ v ∧ v < 2 ^ 63 then v else -2 ^ 63
  | _ => -2 ^ 63

/-- `numval == (long long)numval`. -/
def isLongLong : CDouble → Bool
  | .finite num exp =>
    let v := toLongLong (.finite num exp)
    if 0 ≤ exp then num * 2 ^ exp.toNat == v else num == v * 2 ^ (-exp).toNat
  | _ => false

/-- A quotient rounded to the nearest integer, and to the even one of two. -/
def roundHalfEven (n d : ℕ) : ℕ :=
  let q := n / d
  let r := 2 * (n % d)
  if r < d ∨ (r = d ∧ q % 2 = 0) then q else q + 1

/-- The decimal exponent of the quotient of two positive integers. -/
def decExp (n d : ℕ) : ℤ :=
  if d ≤ n then (Nat.log 10 (n / d) : ℕ) else -(Nat.clog 10 ((d + n - 1) / n) : ℕ)

/-- The digits of an exponent, of which there are at least two. -/
def fmtExp (k : ℤ) : List UInt8 :=
  let digits := fmtNat 10 k.natAbs
  [if k < 0 then 45 else 43] ++ if digits.length < 2 then 48 :: digits else digits

/-- `%e`: seven digits and an exponent. -/
def fmtE : CDouble → List UInt8
  | .nan => bytesOf "nan"
  | .inf neg => bytesOf (if neg then "-inf" else "inf")
  | .finite num exp =>
    let n := num.natAbs * 2 ^ exp.toNat
    let d := 2 ^ (-exp).toNat
    let (digits, k) :=
      if n = 0 then (0, (0 : ℤ))
      else
        let k := decExp n d
        let q := roundHalfEven (n * 10 ^ (6 - k).toNat) (d * 10 ^ (k - 6).toNat)
        -- rounding up may take another digit
        if q = 10 ^ 7 then (10 ^ 6, k + 1) else (q, k)
    let frac := fmtNat 10 (digits % 10 ^ 6)
    (if num < 0 then [45] else []) ++ fmtNat 10 (digits / 10 ^ 6) ++ [46] ++
      List.replicate (6 - frac.length) 48 ++ frac ++ [101] ++ fmtExp k

/-- `1.5` and `3`, as they are stored. -/
example : fmtE (ofBits 0x3ff8000000000000) = bytesOf "1.500000e+00" ∧
    (ofBits 0x4008000000000000).toLongLong = 3 ∧ (ofBits 0x3ff8000000000000).isLongLong = false := by
  decide +kernel

end CDouble

/-- `jsobj_print_double`, as the text that it prints. -/
def doubleText (numval : CDouble) : List UInt8 :=
  if numval.isLongLong then fmtInt numval.toLongLong else numval.fmtE

end MdbV8
