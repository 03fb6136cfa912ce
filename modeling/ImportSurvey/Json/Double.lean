/-!
# Double-precision numbers

A number of the binary64 format given by its exact parts, the nearest one to a decimal, and the
shortest decimal that reads back as it. All arithmetic is on natural numbers.
-/

namespace ImportSurvey.Json

/-- A finite number is `mantissa * 2 ^ exponent` with a mantissa below `2 ^ 53`. -/
inductive Double
  | finite (negative : Bool) (mantissa : Nat) (exponent : Int)
  | infinite (negative : Bool)
  | notANumber
deriving DecidableEq, Repr

namespace Double

/-- A number with a mantissa of full length is normal; this is the least such mantissa. -/
def leastNormal : Nat :=
  0x10000000000000

/-- The quotient rounded to the nearest natural number, a tie to the even one. -/
def roundDiv (num den : Nat) : Nat :=
  let floor := num / den
  let twice := 2 * (num % den)
  if twice < den || (twice == den && floor % 2 == 0) then floor else floor + 1

/-- `base ^ exponent` as numerator and denominator. -/
def power (base : Nat) (exponent : Int) : Nat × Nat :=
  if exponent < 0 then (1, Nat.pow base (-exponent).toNat) else (Nat.pow base exponent.toNat, 1)

/-- The double nearest to `num / den`. -/
def nearest (negative : Bool) (num den : Nat) : Double :=
  let guess : Int := num.log2 - den.log2 - 53
  let scaled (q : Int) : Nat × Nat :=
    let p := power 2 (-q)
    (num * p.1, den * p.2)
  let fits := (scaled guess).1 < 2 * leastNormal * (scaled guess).2
  let q := max (if fits then guess else guess + 1) (-1074)
  let m := roundDiv (scaled q).1 (scaled q).2
  let (m, q) := if m == 2 * leastNormal then (leastNormal, q + 1) else (m, q)
  if q > 971 then infinite negative else finite negative m q

/-- The double nearest to the decimal `digits * 10 ^ exponent`, `digits` having `count` digits. -/
def ofDecimal (negative : Bool) (digits count : Nat) (exponent : Int) : Double :=
  if digits == 0 || exponent + count < -400 then finite negative 0 0
  else if exponent + count > 400 then infinite negative
  else
    let p := power 10 exponent
    nearest negative (digits * p.1) p.2

/-- Whether `c * 10 ^ s` is at most `n * 2 ^ e`. -/
def decimalLe (c : Nat) (s : Int) (n : Nat) (e : Int) : Bool :=
  let ten := power 10 s
  let two := power 2 e
  c * ten.1 * two.2 ≤ n * two.1 * ten.2

def decimalEq (c : Nat) (s : Int) (n : Nat) (e : Int) : Bool :=
  let ten := power 10 s
  let two := power 2 e
  c * ten.1 * two.2 == n * two.1 * ten.2

/-- Whether `c * 10 ^ s` reads back as the double `m * 2 ^ q`: it lies between the midpoints to the
neighbours, and on one of them only if the mantissa is even. -/
def readsBack (m : Nat) (q : Int) (c : Nat) (s : Int) : Bool :=
  let low := 4 * m - (if m == leastNormal && q > -1074 then 1 else 2)
  let high := 4 * m + 2
  let e := q - 2
  let even := m % 2 == 0
  let above := !decimalLe c s low e || (even && decimalEq c s low e)
  let below := decimalLe c s high e && (even || !decimalEq c s high e)
  above && below

/-- The decimal exponent `k` with `10 ^ (k - 1) ≤ num / den < 10 ^ k`. -/
def decimalPoint (num den : Nat) : Int :=
  if num ≥ den then ((Nat.toDigits 10 (num / den)).length : Int)
  else Int.negOfNat (((List.range 400).find? fun j => num * Nat.pow 10 (j + 1) ≥ den).getD 0)

/-- Of the decimals with `n` significant digits next to the double, the one that reads back and is
nearer, as its digits and the exponent of the last. -/
def shortestWith? (m : Nat) (q : Int) (n : Nat) : Option (Nat × Int) :=
  let two := power 2 q
  let s := decimalPoint (m * two.1) two.2 - n
  let ten := power 10 s
  let num := m * two.1 * ten.2
  let den := two.2 * ten.1
  let floor := num / den
  match readsBack m q floor s, readsBack m q (floor + 1) s with
  | true, true => some (roundDiv num den, s)
  | true, false => some (floor, s)
  | false, true => some (floor + 1, s)
  | false, false => none

/-- The shortest decimal that reads back, as its digits and the exponent of the last. -/
def shortest (m : Nat) (q : Int) : Nat × Int :=
  ((List.range' 1 17).findSome? (shortestWith? m q)).getD (m, 0)

/-- The written form of a positive decimal: positional from `1e-4` up to but not including `1e16`,
with at least one digit behind the point, and with an exponent of two digits or more otherwise. -/
def decimalText (digits : Nat) (exponent : Int) : List Char :=
  let all := Nat.toDigits 10 digits
  let shown := (all.reverse.dropWhile (· == '0')).reverse
  let point : Int := all.length + exponent
  if -4 < point && point ≤ 16 then
    if point ≤ 0 then '0' :: '.' :: List.replicate (-point).toNat '0' ++ shown
    else
      let whole := shown.take point.toNat
      let fraction := shown.drop point.toNat
      whole ++ List.replicate (point.toNat - whole.length) '0' ++ '.' ::
        (if fraction.isEmpty then ['0'] else fraction)
  else
    let lead := shown.take 1 ++ (if shown.length > 1 then '.' :: shown.drop 1 else [])
    let e := point - 1
    let size := Nat.toDigits 10 e.natAbs
    lead ++ 'e' :: (if e < 0 then '-' else '+') ::
      (if size.length < 2 then '0' :: size else size)

def finiteText (negative : Bool) (m : Nat) (q : Int) : List Char :=
  let body := if m == 0 then ['0', '.', '0'] else decimalText (shortest m q).1 (shortest m q).2
  if negative then '-' :: body else body

end Double

end ImportSurvey.Json
