import Wireframe.Number.Binary64

/-! The shortest decimal that reads back as a given binary64 number: of the numbers with the fewest
digits within the interval that rounds to it, the one nearest to it. -/

namespace Wireframe.Shortest

/-- A positive number `value` with the ends of the interval that rounds to it, all in quarters of a
unit of `2 ^ -1074`; the ends belong to the interval when `closed` holds. -/
structure Interval where
  low : Nat
  value : Nat
  high : Nat
  closed : Bool

open Float.Model in
/-- The interval of a positive finite number. -/
def Interval.ofFloat? (x : Float) : Option Interval :=
  match x.toModel.unpack with
  | .finite _ m e _ =>
    let ulp := Nat.pow 2 (e + 1074).toNat
    let v := 4 * (m * ulp)
    let below := if m = Nat.pow 2 52 ∧ -1074 < e then ulp else 2 * ulp
    some ⟨v - below, v, v + 2 * ulp, m % 2 = 0⟩
  | _ => none

/-- One, in quarters of a unit. -/
def one : Nat := 4 * Binary64.one

/-- The point `n * 10 ^ g` lies in the interval. -/
def Interval.holds (i : Interval) (n : Nat) (g : Int) : Bool :=
  let up := Nat.pow 10 (-g).toNat
  let p := n * one * Nat.pow 10 g.toNat
  if i.closed then i.low * up ≤ p && p ≤ i.high * up else i.low * up < p && p < i.high * up

/-- The digits and the exponent of the shortest decimal among those with `10 ^ g` as last place. -/
def Interval.onGrid? (i : Interval) (g : Int) : Option Nat :=
  let num := i.value * Nat.pow 10 (-g).toNat
  let den := one * Nat.pow 10 g.toNat
  let n := num / den
  let twice := 2 * (num % den)
  let nearest := if twice < den ∨ (twice = den ∧ n % 2 = 0) then n else n + 1
  if i.holds nearest g then some nearest
  else if i.holds n g then some n
  else if i.holds (n + 1) g then some (n + 1)
  else none

/-- The exponent of the leading digit of a number below one, counted down from `k`. -/
def leadBelow (v : Nat) : Nat → Nat → Int
  | 0, k => -(k : Int)
  | fuel + 1, k => if one ≤ v * Nat.pow 10 k then -(k : Int) else leadBelow v fuel (k + 1)

/-- The exponent of the leading digit. -/
def Interval.lead (i : Interval) : Int :=
  if one ≤ i.value then ((toString (i.value / one)).length : Int) - 1
  else leadBelow i.value 330 1

/-- The shortest decimal with `digits` digits or more, as digits and exponent of the last place. -/
def Interval.search (i : Interval) : Nat → Nat → Nat × Int
  | 0, _ => (i.value / one, 0)
  | fuel + 1, digits =>
    let g := i.lead - digits + 1
    match i.onGrid? g with
    | some n => (n, g)
    | none => i.search fuel (digits + 1)

/-- Digits without trailing zeros, with the exponent of the last place. -/
def strip : Nat → Nat → Int → Nat × Int
  | 0, n, g => (n, g)
  | fuel + 1, n, g => if n ≠ 0 ∧ n % 10 = 0 then strip fuel (n / 10) (g + 1) else (n, g)

/-- A number is written positionally when its point stands after place -4 and not past place 16; a
whole one then ends in `.0`. -/
def layout (digits : List Char) (point : Int) : List Char :=
  let n : Int := digits.length
  if -4 < point ∧ point ≤ 16 then
    if point ≤ 0 then '0' :: '.' :: List.replicate (-point).toNat '0' ++ digits
    else if n ≤ point then digits ++ List.replicate (point - n).toNat '0' ++ ['.', '0']
    else digits.take point.toNat ++ '.' :: digits.drop point.toNat
  else
    let mantissa := match digits with
      | [] => []
      | [d] => [d]
      | d :: ds => d :: '.' :: ds
    let e := point - 1
    let places := (toString e.natAbs).toList
    mantissa ++ 'e' :: (if e < 0 then '-' else '+') ::
      (if places.length < 2 then '0' :: places else places)

/-- The text of a binary64 number. -/
def text (x : Float) : String :=
  let sign := if x.toBits ≥ 0x8000000000000000 then "-" else ""
  match Binary64.ofFloat x with
  | .notANumber => "nan"
  | .infinite _ => sign ++ "inf"
  | .finite _ _ =>
    match Interval.ofFloat? x with
    | none => sign ++ "0.0"
    | some i =>
      let (n, g) := i.search 17 1
      let (n, g) := strip 20 n g
      let digits := (toString n).toList
      sign ++ String.ofList (layout digits (digits.length + g))

end Wireframe.Shortest
