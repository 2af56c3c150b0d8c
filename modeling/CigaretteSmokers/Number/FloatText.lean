import CigaretteSmokers.Number.Shortest

namespace CigaretteSmokers

/-- How a floating-point number is spelled. -/
structure FloatStyle where
  /-- Whether a whole number ends in a point and a zero. -/
  pointed : Bool
  /-- Positional from the first power of ten up to, and without, the second. -/
  positional : Option (Int × Int) := none
  nan : String
  /-- Whether NaN shows its sign. -/
  signedNaN : Bool := false

namespace FloatStyle

/-- Messages show a number by its digits alone. -/
def message : FloatStyle where
  pointed := false
  nan := "NaN"

/-- Records show a number with a point, and very large and very small ones with an exponent. -/
def record : FloatStyle where
  pointed := true
  positional := some (-4, 16)
  nan := "NaN"

end FloatStyle

namespace Decimal

def digitText (d : Decimal) : List Char := Nat.toDigits 10 d.digits

/-- The position of the first digit: the decimal lies from `10 ^ (lead - 1)` up to `10 ^ lead`. -/
def lead (d : Decimal) : Int := d.digitText.length + d.power

def positional (pointed : Bool) (d : Decimal) : List Char :=
  let text := d.digitText
  match d.power with
  | .ofNat n =>
      let zeros := if d.digits = 0 then 0 else n
      text ++ List.replicate zeros '0' ++ (if pointed then ['.', '0'] else [])
  | .negSucc n =>
      let places := n + 1
      if places < text.length then
        text.take (text.length - places) ++ '.' :: text.drop (text.length - places)
      else '0' :: '.' :: (List.replicate (places - text.length) '0' ++ text)

def scientific (d : Decimal) : List Char :=
  let exponent := (toString (d.lead - 1)).toList
  match d.digitText with
  | [c] => c :: 'e' :: exponent
  | c :: rest => c :: '.' :: (rest ++ 'e' :: exponent)
  | [] => []

end Decimal

namespace Binary64

def render (style : FloatStyle) (x : Binary64) : String :=
  let sign := if x.signed then ['-'] else []
  if x.isNaN then String.ofList (if style.signedNaN then sign else []) ++ style.nan
  else if x.isInfinite then String.ofList sign ++ "inf"
  else
    let d := x.shortest
    let plain := match style.positional with
      | some (low, high) => x.isZero || (low < d.lead && d.lead ≤ high)
      | none => true
    String.ofList (sign ++ if plain then d.positional style.pointed else d.scientific)

end Binary64

end CigaretteSmokers
