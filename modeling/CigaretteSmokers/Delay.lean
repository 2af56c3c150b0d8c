import CigaretteSmokers.Number.Binary64
import CigaretteSmokers.Number.Rounding
import CigaretteSmokers.Random.Generator

namespace CigaretteSmokers

/-- A length of time, in whole nanoseconds. -/
structure Duration where
  nanoseconds : Nat
  deriving DecidableEq, Inhabited

namespace Duration

def zero : Duration := ⟨0⟩

def perSecond : Nat := 1000000000

/-- The seconds that a duration stays below. -/
def longest : Nat := 0x10000000000000000

def wholeSeconds (d : Duration) : Nat := d.nanoseconds / perSecond

def subsecond (d : Duration) : Nat := d.nanoseconds % perSecond

/-- The whole milliseconds that cover `d`. -/
def ceilMilliseconds (d : Duration) : Nat := (d.nanoseconds + 999999) / 1000000

/-- The exact value of `x` seconds to the nearest nanosecond, below 2⁶⁴ seconds. -/
def ofSeconds (x : Binary64) : Except Crash Duration :=
  if !x.isFinite then .error .delayTooLong
  else match x.exponent with
    | .ofNat e =>
        if longest ≤ x.mantissa * Nat.pow 2 e then .error .delayTooLong
        else .ok ⟨x.mantissa * Nat.pow 2 e * perSecond⟩
    | .negSucc e =>
        if longest * Nat.pow 2 (e + 1) ≤ x.mantissa then .error .delayTooLong
        else .ok ⟨Rounding.divEven (x.mantissa * perSecond) (Nat.pow 2 (e + 1))⟩

end Duration

inductive TimeUnit
  | microseconds
  | milliseconds
  deriving DecidableEq, Inhabited

namespace TimeUnit

def perSecond : TimeUnit → Float
  | .microseconds => 1000000
  | .milliseconds => 1000

def name : TimeUnit → String
  | .microseconds => "microseconds"
  | .milliseconds => "milliseconds"

def all : List TimeUnit := [.microseconds, .milliseconds]

end TimeUnit

/-- How long a piece of work takes: a base with a random part about it. -/
structure DelayModel where
  base : Binary64 := ⟨0x4059000000000000⟩
  stddev : Binary64 := ⟨0x403e000000000000⟩
  unit : TimeUnit := .microseconds
  deriving DecidableEq, Inhabited

namespace DelayModel

/-- The time that an amount of the unit stands for. What is not a positive number takes no time. -/
def lasting (unit : TimeUnit) (amount : Float) : Except Crash Duration :=
  if 0 < amount && (Binary64.ofFloat amount).isFinite then
    Duration.ofSeconds (Binary64.ofFloat (amount / unit.perSecond))
  else .ok .zero

def sample (m : DelayModel) (g : Random.Generator) : Except Crash Duration × Random.Generator :=
  let (noise, g) := g.nextNormal m.stddev.toFloat
  (lasting m.unit (m.base.toFloat + noise), g)

end DelayModel

end CigaretteSmokers
