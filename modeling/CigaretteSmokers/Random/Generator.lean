import CigaretteSmokers.Fault
import CigaretteSmokers.Random.Keystream

namespace CigaretteSmokers.Random

/-- A source of random words that can be replayed: all that it yields depends on its seed, and
`position` says how many words it has yielded. -/
structure Generator where
  seed : UInt64
  position : Nat := 0
  deriving DecidableEq, Inhabited

namespace Generator

def advance (state : UInt64) : UInt64 := state * 6364136223846793005 + 11634580027462260723

def rotateRight (x n : UInt32) : UInt32 := (x >>> n) ||| (x <<< ((32 - n) % 32))

def scramble (state : UInt64) : UInt32 :=
  rotateRight (((state >>> 18) ^^^ state) >>> 27).toUInt32 (state >>> 59).toUInt32

def expand : Nat → UInt64 → List UInt32
  | 0, _ => []
  | n + 1, state => scramble (advance state) :: expand n (advance state)

theorem length_expand (n : Nat) (state : UInt64) : (expand n state).length = n := by
  induction n generalizing state with
  | zero => rfl
  | succ n ih => simp [expand, ih]

/-- The key that a seed stands for. -/
def key (seed : UInt64) : Keystream.Key :=
  ⟨(expand 8 seed).toArray, by simp [length_expand]⟩

def ofSeed (seed : UInt64) : Generator := ⟨seed, 0⟩

/-- A generator whose seed comes from the surroundings. -/
def fromEntropy (entropy : UInt64) : Generator := ofSeed entropy

def next32 (g : Generator) : UInt32 × Generator :=
  (Keystream.word (key g.seed) g.position, { g with position := g.position + 1 })

/-- Two words, the low half first. -/
def next64 (g : Generator) : UInt64 × Generator :=
  let (low, g) := g.next32
  let (high, g) := g.next32
  (high.toUInt64 <<< 32 ||| low.toUInt64, g)

/-- A number from 0 up to, but not including, 1, on the grid of 2⁻⁵³. -/
def nextUnit (g : Generator) : Float × Generator :=
  let (v, g) := g.next64
  ((v >>> 11).toFloat * Float.ofBits 0x3ca0000000000000, g)

def sumUnits : Nat → Float → Generator → Float × Generator
  | 0, sum, g => (sum, g)
  | n + 1, sum, g =>
      let (u, g) := g.nextUnit
      sumUnits n (sum + u) g

/-- Twelve units, centred and scaled: nearly normal, with the given standard deviation. -/
def nextNormal (stddev : Float) (g : Generator) : Float × Generator :=
  let (sum, g) := g.sumUnits 12 0
  ((sum - 6) * stddev, g)

/-- The size of the words from which a range is drawn. -/
inductive Width
  | word32
  | word64
  deriving DecidableEq

def Width.bits : Width → Nat
  | .word32 => 32
  | .word64 => 64

/-- How many words there are. -/
def Width.count (w : Width) : Nat := Nat.pow 2 w.bits

def nextWord (w : Width) (g : Generator) : Nat × Generator :=
  match w with
  | .word32 => let (v, g) := g.next32; (v.toNat, g)
  | .word64 => let (v, g) := g.next64; (v.toNat, g)

/-- Draws until the low half of the product is at most `zone`. The last try is taken as it is:
each try is refused with a chance below one half, so that many are never needed. -/
def retry (w : Width) (n zone : Nat) : Nat → Generator → Nat × Generator
  | 0, g =>
      let (v, g) := g.nextWord w
      (v * n / w.count, g)
  | tries + 1, g =>
      let (v, g) := g.nextWord w
      if v * n % w.count ≤ zone then (v * n / w.count, g) else retry w n zone tries g

/-- The largest multiple of `n` by a power of two that a word holds, less one. -/
def zone (w : Width) (n : Nat) : Nat := n * Nat.pow 2 (w.bits - 1 - n.log2) - 1

/-- An even draw from the `n` numbers below `n`. -/
def nextBelow (w : Width) (n : Nat) (g : Generator) : Nat × Generator :=
  if n = w.count then g.nextWord w else retry w n (zone w n) 1024 g

/-- An even draw from `low` to `high`, both included. -/
def nextBetween (w : Width) (low high : Int) (g : Generator) : Except Crash Int × Generator :=
  if high < low then (.error .emptyRange, g)
  else
    let (v, g) := g.nextBelow w (high - low + 1).toNat
    (.ok (low + v), g)

/-- The kind whose two partners are laid out next. -/
def nextIngredient (g : Generator) : Except ActorError Ingredient × Generator :=
  let (v, g) := g.nextBelow .word64 Ingredient.all.length
  (Ingredient.ofNumber v, g)

theorem nextWord_lt (w : Width) (g : Generator) : (g.nextWord w).1 < w.count := by
  cases w with
  | word32 => exact g.next32.1.toNat_lt
  | word64 => exact g.next64.1.toNat_lt

theorem retry_lt (w : Width) {n : Nat} (hn : 0 < n) (zone tries : Nat) (g : Generator) :
    (retry w n zone tries g).1 < n := by
  have hscaled (g : Generator) : (g.nextWord w).1 * n / w.count < n :=
    Nat.div_lt_of_lt_mul (Nat.mul_lt_mul_of_pos_right (nextWord_lt w g) hn)
  induction tries generalizing g with
  | zero => exact hscaled g
  | succ tries ih =>
      unfold retry
      dsimp only
      split
      · exact hscaled g
      · exact ih _

theorem nextBelow_lt (w : Width) {n : Nat} (hn : 0 < n) (g : Generator) : (g.nextBelow w n).1 < n := by
  unfold nextBelow
  split
  · rename_i h
    exact h ▸ nextWord_lt w g
  · exact retry_lt w hn _ _ g

/-- A draw below three is the number of a smoker. -/
theorem nextIngredient_ok (g : Generator) : ∃ k, g.nextIngredient.1 = .ok k := by
  have h : (g.nextBelow .word64 Ingredient.all.length).1 < 3 := nextBelow_lt _ (by decide) g
  obtain ⟨k, hk⟩ := Ingredient.exists_ofIndex? h
  exact ⟨k, by simp only [nextIngredient, Ingredient.ofNumber, hk]⟩

end Generator

end CigaretteSmokers.Random
