import ItemTree.Decimal.Double

/-!
# The fewest decimal digits that read back

The reals that round to a double form an interval around it. `Double.shortest` is the point of that interval on the
coarsest decimal grid that has one; of two such points the nearer, and a `Tie` decides between two equally near
ones.
-/

namespace ItemTree

/-- which of two equally near decimals is taken -/
inductive Tie where
  /-- the larger magnitude -/
  | away
  /-- the one with an even last digit -/
  | toEven
  deriving DecidableEq, Repr

/-- the number `digits * 10 ^ exponent` -/
structure Decimal where
  digits : Nat
  exponent : Int
  deriving DecidableEq, Repr

namespace Decimal

/-- the same value without trailing zeros, of which at most `fuel` are taken off -/
def strip : Nat → Decimal → Decimal
  | 0, d => d
  | fuel + 1, d => if d.digits % 10 = 0 ∧ d.digits ≠ 0 then strip fuel ⟨d.digits / 10, d.exponent + 1⟩ else d

/-- power of ten of the leading digit -/
def magnitude (d : Decimal) : Int := (Nat.toDigits 10 d.digits).length - 1 + d.exponent

end Decimal

/-- the reals that round to `middle / unit`: from `low / unit` to `high / unit`, ends included or not -/
structure Rounding where
  unit : Nat
  low : Nat
  middle : Nat
  high : Nat
  closed : Bool

namespace Rounding

/-- the interval of a finite double -/
def ofDouble (d : Double) : Rounding :=
  let m := d.mantissa
  let up := Nat.pow 2 (d.exponent - 2).toNat
  { unit := Nat.pow 2 (2 - d.exponent).toNat
    low := (4 * m - if d.atBinade then 1 else 2) * up
    middle := 4 * m * up
    high := (4 * m + 2) * up
    closed := m % 2 == 0 }

/-- power of ten of the leading digit of `middle / unit`, for a positive middle -/
def magnitude (r : Rounding) : Int :=
  if r.unit ≤ r.middle then (Nat.toDigits 10 (r.middle / r.unit)).length - 1
  else -((Nat.toDigits 10 ((r.unit - 1) / r.middle)).length : Int)

/-- on the grid `10 ^ k`, the point `n * 10 ^ k` compares with `x / unit` as `n * step r k` with `x * stretch k` -/
def step (r : Rounding) (k : Int) : Nat := r.unit * Nat.pow 10 k.toNat

@[inherit_doc step]
def stretch (k : Int) : Nat := Nat.pow 10 (-k).toNat

/-- the point `n * 10 ^ k` rounds to the middle -/
def contains (r : Rounding) (k : Int) (n : Nat) : Bool :=
  let x := n * r.step k
  let low := r.low * stretch k
  let high := r.high * stretch k
  if r.closed then low ≤ x && x ≤ high else low < x && x < high

/-- the nearer of the two grid points around the middle, `n` and `n + 1` -/
def nearer (r : Rounding) (tie : Tie) (k : Int) (n : Nat) : Nat :=
  let below := r.middle * stretch k - n * r.step k
  let above := (n + 1) * r.step k - r.middle * stretch k
  if below < above then n
  else if above < below then n + 1
  else match tie with
    | .away => n + 1
    | .toEven => n + n % 2

/-- the best point of the interval on the grid `10 ^ k`, if it has one -/
def onGrid? (r : Rounding) (tie : Tie) (k : Int) : Option Decimal :=
  let n := r.middle * stretch k / r.step k
  match r.contains k n, r.contains k (n + 1) with
  | true, true => some ⟨r.nearer tie k n, k⟩
  | true, false => some ⟨n, k⟩
  | false, true => some ⟨n + 1, k⟩
  | false, false => none

/-- the first grid with a point, from one digit to seventeen; seventeen digits are always enough -/
def shortest (r : Rounding) (tie : Tie) : Decimal :=
  let top := r.magnitude
  let finest := top - 16
  let found := (List.range 17).findSome? fun (i : Nat) => r.onGrid? tie (top - i)
  (found.getD ⟨r.nearer tie finest (r.middle * stretch finest / r.step finest), finest⟩).strip 18

end Rounding

/-- shortest decimal of the magnitude of a finite double other than zero -/
def Double.shortest (tie : Tie) (d : Double) : Decimal := (Rounding.ofDouble d).shortest tie

end ItemTree
