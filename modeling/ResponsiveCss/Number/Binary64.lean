import ResponsiveCss.Number.Rounding

/-!
# Double-precision numbers

A finite double-precision number is a sign and a count of quanta of `2 ^ -1074`
with at most 53 significant binary digits, below `2 ^ 1024` altogether. Both
zeros are kept apart. No machine arithmetic is involved: every operation is one
on natural numbers.
-/

namespace ResponsiveCss

/-- How many quanta make a one. -/
@[irreducible]
def quantaPerOne : Nat := Nat.pow 2 1074

/-- The least count of quanta that is too large. -/
@[irreducible]
def quantaLimit : Nat := Nat.pow 2 2098

theorem quantaLimit_pos : 0 < quantaLimit := by
  unfold quantaLimit
  generalize 2098 = n
  exact two_pow_positive n

/-- The absolute value of a finite number. -/
structure Magnitude where
  /-- The count of quanta. -/
  quanta : Nat
  /-- It has at most 53 significant binary digits. -/
  representable : IsRepresentable quanta
  /-- It is in range. -/
  inRange : quanta < quantaLimit
  deriving DecidableEq

/-- A double-precision number. -/
inductive Binary64 where
  | nan
  | infinite (negative : Bool)
  | finite (negative : Bool) (magnitude : Magnitude)
  deriving DecidableEq

namespace Magnitude

/-- The magnitude zero. -/
def zero : Magnitude := ⟨0, by decide, quantaLimit_pos⟩

/-- The magnitude nearest to `num / den` quanta, if it is in range. -/
def ofRatio? (num den : Nat) : Option Magnitude :=
  if h : nearest num den < quantaLimit then some ⟨nearest num den, isRepresentable_nearest _ _, h⟩
  else none

theorem ofRatio?_self (m : Magnitude) : ofRatio? m.quanta 1 = some m := by
  simp [ofRatio?, nearest_of_isRepresentable m.representable, m.inRange]

end Magnitude

namespace Binary64

/-- The number nearest to `± num / den` quanta; out of range, an infinity. -/
def ofRatio (negative : Bool) (num den : Nat) : Binary64 :=
  match Magnitude.ofRatio? num den with
  | some magnitude => .finite negative magnitude
  | none => .infinite negative

/-- The number nearest to `± digits * 10 ^ exponent`. Outside the two bounds on
the exponent the result does not depend on the digits. -/
def ofDecimal (negative : Bool) (digits : Nat) (exponent : Int) : Binary64 :=
  if digits = 0 then .finite negative .zero
  else if 400 < exponent then .infinite negative
  else if exponent + Nat.log2 digits < -400 then .finite negative .zero
  else match exponent with
    | .ofNat e => ofRatio negative (digits * Nat.pow 10 e * quantaPerOne) 1
    -- the exponent is `-(e + 1)`
    | .negSucc e => ofRatio negative (digits * quantaPerOne) (Nat.pow 10 (e + 1))

/-- The number nearest to an integer. -/
def ofInt (n : Int) : Binary64 := ofDecimal (n < 0) n.natAbs 0

/-- Whether the number is a zero of either sign. -/
def isZero : Binary64 → Bool
  | .finite _ magnitude => magnitude.quanta == 0
  | _ => false

/-- Whether the number is neither infinite nor not a number. -/
def isFinite : Binary64 → Bool
  | .finite .. => true
  | _ => false

/-- Whether the number is at most the natural number `bound`; not a number is
at most nothing. -/
def leNat (x : Binary64) (bound : Nat) : Bool :=
  match x with
  | .nan => false
  | .infinite negative => negative
  | .finite negative magnitude => negative || magnitude.quanta ≤ bound * quantaPerOne

/-- The number as an integer, if it is one of absolute value below `bound`. -/
def toIntBelow? (bound : Nat) : Binary64 → Option Int
  | .finite negative magnitude =>
    if magnitude.quanta % quantaPerOne = 0 ∧ magnitude.quanta < bound * quantaPerOne then
      let n := magnitude.quanta / quantaPerOne
      some (if negative then -(n : Int) else n)
    else none
  | _ => none

/-- The number moved into `0 .. 100` and rounded to an integer, a half upwards;
not a number counts as zero. -/
def toPercent : Binary64 → Nat
  | .nan => 0
  | .infinite negative => if negative then 0 else 100
  | .finite negative magnitude =>
    if negative then 0
    else min 100 ((2 * magnitude.quanta + quantaPerOne) / (2 * quantaPerOne))

end Binary64
end ResponsiveCss
