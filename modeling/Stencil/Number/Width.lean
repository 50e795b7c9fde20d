/-!
# Powers and widths

Powers of two and ten, and the integers that a number of bits can hold.

* `fitsSigned_of_le`: more bits hold what fewer bits hold.
-/

namespace Stencil.Number

/-- Two to the power of `n`: so many numbers can be told apart by `n` bits. -/
def twoTo (n : Nat) : Nat := Nat.pow 2 n

/-- Ten to the power of `n`. -/
def tenTo (n : Nat) : Nat := Nat.pow 10 n

/-- Whether so many bits hold the integer, none of them for a sign. -/
def fitsUnsigned (bits : Nat) (n : Int) : Bool := 0 ≤ n && n < twoTo bits

/-- Whether so many bits hold the integer, one of them for the sign. -/
def fitsSigned (bits : Nat) (n : Int) : Bool :=
  -(twoTo (bits - 1) : Int) ≤ n && n < twoTo (bits - 1)

theorem twoTo_le {m n : Nat} (h : m ≤ n) : twoTo m ≤ twoTo n :=
  Nat.pow_le_pow_right (by decide) h

theorem fitsSigned_of_le {bits more : Nat} {n : Int} (hle : bits ≤ more)
    (h : fitsSigned bits n = true) : fitsSigned more n = true := by
  have hpow : twoTo (bits - 1) ≤ twoTo (more - 1) := twoTo_le (by omega)
  simp only [fitsSigned, Bool.and_eq_true, decide_eq_true_eq] at h ⊢
  omega

end Stencil.Number
