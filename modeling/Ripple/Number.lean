/-!
# Whole numbers

The limits of numbers that are kept in a fixed number of bits, and the total of
a list of numbers.
-/

namespace Ripple
namespace Number

/-- Numbers of 64 bits are below this. -/
def wordLimit : Nat := 0x10000000000000000

/-- Numbers of 64 bits with a sign are below this. -/
def signedLimit : Nat := 0x8000000000000000

/-- Numbers of 32 bits are below this. -/
def halfLimit : Nat := 0x100000000

def total : List Nat → Nat
  | [] => 0
  | n :: ns => n + total ns

@[simp] theorem total_nil : total [] = 0 := rfl

@[simp] theorem total_cons (n : Nat) (ns : List Nat) : total (n :: ns) = n + total ns := rfl

@[simp] theorem total_append (ms ns : List Nat) : total (ms ++ ns) = total ms + total ns := by
  induction ms with
  | nil => simp
  | cons m ms ih => simp [ih, Nat.add_assoc]

end Number
end Ripple
