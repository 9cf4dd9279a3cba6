import Mathlib.Data.Nat.Notation
import Mathlib.Logic.Function.Basic

/-! A table of descriptors: numbers that stand for open objects, and that are given out
again once they are closed. -/
namespace Memory

/-- What each number stands for, if it is open. -/
abbrev Descriptors (O : Type*) := ℕ → Option O

namespace Descriptors

variable {O : Type*} {d : Descriptors O} {m n : ℕ} {o : O}

def empty : Descriptors O := fun _ => none

def openAt (d : Descriptors O) (n : ℕ) (o : O) : Descriptors O := Function.update d n (some o)

/-- Closing a number that stands for nothing changes nothing. -/
def close (d : Descriptors O) (n : ℕ) : Descriptors O := Function.update d n none

@[simp] theorem openAt_same : d.openAt n o n = some o := Function.update_self ..

@[simp] theorem openAt_ne (h : m ≠ n) : d.openAt n o m = d m := Function.update_of_ne h ..

@[simp] theorem close_same : d.close n n = none := Function.update_self ..

@[simp] theorem close_ne (h : m ≠ n) : d.close n m = d m := Function.update_of_ne h ..

end Descriptors
end Memory
