import Mathlib.Data.BitVec
import Mathlib.Logic.Function.Iterate

/-!
# Feistel networks

A round exchanges the halves of a block and adds to one of them a function of the other
and of a key. Whatever the function is, the network with its halves exchanged at the end
is undone by the same network with the keys in reverse order.
-/

namespace VxWorks.Lib

variable {κ : Type*} {n : Nat}

def feistelRound (f : κ → BitVec n → BitVec n) (s : BitVec n × BitVec n) (k : κ) :
    BitVec n × BitVec n :=
  (s.2, s.1 ^^^ f k s.2)

/-- The rounds in order, with the halves exchanged behind the last. -/
def feistel (f : κ → BitVec n → BitVec n) (ks : List κ) (s : BitVec n × BitVec n) :
    BitVec n × BitVec n :=
  (ks.foldl (feistelRound f) s).swap

/-- A round undoes itself between two exchanges. -/
theorem feistelRound_swap (f : κ → BitVec n → BitVec n) (s : BitVec n × BitVec n) (k : κ) :
    feistelRound f (feistelRound f s k).swap k = s.swap := by
  obtain ⟨l, r⟩ := s
  simp only [feistelRound, Prod.swap_prod_mk, Prod.mk.injEq, true_and]
  rw [BitVec.xor_assoc, BitVec.xor_self, BitVec.xor_zero]

theorem foldl_feistelRound_reverse (f : κ → BitVec n → BitVec n) (ks : List κ)
    (s : BitVec n × BitVec n) :
    ks.reverse.foldl (feistelRound f) (ks.foldl (feistelRound f) s).swap = s.swap := by
  induction ks generalizing s with
  | nil => rfl
  | cons k ks ih =>
      rw [List.reverse_cons, List.foldl_append, List.foldl_cons, List.foldl_nil, List.foldl_cons,
        ih]
      exact feistelRound_swap f s k

theorem feistel_reverse (f : κ → BitVec n → BitVec n) (ks : List κ) (s : BitVec n × BitVec n) :
    feistel f ks.reverse (feistel f ks s) = s := by
  rw [feistel, feistel, foldl_feistelRound_reverse, Prod.swap_swap]

theorem iterate_feistel_reverse (f : κ → BitVec n → BitVec n) (ks : List κ) (m : Nat)
    (s : BitVec n × BitVec n) : (feistel f ks.reverse)^[m] ((feistel f ks)^[m] s) = s :=
  Function.LeftInverse.iterate (feistel_reverse f ks) m s

end VxWorks.Lib
