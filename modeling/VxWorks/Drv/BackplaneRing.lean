import Mathlib.Data.Nat.Bitwise
import VxWorks.Drv.BackplaneNet
import VxWorks.Lib.Circular

/-!
# The rings of the backplane (if_bp.c)

A ring is a queue in a circular array, of a size that is a power of two, so that `next` is
the next slot. One slot stays unused: the ring is full when the next write index is the
read index, and empty when the two are the same.

What a task that has the lock has done so far is in `Ring.At`, and from when on the result
of its call is certain in `Ring.outcome`; `ring_step` puts the two together into what one
access can do. The queue is longer by one when the write index is stored, and shorter by
one when the read index is.
-/

namespace VxWorks.Drv.Bp

open VxWorks.Lib

/-- The slots from the read index to the write index. -/
def Ring.nodes (r : Ring) : List Nat :=
  (List.range ((r.wrtidx + r.size - r.rdidx) % r.size)).map fun i =>
    r.slot ((r.rdidx + i) % r.size)

/-- The ring has `n` slots, and `l` is in it. -/
structure Ring.IsQueue (r : Ring) (n : Nat) (l : List Nat) : Prop where
  size : r.size = n
  pow : ∃ k, n = 2 ^ k
  first : r.rdidx < n
  circular : Circular r.slot n r.rdidx l
  last : r.wrtidx = (r.rdidx + l.length) % n
  room : l.length < n

/-- `x`, the next write index, less the read index. -/
def Ring.length (r : Ring) (x : Nat) : Nat :=
  if x < r.rdidx then x + r.size - r.rdidx else x - r.rdidx

/-- The result of a call, from when on it is certain. -/
def Ring.outcome (r : Ring) : RingPc → Option Nat
  | .count x => some (r.length x)
  | .unlock x => some x
  | _ => none

/-- What a task has done to a ring that holds `l`. -/
def Ring.At (r : Ring) (l : List Nat) : RingOp → RingPc → Prop
  | .put _, .store x => x = r.next r.wrtidx ∧ x ≠ r.rdidx
  | .put v, .index x => x = r.next r.wrtidx ∧ x ≠ r.rdidx ∧ r.slot r.wrtidx = v
  | .get, .store _ => l ≠ []
  | .get, .index x => l.head? = some x
  | .get, .count _ => False
  | _, _ => True

/-- Between the lock and its end. -/
def RingPc.Locked : RingPc → Prop
  | .lock _ => False
  | _ => True

section

variable {r : Ring} {n : Nat} {l : List Nat}

theorem Ring.IsQueue.next_eq (h : r.IsQueue n l) (i : Nat) : r.next i = (i + 1) % n := by
  obtain ⟨k, hk⟩ := h.pow
  rw [Ring.next, h.size, hk, Nat.and_two_pow_sub_one_eq_mod]

theorem Ring.IsQueue.next_wrtidx (h : r.IsQueue n l) :
    r.next r.wrtidx = (r.rdidx + (l.length + 1)) % n := by
  rw [h.next_eq, h.last, Nat.mod_add_mod, Nat.add_assoc]

/-- A value in the slot behind the queue. -/
theorem Ring.IsQueue.store (h : r.IsQueue n l) (v : Nat) :
    { r with slot := Function.update r.slot r.wrtidx v }.IsQueue n l where
  size := h.size
  pow := h.pow
  first := h.first
  circular := by
    show Circular (Function.update r.slot r.wrtidx v) n r.rdidx l
    rw [h.last]
    exact h.circular.write h.room v
  last := h.last
  room := h.room

theorem Ring.IsQueue.push {v : Nat} (h : r.IsQueue n l) (hroom : l.length + 1 < n)
    (hv : r.slot r.wrtidx = v) : { r with wrtidx := r.next r.wrtidx }.IsQueue n (l ++ [v]) where
  size := h.size
  pow := h.pow
  first := h.first
  circular := h.circular.push h.room (by rw [← h.last, hv])
  last := by rw [List.length_append, List.length_singleton]; exact h.next_wrtidx
  room := by rw [List.length_append]; exact hroom

theorem Ring.IsQueue.pop {x : Nat} (h : r.IsQueue n (x :: l)) :
    { r with rdidx := r.next r.rdidx }.IsQueue n l where
  size := h.size
  pow := h.pow
  first := by
    show r.next r.rdidx < n
    rw [h.next_eq]
    exact Nat.mod_lt _ (Nat.zero_lt_of_lt h.first)
  circular := by
    show Circular r.slot n (r.next r.rdidx) l
    rw [h.next_eq]
    exact h.circular.pop
  last := by
    show r.wrtidx = (r.next r.rdidx + l.length) % n
    rw [h.next_eq, circle_tail]
    exact h.last
  room := Nat.lt_of_succ_lt h.room

theorem Ring.IsQueue.tas (h : r.IsQueue n l) (b : Bool) : { r with tas := b }.IsQueue n l :=
  ⟨h.size, h.pow, h.first, h.circular, h.last, h.room⟩

theorem Ring.IsQueue.nodes_eq (h : r.IsQueue n l) : r.nodes = l := by
  have hlen : (r.wrtidx + r.size - r.rdidx) % r.size = l.length := by
    have hroom := h.room
    have hfirst := h.first
    rw [h.size, h.last]
    by_cases hlt : r.rdidx + l.length < n
    · rw [Nat.mod_eq_of_lt hlt, show r.rdidx + l.length + n - r.rdidx = l.length + n by omega,
        Nat.add_mod_right, Nat.mod_eq_of_lt hroom]
    · have hwrap : (r.rdidx + l.length) % n = r.rdidx + l.length - n := by
        rw [Nat.mod_eq_sub_mod (by omega), Nat.mod_eq_of_lt (by omega)]
      rw [hwrap, show r.rdidx + l.length - n + n - r.rdidx = l.length by omega,
        Nat.mod_eq_of_lt hroom]
  rw [Ring.nodes, hlen, h.size]
  apply List.ext_getElem
  · simp
  · intro i hi hi'
    rw [List.getElem_map, List.getElem_range]
    exact h.circular.holds i _ (List.getElem?_eq_getElem hi')

/-- What an access does to a ring that holds `l`: the result is certain after it, or not; and
the ring holds `l'`. -/
inductive Turn (r : Ring) (l : List Nat) (op : RingOp) (pc : RingPc) : Option Nat → List Nat → Prop
  | stay (hpc : ∀ y, pc ≠ .index y) : Turn r l op pc (r.outcome pc) l
  | got (x l') (hpc : pc = .index x) (hop : op = .get) (hl : l = x :: l') :
      Turn r l op pc (some x) l'
  | laid (v x y) (hpc : pc = .index y) (hop : op = .put v) (hx : x ≠ 0) :
      Turn r l op pc (some x) (l ++ [v])
  | failed (hpc : pc = .test)
      (hwhy : (op = .get ∧ l = []) ∨ (op ≠ .get ∧ l.length + 1 = r.size)) :
      Turn r l op pc (some 0) l

end

end VxWorks.Drv.Bp
