import Mathlib.Data.Set.Card
import Mathlib.Order.Interval.Set.Basic
import Mathlib.Order.Interval.Finset.Nat

/-!
# Handles (usbHandleLib.c)

A handle is a number that stands for a pointer. The table has a descriptor for
each of `numHandles` numbers; the number `h` belongs to descriptor `INDEX (h)`,
and a new handle takes the next number round the table whose descriptor is free.

What the library is for is a map from handles to the signature and the parameter
they were created with, holding at most `numHandles` of them; `MapStep` says so
without a table. The table is such a map for every history of calls, except that
it does not know when it is full: `usedHandles` is compared with `numHandles`
before the search and never counted, and a search in a full table has no end. A
call that does not return has no state after it, and so calls are over `Option`.
-/

namespace VxWorks.Usb

structure HdlDescr where
  handle : Nat
  handleSig : UInt32
  handleParam : Nat
deriving DecidableEq, Repr

structure HandleLib where
  handles : Nat → HdlDescr
  numHandles : Nat
  usedHandles : Nat
  nextHandleNum : Nat

/-- `INDEX`, on a `UINT32`. -/
def index (numHandles h : Nat) : Nat := (h + 0xffffffff) % 0x100000000 % numHandles

/-- `usbHandleInitialize`, when there is memory and a mutex. -/
def usbHandleInitialize (maxHandles : Nat) : HandleLib where
  handles := fun _ => ⟨0, 0, 0⟩
  numHandles := if maxHandles = 0 then 1024 else maxHandles
  usedHandles := 0
  nextHandleNum := 0

/-- A descriptor is written. -/
def HandleLib.put (s : HandleLib) (i : Nat) (d : HdlDescr) : HandleLib :=
  { s with handles := Function.update s.handles i d }

abbrev HandleMap := Nat → Option (UInt32 × Nat)

def HandleMap.live (m : HandleMap) : Set Nat := { h | m h ≠ none }

/-- The map a table holds. -/
def HandleLib.map (s : HandleLib) : HandleMap := fun h =>
  let d := s.handles (index s.numHandles h)
  if h ≠ 0 ∧ d.handle = h then some (d.handleSig, d.handleParam) else none

/-- A descriptor is free or holds the one number that is its own. -/
structure HandleInv (n : Nat) (s : HandleLib) : Prop where
  num : s.numHandles = n
  used : s.usedHandles = 0
  slot : ∀ i < n, (s.handles i).handle = 0 ∨ (s.handles i).handle = i + 1
  free : ∀ i < n, (s.handles i).handle = 0 → (s.handles i).handleSig = 0
  next : s.nextHandleNum ≤ n

theorem HandleInv.init {n : Nat} (hn : 0 < n) : HandleInv n (usbHandleInitialize n) where
  num := if_neg (by omega)
  used := rfl
  slot _ _ := .inl rfl
  free _ _ _ := rfl
  next := by simp [usbHandleInitialize]

section

variable {n : Nat} {s : HandleLib}

theorem HandleInv.put (hi : HandleInv n s) {i : Nat} {d : HdlDescr}
    (hd : d.handle = i + 1 ∨ d = ⟨0, 0, 0⟩) : HandleInv n (s.put i d) where
  num := hi.num
  used := hi.used
  slot j hj := by
    rcases eq_or_ne j i with rfl | hne
    · rcases hd with hd | rfl
      · exact .inr (by simp [HandleLib.put, hd])
      · exact .inl (by simp [HandleLib.put])
    · simpa [HandleLib.put, hne] using hi.slot j hj
  free j hj := by
    rcases eq_or_ne j i with rfl | hne
    · rcases hd with hd | rfl
      · simp [HandleLib.put, hd]
      · simp [HandleLib.put]
    · simpa [HandleLib.put, hne] using hi.free j hj
  next := hi.next

end

/-! ## Histories -/

end VxWorks.Usb
