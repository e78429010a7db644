import Mathlib.Data.List.Range
import VxWorks.Lib.Octets

/-!
# Buffers

A buffer is the octet at each offset. What lies beyond the end of the memory a
program may touch is not part of the type: a program that reads there reads
something, and it is for its proof to say that it does not. Two- and four-octet
fields are read and written in network order, and the lemmas are the ones that
let a proof go field by field: a field reads back what was written to it, and
is not touched by a write elsewhere.
-/

namespace VxWorks.Lib

/-- The octet at each offset. -/
abbrev Buf : Type := Nat → UInt8

namespace Buf

/-- The buffer that starts with the octets of a list. -/
def of (p : List UInt8) : Buf := fun i => p.getD i 0

/-- The first `n` octets. -/
def take (b : Buf) (n : Nat) : List UInt8 := (List.range n).map b

def u16 (b : Buf) (i : Nat) : UInt16 := get16 (b i) (b (i + 1))

def u32 (b : Buf) (i : Nat) : UInt32 := get32 (b i) (b (i + 1)) (b (i + 2)) (b (i + 3))

def set8 (b : Buf) (k : Nat) (v : UInt8) : Buf := fun i => if i = k then v else b i

def set16 (b : Buf) (k : Nat) (v : UInt16) : Buf :=
  fun i => if i = k then (v >>> 8).toUInt8 else if i = k + 1 then v.toUInt8 else b i

def set32 (b : Buf) (k : Nat) (v : UInt32) : Buf :=
  fun i =>
    if i = k then (v >>> 24).toUInt8
    else if i = k + 1 then (v >>> 16).toUInt8
    else if i = k + 2 then (v >>> 8).toUInt8
    else if i = k + 3 then v.toUInt8
    else b i

/-- The `n` octets from `k` on. -/
def slice (b : Buf) (k n : Nat) : List UInt8 := (List.range n).map fun i => b (k + i)

/-- The octets of a list over those from `k` on. -/
def putAt (b : Buf) (k : Nat) (l : List UInt8) : Buf :=
  fun i => if k ≤ i ∧ i < k + l.length then l.getD (i - k) 0 else b i

/-- `bcopy` within the buffer; the two places may overlap. -/
def move (b : Buf) (src dst n : Nat) : Buf := b.putAt dst (b.slice src n)

/-- `bcopy`: the first `n` octets from `src`, the others as they were. -/
def copy (src dst : Buf) (n : Nat) : Buf := fun i => if i < n then src i else dst i

section

variable {b c : Buf} {i k n : Nat}

theorem copy_lt (h : i < n) : copy b c n i = b i := by simp [copy, h]

theorem set8_same (v : UInt8) : set8 b k v k = v := by simp [set8]

theorem set8_of_ne (v : UInt8) (h : i ≠ k) : set8 b k v i = b i := by simp [set8, h]

theorem set16_of_ne (v : UInt16) (h : i ≠ k ∧ i ≠ k + 1) : set16 b k v i = b i := by
  simp [set16, h.1, h.2]

theorem set32_of_ne (v : UInt32) (h : i < k ∨ k + 4 ≤ i) : set32 b k v i = b i := by
  rw [set32]
  rw [if_neg (by omega), if_neg (by omega), if_neg (by omega), if_neg (by omega)]

theorem u16_congr (h₀ : b i = c i) (h₁ : b (i + 1) = c (i + 1)) : b.u16 i = c.u16 i := by
  rw [u16, u16, h₀, h₁]

theorem u32_congr (h : ∀ j, i ≤ j → j < i + 4 → b j = c j) : b.u32 i = c.u32 i := by
  rw [u32, u32, h i (by omega) (by omega), h (i + 1) (by omega) (by omega),
    h (i + 2) (by omega) (by omega), h (i + 3) (by omega) (by omega)]

theorem u16_set16_same (v : UInt16) : (set16 b k v).u16 k = v := by simp [u16, set16]

theorem u32_set32_same (v : UInt32) : (set32 b k v).u32 k = v := by simp [u32, set32]

theorem u16_set8_of_ne (v : UInt8) (h : i + 1 < k ∨ k < i) :
    (set8 b k v).u16 i = b.u16 i :=
  u16_congr (set8_of_ne v (by omega)) (set8_of_ne v (by omega))

theorem u16_set16_of_ne (v : UInt16) (h : i + 1 < k ∨ k + 1 < i) :
    (set16 b k v).u16 i = b.u16 i :=
  u16_congr (set16_of_ne v (by omega)) (set16_of_ne v (by omega))

theorem u16_set32_of_ne (v : UInt32) (h : i + 1 < k ∨ k + 3 < i) :
    (set32 b k v).u16 i = b.u16 i :=
  u16_congr (set32_of_ne v (by omega)) (set32_of_ne v (by omega))

theorem u32_set8_of_ne (v : UInt8) (h : i + 3 < k ∨ k < i) :
    (set8 b k v).u32 i = b.u32 i :=
  u32_congr fun j _ _ => set8_of_ne v (by omega)

theorem u32_set16_of_ne (v : UInt16) (h : i + 3 < k ∨ k + 1 < i) :
    (set16 b k v).u32 i = b.u32 i :=
  u32_congr fun j _ _ => set16_of_ne v (by omega)

theorem u32_set32_of_ne (v : UInt32) (h : i + 3 < k ∨ k + 3 < i) :
    (set32 b k v).u32 i = b.u32 i :=
  u32_congr fun j _ _ => set32_of_ne v (by omega)

/-! A field determines its octets. -/

theorem octets_of_u16 (h : b.u16 i = c.u16 i) : b i = c i ∧ b (i + 1) = c (i + 1) := by
  have hp := congrArg put16 h
  simpa [u16] using hp

theorem octets_of_u32 (h : b.u32 i = c.u32 i) {j : Nat} (hi : i ≤ j) (hj : j < i + 4) :
    b j = c j := by
  have hp := congrArg put32 h
  simp only [u32, put32_get32, List.cons.injEq, and_true] at hp
  obtain ⟨h₀, h₁, h₂, h₃⟩ := hp
  have : j = i ∨ j = i + 1 ∨ j = i + 2 ∨ j = i + 3 := by omega
  rcases this with rfl | rfl | rfl | rfl <;> assumption

theorem set16_self : b.set16 k (b.u16 k) = b := by
  have hp : put16 (b.u16 k) = [b k, b (k + 1)] := put16_get16 _ _
  simp only [put16, List.cons.injEq, and_true] at hp
  funext i
  rw [set16]
  split
  · next h => rw [hp.1, h]
  · split
    · next h => rw [hp.2, h]
    · rfl

theorem set32_self : b.set32 k (b.u32 k) = b := by
  have hp : put32 (b.u32 k) = [b k, b (k + 1), b (k + 2), b (k + 3)] := put32_get32 _ _ _ _
  simp only [put32, List.cons.injEq, and_true] at hp
  obtain ⟨h₀, h₁, h₂, h₃⟩ := hp
  funext i
  rw [set32]
  split
  · next h => rw [h₀, h]
  split
  · next h => rw [h₁, h]
  split
  · next h => rw [h₂, h]
  split
  · next h => rw [h₃, h]
  · rfl

theorem set8_set8 (v v' : UInt8) : (b.set8 k v).set8 k v' = b.set8 k v' := by
  funext i
  by_cases h : i = k
  · rw [h, set8_same, set8_same]
  · rw [set8_of_ne _ h, set8_of_ne _ h, set8_of_ne _ h]

/-! A list of octets in a buffer. -/

theorem of_lt {p : List UInt8} (h : i < p.length) : of p i = p[i] := by
  simp [of, h]

/-- The octets of `l` are at `k`. -/
def Holds (b : Buf) (k : Nat) (l : List UInt8) : Prop := ∀ i (h : i < l.length), b (k + i) = l[i]

theorem holds_append {l m : List UInt8} :
    b.Holds k (l ++ m) ↔ b.Holds k l ∧ b.Holds (k + l.length) m := by
  constructor
  · intro h
    refine ⟨?_, ?_⟩
    · intro i hi
      rw [h i (by simp; omega), List.getElem_append_left hi]
    · intro i hi
      have := h (l.length + i) (by simp; omega)
      rw [List.getElem_append_right (by omega)] at this
      simpa [Nat.add_assoc] using this
  · rintro ⟨hl, hm⟩ i hi
    by_cases hlt : i < l.length
    · rw [hl i hlt, List.getElem_append_left hlt]
    · have := hm (i - l.length) (by simp at hi; omega)
      rw [List.getElem_append_right (by omega), ← this]
      congr 1
      omega

theorem holds_of (p l q : List UInt8) : (of (p ++ (l ++ q))).Holds p.length l := by
  intro i hi
  rw [of_lt (by simp; omega), List.getElem_append_right (by omega),
    List.getElem_append_left (by omega)]
  simp

/-! Copying a field from one buffer to another, octet by octet. -/

theorem set16_u16 : (b.set16 k (c.u16 k)) i = if k ≤ i ∧ i < k + 2 then c i else b i := by
  by_cases h : k ≤ i ∧ i < k + 2
  · rw [if_pos h]
    have hsame := octets_of_u16 (b := b.set16 k (c.u16 k)) (c := c) (u16_set16_same _)
    rcases (show i = k ∨ i = k + 1 by omega) with rfl | rfl
    · exact hsame.1
    · exact hsame.2
  · rw [if_neg h, set16_of_ne _ (by omega)]

theorem set32_u32 : (b.set32 k (c.u32 k)) i = if k ≤ i ∧ i < k + 4 then c i else b i := by
  by_cases h : k ≤ i ∧ i < k + 4
  · rw [if_pos h]
    exact octets_of_u32 (u32_set32_same _) h.1 h.2
  · rw [if_neg h, set32_of_ne _ (by omega)]

theorem u16_of_holds {v : UInt16} (h : b.Holds i (put16 v)) : b.u16 i = v := by
  have h₀ : b i = (v >>> 8).toUInt8 := h 0 (by simp)
  have h₁ : b (i + 1) = v.toUInt8 := h 1 (by simp)
  rw [u16, h₀, h₁, get16_put16]

@[simp] theorem length_slice (b : Buf) (k n : Nat) : (b.slice k n).length = n := by simp [slice]

theorem slice_zero_eq_take (b : Buf) (n : Nat) : b.slice 0 n = b.take n := by
  simp [slice, take]

theorem slice_congr (h : ∀ i, k ≤ i → i < k + n → b i = c i) : b.slice k n = c.slice k n := by
  rw [slice]
  exact List.map_congr_left fun i hi => h (k + i) (by omega)
    (Nat.add_lt_add_left (List.mem_range.mp hi) k)

theorem slice_succ (b : Buf) (k n : Nat) : b.slice k (n + 1) = b k :: b.slice (k + 1) n := by
  simp only [slice, List.range_succ_eq_map, List.map_cons, List.map_map, Nat.add_zero]
  congr 1
  refine List.map_congr_left fun i _ => congrArg b ?_
  exact Nat.add_right_comm k i 1

theorem slice_four (b : Buf) (k : Nat) : b.slice k 4 = put32 (b.u32 k) := by
  rw [u32, put32_get32, slice_succ, slice_succ, slice_succ, slice_succ]
  rfl

theorem u32_of_slice {v : UInt32} (h : b.slice k 4 = put32 v) : b.u32 k = v := by
  rw [slice_four] at h
  exact put32_inj h

theorem slice_add (b : Buf) (k n m : Nat) :
    b.slice k (n + m) = b.slice k n ++ b.slice (k + n) m := by
  simp [slice, List.range_add, Nat.add_assoc]

theorem take_slice (b : Buf) (k : Nat) {m n : Nat} (h : m ≤ n) :
    (b.slice k n).take m = b.slice k m := by
  obtain ⟨j, rfl⟩ := Nat.exists_eq_add_of_le h
  rw [slice_add]
  exact List.take_left' (length_slice b k m)

theorem putAt_nil (b : Buf) (k : Nat) : b.putAt k [] = b := by
  funext i
  exact if_neg (by simp)

theorem putAt_of_lt (l : List UInt8) (h : i < k) : b.putAt k l i = b i :=
  if_neg (by omega)

theorem putAt_of_ge (l : List UInt8) (h : k + l.length ≤ i) : b.putAt k l i = b i :=
  if_neg (by omega)

theorem putAt_slice_apply (b src : Buf) (k a n i : Nat) :
    b.putAt k (src.slice a n) i = if k ≤ i ∧ i < k + n then src (a + (i - k)) else b i := by
  rw [putAt, length_slice]
  by_cases h : k ≤ i ∧ i < k + n
  · have hlt : i - k < n := by omega
    rw [if_pos h, if_pos h]
    simp [slice, hlt]
  · rw [if_neg h, if_neg h]

theorem slice_putAt_same (l : List UInt8) : (b.putAt k l).slice k l.length = l := by
  apply List.ext_getElem
  · simp
  · intro i hi hl
    simp [slice, putAt, hl]

theorem slice_putAt_of_length {l : List UInt8} (h : l.length = n) : (b.putAt k l).slice k n = l :=
  h ▸ slice_putAt_same l

theorem slice_putAt_apart (l : List UInt8) (h : i + n ≤ k ∨ k + l.length ≤ i) :
    (b.putAt k l).slice i n = b.slice i n := by
  refine slice_congr ?_
  intro j hj hjn
  rcases h with h | h
  · exact putAt_of_lt l (by omega)
  · exact putAt_of_ge l (by omega)

/-- What is moved to the end of the front is behind it. -/
theorem slice_move (b : Buf) (src dst n : Nat) :
    (b.move src dst n).slice 0 (dst + n) = b.slice 0 dst ++ b.slice src n := by
  rw [slice_add, Nat.zero_add]
  congr 1
  · exact slice_putAt_apart _ (.inl (Nat.zero_add dst).le)
  · have h := @slice_putAt_same b dst (b.slice src n)
    rwa [length_slice] at h

theorem move_of_ge {b : Buf} {src dst n i : Nat} (h : dst + n ≤ i) : b.move src dst n i = b i :=
  putAt_of_ge _ (by rwa [length_slice])

theorem length_take (b : Buf) (n : Nat) : (b.take n).length = n := by simp [take]

theorem take_congr (h : ∀ i, i < n → b i = c i) : b.take n = c.take n := by
  rw [take]
  exact List.map_congr_left fun i hi => h i (List.mem_range.mp hi)

theorem take_inj (h : b.take n = c.take n) (hi : i < n) : b i = c i := by
  have hget := congrArg (fun l => l[i]?) h
  simpa [take, hi] using hget

theorem take_of {p : List UInt8} (h : n ≤ p.length) : (of p).take n = p.take n := by
  apply List.ext_getElem
  · simp [take, h]
  · intro i hi _
    have hlt : i < p.length := by
      rw [length_take] at hi
      omega
    simp [take, of_lt hlt]

end

end Buf

end VxWorks.Lib
