import VxWorks.Lib.Buffer

/-!
# A pointer through a packet

A parser that goes through a packet has a pointer and a count of what is left behind it. It
reads octets at small offsets from the pointer and moves on by a length that it has mostly
read itself. The cursor keeps, besides the two, the places that have been read, and `Within`
says that they are all inside of the packet. It is kept by a read as long as there is
something left to read, and by a move that is not further than what is left.
-/

namespace VxWorks.Lib

structure Cursor where
  pos : Nat
  len : Nat
  reads : List Nat

namespace Cursor

def start (len : Nat) : Cursor := ⟨0, len, []⟩

/-- Read the octets at some offsets from the pointer. -/
def look (c : Cursor) (offsets : List Nat) : Cursor :=
  { c with reads := c.reads ++ offsets.map (c.pos + ·) }

def skip (c : Cursor) (n : Nat) : Cursor := { c with pos := c.pos + n, len := c.len - n }

/-- The octets that are left. -/
def rest (c : Cursor) (p : Buf) : List UInt8 := p.slice c.pos c.len

/-- Nothing was read outside of the first `total` octets. -/
structure Within (total : Nat) (c : Cursor) : Prop where
  extent : c.pos + c.len = total
  inside : ∀ i ∈ c.reads, i < total

section

variable {c : Cursor} {p : Buf} {n total : Nat} {offsets : List Nat}

@[simp] theorem look_pos : (c.look offsets).pos = c.pos := rfl

@[simp] theorem look_len : (c.look offsets).len = c.len := rfl

@[simp] theorem length_rest : (c.rest p).length = c.len := Buf.length_slice ..

theorem rest_start (p : Buf) (n : Nat) : (start n).rest p = p.take n := Buf.slice_zero_eq_take ..

@[simp] theorem rest_look : (c.look offsets).rest p = c.rest p := rfl

theorem rest_skip (hn : n ≤ c.len) : (c.skip n).rest p = (c.rest p).drop n := by
  have hsplit : c.rest p = p.slice c.pos n ++ (c.skip n).rest p := by
    show p.slice c.pos c.len = _
    rw [← Nat.add_sub_cancel' hn, Buf.slice_add]
    rfl
  rw [hsplit, List.drop_left' (Buf.length_slice ..)]

/-- A front of two octets. -/
theorem rest_two (h : 2 ≤ c.len) :
    c.rest p = p c.pos :: p (c.pos + 1) :: p.slice (c.pos + 2) (c.len - 2) := by
  obtain ⟨m, hm⟩ : ∃ m, c.len = m + 2 := ⟨c.len - 2, by omega⟩
  rw [rest, hm, Buf.slice_succ, Buf.slice_succ]
  rfl

theorem drop_rest (h : 2 ≤ c.len) (hn : 2 ≤ n) :
    (c.rest p).drop n = (p.slice (c.pos + 2) (c.len - 2)).drop (n - 2) := by
  obtain ⟨m, rfl⟩ := Nat.exists_eq_add_of_le' hn
  rw [rest_two h]
  rfl

theorem rest_three (h : 2 < c.len) :
    ∃ b q, c.rest p = p c.pos :: p (c.pos + 1) :: b :: q := by
  obtain ⟨m, hm⟩ : ∃ m, c.len - 2 = m + 1 := ⟨c.len - 3, by omega⟩
  rw [rest_two (by omega), hm, Buf.slice_succ]
  exact ⟨_, _, rfl⟩

theorem Within.start : (start n).Within n :=
  ⟨Nat.zero_add n, fun _ hi => absurd hi List.not_mem_nil⟩

theorem Within.look (h : c.Within total) (hoff : ∀ i ∈ offsets, i < c.len) :
    (c.look offsets).Within total := by
  refine ⟨h.extent, ?_⟩
  intro i hi
  rcases List.mem_append.mp hi with hi | hi
  · exact h.inside i hi
  · obtain ⟨off, hmem, rfl⟩ := List.mem_map.mp hi
    have := hoff off hmem
    have := h.extent
    show c.pos + off < total
    omega

theorem Within.skip (h : c.Within total) (hn : n ≤ c.len) : (c.skip n).Within total := by
  refine ⟨?_, h.inside⟩
  have := h.extent
  show c.pos + n + (c.len - n) = total
  omega

end

end Cursor

end VxWorks.Lib
