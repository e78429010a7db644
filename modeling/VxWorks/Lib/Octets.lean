import Mathlib.Data.UInt
import Mathlib.Data.List.Basic

/-!
# Octets and numbers in network order

Packet formats keep two and four octet integers most significant octet first,
and code that must not care about its own byte order reads and writes them one
octet at a time. `get16`/`put16` and `get32`/`put32` do that. What is proved is
that they are inverse to each other both ways, which is all a parser or a packet
builder ever asks of them; the arithmetic is confined to this file, where it is
read through `toNat`.
-/

namespace VxWorks.Lib

/-- Two octets, most significant first. -/
def put16 (v : UInt16) : List UInt8 := [(v >>> 8).toUInt8, v.toUInt8]

def get16 (b1 b0 : UInt8) : UInt16 := b1.toUInt16 <<< 8 ||| b0.toUInt16

/-- Four octets, most significant first. -/
def put32 (v : UInt32) : List UInt8 :=
  [(v >>> 24).toUInt8, (v >>> 16).toUInt8, (v >>> 8).toUInt8, v.toUInt8]

def get32 (b3 b2 b1 b0 : UInt8) : UInt32 :=
  b3.toUInt32 <<< 24 ||| b2.toUInt32 <<< 16 ||| b1.toUInt32 <<< 8 ||| b0.toUInt32

@[simp] theorem length_put16 (v : UInt16) : (put16 v).length = 2 := rfl

@[simp] theorem length_put32 (v : UInt32) : (put32 v).length = 4 := rfl

/-! The shifts never overlap, so the `|` of the macros is a sum. -/

theorem toNat_get16 (b1 b0 : UInt8) :
    (get16 b1 b0).toNat = b1.toNat * 256 + b0.toNat := by
  have h1 := b1.toNat_lt
  have h0 := b0.toNat_lt
  have e1 : b1.toNat <<< 8 < 65536 := by rw [Nat.shiftLeft_eq]; omega
  simp only [get16, UInt16.toNat_or, UInt16.toNat_shiftLeft, UInt8.toNat_toUInt16,
    UInt16.reduceToNat, Nat.reduceMod]
  rw [Nat.mod_eq_of_lt (by omega), ← Nat.shiftLeft_add_eq_or_of_lt h0, Nat.shiftLeft_eq]

theorem toNat_get32 (b3 b2 b1 b0 : UInt8) :
    (get32 b3 b2 b1 b0).toNat =
      b3.toNat * 16777216 + b2.toNat * 65536 + b1.toNat * 256 + b0.toNat := by
  have h3 := b3.toNat_lt
  have h2 := b2.toNat_lt
  have h1 := b1.toNat_lt
  have h0 := b0.toNat_lt
  have e3 : b3.toNat <<< 24 < 4294967296 := by rw [Nat.shiftLeft_eq]; omega
  have e2 : b2.toNat <<< 16 < 4294967296 := by rw [Nat.shiftLeft_eq]; omega
  have e1 : b1.toNat <<< 8 < 4294967296 := by rw [Nat.shiftLeft_eq]; omega
  have f1 : b1.toNat <<< 8 + b0.toNat < 2 ^ 16 := by rw [Nat.shiftLeft_eq]; omega
  have f2 : b2.toNat <<< 16 + (b1.toNat <<< 8 + b0.toNat) < 2 ^ 24 := by
    simp only [Nat.shiftLeft_eq]; omega
  simp only [get32, UInt32.toNat_or, UInt32.toNat_shiftLeft, UInt8.toNat_toUInt32,
    UInt32.reduceToNat, Nat.reduceMod]
  rw [Nat.mod_eq_of_lt e3, Nat.mod_eq_of_lt e2, Nat.mod_eq_of_lt e1, Nat.or_assoc,
    Nat.or_assoc, ← Nat.shiftLeft_add_eq_or_of_lt h0,
    ← Nat.shiftLeft_add_eq_or_of_lt f1, ← Nat.shiftLeft_add_eq_or_of_lt f2]
  simp only [Nat.shiftLeft_eq]
  omega

@[simp] theorem get16_put16 (v : UInt16) :
    get16 (v >>> 8).toUInt8 v.toUInt8 = v := by
  apply UInt16.toNat_inj.mp
  have h := v.toNat_lt
  rw [toNat_get16]
  simp only [UInt16.toNat_toUInt8, UInt16.toNat_shiftRight, UInt16.reduceToNat,
    Nat.shiftRight_eq_div_pow, Nat.reduceMod, Nat.reducePow]
  omega

@[simp] theorem get32_put32 (v : UInt32) :
    get32 (v >>> 24).toUInt8 (v >>> 16).toUInt8 (v >>> 8).toUInt8 v.toUInt8 = v := by
  apply UInt32.toNat_inj.mp
  have h := v.toNat_lt
  rw [toNat_get32]
  simp only [UInt32.toNat_toUInt8, UInt32.toNat_shiftRight, UInt32.reduceToNat,
    Nat.shiftRight_eq_div_pow, Nat.reduceMod, Nat.reducePow]
  omega

@[simp] theorem put16_get16 (b1 b0 : UInt8) : put16 (get16 b1 b0) = [b1, b0] := by
  have h1 := b1.toNat_lt
  have h0 := b0.toNat_lt
  simp only [put16, List.cons.injEq, and_true, ← UInt8.toNat_inj, UInt16.toNat_toUInt8,
    UInt16.toNat_shiftRight, UInt16.reduceToNat, Nat.shiftRight_eq_div_pow,
    Nat.reduceMod, Nat.reducePow, toNat_get16]
  omega

@[simp] theorem put32_get32 (b3 b2 b1 b0 : UInt8) :
    put32 (get32 b3 b2 b1 b0) = [b3, b2, b1, b0] := by
  have h3 := b3.toNat_lt
  have h2 := b2.toNat_lt
  have h1 := b1.toNat_lt
  have h0 := b0.toNat_lt
  simp only [put32, List.cons.injEq, and_true, ← UInt8.toNat_inj, UInt32.toNat_toUInt8,
    UInt32.toNat_shiftRight, UInt32.reduceToNat, Nat.shiftRight_eq_div_pow,
    Nat.reduceMod, Nat.reducePow, toNat_get32]
  omega

theorem put32_inj {v w : UInt32} (h : put32 v = put32 w) : v = w := by
  simp only [put32, List.cons.injEq, and_true] at h
  obtain ⟨h₃, h₂, h₁, h₀⟩ := h
  rw [← get32_put32 v, ← get32_put32 w, h₃, h₂, h₁, h₀]

/-- What holds of the 256 octets one by one holds of them all. -/
theorem forall_octet {P : UInt8 → Prop} (h : ∀ n < 256, P (UInt8.ofNat n)) (c : UInt8) : P c := by
  have hc := h c.toNat c.toNat_lt
  rwa [UInt8.ofNat_toNat] at hc

end VxWorks.Lib
